import InferenceGateway.Middleware

/-!
# Statuses of three digits

The gateway's own refusals have statuses of three digits, and so has what it passes on of a
replica's response, if the replica's has.
-/

namespace InferenceGateway

open Py

variable {rt : Runtime} {σ : Settings}

/-- A status of three digits. -/
def ThreeDigit (status : ℕ) : Prop := 100 ≤ status ∧ status ≤ 999

instance (status : ℕ) : Decidable (ThreeDigit status) := inferInstanceAs (Decidable (_ ∧ _))

/-- If it becomes a response, one with a status of three digits. -/
def Exn.ThreeDigit : Exn → Prop
  | .http statusCode _ _ => InferenceGateway.ThreeDigit statusCode
  | _ => True

/-- The responses of the retry loop have statuses of three digits. -/
def Retry.ThreeDigit : Retry → Prop
  | .discarding _ _ resp | .returned _ resp | .sleeping _ _ (.ok resp) =>
    InferenceGateway.ThreeDigit resp.statusCode
  | .raised e => e.ThreeDigit
  | _ => True

/-- What the request has received, and what it ends with, have statuses of three digits. -/
def Phase.ThreeDigit : Phase → Prop
  | .calling _ retry => retry.ThreeDigit
  | .draining _ _ resp _ | .drainClosing _ _ resp _ => InferenceGateway.ThreeDigit resp.statusCode
  | .ended (.raised e) => e.ThreeDigit
  | _ => True

/-- A response comes with a status of three digits. -/
def Input.ThreeDigit : Input → Prop
  | .responded resp => InferenceGateway.ThreeDigit resp.statusCode
  | _ => True

section Statuses

variable {w w₁ : World} {f : Forward} {started now : ℚ} {e : Exn} {u : Str} {resp : Response}
  {pending : Option Fault} {retry : Retry} {p : Principal} {raw : Bytes} {model : Value}
  {statusCode : ℕ} {reason : String}

theorem reject_threeDigit (headers : List (String × String)) (h : ThreeDigit statusCode) :
    (w.reject rt statusCode reason p model started now headers).2.ThreeDigit := by
  rw [World.reject_snd]
  split
  · exact h
  · trivial

theorem escalate_threeDigit (h : e.ThreeDigit) : (escalate rt w f started now e).2.ThreeDigit := by
  cases e with
  | allReplicasOpen t => exact reject_threeDigit _ (by decide)
  | upstreamUnreachable e' v => exact reject_threeDigit _ (by decide)
  | _ => exact h

theorem leaveCall_threeDigit (h : e.ThreeDigit) :
    (leaveCall rt w f started now e).2.ThreeDigit := by
  unfold leaveCall
  split <;> exact escalate_threeDigit h

theorem leaveDrain_threeDigit (h : ThreeDigit resp.statusCode) :
    (leaveDrain rt w f started now resp pending).2.ThreeDigit := by
  unfold leaveDrain
  split
  · exact leaveCall_threeDigit trivial
  · exact leaveCall_threeDigit (reject_threeDigit _ h)

theorem finishUnstreamed_threeDigit (h : ThreeDigit resp.statusCode) :
    (Phase.ended (finishUnstreamed rt σ w f started now u resp).2).ThreeDigit := by
  cases finishUnstreamed_cases rt σ w f started now u resp with
  | unparsed _ hm =>
      rw [hm]
      exact reject_threeDigit _ (by decide)
  | unread _ _ hm =>
      rw [hm]
      trivial
  | unrecorded _ _ _ hm =>
      rw [hm]
      trivial
  | unlogged _ _ _ _ hm =>
      rw [hm]
      trivial
  | answered _ _ _ _ hm =>
      rw [hm]
      dsimp only
      split
      · exact h
      · trivial

theorem settle_threeDigit (h : retry.ThreeDigit) :
    (settle rt σ w f started now retry).2.ThreeDigit := by
  unfold settle
  split
  · split
    · split
      · exact h
      · trivial
    · exact finishUnstreamed_threeDigit h
  · exact leaveCall_threeDigit h
  · exact h

theorem afterRetry_threeDigit {s : UpstreamPool × List MetricCall × Retry} (h : s.2.2.ThreeDigit) :
    (afterRetry rt σ w f started now s).2.ThreeDigit := settle_threeDigit h

/-! ### The checks -/

/-- What the checks refuse a request with. -/
theorem validate_threeDigit {q : QuotaTracker}
    (h : validate rt σ p q raw = .error (.reject statusCode reason model)) :
    ThreeDigit statusCode := by
  cases refused_of_validate h <;> decide

theorem prepare_threeDigit (h : prepare rt σ p w raw started now = (w₁, .error e)) :
    e.ThreeDigit := by
  unfold prepare at h
  split at h
  · cases h; trivial
  · rename_i statusCode reason model hv
    have he : (w.reject rt statusCode reason p model started now []).2 = e :=
      Except.error.inj (congrArg Prod.snd h)
    rw [← he]
    exact reject_threeDigit _ (validate_threeDigit hv)
  · rename_i f hv
    split at h
    · split at h
      · rename_i reason ha
        have he : (w.reject rt 429 reason p f.model started now []).2 = e :=
          Except.error.inj (congrArg Prod.snd h)
        rw [← he]
        exact reject_threeDigit _ (by decide)
      · cases (Prod.mk.inj h).2
    · cases (Prod.mk.inj h).2

/-! ### The retry loop, and the moves -/

namespace Retry

variable {m a : ℕ} {stream : Bool} {pool : UpstreamPool} {body : Fields} {exclude : Option Str}
  {s : UpstreamPool × List MetricCall × Retry} {x : Input}

theorem recorded_ok_threeDigit (h : InferenceGateway.ThreeDigit resp.statusCode) :
    (recorded m stream pool a u (.ok resp) now).2.2.ThreeDigit := by
  change (afterAttempt m stream a u (.ok resp)).ThreeDigit
  unfold afterAttempt
  dsimp only
  split_ifs <;> exact h

theorem recorded_error_threeDigit :
    (recorded m stream pool a u (.error e) now).2.2.ThreeDigit := by
  change (afterAttempt m stream a u (.error e)).ThreeDigit
  unfold afterAttempt
  dsimp only
  split <;> trivial

theorem start_threeDigit :
    (start rt σ m stream pool body a exclude now).2.2.ThreeDigit := by
  cases start_cases rt σ m stream pool body a exclude now with
  | @refused p' e hp hs =>
      rw [hs]
      have hrefusal := UpstreamPool.pick_error hp
      cases e with
      | allReplicasOpen t => trivial
      | upstreamUnreachable e' v => trivial
      | _ => cases hrefusal
  | unencoded hp henc hs =>
      rw [hs]
      exact recorded_error_threeDigit
  | sent hp henc hs =>
      rw [hs]
      trivial

theorem resume_threeDigit (hr : retry.ThreeDigit) (hx : x.ThreeDigit)
    (h : retry.resume rt σ m stream pool body x now = some s) : s.2.2.ThreeDigit := by
  cases resumes_of_resume h with
  | ended _ ho hs =>
      rw [hs]
      obtain ⟨-, ⟨resp, rfl, rfl⟩ | ⟨f, rfl, -, rfl⟩⟩ := outcome?_eq_some ho
      · exact recorded_ok_threeDigit hx
      · exact recorded_error_threeDigit
  | closed hr' _ hs =>
      subst hr'
      rw [hs]
      exact hr
  | woken _ _ hs =>
      rw [hs]
      exact start_threeDigit
  | thrown _ _ hs =>
      rw [hs]
      trivial

end Retry

variable {phase : Phase} {x : Input} {m : World × Phase}

/-- A step of a request that receives statuses of three digits only. -/
theorem Moves.threeDigit (h : Moves rt σ p started now w phase x m) (hphase : phase.ThreeDigit)
    (hx : x.ThreeDigit) : m.2.ThreeDigit := by
  cases h with
  | aborted g => trivial
  | refused hp => exact prepare_threeDigit hp
  | @admitted raw w₁ f pool calls retry hp hs =>
      have hstart : (Retry.start rt σ MAX_ATTEMPTS f.streaming w₁.pool f.forwarded 0 none
          now).2.2.ThreeDigit := Retry.start_threeDigit
      rw [hs] at hstart
      exact afterRetry_threeDigit hstart
  | called hr => exact afterRetry_threeDigit (Retry.resume_threeDigit hphase hx hr)
  | drained => exact hphase
  | drainEnded _ => exact hphase
  | drainClosed => exact leaveDrain_threeDigit hphase
  | drainFailed g => exact leaveCall_threeDigit trivial
  | finished _ => 
      rcases finishStream_snd rt σ w ‹Forward› started now ‹Str› ‹Response› ‹Relay› ‹Option Fault› with
        hsnd | ⟨e, hsnd⟩
      · rw [hsnd]; trivial
      · rw [hsnd]; trivial
  | _ => trivial

/-- The status a response starts with has three digits. -/
theorem Phase.sent_threeDigit (h : phase.ThreeDigit) (hs : phase.sent? = some statusCode) :
    InferenceGateway.ThreeDigit statusCode := by
  unfold Phase.sent? at hs
  split at hs
  · cases hs; decide
  · cases hs; decide
  · cases hs; decide
  · cases hs; exact h
  · cases hs

end Statuses

end InferenceGateway
