import InferenceGateway.Ledger

/-!
# One request, turn by turn

A request is followed on its own here, from its first step to its last; every step finds
the shared state as the other tasks have left it.  What it leaves behind is its `account`:
the reply to the caller, the lines in the audit file, and what is counted.
-/

namespace InferenceGateway

open Py Transition

/-! ## Attempts -/

deriving instance DecidableEq for Exn

/-- What an attempt of the retry loop comes to. -/
inductive Attempt where
  /-- No replica is in rotation. -/
  | refused (retryAfter : ℚ)
  /-- The replica answers, or an exception is raised. -/
  | made (upstream : Str) (outcome : Outcome)
  /-- What is raised is no `Exception`, and stops the request. -/
  | interrupted (g : Fault)
  deriving DecidableEq

namespace Attempt

/-- The attempt is a failure, if it is the last one. -/
def fails : Attempt → Bool
  | .made _ (.ok resp) => 400 ≤ resp.statusCode
  | _ => true

/-- The exception that leaves the retry loop, if the attempt is the last one. -/
def exn? : Attempt → Option Exn
  | .refused retryAfter => some (.allReplicasOpen retryAfter)
  | .made upstream (.error e) => some (.upstreamUnreachable e upstream)
  | .made _ (.ok _) => none
  | .interrupted g => some (.fault g)

end Attempt

namespace Retry

variable (rt : Runtime) (σ : Settings)

/-- The attempt that ends inside the segment that starts it. -/
def startAttempt (pool : UpstreamPool) (body : Fields) (exclude : Option Str) (now : ℚ) :
    List Attempt :=
  match (pool.pick σ exclude now).1 with
  | .error (.allReplicasOpen retryAfter) => [.refused retryAfter]
  | .error _ => []
  | .ok upstream => match rt.encodeJson (.dict body) with
    | .error e => [.made upstream (.error (.builtin e))]
    | .ok _ => []

/-- The attempts that end in a segment of the retry loop. -/
def attempts (pool : UpstreamPool) (body : Fields) (now : ℚ) : Retry → Input → List Attempt
  | .sending _ upstream, .responded resp => [.made upstream (.ok resp)]
  | .sending _ upstream, .raised g =>
    if g.isException then [.made upstream (.error (.fault g))] else [.interrupted g]
  | .sleeping _ upstream _, .done => startAttempt rt σ pool body (some upstream) now
  | _, _ => []

variable {rt σ} {n : ℕ} {stream : Bool} {pool pool' : UpstreamPool} {body : Fields} {now : ℚ}
  {a : ℕ} {exclude : Option Str} {calls : List MetricCall} {r : Retry} {x : Input} {e : Exn} {u : Str}

theorem afterAttempt_exn {outcome : Outcome} (h : afterAttempt n stream a u outcome = .raised e) :
    (Attempt.made u outcome).exn? = some e := by
  unfold afterAttempt at h
  split at h
  · split at h
    · cases h
    · split at h
      · cases h
      · split at h <;> cases h
  · split at h
    · cases h
      rfl
    · cases h

theorem pick_error_wait (h : pool.pick σ exclude now = (.error e, pool')) :
    ∃ wait, e = .allReplicasOpen wait := by
  unfold UpstreamPool.pick at h
  split at h
  · cases h
  · split at h
    · cases h
      exact ⟨_, rfl⟩
    · cases h

/-- What the head of an iteration raises is the exception of the attempt that ends there. -/
theorem start_attempt (h : start rt σ n stream pool body a exclude now = (pool', calls, .raised e)) :
    ∃ t, startAttempt rt σ pool body exclude now = [t] ∧ t.exn? = some e := by
  unfold startAttempt
  cases h ▸ start_cases rt σ n stream pool body a exclude now with
  | refused hp hs =>
      obtain ⟨wait, rfl⟩ := pick_error_wait hp
      cases hs
      rw [hp]
      exact ⟨_, rfl, rfl⟩
  | unencoded hp henc hs =>
      rw [hp]
      dsimp only
      rw [henc]
      exact ⟨_, rfl, afterAttempt_exn (Prod.mk.inj (Prod.mk.inj hs).2).2.symm⟩
  | sent hp henc hs => cases hs

/-- An outcome that is recorded is that of an attempt. -/
theorem attempts_of_outcome {outcome : Outcome} (hr : r = .sending a u)
    (ho : outcome? r x = some (u, outcome)) : attempts rt σ pool body now r x = [.made u outcome] := by
  subst hr
  obtain ⟨-, ⟨resp, rfl, rfl⟩ | ⟨g, rfl, hg, rfl⟩⟩ := outcome?_eq_some ho
  · rfl
  · exact if_pos hg

/-- An attempt that is interrupted has no outcome. -/
theorem attempts_of_interrupted {g : Fault} (hsend : r.isSending) (hg : ¬g.isException) :
    attempts rt σ pool body now r (.raised g) = [.interrupted g] := by
  cases r with
  | sending b v => exact if_neg hg
  | _ => cases hsend

/-- What leaves the retry loop is the exception of the attempt that ends there, or was
raised into something else than an attempt. -/
theorem resume_attempt (h : r.resume rt σ n stream pool body x now = some (pool', calls, .raised e)) :
    (∃ t, attempts rt σ pool body now r x = [t] ∧ t.exn? = some e) ∨
      (r.isSending = false ∧ ∃ g, x = .raised g) := by
  cases resumes_of_resume h with
  | ended hr ho hs =>
      have hraised := (Prod.mk.inj (Prod.mk.inj hs).2).2.symm
      exact .inl ⟨_, attempts_of_outcome hr ho, afterAttempt_exn hraised⟩
  | closed hr hx hs => cases hs
  | woken hr hx hs =>
      rw [hr, hx]
      exact .inl (start_attempt hs.symm)
  | @thrown g hx hf hs =>
      cases hs
      by_cases hsend : r.isSending
      · exact .inl ⟨_, hx ▸ attempts_of_interrupted hsend fun hg ↦ hf ⟨hsend, hg⟩, rfl⟩
      · exact .inr ⟨Bool.eq_false_iff.mpr hsend, g, hx⟩

end Retry

/-! ## A request on its own -/

/-- What a step of a request finds: the shared state, what it is resumed with, the time. -/
structure Turn where
  world : World
  input : Input
  now : ℚ

/-- The exception that is raised into the request. -/
def Input.fault? : Input → Option Fault
  | .raised g => some g
  | _ => none

/-- One step of a request. -/
def turn (rt : Runtime) (σ : Settings) (p : Principal) (started : ℚ) (phase : Phase) (t : Turn) :
    Option Phase :=
  (advance rt σ p started t.world phase t.input t.now).map Prod.snd

/-- Nothing is raised into the request but by an attempt: neither while it discards a
response or pauses, nor while it drains an error response and closes it, other than
what the drain catches. -/
def calm : Phase → Turn → Bool
  | .calling _ retry, t => retry.isSending || t.input.fault?.isNone
  | .draining _ _ _ _, t => t.input.fault?.all Fault.isException
  | .drainClosing _ _ _ pending, t => pending.isNone && t.input.fault?.isNone
  | _, _ => true

/-- The attempts that end in a step. -/
def attemptsAt (rt : Runtime) (σ : Settings) (p : Principal) (started : ℚ) (phase : Phase)
    (t : Turn) : List Attempt :=
  match phase, t.input with
  | .body, .received raw => match prepare rt σ p t.world raw started t.now with
    | (w, .ok f) => Retry.startAttempt rt σ w.pool f.forwarded none t.now
    | _ => []
  | .calling f retry, x => retry.attempts rt σ t.world.pool f.forwarded t.now x
  | _, _ => []

/-- What the accounting compares of a line. -/
structure Line where
  status : Nat
  reason : Option String
  upstream : Option Str
  promptTokens : Value
  completionTokens : Value

def AuditRecord.line (r : AuditRecord) : Line :=
  ⟨r.status, r.reason, r.upstream, r.promptTokens, r.completionTokens⟩

/-- The lines a step adds to the file. -/
def linesAt (rt : Runtime) (σ : Settings) (p : Principal) (started : ℚ) (phase : Phase)
    (t : Turn) : List Line :=
  match advance rt σ p started t.world phase t.input t.now with
  | some m => (m.1.audit.drop t.world.audit.length).map AuditRecord.line
  | none => []

/-- The calls a step adds to the counters of rejections and of missing usage. -/
def callsAt (rt : Runtime) (σ : Settings) (p : Principal) (started : ℚ) (phase : Phase)
    (t : Turn) : List MetricCall :=
  match advance rt σ p started t.world phase t.input t.now with
  | some m => (m.1.metrics.filter MetricCall.booked).drop
      (t.world.metrics.filter MetricCall.booked).length
  | none => []

/-- Status and detail of the `HTTPException` the caller is answered with. -/
def Ended.reply : Ended → Option (Nat × String)
  | .raised (.http statusCode detail _) => some (statusCode, detail)
  | _ => none

/-- What a request leaves behind. -/
structure Account where
  reply : Option (Nat × String)
  lines : List Line
  calls : List MetricCall

/-- The account of a request that ended so after these steps. -/
def account (rt : Runtime) (σ : Settings) (p : Principal) (started : ℚ) (phase : Phase)
    (turns : List Turn) (how : Ended) : Account where
  reply := how.reply
  lines := gather (turn rt σ p started) (linesAt rt σ p started) phase turns
  calls := gather (turn rt σ p started) (callsAt rt σ p started) phase turns

end InferenceGateway
