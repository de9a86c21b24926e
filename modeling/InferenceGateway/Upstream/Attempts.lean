import InferenceGateway.Upstream.Client

/-!
# Attempts and what they leave in the breakers

An attempt ends where `_with_retry`, suspended in `_send_and_record`, is resumed with
a response or with an `Exception`; `Retry.outcome?` is the outcome it records then.
The one other thing that reaches a breaker from the retry loop is a body that
cannot be encoded: that attempt ends before it has started, inside the segment that
picked the replica.
-/

namespace InferenceGateway

open Py

/-! ## Exceptions of the pool -/

/-- `AllReplicasOpen` and `UpstreamUnreachable`, which the pool raises itself. -/
def Exn.isRefusal : Exn → Bool
  | .allReplicasOpen _ | .upstreamUnreachable _ _ => true
  | _ => false

theorem Exn.isException_of_isRefusal {e : Exn} (h : e.isRefusal) : e.isException := by
  cases e with
  | fault f => cases h
  | _ => rfl

/-! ## Breakers of a pool -/

/-- What `record` does to the breaker of the replica. -/
def ReplicaBreaker.fold (b : ReplicaBreaker) (outcome : Outcome) (now : ℚ) : ReplicaBreaker :=
  match classify outcome with
  | none => b.recordSuccess
  | some kind => b.recordFailure kind now

namespace ReplicaBreaker

variable {b : ReplicaBreaker} {outcome : Outcome} {now : ℚ}

@[simp] theorem fold_tripScore : (b.fold outcome now).tripScore = b.tripScore := by
  unfold fold
  split
  · rfl
  · exact recordFailure_tripScore

/-- A replica that is out of rotation is not put back by an attempt. -/
theorem fold_state_of_not_closed (h : b.state ≠ .closed) : (b.fold outcome now).state = b.state := by
  unfold fold
  split
  · rfl
  · exact recordFailure_state_of_not_closed h

/-- What is made of a status below 500 weighs nothing. -/
theorem weight_of_classifyStatus {n : Nat} {kind : FailureKind} (h : n < 500)
    (hk : classifyStatus n = some kind) : kind.weight = 0 := by
  unfold classifyStatus at hk
  split at hk
  · cases hk
    rfl
  · split at hk
    · rename_i h₅
      exact absurd h (not_lt.mpr h₅)
    · split at hk
      · cases hk
        rfl
      · cases hk

/-- Every exception weighs the same. -/
theorem weight_classifyExc (e : Exn) : (classifyExc e).weight = 3 := by
  unfold classifyExc
  split <;> rfl

theorem classifyStatus_of_le {n : Nat} (h : 500 ≤ n) : classifyStatus n = some .serverError := by
  have hne : n ≠ 429 := by omega
  rw [classifyStatus, if_neg hne, if_pos h]

/-- An answer with a status below 500 is never held against the replica. -/
theorem fold_state_of_lt {resp : Response} (h : resp.statusCode < 500) :
    (b.fold (.ok resp) now).state = b.state := by
  unfold fold
  split
  · rfl
  · rename_i kind hk
    rw [recordFailure_of_weight_zero (weight_of_classifyStatus h hk)]

end ReplicaBreaker

namespace UpstreamPool

variable {p : UpstreamPool} {σ : Settings} {url u v : Str} {b : ReplicaBreaker} {now : ℚ}
  {exclude : Option Str} {outcome : Outcome}

@[simp] theorem breaker_setBreaker_self : (p.setBreaker url b).breaker url = b := by
  simp [breaker, setBreaker]

theorem breaker_setBreaker_of_ne (h : v ≠ url) : (p.setBreaker url b).breaker v = p.breaker v := by
  simp [breaker, setBreaker, Dict.lookup_set_of_ne h]

/-- Picking a replica moves the counter and nothing else. -/
@[simp] theorem breaker_pick : (p.pick σ exclude now).2.breaker v = p.breaker v := by
  unfold pick
  split
  · rfl
  · split <;> rfl

/-- `pick` raises `AllReplicasOpen`, and nothing else. -/
theorem pick_error {p' : UpstreamPool} {e : Exn} (h : p.pick σ exclude now = (.error e, p')) :
    e.isRefusal := by
  unfold pick at h
  split at h
  · cases h
  · split at h
    · cases h
      rfl
    · cases h

theorem record_eq : p.record u outcome now = p.setBreaker u ((p.breaker u).fold outcome now) := by
  unfold record ReplicaBreaker.fold
  cases classify outcome with
  | none => rfl
  | some kind => rfl

@[simp] theorem breaker_record_self :
    (p.record u outcome now).breaker u = (p.breaker u).fold outcome now := by
  rw [record_eq, breaker_setBreaker_self]

theorem breaker_record_of_ne (h : v ≠ u) : (p.record u outcome now).breaker v = p.breaker v := by
  rw [record_eq, breaker_setBreaker_of_ne h]

/-- A replica without a breaker yet has a fresh one. -/
theorem breaker_resetBreakers (urls : List Str) (h : urls ≠ []) (n : ℕ) (u : Str) :
    (⟨urls, h, n, resetBreakers urls⟩ : UpstreamPool).breaker u = { url := u } := by
  have hlookup : ∀ (us : List Str) (d : Dict Str ReplicaBreaker),
      (d.lookup u).getD { url := u } = { url := u } →
      ((us.foldl (fun d url ↦ d.set url { url }) d).lookup u).getD { url := u } = { url := u } := by
    intro us
    induction us with
    | nil => exact fun d hd ↦ hd
    | cons v us ih =>
        intro d hd
        refine ih _ ?_
        by_cases hv : u = v
        · rw [hv, Dict.lookup_set_self]
          rfl
        · rw [Dict.lookup_set_of_ne hv]
          exact hd
  exact hlookup urls [] rfl

end UpstreamPool

/-! ## Attempts -/

namespace Retry

variable {rt : Runtime} {σ : Settings} {n : ℕ} {stream : Bool} {p p' : UpstreamPool}
  {body : Fields} {r r' : Retry} {x : Input} {now : ℚ} {calls : List MetricCall} {a : ℕ}
  {exclude : Option Str} {u v : Str} {outcome : Outcome} {e : Exn}

/-- The outcome of the attempt that ends here, and its replica. -/
def outcome? : Retry → Input → Option (Str × Outcome)
  | .sending _ u, .responded resp => some (u, .ok resp)
  | .sending _ u, .raised f => if f.isException then some (u, .error (.fault f)) else none
  | _, _ => none

/-- An attempt is under way. -/
def isSending : Retry → Bool
  | .sending _ _ => true
  | _ => false

/-! ### What a segment does -/

/-- What the head of an iteration does: it finds no replica, it finds one and cannot encode the
body, or it sends it. -/
inductive Starts (rt : Runtime) (σ : Settings) (n : ℕ) (stream : Bool) (p : UpstreamPool)
    (body : Fields) (a : ℕ) (exclude : Option Str) (now : ℚ)
    (s : UpstreamPool × List MetricCall × Retry) : Prop
  | refused {p₁ : UpstreamPool} {e : Exn} (hp : p.pick σ exclude now = (.error e, p₁))
      (hs : s = (p₁, [], .raised e))
  | unencoded {p₁ : UpstreamPool} {u : Str} {e : Exc} (hp : p.pick σ exclude now = (.ok u, p₁))
      (henc : rt.encodeJson (.dict body) = .error e)
      (hs : s = recorded n stream p₁ a u (.error (.builtin e)) now)
  | sent {p₁ : UpstreamPool} {u : Str} (hp : p.pick σ exclude now = (.ok u, p₁))
      (henc : rt.encodeJson (.dict body) = .ok ()) (hs : s = (p₁, [], .sending a u))

theorem start_cases (rt : Runtime) (σ : Settings) (n : ℕ) (stream : Bool) (p : UpstreamPool)
    (body : Fields) (a : ℕ) (exclude : Option Str) (now : ℚ) :
    Starts rt σ n stream p body a exclude now (start rt σ n stream p body a exclude now) := by
  unfold start
  split
  · rename_i hp
    exact .refused hp rfl
  · rename_i hp
    split
    · rename_i henc
      exact .unencoded hp henc rfl
    · rename_i henc
      exact .sent hp henc rfl

/-- What a segment does: it records the outcome of the attempt that ends there and decides, it
goes on to the pause once a response is closed, it goes on to the next attempt once the pause is
over, or it raises what was raised into it. -/
inductive Resumes (rt : Runtime) (σ : Settings) (n : ℕ) (stream : Bool) (p : UpstreamPool)
    (body : Fields) (r : Retry) (x : Input) (now : ℚ)
    (s : UpstreamPool × List MetricCall × Retry) : Prop
  | ended {a : ℕ} {u : Str} {outcome : Outcome} (hr : r = .sending a u)
      (ho : outcome? r x = some (u, outcome)) (hs : s = recorded n stream p a u outcome now)
  | closed {a : ℕ} {u : Str} {resp : Response} (hr : r = .discarding a u resp) (hx : x = .done)
      (hs : s = (p, [], .sleeping a u (.ok resp)))
  | woken {a : ℕ} {u : Str} {outcome : Outcome} (hr : r = .sleeping a u outcome) (hx : x = .done)
      (hs : s = start rt σ n stream p body (a + 1) (some u) now)
  | thrown {f : Fault} (hx : x = .raised f) (hf : ¬(r.isSending ∧ f.isException))
      (hs : s = (p, [], .raised (.fault f)))

theorem resumes_of_resume {s : UpstreamPool × List MetricCall × Retry}
    (h : r.resume rt σ n stream p body x now = some s) :
    Resumes rt σ n stream p body r x now s := by
  cases r with
  | sending a u =>
      cases x with
      | responded resp =>
          cases h
          exact .ended rfl rfl rfl
      | raised f =>
          simp only [resume] at h
          split at h
          · rename_i hf
            cases h
            exact .ended rfl (if_pos hf) rfl
          · rename_i hf
            cases h
            exact .thrown rfl (fun hc ↦ hf hc.2) rfl
      | _ => cases h
  | discarding a u resp =>
      cases x with
      | done =>
          cases h
          exact .closed rfl rfl rfl
      | raised f =>
          cases h
          exact .thrown rfl (fun hc ↦ Bool.false_ne_true hc.1) rfl
      | _ => cases h
  | sleeping a u outcome =>
      cases x with
      | done =>
          cases h
          exact .woken rfl rfl rfl
      | raised f =>
          cases h
          exact .thrown rfl (fun hc ↦ Bool.false_ne_true hc.1) rfl
      | _ => cases h
  | returned u resp => cases x <;> cases h
  | raised e => cases x <;> cases h

/-- What ends an attempt: a response, or an exception raised into it. -/
theorem outcome?_eq_some (h : outcome? r x = some (u, outcome)) :
    r.isSending ∧ ((∃ resp, x = .responded resp ∧ outcome = .ok resp) ∨
      ∃ f, x = .raised f ∧ f.isException ∧ outcome = .error (.fault f)) := by
  cases r with
  | sending a v =>
      cases x with
      | responded resp =>
          cases h
          exact ⟨rfl, .inl ⟨resp, rfl, rfl⟩⟩
      | raised f =>
          simp only [outcome?] at h
          split at h
          · rename_i hf
            cases h
            exact ⟨rfl, .inr ⟨f, rfl, hf, rfl⟩⟩
          · cases h
      | _ => cases h
  | _ => cases x <;> cases h

/-! ### What it leaves in the breakers -/

/-- A breaker after an attempt that failed to encode its body. -/
def Unsent (rt : Runtime) (body : Fields) (b b' : ReplicaBreaker) (now : ℚ) : Prop :=
  ∃ e, rt.encodeJson (.dict body) = .error e ∧ b' = b.recordFailure .connect now

/-- The head of an iteration leaves a breaker alone, or charges it with a body that
cannot be encoded. -/
theorem start_breaker (h : start rt σ n stream p body a exclude now = (p', calls, r)) :
    p'.breaker v = p.breaker v ∨ Unsent rt body (p.breaker v) (p'.breaker v) now := by
  have hpick : (p.pick σ exclude now).2.breaker v = p.breaker v := UpstreamPool.breaker_pick
  cases h ▸ start_cases rt σ n stream p body a exclude now with
  | refused hp hs =>
      cases hs
      rw [hp] at hpick
      exact .inl hpick
  | sent hp _ hs =>
      cases hs
      rw [hp] at hpick
      exact .inl hpick
  | @unencoded p₁ u e hp henc hs =>
      cases hs
      rw [hp] at hpick
      by_cases hv : v = u
      · obtain rfl := hv
        refine .inr ⟨e, henc, ?_⟩
        rw [UpstreamPool.breaker_record_self, hpick]
        rfl
      · left
        rw [UpstreamPool.breaker_record_of_ne hv, hpick]

/-- An attempt that ends is recorded in the breaker of its replica. -/
theorem resume_outcome (h : r.resume rt σ n stream p body x now = some (p', calls, r'))
    (ho : outcome? r x = some (u, outcome)) : p' = p.record u outcome now := by
  cases resumes_of_resume h with
  | ended hr ho' hs =>
      cases ho.symm.trans ho'
      cases hs
      rfl
  | closed hr hx hs =>
      rw [hr, hx] at ho
      cases ho
  | woken hr hx hs =>
      rw [hr, hx] at ho
      cases ho
  | thrown hx hf hs =>
      obtain ⟨hsend, ⟨resp, hx', -⟩ | ⟨f, hx', hf', -⟩⟩ := outcome?_eq_some ho
      · cases hx.symm.trans hx'
      · cases hx.symm.trans hx'
        exact absurd ⟨hsend, hf'⟩ hf

/-- Where no attempt ends, a breaker is left alone, but for a body that cannot be
encoded. -/
theorem resume_breaker (h : r.resume rt σ n stream p body x now = some (p', calls, r'))
    (ho : outcome? r x = none) :
    p'.breaker v = p.breaker v ∨ Unsent rt body (p.breaker v) (p'.breaker v) now := by
  cases resumes_of_resume h with
  | ended hr ho' hs => cases ho.symm.trans ho'
  | closed hr hx hs =>
      cases hs
      exact .inl rfl
  | woken hr hx hs => exact start_breaker hs.symm
  | thrown hx hf hs =>
      cases hs
      exact .inl rfl

/-! ### What it raises or returns -/

/-- The decision after an attempt raises `UpstreamUnreachable`, after an exception. -/
theorem afterAttempt_raised (h : afterAttempt n stream a u outcome = .raised e) :
    e.isRefusal ∧ ∃ e', outcome = .error e' := by
  unfold afterAttempt at h
  split at h
  · split at h
    · cases h
    · split at h
      · cases h
      · split at h <;> cases h
  · split at h
    · cases h
      exact ⟨rfl, _, rfl⟩
    · cases h

/-- The head of an iteration raises what the pool raises itself. -/
theorem start_raised (h : start rt σ n stream p body a exclude now = (p', calls, .raised e)) :
    e.isRefusal := by
  cases h ▸ start_cases rt σ n stream p body a exclude now with
  | refused hp hs =>
      cases hs
      exact UpstreamPool.pick_error hp
  | unencoded hp henc hs =>
      exact (afterAttempt_raised (Prod.mk.inj (Prod.mk.inj hs).2).2.symm).1
  | sent hp henc hs => cases hs

/-- What the retry loop raises is raised by the pool itself, at the end of an attempt or
of a pause, or was raised into it. -/
theorem resume_raised (h : r.resume rt σ n stream p body x now = some (p', calls, .raised e)) :
    (e.isRefusal ∧ (x = .done ∨ ∃ f, x = .raised f ∧ r.isSending ∧ f.isException)) ∨
      ∃ f, x = .raised f ∧ e = .fault f ∧ ¬(r.isSending ∧ f.isException) := by
  cases resumes_of_resume h with
  | ended hr ho hs =>
      obtain ⟨hrefusal, e', he'⟩ := afterAttempt_raised (Prod.mk.inj (Prod.mk.inj hs).2).2.symm
      obtain ⟨hsend, ⟨resp, -, hok⟩ | ⟨f, hx, hf, -⟩⟩ := outcome?_eq_some ho
      · cases he'.symm.trans hok
      · exact .inl ⟨hrefusal, .inr ⟨f, hx, hsend, hf⟩⟩
  | closed hr hx hs => cases hs
  | woken hr hx hs => exact .inl ⟨start_raised hs.symm, .inl hx⟩
  | thrown hx hf hs =>
      cases hs
      exact .inr ⟨_, hx, rfl, hf⟩

/-- After an exception the loop does not return. -/
theorem afterAttempt_returned {resp : Response}
    (h : afterAttempt n stream a u outcome = .returned v resp) : outcome = .ok resp ∧ v = u := by
  unfold afterAttempt at h
  split at h
  · split at h
    · cases h
      exact ⟨rfl, rfl⟩
    · split at h
      · cases h
        exact ⟨rfl, rfl⟩
      · split at h <;> cases h
  · split at h <;> cases h

/-- The head of an iteration does not return. -/
theorem start_returned {resp : Response}
    (h : start rt σ n stream p body a exclude now = (p', calls, r)) : r ≠ .returned v resp := by
  rintro rfl
  cases h ▸ start_cases rt σ n stream p body a exclude now with
  | refused hp hs => cases hs
  | unencoded hp henc hs =>
      cases (afterAttempt_returned (Prod.mk.inj (Prod.mk.inj hs).2).2.symm).1
  | sent hp henc hs => cases hs

/-- The loop returns the response of the attempt that ends there. -/
theorem resume_returned {resp : Response}
    (h : r.resume rt σ n stream p body x now = some (p', calls, .returned v resp)) :
    ∃ a, r = .sending a v ∧ x = .responded resp := by
  cases resumes_of_resume h with
  | @ended a u outcome hr ho hs =>
      obtain ⟨hok, rfl⟩ := afterAttempt_returned (Prod.mk.inj (Prod.mk.inj hs).2).2.symm
      refine ⟨a, hr, ?_⟩
      obtain ⟨-, ⟨resp', hx, ho'⟩ | ⟨f, -, -, ho'⟩⟩ := outcome?_eq_some ho
      · cases hok.symm.trans ho'
        exact hx
      · cases hok.symm.trans ho'
  | closed hr hx hs => cases hs
  | woken hr hx hs => exact absurd rfl (start_returned hs.symm)
  | thrown hx hf hs => cases hs

/-- Whatever is raised into the retry loop and is no `Exception` comes out of it. -/
theorem resume_of_not_isException {f : Fault} (hf : ¬f.isException)
    (h : r.resume rt σ n stream p body (.raised f) now = some (p', calls, r')) :
    r' = .raised (.fault f) := by
  cases resumes_of_resume h with
  | ended hr ho hs =>
      obtain ⟨-, ⟨resp, hx, -⟩ | ⟨g, hx, hg, -⟩⟩ := outcome?_eq_some ho
      · cases hx
      · cases hx
        exact absurd hg hf
  | closed hr hx hs => cases hx
  | woken hr hx hs => cases hx
  | thrown hx _ hs =>
      cases hx
      cases hs
      rfl

end Retry

end InferenceGateway
