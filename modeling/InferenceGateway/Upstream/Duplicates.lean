import InferenceGateway.Sample

/-!
# Sending a request twice

When `_with_retry` sends a second attempt.  A call is followed on its own here: a
label of its run is the pool as other tasks have left it, what the awaited
operation returned or raised, and the time.

Whether the second attempt is sent is decided by what the first one ended in.
`classify` takes every exception but `ReadTimeout` for a failure to connect, the
ones that can come after the request has been sent too.
-/

namespace InferenceGateway

open Py Transition

/-! ## Runs of a call -/

/-- What a call is resumed with: the pool it finds, the input, the time. -/
abbrev Retry.Label := UpstreamPool × Input × ℚ

/-- One step of a call of `request` or `open_stream`. -/
def Retry.Step (rt : Runtime) (σ : Settings) (stream : Bool) (body : Fields) :
    Retry → Retry.Label → Retry → Prop :=
  fun r l r' ↦ ∃ pool calls,
    r.resume rt σ MAX_ATTEMPTS stream l.1 body l.2.1 l.2.2 = some (pool, calls, r')

/-- Some call whose first `await` ended in `x` sends a second attempt. -/
def SendsAgain (rt : Runtime) (σ : Settings) (stream : Bool) (x : Input) : Prop :=
  ∃ pool body now l labels upstream, l.2.1 = x ∧
    Run (Retry.Step rt σ stream body)
      (Retry.start rt σ MAX_ATTEMPTS stream pool body 0 none now).2.2 (l :: labels)
      (.sending 1 upstream)

/-- The exceptions raised before any byte of the request is delivered. -/
def Fault.beforeSend : Fault → Bool
  | .httpx .connectError | .httpx .connectTimeout | .httpx .poolTimeout
  | .httpx .unsupportedProtocol | .httpx .proxyError => true
  | _ => false

/-- An attempt that ended in `x` has left no work behind: it did not reach the
upstream, or the upstream refused it. -/
def LeftNoWork : Input → Prop
  | .raised f => f.beforeSend
  | .responded resp => resp.statusCode ∈ [429, 502, 503, 504]
  | _ => False

/-- An attempt that ended in `x` may be running on the GPU, and `x` is not the one
exception the retry loop has in mind there. -/
def MayBeRunning : Input → Prop
  | .raised f => f.isException ∧ ¬f.beforeSend ∧ f ≠ .httpx .readTimeout
  | _ => False

namespace Retry

variable {rt : Runtime} {σ : Settings} {stream : Bool} {body : Fields} {r r' : Retry}
  {l : Label} {labels : List Label} {upstream u : Str} {outcome : Outcome}

/-- The call has returned or raised. -/
def Final : Retry → Prop
  | .returned _ _ | .raised _ => True
  | _ => False

theorem Final.not_step (h : r.Final) : ¬Step rt σ stream body r l r' := by
  rintro ⟨pool, calls, hs⟩
  cases r with
  | returned u resp => simp [resume] at hs
  | raised e => simp [resume] at hs
  | sending a u => exact h
  | discarding a u resp => exact h
  | sleeping a u o => exact h

/-- A call that is over sends nothing. -/
theorem Final.not_run (h : r.Final) : ¬Run (Step rt σ stream body) r labels (.sending 1 u) := by
  intro hr
  cases hr with
  | nil => exact h
  | cons hs _ => exact h.not_step hs

/-- Only an outcome that `_should_retry` accepts is followed by another attempt. -/
theorem afterAttempt_final (h : shouldRetry outcome = false) (a : ℕ) :
    (afterAttempt MAX_ATTEMPTS stream a upstream outcome).Final := by
  unfold afterAttempt
  cases outcome with
  | ok resp =>
      dsimp only
      split
      · trivial
      · rw [if_pos (.inr (by simp [h]))]
        trivial
  | error e =>
      dsimp only
      rw [if_pos (.inr (by simp [h]))]
      trivial

/-- The last attempt is followed by none. -/
theorem afterAttempt_last_final : (afterAttempt MAX_ATTEMPTS stream 1 upstream outcome).Final := by
  have hlast : MAX_ATTEMPTS ≤ 1 + 1 := le_rfl
  unfold afterAttempt
  cases outcome with
  | ok resp =>
      dsimp only
      split
      · trivial
      · rw [if_pos (.inl hlast)]
        trivial
  | error e =>
      dsimp only
      rw [if_pos (.inl hlast)]
      trivial

/-- The last attempt is over where it starts, if the body cannot be encoded. -/
theorem start_final_of_encode_error {e : Exc} (henc : rt.encodeJson (.dict body) = .error e)
    {pool pool' : UpstreamPool} {calls : List MetricCall} {exclude : Option Str} {now : ℚ}
    (h : start rt σ MAX_ATTEMPTS stream pool body 1 exclude now = (pool', calls, r)) : r.Final := by
  cases h ▸ start_cases rt σ MAX_ATTEMPTS stream pool body 1 exclude now with
  | refused hp hs =>
      cases hs
      trivial
  | unencoded hp _ hs =>
      cases hs
      exact afterAttempt_last_final
  | sent hp hok hs => cases henc.symm.trans hok

/-- A body that cannot be encoded is never sent: the second attempt fails the way the
first one did. -/
theorem not_run_of_encode_error {e : Exc} (henc : rt.encodeJson (.dict body) = .error e)
    (o : Outcome) : ¬Run (Step rt σ stream body) (.sleeping 0 u o) labels (.sending 1 upstream) := by
  intro hr
  cases labels with
  | nil => cases hr
  | cons l labels =>
      obtain ⟨pool, x, now⟩ := l
      obtain ⟨r', ⟨pool', calls, hs⟩, hr⟩ := Run.cons_iff.mp hr
      have hfinal : r'.Final := by
        cases resumes_of_resume hs with
        | ended hr _ _ => cases hr
        | closed hr _ _ => cases hr
        | woken hr hx hs =>
            cases hr
            exact start_final_of_encode_error henc hs.symm
        | thrown hx hf hs =>
            cases hs
            trivial
      exact hfinal.not_run hr

/-- The first thing a call awaits, if it sends a second attempt, is its first one. -/
theorem start_eq_sending {pool : UpstreamPool} {now : ℚ}
    (hr : Run (Step rt σ stream body) (start rt σ MAX_ATTEMPTS stream pool body 0 none now).2.2
      labels (.sending 1 upstream)) :
    ∃ u, (start rt σ MAX_ATTEMPTS stream pool body 0 none now).2.2 = .sending 0 u := by
  cases start_cases rt σ MAX_ATTEMPTS stream pool body 0 none now with
  | refused hp hs =>
      rw [hs] at hr
      exact absurd hr (Final.not_run trivial)
  | unencoded hp henc hs =>
      rw [hs] at hr
      exact absurd hr (not_run_of_encode_error henc _)
  | @sent p u hp henc hs =>
      rw [hs]
      exact ⟨u, rfl⟩

/-- A second attempt is sent only after an outcome of the first that `_should_retry`
accepts. -/
theorem shouldRetry_of_run
    (hr : Run (Step rt σ stream body) (.sending 0 u) (l :: labels) (.sending 1 upstream)) :
    (∃ resp, l.2.1 = .responded resp ∧ shouldRetry (.ok resp)) ∨
      ∃ f, l.2.1 = .raised f ∧ f.isException ∧ shouldRetry (.error (.fault f)) := by
  obtain ⟨pool, x, now⟩ := l
  obtain ⟨r', ⟨pool', calls, hs⟩, hr⟩ := Run.cons_iff.mp hr
  cases x with
  | responded resp =>
      obtain ⟨-, -, rfl⟩ := by simpa [resume, recorded] using hs
      cases hretry : shouldRetry (.ok resp) with
      | true => exact .inl ⟨resp, rfl, hretry⟩
      | false => exact absurd hr (afterAttempt_final hretry 0).not_run
  | raised f =>
      cases hf : f.isException with
      | true =>
          obtain ⟨-, -, rfl⟩ := by simpa [resume, recorded, hf] using hs
          cases hretry : shouldRetry (.error (.fault f)) with
          | true => exact .inr ⟨f, rfl, hf, hretry⟩
          | false => exact absurd hr (afterAttempt_final hretry 0).not_run
      | false =>
          obtain ⟨-, -, rfl⟩ := by simpa [resume, hf] using hs
          exact absurd hr (Final.not_run trivial)
  | _ => simp [resume] at hs

/-- A read timeout is the one exception that is not retried. -/
theorem shouldRetry_fault {f : Fault} :
    shouldRetry (.error (.fault f)) = true ↔ f ≠ .httpx .readTimeout := by
  cases f with
  | httpx e => cases e <;> simp [shouldRetry, classifyExc]
  | _ => simp [shouldRetry, classifyExc]

/-! ## A call on a pool of one replica -/

/-- A pool of one replica whose breaker has seen nothing. -/
def onePool (u : Str) : UpstreamPool := ⟨[u], List.cons_ne_nil _ _, 0, []⟩

theorem pick_onePool (u : Str) (exclude : Option Str) (now : ℚ) :
    (onePool u).pick σ exclude now = (.ok u, onePool u) := by
  have hc : (onePool u).candidates exclude = [u] := by
    by_cases h : some u = exclude
    · simp [UpstreamPool.candidates, onePool, UpstreamPool.breaker, ReplicaBreaker.allows, ← h]
    · simp [UpstreamPool.candidates, onePool, UpstreamPool.breaker, ReplicaBreaker.allows, h]
  unfold UpstreamPool.pick
  split
  · simp [onePool]
  · rw [hc]
    simp [onePool]

theorem start_onePool (henc : rt.encodeJson (.dict body) = .ok ()) (u : Str) (a : ℕ)
    (exclude : Option Str) (now : ℚ) :
    (start rt σ MAX_ATTEMPTS stream (onePool u) body a exclude now).2.2 = .sending a u := by
  unfold start
  rw [pick_onePool]
  simp [henc]

/-- An exception that is retried is followed by a second attempt, if a replica can be
picked and the call is not interrupted. -/
theorem run_of_shouldRetry {f : Fault} (hf : f.isException)
    (h : shouldRetry (.error (.fault f)) = true) (henc : rt.encodeJson (.dict body) = .ok ())
    (u : Str) (now : ℚ) :
    Run (Step rt σ stream body) (.sending 0 u)
      [(onePool u, .raised f, now), (onePool u, .done, now)] (.sending 1 u) := by
  have hfirst : Step rt σ stream body (.sending 0 u) (onePool u, .raised f, now)
      (.sleeping 0 u (.error (.fault f))) := by
    have hafter : afterAttempt MAX_ATTEMPTS stream 0 u (.error (.fault f)) =
        .sleeping 0 u (.error (.fault f)) := by simp [afterAttempt, h, MAX_ATTEMPTS]
    refine ⟨_, _, (if_pos hf).trans (congrArg some (Prod.ext rfl (Prod.ext rfl hafter)))⟩
  have hsecond : Step rt σ stream body (.sleeping 0 u (.error (.fault f))) (onePool u, .done, now)
      (.sending 1 u) := by
    refine ⟨_, _, congrArg some (Prod.ext rfl (Prod.ext rfl ?_))⟩
    exact start_onePool henc u 1 (some u) now
  exact .cons hfirst (.single hsecond)

end Retry

/-! ## When the second attempt is safe -/

/-- A second attempt is sent only where the first left no work behind, unless the
first ended in an exception, other than a read timeout, that can come after the
request has been sent; and after each of those it is sent. -/
theorem leftNoWork_of_sendsAgain_iff (rt : Runtime) (σ : Settings) (stream : Bool) (x : Input) :
    (SendsAgain rt σ stream x → LeftNoWork x) ↔ ¬MayBeRunning x := by
  constructor
  · intro h hx
    cases x with
    | raised f =>
        obtain ⟨hf, hbefore, hread⟩ := hx
        have henc : rt.encodeJson (.dict []) = .ok () :=
          rt.encodeJson_ok _ rfl rfl (le_trans (by decide) rt.two_le_dumpsDepth)
        refine hbefore (h ⟨Retry.onePool [], [], 0, (Retry.onePool [], .raised f, 0),
          [(Retry.onePool [], .done, 0)], [], rfl, ?_⟩)
        rw [Retry.start_onePool henc]
        exact Retry.run_of_shouldRetry hf (Retry.shouldRetry_fault.mpr hread) henc [] 0
    | _ => exact hx
  · rintro hx ⟨pool, body, now, l, labels, upstream, rfl, hr⟩
    obtain ⟨u, hu⟩ := Retry.start_eq_sending hr
    rw [hu] at hr
    rcases Retry.shouldRetry_of_run hr with ⟨resp, hl, hretry⟩ | ⟨f, hl, hf, hretry⟩
    · rw [hl]
      simpa [LeftNoWork, shouldRetry, retryableStatus] using hretry
    · rw [hl] at hx ⊢
      by_contra hbefore
      exact hx ⟨hf, hbefore, Retry.shouldRetry_fault.mp hretry⟩

/-- A connection that breaks while the answer is read is retried, though the request
has been sent and may be running. -/
theorem sendsAgain_readError :
    ¬(SendsAgain .sample .default false (.raised (.httpx .readError)) →
      LeftNoWork (.raised (.httpx .readError))) := by
  intro h
  have hbody : Runtime.sample.encodeJson (.dict []) = .ok () := by decide
  refine absurd (h ⟨Retry.onePool (str "http://vllm/v1"), [], 0,
    (Retry.onePool (str "http://vllm/v1"), .raised (.httpx .readError), 0),
    [(Retry.onePool (str "http://vllm/v1"), .done, 0)], str "http://vllm/v1", rfl, ?_⟩) Bool.false_ne_true
  rw [Retry.start_onePool hbody]
  exact Retry.run_of_shouldRetry rfl (by decide) hbody _ 0

end InferenceGateway
