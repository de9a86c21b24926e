import Mathlib.Data.List.Chain
import InferenceGateway.Python.Float
import InferenceGateway.Upstream.Attempts
import InferenceGateway.Upstream.Routing

/-!
# The retry loop as a whole

One call of `_with_retry`, for any bound in place of `MAX_ATTEMPTS`.  `Retry` says where the call
is suspended; here the pauses between attempts are computed as `_retry_delay` computes them, and
everything the call does is logged, in order.

Between two segments other requests and the prober change the pool, so every segment is given a
pool of its own.  `Act.Next` says which act may follow which, and `RetryCall.Stands` where a call
stands after its last act; every segment keeps both, and the contract of the loop is read off the
log.
-/

namespace InferenceGateway

open Py Transition

/-! ## The pause -/

/-- `_MAX_RETRY_DELAY_SEC`. -/
def maxRetryDelaySec : Double := .finite 2

/-- `_JITTER_BASE_SEC`. -/
def jitterBaseSec : Double := .finite (1 / 4)

/-- `min(_JITTER_BASE_SEC * (2 ** attempt), _MAX_RETRY_DELAY_SEC)`: the product converts the
power to a `float` first. -/
def jitterCap (attempt : ℕ) : Except Exc Double :=
  match Double.ofInt (2 ^ attempt) with
  | some x => .ok ((jitterBaseSec.mul x).min maxRetryDelaySec)
  | none => .error .overflowError

/-- `_retry_delay`, given what `random.uniform(0, cap)` draws. -/
def retryDelay (uniform : Double → Double) (attempt : ℕ) (response : Option Response) :
    Except Exc Double :=
  match (response.bind Response.retryAfter).map floatOfStr with
  | some (.ok x) => .ok (x.min maxRetryDelaySec)
  | _ => (jitterCap attempt).map uniform

/-- The call pauses, unless the length of the pause cannot be computed. -/
def Retry.delayed (uniform : Double → Double) : Retry → Retry
  | .sleeping attempt upstream outcome =>
    match retryDelay uniform attempt outcome.toOption with
    | .ok _ => .sleeping attempt upstream outcome
    | .error e => .raised (.builtin e)
  | r => r

/-! ## Acts -/

/-- What a call does. -/
inductive Act where
  /-- `pick`, with these replicas closed and this one excluded, and what it returned. -/
  | picked (closed : List Str) (exclude : Option Str) (found : Option Str)
  /-- An attempt is started. -/
  | sent (upstream : Str)
  /-- The outcome of an attempt is recorded for its replica. -/
  | recorded (upstream : Str) (outcome : Outcome)
  /-- `aclose` has returned. -/
  | closed (response : Response)
  /-- The pause is over. -/
  | slept

/-- An attempt. -/
def Act.isSent : Act → Bool
  | .sent _ => true
  | _ => false

/-- What an act does to the pool. -/
def Act.effect (σ : Settings) (now : ℚ) (p : UpstreamPool) : Act → UpstreamPool
  | .picked _ exclude _ => (p.pick σ exclude now).2
  | .recorded upstream outcome => p.record upstream outcome now
  | _ => p

/-- How a suspended call goes on: the pool as it is then, what the call is resumed with, when. -/
structure Resumption where
  pool : UpstreamPool
  input : Input
  now : ℚ

/-- A call: the pool as the last segment left it, where the call is, what it has done. -/
structure RetryCall where
  pool : UpstreamPool
  retry : Retry
  acts : List Act

section Machine

variable (rt : Runtime) (σ : Settings) (n : ℕ) (stream : Bool) (body : Fields)
  (uniform : Double → Double)

/-- The acts of the head of an iteration. -/
def Retry.startActs (p : UpstreamPool) (exclude : Option Str) (now : ℚ) : List Act :=
  match (p.pick σ exclude now).1 with
  | .error _ => [.picked p.closed exclude none]
  | .ok u => match rt.encodeJson (.dict body) with
    | .error e => [.picked p.closed exclude (some u), .sent u, .recorded u (.error (.builtin e))]
    | .ok _ => [.picked p.closed exclude (some u), .sent u]

/-- The acts of a segment. -/
def Retry.resumeActs (r : Retry) (e : Resumption) : List Act :=
  match r, e.input with
  | .sending _ u, .responded resp => [.recorded u (.ok resp)]
  | .sending _ u, .raised f => if f.isException then [.recorded u (.error (.fault f))] else []
  | .discarding _ _ resp, .done => [.closed resp]
  | .sleeping _ u _, .done => .slept :: startActs rt σ body e.pool (some u) e.now
  | _, _ => []

namespace RetryCall

/-- The first segment. -/
def opened (p : UpstreamPool) (now : ℚ) : RetryCall :=
  let s := Retry.start rt σ n stream p body 0 none now
  ⟨s.1, s.2.2.delayed uniform, Retry.startActs rt σ body p none now⟩

/-- A segment. -/
def resume (c : RetryCall) (e : Resumption) : Option RetryCall :=
  (c.retry.resume rt σ n stream e.pool body e.input e.now).map fun s ↦
    ⟨s.1, s.2.2.delayed uniform, c.acts ++ c.retry.resumeActs rt σ body e⟩

/-- An attempt ends in a response or an `Exception`, and neither `aclose` nor `sleep` raises. -/
def Undisturbed (c : RetryCall) (e : Resumption) : Prop :=
  ∀ f, e.input = .raised f → c.retry.isSending ∧ f.isException

/-- A call from one segment to another, undisturbed. -/
abbrev Goes : RetryCall → List Resumption → RetryCall → Prop :=
  Run (Guarded (Steps (resume rt σ n stream body uniform)) Undisturbed)

end RetryCall

end Machine

/-! ## What may follow what -/

/-- The acts that may follow an act.  An attempt is followed by its record, and a record by
nothing but the close or the pause before the next attempt. -/
inductive Act.Next (stream : Bool) : Act → Act → Prop
  | send {closed : List Str} {exclude : Option Str} {u : Str} :
      Next stream (.picked closed exclude (some u)) (.sent u)
  | record {u : Str} {outcome : Outcome} : Next stream (.sent u) (.recorded u outcome)
  | close {u : Str} {resp : Response} (hs : stream = true) (h : shouldRetry (.ok resp)) :
      Next stream (.recorded u (.ok resp)) (.closed resp)
  | pause {u : Str} {outcome : Outcome} (h : shouldRetry outcome)
      (hopen : stream = true → ∃ e, outcome = .error e) : Next stream (.recorded u outcome) .slept
  | pauseClosed {resp : Response} : Next stream (.closed resp) .slept
  | pick {closed : List Str} {exclude found : Option Str} :
      Next stream .slept (.picked closed exclude found)

/-- Only an outcome that `_should_retry` accepts is followed by anything. -/
theorem Act.Next.retried {stream : Bool} {u : Str} {outcome : Outcome} {act : Act}
    (h : Act.Next stream (.recorded u outcome) act) : shouldRetry outcome := by
  cases h with
  | close _ hr => exact hr
  | pause hr _ => exact hr

/-- The response of a streamed attempt is followed by its close. -/
theorem Act.Next.eq_closed {stream : Bool} {u : Str} {resp : Response} {act : Act}
    (h : Act.Next stream (.recorded u (.ok resp)) act) (hs : stream = true) :
    act = .closed resp := by
  cases h with
  | close _ _ => rfl
  | pause _ hopen =>
      obtain ⟨e, he⟩ := hopen hs
      cases he

/-- Where a call stands after its last act, having started `k` attempts. -/
inductive RetryCall.Stands (n : ℕ) (stream : Bool) : Retry → Act → ℕ → Prop
  | sending {a : ℕ} {u : Str} (ha : a < n) : Stands n stream (.sending a u) (.sent u) (a + 1)
  | discarding {a : ℕ} {u : Str} {resp : Response} (ha : a + 1 < n) (hs : stream = true)
      (h : shouldRetry (.ok resp)) :
      Stands n stream (.discarding a u resp) (.recorded u (.ok resp)) (a + 1)
  | sleeping {a : ℕ} {u : Str} {outcome : Outcome} (ha : a + 1 < n) (h : shouldRetry outcome)
      (hopen : stream = true → ∃ e, outcome = .error e) :
      Stands n stream (.sleeping a u outcome) (.recorded u outcome) (a + 1)
  | sleepingClosed {a : ℕ} {u : Str} {resp : Response} (ha : a + 1 < n) :
      Stands n stream (.sleeping a u (.ok resp)) (.closed resp) (a + 1)
  | returned {u : Str} {resp : Response} {k : ℕ} (hk : k ≤ n) :
      Stands n stream (.returned u resp) (.recorded u (.ok resp)) k
  | unreachable {e : Exn} {u : Str} {k : ℕ} (hk : k ≤ n) :
      Stands n stream (.raised (.upstreamUnreachable e u)) (.recorded u (.error e)) k
  | allOpen {t : ℚ} {exclude : Option Str} {k : ℕ} (hk : k ≤ n) :
      Stands n stream (.raised (.allReplicasOpen t)) (.picked [] exclude none) k
  | overflow {u : Str} {outcome : Outcome} {k : ℕ} (hk : k < n) (hlong : 1024 < k)
      (h : shouldRetry outcome) (hopen : stream = true → ∃ e, outcome = .error e) :
      Stands n stream (.raised (.builtin .overflowError)) (.recorded u outcome) k
  | overflowClosed {resp : Response} {k : ℕ} (hk : k < n) (hlong : 1024 < k) :
      Stands n stream (.raised (.builtin .overflowError)) (.closed resp) k

/-- The call has returned or raised. -/
def Retry.isEnded : Retry → Bool
  | .returned _ _ | .raised _ => true
  | _ => false

/-- A log in order, with its last act and the number of attempts in it. -/
structure RetryCall.Logged (stream : Bool) (acts : List Act) (last : Act) (k : ℕ) : Prop where
  chain : acts.IsChain (Act.Next stream)
  opening : ∃ closed exclude found, acts.head? = some (.picked closed exclude found)
  last : acts.getLast? = some last
  count : acts.countP Act.isSent = k

/-- A call whose log is in order, and that stands where its log has left it. -/
def RetryCall.Sound (n : ℕ) (stream : Bool) (c : RetryCall) : Prop :=
  ∃ last k, Logged stream c.acts last k ∧ Stands n stream c.retry last k

section Invariant

variable {rt : Runtime} {σ : Settings} {n : ℕ} {stream : Bool} {body : Fields}
  {uniform : Double → Double} {acts : List Act} {last act : Act} {k a : ℕ} {u : Str}
  {r : Retry} {outcome : Outcome} {p : UpstreamPool} {exclude : Option Str} {now : ℚ}
  {c c' : RetryCall} {e : Resumption} {es : List Resumption}

/-! ## The pause can be computed -/

/-- The length of a pause cannot be computed after the attempt with index 1024, or a later
one. -/
theorem retryDelay_error {response : Option Response} {x : Exc}
    (h : retryDelay uniform a response = .error x) : x = .overflowError ∧ 1024 ≤ a := by
  unfold retryDelay at h
  split at h
  · cases h
  · unfold jitterCap at h
    have hpow := Double.ofInt_two_pow a
    by_cases ha : 1024 ≤ a
    · rw [hpow, if_pos ha] at h
      cases h
      exact ⟨rfl, ha⟩
    · rw [hpow, if_neg ha] at h
      cases h

/-- `pick` raises `AllReplicasOpen`, with no replica closed. -/
theorem UpstreamPool.closed_eq_nil_of_pick {p' : UpstreamPool} {x : Exn}
    (h : p.pick σ exclude now = (.error x, p')) :
    σ.breakerEnabled = true ∧ p.closed = [] ∧ ∃ t, x = .allReplicasOpen t := by
  by_cases hσ : σ.breakerEnabled = true
  · rcases UpstreamPool.pick_cases p exclude now hσ with ⟨hnil, hp⟩ | ⟨v, hv, next, hp⟩
    · rw [hp] at h
      cases h
      exact ⟨hσ, UpstreamPool.candidates_eq_nil.mp hnil, _, rfl⟩
    · rw [hp] at h
      cases h
  · unfold UpstreamPool.pick at h
    rw [if_pos hσ] at h
    cases h

namespace Retry

/-- A call that has ended is not resumed. -/
theorem not_isEnded_of_resume {x : Input} {s : UpstreamPool × List MetricCall × Retry}
    (h : r.resume rt σ n stream p body x now = some s) : r.isEnded = false := by
  cases r with
  | returned u resp => cases x <;> cases h
  | raised e => cases x <;> cases h
  | _ => rfl

/-! The acts of a segment, by what it does. -/

theorem resumeActs_of_outcome (hr : r = .sending a u)
    (ho : outcome? r e.input = some (u, outcome)) :
    r.resumeActs rt σ body e = [.recorded u outcome] := by
  obtain ⟨p, x, now⟩ := e
  subst hr
  obtain ⟨-, ⟨resp, rfl, rfl⟩ | ⟨f, rfl, hf, rfl⟩⟩ := outcome?_eq_some ho
  · rfl
  · exact if_pos hf

theorem resumeActs_of_closed {resp : Response} (hr : r = .discarding a u resp)
    (hx : e.input = .done) : r.resumeActs rt σ body e = [.closed resp] := by
  unfold resumeActs
  rw [hr, hx]

theorem resumeActs_of_woken (hr : r = .sleeping a u outcome)
    (hx : e.input = .done) :
    r.resumeActs rt σ body e = .slept :: startActs rt σ body e.pool (some u) e.now := by
  unfold resumeActs
  rw [hr, hx]

theorem resumeActs_of_thrown {f : Fault} (hx : e.input = .raised f)
    (hf : ¬(r.isSending ∧ f.isException)) : r.resumeActs rt σ body e = [] := by
  unfold resumeActs
  rw [hx]
  cases r with
  | sending b v => exact if_neg fun h ↦ hf ⟨rfl, h⟩
  | _ => rfl

end Retry

namespace RetryCall

/-- What a segment does: it records the outcome of an attempt and decides, it goes on to the pause
once a response is closed, it goes on to the next attempt once the pause is over, or it raises what
was raised into it. -/
inductive Moved (rt : Runtime) (σ : Settings) (n : ℕ) (stream : Bool) (body : Fields)
    (uniform : Double → Double) (c : RetryCall) (e : Resumption) : RetryCall → Prop
  | recorded {a : ℕ} {u : Str} (outcome : Outcome) (hr : c.retry = .sending a u) :
      Moved rt σ n stream body uniform c e ⟨e.pool.record u outcome e.now,
        (Retry.afterAttempt n stream a u outcome).delayed uniform,
        c.acts ++ [.recorded u outcome]⟩
  | closed {a : ℕ} {u : Str} {resp : Response} (hr : c.retry = .discarding a u resp) :
      Moved rt σ n stream body uniform c e
        ⟨e.pool, (Retry.sleeping a u (.ok resp)).delayed uniform, c.acts ++ [.closed resp]⟩
  | woken {a : ℕ} {u : Str} {outcome : Outcome} (hr : c.retry = .sleeping a u outcome) :
      Moved rt σ n stream body uniform c e
        ⟨(Retry.start rt σ n stream e.pool body (a + 1) (some u) e.now).1,
          (Retry.start rt σ n stream e.pool body (a + 1) (some u) e.now).2.2.delayed uniform,
          c.acts ++ .slept :: Retry.startActs rt σ body e.pool (some u) e.now⟩
  | disturbed {f : Fault} (hx : e.input = .raised f)
      (hf : ¬(c.retry.isSending ∧ f.isException)) (hr : c.retry.isEnded = false) :
      Moved rt σ n stream body uniform c e ⟨e.pool, .raised (.fault f), c.acts ++ []⟩

/-- A segment does one of these. -/
theorem moved_of_resume (h : c.resume rt σ n stream body uniform e = some c') :
    Moved rt σ n stream body uniform c e c' := by
  obtain ⟨s, hresume, rfl⟩ := Option.map_eq_some_iff.mp h
  cases Retry.resumes_of_resume hresume with
  | ended hr ho hs =>
      rw [hs, Retry.resumeActs_of_outcome hr ho]
      exact .recorded _ hr
  | closed hr hx hs =>
      rw [hs, Retry.resumeActs_of_closed hr hx]
      exact .closed hr
  | woken hr hx hs =>
      rw [hs, Retry.resumeActs_of_woken hr hx]
      exact .woken hr
  | thrown hx hf hs =>
      rw [hs, Retry.resumeActs_of_thrown hx hf]
      exact .disturbed hx hf (Retry.not_isEnded_of_resume hresume)

/-- Computing the pause leaves a call where it stands, or raises past the attempt 1024. -/
theorem Stands.delayed (h : Stands n stream r last k) (uniform : Double → Double) :
    Stands n stream (r.delayed uniform) last k := by
  cases h with
  | sleeping ha hr hopen =>
      unfold Retry.delayed
      dsimp only
      split
      · exact .sleeping ha hr hopen
      · rename_i x hx
        obtain ⟨rfl, hlong⟩ := retryDelay_error hx
        exact .overflow ha (Nat.lt_succ_of_le hlong) hr hopen
  | sleepingClosed ha =>
      unfold Retry.delayed
      dsimp only
      split
      · exact .sleepingClosed ha
      · rename_i x hx
        obtain ⟨rfl, hlong⟩ := retryDelay_error hx
        exact .overflowClosed ha (Nat.lt_succ_of_le hlong)
  | sending ha => exact .sending ha
  | discarding ha hs hr => exact .discarding ha hs hr
  | returned hk => exact .returned hk
  | unreachable hk => exact .unreachable hk
  | allOpen hk => exact .allOpen hk
  | overflow hk hlong hr hopen => exact .overflow hk hlong hr hopen
  | overflowClosed hk hlong => exact .overflowClosed hk hlong

/-! ## Logs -/

/-- The first pick. -/
theorem Logged.first {closed : List Str} {found : Option Str} :
    Logged stream [.picked closed exclude found] (.picked closed exclude found) 0 where
  chain := .singleton _
  opening := ⟨closed, exclude, found, rfl⟩
  last := rfl
  count := rfl

/-- An act that may follow the last one. -/
theorem Logged.snoc (h : Logged stream acts last k) (hnext : Act.Next stream last act) :
    Logged stream (acts ++ [act]) act (k + act.isSent.toNat) where
  chain := by
    refine h.chain.append (.singleton act) fun b hb c hc ↦ ?_
    rw [h.last] at hb
    cases hb
    cases hc
    exact hnext
  opening := by
    obtain ⟨closed, exclude, found, hhead⟩ := h.opening
    refine ⟨closed, exclude, found, ?_⟩
    rw [List.head?_append, hhead]
    rfl
  last := List.getLast?_concat
  count := by
    rw [List.countP_append, h.count]
    cases act <;> rfl

/-! ## Segments -/

/-- The decision after an attempt leaves the call standing after the record of it. -/
theorem stands_afterAttempt (ha : a < n) (u : Str) (outcome : Outcome) :
    Stands n stream (Retry.afterAttempt n stream a u outcome) (.recorded u outcome) (a + 1) := by
  unfold Retry.afterAttempt
  cases outcome with
  | ok resp =>
      dsimp only
      split
      · exact .returned ha
      · split
        · exact .returned ha
        · rename_i hmore
          obtain ⟨hlt, hr⟩ := not_or.mp hmore
          split
          · rename_i hs
            exact .discarding (not_le.mp hlt) hs (not_not.mp hr)
          · rename_i hs
            exact .sleeping (not_le.mp hlt) (not_not.mp hr) fun h ↦ absurd h hs
  | error x =>
      dsimp only
      split
      · exact .unreachable ha
      · rename_i hmore
        obtain ⟨hlt, hr⟩ := not_or.mp hmore
        exact .sleeping (not_le.mp hlt) (not_not.mp hr) fun _ ↦ ⟨x, rfl⟩

/-- An attempt that has ended is recorded, and the call stands after the record. -/
theorem sound_recorded (ha : a < n) (h : Logged stream acts (.sent u) (a + 1))
    (outcome : Outcome) (p : UpstreamPool) (uniform : Double → Double) : Sound n stream
      ⟨p, (Retry.afterAttempt n stream a u outcome).delayed uniform,
        acts ++ [.recorded u outcome]⟩ :=
  ⟨.recorded u outcome, a + 1, h.snoc .record, (stands_afterAttempt ha u outcome).delayed uniform⟩

/-- The head of an iteration, after no act at all or after a pause. -/
theorem sound_start (ha : a < n) (h : acts = [] ∧ a = 0 ∨ Logged stream acts .slept a)
    (p : UpstreamPool) (exclude : Option Str) (now : ℚ) : Sound n stream
      ⟨(Retry.start rt σ n stream p body a exclude now).1,
        (Retry.start rt σ n stream p body a exclude now).2.2.delayed uniform,
        acts ++ Retry.startActs rt σ body p exclude now⟩ := by
  have hpicked (found : Option Str) : Logged stream (acts ++ [.picked p.closed exclude found])
      (.picked p.closed exclude found) a := by
    rcases h with ⟨rfl, rfl⟩ | h
    · exact .first
    · exact h.snoc .pick
  unfold Retry.start Retry.startActs
  rcases hp : p.pick σ exclude now with ⟨x | u, p'⟩
  · obtain ⟨-, hclosed, t, rfl⟩ := UpstreamPool.closed_eq_nil_of_pick hp
    have hnone := hpicked none
    rw [hclosed] at hnone
    dsimp only
    rw [hclosed]
    exact ⟨_, a, hnone, .allOpen ha.le⟩
  · have hsent : Logged stream (acts ++ [.picked p.closed exclude (some u), .sent u]) (.sent u)
        (a + 1) := by
      have := (hpicked (some u)).snoc .send
      rwa [List.append_assoc] at this
    dsimp only
    cases rt.encodeJson (.dict body) with
    | ok _ => exact ⟨.sent u, a + 1, hsent, .sending ha⟩
    | error x =>
        have := sound_recorded ha hsent (.error (.builtin x))
          (p'.record u (.error (.builtin x)) now) uniform
        rwa [List.append_assoc] at this

/-- The first segment. -/
theorem sound_opened (hn : 1 ≤ n) (p : UpstreamPool) (now : ℚ) :
    Sound n stream (opened rt σ n stream body uniform p now) :=
  sound_start hn (.inl ⟨rfl, rfl⟩) p none now

/-- The head of the next iteration, after the pause. -/
theorem sound_woken (ha : a + 1 < n) (h : Logged stream acts last (a + 1))
    (hnext : Act.Next stream last .slept) (p : UpstreamPool) (u : Str) (now : ℚ) : Sound n stream
      ⟨(Retry.start rt σ n stream p body (a + 1) (some u) now).1,
        (Retry.start rt σ n stream p body (a + 1) (some u) now).2.2.delayed uniform,
        acts ++ .slept :: Retry.startActs rt σ body p (some u) now⟩ := by
  have := @sound_start rt σ n stream body uniform (acts ++ [.slept]) (a + 1) ha
    (.inr (h.snoc hnext)) p (some u) now
  rwa [List.append_assoc] at this

/-- Every segment keeps a call sound. -/
theorem Sound.resume (h : Sound n stream c) (hquiet : Undisturbed c e)
    (hstep : c.resume rt σ n stream body uniform e = some c') : Sound n stream c' := by
  obtain ⟨last, k, hlog, hstands⟩ := h
  cases moved_of_resume hstep with
  | recorded outcome hr =>
      rw [hr] at hstands
      cases hstands with
      | sending ha => exact sound_recorded ha hlog outcome _ uniform
  | closed hr =>
      rw [hr] at hstands
      cases hstands with
      | discarding ha hs h =>
          have hclosed := hlog.snoc (.close hs h)
          exact ⟨_, _, hclosed, (Stands.sleepingClosed ha).delayed uniform⟩
  | woken hr =>
      rw [hr] at hstands
      cases hstands with
      | sleeping ha h hopen => exact sound_woken ha hlog (.pause h hopen) _ _ _
      | sleepingClosed ha => exact sound_woken ha hlog .pauseClosed _ _ _
  | disturbed hx hf _ => exact absurd (hquiet _ hx) hf

/-- In every run a call is sound. -/
theorem Sound.run (h : Goes rt σ n stream body uniform c es c') (hs : Sound n stream c) :
    Sound n stream c' :=
  h.invariant (fun hstep hs ↦ hs.resume hstep.2 hstep.1) hs

/-! ## The call ends -/

/-- How many segments are left at most. -/
def remaining (n : ℕ) : Retry → ℕ
  | .sending a _ => 3 * (n - a)
  | .discarding a _ _ => 3 * (n - a) - 1
  | .sleeping a _ _ => 3 * (n - a) - 2
  | _ => 0

theorem remaining_delayed_le : remaining n (r.delayed uniform) ≤ remaining n r := by
  cases r with
  | sleeping a u outcome =>
      unfold Retry.delayed
      dsimp only
      split
      · exact le_rfl
      · exact Nat.zero_le _
  | _ => exact le_rfl

theorem remaining_recorded_lt (ha : a < n) :
    remaining n (Retry.recorded n stream p a u outcome now).2.2 < 3 * (n - a) := by
  have hpos : 0 < 3 * (n - a) := by omega
  unfold Retry.recorded Retry.afterAttempt
  cases outcome with
  | ok resp =>
      dsimp only
      split
      · exact hpos
      · split
        · exact hpos
        · split
          · exact Nat.sub_lt hpos one_pos
          · exact Nat.sub_lt hpos two_pos
  | error x =>
      dsimp only
      split
      · exact hpos
      · exact Nat.sub_lt hpos two_pos

theorem remaining_start_le (ha : a < n) :
    remaining n (Retry.start rt σ n stream p body a exclude now).2.2 ≤ 3 * (n - a) := by
  cases Retry.start_cases rt σ n stream p body a exclude now with
  | refused hp hs =>
      rw [hs]
      exact Nat.zero_le _
  | unencoded hp henc hs =>
      rw [hs]
      exact (remaining_recorded_lt ha).le
  | sent hp henc hs =>
      rw [hs]
      exact le_rfl

/-- A call that has not ended has a segment left. -/
theorem Stands.remaining_pos (h : Stands n stream r last k) (hr : r.isEnded = false) :
    0 < remaining n r := by
  cases h with
  | sending ha =>
      simp only [remaining]
      omega
  | discarding ha _ _ =>
      simp only [remaining]
      omega
  | sleeping ha _ _ =>
      simp only [remaining]
      omega
  | sleepingClosed ha =>
      simp only [remaining]
      omega
  | _ => cases hr

/-- Every segment leaves fewer of them. -/
theorem Sound.remaining_lt (h : Sound n stream c)
    (hstep : c.resume rt σ n stream body uniform e = some c') :
    remaining n c'.retry < remaining n c.retry := by
  obtain ⟨last, k, -, hstands⟩ := h
  cases moved_of_resume hstep with
  | @recorded a u outcome hr =>
      rw [hr] at hstands ⊢
      cases hstands with
      | sending ha =>
          exact remaining_delayed_le.trans_lt
            (@remaining_recorded_lt n stream a u outcome e.pool e.now ha)
  | @closed a u resp hr =>
      rw [hr] at hstands ⊢
      have hle : remaining n ((Retry.sleeping a u (.ok resp)).delayed uniform) ≤
          remaining n (.sleeping a u (.ok resp)) := remaining_delayed_le
      refine lt_of_le_of_lt hle ?_
      cases hstands with
      | discarding ha _ _ =>
          simp only [remaining]
          omega
  | @woken a u outcome hr =>
      rw [hr] at hstands ⊢
      refine remaining_delayed_le.trans_lt ?_
      have ha : a + 1 < n := by
        cases hstands with
        | sleeping ha _ _ => exact ha
        | sleepingClosed ha => exact ha
      refine (remaining_start_le ha).trans_lt ?_
      change _ < 3 * (n - a) - 2
      omega
  | disturbed _ _ hr => exact hstands.remaining_pos hr

/-- A run takes no more segments than are left. -/
theorem Sound.length_le (h : Goes rt σ n stream body uniform c es c') :
    Sound n stream c → es.length + remaining n c'.retry ≤ remaining n c.retry := by
  induction h with
  | nil c =>
      intro _
      exact (Nat.zero_add _).le
  | @cons c₁ c₂ c₃ e es hstep _ ih =>
      intro hs
      have hlt := hs.remaining_lt hstep.1
      have hrest := ih (hs.resume hstep.2 hstep.1)
      rw [List.length_cons]
      omega

/-! ## What the acts do to the pool -/

theorem start_effect : (Retry.start rt σ n stream p body a exclude now).1 =
    (Retry.startActs rt σ body p exclude now).foldl (Act.effect σ now) p := by
  have hpick : ∀ closed found, Act.effect σ now p (.picked closed exclude found) =
    (p.pick σ exclude now).2 := fun _ _ ↦ rfl
  unfold Retry.start Retry.startActs
  rcases hp : p.pick σ exclude now with ⟨x | u, p'⟩
  · dsimp only
    rw [List.foldl_cons, hpick, hp]
    rfl
  · dsimp only
    cases rt.encodeJson (.dict body) with
    | ok _ =>
        dsimp only
        rw [List.foldl_cons, hpick, hp]
        rfl
    | error x =>
        dsimp only
        rw [List.foldl_cons, hpick, hp]
        rfl

/-- A segment logs what it does, and does to the pool what it logs: a pick moves the counter, a
record folds the outcome into the breaker of its replica. -/
theorem resume_effect (hstep : c.resume rt σ n stream body uniform e = some c') :
    ∃ acts, c'.acts = c.acts ++ acts ∧ c'.pool = acts.foldl (Act.effect σ e.now) e.pool := by
  cases moved_of_resume hstep with
  | recorded outcome hr => exact ⟨_, rfl, rfl⟩
  | closed hr => exact ⟨_, rfl, rfl⟩
  | woken hr => exact ⟨_, rfl, start_effect⟩
  | disturbed hx hf hr => exact ⟨_, rfl, rfl⟩

/-! ## What `pick` finds -/

/-- `pick` finds nothing exactly if the breaker is on and no replica is closed. -/
theorem picked_startActs {closed : List Str} {exclude' found : Option Str}
    (h : Act.picked closed exclude' found ∈ Retry.startActs rt σ body p exclude now) :
    found = none ↔ σ.breakerEnabled = true ∧ closed = [] := by
  unfold Retry.startActs at h
  rcases hp : p.pick σ exclude now with ⟨x | u, p'⟩
  · rw [hp] at h
    obtain ⟨hσ, hclosed, -⟩ := UpstreamPool.closed_eq_nil_of_pick hp
    obtain ⟨rfl, rfl, rfl⟩ : closed = p.closed ∧ exclude' = exclude ∧ found = none := by
      simpa using h
    exact ⟨fun _ ↦ ⟨hσ, hclosed⟩, fun _ ↦ rfl⟩
  · rw [hp] at h
    obtain ⟨rfl, rfl, rfl⟩ : closed = p.closed ∧ exclude' = exclude ∧ found = some u := by
      dsimp only at h
      cases henc : rt.encodeJson (.dict body) <;> simpa [henc] using h
    constructor
    · exact nofun
    · rintro ⟨hσ, hclosed⟩
      obtain ⟨hmem, hstate⟩ := UpstreamPool.pick_ok_closed hσ hp
      have := UpstreamPool.mem_closed.mpr ⟨hmem, hstate⟩
      rw [hclosed] at this
      exact absurd this List.not_mem_nil

/-- Every pick of a run finds nothing exactly if the breaker is on and no replica is closed. -/
theorem picked_run (h : Goes rt σ n stream body uniform c es c')
    (hs : ∀ closed exclude found, Act.picked closed exclude found ∈ c.acts →
      (found = none ↔ σ.breakerEnabled = true ∧ closed = [])) :
    ∀ closed exclude found, Act.picked closed exclude found ∈ c'.acts →
      (found = none ↔ σ.breakerEnabled = true ∧ closed = []) := by
  refine Run.invariant (P := fun c ↦ ∀ closed exclude found,
    Act.picked closed exclude found ∈ c.acts →
      (found = none ↔ σ.breakerEnabled = true ∧ closed = [])) ?_ h hs
  rintro c e c' ⟨hstep, -⟩ hs closed exclude found hmem
  obtain ⟨s, -, rfl⟩ := Option.map_eq_some_iff.mp hstep
  rcases List.mem_append.mp hmem with hmem | hmem
  · exact hs closed exclude found hmem
  · unfold Retry.resumeActs at hmem
    split at hmem
    · simp at hmem
    · split at hmem <;> simp at hmem
    · simp at hmem
    · have := (List.mem_cons.mp hmem).resolve_left nofun
      exact picked_startActs this
    · exact absurd hmem List.not_mem_nil

/-! ## Reading a log -/

variable {before after : List Act} {act' : Act}

/-- An act that is not the last is followed by one that may follow it. -/
theorem Logged.next (h : Logged stream acts last k) (hacts : acts = before ++ act :: act' :: after) :
    Act.Next stream act act' := by
  have hchain := h.chain
  rw [hacts] at hchain
  exact (List.isChain_append_cons_cons.mp hchain).2.1

/-- An act that does not open the log follows one that it may follow. -/
theorem Logged.prev (h : Logged stream acts last k) (hacts : acts = before ++ act :: after)
    (hact : ∀ closed exclude found, act ≠ .picked closed exclude found) :
    ∃ before' act', before = before' ++ [act'] ∧ Act.Next stream act' act := by
  rcases List.eq_nil_or_concat before with rfl | ⟨before', act', rfl⟩
  · obtain ⟨closed, exclude, found, hhead⟩ := h.opening
    rw [hacts] at hhead
    exact absurd (Option.some.inj hhead) (hact closed exclude found)
  · refine ⟨before', act', List.concat_eq_append, ?_⟩
    rw [List.concat_eq_append, List.append_assoc] at hacts
    exact h.next hacts

/-- The act at the end of the log. -/
theorem Logged.eq_last (h : Logged stream acts last k) (hacts : acts = before ++ [act]) :
    act = last := by
  have hlast := h.last
  rw [hacts, List.getLast?_concat] at hlast
  exact Option.some.inj hlast

end RetryCall

end Invariant

/-! ## The contract -/

namespace RetryCall

/-- What a call keeps to, with a bound of `n` attempts. -/
structure Contract (σ : Settings) (n : ℕ) (stream : Bool) (c : RetryCall) : Prop where
  /-- There are at most `n` attempts. -/
  bound : c.acts.countP Act.isSent ≤ n
  /-- An attempt is recorded next, for the replica it was sent to, unless it is awaited still. -/
  recorded : ∀ before u after, c.acts = before ++ .sent u :: after →
    (after = [] ∧ ∃ a, c.retry = .sending a u) ∨
      ∃ outcome after', after = .recorded u outcome :: after'
  /-- Nothing else is recorded. -/
  sent : ∀ before u outcome after, c.acts = before ++ .recorded u outcome :: after →
    ∃ before', before = before' ++ [.sent u]
  /-- After an outcome that `_should_retry` does not accept, nothing more is done. -/
  again : ∀ before u outcome after, c.acts = before ++ .recorded u outcome :: after →
    after = [] ∨ shouldRetry outcome
  /-- A response with a status below 400 is returned. -/
  success : ∀ before u resp after, c.acts = before ++ .recorded u (.ok resp) :: after →
    resp.statusCode < 400 → after = [] ∧ c.retry = .returned u resp
  /-- The response of a streamed attempt is closed next, unless it is returned, or being closed. -/
  closed : stream = true → ∀ before u resp after,
    c.acts = before ++ .recorded u (.ok resp) :: after →
      (∃ after', after = .closed resp :: after') ∨
        after = [] ∧ (c.retry = .returned u resp ∨ ∃ a, c.retry = .discarding a u resp)
  /-- Nothing else is closed. -/
  discarded : ∀ before resp after, c.acts = before ++ .closed resp :: after →
    stream = true ∧ ∃ before' u, before = before' ++ [.recorded u (.ok resp)]
  /-- `pick` finds nothing exactly if the breaker is on and no replica is closed, and then
  `AllReplicasOpen` is raised. -/
  found : ∀ before closed exclude found after,
    c.acts = before ++ .picked closed exclude found :: after →
      (found = none ↔ σ.breakerEnabled = true ∧ closed = []) ∧
      (found = none → after = [] ∧ ∃ t, c.retry = .raised (.allReplicasOpen t))

/-- How a call ends: with the response of the last attempt, with `UpstreamUnreachable` for the
exception of the last attempt and its replica, or with `AllReplicasOpen` after a pick that found
no replica closed. -/
inductive Concluded (c : RetryCall) : Prop
  | response (before : List Act) (u : Str) (resp : Response)
      (acts : c.acts = before ++ [.recorded u (.ok resp)]) (how : c.retry = .returned u resp)
  | unreachable (before : List Act) (u : Str) (e : Exn)
      (acts : c.acts = before ++ [.recorded u (.error e)])
      (how : c.retry = .raised (.upstreamUnreachable e u))
  | allOpen (before : List Act) (exclude : Option Str) (t : ℚ)
      (acts : c.acts = before ++ [.picked [] exclude none])
      (how : c.retry = .raised (.allReplicasOpen t))

variable {σ : Settings} {n : ℕ} {stream : Bool} {c : RetryCall} {k : ℕ} {last : Act} {r : Retry}
  {u : Str} {outcome : Outcome} {resp : Response}

theorem Stands.le (h : Stands n stream r last k) : k ≤ n := by
  cases h with
  | sending ha => exact ha
  | discarding ha _ _ => exact ha.le
  | sleeping ha _ _ => exact ha.le
  | sleepingClosed ha => exact ha.le
  | returned hk => exact hk
  | unreachable hk => exact hk
  | allOpen hk => exact hk
  | overflow hk _ _ _ => exact hk.le
  | overflowClosed hk _ => exact hk.le

/-- A status below 400 is not retried. -/
theorem not_shouldRetry_of_lt (h : resp.statusCode < 400) : ¬shouldRetry (.ok resp) := by
  intro hr
  have hmem : resp.statusCode ∈ retryableStatus := of_decide_eq_true hr
  simp only [retryableStatus, List.mem_cons, List.not_mem_nil, or_false] at hmem
  omega

section Last

variable {closed : List Str} {exclude found : Option Str}

theorem Stands.of_sent (h : Stands n stream r (.sent u) k) : ∃ a, r = .sending a u := by
  cases h with
  | sending _ => exact ⟨_, rfl⟩

theorem Stands.of_success (h : Stands n stream r (.recorded u (.ok resp)) k)
    (hlt : resp.statusCode < 400) : r = .returned u resp := by
  have hno := not_shouldRetry_of_lt hlt
  cases h with
  | returned _ => rfl
  | discarding _ _ hr => exact absurd hr hno
  | sleeping _ hr _ => exact absurd hr hno
  | overflow _ _ hr _ => exact absurd hr hno

/-- The response of a streamed attempt is returned, or being closed. -/
theorem Stands.of_response (h : Stands n stream r (.recorded u (.ok resp)) k)
    (hs : stream = true) : r = .returned u resp ∨ ∃ a, r = .discarding a u resp := by
  cases h with
  | returned _ => exact .inl rfl
  | discarding _ _ _ => exact .inr ⟨_, rfl⟩
  | sleeping _ _ hopen =>
      obtain ⟨e, he⟩ := hopen hs
      cases he
  | overflow _ _ _ hopen =>
      obtain ⟨e, he⟩ := hopen hs
      cases he

theorem Stands.of_none (h : Stands n stream r (.picked closed exclude none) k) :
    ∃ t, r = .raised (.allReplicasOpen t) := by
  cases h with
  | allOpen _ => exact ⟨_, rfl⟩

end Last

/-- A sound call keeps to the contract. -/
theorem Sound.contract (h : Sound n stream c)
    (hpicked : ∀ closed exclude found, Act.picked closed exclude found ∈ c.acts →
      (found = none ↔ σ.breakerEnabled = true ∧ closed = [])) : Contract σ n stream c := by
  obtain ⟨last, k, hlog, hstands⟩ := h
  constructor
  case bound =>
    rw [hlog.count]
    exact hstands.le
  case recorded =>
    intro before u after hacts
    cases after with
    | nil =>
        obtain rfl := hlog.eq_last hacts
        exact .inl ⟨rfl, hstands.of_sent⟩
    | cons act after =>
        cases hlog.next hacts with
        | record => exact .inr ⟨_, after, rfl⟩
  case sent =>
    intro before u outcome after hacts
    obtain ⟨before', act, rfl, hnext⟩ := hlog.prev hacts nofun
    cases hnext with
    | record => exact ⟨before', rfl⟩
  case again =>
    intro before u outcome after hacts
    cases after with
    | nil => exact .inl rfl
    | cons act after => exact .inr (hlog.next hacts).retried
  case success =>
    intro before u resp after hacts hlt
    cases after with
    | nil =>
        obtain rfl := hlog.eq_last hacts
        exact ⟨rfl, hstands.of_success hlt⟩
    | cons act after => exact absurd (hlog.next hacts).retried (not_shouldRetry_of_lt hlt)
  case closed =>
    intro hs before u resp after hacts
    cases after with
    | nil =>
        obtain rfl := hlog.eq_last hacts
        exact .inr ⟨rfl, hstands.of_response hs⟩
    | cons act after =>
        obtain rfl := (hlog.next hacts).eq_closed hs
        exact .inl ⟨after, rfl⟩
  case discarded =>
    intro before resp after hacts
    obtain ⟨before', act, rfl, hnext⟩ := hlog.prev hacts nofun
    cases hnext with
    | close hs _ => exact ⟨hs, before', _, rfl⟩
  case found =>
    intro before closed exclude found after hacts
    have hmem : Act.picked closed exclude found ∈ c.acts := by
      rw [hacts]
      exact List.mem_append_right _ List.mem_cons_self
    refine ⟨hpicked closed exclude found hmem, ?_⟩
    rintro rfl
    cases after with
    | nil =>
        obtain rfl := hlog.eq_last hacts
        exact ⟨rfl, hstands.of_none⟩
    | cons act after => cases hlog.next hacts

/-- A log ends in its last act. -/
theorem Logged.eq_concat {acts : List Act} (h : Logged stream acts last k) :
    ∃ before, acts = before ++ [last] := by
  refine ⟨acts.dropLast, ?_⟩
  exact (List.dropLast_append_getLast? last h.last).symm

/-- A sound call that has ended has ended as it should, or the pause after more than 1024 attempts
could not be computed. -/
theorem Sound.concluded (h : Sound n stream c) (hend : c.retry.isEnded) :
    Concluded c ∨ c.retry = .raised (.builtin .overflowError) ∧
      1024 < c.acts.countP Act.isSent ∧ c.acts.countP Act.isSent < n := by
  obtain ⟨last, k, hlog, hstands⟩ := h
  obtain ⟨p, r, acts⟩ := c
  obtain ⟨before, hacts⟩ := hlog.eq_concat
  have hcount := hlog.count
  dsimp only at hstands hend hacts hcount ⊢
  cases hstands with
  | sending _ => cases hend
  | discarding _ _ _ => cases hend
  | sleeping _ _ _ => cases hend
  | sleepingClosed _ => cases hend
  | returned _ => exact .inl (.response before _ _ hacts rfl)
  | unreachable _ => exact .inl (.unreachable before _ _ hacts rfl)
  | allOpen _ => exact .inl (.allOpen before _ _ hacts rfl)
  | overflow hk hlong _ _ =>
      right
      rw [hcount]
      exact ⟨rfl, hlong, hk⟩
  | overflowClosed hk hlong =>
      right
      rw [hcount]
      exact ⟨rfl, hlong, hk⟩

/-- A call that has not ended can go on. -/
theorem goes_on (hend : c.retry.isEnded = false) (rt : Runtime) (σ : Settings) (n : ℕ)
    (stream : Bool) (body : Fields) (uniform : Double → Double) : ∃ e c', Undisturbed c e ∧
      c.resume rt σ n stream body uniform e = some c' := by
  obtain ⟨p, r, acts⟩ := c
  cases r with
  | sending a u => exact ⟨⟨p, .responded { statusCode := 200 }, 0⟩, _, nofun, rfl⟩
  | discarding a u resp => exact ⟨⟨p, .done, 0⟩, _, nofun, rfl⟩
  | sleeping a u outcome => exact ⟨⟨p, .done, 0⟩, _, nofun, rfl⟩
  | returned u resp => cases hend
  | raised e => cases hend

/-- **The contract of the retry loop**, for every bound on the attempts, in both modes, and in
every undisturbed run, whatever the attempts end in and whatever others do to the pool meanwhile.
The call keeps to its contract, it goes on until it ends, after at most three segments an attempt,
it ends as it should or because the pause after more than 1024 attempts could not be computed, and
what it logs is what it does to the pool. -/
theorem keeps_contract (rt : Runtime) (σ : Settings) (n : ℕ) (stream : Bool) (body : Fields)
    (uniform : Double → Double) (p : UpstreamPool) (now : ℚ) (hn : 1 ≤ n) (es : List Resumption)
    (c : RetryCall)
    (h : Goes rt σ n stream body uniform (opened rt σ n stream body uniform p now) es c) :
    Contract σ n stream c ∧
    (c.retry.isEnded = false → ∃ e c', Undisturbed c e ∧
      c.resume rt σ n stream body uniform e = some c') ∧
    es.length ≤ 3 * n ∧
    (c.retry.isEnded → Concluded c ∨ c.retry = .raised (.builtin .overflowError) ∧
      1024 < c.acts.countP Act.isSent ∧ c.acts.countP Act.isSent < n) ∧
    (opened rt σ n stream body uniform p now).pool =
      (opened rt σ n stream body uniform p now).acts.foldl (Act.effect σ now) p ∧
    ∀ e c', c.resume rt σ n stream body uniform e = some c' →
      ∃ acts, c'.acts = c.acts ++ acts ∧ c'.pool = acts.foldl (Act.effect σ e.now) e.pool := by
  have hopened : Sound n stream (opened rt σ n stream body uniform p now) := sound_opened hn p now
  have hsound := hopened.run h
  refine ⟨?_, fun hend ↦ goes_on hend rt σ n stream body uniform, ?_, hsound.concluded,
    start_effect, fun e c' ↦ resume_effect⟩
  · refine hsound.contract (picked_run h ?_)
    intro closed exclude found hmem
    exact picked_startActs hmem
  · have hlen := Sound.length_le h hopened
    have hstart : remaining n (opened rt σ n stream body uniform p now).retry ≤ 3 * (n - 0) :=
      remaining_delayed_le.trans (remaining_start_le hn)
    omega

/-- Nothing is raised into the call. -/
def calm (e : Resumption) : Bool :=
  match e.input with
  | .raised _ => false
  | _ => true

theorem undisturbed_of_calm {e : Resumption} (h : calm e) : Undisturbed c e := by
  intro f hf
  unfold calm at h
  rw [hf] at h
  cases h

/-- Two attempts at opening a stream, a 503 and a 200. -/
theorem keeps_contract_second : ∃ es c, Goes .sample .default 2 true [] id
      (opened .sample .default 2 true [] id mixedPool 0) es c ∧ es.length = 4 ∧ Concluded c := by
  obtain ⟨c, hrun, hend⟩ := Run.exists_of_execWhile (resume .sample .default 2 true [] id)
    (fun _ e ↦ calm e) (opened .sample .default 2 true [] id mixedPool 0)
    [⟨mixedPool, .responded { statusCode := 503 }, 0⟩, ⟨mixedPool, .done, 0⟩,
      ⟨mixedPool, .done, 1⟩, ⟨mixedPool, .responded { statusCode := 200 }, 2⟩]
    (fun c ↦ c.retry.isEnded) (by decide +kernel)
  have hgoes : Goes .sample .default 2 true [] id _ _ c :=
    hrun.mono fun h ↦ ⟨h.1, undisturbed_of_calm h.2⟩
  refine ⟨_, c, hgoes, rfl, ?_⟩
  obtain ⟨-, -, -, hconcluded, -⟩ := keeps_contract .sample .default 2 true [] id mixedPool 0 (by decide)
    _ c hgoes
  rcases hconcluded hend with h | ⟨-, hlong, hlt⟩
  · exact h
  · omega

/-! ## More than 1025 attempts -/

section Long

/-- A 429 that does not say when to come back. -/
def refusal429 : Response where
  statusCode := 429

/-- The pool of one replica. -/
def lonePool : UpstreamPool := sampleSystem.world.pool

theorem start_lone (k : ℕ) {exclude : Option Str}
    (h : exclude = none ∨ exclude = some sampleUrl) :
    (Retry.start .sample .default 1026 false lonePool [] k exclude 0).2.2 =
      .sending k sampleUrl := by
  rcases h with rfl | rfl
  · rfl
  · rfl

theorem delayed_refusal429 (k : ℕ) (u : Str) :
    (Retry.sleeping k u (.ok refusal429)).delayed id =
      if 1024 ≤ k then .raised (.builtin .overflowError)
      else .sleeping k u (.ok refusal429) := by
  have hdelay : retryDelay id k (some refusal429) = (jitterCap k).map id := rfl
  have hpow := Double.ofInt_two_pow k
  unfold Retry.delayed
  dsimp only [Except.toOption]
  rw [hdelay]
  unfold jitterCap
  rw [hpow]
  by_cases hk : 1024 ≤ k
  · rw [if_pos hk, if_pos hk]
    rfl
  · rw [if_neg hk, if_neg hk]
    rfl

theorem afterAttempt_refusal429 {k : ℕ} (hk : k ≤ 1024) (u : Str) :
    Retry.afterAttempt 1026 false k u (.ok refusal429) = .sleeping k u (.ok refusal429) := by
  have hmore : ¬(1026 ≤ k + 1 ∨ ¬shouldRetry (.ok refusal429)) := by
    rw [not_or]
    exact ⟨by omega, not_not.mpr (by decide)⟩
  unfold Retry.afterAttempt
  dsimp only
  rw [if_neg (by decide), if_neg hmore]
  rfl

/-- An attempt is answered with a 429. -/
theorem resume_refused {k : ℕ} {u : Str} (hk : k ≤ 1024) (hc : c.retry = .sending k u) :
    ∃ c', c.resume .sample .default 1026 false [] id ⟨lonePool, .responded refusal429, 0⟩ = some c' ∧
      c'.retry = if 1024 ≤ k then .raised (.builtin .overflowError)
        else .sleeping k u (.ok refusal429) := by
  obtain ⟨p, r, acts⟩ := c
  dsimp only at hc
  subst hc
  refine ⟨_, rfl, ?_⟩
  change (Retry.afterAttempt 1026 false k u (.ok refusal429)).delayed id = _
  rw [afterAttempt_refusal429 hk, delayed_refusal429]

/-- The pause is over, and the next attempt is sent. -/
theorem resume_slept {k : ℕ} {outcome : Outcome} (hc : c.retry = .sleeping k sampleUrl outcome) :
    ∃ c', c.resume .sample .default 1026 false [] id ⟨lonePool, .done, 0⟩ = some c' ∧
      c'.retry = .sending (k + 1) sampleUrl := by
  obtain ⟨p, r, acts⟩ := c
  dsimp only at hc
  subst hc
  refine ⟨_, rfl, ?_⟩
  change (Retry.start .sample .default 1026 false lonePool [] (k + 1) (some sampleUrl) 0).2.2.delayed
    id = _
  rw [start_lone (k + 1) (.inr rfl)]
  rfl

/-- Attempt after attempt is answered with a 429. -/
theorem goes_refused : ∀ k ≤ 1024, ∃ es c, Goes .sample .default 1026 false [] id
    (opened .sample .default 1026 false [] id lonePool 0) es c ∧ c.retry = .sending k sampleUrl := by
  intro k
  induction k with
  | zero =>
      intro _
      exact ⟨[], _, .nil _, rfl⟩
  | succ k ih =>
      intro hk
      obtain ⟨es, c, hrun, hc⟩ := ih (Nat.le_of_succ_le hk)
      obtain ⟨c₁, h₁, hc₁⟩ := resume_refused (Nat.le_of_succ_le hk) hc
      rw [if_neg (Nat.not_le_of_lt hk)] at hc₁
      obtain ⟨c₂, h₂, hc₂⟩ := resume_slept hc₁
      refine ⟨_, c₂, (hrun.snoc ⟨h₁, ?_⟩).snoc ⟨h₂, ?_⟩, hc₂⟩
      · exact undisturbed_of_calm rfl
      · exact undisturbed_of_calm rfl

/-- With a bound of 1026, a replica that answers 1025 attempts with a 429: the call raises an
`OverflowError`. -/
theorem not_concluded_overflow : ∃ es c, Goes .sample .default 1026 false [] id
    (opened .sample .default 1026 false [] id lonePool 0) es c ∧
      c.retry = .raised (.builtin .overflowError) ∧ ¬Concluded c := by
  obtain ⟨es, c, hrun, hc⟩ := goes_refused 1024 le_rfl
  obtain ⟨c', h, hc'⟩ := resume_refused le_rfl hc
  rw [if_pos le_rfl] at hc'
  refine ⟨_, c', hrun.snoc ⟨h, undisturbed_of_calm rfl⟩, hc', ?_⟩
  rintro (⟨before, u, resp, -, how⟩ | ⟨before, u, e, -, how⟩ | ⟨before, exclude, t, -, how⟩)
  · rw [hc'] at how
    cases how
  · rw [hc'] at how
    cases how
  · rw [hc'] at how
    cases how

end Long

end RetryCall

end InferenceGateway
