import Mathlib.Algebra.BigOperators.Group.List.Basic
import Mathlib.Algebra.Group.Prod
import Mathlib.Tactic.Abel
import Mathlib.Tactic.Ring
import InferenceGateway.Python.FloatText
import InferenceGateway.Sample
import InferenceGateway.Stub.Engine

/-!
# What the gauges of the stub say

The gauges of `stub/server.py` are written in many places, one change at each.  What they come to is a
sum over the requests: in every phase a request has a share in each of them (`Call.share`), and a step
changes the gauges by the change of the share of the request it is about.  The semaphore is accounted
for in the same way, a permit being a share in what it has given out.

One share is never taken back: a request that is cancelled while it waits goes on being counted as
waiting.
-/

namespace InferenceGateway.Stub

open Asyncio Py Transition

/-! ## Shares -/

namespace Call

/-- What a request counts for in `running`. -/
def running : Call → ℤ
  | .holding _ => 1
  | .streaming _ _ _ stage => if stage.isOpen then 1 else 0
  | _ => 0

/-- In `waiting`. -/
def waiting : Call → ℤ
  | .wedged | .queued _ | .ended .abandoned => 1
  | _ => 0

/-- In `generated_tokens`. -/
def generated : Call → ℤ
  | .streaming _ _ sent _ => sent
  | .ended (.answered tokens) => tokens
  | .ended (.streamed words) => words
  | _ => 0

/-- The permits it has. -/
def permits : Call → ℤ
  | .holding _ => 1
  | _ => 0

/-- All four. -/
def share (c : Call) : ℤ × ℤ × ℤ × ℤ := (c.running, c.waiting, c.generated, c.permits)

/-- It is in the block of the semaphore. -/
def isHolding : Call → Bool
  | .holding _ => true
  | _ => false

/-- It is a stream that is open. -/
def isOpen : Call → Bool
  | .streaming _ _ _ stage => stage.isOpen
  | _ => false

/-- It waits, for the semaphore or for nothing. -/
def isWaiting : Call → Bool
  | .wedged | .queued _ => true
  | _ => false

/-- It waited until it was cancelled. -/
def isAbandoned : Call → Bool
  | .ended .abandoned => true
  | _ => false

/-- It has passed the semaphore. -/
def isAdmitted : Call → Bool
  | .wedged | .queued _ | .ended .refused | .ended .abandoned => false
  | .holding _ | .streaming _ _ _ _ => true
  | .ended (.answered _) | .ended (.streamed _) | .ended .failed => true

theorem running_eq (c : Call) : c.running = c.isHolding.toNat + c.isOpen.toNat := by
  cases c with
  | streaming words usage sent stage => cases stage <;> rfl
  | _ => rfl

theorem waiting_eq (c : Call) : c.waiting = c.isWaiting.toNat + c.isAbandoned.toNat := by
  cases c with
  | ended how => cases how <;> rfl
  | _ => rfl

theorem permits_eq (c : Call) : c.permits = c.isHolding.toNat := by
  cases c <;> rfl

end Call

/-- The permits that are out. -/
def StubState.taken (s : StubState) : ℤ := s.sem.elim 0 fun sem ↦ s.capacity - sem.free

/-- What the shares are shares of. -/
def StubState.gauges (s : StubState) : ℤ × ℤ × ℤ × ℤ :=
  (s.running, s.waiting, s.generatedTokens, s.taken)

/-- A change of one element changes the sum by as much. -/
theorem sum_map_set {α M : Type} [AddCommGroup M] {l : List α} {i : ℕ} {a b : α} {f : α → M}
    (h : l[i]? = some a) : ((l.set i b).map f).sum + f a = (l.map f).sum + f b := by
  induction l generalizing i with
  | nil => cases h
  | cons c l ih =>
      cases i with
      | zero =>
          obtain rfl := Option.some.inj h
          simp only [List.set_cons_zero, List.map_cons, List.sum_cons]
          abel
      | succ i =>
          have hsum := ih (i := i) h
          simp only [List.set_cons_succ, List.map_cons, List.sum_cons]
          rw [add_assoc, hsum, add_assoc]

theorem sum_map_toNat {α : Type} (p : α → Bool) (l : List α) :
    (l.map fun a ↦ ((p a).toNat : ℤ)).sum = l.countP p := by
  induction l with
  | nil => rfl
  | cons a l ih =>
      rw [List.map_cons, List.sum_cons, ih, List.countP_cons]
      cases p a with
      | true =>
          rw [if_pos rfl, Bool.toNat_true]
          push_cast
          ring
      | false =>
          rw [if_neg Bool.false_ne_true, Bool.toNat_false]
          push_cast
          ring

/-- The sum of the shares, gauge by gauge. -/
theorem sum_share (calls : List Call) : (calls.map Call.share).sum =
    ((calls.countP Call.isHolding + calls.countP Call.isOpen : ℤ),
      (calls.countP Call.isWaiting + calls.countP Call.isAbandoned : ℤ),
      (calls.map Call.generated).sum, (calls.countP Call.isHolding : ℤ)) := by
  simp only [← sum_map_toNat]
  induction calls with
  | nil => rfl
  | cons c calls ih =>
      simp only [List.map_cons, List.sum_cons, ih, Call.share, Call.running_eq, Call.waiting_eq,
        Call.permits_eq, Prod.mk_add_mk, Prod.mk.injEq]
      exact ⟨by ring, by ring, trivial⟩

namespace StubState

variable {s : StubState} {sem : Semaphore ℕ} {job : Job} {i : ℕ} {c : Call}

theorem sem?_of_sem (h : s.sem = some sem) : s.sem? = some sem := by
  rw [sem?, h]

theorem taken_eq (h : s.sem? = some sem) : s.taken = s.capacity - sem.free := by
  unfold taken
  unfold sem? at h
  split at h
  · rename_i hsem
    cases h
    rw [hsem]
    rfl
  · rename_i hsem
    rw [hsem]
    split at h
    · cases h
    · rename_i hcapacity
      cases h
      change 0 = s.capacity - ((s.capacity.toNat + 0 : ℕ) : ℤ)
      rw [Nat.add_zero, Int.toNat_of_nonneg (not_lt.mp hcapacity), sub_self]

/-- What `leave` does: the permit goes back, and the tokens count if they are all there. -/
theorem leave_eq (s : StubState) (job : Job) : ∃ (n : ℕ) (c : Call),
    s.leave job = ({ s with
      running := s.running - 1, generatedTokens := s.generatedTokens + n
      sem := s.sem.map Semaphore.release }, c) ∧ c.share = (0, 0, (n : ℤ), 0) := by
  unfold leave
  dsimp only
  split
  · split
    · exact ⟨0, .ended .failed, by simp, rfl⟩
    · rename_i usage _
      exact ⟨0, .streaming job.completion.completionTokens usage 0 .unstarted, by simp, rfl⟩
  · exact ⟨_, _, rfl, rfl⟩

theorem taken_release (h : s.sem = some sem) (s' : StubState)
    (h' : s'.sem = s.sem.map Semaphore.release) (hmax : s'.maxConcurrent = s.maxConcurrent) :
    s'.taken = s.taken - 1 := by
  rw [h, Option.map_some] at h'
  rw [taken_eq (sem?_of_sem h'), taken_eq (sem?_of_sem h), Semaphore.free_release, capacity, capacity,
    hmax]
  push_cast
  ring

/-- Leaving the block gives the permit back. -/
theorem leave_gauges (h : s.sem = some sem) (job : Job) :
    (s.leave job).1.gauges + (Call.holding job).share = s.gauges + (s.leave job).2.share := by
  obtain ⟨n, c, heq, hshare⟩ := s.leave_eq job
  rw [heq, hshare]
  have htaken := taken_release h (s.leave job).1 (by rw [heq]) (by rw [heq])
  rw [heq] at htaken
  simp only [gauges, htaken, Call.share, Call.running, Call.waiting, Call.generated, Call.permits,
    Prod.mk_add_mk, Prod.mk.injEq]
  refine ⟨by ring, trivial, by ring, by ring⟩

/-- `enter` is called with the permit taken. -/
theorem enter_gauges (h : s.sem = some sem) (job : Job) :
    (s.enter job).1.gauges + (0, 1, 0, 1) = s.gauges + (s.enter job).2.share := by
  unfold enter
  dsimp only
  split
  · have htaken : ({ s with waiting := s.waiting - 1, running := s.running + 1 } : StubState).taken =
      s.taken := rfl
    simp only [gauges, htaken, Call.share, Call.running, Call.waiting, Call.generated, Call.permits,
      Prod.mk_add_mk, Prod.mk.injEq]
    exact ⟨by ring, by ring, trivial⟩
  · have hleave := leave_gauges (s := { s with waiting := s.waiting - 1, running := s.running + 1 })
      h job
    have htaken : ({ s with waiting := s.waiting - 1, running := s.running + 1 } : StubState).taken =
      s.taken := rfl
    simp only [gauges, htaken, Call.share, Call.running, Call.waiting, Call.generated, Call.permits,
      Prod.mk_add_mk, Prod.mk.injEq] at hleave ⊢
    omega

/-- The capacity stays, and at most a permit is given back. -/
structure Releases (s s' : StubState) : Prop where
  maxConcurrent : s'.maxConcurrent = s.maxConcurrent
  sem : s'.sem = s.sem ∨ s'.sem = s.sem.map Semaphore.release

theorem releases_leave (s : StubState) (job : Job) : s.Releases (s.leave job).1 := by
  obtain ⟨n, c, heq, -⟩ := s.leave_eq job
  rw [heq]
  exact ⟨rfl, .inr rfl⟩

theorem releases_enter (s : StubState) (job : Job) : s.Releases (s.enter job).1 := by
  unfold enter
  dsimp only
  split
  · exact ⟨rfl, .inl rfl⟩
  · obtain ⟨hmax, hsem⟩ := releases_leave
      { s with waiting := s.waiting - 1, running := s.running + 1 } job
    exact ⟨hmax, hsem⟩

theorem releases_advance {words sent : ℕ} {usage : Bool} {stage : Stage} :
    s.Releases (s.advance words usage sent stage).1 := by
  unfold advance
  split
  · exact ⟨rfl, .inl rfl⟩
  · split
    · exact ⟨rfl, .inl rfl⟩
    · split
      · exact ⟨rfl, .inl rfl⟩
      · exact ⟨rfl, .inl rfl⟩
  · exact ⟨rfl, .inl rfl⟩
  · exact ⟨rfl, .inl rfl⟩
  · exact ⟨rfl, .inl rfl⟩
  · exact ⟨rfl, .inl rfl⟩

/-- A stream counts its frames itself. -/
theorem advance_gauges {words sent : ℕ} {usage : Bool} {stage : Stage} :
    (s.advance words usage sent stage).1.gauges + (Call.streaming words usage sent stage).share =
      s.gauges + (s.advance words usage sent stage).2.share := by
  have hrunning (r : ℤ) : ({ s with running := r } : StubState).taken = s.taken := rfl
  have htokens (n : ℤ) : ({ s with generatedTokens := n } : StubState).taken = s.taken := rfl
  cases stage with
  | unstarted =>
      simp [advance, gauges, hrunning, Call.share, Call.running, Call.waiting, Call.generated,
        Call.permits, Stage.isOpen]
  | word =>
      rw [advance]
      split
      · rfl
      · split
        · rfl
        · simp [gauges, htokens, Call.share, Call.running, Call.waiting, Call.generated, Call.permits,
            Stage.isOpen]
          ring
  | asleep =>
      simp [advance, gauges, htokens, Call.share, Call.running, Call.waiting, Call.generated,
        Call.permits, Stage.isOpen]
      ring
  | stop =>
      cases usage with
      | true =>
          simp [advance, gauges, hrunning, Call.share, Call.running, Call.waiting, Call.generated,
            Call.permits, Stage.isOpen]
      | false =>
          simp [advance, gauges, hrunning, Call.share, Call.running, Call.waiting, Call.generated,
            Call.permits, Stage.isOpen]
  | usage => rfl
  | last => rfl

/-- The state after some requests have come, as far as `_should_fail` changes it. -/
def Same (s t : StubState) : Prop :=
  ∃ requests failAfter failUntil, t = { s with requests, failAfter, failUntil }

theorem same_shouldFail (s : StubState) (now : Double) : s.Same (s.shouldFail now).2 := by
  unfold shouldFail
  dsimp only
  split
  · exact ⟨_, _, _, rfl⟩
  · exact ⟨_, _, _, rfl⟩

/-- What `chat_completions` does when a request comes in. -/
inductive Arrival (s : StubState) (i : ℕ) : StubState × Call → Prop
  | refused {t : StubState} (h : s.Same t) : Arrival s i (t, .ended .refused)
  | wedged {t : StubState} (h : s.Same t) (hwedge : s.wedge) :
      Arrival s i (t.wait, .wedged)
  | abandoned {t : StubState} (h : s.Same t) (hwedge : ¬s.wedge) (hsem : s.sem? = none) :
      Arrival s i (t.wait, .ended .abandoned)
  | queued {t : StubState} {sem : Semaphore ℕ} (job : Job) (h : s.Same t) (hwedge : ¬s.wedge)
      (hsem : s.sem? = some sem) (hacquire : sem.acquire? = none) :
      Arrival s i (t.wait.withSem (sem.wait i), .queued job)
  | entered {t : StubState} {sem sem' : Semaphore ℕ} (job : Job) (h : s.Same t) (hwedge : ¬s.wedge)
      (hsem : s.sem? = some sem) (hacquire : sem.acquire? = some sem') :
      Arrival s i ((t.wait.withSem sem').enter job)

theorem arrival (rt : Runtime) (F : FloatRepr) (sha256 : Bytes → Bytes) (s : StubState) (i : ℕ)
    (body : Value) (now : Double) : s.Arrival i (s.arrive rt F sha256 i body now) := by
  have hsame : s.Same (({ s with requests := s.requests + 1 } : StubState).shouldFail now).2 := by
    obtain ⟨_, _, _, ht⟩ := same_shouldFail { s with requests := s.requests + 1 } now
    rw [ht]
    exact ⟨_, _, _, rfl⟩
  unfold arrive
  dsimp only
  generalize ({ s with requests := s.requests + 1 } : StubState).shouldFail now = q at hsame ⊢
  obtain ⟨fails, t⟩ := q
  dsimp only at hsame ⊢
  split
  · exact .refused hsame
  cases body with
  | dict body =>
      dsimp only
      split
      · exact .refused hsame
      have hwedge : t.wedge = s.wedge := by
        obtain ⟨_, _, _, rfl⟩ := hsame
        rfl
      have hsem : t.wait.sem? = s.sem? := by
        obtain ⟨_, _, _, rfl⟩ := hsame
        rfl
      split
      · rename_i hw
        exact .wedged hsame (hwedge ▸ hw)
      rename_i hw
      rw [hwedge] at hw
      split
      · exact .refused hsame
      rw [hsem]
      cases hs : s.sem? with
      | none => exact .abandoned hsame hw hs
      | some sem =>
          dsimp only
          cases hacquire : sem.acquire? with
          | none => exact .queued _ hsame hw hs hacquire
          | some sem' => exact .entered _ hsame hw hs hacquire
  | _ => exact .refused hsame

end StubState

/-! ## The queue -/

/-- The requests that have passed the semaphore. -/
def Past (calls : List Call) (i : ℕ) : Prop := ∃ c, calls[i]? = some c ∧ c.isAdmitted

/-- What the semaphore and the requests have to do with each other. -/
structure Admits (calls : List Call) (sem : Semaphore ℕ) : Prop where
  live : sem.Live
  queue_lt : ∀ i ∈ sem.queue, i < calls.length
  inOrder : sem.InOrder (Past calls)

section Queue

variable {calls calls' : List Call} {sem sem' : Semaphore ℕ} {i : ℕ} {c c' : Call}

theorem Past.lt (h : Past calls i) : i < calls.length := by
  obtain ⟨c, hc, -⟩ := h
  exact (List.getElem?_eq_some_iff.mp hc).1

theorem Past.of_append {j : ℕ} (h : Past (calls ++ [c]) j) :
    Past calls j ∨ j = calls.length ∧ c.isAdmitted := by
  obtain ⟨d, hd, hadmitted⟩ := h
  rw [List.getElem?_append] at hd
  split at hd
  · exact .inl ⟨d, hd, hadmitted⟩
  · obtain ⟨hlt, heq⟩ := List.getElem?_eq_some_iff.mp hd
    have hzero : j - calls.length = 0 := Nat.lt_one_iff.mp hlt
    simp only [hzero, List.getElem_cons_zero] at heq
    exact .inr ⟨by omega, heq ▸ hadmitted⟩

theorem Past.of_set {j : ℕ} (h : Past (calls.set i c) j) : Past calls j ∨ j = i ∧ c.isAdmitted := by
  obtain ⟨d, hd, hadmitted⟩ := h
  rw [List.getElem?_set] at hd
  split at hd
  · rename_i hij
    split at hd
    · cases hd
      exact .inr ⟨hij.symm, hadmitted⟩
    · cases hd
  · exact .inl ⟨d, hd, hadmitted⟩

namespace Admits

theorem new (calls : List Call) (n : ℕ) : Admits calls { value := n } where
  live := .new n
  queue_lt i hi := by cases hi
  inOrder := .of_pending_eq_nil rfl

theorem release (h : Admits calls sem) : Admits calls sem.release where
  live := h.live.release
  queue_lt := Semaphore.queue_release.symm ▸ h.queue_lt
  inOrder := h.inOrder.release

/-- More requests, or others. -/
theorem past (h : Admits calls sem) (hlen : calls.length ≤ calls'.length)
    (hpast : ∀ j, Past calls' j → Past calls j ∨ j ∈ sem.woken) : Admits calls' sem where
  live := h.live
  queue_lt i hi := (h.queue_lt i hi).trans_le hlen
  inOrder := h.inOrder.mono (.refl _) (List.Subset.refl _) hpast

theorem past_of_append (hc : c.isAdmitted = false) {j : ℕ} (h : Past (calls ++ [c]) j) :
    Past calls j := by
  rcases h.of_append with hold | ⟨-, hnew⟩
  · exact hold
  · rw [hc] at hnew
    cases hnew

/-- A request that comes and does not get past the semaphore. -/
theorem append (h : Admits calls sem) (hc : c.isAdmitted = false) : Admits (calls ++ [c]) sem :=
  h.past (by simp) fun _ hj ↦ .inl (past_of_append hc hj)

/-- A request that comes and has to wait. -/
theorem wait (h : Admits calls sem) (hs : sem.acquire? = none) (hc : c.isAdmitted = false) :
    Admits (calls ++ [c]) (sem.wait calls.length) where
  live := h.live.wait hs fun hmem ↦ (h.queue_lt _ hmem).false
  queue_lt i hi := by
    rw [Semaphore.queue_wait, List.mem_append, List.mem_singleton] at hi
    rw [List.length_append, List.length_singleton]
    rcases hi with hi | rfl
    · exact Nat.lt_succ_of_lt (h.queue_lt i hi)
    · exact Nat.lt_succ_self _
  inOrder := by
    have hwait := h.inOrder.wait (t := calls.length) (fun _ ha ↦ ha.lt)
      (fun a ha ↦ h.queue_lt a (tasksAt_subset ha)) fun a ha ↦ h.queue_lt a (tasksAt_subset ha)
    exact hwait.mono (.refl _) (List.Subset.refl _) fun _ hj ↦ .inl (past_of_append hc hj)

/-- A request that comes when nobody waits. -/
theorem acquire (h : Admits calls sem) (hs : sem.acquire? = some sem') :
    Admits (calls ++ [c]) sem' where
  live := h.live.acquire? hs
  queue_lt i hi := by
    obtain ⟨-, -, -, rfl⟩ := Semaphore.of_acquire? hs
    rw [List.length_append]
    exact Nat.lt_add_right _ (h.queue_lt i hi)
  inOrder := .acquire? hs

/-- A request that goes on, and was past the semaphore if it is. -/
theorem set (h : Admits calls sem) (hc : calls[i]? = some c)
    (hadmitted : c'.isAdmitted → c.isAdmitted) : Admits (calls.set i c') sem := by
  refine h.past (by rw [List.length_set]) fun j hj ↦ .inl ?_
  rcases hj.of_set with hold | ⟨rfl, hnew⟩
  · exact hold
  · exact ⟨c, hc, hadmitted hnew⟩

/-- A request that goes on after its wait. -/
theorem resumed (h : Admits calls sem) (hi : sem.fut? i = some .done) :
    Admits (calls.set i c) (sem.resumed i) where
  live := h.live.resumed
  queue_lt j hj := by
    rw [Semaphore.queue_resumed] at hj
    rw [List.length_set]
    exact h.queue_lt j (Semaphore.queue_remove_subset hj)
  inOrder := by
    refine h.inOrder.resumed h.live.nodup fun j hj ↦ ?_
    rcases hj.of_set with hold | ⟨rfl, -⟩
    · exact .inl hold
    · exact .inr ((Semaphore.fut?_eq_some h.live.nodup).mp hi)

/-- A request that ends in the queue. -/
theorem cancelled (h : Admits calls sem) : Admits calls (sem.cancelled i) where
  live := h.live.cancelled
  queue_lt j hj := by
    rw [Semaphore.queue_cancelled] at hj
    exact h.queue_lt j (Semaphore.queue_remove_subset hj)
  inOrder := h.inOrder.cancelled h.live.nodup

theorem cancel (h : Admits calls sem) : Admits calls (sem.cancel i) where
  live := h.live.cancel
  queue_lt j hj := by
    rw [Semaphore.queue_cancel] at hj
    exact h.queue_lt j hj
  inOrder := h.inOrder.cancel

end Admits

end Queue

/-! ## Runs -/

/-- The gauges are sums of shares, and the semaphore lets through in order. -/
structure Engine.Sound (e : Engine) : Prop where
  gauges : e.state.gauges = (e.calls.map Call.share).sum
  admits : ∀ sem, e.state.sem? = some sem → Admits e.calls sem

namespace StubState

variable {s s' : StubState} {sem sem' : Semaphore ℕ} {job : Job} {i : ℕ} {c c' : Call}
  {calls : List Call}

theorem sem?_congr (hmax : s'.maxConcurrent = s.maxConcurrent) (hsem : s'.sem = s.sem) :
    s'.sem? = s.sem? := by
  rw [sem?, sem?, capacity, capacity, hmax, hsem]

theorem Same.gauges {t : StubState} (h : s.Same t) : t.gauges = s.gauges := by
  obtain ⟨_, _, _, rfl⟩ := h
  rfl

theorem Same.maxConcurrent {t : StubState} (h : s.Same t) : t.maxConcurrent = s.maxConcurrent := by
  obtain ⟨_, _, _, rfl⟩ := h
  rfl

theorem Same.sem? {t : StubState} (h : s.Same t) : t.sem? = s.sem? := by
  obtain ⟨_, _, _, rfl⟩ := h
  rfl

/-- A request more waits. -/
theorem gauges_wait (s : StubState) : s.wait.gauges = s.gauges + (0, 1, 0, 0) := by
  simp only [StubState.gauges, wait, Prod.mk_add_mk, add_zero]
  rfl

/-- Permits are taken, or given back. -/
theorem gauges_withSem (h : s.sem? = some sem) (sem' : Semaphore ℕ) :
    (s.withSem sem').gauges = s.gauges + (0, 0, 0, (sem.free : ℤ) - sem'.free) := by
  have htaken : (s.withSem sem').taken = s.taken + (sem.free - sem'.free) := by
    rw [taken_eq h, taken_eq (s := s.withSem sem') rfl]
    change s.capacity - _ = _
    ring
  simp only [StubState.gauges, htaken, Prod.mk_add_mk, add_zero]
  rfl

theorem gauges_withSem_of_free (h : s.sem? = some sem) (hfree : sem'.free = sem.free) :
    (s.withSem sem').gauges = s.gauges := by
  rw [gauges_withSem h, hfree, sub_self]
  exact add_zero s.gauges

theorem gauges_withSem_of_taken (h : s.sem? = some sem) (hfree : sem'.free + 1 = sem.free) :
    (s.withSem sem').gauges = s.gauges + (0, 0, 0, 1) := by
  rw [gauges_withSem h, ← hfree, Nat.cast_succ, add_sub_cancel_left]

/-- Waiting for a permit and taking it. -/
theorem wait_add_take : ((0, 1, 0, 1) : ℤ × ℤ × ℤ × ℤ) = (0, 1, 0, 0) + (0, 0, 0, 1) := rfl

/-- A request that comes adds its share. -/
theorem Arrival.gauges {r : StubState × Call} (h : s.Arrival i r) :
    r.1.gauges = s.gauges + r.2.share := by
  cases h with
  | refused hsame =>
      rw [hsame.gauges]
      exact (add_zero s.gauges).symm
  | wedged hsame =>
      rw [gauges_wait, hsame.gauges]
      rfl
  | abandoned hsame =>
      rw [gauges_wait, hsame.gauges]
      rfl
  | @queued t sem job hsame _ hsem =>
      have hsem' : t.wait.sem? = some sem := hsame.sem?.trans hsem
      rw [gauges_withSem_of_free hsem' Semaphore.free_wait, gauges_wait, hsame.gauges]
      rfl
  | @entered t sem sem' job hsame _ hsem hacquire =>
      have hsem' : t.wait.sem? = some sem := hsame.sem?.trans hsem
      have henter := enter_gauges (s := t.wait.withSem sem') rfl job
      rw [gauges_withSem_of_taken hsem' (Semaphore.free_acquire? hacquire), gauges_wait, hsame.gauges,
        wait_add_take] at henter
      refine add_right_cancel (henter.trans ?_)
      abel

/-- A request that goes on changes the gauges by what its share changes. -/
theorem resume_gauges (hs : ∀ sem, s.sem? = some sem → sem.Live) (hc : c.permits ≠ 0 → s.sem ≠ none)
    {r : StubState × Call} (h : s.resume i c = some r) :
    r.1.gauges + c.share = s.gauges + r.2.share := by
  cases c with
  | wedged => cases h
  | queued job =>
      obtain ⟨sem, hsem, h⟩ := Option.bind_eq_some_iff.mp h
      split at h
      · rename_i hdone
        cases h
        have hsem' := sem?_of_sem hsem
        have henter := enter_gauges (s := s.withSem (sem.resumed i)) rfl job
        rw [gauges_withSem_of_taken hsem' (Semaphore.free_resumed (hs sem hsem') hdone), wait_add_take,
          ← add_assoc] at henter
        refine add_right_cancel (henter.trans ?_)
        abel
      · cases h
  | holding job =>
      cases h
      obtain ⟨sem, hsem⟩ := Option.ne_none_iff_exists'.mp (hc one_ne_zero)
      exact leave_gauges hsem job
  | streaming words usage sent stage =>
      cases h
      exact advance_gauges
  | ended how => cases h

theorem raised_gauges (hs : ∀ sem, s.sem? = some sem → sem.Live) (hc : c.permits ≠ 0 → s.sem ≠ none)
    {r : StubState × Call} (h : s.raised i c = some r) :
    r.1.gauges + c.share = s.gauges + r.2.share := by
  cases c with
  | wedged =>
      cases h
      rfl
  | queued job =>
      obtain ⟨sem, hsem, h⟩ := Option.bind_eq_some_iff.mp h
      split at h
      · rename_i hfut
        cases h
        have hsem' := sem?_of_sem hsem
        rw [gauges_withSem_of_free hsem' (Semaphore.free_cancelled (hs sem hsem') hfut)]
        rfl
      · cases h
  | holding job =>
      cases h
      obtain ⟨sem, hsem⟩ := Option.ne_none_iff_exists'.mp (hc one_ne_zero)
      have htaken := taken_release hsem { s with
        running := s.running - 1, sem := s.sem.map Semaphore.release } rfl rfl
      simp only [StubState.gauges, htaken, Call.share, Call.running, Call.waiting, Call.generated,
        Call.permits, Prod.mk_add_mk, Prod.mk.injEq]
      exact ⟨by ring, trivial, trivial, by ring⟩
  | streaming words usage sent stage =>
      cases h
      have htaken (n : ℤ) : ({ s with running := n } : StubState).taken = s.taken := rfl
      cases hopen : stage.isOpen with
      | true =>
          simp [hopen, StubState.gauges, htaken, Call.share, Call.running, Call.waiting, Call.generated,
            Call.permits]
      | false =>
          simp [hopen, StubState.gauges, htaken, Call.share, Call.running, Call.waiting, Call.generated,
            Call.permits]
  | ended how => cases h

/-- The semaphore admits as before when a permit is given back. -/
theorem Releases.admits (hr : s.Releases s') (h : ∀ sem, s.sem? = some sem → Admits calls sem) :
    ∀ sem, s'.sem? = some sem → Admits calls sem := by
  obtain ⟨hmax, hsem⟩ := hr
  intro sem hs'
  rcases hsem with hsame | hrelease
  · rw [sem?_congr hmax hsame] at hs'
    exact h sem hs'
  · cases hs : s.sem with
    | none =>
        rw [hs, Option.map_none, ← hs] at hrelease
        rw [sem?_congr hmax hrelease] at hs'
        exact h sem hs'
    | some sem₀ =>
        rw [hs, Option.map_some] at hrelease
        rw [sem?_of_sem hrelease] at hs'
        cases hs'
        exact (h sem₀ (sem?_of_sem hs)).release

/-- What the semaphore is after a method of it has been called. -/
theorem admits_withSem (h : Admits calls sem') :
    ∀ sem, (s.withSem sem').sem? = some sem → Admits calls sem := by
  intro sem hs
  cases hs
  exact h

theorem Arrival.admits {r : StubState × Call} (hr : s.Arrival calls.length r)
    (h : ∀ sem, s.sem? = some sem → Admits calls sem) :
    ∀ sem, r.1.sem? = some sem → Admits (calls ++ [r.2]) sem := by
  cases hr with
  | refused hsame => exact fun sem hs ↦ (h sem (hsame.sem?.symm.trans hs)).append rfl
  | wedged hsame => exact fun sem hs ↦ (h sem (hsame.sem?.symm.trans hs)).append rfl
  | abandoned hsame => exact fun sem hs ↦ (h sem (hsame.sem?.symm.trans hs)).append rfl
  | queued job _ _ hsem hacquire => exact admits_withSem ((h _ hsem).wait hacquire rfl)
  | entered job _ _ hsem hacquire =>
      exact (releases_enter _ job).admits (admits_withSem ((h _ hsem).acquire hacquire))

theorem resume_admits {r : StubState × Call} (hc : calls[i]? = some c) (hr : s.resume i c = some r)
    (h : ∀ sem, s.sem? = some sem → Admits calls sem) :
    ∀ sem, r.1.sem? = some sem → Admits (calls.set i r.2) sem := by
  cases c with
  | wedged => cases hr
  | queued job =>
      obtain ⟨sem, hsem, hr⟩ := Option.bind_eq_some_iff.mp hr
      split at hr
      · rename_i hdone
        cases hr
        exact (releases_enter _ job).admits (admits_withSem ((h sem (sem?_of_sem hsem)).resumed hdone))
      · cases hr
  | holding job =>
      cases hr
      exact (releases_leave s job).admits fun sem hs ↦ (h sem hs).set hc fun _ ↦ rfl
  | streaming words usage sent stage =>
      cases hr
      exact releases_advance.admits fun sem hs ↦ (h sem hs).set hc fun _ ↦ rfl
  | ended how => cases hr

theorem raised_admits {r : StubState × Call} (hc : calls[i]? = some c) (hr : s.raised i c = some r)
    (h : ∀ sem, s.sem? = some sem → Admits calls sem) :
    ∀ sem, r.1.sem? = some sem → Admits (calls.set i r.2) sem := by
  cases c with
  | wedged =>
      cases hr
      exact fun sem hs ↦ (h sem hs).set hc (by simp [Call.isAdmitted])
  | queued job =>
      obtain ⟨sem, hsem, hr⟩ := Option.bind_eq_some_iff.mp hr
      split at hr
      · cases hr
        have hset : Admits (calls.set i (.ended .abandoned)) sem :=
          (h sem (sem?_of_sem hsem)).set hc (by simp [Call.isAdmitted])
        exact admits_withSem hset.cancelled
      · cases hr
  | holding job =>
      cases hr
      have hreleases : s.Releases { s with
          running := s.running - 1, sem := s.sem.map Semaphore.release } := ⟨rfl, .inr rfl⟩
      exact hreleases.admits fun sem hs ↦ (h sem hs).set hc fun _ ↦ rfl
  | streaming words usage sent stage =>
      cases hr
      exact fun sem hs ↦ (h sem hs).set hc fun _ ↦ rfl
  | ended how => cases hr

/-- The capacity is set once. -/
theorem Arrival.maxConcurrent {r : StubState × Call} (h : s.Arrival i r) :
    r.1.maxConcurrent = s.maxConcurrent := by
  cases h with
  | refused h => exact h.maxConcurrent
  | wedged h => exact h.maxConcurrent
  | abandoned h => exact h.maxConcurrent
  | queued job h => exact h.maxConcurrent
  | entered job h => exact (releases_enter _ job).maxConcurrent.trans h.maxConcurrent

theorem resume_maxConcurrent {r : StubState × Call} (h : s.resume i c = some r) :
    r.1.maxConcurrent = s.maxConcurrent := by
  cases c with
  | wedged => cases h
  | queued job =>
      obtain ⟨sem, hsem, h⟩ := Option.bind_eq_some_iff.mp h
      split at h
      · cases h
        exact (releases_enter _ job).maxConcurrent
      · cases h
  | holding job =>
      cases h
      exact (releases_leave s job).maxConcurrent
  | streaming words usage sent stage =>
      cases h
      exact releases_advance.maxConcurrent
  | ended how => cases h

theorem raised_maxConcurrent {r : StubState × Call} (h : s.raised i c = some r) :
    r.1.maxConcurrent = s.maxConcurrent := by
  cases c with
  | queued job =>
      obtain ⟨sem, hsem, h⟩ := Option.bind_eq_some_iff.mp h
      split at h
      · cases h
        rfl
      · cases h
  | wedged =>
      cases h
      rfl
  | holding job =>
      cases h
      rfl
  | streaming words usage sent stage =>
      cases h
      rfl
  | ended how => cases h

/-- The switches are no part of the gauges. -/
theorem control_eq (s : StubState) (c : Control) : (s.control c).gauges = s.gauges ∧
    (s.control c).sem? = s.sem? ∧ (s.control c).maxConcurrent = s.maxConcurrent := by
  unfold control
  split
  · exact ⟨rfl, rfl, rfl⟩
  · exact ⟨rfl, rfl, rfl⟩

theorem same_status (s : StubState) (now : Double) : s.Same (s.status now) := by
  unfold status
  split
  · exact same_shouldFail s now
  · exact ⟨_, _, _, rfl⟩

end StubState

namespace Engine

variable {rt : Runtime} {F : FloatRepr} {sha256 : Bytes → Bytes} {e e' : Engine} {ev : Event}
  {es : List Event} {args : Args} {i : ℕ} {c : Call}

theorem Sound.boot (args : Args) : Sound (boot args) where
  gauges := rfl
  admits sem hs := by
    change (if (StubState.boot args).capacity < 0 then none
      else some { value := (StubState.boot args).capacity.toNat }) = some sem at hs
    split at hs
    · cases hs
    · cases hs
      exact .new _ _

/-- The permits that are out are those of the requests in the block. -/
theorem Sound.taken_eq (h : e.Sound) : e.state.taken = e.calls.countP Call.isHolding := by
  have hgauges := h.gauges
  rw [sum_share, StubState.gauges] at hgauges
  simp only [Prod.mk.injEq] at hgauges
  exact hgauges.2.2.2

/-- A request with a permit has it from the semaphore. -/
theorem Sound.sem_ne_none (h : e.Sound) (hc : e.calls[i]? = some c) (hp : c.permits ≠ 0) :
    e.state.sem ≠ none := by
  intro hsem
  have htaken : e.state.taken = 0 := by
    rw [StubState.taken, hsem]
    rfl
  rw [h.taken_eq, Nat.cast_eq_zero, List.countP_eq_zero] at htaken
  have hholding := htaken c (List.mem_of_getElem? hc)
  rw [Bool.not_eq_true] at hholding
  rw [Call.permits_eq, hholding] at hp
  exact hp rfl

theorem Sound.step (h : e.Sound) (hs : Steps (step rt F sha256) e ev e') : e'.Sound := by
  have hlive : ∀ sem, e.state.sem? = some sem → sem.Live := fun sem hsem ↦ (h.admits sem hsem).live
  cases ev with
  | chat body now =>
      cases hs
      have ha := e.state.arrival rt F sha256 e.calls.length body now
      refine ⟨?_, ha.admits h.admits⟩
      rw [List.map_append, List.sum_append, ← h.gauges, List.map_singleton, List.sum_singleton]
      exact ha.gauges
  | resumed i =>
      obtain ⟨c, hc, hs⟩ := Option.bind_eq_some_iff.mp hs
      obtain ⟨r, hr, hs⟩ := Option.bind_eq_some_iff.mp hs
      cases hs
      refine ⟨?_, StubState.resume_admits hc hr h.admits⟩
      have hgauges := StubState.resume_gauges hlive (h.sem_ne_none hc) hr
      rw [h.gauges, ← sum_map_set hc] at hgauges
      exact add_right_cancel hgauges
  | cancel i =>
      obtain ⟨sem, hsem, hs⟩ := Option.bind_eq_some_iff.mp hs
      split at hs
      · cases hs
        have hsem' := StubState.sem?_of_sem hsem
        refine ⟨?_, StubState.admits_withSem (h.admits sem hsem').cancel⟩
        exact (StubState.gauges_withSem_of_free hsem' Semaphore.free_cancel).trans h.gauges
      · cases hs
  | raised i =>
      obtain ⟨c, hc, hs⟩ := Option.bind_eq_some_iff.mp hs
      obtain ⟨r, hr, hs⟩ := Option.bind_eq_some_iff.mp hs
      cases hs
      refine ⟨?_, StubState.raised_admits hc hr h.admits⟩
      have hgauges := StubState.raised_gauges hlive (h.sem_ne_none hc) hr
      rw [h.gauges, ← sum_map_set hc] at hgauges
      exact add_right_cancel hgauges
  | control c =>
      cases hs
      obtain ⟨hgauges, hsem, -⟩ := e.state.control_eq c
      exact ⟨hgauges.trans h.gauges, fun sem hs ↦ h.admits sem (hsem.symm.trans hs)⟩
  | status now =>
      cases hs
      have hsame := e.state.same_status now
      exact ⟨hsame.gauges.trans h.gauges, fun sem hs ↦ h.admits sem (hsame.sem?.symm.trans hs)⟩

theorem Sound.of_runs (h : Runs rt F sha256 (.boot args) es e) : e.Sound :=
  h.invariant (fun hs he ↦ he.step hs) (.boot args)

theorem maxConcurrent_of_step (hs : Steps (step rt F sha256) e ev e') :
    e'.state.maxConcurrent = e.state.maxConcurrent := by
  cases ev with
  | chat body now =>
      cases hs
      exact (e.state.arrival rt F sha256 e.calls.length body now).maxConcurrent
  | resumed i =>
      obtain ⟨c, -, hs⟩ := Option.bind_eq_some_iff.mp hs
      obtain ⟨r, hr, hs⟩ := Option.bind_eq_some_iff.mp hs
      cases hs
      exact StubState.resume_maxConcurrent hr
  | cancel i =>
      obtain ⟨sem, -, hs⟩ := Option.bind_eq_some_iff.mp hs
      split at hs
      · cases hs
        rfl
      · cases hs
  | raised i =>
      obtain ⟨c, -, hs⟩ := Option.bind_eq_some_iff.mp hs
      obtain ⟨r, hr, hs⟩ := Option.bind_eq_some_iff.mp hs
      cases hs
      exact StubState.raised_maxConcurrent hr
  | control c =>
      cases hs
      exact (e.state.control_eq c).2.2
  | status now =>
      cases hs
      exact (e.state.same_status now).maxConcurrent

/-- The capacity does not change. -/
theorem capacity_of_runs (h : Runs rt F sha256 (.boot args) es e) :
    e.state.capacity = (StubState.boot args).capacity := by
  have hmax : e.state.maxConcurrent = args.maxConcurrent :=
    h.invariant (P := fun e ↦ e.state.maxConcurrent = args.maxConcurrent)
      (fun hs he ↦ (maxConcurrent_of_step hs).trans he) rfl
  rw [StubState.capacity, StubState.capacity, hmax]
  rfl

/-- The future that a request awaits in the semaphore. -/
def fut? (e : Engine) (i : ℕ) : Option Future := e.state.sem.bind fun sem ↦ sem.fut? i

/-- In every run of the stub, whatever comes in, is switched, cancelled or breaks off: what `/metrics`
says is running are the requests in the block of the semaphore and the open streams; what it says is
waiting are the requests that wait, and those that were cancelled while they did; and the tokens are those
of the answers and of the frames sent.  The block never holds more than the capacity, nor less while
somebody waits and nobody has been called; and nobody is let in before another that came earlier and
waits. -/
theorem gauges_exact (rt : Runtime) (F : FloatRepr) (sha256 : Bytes → Bytes) (args : Args)
    (h : Runs rt F sha256 (.boot args) es e) :
    (e.state.running = e.calls.countP Call.isHolding + e.calls.countP Call.isOpen ∧
      e.state.waiting = e.calls.countP Call.isWaiting + e.calls.countP Call.isAbandoned ∧
      e.state.generatedTokens = (e.calls.map Call.generated).sum) ∧
    (e.calls.countP Call.isHolding : ℤ) ≤ max 0 (StubState.boot args).capacity ∧
    ∀ i, e.fut? i = some .pending →
      ((∀ j, e.fut? j ≠ some .done) →
        (e.calls.countP Call.isHolding : ℤ) = (StubState.boot args).capacity) ∧
      ∀ j, i < j → e.fut? j ≠ some .done ∧ ∀ c, e.calls[j]? = some c → ¬c.isAdmitted := by
  have hsound := Sound.of_runs h
  have hgauges := hsound.gauges
  rw [sum_share, StubState.gauges] at hgauges
  simp only [Prod.mk.injEq] at hgauges
  obtain ⟨hrunning, hwaiting, htokens, htaken⟩ := hgauges
  refine ⟨⟨hrunning, hwaiting, htokens⟩, ?_, fun i hi ↦ ?_⟩
  · rw [← htaken, ← capacity_of_runs h]
    cases hsem : e.state.sem with
    | none =>
        rw [StubState.taken, hsem]
        exact le_max_left _ _
    | some sem =>
        rw [StubState.taken_eq (StubState.sem?_of_sem hsem)]
        refine le_max_of_le_right ?_
        have hnonneg : (0 : ℤ) ≤ sem.free := Nat.cast_nonneg _
        linarith
  · obtain ⟨sem, hsem, hfut⟩ := Option.bind_eq_some_iff.mp hi
    have hadmits := hsound.admits sem (StubState.sem?_of_sem hsem)
    have hfut? (j : ℕ) : e.fut? j = sem.fut? j := by
      rw [fut?, hsem]
      rfl
    have hpending : i ∈ sem.pending := (Semaphore.fut?_eq_some hadmits.live.nodup).mp hfut
    refine ⟨fun hnone ↦ ?_, fun j hij ↦ ⟨fun hj ↦ ?_, fun c hc hadmitted ↦ ?_⟩⟩
    · have hwoken : sem.woken = [] := by
        rw [List.eq_nil_iff_forall_not_mem]
        intro j hj
        refine hnone j ?_
        rw [hfut?]
        exact (Semaphore.fut?_eq_some hadmits.live.nodup).mpr hj
      have hfree := hadmits.live.free_eq_zero hwoken (List.ne_nil_of_mem hpending)
      rw [← htaken, StubState.taken_eq (StubState.sem?_of_sem hsem), hfree, capacity_of_runs h,
        Nat.cast_zero, sub_zero]
    · rw [hfut?] at hj
      have hwoken : j ∈ sem.woken := (Semaphore.fut?_eq_some hadmits.live.nodup).mp hj
      exact (hadmits.inOrder.woken_lt j hwoken i hpending).not_gt hij
    · exact (hadmits.inOrder.past_lt j ⟨c, hc, hadmitted⟩ i hpending).not_gt hij

/-- A body that asks for two words. -/
def sampleBody : Value := .dict [(str "max_tokens", .int 2),
  (str "messages", .list [.dict [(str "role", .str (str "user")), (str "content", .str (str "hi"))]])]

/-- One request is in the block, two wait, and the first of them is cancelled. -/
def sampleCrowd : List Event :=
  [.chat sampleBody (.finite 0), .chat sampleBody (.finite 1), .chat sampleBody (.finite 2), .cancel 1,
    .raised 1]

/-- The one that is cancelled is still counted, and the last is at the head of the queue. -/
theorem gauges_exact_crowd : ∃ e, Runs .sample .exact (fun _ ↦ List.replicate 32 0)
      (.boot { maxConcurrent := 1, latency := .finite 1 }) sampleCrowd e ∧ e.state.waiting = 2 ∧
    e.calls.countP Call.isWaiting + e.calls.countP Call.isAbandoned = 2 ∧
    (e.calls.countP Call.isHolding : ℤ) = 1 := by
  obtain ⟨e, hr, he⟩ := Run.exists_of_exec (step .sample .exact fun _ ↦ List.replicate 32 0)
    (.boot { maxConcurrent := 1, latency := .finite 1 }) sampleCrowd
    (fun e : Engine ↦ decide (e.state.waiting = 2 ∧ e.fut? 2 = some .pending) &&
      e.state.sem.all fun sem ↦ sem.waiters.all fun w ↦ w.fut ≠ .done) (by decide +kernel)
  rw [Bool.and_eq_true] at he
  obtain ⟨hwaiting, hpending⟩ := of_decide_eq_true he.1
  have hnone : ∀ j, e.fut? j ≠ some .done := by
    intro j hj
    obtain ⟨sem, hsem, hj⟩ := Option.bind_eq_some_iff.mp hj
    obtain ⟨w, hw, hdone⟩ := Option.map_eq_some_iff.mp hj
    have hall := he.2
    rw [hsem, Option.all_some, List.all_eq_true] at hall
    exact of_decide_eq_true (hall w (List.mem_of_find?_eq_some hw)) hdone
  obtain ⟨⟨-, hcounts, -⟩, -, hqueue⟩ := gauges_exact .sample .exact _ _ hr
  refine ⟨e, hr, hwaiting, ?_, (hqueue 2 hpending).1 hnone⟩
  have hsum := hcounts.symm.trans hwaiting
  exact_mod_cast hsum

end Engine

end InferenceGateway.Stub
