import Mathlib.Data.List.Basic
import Mathlib.Data.List.Nodup

/-!
# The semaphore of an event loop

`asyncio.Semaphore` of the standard library: a counter, and a queue of the futures of those who wait.
A task runs undisturbed from one `await` to the next, so every method here is one step; `acquire` is
cut where it awaits its future, into `acquire`, `resumed` and `cancelled`.

A task whose future is set has been given its permit and runs later.  Until it does, the counter says
less than what is free (`Semaphore.free`), and it may be positive while others wait: whoever has been
woken wakes the next (`Semaphore.Live`).  The queue is in the order of arrival: `pending` grows at its
end, and whom a permit is given to is its head.
-/

universe u

namespace Asyncio

/-- The state of a future. -/
inductive Future where
  | pending
  /-- It has a result. -/
  | done
  | cancelled
  deriving DecidableEq

/-- A task that awaits its future in `acquire`. -/
structure Waiter (α : Type u) where
  task : α
  fut : Future := .pending

/-- `asyncio.Semaphore`. -/
structure Semaphore (α : Type u) where
  value : ℕ
  waiters : List (Waiter α) := []

namespace Semaphore

variable {α : Type u}

/-- `locked`. -/
def locked (s : Semaphore α) : Bool := s.value == 0 || s.waiters.any fun w ↦ w.fut != .cancelled

/-- The loop of `_wake_up_next`: the first future that is not done gets its result. -/
def wakeFirst : List (Waiter α) → Option (List (Waiter α))
  | [] => none
  | w :: ws =>
    if w.fut = .pending then some ({ w with fut := .done } :: ws) else (wakeFirst ws).map (w :: ·)

/-- `_wake_up_next`. -/
def wakeUpNext (s : Semaphore α) : Semaphore α := match wakeFirst s.waiters with
  | none => s
  | some ws => { value := s.value - 1, waiters := ws }

/-- `release`. -/
def release (s : Semaphore α) : Semaphore α := wakeUpNext { s with value := s.value + 1 }

/-- `acquire`, up to where it awaits; `none` if it has to. -/
def acquire? (s : Semaphore α) : Option (Semaphore α) :=
  if s.locked then none else some { s with value := s.value - 1 }

/-- `self._waiters.append(fut)`. -/
def wait (s : Semaphore α) (t : α) : Semaphore α := { s with waiters := s.waiters ++ [{ task := t }] }

variable [DecidableEq α]

/-- The future that a task awaits. -/
def fut? (s : Semaphore α) (t : α) : Option Future :=
  (s.waiters.find? fun w ↦ w.task = t).map Waiter.fut

/-- `self._waiters.remove(fut)`. -/
def remove (s : Semaphore α) (t : α) : Semaphore α :=
  { s with waiters := s.waiters.eraseP fun w ↦ w.task = t }

/-- The end of `acquire`, once the future has its result. -/
def resumed (s : Semaphore α) (t : α) : Semaphore α :=
  let s := s.remove t
  if 0 < s.value then s.wakeUpNext else s

/-- The end of `acquire` when the task is cancelled: a permit that it has been given goes back. -/
def cancelled (s : Semaphore α) (t : α) : Semaphore α :=
  if s.fut? t = some .cancelled then s.remove t else (s.remove t).release

/-- `fut.cancel()`, which the cancelling of the task comes to first. -/
def cancel (s : Semaphore α) (t : α) : Semaphore α :=
  { s with waiters := s.waiters.map fun w ↦
      if w.task = t ∧ w.fut = .pending then { w with fut := .cancelled } else w }

/-! ## Who waits -/

end Semaphore

section TasksAt

variable {α : Type u} {f : Future} {t : α} {ws ws' : List (Waiter α)}

/-- The tasks whose futures are in a state, in the order of the queue. -/
def tasksAt (f : Future) (ws : List (Waiter α)) : List α :=
  (ws.filter fun w ↦ w.fut = f).map Waiter.task

@[simp] theorem tasksAt_nil : tasksAt f ([] : List (Waiter α)) = [] := rfl

theorem tasksAt_cons (w : Waiter α) :
    tasksAt f (w :: ws) = if w.fut = f then w.task :: tasksAt f ws else tasksAt f ws := by
  unfold tasksAt
  by_cases h : w.fut = f
  · rw [List.filter_cons_of_pos (by simpa using h), List.map_cons, if_pos h]
  · rw [List.filter_cons_of_neg (by simpa using h), if_neg h]

@[simp] theorem tasksAt_append : tasksAt f (ws ++ ws') = tasksAt f ws ++ tasksAt f ws' := by
  unfold tasksAt
  rw [List.filter_append, List.map_append]

theorem mem_tasksAt : t ∈ tasksAt f ws ↔ ∃ w ∈ ws, w.fut = f ∧ w.task = t := by
  simp only [tasksAt, List.mem_map, List.mem_filter, decide_eq_true_eq, and_assoc]

theorem tasksAt_subset : tasksAt f ws ⊆ ws.map Waiter.task := by
  intro t ht
  obtain ⟨w, hw, -, rfl⟩ := mem_tasksAt.mp ht
  exact List.mem_map_of_mem hw

/-- The loop finds nobody, or the first who has not been woken. -/
theorem wakeFirst_eq_none (h : Semaphore.wakeFirst ws = none) : tasksAt .pending ws = [] := by
  induction ws with
  | nil => rfl
  | cons w ws ih =>
      rw [Semaphore.wakeFirst] at h
      split at h
      · cases h
      · rename_i hw
        rw [tasksAt_cons, if_neg hw]
        exact ih (Option.map_eq_none_iff.mp h)

theorem wakeFirst_eq_some (h : Semaphore.wakeFirst ws = some ws') : ∃ a w b, ws = a ++ w :: b ∧
    tasksAt .pending a = [] ∧ w.fut = .pending ∧ ws' = a ++ { w with fut := .done } :: b := by
  induction ws generalizing ws' with
  | nil => cases h
  | cons w ws ih =>
      rw [Semaphore.wakeFirst] at h
      split at h
      · rename_i hw
        cases h
        exact ⟨[], w, ws, rfl, rfl, hw, rfl⟩
      · rename_i hw
        obtain ⟨ws₁, hws, rfl⟩ := Option.map_eq_some_iff.mp h
        obtain ⟨a, v, b, rfl, ha, hv, rfl⟩ := ih hws
        exact ⟨w :: a, v, b, rfl, by rw [tasksAt_cons, if_neg hw, ha], hv, rfl⟩

variable [DecidableEq α]

/-- A task that leaves the queue is missing where it was. -/
theorem tasksAt_eraseP (h : (ws.map Waiter.task).Nodup) :
    tasksAt f (ws.eraseP fun w ↦ w.task = t) = (tasksAt f ws).erase t := by
  induction ws with
  | nil => rfl
  | cons w ws ih =>
      rw [List.map_cons, List.nodup_cons] at h
      by_cases hw : w.task = t
      · rw [List.eraseP_cons_of_pos (by simpa using hw), tasksAt_cons]
        split
        · rw [hw, List.erase_cons_head]
        · exact (List.erase_of_not_mem fun ht ↦ h.1 (hw ▸ tasksAt_subset ht)).symm
      · rw [List.eraseP_cons_of_neg (by simpa using hw), tasksAt_cons, tasksAt_cons, ih h.2]
        split
        · exact (List.erase_cons_tail (by simpa using hw)).symm
        · rfl

/-- The tasks of a queue whose pending futures are cancelled for one of them. -/
theorem tasksAt_map_cancel : tasksAt .pending (ws.map fun w ↦
      if w.task = t ∧ w.fut = .pending then { w with fut := .cancelled } else w) =
    (tasksAt .pending ws).filter (· ≠ t) ∧ tasksAt .done (ws.map fun w ↦
      if w.task = t ∧ w.fut = .pending then { w with fut := .cancelled } else w) =
    tasksAt .done ws := by
  induction ws with
  | nil => exact ⟨rfl, rfl⟩
  | cons w ws ih =>
      simp only [List.map_cons, tasksAt_cons, ih.1, ih.2]
      obtain ⟨task, fut⟩ := w
      by_cases ht : task = t
      · cases fut <;> simp [ht]
      · cases fut <;> simp [ht]

end TasksAt

namespace Semaphore

variable {α : Type u} {s s' : Semaphore α} {t : α}

/-- Who waits for a permit. -/
def pending (s : Semaphore α) : List α := tasksAt .pending s.waiters

/-- Who has been given one and has not run since. -/
def woken (s : Semaphore α) : List α := tasksAt .done s.waiters

/-- The tasks in the queue. -/
def queue (s : Semaphore α) : List α := s.waiters.map Waiter.task

/-- The permits that nobody has. -/
def free (s : Semaphore α) : ℕ := s.value + s.woken.length

/-- Nobody is there twice, and nobody is left to wait: if a permit is free, then somebody is awake who
will pass it on. -/
structure Live (s : Semaphore α) : Prop where
  nodup : s.queue.Nodup
  awake : 0 < s.value → s.woken = [] → s.pending = []

/-- All permits are out, then, if somebody waits and nobody is about to go on. -/
theorem Live.free_eq_zero (h : s.Live) (hw : s.woken = []) (hp : s.pending ≠ []) : s.free = 0 := by
  by_contra hne
  have hpos : 0 < s.value := by
    rw [free, hw, List.length_nil, Nat.add_zero] at hne
    exact Nat.pos_of_ne_zero hne
  exact hp (h.awake hpos hw)

theorem Live.new (n : ℕ) : Live (α := α) { value := n } := ⟨List.nodup_nil, fun _ _ ↦ rfl⟩

/-! ## Waking -/

/-- What `_wake_up_next` does: nothing if nobody waits, else the head of the queue has a permit. -/
inductive Wakes (s s' : Semaphore α) : Prop
  | nobody (hpending : s.pending = []) (h : s' = s)
  | next (t : α) (hpending : s.pending = t :: s'.pending) (hwoken : s'.woken.Perm (t :: s.woken))
      (hvalue : s'.value = s.value - 1) (hqueue : s'.queue = s.queue)

theorem wakes (s : Semaphore α) : s.Wakes s.wakeUpNext := by
  unfold wakeUpNext
  cases h : wakeFirst s.waiters with
  | none => exact .nobody (wakeFirst_eq_none h) rfl
  | some ws =>
      obtain ⟨a, w, b, hws, ha, hw, rfl⟩ := wakeFirst_eq_some h
      refine .next w.task ?_ ?_ rfl ?_
      · simp [pending, hws, ha, hw, tasksAt_cons]
      · simp only [woken, hws, tasksAt_append, tasksAt_cons, hw]
        exact List.perm_middle
      · simp [queue, hws]

namespace Wakes

theorem queue_eq (h : s.Wakes s') : s'.queue = s.queue := by
  cases h with
  | nobody _ h => rw [h]
  | next t _ _ _ hqueue => exact hqueue

theorem free_eq (h : s.Wakes s') (hs : 0 < s.value) : s'.free = s.free := by
  cases h with
  | nobody _ h => rw [h]
  | next t _ hwoken hvalue =>
      rw [free, free, hvalue, hwoken.length_eq, List.length_cons]
      omega

/-- Whoever wakes another leaves nobody behind. -/
theorem live (h : s.Wakes s') (hs : s.queue.Nodup) : s'.Live where
  nodup := h.queue_eq.symm ▸ hs
  awake := by
    intro _ hw
    cases h with
    | nobody hpending h => rw [h, hpending]
    | next t _ hwoken =>
        rw [hw] at hwoken
        exact absurd hwoken (List.nil_perm.not.mpr (List.cons_ne_nil _ _))

end Wakes

/-! ## The methods -/

theorem wakes_release (s : Semaphore α) : Wakes { s with value := s.value + 1 } s.release := wakes _

theorem queue_release : s.release.queue = s.queue := s.wakes_release.queue_eq

theorem Live.release (h : s.Live) : s.release.Live := s.wakes_release.live h.nodup

theorem free_release : s.release.free = s.free + 1 := by
  rw [s.wakes_release.free_eq (Nat.succ_pos _)]
  exact Nat.add_right_comm _ _ _

/-- A task that does not have to wait comes when nobody else does. -/
theorem of_acquire? (h : s.acquire? = some s') : 0 < s.value ∧ s.woken = [] ∧ s.pending = [] ∧
    s' = { s with value := s.value - 1 } := by
  unfold acquire? at h
  split at h
  · cases h
  · rename_i hlocked
    obtain ⟨hvalue, hall⟩ : s.value ≠ 0 ∧ ∀ w ∈ s.waiters, w.fut = .cancelled := by
      simpa [locked] using hlocked
    have hnone {f : Future} (hf : f ≠ .cancelled) : tasksAt f s.waiters = [] := by
      rw [List.eq_nil_iff_forall_not_mem]
      intro t ht
      obtain ⟨w, hw, rfl, -⟩ := mem_tasksAt.mp ht
      exact hf (hall w hw)
    exact ⟨Nat.pos_of_ne_zero hvalue, hnone (by decide), hnone (by decide), (Option.some.inj h).symm⟩

theorem free_acquire? (h : s.acquire? = some s') : s'.free + 1 = s.free := by
  obtain ⟨hvalue, -, -, rfl⟩ := of_acquire? h
  change s.value - 1 + s.woken.length + 1 = s.value + s.woken.length
  omega

theorem Live.acquire? (h : s.Live) (hs : s.acquire? = some s') : s'.Live := by
  obtain ⟨-, -, hpending, rfl⟩ := of_acquire? hs
  exact ⟨h.nodup, fun _ _ ↦ hpending⟩

@[simp] theorem pending_wait : (s.wait t).pending = s.pending ++ [t] := by
  simp [pending, wait, tasksAt_cons]

@[simp] theorem woken_wait : (s.wait t).woken = s.woken := by
  simp [woken, wait, tasksAt_cons]

@[simp] theorem queue_wait : (s.wait t).queue = s.queue ++ [t] := by
  simp [queue, wait]

@[simp] theorem free_wait : (s.wait t).free = s.free := by
  rw [free, woken_wait]
  rfl

theorem Live.wait (h : s.Live) (hs : s.acquire? = none) (ht : t ∉ s.queue) : (s.wait t).Live where
  nodup := by
    rw [queue_wait]
    exact List.nodup_append_comm.mpr (List.nodup_cons.mpr ⟨ht, h.nodup⟩)
  awake := by
    intro (hvalue : 0 < s.value) hwoken
    rw [woken_wait] at hwoken
    have hpending := h.awake hvalue hwoken
    have hlocked : s.locked = true := by
      unfold Semaphore.acquire? at hs
      split at hs
      · assumption
      · cases hs
    obtain ⟨w, hw, hf⟩ : ∃ w ∈ s.waiters, w.fut ≠ .cancelled := by
      simpa [locked, Nat.ne_of_gt hvalue] using hlocked
    -- whoever is there has been woken or waits
    cases hfut : w.fut with
    | pending =>
        have hmem : w.task ∈ s.pending := mem_tasksAt.mpr ⟨w, hw, hfut, rfl⟩
        rw [hpending] at hmem
        cases hmem
    | done =>
        have hmem : w.task ∈ s.woken := mem_tasksAt.mpr ⟨w, hw, hfut, rfl⟩
        rw [hwoken] at hmem
        cases hmem
    | cancelled => exact absurd hfut hf

variable [DecidableEq α] {f : Future}

/-- The future a task awaits says what has become of it. -/
theorem fut?_eq_some (h : s.queue.Nodup) : s.fut? t = some f ↔ t ∈ tasksAt f s.waiters := by
  obtain ⟨value, ws⟩ := s
  change (ws.map Waiter.task).Nodup at h
  change (ws.find? fun w ↦ w.task = t).map Waiter.fut = some f ↔ t ∈ tasksAt f ws
  induction ws with
  | nil => simp
  | cons w ws ih =>
      rw [List.map_cons, List.nodup_cons] at h
      by_cases hw : w.task = t
      · obtain rfl := hw
        have hnot : w.task ∉ tasksAt f ws := fun ht ↦ h.1 (tasksAt_subset ht)
        rw [List.find?_cons_of_pos (by simp), tasksAt_cons]
        by_cases hf : w.fut = f
        · simp [hf]
        · simp [hf, hnot]
      · rw [List.find?_cons_of_neg (by simpa using hw), ih h.2, tasksAt_cons]
        split
        · exact (List.mem_cons.trans (or_iff_right (Ne.symm hw))).symm
        · rfl

section Remove

variable (h : s.queue.Nodup)

include h

theorem pending_remove : (s.remove t).pending = s.pending.erase t := tasksAt_eraseP h

theorem woken_remove : (s.remove t).woken = s.woken.erase t := tasksAt_eraseP h

theorem queue_remove : (s.remove t).queue.Nodup :=
  h.sublist (List.eraseP_sublist.map _)

end Remove

/-! ## Going on after the wait -/

/-- A task that goes on has the permit it was given, and wakes the next if there is another. -/
theorem resumed_cases (s : Semaphore α) (t : α) : (s.remove t).value = 0 ∧ s.resumed t = s.remove t ∨
    0 < (s.remove t).value ∧ (s.remove t).Wakes (s.resumed t) := by
  unfold resumed
  dsimp only
  by_cases hvalue : 0 < (s.remove t).value
  · rw [if_pos hvalue]
    exact .inr ⟨hvalue, wakes _⟩
  · rw [if_neg hvalue]
    exact .inl ⟨Nat.eq_zero_of_not_pos hvalue, rfl⟩

theorem Live.resumed (h : s.Live) : (s.resumed t).Live := by
  rcases resumed_cases s t with ⟨hvalue, heq⟩ | ⟨-, hw⟩
  · rw [heq]
    exact ⟨queue_remove h.nodup, fun hpos ↦ absurd hvalue (Nat.ne_of_gt hpos)⟩
  · exact hw.live (queue_remove h.nodup)

theorem queue_remove_subset : (s.remove t).queue ⊆ s.queue :=
  (List.eraseP_sublist.map _).subset

theorem queue_resumed : (s.resumed t).queue = (s.remove t).queue := by
  rcases resumed_cases s t with ⟨-, heq⟩ | ⟨-, hw⟩
  · rw [heq]
  · exact hw.queue_eq

theorem queue_cancelled : (s.cancelled t).queue = (s.remove t).queue := by
  unfold cancelled
  split
  · rfl
  · exact queue_release

theorem free_remove (h : s.Live) (ht : s.fut? t = some .done) :
    (s.remove t).free + 1 = s.free := by
  have hmem : t ∈ s.woken := (fut?_eq_some h.nodup).mp ht
  have hlen := List.length_erase_of_mem hmem
  have hpos := List.length_pos_of_mem hmem
  rw [free, free, woken_remove h.nodup, hlen]
  change s.value + (s.woken.length - 1) + 1 = s.value + s.woken.length
  omega

theorem free_resumed (h : s.Live) (ht : s.fut? t = some .done) : (s.resumed t).free + 1 = s.free := by
  rcases resumed_cases s t with ⟨-, heq⟩ | ⟨hpos, hw⟩
  · rw [heq, free_remove h ht]
  · rw [hw.free_eq hpos, free_remove h ht]

/-- A cancelled task leaves the queue, and leaves its permit. -/
theorem Live.cancelled (h : s.Live) : (s.cancelled t).Live := by
  unfold Semaphore.cancelled
  split
  · rename_i hfut
    refine ⟨queue_remove h.nodup, fun hvalue hwoken ↦ ?_⟩
    have hnot : t ∉ s.woken := by
      intro hmem
      have hdone := (fut?_eq_some h.nodup).mpr hmem
      rw [hfut] at hdone
      cases hdone
    rw [woken_remove h.nodup, List.erase_of_not_mem hnot] at hwoken
    rw [pending_remove h.nodup, h.awake hvalue hwoken]
    rfl
  · exact (s.remove t).wakes_release.live (queue_remove h.nodup)

theorem free_cancelled (h : s.Live) (ht : s.fut? t = some .done ∨ s.fut? t = some .cancelled) :
    (s.cancelled t).free = s.free := by
  unfold Semaphore.cancelled
  rcases ht with ht | ht
  · rw [if_neg (by rw [ht]; decide), free_release, free_remove h ht]
  · have hnot : t ∉ s.woken := by
      intro hmem
      have hdone := (fut?_eq_some h.nodup).mpr hmem
      rw [ht] at hdone
      cases hdone
    rw [if_pos ht, free, woken_remove h.nodup, List.erase_of_not_mem hnot]
    rfl

theorem pending_cancel : (s.cancel t).pending = s.pending.filter (· ≠ t) := tasksAt_map_cancel.1

theorem woken_cancel : (s.cancel t).woken = s.woken := tasksAt_map_cancel.2

theorem queue_cancel : (s.cancel t).queue = s.queue := by
  simp only [queue, cancel, List.map_map]
  refine List.map_congr_left fun (w : Waiter α) _ ↦ ?_
  simp only [Function.comp_apply]
  split
  · rfl
  · rfl

theorem free_cancel : (s.cancel t).free = s.free := by
  rw [free, woken_cancel]
  rfl

theorem Live.cancel (h : s.Live) : (s.cancel t).Live where
  nodup := by
    rw [queue_cancel]
    exact h.nodup
  awake := by
    intro hvalue hwoken
    rw [woken_cancel] at hwoken
    rw [pending_cancel, h.awake hvalue hwoken]
    rfl

/-! ## The order of arrival -/

omit [DecidableEq α]

/-- Those who wait do so in their order, behind those who have been woken and all of `past`. -/
structure InOrder [LT α] (past : α → Prop) (s : Semaphore α) : Prop where
  sorted : s.pending.Pairwise (· < ·)
  past_lt : ∀ a, past a → ∀ b ∈ s.pending, a < b
  woken_lt : ∀ a ∈ s.woken, ∀ b ∈ s.pending, a < b

section InOrder

variable [LT α] {past past' : α → Prop}

namespace InOrder

theorem mono (h : s.InOrder past) (hpending : s'.pending.Sublist s.pending)
    (hwoken : s'.woken ⊆ s.woken) (hpast : ∀ a, past' a → past a ∨ a ∈ s.woken) :
    s'.InOrder past' where
  sorted := h.sorted.sublist hpending
  past_lt a ha b hb := by
    rcases hpast a ha with ha | ha
    · exact h.past_lt a ha b (hpending.subset hb)
    · exact h.woken_lt a ha b (hpending.subset hb)
  woken_lt a ha b hb := h.woken_lt a (hwoken ha) b (hpending.subset hb)

/-- Who is woken was first. -/
theorem wakes (h : s.InOrder past) (hw : s.Wakes s') : s'.InOrder past := by
  cases hw with
  | nobody _ hs => exact hs ▸ h
  | next t hpending hwoken =>
      have hsorted := h.sorted
      rw [hpending, List.pairwise_cons] at hsorted
      have hmem {b : α} (hb : b ∈ s'.pending) : b ∈ s.pending := by
        rw [hpending]
        exact List.mem_cons_of_mem _ hb
      refine ⟨hsorted.2, fun a ha b hb ↦ h.past_lt a ha b (hmem hb), fun a ha b hb ↦ ?_⟩
      rcases List.mem_cons.mp (hwoken.subset ha) with rfl | ha
      · exact hsorted.1 b hb
      · exact h.woken_lt a ha b (hmem hb)

theorem of_pending_eq_nil (h : s.pending = []) : s.InOrder past where
  sorted := h.symm ▸ .nil
  past_lt a _ b hb := by
    rw [h] at hb
    cases hb
  woken_lt a _ b hb := by
    rw [h] at hb
    cases hb

theorem release (h : s.InOrder past) : s.release.InOrder past :=
  wakes (s := { s with value := s.value + 1 }) ⟨h.sorted, h.past_lt, h.woken_lt⟩ s.wakes_release

theorem acquire? (hs : s.acquire? = some s') : s'.InOrder past := by
  obtain ⟨-, -, hpending, rfl⟩ := of_acquire? hs
  exact of_pending_eq_nil hpending

/-- The newest comes last. -/
theorem wait (h : s.InOrder past) (hpast : ∀ a, past a → a < t) (hwoken : ∀ a ∈ s.woken, a < t)
    (hpending : ∀ a ∈ s.pending, a < t) : (s.wait t).InOrder past := by
  have hlt {a : α} (ha : ∀ b ∈ s.pending, a < b) (hat : a < t) : ∀ b ∈ (s.wait t).pending, a < b := by
    intro b hb
    rw [pending_wait, List.mem_append, List.mem_singleton] at hb
    rcases hb with hb | rfl
    · exact ha b hb
    · exact hat
  refine ⟨?_, fun a ha ↦ hlt (h.past_lt a ha) (hpast a ha), fun a ha ↦ ?_⟩
  · rw [pending_wait, List.pairwise_append]
    refine ⟨h.sorted, List.pairwise_singleton _ _, fun a ha b hb ↦ ?_⟩
    obtain rfl := List.mem_singleton.mp hb
    exact hpending a ha
  · rw [woken_wait] at ha
    exact hlt (h.woken_lt a ha) (hwoken a ha)

variable [DecidableEq α]

theorem remove (h : s.InOrder past) (hn : s.queue.Nodup) (hpast : ∀ a, past' a → past a ∨ a ∈ s.woken) :
    (s.remove t).InOrder past' := by
  refine h.mono ?_ ?_ hpast
  · rw [pending_remove hn]
    exact List.erase_sublist
  · rw [woken_remove hn]
    exact List.erase_subset

/-- Who goes on is past. -/
theorem resumed (h : s.InOrder past) (hn : s.queue.Nodup)
    (hpast : ∀ a, past' a → past a ∨ a ∈ s.woken) : (s.resumed t).InOrder past' := by
  have hr : (s.remove t).InOrder past' := h.remove hn hpast
  rcases resumed_cases s t with ⟨-, heq⟩ | ⟨-, hw⟩
  · rw [heq]
    exact hr
  · exact hr.wakes hw

theorem cancelled (h : s.InOrder past) (hn : s.queue.Nodup) : (s.cancelled t).InOrder past := by
  have hr : (s.remove t).InOrder past := h.remove hn fun _ ↦ .inl
  unfold Semaphore.cancelled
  split
  · exact hr
  · exact hr.release

theorem cancel (h : s.InOrder past) : (s.cancel t).InOrder past := by
  refine h.mono ?_ ?_ fun _ ↦ .inl
  · rw [pending_cancel]
    exact List.filter_sublist
  · rw [woken_cancel]
    exact List.Subset.refl _

end InOrder

end InOrder

end Semaphore

end Asyncio
