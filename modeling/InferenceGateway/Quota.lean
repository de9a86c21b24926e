import InferenceGateway.Config
import Mathlib.Logic.Function.Basic

/-!
# Token budgets and concurrency caps

`gateway/quota.py`.  The two dictionaries are only read with the default `0`, so
they are functions; a slot counter is a natural number, and `max(0, current - 1)`
is its predecessor.  Token totals are Python numbers, because an upstream reports
them as arbitrary JSON.
-/

namespace InferenceGateway

open Py

/-- `QuotaTracker`. -/
structure QuotaTracker where
  inflight : Str → ℕ
  tokensUsed : Str → Py.Num

namespace QuotaTracker

/-- A fresh tracker. -/
def empty : QuotaTracker := ⟨fun _ ↦ 0, fun _ ↦ .int 0⟩

/-- The reason of the `QuotaExceeded` that `check_budget` raises, if it does. -/
def checkBudget (q : QuotaTracker) (keyid : Str) (tokenBudget : ℤ) : Except String Unit :=
  if (q.tokensUsed keyid).ge (.int tokenBudget) then .error "token_budget_exceeded" else .ok ()

/-- `record_usage`. -/
def recordUsage (q : QuotaTracker) (keyid : Str) (totalTokens : Py.Num) : Except Exc QuotaTracker :=
  if (Py.Num.int 0).lt totalTokens then do
    let used ← (q.tokensUsed keyid).add totalTokens
    return { q with tokensUsed := Function.update q.tokensUsed keyid used }
  else .ok q

/-- `acquire`: a slot, or the reason of the `QuotaExceeded` it raises. -/
def acquire (q : QuotaTracker) (keyid : Str) (maxConcurrency : ℤ) : Except String QuotaTracker :=
  let current := q.inflight keyid
  if maxConcurrency ≤ current then .error "concurrency_cap_exceeded"
  else .ok { q with inflight := Function.update q.inflight keyid (current + 1) }

/-- `release`. -/
def release (q : QuotaTracker) (keyid : Str) : QuotaTracker :=
  { q with inflight := Function.update q.inflight keyid (q.inflight keyid - 1) }

variable {q q' : QuotaTracker} {k k' : Str}

/-- A granted slot: the count was below the cap and goes up by one, and nothing else
changes. -/
theorem acquire_ok {cap : ℤ} (h : q.acquire k cap = .ok q') :
    (q.inflight k : ℤ) < cap ∧ q'.inflight = Function.update q.inflight k (q.inflight k + 1) ∧
      q'.tokensUsed = q.tokensUsed := by
  simp only [acquire] at h
  split at h
  · cases h
  · rename_i hlt
    cases h
    exact ⟨not_le.mp hlt, rfl, rfl⟩

/-- A budget that is not used up. -/
theorem checkBudget_ok {budget : ℤ} :
    q.checkBudget k budget = .ok () ↔ ¬(q.tokensUsed k).ge (.int budget) := by
  unfold checkBudget
  split <;> simp_all

/-- Recording usage leaves the slots alone, and every other key's total. -/
theorem recordUsage_ok {total : Py.Num} (h : q.recordUsage k total = .ok q') :
    q'.inflight = q.inflight ∧ ∀ k', k' ≠ k → q'.tokensUsed k' = q.tokensUsed k' := by
  unfold recordUsage at h
  split at h
  · cases hadd : (q.tokensUsed k).add total with
    | error e => rw [hadd] at h; cases h
    | ok used =>
        rw [hadd] at h
        cases h
        exact ⟨rfl, fun k' hk ↦ Function.update_of_ne hk _ _⟩
  · cases h
    exact ⟨rfl, fun _ _ ↦ rfl⟩

/-- Recording an integer total adds it, if it is positive. -/
theorem recordUsage_int {used n : ℤ} (hused : q.tokensUsed k = .int used) :
    ∃ q', q.recordUsage k (.int n) = .ok q' ∧ q'.tokensUsed k = .int (used + max n 0) := by
  unfold recordUsage
  by_cases hpos : 0 < n
  · rw [if_pos (by simpa using hpos), hused]
    refine ⟨_, rfl, ?_⟩
    simp [max_eq_left hpos.le]
  · rw [if_neg (by simpa using hpos)]
    refine ⟨_, rfl, ?_⟩
    rw [hused, max_eq_right (not_lt.mp hpos), add_zero]

/-- Whether recording succeeds is up to the totals. -/
theorem recordUsage_isOk_congr {total : Py.Num} (h : q'.tokensUsed = q.tokensUsed) :
    (q'.recordUsage k total).isOk = (q.recordUsage k total).isOk := by
  unfold recordUsage
  rw [h]
  split
  · cases (q.tokensUsed k).add total <;> rfl
  · rfl

end QuotaTracker

end InferenceGateway
