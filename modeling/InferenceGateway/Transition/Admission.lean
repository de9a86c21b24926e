import Mathlib.Logic.Relation
import Mathlib.Algebra.Order.Ring.Int
import Mathlib.Tactic.Linarith

/-!
# Admission by past spending and live holders

A client is admitted only while what has been spent so far is under a budget `B`
and fewer than `C` clients are inside; on leaving it spends at most `T`.  What
is inside is never charged in advance, so spending may pass the budget -- but
only by what the clients already inside can still spend.  The potential

```
spent + T * inside
```

carries the argument: it never exceeds `(B - 1) + C * T`.

Nothing here refers to a particular system.
-/

namespace Transition.Admission

/-- The controller's ledger. -/
structure Ledger where
  /-- Clients admitted and not yet gone. -/
  inside : ℕ
  /-- Everything charged so far. -/
  spent : ℤ

/-- The moves of the controller with budget `B`, cap `C` and charge bound `T`. -/
inductive Step (B : ℤ) (C T : ℕ) : Ledger → Ledger → Prop
  /-- Nothing the ledger can see. -/
  | idle (l : Ledger) : Step B C T l l
  /-- A client enters, under the budget and under the cap. -/
  | enter (l : Ledger) : l.spent < B → l.inside < C → Step B C T l ⟨l.inside + 1, l.spent⟩
  /-- A client leaves and is charged. -/
  | leave (l : Ledger) (n : ℕ) : 0 < l.inside → n ≤ T →
      Step B C T l ⟨l.inside - 1, l.spent + n⟩

/-- The cap on clients inside, and the cap on the potential. -/
structure Bounded (B : ℤ) (C T : ℕ) (l : Ledger) : Prop where
  inside_le : l.inside ≤ C
  potential_le : l.spent + T * l.inside ≤ (B - 1) + C * T

variable {B : ℤ} {C T : ℕ} {l l' : Ledger}

/-- An empty controller that has spent nothing is bounded, for a positive budget. -/
theorem Bounded.empty (hB : 1 ≤ B) : Bounded B C T ⟨0, 0⟩ := by
  refine ⟨Nat.zero_le _, ?_⟩
  have : (0 : ℤ) ≤ C * T := by positivity
  simp only [Nat.cast_zero, mul_zero, add_zero]
  omega

/-- Every move keeps both bounds. -/
theorem Bounded.step (h : Bounded B C T l) (hs : Step B C T l l') : Bounded B C T l' := by
  cases hs with
  | idle => exact h
  | enter hB hC =>
      refine ⟨hC, ?_⟩
      have hle : (l.inside : ℤ) + 1 ≤ C := by exact_mod_cast hC
      have hmul : (T : ℤ) * (l.inside + 1) ≤ T * C :=
        mul_le_mul_of_nonneg_left hle (Int.natCast_nonneg T)
      have hcomm : (T : ℤ) * C = C * T := mul_comm _ _
      push_cast
      linarith
  | leave n hpos hn =>
      refine ⟨le_trans (Nat.sub_le _ _) h.inside_le, ?_⟩
      have hcast : ((l.inside - 1 : ℕ) : ℤ) = l.inside - 1 := by omega
      have hn' : (n : ℤ) ≤ T := by exact_mod_cast hn
      have := h.potential_le
      rw [hcast]
      linarith

/-- Spending stays within what was left of the budget plus one charge for each
place inside. -/
theorem Bounded.spent_le (h : Bounded B C T l) : l.spent ≤ (B - 1) + C * T := by
  have : (0 : ℤ) ≤ T * l.inside := by positivity
  linarith [h.potential_le]

/-- No move lowers what has been spent. -/
theorem Step.spent_mono (hs : Step B C T l l') : l.spent ≤ l'.spent := by
  cases hs with
  | idle => exact le_rfl
  | enter => exact le_rfl
  | leave n => exact le_add_of_nonneg_right (Int.natCast_nonneg n)

/-! ## Finitely many moves -/

/-- Finitely many moves keep both bounds. -/
theorem Bounded.steps (h : Bounded B C T l) (hs : Relation.ReflTransGen (Step B C T) l l') :
    Bounded B C T l' := by
  induction hs with
  | refl => exact h
  | tail _ hstep ih => exact ih.step hstep

/-- Finitely many moves do not lower what has been spent. -/
theorem spent_mono_of_steps (hs : Relation.ReflTransGen (Step B C T) l l') :
    l.spent ≤ l'.spent := by
  induction hs with
  | refl => exact le_rfl
  | tail _ hstep ih => exact ih.trans hstep.spent_mono

end Transition.Admission
