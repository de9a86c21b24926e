import Mathlib.Data.List.Basic

/-!
# Splitting at a separator, all at once and as the input arrives

`cut? sep l` is the first step of `l.split(sep, 1)`: what stands before the first
occurrence of `sep` and what stands after it.  Repeating it gives `pieces sep l`,
the pieces of `l` that an occurrence of `sep` terminates, and `rest sep l`, the
tail that none does.

A reader that receives `l` in chunks and splits its buffer after each of them
sees the same pieces in the same order, wherever the chunk boundaries fall, also
inside a separator: that is `pieces_append`, and `pieces_rest_append` with the tail.
The reason is that an occurrence found in a prefix stays the first one when more
input follows (`cut?_append`).
-/

universe u

namespace Py

variable {α : Type u} [DecidableEq α]

/-- What is before and what is after the first occurrence of a separator. -/
def cut? (sep : List α) : List α → Option (List α × List α)
  | [] => none
  | a :: l =>
    if sep.isPrefixOf (a :: l) then some ([], (a :: l).drop sep.length)
    else (cut? sep l).map fun xy ↦ (a :: xy.1, xy.2)

variable {sep l m x y : List α}

/-- A cut takes the separator out and nothing else. -/
theorem eq_of_cut? (h : cut? sep l = some (x, y)) : l = x ++ sep ++ y := by
  induction l generalizing x with
  | nil => simp [cut?] at h
  | cons a l ih =>
      rw [cut?] at h
      split at h
      · rename_i hp
        obtain ⟨rfl, rfl⟩ := Prod.mk.inj (Option.some.inj h)
        obtain ⟨t, ht⟩ := List.isPrefixOf_iff_prefix.mp hp
        rw [← ht]
        simp
      · obtain ⟨⟨x', y'⟩, h', he⟩ := Option.map_eq_some_iff.mp h
        obtain ⟨rfl, rfl⟩ := Prod.mk.inj he
        rw [ih h']
        simp

/-- Cutting at a separator that is not empty shortens the list. -/
theorem length_lt_of_cut? (hsep : sep ≠ []) (h : cut? sep l = some (x, y)) :
    y.length < l.length := by
  have hpos : 0 < sep.length := List.length_pos_iff.mpr hsep
  rw [eq_of_cut? h]
  simp only [List.length_append]
  omega

/-- More input does not move the first occurrence. -/
theorem cut?_append (h : cut? sep l = some (x, y)) : cut? sep (l ++ m) = some (x, y ++ m) := by
  induction l generalizing x with
  | nil => simp [cut?] at h
  | cons a l ih =>
      rw [cut?] at h
      rw [List.cons_append, cut?]
      split at h
      · rename_i hp
        obtain ⟨rfl, rfl⟩ := Prod.mk.inj (Option.some.inj h)
        have hpre := List.isPrefixOf_iff_prefix.mp hp
        have hp' : sep.isPrefixOf (a :: (l ++ m)) :=
          List.isPrefixOf_iff_prefix.mpr (hpre.trans ⟨m, rfl⟩)
        rw [if_pos hp', ← List.cons_append, List.drop_append_of_le_length hpre.length_le]
      · rename_i hp
        obtain ⟨⟨x', y'⟩, h', he⟩ := Option.map_eq_some_iff.mp h
        obtain ⟨rfl, rfl⟩ := Prod.mk.inj he
        have hp' : ¬sep.isPrefixOf (a :: (l ++ m)) := by
          intro hc
          apply hp
          have hle : sep.length ≤ (a :: l).length := by
            rw [List.length_cons, eq_of_cut? h']
            simp only [List.length_append]
            omega
          exact List.isPrefixOf_iff_prefix.mpr
            (List.prefix_of_prefix_length_le (List.isPrefixOf_iff_prefix.mp hc) ⟨m, rfl⟩ hle)
        rw [if_neg hp', ih h']
        rfl

/-- A separator of one element is cut at its first occurrence. -/
theorem cut?_singleton {a : α} : cut? [a] l = some (x, y) ↔ l = x ++ a :: y ∧ a ∉ x := by
  induction l generalizing x with
  | nil => simp [cut?]
  | cons b l ih =>
      rw [cut?]
      by_cases hb : a = b
      · subst hb
        rw [if_pos (by simp), Option.some.injEq, Prod.mk.injEq]
        cases x with
        | nil => simp [eq_comm]
        | cons c x => simp +contextual [eq_comm]
      · rw [if_neg (by simp [hb])]
        cases x with
        | nil => simp [Ne.symm hb]
        | cons c x =>
            simp only [Option.map_eq_some_iff, Prod.mk.injEq, List.cons.injEq, Prod.exists,
              List.cons_append, List.mem_cons, not_or]
            constructor
            · rintro ⟨x', y', h, ⟨rfl, rfl⟩, rfl⟩
              obtain ⟨hl, ha⟩ := ih.mp h
              exact ⟨⟨rfl, hl⟩, hb, ha⟩
            · rintro ⟨⟨rfl, hl⟩, -, ha⟩
              exact ⟨x, y, ih.mpr ⟨hl, ha⟩, ⟨rfl, rfl⟩, rfl⟩

/-! ## All the pieces -/

/-- Cut at most `n` times: the pieces, and what is left. -/
def splitN (sep : List α) : Nat → List α → List (List α) × List α
  | 0, l => ([], l)
  | n + 1, l => match cut? sep l with
    | none => ([], l)
    | some (x, y) => (x :: (splitN sep n y).1, (splitN sep n y).2)

/-- The pieces of `l` that a separator terminates. -/
def pieces (sep l : List α) : List (List α) := (splitN sep l.length l).1

/-- What follows the last separator. -/
def rest (sep l : List α) : List α := (splitN sep l.length l).2

/-- A list can be cut no more often than it is long. -/
theorem splitN_of_length_le (hsep : sep ≠ []) {n : Nat} (h : l.length ≤ n) :
    splitN sep n l = splitN sep l.length l := by
  induction n using Nat.strongRecOn generalizing l with
  | ind n ih =>
      cases n with
      | zero => rw [Nat.le_zero.mp h]
      | succ n =>
          cases l with
          | nil => rfl
          | cons a l =>
              simp only [List.length_cons, splitN]
              cases hc : cut? sep (a :: l) with
              | none => rfl
              | some xy =>
                  obtain ⟨x, y⟩ := xy
                  have hy : y.length ≤ l.length :=
                    Nat.lt_succ_iff.mp (length_lt_of_cut? hsep hc)
                  have hl : l.length ≤ n := Nat.succ_le_succ_iff.mp h
                  have h₁ := ih n (Nat.lt_succ_self n) (Nat.le_trans hy hl)
                  have h₂ : splitN sep l.length y = splitN sep y.length y := by
                    rcases Nat.lt_or_eq_of_le hl with hlt | heq
                    · exact ih l.length (Nat.lt_trans hlt (Nat.lt_succ_self n)) hy
                    · rw [heq]; exact h₁
                  simp only [h₁, h₂]

/-- Nothing to cut. -/
theorem pieces_of_cut?_none (h : cut? sep l = none) : pieces sep l = [] ∧ rest sep l = l := by
  cases l with
  | nil => exact ⟨rfl, rfl⟩
  | cons a l => simp [pieces, rest, splitN, h]

/-- One cut, then the pieces of what follows. -/
theorem pieces_of_cut? (hsep : sep ≠ []) (h : cut? sep l = some (x, y)) :
    pieces sep l = x :: pieces sep y ∧ rest sep l = rest sep y := by
  cases l with
  | nil => simp [cut?] at h
  | cons a l =>
      have hy := Nat.lt_succ_iff.mp (length_lt_of_cut? hsep h)
      simp only [pieces, rest, List.length_cons, splitN, h, splitN_of_length_le hsep hy, and_self]

/-- Splitting a buffer and going on with what is left of it. -/
theorem pieces_rest_append (hsep : sep ≠ []) (l m : List α) :
    pieces sep (l ++ m) = pieces sep l ++ pieces sep (rest sep l ++ m) ∧
      rest sep (l ++ m) = rest sep (rest sep l ++ m) := by
  induction hn : l.length using Nat.strongRecOn generalizing l with
  | ind n ih =>
      cases hc : cut? sep l with
      | none =>
          obtain ⟨hp, hr⟩ := pieces_of_cut?_none hc
          rw [hp, hr]
          exact ⟨rfl, rfl⟩
      | some xy =>
          obtain ⟨x, y⟩ := xy
          obtain ⟨hp, hr⟩ := pieces_of_cut? hsep hc
          obtain ⟨hp', hr'⟩ := pieces_of_cut? hsep (cut?_append (m := m) hc)
          obtain ⟨ihp, ihr⟩ := ih y.length (hn ▸ length_lt_of_cut? hsep hc) y rfl
          rw [hp, hr, hp', hr', ihp, ihr]
          exact ⟨rfl, rfl⟩

/-- The pieces of a longer input: those of its beginning, then those that what was
left over completes. -/
theorem pieces_append (hsep : sep ≠ []) (l m : List α) :
    pieces sep (l ++ m) = pieces sep l ++ pieces sep (rest sep l ++ m) :=
  (pieces_rest_append hsep l m).1

/-- What is left has nothing more to cut. -/
theorem pieces_rest (hsep : sep ≠ []) (l : List α) : pieces sep (rest sep l) = [] := by
  have h := pieces_append hsep l []
  rw [List.append_nil, List.append_nil] at h
  exact List.append_right_eq_self.mp h.symm

/-- A text without the separator is left as it is. -/
theorem pieces_of_not_mem {a : α} (h : a ∉ l) : pieces [a] l = [] ∧ rest [a] l = l := by
  refine pieces_of_cut?_none ?_
  cases hc : cut? [a] l with
  | none => rfl
  | some xy =>
      obtain ⟨x, y⟩ := xy
      exact absurd (by rw [(cut?_singleton.mp hc).1]; simp) h

/-- A piece and its terminator. -/
theorem pieces_terminated {a : α} (h : a ∉ l) :
    pieces [a] (l ++ [a]) = [l] ∧ rest [a] (l ++ [a]) = [] :=
  pieces_of_cut? (by simp) (cut?_singleton.mpr ⟨rfl, h⟩)

/-- What is left has no separator in it. -/
theorem not_mem_rest {a : α} (l : List α) : a ∉ rest [a] l := by
  intro h
  obtain ⟨x, y, hl, hx⟩ := List.eq_append_cons_of_mem h
  have hcut : cut? [a] (rest [a] l) = some (x, y) := cut?_singleton.mpr ⟨hl, hx⟩
  have hnone := pieces_rest (show [a] ≠ [] by simp) l
  rw [(pieces_of_cut? (by simp) hcut).1] at hnone
  cases hnone

/-- Where the first element of a separator does not occur before it, the separator is found. -/
theorem cut?_of_not_mem {a : α} (h : a ∉ x) (sep y : List α) :
    cut? (a :: sep) (x ++ a :: sep ++ y) = some (x, y) := by
  induction x with
  | nil =>
      have hpre : (a :: sep).isPrefixOf (a :: (sep ++ y)) :=
        List.isPrefixOf_iff_prefix.mpr (List.prefix_append (a :: sep) y)
      have hdrop : (a :: (sep ++ y)).drop (a :: sep).length = y := List.drop_left
      rw [List.nil_append, List.cons_append, cut?, if_pos hpre, hdrop]
  | cons b x ih =>
      obtain ⟨hb, hx⟩ := not_or.mp (mt List.mem_cons.mpr h)
      have hpre : ¬(a :: sep).isPrefixOf (b :: (x ++ a :: sep ++ y)) := by
        simp [List.isPrefixOf, hb]
      rw [List.cons_append, List.cons_append, cut?, if_neg hpre, ih hx]
      rfl

/-- Pieces written one after another, each with its terminator. -/
theorem pieces_flatMap {a : α} {ls : List (List α)} (h : ∀ l ∈ ls, a ∉ l) (sep : List α) :
    pieces (a :: sep) (ls.flatMap fun l ↦ l ++ a :: sep) = ls := by
  induction ls with
  | nil => rfl
  | cons l ls ih =>
      obtain ⟨hl, hls⟩ := List.forall_mem_cons.mp h
      rw [List.flatMap_cons, (pieces_of_cut? (by simp) (cut?_of_not_mem hl sep _)).1, ih hls]

/-- A separator that straddles two chunks, and runs of it. -/
example : pieces [0, 0] [7, 0, 0, 0, 0, 0, 8] = [[7], []] ∧ rest [0, 0] [7, 0, 0, 0, 0, 0, 8] = [0, 8] :=
  by decide

end Py
