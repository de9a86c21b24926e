import InferenceGateway.Python.Split
import InferenceGateway.Python.Text

/-!
# Taking marked blocks out of a list

`dropBlocks a b l` is what `re.sub` leaves of `l` for the pattern `a.*?b`: from left to right,
everything from an occurrence of `a` to the first `b` after it is taken out.  `before a l` is what it
leaves for `a.*\Z`.  An `a` without a `b` after it stays with `dropBlocks`, and what is left may have an
`a` in it that was not there before, its two halves having come together; `before` leaves none.
-/

universe u

namespace Py

variable {α : Type u} [DecidableEq α]

/-- Take out at most `n` blocks. -/
def dropBlocksN (a b : List α) : ℕ → List α → List α
  | 0, l => l
  | n + 1, l => match cut? a l with
    | none => l
    | some (x, y) => match cut? b y with
      | none => l
      | some (_, z) => x ++ dropBlocksN a b n z

/-- Take out all blocks. -/
def dropBlocks (a b l : List α) : List α := dropBlocksN a b l.length l

/-- What stands before the first occurrence, or everything. -/
def before (a l : List α) : List α := match cut? a l with
  | none => l
  | some (x, _) => x

variable {a b l m x y z : List α}

/-! ## Occurrences -/

/-- A list can be cut exactly if it has an occurrence in it. -/
theorem cut?_eq_none_iff (ha : a ≠ []) : cut? a l = none ↔ ¬a <:+: l := by
  constructor
  · rintro h ⟨s, t, rfl⟩
    induction s with
    | nil =>
        cases a with
        | nil => exact ha rfl
        | cons c a =>
            have hpre : (c :: a).isPrefixOf (c :: (a ++ t)) :=
              List.isPrefixOf_iff_prefix.mpr (List.prefix_append (c :: a) t)
            rw [List.nil_append, List.cons_append, cut?, if_pos hpre] at h
            cases h
    | cons c s ih =>
        rw [List.cons_append, List.cons_append, cut?] at h
        split at h
        · cases h
        · exact ih (Option.map_eq_none_iff.mp h)
  · intro h
    cases hc : cut? a l with
    | none => rfl
    | some xy =>
        obtain ⟨x, y⟩ := xy
        exact absurd ⟨x, y, (eq_of_cut? hc).symm⟩ h

/-- What is cut off has no occurrence in it. -/
theorem cut?_before (ha : a ≠ []) (l : List α) : cut? a (before a l) = none := by
  unfold before
  cases hc : cut? a l with
  | none => exact hc
  | some xy =>
      obtain ⟨x, y⟩ := xy
      dsimp only
      cases hx : cut? a x with
      | none => rfl
      | some uv =>
          obtain ⟨u, v⟩ := uv
          -- an occurrence in what is cut off would have come first
          have hlong := cut?_append (m := a ++ y) hx
          rw [← List.append_assoc, ← eq_of_cut? hc, hc] at hlong
          obtain ⟨rfl, -⟩ := Prod.mk.inj (Option.some.inj hlong)
          have hlen := congrArg List.length (eq_of_cut? hx)
          simp only [List.length_append] at hlen
          exact absurd (List.length_eq_zero_iff.mp (by omega)) ha

/-- Nor has a part of a list without one. -/
theorem cut?_of_infix (ha : a ≠ []) (h : cut? a l = none) (hm : m <:+: l) : cut? a m = none := by
  rw [cut?_eq_none_iff ha] at h ⊢
  exact fun hc ↦ h (hc.trans hm)

theorem cut?_eq_none_of_not_mem {c : α} {sep : List α} (h : c ∉ l) : cut? (c :: sep) l = none :=
  (cut?_eq_none_iff (List.cons_ne_nil c sep)).mpr fun hin ↦ h (hin.subset List.mem_cons_self)

/-- In a text that ends with its only occurrence, nothing is found before the end. -/
theorem cut?_take_of_not_mem {c : α} {sep : List α} (h : c ∉ x) {n : ℕ}
    (hn : n < (x ++ c :: sep).length) : cut? (c :: sep) ((x ++ c :: sep).take n) = none := by
  cases hc : cut? (c :: sep) ((x ++ c :: sep).take n) with
  | none => rfl
  | some uv =>
      obtain ⟨u, v⟩ := uv
      have hlong := cut?_append (m := (x ++ c :: sep).drop n) hc
      have hwhole := cut?_of_not_mem h sep []
      rw [List.append_nil] at hwhole
      rw [List.take_append_drop, hwhole] at hlong
      obtain ⟨-, hnil⟩ := Prod.mk.inj (Option.some.inj hlong)
      have hdrop := (List.append_eq_nil_iff.mp hnil.symm).2
      exact absurd (List.drop_eq_nil_iff.mp hdrop) (not_le.mpr hn)

/-! ## Blocks -/

theorem before_of_none (h : cut? a l = none) : before a l = l := by
  rw [before, h]

theorem before_of_some (h : cut? a l = some (x, y)) : before a l = x := by
  rw [before, h]

/-- There are no more blocks than elements. -/
theorem dropBlocksN_of_length_le (hb : b ≠ []) {n : ℕ} (h : l.length ≤ n) :
    dropBlocksN a b n l = dropBlocksN a b l.length l := by
  induction n using Nat.strongRecOn generalizing l with
  | ind n ih =>
      cases n with
      | zero => rw [Nat.le_zero.mp h]
      | succ n =>
          cases l with
          | nil => rfl
          | cons d l =>
              simp only [List.length_cons, dropBlocksN]
              cases ha : cut? a (d :: l) with
              | none => rfl
              | some xy =>
                  obtain ⟨x, y⟩ := xy
                  dsimp only
                  cases hz : cut? b y with
                  | none => rfl
                  | some wz =>
                      obtain ⟨w, z⟩ := wz
                      have hshort := length_lt_of_cut? hb hz
                      have hlen := congrArg List.length (eq_of_cut? ha)
                      simp only [List.length_append, List.length_cons] at hlen h
                      have h₁ := ih n (Nat.lt_succ_self n) (l := z) (by omega)
                      have h₂ : dropBlocksN a b l.length z = dropBlocksN a b z.length z := by
                        rcases Nat.lt_or_eq_of_le (show l.length ≤ n by omega) with hlt | heq
                        · exact ih l.length (Nat.lt_trans hlt (Nat.lt_succ_self n)) (by omega)
                        · rw [heq]
                          exact h₁
                      simp only [h₁, h₂]

theorem dropBlocks_of_none (h : cut? a l = none) : dropBlocks a b l = l := by
  cases l with
  | nil => rfl
  | cons d l => simp only [dropBlocks, List.length_cons, dropBlocksN, h]

/-- A block that is not closed stays. -/
theorem dropBlocks_of_unclosed (h : cut? a l = some (x, y)) (hy : cut? b y = none) :
    dropBlocks a b l = l := by
  cases l with
  | nil => rfl
  | cons d l => simp only [dropBlocks, List.length_cons, dropBlocksN, h, hy]

/-- The first block is taken out, and then those after it. -/
theorem dropBlocks_of_closed (hb : b ≠ []) (h : cut? a l = some (x, y))
    (hy : cut? b y = some (m, z)) : dropBlocks a b l = x ++ dropBlocks a b z := by
  have hshort := length_lt_of_cut? hb hy
  have hlen := congrArg List.length (eq_of_cut? h)
  simp only [List.length_append] at hlen
  cases l with
  | nil => simp [cut?] at h
  | cons d l =>
      rw [List.length_cons] at hlen
      simp only [dropBlocks, List.length_cons, dropBlocksN, h, hy]
      rw [dropBlocksN_of_length_le hb (by omega)]

/-- The two halves of an `a` come together. -/
example : dropBlocks [1, 2] [3] [1, 1, 2, 0, 3, 2] = [1, 2] ∧ before [1, 2] [1, 2] = [] := by decide

end Py
