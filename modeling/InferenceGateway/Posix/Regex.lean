import Mathlib.Data.List.Basic

/-!
# Regular expressions with anchors

The expressions a line-oriented search uses: classes of characters, repetition of a class,
concatenation, alternatives, and the two anchors.  What an expression matches depends on
what stands around it, because of the anchors; `Matches a w b` says that `w` is matched
between `a` and `b`, and `Found` that a line contains a match.

`search` decides it by backtracking: `run` tries the ways to match a beginning of what is
left and hands what remains to a continuation.  `search_iff` says that it finds a match if
and only if there is one.
-/

universe u

namespace Posix

variable {α : Type u}

/-- A regular expression over the classes of `α`. -/
inductive Regex (α : Type u) where
  | eps
  /-- The beginning of the line. -/
  | bol
  /-- The end of the line. -/
  | eol
  /-- One character of a class. -/
  | one (p : α → Bool)
  /-- Any number of characters of a class. -/
  | many (p : α → Bool)
  | seq (r s : Regex α)
  | alt (r s : Regex α)

namespace Regex

/-! ## What is matched -/

/-- The expression matches `w` where `a` stands before it and `b` after it. -/
def Matches : Regex α → (a w b : List α) → Prop
  | eps, _, w, _ => w = []
  | bol, a, w, _ => w = [] ∧ a = []
  | eol, _, w, b => w = [] ∧ b = []
  | one p, _, w, _ => ∃ c, w = [c] ∧ p c
  | many p, _, w, _ => ∀ c ∈ w, p c
  | seq r s, a, w, b => ∃ u v, w = u ++ v ∧ r.Matches a u (v ++ b) ∧ s.Matches (a ++ u) v b
  | alt r s, a, w, b => r.Matches a w b ∨ s.Matches a w b

/-- Somewhere in the line there is a match. -/
def Found (r : Regex α) (l : List α) : Prop := ∃ a w b, l = a ++ (w ++ b) ∧ r.Matches a w b

/-! ## Words and counts -/

/-- A word. -/
def lit [DecidableEq α] : List α → Regex α
  | [] => eps
  | c :: s => seq (one (· = c)) (lit s)

/-- Expressions one after another. -/
def cat : List (Regex α) → Regex α
  | [] => eps
  | r :: rs => seq r (cat rs)

/-- So many characters of a class. -/
def exactly (p : α → Bool) : ℕ → Regex α
  | 0 => eps
  | n + 1 => seq (one p) (exactly p n)

/-- So many characters of a class, or more. -/
def atLeast (p : α → Bool) : ℕ → Regex α
  | 0 => many p
  | n + 1 => seq (one p) (atLeast p n)

variable {r s : Regex α} {p : α → Bool} {a w b l : List α} {n : ℕ}

theorem matches_one_seq : (seq (one p) r).Matches a w b ↔
    ∃ c v, w = c :: v ∧ p c ∧ r.Matches (a ++ [c]) v b := by
  constructor
  · rintro ⟨u, v, rfl, ⟨c, rfl, hc⟩, hv⟩
    exact ⟨c, v, rfl, hc, hv⟩
  · rintro ⟨c, v, rfl, hc, hv⟩
    exact ⟨[c], v, rfl, ⟨c, rfl, hc⟩, hv⟩

theorem matches_cat_nil : (cat ([] : List (Regex α))).Matches a [] b := rfl

theorem matches_cat_cons {rs : List (Regex α)} {u v : List α} (hu : r.Matches a u (v ++ b))
    (hv : (cat rs).Matches (a ++ u) v b) : (cat (r :: rs)).Matches a (u ++ v) b :=
  ⟨u, v, rfl, hu, hv⟩

theorem matches_lit [DecidableEq α] {s : List α} : (lit s).Matches a w b ↔ w = s := by
  induction s generalizing a w with
  | nil => exact Iff.rfl
  | cons c s ih =>
      rw [lit, matches_one_seq]
      constructor
      · rintro ⟨d, v, rfl, hd, hv⟩
        rw [of_decide_eq_true hd, ih.mp hv]
      · rintro rfl
        exact ⟨c, s, rfl, decide_eq_true rfl, ih.mpr rfl⟩

theorem matches_exactly : (exactly p n).Matches a w b ↔ w.length = n ∧ ∀ c ∈ w, p c := by
  induction n generalizing a w with
  | zero =>
      constructor
      · intro h
        obtain rfl : w = [] := h
        exact ⟨rfl, fun c hc ↦ by cases hc⟩
      · rintro ⟨hw, -⟩
        exact List.length_eq_zero_iff.mp hw
  | succ n ih =>
      rw [exactly, matches_one_seq]
      constructor
      · rintro ⟨c, v, rfl, hc, hv⟩
        obtain ⟨hlen, hall⟩ := ih.mp hv
        exact ⟨by rw [List.length_cons, hlen], List.forall_mem_cons.mpr ⟨hc, hall⟩⟩
      · rintro ⟨hlen, hall⟩
        obtain ⟨c, v, rfl⟩ := List.exists_cons_of_length_eq_add_one hlen
        obtain ⟨hc, hv⟩ := List.forall_mem_cons.mp hall
        exact ⟨c, v, rfl, hc, ih.mpr ⟨Nat.succ.inj hlen, hv⟩⟩

theorem matches_atLeast : (atLeast p n).Matches a w b ↔ n ≤ w.length ∧ ∀ c ∈ w, p c := by
  induction n generalizing a w with
  | zero => exact ⟨fun h ↦ ⟨Nat.zero_le _, h⟩, And.right⟩
  | succ n ih =>
      rw [atLeast, matches_one_seq]
      constructor
      · rintro ⟨c, v, rfl, hc, hv⟩
        obtain ⟨hlen, hall⟩ := ih.mp hv
        exact ⟨Nat.succ_le_succ hlen, List.forall_mem_cons.mpr ⟨hc, hall⟩⟩
      · rintro ⟨hlen, hall⟩
        cases w with
        | nil => cases hlen
        | cons c v =>
            obtain ⟨hc, hv⟩ := List.forall_mem_cons.mp hall
            exact ⟨c, v, rfl, hc, ih.mpr ⟨Nat.le_of_succ_le_succ hlen, hv⟩⟩

/-! ## Searching -/

/-- Any number of characters of a class, then the continuation. -/
def runMany (p : α → Bool) (k : Bool → List α → Bool) : Bool → List α → Bool
  | start, [] => k start []
  | start, c :: l => k start (c :: l) || (p c && runMany p k false l)

/-- A way to match a beginning of the list after which the continuation succeeds.  The flag
says whether the list starts at the beginning of the line. -/
def run : Regex α → (Bool → List α → Bool) → Bool → List α → Bool
  | eps, k, start, l => k start l
  | bol, k, start, l => start && k start l
  | eol, k, start, l => l.isEmpty && k start l
  | one _, _, _, [] => false
  | one p, k, _, c :: l => p c && k false l
  | many p, k, start, l => runMany p k start l
  | seq r s, k, start, l => r.run (s.run k) start l
  | alt r s, k, start, l => r.run k start l || s.run k start l

/-- A match that starts in the list. -/
def searchFrom (r : Regex α) : Bool → List α → Bool
  | start, [] => r.run (fun _ _ ↦ true) start []
  | start, c :: l => r.run (fun _ _ ↦ true) start (c :: l) || r.searchFrom false l

/-- A match in the line. -/
def search (r : Regex α) (l : List α) : Bool := r.searchFrom true l

theorem isEmpty_append_singleton (a : List α) (c : α) : (a ++ [c]).isEmpty = false := by
  cases a <;> rfl

theorem runMany_iff {k : Bool → List α → Bool} : runMany p k a.isEmpty l = true ↔
    ∃ w b, l = w ++ b ∧ (∀ c ∈ w, p c) ∧ k (a ++ w).isEmpty b = true := by
  induction l generalizing a with
  | nil =>
      constructor
      · intro h
        exact ⟨[], [], rfl, (by intro c hc; cases hc), by rwa [List.append_nil]⟩
      · rintro ⟨w, b, hl, -, hk⟩
        obtain ⟨rfl, rfl⟩ := List.append_eq_nil_iff.mp hl.symm
        rwa [List.append_nil] at hk
  | cons c l ih =>
      rw [runMany, Bool.or_eq_true, Bool.and_eq_true, ← isEmpty_append_singleton a c, ih]
      constructor
      · rintro (h | ⟨hc, w, b, rfl, hw, hk⟩)
        · exact ⟨[], c :: l, rfl, (by intro d hd; cases hd), by rwa [List.append_nil]⟩
        · refine ⟨c :: w, b, rfl, List.forall_mem_cons.mpr ⟨hc, hw⟩, ?_⟩
          rwa [List.append_cons]
      · rintro ⟨w, b, hl, hw, hk⟩
        cases w with
        | nil =>
            left
            rw [List.append_nil] at hk
            rwa [hl]
        | cons d w =>
            obtain ⟨rfl, rfl⟩ := List.cons.inj hl
            obtain ⟨hc, hw⟩ := List.forall_mem_cons.mp hw
            exact .inr ⟨hc, w, b, rfl, hw, by rwa [← List.append_cons]⟩

theorem run_iff {k : Bool → List α → Bool} : r.run k a.isEmpty l = true ↔
    ∃ w b, l = w ++ b ∧ r.Matches a w b ∧ k (a ++ w).isEmpty b = true := by
  induction r generalizing k a l with
  | eps =>
      constructor
      · intro h
        exact ⟨[], l, rfl, rfl, by rwa [List.append_nil]⟩
      · rintro ⟨w, b, rfl, rfl, hk⟩
        rwa [List.append_nil] at hk
  | bol =>
      rw [run, Bool.and_eq_true, List.isEmpty_iff]
      constructor
      · rintro ⟨rfl, hk⟩
        exact ⟨[], l, rfl, ⟨rfl, rfl⟩, hk⟩
      · rintro ⟨w, b, rfl, ⟨rfl, rfl⟩, hk⟩
        exact ⟨rfl, hk⟩
  | eol =>
      rw [run, Bool.and_eq_true, List.isEmpty_iff]
      constructor
      · rintro ⟨rfl, hk⟩
        exact ⟨[], [], rfl, ⟨rfl, rfl⟩, by rwa [List.append_nil]⟩
      · rintro ⟨w, b, rfl, ⟨rfl, rfl⟩, hk⟩
        rw [List.append_nil] at hk
        exact ⟨rfl, hk⟩
  | one p =>
      constructor
      · intro h
        cases l with
        | nil => cases h
        | cons c l =>
            obtain ⟨hc, hk⟩ := Bool.and_eq_true_iff.mp h
            exact ⟨[c], l, rfl, ⟨c, rfl, hc⟩, by rwa [isEmpty_append_singleton]⟩
      · rintro ⟨w, b, rfl, ⟨c, rfl, hc⟩, hk⟩
        rw [isEmpty_append_singleton] at hk
        exact Bool.and_eq_true_iff.mpr ⟨hc, hk⟩
  | many p => exact runMany_iff
  | seq r s ihr ihs =>
      rw [run, ihr]
      constructor
      · rintro ⟨u, rest, rfl, hu, hk⟩
        obtain ⟨v, b, rfl, hv, hk⟩ := ihs.mp hk
        exact ⟨u ++ v, b, (List.append_assoc ..).symm, ⟨u, v, rfl, hu, hv⟩,
          by rwa [← List.append_assoc]⟩
      · rintro ⟨w, b, rfl, ⟨u, v, rfl, hu, hv⟩, hk⟩
        exact ⟨u, v ++ b, List.append_assoc .., hu, ihs.mpr ⟨v, b, rfl, hv, by rwa [List.append_assoc]⟩⟩
  | alt r s ihr ihs =>
      rw [run, Bool.or_eq_true, ihr, ihs]
      constructor
      · rintro (⟨w, b, hl, hw, hk⟩ | ⟨w, b, hl, hw, hk⟩)
        · exact ⟨w, b, hl, .inl hw, hk⟩
        · exact ⟨w, b, hl, .inr hw, hk⟩
      · rintro ⟨w, b, hl, hw | hw, hk⟩
        · exact .inl ⟨w, b, hl, hw, hk⟩
        · exact .inr ⟨w, b, hl, hw, hk⟩

/-- A match at the beginning of the list. -/
theorem run_true_iff : r.run (fun _ _ ↦ true) a.isEmpty l = true ↔
    ∃ w b, l = w ++ b ∧ r.Matches a w b := by
  simp only [run_iff, and_true]

theorem searchFrom_iff : r.searchFrom a.isEmpty l = true ↔
    ∃ x w b, l = x ++ (w ++ b) ∧ r.Matches (a ++ x) w b := by
  induction l generalizing a with
  | nil =>
      rw [searchFrom, run_true_iff]
      constructor
      · rintro ⟨w, b, hl, hw⟩
        exact ⟨[], w, b, hl, by rwa [List.append_nil]⟩
      · rintro ⟨x, w, b, hl, hw⟩
        obtain ⟨rfl, hl'⟩ := List.append_eq_nil_iff.mp hl.symm
        rw [List.append_nil] at hw
        exact ⟨w, b, hl, hw⟩
  | cons c l ih =>
      rw [searchFrom, Bool.or_eq_true, run_true_iff, ← isEmpty_append_singleton a c, ih]
      constructor
      · rintro (⟨w, b, hl, hw⟩ | ⟨x, w, b, rfl, hw⟩)
        · exact ⟨[], w, b, hl, by rwa [List.append_nil]⟩
        · exact ⟨c :: x, w, b, rfl, by rwa [List.append_cons]⟩
      · rintro ⟨x, w, b, hl, hw⟩
        cases x with
        | nil =>
            rw [List.append_nil] at hw
            exact .inl ⟨w, b, hl, hw⟩
        | cons d x =>
            obtain ⟨rfl, rfl⟩ := List.cons.inj hl
            exact .inr ⟨x, w, b, rfl, by rwa [← List.append_cons]⟩

/-- The search finds a match if and only if there is one. -/
theorem search_iff : r.search l = true ↔ r.Found l := by
  have h : r.searchFrom ([] : List α).isEmpty l = true ↔ _ := searchFrom_iff
  exact h

end Regex

end Posix
