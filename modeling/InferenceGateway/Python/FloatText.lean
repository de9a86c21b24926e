import Mathlib.Data.Nat.Prime.Basic
import InferenceGateway.Python.Float
import InferenceGateway.Python.DumpsLoads

/-!
# The text of a double

Rounding gives a double, which rounding leaves as it is.  And there is a text for each double that
is read as that double: the interpreter writes the shortest one, but the exact decimal expansion is
one as well, a double being a fraction whose denominator is a power of two.
-/

namespace Py

namespace Double

theorem lt_pow2_ilog2 {q : ℚ} (hq : 0 < q) : q < pow2 (ilog2 q + 1) := by
  unfold ilog2
  dsimp only
  split
  · have hden : ((2 ^ q.den.log2 : ℕ) : ℚ) ≤ q.den := Nat.cast_le.mpr (Nat.log2_self_le q.den_ne_zero)
    have hnum : ((q.num.natAbs : ℕ) : ℚ) < ((2 ^ (q.num.natAbs.log2 + 1) : ℕ) : ℚ) :=
      Nat.cast_lt.mpr Nat.lt_log2_self
    have hcast : ((q.num.natAbs : ℕ) : ℚ) = (q.num : ℚ) := by
      rw [Nat.cast_natAbs, abs_of_pos (Rat.num_pos.mpr hq)]
    rw [hcast] at hnum
    calc q = (q.num : ℚ) / q.den := (Rat.num_div_den q).symm
      _ < ((2 ^ (q.num.natAbs.log2 + 1) : ℕ) : ℚ) / ((2 ^ q.den.log2 : ℕ) : ℚ) :=
        div_lt_div₀ hnum hden (Nat.cast_nonneg _) (by positivity)
      _ = pow2 ((q.num.natAbs.log2 : ℤ) - q.den.log2 + 1) := by
        rw [pow2_eq, sub_add_eq_add_sub, zpow_sub₀ two_ne_zero]
        norm_cast
  · rename_i h
    rw [sub_add_cancel]
    exact not_le.mp h

/-- A multiple of a spacing of the doubles, small enough for it, is a double. -/
theorem round_multiple {m e : ℤ} (hpos : 0 < (m : ℚ) * pow2 e) (he : -1074 ≤ e) (hm : m ≤ 2 ^ 53)
    (hrange : (m : ℚ) * pow2 e < pow2 1024) (neg : Bool) :
    round (if neg then -(m * pow2 e) else m * pow2 e) =
      .finite (if neg then -(m * pow2 e) else m * pow2 e) := by
  generalize hw : (m : ℚ) * pow2 e = w at hpos hrange
  have hwle : w ≤ pow2 (e + 53) := by
    have hsplit : pow2 (e + 53) = ((2 ^ 53 : ℤ) : ℚ) * pow2 e := by
      rw [pow2_eq, pow2_eq, zpow_add₀ two_ne_zero, mul_comm]
      norm_num
    rw [hsplit, ← hw]
    exact mul_le_mul_of_nonneg_right (Int.cast_le.mpr hm) (pow2_pos e).le
  have hlog : ilog2 w ≤ e + 53 := by
    have hle := (pow2_ilog2_le hpos).trans hwle
    rw [pow2_eq, pow2_eq] at hle
    exact (zpow_le_zpow_iff_right₀ (one_lt_two (α := ℚ))).mp hle
  -- in units of the spacing around it, `w` is an integer
  obtain ⟨k, hk⟩ : ∃ k : ℤ, w = k * pow2 (max (ilog2 w - 52) (-1074)) := by
    rcases le_or_gt (max (ilog2 w - 52) (-1074)) e with hle | hgt
    · obtain ⟨j, hj⟩ : ∃ j : ℕ, e = max (ilog2 w - 52) (-1074) + j :=
        ⟨(e - max (ilog2 w - 52) (-1074)).toNat, by omega⟩
      have hsplit : pow2 e = pow2 (max (ilog2 w - 52) (-1074)) * 2 ^ j := by
        rw [pow2_eq, pow2_eq, ← zpow_natCast, ← zpow_add₀ two_ne_zero, ← hj]
      refine ⟨m * 2 ^ j, ?_⟩
      calc w = m * pow2 e := hw.symm
        _ = m * (pow2 (max (ilog2 w - 52) (-1074)) * 2 ^ j) := by rw [← hsplit]
        _ = ((m * 2 ^ j : ℤ) : ℚ) * pow2 (max (ilog2 w - 52) (-1074)) := by
          push_cast
          ring
    · have htop : ilog2 w = e + 53 := by omega
      have heq : w = pow2 (e + 53) := le_antisymm hwle (htop ▸ pow2_ilog2_le hpos)
      have hmax : max (ilog2 w - 52) (-1074) = e + 1 := by omega
      refine ⟨2 ^ 52, ?_⟩
      rw [hmax, heq, pow2_eq, pow2_eq, show e + 53 = 52 + (e + 1) by omega,
        zpow_add₀ two_ne_zero]
      norm_num
  have hdiv : w / pow2 (max (ilog2 w - 52) (-1074)) = k := by
    rw [div_eq_iff (pow2_pos _).ne']
    exact hk
  have habs : |if neg then -w else w| = w := by
    cases neg <;> simp [abs_of_pos hpos]
  have hne : ¬(if neg then -w else w) = 0 := by
    cases neg <;> simp [hpos.ne']
  have hsign : ((if neg then -w else w) < 0) ↔ neg = true := by
    cases neg with
    | true => simpa using hpos
    | false => simpa using hpos.le
  unfold round
  rw [if_neg hne]
  dsimp only
  rw [habs, hdiv, roundHalfEven_intCast, ← hk, if_neg (not_le.mpr hrange)]
  simp only [hsign]

/-- Rounding leaves a double as it is. -/
theorem round_of_round {q v : ℚ} (h : round q = .finite v) : round v = .finite v := by
  unfold round at h
  split at h
  · cases h
    exact if_pos rfl
  · rename_i hq
    dsimp only at h
    split at h
    · cases h
    · rename_i hrange
      have hv := Double.finite.inj h
      generalize he : max (ilog2 |q| - 52) (-1074) = e at hrange hv
      have hle : roundHalfEven (|q| / pow2 e) ≤ 2 ^ 53 := by
        refine roundHalfEven_le ?_
        have hlt := lt_pow2_ilog2 (abs_pos.mpr hq)
        have hmono : pow2 (ilog2 |q| + 1) ≤ pow2 (e + 53) := by
          rw [pow2_eq, pow2_eq]
          exact zpow_le_zpow_right₀ (one_lt_two (α := ℚ)).le (by omega)
        rw [div_le_iff₀ (pow2_pos e)]
        have hsplit : ((2 ^ 53 : ℤ) : ℚ) * pow2 e = pow2 (e + 53) := by
          rw [pow2_eq, pow2_eq, zpow_add₀ two_ne_zero, mul_comm]
          norm_num
        rw [hsplit]
        exact (hlt.trans_le hmono).le
      have hnonneg : 0 ≤ roundHalfEven (|q| / pow2 e) :=
        roundHalfEven_nonneg (div_nonneg (abs_nonneg q) (pow2_pos e).le)
      rcases hnonneg.eq_or_lt with hzero | hpos
      · rw [← hzero] at hv
        have hv0 : v = 0 := by
          rw [← hv]
          simp
        rw [hv0]
        exact if_pos rfl
      · have hround := round_multiple (mul_pos (Int.cast_pos.mpr hpos) (pow2_pos e)) (by omega) hle
          (not_le.mp hrange) (decide (q < 0))
        simp only [decide_eq_true_eq] at hround
        rwa [hv] at hround

theorem rounded_round (q : ℚ) : (round q).Rounded := by
  cases h : round q with
  | nan => trivial
  | inf neg => trivial
  | finite v => exact round_of_round h

/-- The denominator of a double is a power of two. -/
theorem den_of_round {q : ℚ} (h : round q = .finite q) : q.den = 2 ^ q.den.log2 := by
  obtain ⟨m, e, hq⟩ : ∃ (m e : ℤ), q = m * pow2 e := by
    unfold round at h
    split at h
    · exact ⟨0, 0, by rw [← Double.finite.inj h]; simp⟩
    · dsimp only at h
      split at h
      · cases h
      · have hv := Double.finite.inj h
        generalize roundHalfEven (|q| / pow2 (max (ilog2 |q| - 52) (-1074))) = m at hv
        generalize max (ilog2 |q| - 52) (-1074) = e at hv
        split at hv
        · refine ⟨-m, e, hv.symm.trans ?_⟩
          push_cast
          exact (neg_mul _ _).symm
        · exact ⟨m, e, hv.symm⟩
  have hdvd : ∃ j : ℕ, q.den ∣ 2 ^ j := by
    unfold pow2 at hq
    split at hq
    · refine ⟨0, ?_⟩
      have hint : q = ((m * 2 ^ e.toNat : ℤ) : ℚ) := by
        rw [hq]
        push_cast
        rfl
      rw [hint, Rat.den_intCast]
      exact dvd_rfl
    · refine ⟨(-e).toNat, ?_⟩
      have hfrac : q = ((m : ℤ) : ℚ) / ((2 ^ (-e).toNat : ℤ) : ℚ) := by
        rw [hq]
        push_cast
        ring
      have hden := Rat.den_dvd m (2 ^ (-e).toNat)
      rw [Rat.divInt_eq_div, ← hfrac] at hden
      exact_mod_cast hden
  obtain ⟨j, hj⟩ := hdvd
  obtain ⟨i, -, hi⟩ := (Nat.dvd_prime_pow Nat.prime_two).mp hj
  rw [hi, Nat.log2_two_pow]

end Double

/-! ## The exact text -/

namespace FloatRepr

open Json

/-- A number below `10 ^ k` by `k` digits. -/
def padded (k n : ℕ) : Str := List.replicate (k - (digitText n).length) 48 ++ digitText n

/-- The digits behind the point that a double needs. -/
def fractionDigits (q : ℚ) : ℕ := max 1 q.den.log2

/-- A double in units of its last digit. -/
def scaled (q : ℚ) : ℕ := ⌊|q| * 10 ^ fractionDigits q⌋₊

/-- The decimal expansion of a double. -/
def exactText (q : ℚ) : Str :=
  signText (decide (q < 0)) ++ (digitText (scaled q / 10 ^ fractionDigits q) ++
    46 :: padded (fractionDigits q) (scaled q % 10 ^ fractionDigits q))

theorem isDigit_of_mem_padded {c k n : ℕ} (h : c ∈ padded k n) : isDigit c := by
  rcases List.mem_append.mp h with h | h
  · rw [List.eq_of_mem_replicate h]
    rfl
  · exact isDigit_of_mem_digitText h

theorem length_padded {k n : ℕ} (hk : 0 < k) (h : n < 10 ^ k) : (padded k n).length = k := by
  have hlen : (digitText n).length ≤ k := by
    rw [digitText, List.length_map]
    exact (Nat.length_toDigits_le_iff (by decide) hk).mpr h
  rw [padded, List.length_append, List.length_replicate]
  omega

theorem ofText_append (a b : Str) : ofText (a ++ b) = ofText a * 10 ^ b.length + ofText b := by
  have hfold : ∀ (l : List ℕ) (n : ℕ),
      l.foldl (fun n d ↦ 10 * n + d) n = n * 10 ^ l.length + l.foldl (fun n d ↦ 10 * n + d) 0 := by
    intro l
    induction l with
    | nil => simp
    | cons d l ih =>
        intro n
        rw [List.foldl_cons, List.foldl_cons, ih (10 * n + d), ih (10 * 0 + d), List.length_cons]
        ring
  unfold ofText ofDigits
  rw [List.map_append, List.foldl_append, hfold, List.length_map]

theorem ofText_padded (k n : ℕ) : ofText (padded k n) = n := by
  have hzeros : ∀ j, ofText (List.replicate j 48) = 0 := by
    intro j
    induction j with
    | zero => rfl
    | succ j ih =>
        rw [List.replicate_succ', ofText_append, ih]
        rfl
  rw [padded, ofText_append, hzeros, ofText_digitText, Nat.zero_mul, Nat.zero_add]

/-- A double is an integer in units of its last digit. -/
theorem scaled_eq {q : ℚ} (h : Double.round q = .finite q) :
    (scaled q : ℚ) = |q| * 10 ^ fractionDigits q := by
  obtain ⟨j, hj⟩ : ∃ j, fractionDigits q = q.den.log2 + j :=
    ⟨fractionDigits q - q.den.log2, by unfold fractionDigits; omega⟩
  have hden : (q.den : ℚ) = 2 ^ q.den.log2 := by exact_mod_cast Double.den_of_round h
  have hpow : (10 : ℚ) ^ fractionDigits q = 2 ^ q.den.log2 * (5 ^ q.den.log2 * 10 ^ j) := by
    rw [hj, pow_add, ← mul_assoc, ← mul_pow]
    norm_num
  have habs : |q| * q.den = q.num.natAbs := by
    rw [Nat.cast_natAbs, Int.cast_abs, ← Rat.mul_den_eq_num q, abs_mul, Nat.abs_cast]
  have hint : |q| * 10 ^ fractionDigits q = ((q.num.natAbs * (5 ^ q.den.log2 * 10 ^ j) : ℕ) : ℚ) := by
    rw [hpow, ← mul_assoc, ← hden, habs]
    push_cast
    rfl
  rw [scaled, hint, Nat.floor_natCast]

/-- Digits around a point are rounded. -/
theorem decimal_eq (neg : Bool) {ds frac : Str} (hds : ds ≠ []) (hfrac : frac ≠ []) :
    decimal neg ds frac 0 = Double.round (if neg then -((ofText (ds ++ frac) : ℚ) / 10 ^ frac.length)
      else (ofText (ds ++ frac) : ℚ) / 10 ^ frac.length) := by
  have hds' := List.length_pos_iff.mpr hds
  have hfrac' := List.length_pos_iff.mpr hfrac
  have hexp : ((-(0 - (frac.length : ℤ))).toNat) = frac.length := by omega
  unfold decimal
  dsimp only
  by_cases hzero : ofText (ds ++ frac) = 0
  · simp [hzero, Double.round]
  · have hsize : ¬(0 - (frac.length : ℤ) + ((ds ++ frac).length : ℕ) < -400) := by
      rw [List.length_append]
      push_cast
      omega
    have hsmall : ¬(400 < 0 - (frac.length : ℤ)) := by omega
    have hneg : ¬(0 ≤ 0 - (frac.length : ℤ)) := by omega
    simp only [hzero, hsize, decide_false, Bool.or_false, Bool.false_eq_true, if_false, hsmall, hneg,
      hexp]

/-- The exact text is one that `float.__repr__` may give. -/
def exact : FloatRepr where
  text := exactText
  numeral := by
    intro q c hc
    rcases List.mem_append.mp hc with hc | hc
    · unfold signText at hc
      split at hc
      · rw [List.mem_singleton.mp hc]
        rfl
      · cases hc
    · rcases List.mem_append.mp hc with hc | hc
      · simp [isNumeral, isDigit_of_mem_digitText hc]
      · rcases List.mem_cons.mp hc with rfl | hc
        · rfl
        · simp [isNumeral, isDigit_of_mem_padded hc]
  reads := by
    intro q hq
    have hk : 0 < fractionDigits q := Nat.lt_of_lt_of_le one_pos (le_max_left _ _)
    have hten : 0 < 10 ^ fractionDigits q := by positivity
    have hlen := length_padded hk (Nat.mod_lt (scaled q) hten)
    have hlead : ∀ n, (digitText n).head? = some 48 → (digitText n).length ≤ 1 := by
      intro n hn
      rw [head?_digitText hn]
      decide
    have hne : padded (fractionDigits q) (scaled q % 10 ^ fractionDigits q) ≠ [] := by
      intro hnil
      rw [hnil] at hlen
      exact hk.ne hlen
    rw [exactText, number_point _ (fun c ↦ isDigit_of_mem_digitText) (digitText_ne_nil _) (hlead _)
      (fun c ↦ isDigit_of_mem_padded) hne]
    have hvalue : ofText (digitText (scaled q / 10 ^ fractionDigits q) ++
        padded (fractionDigits q) (scaled q % 10 ^ fractionDigits q)) = scaled q := by
      rw [ofText_append, ofText_digitText, ofText_padded, hlen, mul_comm]
      exact Nat.div_add_mod _ _
    have hquot : (scaled q : ℚ) / 10 ^ fractionDigits q = |q| := by
      rw [scaled_eq hq, mul_div_assoc, div_self (by positivity), mul_one]
    have hsign : (if decide (q < 0) then -|q| else |q|) = q := by
      by_cases hneg : q < 0
      · simp [hneg, abs_of_neg hneg]
      · simp [hneg, abs_of_nonneg (not_lt.mp hneg)]
    rw [decimal_eq _ (digitText_ne_nil _) hne, hvalue, hlen, hquot, hsign, hq]

end FloatRepr

end Py
