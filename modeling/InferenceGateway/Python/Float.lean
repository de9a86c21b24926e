import Mathlib.Algebra.Order.Field.Power
import Mathlib.Algebra.Order.Floor.Ring
import InferenceGateway.Python.Json

/-!
# `float` of a text, and powers of two

`float(s)` reads what `int(s)` reads and more: a fraction, an exponent, infinities and NaNs.  The
power `2 ** k` is a double as long as `k` is at most 1023.
-/

namespace Py

/-! ## `float(s)` -/

/-- The text without its underscores; `none` if one of them does not stand between two digits.
The first argument is the character before. -/
def dropUnderscores : Nat → Str → Option Str
  | before, [] => if before = 95 then none else some []
  | before, c :: s =>
    if c = 95 then if Json.isDigit before then dropUnderscores c s else none
    else if before = 95 ∧ ¬Json.isDigit c then none
    else (dropUnderscores c s).map (c :: ·)

/-- An ASCII letter in lower case. -/
def lowerAscii (c : Nat) : Nat := if 65 ≤ c && c ≤ 90 then c + 32 else c

/-- The value of a numeral without sign: digits, a fraction, an exponent. -/
def floatNumeral? (neg : Bool) (s : Str) : Option Double :=
  let int := s.takeWhile Json.isDigit
  let (frac, s) := match s.dropWhile Json.isDigit with
    | 46 :: t => (t.takeWhile Json.isDigit, t.dropWhile Json.isDigit)
    | t => ([], t)
  if int.isEmpty && frac.isEmpty then none else (Json.exponent? s).map (Json.decimal neg int frac)

/-- `float(s)` of a `str`. -/
def floatOfStr (s : Str) : Except Exc Double :=
  match dropUnderscores 0 (strip isAsciiSpace (toAsciiNumeral s)) with
  | none => .error .valueError
  | some s =>
    let (neg, s) := match s with
      | 43 :: t => (false, t)
      | 45 :: t => (true, t)
      | t => (false, t)
    let word := s.map lowerAscii
    if word = str "inf" ∨ word = str "infinity" then .ok (.inf neg)
    else if word = str "nan" then .ok .nan
    else match floatNumeral? neg s with
      | some x => .ok x
      | none => .error .valueError

example : floatOfStr (str " -Infinity ") = .ok (.inf true) ∧
    floatOfStr (str "1__0") = .error .valueError := by decide

namespace Double

/-! ## Arithmetic -/

/-- `x * y`. -/
def mul : Double → Double → Double
  | .nan, _ | _, .nan => .nan
  | .inf a, .inf b => .inf (a != b)
  | .inf a, .finite q | .finite q, .inf a => if q = 0 then .nan else .inf (a != decide (q < 0))
  | .finite a, .finite b => round (a * b)

/-- `min(x, y)`: the first argument, unless the second is less. -/
def min (x y : Double) : Double := if y.lt x then y else x

/-- `-x`. -/
def neg : Double → Double
  | .nan => .nan
  | .inf a => .inf (!a)
  | .finite q => .finite (-q)

/-- `x - y`. -/
def sub (x y : Double) : Double := x.add y.neg

/-- `x <= y`. -/
def le (x y : Double) : Bool := x.lt y || x.eq y

@[simp] theorem le_finite {a b : ℚ} : (Double.finite a).le (.finite b) = true ↔ a ≤ b := by
  simp [le, lt, eq, le_iff_lt_or_eq]

/-- What is comparable with itself, a NaN excepted. -/
theorem le_self {x : Double} (h : x ≠ .nan) : x.le x := by
  cases x with
  | nan => exact absurd rfl h
  | inf neg => simp [le, eq]
  | finite q => exact le_finite.mpr le_rfl

theorem round_ne_nan (q : ℚ) : round q ≠ .nan := by
  unfold round
  dsimp only
  split
  · exact fun h ↦ by cases h
  · split
    · exact fun h ↦ by cases h
    · exact fun h ↦ by cases h

/-- A finite double and one that is not a NaN have a sum. -/
theorem finite_add_ne_nan {a : ℚ} {y : Double} (h : y ≠ .nan) : (Double.finite a).add y ≠ .nan := by
  cases y with
  | nan => exact absurd rfl h
  | inf neg => exact fun h ↦ by cases h
  | finite b => exact round_ne_nan (a + b)

/-- No double is both at most another and above it. -/
theorem not_lt_of_le {x y : Double} (h : x.le y) : y.lt x = false := by
  cases x with
  | nan => cases h
  | inf a => cases y <;> cases a <;> simp_all [le, lt, eq]
  | finite a =>
      cases y with
      | nan => cases h
      | inf b => cases b <;> simp_all [le, lt, eq]
      | finite b => simpa [lt] using le_finite.mp h

/-! ## Powers of two -/

theorem pow2_eq (e : ℤ) : pow2 e = (2 : ℚ) ^ e := by
  unfold pow2
  split
  · rename_i he
    rw [← zpow_natCast, Int.toNat_of_nonneg he]
  · rename_i he
    rw [one_div, ← zpow_natCast, Int.toNat_of_nonneg (by omega), ← zpow_neg, neg_neg]

theorem ilog2_two_pow (k : ℕ) : ilog2 (2 ^ k) = k := by
  have hcast : (2 : ℚ) ^ k = ((2 ^ k : ℤ) : ℚ) := by push_cast; rfl
  have hnum : ((2 : ℚ) ^ k).num.natAbs = 2 ^ k := by
    rw [hcast, Rat.num_intCast, Int.natAbs_pow]
    rfl
  have hden : ((2 : ℚ) ^ k).den = 1 := by rw [hcast, Rat.den_intCast]
  have hlog : ((2 ^ k).log2 : ℤ) - (1 : ℕ).log2 = k := by
    rw [Nat.log2_two_pow]
    exact sub_zero _
  unfold ilog2
  dsimp only
  rw [hnum, hden, hlog, pow2_eq, zpow_natCast, if_pos le_rfl]

theorem roundHalfEven_intCast (n : ℤ) : roundHalfEven n = n := by
  unfold roundHalfEven
  dsimp only
  rw [Int.floor_intCast, sub_self, if_pos (by norm_num)]

/-- A power of two from `2 ^ 1024` on is out of range. -/
theorem round_two_pow (k : ℕ) :
    round (2 ^ k) = if 1024 ≤ k then .inf false else .finite (2 ^ k) := by
  have hpos : (0 : ℚ) < 2 ^ k := by positivity
  have hexp : max (ilog2 (2 ^ k) - 52) (-1074) = (k : ℤ) - 52 := by
    rw [ilog2_two_pow]
    omega
  have hdiv : (2 : ℚ) ^ k / pow2 ((k : ℤ) - 52) = ((2 ^ 52 : ℤ) : ℚ) := by
    rw [pow2_eq, ← zpow_natCast, ← zpow_sub₀ two_ne_zero, sub_sub_cancel]
    norm_num
  have hmul : ((2 ^ 52 : ℤ) : ℚ) * pow2 ((k : ℤ) - 52) = 2 ^ k := by
    rw [← hdiv]
    refine div_mul_cancel₀ _ ?_
    rw [pow2_eq]
    exact zpow_ne_zero _ two_ne_zero
  have hneg : ¬((2 : ℚ) ^ k < 0) := not_lt.mpr hpos.le
  have hrange : pow2 1024 ≤ 2 ^ k ↔ 1024 ≤ k := by
    rw [pow2_eq]
    exact_mod_cast pow_le_pow_iff_right₀ (one_lt_two (α := ℚ))
  unfold round
  rw [if_neg hpos.ne']
  dsimp only
  rw [abs_of_pos hpos, hexp, hdiv, roundHalfEven_intCast, hmul]
  simp only [hrange, hneg, decide_false, if_false]

/-- `float(2 ** k)` overflows from `k = 1024` on. -/
theorem ofInt_two_pow (k : ℕ) :
    ofInt (2 ^ k) = if 1024 ≤ k then none else some (.finite (2 ^ k)) := by
  unfold ofInt
  push_cast
  rw [round_two_pow]
  by_cases h : 1024 ≤ k
  · rw [if_pos h, if_pos h]
  · rw [if_neg h, if_neg h]

/-! ## Bounds -/

theorem pow2_pos (e : ℤ) : 0 < pow2 e := by
  rw [pow2_eq]
  exact zpow_pos two_pos e

theorem pow2_ilog2_le {q : ℚ} (hq : 0 < q) : pow2 (ilog2 q) ≤ q := by
  unfold ilog2
  dsimp only
  split
  · assumption
  · have hnum : q.num.natAbs ≠ 0 := Int.natAbs_ne_zero.mpr (Rat.num_pos.mpr hq).ne'
    have hle : ((2 ^ q.num.natAbs.log2 : ℕ) : ℚ) ≤ q.num.natAbs :=
      Nat.cast_le.mpr (Nat.log2_self_le hnum)
    have hlt : (q.den : ℚ) ≤ ((2 ^ (q.den.log2 + 1) : ℕ) : ℚ) :=
      Nat.cast_le.mpr Nat.lt_log2_self.le
    have hcast : ((q.num.natAbs : ℕ) : ℚ) = (q.num : ℚ) := by
      rw [Nat.cast_natAbs, abs_of_pos (Rat.num_pos.mpr hq)]
    calc pow2 ((q.num.natAbs.log2 : ℤ) - q.den.log2 - 1)
        = ((2 ^ q.num.natAbs.log2 : ℕ) : ℚ) / ((2 ^ (q.den.log2 + 1) : ℕ) : ℚ) := by
          rw [pow2_eq, sub_sub, zpow_sub₀ two_ne_zero]
          norm_cast
      _ ≤ (q.num : ℚ) / q.den := by
          rw [← hcast]
          exact div_le_div₀ (Nat.cast_nonneg _) hle (Nat.cast_pos.mpr q.den_pos) hlt
      _ = q := Rat.num_div_den q

theorem roundHalfEven_nonneg {q : ℚ} (h : 0 ≤ q) : 0 ≤ roundHalfEven q := by
  have hfloor : 0 ≤ ⌊q⌋ := Int.floor_nonneg.mpr h
  unfold roundHalfEven
  dsimp only
  split_ifs <;> omega

/-- Rounding to an integer does not step over an integer. -/
theorem roundHalfEven_le {q : ℚ} {n : ℤ} (h : q ≤ n) : roundHalfEven q ≤ n := by
  have hfloor : ⌊q⌋ ≤ n := Int.cast_le.mp ((Int.floor_le q).trans h)
  rcases hfloor.eq_or_lt with heq | hlt
  · obtain rfl : q = n := le_antisymm h (heq ▸ Int.floor_le q)
    exact (roundHalfEven_intCast n).le
  · unfold roundHalfEven
    dsimp only
    split_ifs <;> omega

/-- What is not negative rounds to what is not negative, or overflows. -/
theorem round_nonneg {q : ℚ} (h : 0 ≤ q) :
    round q = .inf false ∨ ∃ v, round q = .finite v ∧ 0 ≤ v := by
  unfold round
  split
  · exact .inr ⟨0, rfl, le_rfl⟩
  · dsimp only
    simp only [not_lt.mpr h, decide_false, if_false]
    split
    · exact .inl rfl
    · refine .inr ⟨_, rfl, mul_nonneg ?_ (pow2_pos _).le⟩
      exact_mod_cast roundHalfEven_nonneg (div_nonneg (abs_nonneg q) (pow2_pos _).le)

/-- Rounding does not step over a power of two in the range of a double. -/
theorem round_le_two_zpow {q : ℚ} {j : ℤ} (h : 0 ≤ q) (hq : q ≤ 2 ^ j) (hlo : -1074 ≤ j)
    (hhi : j < 1024) : ∃ v, round q = .finite v ∧ 0 ≤ v ∧ v ≤ 2 ^ j := by
  rcases h.eq_or_lt with rfl | hpos
  · exact ⟨0, rfl, le_rfl, hq⟩
  · have hlog : ilog2 q ≤ j := by
      have hle := (pow2_ilog2_le hpos).trans hq
      rw [pow2_eq] at hle
      exact (zpow_le_zpow_iff_right₀ (one_lt_two (α := ℚ))).mp hle
    -- the spacing of the doubles around `q` divides the power of two
    obtain ⟨k, hk⟩ : ∃ k : ℕ, j = max (ilog2 q - 52) (-1074) + k :=
      ⟨(j - max (ilog2 q - 52) (-1074)).toNat, by omega⟩
    have hsplit : (2 : ℚ) ^ j = ((2 ^ k : ℤ) : ℚ) * pow2 (max (ilog2 q - 52) (-1074)) := by
      rw [pow2_eq, hk, zpow_add₀ two_ne_zero, mul_comm]
      norm_cast
    have hv : (roundHalfEven (q / pow2 (max (ilog2 q - 52) (-1074))) : ℚ) *
        pow2 (max (ilog2 q - 52) (-1074)) ≤ 2 ^ j := by
      rw [hsplit]
      refine mul_le_mul_of_nonneg_right ?_ (pow2_pos _).le
      refine Int.cast_le.mpr (roundHalfEven_le ?_)
      rw [div_le_iff₀ (pow2_pos _), ← hsplit]
      exact hq
    have hrange : (2 : ℚ) ^ j < pow2 1024 := by
      rw [pow2_eq]
      exact zpow_lt_zpow_right₀ one_lt_two hhi
    unfold round
    rw [if_neg hpos.ne']
    dsimp only
    rw [abs_of_pos hpos, if_neg (not_le.mpr (hv.trans_lt hrange)), if_neg (not_lt.mpr h)]
    refine ⟨_, rfl, mul_nonneg ?_ (pow2_pos _).le, hv⟩
    exact_mod_cast roundHalfEven_nonneg (div_nonneg h (pow2_pos _).le)

/-- The smaller of a double that is not negative and a bound that is not. -/
theorem min_of_nonneg {x : Double} {c : ℚ} (hc : 0 ≤ c) (h : (Double.finite 0).le x) :
    ∃ d, x.min (.finite c) = .finite d ∧ 0 ≤ d ∧ d ≤ c := by
  cases x with
  | nan => cases h
  | inf a =>
      cases a with
      | true => cases h
      | false => exact ⟨c, rfl, hc, le_rfl⟩
  | finite q =>
      have hq : 0 ≤ q := le_finite.mp h
      unfold min
      split
      · exact ⟨c, rfl, hc, le_rfl⟩
      · rename_i hlt
        exact ⟨q, rfl, hq, by simpa [lt] using hlt⟩

/-- Clamping from above leaves a NaN and a negative double as they are. -/
theorem nonneg_of_min {x : Double} {c d : ℚ} (h : x.min (.finite c) = .finite d) (hd : 0 ≤ d) :
    (Double.finite 0).le x := by
  cases x with
  | nan => cases h
  | inf a =>
      cases a with
      | true => cases h
      | false => rfl
  | finite q =>
      unfold min at h
      split at h
      · rename_i hlt
        cases h
        exact le_finite.mpr (hd.trans (by simpa [lt] using hlt : c < q).le)
      · cases h
        exact le_finite.mpr hd

/-! ## `random.uniform` -/

/-- `random.uniform(a, b)`, given what `random.random()` returns. -/
def uniform (draw a b : Double) : Double := a.add ((b.sub a).mul draw)

/-- What `random.random()` returns. -/
structure Draw where
  val : ℚ
  nonneg : 0 ≤ val
  lt_one : val < 1

/-- A draw from zero to a bound of at most a power of two is between zero and that power. -/
theorem uniform_zero_le (u : Draw) {b : ℚ} {j : ℤ} (hb : 0 ≤ b) (hbj : b ≤ 2 ^ j)
    (hlo : -1074 ≤ j) (hhi : j < 1024) :
    ∃ d, uniform (.finite u.val) (.finite 0) (.finite b) = .finite d ∧ 0 ≤ d ∧ d ≤ 2 ^ j := by
  obtain ⟨c, hc, hc₀, hcj⟩ := round_le_two_zpow hb hbj hlo hhi
  have hprod : c * u.val ≤ 2 ^ j := (mul_le_of_le_one_right hc₀ u.lt_one.le).trans hcj
  obtain ⟨e, he, he₀, hej⟩ := round_le_two_zpow (mul_nonneg hc₀ u.nonneg) hprod hlo hhi
  obtain ⟨d, hd, hd₀, hdj⟩ := round_le_two_zpow he₀ hej hlo hhi
  refine ⟨d, ?_, hd₀, hdj⟩
  have hsub : (Double.finite b).sub (.finite 0) = .finite c := by
    simp only [sub, neg, add, neg_zero, add_zero]
    exact hc
  unfold uniform
  rw [hsub]
  simp only [mul, he, add, zero_add]
  exact hd

end Double

end Py
