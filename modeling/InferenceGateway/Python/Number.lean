import Mathlib.Data.Rat.Floor
import InferenceGateway.Python.Text

/-!
# Python numbers

`int` is `ℤ`.  A `float` is an IEEE double: an infinity, a NaN, or a finite value,
kept here as the rational number it denotes (the sign of zero is not observed by
anything that uses this library).  `Double.round` is the correctly rounded
conversion to a double, ties to even, so that arithmetic and the reading of
literals give the double CPython gives.
-/

namespace Py

/-- The exceptions of the interpreter that matter here.  `valueError` stands for
`ValueError` and the subclasses raised by decoders (`JSONDecodeError`,
`UnicodeDecodeError`). -/
inductive Exc where
  | attributeError
  | typeError
  | valueError
  | overflowError
  | unicodeEncodeError
  | recursionError
  deriving DecidableEq, Repr

namespace Exc

/-- `isinstance(e, ValueError)`. -/
def isValueError : Exc → Bool
  | .valueError | .unicodeEncodeError => true
  | _ => false

end Exc

theorem map_eq_ok_iff {ε α β : Type} {x : Except ε α} {f : α → β} {b : β} :
    x.map f = .ok b ↔ ∃ a, x = .ok a ∧ f a = b := by
  cases x with
  | error e => simp [Except.map]
  | ok a => simp [Except.map]

theorem map_eq_error_iff {ε α β : Type} {x : Except ε α} {f : α → β} {e : ε} :
    x.map f = .error e ↔ x = .error e := by
  cases x with
  | error e' => simp [Except.map]
  | ok a => simp [Except.map]

/-- A sequence of operations that succeeds passes through a result of the first. -/
theorem of_bind_eq_ok {ε α β : Type} {x : Except ε α} {k : α → Except ε β} {b : β}
    (h : x >>= k = .ok b) : ∃ a, x = .ok a ∧ k a = .ok b := by
  cases x with
  | error e => cases h
  | ok a => exact ⟨a, rfl, h⟩

/-- A computation that raises has raised in its first part or in what follows. -/
theorem of_bind_eq_error {ε α β : Type} {x : Except ε α} {k : α → Except ε β} {e : ε}
    (h : x >>= k = .error e) : x = .error e ∨ ∃ a, x = .ok a ∧ k a = .error e := by
  cases x with
  | error e' =>
      cases h
      exact .inl rfl
  | ok a => exact .inr ⟨a, rfl, h⟩

/-- A `float`. -/
inductive Double where
  | nan
  | inf (neg : Bool)
  | finite (q : ℚ)
  deriving DecidableEq

namespace Double

/-- `2 ^ e` for an integer exponent. -/
def pow2 (e : ℤ) : ℚ := if 0 ≤ e then 2 ^ e.toNat else 1 / 2 ^ (-e).toNat

/-- The exponent of the leading binary digit of a positive rational. -/
def ilog2 (q : ℚ) : ℤ :=
  let e : ℤ := (Nat.log2 q.num.natAbs : ℤ) - Nat.log2 q.den
  if pow2 e ≤ q then e else e - 1

/-- The nearest integer, ties to even. -/
def roundHalfEven (q : ℚ) : ℤ :=
  let f := ⌊q⌋
  let r := q - f
  if r < 1 / 2 then f else if 1 / 2 < r then f + 1 else if f % 2 = 0 then f else f + 1

/-- The double nearest to a rational. -/
def round (q : ℚ) : Double :=
  if q = 0 then .finite 0
  else
    let a := |q|
    let e := max (ilog2 a - 52) (-1074)
    let v := roundHalfEven (a / pow2 e) * pow2 e
    if pow2 1024 ≤ v then .inf (q < 0) else .finite (if q < 0 then -v else v)

/-- `float(n)` of an `int`; `none` where Python raises `OverflowError`. -/
def ofInt (n : ℤ) : Option Double :=
  match round n with
  | .inf _ => none
  | x => some x

/-- `x + y`. -/
def add : Double → Double → Double
  | .nan, _ | _, .nan => .nan
  | .inf a, .inf b => if a = b then .inf a else .nan
  | .inf a, .finite _ | .finite _, .inf a => .inf a
  | .finite a, .finite b => round (a + b)

/-- `x < y`. -/
def lt : Double → Double → Bool
  | .nan, _ | _, .nan => false
  | .inf a, .inf b => a && !b
  | .inf a, .finite _ => a
  | .finite _, .inf b => !b
  | .finite a, .finite b => a < b

/-- `x == y`. -/
def eq : Double → Double → Bool
  | .nan, _ => false
  | x, y => x = y

/-- Neither infinite nor NaN. -/
def isFinite : Double → Bool
  | .finite _ => true
  | _ => false

/-- `bool(x)`. -/
def truthy : Double → Bool
  | .finite q => q ≠ 0
  | _ => true

variable {x y : Double}

/-- `==` is equality, but for a NaN. -/
theorem eq_of_eq (h : x.eq y) : x = y := by
  cases x with
  | nan => cases h
  | inf neg => exact of_decide_eq_true h
  | finite q => exact of_decide_eq_true h

/-- The one false double. -/
theorem eq_zero_of_not_truthy (h : ¬x.truthy) : x = .finite 0 := by
  cases x with
  | nan => exact absurd rfl h
  | inf neg => exact absurd rfl h
  | finite q => simpa [truthy] using h

theorem lt_irrefl : x.lt x = false := by
  cases x with
  | nan => rfl
  | inf neg => cases neg <;> rfl
  | finite q => simp [lt]

end Double

/-- A number: what `+`, `<` and `>=` below are applied to. -/
inductive Num where
  | int (n : ℤ)
  | float (x : Double)
  deriving DecidableEq

namespace Num

/-- `x + y`.  A mixed sum converts the `int` first, which can overflow. -/
def add : Num → Num → Except Exc Num
  | .int a, .int b => .ok (.int (a + b))
  | .float x, .float y => .ok (.float (x.add y))
  | .int a, .float y => match Double.ofInt a with
    | some x => .ok (.float (x.add y))
    | none => .error .overflowError
  | .float x, .int b => match Double.ofInt b with
    | some y => .ok (.float (x.add y))
    | none => .error .overflowError

/-- The number as an extended rational: Python compares an `int` and a `float`
by value, without converting. -/
def toDouble : Num → Double
  | .int n => .finite n
  | .float x => x

/-- `x < y`. -/
def lt (x y : Num) : Bool := x.toDouble.lt y.toDouble

/-- `x >= y`. -/
def ge (x y : Num) : Bool := y.lt x || x.toDouble.eq y.toDouble

@[simp] theorem lt_int (a b : ℤ) : lt (.int a) (.int b) = decide (a < b) := by
  simp [lt, toDouble, Double.lt]

@[simp] theorem ge_int (a b : ℤ) : ge (.int a) (.int b) = decide (b ≤ a) := by
  rcases lt_trichotomy a b with h | h | h
  · simp [ge, toDouble, Double.eq, h.not_gt, h.ne, h.not_ge]
  · simp [ge, toDouble, Double.eq, h]
  · simp [ge, toDouble, h, h.le]

@[simp] theorem add_int (a b : ℤ) : add (.int a) (.int b) = .ok (.int (a + b)) := rfl

end Num

/-- The ASCII form `int` and `float` parse: in a string with a non-ASCII character, white space
from U+007F on becomes a blank and a decimal digit from there on its ASCII digit.  The separators
U+001C to U+001F, white space to `str`, stay as they are. -/
def toAsciiNumeral (s : Str) : Str :=
  if s.all (· < 128) then s
  else s.map fun c ↦ if c < 127 then c else if isSpace c then 32 else match decimal? c with
    | some d => 48 + d
    | none => c

/-- The digits of a numeral with single underscores between digits, `none` if the
text is not one. -/
def digits? : Str → Option (List Nat)
  | [] => none
  | [c] => if 48 ≤ c && c ≤ 57 then some [c - 48] else none
  | c :: d :: s =>
    if 48 ≤ c && c ≤ 57 then
      match digits? (d :: s), d == 95 with
      | some ds, _ => some ((c - 48) :: ds)
      | none, true => (digits? s).map ((c - 48) :: ·)
      | none, false => none
    else none

/-- The number a list of decimal digits writes. -/
def ofDigits (ds : List Nat) : Nat := ds.foldl (fun n d ↦ 10 * n + d) 0

/-- CPython's default limit on the digits of a numeral converted to `int`. -/
def maxStrDigits : Nat := 4300

/-- `int(s)` of a `str`. -/
def intOfStr (s : Str) : Except Exc ℤ :=
  let s := strip isAsciiSpace (toAsciiNumeral s)
  let (neg, s) := match s with
    | 43 :: t => (false, t)
    | 45 :: t => (true, t)
    | t => (false, t)
  match digits? s with
  | none => .error .valueError
  | some ds =>
    if maxStrDigits < ds.length then .error .valueError
    else .ok (if neg then -(ofDigits ds : ℤ) else ofDigits ds)

end Py
