import InferenceGateway.Python.Dict
import InferenceGateway.Python.Number

/-!
# The Python objects `json.loads` returns

The operations are those a duck-typed program applies to an object of unknown
shape: truth, `int`, arithmetic, `str`, attribute access by `.get`.

`Value.depth` counts nested containers.  The interpreter bounds the depth its
recursive routines can handle, so what walks a value takes that bound as an
argument and raises `RecursionError` past it.
-/

namespace Py

/-- A JSON value as a Python object. -/
inductive Value where
  | none
  | bool (b : Bool)
  | int (n : ℤ)
  | float (x : Double)
  | str (s : Str)
  | list (xs : List Value)
  | dict (kvs : List (Str × Value))

/-- The items of a dictionary. -/
abbrev Fields := Dict Str Value

/-! ## Dictionaries -/

namespace Fields

/-- `d.get(k, default)`. -/
def getD (d : Fields) (k : Str) (default : Value) : Value := (d.lookup k).getD default

/-- `d.get(k)`. -/
def get (d : Fields) (k : Str) : Value := d.getD k .none

variable {d : Fields} {k k' : Str} {v : Value}

end Fields

namespace Value

/-! ## Truth, numbers -/

/-- `bool(v)`. -/
def truthy : Value → Bool
  | .none => false
  | .bool b => b
  | .int n => n ≠ 0
  | .float x => x.truthy
  | .str s => !s.isEmpty
  | .list xs => !xs.isEmpty
  | .dict kvs => !kvs.isEmpty

/-- The value as a number; `bool` is a subclass of `int`. -/
def num? : Value → Option Num
  | .bool b => some (.int (if b then 1 else 0))
  | .int n => some (.int n)
  | .float x => some (.float x)
  | _ => Option.none

/-- `int(v)`. -/
def toInt : Value → Except Exc ℤ
  | .none => .error .typeError
  | .bool b => .ok (if b then 1 else 0)
  | .int n => .ok n
  | .float .nan => .error .valueError
  | .float (.inf _) => .error .overflowError
  | .float (.finite q) => .ok (q.num.tdiv q.den)
  | .str s => intOfStr s
  | .list _ => .error .typeError
  | .dict _ => .error .typeError

/-- `isinstance(v, float) and math.isinf(v)`. -/
def isInfinite : Value → Bool
  | .float (.inf _) => true
  | _ => false

/-- The fields of an object, `none` for any other value. -/
def fields? : Value → Option Fields
  | .dict kvs => some kvs
  | _ => Option.none

/-- The text of a `str`. -/
def str? : Value → Option Str
  | .str s => some s
  | _ => Option.none

/-- The items of a `list[str]`. -/
def strs? : Value → Option (List Str)
  | .list xs => xs.mapM str?
  | _ => Option.none

/-- A `float | None`. -/
def optFloat? : Value → Option (Option Double)
  | .none => some Option.none
  | .float x => some (some x)
  | _ => Option.none

/-- An `int | None`. -/
def optInt? : Value → Option (Option ℤ)
  | .none => some Option.none
  | .int n => some (some n)
  | _ => Option.none

/-- `for x in v`: the objects the loop takes. -/
def elements : Value → Except Exc (List Value)
  | .list xs => .ok xs
  | .str s => .ok (s.map fun c ↦ .str [c])
  | .dict kvs => .ok (kvs.map fun kv ↦ .str kv.1)
  | _ => .error .typeError

/-- `None` or a value. -/
def ofOption {α : Type} (f : α → Value) (x : Option α) : Value := x.elim .none f

theorem strs?_map (xs : List Str) : strs? (.list (xs.map str)) = some xs := by
  have hmap : (xs.map str).mapM str? = some xs := by
    induction xs with
    | nil => rfl
    | cons x xs ih => simp [str?, ih]
  exact hmap

theorem optFloat?_ofOption (x : Option Double) : optFloat? (ofOption float x) = some x := by
  cases x <;> rfl

theorem optInt?_ofOption (n : Option ℤ) : optInt? (ofOption int n) = some n := by
  cases n <;> rfl

/-- `v.get(k, default)`: only an object has the method. -/
def getAttrD (v : Value) (k : Str) (default : Value) : Except Exc Value :=
  match v with
  | .dict kvs => .ok (Fields.getD kvs k default)
  | _ => .error .attributeError

/-! ## Shape -/

mutual

/-- The number of containers around the innermost value. -/
def depth : Value → Nat
  | .list xs => depthList xs + 1
  | .dict kvs => depthFields kvs + 1
  | _ => 0

/-- The greatest depth among the elements. -/
def depthList : List Value → Nat
  | [] => 0
  | x :: xs => max x.depth (depthList xs)

/-- The greatest depth among the items. -/
def depthFields : List (Str × Value) → Nat
  | [] => 0
  | (_, v) :: kvs => max v.depth (depthFields kvs)

end

mutual

/-- No lone surrogate in any string or key: what UTF-8 can encode. -/
def encodable : Value → Bool
  | .str s => Py.encodable s
  | .list xs => encodableList xs
  | .dict kvs => encodableFields kvs
  | _ => true

/-- Every element is encodable. -/
def encodableList : List Value → Bool
  | [] => true
  | x :: xs => x.encodable && encodableList xs

/-- Every key and every value is encodable. -/
def encodableFields : List (Str × Value) → Bool
  | [] => true
  | (k, v) :: kvs => Py.encodable k && v.encodable && encodableFields kvs

end

mutual

/-- No infinity and no NaN: what strict JSON can write. -/
def finite : Value → Bool
  | .float x => x.isFinite
  | .list xs => finiteList xs
  | .dict kvs => finiteFields kvs
  | _ => true

/-- Every element is finite. -/
def finiteList : List Value → Bool
  | [] => true
  | x :: xs => x.finite && finiteList xs

/-- Every value is finite. -/
def finiteFields : List (Str × Value) → Bool
  | [] => true
  | (_, v) :: kvs => v.finite && finiteFields kvs

end

end Value

/-! ## `str` -/

/-- What `repr` takes from tables of the interpreter: which characters print as
themselves, and the shortest text of a double.  The blank is the only white space
that prints as itself, and the text of a number is one word. -/
structure Printer where
  isPrintable : Nat → Bool
  isPrintable_space : ∀ c, isSpace c → isPrintable c → c = 32
  floatText : Double → Str
  floatText_ne_nil : ∀ x, floatText x ≠ []
  floatText_not_space : ∀ x, ∀ c ∈ floatText x, ¬isSpace c

namespace Printer

variable (P : Printer)

/-- A code point in hexadecimal, padded with zeros to `w` digits. -/
def hexText (w n : Nat) : Str :=
  let ds := (Nat.toDigits 16 n).map Char.toNat
  List.replicate (w - ds.length) 48 ++ ds

/-- One character of a string literal quoted by `q`. -/
def reprChar (q c : Nat) : Str :=
  if c = q || c = 92 then [92, c]
  else if c = 9 then str "\\t"
  else if c = 10 then str "\\n"
  else if c = 13 then str "\\r"
  else if P.isPrintable c then [c]
  else if c < 0x100 then str "\\x" ++ hexText 2 c
  else if c < 0x10000 then str "\\u" ++ hexText 4 c
  else str "\\U" ++ hexText 8 c

/-- `repr(s)`: in single quotes, unless only a single quote occurs in it. -/
def reprStr (s : Str) : Str :=
  let q := if s.contains 39 && !s.contains 34 then 34 else 39
  [q] ++ s.flatMap (P.reprChar q) ++ [q]

mutual

/-- `repr(v)`. -/
def repr : Value → Str
  | .none => str "None"
  | .bool b => if b then str "True" else str "False"
  | .int n => intText n
  | .float x => P.floatText x
  | .str s => P.reprStr s
  | .list xs => str "[" ++ reprList xs ++ str "]"
  | .dict kvs => str "\x7b" ++ reprFields kvs ++ str "\x7d"

/-- The elements, separated by `, `. -/
def reprList : List Value → Str
  | [] => []
  | [x] => repr x
  | x :: y :: xs => repr x ++ str ", " ++ reprList (y :: xs)

/-- The items, separated by `, `. -/
def reprFields : List (Str × Value) → Str
  | [] => []
  | [(k, v)] => P.reprStr k ++ str ": " ++ repr v
  | (k, v) :: kv :: kvs => P.reprStr k ++ str ": " ++ repr v ++ str ", " ++ reprFields (kv :: kvs)

end

/-- `str(v)`, within the depth the interpreter can walk. -/
def text (maxDepth : Nat) : Value → Except Exc Str
  | .str s => .ok s
  | v => if maxDepth < v.depth then .error .recursionError else .ok (P.repr v)

end Printer

end Py
