import InferenceGateway.Python.Value

/-!
# `json.loads` of a byte string

The bytes are decoded first, by the encoding `json.detect_encoding` finds and with
the error handler `surrogatepass`, so that a lone surrogate survives.  The text is
then read by a machine that takes one character at a time and keeps the stack of
containers that are still open; it accepts the grammar of CPython's scanner, the
constants `NaN`, `Infinity` and `-Infinity` included, and builds the values that
scanner builds.  All its failures are `ValueError`s (`JSONDecodeError`,
`UnicodeDecodeError`, or the limit on the digits of an integer), but for one:
opening more containers than the interpreter's recursion limit allows raises
`RecursionError`, at the place where it happens.
-/

namespace Py.Json

/-! ## Decoding -/

/-- UTF-8 with surrogates passed through.  `need` continuation bytes are owed to the
code point `acc`, the next one between `lo` and `hi`. -/
def utf8 : (need acc lo hi : Nat) → Bytes → Option Str
  | 0, _, _, _, [] => some []
  | _ + 1, _, _, _, [] => none
  | 0, _, _, _, b :: t =>
    let b := b.toNat
    if b < 0x80 then (b :: ·) <$> utf8 0 0 0 0 t
    else if b < 0xC2 then none
    else if b < 0xE0 then utf8 1 (b - 0xC0) 0x80 0xBF t
    else if b = 0xE0 then utf8 2 0 0xA0 0xBF t
    else if b < 0xF0 then utf8 2 (b - 0xE0) 0x80 0xBF t
    else if b = 0xF0 then utf8 3 0 0x90 0xBF t
    else if b < 0xF4 then utf8 3 (b - 0xF0) 0x80 0xBF t
    else if b = 0xF4 then utf8 3 4 0x80 0x8F t
    else none
  | n + 1, acc, lo, hi, b :: t =>
    let b := b.toNat
    if lo ≤ b ∧ b ≤ hi then
      let acc := 64 * acc + (b - 0x80)
      if n = 0 then (acc :: ·) <$> utf8 0 0 0 0 t else utf8 n acc 0x80 0xBF t
    else none

/-- The code units of two bytes each; `none` if a byte is left over. -/
def units16 (big : Bool) : Bytes → Option (List Nat)
  | [] => some []
  | [_] => none
  | a :: b :: t =>
    ((if big then 256 * a.toNat + b.toNat else a.toNat + 256 * b.toNat) :: ·) <$> units16 big t

/-- The code points of four bytes each; `none` for a rest or past the last plane. -/
def units32 (big : Bool) : Bytes → Option (List Nat)
  | [] => some []
  | a :: b :: c :: d :: t =>
    let n := if big then 256 * (256 * (256 * a.toNat + b.toNat) + c.toNat) + d.toNat
      else a.toNat + 256 * (b.toNat + 256 * (c.toNat + 256 * d.toNat))
    if n < 0x110000 then (n :: ·) <$> units32 big t else none
  | _ => none

/-- A high surrogate. -/
def isHigh (c : Nat) : Bool := 0xD800 ≤ c && c < 0xDC00

/-- A low surrogate. -/
def isLow (c : Nat) : Bool := 0xDC00 ≤ c && c < 0xE000

/-- The code point of a surrogate pair. -/
def ofPair (h l : Nat) : Nat := 0x10000 + 0x400 * (h - 0xD800) + (l - 0xDC00)

/-- UTF-16 code units to code points, unpaired surrogates passed through; the first
argument is a high surrogate still waiting for its partner. -/
def joinPairs : Option Nat → List Nat → Str
  | none, [] => []
  | some h, [] => [h]
  | none, c :: t => if isHigh c then joinPairs (some c) t else c :: joinPairs none t
  | some h, c :: t =>
    if isLow c then ofPair h c :: joinPairs none t
    else if isHigh c then h :: joinPairs (some c) t
    else h :: c :: joinPairs none t

/-- UTF-16, unpaired surrogates passed through. -/
def utf16 (big : Bool) (b : Bytes) : Option Str := (units16 big b).map (joinPairs none)

/-- Bytes without a byte order mark: where the first four are zero tells the encoding. -/
def decodeUnmarked (b : Bytes) : Option Str :=
  match b with
  | b₀ :: b₁ :: b₂ :: b₃ :: _ =>
    if b₀ = 0 then if b₁ ≠ 0 then utf16 true b else units32 true b
    else if b₁ = 0 then if b₂ ≠ 0 || b₃ ≠ 0 then utf16 false b else units32 false b
    else utf8 0 0 0 0 b
  | [b₀, b₁] =>
    if b₀ = 0 then utf16 true b else if b₁ = 0 then utf16 false b else utf8 0 0 0 0 b
  | b => utf8 0 0 0 0 b

/-- `b.decode(detect_encoding(b), "surrogatepass")`. -/
def decode (b : Bytes) : Option Str :=
  match b with
  | 0x00 :: 0x00 :: 0xFE :: 0xFF :: t => units32 true t
  | 0xFF :: 0xFE :: 0x00 :: 0x00 :: t => units32 false t
  | 0xFE :: 0xFF :: t => utf16 true t
  | 0xFF :: 0xFE :: t => utf16 false t
  | 0xEF :: 0xBB :: 0xBF :: t => utf8 0 0 0 0 t
  | b => decodeUnmarked b

/-- No byte order mark starts with this byte. -/
theorem decode_cons {b : UInt8} {l : Bytes} (h0 : b ≠ 0) (hff : b ≠ 0xFF) (hfe : b ≠ 0xFE)
    (hef : b ≠ 0xEF) : decode (b :: l) = decodeUnmarked (b :: l) := by
  rw [decode.eq_def]
  split
  · rename_i h
    exact absurd (List.cons.inj h).1 h0
  · rename_i h
    exact absurd (List.cons.inj h).1 hff
  · rename_i h
    exact absurd (List.cons.inj h).1 hfe
  · rename_i h
    exact absurd (List.cons.inj h).1 hff
  · rename_i h
    exact absurd (List.cons.inj h).1 hef
  · rfl

/-- Without a zero among the first two bytes it is UTF-8. -/
theorem decodeUnmarked_cons {b : UInt8} {l : Bytes} (h0 : b ≠ 0) (hl : ∀ c ∈ l.head?, c ≠ 0) :
    decodeUnmarked (b :: l) = utf8 0 0 0 0 (b :: l) := by
  rw [decodeUnmarked.eq_def]
  split
  · rename_i h
    obtain ⟨rfl, rfl⟩ := List.cons.inj h
    rw [if_neg h0, if_neg (hl _ rfl)]
  · rename_i h
    obtain ⟨rfl, rfl⟩ := List.cons.inj h
    rw [if_neg h0, if_neg (hl _ rfl)]
  · rfl

/-! ## Numbers -/

/-- A digit character. -/
def isDigit (c : Nat) : Bool := 48 ≤ c && c ≤ 57

/-- The characters of a numeral. -/
def isNumeral (c : Nat) : Bool := isDigit c || c == 43 || c == 45 || c == 46 || c == 69 || c == 101

/-- The number written by digit characters. -/
def ofText (s : Str) : Nat := ofDigits (s.map (· - 48))

/-- The value of `int.frac` times ten to the `exp`, as a double.  Exponents far
outside the range of a double are decided by their size. -/
def decimal (neg : Bool) (int frac : Str) (exp : ℤ) : Double :=
  let m := ofText (int ++ frac)
  let e := exp - frac.length
  let size := e + (int ++ frac).length
  if m = 0 || size < -400 then .finite 0
  else if 400 < e then .inf neg
  else
    let q : ℚ := if 0 ≤ e then m * 10 ^ e.toNat else m / 10 ^ (-e).toNat
    Double.round (if neg then -q else q)

/-- The exponent part of a numeral: `e` or `E`, a sign, digits. -/
def exponent? : Str → Option ℤ
  | [] => some 0
  | c :: t =>
    let (neg, ds) := match t with
      | 43 :: t => (false, t)
      | 45 :: t => (true, t)
      | t => (false, t)
    if (c = 69 || c = 101) && !ds.isEmpty && ds.all isDigit then
      some (if neg then -(ofText ds : ℤ) else ofText ds)
    else none

/-- The value of a numeral. -/
def number (s : Str) : Except Exc Value :=
  let (neg, s) := match s with
    | 45 :: t => (true, t)
    | t => (false, t)
  let int := s.takeWhile isDigit
  let s := s.dropWhile isDigit
  if int.isEmpty || (int.head? = some 48 && 1 < int.length) then .error .valueError
  else match s with
    | [] =>
      if maxStrDigits < int.length then .error .valueError
      else .ok (.int (if neg then -(ofText int : ℤ) else ofText int))
    | 46 :: t =>
      let frac := t.takeWhile isDigit
      match frac.isEmpty, exponent? (t.dropWhile isDigit) with
      | false, some e => .ok (.float (decimal neg int frac e))
      | _, _ => .error .valueError
    | t => match exponent? t with
      | some e => .ok (.float (decimal neg int [] e))
      | none => .error .valueError

/-! ## The machine -/

/-- Where a string literal stands after a backslash. -/
inductive Escape where
  /-- Not in an escape. -/
  | no
  /-- After the backslash. -/
  | slash
  /-- `n` hexadecimal digits of `\uXXXX` are owed. -/
  | hex (n acc : Nat)

/-- A container that is still open, with what it holds so far. -/
inductive Frame where
  /-- An array, its elements in reverse. -/
  | array (rev : List Value)
  /-- An object, at the value of a key. -/
  | object (kvs : Fields) (key : Str)

/-- What the next character may be. -/
inductive Mode where
  /-- The start of a value; a `]` too, right after `[`. -/
  | value (canClose : Bool)
  /-- The start of a key; a `}` too, right after `{`. -/
  | key (kvs : Fields) (canClose : Bool)
  /-- The colon after a key. -/
  | colon (kvs : Fields) (key : Str)
  /-- What follows a complete value. -/
  | after (v : Value)
  /-- Inside a string literal, its characters in reverse, each with a mark for those
  written by `\u`; the key of an object if `obj` holds its items. -/
  | string (obj : Option Fields) (rev : List (Nat × Bool)) (esc : Escape)
  /-- Inside a numeral, in reverse. -/
  | number (rev : Str)
  /-- The characters of a constant that are owed. -/
  | word (rest : Str) (v : Value)

/-- The machine: the open containers, innermost first, and the mode. -/
structure State where
  stack : List Frame
  mode : Mode

/-- A surrogate pair is one character if both halves were written by `\u`. -/
def joinEscapes : Option Nat → List (Nat × Bool) → Str
  | none, [] => []
  | some h, [] => [h]
  | none, (c, u) :: t => if u && isHigh c then joinEscapes (some c) t else c :: joinEscapes none t
  | some h, (c, u) :: t =>
    if u && isLow c then ofPair h c :: joinEscapes none t
    else if u && isHigh c then h :: joinEscapes (some c) t
    else h :: c :: joinEscapes none t

/-- The white space of JSON. -/
def isBlank (c : Nat) : Bool := c == 32 || c == 9 || c == 10 || c == 13

/-- The character an escape stands for. -/
def unescape (c : Nat) : Option Nat :=
  match c with
  | 34 => some 34
  | 92 => some 92
  | 47 => some 47
  | 98 => some 8
  | 102 => some 12
  | 110 => some 10
  | 114 => some 13
  | 116 => some 9
  | _ => none

/-- The value of a hexadecimal digit. -/
def hex? (c : Nat) : Option Nat :=
  if isDigit c then some (c - 48)
  else if 65 ≤ c && c ≤ 70 then some (c - 55)
  else if 97 ≤ c && c ≤ 102 then some (c - 87)
  else none

/-- A string literal is complete. -/
def closeString (stack : List Frame) (obj : Option Fields) (rev : List (Nat × Bool)) : State :=
  let s := joinEscapes none rev.reverse
  match obj with
  | some kvs => ⟨stack, .colon kvs s⟩
  | none => ⟨stack, .after (.str s)⟩

/-- The character `c` right after the complete value `v`. -/
def afterValue (stack : List Frame) (v : Value) (c : Nat) : Except Exc State :=
  if isBlank c then .ok ⟨stack, .after v⟩
  else match stack, c with
    | .array rev :: stack, 44 => .ok ⟨.array (v :: rev) :: stack, .value false⟩
    | .array rev :: stack, 93 => .ok ⟨stack, .after (.list (v :: rev).reverse)⟩
    | .object kvs k :: stack, 44 => .ok ⟨stack, .key (Dict.set kvs k v) false⟩
    | .object kvs k :: stack, 125 => .ok ⟨stack, .after (.dict (Dict.set kvs k v))⟩
    | _, _ => .error .valueError

/-- The character `c` where a value starts, `maxDepth` containers being allowed. -/
def startValue (maxDepth : Nat) (stack : List Frame) (canClose : Bool) (c : Nat) :
    Except Exc State :=
  if isBlank c then .ok ⟨stack, .value canClose⟩
  else match c with
    | 34 => .ok ⟨stack, .string none [] .no⟩
    | 91 =>
      if maxDepth ≤ stack.length then .error .recursionError
      else .ok ⟨.array [] :: stack, .value true⟩
    | 123 =>
      if maxDepth ≤ stack.length then .error .recursionError
      else .ok ⟨stack, .key [] true⟩
    | 93 => match canClose, stack with
      | true, .array _ :: stack => .ok ⟨stack, .after (.list [])⟩
      | _, _ => .error .valueError
    | 116 => .ok ⟨stack, .word (str "rue") (.bool true)⟩
    | 102 => .ok ⟨stack, .word (str "alse") (.bool false)⟩
    | 110 => .ok ⟨stack, .word (str "ull") .none⟩
    | 78 => .ok ⟨stack, .word (str "aN") (.float .nan)⟩
    | 73 => .ok ⟨stack, .word (str "nfinity") (.float (.inf false))⟩
    | c => if c = 45 || isDigit c then .ok ⟨stack, .number [c]⟩ else .error .valueError

/-- One character of a string literal. -/
def stringStep (stack : List Frame) (obj : Option Fields) (rev : List (Nat × Bool))
    (esc : Escape) (c : Nat) : Except Exc State :=
  match esc with
  | .no =>
    if c = 34 then .ok (closeString stack obj rev)
    else if c = 92 then .ok ⟨stack, .string obj rev .slash⟩
    else if c < 32 then .error .valueError
    else .ok ⟨stack, .string obj ((c, false) :: rev) .no⟩
  | .slash =>
    if c = 117 then .ok ⟨stack, .string obj rev (.hex 4 0)⟩
    else match unescape c with
      | some c => .ok ⟨stack, .string obj ((c, false) :: rev) .no⟩
      | none => .error .valueError
  | .hex n acc => match hex? c with
    | some d =>
      let acc := 16 * acc + d
      if n ≤ 1 then .ok ⟨stack, .string obj ((acc, true) :: rev) .no⟩
      else .ok ⟨stack, .string obj rev (.hex (n - 1) acc)⟩
    | none => .error .valueError

/-- One character of the text. -/
def step (maxDepth : Nat) (s : State) (c : Nat) : Except Exc State :=
  match s.mode with
  | .value canClose => startValue maxDepth s.stack canClose c
  | .key kvs canClose =>
    if isBlank c then .ok s
    else if c = 34 then .ok ⟨s.stack, .string (some kvs) [] .no⟩
    else if c = 125 && canClose then .ok ⟨s.stack, .after (.dict [])⟩
    else .error .valueError
  | .colon kvs k =>
    if isBlank c then .ok s
    else if c = 58 then .ok ⟨.object kvs k :: s.stack, .value false⟩
    else .error .valueError
  | .after v => afterValue s.stack v c
  | .string obj rev esc => stringStep s.stack obj rev esc c
  | .number rev =>
    if isNumeral c then .ok ⟨s.stack, .number (c :: rev)⟩
    else if c = 73 && rev = [45] then .ok ⟨s.stack, .word (str "nfinity") (.float (.inf true))⟩
    else do afterValue s.stack (← number rev.reverse) c
  | .word rest v => match rest with
    | [] => afterValue s.stack v c
    | r :: rest => if c = r then .ok ⟨s.stack, .word rest v⟩ else .error .valueError

/-- The value of the text, at its end. -/
def finish (s : State) : Except Exc Value :=
  match s.stack, s.mode with
  | [], .after v => .ok v
  | [], .number rev => number rev.reverse
  | [], .word [] v => .ok v
  | _, _ => .error .valueError

/-- `json.loads(b)`, in an interpreter that allows `maxDepth` nested containers. -/
def loads (maxDepth : Nat) (b : Bytes) : Except Exc Value :=
  match decode b with
  | none => .error .valueError
  | some text => do finish (← text.foldlM (step maxDepth) ⟨[], .value false⟩)

/-- Duplicate keys keep the place of the first and the value of the last. -/
example : loads 9 (bytes "\x7b\"a\": [1, true], \"b\": null, \"a\": \"x\"\x7d")
    = .ok (.dict [(str "a", .str (str "x")), (str "b", .none)]) := rfl

end Py.Json
