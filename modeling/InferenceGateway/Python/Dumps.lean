import InferenceGateway.Python.Reread
import InferenceGateway.Python.Secrets
import InferenceGateway.Python.Utf8

/-!
# `json.dumps`

The text that `json.dumps` writes of a value, with `ensure_ascii` or without it, on one line or
indented, and with the separators of a compact text or the usual ones.
-/

namespace Py

/-- `float.__repr__` of a finite double: a numeral that is read as this double again. -/
structure FloatRepr where
  text : ℚ → Str
  numeral : ∀ q, ∀ c ∈ text q, Json.isNumeral c
  reads : ∀ q, Double.round q = .finite q → Json.number (text q) = .ok (.float (.finite q))

/-- A double and not only a rational number. -/
def Double.Rounded : Double → Prop
  | .finite q => round q = .finite q
  | _ => True

namespace Json

/-! ## Strings -/

/-- The letter of a two-character escape. -/
def shortEscape : ℕ → Option ℕ
  | 34 => some 34
  | 92 => some 92
  | 10 => some 110
  | 13 => some 114
  | 9 => some 116
  | 12 => some 102
  | 8 => some 98
  | _ => none

/-- A code unit as `\u` and four hexadecimal digits. -/
def escapeUnit (u : ℕ) : Str :=
  [92, 117, hexDigit (u / 4096), hexDigit (u / 256 % 16), hexDigit (u / 16 % 16), hexDigit (u % 16)]

/-- The high surrogate of a code point above the first plane. -/
def highOf (c : ℕ) : ℕ := 0xD800 + (c - 0x10000) / 0x400

/-- The low surrogate of a code point above the first plane. -/
def lowOf (c : ℕ) : ℕ := 0xDC00 + (c - 0x10000) % 0x400

/-- A character by its code units. -/
def escapeUnicode (c : ℕ) : Str :=
  if c < 0x10000 then escapeUnit c else escapeUnit (highOf c) ++ escapeUnit (lowOf c)

/-- Whether a character without a short escape is written by its code units. -/
def isEscaped (ascii : Bool) (c : ℕ) : Bool := c < 32 || (ascii && 127 ≤ c)

/-- A character of a string literal. -/
def escapeChar (ascii : Bool) (c : ℕ) : Str :=
  match shortEscape c with
  | some d => [92, d]
  | none => if isEscaped ascii c then escapeUnicode c else [c]

/-- A string literal. -/
def dumpsStr (ascii : Bool) (s : Str) : Str := 34 :: (s.flatMap (escapeChar ascii) ++ [34])

/-! ## Digits -/

/-- The digits of a number, as they are written. -/
def digitText (n : ℕ) : Str := (Nat.toDigits 10 n).map Char.toNat

theorem isDigit_of_mem_digitText {c n : ℕ} (h : c ∈ digitText n) : isDigit c := by
  obtain ⟨x, hx, rfl⟩ := List.mem_map.mp h
  have hdigit := Nat.isDigit_of_mem_toDigits (by decide) le_rfl hx
  simp only [Char.isDigit, Bool.and_eq_true, decide_eq_true_eq] at hdigit
  simp only [isDigit, Bool.and_eq_true, decide_eq_true_eq]
  exact hdigit

theorem digitText_ne_nil (n : ℕ) : digitText n ≠ [] := by simp [digitText, Nat.toDigits_ne_nil]

theorem isNumeral_of_mem_intText {c : ℕ} {n : ℤ} (h : c ∈ intText n) : isNumeral c := by
  rcases List.mem_append.mp h with h | h
  · split at h
    · rw [List.mem_singleton.mp h]
      decide
    · cases h
  · simp [isNumeral, isDigit_of_mem_digitText h]

/-! ## Values -/

/-- The arguments of `json.dumps`. -/
structure Style where
  /-- `ensure_ascii`. -/
  ascii : Bool := true
  /-- `indent`. -/
  indent : Option ℕ := none
  /-- `separators=(",", ":")`. -/
  compact : Bool := false

namespace Style

variable (st : Style)

/-- The line break before an item at a level, if the text is indented. -/
def newline (level : ℕ) : Str := match st.indent with
  | none => []
  | some width => 10 :: List.replicate (width * level) 32

/-- What follows a comma. -/
def gap (level : ℕ) : Str := match st.indent with
  | none => if st.compact then [] else [32]
  | some _ => st.newline level

/-- What follows a colon. -/
def space : Str := if st.compact then [] else [32]

end Style

section Dumps

variable (F : FloatRepr) (st : Style)

/-- The text of a double. -/
def dumpsFloat : Double → Str
  | .nan => str "NaN"
  | .inf neg => if neg then str "-Infinity" else str "Infinity"
  | .finite q => F.text q

mutual

/-- The text of a value inside of `level` containers. -/
def dumpsAt (level : ℕ) : Value → Str
  | .none => str "null"
  | .bool b => if b then str "true" else str "false"
  | .int n => intText n
  | .float x => dumpsFloat F x
  | .str s => dumpsStr st.ascii s
  | .list [] => str "[]"
  | .list (x :: xs) =>
    91 :: (st.newline (level + 1) ++ dumpsAt (level + 1) x ++ dumpsRest (level + 1) xs ++
      st.newline level ++ [93])
  | .dict [] => str "\x7b\x7d"
  | .dict ((k, v) :: kvs) =>
    123 :: (st.newline (level + 1) ++ dumpsStr st.ascii k ++ 58 :: st.space ++
      dumpsAt (level + 1) v ++ dumpsItems (level + 1) kvs ++ st.newline level ++ [125])

/-- The elements after the first. -/
def dumpsRest (level : ℕ) : List Value → Str
  | [] => []
  | x :: xs => 44 :: st.gap level ++ dumpsAt level x ++ dumpsRest level xs

/-- The items after the first. -/
def dumpsItems (level : ℕ) : List (Str × Value) → Str
  | [] => []
  | (k, v) :: kvs =>
    44 :: st.gap level ++ dumpsStr st.ascii k ++ 58 :: st.space ++ dumpsAt level v ++
      dumpsItems level kvs

end

/-- `json.dumps(v)`. -/
def dumps (v : Value) : Str := dumpsAt F st 0 v

end Dumps

/-! ## What can be written -/

/-- A string whose characters come back: without `ensure_ascii` there is no surrogate in it. -/
def StrWritable (ascii : Bool) (s : Str) : Prop :=
  ∀ c ∈ s, c < 0x110000 ∧ (ascii = false → ¬isSurrogate c)

mutual

/-- A value whose text is read: its strings are writable, its integers short, its doubles
doubles. -/
def Writable (ascii : Bool) : Value → Prop
  | .int n => (Nat.toDigits 10 n.natAbs).length ≤ maxStrDigits
  | .float x => x.Rounded
  | .str s => StrWritable ascii s
  | .list xs => WritableList ascii xs
  | .dict kvs => WritableFields ascii kvs
  | _ => True

/-- Every element is writable. -/
def WritableList (ascii : Bool) : List Value → Prop
  | [] => True
  | x :: xs => Writable ascii x ∧ WritableList ascii xs

/-- Every key and every value is writable. -/
def WritableFields (ascii : Bool) : List (Str × Value) → Prop
  | [] => True
  | (k, v) :: kvs => StrWritable ascii k ∧ Writable ascii v ∧ WritableFields ascii kvs

end

/-- The characters of a literal are no surrogates. -/
theorem strWritable_str {ascii : Bool} (s : String) : StrWritable ascii (str s) := by
  intro c hc
  obtain ⟨d, -, rfl⟩ := List.mem_map.mp hc
  have hvalid : d.toNat.isValidChar := d.valid
  refine ⟨?_, fun _ ↦ ?_⟩
  · rcases hvalid with h | h <;> omega
  · simp only [isSurrogate, Bool.and_eq_true, decide_eq_true_eq]
    rcases hvalid with h | h <;> omega

/-! ## The characters of the text -/

/-- A character that may occur in a text of this style: no control character but the line breaks
of an indented text, no surrogate, and with `ensure_ascii` nothing above ASCII. -/
structure Style.Prints (st : Style) (c : ℕ) : Prop where
  codePoint : c < 0x110000
  not_control : 32 ≤ c ∨ c = 10 ∧ st.indent.isSome
  not_surrogate : ¬isSurrogate c
  ascii : st.ascii → c < 127

variable {F : FloatRepr} {st : Style} {c level : ℕ}

theorem prints_of_ascii (h : 32 ≤ c ∧ c < 127) : st.Prints c := by
  refine ⟨by omega, .inl h.1, ?_, fun _ ↦ h.2⟩
  simp only [isSurrogate, Bool.and_eq_true, decide_eq_true_eq]
  omega

/-- A constant of the format. -/
theorem prints_of_mem (l : Str) (hl : ∀ c ∈ l, 32 ≤ c ∧ c < 127) (h : c ∈ l) : st.Prints c :=
  prints_of_ascii (hl c h)

theorem prints_of_isNumeral (h : isNumeral c) : st.Prints c := by
  refine prints_of_ascii ?_
  simp only [isNumeral, isDigit, Bool.or_eq_true, Bool.and_eq_true, decide_eq_true_eq,
    beq_iff_eq] at h
  omega

theorem prints_hexDigit {n : ℕ} (h : n < 16) : st.Prints (hexDigit n) := by
  refine prints_of_ascii ?_
  unfold hexDigit
  split <;> omega

theorem prints_of_mem_escapeUnit {u : ℕ} (hu : u < 0x10000) (h : c ∈ escapeUnit u) :
    st.Prints c := by
  simp only [escapeUnit, List.mem_cons, List.not_mem_nil, or_false] at h
  rcases h with rfl | rfl | rfl | rfl | rfl | rfl
  · exact prints_of_ascii (by decide)
  · exact prints_of_ascii (by decide)
  · exact prints_hexDigit (by omega)
  · exact prints_hexDigit (by omega)
  · exact prints_hexDigit (by omega)
  · exact prints_hexDigit (by omega)

theorem prints_of_mem_escapeChar {d : ℕ} (hd : d < 0x110000)
    (hs : st.ascii = false → ¬isSurrogate d) (h : c ∈ escapeChar st.ascii d) : st.Prints c := by
  have short : ∀ {d x : ℕ}, shortEscape d = some x → 32 ≤ x ∧ x < 127 := by
    intro d x hx
    unfold shortEscape at hx
    split at hx <;> cases hx <;> decide
  unfold escapeChar at h
  split at h
  · rename_i x hx
    rcases List.mem_pair.mp h with rfl | rfl
    · exact prints_of_ascii (by decide)
    · exact prints_of_ascii (short hx)
  · split at h
    · unfold escapeUnicode at h
      split at h
      · exact prints_of_mem_escapeUnit (by assumption) h
      · rcases List.mem_append.mp h with h | h
        · exact prints_of_mem_escapeUnit (by unfold highOf; omega) h
        · exact prints_of_mem_escapeUnit (by unfold lowOf; omega) h
    · rename_i hesc
      obtain rfl := List.mem_singleton.mp h
      simp only [isEscaped, Bool.or_eq_true, Bool.and_eq_true, decide_eq_true_eq, not_or, not_and]
        at hesc
      refine ⟨hd, .inl (by omega), ?_, fun ha ↦ by have := hesc.2 ha; omega⟩
      cases hascii : st.ascii with
      | false => exact hs hascii
      | true =>
          have hlt := hesc.2 hascii
          simp only [isSurrogate, Bool.and_eq_true, decide_eq_true_eq]
          omega

theorem prints_of_mem_dumpsStr {s : Str} (hw : StrWritable st.ascii s)
    (h : c ∈ dumpsStr st.ascii s) : st.Prints c := by
  rcases List.mem_cons.mp h with rfl | h
  · exact prints_of_ascii (by decide)
  · rcases List.mem_append.mp h with h | h
    · obtain ⟨d, hd, hc⟩ := List.mem_flatMap.mp h
      exact prints_of_mem_escapeChar (hw d hd).1 (hw d hd).2 hc
    · rw [List.mem_singleton.mp h]
      exact prints_of_ascii (by decide)

theorem prints_of_mem_newline (h : c ∈ st.newline level) : st.Prints c := by
  unfold Style.newline at h
  split at h
  · cases h
  · rename_i hindent
    rcases List.mem_cons.mp h with rfl | h
    · exact ⟨by decide, .inr ⟨rfl, by rw [hindent]; rfl⟩, by decide, fun _ ↦ by decide⟩
    · rw [List.eq_of_mem_replicate h]
      exact prints_of_ascii (by decide)

theorem prints_of_mem_space (h : c ∈ st.space) : st.Prints c := by
  unfold Style.space at h
  split at h
  · cases h
  · exact prints_of_mem _ (by decide) h

theorem prints_of_mem_gap (h : c ∈ st.gap level) : st.Prints c := by
  unfold Style.gap at h
  split at h
  · exact prints_of_mem_space h
  · exact prints_of_mem_newline h

theorem prints_of_mem_intText {n : ℤ} (h : c ∈ intText n) : st.Prints c :=
  prints_of_isNumeral (isNumeral_of_mem_intText h)

theorem prints_of_mem_dumpsFloat {x : Double} (h : c ∈ dumpsFloat F x) : st.Prints c := by
  cases x with
  | nan => exact prints_of_mem (str "NaN") (by decide) h
  | inf neg =>
      cases neg with
      | true => exact prints_of_mem (str "-Infinity") (by decide) h
      | false => exact prints_of_mem (str "Infinity") (by decide) h
  | finite q => exact prints_of_isNumeral (F.numeral q c h)

mutual

/-- The characters of the text of a value. -/
theorem prints_of_mem_dumpsAt : ∀ (v : Value) (level : ℕ), Writable st.ascii v →
    ∀ c ∈ dumpsAt F st level v, st.Prints c
  | .none, _, _, _, h => prints_of_mem (str "null") (by decide) h
  | .bool true, _, _, _, h => prints_of_mem (str "true") (by decide) h
  | .bool false, _, _, _, h => prints_of_mem (str "false") (by decide) h
  | .int n, _, _, _, h => prints_of_mem_intText h
  | .float x, _, _, _, h => prints_of_mem_dumpsFloat h
  | .str s, _, hw, _, h => prints_of_mem_dumpsStr hw h
  | .list [], _, _, _, h => prints_of_mem (str "[]") (by decide) h
  | .list (x :: xs), level, hw, c, h => by
      simp only [dumpsAt, List.mem_cons, List.mem_append, List.not_mem_nil, or_false] at h
      rcases h with rfl | ((((h | h) | h) | h) | rfl)
      · exact prints_of_ascii (by decide)
      · exact prints_of_mem_newline h
      · exact prints_of_mem_dumpsAt x (level + 1) hw.1 c h
      · exact prints_of_mem_dumpsRest xs (level + 1) hw.2 c h
      · exact prints_of_mem_newline h
      · exact prints_of_ascii (by decide)
  | .dict [], _, _, _, h => prints_of_mem (str "\x7b\x7d") (by decide) h
  | .dict ((k, v) :: kvs), level, hw, c, h => by
      simp only [dumpsAt, List.mem_cons, List.mem_append, List.not_mem_nil, or_false] at h
      rcases h with rfl | ((((((h | h) | (rfl | h)) | h) | h) | h) | rfl)
      · exact prints_of_ascii (by decide)
      · exact prints_of_mem_newline h
      · exact prints_of_mem_dumpsStr hw.1 h
      · exact prints_of_ascii (by decide)
      · exact prints_of_mem_space h
      · exact prints_of_mem_dumpsAt v (level + 1) hw.2.1 c h
      · exact prints_of_mem_dumpsItems kvs (level + 1) hw.2.2 c h
      · exact prints_of_mem_newline h
      · exact prints_of_ascii (by decide)

/-- The characters of the elements after the first. -/
theorem prints_of_mem_dumpsRest : ∀ (xs : List Value) (level : ℕ), WritableList st.ascii xs →
    ∀ c ∈ dumpsRest F st level xs, st.Prints c
  | [], _, _, _, h => nomatch h
  | x :: xs, level, hw, c, h => by
      simp only [dumpsRest, List.mem_cons, List.mem_append] at h
      rcases h with ((rfl | h) | h) | h
      · exact prints_of_ascii (by decide)
      · exact prints_of_mem_gap h
      · exact prints_of_mem_dumpsAt x level hw.1 c h
      · exact prints_of_mem_dumpsRest xs level hw.2 c h

/-- The characters of the items after the first. -/
theorem prints_of_mem_dumpsItems : ∀ (kvs : List (Str × Value)) (level : ℕ),
    WritableFields st.ascii kvs → ∀ c ∈ dumpsItems F st level kvs, st.Prints c
  | [], _, _, _, h => nomatch h
  | (k, v) :: kvs, level, hw, c, h => by
      simp only [dumpsItems, List.mem_cons, List.mem_append] at h
      rcases h with (((((rfl | h) | h) | (rfl | h)) | h) | h)
      · exact prints_of_ascii (by decide)
      · exact prints_of_mem_gap h
      · exact prints_of_mem_dumpsStr hw.1 h
      · exact prints_of_ascii (by decide)
      · exact prints_of_mem_space h
      · exact prints_of_mem_dumpsAt v level hw.2.1 c h
      · exact prints_of_mem_dumpsItems kvs level hw.2.2 c h

end

/-- The characters of `json.dumps(v)`. -/
theorem prints_of_mem_dumps {v : Value} (hw : Writable st.ascii v) (h : c ∈ dumps F st v) :
    st.Prints c := prints_of_mem_dumpsAt v 0 hw c h

/-! ## Encoding the text -/

theorem encodable_append (s t : Str) : encodable (s ++ t) = (encodable s && encodable t) :=
  List.all_append

theorem encodable_cons (c : ℕ) (s : Str) : encodable (c :: s) = (!isSurrogate c && encodable s) :=
  rfl

theorem encodable_nil : encodable [] = true := rfl

theorem encodable_of_ascii {s : Str} (h : ∀ c ∈ s, c < 128) : encodable s := by
  refine List.all_eq_true.mpr fun c hc ↦ ?_
  have hlt := h c hc
  simp only [isSurrogate, Bool.not_eq_true', Bool.and_eq_false_iff, decide_eq_false_iff_not]
  omega

theorem encodable_of_isNumeral {s : Str} (h : ∀ c ∈ s, isNumeral c) : encodable s := by
  refine encodable_of_ascii fun c hc ↦ ?_
  have hnum := h c hc
  simp only [isNumeral, isDigit, Bool.or_eq_true, Bool.and_eq_true, decide_eq_true_eq,
    beq_iff_eq] at hnum
  omega

theorem encodable_newline : encodable (st.newline level) := by
  unfold Style.newline
  split
  · rfl
  · refine encodable_of_ascii fun c hc ↦ ?_
    rcases List.mem_cons.mp hc with rfl | hc
    · decide
    · rw [List.eq_of_mem_replicate hc]
      decide

theorem encodable_space : encodable st.space := by
  unfold Style.space
  split <;> rfl

theorem encodable_gap : encodable (st.gap level) := by
  unfold Style.gap
  split
  · exact encodable_space
  · exact encodable_newline

/-- Only a surrogate keeps a character from being encoded. -/
theorem encodable_escapeChar (c : ℕ) : encodable (escapeChar false c) = !isSurrogate c := by
  have hascii {l : Str} (hc : c < 128) (hl : ∀ d ∈ l, d < 128) :
      encodable l = !isSurrogate c := by
    have hone : encodable [c] := encodable_of_ascii (by simpa using hc)
    rw [encodable_of_ascii hl]
    rwa [encodable_cons, encodable_nil, Bool.and_true, eq_comm] at hone
  cases hesc : shortEscape c with
  | some d =>
      have hmem : c < 128 ∧ d < 128 := by
        unfold shortEscape at hesc
        split at hesc <;> cases hesc <;> decide
      rw [escapeChar, hesc]
      exact hascii hmem.1 (by simpa using hmem.2)
  | none =>
      cases hc : isEscaped false c with
      | false =>
          rw [escapeChar, hesc, hc]
          exact Bool.and_true _
      | true =>
          have hlt : c < 32 := by simpa [isEscaped] using hc
          rw [escapeChar, hesc, hc]
          refine hascii (by omega) fun d hd ↦ ?_
          rw [if_pos rfl, escapeUnicode, if_pos (by omega)] at hd
          have hprints : (⟨true, none, false⟩ : Style).Prints d :=
            prints_of_mem_escapeUnit (by omega) hd
          have := hprints.ascii rfl
          omega

theorem encodable_dumpsStr (s : Str) : encodable (dumpsStr false s) = encodable s := by
  have hchars : encodable (s.flatMap (escapeChar false)) = encodable s := by
    induction s with
    | nil => rfl
    | cons c s ih => rw [List.flatMap_cons, encodable_append, encodable_escapeChar, ih,
        encodable_cons]
  have hclose : encodable [34] = true := rfl
  rw [dumpsStr, encodable_cons, encodable_append, hchars, hclose, Bool.and_true]
  rfl

mutual

/-- Without `ensure_ascii` the text can be encoded if and only if every string can. -/
theorem encodable_dumpsAt (ha : st.ascii = false) : ∀ (v : Value) (level : ℕ),
    encodable (dumpsAt F st level v) = v.encodable
  | .none, _ => rfl
  | .bool true, _ => rfl
  | .bool false, _ => rfl
  | .int _, _ => encodable_of_isNumeral fun _ ↦ isNumeral_of_mem_intText
  | .float .nan, _ => rfl
  | .float (.inf true), _ => rfl
  | .float (.inf false), _ => rfl
  | .float (.finite q), _ => encodable_of_isNumeral (F.numeral q)
  | .str s, _ => by rw [dumpsAt, ha, encodable_dumpsStr, Value.encodable]
  | .list [], _ => rfl
  | .list (x :: xs), level => by
      simp [dumpsAt, encodable_cons, encodable_append, encodable_newline,
        encodable_dumpsAt ha x (level + 1), encodable_dumpsRest ha xs (level + 1), Value.encodable,
        Value.encodableList, isSurrogate, encodable_nil]
  | .dict [], _ => rfl
  | .dict ((k, v) :: kvs), level => by
      simp [dumpsAt, ha, encodable_cons, encodable_append, encodable_newline, encodable_space,
        encodable_dumpsStr, encodable_dumpsAt ha v (level + 1),
        encodable_dumpsItems ha kvs (level + 1), Value.encodable, Value.encodableFields,
        isSurrogate, encodable_nil, Bool.and_assoc]

/-- The elements after the first. -/
theorem encodable_dumpsRest (ha : st.ascii = false) : ∀ (xs : List Value) (level : ℕ),
    encodable (dumpsRest F st level xs) = Value.encodableList xs
  | [], _ => rfl
  | x :: xs, level => by
      simp [dumpsRest, encodable_cons, encodable_append, encodable_gap,
        encodable_dumpsAt ha x level, encodable_dumpsRest ha xs level, Value.encodableList,
        isSurrogate]

/-- The items after the first. -/
theorem encodable_dumpsItems (ha : st.ascii = false) :
    ∀ (kvs : List (Str × Value)) (level : ℕ),
      encodable (dumpsItems F st level kvs) = Value.encodableFields kvs
  | [], _ => rfl
  | (k, v) :: kvs, level => by
      simp [dumpsItems, ha, encodable_cons, encodable_append, encodable_gap, encodable_space,
        encodable_dumpsStr, encodable_dumpsAt ha v level, encodable_dumpsItems ha kvs level,
        Value.encodableFields, isSurrogate, Bool.and_assoc]

end

end Json

end Py
