import Mathlib.Data.List.DropRight
import Mathlib.Data.Int.Basic

/-!
# Python text and byte strings

A Python `str` is a sequence of code points, and the lone surrogates are among
them: `json.loads` produces them from an escape and `str.encode` refuses them.
Lean's `String` cannot hold one, so a `str` is modelled by the list of its code
points.  A `bytes` object is the list of its bytes.

The Unicode tables below are those of Unicode 15, the version of CPython 3.12.
-/

namespace Py

/-- A `str`: its code points, lone surrogates included. -/
abbrev Str := List Nat

/-- A `bytes` object. -/
abbrev Bytes := List UInt8

/-- The `str` of a literal. -/
def str (s : String) : Str := s.toList.map Char.toNat

/-- The `bytes` of an ASCII literal. -/
def bytes (s : String) : Bytes := s.toList.map fun c ↦ c.toNat.toUInt8

/-! ## Characters -/

/-- A surrogate code point: legal in a `str`, not encodable as UTF-8. -/
def isSurrogate (c : Nat) : Bool := 0xD800 ≤ c && c ≤ 0xDFFF

/-- `str.isspace` of one character, the separator set of `str.split()`. -/
def isSpace (c : Nat) : Bool :=
  (9 ≤ c && c ≤ 13) || (28 ≤ c && c ≤ 32) || c == 0x85 || c == 0xA0 || c == 0x1680 ||
    (0x2000 ≤ c && c ≤ 0x200A) || c == 0x2028 || c == 0x2029 || c == 0x202F ||
    c == 0x205F || c == 0x3000

/-- The C library's `isspace`, which `bytes.strip()` uses and `int` applies to an
ASCII string. -/
def isAsciiSpace (c : Nat) : Bool := (9 ≤ c && c ≤ 13) || c == 32

/-- The code points of the decimal digit zero; each starts a run of ten digits. -/
def zeroDigits : List Nat :=
  [0x30, 0x660, 0x6F0, 0x7C0, 0x966, 0x9E6, 0xA66, 0xAE6, 0xB66, 0xBE6, 0xC66, 0xCE6, 0xD66,
    0xDE6, 0xE50, 0xED0, 0xF20, 0x1040, 0x1090, 0x17E0, 0x1810, 0x1946, 0x19D0, 0x1A80, 0x1A90,
    0x1B50, 0x1BB0, 0x1C40, 0x1C50, 0xA620, 0xA8D0, 0xA900, 0xA9D0, 0xA9F0, 0xAA50, 0xABF0,
    0xFF10, 0x104A0, 0x10D30, 0x11066, 0x110F0, 0x11136, 0x111D0, 0x112F0, 0x11450, 0x114D0,
    0x11650, 0x116C0, 0x11730, 0x118E0, 0x11950, 0x11C50, 0x11D50, 0x11DA0, 0x11F50, 0x16A60,
    0x16AC0, 0x16B50, 0x1D7CE, 0x1D7D8, 0x1D7E2, 0x1D7EC, 0x1D7F6, 0x1E140, 0x1E2F0, 0x1E4F0,
    0x1E950, 0x1FBF0]

/-- The value of a decimal digit character, `none` for any other character. -/
def decimal? (c : Nat) : Option Nat :=
  (zeroDigits.find? fun z ↦ z ≤ c && c < z + 10).map fun z ↦ c - z

/-! ## Operations -/

/-- `s.split()`: the maximal runs of characters that are not white space. -/
def words (s : Str) : List Str := (s.splitOnP isSpace).filter fun w ↦ !w.isEmpty

/-- A `str` that `str.encode("utf-8")` accepts. -/
def encodable (s : Str) : Bool := s.all fun c ↦ !isSurrogate c

/-- `s.strip` at both ends of the characters satisfying `p`. -/
def strip {α : Type*} (p : α → Bool) (s : List α) : List α := s.dropWhile p |>.rdropWhile p

/-- Nothing to strip. -/
theorem strip_of_forall {α : Type*} {p : α → Bool} {s : List α} (h : ∀ c ∈ s, p c = false) :
    strip p s = s := by
  have hleft : s.dropWhile p = s :=
    List.dropWhile_eq_self_iff.mpr fun hl ↦ by simp [h _ (List.getElem_mem hl)]
  have hright : s.rdropWhile p = s :=
    List.rdropWhile_eq_self_iff.mpr fun hl ↦ by simp [h _ (List.getLast_mem hl)]
  rw [strip, hleft, hright]

/-- A blank in front of a text that has none at its ends. -/
theorem strip_cons {α : Type*} {p : α → Bool} {a b z : α} {s : List α} (ha : p a)
    (hb : p b = false) (hz : p z = false) :
    strip p (a :: b :: (s ++ [z])) = b :: (s ++ [z]) := by
  have hlast : ¬p z := by simp [hz]
  rw [strip, List.dropWhile_cons_of_pos ha, List.dropWhile_cons_of_neg (by simp [hb]),
    ← List.cons_append, List.rdropWhile_concat_neg p (b :: s) z hlast]

/-- Blanks in front. -/
theorem strip_append {α : Type*} {p : α → Bool} {s t : List α} (h : ∀ c ∈ s, p c) :
    strip p (s ++ t) = strip p t := by
  rw [strip, List.dropWhile_append_of_pos h, strip]

/-- Nothing but blanks. -/
theorem strip_eq_nil {α : Type*} {p : α → Bool} {s : List α} (h : ∀ c ∈ s, p c) : strip p s = [] := by
  have hnil := strip_append (t := []) h
  rwa [List.append_nil] at hnil

/-- No blanks at the ends. -/
theorem strip_eq_self {α : Type*} {p : α → Bool} {s : List α} (hfirst : ∀ c ∈ s.head?, p c = false)
    (hlast : ∀ c ∈ s.getLast?, p c = false) : strip p s = s := by
  cases s with
  | nil => rfl
  | cons c s =>
      have hc : ¬p c := by simp [hfirst c rfl]
      rw [strip, List.dropWhile_cons_of_neg hc]
      refine List.rdropWhile_eq_self_iff.mpr fun hne ↦ ?_
      simp [hlast _ (List.getLast?_eq_some_getLast hne)]

/-- What is no blank stays. -/
theorem strip_cons_ne_nil {α : Type*} {p : α → Bool} {a : α} {s : List α} (h : p a = false) :
    strip p (a :: s) ≠ [] := by
  rw [strip, List.dropWhile_cons_of_neg (by simp [h]), Ne, List.rdropWhile_eq_nil_iff]
  exact fun hall ↦ Bool.false_ne_true (h.symm.trans (hall a List.mem_cons_self))

/-- Stripping takes elements from the ends only. -/
theorem strip_isInfix {α : Type*} (p : α → Bool) (s : List α) : strip p s <:+: s :=
  (List.rdropWhile_prefix p _).isInfix.trans (List.dropWhile_suffix p).isInfix

/-- `b.strip()` of a `bytes` object. -/
def stripBytes (b : Bytes) : Bytes := strip (fun c ↦ isAsciiSpace c.toNat) b

/-- The decimal text of an integer, `str(n)`. -/
def intText (n : ℤ) : Str :=
  (if n < 0 then [45] else []) ++ (Nat.toDigits 10 n.natAbs).map Char.toNat

end Py
