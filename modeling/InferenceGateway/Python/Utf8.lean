import InferenceGateway.Python.Json

/-!
# Writing UTF-8

`s.encode("utf-8")`, and that `json.loads` decodes it to the text it was made from.  The decoder of
`json` finds the encoding out from where the first four bytes are zero; a text that starts in ASCII
and has no zero character in it is taken for UTF-8.
-/

namespace Py

/-- The bytes of one code point. -/
def utf8Char (c : ℕ) : Bytes :=
  if c < 0x80 then [c.toUInt8]
  else if c < 0x800 then [(0xC0 + c / 64).toUInt8, (0x80 + c % 64).toUInt8]
  else if c < 0x10000 then
    [(0xE0 + c / 4096).toUInt8, (0x80 + c / 64 % 64).toUInt8, (0x80 + c % 64).toUInt8]
  else
    [(0xF0 + c / 262144).toUInt8, (0x80 + c / 4096 % 64).toUInt8, (0x80 + c / 64 % 64).toUInt8,
      (0x80 + c % 64).toUInt8]

/-- The bytes of a text. -/
def utf8Bytes (s : Str) : Bytes := s.flatMap utf8Char

/-- `s.encode("utf-8")`. -/
def encodeUtf8 (s : Str) : Except Exc Bytes :=
  if encodable s then .ok (utf8Bytes s) else .error .unicodeEncodeError

/-- A `str` of the interpreter: every character is a code point. -/
def IsText (s : Str) : Prop := ∀ c ∈ s, c < 0x110000

instance (s : Str) : Decidable (IsText s) := inferInstanceAs (Decidable (∀ c ∈ s, c < 0x110000))

theorem toNat_toUInt8 {n : ℕ} (h : n < 256) : n.toUInt8.toNat = n := by
  rw [Nat.toUInt8, UInt8.toNat_ofNat', Nat.mod_eq_of_lt h]

namespace Json

/-! ## One character -/

/-- The last byte that is owed to a character. -/
theorem utf8_last {acc lo hi b : ℕ} (hb : b < 64) (hlo : lo ≤ 0x80 + b) (hhi : 0x80 + b ≤ hi)
    (t : Bytes) : utf8 1 acc lo hi ((0x80 + b).toUInt8 :: t) =
      ((64 * acc + b) :: ·) <$> utf8 0 0 0 0 t := by
  simp only [utf8, toNat_toUInt8 (show 0x80 + b < 256 by omega)]
  rw [if_pos ⟨hlo, hhi⟩, if_pos trivial, Nat.add_sub_cancel_left]

/-- A byte of a character with another one to come. -/
theorem utf8_next {n acc lo hi b : ℕ} (hb : b < 64) (hlo : lo ≤ 0x80 + b) (hhi : 0x80 + b ≤ hi)
    (t : Bytes) : utf8 (n + 2) acc lo hi ((0x80 + b).toUInt8 :: t) =
      utf8 (n + 1) (64 * acc + b) 0x80 0xBF t := by
  simp only [utf8, toNat_toUInt8 (show 0x80 + b < 256 by omega)]
  rw [if_pos ⟨hlo, hhi⟩, if_neg (Nat.succ_ne_zero n), Nat.add_sub_cancel_left]

/-- The first byte of a character of two bytes. -/
theorem utf8_lead2 {a : ℕ} (hlo : 2 ≤ a) (hhi : a < 32) (t : Bytes) :
    utf8 0 0 0 0 ((0xC0 + a).toUInt8 :: t) = utf8 1 a 0x80 0xBF t := by
  simp only [utf8, toNat_toUInt8 (show 0xC0 + a < 256 by omega)]
  rw [if_neg (by omega), if_neg (by omega), if_pos (by omega), Nat.add_sub_cancel_left]

/-- The first byte of a character of three bytes. -/
theorem utf8_lead3 {a : ℕ} (ha : a < 16) (t : Bytes) : utf8 0 0 0 0 ((0xE0 + a).toUInt8 :: t) =
    utf8 2 a (if a = 0 then 0xA0 else 0x80) 0xBF t := by
  simp only [utf8, toNat_toUInt8 (show 0xE0 + a < 256 by omega)]
  rw [if_neg (by omega), if_neg (by omega), if_neg (by omega)]
  by_cases h : a = 0
  · rw [if_pos (by omega), if_pos h, h]
  · rw [if_neg (by omega), if_pos (by omega), if_neg h, Nat.add_sub_cancel_left]

/-- The first byte of a character of four bytes. -/
theorem utf8_lead4 {a : ℕ} (ha : a ≤ 4) (t : Bytes) : utf8 0 0 0 0 ((0xF0 + a).toUInt8 :: t) =
    utf8 3 a (if a = 0 then 0x90 else 0x80) (if a = 4 then 0x8F else 0xBF) t := by
  simp only [utf8, toNat_toUInt8 (show 0xF0 + a < 256 by omega)]
  rw [if_neg (by omega), if_neg (by omega), if_neg (by omega), if_neg (by omega),
    if_neg (by omega)]
  by_cases h0 : a = 0
  · rw [if_pos (by omega), if_pos h0, if_neg (by omega), h0]
  · by_cases h4 : a = 4
    · rw [if_neg (by omega), if_neg (by omega), if_pos (by omega), if_neg h0, if_pos h4, h4]
    · rw [if_neg (by omega), if_pos (by omega), if_neg h0, if_neg h4, Nat.add_sub_cancel_left]

/-- A character is decoded to itself, whatever follows it. -/
theorem utf8_utf8Char {c : ℕ} (h : c < 0x110000) (t : Bytes) :
    utf8 0 0 0 0 (utf8Char c ++ t) = (c :: ·) <$> utf8 0 0 0 0 t := by
  unfold utf8Char
  split_ifs with h1 h2 h3
  · simp [utf8, toNat_toUInt8 (by omega : c < 256), h1]
  · have hc : 64 * (c / 64) + c % 64 = c := by omega
    simp only [List.cons_append, List.nil_append]
    rw [utf8_lead2 (by omega) (by omega), utf8_last (by omega) (by omega) (by omega), hc]
  · have hc : 64 * (64 * (c / 4096) + c / 64 % 64) + c % 64 = c := by omega
    simp only [List.cons_append, List.nil_append]
    rw [utf8_lead3 (by omega), utf8_next (by omega) (by split <;> omega) (by omega),
      utf8_last (by omega) (by omega) (by omega), hc]
  · have hc : 64 * (64 * (64 * (c / 262144) + c / 4096 % 64) + c / 64 % 64) + c % 64 = c := by
      omega
    simp only [List.cons_append, List.nil_append]
    rw [utf8_lead4 (by omega), utf8_next (by omega) (by split <;> omega) (by split <;> omega),
      utf8_next (by omega) (by omega) (by omega), utf8_last (by omega) (by omega) (by omega), hc]

/-! ## A text -/

theorem utf8_utf8Bytes {s : Str} (h : IsText s) : utf8 0 0 0 0 (utf8Bytes s) = some s := by
  induction s with
  | nil => rfl
  | cons c s ih =>
      rw [utf8Bytes, List.flatMap_cons, utf8_utf8Char (h c List.mem_cons_self), ← utf8Bytes,
        ih fun d hd ↦ h d (List.mem_cons_of_mem c hd)]
      rfl

/-- An ASCII byte is a character of its own. -/
theorem eq_of_mem_utf8Char {c : ℕ} {b : UInt8} (hc : c < 0x110000) (hb : b ∈ utf8Char c)
    (hascii : b.toNat < 0x80) : b.toNat = c := by
  have large {n : ℕ} (hn : n < 256) (hpos : 0x80 ≤ n) : ¬n.toUInt8.toNat < 0x80 := by
    rw [toNat_toUInt8 hn]
    omega
  unfold utf8Char at hb
  split_ifs at hb
  · rw [List.mem_singleton.mp hb, toNat_toUInt8 (by omega)]
  all_goals
    simp only [List.mem_cons, List.not_mem_nil, or_false] at hb
    rcases hb with rfl | rfl | rfl | rfl <;> exact absurd hascii (large (by omega) (by omega))

theorem mem_of_mem_utf8Bytes {s : Str} {b : UInt8} (h : IsText s) (hb : b ∈ utf8Bytes s)
    (hascii : b.toNat < 0x80) : b.toNat ∈ s := by
  obtain ⟨c, hc, hbc⟩ := List.mem_flatMap.mp hb
  rwa [eq_of_mem_utf8Char (h c hc) hbc hascii]

/-- Bytes that start in ASCII, none of them zero, are taken for UTF-8. -/
theorem decode_of_ascii {b : UInt8} {l : Bytes} (hb : b.toNat < 0x80) (h0 : ∀ x ∈ b :: l, x ≠ 0) :
    decode (b :: l) = utf8 0 0 0 0 (b :: l) := by
  -- no byte order mark starts with an ASCII byte
  have hmark (m : UInt8) (hm : 0x80 ≤ m.toNat) : b ≠ m := by
    rintro rfl
    omega
  have hb0 : b ≠ 0 := h0 b List.mem_cons_self
  rw [decode_cons hb0 (hmark 0xFF (by decide)) (hmark 0xFE (by decide)) (hmark 0xEF (by decide))]
  refine decodeUnmarked_cons hb0 fun c hc ↦ ?_
  exact h0 c (List.mem_cons_of_mem b (List.mem_of_head? hc))

/-- A text that starts with an ASCII character, and has no zero character, is decoded to itself. -/
theorem decode_utf8Bytes {c : ℕ} {s : Str} (h : IsText (c :: s)) (hc : c < 0x80)
    (h0 : ∀ d ∈ c :: s, d ≠ 0) : decode (utf8Bytes (c :: s)) = some (c :: s) := by
  have hbytes : utf8Bytes (c :: s) = c.toUInt8 :: utf8Bytes s := by
    rw [utf8Bytes, List.flatMap_cons, utf8Char, if_pos hc]
    rfl
  rw [← utf8_utf8Bytes h, hbytes]
  refine decode_of_ascii ?_ fun x hx ↦ ?_
  · rwa [toNat_toUInt8 (by omega)]
  · rw [← hbytes] at hx
    rintro rfl
    exact h0 0 (mem_of_mem_utf8Bytes h hx (by decide)) rfl

end Json

/-! ## Text files -/

/-- The line ends of a text file, all of them read as `\n`. -/
def universalNewlines : Str → Str
  | [] => []
  | 13 :: 10 :: s => 10 :: universalNewlines s
  | 13 :: s => 10 :: universalNewlines s
  | c :: s => c :: universalNewlines s

/-- `path.read_text(encoding="utf-8")`: the encoding of a surrogate is refused too. -/
def readText (b : Bytes) : Except Exc Str := match Json.utf8 0 0 0 0 b with
  | some s => if encodable s then .ok (universalNewlines s) else .error .valueError
  | none => .error .valueError

theorem universalNewlines_of_not_mem {s : Str} (h : 13 ∉ s) : universalNewlines s = s := by
  induction s with
  | nil => rfl
  | cons c s ih =>
      obtain ⟨hc, hs⟩ := not_or.mp (mt List.mem_cons.mpr h)
      rw [universalNewlines, ih hs]
      · exact fun _ h13 _ ↦ hc h13.symm
      · exact fun h13 ↦ hc h13.symm

/-- A text of ASCII without carriage returns is read as it was written. -/
theorem readText_utf8Bytes {s : Str} (h : ∀ c ∈ s, c < 128 ∧ c ≠ 13) :
    readText (utf8Bytes s) = .ok s := by
  have henc : encodable s := by
    refine List.all_eq_true.mpr fun c hc ↦ ?_
    have hlt := (h c hc).1
    simp only [isSurrogate, Bool.not_eq_true', Bool.and_eq_false_iff, decide_eq_false_iff_not]
    omega
  have htext : IsText s := fun c hc ↦ lt_trans (h c hc).1 (by decide)
  rw [readText, Json.utf8_utf8Bytes htext]
  exact (if_pos henc).trans
    (congrArg Except.ok (universalNewlines_of_not_mem fun hmem ↦ (h 13 hmem).2 rfl))

/-- The first bytes of a text of ASCII are those of its first characters. -/
theorem take_utf8Bytes {s : Str} (h : ∀ c ∈ s, c < 128) (n : ℕ) :
    (utf8Bytes s).take n = utf8Bytes (s.take n) := by
  induction s generalizing n with
  | nil => simp [utf8Bytes]
  | cons c s ih =>
      have hc : utf8Char c = [c.toUInt8] := if_pos (h c List.mem_cons_self)
      have hcons : ∀ s, utf8Bytes (c :: s) = c.toUInt8 :: utf8Bytes s := by
        intro s
        rw [utf8Bytes, List.flatMap_cons, hc]
        rfl
      cases n with
      | zero => rfl
      | succ n =>
          rw [hcons, List.take_succ_cons, List.take_succ_cons, hcons,
            ih (fun d hd ↦ h d (List.mem_cons_of_mem c hd))]

end Py
