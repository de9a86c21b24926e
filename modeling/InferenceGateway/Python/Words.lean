import InferenceGateway.Python.Value

/-!
# The words of the text of a value

`str.split()` counts a word where a character that is no white space follows one that is, or the
start.  A text is solid if it starts and ends inside of a word; then what is put next to it does
not change its words (`Solid.append`, `Solid.blank`), and so the words of `repr(v)` are counted
along the value.

`repr` writes no white space but the blank: after the comma and the colon between the parts of a
container, and where a string has a blank itself.  So `repr(v)` has one word more than it has runs
of blanks (`Printer.length_words_repr`), and these can be read off the value (`Value.blanks`).
-/

namespace Py

/-! ## Where words start -/

/-- The number of words that start in a text; `gap` if white space comes before it. -/
def wordStarts : Bool → Str → ℕ
  | _, [] => 0
  | gap, c :: s => if isSpace c then wordStarts true s else gap.toNat + wordStarts false s

theorem wordStarts_space {gap : Bool} {c : ℕ} {s : Str} (h : isSpace c) :
    wordStarts gap (c :: s) = wordStarts true s := if_pos h

theorem wordStarts_not_space {gap : Bool} {c : ℕ} {s : Str} (h : ¬isSpace c) :
    wordStarts gap (c :: s) = gap.toNat + wordStarts false s := if_neg h

/-- The words of a text are as many as start in it. -/
theorem length_words (s : Str) : (words s).length = wordStarts true s := by
  -- without a gap before it, the first piece belongs to a word that has started
  have pieces : ∀ s : Str, ∃ w ws, s.splitOnP isSpace = w :: ws ∧
      wordStarts false s = (ws.filter fun w ↦ !w.isEmpty).length ∧
      wordStarts true s = ((w :: ws).filter fun w ↦ !w.isEmpty).length := by
    intro s
    induction s with
    | nil => exact ⟨[], [], rfl, rfl, rfl⟩
    | cons c s ih =>
        obtain ⟨w, ws, hsplit, hfalse, htrue⟩ := ih
        by_cases hc : isSpace c
        · refine ⟨[], w :: ws, by simp [List.splitOnP_cons_eq_if_modifyHead, hc, hsplit], ?_, ?_⟩
          · rw [wordStarts_space hc, htrue]
          · rw [wordStarts_space hc, htrue]
            rfl
        · refine ⟨c :: w, ws, by simp [List.splitOnP_cons_eq_if_modifyHead, hc, hsplit], ?_, ?_⟩
          · rw [wordStarts_not_space hc, hfalse, Bool.toNat_false, Nat.zero_add]
          · rw [wordStarts_not_space hc, hfalse, Bool.toNat_true, Nat.add_comm]
            rfl
  obtain ⟨w, ws, hsplit, -, htrue⟩ := pieces s
  rw [words, hsplit, htrue]

/-- The characters of a word are characters of the text. -/
theorem mem_of_mem_words {s w : Str} {d : ℕ} (hw : w ∈ words s) (hd : d ∈ w) : d ∈ s := by
  have hsplit : ∀ (s : Str), ∀ w ∈ s.splitOnP isSpace, ∀ d ∈ w, d ∈ s := by
    intro s
    induction s with
    | nil =>
        intro w hw d hd
        rw [List.splitOnP_nil, List.mem_singleton] at hw
        rw [hw] at hd
        cases hd
    | cons a s ih =>
        intro w hw d hd
        rw [List.splitOnP_cons_eq_if_modifyHead] at hw
        split at hw
        · rcases List.mem_cons.mp hw with rfl | hw
          · cases hd
          · exact List.mem_cons_of_mem a (ih w hw d hd)
        · cases hs : s.splitOnP isSpace with
          | nil => exact absurd hs (List.splitOnP_ne_nil _ _)
          | cons x xs =>
              rw [hs] at hw ih
              rcases List.mem_cons.mp hw with rfl | hw
              · rcases List.mem_cons.mp hd with rfl | hd
                · exact List.mem_cons_self
                · exact List.mem_cons_of_mem a (ih x List.mem_cons_self d hd)
              · exact List.mem_cons_of_mem a (ih w (List.mem_cons_of_mem x hw) d hd)
  exact hsplit s w (List.mem_filter.mp hw).1 d hd

/-- What is in a text that is joined is in a part of it. -/
theorem mem_of_mem_intercalate {α : Type*} {sep : List α} {ls : List (List α)} {a : α}
    (h : a ∈ sep.intercalate ls) : a ∈ sep ∨ ∃ l ∈ ls, a ∈ l := by
  induction ls with
  | nil => cases h
  | cons l ls ih =>
      cases ls with
      | nil =>
          rw [List.intercalate_singleton] at h
          exact .inr ⟨l, List.mem_cons_self, h⟩
      | cons l' ls =>
          rw [List.intercalate_cons_cons, List.mem_append, List.mem_append] at h
          rcases h with (h | h) | h
          · exact .inr ⟨l, List.mem_cons_self, h⟩
          · exact .inl h
          · rcases ih h with h | ⟨x, hx, h⟩
            · exact .inl h
            · exact .inr ⟨x, List.mem_cons_of_mem l hx, h⟩

/-! ## Solid texts -/

/-- A text that starts and ends inside of a word and has `n` gaps in it. -/
def Solid (s : Str) (n : ℕ) : Prop :=
  ∀ gap t, wordStarts gap (s ++ t) = gap.toNat + n + wordStarts false t

namespace Solid

variable {s t : Str} {m n : ℕ}

/-- A solid text has one word more than it has gaps. -/
theorem length_words (h : Solid s n) : (words s).length = 1 + n := by
  have hs := h true []
  rwa [List.append_nil, ← Py.length_words] at hs

/-- A text that is one word. -/
theorem of_not_space (hne : s ≠ []) (h : ∀ c ∈ s, ¬isSpace c) : Solid s 0 := by
  -- after its first character no word starts
  have rest : ∀ s : Str, (∀ c ∈ s, ¬isSpace c) →
      ∀ t, wordStarts false (s ++ t) = wordStarts false t := by
    intro s
    induction s with
    | nil => exact fun _ _ ↦ rfl
    | cons c s ih =>
        intro h t
        rw [List.cons_append, wordStarts_not_space (h c List.mem_cons_self),
          ih fun d hd ↦ h d (List.mem_cons_of_mem c hd), Bool.toNat_false, Nat.zero_add]
  cases s with
  | nil => exact absurd rfl hne
  | cons c s =>
      intro gap t
      rw [List.cons_append, wordStarts_not_space (h c List.mem_cons_self),
        rest s (fun d hd ↦ h d (List.mem_cons_of_mem c hd)), Nat.add_zero]

/-- Two texts side by side: the last word of one is the first of the other. -/
theorem append (hs : Solid s m) (ht : Solid t n) : Solid (s ++ t) (m + n) := by
  intro gap u
  rw [List.append_assoc, hs, ht, Bool.toNat_false]
  omega

/-- Two texts with a blank between them. -/
theorem blank (hs : Solid s m) (ht : Solid t n) : Solid (s ++ 32 :: t) (m + 1 + n) := by
  intro gap u
  rw [List.append_assoc, hs, List.cons_append, wordStarts_space (by decide), ht, Bool.toNat_true]
  omega

/-- A text behind a word and a blank. -/
theorem after {sep : Str} (hs : Solid s m) (hsep : Solid sep 0) (ht : Solid t n) :
    Solid (s ++ (sep ++ 32 :: t)) (m + 1 + n) := by
  rw [← List.append_assoc]
  exact (hs.append hsep).blank ht

end Solid

/-! ## The blanks of a value -/

/-- The runs of blanks in a text; `run` if it stands in one. -/
def blankRuns : Bool → Str → ℕ
  | _, [] => 0
  | run, c :: s => if c = 32 then (!run).toNat + blankRuns true s else blankRuns false s

theorem blankRuns_true_le (s : Str) : blankRuns true s ≤ blankRuns false s := by
  cases s with
  | nil => exact le_rfl
  | cons c s =>
      rw [blankRuns, blankRuns]
      split
      · simp
      · exact le_rfl

/-- A text whose words are separated by blanks only. -/
def BlankSeparated (s : Str) : Prop := ∀ c ∈ s, isSpace c → c = 32

/-- A plain text has at most one word more than it has runs of blanks. -/
theorem BlankSeparated.length_words_le {s : Str} (h : BlankSeparated s) :
    (words s).length ≤ 1 + blankRuns false s := by
  have starts : ∀ (s : Str) (gap : Bool), BlankSeparated s →
      wordStarts gap s ≤ gap.toNat + blankRuns gap s := by
    intro s
    induction s with
    | nil => exact fun _ _ ↦ Nat.zero_le _
    | cons c s ih =>
        intro gap hs
        have htail : BlankSeparated s := fun d hd ↦ hs d (List.mem_cons_of_mem c hd)
        rw [blankRuns]
        by_cases hc : isSpace c
        · rw [wordStarts_space hc, if_pos (hs c List.mem_cons_self hc)]
          have hstarts := ih true htail
          cases gap with
          | true => simpa using hstarts
          | false => simpa using hstarts
        · have hne : c ≠ 32 := by
            rintro rfl
            exact hc (by decide)
          rw [wordStarts_not_space hc, if_neg hne]
          have hstarts := ih false htail
          simp only [Bool.toNat_false, Nat.zero_add] at hstarts
          omega
  have hstarts := starts s true h
  have hruns := blankRuns_true_le s
  rw [length_words]
  simp only [Bool.toNat_true] at hstarts
  omega

namespace Value

mutual

/-- The runs of blanks in `repr(v)`: those of the strings, one after each colon, and one after each
comma. -/
def blanks : Value → ℕ
  | .str s => blankRuns false s
  | .list xs => blanksList xs + (xs.length - 1)
  | .dict kvs => blanksFields kvs + (kvs.length - 1)
  | _ => 0

/-- The blanks of the elements. -/
def blanksList : List Value → ℕ
  | [] => 0
  | x :: xs => x.blanks + blanksList xs

/-- The blanks of the items. -/
def blanksFields : List (Str × Value) → ℕ
  | [] => 0
  | (k, v) :: kvs => blankRuns false k + 1 + v.blanks + blanksFields kvs

end

/-- A value in a dictionary, and the colon before it. -/
theorem blanks_of_lookup {kvs : List (Str × Value)} {k : Str} {v : Value}
    (h : kvs.lookup k = some v) : 1 + v.blanks ≤ blanksFields kvs := by
  induction kvs with
  | nil => cases h
  | cons kv kvs ih =>
      obtain ⟨j, w⟩ := kv
      rw [List.lookup_cons] at h
      rw [blanksFields]
      split at h
      · cases h
        omega
      · have hrest := ih h
        omega

end Value

/-! ## Numerals and literals -/

theorem mem_toDigits {b n : ℕ} {c : Char} (hb : 1 < b) (h : c ∈ Nat.toDigits b n) :
    ∃ d < b, c = d.digitChar := by
  induction n using Nat.strongRecOn with
  | ind n ih =>
      rw [Nat.toDigits_eq_if hb] at h
      split at h
      · rename_i hn
        exact ⟨n, hn, List.mem_singleton.mp h⟩
      · rename_i hn
        rcases List.mem_append.mp h with h | h
        · exact ih (n / b) (Nat.div_lt_self (by omega) hb) h
        · exact ⟨n % b, Nat.mod_lt n (by omega), List.mem_singleton.mp h⟩

/-- No digit is white space. -/
theorem not_space_of_mem_toDigits {b n c : ℕ} (hb : 1 < b) (hb' : b ≤ 16)
    (h : c ∈ (Nat.toDigits b n).map Char.toNat) : ¬isSpace c := by
  have hdigit : ∀ d < 16, ¬isSpace (Nat.digitChar d).toNat := by decide
  obtain ⟨x, hx, rfl⟩ := List.mem_map.mp h
  obtain ⟨d, hd, rfl⟩ := mem_toDigits hb hx
  exact hdigit d (by omega)

theorem solid_intText (n : ℤ) : Solid (intText n) 0 := by
  refine Solid.of_not_space ?_ fun c hc ↦ ?_
  · simp [intText, Nat.toDigits_ne_nil]
  · rcases List.mem_append.mp hc with hc | hc
    · split at hc
      · rw [List.mem_singleton.mp hc]
        decide
      · cases hc
    · exact not_space_of_mem_toDigits (by decide) (by decide) hc

namespace Printer

variable (P : Printer)

theorem not_space_of_mem_hexText {w n c : ℕ} (h : c ∈ hexText w n) : ¬isSpace c := by
  rcases List.mem_append.mp h with h | h
  · rw [List.eq_of_mem_replicate h]
    decide
  · exact not_space_of_mem_toDigits (by decide) (by decide) h

/-- An escape in hexadecimal. -/
theorem solid_escape {pre : String} (w n : ℕ) (hne : str pre ≠ [])
    (hpre : ∀ c ∈ str pre, ¬isSpace c) : Solid (str pre ++ hexText w n) 0 := by
  refine Solid.of_not_space (by simp [hne]) fun c hc ↦ ?_
  rcases List.mem_append.mp hc with hc | hc
  · exact hpre c hc
  · exact not_space_of_mem_hexText hc

/-- Any character but the blank is written as a piece of a word. -/
theorem solid_reprChar {q c : ℕ} (hq : ¬isSpace q) (hc : c ≠ 32) : Solid (P.reprChar q c) 0 := by
  unfold reprChar
  split
  · rename_i h
    refine Solid.of_not_space (List.cons_ne_nil _ _) fun d hd ↦ ?_
    rcases List.mem_pair.mp hd with rfl | rfl
    · decide
    · rcases Bool.or_eq_true_iff.mp h with h | h
      · rwa [of_decide_eq_true h]
      · rw [of_decide_eq_true h]
        decide
  · split
    · exact Solid.of_not_space (by decide) (by decide)
    · split
      · exact Solid.of_not_space (by decide) (by decide)
      · split
        · exact Solid.of_not_space (by decide) (by decide)
        · split
          · rename_i hprint
            refine Solid.of_not_space (List.cons_ne_nil _ _) fun d hd ↦ ?_
            rw [List.mem_singleton.mp hd]
            exact fun hs ↦ hc (P.isPrintable_space c hs hprint)
          · split
            · exact solid_escape 2 c (by decide) (by decide)
            · split
              · exact solid_escape 4 c (by decide) (by decide)
              · exact solid_escape 8 c (by decide) (by decide)

/-- The blank prints as itself. -/
def PrintsBlank : Prop := P.isPrintable 32

variable {P}

theorem reprChar_blank (hP : P.PrintsBlank) {q : ℕ} (hq : q = 34 ∨ q = 39) :
    P.reprChar q 32 = [32] := by
  have hprint : P.isPrintable 32 = true := hP
  rcases hq with rfl | rfl
  · simp [reprChar, hprint]
  · simp [reprChar, hprint]

/-- The characters of a literal, up to its closing quote. -/
theorem wordStarts_flatMap (hP : P.PrintsBlank) {q : ℕ} (hq : q = 34 ∨ q = 39) (gap : Bool)
    (s t : Str) : wordStarts gap (s.flatMap (P.reprChar q) ++ q :: t) =
      gap.toNat + blankRuns gap s + wordStarts false t := by
  have hspace : ¬isSpace q := by rcases hq with rfl | rfl <;> decide
  induction s generalizing gap with
  | nil =>
      rw [List.flatMap_nil, List.nil_append, wordStarts_not_space hspace, blankRuns, Nat.add_zero]
  | cons c s ih =>
      rw [List.flatMap_cons, List.append_assoc, blankRuns]
      by_cases hc : c = 32
      · subst hc
        rw [reprChar_blank hP hq, List.singleton_append, wordStarts_space (by decide), ih,
          if_pos rfl]
        cases gap with
        | true => simp
        | false => simp
      · rw [P.solid_reprChar hspace hc, ih, if_neg hc, Bool.toNat_false]
        omega

theorem solid_reprStr (hP : P.PrintsBlank) (s : Str) : Solid (P.reprStr s) (blankRuns false s) := by
  intro gap t
  unfold reprStr
  dsimp only
  generalize hquote : (if s.contains 39 && !s.contains 34 then 34 else 39) = q
  have hq : q = 34 ∨ q = 39 := by
    subst hquote
    split
    · exact .inl rfl
    · exact .inr rfl
  have hspace : ¬isSpace q := by rcases hq with rfl | rfl <;> decide
  rw [List.singleton_append, List.append_assoc, List.cons_append,
    wordStarts_not_space hspace, List.singleton_append, wordStarts_flatMap hP hq, Bool.toNat_false]
  omega

/-! ## The text of a value -/

theorem solid_literal {s : String} (hne : str s ≠ []) (h : ∀ c ∈ str s, ¬isSpace c) :
    Solid (str s) 0 := Solid.of_not_space hne h

/-- What is put into brackets. -/
theorem solid_brackets {body : Str} {n : ℕ} (a b : ℕ) (h : Solid body n)
    (hab : ∀ c ∈ [a, b], ¬isSpace c) : Solid ([a] ++ body ++ [b]) n := by
  have ha : Solid [a] 0 := Solid.of_not_space (List.cons_ne_nil _ _) fun c hc ↦ by
    rw [List.mem_singleton.mp hc]
    exact hab a List.mem_cons_self
  have hb : Solid [b] 0 := Solid.of_not_space (List.cons_ne_nil _ _) fun c hc ↦ by
    rw [List.mem_singleton.mp hc]
    exact hab b (List.mem_cons_of_mem a List.mem_cons_self)
  simpa using (ha.append h).append hb

theorem solid_emptyList : Solid [91, 93] 0 := Solid.of_not_space (by decide) (by decide)

theorem solid_emptyDict : Solid [123, 125] 0 := Solid.of_not_space (by decide) (by decide)

theorem solid_comma : Solid [44] 0 := Solid.of_not_space (by decide) (by decide)

theorem solid_colon : Solid [58] 0 := Solid.of_not_space (by decide) (by decide)

mutual

/-- The text of a value is solid, and its gaps are the blanks of the value. -/
theorem solid_repr (hP : P.PrintsBlank) : ∀ v : Value, Solid (P.repr v) v.blanks
  | .none => solid_literal (by decide) (by decide)
  | .bool true => solid_literal (by decide) (by decide)
  | .bool false => solid_literal (by decide) (by decide)
  | .int n => solid_intText n
  | .float x => Solid.of_not_space (P.floatText_ne_nil x) (P.floatText_not_space x)
  | .str s => solid_reprStr hP s
  | .list [] => solid_emptyList
  | .list (x :: xs) =>
      solid_brackets 91 93 (solid_reprList hP (x :: xs) (List.cons_ne_nil x xs)) (by decide)
  | .dict [] => solid_emptyDict
  | .dict (kv :: kvs) =>
      solid_brackets 123 125 (solid_reprFields hP (kv :: kvs) (List.cons_ne_nil kv kvs)) (by decide)

theorem solid_reprList (hP : P.PrintsBlank) : ∀ xs : List Value, xs ≠ [] →
    Solid (P.reprList xs) (Value.blanksList xs + (xs.length - 1))
  | [], h => absurd rfl h
  | [x], _ => solid_repr hP x
  | x :: y :: xs, _ => by
      have hrest := solid_reprList hP (y :: xs) (List.cons_ne_nil y xs)
      have htext : P.reprList (x :: y :: xs) =
          P.repr x ++ ([44] ++ 32 :: P.reprList (y :: xs)) := List.append_assoc _ (str ", ") _
      have hcount : Value.blanksList (x :: y :: xs) + ((x :: y :: xs).length - 1) =
          x.blanks + 1 + (Value.blanksList (y :: xs) + ((y :: xs).length - 1)) := by
        simp only [Value.blanksList, List.length_cons]
        omega
      rw [htext, hcount]
      exact (solid_repr hP x).after solid_comma hrest

theorem solid_reprFields (hP : P.PrintsBlank) : ∀ kvs : List (Str × Value), kvs ≠ [] →
    Solid (P.reprFields kvs) (Value.blanksFields kvs + (kvs.length - 1))
  | [], h => absurd rfl h
  | [(k, v)], _ => by
      have htext : P.reprFields [(k, v)] = P.reprStr k ++ ([58] ++ 32 :: P.repr v) :=
        List.append_assoc _ (str ": ") _
      rw [htext]
      exact (solid_reprStr hP k).after solid_colon (solid_repr hP v)
  | (k, v) :: kv :: kvs, _ => by
      have hitem := (solid_reprStr hP k).after solid_colon (solid_repr hP v)
      have hrest := solid_reprFields hP (kv :: kvs) (List.cons_ne_nil kv kvs)
      have htext : P.reprFields ((k, v) :: kv :: kvs) =
          (P.reprStr k ++ ([58] ++ 32 :: P.repr v)) ++
            ([44] ++ 32 :: P.reprFields (kv :: kvs)) := by
        have hcomma : str ", " = [44, 32] := rfl
        have hcolon : str ": " = [58, 32] := rfl
        rw [reprFields, hcomma, hcolon]
        simp only [List.append_assoc, List.cons_append, List.nil_append]
      have hcount : Value.blanksFields ((k, v) :: kv :: kvs) + (((k, v) :: kv :: kvs).length - 1) =
          blankRuns false k + 1 + v.blanks + 1 +
            (Value.blanksFields (kv :: kvs) + ((kv :: kvs).length - 1)) := by
        simp only [Value.blanksFields, List.length_cons]
        omega
      rw [htext, hcount]
      exact hitem.after solid_comma hrest

end

/-- The words of the text of a value. -/
theorem length_words_repr (hP : P.PrintsBlank) (v : Value) :
    (words (P.repr v)).length = 1 + v.blanks :=
  (solid_repr hP v).length_words

end Printer

end Py
