import InferenceGateway.Python.Dumps

/-!
# What `json.loads` makes of what `json.dumps` wrote

The machine of `json.loads` is fed the text of a value, piece by piece (`Feeds`).  After the last
piece it has read the value: it stands behind it, or in a numeral or a constant that only has to be
ended (`Ends`), and the next character, being no part of a numeral, is taken as the one after the
value (`Ends.step`).  The induction is on the value; inside of a container it carries the items
that are complete.
-/

namespace Py.Json

/-- `json.loads(s)` of a `str`. -/
def loadsStr (maxDepth : ℕ) (text : Str) : Except Exc Value := do
  finish (← text.foldlM (step maxDepth) ⟨[], .value false⟩)

/-! ## Feeding the machine -/

variable {D : ℕ} {stack : List Frame} {s t u : State} {text text' : Str} {c : ℕ} {v : Value}

/-- The machine goes through a text. -/
def Feeds (D : ℕ) (s : State) (text : Str) (t : State) : Prop := text.foldlM (step D) s = .ok t

theorem Feeds.nil (s : State) : Feeds D s [] s := rfl

theorem Feeds.cons (h : step D s c = .ok t) (h' : Feeds D t text u) : Feeds D s (c :: text) u := by
  rw [Feeds, List.foldlM_cons, h]
  exact h'

theorem Feeds.append (h : Feeds D s text t) (h' : Feeds D t text' u) :
    Feeds D s (text ++ text') u := by
  unfold Feeds at h
  rw [Feeds, List.foldlM_append, h]
  exact h'

theorem Feeds.single (h : step D s c = .ok t) : Feeds D s [c] t := .cons h (.nil t)

/-- Blanks, where they change nothing. -/
theorem Feeds.blanks (h : ∀ c, isBlank c → step D s c = .ok s) (hb : ∀ c ∈ text, isBlank c) :
    Feeds D s text s := by
  induction text with
  | nil => exact .nil s
  | cons c text ih =>
      exact .cons (h c (hb c List.mem_cons_self)) (ih fun d hd ↦ hb d (List.mem_cons_of_mem c hd))

theorem step_blank_value {canClose : Bool} (h : isBlank c) :
    step D ⟨stack, .value canClose⟩ c = .ok ⟨stack, .value canClose⟩ := if_pos h

theorem step_blank_key {kvs : Fields} {canClose : Bool} (h : isBlank c) :
    step D ⟨stack, .key kvs canClose⟩ c = .ok ⟨stack, .key kvs canClose⟩ := if_pos h

/-! ## The end of a value -/

/-- The machine has read a value, but for what a numeral or a constant is ended by. -/
inductive Ends (stack : List Frame) (v : Value) : State → Prop
  | after : Ends stack v ⟨stack, .after v⟩
  | numeral {rev : Str} : number rev.reverse = .ok v → Ends stack v ⟨stack, .number rev⟩
  | word : Ends stack v ⟨stack, .word [] v⟩

/-- A character that does not go on with a numeral. -/
theorem Ends.step (h : Ends stack v s) (hc : ¬isNumeral c) (hI : c ≠ 73) :
    Json.step D s c = afterValue stack v c := by
  cases h with
  | after => rfl
  | @numeral rev hn =>
      have hconst : (decide (c = 73) && decide (rev = [45])) = false := by simp [hI]
      simp only [Json.step, hc, hconst, hn]
      rfl
  | word => rfl

/-- The end of the text. -/
theorem Ends.finish (h : Ends [] v s) : Json.finish s = .ok v := by
  cases h with
  | after => rfl
  | numeral hn => exact hn
  | word => rfl

theorem not_numeral_of_isBlank (h : isBlank c) : ¬isNumeral c ∧ c ≠ 73 := by
  simp only [isBlank, Bool.or_eq_true, beq_iff_eq] at h
  rcases h with ((rfl | rfl) | rfl) | rfl <;> decide

/-- Blanks after a value. -/
theorem Ends.blanks (h : Ends stack v s) (hb : ∀ c ∈ text, isBlank c) :
    ∃ t, Feeds D s text t ∧ Ends stack v t := by
  cases text with
  | nil => exact ⟨s, .nil s, h⟩
  | cons c text =>
      have hc := hb c List.mem_cons_self
      have hstep : ∀ {s : State} {d : ℕ}, Ends stack v s → isBlank d →
          Json.step D s d = .ok ⟨stack, .after v⟩ := by
        intro s d hs hd
        obtain ⟨hnum, hI⟩ := not_numeral_of_isBlank hd
        rw [hs.step hnum hI]
        exact if_pos hd
      refine ⟨⟨stack, .after v⟩, .cons (hstep h hc) (.blanks (fun d hd ↦ hstep .after hd) ?_), .after⟩
      exact fun d hd ↦ hb d (List.mem_cons_of_mem c hd)

/-! ## Strings -/

/-- The marked characters that the machine keeps for one character of a literal. -/
def charMarks (ascii : Bool) (c : ℕ) : List (ℕ × Bool) :=
  if (shortEscape c).isSome || !isEscaped ascii c then [(c, false)]
  else if c < 0x10000 then [(c, true)]
  else [(highOf c, true), (lowOf c, true)]

theorem unescape_of_shortEscape {d : ℕ} (h : shortEscape c = some d) :
    unescape d = some c ∧ d ≠ 117 := by
  unfold shortEscape at h
  split at h <;> cases h <;> decide

theorem lt_of_shortEscape {d : ℕ} (h : shortEscape c = some d) : c < 128 := by
  unfold shortEscape at h
  split at h <;> cases h <;> decide

theorem hex?_hexDigit {n : ℕ} (h : n < 16) : hex? (hexDigit n) = some n := by
  have all : ∀ n < 16, hex? (hexDigit n) = some n := by decide
  exact all n h

/-- A code unit written by four digits. -/
theorem feeds_escapeUnit (obj : Option Fields) (rev : List (ℕ × Bool)) (hc : c < 0x10000) :
    Feeds D ⟨stack, .string obj rev .no⟩ (escapeUnit c)
      ⟨stack, .string obj ((c, true) :: rev) .no⟩ := by
  have digit {n acc d : ℕ} (hn : 1 < n) (hd : d < 16) :
      Json.step D ⟨stack, .string obj rev (.hex n acc)⟩ (hexDigit d) =
        .ok ⟨stack, .string obj rev (.hex (n - 1) (16 * acc + d))⟩ := by
    simp only [Json.step, stringStep, hex?_hexDigit hd]
    exact if_neg (by omega)
  have last {acc d : ℕ} (hd : d < 16) :
      Json.step D ⟨stack, .string obj rev (.hex 1 acc)⟩ (hexDigit d) =
        .ok ⟨stack, .string obj ((16 * acc + d, true) :: rev) .no⟩ := by
    simp only [Json.step, stringStep, hex?_hexDigit hd]
    exact if_pos le_rfl
  have hvalue : 16 * (16 * (16 * (16 * 0 + c / 4096) + c / 256 % 16) + c / 16 % 16) + c % 16 = c := by
    omega
  refine .cons rfl (.cons rfl (.cons (digit (by omega) (by omega)) (.cons (digit (by omega) (by omega))
    (.cons (digit (by omega) (by omega)) (.single ?_)))))
  rw [last (by omega), hvalue]

/-- One character of a literal. -/
theorem feeds_escapeChar {ascii : Bool} (obj : Option Fields) (rev : List (ℕ × Bool))
    (hc : c < 0x110000) : Feeds D ⟨stack, .string obj rev .no⟩ (escapeChar ascii c)
      ⟨stack, .string obj ((charMarks ascii c).reverse ++ rev) .no⟩ := by
  unfold escapeChar charMarks
  cases hshort : shortEscape c with
  | some d =>
      obtain ⟨hun, hu⟩ := unescape_of_shortEscape hshort
      refine .cons rfl (.single ?_)
      simp only [Json.step, stringStep, hun, if_neg hu]
      rfl
  | none =>
      have hquote : c ≠ 34 := by
        rintro rfl
        cases hshort
      have hslash : c ≠ 92 := by
        rintro rfl
        cases hshort
      simp only [Option.isSome_none, Bool.false_or, Bool.not_eq_true']
      by_cases hesc : isEscaped ascii c
      · rw [if_pos hesc, if_neg (by simp [hesc]), escapeUnicode]
        split_ifs with hplane
        · exact feeds_escapeUnit obj rev hplane
        · have hhigh : highOf c < 0x10000 := by unfold highOf; omega
          have hlow : lowOf c < 0x10000 := by unfold lowOf; omega
          exact (feeds_escapeUnit obj rev hhigh).append (feeds_escapeUnit obj _ hlow)
      · have hge : ¬c < 32 := by
          intro hlt
          exact hesc (by simp [isEscaped, hlt])
        rw [if_neg hesc, if_pos (by simpa using hesc)]
        refine .single ?_
        simp only [Json.step, stringStep, if_neg hquote, if_neg hslash, if_neg hge]
        rfl

/-- The characters of a literal. -/
theorem feeds_flatMap {ascii : Bool} (obj : Option Fields) (rev : List (ℕ × Bool)) {l : Str}
    (hl : IsText l) : Feeds D ⟨stack, .string obj rev .no⟩ (l.flatMap (escapeChar ascii))
      ⟨stack, .string obj ((l.flatMap (charMarks ascii)).reverse ++ rev) .no⟩ := by
  induction l generalizing rev with
  | nil => exact .nil _
  | cons c l ih =>
      rw [List.flatMap_cons, List.flatMap_cons, List.reverse_append, List.append_assoc]
      exact (feeds_escapeChar obj rev (hl c List.mem_cons_self)).append
        (ih _ fun d hd ↦ hl d (List.mem_cons_of_mem c hd))

/-- How a writable character is marked. -/
theorem charMarks_cases {ascii : Bool} (hc : c < 0x110000) (ha : ascii = false → ¬isSurrogate c) :
    charMarks ascii c = [(c, true)] ∨
      (charMarks ascii c = [(c, false)] ∧ isHigh c = false ∧ isLow c = false) ∨
      charMarks ascii c = [(highOf c, true), (lowOf c, true)] ∧ isHigh (highOf c) ∧
        isLow (highOf c) = false ∧ isLow (lowOf c) ∧ ofPair (highOf c) (lowOf c) = c ∧
        isHigh c = false ∧ isLow c = false := by
  unfold charMarks
  split_ifs with hplain hplane
  · refine .inr (.inl ⟨rfl, ?_⟩)
    -- what is written as itself or by a letter is below the surrogates or is none
    have hsmall : c < 128 ∨ ascii = false := by
      rcases Bool.or_eq_true_iff.mp hplain with h | h
      · obtain ⟨d, hd⟩ := Option.isSome_iff_exists.mp h
        exact .inl (lt_of_shortEscape hd)
      · cases ascii with
        | false => exact .inr rfl
        | true =>
            simp only [isEscaped, Bool.true_and, Bool.not_eq_true', Bool.or_eq_false_iff,
              decide_eq_false_iff_not] at h
            omega
    have hnone : ¬isSurrogate c := by
      rcases hsmall with h | h
      · simp only [isSurrogate, Bool.and_eq_true, decide_eq_true_eq]
        omega
      · exact ha h
    simp only [isSurrogate, Bool.and_eq_true, decide_eq_true_eq] at hnone
    simp only [isHigh, isLow, Bool.and_eq_false_iff, decide_eq_false_iff_not]
    omega
  · exact .inl rfl
  · have hlt : (c - 0x10000) / 0x400 < 0x400 := by omega
    have hmod : (c - 0x10000) % 0x400 < 0x400 := Nat.mod_lt _ (by decide)
    have hdiv : 0x400 * ((c - 0x10000) / 0x400) + (c - 0x10000) % 0x400 = c - 0x10000 :=
      Nat.div_add_mod _ _
    have hhigh : highOf c = 0xD800 + (c - 0x10000) / 0x400 := rfl
    have hlow : lowOf c = 0xDC00 + (c - 0x10000) % 0x400 := rfl
    refine .inr (.inr ⟨rfl, ?_, ?_, ?_, ?_, ?_, ?_⟩)
    · simp only [isHigh, Bool.and_eq_true, decide_eq_true_eq]
      omega
    · simp only [isLow, Bool.and_eq_false_iff, decide_eq_false_iff_not]
      omega
    · simp only [isLow, Bool.and_eq_true, decide_eq_true_eq]
      omega
    · unfold ofPair
      omega
    · simp only [isHigh, Bool.and_eq_false_iff, decide_eq_false_iff_not]
      omega
    · simp only [isLow, Bool.and_eq_false_iff, decide_eq_false_iff_not]
      omega

/-- The marked characters are joined as the characters are. -/
theorem joinEscapes_flatMap {ascii : Bool} {l : Str} (h : StrWritable ascii l) (p : Option ℕ) :
    joinEscapes p (l.flatMap (charMarks ascii)) = joinPairs p l := by
  induction l generalizing p with
  | nil => cases p <;> rfl
  | cons c l ih =>
      have ih := ih fun d hd ↦ h d (List.mem_cons_of_mem c hd)
      obtain ⟨hc, ha⟩ := h c List.mem_cons_self
      rw [List.flatMap_cons]
      rcases charMarks_cases hc ha with hm | ⟨hm, hhigh, hlow⟩ | ⟨hm, hh, hhl, hl, hpair, hhigh, hlow⟩
      · cases p <;> simp [hm, joinEscapes, joinPairs, ih]
      · cases p <;> simp [hm, joinEscapes, joinPairs, ih, hhigh, hlow]
      · cases p <;> simp [hm, joinEscapes, joinPairs, ih, hhigh, hlow, hh, hhl, hl, hpair]

/-- A string literal, up to its closing quote. -/
theorem feeds_literal {ascii : Bool} (obj : Option Fields) {l : Str} (h : StrWritable ascii l) :
    Feeds D ⟨stack, .string obj [] .no⟩ (l.flatMap (escapeChar ascii) ++ [34])
      (closeString stack obj (l.flatMap (charMarks ascii)).reverse) := by
  have hchars : Feeds D ⟨stack, .string obj [] .no⟩ (l.flatMap (escapeChar ascii))
      ⟨stack, .string obj ((l.flatMap (charMarks ascii)).reverse ++ []) .no⟩ :=
    feeds_flatMap obj [] fun c hc ↦ (h c hc).1
  rw [List.append_nil] at hchars
  exact hchars.append (.single rfl)

/-- A string. -/
theorem feeds_str {ascii canClose : Bool} {l : Str} (h : StrWritable ascii l) :
    Feeds D ⟨stack, .value canClose⟩ (dumpsStr ascii l) ⟨stack, .after (.str (joinPairs none l))⟩ := by
  have hl : Feeds D ⟨stack, .string none [] .no⟩ _ _ := feeds_literal none h
  simp only [closeString, List.reverse_reverse, joinEscapes_flatMap h] at hl
  exact .cons rfl hl

/-- A key. -/
theorem feeds_key {ascii canClose : Bool} {kvs : Fields} {l : Str} (h : StrWritable ascii l) :
    Feeds D ⟨stack, .key kvs canClose⟩ (dumpsStr ascii l) ⟨stack, .colon kvs (joinPairs none l)⟩ := by
  have hl : Feeds D ⟨stack, .string (some kvs) [] .no⟩ _ _ := feeds_literal (some kvs) h
  simp only [closeString, List.reverse_reverse, joinEscapes_flatMap h] at hl
  exact .cons rfl hl

/-! ## Numerals -/

/-- A character that a numeral starts with. -/
theorem startValue_numeral {canClose : Bool} (h : c = 45 ∨ isDigit c) :
    startValue D stack canClose c = .ok ⟨stack, .number [c]⟩ := by
  have hcases : c = 45 ∨ c = 48 ∨ c = 49 ∨ c = 50 ∨ c = 51 ∨ c = 52 ∨ c = 53 ∨ c = 54 ∨ c = 55 ∨
      c = 56 ∨ c = 57 := by
    simp only [isDigit, Bool.and_eq_true, decide_eq_true_eq] at h
    omega
  rcases hcases with rfl | rfl | rfl | rfl | rfl | rfl | rfl | rfl | rfl | rfl | rfl <;> rfl

/-- What is read as a number starts like one. -/
theorem of_number {text : Str} (h : number text = .ok v) :
    ∃ c rest, text = c :: rest ∧ (c = 45 ∨ isDigit c) := by
  cases text with
  | nil => cases h
  | cons c rest =>
      refine ⟨c, rest, rfl, ?_⟩
      by_cases hc : c = 45
      · exact .inl hc
      · right
        by_contra hd
        have hint : ((c :: rest).takeWhile isDigit).isEmpty = true := by
          rw [List.takeWhile_cons_of_neg hd]
          rfl
        unfold number at h
        split at h
        rename_i heq
        split at heq
        · rename_i h45
          cases h45
          exact hc rfl
        · cases heq
          simp [hint] at h

/-- The characters of a numeral. -/
theorem feeds_number {canClose : Bool} {text : Str} (hnum : ∀ c ∈ text, isNumeral c)
    (h : number text = .ok v) :
    ∃ t, Feeds D ⟨stack, .value canClose⟩ text t ∧ Ends stack v t := by
  have rest : ∀ (text : Str) (rev : Str), (∀ c ∈ text, isNumeral c) →
      Feeds D ⟨stack, .number rev⟩ text ⟨stack, .number (text.reverse ++ rev)⟩ := by
    intro text
    induction text with
    | nil => exact fun rev _ ↦ .nil _
    | cons c text ih =>
        intro rev hn
        rw [List.reverse_cons, List.append_assoc]
        exact .cons (if_pos (hn c List.mem_cons_self))
          (ih (c :: rev) fun d hd ↦ hn d (List.mem_cons_of_mem c hd))
  obtain ⟨c, text, rfl, hc⟩ := of_number h
  refine ⟨_, .cons (startValue_numeral hc)
    (rest text [c] fun d hd ↦ hnum d (List.mem_cons_of_mem c hd)), .numeral ?_⟩
  rw [List.reverse_append, List.reverse_reverse]
  exact h

/-- Digits give the number that they were made from. -/
theorem ofText_digitText (n : ℕ) : ofText (digitText n) = n := by
  have hfold := Nat.ofDigitChars_ten_toDigits (n := n)
  unfold Nat.ofDigitChars at hfold
  unfold ofText ofDigits digitText
  rw [List.map_map, List.foldl_map]
  exact hfold

/-- Only zero is written with a zero in front. -/
theorem head?_digitText {n : ℕ} (h : (digitText n).head? = some 48) : n = 0 := by
  have hdigit : ∀ n < 10, n.digitChar.toNat = 48 → n = 0 := by decide
  induction n using Nat.strongRecOn with
  | ind n ih =>
      unfold digitText at h
      rw [Nat.toDigits_eq_if (by decide)] at h
      split at h
      · rename_i hlt
        exact hdigit n hlt (by simpa using h)
      · have hhead : (digitText (n / 10)).head? = some 48 := by
          rw [List.map_append, ← digitText] at h
          rwa [List.head?_append_of_ne_nil _ (digitText_ne_nil (n / 10))] at h
        have hzero := ih (n / 10) (by omega) hhead
        omega

/-- The sign in front of a numeral. -/
def signText (neg : Bool) : Str := if neg then [45] else []

/-- The digits at the front of a text. -/
theorem takeWhile_digits {ds : Str} (hds : ∀ c ∈ ds, isDigit c) (rest : Str)
    (hrest : rest.head?.all fun c ↦ !isDigit c) :
    (ds ++ rest).takeWhile isDigit = ds ∧ (ds ++ rest).dropWhile isDigit = rest := by
  rw [List.takeWhile_append_of_pos hds, List.dropWhile_append_of_pos hds]
  cases rest with
  | nil => simp
  | cons c rest =>
      have hc : isDigit c = false := by simpa using hrest
      simp [hc]

/-- The sign of a numeral is taken off. -/
theorem sign_taken (neg : Bool) {ds : Str} (rest : Str) (hds : ∀ c ∈ ds, isDigit c) (hne : ds ≠ []) :
    ∃ c t, signText neg ++ (ds ++ rest) = c :: t ∧
      (neg = true ∧ c = 45 ∧ t = ds ++ rest ∨ neg = false ∧ c ≠ 45 ∧ c :: t = ds ++ rest) := by
  cases neg with
  | true => exact ⟨45, ds ++ rest, rfl, .inl ⟨rfl, rfl, rfl⟩⟩
  | false =>
      obtain ⟨c, t, rfl⟩ := List.exists_cons_of_ne_nil hne
      refine ⟨c, t ++ rest, rfl, .inr ⟨rfl, ?_, rfl⟩⟩
      rintro rfl
      exact absurd (hds 45 List.mem_cons_self) (by decide)

/-- No zero stands before another digit. -/
theorem no_leading_zero {ds : Str} (hne : ds ≠ []) (hlead : ds.head? = some 48 → ds.length ≤ 1) :
    (ds.isEmpty || (decide (ds.head? = some 48) && decide (1 < ds.length))) = false := by
  have hempty : ds.isEmpty = false := by simpa using hne
  by_cases h : ds.head? = some 48
  · simp [hempty, hlead h]
  · simp [hempty, h]

/-- Digits are an integer. -/
theorem number_digits (neg : Bool) {ds : Str} (hds : ∀ c ∈ ds, isDigit c) (hne : ds ≠ [])
    (hlead : ds.head? = some 48 → ds.length ≤ 1) (hlen : ds.length ≤ maxStrDigits) :
    number (signText neg ++ ds) = .ok (.int (if neg then -(ofText ds : ℤ) else ofText ds)) := by
  obtain ⟨htake, hdrop⟩ := takeWhile_digits hds [] rfl
  have hzero := no_leading_zero hne hlead
  have hlen' : ¬maxStrDigits < ds.length := not_lt.mpr hlen
  obtain ⟨c, t, htext, ⟨rfl, rfl, rfl⟩ | ⟨rfl, hc, ht⟩⟩ := sign_taken neg [] hds hne
  all_goals
    rw [List.append_nil] at htext htake hdrop
    rw [htext]
    unfold number
  · simp [htake, hdrop, hzero, hlen']
  · rw [List.append_nil] at ht
    split
    rename_i heq
    split at heq
    · rename_i h45
      cases h45
      exact absurd rfl hc
    · cases heq
      simp [ht, htake, hdrop, hzero, hlen']

/-- Digits, a point and digits are a double. -/
theorem number_point (neg : Bool) {ds frac : Str} (hds : ∀ c ∈ ds, isDigit c) (hne : ds ≠ [])
    (hlead : ds.head? = some 48 → ds.length ≤ 1) (hfrac : ∀ c ∈ frac, isDigit c)
    (hne' : frac ≠ []) :
    number (signText neg ++ (ds ++ 46 :: frac)) = .ok (.float (decimal neg ds frac 0)) := by
  obtain ⟨htake, hdrop⟩ := takeWhile_digits hds (46 :: frac) rfl
  obtain ⟨htake', hdrop'⟩ := takeWhile_digits hfrac [] rfl
  rw [List.append_nil] at htake' hdrop'
  have hempty' : frac.isEmpty = false := by simpa using hne'
  have hzero := no_leading_zero hne hlead
  obtain ⟨c, t, htext, ⟨rfl, rfl, rfl⟩ | ⟨rfl, hc, ht⟩⟩ := sign_taken neg (46 :: frac) hds hne
  · rw [htext]
    unfold number
    simp [htake, hdrop, hzero, htake', hdrop', hempty', exponent?]
  · rw [htext]
    unfold number
    split
    rename_i heq
    split at heq
    · rename_i h45
      cases h45
      exact absurd rfl hc
    · cases heq
      simp [ht, htake, hdrop, hzero, htake', hdrop', hempty', exponent?]

/-- An integer is read as itself. -/
theorem number_intText {n : ℤ} (h : (Nat.toDigits 10 n.natAbs).length ≤ maxStrDigits) :
    number (intText n) = .ok (.int n) := by
  have hlead : (digitText n.natAbs).head? = some 48 → (digitText n.natAbs).length ≤ 1 := by
    intro hhead
    rw [head?_digitText hhead]
    decide
  have htext : intText n = signText (decide (n < 0)) ++ digitText n.natAbs := by
    simp [intText, signText, digitText]
  have hvalue : (if decide (n < 0) then -((n.natAbs : ℕ) : ℤ) else (n.natAbs : ℕ)) = n := by
    by_cases hn : n < 0
    · simp only [hn, decide_true, if_true]
      omega
    · simp only [hn, decide_false, Bool.false_eq_true, if_false]
      omega
  rw [htext, number_digits _ (fun c ↦ isDigit_of_mem_digitText) (digitText_ne_nil _) hlead
    (by simpa [digitText] using h), ofText_digitText, hvalue]

/-! ## Values -/

section Values

variable {F : FloatRepr} {st : Style} {level : ℕ}

theorem isBlank_of_mem_newline (h : c ∈ st.newline level) : isBlank c := by
  unfold Style.newline at h
  split at h
  · cases h
  · rcases List.mem_cons.mp h with rfl | h
    · rfl
    · rw [List.eq_of_mem_replicate h]
      rfl

theorem isBlank_of_mem_space (h : c ∈ st.space) : isBlank c := by
  unfold Style.space at h
  split at h
  · cases h
  · rw [List.mem_singleton.mp h]
    rfl

theorem isBlank_of_mem_gap (h : c ∈ st.gap level) : isBlank c := by
  unfold Style.gap at h
  split at h
  · exact isBlank_of_mem_space h
  · exact isBlank_of_mem_newline h

/-- Blanks before a value. -/
theorem feeds_blanks_value {canClose : Bool} (h : ∀ c ∈ text, isBlank c) :
    Feeds D ⟨stack, .value canClose⟩ text ⟨stack, .value canClose⟩ :=
  .blanks (fun _ hc ↦ step_blank_value hc) h

/-- Blanks before a key. -/
theorem feeds_blanks_key {kvs : Fields} {canClose : Bool} (h : ∀ c ∈ text, isBlank c) :
    Feeds D ⟨stack, .key kvs canClose⟩ text ⟨stack, .key kvs canClose⟩ :=
  .blanks (fun _ hc ↦ step_blank_key hc) h

/-- A key, its colon, and what follows the colon. -/
theorem feeds_item {kvs : Fields} {canClose : Bool} {k : Str} (hk : StrWritable st.ascii k) :
    Feeds D ⟨stack, .key kvs canClose⟩ (dumpsStr st.ascii k ++ 58 :: st.space)
      ⟨.object kvs (joinPairs none k) :: stack, .value false⟩ :=
  (feeds_key hk).append (.cons rfl (feeds_blanks_value fun _ ↦ isBlank_of_mem_space))

/-- A double. -/
theorem feeds_float {canClose : Bool} {x : Double} (h : x.Rounded) :
    ∃ t, Feeds D ⟨stack, .value canClose⟩ (dumpsFloat F x) t ∧ Ends stack (.float x) t := by
  cases x with
  | nan => exact ⟨_, rfl, .word⟩
  | inf neg => cases neg <;> exact ⟨_, rfl, .word⟩
  | finite q => exact feeds_number (F.numeral q) (F.reads q h)

/-- An array starts. -/
theorem step_bracket {canClose : Bool} (h : stack.length < D) :
    Json.step D ⟨stack, .value canClose⟩ 91 = .ok ⟨.array [] :: stack, .value true⟩ :=
  if_neg (not_le.mpr h)

/-- An object starts. -/
theorem step_brace {canClose : Bool} (h : stack.length < D) :
    Json.step D ⟨stack, .value canClose⟩ 123 = .ok ⟨stack, .key [] true⟩ := if_neg (not_le.mpr h)

mutual

/-- The text of a value is read as the value. -/
theorem feeds_dumpsAt : ∀ (v : Value) (level : ℕ) (stack : List Frame) (canClose : Bool),
    Writable st.ascii v → stack.length + v.depth ≤ D →
    ∃ t, Feeds D ⟨stack, .value canClose⟩ (dumpsAt F st level v) t ∧ Ends stack v.reread t
  | .none, _, _, _, _, _ => ⟨_, rfl, .word⟩
  | .bool true, _, _, _, _, _ => ⟨_, rfl, .word⟩
  | .bool false, _, _, _, _, _ => ⟨_, rfl, .word⟩
  | .int n, _, _, _, hw, _ => feeds_number (fun _ ↦ isNumeral_of_mem_intText) (number_intText hw)
  | .float x, _, _, _, hw, _ => feeds_float hw
  | .str s, _, _, _, hw, _ => ⟨_, feeds_str hw, .after⟩
  | .list [], _, stack, canClose, _, hd =>
      ⟨_, .cons (step_bracket (by simp only [Value.depth] at hd; omega)) (.single rfl), .after⟩
  | .list (x :: xs), level, stack, canClose, hw, hd => by
      simp only [Value.depth, Value.depthList] at hd
      obtain ⟨t, ht, hends⟩ := feeds_dumpsAt x (level + 1) (.array [] :: stack) true hw.1
        (by simp only [List.length_cons]; omega)
      obtain ⟨rev, y, u, hu, hends', hrev⟩ :=
        feeds_dumpsRest xs (level + 1) stack [] x.reread t hends hw.2 (by omega)
      obtain ⟨w, hwu, hends''⟩ := hends'.blanks fun _ ↦ isBlank_of_mem_newline
      have hclose : Json.step D w 93 = .ok ⟨stack, .after (.list (y :: rev).reverse)⟩ :=
        hends''.step (by decide) (by decide)
      have hopen : Feeds D ⟨stack, .value canClose⟩ (91 :: st.newline (level + 1))
          ⟨.array [] :: stack, .value true⟩ :=
        .cons (step_bracket (by omega)) (feeds_blanks_value fun _ ↦ isBlank_of_mem_newline)
      rw [hrev] at hclose
      exact ⟨_, (((hopen.append ht).append hu).append hwu).append (.single hclose), .after⟩
  | .dict [], _, stack, canClose, _, hd =>
      ⟨_, .cons (step_brace (by simp only [Value.depth] at hd; omega)) (.single rfl), .after⟩
  | .dict ((k, v) :: kvs), level, stack, canClose, hw, hd => by
      simp only [Value.depth, Value.depthFields] at hd
      obtain ⟨t, ht, hends⟩ := feeds_dumpsAt v (level + 1)
        (.object [] (joinPairs none k) :: stack) false hw.2.1
        (by simp only [List.length_cons]; omega)
      obtain ⟨d, j, y, u, hu, hends', hset⟩ :=
        feeds_dumpsItems kvs (level + 1) stack [] _ _ t hends hw.2.2 (by omega)
      obtain ⟨w, hwu, hends''⟩ := hends'.blanks fun _ ↦ isBlank_of_mem_newline
      have hclose : Json.step D w 125 = .ok ⟨stack, .after (.dict (Dict.set d j y))⟩ :=
        hends''.step (by decide) (by decide)
      have hopen : Feeds D ⟨stack, .value canClose⟩ (123 :: st.newline (level + 1))
          ⟨stack, .key [] true⟩ :=
        .cons (step_brace (by omega)) (feeds_blanks_key fun _ ↦ isBlank_of_mem_newline)
      have hitem := hopen.append (feeds_item hw.1)
      rw [← List.append_assoc] at hitem
      rw [hset] at hclose
      exact ⟨_, (((hitem.append ht).append hu).append hwu).append (.single hclose), .after⟩

/-- The elements after the first. -/
theorem feeds_dumpsRest : ∀ (xs : List Value) (level : ℕ) (stack : List Frame) (rev : List Value)
    (x : Value) (s : State), Ends (.array rev :: stack) x s → WritableList st.ascii xs →
    stack.length + (Value.depthList xs + 1) ≤ D →
    ∃ rev' y t, Feeds D s (dumpsRest F st level xs) t ∧ Ends (.array rev' :: stack) y t ∧
      (y :: rev').reverse = (x :: rev).reverse ++ Value.rereadList xs
  | [], _, _, rev, x, s, hs, _, _ => ⟨rev, x, s, .nil s, hs, by simp [Value.rereadList]⟩
  | y :: ys, level, stack, rev, x, s, hs, hw, hd => by
      have hcomma : Json.step D s 44 = .ok ⟨.array (x :: rev) :: stack, .value false⟩ :=
        hs.step (by decide) (by decide)
      simp only [Value.depthList] at hd
      obtain ⟨t, ht, hends⟩ := feeds_dumpsAt y level (.array (x :: rev) :: stack) false hw.1
        (by simp only [List.length_cons]; omega)
      obtain ⟨rev', z, u, hu, hends', hrev⟩ :=
        feeds_dumpsRest ys level stack (x :: rev) y.reread t hends hw.2 (by omega)
      refine ⟨rev', z, u, ?_, hends', ?_⟩
      · exact ((Feeds.cons hcomma (feeds_blanks_value fun _ ↦ isBlank_of_mem_gap)).append ht).append hu
      · rw [hrev, Value.rereadList]
        simp

/-- The items after the first. -/
theorem feeds_dumpsItems : ∀ (kvs : List (Str × Value)) (level : ℕ) (stack : List Frame)
    (d : Fields) (k : Str) (v : Value) (s : State), Ends (.object d k :: stack) v s →
    WritableFields st.ascii kvs → stack.length + (Value.depthFields kvs + 1) ≤ D →
    ∃ d' k' v' t, Feeds D s (dumpsItems F st level kvs) t ∧ Ends (.object d' k' :: stack) v' t ∧
      Dict.set d' k' v' = Value.rereadFields (Dict.set d k v) kvs
  | [], _, _, d, k, v, s, hs, _, _ => ⟨d, k, v, s, .nil s, hs, rfl⟩
  | (j, w) :: kvs, level, stack, d, k, v, s, hs, hw, hd => by
      have hcomma : Json.step D s 44 = .ok ⟨stack, .key (Dict.set d k v) false⟩ :=
        hs.step (by decide) (by decide)
      simp only [Value.depthFields] at hd
      obtain ⟨t, ht, hends⟩ := feeds_dumpsAt w level
        (.object (Dict.set d k v) (joinPairs none j) :: stack) false hw.2.1
        (by simp only [List.length_cons]; omega)
      obtain ⟨d', k', v', u, hu, hends', hset⟩ :=
        feeds_dumpsItems kvs level stack _ _ _ t hends hw.2.2 (by omega)
      refine ⟨d', k', v', u, ?_, hends', hset⟩
      have hgap : Feeds D s (44 :: st.gap level) ⟨stack, .key (Dict.set d k v) false⟩ :=
        .cons hcomma (feeds_blanks_key fun _ ↦ isBlank_of_mem_gap)
      have hitem := hgap.append (feeds_item hw.1)
      rw [← List.append_assoc] at hitem
      exact (hitem.append ht).append hu

end

/-! ## A text -/

variable {w : Value}

/-- A value that is written within the depth the interpreter reads is read back. -/
theorem loadsStr_dumps (F : FloatRepr) (st : Style) (hw : Writable st.ascii w) (hd : w.depth ≤ D) :
    loadsStr D (dumps F st w) = .ok w.reread := by
  obtain ⟨t, ht, hends⟩ := feeds_dumpsAt w 0 [] false hw (by simpa using hd)
  have hfeeds : (dumps F st w).foldlM (Json.step D) ⟨[], .value false⟩ = .ok t := ht
  rw [loadsStr, hfeeds]
  exact hends.finish

/-- The text of a value starts with a character of ASCII. -/
theorem dumps_eq_cons (F : FloatRepr) (st : Style) {w : Value} (hw : Writable st.ascii w) :
    ∃ c rest, dumps F st w = c :: rest ∧ c < 0x80 := by
  cases w with
  | none => exact ⟨_, _, rfl, by decide⟩
  | bool b => cases b <;> exact ⟨_, _, rfl, by decide⟩
  | int n =>
      obtain ⟨c, rest, htext, hc⟩ := of_number (number_intText hw)
      refine ⟨c, rest, htext, ?_⟩
      simp only [isDigit, Bool.and_eq_true, decide_eq_true_eq] at hc
      omega
  | float x =>
      cases x with
      | nan => exact ⟨_, _, rfl, by decide⟩
      | inf neg => cases neg <;> exact ⟨_, _, rfl, by decide⟩
      | finite q =>
          obtain ⟨c, rest, htext, hc⟩ := of_number (F.reads q hw)
          refine ⟨c, rest, htext, ?_⟩
          simp only [isDigit, Bool.and_eq_true, decide_eq_true_eq] at hc
          omega
  | str s => exact ⟨_, _, rfl, by decide⟩
  | list xs => cases xs <;> exact ⟨_, _, rfl, by decide⟩
  | dict kvs => cases kvs <;> exact ⟨_, _, rfl, by decide⟩

/-- The text of a value can be encoded, and the bytes are read as the value. -/
theorem loads_dumps (F : FloatRepr) (st : Style) (hw : Writable st.ascii w) (hd : w.depth ≤ D) :
    encodeUtf8 (dumps F st w) = .ok (utf8Bytes (dumps F st w)) ∧
      loads D (utf8Bytes (dumps F st w)) = .ok w.reread := by
  have hprints : ∀ c ∈ dumps F st w, st.Prints c := fun c ↦ prints_of_mem_dumps hw
  have henc : encodable (dumps F st w) := by
    refine List.all_eq_true.mpr fun c hc ↦ ?_
    simpa using (hprints c hc).not_surrogate
  refine ⟨if_pos henc, ?_⟩
  obtain ⟨c, rest, htext, hc⟩ := dumps_eq_cons F st hw
  have hdecode : decode (utf8Bytes (dumps F st w)) = some (dumps F st w) := by
    rw [htext] at hprints ⊢
    refine decode_utf8Bytes (fun d hd ↦ (hprints d hd).codePoint) hc fun d hd ↦ ?_
    rcases (hprints d hd).not_control with h | h
    · omega
    · omega
  rw [loads, hdecode]
  exact loadsStr_dumps F st hw hd

end Values

end Py.Json
