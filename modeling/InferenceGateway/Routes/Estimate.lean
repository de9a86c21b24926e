import InferenceGateway.Python.Words
import InferenceGateway.Routes.Malformed

/-!
# How long a prompt is estimated to be

`_estimate_prompt_tokens` counts the words of `str(content)`, and so is to err low: a text has fewer
words than tokens.  The content of a message is a text, `None`, or a list of typed parts; of what is
no text it counts the words of Python's notation.  What has to be compared with these is the words
of the texts in the parts (`errsLow_iff`).
-/

namespace InferenceGateway

open Py

/-! ## What the caller has written -/

/-- `m.get("content", "")`. -/
def contentOf : Value → Value
  | .dict fields => Fields.getD fields (str "content") (.str [])
  | _ => .str []

/-- The text of a typed part: a part of one of these types has it under the name of the type. -/
def partText : Value → Str
  | .dict fields => match Fields.get fields (str "type") with
    | .str kind =>
      if kind = str "text" ∨ kind = str "refusal" then (Fields.get fields kind).str?.getD [] else []
    | _ => []
  | _ => []

/-- The words of the texts in the parts of a content. -/
def partWords : Value → ℕ
  | .list parts => (parts.map fun part ↦ (words (partText part)).length).sum
  | _ => 0

/-- The words of the texts in a content. -/
def textWords : Value → ℕ
  | .str s => (words s).length
  | content => partWords content

/-- The words of Python's notation of a content that is no text: the runs of blanks in its strings,
the commas and the colons, and one. -/
def notationWords : Value → ℕ
  | .str _ => 0
  | content => 1 + content.blanks

/-- The sum over the contents of the messages. -/
def overContents (f : Value → ℕ) (messages : List Value) : ℕ :=
  (messages.map fun m ↦ f (contentOf m)).sum

/-- The estimate errs low: it is at most the number of words the caller has written, and no request
with at most as many words as are allowed is rejected as too long. -/
structure ErrsLow (rt : Runtime) (messages : List Value) : Prop where
  estimate : ∃ n, estimatePromptTokens rt messages = .ok n ∧ n ≤ overContents textWords messages
  accepted : ∀ (σ : Settings) (p : Principal) (q : QuotaTracker) (raw : Bytes) (body : Fields)
    (model : Value), Json.loads rt.loadsDepth raw = .ok (.dict body) →
      Fields.get body (str "messages") = .list messages →
      (overContents textWords messages : ℤ) ≤ σ.maxPromptTokens →
      validate rt σ p q raw ≠ .error (.reject 400 "prompt_too_long" model)

variable {rt : Runtime} {messages : List Value} {n : ℕ}

/-! ## The estimate -/

/-- The words of `str(content)`. -/
theorem length_words_text (hP : rt.printer.PrintsBlank) {content : Value} {d : ℕ} {s : Str}
    (h : rt.printer.text d content = .ok s) :
    (words s).length + partWords content = textWords content + notationWords content := by
  cases content with
  | str t =>
      cases h
      rfl
  | _ =>
      simp only [Printer.text] at h
      split at h
      · cases h
      · cases h
        rw [Printer.length_words_repr hP]
        exact Nat.add_comm _ _

/-- What the estimate counts too much is the notation, and what it misses is the parts. -/
theorem estimate_balance (hP : rt.printer.PrintsBlank)
    (h : estimatePromptTokens rt messages = .ok n) :
    n + overContents partWords messages =
      overContents textWords messages + overContents notationWords messages := by
  induction messages generalizing n with
  | nil =>
      cases h
      rfl
  | cons m ms ih =>
      obtain ⟨content, hcontent, h⟩ := of_bind_eq_ok h
      obtain ⟨text, htext, h⟩ := of_bind_eq_ok h
      obtain ⟨rest, hrest, h⟩ := of_bind_eq_ok h
      cases h
      obtain rfl : contentOf m = content := by
        cases m with
        | dict fields => exact Except.ok.inj hcontent
        | _ => cases hcontent
      have hhead := length_words_text hP htext
      have htail := ih hrest
      simp only [overContents, List.map_cons, List.sum_cons] at htail ⊢
      omega

/-! ## The rejection -/

/-- Only the check of the messages finds a prompt too long, and by the estimate. -/
theorem of_prompt_too_long {σ : Settings} {p : Principal} {q : QuotaTracker} {raw : Bytes}
    {statusCode : ℕ} {reason : String} {model : Value}
    (h : validate rt σ p q raw = .error (.reject statusCode reason model))
    (hreason : reason = "prompt_too_long") :
    ∃ body m ms n, Json.loads rt.loadsDepth raw = .ok (.dict body) ∧
      Fields.get body (str "messages") = .list (m :: ms) ∧
      estimatePromptTokens rt (m :: ms) = .ok n ∧ σ.maxPromptTokens < n := by
  cases refused_of_validate h with
  | promptTooLong hbody _ hmessages hestimate hlong =>
      exact ⟨_, _, _, _, (parseBody_ok_iff.mp hbody).2, hmessages, hestimate, hlong⟩
  | _ => exact absurd hreason (by decide)

/-- The estimate errs low exactly if `str` can walk the contents, and the notation of those that are
no texts has no more words than the texts in their parts. -/
theorem errsLow_iff (hP : rt.printer.PrintsBlank) (messages : List Value) : ErrsLow rt messages ↔
    (∀ m ∈ messages, Readable rt m) ∧
      overContents notationWords messages ≤ overContents partWords messages := by
  constructor
  · intro h
    obtain ⟨n, hn, hle⟩ := h.estimate
    have hbalance := estimate_balance hP hn
    exact ⟨estimatePromptTokens_ok_iff.mp ⟨n, hn⟩, by omega⟩
  · rintro ⟨hread, hle⟩
    obtain ⟨n, hn⟩ := estimatePromptTokens_ok_iff.mpr hread
    have hbalance := estimate_balance hP hn
    have hlow : n ≤ overContents textWords messages := by omega
    refine ⟨⟨n, hn, hlow⟩, ?_⟩
    intro σ p q raw body model hbody hmessages hallowed hreject
    obtain ⟨body', m, ms, n', hbody', hmessages', hn', hlong⟩ := of_prompt_too_long hreject rfl
    cases hbody.symm.trans hbody'
    cases hmessages.symm.trans hmessages'
    cases hn.symm.trans hn'
    omega

/-! ## Prompts whose words are separated by blanks -/

/-- A part has no text, or it has the text under some key. -/
theorem partText_cases (part : Value) : partText part = [] ∨
    ∃ fields kind, part = .dict fields ∧ fields.lookup kind = some (.str (partText part)) := by
  cases part with
  | dict fields =>
      unfold partText
      dsimp only
      split
      · rename_i kind hkind
        split
        · unfold Fields.get Fields.getD
          cases hlookup : fields.lookup kind with
          | none => exact .inl rfl
          | some v =>
              cases v with
              | str t => exact .inr ⟨fields, kind, rfl, hlookup⟩
              | _ => exact .inl rfl
        · exact .inl rfl
      · exact .inl rfl
  | _ => exact .inl rfl

/-- A part of plain text adds at least as many words to the notation as its text has. -/
theorem length_words_partText_le {part : Value} (h : BlankSeparated (partText part)) :
    (words (partText part)).length ≤ part.blanks := by
  rcases partText_cases part with hnil | ⟨fields, kind, rfl, hlookup⟩
  · rw [hnil]
    exact Nat.zero_le _
  · have hwords := h.length_words_le
    have hblanks : 1 + blankRuns false (partText (.dict fields)) ≤ Value.blanksFields fields :=
      Value.blanks_of_lookup hlookup
    rw [Value.blanks]
    omega

/-- Every text of the content is plain. -/
def PlainParts (content : Value) : Prop :=
  ∀ parts, content = .list parts → ∀ part ∈ parts, BlankSeparated (partText part)

/-- The notation of a content of plain texts has more words than they have. -/
theorem partWords_lt {content : Value} (h : PlainParts content) :
    (∃ s, content = .str s) ∨ partWords content < notationWords content := by
  cases content with
  | str s => exact .inl ⟨s, rfl⟩
  | list parts =>
      refine .inr ?_
      have hsum : ∀ parts : List Value, (∀ part ∈ parts, BlankSeparated (partText part)) →
          (parts.map fun part ↦ (words (partText part)).length).sum ≤ Value.blanksList parts := by
        intro parts
        induction parts with
        | nil => exact fun _ ↦ le_rfl
        | cons part parts ih =>
            intro hplain
            rw [List.map_cons, List.sum_cons, Value.blanksList]
            exact Nat.add_le_add (length_words_partText_le (hplain part List.mem_cons_self))
              (ih fun part' hp ↦ hplain part' (List.mem_cons_of_mem part hp))
      have hle := hsum parts (h parts rfl)
      rw [partWords, notationWords, Value.blanks]
      · omega
      · exact fun s hs ↦ by cases hs
  | _ => exact .inr (Nat.lt_of_lt_of_le Nat.zero_lt_one (Nat.le_add_right 1 _))

/-- For messages of plain text the estimate errs low exactly if every content is a text. -/
theorem errsLow_iff_of_plain (hP : rt.printer.PrintsBlank)
    (hplain : ∀ m ∈ messages, PlainParts (contentOf m)) : ErrsLow rt messages ↔
      ∀ m ∈ messages, Readable rt m ∧ ∃ s, contentOf m = .str s := by
  have hsum : overContents partWords messages ≤ overContents notationWords messages ∧
      (overContents notationWords messages ≤ overContents partWords messages ↔
        ∀ m ∈ messages, ∃ s, contentOf m = .str s) := by
    clear hP
    induction messages with
    | nil => exact ⟨le_rfl, iff_of_true le_rfl fun m hm ↦ by cases hm⟩
    | cons m ms ih =>
        rw [List.forall_mem_cons] at hplain ⊢
        obtain ⟨hle, hiff⟩ := ih hplain.2
        simp only [overContents, List.map_cons, List.sum_cons] at hle hiff ⊢
        rw [← hiff]
        rcases partWords_lt hplain.1 with ⟨s, hs⟩ | hlt
        · have hzero : partWords (contentOf m) = 0 ∧ notationWords (contentOf m) = 0 := by
            rw [hs]
            exact ⟨rfl, rfl⟩
          have hstr : ∃ s, contentOf m = .str s := ⟨s, hs⟩
          simp only [hzero, hstr, Nat.zero_add, true_and]
          exact ⟨hle, trivial⟩
        · have hnot : ¬∃ s, contentOf m = .str s := by
            rintro ⟨s, hs⟩
            rw [hs] at hlt
            exact absurd hlt (lt_irrefl 0)
          refine ⟨by omega, ?_⟩
          rw [iff_false_intro (not_and_of_not_left _ hnot), iff_false]
          omega
  rw [errsLow_iff hP, hsum.2, ← forall₂_and]

/-! ## A text, nothing, and a part -/

/-- A message with this content. -/
def sampleMessage (content : Value) : Value :=
  .dict [(str "role", .str (str "user")), (str "content", content)]

/-- A list of one part, whose text is five lines: four words in Python's notation. -/
def fiveLines : Value :=
  .list [.dict [(str "type", .str (str "text")), (str "text", .str (str "a\nb\nc\nd\ne"))]]

/-- The estimate of a text is the number of its words, and that of the five lines is less. -/
theorem errsLow_iff_text :
    ErrsLow .sample [sampleMessage (.str (str "hello there")), sampleMessage fiveLines] := by
  have hP : Runtime.sample.printer.isPrintable 32 = true := rfl
  refine (errsLow_iff hP _).mpr ⟨?_, by decide +kernel⟩
  intro m hm
  rcases List.mem_pair.mp hm with rfl | rfl
  · exact ⟨_, rfl, Nat.zero_le _⟩
  · exact ⟨_, rfl, by decide +kernel⟩

/-- For `null` the estimate is one, and for a part with one word it is four. -/
theorem not_errsLow_null_parts :
    estimatePromptTokens .sample [sampleMessage .none] = .ok 1 ∧
      overContents textWords [sampleMessage .none] = 0 ∧
      estimatePromptTokens .sample [sampleMessage (.list [.dict [(str "type", .str (str "text")),
        (str "text", .str (str "hi"))]])] = .ok 4 ∧
      overContents textWords [sampleMessage (.list [.dict [(str "type", .str (str "text")),
        (str "text", .str (str "hi"))]])] = 1 := by
  decide +kernel

end InferenceGateway
