import InferenceGateway.Python.Blocks
import InferenceGateway.Stub.Replies

/-!
# The probe for reasoning blocks

`scripts/b3_probe.py`: `strip_think`, and what a row of the probe says about the text of an answer.  A
reasoning block that is cut off leaves nothing after stripping, which is the failure the probe looks
for; with `--stub-think` the stub writes such blocks.
-/

namespace InferenceGateway.Probe

open Py Stub

/-- `<think>`. -/
def openTag : Str := str "<think>"

/-- `</think>`. -/
def closeTag : Str := str "</think>"

/-- `strip_think`. -/
def stripThink (text : Str) : Str :=
  strip isSpace (before openTag (dropBlocks openTag closeTag text))

/-- `tag in raw`. -/
def contains (tag raw : Str) : Bool := (cut? tag raw).isSome

/-- What a row says about the text of an answer. -/
structure Row where
  hasThinkOpen : Bool
  hasThinkClose : Bool
  thinkUnterminated : Bool
  rawChars : ℕ
  strippedChars : ℕ
  emptyAfterStrip : Bool
  rawHead : Str
  strippedHead : Str

/-- The row of an answer. -/
def row (raw : Str) : Row where
  hasThinkOpen := contains openTag raw
  hasThinkClose := contains closeTag raw
  thinkUnterminated := contains openTag raw && !contains closeTag raw
  rawChars := raw.length
  strippedChars := (stripThink raw).length
  emptyAfterStrip := !raw.isEmpty && (stripThink raw).isEmpty
  rawHead := raw.take 240
  strippedHead := (stripThink raw).take 240

theorem row_thinkUnterminated (raw : Str) :
    (row raw).thinkUnterminated = (contains openTag raw && !contains closeTag raw) := rfl

theorem row_emptyAfterStrip (raw : Str) :
    (row raw).emptyAfterStrip = (!raw.isEmpty && (stripThink raw).isEmpty) := rfl

/-! ## Any text -/

theorem openTag_ne_nil : openTag ≠ [] := by decide

theorem closeTag_ne_nil : closeTag ≠ [] := by decide

variable {s t text full : Str} {n : ℕ}

/-- No opening tag is left. -/
theorem cut?_stripThink (s : Str) : cut? openTag (stripThink s) = none :=
  cut?_of_infix openTag_ne_nil (cut?_before openTag_ne_nil _) (strip_isInfix isSpace _)

/-- Without an opening tag only the blanks at the ends go. -/
theorem stripThink_of_none (h : cut? openTag s = none) : stripThink s = strip isSpace s := by
  rw [stripThink, dropBlocks_of_none h, before_of_none h]

/-- Nothing is left of a block that is not closed, nor of what follows. -/
theorem stripThink_of_unclosed (ht : cut? closeTag t = none) : stripThink (openTag ++ t) = [] := by
  have hcut : cut? openTag (openTag ++ t) = some ([], t) := cut?_of_not_mem List.not_mem_nil _ t
  rw [stripThink, dropBlocks_of_unclosed hcut ht, before_of_some hcut]
  rfl

/-- A block that is closed is taken out. -/
theorem stripThink_of_closed (ht : 60 ∉ t) (hs : 60 ∉ s) :
    stripThink (openTag ++ (t ++ closeTag ++ s)) = strip isSpace s := by
  have hcut : cut? openTag (openTag ++ (t ++ closeTag ++ s)) = some ([], t ++ closeTag ++ s) :=
    cut?_of_not_mem List.not_mem_nil _ _
  have hclose : cut? closeTag (t ++ closeTag ++ s) = some (t, s) := cut?_of_not_mem ht _ s
  have hnone : cut? openTag s = none := cut?_eq_none_of_not_mem hs
  rw [stripThink, dropBlocks_of_closed closeTag_ne_nil hcut hclose, dropBlocks_of_none hnone,
    List.nil_append, before_of_none hnone]

/-- The closing tag does not begin in the opening tag. -/
theorem contains_closeTag (t : Str) : contains closeTag (openTag ++ t) = contains closeTag t := by
  have hpass {a : ℕ} {l : Str} (h : closeTag.isPrefixOf (a :: l) = false) :
      contains closeTag (a :: l) = contains closeTag l := by
    rw [contains, cut?, if_neg (Bool.not_eq_true _ ▸ h), Option.isSome_map, contains]
  change contains closeTag (60 :: 116 :: 104 :: 105 :: 110 :: 107 :: 62 :: t) = _
  rw [hpass rfl, hpass rfl, hpass rfl, hpass rfl, hpass rfl, hpass rfl, hpass rfl]

/-! ## The answers of the stub -/

variable {rt : Runtime} {F : FloatRepr} {sha256 : Bytes → Bytes} {body : Fields} {tokens : ℤ}

/-- An answer with a block in front of it. -/
structure Thinking (full inner plain : Str) : Prop where
  eq : full = openTag ++ (inner ++ closeTag ++ (str "\n\n" ++ plain))
  inner_closed : 60 ∉ inner
  no_tag : 60 ∉ plain
  ends : ∃ a s, plain = a :: (s ++ [46]) ∧ isSpace a = false

theorem isSpace_of_letter {a : ℕ} (h : 65 ≤ a) (h' : a ≤ 90) : isSpace a = false := by
  have hall : ∀ a < 91, 65 ≤ a → isSpace a = false := by decide
  exact hall a (Nat.lt_succ_of_le h') h

/-- With `--stub-think` the stub puts a block before the text it would give without. -/
theorem thinking_of_completionText (h : completionText rt F sha256 true body tokens = .ok full) :
    ∃ inner plain, completionText rt F sha256 false body tokens = .ok plain ∧
      Thinking full inner plain := by
  obtain ⟨seed, hseed, h⟩ := of_bind_eq_ok h
  obtain ⟨plain, hplain, h⟩ := of_bind_eq_ok h
  obtain ⟨seed', -, h⟩ := of_bind_eq_ok h
  obtain ⟨thought, hthought, h⟩ := of_bind_eq_ok h
  cases h
  have hfiller {t : Str} {seed : Str} {n : ℤ} (ht : deterministicText sha256 seed n = .ok t) :
      60 ∉ t := by
    obtain ⟨a, s, rfl, hlow, hhigh, hs⟩ := filler_of_deterministicText ht
    simp only [List.mem_cons, List.mem_append, List.not_mem_nil, or_false, not_or]
    refine ⟨by omega, fun h ↦ ?_, by decide⟩
    exact (by decide : ¬Filler 60) (hs 60 h)
  refine ⟨10 :: thought ++ [10], plain, ?_, ?_, ?_, hfiller hplain, ?_⟩
  · rw [completionText, hseed]
    change (deterministicText sha256 seed tokens >>= fun text ↦ .ok text) = _
    rw [hplain]
    rfl
  · have hopen : str "<think>\n" = openTag ++ [10] := by decide
    have hclose : str "\n</think>\n\n" = [10] ++ closeTag ++ str "\n\n" := by decide
    rw [hopen, hclose]
    simp only [List.append_assoc, List.cons_append, List.nil_append]
  · simp only [List.cons_append, List.mem_cons, List.mem_append, List.not_mem_nil, or_false, not_or]
    exact ⟨by decide, hfiller hthought, by decide⟩
  · obtain ⟨a, s, rfl, hlow, hhigh, -⟩ := filler_of_deterministicText hplain
    exact ⟨a, s, rfl, isSpace_of_letter hlow hhigh⟩

section Cut

variable {inner plain : Str}

/-- Cut off in the opening tag. -/
theorem Thinking.row_of_lt (h : Thinking full inner plain) (hn : n < 7) :
    (row (full.take n)).thinkUnterminated = false ∧ (row (full.take n)).emptyAfterStrip = false := by
  have htake : full.take n = openTag.take n := by
    rw [h.eq, List.take_append_of_le_length (Nat.le_of_lt hn)]
  have hcut : cut? openTag (full.take n) = none := by
    rw [htake]
    exact cut?_take_of_not_mem List.not_mem_nil hn
  constructor
  · rw [row_thinkUnterminated, contains, hcut]
    rfl
  · rw [row_emptyAfterStrip, stripThink_of_none hcut, htake]
    exact (by decide : ∀ n < 7,
      (!(openTag.take n).isEmpty && (strip isSpace (openTag.take n)).isEmpty) = false) n hn

/-- Cut off in the block. -/
theorem Thinking.row_in_block (h : Thinking full inner plain) (hn : n < inner.length + 8) :
    (row (full.take (7 + n))).thinkUnterminated = true ∧
      (row (full.take (7 + n))).emptyAfterStrip = true := by
  have htake : full.take (7 + n) = openTag ++ (inner ++ closeTag).take n := by
    rw [h.eq, show 7 = openTag.length from rfl, List.take_append, List.take_of_length_le (by omega),
      Nat.add_sub_cancel_left, List.take_append_of_le_length]
    rw [List.length_append]
    exact Nat.le_of_lt hn
  have hclose : cut? closeTag ((inner ++ closeTag).take n) = none :=
    cut?_take_of_not_mem h.inner_closed (by rw [List.length_append]; exact hn)
  have hopen : contains openTag (openTag ++ (inner ++ closeTag).take n) := by
    have hcut : cut? openTag (openTag ++ (inner ++ closeTag).take n) = some ([], _) :=
      cut?_of_not_mem List.not_mem_nil _ _
    rw [contains, hcut]
    rfl
  rw [htake]
  constructor
  · rw [row_thinkUnterminated, hopen, contains_closeTag, contains, hclose]
    rfl
  · rw [row_emptyAfterStrip, stripThink_of_unclosed hclose]
    rfl

/-- Cut off after the block. -/
theorem Thinking.row_after_block (h : Thinking full inner plain) (m : ℕ) :
    (row (full.take (inner.length + 15 + m))).thinkUnterminated = false ∧
      stripThink (full.take (inner.length + 15 + m)) =
        strip isSpace ((str "\n\n" ++ plain).take m) := by
  have htake : full.take (inner.length + 15 + m) =
      openTag ++ (inner ++ closeTag ++ (str "\n\n" ++ plain).take m) := by
    have hlen : inner.length + 15 = (openTag ++ (inner ++ closeTag)).length := by
      rw [List.length_append, List.length_append]
      exact Nat.add_comm (inner.length + 8) 7
    rw [h.eq, ← List.append_assoc, hlen, List.take_length_add_append, List.append_assoc]
  have hrest : 60 ∉ (str "\n\n" ++ plain).take m := by
    intro hmem
    rcases List.mem_append.mp (List.mem_of_mem_take hmem) with hc | hc
    · exact absurd hc (by decide)
    · exact h.no_tag hc
  rw [htake]
  constructor
  · have hcut : cut? closeTag (inner ++ closeTag ++ (str "\n\n" ++ plain).take m) = some (inner, _) :=
      cut?_of_not_mem h.inner_closed _ _
    have hclose : contains closeTag (inner ++ closeTag ++ (str "\n\n" ++ plain).take m) := by
      rw [contains, hcut]
      rfl
    rw [row_thinkUnterminated, contains_closeTag, hclose]
    exact Bool.and_false _
  · exact stripThink_of_closed h.inner_closed hrest

/-- The blank line after the block goes with the blanks. -/
theorem strip_blankLine {m : ℕ} (hm : 2 ≤ m) (plain : Str) :
    strip isSpace ((str "\n\n" ++ plain).take m) = strip isSpace (plain.take (m - 2)) := by
  have htake : (str "\n\n" ++ plain).take m = str "\n\n" ++ plain.take (m - 2) := by
    rw [List.take_append, List.take_of_length_le hm]
    rfl
  rw [htake]
  exact strip_append (by decide)

theorem Thinking.isEmpty_after_block (h : Thinking full inner plain) (m : ℕ) :
    (strip isSpace ((str "\n\n" ++ plain).take m)).isEmpty ↔ m ≤ 2 := by
  rcases Nat.lt_or_ge 2 m with hm | hm
  · obtain ⟨a, s, heq, ha⟩ := h.ends
    obtain ⟨k, rfl⟩ := Nat.exists_eq_add_of_lt hm
    have hne := strip_cons_ne_nil (s := (s ++ [46]).take k) ha
    rw [strip_blankLine hm.le, heq, show 2 + k + 1 - 2 = k + 1 by omega, List.take_succ_cons,
      List.isEmpty_iff]
    exact ⟨fun hnil ↦ absurd hnil hne, fun hle ↦ absurd hle (not_le.mpr hm)⟩
  · have htake : (str "\n\n" ++ plain).take m = (str "\n\n").take m :=
      List.take_append_of_le_length hm
    rw [htake, strip_eq_nil fun c hc ↦ (by decide : ∀ c ∈ str "\n\n", isSpace c)
      c (List.mem_of_mem_take hc)]
    exact ⟨fun _ ↦ hm, fun _ ↦ rfl⟩

end Cut

/-- With `--stub-think` every answer is the plain one once it is stripped.  If it is cut off after `n`
characters, the probe says that the block is not terminated exactly when the cut is in the block, and
that nothing is left exactly when it is there or in the blank line after the block; past that, what is
left is what the plain answer would have had. -/
theorem cut_off (h : completionText rt F sha256 true body tokens = .ok full) :
    ∃ plain e, completionText rt F sha256 false body tokens = .ok plain ∧
      full.length = e + 2 + plain.length ∧ stripThink full = plain ∧
      ∀ n, ((row (full.take n)).thinkUnterminated ↔ 7 ≤ n ∧ n < e) ∧
        ((row (full.take n)).emptyAfterStrip ↔ 7 ≤ n ∧ n ≤ e + 2) ∧
        (e + 2 ≤ n → stripThink (full.take n) = strip isSpace (plain.take (n - (e + 2)))) := by
  obtain ⟨inner, plain, hplain, hthink⟩ := thinking_of_completionText h
  have hlen : full.length = inner.length + 15 + 2 + plain.length := by
    rw [hthink.eq]
    simp only [List.length_append]
    change 7 + (inner.length + 8 + (2 + plain.length)) = _
    omega
  refine ⟨plain, inner.length + 15, hplain, hlen, ?_, fun n ↦ ?_⟩
  · have hend := (hthink.row_after_block (2 + plain.length)).2
    rw [← Nat.add_assoc, ← hlen, List.take_length, strip_blankLine (Nat.le_add_right 2 _),
      Nat.add_sub_cancel_left, List.take_length] at hend
    obtain ⟨a, s, rfl, ha⟩ := hthink.ends
    rw [hend]
    refine strip_eq_self (fun c hc ↦ ?_) (fun c hc ↦ ?_)
    · exact Option.some.inj hc ▸ ha
    · rw [← List.cons_append, List.getLast?_concat] at hc
      exact Option.some.inj hc ▸ (by decide : isSpace 46 = false)
  · rcases Nat.lt_or_ge n 7 with hlt | hge
    · obtain ⟨hun, hempty⟩ := hthink.row_of_lt hlt
      rw [hun, hempty]
      exact ⟨by simp; omega, by simp; omega, by omega⟩
    · obtain ⟨k, rfl⟩ := Nat.exists_eq_add_of_le hge
      rcases Nat.lt_or_ge k (inner.length + 8) with hin | hout
      · obtain ⟨hun, hempty⟩ := hthink.row_in_block hin
        rw [hun, hempty]
        exact ⟨by simp; omega, by simp; omega, by omega⟩
      · obtain ⟨m, rfl⟩ := Nat.exists_eq_add_of_le hout
        rw [show 7 + (inner.length + 8 + m) = inner.length + 15 + m by omega]
        obtain ⟨hun, hstrip⟩ := hthink.row_after_block m
        have hraw : (full.take (inner.length + 15 + m)).isEmpty = false := by
          refine List.isEmpty_eq_false_iff.mpr fun hnil ↦ ?_
          have htake := congrArg List.length hnil
          rw [List.length_take, List.length_nil] at htake
          omega
        rw [row_emptyAfterStrip, hraw, hun, hstrip]
        refine ⟨by simp, ?_, fun hm ↦ ?_⟩
        · rw [Bool.not_false, Bool.true_and, hthink.isEmpty_after_block]
          omega
        · rw [strip_blankLine (by omega)]
          congr 2
          omega

/-- What the stub thinks before it answers with three words. -/
def sampleThinking : Str := str "<think>\nToken" ++ (List.replicate 39 (str " token")).flatten ++
  str ".\n</think>\n\nToken token token."

theorem cut_off_sample : stripThink sampleThinking = sampleCompletion.text ∧
    (row (sampleThinking.take 160)).thinkUnterminated ∧
    (row (sampleThinking.take 160)).emptyAfterStrip := by
  have htext : completionText .sample .exact sampleSha256 true sampleRequest 3 =
      .ok sampleThinking := by decide +kernel
  have hplain : completionText .sample .exact sampleSha256 false sampleRequest 3 =
      .ok sampleCompletion.text := by decide +kernel
  obtain ⟨plain, e, hplain', hlen, hstrip, hcut⟩ := cut_off htext
  obtain rfl := Except.ok.inj (hplain'.symm.trans hplain)
  have hfull : sampleThinking.length = 277 := by decide +kernel
  have hshort : sampleCompletion.text.length = 18 := by decide +kernel
  obtain ⟨hun, hempty, -⟩ := hcut 160
  exact ⟨hstrip, hun.mpr (by omega), hempty.mpr (by omega)⟩

end InferenceGateway.Probe
