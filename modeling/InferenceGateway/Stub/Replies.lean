import InferenceGateway.Python.FloatText
import InferenceGateway.Python.Words
import InferenceGateway.Routes.Chunking
import InferenceGateway.Stub.Server

/-!
# What the gateway makes of the stub's answers

The stream of `stub/server.py` as `relay` of `gateway/routes/chat.py` sees it, and the unstreamed
answer as the branch after the call of the pool does.  Each event of the stream is one line of JSON,
and its end occurs nowhere else in it; so the events that are seen are those that were sent, and the
counts in the last of them are those of the unstreamed answer.
-/

namespace InferenceGateway.Stub

open Py

variable {rt : Runtime} {F : FloatRepr} {e : Envelope} {c : Completion} {m text : Str}
  {usage : Option Fields} {payload : Fields}

/-! ## Payloads -/

/-- A payload that is written on one line and read back. -/
structure Legible (rt : Runtime) (payload : Fields) : Prop where
  writable : Json.Writable false (.dict payload)
  keysDistinct : (Value.dict payload).KeysDistinct
  depth : (Value.dict payload).depth ≤ rt.loadsDepth

/-- The parts of an answer that come from the request and the clock. -/
structure Envelope.Proper (e : Envelope) (m : Str) : Prop where
  model : e.model = .str m
  writable : Json.StrWritable false m
  created : (Nat.toDigits 10 e.created.natAbs).length ≤ maxStrDigits

theorem Envelope.strWritable_cid (e : Envelope) : Json.StrWritable false e.cid := by
  intro c hc
  have hlt : c < 128 := by
    rcases List.mem_append.mp hc with hc | hc
    · exact (by decide : ∀ c ∈ str "chatcmpl-", c < 128) c hc
    · exact isHex_lt (isHex_of_mem_tokenHex (List.mem_of_mem_take hc))
  refine ⟨lt_trans hlt (by decide), fun _ ↦ ?_⟩
  simp only [isSurrogate, Bool.and_eq_true, decide_eq_true_eq]
  omega

theorem writable_zero : Json.Writable false (.int 0) := Nat.le_of_ble_eq_true rfl

theorem Envelope.Proper.legible_delta (h : e.Proper m) (hD : 4 ≤ rt.loadsDepth) {delta : Fields}
    {finish : Value} (hw : Json.Writable false (.dict delta)) (hk : (Value.dict delta).KeysDistinct)
    (hd : (Value.dict delta).depth ≤ 1) (hf : Json.Writable false finish)
    (hfk : finish.KeysDistinct) (hfd : finish.depth = 0) : Legible rt (e.delta delta finish) := by
  refine ⟨?_, ?_, ?_⟩
  · exact ⟨Json.strWritable_str _, e.strWritable_cid, Json.strWritable_str _,
      Json.strWritable_str _, Json.strWritable_str _, h.created, Json.strWritable_str _,
      h.model ▸ h.writable, Json.strWritable_str _, ⟨⟨Json.strWritable_str _, writable_zero,
        Json.strWritable_str _, hw, Json.strWritable_str _, hf, trivial⟩, trivial⟩, trivial⟩
  · have houter : ((e.delta delta finish).map Prod.fst).Nodup :=
      (by decide : (["id", "object", "created", "model", "choices"].map str).Nodup)
    have hinner : (["index", "delta", "finish_reason"].map str).Nodup := by decide
    exact ⟨houter, trivial, trivial, trivial, h.model ▸ trivial, ⟨⟨hinner, trivial, hk, hfk,
      trivial⟩, trivial⟩, trivial⟩
  · refine le_trans ?_ hD
    have hmodel : e.model.depth = 0 := by
      rw [h.model]
      rfl
    simp only [Envelope.delta, Envelope.items, List.cons_append, List.nil_append, Value.depth,
      Value.depthFields, Value.depthList, hmodel, hfd] at hd ⊢
    omega

/-- The counts can be written. -/
structure Completion.Counted (c : Completion) : Prop where
  prompt : (Nat.toDigits 10 c.promptTokens).length ≤ maxStrDigits
  completion : (Nat.toDigits 10 c.completionTokens).length ≤ maxStrDigits
  total : (Nat.toDigits 10 (c.promptTokens + c.completionTokens)).length ≤ maxStrDigits

theorem Completion.Counted.writable_usage (h : c.Counted) : Json.Writable false (.dict c.usage) :=
  ⟨Json.strWritable_str _, h.prompt, Json.strWritable_str _, h.completion, Json.strWritable_str _,
    h.total, trivial⟩

theorem Completion.keysDistinct_usage (c : Completion) : (Value.dict c.usage).KeysDistinct := by
  have hkeys : (c.usage.map Prod.fst).Nodup :=
    (by decide : (["prompt_tokens", "completion_tokens", "total_tokens"].map str).Nodup)
  exact ⟨hkeys, trivial, trivial, trivial, trivial⟩

theorem Envelope.Proper.legible_final (h : e.Proper m) (hD : 4 ≤ rt.loadsDepth) (hc : c.Counted) :
    Legible rt (e.final c.usage) := by
  refine ⟨?_, ?_, ?_⟩
  · exact ⟨Json.strWritable_str _, e.strWritable_cid, Json.strWritable_str _,
      Json.strWritable_str _, Json.strWritable_str _, h.created, Json.strWritable_str _,
      h.model ▸ h.writable, Json.strWritable_str _, trivial, Json.strWritable_str _,
      hc.writable_usage, trivial⟩
  · have houter : ((e.final c.usage).map Prod.fst).Nodup :=
      (by decide : (["id", "object", "created", "model", "choices", "usage"].map str).Nodup)
    exact ⟨houter, trivial, trivial, trivial, h.model ▸ trivial, trivial, c.keysDistinct_usage,
      trivial⟩
  · refine le_trans ?_ hD
    have hmodel : e.model.depth = 0 := by
      rw [h.model]
      rfl
    simp only [Envelope.final, Envelope.items, Completion.usage, List.cons_append,
      List.nil_append, Value.depth, Value.depthFields, Value.depthList, hmodel]
    omega

theorem Envelope.Proper.legible_payload (h : e.Proper m) (hD : 4 ≤ rt.loadsDepth) (hc : c.Counted)
    (ht : Json.StrWritable false c.text) : Legible rt (e.payload c) := by
  refine ⟨?_, ?_, ?_⟩
  · exact ⟨Json.strWritable_str _, e.strWritable_cid, Json.strWritable_str _,
      Json.strWritable_str _, Json.strWritable_str _, h.created, Json.strWritable_str _,
      h.model ▸ h.writable, Json.strWritable_str _, ⟨⟨Json.strWritable_str _, writable_zero,
        Json.strWritable_str _, ⟨Json.strWritable_str _, Json.strWritable_str _,
          Json.strWritable_str _, ht, trivial⟩, Json.strWritable_str _, Json.strWritable_str _,
        trivial⟩, trivial⟩, Json.strWritable_str _, hc.writable_usage, trivial⟩
  · have houter : ((e.payload c).map Prod.fst).Nodup :=
      (by decide : (["id", "object", "created", "model", "choices", "usage"].map str).Nodup)
    have hinner : (["index", "message", "finish_reason"].map str).Nodup := by decide
    have hmessage : (["role", "content"].map str).Nodup := by decide
    exact ⟨houter, trivial, trivial, trivial, h.model ▸ trivial, ⟨⟨hinner, trivial, ⟨hmessage,
      trivial, trivial, trivial⟩, trivial, trivial⟩, trivial⟩, c.keysDistinct_usage, trivial⟩
  · refine le_trans ?_ hD
    have hmodel : e.model.depth = 0 := by
      rw [h.model]
      rfl
    simp only [Envelope.payload, Envelope.items, Completion.usage, List.cons_append,
      List.nil_append, Value.depth, Value.depthFields, Value.depthList, hmodel]
    omega

/-! ## Events -/

/-- The text of a dictionary is in braces. -/
theorem dumps_dict_eq (F : FloatRepr) (st : Json.Style) (kvs : Fields) :
    ∃ body, Json.dumps F st (.dict kvs) = 123 :: (body ++ [125]) := by
  cases kvs with
  | nil => exact ⟨[], rfl⟩
  | cons kv kvs =>
      obtain ⟨k, v⟩ := kv
      exact ⟨_, rfl⟩

theorem utf8Bytes_append (s t : Str) : utf8Bytes (s ++ t) = utf8Bytes s ++ utf8Bytes t :=
  List.flatMap_append

/-- A line of a payload. -/
theorem newline_not_mem_dataLine (h : Legible rt payload) :
    10 ∉ utf8Bytes (dataLine F payload) := by
  intro hmem
  rw [dataLine, utf8Bytes_append, List.mem_append] at hmem
  rcases hmem with hmem | hmem
  · exact absurd hmem (by decide)
  · have hprints : ∀ d ∈ Json.dumps F { ascii := false } (.dict payload),
        (⟨false, none, false⟩ : Json.Style).Prints d := fun d ↦ Json.prints_of_mem_dumps h.writable
    have hd := Json.mem_of_mem_utf8Bytes (fun d hd ↦ (hprints d hd).codePoint) hmem (by decide)
    rcases (hprints _ hd).not_control with hlt | ⟨-, hindent⟩
    · exact absurd hlt (by decide)
    · cases hindent

/-- What the relay makes of a line of a payload. -/
theorem parseUsageFrame_dataLine (h : Legible rt payload) :
    parseUsageFrame rt (utf8Bytes (dataLine F payload)) =
      .ok (Fields.get payload (str "usage")).fields? := by
  obtain ⟨body, hbody⟩ := dumps_dict_eq F { ascii := false } payload
  have hloads := (Json.loads_dumps F { ascii := false } h.writable h.depth).2
  rw [Value.reread_eq_self h.writable h.keysDistinct] at hloads
  have hline : utf8Bytes (dataLine F payload) =
      dataField ++ 32 :: utf8Bytes (Json.dumps F { ascii := false } (.dict payload)) := by
    rw [dataLine, utf8Bytes_append]
    rfl
  have hbraces : utf8Bytes (Json.dumps F { ascii := false } (.dict payload)) =
      123 :: (utf8Bytes body ++ [125]) := by
    rw [hbody, ← List.singleton_append, utf8Bytes_append, utf8Bytes_append]
    rfl
  have hstrip : stripBytes ((utf8Bytes (dataLine F payload)).drop dataField.length) =
      utf8Bytes (Json.dumps F { ascii := false } (.dict payload)) := by
    rw [hline, List.drop_left, hbraces]
    exact strip_cons (by decide) (by decide) (by decide)
  have hpre : dataField.isPrefixOf (utf8Bytes (dataLine F payload)) := by
    rw [hline]
    exact List.isPrefixOf_iff_prefix.mpr (List.prefix_append _ _)
  have hdone : utf8Bytes (Json.dumps F { ascii := false } (.dict payload)) ≠ bytes "[DONE]" := by
    rw [hbraces]
    intro heq
    exact absurd (List.cons.inj heq).1 (by decide)
  have hsplit : eventLines (utf8Bytes (dataLine F payload)) = [utf8Bytes (dataLine F payload)] := by
    refine List.splitOnP_eq_singleton fun b hb ↦ beq_eq_false_iff_ne.mpr ?_
    rintro rfl
    exact newline_not_mem_dataLine h hb
  have hget : (Value.dict payload).getAttrD (str "usage") .none =
      .ok (Fields.get payload (str "usage")) := rfl
  rw [parseUsageFrame, hsplit, parseUsageLines, if_neg (not_not.mpr hpre), hstrip]
  simp only [if_neg hdone, hloads, hget]
  cases hu : Fields.get payload (str "usage") <;> rfl

theorem parseUsageFrame_done (rt : Runtime) :
    parseUsageFrame rt (utf8Bytes (str "data: [DONE]")) = .ok none := by
  have hlines : eventLines (utf8Bytes (str "data: [DONE]")) = [utf8Bytes (str "data: [DONE]")] := by
    decide
  rw [parseUsageFrame, hlines]
  rfl

/-! ## The text -/

/-- What the filler is made of: letters, blanks and a period. -/
def Filler (d : ℕ) : Prop := d = 32 ∨ d = 46 ∨ 65 ≤ d ∧ d ≤ 90 ∨ 97 ≤ d ∧ d ≤ 122

instance (d : ℕ) : Decidable (Filler d) := inferInstanceAs (Decidable (_ ∨ _))

theorem Filler.lt {d : ℕ} (h : Filler d) : d < 128 := by
  unfold Filler at h
  omega

theorem mem_chosen {digest : Bytes} {n : ℕ} {w : Str} (h : w ∈ chosen digest n) : w ∈ WORDS := by
  obtain ⟨i, -, rfl⟩ := List.mem_map.mp h
  have hlt : (digest.getD (i % digest.length) 0).toNat % WORDS.length < WORDS.length :=
    Nat.mod_lt _ (by decide)
  rw [List.getD_eq_getElem?_getD, List.getElem?_eq_getElem hlt, Option.getD_some]
  exact List.getElem_mem hlt

/-- The filler starts with a letter and ends with a period. -/
theorem filler_of_deterministicText {sha256 : Bytes → Bytes} {seed : Str} {n : ℤ}
    (h : deterministicText sha256 seed n = .ok text) :
    ∃ a s, text = a :: (s ++ [46]) ∧ 65 ≤ a ∧ a ≤ 90 ∧ ∀ d ∈ s, Filler d := by
  obtain ⟨b, -, h⟩ := of_bind_eq_ok h
  cases h
  have hletter : ∀ w ∈ WORDS, w ≠ [] ∧ ∀ d ∈ w, 97 ≤ d ∧ d ≤ 122 := by decide
  have hfiller : ∀ d ∈ (str " ").intercalate (chosen (sha256 b) (max 1 n).toNat), Filler d := by
    intro d hd
    rcases mem_of_mem_intercalate hd with hd | ⟨w, hw, hd⟩
    · exact .inl (List.mem_singleton.mp hd)
    · exact .inr (.inr (.inr ((hletter w (mem_chosen hw)).2 d hd)))
  cases hwords : chosen (sha256 b) (max 1 n).toNat with
  | nil =>
      have hlen := congrArg List.length hwords
      rw [chosen, List.length_map, List.length_range, List.length_nil] at hlen
      omega
  | cons w ws =>
      obtain ⟨hne, hw⟩ := hletter w (mem_chosen (hwords ▸ List.mem_cons_self))
      obtain ⟨a, w, rfl⟩ := List.exists_cons_of_ne_nil hne
      obtain ⟨t, ht⟩ : ∃ t, (str " ").intercalate ((a :: w) :: ws) = a :: t := by
        cases ws with
        | nil => exact ⟨w, by simp⟩
        | cons v vs => exact ⟨_, rfl⟩
      rw [hwords, ht] at hfiller
      obtain ⟨hlow, hhigh⟩ := hw a List.mem_cons_self
      refine ⟨a - 32, t, ?_, by omega, by omega, fun d hd ↦ hfiller d (List.mem_cons_of_mem a hd)⟩
      have hlower : (97 ≤ a && a ≤ 122) = true := by simp [hlow, hhigh]
      rw [ht, sentence, if_pos hlower]
      rfl

/-- The filler is ASCII. -/
theorem ascii_of_deterministicText {sha256 : Bytes → Bytes} {seed : Str} {n : ℤ}
    (h : deterministicText sha256 seed n = .ok text) : ∀ d ∈ text, d < 128 := by
  obtain ⟨a, s, rfl, -, ha, hs⟩ := filler_of_deterministicText h
  intro d hd
  rcases List.mem_cons.mp hd with rfl | hd
  · omega
  · rcases List.mem_append.mp hd with hd | hd
    · exact (hs d hd).lt
    · rw [List.mem_singleton.mp hd]
      decide

theorem ascii_of_complete {sha256 : Bytes → Bytes} {think : Bool} {body : Fields}
    (h : complete rt F sha256 think body = .ok c) : ∀ d ∈ c.text, d < 128 := by
  obtain ⟨n, -, h⟩ := of_bind_eq_ok h
  obtain ⟨text, htext, h⟩ := of_bind_eq_ok h
  obtain ⟨ms, -, h⟩ := of_bind_eq_ok h
  obtain ⟨k, -, h⟩ := of_bind_eq_ok h
  cases h
  obtain ⟨seed, -, htext⟩ := of_bind_eq_ok htext
  obtain ⟨plain, hplain, htext⟩ := of_bind_eq_ok htext
  have hascii := ascii_of_deterministicText hplain
  cases think with
  | false =>
      cases htext
      exact hascii
  | true =>
      obtain ⟨seed', -, htext⟩ := of_bind_eq_ok htext
      obtain ⟨thought, hthought, htext⟩ := of_bind_eq_ok htext
      cases htext
      intro d hd
      simp only [List.mem_append] at hd
      rcases hd with ((hd | hd) | hd) | hd
      · exact (by decide : ∀ d ∈ str "<think>\n", d < 128) d hd
      · exact ascii_of_deterministicText hthought d hd
      · exact (by decide : ∀ d ∈ str "\n</think>\n\n", d < 128) d hd
      · exact hascii d hd

/-! ## The stream -/

theorem strWritable_of_ascii {s : Str} (h : ∀ d ∈ s, d < 128) : Json.StrWritable false s := by
  intro d hd
  have hlt := h d hd
  refine ⟨lt_trans hlt (by decide), fun _ ↦ ?_⟩
  simp only [isSurrogate, Bool.and_eq_true, decide_eq_true_eq]
  omega

/-- The payloads before the last are legible, and carry no usage. -/
theorem Envelope.Proper.payloads (h : e.Proper m) (hD : 4 ≤ rt.loadsDepth)
    (ht : ∀ d ∈ text, d < 128) : ∀ p ∈ e.payloads text none,
      Legible rt p ∧ (Fields.get p (str "usage")).fields? = none := by
  have hcontent {s : Str} (hs : ∀ d ∈ s, d < 128) :
      Legible rt (e.delta [(str "content", .str s)] .none) :=
    h.legible_delta hD ⟨Json.strWritable_str _, strWritable_of_ascii hs, trivial⟩
      ⟨List.nodup_singleton _, trivial, trivial⟩ le_rfl trivial trivial rfl
  have hrole : (["role", "content"].map str).Nodup := by decide
  intro p hp
  simp only [Envelope.payloads, Option.toList_none, List.map_nil, List.mem_append, List.mem_cons,
    List.mem_map, List.not_mem_nil, or_false] at hp
  rcases hp with (rfl | ⟨w, hw, rfl⟩) | rfl
  · exact ⟨h.legible_delta hD ⟨Json.strWritable_str _, Json.strWritable_str _,
      Json.strWritable_str _, strWritable_of_ascii (List.forall_mem_nil _), trivial⟩
      ⟨hrole, trivial, trivial, trivial⟩ le_rfl trivial trivial rfl, rfl⟩
  · refine ⟨hcontent fun d hd ↦ ?_, rfl⟩
    rcases List.mem_append.mp hd with hd | hd
    · exact ht d (mem_of_mem_words hw hd)
    · exact (by decide : ∀ d ∈ str " ", d < 128) d hd
  · exact ⟨h.legible_delta hD trivial ⟨List.nodup_nil, trivial⟩ (by decide)
      (Json.strWritable_str _) trivial rfl, rfl⟩

theorem payloads_some (e : Envelope) (text : Str) (usage : Fields) :
    e.payloads text (some usage) = e.payloads text none ++ [e.final usage] := by
  simp [Envelope.payloads]

/-- Events whose payloads carry no usage change nothing. -/
theorem lastUsage_dataLines {ps : List Fields} (usage : Fields) (more : List Bytes)
    (h : ∀ p ∈ ps, Legible rt p ∧ (Fields.get p (str "usage")).fields? = none) :
    lastUsage rt usage ((ps.map fun p ↦ utf8Bytes (dataLine F p)) ++ more) =
      lastUsage rt usage more := by
  induction ps with
  | nil => rfl
  | cons p ps ih =>
      obtain ⟨⟨hp, hnone⟩, hps⟩ := List.forall_mem_cons.mp h
      have hparse := parseUsageFrame_dataLine (F := F) hp
      rw [hnone] at hparse
      rw [List.map_cons, List.cons_append, lastUsage_of_none hparse, ih hps]

/-- The events of the stream are the pieces of its bytes. -/
theorem pieces_streamed {ps : List Fields} (h : e.payloads text usage = ps)
    (hps : ∀ p ∈ ps, Legible rt p) : pieces eventEnd (streamed F e text usage) =
      (ps.map fun p ↦ utf8Bytes (dataLine F p)) ++ [utf8Bytes (str "data: [DONE]")] := by
  have hstream : streamed F e text usage = (((ps.map fun p ↦ utf8Bytes (dataLine F p)) ++
      [utf8Bytes (str "data: [DONE]")]).flatMap fun ev ↦ ev ++ eventEnd) := by
    simp [streamed, events, h, List.flatMap_map, eventEnd]
  rw [hstream]
  refine pieces_flatMap (fun ev hev ↦ ?_) [10]
  rcases List.mem_append.mp hev with hev | hev
  · obtain ⟨p, hp, rfl⟩ := List.mem_map.mp hev
    exact newline_not_mem_dataLine (hps p hp)
  · rw [List.mem_singleton.mp hev]
    decide

/-- The payloads of a stream are legible, whether the usage is among them or not. -/
theorem Envelope.Proper.legible_payloads (h : e.Proper m) (hD : 4 ≤ rt.loadsDepth) (hc : c.Counted)
    (ht : ∀ d ∈ c.text, d < 128) (asked : Bool) :
    ∀ p ∈ e.payloads c.text (if asked then some c.usage else none), Legible rt p := by
  have hplain := h.payloads hD ht
  intro p hp
  cases asked with
  | false => exact (hplain p hp).1
  | true =>
      rw [if_pos rfl, payloads_some, List.mem_append, List.mem_singleton] at hp
      rcases hp with hp | rfl
      · exact (hplain p hp).1
      · exact h.legible_final hD hc

/-- No event of the stream ends the relay. -/
theorem watchable_streamed (h : e.Proper m) (hD : 4 ≤ rt.loadsDepth) (hc : c.Counted)
    (ht : ∀ d ∈ c.text, d < 128) (asked : Bool) :
    ∀ ev ∈ pieces eventEnd (streamed F e c.text (if asked then some c.usage else none)),
      Watchable rt ev := by
  have hlegible := h.legible_payloads hD hc ht asked
  rw [pieces_streamed rfl hlegible]
  intro ev hev
  refine parseUsageFrame_ok_iff.mp ?_
  rcases List.mem_append.mp hev with hev | hev
  · obtain ⟨p, hp, rfl⟩ := List.mem_map.mp hev
    exact ⟨_, parseUsageFrame_dataLine (hlegible p hp)⟩
  · rw [List.mem_singleton.mp hev]
    exact ⟨_, parseUsageFrame_done rt⟩

/-- The last usage in the stream is the one that was sent. -/
theorem lastUsage_streamed (h : e.Proper m) (hD : 4 ≤ rt.loadsDepth) (hc : c.Counted)
    (ht : ∀ d ∈ c.text, d < 128) (asked : Bool) :
    lastUsage rt [] (pieces eventEnd
      (streamed F e c.text (if asked then some c.usage else none))) =
        if asked then c.usage else [] := by
  have hplain := h.payloads hD ht
  have hdone (usage : Fields) : lastUsage rt usage [utf8Bytes (str "data: [DONE]")] = usage :=
    lastUsage_of_none (parseUsageFrame_done rt)
  rw [pieces_streamed rfl (h.legible_payloads hD hc ht asked)]
  cases asked with
  | false => exact (lastUsage_dataLines [] _ hplain).trans (hdone [])
  | true =>
      have hparse := parseUsageFrame_dataLine (F := F) (h.legible_final hD hc)
      have hget : (Fields.get (e.final c.usage) (str "usage")).fields? = some c.usage := rfl
      rw [hget] at hparse
      rw [if_pos rfl, payloads_some, List.map_append, List.append_assoc,
        lastUsage_dataLines [] _ hplain]
      exact (lastUsage_of_some hparse).trans (hdone c.usage)

/-! ## The unstreamed answer -/

/-- What the gateway reads in the unstreamed answer. -/
theorem loads_rendered (h : e.Proper m) (hD : 4 ≤ rt.loadsDepth) (hc : c.Counted)
    (ht : ∀ d ∈ c.text, d < 128) :
    Json.loads rt.loadsDepth (rendered F e c) = .ok (.dict (e.payload c)) ∧
      usageOf (.dict (e.payload c)) = .ok c.usage := by
  have hlegible := h.legible_payload hD hc (strWritable_of_ascii ht)
  have hloads := (Json.loads_dumps F { ascii := false, compact := true }
    hlegible.writable hlegible.depth).2
  rw [Value.reread_eq_self hlegible.writable hlegible.keysDistinct] at hloads
  exact ⟨hloads, rfl⟩

/-! ## A concrete answer -/

/-- A request for three words. -/
def sampleRequest : Fields :=
  [(str "messages", .list [.dict [(str "content", .str (str "hi"))]]),
    (str "max_tokens", .int 3)]

/-- A hash all of whose bytes choose one word. -/
def sampleSha256 (_ : Bytes) : Bytes := List.replicate 32 7

def sampleCompletion : Completion :=
  { text := str "Token token token.", promptTokens := 1, completionTokens := 3 }

end InferenceGateway.Stub
