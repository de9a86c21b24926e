import InferenceGateway.Python.FloatText
import InferenceGateway.Python.Sorted
import InferenceGateway.Python.Split
import InferenceGateway.Python.Time
import InferenceGateway.Sample

/-!
# The text of the audit log

`AuditLog.write` of `gateway/audit.py`, down to the bytes.  A record is one line of JSON with
sorted keys, in UTF-8 and without `ensure_ascii`, so that what decides whether a record can be
written is decided by the text: `encodable_jsonLine` is where `AuditRecord.encodable` comes from.

The disk may refuse the file, or take a part of the line only; both raise what `write` logs and
drops.  A torn line has no line break in it, and no line has one before its end, so it can spoil
the next line and no other.
-/

namespace InferenceGateway

open Py

namespace AuditRecord

/-- `asdict(record)`. -/
def asdict (r : AuditRecord) : Fields :=
  [(str "timestamp", .str (isoTime r.timestamp)),
    (str "event", .str (str r.event)),
    (str "keyid", .ofOption .str r.keyid),
    (str "subject", .str r.subject),
    (str "auth_method", .str (str r.authMethod)),
    (str "model", r.model),
    (str "status", .int r.status),
    (str "latency_ms", .float (.round r.latencyMs)),
    (str "prompt_tokens", r.promptTokens),
    (str "completion_tokens", r.completionTokens),
    (str "upstream", .ofOption .str r.upstream),
    (str "reason", .ofOption (fun s ↦ .str (str s)) r.reason),
    (str "streamed", .bool r.streamed)]

/-- `json.dumps(payload, ensure_ascii=False, sort_keys=True)`. -/
def jsonLine (F : FloatRepr) (r : AuditRecord) : Str :=
  Json.dumps F { ascii := false } (Value.dict r.asdict).sorted

/-- The fields hold what their types admit: texts of code points, and values that `json.loads` may
have built. -/
structure Proper (r : AuditRecord) : Prop where
  keyid : ∀ k ∈ r.keyid, IsText k
  subject : IsText r.subject
  upstream : ∀ u ∈ r.upstream, IsText u
  status : (Nat.toDigits 10 r.status).length ≤ maxStrDigits
  writable : ∀ v ∈ [r.model, r.promptTokens, r.completionTokens], Json.Writable true v
  keysDistinct : ∀ v ∈ [r.model, r.promptTokens, r.completionTokens], v.KeysDistinct

end AuditRecord

/-- `AuditLog.write`, on the bytes of the file.  `room` is how many bytes of the line the disk takes:
none where the file cannot be opened. -/
def AuditLog.write (rt : Runtime) (F : FloatRepr) (room : ℕ) (file : Bytes) (r : AuditRecord) :
    Except Exc Bytes :=
  if rt.dumpsDepth < r.depth then .error .recursionError
  else match encodeUtf8 (r.jsonLine F ++ [10]) with
    -- raised by `fh.write`, caught and logged like the errors of the disk
    | .error _ => .ok file
    | .ok bytes => .ok (file ++ bytes.take room)

/-- The file after a number of records, each with the room there is for it.  A `RecursionError`
leaves the file as it is. -/
def AuditLog.writes (rt : Runtime) (F : FloatRepr) (file : Bytes) :
    List (AuditRecord × ℕ) → Bytes
  | [] => file
  | (r, room) :: history => match AuditLog.write rt F room file r with
    | .ok file' => AuditLog.writes rt F file' history
    | .error _ => AuditLog.writes rt F file history

/-- The records whose lines are complete, each with whether its line is its own: `own` says that the
file ends with a line break, or is empty. -/
def AuditLog.kept (rt : Runtime) (F : FloatRepr) (own : Bool) :
    List (AuditRecord × ℕ) → List (AuditRecord × Bool)
  | [] => []
  | (r, room) :: history =>
    if ¬r.Writable rt then AuditLog.kept rt F own history
    else if (utf8Bytes (r.jsonLine F)).length < room then (r, own) :: AuditLog.kept rt F true history
    else AuditLog.kept rt F (own && room == 0) history

/-- The file of a log. -/
def AuditLog.fileOf (F : FloatRepr) (log : List AuditRecord) : Bytes :=
  log.flatMap fun r ↦ utf8Bytes (r.jsonLine F) ++ [10]

variable {rt : Runtime} {F : FloatRepr} {r : AuditRecord} {room D : ℕ} {file : Bytes}

/-! ## What can be written -/

namespace AuditRecord

theorem keys_asdict (r : AuditRecord) : (r.asdict.map Prod.fst).Nodup := by
  have hkeys : r.asdict.map Prod.fst = ["timestamp", "event", "keyid", "subject", "auth_method",
    "model", "status", "latency_ms", "prompt_tokens", "completion_tokens", "upstream", "reason",
    "streamed"].map str := rfl
  rw [hkeys]
  decide

theorem depth_ofOption {α : Type} (f : α → Value) (hf : ∀ a, (f a).depth = 0) (x : Option α) :
    (Value.ofOption f x).depth = 0 := by
  cases x with
  | none => rfl
  | some a => exact hf a

theorem depth_asdict (r : AuditRecord) : (Value.dict r.asdict).depth = r.depth + 1 := by
  have hstr (x : Option Str) : (Value.ofOption .str x).depth = 0 := depth_ofOption _ (fun _ ↦ rfl) x
  have hreason : (Value.ofOption (fun s ↦ .str (str s)) r.reason).depth = 0 :=
    depth_ofOption _ (fun _ ↦ rfl) r.reason
  simp only [asdict, Value.depth, Value.depthFields, hstr, hreason, depth]
  omega

theorem encodable_ofOption {α : Type} (f : α → Value) (g : α → Bool)
    (hf : ∀ a, (f a).encodable = g a) (x : Option α) :
    (Value.ofOption f x).encodable = x.all g := by
  cases x with
  | none => rfl
  | some a => exact hf a

theorem encodable_asdict (r : AuditRecord) : (Value.dict r.asdict).encodable = r.encodable := by
  have hliteral (s : String) : Py.encodable (str s) := by
    have hs : Json.StrWritable false (str s) := Json.strWritable_str s
    refine List.all_eq_true.mpr fun c hc ↦ ?_
    simpa using (hs c hc).2 rfl
  have hreason : (Value.ofOption (fun s ↦ .str (str s)) r.reason).encodable = true := by
    cases r.reason with
    | none => rfl
    | some s => exact hliteral s
  have hstr (x : Option Str) : (Value.ofOption .str x).encodable = x.all Py.encodable :=
    encodable_ofOption _ _ (fun _ ↦ rfl) x
  have htime : Py.encodable (isoTime r.timestamp) :=
    Json.encodable_of_ascii fun _ ↦ ascii_of_mem_isoTime
  simp only [asdict, Value.encodable, Value.encodableFields, hliteral, hreason, hstr, htime,
    Bool.true_and, Bool.and_true, encodable, Bool.and_assoc]

/-- What `encodable` says of the fields, the text says of itself. -/
theorem encodable_jsonLine (F : FloatRepr) (r : AuditRecord) :
    Py.encodable (r.jsonLine F) = r.encodable := by
  rw [jsonLine, Json.dumps, Json.encodable_dumpsAt rfl, Value.encodable_sorted, encodable_asdict]

theorem Proper.writable_asdict (h : r.Proper) : Json.Writable true (.dict r.asdict) := by
  have hstr {x : Option Str} (hx : ∀ s ∈ x, IsText s) :
      Json.Writable true (Value.ofOption .str x) := by
    cases x with
    | none => trivial
    | some s => exact fun c hc ↦ ⟨hx s rfl c hc, fun h ↦ nomatch h⟩
  refine Value.writableFields_iff.mpr fun kv hkv ↦ ?_
  simp only [asdict, List.mem_cons, List.not_mem_nil, or_false] at hkv
  obtain rfl | rfl | rfl | rfl | rfl | rfl | rfl | rfl | rfl | rfl | rfl | rfl | rfl := hkv
  all_goals refine ⟨Json.strWritable_str _, ?_⟩
  · refine fun c hc ↦ ⟨?_, fun h ↦ nomatch h⟩
    exact lt_trans (ascii_of_mem_isoTime hc) (by decide)
  · exact Json.strWritable_str _
  · exact hstr h.keyid
  · exact fun c hc ↦ ⟨h.subject c hc, fun h ↦ nomatch h⟩
  · exact Json.strWritable_str _
  · exact h.writable _ (by simp)
  · exact h.status
  · exact Double.rounded_round r.latencyMs
  · exact h.writable _ (by simp)
  · exact h.writable _ (by simp)
  · exact hstr h.upstream
  · cases r.reason with
    | none => trivial
    | some s => exact Json.strWritable_str s
  · trivial

theorem Proper.keysDistinct_asdict (h : r.Proper) : (Value.dict r.asdict).KeysDistinct := by
  refine ⟨keys_asdict r, Value.keysDistinctFields_iff.mpr fun kv hkv ↦ ?_⟩
  have hoption {α : Type} (f : α → Value) (hf : ∀ a, (f a).KeysDistinct) (x : Option α) :
      (Value.ofOption f x).KeysDistinct := by
    cases x with
    | none => trivial
    | some a => exact hf a
  simp only [asdict, List.mem_cons, List.not_mem_nil, or_false] at hkv
  obtain rfl | rfl | rfl | rfl | rfl | rfl | rfl | rfl | rfl | rfl | rfl | rfl | rfl := hkv
  · trivial
  · trivial
  · exact hoption Value.str (fun _ ↦ trivial) r.keyid
  · trivial
  · trivial
  · exact h.keysDistinct _ (by simp)
  · trivial
  · trivial
  · exact h.keysDistinct _ (by simp)
  · exact h.keysDistinct _ (by simp)
  · exact hoption Value.str (fun _ ↦ trivial) r.upstream
  · exact hoption (fun s ↦ Value.str (str s)) (fun _ ↦ trivial) r.reason
  · trivial

theorem Proper.writable_jsonLine (h : r.Proper) (he : r.encodable) :
    Json.Writable false (Value.dict r.asdict).sorted := by
  refine Value.writable_of_encodable (Value.writable_sorted h.writable_asdict) ?_
  rwa [Value.encodable_sorted, encodable_asdict]

/-- The bytes of a line, the line break excepted. -/
theorem Proper.newline_not_mem (h : r.Proper) (he : r.encodable) :
    10 ∉ utf8Bytes (r.jsonLine F) := by
  intro hmem
  have hprints : ∀ c ∈ r.jsonLine F, (⟨false, none, false⟩ : Json.Style).Prints c :=
    fun c ↦ Json.prints_of_mem_dumps (h.writable_jsonLine he)
  have hc := Json.mem_of_mem_utf8Bytes (fun c hc ↦ (hprints c hc).codePoint) hmem (by decide)
  rcases (hprints _ hc).not_control with hlt | ⟨-, hindent⟩
  · exact absurd hlt (by decide)
  · cases hindent

/-- A line that can be written is read back, to what was written in it. -/
theorem Proper.loads_line (h : r.Proper) (hw : r.Writable rt) (hD : rt.dumpsDepth < D) :
    ∃ d, Json.loads D (utf8Bytes (r.jsonLine F)) = .ok (.dict d) ∧
      ∀ k, d.lookup k = (r.asdict.lookup k).map Value.sorted := by
  have hdepth : (Value.dict r.asdict).sorted.depth ≤ D := by
    have hle := Value.depth_sorted_le (.dict r.asdict)
    have hr := hw.1
    rw [depth_asdict] at hle
    omega
  have hline := h.writable_jsonLine hw.2
  have hkeys := Value.keysDistinct_sorted h.keysDistinct_asdict
  have hread := (Json.loads_dumps F { ascii := false } hline hdepth).2
  rw [Value.reread_eq_self hline hkeys] at hread
  exact ⟨_, hread, fun k ↦ Value.lookup_sorted (keys_asdict r) k⟩

end AuditRecord

/-! ## Writing -/

namespace AuditLog

theorem write_of_writable (F : FloatRepr) (room : ℕ) (file : Bytes) (hw : r.Writable rt) :
    write rt F room file r = .ok (file ++ (utf8Bytes (r.jsonLine F) ++ [10]).take room) := by
  have henc : Py.encodable (r.jsonLine F ++ [10]) := by
    rw [Json.encodable_append, r.encodable_jsonLine, hw.2]
    rfl
  have hbytes : utf8Bytes (r.jsonLine F ++ [10]) = utf8Bytes (r.jsonLine F) ++ [10] :=
    List.flatMap_append
  rw [write, if_neg (not_lt.mpr hw.1), encodeUtf8, if_pos henc, hbytes]

theorem write_of_not_writable (F : FloatRepr) (room : ℕ) (file : Bytes) (hw : ¬r.Writable rt) :
    write rt F room file r = .ok file ∨ write rt F room file r = .error .recursionError := by
  unfold write
  split
  · exact .inr rfl
  · rename_i hd
    have henc : ¬Py.encodable (r.jsonLine F ++ [10]) := by
      rw [Json.encodable_append, r.encodable_jsonLine]
      intro he
      exact hw ⟨not_lt.mp hd, (Bool.and_eq_true_iff.mp he).1⟩
    rw [encodeUtf8, if_neg henc]
    exact .inl rfl

/-- Where the disk takes whole lines, the file is that of the log that `auditWrite` keeps. -/
theorem write_fileOf (log : List AuditRecord) (hroom : (utf8Bytes (r.jsonLine F)).length < room) :
    write rt F room (fileOf F log) r = (auditWrite rt log r).map (fileOf F) := by
  have htake : (utf8Bytes (r.jsonLine F) ++ [10]).take room = utf8Bytes (r.jsonLine F) ++ [10] :=
    List.take_of_length_le (by rw [List.length_append]; exact hroom)
  by_cases hw : r.Writable rt
  · rw [write_of_writable F room _ hw, auditWrite_of_writable hw, htake]
    simp [fileOf, Except.map]
  · unfold write auditWrite
    split
    · rfl
    · rename_i hd
      have he : ¬r.encodable := fun he ↦ hw ⟨not_lt.mp hd, he⟩
      have henc : ¬Py.encodable (r.jsonLine F ++ [10]) := by
        rw [Json.encodable_append, r.encodable_jsonLine]
        exact fun h ↦ he (Bool.and_eq_true_iff.mp h).1
      rw [encodeUtf8, if_neg henc, if_neg he]
      rfl

/-- What a write does to the lines of the file and to what stands after the last line break. -/
theorem pieces_write (F : FloatRepr) (room : ℕ) (h : r.Proper) (hw : r.Writable rt)
    (file : Bytes) :
    if (utf8Bytes (r.jsonLine F)).length < room then
      pieces [10] (file ++ (utf8Bytes (r.jsonLine F) ++ [10]).take room) =
        pieces [10] file ++ [rest [10] file ++ utf8Bytes (r.jsonLine F)] ∧
      rest [10] (file ++ (utf8Bytes (r.jsonLine F) ++ [10]).take room) = []
    else
      pieces [10] (file ++ (utf8Bytes (r.jsonLine F) ++ [10]).take room) = pieces [10] file ∧
      rest [10] (file ++ (utf8Bytes (r.jsonLine F) ++ [10]).take room) =
        rest [10] file ++ (utf8Bytes (r.jsonLine F)).take room := by
  have hfile : (10 : UInt8) ∉ rest [10] file := not_mem_rest file
  have hline : 10 ∉ utf8Bytes (r.jsonLine F) := h.newline_not_mem hw.2
  obtain ⟨hp, hr⟩ := pieces_rest_append (show [(10 : UInt8)] ≠ [] by simp) file
    ((utf8Bytes (r.jsonLine F) ++ [10]).take room)
  rw [hp, hr]
  split
  · rename_i hroom
    have hnot : 10 ∉ rest [10] file ++ utf8Bytes (r.jsonLine F) := by simp [hfile, hline]
    obtain ⟨hp', hr'⟩ := pieces_terminated hnot
    rw [List.take_of_length_le (by rw [List.length_append]; exact hroom), ← List.append_assoc, hp', hr']
    exact ⟨rfl, rfl⟩
  · rename_i hroom
    have htake : (utf8Bytes (r.jsonLine F) ++ [10]).take room = (utf8Bytes (r.jsonLine F)).take room :=
      List.take_append_of_le_length (not_lt.mp hroom)
    have hnot : 10 ∉ rest [10] file ++ (utf8Bytes (r.jsonLine F)).take room := by
      simp only [List.mem_append, not_or]
      exact ⟨hfile, fun hmem ↦ hline (List.mem_of_mem_take hmem)⟩
    obtain ⟨hp', hr'⟩ := pieces_of_not_mem hnot
    rw [htake, hp', hr', List.append_nil]
    exact ⟨rfl, rfl⟩

/-! ## Any number of records -/

/-- The lines a number of records add to the file: one for each that is kept, ending with its text,
and nothing else before it if the line is its own. -/
theorem pieces_writes (rt : Runtime) (F : FloatRepr) {history : List (AuditRecord × ℕ)}
    (hp : ∀ x ∈ history, x.1.Proper)
    (own : Bool) (file : Bytes) (hown : own = true → rest [10] file = []) :
    ∃ lines, pieces [10] (writes rt F file history) = pieces [10] file ++ lines ∧
      List.Forall₂ (fun line x ↦ utf8Bytes (x.1.jsonLine F) <:+ line ∧
        (x.2 = true → line = utf8Bytes (x.1.jsonLine F)) ∧ x.1.Proper ∧ x.1.Writable rt)
        lines (kept rt F own history) := by
  induction history generalizing own file with
  | nil => exact ⟨[], (List.append_nil _).symm, .nil⟩
  | cons x history ih =>
      obtain ⟨r, room⟩ := x
      have hr : r.Proper := hp _ List.mem_cons_self
      have hp' := fun x hx ↦ hp x (List.mem_cons_of_mem _ hx)
      by_cases hw : r.Writable rt
      · have hpieces := pieces_write F room hr hw file
        rw [writes, write_of_writable F room file hw, kept, if_neg (not_not.mpr hw)]
        split at hpieces
        · rename_i hroom
          obtain ⟨lines, hlines, hall⟩ := ih hp' true _ fun _ ↦ hpieces.2
          rw [hpieces.1, List.append_assoc] at hlines
          rw [if_pos hroom]
          refine ⟨_, hlines, .cons ⟨List.suffix_append _ _, fun ho ↦ ?_, hr, hw⟩ hall⟩
          rw [hown ho]
          rfl
        · rename_i hroom
          rw [if_neg hroom]
          refine hpieces.1 ▸ ih hp' _ _ fun ho ↦ ?_
          obtain ⟨ho, hzero⟩ := Bool.and_eq_true_iff.mp ho
          rw [hpieces.2, hown ho, beq_iff_eq.mp hzero]
          rfl
      · rw [kept, if_pos hw]
        rcases write_of_not_writable F room file hw with hwrite | hwrite
        · rw [writes, hwrite]
          exact ih hp' own file hown
        · rw [writes, hwrite]
          exact ih hp' own file hown

/-- A write only appends. -/
theorem prefix_writes (history : List (AuditRecord × ℕ)) (file : Bytes) :
    file <+: writes rt F file history := by
  induction history generalizing file with
  | nil => exact List.prefix_refl file
  | cons x history ih =>
      obtain ⟨r, room⟩ := x
      by_cases hw : r.Writable rt
      · rw [writes, write_of_writable F room file hw]
        exact (List.prefix_append file _).trans (ih _)
      · rcases write_of_not_writable F room file hw with hwrite | hwrite
        · rw [writes, hwrite]
          exact ih file
        · rw [writes, hwrite]
          exact ih file

/-- Whatever is written, and however often the disk fails or takes a part of a line only: the file
gains one line for each record whose line is complete, in the order of the records, and a line
that no torn one stands before is read as the record.  Nothing of the file before is lost. -/
theorem lines_read_back (hD : rt.dumpsDepth < D) (history : List (AuditRecord × ℕ))
    (hp : ∀ x ∈ history, x.1.Proper) (file : Bytes) :
    file <+: writes rt F file history ∧
    ∃ lines, pieces [10] (writes rt F file history) = pieces [10] file ++ lines ∧
      List.Forall₂ (fun line x ↦ utf8Bytes (x.1.jsonLine F) <:+ line ∧
        (x.2 = true → ∃ d, Json.loads D line = .ok (.dict d) ∧
          ∀ k, d.lookup k = (x.1.asdict.lookup k).map Value.sorted))
        lines (kept rt F (rest [10] file = []) history) := by
  refine ⟨prefix_writes history file, ?_⟩
  obtain ⟨lines, hlines, hall⟩ :=
    pieces_writes rt F hp (rest [10] file = []) file of_decide_eq_true
  refine ⟨lines, hlines, hall.imp fun line x h ↦ ⟨h.1, fun hown ↦ ?_⟩⟩
  rw [h.2.1 hown]
  exact h.2.2.1.loads_line h.2.2.2 hD

/-- The record of a request by `samplePrincipal`. -/
def sampleRecord : AuditRecord where
  timestamp := 1709251199
  event := "chat_completion"
  keyid := some sampleKey
  subject := str "key:ab12"
  authMethod := "apikey"
  model := .str (str "Qwen/Qwen3-8B-AWQ")
  status := 200
  latencyMs := 25 / 2
  promptTokens := .int 12
  completionTokens := .int 30
  upstream := some sampleUrl
  reason := none
  streamed := false

/-- A record the disk takes twenty bytes of, one it refuses, and two it takes. -/
def sampleHistory : List (AuditRecord × ℕ) :=
  [(sampleRecord, 20), (sampleRecord, 0), (sampleRecord, 1000), (sampleRecord, 1000)]

/-- The line after the torn one is spoilt, the next is not. -/
example : (kept .sample .exact true sampleHistory).map Prod.snd = [false, true] := by
  decide +kernel

theorem proper_sampleRecord : sampleRecord.Proper where
  keyid := fun k hk ↦ by
    cases hk
    decide
  subject := by decide
  upstream := fun u hu ↦ by
    cases hu
    decide
  status := by decide
  writable := by
    intro v hv
    simp only [sampleRecord, List.mem_cons, List.not_mem_nil, or_false] at hv
    rcases hv with rfl | rfl | rfl
    · exact Json.strWritable_str _
    · exact Nat.le_of_ble_eq_true rfl
    · exact Nat.le_of_ble_eq_true rfl
  keysDistinct := by
    intro v hv
    simp only [sampleRecord, List.mem_cons, List.not_mem_nil, or_false] at hv
    rcases hv with rfl | rfl | rfl <;> trivial

theorem lines_read_back_sample :
    [] <+: writes .sample .exact [] sampleHistory ∧
    ∃ lines, pieces [10] (writes .sample .exact [] sampleHistory) = pieces [10] [] ++ lines ∧
      List.Forall₂ (fun line x ↦ utf8Bytes (x.1.jsonLine .exact) <:+ line ∧
        (x.2 = true → ∃ d, Json.loads 901 line = .ok (.dict d) ∧
          ∀ k, d.lookup k = (x.1.asdict.lookup k).map Value.sorted))
        lines (kept .sample .exact (rest [10] ([] : Bytes) = []) sampleHistory) := by
  refine lines_read_back (by decide) sampleHistory (fun x hx ↦ ?_) []
  simp only [sampleHistory, List.mem_cons, List.not_mem_nil, or_false] at hx
  rcases hx with rfl | rfl | rfl | rfl <;> exact proper_sampleRecord

end AuditLog

end InferenceGateway
