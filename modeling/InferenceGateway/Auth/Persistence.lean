import InferenceGateway.Auth.Issued

/-!
# The key file

`to_json` and `from_json`, and the document that `save` writes and `reload` reads, field by field.
`KeyStore.save` and `KeyStore.reload` keep records for the entries of the file; here is what is in
it, and that the two agree (`KeyStore.readFrom_save`).

The document is an arbitrary JSON value, for the file may have been edited.  A field that is not of
the type `ApiKeyRecord` declares for it leads out of the model, into `LoadExn.untyped`: the record
that `from_json` makes of it cannot be stated.
-/

namespace InferenceGateway

open Py Transition

/-- Why a document is not read. -/
inductive LoadExn where
  /-- `KeyError`. -/
  | keyError
  /-- An exception of the interpreter. -/
  | builtin (e : Exc)
  /-- None: a record holds a value of another type than its field. -/
  | untyped
  deriving DecidableEq

/-! ## Records -/

namespace ApiKeyRecord

/-- The items of the dictionary of `to_json`. -/
def items (r : ApiKeyRecord) : Fields :=
  [(str "keyid", .str r.keyid),
    (str "hash", .str r.hash),
    (str "scopes", .list (r.scopes.map .str)),
    (str "expires_at", .ofOption .float r.expiresAt),
    (str "revoked", .bool r.revoked),
    (str "label", .str r.label),
    (str "token_budget", .ofOption .int r.tokenBudget),
    (str "max_concurrency", .ofOption .int r.maxConcurrency)]

/-- `to_json`. -/
def toJson (r : ApiKeyRecord) : Value := .dict r.items

/-- `raw.get("scopes") or []`. -/
def scopesField (raw : Fields) : Value :=
  let scopes := raw.get (str "scopes")
  if scopes.truthy then scopes else .list []

/-- The record that `from_json` makes, if its fields are of their types. -/
def ofItems (keyid hash : Value) (raw : Fields) : Option ApiKeyRecord := do
  return { keyid := ← keyid.str?
           hash := ← hash.str?
           scopes := ← (scopesField raw).strs?
           expiresAt := ← (raw.get (str "expires_at")).optFloat?
           revoked := (raw.getD (str "revoked") (.bool false)).truthy
           label := ← (raw.getD (str "label") (.str [])).str?
           tokenBudget := ← (raw.get (str "token_budget")).optInt?
           maxConcurrency := ← (raw.get (str "max_concurrency")).optInt? }

/-- `from_json`, of an entry of the document: what is no dictionary has no `["keyid"]`. -/
def fromJson : Value → Except LoadExn ApiKeyRecord
  | .dict raw => match raw.lookup (str "keyid"), raw.lookup (str "hash") with
    | some keyid, some hash => match ofItems keyid hash raw with
      | some r => .ok r
      | none => .error .untyped
    | _, _ => .error .keyError
  | _ => .error (.builtin .typeError)

variable (r : ApiKeyRecord)

theorem scopesField_items : scopesField r.items = .list (r.scopes.map .str) := by
  show (if (Value.list (r.scopes.map .str)).truthy then _ else _) = _
  split
  · rfl
  · rename_i h
    cases hs : r.scopes with
    | nil => rfl
    | cons scope scopes => simp [Value.truthy, hs] at h

theorem ofItems_items : ofItems (.str r.keyid) (.str r.hash) r.items = some r := by
  have hexpires : r.items.get (str "expires_at") = .ofOption .float r.expiresAt := rfl
  have hbudget : r.items.get (str "token_budget") = .ofOption .int r.tokenBudget := rfl
  have hcap : r.items.get (str "max_concurrency") = .ofOption .int r.maxConcurrency := rfl
  unfold ofItems
  rw [scopesField_items, hexpires, hbudget, hcap, Value.strs?_map, Value.optFloat?_ofOption,
    Value.optInt?_ofOption, Value.optInt?_ofOption]
  rfl

/-- `from_json` inverts `to_json`, in every field. -/
theorem fromJson_toJson : fromJson r.toJson = .ok r := by
  have hkeyid : r.items.lookup (str "keyid") = some (.str r.keyid) := rfl
  have hhash : r.items.lookup (str "hash") = some (.str r.hash) := rfl
  rw [toJson, fromJson, hkeyid, hhash]
  simp only [ofItems_items]

/-- The keys that `to_json` writes. -/
theorem keys_items : r.items.map Prod.fst = [str "keyid", str "hash", str "scopes",
    str "expires_at", str "revoked", str "label", str "token_budget", str "max_concurrency"] := rfl

/-- The dictionary of a record through the text of the file. -/
theorem reread_toJson : r.toJson.reread = r.reread.toJson := by
  have hscopes : (Value.list (r.scopes.map .str)).reread =
      .list ((r.scopes.map (Json.joinPairs none)).map .str) := by
    rw [Value.reread, Value.rereadList_eq, List.map_map, List.map_map]
    rfl
  have hexpires : (Value.ofOption .float r.expiresAt).reread = .ofOption .float r.expiresAt := by
    cases r.expiresAt <;> rfl
  have hint : ∀ n : Option ℤ, (Value.ofOption .int n).reread = .ofOption .int n := by
    intro n
    cases n <;> rfl
  rw [toJson, Value.reread, Value.rereadFields_eq, List.nil_append]
  · simp only [items, List.map_cons, List.map_nil, hscopes, hexpires, hint]
    rfl
  · rw [keys_items]
    decide
  · rw [List.nil_append, keys_items]
    decide

end ApiKeyRecord

/-! ## The document -/

namespace KeyStore

variable (s : KeyStore)

/-- `_records.values()`. -/
def entries : List ApiKeyRecord := s.records.filterMap fun kv ↦ s.heap[kv.2]?

/-- The `payload` of `save`. -/
def payload : Value := .dict [(str "keys", .list (s.entries.map ApiKeyRecord.toJson))]

/-- The document that is in the file after `save`, unless `dumps` raises. -/
def written : Except Exc Value := Json.rewritten s.payload

/-- The records of a document, `raw.get("keys", [])` one after another. -/
def recordsOf : Value → Except LoadExn (List ApiKeyRecord)
  | .dict raw => match (Fields.getD raw (str "keys") (.list [])).elements with
    | .error e => .error (.builtin e)
    | .ok xs => xs.mapM ApiKeyRecord.fromJson
  | _ => .error (.builtin .attributeError)

/-- `reload`, with what `json.loads` returns for the file, if there is one. -/
def readFrom : Option Value → Except LoadExn KeyStore
  | none => .ok { s with records := [] }
  | some doc => match recordsOf doc with
    | .error e => .error e
    | .ok rs => .ok (rs.foldl load { s with records := [] })

/-- `KeyStore(path)`. -/
def opened (doc : Option Value) : Except LoadExn KeyStore := ({} : KeyStore).readFrom doc

/-- `_records`, with the records for the places they have in the heap. -/
def table : Dict Str ApiKeyRecord := s.records.filterMapValues fun i ↦ s.heap[i]?

/-- `_records` leads from each key id to a record with this key id, and holds it once. -/
structure Keyed : Prop where
  nodup : (s.records.map Prod.fst).Nodup
  sound : s.Sound fun _ ↦ True

variable {s} {r : ApiKeyRecord}

/-- A record that is found is an entry. -/
theorem mem_entries {keyid : Str} (h : s.get keyid = some r) : r ∈ s.entries := by
  obtain ⟨i, hi, hr⟩ := Option.bind_eq_some_iff.mp h
  obtain ⟨l, l', hl, -⟩ := List.lookup_eq_some_iff.mp hi
  refine List.mem_filterMap.mpr ⟨(keyid, i), ?_, hr⟩
  rw [hl]
  exact List.mem_append_right l List.mem_cons_self

namespace Keyed

/-- Every item of `_records` leads to a record with its key id. -/
theorem found (h : s.Keyed) {kv : Str × ℕ} (hkv : kv ∈ s.records) :
    ∃ r, s.heap[kv.2]? = some r ∧ r.keyid = kv.1 :=
  h.sound.records kv.1 kv.2 (Dict.lookup_of_mem h.nodup hkv)

theorem isSome (h : s.Keyed) : ∀ kv ∈ s.records, (s.heap[kv.2]?).isSome := by
  intro kv hkv
  obtain ⟨r, hr, -⟩ := h.found hkv
  rw [hr]
  rfl

theorem empty (s : KeyStore) : ({ s with records := [] } : KeyStore).Keyed := by
  refine ⟨List.nodup_nil, fun _ _ ↦ trivial, ?_, fun _ _ ↦ trivial⟩
  intro k i hi
  cases hi

theorem alloc (h : s.Keyed) (r : ApiKeyRecord) : (s.alloc r).Keyed :=
  ⟨h.nodup, h.sound.alloc trivial⟩

theorem add (h : s.Keyed) (i : ℕ) : (s.add i).Keyed := by
  refine ⟨?_, h.sound.add i⟩
  unfold KeyStore.add
  split
  · exact h.nodup
  · exact Dict.nodup_set h.nodup

theorem assign (h : s.Keyed) (i : ℕ) (new : ApiKeyRecord) : (s.assign i new).Keyed := by
  refine ⟨?_, h.sound.assign (fun _ _ _ _ ↦ trivial) i new⟩
  unfold KeyStore.assign
  split
  · exact h.nodup
  · exact h.nodup

theorem revoke (h : s.Keyed) (keyid : Str) : (s.revoke keyid).1.Keyed := by
  unfold KeyStore.revoke
  split
  · exact h
  · split
    · exact h
    · exact h.assign _ _

theorem load (h : s.Keyed) (r : ApiKeyRecord) : (s.load r).Keyed := (h.alloc r).add _

/-- Looking a key id up. -/
theorem get_eq (h : s.Keyed) (keyid : Str) : s.get keyid = s.table.lookup keyid :=
  (Dict.lookup_filterMapValues h.isSome).symm

theorem keyid_of_mem (h : s.Keyed) {kv : Str × ApiKeyRecord} (hkv : kv ∈ s.table) :
    kv.2.keyid = kv.1 := by
  obtain ⟨ki, hki, hr⟩ := List.mem_filterMap.mp hkv
  obtain ⟨r, hr', hk⟩ := h.found hki
  obtain rfl : (ki.1, r) = kv := by simpa [hr'] using hr
  exact hk

/-- Each record is entered under its own key id. -/
theorem table_eq (h : s.Keyed) : s.table = s.entries.map fun r ↦ (r.keyid, r) := by
  have hentries : s.entries = s.table.map Prod.snd := by
    rw [table, Dict.filterMapValues, List.map_filterMap]
    simp [entries, Function.comp_def]
  calc s.table = s.table.map id := (List.map_id _).symm
    _ = s.table.map fun kv ↦ (kv.2.keyid, kv.2) :=
      List.map_congr_left fun kv hkv ↦ Prod.ext (h.keyid_of_mem hkv).symm rfl
    _ = s.entries.map fun r ↦ (r.keyid, r) := by
      rw [hentries, List.map_map]
      rfl

theorem nodup_entries (h : s.Keyed) : (s.entries.map ApiKeyRecord.keyid).Nodup := by
  have hkeys : s.entries.map ApiKeyRecord.keyid = s.table.map Prod.fst := by
    rw [h.table_eq, List.map_map]
    rfl
  rw [hkeys, table, Dict.keys_filterMapValues h.isSome]
  exact h.nodup

/-- A new record changes nothing before it is added. -/
theorem table_alloc (h : s.Keyed) (r : ApiKeyRecord) : (s.alloc r).table = s.table := by
  refine List.filterMap_congr fun kv hkv ↦ ?_
  obtain ⟨r', hr', -⟩ := h.found hkv
  have hlt : kv.2 < s.heap.length := (List.getElem?_eq_some_iff.mp hr').1
  have hget : (s.alloc r).heap[kv.2]? = s.heap[kv.2]? := List.getElem?_append_left hlt
  exact congrArg (Option.map (Prod.mk kv.1)) hget

/-- `add` is an assignment to the key id of the record. -/
theorem table_add (h : s.Keyed) {i : ℕ} (hi : s.heap[i]? = some r) :
    (s.add i).table = s.table.set r.keyid r := by
  rw [KeyStore.add, hi]
  exact Dict.set_filterMapValues h.isSome hi

theorem table_load (h : s.Keyed) (r : ApiKeyRecord) :
    (s.load r).table = s.table.set r.keyid r := by
  have hi : (s.alloc r).heap[s.heap.length]? = some r := List.getElem?_concat_length
  rw [KeyStore.load, (h.alloc r).table_add hi, h.table_alloc]

theorem foldl_load (h : s.Keyed) (rs : List ApiKeyRecord) :
    (rs.foldl KeyStore.load s).Keyed ∧
      (rs.foldl KeyStore.load s).table = rs.foldl (fun d r ↦ d.set r.keyid r) s.table := by
  induction rs generalizing s with
  | nil => exact ⟨h, rfl⟩
  | cons r rs ih =>
      obtain ⟨hkeyed, htable⟩ := ih (h.load r)
      rw [h.table_load] at htable
      exact ⟨hkeyed, htable⟩

end Keyed

/-! ## Writing and reading -/

variable {doc : Option Value} {t s₀ : KeyStore}

theorem mapM_fromJson (rs : List ApiKeyRecord) :
    (rs.map ApiKeyRecord.toJson).mapM ApiKeyRecord.fromJson = .ok rs := by
  induction rs with
  | nil => rfl
  | cons r rs ih =>
      rw [List.map_cons, List.mapM_cons, ApiKeyRecord.fromJson_toJson, ih]
      rfl

/-- What is read from a document that holds these records. -/
theorem readFrom_entries (t : KeyStore) (rs : List ApiKeyRecord) :
    t.readFrom (some (.dict [(str "keys", .list (rs.map ApiKeyRecord.toJson))])) =
      .ok (rs.foldl load { t with records := [] }) := by
  have hkeys : Fields.getD [(str "keys", .list (rs.map ApiKeyRecord.toJson))] (str "keys")
      (.list []) = .list (rs.map ApiKeyRecord.toJson) := rfl
  rw [readFrom, recordsOf, hkeys, Value.elements]
  simp only [mapM_fromJson]

/-- A document that is read leaves a store that is in order. -/
theorem keyed_of_readFrom (h : t.readFrom doc = .ok s) : s.Keyed := by
  unfold readFrom at h
  split at h
  · cases h
    exact Keyed.empty t
  · split at h
    · cases h
    · cases h
      exact ((Keyed.empty t).foldl_load _).1

/-- A store that is read from its own payload has the same table. -/
theorem Keyed.readFrom_payload (h : s.Keyed) (t : KeyStore) :
    ∃ t', t.readFrom (some s.payload) = .ok t' ∧ t'.table = s.table ∧ t'.Keyed := by
  obtain ⟨hkeyed, htable⟩ := (Keyed.empty t).foldl_load s.entries
  refine ⟨_, readFrom_entries t s.entries, ?_, hkeyed⟩
  rw [htable, h.table_eq]
  exact Dict.foldl_set h.nodup_entries

/-- A key is judged by the table alone. -/
theorem verify_congr {A : PasswordHasher} {pepper p : Str} {now : Double}
    (h : ∀ keyid, t.get keyid = s.get keyid) :
    t.verify A pepper p now = s.verify A pepper p now := by
  have hget : t.get = s.get := funext h
  unfold verify
  rw [hget]

/-! ## Runs -/

/-- What is done to the store and to the records. -/
inductive Event where
  /-- A record object is made. -/
  | create (r : ApiKeyRecord)
  | add (i : ℕ)
  | revoke (keyid : Str)
  /-- An attribute of a record object is assigned to, other than the key id and the hash. -/
  | assign (i : ℕ) (new : ApiKeyRecord)

/-- A step. -/
def step (s : KeyStore) : Event → Option KeyStore
  | .create r => some (s.alloc r)
  | .add i => some (s.add i)
  | .revoke keyid => some (s.revoke keyid).1
  | .assign i new => some (s.assign i new)

variable {e : Event} {es : List Event}

theorem Keyed.step (h : s.Keyed) (hs : Steps KeyStore.step s e t) : t.Keyed := by
  cases e with
  | create r =>
      cases hs
      exact h.alloc r
  | add i =>
      cases hs
      exact h.add i
  | revoke keyid =>
      cases hs
      exact h.revoke keyid
  | assign i new =>
      cases hs
      exact h.assign i new

theorem keyed_of_run (h₀ : opened doc = .ok s₀) (hrun : Run (Steps step) s₀ es s) : s.Keyed :=
  hrun.invariant (fun hs h ↦ h.step hs) (keyed_of_readFrom h₀)

/-- Whatever has been done to a store, what `save` writes is read into the same table, by the store
itself or by another one, if the `json` module gives back what it was given. -/
theorem save_reload_lossless (h₀ : opened doc = .ok s₀) (hrun : Run (Steps step) s₀ es s)
    (hjson : Json.rewritten s.payload = .ok s.payload) (t : KeyStore) :
    ∃ saved t', s.written = .ok saved ∧ t.readFrom (some saved) = .ok t' ∧ t'.table = s.table ∧
      (∀ keyid, t'.get keyid = s.get keyid) ∧ (∀ keyid r, t'.get keyid = some r → r.keyid = keyid) ∧
      ∀ (A : PasswordHasher) (pepper p : Str) (now : Double),
        t'.verify A pepper p now = s.verify A pepper p now := by
  have hs := keyed_of_run h₀ hrun
  obtain ⟨t', hread, htable, ht'⟩ := hs.readFrom_payload t
  have hget : ∀ keyid, t'.get keyid = s.get keyid := by
    intro keyid
    rw [ht'.get_eq, hs.get_eq, htable]
  refine ⟨s.payload, t', hjson, hread, htable, hget, ?_, fun A pepper p now ↦ verify_congr hget⟩
  intro keyid r hr
  rw [ht'.get_eq] at hr
  obtain ⟨l, l', hl, -⟩ := List.lookup_eq_some_iff.mp hr
  have hmem : (keyid, r) ∈ t'.table := by
    rw [hl]
    exact List.mem_append_right l List.mem_cons_self
  exact ht'.keyid_of_mem hmem

/-! ## With the text of the file -/

/-- The document that is in the file holds the records as they are read back. -/
theorem reread_payload : s.payload.reread =
    .dict [(str "keys", .list ((s.entries.map ApiKeyRecord.reread).map ApiKeyRecord.toJson))] := by
  have hentries : (Value.list (s.entries.map ApiKeyRecord.toJson)).reread =
      .list ((s.entries.map ApiKeyRecord.reread).map ApiKeyRecord.toJson) := by
    rw [Value.reread, Value.rereadList_eq, List.map_map, List.map_map]
    exact congrArg Value.list (List.map_congr_left fun r _ ↦ r.reread_toJson)
  rw [payload, Value.reread, Value.rereadFields_eq, List.nil_append]
  · simp only [List.map_cons, List.map_nil, hentries]
  · exact (by decide : ∀ k ∈ [str "keys"], ∀ c ∈ k, c < 128)
  · exact List.pairwise_singleton _ (str "keys")

theorem eq_of_written {saved : Value} (h : s.written = .ok saved) : saved = s.payload.reread := by
  unfold written Json.rewritten at h
  split at h
  · exact (Except.ok.inj h).symm
  · cases h

/-- `save` and `reload`, in terms of records, are what the document says. -/
theorem readFrom_save {saved : Value} (h : s.written = .ok saved) :
    s.save.readFrom (some saved) = .ok s.save.reload := by
  rw [eq_of_written h, reread_payload, readFrom_entries, List.foldl_map]
  rfl

/-- A payload of short integers and of texts without surrogate pairs is given back. -/
theorem rewritten_payload (hw : s.payload.writable) (hr : ∀ r ∈ s.entries, r.reread = r) :
    Json.rewritten s.payload = .ok s.payload := by
  have hmap : s.entries.map ApiKeyRecord.reread = s.entries := by
    calc s.entries.map ApiKeyRecord.reread = s.entries.map id := List.map_congr_left hr
      _ = s.entries := List.map_id _
  rw [Json.rewritten, if_pos hw, reread_payload, hmap, payload]

/-! ## A revoked key -/

/-- A record with everything set, added and then revoked. -/
def sampleEvents : List Event :=
  [.create { keyid := str "a1", hash := str "h", scopes := [str "chat", str "admin"]
             expiresAt := some (.finite 5), label := str "ops", tokenBudget := some 0
             maxConcurrency := some 2 }, .add 0, .revoke (str "a1")]

/-- The revocation is in the file, and so is everything else. -/
theorem save_reload_lossless_revoked : ∃ s saved t', Run (Steps step) {} sampleEvents s ∧
    s.written = .ok saved ∧ KeyStore.readFrom {} (some saved) = .ok t' ∧ t'.table = s.table ∧
      (t'.get (str "a1")).any ApiKeyRecord.revoked := by
  let r : ApiKeyRecord :=
    { keyid := str "a1", hash := str "h", scopes := [str "chat", str "admin"]
      expiresAt := some (.finite 5), revoked := true, label := str "ops", tokenBudget := some 0
      maxConcurrency := some 2 }
  let s : KeyStore := { heap := [r], records := [(str "a1", 0)] }
  have hrun : Run (Steps step) {} sampleEvents s := .ofExec rfl
  have hjson : Json.rewritten s.payload = .ok s.payload := rfl
  have hopened : opened none = .ok {} := rfl
  obtain ⟨saved, t', hw, hread, htable, hget, -⟩ := save_reload_lossless hopened hrun hjson {}
  refine ⟨s, saved, t', hrun, hw, hread, htable, ?_⟩
  rw [hget]
  rfl

end KeyStore

end InferenceGateway
