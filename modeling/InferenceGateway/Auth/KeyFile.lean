import InferenceGateway.Auth.Persistence
import InferenceGateway.Python.FloatText
import InferenceGateway.Python.Prefix
import InferenceGateway.Python.Sorted

/-!
# The text of the key file

`KeyStore.save` and `KeyStore.reload` of `gateway/auth/keys.py`, down to the bytes.  `save` empties
the file and then writes it, so a process that is stopped in between leaves a beginning of the
text.  `reload` takes an empty file for an empty store (`or "{}"`) and refuses every other
beginning: a torn file never stands for some of the keys (`reloadBytes_take`).
-/

namespace InferenceGateway

open Py Transition

namespace ApiKeyRecord

/-- The fields hold what their types admit, and no string holds a surrogate pair as two
characters. -/
structure Proper (r : ApiKeyRecord) : Prop where
  texts : ∀ s ∈ r.keyid :: r.hash :: r.label :: r.scopes, IsText s
  expiresAt : ∀ t ∈ r.expiresAt, t.Rounded
  ints : ∀ n ∈ r.tokenBudget.toList ++ r.maxConcurrency.toList,
    (Nat.toDigits 10 n.natAbs).length ≤ maxStrDigits
  reread : r.reread = r

variable {r : ApiKeyRecord}

theorem strWritable_of_isText {s : Str} (h : IsText s) : Json.StrWritable true s :=
  fun c hc ↦ ⟨h c hc, fun hascii ↦ nomatch hascii⟩

theorem writableList_map_str {xs : List Str} (h : ∀ s ∈ xs, IsText s) :
    Json.WritableList true (xs.map .str) := by
  induction xs with
  | nil => trivial
  | cons s xs ih =>
      obtain ⟨hs, hxs⟩ := List.forall_mem_cons.mp h
      exact ⟨strWritable_of_isText hs, ih hxs⟩

theorem Proper.writable (h : r.Proper) : Json.Writable true r.toJson := by
  obtain ⟨hkeyid, hhash, hlabel, hscopes⟩ :
      IsText r.keyid ∧ IsText r.hash ∧ IsText r.label ∧ ∀ s ∈ r.scopes, IsText s := by
    simpa using h.texts
  have hexpires : Json.Writable true (.ofOption .float r.expiresAt) := by
    cases hr : r.expiresAt with
    | none => trivial
    | some t => exact h.expiresAt t hr
  have hint {n : Option ℤ}
      (hn : ∀ m ∈ n.toList, m ∈ r.tokenBudget.toList ++ r.maxConcurrency.toList) :
      Json.Writable true (.ofOption .int n) := by
    cases n with
    | none => trivial
    | some m => exact h.ints m (hn m (by simp))
  refine Value.writableFields_iff.mpr fun kv hkv ↦ ?_
  simp only [items, List.mem_cons, List.not_mem_nil, or_false] at hkv
  obtain rfl | rfl | rfl | rfl | rfl | rfl | rfl | rfl := hkv
  all_goals refine ⟨Json.strWritable_str _, ?_⟩
  · exact strWritable_of_isText hkeyid
  · exact strWritable_of_isText hhash
  · exact writableList_map_str hscopes
  · exact hexpires
  · trivial
  · exact strWritable_of_isText hlabel
  · exact hint fun m hm ↦ List.mem_append_left _ hm
  · exact hint fun m hm ↦ List.mem_append_right _ hm

theorem depth_toJson_le (r : ApiKeyRecord) : r.toJson.depth ≤ 2 := by
  have hscopes : Value.depthList (r.scopes.map .str) = 0 := by
    induction r.scopes with
    | nil => rfl
    | cons s xs ih => rw [List.map_cons, Value.depthList, ih]; rfl
  have hexpires : (Value.ofOption .float r.expiresAt).depth = 0 := by
    cases r.expiresAt <;> rfl
  have hint (n : Option ℤ) : (Value.ofOption .int n).depth = 0 := by
    cases n <;> rfl
  simp [toJson, items, Value.depth, Value.depthFields, hscopes, hexpires, hint]

end ApiKeyRecord

namespace KeyStore

variable (D : ℕ) (F : FloatRepr) (room : ℕ) (s : KeyStore)

/-- `json.dumps(payload, indent=2)`. -/
def text : Str := Json.dumps F { indent := some 2 } s.payload

/-- `save`: what is in the file afterwards, if the disk takes `room` bytes. -/
def saveBytes : Except Exc Bytes :=
  if s.payload.writable then (encodeUtf8 (s.text F)).map (List.take room) else .error .valueError

/-- `reload`, with the bytes of the file, if there is one. -/
def reloadBytes (file : Option Bytes) : Except LoadExn KeyStore := match file with
  | none => s.readFrom none
  | some b => match readText b with
    | .error e => .error (.builtin e)
    | .ok text => match Json.loadsStr D (if text.isEmpty then str "\x7b\x7d" else text) with
      | .error e => .error (.builtin e)
      | .ok doc => s.readFrom (some doc)

/-- `KeyStore(path)`, with the bytes of the file. -/
def openedBytes (file : Option Bytes) : Except LoadExn KeyStore :=
  ({} : KeyStore).reloadBytes D file

variable {D F room s}

/-! ## The payload -/

theorem writable_payload (h : ∀ r ∈ s.entries, r.Proper) : Json.Writable true s.payload := by
  have hlist : Json.WritableList true (s.entries.map ApiKeyRecord.toJson) := by
    generalize s.entries = rs at h
    induction rs with
    | nil => trivial
    | cons r rs ih =>
        obtain ⟨hr, hrs⟩ := List.forall_mem_cons.mp h
        exact ⟨hr.writable, ih hrs⟩
  exact ⟨Json.strWritable_str _, hlist, trivial⟩

theorem depth_payload_le (s : KeyStore) : s.payload.depth ≤ 4 := by
  have hlist : Value.depthList (s.entries.map ApiKeyRecord.toJson) ≤ 2 := by
    induction s.entries with
    | nil => exact Nat.zero_le 2
    | cons r rs ih => exact max_le r.depth_toJson_le ih
  simp only [payload, Value.depth, Value.depthFields]
  omega

/-! ## The text -/

theorem ascii_of_mem_text {c : ℕ} (h : Json.Writable true s.payload) (hc : c ∈ s.text F) :
    c < 128 ∧ c ≠ 13 := by
  have hprints : (⟨true, some 2, false⟩ : Json.Style).Prints c := Json.prints_of_mem_dumps h hc
  refine ⟨lt_trans (hprints.ascii rfl) (by decide), ?_⟩
  rcases hprints.not_control with hlt | ⟨rfl, -⟩
  · omega
  · decide

theorem saveBytes_eq (h : Json.Writable true s.payload) (room : ℕ) :
    s.saveBytes F room = .ok (utf8Bytes ((s.text F).take room)) := by
  have hw : s.payload.writable := Value.writable_of_writable h
  have hascii : ∀ c ∈ s.text F, c < 128 := fun c hc ↦ (ascii_of_mem_text h hc).1
  rw [saveBytes, if_pos hw, encodeUtf8, if_pos (Json.encodable_of_ascii hascii),
    ← take_utf8Bytes hascii]
  rfl

/-- A file that `save` has begun to write stands for no keys if nothing was written, for all of
them if everything was, and for nothing otherwise. -/
theorem reloadBytes_take (h : Json.Writable true s.payload) (hD : 4 ≤ D) (t : KeyStore) :
    t.reloadBytes D (some (utf8Bytes ((s.text F).take room))) =
      if room = 0 then .ok { t with records := [] }
      else if room < (s.text F).length then .error (.builtin .valueError)
      else t.readFrom (some s.payload.reread) := by
  have hd : s.payload.depth ≤ D := s.depth_payload_le.trans hD
  have hread : readText (utf8Bytes ((s.text F).take room)) = .ok ((s.text F).take room) :=
    readText_utf8Bytes fun c hc ↦ ascii_of_mem_text h (List.mem_of_mem_take hc)
  have hne : s.text F ≠ [] := by
    obtain ⟨c, rest, htext, -⟩ := Json.dumps_eq_cons F { indent := some 2 } h
    rw [text, htext]
    exact List.cons_ne_nil c rest
  simp only [reloadBytes, hread]
  by_cases hzero : room = 0
  · have hbraces : Json.loadsStr D (str "\x7b\x7d") = .ok (.dict []) :=
      Json.loadsStr_dumps F {} (w := .dict []) trivial (by
        show 1 ≤ D
        omega)
    rw [if_pos hzero, hzero, List.take_zero]
    simp only [List.isEmpty_nil, if_true, hbraces]
    rfl
  · have hnil : (s.text F).take room ≠ [] := by simp [hne, hzero]
    have hempty : ((s.text F).take room).isEmpty = false := by simpa using hnil
    rw [if_neg hzero, hempty]
    by_cases hlt : room < (s.text F).length
    · have hdrop : (s.text F).drop room ≠ [] := by simpa using hlt
      have htorn := Json.loadsStr_torn h hd (List.take_append_drop room (s.text F)).symm hnil hdrop
      rw [if_pos hlt]
      simp only [Bool.false_eq_true, if_false, htorn]
    · have hloads : Json.loadsStr D (s.text F) = .ok s.payload.reread :=
        Json.loadsStr_dumps F { indent := some 2 } h hd
      rw [if_neg hlt, List.take_of_length_le (not_lt.mp hlt)]
      simp only [Bool.false_eq_true, if_false, hloads]

theorem reread_eq_of_proper (h : ∀ r ∈ s.entries, r.Proper) : s.payload.reread = s.payload := by
  have hw : s.payload.writable := Value.writable_of_writable (writable_payload h)
  have hjson := rewritten_payload hw fun r hr ↦ (h r hr).reread
  rw [Json.rewritten, if_pos hw] at hjson
  exact Except.ok.inj hjson

/-- Everything that was saved is read back. -/
theorem Keyed.openedBytes_text (hs : s.Keyed) (h : ∀ r ∈ s.entries, r.Proper) (hD : 4 ≤ D)
    (hroom : (s.text F).length ≤ room) :
    ∃ t, openedBytes D (some (utf8Bytes ((s.text F).take room))) = .ok t ∧ t.table = s.table ∧
      t.Keyed := by
  have hne : s.text F ≠ [] := by
    obtain ⟨c, rest, htext, -⟩ :=
      Json.dumps_eq_cons F { indent := some 2 } (writable_payload h)
    rw [text, htext]
    exact List.cons_ne_nil c rest
  have hpos : 0 < (s.text F).length := List.length_pos_iff.mpr hne
  rw [openedBytes, reloadBytes_take (writable_payload h) hD, if_neg (by omega),
    if_neg (not_lt.mpr hroom), reread_eq_of_proper h]
  exact hs.readFrom_payload {}

/-! ## A save that is cut short -/

variable {doc : Option Value} {s₀ : KeyStore} {es : List Event}

/-- Whatever has been done to a store, and wherever a `save` of it stops: the next store that is
opened on the file has no keys if nothing was written, all of them if everything was, each accepted
as before, and is not opened at all otherwise. -/
theorem save_cut (h₀ : opened doc = .ok s₀) (hrun : Run (Steps step) s₀ es s)
    (hp : ∀ r ∈ s.entries, r.Proper) (hD : 4 ≤ D) (room : ℕ) :
    ∃ b, s.saveBytes F room = .ok b ∧
      (room = 0 → ∃ t, openedBytes D (some b) = .ok t ∧ ∀ keyid, t.get keyid = none) ∧
      (0 < room → room < (s.text F).length →
        openedBytes D (some b) = .error (.builtin .valueError)) ∧
      ((s.text F).length ≤ room → ∃ t, openedBytes D (some b) = .ok t ∧ t.table = s.table ∧
        ∀ (A : PasswordHasher) (pepper p : Str) (now : Double),
          t.verify A pepper p now = s.verify A pepper p now) := by
  have hs := keyed_of_run h₀ hrun
  have hw := writable_payload hp
  refine ⟨_, saveBytes_eq hw room, ?_, ?_, ?_⟩
  · intro hzero
    refine ⟨{}, ?_, fun keyid ↦ rfl⟩
    rw [openedBytes, reloadBytes_take hw hD, if_pos hzero]
  · intro hpos hlt
    rw [openedBytes, reloadBytes_take hw hD, if_neg (by omega), if_pos hlt]
  · intro hle
    obtain ⟨t, ht, htable, hkeyed⟩ := hs.openedBytes_text hp hD hle
    refine ⟨t, ht, htable, fun A pepper p now ↦ verify_congr fun keyid ↦ ?_⟩
    rw [hkeyed.get_eq, hs.get_eq, htable]

/-- The record of `sampleEvents`. -/
def sampleRevoked : ApiKeyRecord :=
  { keyid := str "a1", hash := str "h", scopes := [str "chat", str "admin"]
    expiresAt := some (.finite 5), revoked := true, label := str "ops", tokenBudget := some 0
    maxConcurrency := some 2 }

/-- A text that stops in the middle. -/
theorem save_cut_revoked : ∃ s b, Run (Steps step) {} sampleEvents s ∧
    s.saveBytes .exact 100 = .ok b ∧ openedBytes 900 (some b) = .error (.builtin .valueError) := by
  let s : KeyStore := { heap := [sampleRevoked], records := [(str "a1", 0)] }
  have hrun : Run (Steps step) {} sampleEvents s := .ofExec rfl
  have hproper : ∀ r ∈ s.entries, r.Proper := by
    intro r hr
    obtain rfl : r = sampleRevoked := List.mem_singleton.mp hr
    refine ⟨by decide, fun t ht ↦ ?_, by decide, rfl⟩
    cases ht
    exact (by decide +kernel : Double.round 5 = .finite 5)
  have hopened : opened none = .ok {} := rfl
  obtain ⟨b, hb, -, htorn, -⟩ :=
    save_cut (F := .exact) (D := 900) hopened hrun hproper (by decide) 100
  exact ⟨s, b, hrun, hb, htorn (by decide) (by decide +kernel)⟩

end KeyStore

end InferenceGateway
