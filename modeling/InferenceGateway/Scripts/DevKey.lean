import InferenceGateway.Auth.KeyFile

/-!
# The development keys

`scripts/dev_key.sh`: a run sets the pepper if the environment does not, opens the key store on the
file, mints a key, adds its record, saves the store, and shows the plaintext once.  A run that fails
before it saves changes nothing and shows nothing.

However many runs there are, what each of them has shown is the text of a record of the file, up to
a later run that draws the same key id; and a gateway accepts it if and only if its pepper is the one
that run has minted under (`devKeys_verify`).
-/

namespace InferenceGateway

open Py

/-- What a run of the script depends on. -/
structure DevRun (A : PasswordHasher) where
  /-- `API_KEY_PEPPER` in the environment of the script, if it is set. -/
  env : Option Str
  draw : Draw A
  now : Double

/-- `"${API_KEY_PEPPER:-local-dev-pepper-not-a-secret}"`, under which the run mints: unset and empty
are the same. -/
def DevRun.pepper {A : PasswordHasher} (x : DevRun A) : Str :=
  match x.env with
  | some (c :: s) => c :: s
  | _ => str "local-dev-pepper-not-a-secret"

/-- How the script fails. -/
inductive DevKeyExn where
  | load (e : LoadExn)
  | mint (e : KeyExn)
  | save (e : Exc)

variable (A : PasswordHasher) (D : ℕ) (F : FloatRepr)

/-- `mint_key(scopes=["chat"], label="local-dev")`. -/
def DevRun.minted (x : DevRun A) : Except KeyExn (Str × ApiKeyRecord) :=
  mintKey A x.pepper { scopes := some [str "chat"], label := str "local-dev" } x.draw x.now

/-- A run of `dev_key.sh` on the file of the store: the file, and the key it shows. -/
def devKey (x : DevRun A) (file : Option Bytes) : Except DevKeyExn (Bytes × Str) :=
  match KeyStore.openedBytes D file with
  | .error e => .error (.load e)
  | .ok store => match x.minted with
    | .error e => .error (.mint e)
    | .ok (plaintext, record) =>
      let store := store.load record
      match store.saveBytes F (store.text F).length with
      | .error e => .error (.save e)
      | .ok b => .ok (b, plaintext)

/-- The file after some runs. -/
def devKeys (file : Option Bytes) : List (DevRun A) → Option Bytes
  | [] => file
  | x :: xs => match devKey A D F x file with
    | .ok (b, _) => devKeys (some b) xs
    | .error _ => devKeys file xs

/-! ## One run -/

variable {A D F} {x : DevRun A} {file : Option Bytes} {d : Dict Str ApiKeyRecord}

/-- The key id a run draws. -/
def DevRun.keyid (x : DevRun A) : Str := tokenHex x.draw.id

/-- The secret a run draws. -/
def DevRun.secret (x : DevRun A) : Str := tokenUrlsafe x.draw.key

/-- The record of a run. -/
def DevRun.record (x : DevRun A) : ApiKeyRecord :=
  { keyid := x.keyid, hash := A.digest x.draw.salt (x.secret ++ x.pepper)
    scopes := [str "chat"], label := str "local-dev" }

/-- What a run shows. -/
def DevRun.shown (x : DevRun A) : Str := plaintext true x.keyid x.secret

theorem DevRun.ascii_secret (x : DevRun A) : ∀ c ∈ x.secret, c < 128 :=
  fun _ hc ↦ isUrlsafe_lt (isUrlsafe_of_mem_tokenUrlsafe hc)

theorem DevRun.encodable_secret (x : DevRun A) (pepper : Str) :
    encodable (x.secret ++ pepper) = encodable pepper := by
  rw [Json.encodable_append, Json.encodable_of_ascii x.ascii_secret, Bool.true_and]

theorem DevRun.minted_eq (x : DevRun A) : x.minted =
    if encodable x.pepper then .ok (x.shown, x.record) else .error (.builtin .unicodeEncodeError) := by
  have henc : encodable (tokenUrlsafe x.draw.key ++ x.pepper) = encodable x.pepper :=
    x.encodable_secret x.pepper
  simp only [DevRun.minted, mintKey, PasswordHasher.hash, henc]
  by_cases he : encodable x.pepper
  · simp only [he, if_true]
    rfl
  · simp only [he, Bool.false_eq_true, if_false]

theorem DevRun.proper_record (x : DevRun A) : x.record.Proper := by
  have hkeyid : ∀ c ∈ x.keyid, c < 128 := fun _ hc ↦ isHex_lt (isHex_of_mem_tokenHex hc)
  have hhash : ∀ c ∈ x.record.hash, c < 128 := A.digest_ascii _ _
  have htext {s : Str} (hs : ∀ c ∈ s, c < 128) : IsText s :=
    fun c hc ↦ lt_trans (hs c hc) (by decide)
  refine ⟨?_, fun t ht ↦ (nomatch ht), fun n hn ↦ (nomatch hn), ?_⟩
  · intro s hs
    simp only [DevRun.record, List.mem_cons, List.not_mem_nil, or_false] at hs
    obtain rfl | rfl | rfl | rfl := hs
    · exact htext hkeyid
    · exact htext hhash
    · decide
    · decide
  · have hk := Json.joinPairs_ascii hkeyid
    have hh := Json.joinPairs_ascii hhash
    unfold DevRun.record at hh
    simp only [ApiKeyRecord.reread, DevRun.record, hk, hh]
    rfl

/-- The file opens, and these are its records. -/
def Holds (D : ℕ) (file : Option Bytes) (d : Dict Str ApiKeyRecord) : Prop :=
  ∃ s, KeyStore.openedBytes D file = .ok s ∧ s.Keyed ∧ s.table = d ∧ ∀ r ∈ s.entries, r.Proper

theorem holds_none : Holds D none [] :=
  ⟨{}, rfl, KeyStore.Keyed.empty {}, rfl, fun _ hr ↦ nomatch hr⟩

/-- The records after a run. -/
def DevRun.enter (d : Dict Str ApiKeyRecord) (x : DevRun A) : Dict Str ApiKeyRecord :=
  if encodable x.pepper then d.set x.keyid x.record else d

/-- A run. -/
theorem Holds.devKey (h : Holds D file d) (hD : 4 ≤ D) (he : encodable x.pepper) :
    ∃ b, InferenceGateway.devKey A D F x file = .ok (b, x.shown) ∧
      Holds D (some b) (d.set x.keyid x.record) := by
  obtain ⟨s, hopened, hs, rfl, hproper⟩ := h
  have htable : (s.load x.record).table = s.table.set x.keyid x.record := hs.table_load x.record
  have hkeyed : (s.load x.record).Keyed := hs.load x.record
  have hentries {t : KeyStore} (ht : t.Keyed) (htab : t.table = s.table.set x.keyid x.record) :
      ∀ r ∈ t.entries, r.Proper := by
    intro r hr
    have hmem : (r.keyid, r) ∈ t.table := by
      rw [ht.table_eq]
      exact List.mem_map_of_mem hr
    rw [htab] at hmem
    rcases Dict.mem_set hmem with heq | hold
    · rw [(Prod.mk.inj heq).2]
      exact x.proper_record
    · rw [hs.table_eq] at hold
      obtain ⟨r', hr', heq⟩ := List.mem_map.mp hold
      rw [← (Prod.mk.inj heq).2]
      exact hproper r' hr'
  have hp := hentries hkeyed htable
  obtain ⟨t, ht, httable, htkeyed⟩ := hkeyed.openedBytes_text (F := F) hp hD le_rfl
  refine ⟨_, ?_, t, ht, htkeyed, httable.trans htable, hentries htkeyed (httable.trans htable)⟩
  have hsave := KeyStore.saveBytes_eq (F := F) (KeyStore.writable_payload hp)
    ((s.load x.record).text F).length
  simp only [InferenceGateway.devKey, hopened, x.minted_eq, he, if_true, hsave]

/-- A run whose pepper cannot be encoded. -/
theorem Holds.devKey_error (h : Holds D file d) (he : ¬encodable x.pepper) :
    InferenceGateway.devKey A D F x file = .error (.mint (.builtin .unicodeEncodeError)) := by
  obtain ⟨s, hopened, -⟩ := h
  simp only [InferenceGateway.devKey, hopened, x.minted_eq, he, Bool.false_eq_true, if_false]

/-! ## Any number of runs -/

/-- The file of any number of runs opens, and holds the records of the runs. -/
theorem Holds.devKeys (h : Holds D file d) (hD : 4 ≤ D) (xs : List (DevRun A)) :
    Holds D (InferenceGateway.devKeys A D F file xs) (xs.foldl DevRun.enter d) := by
  induction xs generalizing file d with
  | nil => exact h
  | cons x xs ih =>
      rw [InferenceGateway.devKeys, List.foldl_cons, DevRun.enter]
      by_cases he : encodable x.pepper
      · obtain ⟨b, hb, hholds⟩ := h.devKey (F := F) hD he
        rw [hb, if_pos he]
        exact ih hholds
      · rw [h.devKey_error he, if_neg he]
        exact ih h

theorem devKeys_append (xs ys : List (DevRun A)) (file : Option Bytes) :
    devKeys A D F file (xs ++ ys) = devKeys A D F (devKeys A D F file xs) ys := by
  induction xs generalizing file with
  | nil => rfl
  | cons x xs ih =>
      rw [List.cons_append, devKeys, devKeys]
      split
      · exact ih _
      · exact ih _

/-- A record stays until its key id is drawn again. -/
theorem lookup_foldl_enter {xs : List (DevRun A)} {keyid : Str}
    (h : ∀ y ∈ xs, encodable y.pepper → y.keyid ≠ keyid) (d : Dict Str ApiKeyRecord) :
    (xs.foldl DevRun.enter d).lookup keyid = d.lookup keyid := by
  induction xs generalizing d with
  | nil => rfl
  | cons y ys ih =>
      obtain ⟨hy, hys⟩ := List.forall_mem_cons.mp h
      rw [List.foldl_cons, ih hys, DevRun.enter]
      split
      · rename_i he
        exact Dict.lookup_set_of_ne (hy he).symm
      · rfl

/-- A store that holds the record of a run accepts what the run has shown, at any time, if its pepper
is that of the run. -/
theorem verify_shown {s : KeyStore} {x : DevRun A} (hget : s.get x.keyid = some x.record)
    {pepper : Str} (he : encodable pepper) (now : Double) :
    s.verify A pepper x.shown now = if pepper = x.pepper then .ok x.record else .error .auth := by
  have hsplit : splitKey x.shown = .ok (x.keyid, x.secret) := by
    refine splitKey_eq_ok.mpr ⟨str "bkn_live_", by decide, ?_,
      underscore_not_mem fun c hc ↦ isHex_of_mem_tokenHex hc, x.draw.tokenHex_ne_nil,
      x.draw.tokenUrlsafe_ne_nil⟩
    simp [DevRun.shown, plaintext, str]
  have henc : encodable (x.secret ++ pepper) := by rwa [x.encodable_secret]
  have hexpired : x.record.expired now = false := rfl
  have hrevoked : x.record.revoked = false := rfl
  have haccepts : A.accepts x.record.hash (x.secret ++ pepper) = decide (pepper = x.pepper) := by
    rw [Bool.eq_iff_iff, decide_eq_true_iff, DevRun.record, A.accepts_digest,
      List.append_cancel_left_eq]
    exact eq_comm
  simp only [KeyStore.verify, hsplit, hget, hrevoked, hexpired, PasswordHasher.verify, henc,
    haccepts, if_true, Bool.false_eq_true, if_false]
  by_cases hpepper : pepper = x.pepper
  · rw [if_pos hpepper, decide_eq_true hpepper]
  · rw [if_neg hpepper, decide_eq_false hpepper]

/-- Starting without a file, let the script run any number of times, in any environments.  A run
shows its key unless its pepper cannot be encoded.  Unless a later run draws the same key id, a store
that is opened on the file accepts what it has shown, at any time, with the scope `chat` and no
limits, if its pepper is the one the run has minted under; with any other pepper, the empty one
included, it rejects it. -/
theorem devKeys_verify (hD : 4 ≤ D) (before : List (DevRun A)) {after : List (DevRun A)} {x : DevRun A}
    (hx : encodable x.pepper)
    (hafter : ∀ y ∈ after, encodable y.pepper → y.keyid ≠ x.keyid) :
    ∃ b shown record s, devKey A D F x (devKeys A D F none before) = .ok (b, shown) ∧
      KeyStore.openedBytes D (devKeys A D F none (before ++ x :: after)) = .ok s ∧
      record.scopes = [str "chat"] ∧ record.tokenBudget = none ∧ record.maxConcurrency = none ∧
      ∀ (pepper : Str) (now : Double), encodable pepper →
        s.verify A pepper shown now = if pepper = x.pepper then .ok record else .error .auth := by
  have hbefore := (holds_none (D := D)).devKeys (F := F) hD before
  obtain ⟨b, hb, hholds⟩ := hbefore.devKey (F := F) hD hx
  obtain ⟨s, hopened, hs, htable, -⟩ := hholds.devKeys (F := F) hD after
  have hfile : devKeys A D F none (before ++ x :: after) = devKeys A D F (some b) after := by
    rw [devKeys_append, devKeys, hb]
  have hget : s.get x.keyid = some x.record := by
    rw [hs.get_eq, htable, lookup_foldl_enter hafter, Dict.lookup_set_self]
  refine ⟨b, x.shown, x.record, s, hb, hfile ▸ hopened, rfl, rfl, rfl, fun pepper now he ↦ ?_⟩
  exact verify_shown hget he now

/-- A run in this environment that draws these bytes for the key id. -/
def sampleRun (id : Bytes) (h : id.length = 6) (env : Option Str) : DevRun Keyring.plainHasher where
  env := env
  draw := { Keyring.sampleDraw with id := id, length_id := h }
  now := .finite 0

/-- A run without a pepper, then one with its own: the first key under the default, under the pepper
of the second run and under the empty one. -/
theorem devKeys_verify_two :
    let x := sampleRun [1, 2, 3, 4, 5, 6] rfl none
    let y := sampleRun [6, 5, 4, 3, 2, 1] rfl (some (str "two"))
    ∃ b shown s, devKey Keyring.plainHasher 900 .exact x none = .ok (b, shown) ∧
      KeyStore.openedBytes 900 (devKeys Keyring.plainHasher 900 .exact none [x, y]) = .ok s ∧
      (s.verify Keyring.plainHasher (str "local-dev-pepper-not-a-secret") shown (.finite 7)).isOk ∧
      s.verify Keyring.plainHasher (str "two") shown (.finite 7) = .error .auth ∧
      s.verify Keyring.plainHasher [] shown (.finite 7) = .error .auth := by
  intro x y
  have hafter : ∀ z ∈ [y], encodable z.pepper → z.keyid ≠ x.keyid := by
    intro z hz _
    obtain rfl := List.mem_singleton.mp hz
    decide
  obtain ⟨b, shown, record, s, hb, hs, -, -, -, hverify⟩ :=
    devKeys_verify (F := .exact) (D := 900) (by decide) [] (by decide : encodable x.pepper) hafter
  refine ⟨b, shown, s, hb, hs, ?_, ?_, ?_⟩
  · rw [hverify (str "local-dev-pepper-not-a-secret") (.finite 7) (by decide), if_pos (by rfl)]
    rfl
  · rw [hverify (str "two") (.finite 7) (by decide), if_neg (by decide)]
  · rw [hverify [] (.finite 7) (by decide), if_neg (by decide)]

end InferenceGateway
