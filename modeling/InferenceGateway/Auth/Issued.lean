import InferenceGateway.Auth.Keys
import InferenceGateway.Python.Reread
import InferenceGateway.Transition.Run

/-!
# Keys that are accepted and keys that were issued

What `mint_key` has returned so far stands beside the store.  A record is told by its key
id and its hash, which nothing assigns to; every record of the store, of the heap and of
the file is the record of an issued key in this sense, whatever has happened to its other
fields (`Keyring.Sound`).

`split_key` drops the prefix of a presented key and no one looks at it again: a record does
not say whether its key is a live one.  So a key is accepted in two spellings, and the
accepted strings are the issued ones up to the prefix.
-/

namespace InferenceGateway

open Py Transition

/-! ## Splitting -/

/-- The two prefixes are of one length, so a string starts with one of them at most. -/
theorem prefix_unique {e e' x y : Str} (he : e ∈ KEY_PREFIXES) (he' : e' ∈ KEY_PREFIXES)
    (h : e ++ x = e' ++ y) : e = e' ∧ x = y := by
  have length_eq : ∀ d ∈ KEY_PREFIXES, d.length = 9 := by decide
  exact List.append_inj h ((length_eq e he).trans (length_eq e' he').symm)

theorem prefix_found {e x : Str} (he : e ∈ KEY_PREFIXES) :
    (KEY_PREFIXES.find? fun pre ↦ pre.isPrefixOf (e ++ x)) = some e := by
  cases hf : KEY_PREFIXES.find? fun pre ↦ pre.isPrefixOf (e ++ x) with
  | none =>
      have hne := List.find?_eq_none.mp hf e he
      exact absurd (List.isPrefixOf_iff_prefix.mpr (List.prefix_append e x)) hne
  | some d =>
      have hpre : d.isPrefixOf (e ++ x) := by simpa using List.find?_some hf
      obtain ⟨t, ht⟩ := List.isPrefixOf_iff_prefix.mp hpre
      rw [(prefix_unique (List.mem_of_find?_eq_some hf) he ht).1]

/-- A key that splits is a prefix, a key id without an underscore, and a secret. -/
theorem splitKey_eq_ok {p k s : Str} : splitKey p = .ok (k, s) ↔
    ∃ e ∈ KEY_PREFIXES, p = e ++ (k ++ 95 :: s) ∧ 95 ∉ k ∧ k ≠ [] ∧ s ≠ [] := by
  constructor
  · intro h
    unfold splitKey at h
    split at h
    · cases h
    · rename_i e hf
      have hpre : e.isPrefixOf p := by simpa using List.find?_some hf
      obtain ⟨t, rfl⟩ := List.isPrefixOf_iff_prefix.mp hpre
      rw [List.drop_left] at h
      split at h
      · cases h
      · rename_i k' s' hc
        obtain ⟨rfl, hk⟩ := cut?_singleton.mp hc
        split at h
        · cases h
        · rename_i hne
          cases h
          rw [Bool.or_eq_true, not_or, List.isEmpty_iff, List.isEmpty_iff] at hne
          exact ⟨e, List.mem_of_find?_eq_some hf, rfl, hk, hne.1, hne.2⟩
  · rintro ⟨e, he, rfl, hk, hk₀, hs₀⟩
    have hc : cut? (str "_") (k ++ 95 :: s) = some (k, s) := cut?_singleton.mpr ⟨rfl, hk⟩
    have hne : ¬(k.isEmpty || s.isEmpty) = true := by simp [hk₀, hs₀]
    unfold splitKey
    rw [prefix_found he]
    simp only [List.drop_left, hc]
    exact if_neg hne

/-- Nothing but an `AuthError` is raised for a key that does not split. -/
theorem splitKey_error {p : Str} {e : KeyExn} (h : splitKey p = .error e) : e = .auth := by
  unfold splitKey at h
  split at h
  · exact (Except.error.inj h).symm
  · split at h
    · exact (Except.error.inj h).symm
    · split at h
      · exact (Except.error.inj h).symm
      · cases h

/-! ## Spellings -/

/-- The same text up to the prefix: `bkn_live_` or `bkn_test_`, and then the same key id
and the same secret. -/
def Respelled (p q : Str) : Prop :=
  ∃ e ∈ KEY_PREFIXES, ∃ e' ∈ KEY_PREFIXES, ∃ x, p = e ++ x ∧ q = e' ++ x

variable {A : PasswordHasher} {pepper : Str}

variable (A pepper) in
/-- `q` is the text of a key of the record `r`. -/
def KeyOf (q : Str) (r : ApiKeyRecord) : Prop :=
  ∃ e ∈ KEY_PREFIXES, ∃ secret salt, q = e ++ (r.keyid ++ 95 :: secret) ∧
    r.hash = A.digest salt (secret ++ pepper) ∧ (∀ c ∈ r.keyid, isHex c) ∧ r.keyid ≠ [] ∧
    secret ≠ [] ∧ encodable (secret ++ pepper)

/-- A key id has twelve digits. -/
theorem Draw.tokenHex_ne_nil (draw : Draw A) : tokenHex draw.id ≠ [] := by
  apply List.ne_nil_of_length_pos
  rw [length_tokenHex, draw.length_id]
  decide

/-- A secret has 43 characters. -/
theorem Draw.tokenUrlsafe_ne_nil (draw : Draw A) : tokenUrlsafe draw.key ≠ [] := by
  apply List.ne_nil_of_length_pos
  rw [length_tokenUrlsafe, draw.length_key]
  decide

/-- What `mint_key` returns, if it can encode the secret. -/
theorem of_mintKey {args : MintArgs} {draw : Draw A} {now : Double} {q : Str} {r : ApiKeyRecord}
    (h : mintKey A pepper args draw now = .ok (q, r)) :
    encodable (tokenUrlsafe draw.key ++ pepper) ∧
      q = plaintext args.live (tokenHex draw.id) (tokenUrlsafe draw.key) ∧
      r = { keyid := tokenHex draw.id, hash := A.digest draw.salt (tokenUrlsafe draw.key ++ pepper)
            scopes := args.scopesOr, expiresAt := args.expiry now, label := args.label
            tokenBudget := args.tokenBudget, maxConcurrency := args.maxConcurrency } := by
  simp only [mintKey, PasswordHasher.hash] at h
  by_cases henc : encodable (tokenUrlsafe draw.key ++ pepper)
  · rw [if_pos henc] at h
    obtain ⟨rfl, rfl⟩ := Prod.mk.inj (Except.ok.inj h)
    exact ⟨henc, rfl, rfl⟩
  · rw [if_neg henc] at h
    cases h

/-- What `mint_key` returns is the text of a key and its record. -/
theorem mintKey_keyOf {args : MintArgs} {draw : Draw A} {now : Double} {q : Str} {r : ApiKeyRecord}
    (h : mintKey A pepper args draw now = .ok (q, r)) : KeyOf A pepper q r := by
  obtain ⟨henc, rfl, rfl⟩ := of_mintKey h
  refine ⟨if args.live then str "bkn_live_" else str "bkn_test_", ?_, tokenUrlsafe draw.key,
    draw.salt, ?_, rfl, fun c hc ↦ isHex_of_mem_tokenHex hc, draw.tokenHex_ne_nil,
    draw.tokenUrlsafe_ne_nil, henc⟩
  · cases args.live <;> simp [KEY_PREFIXES]
  · simp [plaintext, str]

theorem underscore_not_mem {k : Str} (h : ∀ c ∈ k, isHex c) : 95 ∉ k := by
  intro hc
  exact absurd (h 95 hc) (by decide)

namespace KeyStore

variable {s : KeyStore} {p : Str} {now : Double} {r : ApiKeyRecord}

/-- What an accepted key is. -/
theorem verify_eq_ok : s.verify A pepper p now = .ok r ↔
    ∃ e ∈ KEY_PREFIXES, ∃ keyid secret, p = e ++ (keyid ++ 95 :: secret) ∧ 95 ∉ keyid ∧
      keyid ≠ [] ∧ secret ≠ [] ∧ s.get keyid = some r ∧ r.revoked = false ∧
      r.expired now = false ∧ encodable (secret ++ pepper) ∧ A.accepts r.hash (secret ++ pepper) := by
  constructor
  · intro h
    unfold verify at h
    split at h
    · cases h
    · rename_i keyid secret hsplit
      obtain ⟨e, he, hp, hk, hk₀, hs₀⟩ := splitKey_eq_ok.mp hsplit
      split at h
      · cases h
      · rename_i record hget
        split_ifs at h with hrev hexp
        unfold PasswordHasher.verify at h
        split_ifs at h with henc
        cases hacc : A.accepts record.hash (secret ++ pepper) with
        | false => rw [hacc] at h; cases h
        | true =>
            rw [hacc] at h
            cases h
            exact ⟨e, he, keyid, secret, hp, hk, hk₀, hs₀, hget, by simpa using hrev,
              by simpa using hexp, henc, hacc⟩
  · rintro ⟨e, he, keyid, secret, hp, hk, hk₀, hs₀, hget, hrev, hexp, henc, hacc⟩
    have hsplit : splitKey p = .ok (keyid, secret) := splitKey_eq_ok.mpr ⟨e, he, hp, hk, hk₀, hs₀⟩
    simp [verify, hsplit, hget, hrev, hexp, PasswordHasher.verify, henc, hacc]

/-- What is raised is an `AuthError`, or the secret met the hasher and could not be encoded. -/
theorem verify_error {e : KeyExn} (h : s.verify A pepper p now = .error e) :
    e = .auth ∨ ∃ keyid secret r, splitKey p = .ok (keyid, secret) ∧ s.get keyid = some r ∧
      encodable (secret ++ pepper) = false := by
  unfold verify at h
  split at h
  · rename_i hsplit
    cases h
    exact .inl (splitKey_error hsplit)
  · rename_i keyid secret hsplit
    split at h
    · exact .inl (Except.error.inj h).symm
    · rename_i record hget
      split_ifs at h with hrev hexp
      · exact .inl (Except.error.inj h).symm
      · exact .inl (Except.error.inj h).symm
      · by_cases henc : encodable (secret ++ pepper)
        · rw [PasswordHasher.verify, if_pos henc] at h
          cases hacc : A.accepts record.hash (secret ++ pepper) with
          | false =>
              rw [hacc] at h
              exact .inl (Except.error.inj h).symm
          | true => rw [hacc] at h; cases h
        · exact .inr ⟨keyid, secret, record, hsplit, hget, by simpa using henc⟩

/-! ## What the operations keep -/

/-- The records of the store, of the heap and of the file satisfy `P`, and `_records` leads
from a key id to a record with this key id. -/
structure Sound (P : ApiKeyRecord → Prop) (s : KeyStore) : Prop where
  heap : ∀ r ∈ s.heap, P r
  records : ∀ k i, s.records.lookup k = some i → ∃ r, s.heap[i]? = some r ∧ r.keyid = k
  file : ∀ r ∈ s.file.getD [], P r

namespace Sound

variable {P P' : ApiKeyRecord → Prop}

theorem mono (hP : ∀ r, P r → P' r) (h : s.Sound P) : s.Sound P' :=
  ⟨fun r hr ↦ hP r (h.heap r hr), h.records, fun r hr ↦ hP r (h.file r hr)⟩

/-- A record found by its key id. -/
theorem of_get {k : Str} (h : s.Sound P) (hget : s.get k = some r) : P r ∧ r.keyid = k := by
  obtain ⟨i, hi, hr⟩ := Option.bind_eq_some_iff.mp hget
  obtain ⟨r', hr', hk⟩ := h.records k i hi
  obtain rfl : r' = r := Option.some.inj (hr'.symm.trans hr)
  exact ⟨h.heap r' (List.mem_of_getElem? hr), hk⟩

theorem alloc (h : s.Sound P) (hr : P r) : (s.alloc r).Sound P := by
  refine ⟨?_, ?_, h.file⟩
  · intro r' hr'
    rcases List.mem_append.mp hr' with hr' | hr'
    · exact h.heap r' hr'
    · rwa [List.mem_singleton.mp hr']
  · intro k i hi
    obtain ⟨r', hr', hk⟩ := h.records k i hi
    have hlt : i < s.heap.length := (List.getElem?_eq_some_iff.mp hr').1
    exact ⟨r', (List.getElem?_append_left hlt).trans hr', hk⟩

theorem add (h : s.Sound P) (i : ℕ) : (s.add i).Sound P := by
  unfold KeyStore.add
  split
  · exact h
  · rename_i r hi
    refine ⟨h.heap, ?_, h.file⟩
    intro k j hj
    by_cases hk : k = r.keyid
    · subst hk
      obtain rfl : i = j := Option.some.inj (Dict.lookup_set_self.symm.trans hj)
      exact ⟨r, hi, rfl⟩
    · exact h.records k j ((Dict.lookup_set_of_ne hk).symm.trans hj)

theorem assign (hP : ∀ r r' : ApiKeyRecord, r.SameKey r' → P r → P r') (h : s.Sound P) (i : ℕ)
    (new : ApiKeyRecord) : (s.assign i new).Sound P := by
  unfold KeyStore.assign
  split
  · exact h
  · rename_i r hi
    refine ⟨?_, ?_, h.file⟩
    · intro r' hr'
      rcases List.mem_or_eq_of_mem_set hr' with hr' | rfl
      · exact h.heap r' hr'
      · exact hP r _ ⟨rfl, rfl⟩ (h.heap r (List.mem_of_getElem? hi))
    · intro k j hj
      obtain ⟨r', hr', hk⟩ := h.records k j hj
      by_cases hij : i = j
      · subst hij
        obtain rfl : r' = r := Option.some.inj (hr'.symm.trans hi)
        have hlt : i < s.heap.length := (List.getElem?_eq_some_iff.mp hi).1
        exact ⟨_, List.getElem?_set_self hlt, hk⟩
      · exact ⟨r', (List.getElem?_set_ne hij).trans hr', hk⟩

theorem revoke (hP : ∀ r r' : ApiKeyRecord, r.SameKey r' → P r → P r') (h : s.Sound P)
    (keyid : Str) : (s.revoke keyid).1.Sound P := by
  unfold KeyStore.revoke
  split
  · exact h
  · split
    · exact h
    · exact h.assign hP _ _

theorem save (h : s.Sound P) : s.save.Sound P := by
  refine ⟨h.heap, h.records, ?_⟩
  intro r hr
  obtain ⟨kv, -, hkv⟩ := List.mem_filterMap.mp hr
  exact h.heap r (List.mem_of_getElem? hkv)

theorem reload (hP : ∀ r, P r → P r.reread) (h : s.Sound P) : s.reload.Sound P := by
  -- the records of the file are entered one after another into an empty store
  have load_all : ∀ (rs : List ApiKeyRecord) (s : KeyStore), (∀ r ∈ rs, P r) → s.Sound P →
      (rs.foldl (fun s r ↦ s.load r.reread) s).Sound P := by
    intro rs
    induction rs with
    | nil => exact fun s _ hs ↦ hs
    | cons r rs ih =>
        intro s hrs hs
        apply ih
        · exact fun r' hr' ↦ hrs r' (List.mem_cons_of_mem r hr')
        · exact (hs.alloc (hP r (hrs r List.mem_cons_self))).add s.heap.length
  apply load_all _ _ h.file
  refine ⟨h.heap, ?_, h.file⟩
  intro k i hi
  cases hi

end Sound

end KeyStore

/-! ## Runs -/

/-- The key store of a process, and what `mint_key` has returned in it. -/
structure Keyring where
  store : KeyStore := {}
  issued : List (Str × ApiKeyRecord) := []

variable (A) in
/-- What is done to the store and to the records. -/
inductive KeyEvent where
  | mint (args : MintArgs) (draw : Draw A) (now : Double)
  | add (i : ℕ)
  | revoke (keyid : Str)
  | assign (i : ℕ) (new : ApiKeyRecord)
  | save
  | reload

namespace Keyring

variable (A pepper) in
/-- A step.  A `mint_key` that raises issues nothing. -/
def step (w : Keyring) : KeyEvent A → Option Keyring
  | .mint args draw now => match mintKey A pepper args draw now with
    | .error _ => some w
    | .ok (q, r) => some { store := w.store.alloc r, issued := w.issued ++ [(q, r)] }
  | .add i => some { w with store := w.store.add i }
  | .revoke keyid => some { w with store := (w.store.revoke keyid).1 }
  | .assign i new => some { w with store := w.store.assign i new }
  | .save => some { w with store := w.store.save }
  | .reload => some { w with store := w.store.reload }

/-- `q` is the plaintext that was returned with the record. -/
def IssuedWith (w : Keyring) (q : Str) (r : ApiKeyRecord) : Prop :=
  ∃ r₀, (q, r₀) ∈ w.issued ∧ r₀.SameKey r

variable (A pepper) in
/-- Every record is the record of an issued key. -/
structure Sound (w : Keyring) : Prop where
  issued : ∀ q r, (q, r) ∈ w.issued → KeyOf A pepper q r
  store : w.store.Sound fun r ↦ ∃ q, w.IssuedWith q r

variable {w w' : Keyring} {e : KeyEvent A} {es : List (KeyEvent A)}

theorem IssuedWith.sameKey {q : Str} {r r' : ApiKeyRecord} (h : w.IssuedWith q r)
    (hr : r.SameKey r') : w.IssuedWith q r' := by
  obtain ⟨r₀, hmem, hk, hh⟩ := h
  exact ⟨r₀, hmem, hk.trans hr.1, hh.trans hr.2⟩

/-- The key id and the hash determine the text of the key but for its prefix. -/
theorem Sound.keyOf {q : Str} {r : ApiKeyRecord} (h : w.Sound A pepper) (hq : w.IssuedWith q r) :
    KeyOf A pepper q r := by
  obtain ⟨r₀, hmem, hk, hh⟩ := hq
  have hkey := h.issued q r₀ hmem
  unfold KeyOf at hkey ⊢
  rwa [← hk, ← hh]

/-- The file keeps the key id and the hash. -/
theorem Sound.reread {q : Str} {r : ApiKeyRecord} (h : w.Sound A pepper) (hq : w.IssuedWith q r) :
    w.IssuedWith q r.reread := by
  apply hq.sameKey
  obtain ⟨e, -, secret, salt, -, hh, hex, -⟩ := h.keyOf hq
  constructor
  · exact (Json.joinPairs_ascii fun c hc ↦ isHex_lt (hex c hc)).symm
  · show r.hash = Json.joinPairs none r.hash
    rw [hh]
    exact (Json.joinPairs_ascii (A.digest_ascii salt _)).symm

/-- One step keeps the invariant. -/
theorem Sound.step (h : w.Sound A pepper) (hs : Steps (step A pepper) w e w') :
    w'.Sound A pepper := by
  have same : ∀ r r' : ApiKeyRecord, r.SameKey r' → (∃ q, w.IssuedWith q r) →
      ∃ q, w.IssuedWith q r' := fun r r' hr ⟨q, hq⟩ ↦ ⟨q, hq.sameKey hr⟩
  cases e with
  | mint args draw now =>
      rw [Steps, Keyring.step] at hs
      cases hm : mintKey A pepper args draw now with
      | error e =>
          rw [hm] at hs
          cases hs
          exact h
      | ok qr =>
          obtain ⟨q, r⟩ := qr
          rw [hm] at hs
          cases hs
          constructor
          · intro q' r' hmem
            rcases List.mem_append.mp hmem with hmem | hmem
            · exact h.issued q' r' hmem
            · cases List.mem_singleton.mp hmem
              exact mintKey_keyOf hm
          · apply KeyStore.Sound.alloc
            · apply h.store.mono
              rintro r' ⟨q', r₀, hmem, hr₀⟩
              exact ⟨q', r₀, List.mem_append_left _ hmem, hr₀⟩
            · exact ⟨q, r, List.mem_append_right _ List.mem_cons_self, rfl, rfl⟩
  | add i => cases hs; exact ⟨h.issued, h.store.add i⟩
  | revoke keyid => cases hs; exact ⟨h.issued, h.store.revoke same keyid⟩
  | assign i new => cases hs; exact ⟨h.issued, h.store.assign same i new⟩
  | save => cases hs; exact ⟨h.issued, h.store.save⟩
  | reload =>
      cases hs
      exact ⟨h.issued, h.store.reload fun r ⟨q, hq⟩ ↦ ⟨q, h.reread hq⟩⟩

theorem sound_of_run (h : Run (Steps (step A pepper)) {} es w) : w.Sound A pepper := by
  refine h.invariant (fun hs hw ↦ hw.step hs) ⟨?_, ?_, ?_, ?_⟩
  · intro q r hmem; cases hmem
  · intro r hr; cases hr
  · intro k i hi; cases hi
  · intro r hr; cases hr

/-- A key is accepted if and only if it is, up to its prefix, the plaintext returned with a
record that the store holds and that is neither revoked nor expired.  Otherwise `AuthError`
is raised; only a string that UTF-8 cannot encode may raise something else. -/
theorem verify_iff_issued (h : Run (Steps (step A pepper)) {} es w) (p : Str) (now : Double) :
    (∀ r, w.store.verify A pepper p now = .ok r ↔
      (∃ q, w.IssuedWith q r ∧ Respelled p q) ∧ (∃ keyid, w.store.get keyid = some r) ∧
        r.revoked = false ∧ r.expired now = false) ∧
    (∀ e, w.store.verify A pepper p now = .error e → encodable p → e = .auth) := by
  have hw := sound_of_run h
  refine ⟨fun r ↦ ?_, fun e he hp ↦ ?_⟩
  · rw [KeyStore.verify_eq_ok]
    constructor
    · rintro ⟨e, he, keyid, secret, rfl, -, -, -, hget, hrev, hexp, -, hacc⟩
      obtain ⟨⟨q, hq⟩, hk⟩ := hw.store.of_get hget
      obtain ⟨e', he', secret', salt, hqe, hh, -⟩ := hw.keyOf hq
      rw [hh, A.accepts_digest, List.append_cancel_right_eq] at hacc
      refine ⟨⟨q, hq, e, he, e', he', keyid ++ 95 :: secret, rfl, ?_⟩, ⟨keyid, hget⟩, hrev, hexp⟩
      rw [hqe, hk, hacc]
    · rintro ⟨⟨q, hq, e, he, e', he', x, rfl, hqx⟩, ⟨keyid, hget⟩, hrev, hexp⟩
      obtain ⟨d, hd, secret, salt, hqd, hh, hex, hk₀, hs₀, henc⟩ := hw.keyOf hq
      obtain ⟨-, rfl⟩ := prefix_unique he' hd (hqx.symm.trans hqd)
      obtain rfl := (hw.store.of_get hget).2
      refine ⟨e, he, r.keyid, secret, rfl, underscore_not_mem hex, hk₀, hs₀, hget, hrev, hexp,
        henc, ?_⟩
      rw [hh, A.accepts_digest]
  · rcases KeyStore.verify_error he with rfl | ⟨keyid, secret, r, hsplit, hget, hbad⟩
    · rfl
    · obtain ⟨⟨q, hq⟩, -⟩ := hw.store.of_get hget
      obtain ⟨-, -, secret', -, -, -, -, -, -, henc⟩ := hw.keyOf hq
      obtain ⟨d, -, rfl, -⟩ := splitKey_eq_ok.mp hsplit
      -- the pepper is encodable, since a key was minted with it
      simp only [encodable, List.all_append, List.all_cons, Bool.and_eq_true] at henc hp hbad
      simp [hp.2.2.2, henc.2] at hbad

/-! ## A key in both spellings -/

/-- A hash that spells the password out, each character in unary. -/
def spell : Str → Str
  | [] => []
  | c :: x => List.replicate c 49 ++ 48 :: spell x

/-- The password spelled out, after `n` ones. -/
def unspell : ℕ → Str → Str
  | _, [] => []
  | n, c :: x => if c = 49 then unspell (n + 1) x else n :: unspell 0 x

theorem unspell_replicate (n c : ℕ) (x : Str) :
    unspell n (List.replicate c 49 ++ 48 :: x) = (n + c) :: unspell 0 x := by
  induction c generalizing n with
  | zero => simp [unspell]
  | succ c ih =>
      rw [List.replicate_succ, List.cons_append, unspell, if_pos rfl, ih]
      congr 1
      omega

theorem unspell_spell (x : Str) : unspell 0 (spell x) = x := by
  induction x with
  | nil => rfl
  | cons c x ih => rw [spell, unspell_replicate, ih, Nat.zero_add]

theorem spell_ascii {x : Str} {c : ℕ} (h : c ∈ spell x) : c < 128 := by
  induction x with
  | nil => cases h
  | cons d x ih =>
      rw [spell, List.mem_append, List.mem_cons, List.mem_replicate] at h
      rcases h with ⟨-, rfl⟩ | rfl | h
      · decide
      · decide
      · exact ih h

/-- A hasher whose hash is the password spelled out. -/
def plainHasher : PasswordHasher where
  Salt := Unit
  digest _ x := spell x
  accepts h y := unspell 0 h == y
  accepts_digest _ x y := by rw [unspell_spell, beq_iff_eq]
  digest_ascii _ x _ hc := spell_ascii hc

/-- The bytes of a key. -/
def sampleDraw : Draw plainHasher :=
  { id := [1, 2, 3, 4, 5, 6], key := List.replicate 32 0, salt := ()
    length_id := rfl, length_key := rfl }

/-- A live key is minted, and its record added. -/
def sampleIssue : List (KeyEvent plainHasher) := [.mint {} sampleDraw (.finite 0), .add 0]

/-- The key that is minted, as a live or as a test key. -/
def sampleKey (live : Bool) : Str := plaintext live (str "010203040506") (List.replicate 43 65)

/-- A live key is accepted, and so it was issued. -/
theorem verify_iff_issued_live : ∃ w r,
    Run (Steps (step plainHasher (str "pepper"))) {} sampleIssue w ∧
    w.store.verify plainHasher (str "pepper") (sampleKey true) (.finite 1) = .ok r ∧
    ∃ q, w.IssuedWith q r ∧ Respelled (sampleKey true) q := by
  obtain ⟨w, hrun, hw⟩ := Run.exists_of_exec (step plainHasher (str "pepper")) {} sampleIssue
    (fun w ↦ (w.store.verify plainHasher (str "pepper") (sampleKey true) (.finite 1)).toBool)
    (by decide +kernel)
  cases hv : w.store.verify plainHasher (str "pepper") (sampleKey true) (.finite 1) with
  | error e => rw [hv] at hw; cases hw
  | ok r => exact ⟨w, r, hrun, hv, (((verify_iff_issued hrun _ _).1 r).mp hv).1⟩

/-- A key that was issued as a live key is accepted as a test key, which was never issued.
And with a lone surrogate for its secret it is not refused by an `AuthError`. -/
theorem live_key_accepted_as_test : ∃ w, Run (Steps (step plainHasher (str "pepper"))) {} sampleIssue w ∧
    (∃ r, w.store.verify plainHasher (str "pepper") (sampleKey false) (.finite 1) = .ok r ∧
      ¬w.IssuedWith (sampleKey false) r) ∧
    w.store.verify plainHasher (str "pepper") (plaintext true (str "010203040506") [0xD800])
      (.finite 1) = .error (.builtin .unicodeEncodeError) := by
  obtain ⟨w, hrun, hw⟩ := Run.exists_of_exec (step plainHasher (str "pepper")) {} sampleIssue
    (fun w ↦ (w.store.verify plainHasher (str "pepper") (sampleKey false) (.finite 1)).toBool &&
      !(w.issued.map Prod.fst).contains (sampleKey false) &&
      w.store.verify plainHasher (str "pepper") (plaintext true (str "010203040506") [0xD800])
        (.finite 1) == .error (.builtin .unicodeEncodeError)) (by decide +kernel)
  simp only [Bool.and_eq_true] at hw
  obtain ⟨⟨hok, hnot⟩, hbad⟩ := hw
  refine ⟨w, hrun, ?_, LawfulBEq.eq_of_beq hbad⟩
  cases hv : w.store.verify plainHasher (str "pepper") (sampleKey false) (.finite 1) with
  | error e => rw [hv] at hok; cases hok
  | ok r =>
      refine ⟨r, rfl, ?_⟩
      rintro ⟨r₀, hmem, -⟩
      have hnot : ∀ r₀, (sampleKey false, r₀) ∉ w.issued := by simpa using hnot
      exact hnot r₀ hmem

end Keyring

end InferenceGateway
