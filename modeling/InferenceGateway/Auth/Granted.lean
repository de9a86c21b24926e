import Mathlib.Data.List.Nodup
import InferenceGateway.Auth.Grammar
import InferenceGateway.Auth.Persistence
import InferenceGateway.Middleware
import InferenceGateway.Python.Float

/-!
# What a minted key grants

`require_principal` of `gateway/auth/__init__.py`, and the way of a key through the code: from the
arguments of `mint_key` into the record, with the record into the store and perhaps into the file
and out of it, and from the store into the `Principal` of a request.

The JWT verifier is a parameter: for a token it yields the subject and the scopes of the claims, or
raises.
-/

namespace InferenceGateway

open Py Transition

/-- `_unauthorized()`. -/
def unauthorized : Exn :=
  .http 401 "invalid or missing credentials" [("WWW-Authenticate", "Bearer")]

/-- `except AuthError as e: raise _unauthorized() from e`. -/
def KeyExn.raised : KeyExn → Exn
  | .auth => unauthorized
  | .builtin e => .builtin e

section RequirePrincipal

variable (A : PasswordHasher) (pepper : Str) (verifier : Str → Except KeyExn (Str × List Str))
  (store : KeyStore)

/-- `credential.count(".") == 2 and not credential.startswith("bkn_")`. -/
def isJwt (credential : Str) : Bool :=
  credential.count 46 == 2 && !(str "bkn_").isPrefixOf credential

/-- Whom a credential belongs to. -/
def callerOf (credential : Str) (now : Double) : Except KeyExn Caller :=
  if isJwt credential then (verifier credential).map fun claims ↦ .jwt claims.1 claims.2
  else (store.verify A pepper credential now).map .apikey

/-- `authorization.lower().startswith("bearer ")`: no character outside ASCII is one of these
letters in lower case. -/
def isBearer (authorization : Str) : Bool := (authorization.take 7).map lowerAscii == str "bearer "

/-- The caller, or the exception `require_principal` raises. -/
def principalOf : Except KeyExn Caller → Except Exn Principal
  | .error e => .error e.raised
  | .ok caller => .ok caller.principal

/-- `require_principal`. -/
def requirePrincipal (authorization : Option Str) (now : Double) : Except Exn Principal :=
  match authorization with
  | none => .error unauthorized
  | some authorization =>
    if !isBearer authorization then .error unauthorized
    else
      let credential := strip isSpace (authorization.drop 7)
      if credential.isEmpty then .error unauthorized
      else principalOf (callerOf A pepper verifier store credential now)

end RequirePrincipal

/-- The header that presents a credential. -/
def bearer (credential : Str) : Option Str := some (str "Bearer " ++ credential)

/-! ## Presenting a minted key -/

variable {A : PasswordHasher} {pepper : Str} {verifier : Str → Except KeyExn (Str × List Str)}
  {args : MintArgs} {draw : Draw A} {now : Double} {q : Str} {r : ApiKeyRecord} {s : KeyStore}

/-- The record of a minted key. -/
theorem mintKey_record (h : mintKey A pepper args draw now = .ok (q, r)) :
    q = plaintext args.live r.keyid (tokenUrlsafe draw.key) ∧ (∀ c ∈ r.keyid, isHex c) ∧
      r.hash = A.digest draw.salt (tokenUrlsafe draw.key ++ pepper) ∧
      encodable (tokenUrlsafe draw.key ++ pepper) ∧ r.scopes = args.scopesOr ∧
      r.expiresAt = args.expiry now ∧ r.revoked = false ∧ r.tokenBudget = args.tokenBudget ∧
      r.maxConcurrency = args.maxConcurrency := by
  obtain ⟨henc, rfl, rfl⟩ := of_mintKey h
  exact ⟨rfl, fun c hc ↦ isHex_of_mem_tokenHex hc, rfl, henc, rfl, rfl, rfl, rfl, rfl⟩

/-- The characters of a key. -/
theorem isUrlsafe_of_mem_plaintext {live : Bool} {keyid secret : Str} (hk : ∀ c ∈ keyid, isHex c)
    (hs : ∀ c ∈ secret, isUrlsafe c) : ∀ c ∈ plaintext live keyid secret, isUrlsafe c := by
  intro c hc
  rw [plaintext, List.mem_append, List.mem_append, List.mem_append] at hc
  rcases hc with ((hc | hc) | hc) | hc
  · have hpre : ∀ c ∈ str "bkn_live_" ++ str "bkn_test_", isUrlsafe c := by decide
    cases live with
    | true => exact hpre c (List.mem_append_left _ hc)
    | false => exact hpre c (List.mem_append_right _ hc)
  · have hhex := hk c hc
    simp only [isHex, Bool.or_eq_true, Bool.and_eq_true, decide_eq_true_eq] at hhex
    simp only [isUrlsafe, Bool.or_eq_true, Bool.and_eq_true, decide_eq_true_eq, beq_iff_eq]
    omega
  · rw [List.mem_singleton.mp hc]
    decide
  · exact hs c hc

/-- A key is not stripped of anything, and not taken for a token. -/
theorem requirePrincipal_plaintext {live : Bool} {keyid secret : Str} (hk : ∀ c ∈ keyid, isHex c)
    (hs : ∀ c ∈ secret, isUrlsafe c) :
    requirePrincipal A pepper verifier s (bearer (plaintext live keyid secret)) now =
      principalOf ((s.verify A pepper (plaintext live keyid secret) now).map .apikey) := by
  have hspace : ∀ c ∈ plaintext live keyid secret, isSpace c = false := by
    have hsmall : ∀ c < 128, isUrlsafe c → isSpace c = false := by decide
    intro c hc
    have hsafe := isUrlsafe_of_mem_plaintext hk hs c hc
    exact hsmall c (isUrlsafe_lt hsafe) hsafe
  have htake : isBearer (str "Bearer " ++ plaintext live keyid secret) = true := rfl
  have hdrop : (str "Bearer " ++ plaintext live keyid secret).drop 7 =
      plaintext live keyid secret := rfl
  have hne : (plaintext live keyid secret).isEmpty = false := by cases live <;> rfl
  have hpre : (str "bkn_").isPrefixOf (plaintext live keyid secret) = true := by cases live <;> rfl
  have hjwt : isJwt (plaintext live keyid secret) = false := by
    rw [isJwt, hpre, Bool.not_true, Bool.and_false]
  rw [bearer, requirePrincipal, htake, hdrop, strip_of_forall hspace]
  simp only [hne, callerOf, hjwt, Bool.not_true, Bool.false_eq_true, if_false]

/-- What `verify` makes of the key of a record the store holds. -/
theorem verify_plaintext {live : Bool} {keyid secret : Str} {salt : A.Salt}
    (hsplit : splitKey (plaintext live keyid secret) = .ok (keyid, secret))
    (hget : s.get keyid = some r) (hrev : r.revoked = false)
    (hhash : r.hash = A.digest salt (secret ++ pepper)) (henc : encodable (secret ++ pepper)) :
    s.verify A pepper (plaintext live keyid secret) now =
      if r.expired now then .error .auth else .ok r := by
  have hacc : A.accepts r.hash (secret ++ pepper) = true := by
    rw [hhash, A.accepts_digest]
  simp only [KeyStore.verify, hsplit, hget, hrev, PasswordHasher.verify, if_pos henc, hacc,
    Bool.false_eq_true, if_false]

/-! ## The store when the key is presented -/

/-- The store of a request: the one the key was added to, or a store read from what that one has
saved. -/
inductive Held (s : KeyStore) : (reloaded : Bool) → KeyStore → Prop where
  | kept : Held s false s
  | reread {saved : Value} {t s' : KeyStore} : s.written = .ok saved →
      t.readFrom (some saved) = .ok s' → Held s true s'

/-- A store can be saved and read if its integers are short enough to be written. -/
theorem Held.exists_reread (h : s.payload.writable) : ∃ s', Held s true s' := by
  have hw : s.written = .ok s.payload.reread := if_pos h
  have hread := KeyStore.readFrom_entries {} (s.entries.map ApiKeyRecord.reread)
  rw [← KeyStore.reread_payload] at hread
  exact ⟨_, .reread hw hread⟩

/-- The record as the store of the request has it. -/
def ApiKeyRecord.heldAs (r : ApiKeyRecord) (reloaded : Bool) : ApiKeyRecord :=
  if reloaded then r.reread else r

section HeldAs

variable (r) (reloaded : Bool)

@[simp] theorem ApiKeyRecord.revoked_heldAs : (r.heldAs reloaded).revoked = r.revoked := by
  cases reloaded <;> rfl

@[simp] theorem ApiKeyRecord.expired_heldAs : (r.heldAs reloaded).expired now = r.expired now := by
  cases reloaded <;> rfl

@[simp] theorem ApiKeyRecord.tokenBudget_heldAs :
    (r.heldAs reloaded).tokenBudget = r.tokenBudget := by cases reloaded <;> rfl

@[simp] theorem ApiKeyRecord.maxConcurrency_heldAs :
    (r.heldAs reloaded).maxConcurrency = r.maxConcurrency := by cases reloaded <;> rfl

theorem ApiKeyRecord.scopes_heldAs : (r.heldAs reloaded).scopes =
    if reloaded then r.scopes.map (Json.joinPairs none) else r.scopes := by cases reloaded <;> rfl

/-- The file keeps an ASCII hash. -/
theorem ApiKeyRecord.hash_heldAs (h : ∀ c ∈ r.hash, c < 128) :
    (r.heldAs reloaded).hash = r.hash := by
  cases reloaded with
  | true => exact Json.joinPairs_ascii h
  | false => rfl

end HeldAs

/-- The record that was added is found under its key id, whatever else the store holds. -/
theorem Held.get {s' : KeyStore} {reloaded : Bool} (h : Held (s.load r) reloaded s')
    (hs : s.Keyed) (hk : ∀ c ∈ r.keyid, c < 128) : s'.get r.keyid = some (r.heldAs reloaded) := by
  have hload := hs.load r
  have hget : (s.load r).table.lookup r.keyid = some r := by
    rw [hs.table_load]
    exact Dict.lookup_set_self
  cases h with
  | kept => exact (hload.get_eq r.keyid).trans hget
  | @reread saved t s' hw hread =>
      have hkeyid : r.reread.keyid = r.keyid := Json.joinPairs_ascii hk
      have hmem : r ∈ (s.load r).entries := KeyStore.mem_entries ((hload.get_eq r.keyid).trans hget)
      have huniq : ∀ e ∈ (s.load r).entries.map ApiKeyRecord.reread,
          e.keyid = r.reread.keyid → e = r.reread := by
        intro e he hek
        obtain ⟨e, hmem', rfl⟩ := List.mem_map.mp he
        have hsame : e.keyid = r.keyid := Json.eq_of_joinPairs_ascii (hek.trans hkeyid) hk
        rw [List.inj_on_of_nodup_map hload.nodup_entries hmem' hmem hsame]
      obtain rfl : saved = (s.load r).payload.reread := KeyStore.eq_of_written hw
      rw [KeyStore.reread_payload, KeyStore.readFrom_entries] at hread
      cases hread
      obtain ⟨hkeyed, htable⟩ := (KeyStore.Keyed.empty t).foldl_load
        ((s.load r).entries.map ApiKeyRecord.reread)
      rw [hkeyed.get_eq, htable, ← hkeyid]
      exact Dict.lookup_foldl_set (.inl (List.mem_map_of_mem hmem)) huniq

/-- A minted key is refused after its expiry and accepted before, with the scopes and quotas of the
record as the store of the request has it. -/
theorem requirePrincipal_minted {t₀ : Double} {s' : KeyStore} {reloaded : Bool}
    (hmint : mintKey A pepper args draw t₀ = .ok (q, r)) (hs : s.Keyed)
    (hheld : Held (s.load r) reloaded s') :
    requirePrincipal A pepper verifier s' (bearer q) now =
      if r.expired now then .error unauthorized
      else .ok (Caller.apikey (r.heldAs reloaded)).principal := by
  have hsplit := splitKey_minted hmint
  obtain ⟨rfl, hhex, hhash, henc, -, -, hrev, -⟩ := mintKey_record hmint
  have hget := hheld.get hs fun c hc ↦ isHex_lt (hhex c hc)
  have hashAs : (r.heldAs reloaded).hash = A.digest draw.salt (tokenUrlsafe draw.key ++ pepper) := by
    rw [r.hash_heldAs reloaded (hhash ▸ A.digest_ascii draw.salt _), hhash]
  have hrevAs : (r.heldAs reloaded).revoked = false := (r.revoked_heldAs reloaded).trans hrev
  rw [requirePrincipal_plaintext hhex fun c hc ↦ isUrlsafe_of_mem_tokenUrlsafe hc,
    verify_plaintext hsplit hget hrevAs hashAs henc, r.expired_heldAs]
  split
  · rfl
  · rfl

/-! ## What was asked for -/

/-- Until `last` the principal of a request has these scopes and quotas, and afterwards the request
is refused. -/
structure Grants (present : Double → Except Exn Principal) (scopes : List Str)
    (tokenBudget maxConcurrency : Option ℤ) (last : Double) : Prop where
  granted : ∀ now, now.le last → ∃ p, present now = .ok p ∧ p.scopes = scopes ∧
    p.tokenBudget = tokenBudget ∧ p.maxConcurrency = maxConcurrency
  refused : ∀ now, last.lt now → present now = .error unauthorized

theorem scopesOr_of_ne_nil {scopes : List Str} (h : args.scopes = some scopes) (hne : scopes ≠ []) :
    args.scopesOr = scopes := by
  cases scopes with
  | nil => exact absurd rfl hne
  | cons scope scopes => rw [MintArgs.scopesOr, h]

theorem scopesOr_ne_nil : args.scopesOr ≠ [] := by
  unfold MintArgs.scopesOr
  split
  · exact List.cons_ne_nil _ _
  · exact List.cons_ne_nil _ _

/-- A lifetime other than zero is kept. -/
theorem expired_of_truthy {ttl t₀ : Double} (hr : r.expiresAt = args.expiry t₀)
    (h : args.ttlSec = some ttl) (ht : ttl.truthy) : r.expired now = (t₀.add ttl).lt now := by
  rw [ApiKeyRecord.expired, hr, MintArgs.expiry, h]
  exact congrArg (Option.any fun t : Double ↦ t.lt now) (if_pos ht)

/-- A lifetime of zero is for ever. -/
theorem expired_of_not_truthy {ttl t₀ : Double} (hr : r.expiresAt = args.expiry t₀)
    (h : args.ttlSec = some ttl) (ht : ¬ttl.truthy) : r.expired now = false := by
  rw [ApiKeyRecord.expired, hr, MintArgs.expiry, h]
  exact congrArg (Option.any fun t : Double ↦ t.lt now) (if_neg ht)

/-- The file gives scopes back if and only if it gives back each of them. -/
theorem map_joinPairs_eq_iff {scopes : List Str} :
    scopes.map (Json.joinPairs none) = scopes ↔
      ∀ scope ∈ scopes, Json.joinPairs none scope = scope := by
  constructor
  · intro h
    have hid : scopes.map (Json.joinPairs none) = scopes.map id := h.trans (List.map_id _).symm
    exact List.map_inj_left.mp hid
  · intro h
    exact (List.map_congr_left h).trans (List.map_id _)

/-- The scopes of a request are those asked for. -/
theorem scopes_heldAs_iff {scopes : List Str} {reloaded : Bool} (h : args.scopes = some scopes)
    (hr : r.scopes = args.scopesOr) : (r.heldAs reloaded).scopes = scopes ↔
      scopes ≠ [] ∧ (reloaded → ∀ scope ∈ scopes, Json.joinPairs none scope = scope) := by
  by_cases hne : scopes = []
  · subst hne
    rw [r.scopes_heldAs, hr]
    cases reloaded with
    | true => simp [scopesOr_ne_nil]
    | false => simp [scopesOr_ne_nil]
  · rw [r.scopes_heldAs, hr, scopesOr_of_ne_nil h hne, ← map_joinPairs_eq_iff]
    cases reloaded with
    | true => simp [hne]
    | false => simp [hne]

/-- A key minted at the time `t₀`, a double, grants what was asked for, and as long as was asked
for, exactly if scopes were asked for, and a lifetime, and if the file, where the key comes from
there, gives back the scopes. -/
theorem grants_minted_iff {doc : Option Value} {s₀ s' : KeyStore} {es : List KeyStore.Event}
    {reloaded : Bool} {t₀ : ℚ} {scopes : List Str} {ttl : Double}
    (hclock : Double.round t₀ = .finite t₀)
    (hscopes : args.scopes = some scopes) (httl : args.ttlSec = some ttl)
    (hnonneg : (Double.finite 0).le ttl)
    (hmint : mintKey A pepper args draw (.finite t₀) = .ok (q, r))
    (h₀ : KeyStore.opened doc = .ok s₀) (hrun : Run (Steps KeyStore.step) s₀ es s)
    (hheld : Held (s.load r) reloaded s') :
    Grants (requirePrincipal A pepper verifier s' (bearer q)) scopes args.tokenBudget
        args.maxConcurrency ((Double.finite t₀).add ttl) ↔
      scopes ≠ [] ∧ ttl.truthy ∧
        (reloaded → ∀ scope ∈ scopes, Json.joinPairs none scope = scope) := by
  have hpresent : ∀ now, requirePrincipal A pepper verifier s' (bearer q) now =
      if r.expired now then .error unauthorized
      else .ok (Caller.apikey (r.heldAs reloaded)).principal :=
    fun now ↦ requirePrincipal_minted hmint (KeyStore.keyed_of_run h₀ hrun) hheld
  obtain ⟨-, -, -, -, hrscopes, hrexpires, -, hrbudget, hrcap⟩ := mintKey_record hmint
  have hiff : (r.heldAs reloaded).scopes = scopes ↔
      scopes ≠ [] ∧ (reloaded → ∀ scope ∈ scopes, Json.joinPairs none scope = scope) :=
    scopes_heldAs_iff hscopes hrscopes
  constructor
  · intro h
    have hlast : (Double.finite t₀).add ttl ≠ .nan := by
      refine Double.finite_add_ne_nan ?_
      rintro rfl
      cases hnonneg
    obtain ⟨p, hp, hpscopes, -⟩ := h.granted _ (Double.le_self hlast)
    have hheldScopes : (r.heldAs reloaded).scopes = scopes := by
      rw [hpresent] at hp
      split at hp
      · cases hp
      · cases hp
        exact hpscopes
    obtain ⟨hne, hback⟩ := hiff.mp hheldScopes
    refine ⟨hne, ?_, hback⟩
    by_contra htruthy
    -- a key that never expires is accepted a second later
    have hlater := h.refused (.finite (t₀ + 1)) ?_
    · rw [hpresent, expired_of_not_truthy hrexpires httl htruthy] at hlater
      cases hlater
    · obtain rfl : ttl = .finite 0 := Double.eq_zero_of_not_truthy htruthy
      rw [Double.add, add_zero, hclock]
      simp [Double.lt]
  · rintro ⟨hne, htruthy, hback⟩
    have hheldScopes := hiff.mpr ⟨hne, hback⟩
    constructor
    · intro now hnow
      rw [hpresent, expired_of_truthy hrexpires httl htruthy, Double.not_lt_of_le hnow]
      exact ⟨_, rfl, hheldScopes, (r.tokenBudget_heldAs reloaded).trans hrbudget,
        (r.maxConcurrency_heldAs reloaded).trans hrcap⟩
    · intro now hnow
      rw [hpresent, expired_of_truthy hrexpires httl htruthy, hnow]
      rfl

/-! ## No scopes, and no time -/

/-- A key for `chat`, good for ten seconds, without tokens to spend. -/
def sampleArgs : MintArgs :=
  { scopes := some [str "chat"], ttlSec := some (.finite 10), tokenBudget := some 0
    maxConcurrency := some 2 }

/-- Its record. -/
def sampleRecord : ApiKeyRecord :=
  { keyid := str "010203040506", hash := Keyring.spell (List.replicate 43 65 ++ str "pepper")
    scopes := [str "chat"], expiresAt := some (.finite 10), tokenBudget := some 0
    maxConcurrency := some 2 }

/-- No token is valid. -/
def noTokens : Str → Except KeyExn (Str × List Str) := fun _ ↦ .error .auth

/-- A key that is minted, saved and read back is good for ten seconds. -/
theorem grants_minted_iff_reloaded : ∃ q r s',
    mintKey Keyring.plainHasher (str "pepper") sampleArgs Keyring.sampleDraw (.finite 0) =
        .ok (q, r) ∧
      Held (KeyStore.load {} r) true s' ∧
      Grants (requirePrincipal Keyring.plainHasher (str "pepper") noTokens s' (bearer q))
        [str "chat"] (some 0) (some 2) ((Double.finite 0).add (.finite 10)) := by
  have hmint : mintKey Keyring.plainHasher (str "pepper") sampleArgs Keyring.sampleDraw
      (.finite 0) = .ok (Keyring.sampleKey true, sampleRecord) := by decide +kernel
  obtain ⟨s', hheld⟩ := Held.exists_reread (s := KeyStore.load {} sampleRecord) (by decide +kernel)
  have hopened : KeyStore.opened none = .ok {} := rfl
  refine ⟨_, sampleRecord, s', hmint, hheld, ?_⟩
  refine (grants_minted_iff rfl rfl rfl (by decide) hmint hopened (.nil _) hheld).mpr
    ⟨?_, rfl, fun _ ↦ ?_⟩
  · exact List.cons_ne_nil _ _
  · decide

/-- The scopes a minted key is accepted with at some time, if it is. -/
def sampleGrant (scopes : List Str) (ttl now : Double) : Option (List Str) :=
  match mintKey Keyring.plainHasher (str "pepper") { scopes := some scopes, ttlSec := some ttl }
    Keyring.sampleDraw (.finite 0) with
  | .error _ => none
  | .ok (q, r) => (requirePrincipal Keyring.plainHasher (str "pepper") noTokens (KeyStore.load {} r)
      (bearer q) now).toOption.map Principal.scopes

/-- A key with a lifetime of zero is good for ever, and one without scopes is good for `chat`. -/
theorem not_grants_boundary :
    sampleGrant [str "chat"] (.finite 0) (.finite 1) = some [str "chat"] ∧
      sampleGrant [] (.finite 10) (.finite 5) = some [str "chat"] := by
  decide +kernel

end InferenceGateway
