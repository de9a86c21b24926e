import InferenceGateway.Auth.Granted
import InferenceGateway.Auth.Issued
import InferenceGateway.Sample

/-!
# Who is admitted

`gateway/auth/jwt.py`, and with it both ways through `require_principal`: a token that PyJWT accepts
under the settings, or a key that was issued.  PyJWT is a parameter.  It is given one algorithm, never a
choice, and the algorithm is an asymmetric one: a verifier with another cannot be built.

The two ways do not meet.  What is taken for a token is no key, and every spelling of an issued key is
taken for a key.
-/

namespace InferenceGateway

open Py Transition

/-- `_ALLOWED_ALGORITHMS`. -/
def ALLOWED_ALGORITHMS : List Str :=
  ["RS256", "RS384", "RS512", "ES256", "ES384", "ES512"].map str

/-- The settings of `gateway/config.py` that the verifier reads. -/
structure JwtSettings where
  publicKey : Str
  algorithm : Str
  issuer : Str
  audience : Str
  leewaySec : ℤ

/-- Their defaults. -/
def JwtSettings.default : JwtSettings where
  publicKey := []
  algorithm := str "RS256"
  issuer := str "firstdata-api"
  audience := str "bkn301-inference"
  leewaySec := 30

/-! ## PyJWT -/

/-- What `jwt.decode` is called with. -/
structure DecodeArgs where
  token : Str
  key : Str
  algorithms : List Str
  issuer : Str
  audience : Str
  leeway : ℤ
  require : List Str
  verifyExp : Bool
  verifyAud : Bool
  verifyIss : Bool

/-- What `jwt.decode` raises. -/
inductive DecodeExn where
  /-- `PyJWTError`, of any kind. -/
  | pyJwt
  /-- An exception of the interpreter. -/
  | builtin (e : Exc)

/-- `jwt.decode`: the claims of the token, or an exception. -/
abbrev Decoder := DecodeArgs → Except DecodeExn Fields

/-! ## The verifier -/

/-- `JwtVerifier`. -/
structure JwtVerifier where
  publicKey : Str
  algorithm : Str
  asymmetric : algorithm ∈ ALLOWED_ALGORITHMS

namespace JwtVerifier

variable (η : JwtSettings)

/-- `__init__`; `none` for the `ValueError`. -/
def new (publicKey algorithm : Option Str) : Option JwtVerifier :=
  let algorithm := match algorithm with
    | some (c :: a) => c :: a
    | _ => η.algorithm
  if h : algorithm ∈ ALLOWED_ALGORITHMS then some ⟨publicKey.getD η.publicKey, algorithm, h⟩ else none

variable (decode : Decoder) (v : JwtVerifier)

/-- `enabled`. -/
def enabled : Bool := !v.publicKey.isEmpty

/-- The call of `jwt.decode`. -/
def decodeArgs (token : Str) : DecodeArgs where
  token
  key := v.publicKey
  algorithms := [v.algorithm]
  issuer := η.issuer
  audience := η.audience
  leeway := η.leewaySec
  require := ["exp", "iat", "sub", "iss", "aud"].map str
  verifyExp := true
  verifyAud := true
  verifyIss := true

/-- `verify`. -/
def verify (token : Str) : Except KeyExn Fields :=
  if !v.enabled then .error .auth
  else match decode (v.decodeArgs η token) with
    | .ok claims => .ok claims
    | .error .pyJwt => .error .auth
    | .error (.builtin e) => .error (.builtin e)

end JwtVerifier

/-- `scopes_of`. -/
def scopesOf (claims : Fields) : Except Exc (List Value) :=
  let scope := Fields.get claims (str "scope")
  let scopes := Fields.get claims (str "scopes")
  let raw := if scope.truthy then scope else if scopes.truthy then scopes else .list []
  match raw with
  | .str s => .ok ((words s).map .str)
  | raw => raw.elements

/-- The scopes that can be asked for: no other object is equal to a string. -/
def strings (scopes : List Value) : List Str := scopes.filterMap Value.str?

/-- `str(claims.get("sub"))` and `scopes_of(claims)`. -/
def claimsOf (rt : Runtime) (claims : Fields) : Except Exc (Str × List Str) := do
  let subject ← rt.printer.text rt.strDepth (Fields.get claims (str "sub"))
  let scopes ← scopesOf claims
  return (subject, strings scopes)

/-- The way of a token through `require_principal`. -/
def JwtVerifier.caller (rt : Runtime) (η : JwtSettings) (decode : Decoder) (v : JwtVerifier)
    (token : Str) : Except KeyExn (Str × List Str) := do
  let claims ← v.verify η decode token
  (claimsOf rt claims).mapError .builtin

/-- `require_principal` with the singletons it depends on: the verifier is built when it is first asked
for, and raises each time if it cannot be. -/
def authenticate (rt : Runtime) (η : JwtSettings) (decode : Decoder) (A : PasswordHasher) (pepper : Str)
    (store : KeyStore) (authorization : Option Str) (now : Double) : Except Exn Principal :=
  match JwtVerifier.new η none none with
  | none => .error (.builtin .valueError)
  | some v => requirePrincipal A pepper (v.caller rt η decode) store authorization now

/-! ## The header -/

/-- The header presents a credential. -/
def Presents (authorization : Option Str) (credential : Str) : Prop :=
  ∃ a, authorization = some a ∧ isBearer a ∧ credential = strip isSpace (a.drop 7) ∧ credential ≠ []

section Header

variable {A : PasswordHasher} {pepper : Str} {verifier : Str → Except KeyExn (Str × List Str)}
  {store : KeyStore} {authorization : Option Str} {credential : Str} {now : Double} {p : Principal}

/-- What is presented is what the caller is looked up by. -/
theorem requirePrincipal_of_presents (h : Presents authorization credential) :
    requirePrincipal A pepper verifier store authorization now =
      principalOf (callerOf A pepper verifier store credential now) := by
  obtain ⟨a, rfl, ha, rfl, hne⟩ := h
  have hempty : (strip isSpace (a.drop 7)).isEmpty = false := List.isEmpty_eq_false_iff.mpr hne
  simp only [requirePrincipal, ha, hempty, Bool.not_true, Bool.false_eq_true, if_false]

/-- Either a credential is presented, or the request is refused whatever the keys are. -/
theorem presents_or (authorization : Option Str) : (∃ credential, Presents authorization credential) ∨
    (∀ credential, ¬Presents authorization credential) ∧ ∀ A pepper verifier store now,
      requirePrincipal A pepper verifier store authorization now = .error unauthorized := by
  cases authorization with
  | none =>
      right
      constructor
      · rintro credential ⟨a, ha, -⟩
        cases ha
      · intro A pepper verifier store now
        rfl
  | some a =>
      by_cases ha : isBearer a
      · by_cases hne : strip isSpace (a.drop 7) = []
        · right
          constructor
          · rintro credential ⟨a', ha', -, rfl, hne'⟩
            cases ha'
            exact hne' hne
          · intro A pepper verifier store now
            simp only [requirePrincipal, ha, hne, Bool.not_true, Bool.false_eq_true, if_false,
              List.isEmpty_nil, if_true]
        · exact .inl ⟨_, a, rfl, ha, rfl, hne⟩
      · right
        constructor
        · rintro credential ⟨a', ha', hbearer, -⟩
          cases ha'
          exact ha hbearer
        · intro A pepper verifier store now
          simp only [requirePrincipal, ha, Bool.not_false, if_true]

/-- Only one credential is presented. -/
theorem Presents.unique {credential' : Str} (h : Presents authorization credential)
    (h' : Presents authorization credential') : credential = credential' := by
  obtain ⟨a, rfl, -, rfl, -⟩ := h
  obtain ⟨a', ha', -, rfl, -⟩ := h'
  cases ha'
  rfl

theorem principalOf_eq_ok {x : Except KeyExn Caller} :
    principalOf x = .ok p ↔ ∃ caller, x = .ok caller ∧ p = caller.principal := by
  constructor
  · intro h
    cases x with
    | error e => cases h
    | ok caller =>
        cases h
        exact ⟨caller, rfl, rfl⟩
  · rintro ⟨caller, rfl, rfl⟩
    rfl

theorem principalOf_eq_error {x : Except KeyExn Caller} {e : Exn} :
    principalOf x = .error e ↔ ∃ e', x = .error e' ∧ e = e'.raised := by
  constructor
  · intro h
    cases x with
    | error e' =>
        cases h
        exact ⟨e', rfl, rfl⟩
    | ok caller => cases h
  · rintro ⟨e', rfl, rfl⟩
    rfl

end Header

/-! ## The two ways -/

/-- By a token: PyJWT has accepted it, by the one algorithm of the settings. -/
def ByToken (rt : Runtime) (η : JwtSettings) (h : η.algorithm ∈ ALLOWED_ALGORITHMS) (decode : Decoder)
    (credential : Str) (p : Principal) : Prop :=
  isJwt credential ∧ η.publicKey ≠ [] ∧ ∃ claims subject scopes,
    decode ((JwtVerifier.mk η.publicKey η.algorithm h).decodeArgs η credential) = .ok claims ∧
      claimsOf rt claims = .ok (subject, scopes) ∧ p = (Caller.jwt subject scopes).principal

/-- By a key: it was issued, up to its prefix, and the store holds its record, which is neither revoked
nor expired. -/
def ByKey (w : Keyring) (credential : Str) (now : Double) (p : Principal) : Prop :=
  ∃ q r keyid, w.IssuedWith q r ∧ Respelled credential q ∧ w.store.get keyid = some r ∧
    r.revoked = false ∧ r.expired now = false ∧ p = (Caller.apikey r).principal

section Ways

variable {rt : Runtime} {η : JwtSettings} {decode : Decoder} {A : PasswordHasher} {pepper : Str}
  {w : Keyring} {credential : Str} {now : Double} {p : Principal} {v : JwtVerifier} {claims : Fields}

theorem new_eq_some : JwtVerifier.new η none none = some v ↔
    ∃ h, v = ⟨η.publicKey, η.algorithm, h⟩ := by
  unfold JwtVerifier.new
  dsimp only
  split
  · rename_i h
    constructor
    · rintro ⟨⟩
      exact ⟨h, rfl⟩
    · rintro ⟨-, rfl⟩
      rfl
  · rename_i h
    constructor
    · rintro ⟨⟩
    · rintro ⟨h', -⟩
      exact absurd h' h

/-- A token that is verified is one that PyJWT accepts. -/
theorem JwtVerifier.verify_eq_ok : v.verify η decode credential = .ok claims ↔
    v.publicKey ≠ [] ∧ decode (v.decodeArgs η credential) = .ok claims := by
  unfold JwtVerifier.verify JwtVerifier.enabled
  cases hkey : v.publicKey with
  | nil => simp
  | cons c key =>
      rcases decode (v.decodeArgs η credential) with (_ | e) | claims
      · simp
      · simp
      · simp

theorem JwtVerifier.caller_eq_ok {subject : Str} {scopes : List Str} :
    v.caller rt η decode credential = .ok (subject, scopes) ↔
      v.publicKey ≠ [] ∧ ∃ claims, decode (v.decodeArgs η credential) = .ok claims ∧
        claimsOf rt claims = .ok (subject, scopes) := by
  constructor
  · intro h
    obtain ⟨claims, hverify, h⟩ := of_bind_eq_ok h
    obtain ⟨hkey, hdecode⟩ := JwtVerifier.verify_eq_ok.mp hverify
    refine ⟨hkey, claims, hdecode, ?_⟩
    cases hclaims : claimsOf rt claims with
    | error e =>
        rw [hclaims] at h
        cases h
    | ok x =>
        rw [hclaims] at h
        exact congrArg _ (Except.ok.inj h)
  · rintro ⟨hkey, claims, hdecode, hclaims⟩
    rw [JwtVerifier.caller, JwtVerifier.verify_eq_ok.mpr ⟨hkey, hdecode⟩]
    exact congrArg (Except.mapError KeyExn.builtin) hclaims

/-- A key that is accepted is one that was issued. -/
theorem Keyring.Sound.verify_eq_ok (hw : w.Sound A pepper) {r : ApiKeyRecord} :
    w.store.verify A pepper credential now = .ok r ↔
      ∃ q keyid, w.IssuedWith q r ∧ Respelled credential q ∧ w.store.get keyid = some r ∧
        r.revoked = false ∧ r.expired now = false := by
  rw [KeyStore.verify_eq_ok]
  constructor
  · rintro ⟨e, he, keyid, secret, rfl, -, -, -, hget, hrev, hexp, -, hacc⟩
    obtain ⟨⟨q, hq⟩, hk⟩ := hw.store.of_get hget
    obtain ⟨e', he', secret', salt, hqe, hh, -⟩ := hw.keyOf hq
    rw [hh, A.accepts_digest, List.append_cancel_right_eq] at hacc
    refine ⟨q, keyid, hq, ⟨e, he, e', he', keyid ++ 95 :: secret, rfl, ?_⟩, hget, hrev, hexp⟩
    rw [hqe, hk, hacc]
  · rintro ⟨q, keyid, hq, ⟨e, he, e', he', x, rfl, hqx⟩, hget, hrev, hexp⟩
    obtain ⟨d, hd, secret, salt, hqd, hh, hex, hk₀, hs₀, henc⟩ := hw.keyOf hq
    obtain ⟨-, rfl⟩ := prefix_unique he' hd (hqx.symm.trans hqd)
    obtain rfl := (hw.store.of_get hget).2
    refine ⟨e, he, r.keyid, secret, rfl, underscore_not_mem hex, hk₀, hs₀, hget, hrev, hexp, henc, ?_⟩
    rw [hh, A.accepts_digest]

/-- No spelling of a key is taken for a token. -/
theorem not_isJwt_of_respelled {q : Str} (h : Respelled credential q) : isJwt credential = false := by
  obtain ⟨e, he, -, -, x, rfl, -⟩ := h
  have hbkn : ∀ e ∈ KEY_PREFIXES, ∃ t, e = str "bkn_" ++ t := by
    intro e he
    simp only [KEY_PREFIXES, List.mem_cons, List.not_mem_nil, or_false] at he
    rcases he with rfl | rfl
    · exact ⟨str "live_", by decide⟩
    · exact ⟨str "test_", by decide⟩
  obtain ⟨t, rfl⟩ := hbkn e he
  have hpre : (str "bkn_").isPrefixOf (str "bkn_" ++ t ++ x) = true := by
    rw [List.append_assoc]
    exact List.isPrefixOf_iff_prefix.mpr (List.prefix_append _ _)
  rw [isJwt, hpre, Bool.not_true, Bool.and_false]

end Ways

/-! ## Who is admitted, and what the others are told -/

/-- PyJWT raises something of its own, or the claims are not of the form the code expects. -/
def TokenFails (rt : Runtime) (η : JwtSettings) (h : η.algorithm ∈ ALLOWED_ALGORITHMS)
    (decode : Decoder) (credential : Str) : Prop :=
  let decoded := decode ((JwtVerifier.mk η.publicKey η.algorithm h).decodeArgs η credential)
  isJwt credential ∧ ((∃ e, decoded = .error (.builtin e)) ∨
    ∃ claims e, decoded = .ok claims ∧ claimsOf rt claims = .error e)

section Admission

variable {rt : Runtime} {η : JwtSettings} {decode : Decoder} {A : PasswordHasher} {pepper : Str}
  {w : Keyring} {credential : Str} {now : Double} {p : Principal} {v : JwtVerifier}

/-- The caller of a credential, by either way. -/
theorem callerOf_eq_ok (hw : w.Sound A pepper) (ha : η.algorithm ∈ ALLOWED_ALGORITHMS) :
    principalOf (callerOf A pepper
        (JwtVerifier.caller rt η decode ⟨η.publicKey, η.algorithm, ha⟩) w.store credential now) =
      .ok p ↔ ByToken rt η ha decode credential p ∨ ByKey w credential now p := by
  rw [principalOf_eq_ok, callerOf]
  by_cases hjwt : isJwt credential
  · rw [if_pos hjwt]
    constructor
    · rintro ⟨caller, hcaller, rfl⟩
      obtain ⟨⟨subject, scopes⟩, hc, rfl⟩ := map_eq_ok_iff.mp hcaller
      obtain ⟨hkey, claims, hdecode, hclaims⟩ := JwtVerifier.caller_eq_ok.mp hc
      exact .inl ⟨hjwt, hkey, claims, subject, scopes, hdecode, hclaims, rfl⟩
    · rintro (⟨-, hkey, claims, subject, scopes, hdecode, hclaims, rfl⟩ | ⟨q, r, keyid, -, hq, -⟩)
      · exact ⟨_, map_eq_ok_iff.mpr ⟨(subject, scopes),
          JwtVerifier.caller_eq_ok.mpr ⟨hkey, claims, hdecode, hclaims⟩, rfl⟩, rfl⟩
      · rw [not_isJwt_of_respelled hq] at hjwt
        cases hjwt
  · rw [if_neg hjwt]
    constructor
    · rintro ⟨caller, hcaller, rfl⟩
      obtain ⟨r, hr, rfl⟩ := map_eq_ok_iff.mp hcaller
      obtain ⟨q, keyid, hq, hspell, hget, hrev, hexp⟩ := hw.verify_eq_ok.mp hr
      exact .inr ⟨q, r, keyid, hq, hspell, hget, hrev, hexp, rfl⟩
    · rintro (⟨hc, -⟩ | ⟨q, r, keyid, hq, hspell, hget, hrev, hexp, rfl⟩)
      · exact absurd hc hjwt
      · exact ⟨_, map_eq_ok_iff.mpr ⟨r, hw.verify_eq_ok.mpr ⟨q, keyid, hq, hspell, hget, hrev, hexp⟩,
          rfl⟩, rfl⟩

/-- What a key is refused with: an `AuthError`, if it is Unicode text. -/
theorem Keyring.Sound.verify_error (hw : w.Sound A pepper) {e : KeyExn}
    (h : w.store.verify A pepper credential now = .error e) :
    e = .auth ∨ encodable credential = false := by
  rcases KeyStore.verify_error h with rfl | ⟨keyid, secret, r, hsplit, hget, hbad⟩
  · exact .inl rfl
  · right
    obtain ⟨⟨q, hq⟩, -⟩ := hw.store.of_get hget
    obtain ⟨-, -, secret', -, -, -, -, -, -, henc⟩ := hw.keyOf hq
    obtain ⟨d, -, rfl, -⟩ := splitKey_eq_ok.mp hsplit
    -- the pepper is text, since a key was minted with it
    rw [encodable, List.all_append, Bool.and_eq_true] at henc
    have hpepper := List.all_eq_true.mpr (List.all_eq_true.mp henc.2)
    rw [encodable, List.all_append, hpepper, Bool.and_true] at hbad
    rw [encodable, List.all_append, List.all_append, List.all_cons, hbad, Bool.and_false,
      Bool.and_false, Bool.and_false]

/-- What a token is refused with: an `AuthError`, unless something fails. -/
theorem JwtVerifier.caller_error {ha : η.algorithm ∈ ALLOWED_ALGORITHMS} {e : KeyExn}
    (hjwt : isJwt credential)
    (h : JwtVerifier.caller rt η decode ⟨η.publicKey, η.algorithm, ha⟩ credential = .error e) :
    e = .auth ∨ TokenFails rt η ha decode credential := by
  unfold JwtVerifier.caller JwtVerifier.verify at h
  split at h
  · exact .inl (Except.error.inj h).symm
  · rcases hdecode : decode ((JwtVerifier.mk η.publicKey η.algorithm ha).decodeArgs η credential)
      with (_ | e') | claims
    · rw [hdecode] at h
      exact .inl (Except.error.inj h).symm
    · exact .inr ⟨hjwt, .inl ⟨e', hdecode⟩⟩
    · rw [hdecode] at h
      refine .inr ⟨hjwt, .inr ⟨claims, ?_⟩⟩
      cases hclaims : claimsOf rt claims with
      | error e' => exact ⟨e', hdecode, rfl⟩
      | ok x =>
          rw [show (do let claims ← Except.ok claims; (claimsOf rt claims).mapError KeyExn.builtin) =
            (claimsOf rt claims).mapError KeyExn.builtin from rfl, hclaims] at h
          cases h

/-- What the caller of a credential is refused with. -/
theorem callerOf_error (hw : w.Sound A pepper) (ha : η.algorithm ∈ ALLOWED_ALGORITHMS) {e : Exn}
    (h : principalOf (callerOf A pepper (JwtVerifier.caller rt η decode
      ⟨η.publicKey, η.algorithm, ha⟩) w.store credential now) = .error e) :
    e = unauthorized ∨ encodable credential = false ∨ TokenFails rt η ha decode credential := by
  obtain ⟨x, hx, he⟩ := principalOf_eq_error.mp h
  unfold callerOf at hx
  by_cases hjwt : isJwt credential
  · rw [if_pos hjwt] at hx
    rcases JwtVerifier.caller_error hjwt (map_eq_error_iff.mp hx) with rfl | hfail
    · exact .inl he
    · exact .inr (.inr hfail)
  · rw [if_neg hjwt] at hx
    rcases hw.verify_error (map_eq_error_iff.mp hx) with rfl | hbad
    · exact .inl he
    · exact .inr (.inl hbad)

end Admission

/-- However the store has come about, a request is let through if and only if the settings name an
asymmetric algorithm and the header presents a token that PyJWT accepts, with the key and that algorithm
alone, or a spelling of an issued key whose record is held, not revoked and not expired.  All others get
the same answer, which tells nothing, unless the algorithm is not asymmetric, PyJWT raises something of
its own, the claims are not of the form the code expects, or the credential is not Unicode text. -/
theorem admits_iff {A : PasswordHasher} {pepper : Str} {w : Keyring} {es : List (KeyEvent A)}
    (rt : Runtime) (η : JwtSettings) (decode : Decoder)
    (h : Run (Steps (Keyring.step A pepper)) {} es w) (authorization : Option Str) (now : Double) :
    (∀ p, authenticate rt η decode A pepper w.store authorization now = .ok p ↔
      ∃ (ha : η.algorithm ∈ ALLOWED_ALGORITHMS) (credential : Str), Presents authorization credential ∧
        (ByToken rt η ha decode credential p ∨ ByKey w credential now p)) ∧
    ∀ e, authenticate rt η decode A pepper w.store authorization now = .error e → e = unauthorized ∨
      η.algorithm ∉ ALLOWED_ALGORITHMS ∨
      ∃ (ha : η.algorithm ∈ ALLOWED_ALGORITHMS) (credential : Str), Presents authorization credential ∧
        (encodable credential = false ∨ TokenFails rt η ha decode credential) := by
  have hw := Keyring.sound_of_run h
  unfold authenticate
  cases hv : JwtVerifier.new η none none with
  | none =>
      have ha : η.algorithm ∉ ALLOWED_ALGORITHMS := by
        intro ha
        rw [new_eq_some.mpr ⟨ha, rfl⟩] at hv
        cases hv
      refine ⟨fun p ↦ ⟨fun hp ↦ ?_, fun ⟨ha', _⟩ ↦ absurd ha' ha⟩, fun e _ ↦ .inr (.inl ha)⟩
      cases hp
  | some v =>
      obtain ⟨ha, rfl⟩ := new_eq_some.mp hv
      dsimp only
      rcases presents_or authorization with ⟨credential, hpresent⟩ | ⟨hnone, hrefused⟩
      · rw [requirePrincipal_of_presents hpresent]
        constructor
        · intro p
          rw [callerOf_eq_ok hw ha]
          constructor
          · exact fun hp ↦ ⟨ha, credential, hpresent, hp⟩
          · rintro ⟨ha', credential', hpresent', hp⟩
            obtain rfl := hpresent.unique hpresent'
            exact hp
        · intro e he
          rcases callerOf_error hw ha he with rfl | hfail
          · exact .inl rfl
          · exact .inr (.inr ⟨ha, credential, hpresent, hfail⟩)
      · rw [hrefused]
        constructor
        · intro p
          constructor
          · intro hp
            cases hp
          · rintro ⟨-, credential, hpresent, -⟩
            exact absurd hpresent (hnone credential)
        · intro e he
          exact .inl (Except.error.inj he).symm

/-- PyJWT, where one token is good. -/
def sampleDecoder : Decoder := fun args ↦
  if args.token = str "a.b.c" ∧ args.algorithms = [str "RS256"] then
    .ok [(str "sub", .str (str "api")), (str "scope", .str (str "chat models"))]
  else .error .pyJwt

/-- The settings with a key. -/
def sampleJwt : JwtSettings := { JwtSettings.default with publicKey := str "pem" }

/-- A service presents its token, where a key has been issued. -/
theorem admits_iff_token : ∃ w p,
    Run (Steps (Keyring.step Keyring.plainHasher (str "pepper"))) {} Keyring.sampleIssue w ∧
    authenticate .sample sampleJwt sampleDecoder Keyring.plainHasher (str "pepper") w.store
      (bearer (str "a.b.c")) (.finite 1) = .ok p ∧
    ∃ (ha : sampleJwt.algorithm ∈ ALLOWED_ALGORITHMS) (credential : Str),
      Presents (bearer (str "a.b.c")) credential ∧
        (ByToken .sample sampleJwt ha sampleDecoder credential p ∨
          ByKey w credential (.finite 1) p) := by
  obtain ⟨w, hrun, hw⟩ := Run.exists_of_exec (Keyring.step Keyring.plainHasher (str "pepper")) {}
    Keyring.sampleIssue (fun w : Keyring ↦ (authenticate .sample sampleJwt sampleDecoder
      Keyring.plainHasher (str "pepper") w.store (bearer (str "a.b.c")) (.finite 1)).toBool)
    (by decide +kernel)
  cases hp : authenticate .sample sampleJwt sampleDecoder Keyring.plainHasher (str "pepper") w.store
      (bearer (str "a.b.c")) (.finite 1) with
  | error e =>
      rw [hp] at hw
      cases hw
  | ok p =>
      obtain ⟨hadmitted, -⟩ :=
        admits_iff .sample sampleJwt sampleDecoder hrun (bearer (str "a.b.c")) (.finite 1)
      exact ⟨w, p, hrun, hp, (hadmitted p).mp hp⟩

end InferenceGateway
