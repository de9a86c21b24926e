import InferenceGateway.Python.Dict
import InferenceGateway.Python.Json
import InferenceGateway.Python.Secrets
import InferenceGateway.Python.Split

/-!
# API keys

`gateway/auth/keys.py`: issuing a key, and recognising it when it comes back.

A record is an object that can be held outside the store: `revoke` changes it in place,
and whoever minted it may assign to it later, as the tests do with `expires_at`.  So the
records live in a heap here, and `_records` maps a key id to a place in it.

`argon2.PasswordHasher` is not part of the repository.  `PasswordHasher` is what `keys.py`
relies on: the hash is ASCII text that verifies against the password it was made from,
and against no other.
-/

namespace InferenceGateway

open Py

/-! ## The password hasher -/

/-- `argon2.PasswordHasher`, as far as `keys.py` uses it. -/
structure PasswordHasher where
  Salt : Type
  /-- The hash of a password under a salt. -/
  digest : Salt → Str → Str
  /-- Whether a password verifies against a hash. -/
  accepts : Str → Str → Bool
  /-- The password a hash was made from verifies, and no other. -/
  accepts_digest : ∀ salt x y, accepts (digest salt x) y = true ↔ x = y
  /-- The encoded hash is ASCII. -/
  digest_ascii : ∀ salt x, ∀ c ∈ digest salt x, c < 128

namespace PasswordHasher

variable (A : PasswordHasher)

/-- `_hasher.hash`: a password is encoded as UTF-8 first. -/
def hash (salt : A.Salt) (password : Str) : Except Exc Str :=
  if encodable password then .ok (A.digest salt password) else .error .unicodeEncodeError

/-- `_hasher.verify`; `false` stands for a `VerifyMismatchError`. -/
def verify (hash password : Str) : Except Exc Bool :=
  if encodable password then .ok (A.accepts hash password) else .error .unicodeEncodeError

end PasswordHasher

/-! ## Records -/

/-- `ApiKeyRecord`. -/
structure ApiKeyRecord where
  keyid : Str
  hash : Str
  scopes : List Str := []
  expiresAt : Option Double := none
  revoked : Bool := false
  label : Str := []
  tokenBudget : Option ℤ := none
  maxConcurrency : Option ℤ := none
  deriving DecidableEq

namespace ApiKeyRecord

/-- The record past its expiry, `time.time() > record.expires_at`. -/
def expired (r : ApiKeyRecord) (now : Double) : Bool := r.expiresAt.any fun t ↦ t.lt now

/-- What `from_json` returns for the entry `to_json` wrote, through the text of the file:
every field as it was, except that in a string two halves of a surrogate pair come back as
one character. -/
def reread (r : ApiKeyRecord) : ApiKeyRecord :=
  { keyid := Json.joinPairs none r.keyid, hash := Json.joinPairs none r.hash
    scopes := r.scopes.map (Json.joinPairs none), expiresAt := r.expiresAt, revoked := r.revoked
    label := Json.joinPairs none r.label, tokenBudget := r.tokenBudget
    maxConcurrency := r.maxConcurrency }

/-- The two are the record of one key: nothing assigns to the key id or to the hash. -/
def SameKey (r r' : ApiKeyRecord) : Prop := r.keyid = r'.keyid ∧ r.hash = r'.hash

end ApiKeyRecord

/-! ## The format -/

/-- What `keys.py` may raise here. -/
inductive KeyExn where
  /-- `AuthError`. -/
  | auth
  /-- An exception of the interpreter. -/
  | builtin (e : Exc)
  deriving DecidableEq

/-- `_KEY_PREFIXES`. -/
def KEY_PREFIXES : List Str := [str "bkn_live_", str "bkn_test_"]

/-- `split_key`. -/
def splitKey (presented : Str) : Except KeyExn (Str × Str) :=
  match KEY_PREFIXES.find? fun pre ↦ pre.isPrefixOf presented with
  | none => .error .auth
  | some pre => match cut? (str "_") (presented.drop pre.length) with
    | none => .error .auth
    | some (keyid, secret) =>
      if keyid.isEmpty || secret.isEmpty then .error .auth else .ok (keyid, secret)

/-! ## Issuing -/

/-- What is drawn for a new key: the bytes of `token_hex(6)` and of `token_urlsafe(32)`,
and the salt. -/
structure Draw (A : PasswordHasher) where
  id : Bytes
  key : Bytes
  salt : A.Salt
  length_id : id.length = 6
  length_key : key.length = 32

/-- The arguments of `mint_key`. -/
structure MintArgs where
  live : Bool := true
  scopes : Option (List Str) := none
  ttlSec : Option Double := none
  label : Str := []
  tokenBudget : Option ℤ := none
  maxConcurrency : Option ℤ := none

/-- `scopes or ["chat"]`. -/
def MintArgs.scopesOr (args : MintArgs) : List Str := match args.scopes with
  | some (s :: t) => s :: t
  | _ => [str "chat"]

/-- `(time.time() + ttl_sec) if ttl_sec else None`. -/
def MintArgs.expiry (args : MintArgs) (now : Double) : Option Double := match args.ttlSec with
  | some ttl => if ttl.truthy then some (now.add ttl) else none
  | none => none

variable (A : PasswordHasher) (pepper : Str)

/-- The plaintext of a key. -/
def plaintext (live : Bool) (keyid secret : Str) : Str :=
  (if live then str "bkn_live_" else str "bkn_test_") ++ keyid ++ str "_" ++ secret

/-- `mint_key`. -/
def mintKey (args : MintArgs) (draw : Draw A) (now : Double) : Except KeyExn (Str × ApiKeyRecord) :=
  let keyid := tokenHex draw.id
  let secret := tokenUrlsafe draw.key
  match A.hash draw.salt (secret ++ pepper) with
  | .error e => .error (.builtin e)
  | .ok hash => .ok (plaintext args.live keyid secret,
      { keyid := keyid, hash := hash, scopes := args.scopesOr, expiresAt := args.expiry now
        label := args.label, tokenBudget := args.tokenBudget
        maxConcurrency := args.maxConcurrency })

/-! ## The store -/

/-- `KeyStore`, with the record objects it refers to. -/
structure KeyStore where
  /-- The record objects, in the order they are made. -/
  heap : List ApiKeyRecord := []
  /-- `_records`. -/
  records : Dict Str ℕ := []
  /-- The entries of the file at `path`, if there is one. -/
  file : Option (List ApiKeyRecord) := none

namespace KeyStore

variable (s : KeyStore)

/-- `_records.get(keyid)`. -/
def get (keyid : Str) : Option ApiKeyRecord := (s.records.lookup keyid).bind fun i ↦ s.heap[i]?

/-- A new record object. -/
def alloc (r : ApiKeyRecord) : KeyStore := { s with heap := s.heap ++ [r] }

/-- `add`, of the record at a place of the heap. -/
def add (i : ℕ) : KeyStore := match s.heap[i]? with
  | none => s
  | some r => { s with records := s.records.set r.keyid i }

/-- Assign to the record at a place of the heap, to any field but the key id and the hash. -/
def assign (i : ℕ) (new : ApiKeyRecord) : KeyStore := match s.heap[i]? with
  | none => s
  | some r => { s with heap := s.heap.set i { new with keyid := r.keyid, hash := r.hash } }

/-- `revoke`: the store, and whether there was a record to revoke. -/
def revoke (keyid : Str) : KeyStore × Bool := match s.records.lookup keyid with
  | none => (s, false)
  | some i => match s.heap[i]? with
    | none => (s, false)
    | some r => (s.assign i { r with revoked := true }, true)

/-- `save`. -/
def save : KeyStore := { s with file := some (s.records.filterMap fun kv ↦ s.heap[kv.2]?) }

/-- Make a record object and enter it. -/
def load (r : ApiKeyRecord) : KeyStore := (s.alloc r).add s.heap.length

/-- `reload`. -/
def reload : KeyStore :=
  (s.file.getD []).foldl (fun s r ↦ s.load r.reread) { s with records := [] }

/-- `verify`.  The dummy verification of an unknown key id takes time and nothing else. -/
def verify (presented : Str) (now : Double) : Except KeyExn ApiKeyRecord :=
  match splitKey presented with
  | .error e => .error e
  | .ok (keyid, secret) => match s.get keyid with
    | none => .error .auth
    | some record =>
      if record.revoked then .error .auth
      else if record.expired now then .error .auth
      else match A.verify record.hash (secret ++ pepper) with
        | .error e => .error (.builtin e)
        | .ok false => .error .auth
        | .ok true => .ok record

end KeyStore

end InferenceGateway
