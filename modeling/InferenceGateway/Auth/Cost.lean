import InferenceGateway.Auth.Issued

/-!
# What a rejection gives away

`KeyStore.verify` again, with the messages of its exceptions and the number of password
verifications it performs.  The hasher is a parameter as before, but with everything it may raise:
a store that was edited by hand may hold a hash that is none, and a presented secret may hold a
lone surrogate.
-/

namespace InferenceGateway

open Py

/-- An exception out of `verify`. -/
inductive Rejection (E : Type) where
  /-- `AuthError(message)`. -/
  | auth (message : String)
  /-- What the hasher raised and nothing caught. -/
  | hasher (e : E)
  deriving DecidableEq

/-- `_hasher.verify` of the hasher `A`: `false` stands for a `VerifyMismatchError`, and `E` is the
type of its other exceptions. -/
structure Hashing (A : PasswordHasher) (E : Type) where
  check : Str → Str → Except E Bool
  /-- A hash it made itself is checked, against a password that can be encoded. -/
  check_digest : ∀ salt x y, encodable y →
    check (A.digest salt x) y = .ok (A.accepts (A.digest salt x) y)
  /-- The salt of `_DUMMY_HASH`. -/
  dummySalt : A.Salt

variable {A : PasswordHasher} {E : Type}

namespace Hashing

variable (V : Hashing A E)

/-- `_DUMMY_HASH`. -/
def dummyHash : Str := A.digest V.dummySalt (str "dummy-value-for-constant-time-rejection")

/-- `_dummy_verify`: the exception that leaves it, if one does. -/
def dummyVerify : Except E Unit := match V.check V.dummyHash (str "not-the-value") with
  | .ok _ => .ok ()
  | .error e => .error e

/-- The other exceptions of a check. -/
def raised? (hash password : Str) : Option E := match V.check hash password with
  | .ok _ => none
  | .error e => some e

/-- The dummy verification fails quietly. -/
theorem dummyVerify_eq : V.dummyVerify = .ok () := by
  unfold dummyVerify dummyHash
  rw [V.check_digest _ _ _ (by decide)]

end Hashing

/-- The hasher with the exceptions of the interpreter. -/
def PasswordHasher.hashing (A : PasswordHasher) (dummySalt : A.Salt) : Hashing A Exc where
  check := A.verify
  check_digest _ _ _ h := if_pos h
  dummySalt := dummySalt

/-- What is left of an exception without its message. -/
def Rejection.exn : Rejection Exc → KeyExn
  | .auth _ => .auth
  | .hasher e => .builtin e

namespace KeyStore

variable (V : Hashing A E) (pepper : Str) (s : KeyStore)

/-- `verify`, and how often it has called the hasher. -/
def verifyCounted (presented : Str) (now : Double) : Except (Rejection E) ApiKeyRecord × ℕ :=
  match splitKey presented with
  | .error _ => (.error (.auth "malformed key"), 0)
  | .ok (keyid, secret) => match s.get keyid with
    | none => match V.dummyVerify with
      | .error e => (.error (.hasher e), 1)
      | .ok _ => (.error (.auth "invalid key"), 1)
    | some record =>
      if record.revoked then (.error (.auth "invalid key"), 0)
      else if record.expired now then (.error (.auth "invalid key"), 0)
      else match V.check record.hash (secret ++ pepper) with
        | .error e => (.error (.hasher e), 1)
        | .ok false => (.error (.auth "invalid key"), 1)
        | .ok true => (.ok record, 1)

/-- The key id is that of a key that is revoked or has expired. -/
def shut (keyid : Str) (now : Double) : Bool :=
  (s.get keyid).any fun r ↦ r.revoked || r.expired now

/-- What the hasher raises, other than a mismatch, for a secret that meets a key in force. -/
def fault (keyid secret : Str) (now : Double) : Option E :=
  if s.shut keyid now then none
  else (s.get keyid).bind fun r ↦ V.raised? r.hash (secret ++ pepper)

variable {V pepper s} {p p' k k' x x' : Str} {now : Double}

/-- Without the count and the messages this is `verify`. -/
theorem verifyCounted_verify (dummySalt : A.Salt) :
    (s.verifyCounted (A.hashing dummySalt) pepper p now).1.mapError Rejection.exn =
      s.verify A pepper p now := by
  unfold verifyCounted verify
  rcases hsplit : splitKey p with e | ⟨keyid, secret⟩
  · rw [splitKey_error hsplit]
    rfl
  · dsimp only
    cases s.get keyid with
    | none =>
        rw [Hashing.dummyVerify_eq]
        rfl
    | some record =>
        dsimp only
        cases record.revoked with
        | true => rfl
        | false =>
            cases record.expired now with
            | true => rfl
            | false =>
                simp only [PasswordHasher.hashing, Bool.false_eq_true, if_false]
                rcases A.verify record.hash (secret ++ pepper) with e | _ | _
                · rfl
                · rfl
                · rfl

/-- What a rejection is: the exception is that of the hasher, if it raises one, and otherwise
always the same; and the hasher is called unless the key is revoked or has expired. -/
theorem verifyCounted_of_rejected (hp : splitKey p = .ok (k, x))
    (hr : (s.verifyCounted V pepper p now).1.isOk = false) :
    s.verifyCounted V pepper p now =
      (.error ((s.fault V pepper k x now).elim (.auth "invalid key") .hasher),
        if s.shut k now then 0 else 1) := by
  cases hget : s.get k with
  | none =>
      have hshut : s.shut k now = false := by simp [shut, hget]
      have hfault : s.fault V pepper k x now = none := by simp [fault, hshut, hget]
      rw [hshut, hfault]
      simp only [verifyCounted, hp, hget, Hashing.dummyVerify_eq]
      rfl
  | some record =>
      have hshut : s.shut k now = (record.revoked || record.expired now) := by simp [shut, hget]
      cases hs : s.shut k now with
      | true =>
          have hfault : s.fault V pepper k x now = none := if_pos hs
          rw [hfault]
          rw [hs, eq_comm, Bool.or_eq_true] at hshut
          rcases hshut with hrev | hexp
          · simp [verifyCounted, hp, hget, hrev]
          · simp [verifyCounted, hp, hget, hexp]
      | false =>
          rw [hs, eq_comm, Bool.or_eq_false_iff] at hshut
          have hfault : s.fault V pepper k x now = V.raised? record.hash (x ++ pepper) := by
            simp [fault, hs, hget]
          rw [hfault]
          simp only [verifyCounted, hp, hget, hshut.1, hshut.2] at hr ⊢
          unfold Hashing.raised?
          rcases hcheck : V.check record.hash (x ++ pepper) with e | _ | _
          · rfl
          · rfl
          · rw [hcheck] at hr
            cases hr

theorem elim_injective {o o' : Option E}
    (h : o.elim (Rejection.auth "invalid key") .hasher = o'.elim (.auth "invalid key") .hasher) :
    o = o' := by
  cases o with
  | none =>
      cases o' with
      | none => rfl
      | some e => cases h
  | some e =>
      cases o' with
      | none => cases h
      | some e' =>
          cases h
          rfl

/-- Two rejections are alike, in the exception, its message and the number of verifications,
exactly if both keys are revoked or have expired or neither is, and the hasher fails on both
secrets in the same way, which is not at all for what it can encode. -/
theorem rejections_alike_iff (V : Hashing A E) (pepper : Str) (s : KeyStore) (now : Double)
    (p p' : Str) {k k' x x' : Str} (hp : splitKey p = .ok (k, x)) (hp' : splitKey p' = .ok (k', x'))
    (hr : (s.verifyCounted V pepper p now).1.isOk = false)
    (hr' : (s.verifyCounted V pepper p' now).1.isOk = false) :
    s.verifyCounted V pepper p now = s.verifyCounted V pepper p' now ↔
      s.shut k now = s.shut k' now ∧ s.fault V pepper k x now = s.fault V pepper k' x' now := by
  rw [verifyCounted_of_rejected hp hr, verifyCounted_of_rejected hp' hr']
  constructor
  · intro h
    obtain ⟨hexn, hcount⟩ := Prod.mk.inj h
    refine ⟨?_, elim_injective (Except.error.inj hexn)⟩
    cases hs : s.shut k now with
    | true =>
        cases hs' : s.shut k' now with
        | true => rfl
        | false =>
            rw [hs, hs'] at hcount
            cases hcount
    | false =>
        cases hs' : s.shut k' now with
        | true =>
            rw [hs, hs'] at hcount
            cases hcount
        | false => rfl
  · rintro ⟨hshut, hfault⟩
    rw [hshut, hfault]

/-- The hasher does not fail on what can be encoded, if the hash is one it has made. -/
theorem fault_eq_none {r : ApiKeyRecord} {salt : A.Salt} {y : Str} (hget : s.get k = some r)
    (hhash : r.hash = A.digest salt y) (henc : encodable (x ++ pepper)) :
    s.fault V pepper k x now = none := by
  unfold fault
  split
  · rfl
  · rw [hget, Option.bind_some, hhash]
    unfold Hashing.raised?
    rw [V.check_digest _ _ _ henc]

/-! ## A key that is revoked, and one that was never issued -/

/-- A key that was issued, one that was revoked after it was issued, and the secrets of both. -/
def sampleStore : KeyStore where
  heap := [{ keyid := str "a1", hash := Keyring.spell (str "right") },
    { keyid := str "b2", hash := Keyring.spell (str "right"), revoked := true }]
  records := [(str "a1", 0), (str "b2", 1)]

/-- The sample hasher with its exceptions. -/
def sampleHashing : Hashing Keyring.plainHasher Exc := Keyring.plainHasher.hashing Unit.unit

/-- An unknown key id and a wrong secret are rejected alike. -/
theorem rejections_alike_iff_wrong :
    sampleStore.verifyCounted sampleHashing [] (str "bkn_live_c3_right") (.finite 0) =
      sampleStore.verifyCounted sampleHashing [] (str "bkn_live_a1_wrong") (.finite 0) := by
  have hunknown : splitKey (str "bkn_live_c3_right") = .ok (str "c3", str "right") := by decide
  have hwrong : splitKey (str "bkn_live_a1_wrong") = .ok (str "a1", str "wrong") := by decide
  refine (rejections_alike_iff sampleHashing [] sampleStore (.finite 0) _ _ hunknown hwrong
    (by decide +kernel) (by decide +kernel)).mpr ⟨rfl, by decide +kernel⟩

/-- A revoked key is rejected like an unknown one, but without the verification. -/
theorem not_alike_revoked :
    sampleStore.verifyCounted sampleHashing [] (str "bkn_live_b2_right") (.finite 0) =
        (.error (.auth "invalid key"), 0) ∧
      sampleStore.verifyCounted sampleHashing [] (str "bkn_live_c3_right") (.finite 0) =
        (.error (.auth "invalid key"), 1) := by
  decide +kernel

end KeyStore

end InferenceGateway
