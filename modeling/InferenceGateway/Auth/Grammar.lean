import InferenceGateway.Auth.Issued

/-!
# The format of a key

A key is one of two prefixes, a key id, an underscore and a secret.  The underscore occurs in
both prefixes and in the alphabet of the secret too, so what makes a key readable is that the key
id has none.  `KeyText` is a key taken apart, with what a key has to satisfy as fields; `split_key`
undoes `KeyText.text`, and accepts nothing else.
-/

namespace InferenceGateway

open Py

/-- A key taken apart. -/
structure KeyText where
  live : Bool
  keyid : Str
  secret : Str
  keyid_ne_nil : keyid ≠ []
  underscore_not_mem : 95 ∉ keyid
  secret_ne_nil : secret ≠ []

namespace KeyText

/-- The key, `f"{prefix}{keyid}_{secret}"`. -/
def text (t : KeyText) : Str := plaintext t.live t.keyid t.secret

/-- The prefix of the key. -/
def pre (t : KeyText) : Str := if t.live then str "bkn_live_" else str "bkn_test_"

variable {t t' : KeyText} {p k s : Str}

theorem pre_mem (t : KeyText) : t.pre ∈ KEY_PREFIXES := by
  unfold pre
  cases t.live with
  | true => exact List.mem_cons_self
  | false => exact List.mem_cons_of_mem _ List.mem_cons_self

/-- A prefix says whether the key is a live one. -/
theorem live_eq_of_pre (h : t.pre = t'.pre) : t.live = t'.live := by
  unfold pre at h
  cases hl : t.live with
  | true =>
      cases hl' : t'.live with
      | true => rfl
      | false =>
          rw [hl, hl'] at h
          exact absurd h (by decide)
  | false =>
      cases hl' : t'.live with
      | true =>
          rw [hl, hl'] at h
          exact absurd h (by decide)
      | false => rfl

/-- Every prefix is the prefix of a live key or of a test key. -/
theorem exists_live {e : Str} (he : e ∈ KEY_PREFIXES) :
    ∃ live : Bool, (if live then str "bkn_live_" else str "bkn_test_") = e := by
  rcases List.mem_pair.mp he with rfl | rfl
  · exact ⟨true, rfl⟩
  · exact ⟨false, rfl⟩

theorem text_eq (t : KeyText) : t.text = t.pre ++ (t.keyid ++ 95 :: t.secret) := by
  unfold text plaintext pre
  rw [List.append_assoc, List.append_assoc]
  rfl

/-- The first underscore after the prefix is the separator, whatever the secret contains. -/
theorem cut_text (t : KeyText) :
    cut? (str "_") (t.keyid ++ 95 :: t.secret) = some (t.keyid, t.secret) :=
  cut?_singleton.mpr ⟨rfl, t.underscore_not_mem⟩

/-- A key can be taken apart in one way only. -/
theorem text_injective : Function.Injective text := by
  intro t t' h
  rw [text_eq, text_eq] at h
  obtain ⟨hpre, hrest⟩ := prefix_unique t.pre_mem t'.pre_mem h
  have hlive := live_eq_of_pre hpre
  have hcut := t.cut_text.symm.trans ((congrArg (cut? (str "_")) hrest).trans t'.cut_text)
  obtain ⟨hk, hs⟩ := Prod.mk.inj (Option.some.inj hcut)
  cases t
  cases t'
  cases hlive
  cases hk
  cases hs
  rfl

/-- Taking a key apart undoes writing it. -/
theorem splitKey_text (t : KeyText) : splitKey t.text = .ok (t.keyid, t.secret) :=
  splitKey_eq_ok.mpr ⟨t.pre, t.pre_mem, t.text_eq, t.underscore_not_mem, t.keyid_ne_nil,
    t.secret_ne_nil⟩

/-- What is taken apart is a key. -/
theorem exists_of_splitKey (h : splitKey p = .ok (k, s)) :
    ∃ t : KeyText, t.text = p ∧ t.keyid = k ∧ t.secret = s := by
  obtain ⟨e, he, rfl, hk, hk₀, hs₀⟩ := splitKey_eq_ok.mp h
  obtain ⟨live, rfl⟩ := exists_live he
  refine ⟨⟨live, k, s, hk₀, hk, hs₀⟩, ?_, rfl, rfl⟩
  rw [text_eq]
  rfl

theorem splitKey_eq_ok_iff :
    splitKey p = .ok (k, s) ↔ ∃ t : KeyText, t.text = p ∧ t.keyid = k ∧ t.secret = s := by
  constructor
  · exact exists_of_splitKey
  · rintro ⟨t, rfl, rfl, rfl⟩
    exact t.splitKey_text

theorem splitKey_eq_error_iff : splitKey p = .error .auth ↔ ∀ t : KeyText, t.text ≠ p := by
  constructor
  · rintro h t rfl
    rw [t.splitKey_text] at h
    cases h
  · intro h
    cases hp : splitKey p with
    | error e => rw [splitKey_error hp]
    | ok ks =>
        obtain ⟨t, ht, -⟩ := exists_of_splitKey hp
        exact absurd ht (h t)

end KeyText

/-- No underscore is a hexadecimal digit. -/
theorem underscore_not_mem_of_hex {k : Str} (h : ∀ c ∈ k, (Json.hex? c).isSome) : 95 ∉ k := by
  intro hc
  exact absurd (h 95 hc) (by decide)

/-- A key written from hexadecimal digits and any secret is read back. -/
theorem splitKey_plaintext (live : Bool) {k s : Str} (hk : ∀ c ∈ k, (Json.hex? c).isSome)
    (hk₀ : k ≠ []) (hs₀ : s ≠ []) : splitKey (plaintext live k s) = .ok (k, s) :=
  KeyText.splitKey_text ⟨live, k, s, hk₀, underscore_not_mem_of_hex hk, hs₀⟩

/-- The hexadecimal digits of `token_hex`. -/
theorem isSome_hex_of_isHex {c : ℕ} (h : isHex c) : (Json.hex? c).isSome := by
  simp only [isHex, Bool.or_eq_true, Bool.and_eq_true, decide_eq_true_eq] at h
  unfold Json.hex?
  rcases h with ⟨hlo, hhi⟩ | ⟨hlo, hhi⟩
  · rw [if_pos (by simp [Json.isDigit, hlo, hhi])]
    rfl
  · split
    · rfl
    · split
      · rfl
      · rw [if_pos (by simp [hlo, hhi])]
        rfl

/-- A minted key is read back as the key id of its record and the secret that was drawn. -/
theorem splitKey_minted {A : PasswordHasher} {pepper : Str} {args : MintArgs} {draw : Draw A}
    {now : Double} {q : Str} {r : ApiKeyRecord} (h : mintKey A pepper args draw now = .ok (q, r)) :
    splitKey q = .ok (r.keyid, tokenUrlsafe draw.key) := by
  obtain ⟨-, rfl, rfl⟩ := of_mintKey h
  exact splitKey_plaintext _ (fun c hc ↦ isSome_hex_of_isHex (isHex_of_mem_tokenHex hc))
    draw.tokenHex_ne_nil draw.tokenUrlsafe_ne_nil

/-- `split_key` reads exactly the keys, each in the only way there is, and raises `AuthError` for
any other string; and it reads back what is written from a key id of hexadecimal digits and any
secret, what `mint_key` writes in particular. -/
theorem splitKey_reads_keys (A : PasswordHasher) (pepper : Str) :
    (∀ p k s, splitKey p = .ok (k, s) ↔ ∃ t : KeyText, t.text = p ∧ t.keyid = k ∧ t.secret = s) ∧
    (∀ p, splitKey p = .error .auth ↔ ∀ t : KeyText, t.text ≠ p) ∧
    (∀ t t' : KeyText, t.text = t'.text → t = t') ∧
    (∀ live k s, (∀ c ∈ k, (Json.hex? c).isSome) → k ≠ [] → s ≠ [] →
      splitKey (plaintext live k s) = .ok (k, s)) ∧
    ∀ args (draw : Draw A) now q r, mintKey A pepper args draw now = .ok (q, r) →
      splitKey q = .ok (r.keyid, tokenUrlsafe draw.key) :=
  ⟨fun _ _ _ ↦ KeyText.splitKey_eq_ok_iff, fun _ ↦ KeyText.splitKey_eq_error_iff,
    fun _ _ h ↦ KeyText.text_injective h, fun live _ _ ↦ splitKey_plaintext live,
    fun _ _ _ _ _ ↦ splitKey_minted⟩

/-- An underscore at both ends of the secret. -/
example : splitKey (str "bkn_test_0a1F__x_") = .ok (str "0a1F", str "_x_") := by decide

end InferenceGateway
