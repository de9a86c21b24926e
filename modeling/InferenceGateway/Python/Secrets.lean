import InferenceGateway.Python.Text

/-!
# The text forms of random bytes

`secrets.token_hex` and `secrets.token_urlsafe` draw bytes and write them as text:
two hexadecimal digits a byte, and URL-safe base 64 without its padding.
-/

namespace Py

/-- A character `hexlify` writes. -/
def isHex (c : Nat) : Bool := (48 ≤ c && c ≤ 57) || (97 ≤ c && c ≤ 102)

/-- A character of the URL-safe base 64 alphabet. -/
def isUrlsafe (c : Nat) : Bool :=
  (65 ≤ c && c ≤ 90) || (97 ≤ c && c ≤ 122) || (48 ≤ c && c ≤ 57) || c == 45 || c == 95

/-- The hexadecimal digit of a number below 16. -/
def hexDigit (n : Nat) : Nat := if n < 10 then 48 + n else 87 + n

/-- The base 64 digit of a number below 64. -/
def urlsafeDigit (n : Nat) : Nat :=
  if n < 26 then 65 + n else if n < 52 then 71 + n else if n < 62 then n - 4
  else if n = 62 then 45 else 95

/-- `secrets.token_hex` of the bytes drawn. -/
def tokenHex (b : Bytes) : Str := b.flatMap fun c ↦ [hexDigit (c.toNat / 16), hexDigit (c.toNat % 16)]

/-- `secrets.token_urlsafe` of the bytes drawn. -/
def tokenUrlsafe : Bytes → Str
  | [] => []
  | [a] => [a.toNat / 4, a.toNat % 4 * 16].map urlsafeDigit
  | [a, b] => [a.toNat / 4, a.toNat % 4 * 16 + b.toNat / 16, b.toNat % 16 * 4].map urlsafeDigit
  | a :: b :: c :: t =>
    [a.toNat / 4, a.toNat % 4 * 16 + b.toNat / 16, b.toNat % 16 * 4 + c.toNat / 64,
      c.toNat % 64].map urlsafeDigit ++ tokenUrlsafe t

example : tokenHex [0, 0xA7, 0xFF] = str "00a7ff" ∧ tokenUrlsafe [0xFB, 0xFF, 0, 1] = str "-_8AAQ" := by
  decide

theorem isHex_lt {c : Nat} (h : isHex c = true) : c < 128 := by
  simp only [isHex, Bool.or_eq_true, Bool.and_eq_true, decide_eq_true_eq] at h
  omega

theorem isUrlsafe_lt {c : Nat} (h : isUrlsafe c = true) : c < 128 := by
  simp only [isUrlsafe, Bool.or_eq_true, Bool.and_eq_true, decide_eq_true_eq, beq_iff_eq] at h
  omega

theorem isHex_hexDigit {n : Nat} (h : n < 16) : isHex (hexDigit n) := by
  simp only [isHex, hexDigit]
  split <;> simp <;> omega

theorem isUrlsafe_urlsafeDigit (n : Nat) : isUrlsafe (urlsafeDigit n) := by
  unfold urlsafeDigit
  simp only [isUrlsafe, Bool.or_eq_true, Bool.and_eq_true, decide_eq_true_eq, beq_iff_eq]
  split_ifs <;> omega

theorem isHex_of_mem_tokenHex {b : Bytes} {c : Nat} (h : c ∈ tokenHex b) : isHex c := by
  obtain ⟨x, -, hx⟩ := List.mem_flatMap.mp h
  have hlt : x.toNat < 256 := x.toNat_lt
  rcases List.mem_pair.mp hx with rfl | rfl
  · exact isHex_hexDigit (by omega)
  · exact isHex_hexDigit (Nat.mod_lt _ (by omega))

theorem length_tokenHex (b : Bytes) : (tokenHex b).length = 2 * b.length := by
  induction b with
  | nil => rfl
  | cons x b ih =>
      rw [tokenHex, List.flatMap_cons, List.length_append, ← tokenHex, ih, List.length_cons]
      simp only [List.length_cons, List.length_nil]
      omega

theorem isUrlsafe_of_mem_tokenUrlsafe {b : Bytes} {c : Nat} (h : c ∈ tokenUrlsafe b) :
    isUrlsafe c := by
  have digits {l : List Nat} (hc : c ∈ l.map urlsafeDigit) : isUrlsafe c := by
    obtain ⟨n, -, rfl⟩ := List.mem_map.mp hc
    exact isUrlsafe_urlsafeDigit n
  induction b using tokenUrlsafe.induct with
  | case1 => cases h
  | case2 a => exact digits h
  | case3 a b => exact digits h
  | case4 a b d t ih =>
      rw [tokenUrlsafe] at h
      rcases List.mem_append.mp h with hl | hr
      · exact digits hl
      · exact ih hr

theorem length_tokenUrlsafe (b : Bytes) : (tokenUrlsafe b).length = (4 * b.length + 2) / 3 := by
  induction b using tokenUrlsafe.induct with
  | case1 => rfl
  | case2 a => simp [tokenUrlsafe]
  | case3 a b => simp [tokenUrlsafe]
  | case4 a b d t ih =>
      rw [tokenUrlsafe, List.length_append, ih]
      simp only [List.length_map, List.length_cons, List.length_nil]
      omega

end Py
