import InferenceGateway.Python.Json

/-!
# A value written by `json.dumps` and read back by `json.loads`

`dumps` writes ASCII: a code point above it becomes `\u` and four digits for each of its UTF-16
code units.  So a `str` comes back as it was, unless the two halves of a surrogate pair stand side
by side in it; they come back as the one character they encode.  A double is written as the
shortest text that is read as the same double, `NaN` and the infinities as the constants.  An
integer is written in decimal if it has no more digits than the interpreter converts.

The depth of a value is not looked at: `dumps` raises `RecursionError` past the interpreter's
limit, which nothing that is written here comes near.
-/

namespace Py

/-- A text without high surrogates has no pairs. -/
theorem Json.joinPairs_ascii {s : Str} (h : ∀ c ∈ s, c < 128) : Json.joinPairs none s = s := by
  induction s with
  | nil => rfl
  | cons c s ih =>
      have hc : Json.isHigh c = false := by
        have := h c List.mem_cons_self
        simp only [Json.isHigh, Bool.and_eq_false_iff, decide_eq_false_iff_not]
        omega
      rw [Json.joinPairs, hc, ih fun d hd ↦ h d (List.mem_cons_of_mem c hd)]
      rfl

/-- A high surrogate leaves a character above ASCII, with a partner or without. -/
theorem Json.joinPairs_some_not_ascii {h : ℕ} (hh : Json.isHigh h) (s : Str) :
    ∃ c ∈ Json.joinPairs (some h) s, 128 ≤ c := by
  have hlarge : 128 ≤ h := by
    simp only [Json.isHigh, Bool.and_eq_true, decide_eq_true_eq] at hh
    omega
  cases s with
  | nil => exact ⟨h, List.mem_cons_self, hlarge⟩
  | cons c s =>
      unfold Json.joinPairs
      split
      · refine ⟨_, List.mem_cons_self, ?_⟩
        unfold Json.ofPair
        omega
      · split
        · exact ⟨h, List.mem_cons_self, hlarge⟩
        · exact ⟨h, List.mem_cons_self, hlarge⟩

/-- A text that comes back as ASCII was that text. -/
theorem Json.eq_of_joinPairs_ascii {s k : Str} (h : Json.joinPairs none s = k)
    (hk : ∀ c ∈ k, c < 128) : s = k := by
  induction s generalizing k with
  | nil => exact h
  | cons c s ih =>
      unfold Json.joinPairs at h
      split at h
      · rename_i hc
        obtain ⟨d, hd, hlarge⟩ := Json.joinPairs_some_not_ascii hc s
        have hsmall : d < 128 := hk d (h ▸ hd)
        omega
      · subst h
        rw [← ih rfl fun d hd ↦ hk d (List.mem_cons_of_mem c hd)]

namespace Value

mutual

/-- `json.loads(json.dumps(v))`, if `v` can be written. -/
def reread : Value → Value
  | .str s => .str (Json.joinPairs Option.none s)
  | .list xs => .list (rereadList xs)
  | .dict kvs => .dict (rereadFields [] kvs)
  | v => v

/-- The elements. -/
def rereadList : List Value → List Value
  | [] => []
  | x :: xs => x.reread :: rereadList xs

/-- The items, entered one after another. -/
def rereadFields (d : Fields) : List (Str × Value) → Fields
  | [] => d
  | (k, v) :: kvs => rereadFields (Dict.set d (Json.joinPairs Option.none k) v.reread) kvs

end

mutual

/-- Every integer is short enough to be written. -/
def writable : Value → Bool
  | .int n => (Nat.toDigits 10 n.natAbs).length ≤ maxStrDigits
  | .list xs => writableList xs
  | .dict kvs => writableFields kvs
  | _ => true

/-- Every element can be written. -/
def writableList : List Value → Bool
  | [] => true
  | x :: xs => x.writable && writableList xs

/-- Every value can be written. -/
def writableFields : List (Str × Value) → Bool
  | [] => true
  | (_, v) :: kvs => v.writable && writableFields kvs

end

theorem rereadList_eq (xs : List Value) : rereadList xs = xs.map reread := by
  induction xs with
  | nil => rfl
  | cons x xs ih => rw [rereadList, ih, List.map_cons]

/-- A dictionary with distinct ASCII keys keeps its keys, and their order. -/
theorem rereadFields_eq {d : Fields} {kvs : List (Str × Value)}
    (hk : ∀ k ∈ kvs.map Prod.fst, ∀ c ∈ k, c < 128) (hnd : ((d ++ kvs).map Prod.fst).Nodup) :
    rereadFields d kvs = d ++ kvs.map fun kv ↦ (kv.1, kv.2.reread) := by
  induction kvs generalizing d with
  | nil => rw [rereadFields, List.map_nil, List.append_nil]
  | cons kv kvs ih =>
      obtain ⟨k, v⟩ := kv
      have hkey : Json.joinPairs Option.none k = k := Json.joinPairs_ascii (hk k List.mem_cons_self)
      have hnew : k ∉ d.map Prod.fst := by
        rw [List.map_append, List.nodup_append] at hnd
        exact fun hd ↦ hnd.2.2 k hd k List.mem_cons_self rfl
      rw [rereadFields, hkey, Dict.set_of_not_mem hnew, ih, List.append_assoc]
      · rfl
      · exact fun j hj ↦ hk j (List.mem_cons_of_mem _ hj)
      · simpa using hnd

end Value

/-- `json.loads(json.dumps(v))`. -/
def Json.rewritten (v : Value) : Except Exc Value :=
  if v.writable then .ok v.reread else .error .valueError

end Py
