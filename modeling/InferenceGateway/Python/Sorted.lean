import Mathlib.Data.List.Lex
import Mathlib.Data.List.Sort
import InferenceGateway.Python.DumpsLoads

/-!
# `json.dumps` with `sort_keys`

The items of each dictionary are written in the order of their keys.  Sorting moves items and
changes none: what can be written still can, and a key leads to the value it led to.

A value without surrogates, in whose dictionaries the keys are distinct, is read back as it was
(`Value.reread_eq_self`).
-/

namespace Py

/-- Where the keys are distinct, a lookup does not depend on the order of the items. -/
theorem Dict.lookup_perm {κ ν : Type*} [BEq κ] [LawfulBEq κ] {d d' : Dict κ ν} (hp : d.Perm d')
    (h : (d.map Prod.fst).Nodup) (k : κ) : d.lookup k = d'.lookup k := by
  have of_mem {v : ν} (hv : (k, v) ∈ d') : d.lookup k = some v :=
    Dict.lookup_of_mem h (hp.mem_iff.mpr hv)
  have h' : (d'.map Prod.fst).Nodup := (hp.map Prod.fst).nodup_iff.mp h
  cases hk : d'.lookup k with
  | some v =>
      obtain ⟨l, l', hl, -⟩ := List.lookup_eq_some_iff.mp hk
      exact of_mem (hl ▸ List.mem_append_right l List.mem_cons_self)
  | none =>
      cases hk' : d.lookup k with
      | none => rfl
      | some v =>
          obtain ⟨l, l', hl, -⟩ := List.lookup_eq_some_iff.mp hk'
          have hv : (k, v) ∈ d' := hp.mem_iff.mp (hl ▸ List.mem_append_right l List.mem_cons_self)
          rw [Dict.lookup_of_mem h' hv] at hk
          cases hk

namespace Value

mutual

/-- What is written with `sort_keys=True`. -/
def sorted : Value → Value
  | .list xs => .list (sortedList xs)
  | .dict kvs => .dict ((sortedFields kvs).insertionSort fun a b ↦ a.1 ≤ b.1)
  | v => v

/-- The elements. -/
def sortedList : List Value → List Value
  | [] => []
  | x :: xs => x.sorted :: sortedList xs

/-- The items, in the order they had. -/
def sortedFields : List (Str × Value) → List (Str × Value)
  | [] => []
  | (k, v) :: kvs => (k, v.sorted) :: sortedFields kvs

end

mutual

/-- In no dictionary does a key occur twice. -/
def KeysDistinct : Value → Prop
  | .list xs => KeysDistinctList xs
  | .dict kvs => (kvs.map Prod.fst).Nodup ∧ KeysDistinctFields kvs
  | _ => True

/-- Of every element. -/
def KeysDistinctList : List Value → Prop
  | [] => True
  | x :: xs => x.KeysDistinct ∧ KeysDistinctList xs

/-- Of every value. -/
def KeysDistinctFields : List (Str × Value) → Prop
  | [] => True
  | (_, v) :: kvs => v.KeysDistinct ∧ KeysDistinctFields kvs

end

/-! ## Items one by one -/

variable {ascii : Bool} {kvs : List (Str × Value)} {n : ℕ}

theorem sortedFields_eq (kvs : List (Str × Value)) :
    sortedFields kvs = kvs.map fun kv ↦ (kv.1, kv.2.sorted) := by
  induction kvs with
  | nil => rfl
  | cons kv kvs ih => rw [sortedFields, ih, List.map_cons]

theorem keys_sortedFields (kvs : List (Str × Value)) :
    (sortedFields kvs).map Prod.fst = kvs.map Prod.fst := by
  rw [sortedFields_eq, List.map_map]
  rfl

theorem writableFields_iff : Json.WritableFields ascii kvs ↔
    ∀ kv ∈ kvs, Json.StrWritable ascii kv.1 ∧ Json.Writable ascii kv.2 := by
  induction kvs with
  | nil => simp [Json.WritableFields]
  | cons kv kvs ih => simp [Json.WritableFields, ih, and_assoc]

theorem keysDistinctFields_iff : KeysDistinctFields kvs ↔ ∀ kv ∈ kvs, kv.2.KeysDistinct := by
  induction kvs with
  | nil => simp [KeysDistinctFields]
  | cons kv kvs ih => simp [KeysDistinctFields, ih]

theorem depthFields_le_iff : depthFields kvs ≤ n ↔ ∀ kv ∈ kvs, kv.2.depth ≤ n := by
  induction kvs with
  | nil => simp [depthFields]
  | cons kv kvs ih => simp [depthFields, ih]

/-! ## Sorting changes no item -/

mutual

theorem writable_sorted : ∀ {v : Value}, Json.Writable ascii v → Json.Writable ascii v.sorted
  | .none, h => h
  | .bool _, h => h
  | .int _, h => h
  | .float _, h => h
  | .str _, h => h
  | .list xs, h => writable_sortedList xs h
  | .dict kvs, h => by
      have hfields := writableFields_iff.mp (writable_sortedFields kvs h)
      exact writableFields_iff.mpr fun kv hkv ↦ hfields kv ((List.mem_insertionSort _).mp hkv)

theorem writable_sortedList : ∀ (xs : List Value), Json.WritableList ascii xs →
    Json.WritableList ascii (sortedList xs)
  | [], _ => trivial
  | _ :: xs, h => ⟨writable_sorted h.1, writable_sortedList xs h.2⟩

theorem writable_sortedFields : ∀ (kvs : List (Str × Value)), Json.WritableFields ascii kvs →
    Json.WritableFields ascii (sortedFields kvs)
  | [], _ => trivial
  | (_, _) :: kvs, h => ⟨h.1, writable_sorted h.2.1, writable_sortedFields kvs h.2.2⟩

end

mutual

theorem depth_sorted_le : ∀ (v : Value), v.sorted.depth ≤ v.depth
  | .none => le_rfl
  | .bool _ => le_rfl
  | .int _ => le_rfl
  | .float _ => le_rfl
  | .str _ => le_rfl
  | .list xs => Nat.succ_le_succ (depth_sortedList_le xs)
  | .dict kvs => by
      have hfields := depthFields_le_iff.mp (depth_sortedFields_le kvs)
      refine Nat.succ_le_succ (depthFields_le_iff.mpr fun kv hkv ↦ ?_)
      exact hfields kv ((List.mem_insertionSort _).mp hkv)

theorem depth_sortedList_le : ∀ (xs : List Value), depthList (sortedList xs) ≤ depthList xs
  | [] => le_rfl
  | x :: xs => max_le_max (depth_sorted_le x) (depth_sortedList_le xs)

theorem depth_sortedFields_le : ∀ (kvs : List (Str × Value)),
    depthFields (sortedFields kvs) ≤ depthFields kvs
  | [] => le_rfl
  | (_, v) :: kvs => max_le_max (depth_sorted_le v) (depth_sortedFields_le kvs)

end

mutual

theorem keysDistinct_sorted : ∀ {v : Value}, v.KeysDistinct → v.sorted.KeysDistinct
  | .none, h => h
  | .bool _, h => h
  | .int _, h => h
  | .float _, h => h
  | .str _, h => h
  | .list xs, h => keysDistinct_sortedList xs h
  | .dict kvs, h => by
      have hperm := List.perm_insertionSort (fun a b : Str × Value ↦ a.1 ≤ b.1) (sortedFields kvs)
      have hfields := keysDistinctFields_iff.mp (keysDistinct_sortedFields kvs h.2)
      refine ⟨?_, keysDistinctFields_iff.mpr fun kv hkv ↦ hfields kv (hperm.mem_iff.mp hkv)⟩
      rw [(hperm.map Prod.fst).nodup_iff, keys_sortedFields]
      exact h.1

theorem keysDistinct_sortedList : ∀ (xs : List Value), KeysDistinctList xs →
    KeysDistinctList (sortedList xs)
  | [], _ => trivial
  | _ :: xs, h => ⟨keysDistinct_sorted h.1, keysDistinct_sortedList xs h.2⟩

theorem keysDistinct_sortedFields : ∀ (kvs : List (Str × Value)), KeysDistinctFields kvs →
    KeysDistinctFields (sortedFields kvs)
  | [], _ => trivial
  | (_, _) :: kvs, h => ⟨keysDistinct_sorted h.1, keysDistinct_sortedFields kvs h.2⟩

end

/-- A key leads to the value it led to. -/
theorem lookup_sorted (h : (kvs.map Prod.fst).Nodup) (k : Str) :
    ((sortedFields kvs).insertionSort fun a b ↦ a.1 ≤ b.1).lookup k = (kvs.lookup k).map sorted := by
  have hperm := List.perm_insertionSort (fun a b : Str × Value ↦ a.1 ≤ b.1) (sortedFields kvs)
  have hmap : (sortedFields kvs).lookup k = (kvs.lookup k).map sorted := by
    clear h hperm
    induction kvs with
    | nil => rfl
    | cons kv kvs ih =>
        rw [sortedFields, List.lookup_cons, List.lookup_cons]
        cases k == kv.1 with
        | true => rfl
        | false => exact ih
  rw [← hmap]
  exact (Dict.lookup_perm hperm.symm (by rwa [keys_sortedFields]) k).symm

/-! ## Integers -/

mutual

/-- What can be written has no integer that is too long. -/
theorem writable_of_writable : ∀ {v : Value}, Json.Writable ascii v → v.writable
  | .none, _ => rfl
  | .bool _, _ => rfl
  | .int _, h => decide_eq_true h
  | .float _, _ => rfl
  | .str _, _ => rfl
  | .list xs, h => writableList_of_writable xs h
  | .dict kvs, h => writableFields_of_writable kvs h

theorem writableList_of_writable : ∀ (xs : List Value), Json.WritableList ascii xs →
    writableList xs
  | [], _ => rfl
  | _ :: xs, h =>
    Bool.and_eq_true_iff.mpr ⟨writable_of_writable h.1, writableList_of_writable xs h.2⟩

theorem writableFields_of_writable : ∀ (kvs : List (Str × Value)), Json.WritableFields ascii kvs →
    writableFields kvs
  | [], _ => rfl
  | (_, _) :: kvs, h =>
    Bool.and_eq_true_iff.mpr ⟨writable_of_writable h.2.1, writableFields_of_writable kvs h.2.2⟩

end

/-! ## Encoding -/

theorem encodableFields_iff :
    encodableFields kvs ↔ ∀ kv ∈ kvs, Py.encodable kv.1 ∧ kv.2.encodable := by
  induction kvs with
  | nil => simp [encodableFields]
  | cons kv kvs ih => simp [encodableFields, ih, and_assoc]

theorem strWritable_of_encodable {s : Str} (h : Json.StrWritable true s) (he : Py.encodable s) :
    Json.StrWritable false s :=
  fun c hc ↦ ⟨(h c hc).1, fun _ ↦ by simpa using List.all_eq_true.mp he c hc⟩

mutual

/-- What can be written in ASCII, and encoded, can be written as it is. -/
theorem writable_of_encodable : ∀ {v : Value}, Json.Writable true v → v.encodable →
    Json.Writable false v
  | .none, h, _ => h
  | .bool _, h, _ => h
  | .int _, h, _ => h
  | .float _, h, _ => h
  | .str _, h, he => strWritable_of_encodable h he
  | .list xs, h, he => writableList_of_encodable xs h he
  | .dict kvs, h, he => writableFields_of_encodable kvs h he

theorem writableList_of_encodable : ∀ (xs : List Value), Json.WritableList true xs →
    encodableList xs → Json.WritableList false xs
  | [], _, _ => trivial
  | x :: xs, h, he => by
      obtain ⟨hx, hxs⟩ := Bool.and_eq_true_iff.mp he
      exact ⟨writable_of_encodable h.1 hx, writableList_of_encodable xs h.2 hxs⟩

theorem writableFields_of_encodable : ∀ (kvs : List (Str × Value)), Json.WritableFields true kvs →
    encodableFields kvs → Json.WritableFields false kvs
  | [], _, _ => trivial
  | (k, v) :: kvs, h, he => by
      obtain ⟨hkv, hkvs⟩ := Bool.and_eq_true_iff.mp he
      obtain ⟨hk, hv⟩ := Bool.and_eq_true_iff.mp hkv
      exact ⟨strWritable_of_encodable h.1 hk, writable_of_encodable h.2.1 hv,
        writableFields_of_encodable kvs h.2.2 hkvs⟩

end

mutual

theorem encodable_sorted : ∀ (v : Value), v.sorted.encodable = v.encodable
  | .none => rfl
  | .bool _ => rfl
  | .int _ => rfl
  | .float _ => rfl
  | .str _ => rfl
  | .list xs => encodable_sortedList xs
  | .dict kvs => by
      have hperm := List.perm_insertionSort (fun a b : Str × Value ↦ a.1 ≤ b.1) (sortedFields kvs)
      rw [Bool.eq_iff_iff, encodable, ← encodable_sortedFields kvs]
      exact encodableFields_iff.trans
        ((forall_congr' fun _ ↦ by rw [hperm.mem_iff]).trans encodableFields_iff.symm)

theorem encodable_sortedList : ∀ (xs : List Value),
    encodableList (sortedList xs) = encodableList xs
  | [] => rfl
  | x :: xs => by
      rw [sortedList, encodableList, encodable_sorted x, encodable_sortedList xs, encodableList]

theorem encodable_sortedFields : ∀ (kvs : List (Str × Value)),
    encodableFields (sortedFields kvs) = encodableFields kvs
  | [] => rfl
  | (k, v) :: kvs => by
      rw [sortedFields, encodableFields, encodable_sorted v, encodable_sortedFields kvs,
        encodableFields]

end

/-! ## Reading back -/

/-- A text without surrogates has no pairs. -/
theorem joinPairs_of_writable {s : Str} (h : Json.StrWritable false s) :
    Json.joinPairs Option.none s = s := by
  induction s with
  | nil => rfl
  | cons c s ih =>
      have hc : Json.isHigh c = false := by
        have hnot := (h c List.mem_cons_self).2 rfl
        simp only [isSurrogate, Bool.and_eq_true, decide_eq_true_eq] at hnot
        simp only [Json.isHigh, Bool.and_eq_false_iff, decide_eq_false_iff_not]
        omega
      rw [Json.joinPairs, hc, ih fun d hd ↦ h d (List.mem_cons_of_mem c hd)]
      rfl

mutual

/-- What has no surrogate in it and no key twice is read back as it was. -/
theorem reread_eq_self : ∀ {v : Value}, Json.Writable false v → v.KeysDistinct → v.reread = v
  | .none, _, _ => rfl
  | .bool _, _, _ => rfl
  | .int _, _, _ => rfl
  | .float _, _, _ => rfl
  | .str _, hw, _ => congrArg Value.str (joinPairs_of_writable hw)
  | .list xs, hw, hk => congrArg Value.list (rereadList_eq_self xs hw hk)
  | .dict kvs, hw, hk => by
      have hfields := rereadFields_eq_self [] kvs hw hk.2 (by simpa using hk.1)
      exact congrArg Value.dict hfields

theorem rereadList_eq_self : ∀ (xs : List Value), Json.WritableList false xs →
    KeysDistinctList xs → rereadList xs = xs
  | [], _, _ => rfl
  | x :: xs, hw, hk => by
      rw [rereadList, reread_eq_self hw.1 hk.1, rereadList_eq_self xs hw.2 hk.2]

theorem rereadFields_eq_self : ∀ (d kvs : List (Str × Value)), Json.WritableFields false kvs →
    KeysDistinctFields kvs → ((d ++ kvs).map Prod.fst).Nodup → rereadFields d kvs = d ++ kvs
  | d, [], _, _, _ => by rw [rereadFields, List.append_nil]
  | d, (k, v) :: kvs, hw, hk, hnd => by
      have hnew : k ∉ d.map Prod.fst := by
        rw [List.map_append, List.nodup_append] at hnd
        exact fun hd ↦ hnd.2.2 k hd k List.mem_cons_self rfl
      rw [rereadFields, joinPairs_of_writable hw.1, reread_eq_self hw.2.1 hk.1,
        Dict.set_of_not_mem hnew, rereadFields_eq_self _ kvs hw.2.2 hk.2 (by simpa using hnd),
        List.append_assoc]
      rfl

end

end Value

end Py
