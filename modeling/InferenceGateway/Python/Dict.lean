import Mathlib.Data.List.Basic

/-!
# Python dictionaries

A dictionary is the list of its items in insertion order.  `Dict.set` assigns to a
key the way `d[k] = v` does: in place when the key is there, at the end when it is
not.  Looking a key up is `List.lookup`.
-/

universe u v

namespace Py

/-- The items of a dictionary, in insertion order. -/
abbrev Dict (κ : Type u) (ν : Type v) := List (κ × ν)

namespace Dict

variable {κ : Type u} {ν : Type v} [BEq κ]

/-- `d[k] = v`. -/
def set : Dict κ ν → κ → ν → Dict κ ν
  | [], k, v => [(k, v)]
  | (k', v') :: d, k, v => if k == k' then (k', v) :: d else (k', v') :: set d k v

/-- `k in d`. -/
def contains (d : Dict κ ν) (k : κ) : Bool := (d.lookup k).isSome

/-- `d.setdefault(k, v)`, for its effect on `d`. -/
def setDefault (d : Dict κ ν) (k : κ) (v : ν) : Dict κ ν := if d.contains k then d else d.set k v

variable [LawfulBEq κ] {d : Dict κ ν} {k k' : κ} {v : ν}

@[simp] theorem lookup_set_self : (d.set k v).lookup k = some v := by
  induction d with
  | nil => simp [set]
  | cons kv d ih =>
      obtain ⟨k', v'⟩ := kv
      cases h : k == k' with
      | true => simp [set, h, List.lookup_cons]
      | false => simp [set, h, List.lookup_cons, ih]

theorem lookup_set_of_ne (h : k' ≠ k) : (d.set k v).lookup k' = d.lookup k' := by
  induction d with
  | nil => simp [set, List.lookup_cons, beq_eq_false_iff_ne.mpr h]
  | cons kv d ih =>
      obtain ⟨j, w⟩ := kv
      cases hj : k == j with
      | true =>
          obtain rfl := LawfulBEq.eq_of_beq hj
          simp [set, List.lookup_cons, beq_eq_false_iff_ne.mpr h]
      | false => simp only [set, hj, Bool.false_eq_true, if_false, List.lookup_cons, ih]

/-- A new key comes last. -/
theorem set_of_not_mem (h : k ∉ d.map Prod.fst) : d.set k v = d ++ [(k, v)] := by
  induction d with
  | nil => rfl
  | cons kv d ih =>
      obtain ⟨j, w⟩ := kv
      rw [List.map_cons, List.mem_cons, not_or] at h
      rw [set, if_neg (by simpa using h.1), ih h.2]
      rfl

theorem lookup_setDefault_self : (d.setDefault k v).lookup k = some ((d.lookup k).getD v) := by
  unfold setDefault contains
  cases h : d.lookup k with
  | none => simp
  | some w => simp [h]

theorem lookup_setDefault_of_ne (h : k' ≠ k) : (d.setDefault k v).lookup k' = d.lookup k' := by
  unfold setDefault
  split
  · rfl
  · exact lookup_set_of_ne h

/-- An item of the dictionary after an assignment is the one assigned, or was there before. -/
theorem mem_set {kv : κ × ν} (h : kv ∈ d.set k v) : kv = (k, v) ∨ kv ∈ d := by
  induction d with
  | nil => exact .inl (List.mem_singleton.mp h)
  | cons jw d ih =>
      obtain ⟨j, w⟩ := jw
      unfold set at h
      split at h
      · rename_i hk
        obtain rfl := LawfulBEq.eq_of_beq hk
        exact (List.mem_cons.mp h).imp_right (List.mem_cons_of_mem _)
      · rcases List.mem_cons.mp h with rfl | h
        · exact .inr List.mem_cons_self
        · exact (ih h).imp_right (List.mem_cons_of_mem _)

/-- Assigning adds a key at most once. -/
theorem nodup_set (h : (d.map Prod.fst).Nodup) : ((d.set k v).map Prod.fst).Nodup := by
  induction d with
  | nil => simp [set]
  | cons kv d ih =>
      obtain ⟨j, w⟩ := kv
      obtain ⟨hj, hd⟩ := List.nodup_cons.mp h
      unfold set
      split
      · exact h
      · rename_i hne
        refine List.nodup_cons.mpr ⟨fun hc ↦ ?_, ih hd⟩
        obtain ⟨kv, hkv, rfl⟩ := List.mem_map.mp hc
        rcases mem_set hkv with rfl | hkv
        · exact hne (beq_self_eq_true k)
        · exact hj (List.mem_map.mpr ⟨kv, hkv, rfl⟩)

/-- Where the keys are distinct, an item is found by its key. -/
theorem lookup_of_mem {kv : κ × ν} (h : (d.map Prod.fst).Nodup) (hkv : kv ∈ d) :
    d.lookup kv.1 = some kv.2 := by
  induction d with
  | nil => cases hkv
  | cons jw d ih =>
      obtain ⟨hj, hd⟩ := List.nodup_cons.mp h
      rw [List.lookup_cons]
      rcases List.mem_cons.mp hkv with rfl | hkv
      · rw [beq_self_eq_true]
      · have hne : kv.1 ≠ jw.1 := fun heq ↦ hj (heq ▸ List.mem_map_of_mem hkv)
        rw [beq_eq_false_iff_ne.mpr hne]
        exact ih hd hkv

/-- Entering values under keys of their own, none of which is there yet. -/
theorem foldl_set {key : ν → κ} {vs : List ν} (h : (d.map Prod.fst ++ vs.map key).Nodup) :
    vs.foldl (fun d v ↦ d.set (key v) v) d = d ++ vs.map fun v ↦ (key v, v) := by
  induction vs generalizing d with
  | nil => simp
  | cons v vs ih =>
      have hnew : key v ∉ d.map Prod.fst := by
        intro hd
        exact (List.nodup_append.mp h).2.2 _ hd _ List.mem_cons_self rfl
      rw [List.foldl_cons, set_of_not_mem hnew, ih, List.append_assoc]
      · rfl
      · simpa using h

/-- A value that is entered is found under its key, if no other value entered has this key. -/
theorem lookup_foldl_set {key : ν → κ} {vs : List ν} (h : v ∈ vs ∨ d.lookup (key v) = some v)
    (hkey : ∀ w ∈ vs, key w = key v → w = v) :
    (vs.foldl (fun d v ↦ d.set (key v) v) d).lookup (key v) = some v := by
  induction vs generalizing d with
  | nil => exact h.resolve_left List.not_mem_nil
  | cons w vs ih =>
      refine ih ?_ fun w' hw' ↦ hkey w' (List.mem_cons_of_mem w hw')
      by_cases hw : key w = key v
      · obtain rfl := hkey w List.mem_cons_self hw
        exact .inr lookup_set_self
      · rcases h with h | h
        · rcases List.mem_cons.mp h with rfl | h
          · exact absurd rfl hw
          · exact .inl h
        · exact .inr ((lookup_set_of_ne (Ne.symm hw)).trans h)

/-! ## The values replaced -/

section FilterMapValues

variable {μ : Type*} {f : ν → Option μ}

variable (f) in
/-- The items at which `f` is defined, with its values. -/
def filterMapValues (d : Dict κ ν) : Dict κ μ := d.filterMap fun kv ↦ (f kv.2).map (Prod.mk kv.1)

omit [BEq κ] [LawfulBEq κ] in
theorem filterMapValues_cons {v' : μ} (h : f v = some v') :
    filterMapValues f ((k, v) :: d) = (k, v') :: filterMapValues f d := by
  simp [filterMapValues, h]

omit [BEq κ] [LawfulBEq κ] in
theorem keys_filterMapValues (h : ∀ kv ∈ d, (f kv.2).isSome) :
    (d.filterMapValues f).map Prod.fst = d.map Prod.fst := by
  induction d with
  | nil => rfl
  | cons kv d ih =>
      obtain ⟨v', hv'⟩ := Option.isSome_iff_exists.mp (h kv List.mem_cons_self)
      rw [filterMapValues_cons hv', List.map_cons, List.map_cons,
        ih fun kv hkv ↦ h kv (List.mem_cons_of_mem _ hkv)]

omit [LawfulBEq κ] in
theorem lookup_filterMapValues (h : ∀ kv ∈ d, (f kv.2).isSome) :
    (d.filterMapValues f).lookup k = (d.lookup k).bind f := by
  induction d with
  | nil => rfl
  | cons kv d ih =>
      obtain ⟨v', hv'⟩ := Option.isSome_iff_exists.mp (h kv List.mem_cons_self)
      rw [filterMapValues_cons hv', List.lookup_cons, List.lookup_cons,
        ih fun kv hkv ↦ h kv (List.mem_cons_of_mem _ hkv)]
      cases k == kv.1 with
      | true => exact hv'.symm
      | false => rfl

omit [LawfulBEq κ] in
/-- Assigning and replacing the values commute. -/
theorem set_filterMapValues {v' : μ} (h : ∀ kv ∈ d, (f kv.2).isSome) (hv : f v = some v') :
    (d.set k v).filterMapValues f = (d.filterMapValues f).set k v' := by
  induction d with
  | nil => exact filterMapValues_cons hv
  | cons kv d ih =>
      obtain ⟨w', hw'⟩ := Option.isSome_iff_exists.mp (h kv List.mem_cons_self)
      rw [filterMapValues_cons hw', set, set]
      cases k == kv.1 with
      | true => exact filterMapValues_cons hv
      | false => rw [if_neg (by simp), if_neg (by simp), filterMapValues_cons hw',
          ih fun kv hkv ↦ h kv (List.mem_cons_of_mem _ hkv)]

end FilterMapValues

end Dict

end Py
