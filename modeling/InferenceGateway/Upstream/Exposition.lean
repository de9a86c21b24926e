import Mathlib.Algebra.BigOperators.Group.List.Lemmas
import InferenceGateway.Upstream.MetricsScraper

/-!
# Reducing an exposition

`parse` of `gateway/upstream/metrics_scraper.py`: the metric families of an exposition,
as the parser of `prometheus_client` returns them, become one number for every known
series.  The numbers are of any type with a sum and a maximum; the gateway's are
doubles, and over the rationals the sum is exact.

`parse` keeps one running value for every name, so it is read per name: what it makes
of a name depends on the values of the samples with that name, in their order, and on
nothing else (`lookup_parse`).  That the order plays no part either is then a fact
about sums and maxima.
-/

universe u

namespace InferenceGateway

open Py

/-! ## Expositions -/

/-- A sample of a metric family. -/
structure MetricSample (α : Type u) where
  name : String
  labels : Dict String String
  value : α

/-- A metric family. -/
structure MetricFamily (α : Type u) where
  name : String
  samples : List (MetricSample α)

/-- How to combine samples that differ only by their labels. -/
inductive Combine where
  | sum
  | max
  deriving DecidableEq

/-- `SERIES`. -/
def SERIES : Dict String Combine :=
  [("vllm:num_requests_waiting", .sum), ("vllm:num_requests_running", .sum),
    ("vllm:generation_tokens_total", .sum), ("vllm:prompt_tokens_total", .sum),
    ("vllm:num_preemptions_total", .sum), ("vllm:prefix_cache_hits_total", .sum),
    ("vllm:prefix_cache_queries_total", .sum), ("vllm:kv_cache_usage_perc", .max)]

section Parse

variable {α : Type u} [Add α] [Max α]

/-- `out[s.name] + s.value`, or `max(out[s.name], s.value)`. -/
def Combine.apply : Combine → α → α → α
  | .sum, v, w => v + w
  | .max, v, w => Max.max v w

/-- The body of the inner loop of `parse`. -/
def parseSample (out : Dict String α) (s : MetricSample α) : Dict String α :=
  match SERIES.lookup s.name with
  | none => out
  | some how => match out.lookup s.name with
    | none => out.set s.name s.value
    | some v => out.set s.name (how.apply v s.value)

/-- `parse`, from the families on. -/
def parse (families : List (MetricFamily α)) : Dict String α :=
  families.foldl (fun out family ↦ family.samples.foldl parseSample out) []

end Parse

/-- The sum of doubles. -/
instance : Add Double := ⟨Double.add⟩

/-- `max(x, y)`: the second if it is greater. -/
instance : Max Double := ⟨fun x y ↦ if x.lt y then y else x⟩

/-- The snapshot of an exposition. -/
def Snapshot.ofFamilies (families : List (MetricFamily Double)) : Snapshot := parse families

/-! ## One name at a time -/

section Names

variable {α : Type u}

/-- The samples of an exposition, in the order `parse` meets them. -/
def samples (families : List (MetricFamily α)) : List (MetricSample α) :=
  families.flatMap MetricFamily.samples

/-- The values of the samples with a name. -/
def valuesOf (name : String) (families : List (MetricFamily α)) : List α :=
  ((samples families).filter fun s ↦ s.name = name).map MetricSample.value

theorem mem_valuesOf {families : List (MetricFamily α)} {name : String} {v : α} :
    v ∈ valuesOf name families ↔
      ∃ family ∈ families, ∃ s ∈ family.samples, s.name = name ∧ s.value = v := by
  simp only [valuesOf, samples, List.mem_map, List.mem_filter, List.mem_flatMap, decide_eq_true_eq]
  constructor
  · rintro ⟨s, ⟨⟨family, hf, hs⟩, hn⟩, hv⟩
    exact ⟨family, hf, s, hs, hn, hv⟩
  · rintro ⟨family, hf, s, hs, hn, hv⟩
    exact ⟨s, ⟨⟨family, hf, hs⟩, hn⟩, hv⟩

variable [Add α] [Max α] {families : List (MetricFamily α)} {name : String}
  {how : Combine} {out : Dict String α} {s : MetricSample α} {l : List (MetricSample α)}

/-- The running value of a series, and the next sample. -/
def Combine.next (how : Combine) (running : Option α) (v : α) : Option α :=
  some (running.elim v fun w ↦ how.apply w v)

theorem parse_eq_foldl : parse families = (samples families).foldl parseSample [] := by
  rw [parse, samples, List.foldl_flatMap]

theorem parseSample_of_unknown (h : SERIES.lookup s.name = none) : parseSample out s = out := by
  rw [parseSample, h]

/-- A sample of another name. -/
theorem lookup_parseSample_of_ne (h : name ≠ s.name) :
    (parseSample out s).lookup name = out.lookup name := by
  unfold parseSample
  split
  · rfl
  · split <;> exact Dict.lookup_set_of_ne h

/-- The inner loop over a list of samples, for a known name. -/
theorem lookup_foldl_parseSample (h : SERIES.lookup name = some how) :
    (l.foldl parseSample out).lookup name =
      ((l.filter fun s ↦ s.name = name).map MetricSample.value).foldl how.next
        (out.lookup name) := by
  induction l generalizing out with
  | nil => rfl
  | cons s l ih =>
      rw [List.foldl_cons, ih]
      by_cases hs : s.name = name
      · subst hs
        rw [List.filter_cons_of_pos (by simp), List.map_cons, List.foldl_cons]
        congr 1
        cases ho : out.lookup s.name <;> simp [parseSample, h, ho, Combine.next]
      · rw [List.filter_cons_of_neg (by simp [hs]), lookup_parseSample_of_ne (Ne.symm hs)]

/-- What `parse` makes of a known name. -/
theorem lookup_parse (h : SERIES.lookup name = some how) :
    (parse families).lookup name = (valuesOf name families).foldl how.next none := by
  rw [parse_eq_foldl, lookup_foldl_parseSample h]
  rfl

/-- A name that is not known gets no entry. -/
theorem lookup_parse_of_unknown (h : SERIES.lookup name = none) :
    (parse families).lookup name = none := by
  have hfold : ∀ (l : List (MetricSample α)) (out : Dict String α), out.lookup name = none →
      (l.foldl parseSample out).lookup name = none := by
    intro l
    induction l with
    | nil => exact fun out ho ↦ ho
    | cons s l ih =>
        intro out ho
        apply ih
        by_cases hs : name = s.name
        · rw [parseSample_of_unknown (hs ▸ h), ho]
        · rw [lookup_parseSample_of_ne hs, ho]
  rw [parse_eq_foldl]
  exact hfold _ [] rfl

/-- No name has two entries. -/
theorem nodup_parse (families : List (MetricFamily α)) :
    ((parse families).map Prod.fst).Nodup := by
  have hfold : ∀ (l : List (MetricSample α)) (out : Dict String α), (out.map Prod.fst).Nodup →
      ((l.foldl parseSample out).map Prod.fst).Nodup := by
    intro l
    induction l with
    | nil => exact fun out ho ↦ ho
    | cons s l ih =>
        intro out ho
        apply ih
        unfold parseSample
        split
        · exact ho
        · split <;> exact Dict.nodup_set ho
  rw [parse_eq_foldl]
  exact hfold _ [] List.nodup_nil

end Names

/-! ## Sums and maxima -/

section Exact

variable {α : Type u} [AddCommMonoid α] [LinearOrder α] {families : List (MetricFamily α)}
  {name : String} {value : α} {l l' : List α}

/-- The order of the samples of a series plays no part. -/
theorem Combine.foldl_next_perm (how : Combine) (h : l.Perm l') :
    l.foldl how.next none = l'.foldl how.next none := by
  refine h.foldl_eq' (fun v _ w _ running ↦ ?_) none
  cases how with
  | sum =>
      cases running with
      | none => exact congrArg some (add_comm v w)
      | some u => exact congrArg some (add_right_comm u v w)
  | max =>
      cases running with
      | none => exact congrArg some (max_comm v w)
      | some u => exact congrArg some (max_right_comm u v w)

/-- A count series: the running value is the sum so far. -/
theorem Combine.foldl_next_sum (v : α) (l : List α) :
    l.foldl Combine.sum.next (some v) = some (v + l.sum) := by
  induction l generalizing v with
  | nil => simp
  | cons w l ih =>
      rw [List.foldl_cons]
      show l.foldl Combine.sum.next (some (v + w)) = _
      rw [ih, List.sum_cons, add_assoc]

/-- The ratio: the running value is the greatest so far. -/
theorem Combine.foldl_next_max (v : α) (l : List α) :
    ∃ m, l.foldl Combine.max.next (some v) = some m ∧ IsGreatest {w | w ∈ v :: l} m := by
  induction l generalizing v with
  | nil => exact ⟨v, rfl, by simp, by simp [upperBounds]⟩
  | cons w l ih =>
      obtain ⟨m, hm, hmem, hub⟩ := ih (Max.max v w)
      refine ⟨m, hm, ?_, ?_⟩
      · rcases List.mem_cons.mp hmem with rfl | hl
        · rcases max_choice v w with h | h <;> simp [h]
        · exact List.mem_cons_of_mem _ (List.mem_cons_of_mem _ hl)
      · intro x hx
        have hmax : Max.max v w ≤ m := hub List.mem_cons_self
        rcases List.mem_cons.mp hx with rfl | hx
        · exact (le_max_left _ _).trans hmax
        · rcases List.mem_cons.mp hx with rfl | hx
          · exact (le_max_right _ _).trans hmax
          · exact hub (List.mem_cons_of_mem _ hx)

/-- Without a sample there is no value. -/
theorem Combine.foldl_next_eq_none (how : Combine) : l.foldl how.next none = none ↔ l = [] := by
  cases l with
  | nil => simp
  | cons v l =>
      cases how with
      | sum => simpa using (Combine.foldl_next_sum v l).symm ▸ Option.some_ne_none _
      | max =>
          obtain ⟨m, hm, -⟩ := Combine.foldl_next_max v l
          simpa using hm.symm ▸ Option.some_ne_none _

/-- The known names that occur, and no others, have an entry. -/
theorem isSome_lookup_parse : ((parse families).lookup name).isSome ↔
    (SERIES.lookup name).isSome ∧
      ∃ family ∈ families, ∃ s ∈ family.samples, s.name = name := by
  cases hname : SERIES.lookup name with
  | none => simp [lookup_parse_of_unknown hname]
  | some how =>
      rw [lookup_parse hname, ← Option.ne_none_iff_isSome, ne_eq, Combine.foldl_next_eq_none]
      constructor
      · intro hne
        obtain ⟨v, hv⟩ := List.exists_mem_of_ne_nil _ hne
        obtain ⟨family, hf, s, hs, hn, -⟩ := mem_valuesOf.mp hv
        exact ⟨rfl, family, hf, s, hs, hn⟩
      · rintro ⟨-, family, hf, s, hs, hn⟩
        exact List.ne_nil_of_mem (mem_valuesOf.mpr ⟨family, hf, s, hs, hn, rfl⟩)

/-- The entry of a count series is the sum of its samples, that of the ratio their
maximum. -/
theorem of_lookup_parse (h : (parse families).lookup name = some value) :
    SERIES.lookup name = some .sum ∧ value = (valuesOf name families).sum ∨
      SERIES.lookup name = some .max ∧ IsGreatest {v | v ∈ valuesOf name families} value := by
  cases hname : SERIES.lookup name with
  | none =>
      rw [lookup_parse_of_unknown hname] at h
      cases h
  | some how =>
      rw [lookup_parse hname] at h
      cases hl : valuesOf name families with
      | nil =>
          rw [hl] at h
          cases h
      | cons v l =>
          rw [hl, List.foldl_cons] at h
          cases how with
          | sum =>
              left
              refine ⟨rfl, Option.some.inj ?_⟩
              rw [← h, List.sum_cons]
              exact Combine.foldl_next_sum v l
          | max =>
              right
              obtain ⟨m, hm, hgreatest⟩ := Combine.foldl_next_max v l
              obtain rfl := Option.some.inj (h.symm.trans hm)
              exact ⟨rfl, hgreatest⟩

end Exact

/-! ## Rearranging an exposition -/

/-- The second exposition carries the samples of the first: in another order, in other
families, or among samples of names that are not known. -/
inductive Rearranged {α : Type u} : List (MetricFamily α) → List (MetricFamily α) → Prop
  /-- The families in another order. -/
  | families {fs gs} : fs.Perm gs → Rearranged fs gs
  /-- The samples of a family in another order. -/
  | samples {fs gs f g} : f.samples.Perm g.samples → Rearranged (fs ++ f :: gs) (fs ++ g :: gs)
  /-- The samples of a family in two families. -/
  | split {fs gs f g h} :
      f.samples = g.samples ++ h.samples → Rearranged (fs ++ f :: gs) (fs ++ g :: h :: gs)
  /-- One more sample, of a name that is not known. -/
  | foreign {fs gs f g l r s} : SERIES.lookup s.name = none → f.samples = l ++ r →
      g.samples = l ++ s :: r → Rearranged (fs ++ f :: gs) (fs ++ g :: gs)
  | symm {fs gs} : Rearranged fs gs → Rearranged gs fs
  | trans {fs gs hs} : Rearranged fs gs → Rearranged gs hs → Rearranged fs hs

/-- A known name keeps its values, up to their order. -/
theorem Rearranged.valuesOf_perm {α : Type u} {fs gs : List (MetricFamily α)} {name : String}
    {how : Combine} (h : Rearranged fs gs) (hname : SERIES.lookup name = some how) :
    (valuesOf name fs).Perm (valuesOf name gs) := by
  induction h with
  | families hp => exact ((hp.flatMap_right _).filter _).map _
  | @samples fs gs f g hp =>
      apply List.Perm.map
      apply List.Perm.filter
      simp only [InferenceGateway.samples, List.flatMap_append, List.flatMap_cons]
      exact (hp.append_right _).append_left _
  | split heq =>
      apply List.Perm.of_eq
      simp [valuesOf, InferenceGateway.samples, heq]
  | @foreign fs gs f g l r s hs hf hg =>
      have hne : s.name ≠ name := by
        rintro rfl
        rw [hs] at hname
        cases hname
      apply List.Perm.of_eq
      simp [valuesOf, InferenceGateway.samples, hf, hg, hne]
  | symm _ ih => exact ih.symm
  | trans _ _ ih₁ ih₂ => exact ih₁.trans ih₂

/-- Over the rationals: `parse` has one entry for every known name that occurs, and no other;
the entry is the sum of all samples of that name, or the greatest of them; and the
result does not depend on how the samples are arranged. -/
theorem parse_exact (families : List (MetricFamily ℚ)) :
    ((parse families).map Prod.fst).Nodup ∧
      (∀ name, ((parse families).lookup name).isSome ↔
        (SERIES.lookup name).isSome ∧ ∃ family ∈ families, ∃ s ∈ family.samples, s.name = name) ∧
      (∀ name value, (parse families).lookup name = some value →
        SERIES.lookup name = some .sum ∧ value = (valuesOf name families).sum ∨
          SERIES.lookup name = some .max ∧ IsGreatest {v | v ∈ valuesOf name families} value) ∧
      ∀ families', Rearranged families families' →
        ∀ name, (parse families').lookup name = (parse families).lookup name := by
  refine ⟨nodup_parse families, fun name ↦ isSome_lookup_parse, fun name value ↦ of_lookup_parse, ?_⟩
  intro families' h name
  cases hname : SERIES.lookup name with
  | none => rw [lookup_parse_of_unknown hname, lookup_parse_of_unknown hname]
  | some how =>
      rw [lookup_parse hname, lookup_parse hname]
      exact how.foldl_next_perm (h.valuesOf_perm hname).symm

/-- Two engines behind one endpoint, with a counter's `_created` sibling. -/
def twoEngines : List (MetricFamily ℚ) :=
  [⟨"vllm:generation_tokens", [⟨"vllm:generation_tokens_total", [("engine", "0")], 7⟩,
      ⟨"vllm:generation_tokens_total", [("engine", "1")], 5⟩,
      ⟨"vllm:generation_tokens_created", [("engine", "0")], 1700000000⟩]⟩,
    ⟨"vllm:kv_cache_usage_perc", [⟨"vllm:kv_cache_usage_perc", [("engine", "0")], 9 / 10⟩,
      ⟨"vllm:kv_cache_usage_perc", [("engine", "1")], 1 / 2⟩]⟩]

theorem parse_exact_twoEngines :
    (parse twoEngines).lookup "vllm:generation_tokens_total" = some 12 ∧
      (12 : ℚ) = (valuesOf "vllm:generation_tokens_total" twoEngines).sum ∧
      (parse twoEngines.reverse).lookup "vllm:kv_cache_usage_perc" = some (9 / 10) := by
  obtain ⟨-, -, hvalue, horder⟩ := parse_exact twoEngines
  have htotal : (parse twoEngines).lookup "vllm:generation_tokens_total" = some 12 := by
    decide +kernel
  refine ⟨htotal, ?_, ?_⟩
  · rcases hvalue _ _ htotal with ⟨-, h⟩ | ⟨h, -⟩
    · exact h
    · revert h
      decide +kernel
  · rw [horder _ (.families twoEngines.reverse_perm.symm)]
    decide +kernel

end InferenceGateway
