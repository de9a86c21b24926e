import Mathlib.Data.List.DropRight
import Mathlib.Tactic.Linarith
import InferenceGateway.Upstream.MetricsScraper

/-!
# The stall of a history of scrapes

The detector keeps two fields, the counter of the last scrape that had one and the
time its stall began.  Here they are read off the whole history: a scrape that has
the counter is an observation, an observation is stuck if work is waiting and its
counter is the one of the observation before, and the stall is the longest suffix of
stuck observations.

The induction is on the history, from its end: a stuck observation prolongs that
suffix, and any other empties it.
-/

namespace InferenceGateway

open Py

/-! ## Histories -/

/-- What polling a replica at `now` comes to: a snapshot, or `none` for a failure. -/
structure Poll where
  result : Option Snapshot
  now : ℚ

/-- A scrape that has the generation counter. -/
structure Observation where
  waiting : Double
  gen : Double
  now : ℚ

/-- The observation a scrape is, if it is one. -/
def Poll.observation? (x : Poll) : Option Observation :=
  x.result.bind fun s ↦ s.genTokens.map fun gen ↦ { waiting := s.waiting, gen, now := x.now }

/-- The observations of a history, each with the one before it. -/
def observed (history : List Poll) : List (Option Observation × Observation) :=
  let observations := history.filterMap Poll.observation?
  (none :: observations.map some).zip observations

/-- Work is waiting, and the counter is where the observation before has left it. -/
def stuck : Option Observation × Observation → Bool
  | (some previous, o) => (Double.finite 0).lt o.waiting && o.gen.eq previous.gen
  | (none, _) => false

section Histories

variable {history : List Poll} {x : Poll} {o : Observation}

/-- A scrape that is no observation leaves the observations as they are. -/
theorem observed_append_none (h : x.observation? = none) :
    observed (history ++ [x]) = observed history := by
  simp [observed, h]

/-- An observation comes last, with the one that came last so far. -/
theorem observed_append_some (h : x.observation? = some o) :
    observed (history ++ [x]) =
      observed history ++ [((history.filterMap Poll.observation?).getLast?, o)] := by
  have hzip : ∀ (l : List Observation) (first : Option Observation),
      (first :: (l ++ [o]).map some).zip (l ++ [o]) =
        (first :: l.map some).zip l ++ [(l.getLast?.or first, o)] := by
    intro l
    induction l with
    | nil => exact fun first ↦ rfl
    | cons a l ih =>
        intro first
        have := ih (some a)
        cases l with
        | nil => rfl
        | cons b l =>
            simp only [List.map_cons, List.cons_append, List.zip_cons_cons] at this ⊢
            rw [this, List.getLast?_cons_cons, List.getLast?_cons]
            rfl
  simpa [observed, h] using hzip (history.filterMap Poll.observation?) none

end Histories

/-- Among the suffixes all of whose elements have a property there is a longest one. -/
theorem suffix_rtakeWhile {α : Type} {p : α → Bool} {l s : List α} (hs : s <:+ l)
    (h : ∀ a ∈ s, p a) : s <:+ l.rtakeWhile p := by
  induction l using List.reverseRecOn generalizing s with
  | nil => exact hs
  | append_singleton l a ih =>
      rcases List.suffix_concat_iff.mp hs with rfl | ⟨t, rfl, ht⟩
      · exact List.nil_suffix
      · simp only [List.forall_mem_append, List.forall_mem_singleton] at h
        rw [List.rtakeWhile_concat_pos p l a h.2]
        obtain ⟨m, hm⟩ := ih ht h.1
        exact ⟨m, by rw [← List.append_assoc, hm]⟩

namespace WedgeDetector

/-- `on_scrape_failure`: neither advance nor clear. -/
def onScrapeFailure (d : WedgeDetector) : WedgeDetector := d

/-- What the poller does with a scrape. -/
def take (d : WedgeDetector) (x : Poll) : WedgeDetector :=
  match x.result with
  | none => d.onScrapeFailure
  | some snapshot => d.observe snapshot x.now

/-- A detector after these scrapes. -/
def after (windowSec : ℚ) (history : List Poll) : WedgeDetector :=
  history.foldl take { windowSec }

/-- The stall that goes on at the end of a history. -/
def stall (history : List Poll) : List (Option Observation × Observation) :=
  (observed history).rtakeWhile stuck

variable {windowSec now : ℚ} {history : List Poll} {x : Poll} {d : WedgeDetector}

theorem after_append : after windowSec (history ++ [x]) = (after windowSec history).take x := by
  simp [after]

/-- A failed scrape and one without the counter change nothing. -/
theorem take_of_observation?_none (h : x.observation? = none) : d.take x = d := by
  obtain ⟨result, now⟩ := x
  cases result with
  | none => rfl
  | some snapshot =>
      apply observe_of_genTokens_none
      simpa [Poll.observation?] using h

/-- What an observation does: it is remembered, and begins, prolongs or ends a stall. -/
theorem take_of_observation?_some {o : Observation} (h : x.observation? = some o) :
    d.take x =
      { d with
        lastGenTokens := some o.gen
        stallSince := d.lastGenTokens.elim d.stallSince fun previous ↦
          if (Double.finite 0).lt o.waiting && o.gen.eq previous then
            some (d.stallSince.getD o.now)
          else none } := by
  obtain ⟨result, now⟩ := x
  cases result with
  | none => cases h
  | some snapshot =>
      obtain ⟨gen, hgen, rfl⟩ := Option.map_eq_some_iff.mp h
      simp only [take, observe, hgen]
      cases d.lastGenTokens with
      | none => rfl
      | some previous =>
          cases heq : gen.eq previous with
          | true => simp [Double.eq_of_eq heq, Double.lt_irrefl]
          | false => simp [heq]

/-! ## The detector against the history -/

/-- A scrape that is no observation leaves the stall as it is. -/
theorem stall_append_none (h : x.observation? = none) : stall (history ++ [x]) = stall history := by
  rw [stall, observed_append_none h, stall]

/-- A stuck observation prolongs the stall. -/
theorem stall_append_stuck {o : Observation} (h : x.observation? = some o)
    (hs : stuck ((history.filterMap Poll.observation?).getLast?, o)) :
    stall (history ++ [x]) =
      stall history ++ [((history.filterMap Poll.observation?).getLast?, o)] := by
  rw [stall, observed_append_some h, List.rtakeWhile_concat_pos _ _ _ hs, stall]

/-- Any other observation ends it. -/
theorem stall_append_not_stuck {o : Observation} (h : x.observation? = some o)
    (hs : ¬stuck ((history.filterMap Poll.observation?).getLast?, o)) :
    stall (history ++ [x]) = [] := by
  rw [stall, observed_append_some h, List.rtakeWhile_concat_neg _ _ _ hs]

/-- The fields of the detector, as functions of the history. -/
theorem after_eq (windowSec : ℚ) (history : List Poll) : after windowSec history =
    { windowSec
      lastGenTokens := (history.filterMap Poll.observation?).getLast?.map Observation.gen
      stallSince := (stall history).head?.map fun o ↦ o.2.now } := by
  induction history using List.reverseRecOn with
  | nil => rfl
  | append_singleton history x ih =>
      rw [after_append, ih]
      cases ho : x.observation? with
      | none =>
          rw [take_of_observation?_none ho, stall_append_none ho]
          simp [ho]
      | some o =>
          rw [take_of_observation?_some ho]
          have hlast : ((history ++ [x]).filterMap Poll.observation?).getLast? = some o := by
            simp [ho]
          rw [hlast]
          by_cases hs : stuck ((history.filterMap Poll.observation?).getLast?, o)
          · rw [stall_append_stuck ho hs]
            cases hl : (history.filterMap Poll.observation?).getLast? with
            | none =>
                rw [hl] at hs
                cases hs
            | some previous =>
                rw [hl] at hs
                obtain ⟨hwaiting, heq⟩ := Bool.and_eq_true_iff.mp hs
                cases stall history <;> simp [hwaiting, heq]
          · rw [stall_append_not_stuck ho hs]
            cases hl : (history.filterMap Poll.observation?).getLast? with
            | none =>
                -- The first observation of all: there is no stall it could end.
                have hnil := List.getLast?_eq_none_iff.mp hl
                simp [stall, observed, hnil]
            | some previous =>
                rw [hl] at hs
                simp only [stuck] at hs
                simp only [Option.map_some, Option.elim_some, if_neg hs]
                rfl

/-- With a positive window, a replica is suspected from the end of the window on that the
stall opens. -/
theorem suspected_iff (hw : 0 < d.windowSec) :
    d.suspected now ↔ ∃ since, d.stallSince = some since ∧ since + d.windowSec ≤ now := by
  unfold suspected stallSeconds
  cases d.stallSince with
  | none => simp [hw]
  | some since =>
      simp only [decide_eq_true_eq, le_max_iff, not_le.mpr hw, false_or, Option.some.injEq,
        exists_eq_left']
      constructor
      · intro h
        linarith
      · intro h
        linarith

/-- An observation that is not stuck came last: nothing is suspected, at any time. -/
theorem not_suspected_of_getLast? (hw : 0 < windowSec) {o : Option Observation × Observation}
    (ho : (observed history).getLast? = some o) (hs : ¬stuck o) :
    (after windowSec history).suspected now = false := by
  apply not_suspected_of_stallSince_none
  · rw [after_eq]
    exact hw
  · have hnil : stall history = [] := by
      apply List.rtakeWhile_eq_nil_iff.mpr
      intro hne
      rw [List.getLast?_eq_getLast_of_ne_nil hne] at ho
      exact Option.some.inj ho ▸ hs
    rw [after_eq, hnil]
    rfl

/-- A replica with nothing waiting, or whose counter moved, up or down, is not stuck. -/
theorem not_stuck_of_moved {previous o : Observation}
    (h : ¬(Double.finite 0).lt o.waiting ∨ previous.gen.lt o.gen ∨ o.gen.lt previous.gen) :
    ¬stuck (some previous, o) := by
  intro hs
  obtain ⟨hwaiting, heq⟩ := Bool.and_eq_true_iff.mp hs
  rw [Double.eq_of_eq heq, Double.lt_irrefl] at h
  rcases h with h | h | h
  · exact h hwaiting
  · cases h
  · cases h

/-- The detector is a function of the history: a stall is on since the first observation of
the longest suffix of stuck ones, and suspected once that is a window ago; what is no
observation changes nothing; and an idle replica, an advancing counter and a counter
that was reset are not suspected. -/
theorem stall_history (windowSec : ℚ) (hw : 0 < windowSec) (history : List Poll) :
    ∃ stall, stall <:+ observed history ∧ (∀ o ∈ stall, stuck o) ∧
      (∀ l, l <:+ observed history → (∀ o ∈ l, stuck o) → l <:+ stall) ∧
      (after windowSec history).stallSince = stall.head?.map (fun o ↦ o.2.now) ∧
      (∀ now, (after windowSec history).suspected now ↔
        ∃ first, stall.head? = some first ∧ first.2.now + windowSec ≤ now) ∧
      (∀ x : Poll, x.observation? = none →
        after windowSec (history ++ [x]) = after windowSec history) ∧
      ∀ previous o : Observation, (observed history).getLast? = some (some previous, o) →
        (¬(Double.finite 0).lt o.waiting ∨ previous.gen.lt o.gen ∨ o.gen.lt previous.gen) →
          ∀ now, (after windowSec history).suspected now = false := by
  refine ⟨stall history, List.rtakeWhile_suffix _ _, fun o ↦ List.mem_rtakeWhile_imp, ?_, ?_, ?_,
    ?_, ?_⟩
  · exact fun l ↦ suffix_rtakeWhile
  · rw [after_eq]
  · intro now
    have hwindow : 0 < (after windowSec history).windowSec := by
      rw [after_eq]
      exact hw
    rw [suspected_iff hwindow, after_eq]
    simp
  · intro x hx
    rw [after_append, take_of_observation?_none hx]
  · intro previous o ho hmoved now
    exact not_suspected_of_getLast? hw ho (not_stuck_of_moved hmoved)

/-- A replica with requests waiting that has generated seven tokens. -/
def queuedAtSeven : Snapshot :=
  [("vllm:num_requests_waiting", .finite 2), ("vllm:generation_tokens_total", .finite 7)]

/-- It is stuck from the second scrape on; the third fails. -/
def stuckHistory : List Poll :=
  [⟨some queuedAtSeven, 0⟩, ⟨some queuedAtSeven, 5⟩, ⟨none, 10⟩, ⟨some queuedAtSeven, 20⟩]

theorem stall_history_stuck :
    ∃ stall : List (Option Observation × Observation),
      (after 15 stuckHistory).stallSince = stall.head?.map (fun o ↦ o.2.now) ∧
      stall.length = 2 ∧ (after 15 stuckHistory).suspected 20 := by
  obtain ⟨l, hl, hstuck, hlongest, hsince, -⟩ := stall_history 15 (by norm_num) stuckHistory
  refine ⟨l, hsince, le_antisymm ?_ ?_, by decide +kernel⟩
  · -- The first observation has none before it.
    by_contra hlt
    have hall : l = observed stuckHistory := hl.eq_of_length_le (not_le.mp hlt)
    have hfirst := hstuck (none, ⟨.finite 2, .finite 7, 0⟩) (hall ▸ List.mem_cons_self)
    cases hfirst
  · exact (hlongest _ (List.rtakeWhile_suffix stuck _) fun o ↦ List.mem_rtakeWhile_imp).length_le

end WedgeDetector

/-! ## The poller -/

namespace Detectors

variable {σ : Settings} {url : Str}

/-- `_poll_one` of a replica. -/
def poll (ds : Detectors) (σ : Settings) (url : Str) (x : Poll) : Detectors :=
  (ds.startPoll σ url).finishPoll σ url x.result x.now

/-- A poll folds the scrape into the detector of its replica. -/
theorem get_poll_self {ds : Detectors} {x : Poll} :
    (ds.poll σ url x).get σ url = (ds.get σ url).take x := by
  rw [poll, get_finishPoll_self, get_startPoll]
  rfl

/-- The detectors of the poller, after polls of any replicas in any order: each is the
detector of the history of its own replica. -/
theorem get_polls (σ : Settings) (url : Str) (polls : List (Str × Poll)) :
    Detectors.get (polls.foldl (fun ds q ↦ Detectors.poll ds σ q.1 q.2) []) σ url =
      WedgeDetector.after σ.upstreamWedgeWindowSec
        ((polls.filter fun q ↦ q.1 = url).map Prod.snd) := by
  induction polls using List.reverseRecOn with
  | nil => rfl
  | append_singleton polls q ih =>
      obtain ⟨u, x⟩ := q
      rw [List.foldl_append, List.foldl_cons, List.foldl_nil, List.filter_append, List.map_append]
      by_cases hu : u = url
      · subst hu
        rw [get_poll_self, ih]
        simp [WedgeDetector.after]
      · rw [poll, get_finishPoll_of_ne (Ne.symm hu), get_startPoll, ih]
        simp [hu]

end Detectors

end InferenceGateway
