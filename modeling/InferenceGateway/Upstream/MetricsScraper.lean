import InferenceGateway.Config
import InferenceGateway.Python.Dict

/-!
# The wedge signal

`gateway/upstream/metrics_scraper.py`: the detector that turns scrapes of a
replica's own `/metrics` into a verdict, and the poller that feeds it.  A snapshot
is the map `parse` returns; the gauges the poller publishes are left out, since
nothing in the gateway reads them back.
-/

namespace InferenceGateway

open Py

/-- What `parse` makes of an exposition: series name to value. -/
abbrev Snapshot := Dict String Double

/-- `snapshot.get("vllm:num_requests_waiting", 0.0)`. -/
def Snapshot.waiting (s : Snapshot) : Double :=
  (s.lookup "vllm:num_requests_waiting").getD (.finite 0)

/-- `snapshot.get("vllm:generation_tokens_total")`. -/
def Snapshot.genTokens (s : Snapshot) : Option Double := s.lookup "vllm:generation_tokens_total"

/-- `WedgeDetector`. -/
structure WedgeDetector where
  windowSec : ℚ
  lastGenTokens : Option Double := none
  stallSince : Option ℚ := none
  deriving DecidableEq

namespace WedgeDetector

/-- `observe`. -/
def observe (d : WedgeDetector) (snapshot : Snapshot) (now : ℚ) : WedgeDetector :=
  match snapshot.genTokens with
  | none => d
  | some gen =>
    match d.lastGenTokens with
    | none => { d with lastGenTokens := some gen }
    | some previous =>
      { d with
        lastGenTokens := some gen
        stallSince :=
          -- A counter that goes backwards is a restart, not a stall.
          if gen.lt previous then none
          else if (Double.finite 0).lt snapshot.waiting ∧ gen.eq previous then
            some (d.stallSince.getD now)
          else none }

/-- `stall_seconds`. -/
def stallSeconds (d : WedgeDetector) (now : ℚ) : ℚ :=
  match d.stallSince with
  | none => 0
  | some t => max 0 (now - t)

/-- `suspected`. -/
def suspected (d : WedgeDetector) (now : ℚ) : Bool := d.windowSec ≤ d.stallSeconds now

/-- The scrape shows the wedge signature: requests are waiting and the generation
counter has not moved since the last scrape that carried it. -/
def shows (d : WedgeDetector) (snapshot : Snapshot) : Bool :=
  match snapshot.genTokens, d.lastGenTokens with
  | some gen, some previous => (Double.finite 0).lt snapshot.waiting && gen.eq previous
  | _, _ => false

variable {d : WedgeDetector} {s : Snapshot} {now : ℚ}

/-- The signature is read off the counter. -/
theorem isSome_of_shows (h : d.shows s) : s.genTokens.isSome := by
  unfold shows at h
  split at h
  · rename_i hgen _
    rw [hgen]
    rfl
  · cases h

@[simp] theorem observe_windowSec : (d.observe s now).windowSec = d.windowSec := by
  unfold observe
  split
  · rfl
  · split <;> rfl

/-- A scrape without the counter is no information. -/
theorem observe_of_genTokens_none (h : s.genTokens = none) : d.observe s now = d := by
  unfold observe
  rw [h]

/-- A scrape that carries the counter and does not show the signature ends any
stall. -/
theorem observe_stallSince_of_not_shows (hinfo : s.genTokens.isSome) (h : ¬d.shows s)
    (hnone : d.lastGenTokens = none → d.stallSince = none) :
    (d.observe s now).stallSince = none := by
  obtain ⟨gen, hgen⟩ := Option.isSome_iff_exists.mp hinfo
  unfold observe
  rw [hgen]
  cases hprev : d.lastGenTokens with
  | none => exact hnone hprev
  | some previous =>
      have hcond : ¬((Double.finite 0).lt s.waiting ∧ gen.eq previous) := by
        simpa [shows, hgen, hprev] using h
      simp only [if_neg hcond, ite_self]

/-- Without the signature no stall begins. -/
theorem observe_stallSince_none (h : ¬d.shows s) (hd : d.stallSince = none) :
    (d.observe s now).stallSince = none := by
  cases hgen : s.genTokens with
  | none => rw [observe_of_genTokens_none hgen, hd]
  | some gen => exact observe_stallSince_of_not_shows (by rw [hgen]; rfl) h fun _ ↦ hd

/-- A stall is only ever recorded against an earlier counter. -/
theorem observe_lastGenTokens (h : d.lastGenTokens = none → d.stallSince = none) :
    (d.observe s now).lastGenTokens = none → (d.observe s now).stallSince = none := by
  unfold observe
  split
  · exact h
  · split <;> intro hc <;> cases hc

/-- Without a stall, and with a positive window, nothing is suspected. -/
theorem not_suspected_of_stallSince_none (hw : 0 < d.windowSec) (h : d.stallSince = none) :
    d.suspected now = false := by
  simp [suspected, stallSeconds, h, hw]

end WedgeDetector

/-! ## The poller -/

/-- The detectors of `UpstreamMetricsPoller`, by replica. -/
abbrev Detectors := Dict Str WedgeDetector

namespace Detectors

/-- `_detector`: created on first use. -/
def get (ds : Detectors) (σ : Settings) (url : Str) : WedgeDetector :=
  (ds.lookup url).getD { windowSec := σ.upstreamWedgeWindowSec }

/-- `wedge_suspected`. -/
def wedgeSuspected (ds : Detectors) (url : Str) (now : ℚ) : Bool :=
  match ds.lookup url with
  | none => false
  | some d => d.suspected now

/-- `_poll_one` up to its request: the detector is there from then on. -/
def startPoll (ds : Detectors) (σ : Settings) (url : Str) : Detectors := ds.set url (ds.get σ url)

/-- `_poll_one` after its request, made at `now`.  A failed scrape is no information,
and neither is one without any known series. -/
def finishPoll (ds : Detectors) (σ : Settings) (url : Str) (result : Option Snapshot) (now : ℚ) :
    Detectors :=
  match result with
  | none | some [] => ds
  | some snapshot => ds.set url ((ds.get σ url).observe snapshot now)

variable {ds : Detectors} {σ : Settings} {url u : Str} {result : Option Snapshot} {now : ℚ}

/-- Creating the detector ahead of the scrape changes no verdict. -/
@[simp] theorem get_startPoll : (ds.startPoll σ url).get σ u = ds.get σ u := by
  by_cases h : u = url
  · subst h
    simp [get, startPoll]
  · simp [get, startPoll, Dict.lookup_set_of_ne h]

/-- A scrape of another replica. -/
theorem get_finishPoll_of_ne (h : u ≠ url) :
    (ds.finishPoll σ url result now).get σ u = ds.get σ u := by
  unfold finishPoll
  split
  · rfl
  · rfl
  · simp [get, Dict.lookup_set_of_ne h]

/-- A scrape is folded into the detector of its replica, if it is one; a snapshot without
any series would not change the detector either. -/
theorem get_finishPoll_self :
    (ds.finishPoll σ url result now).get σ url =
      match result with
      | none => ds.get σ url
      | some snapshot => (ds.get σ url).observe snapshot now := by
  unfold finishPoll
  split
  · rfl
  · exact (WedgeDetector.observe_of_genTokens_none rfl).symm
  · simp [get]

/-- With a positive window, a replica without a detector is judged like one with a fresh
detector. -/
theorem wedgeSuspected_eq (hw : 0 < σ.upstreamWedgeWindowSec) :
    ds.wedgeSuspected url now = (ds.get σ url).suspected now := by
  unfold wedgeSuspected get
  cases ds.lookup url with
  | none => exact (WedgeDetector.not_suspected_of_stallSince_none hw rfl).symm
  | some d => rfl

end Detectors

end InferenceGateway
