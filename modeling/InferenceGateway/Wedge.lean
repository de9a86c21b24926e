import InferenceGateway.Breakers

/-!
# The evidence behind a wedge trip

The prober opens a closed breaker on its second verdict in a row.  The verdict is
the detector's, and it stands, and even turns from "no" to "yes", without any new
scrape; so the two verdicts can rest on the same observations.

How many observations there are between the two is decided by the scrapes that carry
the generation counter.  If there is one, the last of them has shown the signature
again, for otherwise it would have ended the stall (`System.evidence_iff`).  If there
is none, there was no fresh evidence.
-/

namespace InferenceGateway

open Py Transition

/-- A round of the prober begins or goes on. -/
def Event.isRound : Event → Bool
  | .tick _ | .probed _ _ => true
  | _ => false

namespace System

variable {rt : Runtime} {σ : Settings} {s s' : System} {e : Event} {es : List Event} {u : Str}

/-- A successful scrape of `u` of which `q` holds is folded into its detector. -/
def folds (σ : Settings) (u : Str) (q : WedgeDetector → Snapshot → Bool) (s : System) :
    Event → Bool
  | .scraped (some snapshot) _ => match s.scraper with
    | .scraping _ url _ => url = u && q (s.detectors.get σ u) snapshot
    | .asleep => false
  | _ => false

/-- A scrape of `u` that shows the wedge signature is folded into its detector. -/
def shown (σ : Settings) (u : Str) : System → Event → Bool := folds σ u WedgeDetector.shows

/-- A scrape of `u` that carries the generation counter is folded into its detector. -/
def informed (σ : Settings) (u : Str) : System → Event → Bool :=
  folds σ u fun _ snapshot ↦ snapshot.genTokens.isSome

theorem folds_iff {q : WedgeDetector → Snapshot → Bool} : folds σ u q s e ↔
    ∃ started left snapshot now, s.scraper = .scraping started u left ∧
      e = .scraped (some snapshot) now ∧ q (s.detectors.get σ u) snapshot := by
  constructor
  · intro h
    unfold folds at h
    split at h
    · rename_i snapshot now
      split at h
      · rename_i started url left hs
        simp only [Bool.and_eq_true, decide_eq_true_eq] at h
        obtain ⟨rfl, hq⟩ := h
        exact ⟨started, left, snapshot, now, hs, rfl, hq⟩
      · cases h
    · cases h
  · rintro ⟨started, left, snapshot, now, hs, rfl, hq⟩
    simpa [folds, hs] using hq

/-- The signature is read off the counter. -/
theorem informed_of_shown (h : shown σ u s e) : informed σ u s e := by
  obtain ⟨started, left, snapshot, now, hs, rfl, hshows⟩ := folds_iff.mp h
  exact folds_iff.mpr ⟨started, left, snapshot, now, hs, rfl, WedgeDetector.isSome_of_shows hshows⟩

/-! ## The detectors -/

/-- What is known of every detector in a state the process can reach. -/
def Tracked (σ : Settings) (s : System) : Prop :=
  ∀ u, (s.detectors.get σ u).windowSec = σ.upstreamWedgeWindowSec ∧
    ((s.detectors.get σ u).lastGenTokens = none → (s.detectors.get σ u).stallSince = none)

theorem Tracked.start (urls : List Str) (h : urls ≠ []) : Tracked σ (start urls h) :=
  fun _ ↦ ⟨rfl, fun _ ↦ rfl⟩

theorem Tracked.step (ht : Tracked σ s) (h : Moves rt σ s e s') : Tracked σ s' := by
  intro u
  rcases h.detector u with hd | ⟨started, left, snapshot, now, -, -, hd⟩
  · rw [hd]
    exact ht u
  · rw [hd, WedgeDetector.observe_windowSec]
    exact ⟨(ht u).1, WedgeDetector.observe_lastGenTokens (ht u).2⟩

/-- Without a scrape that shows the signature, no stall of `u` begins. -/
theorem Moves.stallSince_none (h : Moves rt σ s e s') (hshown : ¬shown σ u s e)
    (hnone : (s.detectors.get σ u).stallSince = none) :
    (s'.detectors.get σ u).stallSince = none := by
  rcases h.detector u with hd | ⟨started, left, snapshot, now, hs, rfl, hd⟩
  · rw [hd]
    exact hnone
  · rw [hd]
    refine WedgeDetector.observe_stallSince_none (fun hshows ↦ hshown ?_) hnone
    exact folds_iff.mpr ⟨started, left, snapshot, now, hs, rfl, hshows⟩

/-- A scrape that carries the counter and does not show the signature ends any stall of
`u`. -/
theorem Moves.stallSince_of_informed (h : Moves rt σ s e s') (ht : Tracked σ s)
    (hshown : ¬shown σ u s e) (hinformed : informed σ u s e) :
    (s'.detectors.get σ u).stallSince = none := by
  obtain ⟨started, left, snapshot, now, hs, rfl, hgen⟩ := folds_iff.mp hinformed
  have hnot : ¬(s.detectors.get σ u).shows snapshot := fun hshows ↦
    hshown (folds_iff.mpr ⟨started, left, snapshot, now, hs, rfl, hshows⟩)
  rw [h.detector_of_scraped hs]
  exact WedgeDetector.observe_stallSince_of_not_shows hgen hnot (ht u).2

/-! ## The prober -/

/-- A round of the prober in which `u` is not stalled leaves its breaker closed. -/
theorem Moves.closed_of_unstalled (h : Moves rt σ s e s') (hw : 0 < σ.upstreamWedgeWindowSec)
    (hr : Rated s) (ht : Tracked σ s) (hround : e.isRound)
    (hnone : (s.detectors.get σ u).stallSince = none) (hc : (s.breaker u).state = .closed) :
    (s'.breaker u).state = .closed := by
  refine h.breaker_of (P := fun b ↦ b.state = .closed) ?_ ?_ ?_ ?_ hc
  · rintro i x now r outcome rfl
    cases hround
  · rintro i x now r f b rfl
    cases hround
  · intro started left ok now hp _
    exact absurd hc (hr.probing started u left hp)
  · intro b started now hb _
    rw [Detectors.wedgeSuspected_eq hw,
      WedgeDetector.not_suspected_of_stallSince_none ((ht u).1 ▸ hw) hnone]
    exact hb

/-- With a positive wedge window, whenever a round of the prober opens the closed breaker of
`u`: between any earlier step and this round, a scrape of `u` that shows the signature is folded
in if and only if one that carries the generation counter is.  The earlier step that matters is
the round that took the confirmations from none to one; nothing in the argument depends on
that. -/
theorem evidence_iff (rt : Runtime) (σ : Settings) (hw : 0 < σ.upstreamWedgeWindowSec)
    (urls : List Str) (h : urls ≠ []) (u : Str) (pre mid : List Event) (e₁ e₂ : Event)
    (s₁ s₂ s₃ s₄ : System) (hpre : Runs rt σ (System.start urls h) pre s₁)
    (hfirst : Steps (step rt σ) s₁ e₁ s₂) (hmid : Runs rt σ s₂ mid s₃)
    (hlast : Steps (step rt σ) s₃ e₂ s₄) (hround₂ : e₂.isRound)
    (hclosed : (s₃.breaker u).state = .closed) (hopen : (s₄.breaker u).state = .open) :
    Passes (Steps (step rt σ)) (fun s e ↦ shown σ u s e) s₂ mid s₃ ↔
      Passes (Steps (step rt σ)) (fun s e ↦ informed σ u s e) s₂ mid s₃ := by
  refine ⟨Passes.imp informed_of_shown, ?_⟩
  rintro ⟨es₁, e, es₂, t, t', rfl, hr₁, hs, hr₂, hinf⟩
  by_cases hshown : shown σ u t e
  · exact ⟨es₁, e, es₂, t, t', rfl, hr₁, hs, hr₂, hshown⟩
  · -- That scrape ended the stall; only a later one can have begun the next.
    have hreach := ((hpre.snoc hfirst).append hr₁).snoc hs
    have htracked : Tracked σ t :=
      ((hpre.snoc hfirst).append hr₁).invariant (fun hs ht ↦ ht.step (moves_of_step hs)) (.start urls h)
    have hnone := (moves_of_step hs).stallSince_of_informed htracked hshown hinf
    rcases hr₂.passes_or_guarded fun s e ↦ shown σ u s e with hp | hg
    · have := Passes.of_append (hr₁.snoc hs) hp
      rwa [List.append_assoc] at this
    · -- Otherwise `u` is not stalled when the last round comes, and stays closed.
      have hnone₃ : (s₃.detectors.get σ u).stallSince = none := hg.invariant
        (P := fun s ↦ (s.detectors.get σ u).stallSince = none)
        (fun hs hn ↦ (moves_of_step hs.1).stallSince_none hs.2 hn) hnone
      have htracked₃ : Tracked σ s₃ :=
        hr₂.invariant (fun hs ht ↦ ht.step (moves_of_step hs)) (htracked.step (moves_of_step hs))
      have hc := (moves_of_step hlast).closed_of_unstalled hw (rated_of_run (hreach.append hr₂))
        htracked₃ hround₂ hnone₃ hclosed
      rw [hc] at hopen
      cases hopen

/-- A snapshot of a replica with `waiting` requests that has generated seven tokens. -/
def sevenGenerated (waiting : ℚ) : Snapshot :=
  [("vllm:generation_tokens_total", .finite 7), ("vllm:num_requests_waiting", .finite waiting)]

/-- Two scrapes, the second of which shows the signature, and nothing after them. -/
def stalledEvents : List Event :=
  [.poll 0, .scraped (some (sevenGenerated 0)) 0, .poll 5, .scraped (some (sevenGenerated 1)) 5]

/-- Two rounds of the prober, `mid` in between, as the check of a concrete run: the first
takes the confirmations from none to one, the second opens the breaker. -/
def tripsAround (mid : List Event) (s₁ : System) : Bool :=
  (s₁.breaker sampleUrl).wedgeConfirmations = 0 &&
    (step .sample .default s₁ (.tick 125)).any fun s₂ ↦
      (s₂.breaker sampleUrl).wedgeConfirmations = 1 &&
        (exec (step .sample .default) s₂ mid).any fun s₃ ↦
          (s₃.breaker sampleUrl).state = .closed &&
            (step .sample .default s₃ (.tick 130)).any fun s₄ ↦
              (s₄.breaker sampleUrl).state = .open

theorem exists_of_tripsAround {mid : List Event} {s₁ : System} (h : tripsAround mid s₁) :
    (s₁.breaker sampleUrl).wedgeConfirmations = 0 ∧
      ∃ s₂ s₃ s₄, Steps (step .sample .default) s₁ (.tick 125) s₂ ∧
        (s₂.breaker sampleUrl).wedgeConfirmations = 1 ∧ Runs .sample .default s₂ mid s₃ ∧
        (s₃.breaker sampleUrl).state = .closed ∧
        Steps (step .sample .default) s₃ (.tick 130) s₄ ∧ (s₄.breaker sampleUrl).state = .open := by
  simp only [tripsAround, Bool.and_eq_true, decide_eq_true_eq, Option.any_eq_true] at h
  obtain ⟨h₀, s₂, hs₂, h₁, s₃, hs₃, hc, s₄, hs₄, ho⟩ := h
  exact ⟨h₀, s₂, s₃, s₄, hs₂, h₁, .ofExec hs₃, hc, hs₄, ho⟩

/-- With a scrape between the two rounds, the equivalence holds of two true statements. -/
theorem evidence_iff_fresh : ∃ s₂ s₃,
    Passes (Steps (step .sample .default)) (fun s e ↦ shown .default sampleUrl s e) s₂
        [.poll 126, .scraped (some (sevenGenerated 1)) 126] s₃ ↔
      Passes (Steps (step .sample .default)) (fun s e ↦ informed .default sampleUrl s e) s₂
        [.poll 126, .scraped (some (sevenGenerated 1)) 126] s₃ := by
  obtain ⟨s₁, hr, ht⟩ := Run.exists_of_exec (step .sample .default) sampleSystem stalledEvents
    (tripsAround [.poll 126, .scraped (some (sevenGenerated 1)) 126]) (by decide +kernel)
  obtain ⟨-, s₂, s₃, s₄, hs₂, -, hmid, hc, hs₄, ho⟩ := exists_of_tripsAround ht
  exact ⟨s₂, s₃, evidence_iff .sample .default (by decide +kernel) [sampleUrl]
    (List.cons_ne_nil _ _) sampleUrl stalledEvents _ _ _ s₁ s₂ s₃ s₄ hr hs₂ hmid hs₄ rfl hc ho⟩

/-- Without one, the breaker opens all the same: both verdicts rest on the same scrapes. -/
theorem opens_without_evidence : ∃ s₁ s₂ s₃ s₄,
    Runs .sample .default sampleSystem stalledEvents s₁ ∧
      (s₁.breaker sampleUrl).wedgeConfirmations = 0 ∧
      Steps (step .sample .default) s₁ (.tick 125) s₂ ∧
      (s₂.breaker sampleUrl).wedgeConfirmations = 1 ∧ Runs .sample .default s₂ [] s₃ ∧
      (s₃.breaker sampleUrl).state = .closed ∧
      Steps (step .sample .default) s₃ (.tick 130) s₄ ∧
      (s₄.breaker sampleUrl).state = .open ∧
      ¬Passes (Steps (step .sample .default)) (fun s e ↦ shown .default sampleUrl s e) s₂ [] s₃ := by
  obtain ⟨s₁, hr, ht⟩ := Run.exists_of_exec (step .sample .default) sampleSystem stalledEvents
    (tripsAround []) (by decide +kernel)
  obtain ⟨h₀, s₂, s₃, s₄, hs₂, h₁, hmid, hc, hs₄, ho⟩ := exists_of_tripsAround ht
  exact ⟨s₁, s₂, s₃, s₄, hr, h₀, hs₂, h₁, hmid, hc, hs₄, ho, Passes.not_nil⟩

end System

end InferenceGateway
