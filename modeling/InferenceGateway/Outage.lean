import InferenceGateway.Breakers
import InferenceGateway.Upstream.Ladder

/-!
# The wait that opens an outage

`BREAKER_OPEN_SEC` is read in one place, as the `default=` of a `min` over the waits of
all replicas, and there is always a replica; so no step of the process depends on it
(`System.step_openSec`).  The wait between a trip and the first probe is the constant
`INITIAL_OPEN_SEC`, which the dataclass and `_close` both write.

An outage of a replica lasts as long as its breaker is not closed and has not tripped
anew.  Every failed probe in it doubles the wait, up to the cap.
-/

namespace InferenceGateway

open Py Transition

/-! ## A setting without effect -/

section Irrelevance

variable (rt : Runtime) (σ : Settings) (sec : ℚ)

/-- There is always a replica, so the default of the minimum is never taken. -/
theorem UpstreamPool.minWait_openSec (p : UpstreamPool) (now : ℚ) :
    p.minWait { σ with breakerOpenSec := sec } now = p.minWait σ now := by
  unfold minWait
  cases hw : p.urls.map fun u ↦ (p.breaker u).secondsUntilProbe now with
  | nil => exact absurd (List.map_eq_nil_iff.mp hw) p.urls_ne_nil
  | cons w ws => rfl

theorem UpstreamPool.pick_openSec (p : UpstreamPool) (exclude : Option Str) (now : ℚ) :
    p.pick { σ with breakerOpenSec := sec } exclude now = p.pick σ exclude now := by
  unfold pick
  rw [UpstreamPool.minWait_openSec]

theorem Retry.start_openSec :
    Retry.start rt { σ with breakerOpenSec := sec } = Retry.start rt σ := by
  funext n stream p body attempt exclude now
  unfold Retry.start
  rw [UpstreamPool.pick_openSec]

theorem Retry.resume_openSec :
    Retry.resume rt { σ with breakerOpenSec := sec } = Retry.resume rt σ := by
  funext n stream p body r x now
  unfold Retry.resume
  rw [Retry.start_openSec]

theorem advance_openSec : advance rt { σ with breakerOpenSec := sec } = advance rt σ := by
  funext p started w phase x now
  unfold advance receive
  rw [Retry.resume_openSec, Retry.start_openSec]
  rfl

/-- No step of the process depends on `BREAKER_OPEN_SEC`. -/
theorem System.step_openSec :
    System.step rt { σ with breakerOpenSec := sec } = System.step rt σ := by
  funext s e
  unfold System.step Request.resume
  rw [advance_openSec]
  rfl

end Irrelevance

/-! ## One breaker through an outage -/

namespace ReplicaBreaker

variable {b : ReplicaBreaker} {kind : FailureKind} {outcome : Outcome} {now : ℚ} {suspected : Bool}

@[simp] theorem recordFailure_openSec : (b.recordFailure kind now).openSec = b.openSec := by
  rcases b.recordFailure_cases kind now with ⟨-, h⟩ | ⟨-, -, h⟩ | ⟨-, -, -, h⟩ <;> rw [h] <;> rfl

@[simp] theorem fold_openSec : (b.fold outcome now).openSec = b.openSec := by
  unfold fold
  split
  · rfl
  · exact recordFailure_openSec

@[simp] theorem recordWedge_openSec : (b.recordWedge suspected now).openSec = b.openSec := by
  rcases b.recordWedge_cases suspected now with ⟨-, h⟩ | ⟨-, -, h⟩ | ⟨-, -, -, h⟩
  · rw [h]
  · rw [h]
  · rw [h, recordFailure_openSec]

/-- A failure trips a closed breaker, or leaves the state and the trips as they are. -/
theorem recordFailure_trips (b : ReplicaBreaker) (kind : FailureKind) (now : ℚ) :
    ((b.recordFailure kind now).state = b.state ∧ (b.recordFailure kind now).trips = b.trips ∧
      (b.recordFailure kind now).openedAt = b.openedAt) ∨
    (b.state = .closed ∧ (b.recordFailure kind now).trips = b.trips + 1) := by
  rcases b.recordFailure_cases kind now with ⟨-, h⟩ | ⟨-, -, h⟩ | ⟨-, hc, -, h⟩
  · rw [h]
    exact .inl ⟨rfl, rfl, rfl⟩
  · rw [h]
    exact .inl ⟨rfl, rfl, rfl⟩
  · rw [h]
    exact .inr ⟨hc, rfl⟩

/-- So does the outcome of a request. -/
theorem fold_trips (b : ReplicaBreaker) (outcome : Outcome) (now : ℚ) :
    ((b.fold outcome now).state = b.state ∧ (b.fold outcome now).trips = b.trips ∧
      (b.fold outcome now).openedAt = b.openedAt) ∨
    (b.state = .closed ∧ (b.fold outcome now).trips = b.trips + 1) := by
  unfold fold
  split
  · exact .inl ⟨rfl, rfl, rfl⟩
  · exact b.recordFailure_trips _ now

/-- So does the verdict of the detector. -/
theorem recordWedge_trips (b : ReplicaBreaker) (suspected : Bool) (now : ℚ) :
    ((b.recordWedge suspected now).state = b.state ∧
      (b.recordWedge suspected now).trips = b.trips) ∨
    (b.state = .closed ∧ (b.recordWedge suspected now).trips = b.trips + 1) := by
  rcases b.recordWedge_cases suspected now with ⟨-, h⟩ | ⟨-, -, h⟩ | ⟨-, -, hc, h⟩
  · rw [h]
    exact .inl ⟨rfl, rfl⟩
  · rw [h]
    exact .inl ⟨rfl, rfl⟩
  · rw [h]
    rcases recordFailure_trips { b with wedgeConfirmations := b.wedgeConfirmations + 1 } .wedge now
      with ⟨hs, ht, -⟩ | ⟨-, ht⟩
    · exact .inl ⟨hs, ht⟩
    · exact .inr ⟨hc, ht⟩

/-- In the `t`-th outage, after `k` failed probes of it, the wait is the `k`-th rung. -/
def OnRung (t k : ℕ) (b : ReplicaBreaker) : Prop :=
  t ≤ b.trips ∧ (b.trips = t → b.state ≠ .closed → b.openSec = rung k)

variable {t k : ℕ} {b' : ReplicaBreaker}

/-- What changes neither the trips nor the state of a breaker, or trips it, keeps it on its
rung. -/
theorem OnRung.of_trips (h : OnRung t k b) (hsec : b'.openSec = b.openSec)
    (ht : (b'.state = b.state ∧ b'.trips = b.trips) ∨
      (b.state = .closed ∧ b'.trips = b.trips + 1)) : OnRung t k b' := by
  rcases ht with ⟨hs, ht⟩ | ⟨-, ht⟩
  · refine ⟨ht ▸ h.1, fun heq hne ↦ ?_⟩
    rw [hsec]
    exact h.2 (ht ▸ heq) (hs ▸ hne)
  · refine ⟨by rw [ht]; exact Nat.le_succ_of_le h.1, fun heq ↦ ?_⟩
    have := h.1
    omega

/-- A failed probe leads to the next rung, a good one leaves it or ends the outage. -/
theorem OnRung.recordProbe (h : OnRung t k b) (hb : b.state ≠ .closed) (ok suspected : Bool)
    (now : ℚ) : OnRung t (k + (!ok || suspected).toNat) (b.recordProbe ok now suspected) := by
  rcases b.recordProbe_cases ok suspected now with ⟨hbad, hr⟩ | ⟨rfl, rfl, -, hr⟩ | ⟨rfl, rfl, -, hr⟩
  · have hcount : (!ok || suspected).toNat = 1 := by
      rcases hbad with rfl | rfl
      · rfl
      · rw [Bool.or_true]
        rfl
    rw [hcount, hr]
    exact ⟨h.1, fun heq _ ↦ by rw [rung_succ, ← h.2 heq hb]⟩
  · rw [hr]
    exact ⟨h.1, fun heq _ ↦ h.2 heq hb⟩
  · rw [hr]
    exact ⟨h.1, fun _ hne ↦ absurd rfl hne⟩

end ReplicaBreaker

/-! ## An outage of a running process -/

namespace System

variable {rt : Runtime} {σ : Settings} {s s' : System} {e : Event} {es : List Event} {u : Str}
  {t k : ℕ} {t₀ sec : ℚ}

/-- A probe of `u` is answered. -/
def answers (u : Str) (s : System) (e : Event) : Bool :=
  match s.prober, e with
  | .probing _ url _, .probed _ _ => url = u
  | _, _ => false

/-- A probe of `u` fails, or finds the wedge signal live. -/
def failsProbe (u : Str) (s : System) (e : Event) : Bool :=
  match s.prober, e with
  | .probing _ url _, .probed ok now => url = u && (!ok || s.detectors.wedgeSuspected u now)
  | _, _ => false

/-- The breaker of `u` trips, at `t₀`. -/
def Trips (u : Str) (t₀ : ℚ) (s s' : System) : Prop :=
  (s.breaker u).state = .closed ∧ (s'.breaker u).state = .open ∧
    (s'.breaker u).openedAt = some t₀

theorem answers_iff : answers u s e ↔
    ∃ started left ok now, s.prober = .probing started u left ∧ e = .probed ok now := by
  constructor
  · intro h
    unfold answers at h
    split at h
    · rename_i started url left ok now hs
      obtain rfl := of_decide_eq_true h
      exact ⟨started, left, ok, now, hs, rfl⟩
    · cases h
  · rintro ⟨started, left, ok, now, hs, rfl⟩
    simp [answers, hs]

/-- Only an answer can be a failure. -/
theorem failsProbe_of_not_answers (h : ¬answers u s e) : failsProbe u s e = false := by
  unfold failsProbe
  split
  · rename_i started url left ok now hs
    have hne : url ≠ u := by
      rintro rfl
      exact h (answers_iff.mpr ⟨started, left, ok, now, hs, rfl⟩)
    rw [decide_eq_false hne, Bool.false_and]
  · rfl

/-- Where no probe of `u` is answered, a property of its breaker is kept if what requests and
verdicts do keeps it. -/
theorem Moves.breaker_of_not_answers {P : ReplicaBreaker → Prop} (h : Moves rt σ s e s')
    (ha : ¬answers u s e) (hfold : ∀ outcome now, P ((s.breaker u).fold outcome now))
    (hfailure : ∀ kind now, P ((s.breaker u).recordFailure kind now))
    (hwedge : ∀ b suspected now, P b → b.state = .closed → P (b.recordWedge suspected now))
    (hP : P (s.breaker u)) : P (s'.breaker u) := by
  apply h.breaker_of
  · intro i x now r outcome _ _ _
    exact hfold outcome now
  · rintro i x now r f b - - - ⟨e', -, rfl⟩
    exact hfailure .connect now
  · intro started left ok now hs he
    exact absurd (answers_iff.mpr ⟨started, left, ok, now, hs, he⟩) ha
  · exact fun b started now ↦ hwedge b _ started
  · exact hP

/-- Every step keeps a breaker on its rung, or leads it to the next. -/
theorem Moves.onRung (h : Moves rt σ s e s') (hr : Rated s) (hk : (s.breaker u).OnRung t k) :
    (s'.breaker u).OnRung t (k + (failsProbe u s e).toNat) := by
  by_cases ha : answers u s e
  · obtain ⟨started, left, ok, now, hs, rfl⟩ := answers_iff.mp ha
    have hfails : failsProbe u s (.probed ok now) = (!ok || s.detectors.wedgeSuspected u now) := by
      simp [failsProbe, hs]
    rw [hfails]
    cases h with
    | @probed started' url left' _ _ hs' =>
        obtain ⟨rfl, rfl, rfl⟩ := Prober.probing.inj (hs'.symm.trans hs)
        refine visit_breaker (fun b hb _ ↦ hb.of_trips ReplicaBreaker.recordWedge_openSec
          (b.recordWedge_trips _ _)) ?_
        rw [UpstreamPool.breaker_setBreaker_self]
        exact hk.recordProbe (hr.probing _ _ _ hs) ok _ now
  · rw [failsProbe_of_not_answers ha]
    refine h.breaker_of_not_answers ha (fun outcome now ↦ ?_) (fun kind now ↦ ?_)
      (fun b suspected now hb _ ↦ ?_) hk
    · exact hk.of_trips ReplicaBreaker.fold_openSec
        (((s.breaker u).fold_trips outcome now).imp_left fun h ↦ ⟨h.1, h.2.1⟩)
    · exact hk.of_trips ReplicaBreaker.recordFailure_openSec
        (((s.breaker u).recordFailure_trips kind now).imp_left fun h ↦ ⟨h.1, h.2.1⟩)
    · exact hb.of_trips ReplicaBreaker.recordWedge_openSec (b.recordWedge_trips suspected now)

/-- A run counts its failed probes. -/
theorem onRung_of_run (h : Runs rt σ s es s') (hr : Rated s) (hk : (s.breaker u).OnRung t k) :
    (s'.breaker u).OnRung t (k + tally (step rt σ) (failsProbe u) s es) := by
  induction h generalizing k with
  | nil s => exact hk
  | cons hs _ ih =>
      rw [tally_cons hs, ← Nat.add_assoc]
      exact ih (hr.step (moves_of_step hs)) ((moves_of_step hs).onRung hr hk)

/-- In rotation, the wait is the initial one. -/
theorem openSec_of_closed {urls : List Str} {h : urls ≠ []}
    (hr : Runs rt σ (System.start urls h) es s) :
    (s.breaker u).state = .closed → (s.breaker u).openSec = INITIAL_OPEN_SEC := by
  apply hr.invariant (P := fun s ↦ (s.breaker u).state = .closed →
    (s.breaker u).openSec = INITIAL_OPEN_SEC)
  · intro s e s' hs hP
    refine (moves_of_step hs).breaker_of
      (P := fun b ↦ b.state = .closed → b.openSec = INITIAL_OPEN_SEC) ?_ ?_ ?_ ?_ hP
    · intro i x now r outcome _ _ _ hc
      rw [ReplicaBreaker.fold_openSec]
      rcases (s.breaker u).fold_trips outcome now with ⟨hsame, -⟩ | ⟨hclosed, -⟩
      · exact hP (hsame ▸ hc)
      · exact hP hclosed
    · rintro i x now r f b - - - ⟨e', -, rfl⟩ hc
      rw [ReplicaBreaker.recordFailure_openSec]
      rcases (s.breaker u).recordFailure_trips .connect now with ⟨hsame, -⟩ | ⟨hclosed, -⟩
      · exact hP (hsame ▸ hc)
      · exact hP hclosed
    · intro started left ok now _ _ hc
      rcases (s.breaker u).recordProbe_cases ok (s.detectors.wedgeSuspected u now) now with
        ⟨-, h⟩ | ⟨-, -, -, h⟩ | ⟨-, -, -, h⟩
      · rw [h] at hc
        cases hc
      · rw [h] at hc
        cases hc
      · rw [h]
        rfl
    · intro b started now hb hclosed _
      rw [ReplicaBreaker.recordWedge_openSec]
      exact hb hclosed
  · intro _
    rw [breaker_start]

/-- The step at which a breaker trips leaves its wait alone. -/
theorem Moves.openSec_of_closed (h : Moves rt σ s e s') (hr : Rated s)
    (hc : (s.breaker u).state = .closed) : (s'.breaker u).openSec = (s.breaker u).openSec := by
  have ha : ¬answers u s e := by
    intro ha
    obtain ⟨started, left, ok, now, hs, -⟩ := answers_iff.mp ha
    exact hr.probing started u left hs hc
  refine h.breaker_of_not_answers (P := fun b ↦ b.openSec = (s.breaker u).openSec) ha
    (fun outcome now ↦ ?_) (fun kind now ↦ ?_) (fun b suspected now hb _ ↦ ?_) rfl
  · exact ReplicaBreaker.fold_openSec
  · exact ReplicaBreaker.recordFailure_openSec
  · exact ReplicaBreaker.recordWedge_openSec.trans hb

/-- Open since `t₀`, with this wait. -/
def OpenSince (t₀ sec : ℚ) (b : ReplicaBreaker) : Prop :=
  b.state = .open ∧ b.openedAt = some t₀ ∧ b.openSec = sec

theorem OpenSince.dueForProbe {b : ReplicaBreaker} (h : OpenSince t₀ sec b) (now : ℚ) :
    b.dueForProbe now ↔ t₀ + sec ≤ now := by
  obtain ⟨hs, ht, rfl⟩ := h
  simp only [ReplicaBreaker.dueForProbe, hs, ht, decide_eq_true_eq]
  exact le_sub_iff_add_le'

/-- Until a probe is answered, a breaker stays open as it is. -/
theorem openSince_of_run (h : Run (Guarded (Steps (step rt σ)) fun s e ↦ ¬answers u s e) s es s')
    (hs : OpenSince t₀ sec (s.breaker u)) : OpenSince t₀ sec (s'.breaker u) := by
  apply h.invariant (P := fun s ↦ OpenSince t₀ sec (s.breaker u))
  · rintro s e s' ⟨hstep, ha⟩ ⟨ho, ht, hsec⟩
    have hne : ¬(s.breaker u).state = .closed := by
      rw [ho]
      exact BreakerState.noConfusion
    refine (moves_of_step hstep).breaker_of_not_answers ha (fun outcome now ↦ ?_)
      (fun kind now ↦ ?_) (fun b suspected now hb hc ↦ ?_) ⟨ho, ht, hsec⟩
    · rcases (s.breaker u).fold_trips outcome now with ⟨hsame, -, hat⟩ | ⟨hc, -⟩
      · exact ⟨hsame.trans ho, hat.trans ht, ReplicaBreaker.fold_openSec.trans hsec⟩
      · exact absurd hc hne
    · rcases (s.breaker u).recordFailure_trips kind now with ⟨hsame, -, hat⟩ | ⟨hc, -⟩
      · exact ⟨hsame.trans ho, hat.trans ht, ReplicaBreaker.recordFailure_openSec.trans hsec⟩
      · exact absurd hc hne
    · rw [hb.1] at hc
      cases hc
  · exact hs

/-! ## The configured wait -/

/-- `sec` governs the probes of every outage: after a trip at `t₀` the first of them is due
from `t₀ + sec` on and not before, and after `k` failed ones the wait is `sec * 2 ^ k`,
or the cap. -/
def GovernsProbes (rt : Runtime) (σ : Settings) (sec : ℚ) : Prop :=
  ∀ (urls : List Str) (h : urls ≠ []) (pre : List Event) (s : System) (e : Event) (s' : System)
    (u : Str) (t₀ : ℚ), Runs rt σ (System.start urls h) pre s → Steps (step rt σ) s e s' →
    Trips u t₀ s s' →
      (∀ es s'', Run (Guarded (Steps (step rt σ)) fun s e ↦ ¬answers u s e) s' es s'' →
        ∀ now, (s''.breaker u).dueForProbe now ↔ t₀ + sec ≤ now) ∧
      ∀ es s'', Runs rt σ s' es s'' → (s''.breaker u).state ≠ .closed →
        (s''.breaker u).trips = (s'.breaker u).trips →
        (s''.breaker u).openSec =
          min MAX_OPEN_SEC (sec * 2 ^ tally (step rt σ) (failsProbe u) s' es)

/-- The constant governs them, whatever is configured. -/
theorem governsProbes_initial (rt : Runtime) (σ : Settings) :
    GovernsProbes rt σ INITIAL_OPEN_SEC := by
  rintro urls h pre s e s' u t₀ hpre hs ⟨hc, ho, ht⟩
  have hrated := rated_of_run hpre
  have hmoves := moves_of_step hs
  have hsec : (s'.breaker u).openSec = INITIAL_OPEN_SEC :=
    (hmoves.openSec_of_closed hrated hc).trans (openSec_of_closed hpre hc)
  constructor
  · intro es s'' hr now
    exact (openSince_of_run hr ⟨ho, ht, hsec⟩).dueForProbe now
  · intro es s'' hr hne htrips
    have hrung : (s'.breaker u).OnRung (s'.breaker u).trips 0 :=
      ⟨le_rfl, fun _ _ ↦ hsec.trans rung_zero.symm⟩
    have hend := onRung_of_run hr (hrated.step hmoves) hrung
    rw [Nat.zero_add] at hend
    exact hend.2 htrips hne

/-- A trip at time one, whatever is configured. -/
theorem exists_trips (sec : ℚ) : ∃ pre s e s',
    Runs .sample { Settings.default with breakerOpenSec := sec } sampleSystem pre s ∧
      Steps (step .sample { Settings.default with breakerOpenSec := sec }) s e s' ∧
      Trips sampleUrl 1 s s' := by
  unfold Runs
  rw [step_openSec]
  obtain ⟨s, hr, hs⟩ := Run.exists_of_exec (step .sample .default) sampleSystem
    (sixRefused.take 17)
    (fun s : System ↦ (step .sample .default s
      (.resume 5 (.responded { statusCode := 500 }) 1)).any fun s' : System ↦ decide ((s.breaker sampleUrl).state = .closed ∧
        (s'.breaker sampleUrl).state = .open ∧ (s'.breaker sampleUrl).openedAt = some 1))
    (by decide +kernel)
  obtain ⟨s', hs', htrips⟩ := (Option.any_eq_true _ _).mp hs
  have htrips := of_decide_eq_true htrips
  exact ⟨_, s, _, s', hr, hs', htrips⟩

/-- Two waits that both govern the probes after that trip are the same. -/
theorem eq_initial_of_governsProbes {sec : ℚ}
    (h : GovernsProbes .sample { Settings.default with breakerOpenSec := sec } sec) :
    sec = INITIAL_OPEN_SEC := by
  obtain ⟨pre, s, e, s', hr, hs, htrips⟩ := exists_trips sec
  have hdue := (h _ _ _ _ _ _ _ _ hr hs htrips).1 [] s' (.nil s')
  have hinitial := (governsProbes_initial _ _ _ _ _ _ _ _ _ _ hr hs htrips).1 [] s' (.nil s')
  have hsame : ∀ now, 1 + sec ≤ now ↔ 1 + INITIAL_OPEN_SEC ≤ now :=
    fun now ↦ (hdue now).symm.trans (hinitial now)
  exact add_left_cancel (le_antisymm ((hsame _).mpr le_rfl) ((hsame _).mp le_rfl))

/-- A configured wait governs the probes of the outages of every gateway it is configured for
exactly if it is the constant. -/
theorem governsProbes_iff (sec : ℚ) :
    (∀ (rt : Runtime) (σ : Settings), σ.breakerOpenSec = sec → GovernsProbes rt σ sec) ↔
      sec = INITIAL_OPEN_SEC := by
  constructor
  · intro h
    exact eq_initial_of_governsProbes (h .sample _ rfl)
  · rintro rfl rt σ -
    exact governsProbes_initial rt σ

/-- Thirty seconds are configured: the first probe is due fifteen seconds after the trip. -/
theorem not_governsProbes_thirty :
    (∃ pre s e s',
      Runs .sample { Settings.default with breakerOpenSec := 30 } sampleSystem pre s ∧
        Steps (step .sample { Settings.default with breakerOpenSec := 30 }) s e s' ∧
        Trips sampleUrl 1 s s' ∧ (s'.breaker sampleUrl).dueForProbe 16) ∧
      ¬GovernsProbes .sample { Settings.default with breakerOpenSec := 30 } 30 := by
  constructor
  · obtain ⟨pre, s, e, s', hr, hs, htrips⟩ := exists_trips 30
    have hdue := (governsProbes_initial _ _ _ _ _ _ _ _ _ _ hr hs htrips).1 [] s' (.nil s') 16
    exact ⟨pre, s, e, s', hr, hs, htrips, hdue.mpr (by norm_num [INITIAL_OPEN_SEC])⟩
  · intro h
    have := eq_initial_of_governsProbes h
    norm_num [INITIAL_OPEN_SEC] at this

end System

end InferenceGateway
