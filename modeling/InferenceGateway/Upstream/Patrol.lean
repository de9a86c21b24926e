import InferenceGateway.Upstream.Ladder

/-!
# One replica between the pool and the prober

The requests of the pool and the loop of `_breaker_prober` (`gateway/main.py`) share
the breaker of a replica.  Seen from one replica the loop does one of three things: it
records the verdict of the detector while the replica is in rotation, it starts a probe
once the replica is due for one, and it records the result when that arrives.  Outcomes
of requests arrive at any time, the ones sent before a trip long after it, also while
the prober is suspended in the probe.
-/

namespace InferenceGateway

open Py Transition

/-- A replica's breaker with its history, and since when the prober awaits its probe. -/
structure Patrol where
  log : Logged
  asked : Option ℚ := none

/-- What happens to a replica. -/
inductive Patrol.Event where
  /-- A request ends, in a failure or a success. -/
  | outcome (kind : Option FailureKind) (now : ℚ)
  /-- The prober finds the replica in rotation, and records the verdict of the detector. -/
  | watch (suspected : Bool) (now : ℚ)
  /-- The prober finds the replica due for a probe, and starts it. -/
  | ask (now : ℚ)
  /-- The probe is answered. -/
  | answer (ok suspected : Bool) (now : ℚ)

namespace Patrol

/-- A probe is answered. -/
def Event.isAnswer : Event → Bool
  | .answer _ _ _ => true
  | _ => false

/-- If a probe is answered, it is a good one, and finds no wedge signal live. -/
def Event.Good : Event → Prop
  | .answer ok suspected _ => ok = true ∧ suspected = false
  | _ => True

/-- The breaker. -/
abbrev breaker (p : Patrol) : ReplicaBreaker := p.log.breaker

/-- A fresh breaker. -/
def fresh (url : Str) (n : ℕ) : Patrol := ⟨.fresh url n, none⟩

/-- The call that folds the outcome of a request. -/
def foldCall (kind : Option FailureKind) : Call := kind.elim .success .failure

/-- One step; `none` if the event cannot happen now. -/
def step (p : Patrol) (e : Event) : Option Patrol :=
  match e with
  | .outcome kind now => some { p with log := p.log.push (foldCall kind) now }
  | .watch suspected now =>
    if p.asked = none ∧ p.breaker.state = .closed then
      some { p with log := p.log.push (.wedge suspected) now }
    else none
  | .ask now =>
    if p.asked = none ∧ p.breaker.state ≠ .closed ∧ p.breaker.dueForProbe now then
      some { p with asked := some now }
    else none
  | .answer ok suspected now => match p.asked with
    | none => none
    | some asked =>
      if asked ≤ now then some ⟨p.log.push (.probe ok suspected) now, none⟩ else none

variable {p p' : Patrol} {e : Event} {es : List Event} {n : ℕ} {now : ℚ}

/-- What a step can be. -/
inductive Moves (p : Patrol) : Event → Patrol → Prop
  | outcome (kind : Option FailureKind) (now : ℚ) :
      Moves p (.outcome kind now) { p with log := p.log.push (foldCall kind) now }
  | watch (suspected : Bool) (now : ℚ) : p.asked = none → p.breaker.state = .closed →
      Moves p (.watch suspected now) { p with log := p.log.push (.wedge suspected) now }
  | ask (now : ℚ) : p.asked = none → p.breaker.state ≠ .closed → p.breaker.dueForProbe now →
      Moves p (.ask now) { p with asked := some now }
  | answer {asked : ℚ} (ok suspected : Bool) (now : ℚ) : p.asked = some asked → asked ≤ now →
      Moves p (.answer ok suspected now) ⟨p.log.push (.probe ok suspected) now, none⟩

theorem moves_of_step (h : Steps step p e p') : Moves p e p' := by
  cases e with
  | outcome kind now =>
      cases h
      exact .outcome kind now
  | watch suspected now =>
      simp only [Steps, step] at h
      split at h
      · rename_i hc
        cases h
        exact .watch suspected now hc.1 hc.2
      · cases h
  | ask now =>
      simp only [Steps, step] at h
      split at h
      · rename_i hc
        cases h
        exact .ask now hc.1 hc.2.1 hc.2.2
      · cases h
  | answer ok suspected now =>
      simp only [Steps, step] at h
      split at h
      · cases h
      · rename_i asked ha
        split at h
        · rename_i hle
          cases h
          exact .answer ok suspected now ha hle
        · cases h

theorem foldCall_not_probe (kind : Option FailureKind) : ¬(foldCall kind).isProbe := by
  cases kind <;> exact Bool.false_ne_true

/-! ## The probe that is under way -/

end Patrol

namespace ReplicaBreaker

variable {b : ReplicaBreaker} {now : ℚ}

/-- What the outcome of a request leaves of a replica out of rotation. -/
theorem call_foldCall (hb : b.state ≠ .closed) (kind : Option FailureKind) (now : ℚ) :
    (b.call (Patrol.foldCall kind) now).state = b.state ∧
      (b.call (Patrol.foldCall kind) now).openedAt = b.openedAt ∧
      (b.call (Patrol.foldCall kind) now).openSec = b.openSec ∧
      (b.call (Patrol.foldCall kind) now).goodProbes = b.goodProbes ∧
      (b.call (Patrol.foldCall kind) now).lastProbeAt = b.lastProbeAt := by
  cases kind with
  | none => exact ⟨rfl, rfl, rfl, rfl, rfl⟩
  | some kind =>
      change (b.recordFailure kind now).state = _ ∧ (b.recordFailure kind now).openedAt = _ ∧
        (b.recordFailure kind now).openSec = _ ∧ (b.recordFailure kind now).goodProbes = _ ∧
        (b.recordFailure kind now).lastProbeAt = _
      rcases b.recordFailure_cases kind now with ⟨-, h⟩ | ⟨-, -, h⟩ | ⟨-, hc, -, -⟩
      · rw [h]
        exact ⟨rfl, rfl, rfl, rfl, rfl⟩
      · rw [h]
        exact ⟨rfl, rfl, rfl, rfl, rfl⟩
      · exact absurd hc hb

/-- A request changes nothing about when a replica out of rotation is due. -/
theorem dueForProbe_call (hb : b.state ≠ .closed) (kind : Option FailureKind) (now t : ℚ) :
    (b.call (Patrol.foldCall kind) now).dueForProbe t = b.dueForProbe t := by
  obtain ⟨hs, ho, hw, -, hl⟩ := call_foldCall hb kind now
  unfold dueForProbe
  rw [hs, ho, hw, hl]

/-- Due and open: the wait is over. -/
theorem of_dueForProbe_open (h : b.dueForProbe now) (hb : b.state = .open) :
    ∃ t, b.openedAt = some t ∧ t + b.openSec ≤ now := by
  unfold dueForProbe at h
  rw [hb] at h
  dsimp only at h
  split at h
  · rename_i t ht
    exact ⟨t, ht, by linarith [of_decide_eq_true h]⟩
  · cases h

/-- Due and half open: the last probe is an interval ago. -/
theorem of_dueForProbe_halfOpen (h : b.dueForProbe now) (hb : b.state = .halfOpen) :
    ∀ t ∈ b.lastProbeAt, t + PROBE_INTERVAL_SEC ≤ now := by
  intro t ht
  unfold dueForProbe at h
  rw [hb] at h
  dsimp only at h
  rw [Option.mem_def.mp ht] at h
  linarith [of_decide_eq_true h]

end ReplicaBreaker

namespace Patrol

variable {p p' : Patrol} {e : Event} {es : List Event} {n : ℕ} {now : ℚ}

/-- A probe is only ever under way for a replica out of rotation that was due for it. -/
def Probing (p : Patrol) : Prop :=
  ∀ asked ∈ p.asked, p.breaker.state ≠ .closed ∧ p.breaker.dueForProbe asked

theorem Probing.step (hp : Probing p) (h : Moves p e p') : Probing p' := by
  cases h with
  | outcome kind now =>
      intro asked ha
      obtain ⟨hb, hdue⟩ := hp asked ha
      constructor
      · exact (ReplicaBreaker.call_foldCall hb kind now).1.trans_ne hb
      · exact (ReplicaBreaker.dueForProbe_call hb kind now asked).trans hdue
  | watch suspected now hnone hb =>
      intro asked ha
      rw [show p.asked = none from hnone] at ha
      cases ha
  | ask now hnone hb hdue =>
      intro asked ha
      cases ha
      exact ⟨hb, hdue⟩
  | answer ok suspected now ha hle =>
      intro asked ha'
      cases ha'

/-! ## Two spaced probes -/

/-- The latest probe of the history is `e₁`: a good one, of a breaker that was `OPEN`, and
had been for its wait at least, counted from the trip or bad probe at `t`, the last one
there was. -/
def FirstGood (h : List Entry) (e₁ : Entry) (t : ℚ) : Prop :=
  ∃ later earlier, h = later ++ e₁ :: earlier ∧ (∀ e ∈ later, ¬e.call.isProbe) ∧
    e₁.call = .probe true false ∧ e₁.before.state = .open ∧
    lastOpened earlier = some t ∧ e₁.before.openedAt = some t ∧
    t + e₁.before.openSec ≤ e₁.now

/-- Later requests do not change which probe was the latest. -/
theorem FirstGood.cons {h : List Entry} {e₁ e : Entry} {t : ℚ} (hf : FirstGood h e₁ t)
    (he : ¬e.call.isProbe) : FirstGood (e :: h) e₁ t := by
  obtain ⟨later, earlier, rfl, hlater, hrest⟩ := hf
  refine ⟨e :: later, earlier, rfl, fun e' he' ↦ ?_, hrest⟩
  rcases List.mem_cons.mp he' with rfl | hmem
  · exact he
  · exact hlater e' hmem

/-- When an open breaker was opened, and which probe a half-open one waits on. -/
structure Spaced (n : ℕ) (p : Patrol) : Prop where
  shape : Logged.Shape n p.log
  opened : p.breaker.state = .open → p.breaker.openedAt = lastOpened p.log.entries
  halfOpen : p.breaker.state = .halfOpen →
    ∃ e₁ t, FirstGood p.log.entries e₁ t ∧ p.breaker.lastProbeAt = some e₁.now

theorem Spaced.fresh (hn : 0 < n) (url : Str) : Spaced n (fresh url n) where
  shape := ReplicaBreaker.Shaped.fresh hn url 0
  opened h := by cases h
  halfOpen h := by cases h

theorem lastOpened_push {l : Logged} {c : Call} :
    lastOpened (l.push c now).entries =
      if (l.entry c now).opens || (l.entry c now).badProbe then some now
      else lastOpened l.entries := by
  unfold lastOpened
  rw [Logged.push_entries, List.find?_cons]
  cases (l.entry c now).opens || (l.entry c now).badProbe <;> rfl

/-- A call other than a probe leaves a replica in rotation, or opens it now. -/
theorem openedAt_of_trip (now : ℚ) {b : ReplicaBreaker} {c : Call} (hb : b.state = .closed)
    (hc : ¬c.isProbe) : (b.call c now).state = .closed ∨
      (b.call c now).state = .open ∧ (b.call c now).openedAt = some now := by
  have hfail (b : ReplicaBreaker) (hb : b.state = .closed) (kind : FailureKind) :
      (b.recordFailure kind now).state = .closed ∨
        (b.recordFailure kind now).state = .open ∧
          (b.recordFailure kind now).openedAt = some now := by
    rcases b.recordFailure_cases kind now with ⟨-, h⟩ | ⟨-, -, h⟩ | ⟨-, -, -, h⟩
    · rw [h]
      exact .inl hb
    · rw [h]
      exact .inl hb
    · rw [h]
      exact .inr ⟨rfl, rfl⟩
  cases c with
  | success => exact .inl hb
  | failure kind => exact hfail b hb kind
  | wedge suspected =>
      change (b.recordWedge suspected now).state = _ ∨
        (b.recordWedge suspected now).state = _ ∧ (b.recordWedge suspected now).openedAt = _
      rcases b.recordWedge_cases suspected now with ⟨-, h⟩ | ⟨-, -, h⟩ | ⟨-, -, -, h⟩
      · rw [h]
        exact .inl hb
      · rw [h]
        exact .inl hb
      · rw [h]
        exact hfail { b with wedgeConfirmations := b.wedgeConfirmations + 1 } hb .wedge
  | probe ok suspected => exact absurd rfl hc

/-- In rotation, a call other than a probe keeps the invariant. -/
theorem Spaced.push_closed (hp : Spaced n p) (hn : 0 < n) (hb : p.breaker.state = .closed)
    {c : Call} (hc : ¬c.isProbe) : Spaced n { p with log := p.log.push c now } where
  shape := hp.shape.push hn fun h ↦ absurd h hc
  opened ho := by
    have hopens : (p.log.entry c now).opens = true := by
      change (decide (p.breaker.state = .closed) &&
        decide ((p.breaker.call c now).state = .open)) = true
      have ho' : (p.breaker.call c now).state = .open := ho
      rw [hb, ho']
      rfl
    rcases openedAt_of_trip now hb hc with hcl | ⟨-, hat⟩
    · exact absurd (hcl.symm.trans ho) (by decide)
    · change (p.breaker.call c now).openedAt = lastOpened (p.log.push c now).entries
      rw [lastOpened_push, hopens, hat]
      rfl
  halfOpen hh := by
    rcases openedAt_of_trip now hb hc with hcl | ⟨hop, -⟩
    · exact absurd (hcl.symm.trans hh) (by decide)
    · exact absurd (hop.symm.trans hh) (by decide)

/-- Out of rotation, the outcome of a request changes nothing the invariant speaks of. -/
theorem Spaced.push_outcome (hp : Spaced n p) (hn : 0 < n) (hb : p.breaker.state ≠ .closed)
    (kind : Option FailureKind) :
    Spaced n { p with log := p.log.push (foldCall kind) now } := by
  have hnot := foldCall_not_probe kind
  obtain ⟨hs, ho, -, -, hl⟩ := ReplicaBreaker.call_foldCall hb kind now
  have hlast : lastOpened (p.log.push (foldCall kind) now).entries = lastOpened p.log.entries := by
    have hopens := Logged.opens_of_state_eq hs
    have hbad : (p.log.entry (foldCall kind) now).badProbe = false := by cases kind <;> rfl
    rw [lastOpened_push, hopens, hbad]
    rfl
  refine ⟨hp.shape.push hn fun hc ↦ absurd hc hnot, fun hopen ↦ ?_, fun hhalf ↦ ?_⟩
  · exact ho.trans ((hp.opened (hs.symm.trans hopen)).trans hlast.symm)
  · obtain ⟨e₁, t, hfirst, hat⟩ := hp.halfOpen (hs.symm.trans hhalf)
    exact ⟨e₁, t, hfirst.cons hnot, hl.trans hat⟩

/-- A probe that leaves the breaker `OPEN` was bad, and opens it anew. -/
theorem openedAt_of_bad_probe {b : ReplicaBreaker} {ok suspected : Bool}
    (hopen : (b.recordProbe ok now suspected).state = .open) :
    (!ok || suspected) = true ∧ (b.recordProbe ok now suspected).openedAt = some now := by
  rcases b.recordProbe_cases ok suspected now with ⟨hbad, hr⟩ | ⟨-, -, -, hr⟩ | ⟨-, -, -, hr⟩
  · rw [hr]
    rcases hbad with rfl | rfl
    · exact ⟨rfl, rfl⟩
    · exact ⟨Bool.or_true _, rfl⟩
  · rw [hr] at hopen
    cases hopen
  · rw [hr] at hopen
    cases hopen

/-- A probe that leaves the breaker `HALF_OPEN` was the first good one, of an `OPEN`
breaker. -/
theorem Spaced.of_halfOpen (hp : Spaced n p) {ok suspected : Bool} (hb : p.breaker.state ≠ .closed)
    (hhalf : (p.breaker.recordProbe ok now suspected).state = .halfOpen) :
    ok = true ∧ suspected = false ∧ p.breaker.state = .open ∧
      (p.breaker.recordProbe ok now suspected).lastProbeAt = some now := by
  rcases p.breaker.recordProbe_cases ok suspected now with
    ⟨-, hr⟩ | ⟨hok, hs, hfew, hr⟩ | ⟨-, -, -, hr⟩
  · rw [hr] at hhalf
    cases hhalf
  · refine ⟨hok, hs, ?_, by rw [hr]⟩
    cases hstate : p.breaker.state with
    | closed => exact absurd hstate hb
    | «open» => rfl
    | halfOpen =>
        have hpos : 0 < p.breaker.goodProbes := (hp.shape.halfOpen hstate).1
        have htwo : p.breaker.goodProbes + 1 < 2 := hfew
        omega
  · rw [hr] at hhalf
    cases hhalf

/-- A probe that was due when it was sent. -/
theorem Spaced.push_probe (hp : Spaced n p) (hn : 0 < n) (hb : p.breaker.state ≠ .closed)
    {asked : ℚ} (hdue : p.breaker.dueForProbe asked) (hle : asked ≤ now) (ok suspected : Bool) :
    Spaced n { p with log := p.log.push (.probe ok suspected) now, asked := none } where
  shape := hp.shape.push hn fun _ ↦ hb
  opened hopen := by
    obtain ⟨hbad, hat⟩ := openedAt_of_bad_probe (b := p.breaker) hopen
    have hlast : lastOpened (p.log.push (.probe ok suspected) now).entries = some now := by
      rw [lastOpened_push]
      exact if_pos (Bool.or_eq_true_iff.mpr (.inr hbad))
    exact hat.trans hlast.symm
  halfOpen hhalf := by
    obtain ⟨rfl, rfl, hopen, hlast⟩ := hp.of_halfOpen hb hhalf
    obtain ⟨t, hat, hwait⟩ := ReplicaBreaker.of_dueForProbe_open hdue hopen
    refine ⟨p.log.entry (.probe true false) now, t, ⟨[], p.log.entries, rfl, ?_, rfl, hopen, ?_⟩,
      hlast⟩
    · intro e he
      cases he
    · exact ⟨(hp.opened hopen).symm.trans hat, hat, hwait.trans hle⟩

theorem Spaced.step (hp : Spaced n p) (hprobing : Probing p) (hn : 0 < n) (h : Moves p e p') :
    Spaced n p' := by
  cases h with
  | outcome kind now =>
      by_cases hb : p.breaker.state = .closed
      · exact hp.push_closed hn hb (foldCall_not_probe kind)
      · exact hp.push_outcome hn hb kind
  | watch suspected now hnone hb => exact hp.push_closed hn hb Bool.false_ne_true
  | ask now hnone hb hdue => exact ⟨hp.shape, hp.opened, hp.halfOpen⟩
  | @answer asked ok suspected now ha hle =>
      obtain ⟨hb, hdue⟩ := hprobing asked ha
      exact hp.push_probe hn hb hdue hle ok suspected

/-- A replica comes back into rotation by a good probe, the second in a row, and both have
kept their distance. -/
theorem Spaced.of_close (hp : Spaced n p) (hprobing : Probing p) (h : Moves p e p')
    (hb : p.breaker.state ≠ .closed) (hc : p'.breaker.state = .closed) :
    ∃ now, e = .answer true false now ∧
      ∃ e₁ t, FirstGood p.log.entries e₁ t ∧ e₁.now + PROBE_INTERVAL_SEC ≤ now := by
  cases h with
  | outcome kind now =>
      have hs := (ReplicaBreaker.call_foldCall hb kind now).1
      exact absurd (hs.symm.trans hc) hb
  | watch suspected now hnone hcl => exact absurd hcl hb
  | ask now hnone hb' hdue => exact absurd hc hb
  | @answer asked ok suspected now ha hle =>
      change (p.breaker.recordProbe ok now suspected).state = .closed at hc
      rcases p.breaker.recordProbe_cases ok suspected now with
        ⟨-, hr⟩ | ⟨-, -, -, hr⟩ | ⟨rfl, rfl, hmany, -⟩
      · rw [hr] at hc
        cases hc
      · rw [hr] at hc
        cases hc
      · refine ⟨now, rfl, ?_⟩
        have htwo : 2 ≤ p.breaker.goodProbes + 1 := hmany
        have hhalf : p.breaker.state = .halfOpen := by
          cases hs : p.breaker.state with
          | closed => exact absurd hs hb
          | «open» =>
              have hzero : p.breaker.goodProbes = 0 := (hp.shape.opened hs).2
              omega
          | halfOpen => rfl
        obtain ⟨e₁, t, hfirst, hat⟩ := hp.halfOpen hhalf
        have hdue := ReplicaBreaker.of_dueForProbe_halfOpen (hprobing asked ha).2 hhalf
        exact ⟨e₁, t, hfirst, (hdue _ hat).trans hle⟩

/-- Out of rotation, and with none but good probes, a step counts a probe or closes. -/
theorem goodProbes_of_moves (hb : p.breaker.state ≠ .closed) (h : Moves p e p') (hgood : e.Good)
    (hb' : p'.breaker.state ≠ .closed) :
    p'.breaker.goodProbes = p.breaker.goodProbes + e.isAnswer.toNat := by
  cases h with
  | outcome kind now => exact (ReplicaBreaker.call_foldCall hb kind now).2.2.2.1
  | watch suspected now hnone hcl => exact absurd hcl hb
  | ask now hnone _ hdue => rfl
  | @answer asked ok suspected now ha hle =>
      obtain ⟨rfl, rfl⟩ := hgood
      change (p.breaker.recordProbe true now false).state ≠ .closed at hb'
      change (p.breaker.recordProbe true now false).goodProbes = _
      rcases p.breaker.recordProbe_cases true false now with
        ⟨hbad, -⟩ | ⟨-, -, -, hr⟩ | ⟨-, -, -, hr⟩
      · rcases hbad with hbad | hbad <;> cases hbad
      · rw [hr]
        rfl
      · rw [hr] at hb'
        exact absurd rfl hb'

/-- Two good probes in a row, this one and the ones counted so far included, lead back
into rotation. -/
theorem closes_of_good {q : Patrol} (hp : Spaced n p) (hprobing : Probing p) (hn : 0 < n)
    (hb : p.breaker.state ≠ .closed) (hr : Run (Steps step) p es q) (hgood : ∀ e ∈ es, e.Good)
    (hcount : PROBES_TO_CLOSE ≤ p.breaker.goodProbes + es.countP Event.isAnswer) :
    ∃ es₁ es₂ q', es = es₁ ++ es₂ ∧ Run (Steps step) p es₁ q' ∧ q'.breaker.state = .closed := by
  induction hr with
  | nil p =>
      have hfew : p.breaker.goodProbes < PROBES_TO_CLOSE := by
        cases hs : p.breaker.state with
        | closed => exact absurd hs hb
        | «open» => rw [(hp.shape.opened hs).2]; decide
        | halfOpen => exact (hp.shape.halfOpen hs).2.1
      exact absurd hcount (not_le.mpr hfew)
  | @cons p p₁ q e es hs hr ih =>
      have hm := moves_of_step hs
      by_cases hb₁ : p₁.breaker.state = .closed
      · exact ⟨[e], es, p₁, rfl, .single hs, hb₁⟩
      · have hgood₁ := goodProbes_of_moves hb hm (hgood e List.mem_cons_self) hb₁
        rw [List.countP_cons] at hcount
        have hcount₁ : PROBES_TO_CLOSE ≤ p₁.breaker.goodProbes + es.countP Event.isAnswer := by
          rw [hgood₁]
          cases h : e.isAnswer <;> rw [h] at hcount <;> simp at hcount ⊢ <;> omega
        obtain ⟨es₁, es₂, q', rfl, hrun, hcl⟩ := ih (hp.step hprobing hn hm) (hprobing.step hm) hb₁
          (fun e he ↦ hgood e (List.mem_cons_of_mem _ he)) hcount₁
        exact ⟨e :: es₁, es₂, q', rfl, .cons hs hrun, hcl⟩

theorem spaced_of_run (hn : 0 < n) {url : Str} (h : Run (Steps step) (fresh url n) es p) :
    Probing p ∧ Spaced n p := by
  refine h.invariant (P := fun p ↦ Probing p ∧ Spaced n p) ?_
    ⟨fun asked ha ↦ (by cases ha), .fresh hn url⟩
  intro p e p' hs hp
  have hm := moves_of_step hs
  exact ⟨hp.1.step hm, hp.2.step hp.1 hn hm⟩

/-- Reclose only on two spaced good probes.  In every run of the prober over a replica,
with outcomes of requests in between: the outcome of a request never changes the state of
a breaker out of rotation; a step that brings the replica back is the answer to a good
probe that finds no wedge signal live, the latest probe before it was such a one too, of
an `OPEN` breaker after its wait, and the two are an interval apart, so that wait and
interval lie between the last opening and the close; and any two good probes in a row
bring the replica back. -/
theorem recloses_on_two_probes (url : Str) (n : ℕ) (hn : 0 < n) (es : List Event) (p : Patrol)
    (h : Run (Steps step) (fresh url n) es p) (hb : p.breaker.state ≠ .closed) :
    (∀ kind now p', step p (.outcome kind now) = some p' →
      p'.breaker.state = p.breaker.state) ∧
    (∀ e p', step p e = some p' → p'.breaker.state = .closed →
      ∃ now, e = .answer true false now ∧ ∃ e₁ t, FirstGood p.log.entries e₁ t ∧
        e₁.now + PROBE_INTERVAL_SEC ≤ now ∧
        t + e₁.before.openSec + PROBE_INTERVAL_SEC ≤ now) ∧
    (∀ es' q, Run (Steps step) p es' q → (∀ e ∈ es', e.Good) →
      PROBES_TO_CLOSE ≤ es'.countP Event.isAnswer →
      ∃ es₁ es₂ q', es' = es₁ ++ es₂ ∧ Run (Steps step) p es₁ q' ∧
        q'.breaker.state = .closed) := by
  obtain ⟨hprobing, hspaced⟩ := spaced_of_run hn h
  refine ⟨fun kind now p' hs ↦ ?_, fun e p' hs hc ↦ ?_, fun es' q hr hgood hcount ↦ ?_⟩
  · cases hs
    exact (ReplicaBreaker.call_foldCall hb kind now).1
  · obtain ⟨now, rfl, e₁, t, hfirst, hgap⟩ :=
      hspaced.of_close hprobing (moves_of_step hs) hb hc
    obtain ⟨later, earlier, hsplit, hlater, hcall, hopen, hlast, hat, hwait⟩ := hfirst
    exact ⟨now, rfl, e₁, t, ⟨later, earlier, hsplit, hlater, hcall, hopen, hlast, hat, hwait⟩,
      hgap, by linarith⟩
  · exact closes_of_good hspaced hprobing hn hb hr hgood (hcount.trans (Nat.le_add_left _ _))

/-- A trip, and a first good probe while the outcome of an earlier request comes in. -/
def returning : List Event :=
  [.outcome (some .connect) 0, .outcome (some .connect) 1, .ask 16,
    .outcome (some .serverError) 17, .answer true false 18]

theorem recloses_on_two_probes_returning :
    ∃ p, Run (Steps step) (fresh (str "r") TRIP_SCORE) returning p ∧
      ∀ es' q, Run (Steps step) p es' q → (∀ e ∈ es', e.Good) →
        PROBES_TO_CLOSE ≤ es'.countP Event.isAnswer →
        ∃ es₁ es₂ q', es' = es₁ ++ es₂ ∧ Run (Steps step) p es₁ q' ∧
          q'.breaker.state = .closed := by
  obtain ⟨p, hr, hp⟩ := Run.exists_of_exec step (fresh (str "r") TRIP_SCORE) returning
    (fun p ↦ decide (p.breaker.state ≠ .closed)) (by decide +kernel)
  have h := recloses_on_two_probes (str "r") TRIP_SCORE (by decide) returning p hr
    (of_decide_eq_true hp)
  exact ⟨p, hr, h.2.2⟩

end Patrol

end InferenceGateway
