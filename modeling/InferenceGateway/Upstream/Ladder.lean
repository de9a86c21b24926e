import InferenceGateway.Upstream.History
import Mathlib.Tactic.Linarith

/-!
# The shape of a breaker

Which fields are set in which state, how long the breaker waits before the next probe,
and how often it has tripped.  `Shaped` is the invariant, with the two counts of the
history as parameters; it holds for every sequence of calls the pool and the prober
make, in any order of times.
-/

namespace InferenceGateway

open Py Transition

/-- The wait before the next probe, after `k` bad ones. -/
def rung (k : ℕ) : ℚ := min MAX_OPEN_SEC (INITIAL_OPEN_SEC * 2 ^ k)

theorem rung_zero : rung 0 = INITIAL_OPEN_SEC := by
  norm_num [rung, MAX_OPEN_SEC, INITIAL_OPEN_SEC]

/-- Doubling and capping leads to the next rung. -/
theorem rung_succ (k : ℕ) : rung (k + 1) = min (rung k * 2) MAX_OPEN_SEC := by
  have hdouble : INITIAL_OPEN_SEC * 2 ^ (k + 1) = INITIAL_OPEN_SEC * 2 ^ k * 2 := by ring
  have hcap : MAX_OPEN_SEC ≤ MAX_OPEN_SEC * 2 := by norm_num [MAX_OPEN_SEC]
  rw [rung, rung, hdouble, min_mul_of_nonneg _ _ (by norm_num), min_right_comm,
    min_eq_right hcap, min_comm]

namespace ReplicaBreaker

/-- Which fields go with which state, after `k` bad probes since the replica left
rotation, and `t` trips. -/
structure Shaped (n k t : ℕ) (b : ReplicaBreaker) : Prop where
  tripScore : b.tripScore = n
  closed : b.state = .closed →
    b.openedAt = none ∧ b.goodProbes = 0 ∧ b.openSec = INITIAL_OPEN_SEC ∧ b.score < n
  opened : b.state = .open → b.openedAt.isSome ∧ b.goodProbes = 0
  halfOpen : b.state = .halfOpen →
    0 < b.goodProbes ∧ b.goodProbes < PROBES_TO_CLOSE ∧ b.lastProbeAt.isSome
  ladder : b.state ≠ .closed → b.openSec = rung k
  trips : b.trips = t

variable {b : ReplicaBreaker} {n k t m : ℕ} {kind : FailureKind} {now : ℚ} {ok suspected : Bool}

theorem Shaped.fresh (hn : 0 < n) (url : Str) (k : ℕ) :
    Shaped n k 0 { url, tripScore := n } where
  tripScore := rfl
  closed _ := ⟨rfl, rfl, rfl, hn⟩
  opened h := by cases h
  halfOpen h := by cases h
  ladder h := absurd rfl h
  trips := rfl

theorem Shaped.recordSuccess (h : Shaped n k t b) (hn : 0 < n) : Shaped n k t b.recordSuccess where
  tripScore := h.tripScore
  closed hb := ⟨(h.closed hb).1, (h.closed hb).2.1, (h.closed hb).2.2.1, hn⟩
  opened := h.opened
  halfOpen := h.halfOpen
  ladder := h.ladder
  trips := h.trips

/-- The count of confirmations plays no part. -/
theorem Shaped.confirmations (h : Shaped n k t b) (m : ℕ) :
    Shaped n k t { b with wedgeConfirmations := m } :=
  ⟨h.tripScore, h.closed, h.opened, h.halfOpen, h.ladder, h.trips⟩

/-- A failure that does not trip only raises the score, in rotation up to the threshold. -/
theorem Shaped.addScore (h : Shaped n k t b)
    (hlow : b.state = .closed → b.score + m < n) : Shaped n k t (b.addScore m) where
  tripScore := h.tripScore
  closed hb := ⟨(h.closed hb).1, (h.closed hb).2.1, (h.closed hb).2.2.1, hlow hb⟩
  opened := h.opened
  halfOpen := h.halfOpen
  ladder := h.ladder
  trips := h.trips

/-- A trip starts the ladder at its first rung. -/
theorem Shaped.trip (h : Shaped n k t b) (hb : b.state = .closed) (m : ℕ) (now : ℚ) :
    Shaped n 0 (t + 1) ((b.addScore m).openBreaker now) where
  tripScore := h.tripScore
  closed hc := by cases hc
  opened _ := ⟨rfl, rfl⟩
  halfOpen hc := by cases hc
  ladder _ := (h.closed hb).2.2.1.trans rung_zero.symm
  trips := congrArg (· + 1) h.trips

/-- A failure trips the breaker, or leaves its state alone. -/
theorem Shaped.recordFailure (h : Shaped n k t b) (hn : 0 < n) (kind : FailureKind) (now : ℚ) :
    ((b.recordFailure kind now).state = b.state ∧ Shaped n k t (b.recordFailure kind now)) ∨
      (b.state = .closed ∧ (b.recordFailure kind now).state = .open ∧
        Shaped n 0 (t + 1) (b.recordFailure kind now)) := by
  rcases b.recordFailure_cases kind now with ⟨-, hr⟩ | ⟨-, hlow, hr⟩ | ⟨-, hb, -, hr⟩
  · rw [hr]
    exact .inl ⟨rfl, h⟩
  · rw [hr]
    refine .inl ⟨rfl, h.addScore fun hb ↦ ?_⟩
    have hle : b.threshold now ≤ n := h.tripScore ▸ threshold_le (h.tripScore.symm ▸ hn)
    have hlt : b.score + kind.weight < b.threshold now := not_le.mp fun hge ↦ hlow ⟨hb, hge⟩
    exact lt_of_lt_of_le hlt hle
  · rw [hr]
    exact .inr ⟨hb, rfl, h.trip hb kind.weight now⟩

/-- So does the verdict of the detector. -/
theorem Shaped.recordWedge (h : Shaped n k t b) (hn : 0 < n) (suspected : Bool) (now : ℚ) :
    ((b.recordWedge suspected now).state = b.state ∧ Shaped n k t (b.recordWedge suspected now)) ∨
      (b.state = .closed ∧ (b.recordWedge suspected now).state = .open ∧
        Shaped n 0 (t + 1) (b.recordWedge suspected now)) := by
  rcases b.recordWedge_cases suspected now with ⟨-, hr⟩ | ⟨-, -, hr⟩ | ⟨-, -, -, hr⟩
  · rw [hr]
    exact .inl ⟨rfl, h.confirmations 0⟩
  · rw [hr]
    exact .inl ⟨rfl, h.confirmations _⟩
  · rw [hr]
    exact (h.confirmations _).recordFailure hn .wedge now

/-- A bad probe is one rung up; a good one leads to a close, or towards it. -/
theorem Shaped.recordProbe (h : Shaped n k t b) (hn : 0 < n) (hb : b.state ≠ .closed)
    (ok suspected : Bool) (now : ℚ) :
    Shaped n ((!ok || suspected).toNat + k) t (b.recordProbe ok now suspected) := by
  rcases b.recordProbe_cases ok suspected now with ⟨hbad, hr⟩ | ⟨rfl, rfl, hfew, hr⟩ | ⟨rfl, rfl, -, hr⟩
  · have hcount : (!ok || suspected).toNat = 1 := by
      rcases hbad with rfl | rfl
      · rfl
      · rw [Bool.or_true]
        rfl
    rw [hcount, Nat.add_comm, hr]
    exact
      { tripScore := h.tripScore
        closed := fun hc ↦ by cases hc
        opened := fun _ ↦ ⟨rfl, rfl⟩
        halfOpen := fun hc ↦ by cases hc
        ladder := fun _ ↦ by rw [rung_succ, ← h.ladder hb]
        trips := h.trips }
  · rw [hr]
    exact
      { tripScore := h.tripScore
        closed := fun hc ↦ by cases hc
        opened := fun hc ↦ by cases hc
        halfOpen := fun _ ↦ ⟨Nat.succ_pos _, hfew, rfl⟩
        ladder := fun _ ↦ (h.ladder hb).trans (congrArg rung (Nat.zero_add k).symm)
        trips := h.trips }
  · rw [hr]
    exact
      { tripScore := h.tripScore
        closed := fun _ ↦ ⟨rfl, rfl, rfl, hn⟩
        opened := fun hc ↦ by cases hc
        halfOpen := fun hc ↦ by cases hc
        ladder := fun hc ↦ absurd rfl hc
        trips := h.trips }

end ReplicaBreaker

namespace Logged

variable {l : Logged} {c : Call} {now : ℚ} {n : ℕ}

/-- The shape of a breaker, with the counts of its history. -/
def Shape (n : ℕ) (l : Logged) : Prop :=
  l.breaker.Shaped n (failedProbes l.entries) (tripCount l.entries)

/-- A call that does not open counts its probe, if it is a bad one. -/
theorem counts_of_not_opens (ho : (l.entry c now).opens = false) :
    failedProbes (l.push c now).entries = (l.entry c now).badProbe.toNat + failedProbes l.entries ∧
      tripCount (l.push c now).entries = tripCount l.entries := by
  rw [push_entries, failedProbes_cons, tripCount_cons, ho]
  exact ⟨rfl, rfl⟩

/-- A call that opens is one more trip, and the count of bad probes starts over. -/
theorem counts_of_opens (ho : (l.entry c now).opens = true) :
    failedProbes (l.push c now).entries = 0 ∧
      tripCount (l.push c now).entries = tripCount l.entries + 1 := by
  rw [push_entries, failedProbes_cons, tripCount_cons, ho]
  exact ⟨rfl, rfl⟩

/-- Only a change of state opens. -/
theorem opens_of_state_eq (h : (l.breaker.call c now).state = l.breaker.state) :
    (l.entry c now).opens = false := by
  change (decide (l.breaker.state = .closed) &&
    decide ((l.breaker.call c now).state = .open)) = false
  rw [h]
  cases l.breaker.state <;> rfl

theorem Shape.of_trips (hc : (l.entry c now).badProbe = false)
    (h : ((l.breaker.call c now).state = l.breaker.state ∧
        (l.breaker.call c now).Shaped n (failedProbes l.entries) (tripCount l.entries)) ∨
      (l.breaker.state = .closed ∧ (l.breaker.call c now).state = .open ∧
        (l.breaker.call c now).Shaped n 0 (tripCount l.entries + 1))) :
    Shape n (l.push c now) := by
  unfold Shape
  rcases h with ⟨hs, h⟩ | ⟨hb, hs, h⟩
  · obtain ⟨hk, ht⟩ := counts_of_not_opens (opens_of_state_eq hs)
    rw [hk, ht, hc, Bool.toNat_false, Nat.zero_add]
    exact h
  · have ho : (l.entry c now).opens = true := by
      change (decide (l.breaker.state = .closed) &&
        decide ((l.breaker.call c now).state = .open)) = true
      rw [hb, hs]
      rfl
    obtain ⟨hk, ht⟩ := counts_of_opens ho
    rw [hk, ht]
    exact h

theorem Shape.push (h : Shape n l) (hn : 0 < n) (hc : c.isProbe → l.breaker.state ≠ .closed) :
    Shape n (l.push c now) := by
  cases c with
  | success => exact .of_trips rfl (.inl ⟨rfl, h.recordSuccess hn⟩)
  | failure kind => exact .of_trips rfl (h.recordFailure hn kind now)
  | wedge suspected => exact .of_trips rfl (h.recordWedge hn suspected now)
  | probe ok suspected =>
      have hb := hc rfl
      have ho : (l.entry (.probe ok suspected) now).opens = false := by
        change (decide (l.breaker.state = .closed) && _) = false
        rw [decide_eq_false hb, Bool.false_and]
      obtain ⟨hk, ht⟩ := counts_of_not_opens ho
      unfold Shape
      rw [hk, ht]
      exact h.recordProbe hn hb ok suspected now

theorem shape_of_run (hn : 0 < n) {url : Str} {cs : List (Call × ℚ)}
    (h : Run (Steps step) (.fresh url n) cs l) : Shape n l := by
  refine h.invariant (P := Shape n) ?_ (ReplicaBreaker.Shaped.fresh hn url 0)
  intro l c l' hs hl
  obtain ⟨hc, rfl⟩ := of_step hs
  exact hl.push hn hc

/-- After any calls made to a fresh breaker: in rotation nothing is left of an outage;
out of rotation the fields the prober reads are set, and the wait has doubled, up to its
cap, with every bad probe since the replica left rotation; and the trips are the
transitions out of rotation. -/
theorem ladder (url : Str) (n : ℕ) (hn : 0 < n) (cs : List (Call × ℚ)) (l : Logged)
    (h : Run (Steps step) (.fresh url n) cs l) :
    (l.breaker.state = .closed →
      l.breaker.openedAt = none ∧ l.breaker.goodProbes = 0 ∧
        l.breaker.openSec = INITIAL_OPEN_SEC ∧ l.breaker.score < l.breaker.tripScore) ∧
    (l.breaker.state = .open → l.breaker.openedAt.isSome ∧ l.breaker.goodProbes = 0) ∧
    (l.breaker.state = .halfOpen →
      0 < l.breaker.goodProbes ∧ l.breaker.goodProbes < PROBES_TO_CLOSE ∧
        l.breaker.lastProbeAt.isSome) ∧
    (l.breaker.state ≠ .closed →
      l.breaker.openSec = min MAX_OPEN_SEC (INITIAL_OPEN_SEC * 2 ^ failedProbes l.entries)) ∧
    l.breaker.trips = tripCount l.entries := by
  have hs := shape_of_run hn h
  refine ⟨fun hb ↦ ?_, hs.opened, hs.halfOpen, hs.ladder, hs.trips⟩
  rw [hs.tripScore]
  exact hs.closed hb

/-- A trip, a bad probe and two good ones. -/
def recovering : List (Call × ℚ) :=
  [(.failure .connect, 0), (.failure .connect, 1), (.probe false false, 16),
    (.probe true false, 46), (.probe true false, 51)]

theorem ladder_recovering :
    ∃ l, Run (Steps step) (.fresh (str "r") TRIP_SCORE) (recovering.take 4) l ∧
      l.breaker.openSec = min MAX_OPEN_SEC (INITIAL_OPEN_SEC * 2 ^ failedProbes l.entries) := by
  obtain ⟨l, hr, hl⟩ := Run.exists_of_exec step (.fresh (str "r") TRIP_SCORE) (recovering.take 4)
    (fun l ↦ decide (l.breaker.state ≠ .closed)) (by decide +kernel)
  have hladder := ladder (str "r") TRIP_SCORE (by decide) (recovering.take 4) l hr
  exact ⟨l, hr, hladder.2.2.2.1 (of_decide_eq_true hl)⟩

/-- Back in rotation after a bad probe, the wait is the initial one, not the one the bad
probe had led to. -/
theorem ladder_starts_over :
    ∃ l, Run (Steps step) (.fresh (str "r") TRIP_SCORE) recovering l ∧
      l.breaker.state = .closed ∧ failedProbes l.entries = 1 ∧
      l.breaker.openSec ≠ min MAX_OPEN_SEC (INITIAL_OPEN_SEC * 2 ^ failedProbes l.entries) := by
  obtain ⟨l, hr, hl⟩ := Run.exists_of_exec step (.fresh (str "r") TRIP_SCORE) recovering
    (fun l ↦ decide (l.breaker.state = .closed ∧ failedProbes l.entries = 1 ∧
      l.breaker.openSec ≠ min MAX_OPEN_SEC (INITIAL_OPEN_SEC * 2 ^ failedProbes l.entries)))
    (by decide +kernel)
  exact ⟨l, hr, of_decide_eq_true hl⟩

end Logged

end InferenceGateway
