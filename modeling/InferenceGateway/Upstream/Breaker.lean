import InferenceGateway.Config
import InferenceGateway.Python.Dict

/-!
# The circuit breaker of one replica

`gateway/upstream/breaker.py`.  The clock is an argument of every operation, as in
the source.  The label that only log lines carry is left out.

Each operation is followed by what the rest of the development uses of it, so that
no later proof has to unfold it.
-/

namespace InferenceGateway

open Py

/-- `BreakerState`. -/
inductive BreakerState where
  | closed
  | open
  | halfOpen
  deriving DecidableEq, Repr

/-- `FailureKind`. -/
inductive FailureKind where
  | connect
  | readTimeout
  | serverError
  | throttled
  | clientError
  | wedge
  deriving DecidableEq, Repr

/-- `WEIGHTS`. -/
def FailureKind.weight : FailureKind → ℕ
  | .connect => 3
  | .readTimeout => 3
  | .serverError => 1
  | .throttled => 0
  | .clientError => 0
  | .wedge => 6

/-- `TRIP_SCORE`. -/
def TRIP_SCORE : ℕ := 6
/-- `INITIAL_OPEN_SEC`. -/
def INITIAL_OPEN_SEC : ℚ := 15
/-- `MAX_OPEN_SEC`. -/
def MAX_OPEN_SEC : ℚ := 60
/-- `PROBE_INTERVAL_SEC`. -/
def PROBE_INTERVAL_SEC : ℚ := 5
/-- `PROBES_TO_CLOSE`. -/
def PROBES_TO_CLOSE : ℕ := 2
/-- `PROBATION_SEC`. -/
def PROBATION_SEC : ℚ := 60

/-- `ReplicaBreaker`, with the defaults of the dataclass. -/
structure ReplicaBreaker where
  url : Str
  tripScore : ℕ := TRIP_SCORE
  state : BreakerState := .closed
  score : ℕ := 0
  openedAt : Option ℚ := none
  openSec : ℚ := INITIAL_OPEN_SEC
  goodProbes : ℕ := 0
  lastProbeAt : Option ℚ := none
  probationUntil : ℚ := 0
  wedgeConfirmations : ℕ := 0
  trips : ℕ := 0
  deriving DecidableEq

namespace ReplicaBreaker

/-- `threshold`: half of the trip score on probation, at least one. -/
def threshold (b : ReplicaBreaker) (now : ℚ) : ℕ :=
  if now < b.probationUntil then max 1 (b.tripScore / 2) else b.tripScore

/-- `allows`: routing admits `CLOSED` only. -/
def allows (b : ReplicaBreaker) : Bool := b.state = .closed

/-- `record_success`. -/
def recordSuccess (b : ReplicaBreaker) : ReplicaBreaker :=
  { b with score := 0, wedgeConfirmations := 0 }

/-- `_open`. -/
def openBreaker (b : ReplicaBreaker) (now : ℚ) : ReplicaBreaker :=
  { b with
    state := .open
    openedAt := some now
    goodProbes := 0
    lastProbeAt := none
    trips := b.trips + 1 }

/-- `self.score += weight`. -/
def addScore (b : ReplicaBreaker) (weight : ℕ) : ReplicaBreaker :=
  { b with score := b.score + weight }

/-- `record_failure`. -/
def recordFailure (b : ReplicaBreaker) (kind : FailureKind) (now : ℚ) : ReplicaBreaker :=
  if kind.weight = 0 then b
  else
    let b := b.addScore kind.weight
    if b.state = .closed ∧ b.threshold now ≤ b.score then b.openBreaker now else b

/-- `record_wedge`. -/
def recordWedge (b : ReplicaBreaker) (suspected : Bool) (now : ℚ) : ReplicaBreaker :=
  if ¬suspected then { b with wedgeConfirmations := 0 }
  else
    let b := { b with wedgeConfirmations := b.wedgeConfirmations + 1 }
    if b.wedgeConfirmations = 1 then b
    else if b.state = .closed then b.recordFailure .wedge now
    else b

/-- `due_for_probe`. -/
def dueForProbe (b : ReplicaBreaker) (now : ℚ) : Bool :=
  match b.state with
  | .closed => false
  | .open => match b.openedAt with
    | some t => b.openSec ≤ now - t
    | none => false
  | .halfOpen => match b.lastProbeAt with
    | some t => PROBE_INTERVAL_SEC ≤ now - t
    | none => true

/-- `_close`. -/
def closeBreaker (b : ReplicaBreaker) (now : ℚ) : ReplicaBreaker :=
  { b with
    state := .closed
    score := 0
    goodProbes := 0
    openedAt := none
    openSec := INITIAL_OPEN_SEC
    wedgeConfirmations := 0
    probationUntil := now + PROBATION_SEC }

/-- `record_probe`. -/
def recordProbe (b : ReplicaBreaker) (ok : Bool) (now : ℚ) (wedgeSuspected : Bool) :
    ReplicaBreaker :=
  let b := { b with lastProbeAt := some now }
  if ¬ok ∨ wedgeSuspected then
    { b with
      goodProbes := 0
      state := .open
      openedAt := some now
      openSec := min (b.openSec * 2) MAX_OPEN_SEC }
  else
    let b := { b with state := .halfOpen, goodProbes := b.goodProbes + 1 }
    if PROBES_TO_CLOSE ≤ b.goodProbes then b.closeBreaker now else b

/-- `seconds_until_probe`. -/
def secondsUntilProbe (b : ReplicaBreaker) (now : ℚ) : ℚ :=
  match b.state, b.openedAt, b.lastProbeAt with
  | .closed, _, _ => 0
  | .open, some t, _ => max 0 (b.openSec - (now - t))
  | _, _, some t => max 0 (PROBE_INTERVAL_SEC - (now - t))
  | _, _, none => 0

variable {b : ReplicaBreaker} {kind : FailureKind} {now : ℚ} {suspected : Bool}

@[simp] theorem recordSuccess_state : b.recordSuccess.state = b.state := rfl
@[simp] theorem recordSuccess_score : b.recordSuccess.score = 0 := rfl
@[simp] theorem openBreaker_state : (b.openBreaker now).state = .open := rfl
@[simp] theorem addScore_state {w : ℕ} : (b.addScore w).state = b.state := rfl
@[simp] theorem addScore_score {w : ℕ} : (b.addScore w).score = b.score + w := rfl
@[simp] theorem addScore_threshold {w : ℕ} : (b.addScore w).threshold now = b.threshold now := rfl

/-- A failure of no weight is ignored. -/
@[simp] theorem recordFailure_of_weight_zero (h : kind.weight = 0) :
    b.recordFailure kind now = b := by
  simp [recordFailure, h]

/-- What a failure does to a `CLOSED` breaker: it adds its weight, and opens the
breaker when the sum reaches the threshold in force. -/
theorem recordFailure_closed (kind : FailureKind) (now : ℚ) (h : b.state = .closed) :
    ((b.recordFailure kind now).state = .closed ∧
      (b.recordFailure kind now).score = b.score + kind.weight ∧
      (b.score + kind.weight < b.threshold now ∨ kind.weight = 0)) ∨
    ((b.recordFailure kind now).state = .open ∧ kind.weight ≠ 0 ∧
      b.threshold now ≤ b.score + kind.weight) := by
  by_cases hw : kind.weight = 0
  · rw [recordFailure_of_weight_zero hw]
    exact .inl ⟨h, by rw [hw, add_zero], .inr hw⟩
  · by_cases ht : b.threshold now ≤ b.score + kind.weight
    · exact .inr ⟨by simp [recordFailure, hw, h, ht], hw, ht⟩
    · exact .inl ⟨by simp [recordFailure, hw, h, ht], by simp [recordFailure, hw, ht],
        .inl (not_le.mp ht)⟩

/-- A failure of a replica that is out of rotation only counts. -/
theorem recordFailure_state_of_not_closed (h : b.state ≠ .closed) :
    (b.recordFailure kind now).state = b.state := by
  unfold recordFailure
  split
  · rfl
  · simp [h]

/-- What a verdict of the detector does to a `CLOSED` breaker: it opens it, or leaves it
closed with no lower score. -/
theorem recordWedge_closed (h : b.state = .closed) :
    (b.recordWedge suspected now).state = .open ∨
      ((b.recordWedge suspected now).state = .closed ∧
        b.score ≤ (b.recordWedge suspected now).score) := by
  unfold recordWedge
  split
  · exact .inr ⟨h, le_rfl⟩
  · dsimp only
    split
    · exact .inr ⟨h, le_rfl⟩
    · rcases recordFailure_closed
        (b := { b with wedgeConfirmations := b.wedgeConfirmations + 1 }) .wedge now h with
        ⟨hc, hs, -⟩ | ⟨ho, -⟩
      · exact .inr ⟨hc, hs ▸ Nat.le_add_right _ _⟩
      · exact .inl ho

@[simp] theorem recordFailure_tripScore : (b.recordFailure kind now).tripScore = b.tripScore := by
  unfold recordFailure
  split
  · rfl
  · dsimp only
    split <;> rfl

@[simp] theorem recordWedge_tripScore :
    (b.recordWedge suspected now).tripScore = b.tripScore := by
  unfold recordWedge
  split
  · rfl
  · dsimp only
    split
    · rfl
    · split
      · exact recordFailure_tripScore
      · rfl

@[simp] theorem recordProbe_tripScore {ok : Bool} :
    (b.recordProbe ok now suspected).tripScore = b.tripScore := by
  unfold recordProbe
  dsimp only
  split
  · rfl
  · split <;> rfl

/-! ## What each operation can do -/

/-- A failure of no weight changes nothing; another one adds its weight, and opens a
`CLOSED` breaker whose sum reaches the threshold in force. -/
theorem recordFailure_cases (b : ReplicaBreaker) (kind : FailureKind) (now : ℚ) :
    (kind.weight = 0 ∧ b.recordFailure kind now = b) ∨
    (kind.weight ≠ 0 ∧ ¬(b.state = .closed ∧ b.threshold now ≤ b.score + kind.weight) ∧
      b.recordFailure kind now = b.addScore kind.weight) ∨
    (kind.weight ≠ 0 ∧ b.state = .closed ∧ b.threshold now ≤ b.score + kind.weight ∧
      b.recordFailure kind now = (b.addScore kind.weight).openBreaker now) := by
  by_cases hw : kind.weight = 0
  · exact .inl ⟨hw, recordFailure_of_weight_zero hw⟩
  · right
    by_cases ht : b.state = .closed ∧ b.threshold now ≤ b.score + kind.weight
    · right
      refine ⟨hw, ht.1, ht.2, ?_⟩
      rw [recordFailure, if_neg hw]
      exact if_pos ht
    · left
      refine ⟨hw, ht, ?_⟩
      rw [recordFailure, if_neg hw]
      exact if_neg ht

/-- A failure adds its weight, whatever the state. -/
@[simp] theorem recordFailure_score :
    (b.recordFailure kind now).score = b.score + kind.weight := by
  rcases recordFailure_cases b kind now with ⟨hw, h⟩ | ⟨-, -, h⟩ | ⟨-, -, -, h⟩
  · rw [h, hw, Nat.add_zero]
  · rw [h]
    rfl
  · rw [h]
    rfl

@[simp] theorem recordFailure_wedgeConfirmations :
    (b.recordFailure kind now).wedgeConfirmations = b.wedgeConfirmations := by
  rcases recordFailure_cases b kind now with ⟨-, h⟩ | ⟨-, -, h⟩ | ⟨-, -, -, h⟩ <;> rw [h] <;> rfl

@[simp] theorem recordFailure_probationUntil :
    (b.recordFailure kind now).probationUntil = b.probationUntil := by
  rcases recordFailure_cases b kind now with ⟨-, h⟩ | ⟨-, -, h⟩ | ⟨-, -, -, h⟩ <;> rw [h] <;> rfl

/-- The verdict of the detector counts, and from the second in a row on it is a failure
of a `CLOSED` breaker. -/
theorem recordWedge_cases (b : ReplicaBreaker) (suspected : Bool) (now : ℚ) :
    (suspected = false ∧ b.recordWedge suspected now = { b with wedgeConfirmations := 0 }) ∨
    (suspected = true ∧ ¬(1 ≤ b.wedgeConfirmations ∧ b.state = .closed) ∧
      b.recordWedge suspected now =
        { b with wedgeConfirmations := b.wedgeConfirmations + 1 }) ∨
    (suspected = true ∧ 1 ≤ b.wedgeConfirmations ∧ b.state = .closed ∧
      b.recordWedge suspected now =
        { b with wedgeConfirmations := b.wedgeConfirmations + 1 }.recordFailure .wedge now) := by
  cases suspected with
  | false => exact .inl ⟨rfl, rfl⟩
  | true =>
      right
      have hunfold : b.recordWedge true now =
          if b.wedgeConfirmations + 1 = 1 then
            { b with wedgeConfirmations := b.wedgeConfirmations + 1 }
          else if b.state = .closed then
            { b with wedgeConfirmations := b.wedgeConfirmations + 1 }.recordFailure .wedge now
          else { b with wedgeConfirmations := b.wedgeConfirmations + 1 } := rfl
      by_cases hconf : 1 ≤ b.wedgeConfirmations
      · have hne : b.wedgeConfirmations + 1 ≠ 1 := by omega
        rw [if_neg hne] at hunfold
        by_cases hc : b.state = .closed
        · exact .inr ⟨rfl, hconf, hc, hunfold.trans (if_pos hc)⟩
        · exact .inl ⟨rfl, fun h ↦ hc h.2, hunfold.trans (if_neg hc)⟩
      · have heq : b.wedgeConfirmations + 1 = 1 := by omega
        exact .inl ⟨rfl, fun h ↦ hconf h.1, hunfold.trans (if_pos heq)⟩

/-- A probe that fails, or that finds the wedge signal live, opens the breaker anew and
doubles the wait; a good one counts, and the second in a row closes it. -/
theorem recordProbe_cases (b : ReplicaBreaker) (ok suspected : Bool) (now : ℚ) :
    ((ok = false ∨ suspected = true) ∧ b.recordProbe ok now suspected =
      { b with
        lastProbeAt := some now
        goodProbes := 0
        state := .open
        openedAt := some now
        openSec := min (b.openSec * 2) MAX_OPEN_SEC }) ∨
    (ok = true ∧ suspected = false ∧ b.goodProbes + 1 < PROBES_TO_CLOSE ∧
      b.recordProbe ok now suspected =
        { b with
          lastProbeAt := some now
          state := .halfOpen
          goodProbes := b.goodProbes + 1 }) ∨
    (ok = true ∧ suspected = false ∧ PROBES_TO_CLOSE ≤ b.goodProbes + 1 ∧
      b.recordProbe ok now suspected = { b with lastProbeAt := some now }.closeBreaker now) := by
  unfold recordProbe
  dsimp only
  by_cases hbad : ¬ok = true ∨ suspected = true
  · rw [if_pos hbad]
    exact .inl ⟨hbad.imp_left Bool.eq_false_iff.mpr, rfl⟩
  · rw [if_neg hbad]
    obtain ⟨hok, hs⟩ := not_or.mp hbad
    right
    by_cases hgood : PROBES_TO_CLOSE ≤ b.goodProbes + 1
    · rw [if_pos hgood]
      exact .inr ⟨not_not.mp hok, Bool.eq_false_iff.mpr hs, hgood, rfl⟩
    · rw [if_neg hgood]
      exact .inl ⟨not_not.mp hok, Bool.eq_false_iff.mpr hs, not_le.mp hgood, rfl⟩

/-- The threshold in force never passes the trip score. -/
theorem threshold_le (hpos : 0 < b.tripScore) : b.threshold now ≤ b.tripScore := by
  unfold threshold
  split <;> omega

end ReplicaBreaker

end InferenceGateway
