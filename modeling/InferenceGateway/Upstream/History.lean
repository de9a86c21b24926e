import InferenceGateway.Transition.Run
import InferenceGateway.Upstream.Breaker

/-!
# The history of a breaker

A breaker forgets: its score and its confirmations are sums over calls it no longer
knows.  `Logged` is a breaker with the calls made to it, the latest first, and the
functions on histories below say what each field stands for without looking at the
breaker.  `Scored` is the correspondence; from it follow when a breaker opens
(`Logged.trips_on_score`) and the shape its fields always have (`Logged.ladder`).
-/

namespace InferenceGateway

open Py Transition

/-- A call of one of the recording methods. -/
inductive Call where
  | success
  | failure (kind : FailureKind)
  | wedge (suspected : Bool)
  | probe (ok wedgeSuspected : Bool)
  deriving DecidableEq

namespace Call

/-- `record_probe`. -/
def isProbe : Call → Bool
  | .probe _ _ => true
  | _ => false

/-- A success, or a failure that says nothing against the replica. -/
def Harmless (c : Call) : Prop :=
  c = .success ∨ c = .failure .throttled ∨ c = .failure .clientError

end Call

/-- The breaker after a call. -/
def ReplicaBreaker.call (b : ReplicaBreaker) (c : Call) (now : ℚ) : ReplicaBreaker :=
  match c with
  | .success => b.recordSuccess
  | .failure kind => b.recordFailure kind now
  | .wedge suspected => b.recordWedge suspected now
  | .probe ok suspected => b.recordProbe ok now suspected

/-- A call, the breaker it was made to, and when. -/
structure Entry where
  before : ReplicaBreaker
  call : Call
  now : ℚ

namespace Entry

/-- The breaker after the call. -/
def after (e : Entry) : ReplicaBreaker := e.before.call e.call e.now

/-- The call puts the replica back into rotation. -/
def closes (e : Entry) : Bool := e.before.state ≠ .closed && e.after.state = .closed

/-- The call takes the replica out of rotation. -/
def opens (e : Entry) : Bool := e.before.state = .closed && e.after.state = .open

/-- The score starts over: a success, or a close. -/
def resets (e : Entry) : Bool := e.call = .success || e.closes

/-- The confirmations start over: a success, a close, or a verdict of no suspicion. -/
def clears (e : Entry) : Bool := e.resets || e.call = .wedge false

/-- The probe failed, or found the wedge signal live. -/
def badProbe (e : Entry) : Bool :=
  match e.call with
  | .probe ok suspected => !ok || suspected
  | _ => false

end Entry

/-! ## What a history says -/

/-- The verdicts of suspicion in a row. -/
def streak (h : List Entry) : ℕ :=
  (h.takeWhile fun e ↦ !e.clears).countP fun e ↦ e.call = .wedge true

/-- The failure that a call after the history `h` records: the one it names, or a wedge,
from the second verdict of suspicion in a row on, of a replica in rotation. -/
def recorded (h : List Entry) (e : Entry) : Option FailureKind :=
  match e.call with
  | .failure kind => some kind
  | .wedge true => if 1 ≤ streak h ∧ e.before.state = .closed then some .wedge else none
  | _ => none

/-- The failures recorded since the later of the last success and the last close. -/
def failuresSince : List Entry → List FailureKind
  | [] => []
  | e :: h => if e.resets then [] else (recorded h e).toList ++ failuresSince h

/-- The sum of `WEIGHTS` over some failures. -/
def weightSum (kinds : List FailureKind) : ℕ := (kinds.map FailureKind.weight).sum

/-- When probation ends: a fixed time after the last close. -/
def probationEnd (h : List Entry) : ℚ :=
  (h.find? Entry.closes).elim 0 fun e ↦ e.now + PROBATION_SEC

/-- The threshold in force: half of the trip score during probation. -/
def thresholdAfter (tripScore : ℕ) (h : List Entry) (now : ℚ) : ℕ :=
  if now < probationEnd h then max 1 (tripScore / 2) else tripScore

/-- The threshold that was in force when the last failure was recorded. -/
def inForce (tripScore : ℕ) : List Entry → Option ℕ
  | [] => none
  | e :: h =>
    if (recorded h e).isSome then some (thresholdAfter tripScore h e.now) else inForce tripScore h

/-- A failure that weighs something, or a verdict of suspicion that is at least the second
in a row. -/
def Strikes (h : List Entry) (c : Call) : Prop :=
  (∃ kind, c = .failure kind ∧ kind.weight ≠ 0) ∨ c = .wedge true ∧ 1 ≤ streak h

/-- The failed or wedge-flagged probes since the replica last left rotation. -/
def failedProbes (h : List Entry) : ℕ := (h.takeWhile fun e ↦ !e.opens).countP Entry.badProbe

/-- How often the replica was taken out of rotation. -/
def tripCount (h : List Entry) : ℕ := h.countP Entry.opens

/-- When the breaker was last opened: the last trip or bad probe. -/
def lastOpened (h : List Entry) : Option ℚ :=
  (h.find? fun e ↦ e.opens || e.badProbe).map Entry.now

/-! ## Logged breakers -/

/-- A breaker, and the calls made to it so far, the latest first. -/
structure Logged where
  breaker : ReplicaBreaker
  entries : List Entry

namespace Logged

/-- A fresh `ReplicaBreaker`. -/
def fresh (url : Str) (tripScore : ℕ) : Logged := ⟨{ url, tripScore }, []⟩

/-- The call as the next entry. -/
def entry (l : Logged) (c : Call) (now : ℚ) : Entry := ⟨l.breaker, c, now⟩

/-- Make a call. -/
def push (l : Logged) (c : Call) (now : ℚ) : Logged :=
  ⟨l.breaker.call c now, l.entry c now :: l.entries⟩

/-- A call at a time; only a replica out of rotation is probed. -/
def step (l : Logged) (c : Call × ℚ) : Option Logged :=
  if c.1.isProbe ∧ l.breaker.state = .closed then none else some (l.push c.1 c.2)

/-- No earlier than the last call. -/
def InOrder (l : Logged) (now : ℚ) : Prop := ∀ e ∈ l.entries.head?, e.now ≤ now

instance (l : Logged) (now : ℚ) : Decidable (l.InOrder now) :=
  inferInstanceAs (Decidable (∀ e ∈ l.entries.head?, e.now ≤ now))

/-- The calls, each no earlier than the one before. -/
abbrev Ordered : Logged → Call × ℚ → Prop := fun l c ↦ l.InOrder c.2

variable {l l' : Logged} {c : Call} {now : ℚ}

@[simp] theorem push_breaker : (l.push c now).breaker = l.breaker.call c now := rfl
@[simp] theorem push_entries : (l.push c now).entries = l.entry c now :: l.entries := rfl

/-- A step is a call, and a probe only of a replica out of rotation. -/
theorem of_step {c : Call × ℚ} (h : Steps step l c l') :
    (c.1.isProbe → l.breaker.state ≠ .closed) ∧ l' = l.push c.1 c.2 := by
  simp only [Steps, step] at h
  split at h
  · cases h
  · rename_i hn
    exact ⟨fun hp hc ↦ hn ⟨hp, hc⟩, (Option.some.inj h).symm⟩

end Logged

/-! ## The fields are what the history says -/

section Histories

variable {h : List Entry} {e : Entry} {b : ReplicaBreaker} {kind : FailureKind} {now : ℚ}

@[simp] theorem weightSum_nil : weightSum [] = 0 := rfl

theorem weightSum_cons (kind : FailureKind) (kinds : List FailureKind) :
    weightSum (kind :: kinds) = kind.weight + weightSum kinds := List.sum_cons

theorem streak_cons : streak (e :: h) =
    if e.clears then 0 else (decide (e.call = .wedge true)).toNat + streak h := by
  unfold streak
  by_cases hc : e.clears
  · simp [hc]
  · simp only [hc, List.takeWhile_cons, Bool.not_false, if_true, List.countP_cons]
    by_cases hw : e.call = .wedge true
    · simp [hw, Nat.add_comm]
    · simp [hw]

theorem failuresSince_of_resets (hr : e.resets) : failuresSince (e :: h) = [] := by
  rw [failuresSince, if_pos hr]

theorem failedProbes_cons : failedProbes (e :: h) =
    if e.opens then 0 else e.badProbe.toNat + failedProbes h := by
  unfold failedProbes
  by_cases ho : e.opens
  · simp [ho]
  · simp only [ho, List.takeWhile_cons, Bool.not_false, if_true, List.countP_cons]
    cases e.badProbe <;> simp [Nat.add_comm]

theorem tripCount_cons : tripCount (e :: h) = tripCount h + e.opens.toNat := by
  unfold tripCount
  rw [List.countP_cons]
  cases e.opens <;> rfl

end Histories

namespace ReplicaBreaker

variable {b : ReplicaBreaker} {c : Call} {now : ℚ}

/-- Only a probe changes the state of a replica out of rotation. -/
theorem call_state_of_not_closed (hb : b.state ≠ .closed) (hc : ¬c.isProbe) :
    (b.call c now).state = b.state := by
  cases c with
  | success => rfl
  | failure kind => exact recordFailure_state_of_not_closed hb
  | wedge suspected =>
      change (b.recordWedge suspected now).state = b.state
      rcases recordWedge_cases b suspected now with ⟨-, h⟩ | ⟨-, -, h⟩ | ⟨-, -, hcl, -⟩
      · rw [h]
      · rw [h]
      · exact absurd hcl hb
  | probe ok suspected => exact absurd rfl hc

/-- A failure opens a breaker that is `CLOSED` exactly if it weighs something and brings the
sum to the threshold in force. -/
theorem recordFailure_open_iff {kind : FailureKind} (hb : b.state = .closed) :
    (b.recordFailure kind now).state = .open ↔
      kind.weight ≠ 0 ∧ b.threshold now ≤ (b.recordFailure kind now).score := by
  rw [recordFailure_score]
  rcases recordFailure_cases b kind now with ⟨hw, h⟩ | ⟨hw, hlow, h⟩ | ⟨hw, -, hhigh, h⟩
  · rw [h, hb]
    simp [hw]
  · have hlt : ¬b.threshold now ≤ b.score + kind.weight := fun hle ↦ hlow ⟨hb, hle⟩
    simp [h, hb, hlt]
  · simp [h, hw, hhigh]

@[simp] theorem call_tripScore : (b.call c now).tripScore = b.tripScore := by
  cases c with
  | success => rfl
  | failure kind => exact recordFailure_tripScore
  | wedge suspected => exact recordWedge_tripScore
  | probe ok suspected => exact recordProbe_tripScore

end ReplicaBreaker

/-- Only a probe closes. -/
theorem Entry.closes_of_not_isProbe {e : Entry} (hc : ¬e.call.isProbe) : e.closes = false := by
  unfold closes
  by_cases hb : e.before.state = .closed
  · simp [hb]
  · have hafter : e.after.state = e.before.state :=
      ReplicaBreaker.call_state_of_not_closed hb hc
    simp [hafter, hb]

namespace Logged

variable {l l' : Logged} {c : Call} {now : ℚ} {n : ℕ}

/-- The score, the confirmations and the probation of a breaker are what its history
says. -/
structure Scored (n : ℕ) (l : Logged) : Prop where
  tripScore : l.breaker.tripScore = n
  score : l.breaker.score = weightSum (failuresSince l.entries)
  confirmations : l.breaker.wedgeConfirmations = streak l.entries
  probation : l.breaker.probationUntil = probationEnd l.entries

theorem Scored.fresh (url : Str) (n : ℕ) : Scored n (fresh url n) := ⟨rfl, rfl, rfl, rfl⟩

/-- What a call that does not close records is added to the sum, unless it is a success. -/
theorem failuresSince_push (hcl : (l.entry c now).closes = false) :
    failuresSince (l.push c now).entries =
      if c = .success then [] else
        (recorded l.entries (l.entry c now)).toList ++ failuresSince l.entries := by
  have hr : (l.entry c now).resets = decide (c = .success) := by
    rw [Entry.resets, hcl, Bool.or_false]
    rfl
  rw [push_entries, failuresSince, hr]
  simp only [decide_eq_true_eq]

/-- Without a close the confirmations start over at a success or a verdict of no
suspicion. -/
theorem streak_push (hcl : (l.entry c now).closes = false) :
    streak (l.push c now).entries =
      if c = .success ∨ c = .wedge false then 0
      else (decide (c = .wedge true)).toNat + streak l.entries := by
  have hr : (l.entry c now).clears = decide (c = .success ∨ c = .wedge false) := by
    rw [Entry.clears, Entry.resets, hcl, Bool.or_false, Bool.decide_or]
    rfl
  rw [push_entries, streak_cons, hr]
  simp only [decide_eq_true_eq]
  rfl

theorem probationEnd_push (hcl : (l.entry c now).closes = false) :
    probationEnd (l.push c now).entries = probationEnd l.entries := by
  simp [probationEnd, hcl]

/-- A call that does not close keeps the correspondence if it adds what it records and
leaves the end of probation alone. -/
theorem Scored.push_of_not_closes (h : Scored n l) (hcl : (l.entry c now).closes = false)
    (hscore : (l.breaker.call c now).score = weightSum (if c = .success then [] else
      (recorded l.entries (l.entry c now)).toList ++ failuresSince l.entries))
    (hconf : (l.breaker.call c now).wedgeConfirmations =
      if c = .success ∨ c = .wedge false then 0
      else (decide (c = .wedge true)).toNat + streak l.entries)
    (hprob : (l.breaker.call c now).probationUntil = l.breaker.probationUntil) :
    Scored n (l.push c now) where
  tripScore := ReplicaBreaker.call_tripScore.trans h.tripScore
  score := hscore.trans (congrArg weightSum (failuresSince_push hcl).symm)
  confirmations := hconf.trans (streak_push hcl).symm
  probation := (hprob.trans h.probation).trans (probationEnd_push hcl).symm

theorem Scored.push_success (h : Scored n l) : Scored n (l.push .success now) := by
  have hcl : (l.entry .success now).closes = false :=
    Entry.closes_of_not_isProbe Bool.false_ne_true
  apply h.push_of_not_closes hcl
  · rfl
  · rfl
  · rfl

theorem Scored.push_failure {kind : FailureKind} (h : Scored n l) :
    Scored n (l.push (.failure kind) now) := by
  have hcl : (l.entry (.failure kind) now).closes = false :=
    Entry.closes_of_not_isProbe Bool.false_ne_true
  apply h.push_of_not_closes hcl
  · rw [if_neg (by simp)]
    show (l.breaker.recordFailure kind now).score = weightSum (kind :: failuresSince l.entries)
    rw [ReplicaBreaker.recordFailure_score, weightSum_cons, h.score, Nat.add_comm]
  · rw [if_neg (by simp)]
    show (l.breaker.recordFailure kind now).wedgeConfirmations = 0 + streak l.entries
    rw [ReplicaBreaker.recordFailure_wedgeConfirmations, h.confirmations, Nat.zero_add]
  · exact ReplicaBreaker.recordFailure_probationUntil

/-- A verdict records a wedge exactly if it is confirmed and the replica is in rotation. -/
theorem Scored.push_wedge {suspected : Bool} (h : Scored n l) :
    Scored n (l.push (.wedge suspected) now) := by
  have hcl : (l.entry (.wedge suspected) now).closes = false :=
    Entry.closes_of_not_isProbe Bool.false_ne_true
  have hcall : l.breaker.call (.wedge suspected) now = l.breaker.recordWedge suspected now := rfl
  rcases l.breaker.recordWedge_cases suspected now with
    ⟨rfl, hb⟩ | ⟨rfl, hfew, hb⟩ | ⟨rfl, hmany, hclosed, hb⟩
  · rw [hb] at hcall
    apply h.push_of_not_closes hcl
    · rw [hcall, if_neg (by simp)]
      exact h.score
    · rw [hcall, if_pos (.inr rfl)]
    · rw [hcall]
  · have hrec : recorded l.entries (l.entry (.wedge true) now) = none :=
      if_neg (h.confirmations ▸ hfew)
    rw [hb] at hcall
    apply h.push_of_not_closes hcl
    · rw [hcall, if_neg (by simp), hrec]
      exact h.score
    · rw [hcall, if_neg (by simp), ← h.confirmations, Nat.add_comm]
      rfl
    · rw [hcall]
  · have hrec : recorded l.entries (l.entry (.wedge true) now) = some .wedge :=
      if_pos ⟨h.confirmations ▸ hmany, hclosed⟩
    rw [hb] at hcall
    apply h.push_of_not_closes hcl
    · rw [hcall, if_neg (by simp), hrec, ReplicaBreaker.recordFailure_score, Option.toList_some,
        List.singleton_append, weightSum_cons, ← h.score]
      exact Nat.add_comm _ _
    · rw [hcall, if_neg (by simp), ReplicaBreaker.recordFailure_wedgeConfirmations,
        ← h.confirmations, Nat.add_comm]
      rfl
    · rw [hcall, ReplicaBreaker.recordFailure_probationUntil]

/-- A probe that does not close records nothing. -/
theorem Scored.push_probe_of_not_closed {ok suspected : Bool} (h : Scored n l)
    (hopen : (l.breaker.recordProbe ok now suspected).state ≠ .closed)
    (hscore : (l.breaker.recordProbe ok now suspected).score = l.breaker.score)
    (hconf : (l.breaker.recordProbe ok now suspected).wedgeConfirmations =
      l.breaker.wedgeConfirmations)
    (hprob : (l.breaker.recordProbe ok now suspected).probationUntil = l.breaker.probationUntil) :
    Scored n (l.push (.probe ok suspected) now) := by
  have hcl : (l.entry (.probe ok suspected) now).closes = false := by
    change (_ && decide ((l.breaker.recordProbe ok now suspected).state = .closed)) = false
    rw [decide_eq_false hopen, Bool.and_false]
  apply h.push_of_not_closes hcl
  · rw [if_neg (by simp)]
    exact hscore.trans h.score
  · rw [if_neg (by simp)]
    exact hconf.trans (h.confirmations.trans (Nat.zero_add _).symm)
  · exact hprob

/-- A call that closes starts every sum over. -/
theorem Scored.push_of_closes (h : Scored n l) (hcl : (l.entry c now).closes = true)
    (hcall : l.breaker.call c now = { l.breaker with lastProbeAt := some now }.closeBreaker now) :
    Scored n (l.push c now) := by
  have hresets : (l.entry c now).resets = true := by
    rw [Entry.resets, hcl, Bool.or_true]
  have hbreaker : (l.push c now).breaker =
      { l.breaker with lastProbeAt := some now }.closeBreaker now := hcall
  constructor
  · exact ReplicaBreaker.call_tripScore.trans h.tripScore
  · rw [hbreaker, push_entries, failuresSince_of_resets hresets]
    rfl
  · rw [hbreaker, push_entries, streak_cons, Entry.clears, hresets]
    rfl
  · rw [hbreaker, push_entries, probationEnd, List.find?_cons_of_pos hcl]
    rfl

theorem Scored.push_probe {ok suspected : Bool} (h : Scored n l)
    (hb : l.breaker.state ≠ .closed) : Scored n (l.push (.probe ok suspected) now) := by
  rcases l.breaker.recordProbe_cases ok suspected now with
    ⟨-, hr⟩ | ⟨-, -, -, hr⟩ | ⟨-, -, -, hr⟩
  · apply h.push_probe_of_not_closed
    all_goals rw [hr]
    exact BreakerState.noConfusion
  · apply h.push_probe_of_not_closed
    all_goals rw [hr]
    exact BreakerState.noConfusion
  · have hcl : (l.entry (.probe ok suspected) now).closes = true := by
      change (decide (l.breaker.state ≠ .closed) &&
        decide ((l.breaker.recordProbe ok now suspected).state = .closed)) = true
      rw [hr, decide_eq_true hb]
      rfl
    exact h.push_of_closes hcl hr

theorem Scored.push (h : Scored n l) (hc : c.isProbe → l.breaker.state ≠ .closed) :
    Scored n (l.push c now) := by
  cases c with
  | success => exact h.push_success
  | failure kind => exact h.push_failure
  | wedge suspected => exact h.push_wedge
  | probe ok suspected => exact h.push_probe (hc rfl)

/-! ## When a breaker opens -/

theorem Scored.threshold_eq (h : Scored n l) (now : ℚ) :
    l.breaker.threshold now = thresholdAfter n l.entries now := by
  rw [ReplicaBreaker.threshold, thresholdAfter, h.tripScore, h.probation]

/-- A call to a replica in rotation opens the breaker exactly if it strikes and the sum
is at the threshold then. -/
theorem Scored.open_iff (h : Scored n l) (hb : l.breaker.state = .closed) (hc : ¬c.isProbe) :
    (l.breaker.call c now).state = .open ↔
      Strikes l.entries c ∧
        thresholdAfter n l.entries now ≤ weightSum (failuresSince (l.push c now).entries) := by
  have hpush : Scored n (l.push c now) := h.push fun hp ↦ absurd hp hc
  rw [← h.threshold_eq, ← hpush.score]
  cases c with
  | success =>
      constructor
      · intro hopen
        rw [show (l.breaker.call .success now).state = l.breaker.state from rfl, hb] at hopen
        cases hopen
      · rintro ⟨⟨kind, hk, -⟩ | ⟨hw, -⟩, -⟩
        · cases hk
        · cases hw
  | failure kind =>
      refine (ReplicaBreaker.recordFailure_open_iff hb).trans (and_congr_left fun _ ↦ ?_)
      constructor
      · exact fun hw ↦ .inl ⟨kind, rfl, hw⟩
      · rintro (⟨kind', hk, hw⟩ | ⟨hw, -⟩)
        · cases hk
          exact hw
        · cases hw
  | wedge suspected =>
      change (l.breaker.recordWedge suspected now).state = .open ↔
        _ ∧ _ ≤ (l.breaker.recordWedge suspected now).score
      rcases l.breaker.recordWedge_cases suspected now with
        ⟨rfl, hr⟩ | ⟨rfl, hfew, hr⟩ | ⟨rfl, hmany, -, hr⟩
      · simp [hr, hb, Strikes]
      · have hnot : ¬1 ≤ streak l.entries := fun hs ↦ hfew ⟨h.confirmations ▸ hs, hb⟩
        simp [hr, hb, Strikes, hnot]
      · rw [hr]
        refine (ReplicaBreaker.recordFailure_open_iff
          (b := { l.breaker with wedgeConfirmations := l.breaker.wedgeConfirmations + 1 })
          hb).trans (and_congr_left fun _ ↦ ?_)
        exact ⟨fun _ ↦ .inr ⟨rfl, h.confirmations ▸ hmany⟩, fun _ ↦ by decide⟩
  | probe ok suspected => exact absurd rfl hc

/-- In rotation, the sum is below any threshold still to come, and below the one that was
in force when the last failure was recorded. -/
structure Below (n : ℕ) (l : Logged) : Prop where
  ahead : l.breaker.state = .closed → ∀ now, l.InOrder now →
    weightSum (failuresSince l.entries) < thresholdAfter n l.entries now
  behind : l.breaker.state = .closed → ∀ t ∈ inForce n l.entries,
    weightSum (failuresSince l.entries) < t
  positive : ∀ t ∈ inForce n l.entries, 0 < t

theorem thresholdAfter_pos (hn : 0 < n) (h : List Entry) (now : ℚ) :
    0 < thresholdAfter n h now := by
  unfold thresholdAfter
  split <;> omega

theorem Below.fresh (url : Str) (hn : 0 < n) : Below n (fresh url n) where
  ahead _ now _ := thresholdAfter_pos hn [] now
  behind _ t ht := by cases ht
  positive t ht := by cases ht

theorem thresholdAfter_mono (hn : 0 < n) {h : List Entry} {now' : ℚ} (hle : now ≤ now') :
    thresholdAfter n h now ≤ thresholdAfter n h now' := by
  unfold thresholdAfter
  split
  · split <;> omega
  · rename_i hlate
    rw [if_neg fun h' ↦ hlate (lt_of_le_of_lt hle h')]

/-- What does not strike does not raise the sum. -/
theorem sum_le_of_not_strikes (hcl : (l.entry c now).closes = false)
    (hs : ¬Strikes l.entries c) :
    weightSum (failuresSince (l.push c now).entries) ≤ weightSum (failuresSince l.entries) := by
  rw [failuresSince_push hcl]
  cases c with
  | success => exact Nat.zero_le _
  | failure kind =>
      have hw : kind.weight = 0 := by
        by_contra hne
        exact hs (.inl ⟨kind, rfl, hne⟩)
      rw [if_neg (by simp)]
      change weightSum (kind :: failuresSince l.entries) ≤ _
      rw [weightSum_cons, hw, Nat.zero_add]
  | wedge suspected =>
      have hrec : recorded l.entries (l.entry (.wedge suspected) now) = none := by
        cases suspected with
        | false => rfl
        | true => exact if_neg fun h ↦ hs (.inr ⟨rfl, h.1⟩)
      rw [if_neg (by simp), hrec]
      rfl
  | probe ok suspected =>
      rw [if_neg (by simp)]
      rfl

/-- A call that leaves a replica in rotation leaves the sum below the threshold then in
force. -/
theorem Below.sum_lt (hbelow : Below n l) (h : Scored n l) (ho : l.InOrder now)
    (hb : l.breaker.state = .closed) (hc : ¬c.isProbe)
    (hafter : (l.breaker.call c now).state = .closed) :
    weightSum (failuresSince (l.push c now).entries) < thresholdAfter n l.entries now := by
  by_cases hs : Strikes l.entries c
  · by_contra hge
    have hopen := (h.open_iff hb hc).mpr ⟨hs, not_lt.mp hge⟩
    rw [hafter] at hopen
    cases hopen
  · have hcl : (l.entry c now).closes = false := Entry.closes_of_not_isProbe hc
    exact lt_of_le_of_lt (sum_le_of_not_strikes hcl hs) (hbelow.ahead hb now ho)

theorem inForce_push : inForce n (l.push c now).entries =
    if (recorded l.entries (l.entry c now)).isSome then some (thresholdAfter n l.entries now)
    else inForce n l.entries := rfl

theorem Below.push (hbelow : Below n l) (h : Scored n l) (hn : 0 < n) (ho : l.InOrder now)
    (hc : c.isProbe → l.breaker.state ≠ .closed) : Below n (l.push c now) := by
  have hpos : ∀ t ∈ inForce n (l.push c now).entries, 0 < t := by
    intro t ht
    rw [inForce_push] at ht
    split at ht
    · cases ht
      exact thresholdAfter_pos hn _ _
    · exact hbelow.positive t ht
  by_cases hb : l.breaker.state = .closed
  · have hprobe : ¬c.isProbe := fun hp ↦ hc hp hb
    have hcl : (l.entry c now).closes = false := Entry.closes_of_not_isProbe hprobe
    refine ⟨fun hafter now' ho' ↦ ?_, fun hafter t ht ↦ ?_, hpos⟩
    · have hlt := hbelow.sum_lt h ho hb hprobe hafter
      have hle : now ≤ now' := ho' _ rfl
      have hend : thresholdAfter n (l.push c now).entries now' = thresholdAfter n l.entries now' := by
        rw [thresholdAfter, thresholdAfter, probationEnd_push hcl]
      rw [hend]
      exact lt_of_lt_of_le hlt (thresholdAfter_mono hn hle)
    · rw [inForce_push] at ht
      split at ht
      · cases ht
        exact hbelow.sum_lt h ho hb hprobe hafter
      · rename_i hrec
        rw [failuresSince_push hcl]
        split
        · exact hbelow.positive t ht
        · rw [Option.not_isSome_iff_eq_none.mp hrec]
          exact hbelow.behind hb t ht
  · have hzero (hafter : (l.push c now).breaker.state = .closed) :
        weightSum (failuresSince (l.push c now).entries) = 0 := by
      have hcl : (l.entry c now).closes = true := by
        change (decide (l.breaker.state ≠ .closed) &&
          decide ((l.push c now).breaker.state = .closed)) = true
        rw [hafter, decide_eq_true hb]
        rfl
      have hresets : (l.entry c now).resets = true := by
        rw [Entry.resets, hcl, Bool.or_true]
      rw [push_entries, failuresSince_of_resets hresets, weightSum_nil]
    refine ⟨fun hafter now' _ ↦ ?_, fun hafter t ht ↦ ?_, hpos⟩
    · rw [hzero hafter]
      exact thresholdAfter_pos hn _ _
    · rw [hzero hafter]
      exact hpos t ht

/-- What is known of a breaker after a run of calls in order. -/
theorem scored_of_run (hn : 0 < n) {url : Str} {cs : List (Call × ℚ)}
    (h : Run (Guarded (Steps step) Ordered) (.fresh url n) cs l) : Scored n l ∧ Below n l := by
  refine h.invariant (P := fun l ↦ Scored n l ∧ Below n l) ?_ ⟨.fresh url n, .fresh url hn⟩
  rintro l c l' ⟨hstep, ho⟩ ⟨hs, hb⟩
  obtain ⟨hc, rfl⟩ := of_step hstep
  exact ⟨hs.push hc, hb.push hs hn ho hc⟩

/-- Throttling, errors of the caller and successes never take a replica out of rotation. -/
theorem closed_of_harmless {url : Str} {cs : List (Call × ℚ)}
    (h : Run (Steps step) (.fresh url n) cs l) (hcs : ∀ c ∈ cs, c.1.Harmless) :
    l.breaker.state = .closed := by
  refine (h.guard hcs).invariant (P := fun l ↦ l.breaker.state = .closed) ?_ rfl
  rintro l c l' ⟨hstep, hc⟩ hb
  obtain ⟨-, rfl⟩ := of_step hstep
  obtain ⟨c, now⟩ := c
  rcases hc with rfl | rfl | rfl
  · exact hb
  · exact hb
  · exact hb

/-- The breaker trips exactly on its score.  After any calls in order, made to a fresh
breaker, a replica in rotation has as its score the sum of the weights of the failures
recorded since the later of the last success and the last close; that sum is below the
threshold that was in force at the last recorded failure; and the next call opens the
breaker if and only if it strikes and the sum is then at the threshold.  No run of
harmless calls opens it. -/
theorem trips_on_score (url : Str) (n : ℕ) (hn : 0 < n) (cs : List (Call × ℚ)) (l : Logged)
    (h : Run (Guarded (Steps step) Ordered) (.fresh url n) cs l) :
    (l.breaker.state = .closed →
      l.breaker.score = weightSum (failuresSince l.entries) ∧
      (∀ t ∈ inForce n l.entries, weightSum (failuresSince l.entries) < t) ∧
      ∀ c now, ¬c.isProbe →
        ((l.breaker.call c now).state = .open ↔
          Strikes l.entries c ∧
            thresholdAfter n l.entries now ≤
              weightSum (failuresSince (l.push c now).entries))) ∧
    ((∀ c ∈ cs, c.1.Harmless) → l.breaker.state = .closed) := by
  obtain ⟨hscored, hbelow⟩ := scored_of_run hn h
  refine ⟨fun hb ↦ ⟨hscored.score, hbelow.behind hb, fun c now hc ↦ ?_⟩, fun hcs ↦ ?_⟩
  · exact hscored.open_iff hb hc
  · exact closed_of_harmless h.of_guarded hcs

/-- Two refused connections, two good probes, then an error and a throttled request on
probation. -/
def flapping : List (Call × ℚ) :=
  [(.failure .connect, 0), (.failure .connect, 1), (.probe true false, 16),
    (.probe true false, 21), (.failure .serverError, 22), (.failure .throttled, 23)]

theorem trips_on_score_flapping :
    ∃ l, Run (Guarded (Steps step) Ordered) (.fresh (str "r") TRIP_SCORE) flapping l ∧
      l.breaker.score = 1 ∧ l.breaker.score = weightSum (failuresSince l.entries) := by
  obtain ⟨l, hr, hl⟩ := Run.exists_of_execWhile step (fun l c ↦ decide (l.InOrder c.2))
    (.fresh (str "r") TRIP_SCORE) flapping
    (fun l ↦ decide (l.breaker.state = .closed ∧ l.breaker.score = 1)) (by decide +kernel)
  obtain ⟨hb, hone⟩ := of_decide_eq_true hl
  have hrun : Run (Guarded (Steps step) Ordered) (.fresh (str "r") TRIP_SCORE) flapping l :=
    hr.mono fun {l c _} hs ↦ ⟨hs.1, of_decide_eq_true (p := l.InOrder c.2) hs.2⟩
  have hscore := ((trips_on_score (str "r") TRIP_SCORE (by decide) flapping l hrun).1 hb).1
  exact ⟨l, hrun, hone, hscore⟩

end Logged

end InferenceGateway
