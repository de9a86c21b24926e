import InferenceGateway.Breakers
import InferenceGateway.Upstream.Routing

/-!
# The wait a refused caller is told

`due_for_probe` and `seconds_until_probe` read the same three fields by two different
case distinctions.  Out of rotation both come down to one time, at which the next probe
is due: `dueAt`.  What makes that time exist, and lie at most `MAX_OPEN_SEC` after a
recorded timestamp, is an invariant of every breaker of a running gateway, `Timed`.
-/

namespace InferenceGateway

open Py Transition

namespace ReplicaBreaker

/-- The timestamp the state needs is there, and the wait is within its cap. -/
structure Timed (b : ReplicaBreaker) : Prop where
  opened : b.state = .open → b.openedAt.isSome
  halfOpen : b.state = .halfOpen → b.lastProbeAt.isSome
  openSec : b.openSec ≤ MAX_OPEN_SEC

variable {b : ReplicaBreaker} {kind : FailureKind} {now t : ℚ} {ok suspected : Bool}

theorem Timed.fresh (url : Str) : Timed { url } where
  opened h := by cases h
  halfOpen h := by cases h
  openSec := by
    show INITIAL_OPEN_SEC ≤ MAX_OPEN_SEC
    norm_num [INITIAL_OPEN_SEC, MAX_OPEN_SEC]

theorem Timed.recordFailure (h : b.Timed) (kind : FailureKind) (now : ℚ) :
    (b.recordFailure kind now).Timed := by
  rcases b.recordFailure_cases kind now with ⟨-, hr⟩ | ⟨-, -, hr⟩ | ⟨-, -, -, hr⟩
  · rw [hr]
    exact h
  · rw [hr]
    exact ⟨h.opened, h.halfOpen, h.openSec⟩
  · rw [hr]
    exact ⟨fun _ ↦ rfl, nofun, h.openSec⟩

theorem Timed.fold (h : b.Timed) (outcome : Outcome) (now : ℚ) : (b.fold outcome now).Timed := by
  unfold ReplicaBreaker.fold
  split
  · exact ⟨h.opened, h.halfOpen, h.openSec⟩
  · exact h.recordFailure _ now

theorem Timed.recordWedge (h : b.Timed) (suspected : Bool) (now : ℚ) :
    (b.recordWedge suspected now).Timed := by
  have hconf : ∀ m, Timed { b with wedgeConfirmations := m } :=
    fun _ ↦ ⟨h.opened, h.halfOpen, h.openSec⟩
  rcases b.recordWedge_cases suspected now with ⟨-, hr⟩ | ⟨-, -, hr⟩ | ⟨-, -, -, hr⟩
  · rw [hr]
    exact hconf 0
  · rw [hr]
    exact hconf _
  · rw [hr]
    exact (hconf _).recordFailure .wedge now

theorem Timed.recordProbe (h : b.Timed) (ok suspected : Bool) (now : ℚ) :
    (b.recordProbe ok now suspected).Timed := by
  rcases b.recordProbe_cases ok suspected now with ⟨-, hr⟩ | ⟨-, -, -, hr⟩ | ⟨-, -, -, hr⟩
  · rw [hr]
    exact ⟨fun _ ↦ rfl, nofun, min_le_right _ _⟩
  · rw [hr]
    exact ⟨nofun, fun _ ↦ rfl, h.openSec⟩
  · rw [hr]
    exact ⟨nofun, nofun, (Timed.fresh b.url).openSec⟩

/-! ## When a probe is due -/

/-- No timestamp of the breaker is after `now`. -/
def RecordedBy (b : ReplicaBreaker) (now : ℚ) : Prop :=
  ∀ t, b.openedAt = some t ∨ b.lastProbeAt = some t → t ≤ now

/-- The time from which on a replica out of rotation is due for a probe. -/
def dueAt (b : ReplicaBreaker) : Option ℚ :=
  match b.state with
  | .closed => none
  | .open => b.openedAt.map (· + b.openSec)
  | .halfOpen => b.lastProbeAt.map (· + PROBE_INTERVAL_SEC)

/-- Out of rotation, that time is known, and not far from a recorded one. -/
theorem Timed.exists_dueAt (h : b.Timed) (hb : b.state ≠ .closed) :
    ∃ d, b.dueAt = some d ∧ ∀ now, b.RecordedBy now → d ≤ now + MAX_OPEN_SEC := by
  cases hs : b.state with
  | closed => exact absurd hs hb
  | «open» =>
      obtain ⟨t, ht⟩ := Option.isSome_iff_exists.mp (h.opened hs)
      refine ⟨t + b.openSec, by simp [dueAt, hs, ht], fun now hnow ↦ ?_⟩
      exact add_le_add (hnow t (.inl ht)) h.openSec
  | halfOpen =>
      obtain ⟨t, ht⟩ := Option.isSome_iff_exists.mp (h.halfOpen hs)
      refine ⟨t + PROBE_INTERVAL_SEC, by simp [dueAt, hs, ht], fun now hnow ↦ ?_⟩
      refine add_le_add (hnow t (.inr ht)) ?_
      norm_num [PROBE_INTERVAL_SEC, MAX_OPEN_SEC]

/-- `due_for_probe`, by that time. -/
theorem dueForProbe_iff {d : ℚ} (hd : b.dueAt = some d) : b.dueForProbe t ↔ d ≤ t := by
  unfold dueAt at hd
  unfold dueForProbe
  cases hs : b.state with
  | closed =>
      rw [hs] at hd
      cases hd
  | «open» =>
      rw [hs] at hd
      obtain ⟨t₀, ht₀, rfl⟩ := Option.map_eq_some_iff.mp hd
      simp only [ht₀, decide_eq_true_eq]
      exact le_sub_iff_add_le'
  | halfOpen =>
      rw [hs] at hd
      obtain ⟨t₀, ht₀, rfl⟩ := Option.map_eq_some_iff.mp hd
      simp only [ht₀, decide_eq_true_eq]
      exact le_sub_iff_add_le'

/-- `seconds_until_probe`, by that time. -/
theorem secondsUntilProbe_eq {d : ℚ} (hd : b.dueAt = some d) :
    b.secondsUntilProbe t = max 0 (d - t) := by
  unfold dueAt at hd
  unfold secondsUntilProbe
  cases hs : b.state with
  | closed =>
      rw [hs] at hd
      cases hd
  | «open» =>
      rw [hs] at hd
      obtain ⟨t₀, ht₀, rfl⟩ := Option.map_eq_some_iff.mp hd
      simp only [ht₀]
      congr 1
      ring
  | halfOpen =>
      rw [hs] at hd
      obtain ⟨t₀, ht₀, rfl⟩ := Option.map_eq_some_iff.mp hd
      simp only [ht₀]
      congr 1
      ring

/-- The two functions agree: the replica is due exactly when there is nothing left to wait,
and otherwise at the end of the wait and not before. -/
theorem Timed.due_iff_wait (h : b.Timed) (hb : b.state ≠ .closed) (t : ℚ) :
    (b.dueForProbe t ↔ b.secondsUntilProbe t = 0) ∧
      (0 < b.secondsUntilProbe t → b.dueForProbe (t + b.secondsUntilProbe t) ∧
        ∀ t', t' < t + b.secondsUntilProbe t → ¬b.dueForProbe t') := by
  obtain ⟨d, hd, -⟩ := h.exists_dueAt hb
  simp only [dueForProbe_iff hd, secondsUntilProbe_eq hd]
  refine ⟨?_, fun hpos ↦ ?_⟩
  · rw [max_eq_left_iff, sub_nonpos]
  · have hlt : 0 < d - t := by
      rcases lt_max_iff.mp hpos with hc | hc
      · exact absurd hc (lt_irrefl 0)
      · exact hc
    rw [max_eq_right hlt.le, add_sub_cancel]
    exact ⟨le_rfl, fun t' ht' ↦ not_le.mpr ht'⟩

end ReplicaBreaker

namespace UpstreamPool

variable {p : UpstreamPool} {σ : Settings} {now : ℚ} {exclude : Option Str}

/-- The least wait is the wait of a replica. -/
theorem exists_minWait (p : UpstreamPool) (σ : Settings) (now : ℚ) :
    ∃ u ∈ p.urls, p.minWait σ now = (p.breaker u).secondsUntilProbe now := by
  have hfold : ∀ (ws : List ℚ) (w : ℚ), ws.foldl min w ∈ w :: ws := by
    intro ws
    induction ws with
    | nil => exact fun w ↦ List.mem_cons_self
    | cons v ws ih =>
        intro w
        rcases List.mem_cons.mp (ih (min w v)) with h | h
        · rw [List.foldl_cons, h]
          rcases min_choice w v with hm | hm <;> simp [hm]
        · exact List.mem_cons_of_mem _ (List.mem_cons_of_mem _ h)
  have hmem : p.minWait σ now ∈ p.urls.map fun u ↦ (p.breaker u).secondsUntilProbe now := by
    unfold minWait
    cases hw : p.urls.map fun u ↦ (p.breaker u).secondsUntilProbe now with
    | nil => exact absurd (List.map_eq_nil_iff.mp hw) p.urls_ne_nil
    | cons w ws => exact hfold ws w
  obtain ⟨u, hu, h⟩ := List.mem_map.mp hmem
  exact ⟨u, hu, h.symm⟩

end UpstreamPool

/-! ## The process -/

namespace System

variable {rt : Runtime} {σ : Settings} {s s' : System} {e : Event} {es : List Event} {u : Str}

/-- Every step keeps the timestamps of a breaker in shape. -/
theorem Moves.timed (h : Moves rt σ s e s') (ht : (s.breaker u).Timed) : (s'.breaker u).Timed := by
  apply h.breaker_of
  · intro i x now r outcome _ _ _
    exact ht.fold outcome now
  · rintro i x now r f b - - - ⟨e', -, rfl⟩
    exact ht.recordFailure .connect now
  · intro started left ok now _ _
    exact ht.recordProbe ok _ now
  · intro b started now hb _
    exact hb.recordWedge _ started
  · exact ht

theorem timed_of_run {urls : List Str} {h : urls ≠ []} (hr : Runs rt σ (System.start urls h) es s)
    (u : Str) : (s.breaker u).Timed := by
  apply hr.invariant (P := fun s ↦ (s.breaker u).Timed)
  · intro s e s' hs ht
    exact (moves_of_step hs).timed ht
  · rw [breaker_start]
    exact .fresh u

/-- The header of the 503. -/
theorem escalate_allReplicasOpen (w : World) (f : Forward) (started now wait : ℚ)
    (hf : σ.allows f.model) :
    (escalate rt w f started now (.allReplicasOpen wait)).2 =
      .http 503 "all_replicas_open" [("Retry-After", toString (max 1 ⌈wait⌉))] := by
  have hd : f.model.depth ≤ rt.dumpsDepth := by
    rw [depth_of_allows hf]
    exact Nat.zero_le _
  rw [escalate, World.reject_snd, if_pos hd]

/-- A request that comes to a pool without a `CLOSED` replica, with its first attempt or with
a later one, ends in the 503, and is told the least wait. -/
theorem afterRetry_start_of_not_closed (hσ : σ.breakerEnabled) {w : World} {f : Forward}
    (hf : σ.allows f.model) (hc : ∀ u ∈ w.pool.urls, (w.pool.breaker u).state ≠ .closed) (n : ℕ)
    (body : Fields) (attempt : ℕ) (exclude : Option Str) (started now : ℚ) :
    (afterRetry rt σ w f started now
        (Retry.start rt σ n f.streaming w.pool body attempt exclude now)).2 =
      .ended (.raised (.http 503 "all_replicas_open"
        [("Retry-After", toString (max 1 ⌈w.pool.minWait σ now⌉))])) := by
  have hpick : w.pool.pick σ exclude now =
      (.error (.allReplicasOpen (w.pool.minWait σ now)), w.pool) := by
    rcases UpstreamPool.pick_cases w.pool exclude now hσ with ⟨-, hp⟩ | ⟨v, hv, -, -⟩
    · exact hp
    · rw [(UpstreamPool.candidates_eq_nil_iff exclude).mpr hc] at hv
      cases hv
  have hstart : Retry.start rt σ n f.streaming w.pool body attempt exclude now =
      (w.pool, [], .raised (.allReplicasOpen (w.pool.minWait σ now))) := by
    rw [Retry.start, hpick]
  rw [hstart, afterRetry, settle, leaveCall]
  split
  · exact congrArg (fun e ↦ Phase.ended (.raised e)) (escalate_allReplicasOpen _ f started now _ hf)
  · exact congrArg (fun e ↦ Phase.ended (.raised e)) (escalate_allReplicasOpen _ f started now _ hf)

/-- In every state the process can reach: out of rotation, a replica is due for a probe
exactly when its wait is over, and not before; and where no replica is in rotation, a
request that comes to the pool is told a whole number of seconds, from one to
`MAX_OPEN_SEC`, after which one of them is due. -/
theorem retryAfter_honest (rt : Runtime) (σ : Settings) (hσ : σ.breakerEnabled) (urls : List Str)
    (h : urls ≠ []) (es : List Event) (s : System) (hr : Runs rt σ (System.start urls h) es s) :
    (∀ now, (∀ u ∈ s.world.pool.urls,
        (s.breaker u).state ≠ .closed ∧ (s.breaker u).RecordedBy now) →
      ∃ k : ℤ, 1 ≤ k ∧ (k : ℚ) ≤ MAX_OPEN_SEC ∧
        (∃ u ∈ s.world.pool.urls, (s.breaker u).dueForProbe (now + k)) ∧
        ∀ (w : World) (f : Forward) (n attempt : ℕ) (body : Fields) (exclude : Option Str)
          (started : ℚ), w.pool = s.world.pool → σ.allows f.model →
          (afterRetry rt σ w f started now
              (Retry.start rt σ n f.streaming w.pool body attempt exclude now)).2 =
            .ended (.raised (.http 503 "all_replicas_open" [("Retry-After", toString k)]))) ∧
    ∀ u, (s.breaker u).state ≠ .closed → ∀ t,
      ((s.breaker u).dueForProbe t ↔ (s.breaker u).secondsUntilProbe t = 0) ∧
      (0 < (s.breaker u).secondsUntilProbe t →
        (s.breaker u).dueForProbe (t + (s.breaker u).secondsUntilProbe t) ∧
        ∀ t', t' < t + (s.breaker u).secondsUntilProbe t → ¬(s.breaker u).dueForProbe t') := by
  refine ⟨fun now hnow ↦ ?_, fun u hu t ↦ (timed_of_run hr u).due_iff_wait hu t⟩
  obtain ⟨u, hu, hwait⟩ := s.world.pool.exists_minWait σ now
  obtain ⟨hopen, hrec⟩ := hnow u hu
  obtain ⟨d, hd, hle⟩ := (timed_of_run hr u).exists_dueAt hopen
  replace hwait : s.world.pool.minWait σ now = max 0 (d - now) :=
    hwait.trans (ReplicaBreaker.secondsUntilProbe_eq hd)
  have hsixty : MAX_OPEN_SEC = ((60 : ℤ) : ℚ) := by norm_num [MAX_OPEN_SEC]
  refine ⟨max 1 ⌈s.world.pool.minWait σ now⌉, le_max_left _ _, ?_, ⟨u, hu, ?_⟩, ?_⟩
  · rw [hsixty, Int.cast_le, max_le_iff, Int.ceil_le, ← hsixty, hwait]
    refine ⟨by norm_num, max_le (by norm_num [MAX_OPEN_SEC]) ?_⟩
    exact sub_le_iff_le_add'.mpr (hle now hrec)
  · rw [ReplicaBreaker.dueForProbe_iff hd]
    have hceil : d - now ≤ ((max 1 ⌈s.world.pool.minWait σ now⌉ : ℤ) : ℚ) := by
      calc d - now ≤ s.world.pool.minWait σ now := hwait ▸ le_max_right _ _
        _ ≤ (⌈s.world.pool.minWait σ now⌉ : ℚ) := Int.le_ceil _
        _ ≤ ((max 1 ⌈s.world.pool.minWait σ now⌉ : ℤ) : ℚ) := Int.cast_le.mpr (le_max_right _ _)
    exact sub_le_iff_le_add'.mp hceil
  · intro w f n attempt body exclude started hw hf
    rw [← hw]
    exact afterRetry_start_of_not_closed hσ hf (hw ▸ fun v hv ↦ (hnow v hv).1) n body attempt
      exclude started now

/-- A pool of one replica, two seconds after it was taken out of rotation. -/
theorem retryAfter_honest_refused : ∃ s, ∃ k : ℤ,
    Runs .sample .default sampleSystem sixRefused s ∧ 1 ≤ k ∧ (k : ℚ) ≤ MAX_OPEN_SEC ∧
      ∃ u ∈ s.world.pool.urls, (s.breaker u).dueForProbe (3 + k) := by
  obtain ⟨s, hr, hs⟩ := Run.exists_of_exec (step .sample .default) sampleSystem sixRefused
    (fun s ↦ decide (s.world.pool.urls = [sampleUrl] ∧ (s.breaker sampleUrl).state = .open ∧
      (s.breaker sampleUrl).openedAt = some 1 ∧ (s.breaker sampleUrl).lastProbeAt = none))
    (by decide +kernel)
  obtain ⟨hurls, hopen, hopened, hprobe⟩ := of_decide_eq_true hs
  have honest := retryAfter_honest .sample .default rfl [sampleUrl] (List.cons_ne_nil _ _)
    sixRefused s hr
  obtain ⟨k, hpos, hle, hdue, -⟩ := honest.1 3 (by
    intro u hu
    rw [hurls, List.mem_singleton] at hu
    subst hu
    refine ⟨by rw [hopen]; exact BreakerState.noConfusion, ?_⟩
    rintro t (ht | ht)
    · rw [hopened] at ht
      obtain rfl := Option.some.inj ht
      norm_num
    · rw [hprobe] at ht
      cases ht)
  exact ⟨s, k, hr, hpos, hle, hdue⟩

end System

end InferenceGateway
