import InferenceGateway.Recovery
import InferenceGateway.Transition.Rounds
import InferenceGateway.Upstream.Stall
import InferenceGateway.Wedge

/-!
# The way out of rotation of a wedged replica

A wedged replica answers its probes and its scrapes and completes nothing.  What takes it out of
rotation takes three tasks: the scrape loop, which needs two scrapes to see that the counter of
generated tokens stands still; the window, which has to pass after the second; and the prober, which
needs two rounds to act.  Scrapes and probes work in rounds, each at its own beat, so here the clock has
two of them.
-/

namespace InferenceGateway

open Py Transition

/-- The scrape loop starts a round. -/
def Event.isPoll : Event → Bool
  | .poll _ => true
  | _ => false

/-- The scrape loop is scraping `u`, or has not come to it yet. -/
def Scraper.Ahead (u : Str) : Scraper → Prop
  | .scraping _ url left => u ∈ url :: left
  | .asleep => False

/-! ## Who is visited -/

/-- A replica of the pool, with its breaker in the registry. -/
structure UpstreamPool.Registered (u : Str) (p : UpstreamPool) : Prop where
  listed : u ∈ p.urls
  breaker : u ∈ p.breakers.map Prod.fst

namespace UpstreamPool

variable {p : UpstreamPool} {u v : Str} {b : ReplicaBreaker}

theorem mem_keys_set {d : Dict Str ReplicaBreaker} :
    u ∈ (d.set v b).map Prod.fst ↔ u = v ∨ u ∈ d.map Prod.fst := by
  induction d with
  | nil => simp [Dict.set]
  | cons kv d ih =>
      obtain ⟨k, b'⟩ := kv
      rw [Dict.set]
      split
      · rename_i hk
        obtain rfl := LawfulBEq.eq_of_beq hk
        simp
      · rw [List.map_cons, List.mem_cons, ih, List.map_cons, List.mem_cons]
        exact or_left_comm

theorem mem_keys_resetBreakers {urls : List Str} :
    u ∈ (resetBreakers urls).map Prod.fst ↔ u ∈ urls := by
  induction urls using List.reverseRecOn with
  | nil => rfl
  | append_singleton urls v ih =>
      rw [resetBreakers, List.foldl_append, List.foldl_cons, List.foldl_nil, mem_keys_set,
        List.mem_append, List.mem_singleton]
      exact or_comm.trans (or_congr_left ih)

theorem Registered.setBreaker (h : p.Registered u) (v : Str) (b : ReplicaBreaker) :
    (p.setBreaker v b).Registered u :=
  ⟨h.listed, mem_keys_set.mpr (.inr h.breaker)⟩

theorem Registered.pick (h : p.Registered u) (σ : Settings) (exclude : Option Str) (now : ℚ) :
    (p.pick σ exclude now).2.Registered u := by
  unfold UpstreamPool.pick
  split
  · exact ⟨h.listed, h.breaker⟩
  · split
    · exact h
    · exact ⟨h.listed, h.breaker⟩

end UpstreamPool

section Pool

variable {rt : Runtime} {σ : Settings} {P : UpstreamPool → Prop}
  (hpick : ∀ p exclude now, P p → P (p.pick σ exclude now).2)
  (hset : ∀ p v b, P p → P (p.setBreaker v b))

include hpick hset

omit hpick in
theorem UpstreamPool.record_pool {p : UpstreamPool} {u : Str} {outcome : Outcome} {now : ℚ} (hP : P p) :
    P (p.record u outcome now) := by
  rw [UpstreamPool.record_eq]
  exact hset p u _ hP

/-- What a pick and a change of a breaker keep, the head of an iteration keeps. -/
theorem Retry.start_pool {n a : ℕ} {stream : Bool} {p p' : UpstreamPool} {body : Fields}
    {exclude : Option Str} {now : ℚ} {calls : List MetricCall} {r : Retry}
    (h : Retry.start rt σ n stream p body a exclude now = (p', calls, r)) (hP : P p) : P p' := by
  have hp := hpick p exclude now hP
  cases h ▸ Retry.start_cases rt σ n stream p body a exclude now with
  | refused hpicked hs =>
      cases hs
      rw [hpicked] at hp
      exact hp
  | unencoded hpicked _ hs =>
      cases hs
      rw [hpicked] at hp
      exact UpstreamPool.record_pool hset hp
  | sent hpicked _ hs =>
      cases hs
      rw [hpicked] at hp
      exact hp

/-- And so does the rest of the loop. -/
theorem Retry.resume_pool {n : ℕ} {stream : Bool} {p p' : UpstreamPool} {body : Fields} {r r' : Retry}
    {x : Input} {now : ℚ} {calls : List MetricCall}
    (h : r.resume rt σ n stream p body x now = some (p', calls, r')) (hP : P p) : P p' := by
  cases Retry.resumes_of_resume h with
  | ended _ _ hs =>
      cases hs
      exact UpstreamPool.record_pool hset hP
  | closed _ _ hs =>
      cases hs
      exact hP
  | woken _ _ hs => exact Retry.start_pool hpick hset hs.symm hP
  | thrown _ _ hs =>
      cases hs
      exact hP

/-- And so does a step of a request. -/
theorem Moves.pool_of {q : Principal} {started now : ℚ} {w : World} {phase : Phase} {x : Input}
    {m : World × Phase} (h : Moves rt σ q started now w phase x m) (hP : P w.pool) : P m.1.pool := by
  cases h with
  | refused hp =>
      obtain ⟨_, _, rfl⟩ := prepare_error hp
      exact hP
  | admitted hp hs =>
      rw [afterRetry_pool]
      exact Retry.start_pool hpick hset hs ((prepare_ok hp).pool.symm ▸ hP)
  | called hr =>
      rw [afterRetry_pool]
      exact Retry.resume_pool hpick hset hr hP
  | drainClosed => exact leaveDrain_pool.symm ▸ hP
  | drainFailed g => exact leaveCall_pool.symm ▸ hP
  | finished _ => exact finishStream_pool.symm ▸ hP
  | _ => exact hP

omit hpick in
theorem System.visit_pool {ds : Detectors} {started now : ℚ} {p : UpstreamPool} {left : List Str}
    (hP : P p) : P (System.visit ds started now p left).1 := by
  induction left generalizing p with
  | nil => exact hP
  | cons url left ih =>
      rw [System.visit]
      split
      · exact ih (hset p url _ hP)
      · split
        · exact hP
        · exact ih hP

/-- And so does every step of the process. -/
theorem System.Moves.pool_of {s s' : System} {e : Event} (h : System.Moves rt σ s e s')
    (hP : P s.world.pool) : P s'.world.pool := by
  cases h with
  | resume _ hm => exact hm.pool_of hpick hset hP
  | tick now _ => exact System.visit_pool hset hP
  | probed ok now _ => exact System.visit_pool hset (hset _ _ _ hP)
  | _ => exact hP

end Pool

/-! ## One breaker, one detector -/

namespace ReplicaBreaker

variable {b b' : ReplicaBreaker} {now : ℚ}

/-- From `b` a breaker came one verdict nearer to opening, or opened. -/
def Confirmed (b b' : ReplicaBreaker) : Prop :=
  b'.state ≠ .closed ∨ b.wedgeConfirmations = 0 ∧ 0 < b'.wedgeConfirmations

/-- A second verdict opens a breaker, whatever its score. -/
theorem recordWedge_opens (hc : b.state = .closed) (ht : b.tripScore = TRIP_SCORE)
    (hconf : 0 < b.wedgeConfirmations) : (b.recordWedge true now).state ≠ .closed := by
  rcases b.recordWedge_cases true now with ⟨hs, -⟩ | ⟨-, hnot, -⟩ | ⟨-, -, -, h⟩
  · cases hs
  · exact absurd ⟨hconf, hc⟩ hnot
  · rw [h]
    rcases recordFailure_cases { b with wedgeConfirmations := b.wedgeConfirmations + 1 } .wedge now
      with ⟨hw, -⟩ | ⟨-, hlow, -⟩ | ⟨-, -, -, h⟩
    · cases hw
    · have hle : b.threshold now ≤ TRIP_SCORE := ht ▸ threshold_le (ht ▸ (by decide : 0 < TRIP_SCORE))
      exact absurd ⟨hc, hle.trans (Nat.le_add_left 6 b.score)⟩ hlow
    · rw [h]
      exact BreakerState.noConfusion

/-- A verdict confirms. -/
theorem confirmed_recordWedge (hc : b.state = .closed) (ht : b.tripScore = TRIP_SCORE) :
    Confirmed b (b.recordWedge true now) := by
  rcases Nat.eq_zero_or_pos b.wedgeConfirmations with hzero | hpos
  · rcases b.recordWedge_cases true now with ⟨hs, -⟩ | ⟨-, -, h⟩ | ⟨-, hone, -, -⟩
    · cases hs
    · rw [h]
      exact .inr ⟨hzero, Nat.succ_pos _⟩
    · omega
  · exact .inl (recordWedge_opens hc ht hpos)

/-- And so do more of them. -/
theorem Confirmed.recordWedge (h : Confirmed b b') (hc : b'.state = .closed)
    (ht : b'.tripScore = TRIP_SCORE) : Confirmed b (b'.recordWedge true now) := by
  rcases h with hopen | ⟨-, hpos⟩
  · exact absurd hc hopen
  · exact .inl (recordWedge_opens hc ht hpos)

/-- A failure opens a breaker, or leaves the confirmations. -/
theorem recordFailure_confirmations (b : ReplicaBreaker) (kind : FailureKind) (now : ℚ) :
    (b.recordFailure kind now).state ≠ .closed ∨
      (b.recordFailure kind now).wedgeConfirmations = b.wedgeConfirmations := by
  rcases b.recordFailure_cases kind now with ⟨-, h⟩ | ⟨-, -, h⟩ | ⟨-, -, -, h⟩
  · exact .inr (by rw [h])
  · exact .inr (by rw [h]; rfl)
  · left
    rw [h]
    exact BreakerState.noConfusion

end ReplicaBreaker

namespace WedgeDetector

variable {d : WedgeDetector} {s : Snapshot} {g : Double} {now : ℚ}

theorem observe_of_genTokens (h : s.genTokens = some g) : (d.observe s now).lastGenTokens = some g := by
  unfold observe
  rw [h]
  cases d.lastGenTokens with
  | none => rfl
  | some previous => rfl

/-- Where the counter stands, and work is waiting, there is a stall. -/
theorem observe_of_stands (h : s.genTokens = some g) (hd : d.lastGenTokens = some g) (hg : g.eq g)
    (hw : (Double.finite 0).lt s.waiting) :
    (d.observe s now).stallSince = some (d.stallSince.getD now) := by
  unfold observe
  rw [h, hd]
  simp [Double.lt_irrefl, hg, hw]

/-- A stall begins with a scrape. -/
theorem observe_stallSince {t : ℚ} (h : t ∈ (d.observe s now).stallSince) :
    t = now ∨ d.stallSince = some t := by
  unfold observe at h
  split at h
  · exact .inr h
  · split at h
    · exact .inr h
    · dsimp only at h
      split at h
      · cases h
      · split at h
        · cases hd : d.stallSince with
          | none =>
              rw [hd] at h
              exact .inl (Option.some.inj h).symm
          | some t' =>
              rw [hd] at h
              exact .inr h
        · cases h

end WedgeDetector

namespace System

variable {rt : Runtime} {σ : Settings} {s s' : System} {e : Event} {es : List Event} {u : Str}
  {ds : Detectors} {started now : ℚ} {p : UpstreamPool} {left : List Str} {g : Double} {k : ℕ}

/-! ## A wedged replica -/

/-- What a wedged replica shows of itself: every scrape of it has requests waiting and `g` tokens
generated, and no attempt on it is recorded as a success. -/
def wedged (g : Double) (u : Str) (s : System) : Event → Bool
  | .scraped result _ => match s.scraper with
    | .scraping _ url _ => url ≠ u || result.any fun snapshot ↦
        (Double.finite 0).lt snapshot.waiting && snapshot.genTokens = some g
    | .asleep => true
  | .resume i x _ => s.requests[i]?.all fun r ↦ (r.phase.outcome? x).all fun o ↦
      o.1 ≠ u || (classify o.2).isSome
  | _ => true

theorem of_wedged_scraped {result : Option Snapshot} (h : wedged g u s (.scraped result now))
    (hs : s.scraper = .scraping started u left) : ∃ snapshot, result = some snapshot ∧
      (Double.finite 0).lt snapshot.waiting ∧ snapshot.genTokens = some g := by
  simp only [wedged, hs, ne_eq, not_true_eq_false, decide_false, Bool.false_or, Option.any_eq_true,
    Bool.and_eq_true, decide_eq_true_eq] at h
  exact h

theorem of_wedged_resume {i : ℕ} {x : Input} {r : Request} {outcome : Outcome}
    (h : wedged g u s (.resume i x now)) (hr : s.requests[i]? = some r)
    (ho : r.phase.outcome? x = some (u, outcome)) : ∃ kind, classify outcome = some kind := by
  simp only [wedged, hr, Option.all_some, ho, ne_eq, not_true_eq_false, decide_false,
    Bool.false_or] at h
  exact Option.isSome_iff_exists.mp h

/-- The counter is known to stand at `g`. -/
def Known (σ : Settings) (g : Double) (u : Str) (s : System) : Prop :=
  (s.detectors.get σ u).lastGenTokens = some g

/-- It is known to have stood there since `t`. -/
def Stalled (σ : Settings) (g : Double) (u : Str) (t : ℚ) (s : System) : Prop :=
  Known σ g u s ∧ (s.detectors.get σ u).stallSince = some t

/-- A scrape of `u` makes the counter known, and a stall of it once it is known. -/
theorem Moves.scraped_wedged {result : Option Snapshot} (h : Moves rt σ s (.scraped result now) s')
    (hw : wedged g u s (.scraped result now)) (hg : g.eq g) (hs : s.scraper = .scraping started u left) :
    Known σ g u s' ∧ (Known σ g u s →
      Stalled σ g u ((s.detectors.get σ u).stallSince.getD started) s') := by
  obtain ⟨snapshot, rfl, hwaiting, hgen⟩ := of_wedged_scraped hw hs
  have hd := h.detector_of_scraped hs
  have hknown : Known σ g u s' := by
    rw [Known, hd]
    exact WedgeDetector.observe_of_genTokens hgen
  refine ⟨hknown, fun hlast ↦ ⟨hknown, ?_⟩⟩
  rw [hd]
  exact WedgeDetector.observe_of_stands hgen hlast hg hwaiting

/-- What else happens leaves its detector alone. -/
theorem Moves.detector_unscraped (h : Moves rt σ s e s')
    (hs : ∀ result now started left, e = .scraped result now → s.scraper ≠ .scraping started u left) :
    s'.detectors.get σ u = s.detectors.get σ u := by
  rcases h.detector u with hd | ⟨started, left, snapshot, now, hscraper, rfl, -⟩
  · exact hd
  · exact absurd hscraper (hs _ _ _ _ rfl)

/-- A stall goes on. -/
theorem Moves.stalled {t : ℚ} (h : Moves rt σ s e s') (hw : wedged g u s e) (hg : g.eq g)
    (hs : Stalled σ g u t s) : Stalled σ g u t s' := by
  rcases h.detector u with hd | ⟨started, left, snapshot, now, hscraper, rfl, -⟩
  · rw [Stalled, Known, hd]
    exact hs
  · have := (h.scraped_wedged hw hg hscraper).2 hs.1
    rw [hs.2] at this
    exact this

/-! ## One round -/

/-- A round of scrapes comes to every replica of the pool. -/
theorem pollNext_ahead (hu : u ∈ left) : (pollNext σ ds now left).2.Ahead u := by
  cases left with
  | nil => cases hu
  | cons url left => exact hu

/-- A round of the prober passes on to a replica in rotation the verdict of its detector, if it does not
wait for a probe before. -/
theorem visit_confirmed (hu : u ∈ left) (hc : (p.breaker u).state = .closed)
    (ht : (p.breaker u).tripScore = TRIP_SCORE) (hsus : ds.wedgeSuspected u now = true) :
    (visit ds started now p left).2.Ahead u ∧
        (visit ds started now p left).1.breaker u = p.breaker u ∨
      ReplicaBreaker.Confirmed (p.breaker u) ((visit ds started now p left).1.breaker u) := by
  induction left generalizing p with
  | nil => cases hu
  | cons url left ih =>
      rw [visit]
      by_cases hurl : u = url
      · -- its turn: what comes after can only confirm it more
        subst hurl
        rw [if_pos hc]
        right
        refine (visit_breaker (P := fun b ↦ b.tripScore = TRIP_SCORE ∧
          ReplicaBreaker.Confirmed (p.breaker u) b) (fun b hb hclosed ↦ ?_) ?_).2
        · rw [hsus]
          exact ⟨ReplicaBreaker.recordWedge_tripScore.trans hb.1, hb.2.recordWedge hclosed hb.1⟩
        · rw [UpstreamPool.breaker_setBreaker_self, hsus]
          exact ⟨ReplicaBreaker.recordWedge_tripScore.trans ht,
            ReplicaBreaker.confirmed_recordWedge hc ht⟩
      · have hu' : u ∈ left := (List.mem_cons.mp hu).resolve_left hurl
        split
        · have hsame (b : ReplicaBreaker) : (p.setBreaker url b).breaker u = p.breaker u :=
            UpstreamPool.breaker_setBreaker_of_ne hurl
          rw [← hsame] at hc ht ⊢
          exact ih hu' hc ht
        · split
          · exact .inl ⟨hu, rfl⟩
          · exact ih hu' hc ht

/-- A round that does not come to a replica does nothing to it. -/
theorem visit_of_not_mem (hu : u ∉ left) : (visit ds started now p left).1.breaker u = p.breaker u := by
  induction left generalizing p with
  | nil => rfl
  | cons url left ih =>
      obtain ⟨hne, hu'⟩ := not_or.mp (List.mem_cons.not.mp hu)
      rw [visit]
      split
      · rw [ih hu', UpstreamPool.breaker_setBreaker_of_ne hne]
      · split
        · rfl
        · exact ih hu'

/-! ## The clock -/

/-- The process with its clock, whose beats are the starts of a round of the prober and of one of
scrapes. -/
abbrev Watched := Clocked Timed ℚ

/-- One step of the process at its time. -/
abbrev watchedStep (rt : Runtime) (σ : Settings) : Watched → Event → Option Watched :=
  Clocked.next (timedStep rt σ) Event.time Event.isPoll

/-- A round of scrapes begins at least every `Δ`: the sleep and the scrapes take no longer. -/
abbrev Polls (Δ : ℚ) : Watched → Event → Prop := Clocked.Steady Event.time Δ

/-- What a step of the clock is. -/
structure Ticks (rt : Runtime) (σ : Settings) (c : Watched) (e : Event) (c' : Watched) : Prop where
  moves : Moves rt σ c.state.state e c'.state.state
  le : c.now ≤ e.time
  now : c'.now = e.time
  poll : c'.beat = if e.isPoll then e.time else c.beat
  tick : c'.state.beat = if e.isTick then e.time else c.state.beat

theorem ticks_of_step {c c' : Watched} (h : Steps (watchedStep rt σ) c e c') : Ticks rt σ c e c' := by
  obtain ⟨hs, hle, hnow, hbeat⟩ := Clocked.of_next h
  obtain ⟨hs', -, -, hbeat'⟩ := Clocked.of_next hs
  exact ⟨moves_of_step hs', hle, hnow, hbeat, hbeat'⟩

/-- What is known of the process, its clock and a replica in every run. -/
structure Watch (σ : Settings) (u : Str) (c : Watched) : Prop where
  registered : c.state.state.world.pool.Registered u
  rated : Rated c.state.state
  tracked : Tracked σ c.state.state
  polled : c.beat ≤ c.now
  ticked : c.state.beat ≤ c.now
  scraping : ∀ started url left, c.state.state.scraper = .scraping started url left → started ≤ c.now
  stalled : ∀ t ∈ (c.state.state.detectors.get σ u).stallSince, t ≤ c.now

theorem Watch.start {urls : List Str} (h : urls ≠ []) (hu : u ∈ urls) (now : ℚ) :
    Watch σ u (.start (.start (System.start urls h) now) now) where
  registered := ⟨hu, UpstreamPool.mem_keys_resetBreakers.mpr hu⟩
  rated := .start urls h
  tracked := .start urls h
  polled := le_rfl
  ticked := le_rfl
  scraping _ _ _ hs := by cases hs
  stalled t ht := by cases ht

theorem pollNext_started {url : Str} {started' : ℚ} {left' : List Str}
    (h : (pollNext σ ds now left).2 = .scraping started' url left') : started' = now := by
  cases left with
  | nil => cases h
  | cons v left =>
      cases h
      rfl

theorem Moves.scraper_started {url : Str} (h : Moves rt σ s e s')
    (hs : s'.scraper = .scraping started url left) :
    s.scraper = .scraping started url left ∨ started = e.time := by
  cases h with
  | poll now _ => exact .inr (pollNext_started hs)
  | scraped result now _ => exact .inr (pollNext_started hs)
  | _ => exact .inl hs

theorem Moves.asleep_of_poll (h : Moves rt σ s e s') (he : e.isPoll) : s.scraper = .asleep := by
  cases h with
  | poll now hs => exact hs
  | _ => cases he

/-- A replica is scraped, or it is ahead in the round, or has been passed in it. -/
theorem Moves.scrapes (h : Moves rt σ s e s') (hu : u ∈ s.world.pool.urls) :
    (∃ started left result now, s.scraper = .scraping started u left ∧ e = .scraped result now) ∨
      s'.detectors.get σ u = s.detectors.get σ u ∧
        (s'.scraper.Ahead u ∨ ¬s.scraper.Ahead u ∧ e.isPoll = false) := by
  by_cases hserved : ∃ started left result now, s.scraper = .scraping started u left ∧
      e = .scraped result now
  · exact .inl hserved
  · refine .inr ⟨h.detector_unscraped fun result now started left he hs ↦ hserved
      ⟨started, left, result, now, hs, he⟩, ?_⟩
    have hkeep (hscraper : s'.scraper = s.scraper) (hpoll : e.isPoll = false) :
        s'.scraper.Ahead u ∨ ¬s.scraper.Ahead u ∧ e.isPoll = false := by
      rw [hscraper]
      exact (em _).imp_right fun hnot ↦ ⟨hnot, hpoll⟩
    cases h with
    | poll now _ => exact .inl (pollNext_ahead hu)
    | @scraped started url left result now hs =>
        rw [hs]
        by_cases hahead : u ∈ url :: left
        · rcases List.mem_cons.mp hahead with rfl | hleft
          · exact absurd ⟨started, left, result, now, hs, rfl⟩ hserved
          · exact .inl (pollNext_ahead hleft)
        · exact .inr ⟨hahead, rfl⟩
    | _ => exact hkeep rfl rfl

/-- A request does nothing to the breaker of a wedged replica, or fails. -/
theorem Moves.failed {i : ℕ} {x : Input} (h : Moves rt σ s (.resume i x now) s')
    (hw : wedged g u s (.resume i x now)) : s'.breaker u = s.breaker u ∨
      ∃ kind, s'.breaker u = (s.breaker u).recordFailure kind now := by
  cases h with
  | @resume i x now r m hr hm =>
      cases ho : r.phase.outcome? x with
      | none =>
          rcases hm.breaker ho u with hsame | ⟨f, -, e', -, hconn⟩
          · exact .inl hsame
          · exact .inr ⟨.connect, hconn⟩
      | some vo =>
          obtain ⟨v, outcome⟩ := vo
          have hpool := hm.outcome ho
          by_cases hv : u = v
          · subst hv
            obtain ⟨kind, hkind⟩ := of_wedged_resume hw hr ho
            refine .inr ⟨kind, ?_⟩
            change m.1.pool.breaker u = _
            rw [hpool, UpstreamPool.breaker_record_self, ReplicaBreaker.fold, hkind]
            rfl
          · left
            change m.1.pool.breaker u = _
            rw [hpool, UpstreamPool.breaker_record_of_ne hv]
            rfl

/-- A replica in rotation that is suspected gets the verdict, or it is ahead in the round, or has been
passed in it. -/
theorem Moves.verdict (h : Moves rt σ s e s') (hw : wedged g u s e)
    (hu : u ∈ s.world.pool.breakers.map Prod.fst) (hr : Rated s) (hc : (s.breaker u).state = .closed)
    (hsus : s.detectors.wedgeSuspected u e.time = true) :
    ReplicaBreaker.Confirmed (s.breaker u) (s'.breaker u) ∨
      (s'.breaker u).wedgeConfirmations = (s.breaker u).wedgeConfirmations ∧
        (s'.prober.Ahead u ∨ ¬s.prober.Ahead u ∧ e.isTick = false) := by
  have htrip := hr.tripScore u
  cases e with
  | resume i x now =>
      have hprober : s'.prober = s.prober := (h.called u).1
      rw [hprober]
      rcases h.failed hw with hsame | ⟨kind, hfail⟩
      · exact .inr ⟨by rw [hsame], (em _).imp_right fun hnot ↦ ⟨hnot, rfl⟩⟩
      · rw [hfail]
        rcases (s.breaker u).recordFailure_confirmations kind now with hopen | hsame
        · exact .inl (.inl hopen)
        · exact .inr ⟨hsame, (em _).imp_right fun hnot ↦ ⟨hnot, rfl⟩⟩
  | tick now =>
      cases h with
      | tick _ _ =>
          rcases visit_confirmed (p := s.world.pool) (u := u) hu hc htrip hsus with ⟨hahead, hsame⟩ | hconf
          · exact .inr ⟨congrArg _ hsame, .inl hahead⟩
          · exact .inl hconf
  | probed ok now =>
      cases h with
      | @probed started url left _ _ hprober =>
          have hne : u ≠ url := by
            rintro rfl
            exact hr.probing started u left hprober hc
          have hsame (b : ReplicaBreaker) : (s.world.pool.setBreaker url b).breaker u = s.breaker u :=
            UpstreamPool.breaker_setBreaker_of_ne hne
          by_cases hleft : u ∈ left
          · rw [← hsame] at hc htrip ⊢
            rcases visit_confirmed hleft hc htrip hsus with ⟨hahead, heq⟩ | hconf
            · exact .inr ⟨congrArg _ heq, .inl hahead⟩
            · exact .inl hconf
          · refine .inr ⟨congrArg _ ((visit_of_not_mem hleft).trans (hsame _)), .inr ⟨?_, rfl⟩⟩
            rw [hprober]
            exact List.mem_cons.not.mpr (not_or.mpr ⟨hne, hleft⟩)
  | _ =>
      cases h
      exact .inr ⟨rfl, (em _).imp_right fun hnot ↦ ⟨hnot, rfl⟩⟩

theorem Watch.step {c c' : Watched} (h : Watch σ u c) (hs : Ticks rt σ c e c') : Watch σ u c' := by
  have hmoves := hs.moves
  have hbeats {x y : ℚ} {b : Bool} (hy : y = if b then e.time else x) (hx : x ≤ c.now) : y ≤ c'.now := by
    rw [hs.now, hy]
    split
    · exact le_rfl
    · exact hx.trans hs.le
  refine ⟨?_, h.rated.step hmoves, h.tracked.step hmoves, hbeats hs.poll h.polled,
    hbeats hs.tick h.ticked, ?_, ?_⟩
  · exact hmoves.pool_of (fun p exclude now hp ↦ hp.pick σ exclude now) (fun p v b hp ↦ hp.setBreaker v b)
      h.registered
  · intro started url left hscraper
    rw [hs.now]
    rcases hmoves.scraper_started hscraper with hsame | rfl
    · exact (h.scraping started url left hsame).trans hs.le
    · exact le_rfl
  · intro t ht
    rw [hs.now]
    rcases hmoves.detector u with hd | ⟨started, left, snapshot, now, hscraper, -, hd⟩
    · rw [hd] at ht
      exact (h.stalled t ht).trans hs.le
    · rw [hd] at ht
      rcases WedgeDetector.observe_stallSince ht with rfl | hold
      · exact (h.scraping t u left hscraper).trans hs.le
      · exact (h.stalled t hold).trans hs.le

/-! ## The stages -/

/-- The steps of a run in which the replica is wedged. -/
abbrev WedgedSteps (rt : Runtime) (σ : Settings) (P D : ℚ) (g : Double) (u : Str) :
    Watched → Event → Watched → Prop :=
  Guarded (Steps (watchedStep rt σ)) fun c e ↦
    Polls P c e ∧ Steady D c.state e ∧ wedged g u c.state.state e

variable {P D : ℚ} {c c' : Watched}

/-- Scrapes come in rounds. -/
theorem rounds_polls : Rounds (WedgedSteps rt σ P D g u) (fun c ↦ c.now) (fun c ↦ c.beat)
    (fun c ↦ c.state.state.scraper.Ahead u) P where
  now_le := by
    rintro c e c' ⟨hs, hpolls, -⟩
    exact (ticks_of_step hs).now.trans_le hpolls
  beat_le := by
    rintro c e c' ⟨hs, hpolls, -⟩
    have ht := ticks_of_step hs
    rw [ht.poll]
    split
    · rename_i hpoll
      refine .inr ⟨?_, hpolls⟩
      rw [ht.moves.asleep_of_poll hpoll]
      exact id
    · exact .inl rfl

/-- What has been seen of the stall. -/
def scrapeStage (σ : Settings) (g : Double) (u : Str) : ℕ → Watched → Prop
  | 0, _ => True
  | 1, c => Known σ g u c.state.state
  | _, c => ∃ t, Stalled σ g u t c.state.state

/-- A scrape leads from one stage to the next. -/
theorem leads_scrapes (hg : g.eq g) (hk : k < 2) (hs : WedgedSteps rt σ P D g u c e c')
    (hw : Watch σ u c) (hstage : scrapeStage σ g u k c) :
    Leads (fun c ↦ c.beat) (fun c : Watched ↦ c.state.state.scraper.Ahead u) (scrapeStage σ g u) 2 k c
      c' := by
  obtain ⟨hstep, -, -, hwedged⟩ := hs
  have ht := ticks_of_step hstep
  rcases ht.moves.scrapes hw.registered.listed with
    ⟨started, left, result, now, hscraper, rfl⟩ | ⟨hsame, hround⟩
  · obtain ⟨hknown, hstalled⟩ := ht.moves.scraped_wedged hwedged hg hscraper
    left
    obtain rfl | rfl : k = 0 ∨ k = 1 := by omega
    · exact hknown
    · exact ⟨_, hstalled hstage⟩
  · refine .inr (.inr ⟨?_, ?_⟩)
    · obtain rfl | rfl : k = 0 ∨ k = 1 := by omega
      · exact trivial
      · change (c'.state.state.detectors.get σ u).lastGenTokens = some g
        rw [hsame]
        exact hstage
    · refine hround.imp_right fun ⟨hpassed, hpoll⟩ ↦ ⟨hpassed, ?_⟩
      change c'.beat = c.beat
      rw [ht.poll, hpoll]
      rfl

/-- The prober works in rounds. -/
theorem rounds_ticks : Rounds (WedgedSteps rt σ P D g u) (fun c ↦ c.now) (fun c ↦ c.state.beat)
    (fun c ↦ c.state.state.prober.Ahead u) D where
  now_le := by
    rintro c e c' ⟨hs, -, hsteady, -⟩
    exact (ticks_of_step hs).now.trans_le hsteady
  beat_le := by
    rintro c e c' ⟨hs, -, hsteady, -⟩
    have ht := ticks_of_step hs
    rw [ht.tick]
    split
    · rename_i htick
      refine .inr ⟨?_, hsteady⟩
      rw [ht.moves.asleep_of_tick htick]
      exact id
    · exact .inl rfl

/-- A stall of `u` is on, and the window is over by `b`. -/
def Suspect (σ : Settings) (g : Double) (u : Str) (b : ℚ) (s : System) : Prop :=
  ∃ t, Stalled σ g u t s ∧ t + σ.upstreamWedgeWindowSec ≤ b

theorem Suspect.suspected {b : ℚ} (h : Suspect σ g u b s) (hW : 0 < σ.upstreamWedgeWindowSec)
    (ht : Tracked σ s) (hb : b ≤ now) : s.detectors.wedgeSuspected u now = true := by
  obtain ⟨t, ⟨-, hstall⟩, hle⟩ := h
  rw [Detectors.wedgeSuspected_eq hW]
  have hwindow := (ht u).1
  refine (WedgeDetector.suspected_iff (hwindow.symm ▸ hW)).mpr ⟨t, hstall, ?_⟩
  rw [hwindow]
  exact hle.trans hb

/-- How near the breaker is to opening. -/
def probeStage (u : Str) : ℕ → Watched → Prop
  | 0, c => (c.state.state.breaker u).state = .closed
  | 1, c => (c.state.state.breaker u).state = .closed ∧ 0 < (c.state.state.breaker u).wedgeConfirmations
  | _, c => (c.state.state.breaker u).state ≠ .closed

/-- A verdict leads from one stage to the next. -/
theorem leads_verdicts {b : ℚ} (hk : k < 2) (hs : WedgedSteps rt σ P D g u c e c')
    (hW : 0 < σ.upstreamWedgeWindowSec) (hw : Watch σ u c) (hsuspect : Suspect σ g u b c.state.state)
    (hlate : b < e.time) (hstage : probeStage u k c) :
    Leads (fun c ↦ c.state.beat) (fun c : Watched ↦ c.state.state.prober.Ahead u) (probeStage u) 2 k c
      c' := by
  obtain ⟨hstep, -, -, hwedged⟩ := hs
  have ht := ticks_of_step hstep
  have hclosed : (c.state.state.breaker u).state = .closed := by
    obtain rfl | rfl : k = 0 ∨ k = 1 := by omega
    · exact hstage
    · exact hstage.1
  by_cases hopen : (c'.state.state.breaker u).state = .closed
  · rcases ht.moves.verdict hwedged hw.registered.breaker hw.rated hclosed
      (hsuspect.suspected hW hw.tracked hlate.le) with hconf | ⟨hsame, hround⟩
    · obtain ⟨hzero, hpos⟩ := hconf.resolve_left (not_not.mpr hopen)
      obtain rfl | rfl : k = 0 ∨ k = 1 := by omega
      · exact .inl ⟨hopen, hpos⟩
      · exact absurd hzero hstage.2.ne'
    · refine .inr (.inr ⟨?_, ?_⟩)
      · obtain rfl | rfl : k = 0 ∨ k = 1 := by omega
        · exact hopen
        · exact ⟨hopen, hsame.symm ▸ hstage.2⟩
      · refine hround.imp_right fun ⟨hpassed, htick⟩ ↦ ⟨hpassed, ?_⟩
        change c'.state.beat = c.state.beat
        rw [ht.tick, htick]
        rfl
  · exact .inr (.inl hopen)

/-! ## The deadline -/

/-- Whatever the requests and the other replicas do: if from some time on a replica is wedged, a round of
scrapes begins at least every `P` and a round of the prober at least every `D`, then it is out of
rotation by the time that three times `P`, the window and three times `D` have passed. -/
theorem detects (rt : Runtime) (σ : Settings) (hW : 0 < σ.upstreamWedgeWindowSec) (urls : List Str)
    (h : urls ≠ []) (hu : u ∈ urls) {t₀ : ℚ} (hP : 0 ≤ P) (hD : 0 ≤ D) (hg : g.eq g)
    {es' : List Event}
    (hr : Run (Steps (watchedStep rt σ)) (.start (.start (System.start urls h) t₀) t₀) es c)
    (hr' : Run (WedgedSteps rt σ P D g u) c es' c')
    (hlate : c.now + 3 * P + σ.upstreamWedgeWindowSec + 3 * D < c'.now) :
    ∃ es₁ es₂ q, es' = es₁ ++ es₂ ∧ Run (Steps (watchedStep rt σ)) c es₁ q ∧
      Run (Steps (watchedStep rt σ)) q es₂ c' ∧
      q.now ≤ c.now + 3 * P + σ.upstreamWedgeWindowSec + 3 * D ∧
      (q.state.state.breaker u).state ≠ .closed := by
  have hstart : Watch σ u c :=
    hr.invariant (fun hs hw ↦ hw.step (ticks_of_step hs)) (.start h hu t₀)
  have hrun := hr'.guard_invariant (fun hs hw ↦ hw.step (ticks_of_step hs.1)) hstart
  have hthree (x : ℚ) : (2 + 1) • x = 3 * x := by norm_num
  -- two scrapes
  obtain ⟨es₁, es₂, q₁, rfl, h₁, h₂, ⟨t, hstall⟩, hq₁⟩ :=
    hrun.served (rounds_polls.mono And.left) hP
      (fun k hk _ _ _ hs hstage ↦ leads_scrapes hg hk hs.1 hs.2 hstage) trivial hstart.polled (by
        rw [hthree]
        linarith)
  rw [hthree] at hq₁
  have hwatch₁ : Watch σ u q₁ := h₁.invariant (fun hs hw ↦ hw.step (ticks_of_step hs.1.1)) hstart
  have htime : t ≤ q₁.now := hwatch₁.stalled t hstall.2
  -- the window
  obtain ⟨es₃, es₄, q₂, rfl, h₃, hq₂, h₄⟩ :=
    h₂.split_at (b := c.now + 3 * P + σ.upstreamWedgeWindowSec)
      (fun hs ↦ ⟨(ticks_of_step hs.1.1).now, (ticks_of_step hs.1.1).le⟩) (by linarith)
  have hkeep {b : ℚ} {c c' : Watched} {e : Event} (hs : WedgedSteps rt σ P D g u c e c')
      (hc : Suspect σ g u b c.state.state) : Suspect σ g u b c'.state.state := by
    obtain ⟨t, hstall, hle⟩ := hc
    exact ⟨t, (ticks_of_step hs.1).moves.stalled hs.2.2.2 hg hstall, hle⟩
  have hsuspect : Suspect σ g u (c.now + 3 * P + σ.upstreamWedgeWindowSec) q₂.state.state :=
    h₃.invariant (P := fun c ↦ Suspect σ g u _ c.state.state) (fun hs ↦ hkeep hs.1)
      ⟨t, hstall, by linarith⟩
  have hplain₁ := ((h₁.append h₃).mono fun hs ↦ hs.1.1 : Run (Steps (watchedStep rt σ)) _ _ _)
  by_cases hclosed : (q₂.state.state.breaker u).state = .closed
  · -- two verdicts
    obtain ⟨es₅, es₆, q₃, rfl, h₅, h₆, hopen, hq₃⟩ :=
      (h₄.guard_invariant (P := fun c : Watched ↦ Suspect σ g u _ c.state.state)
        (fun hs ↦ hkeep hs.1.1) hsuspect).served (rounds_ticks.mono fun hs ↦ hs.1.1.1) hD
        (fun k hk _ _ _ hs hstage ↦
          leads_verdicts hk hs.1.1.1 hW hs.1.1.2 hs.2 hs.1.2 hstage) hclosed
        (h₃.invariant (fun hs hw ↦ hw.step (ticks_of_step hs.1.1)) hwatch₁).ticked (by
          rw [hthree]
          linarith)
    rw [hthree] at hq₃
    have hplain₂ := (h₅.mono fun hs ↦ hs.1.1.1.1 : Run (Steps (watchedStep rt σ)) _ _ _)
    refine ⟨es₁ ++ es₃ ++ es₅, es₆, q₃, by simp only [List.append_assoc], hplain₁.append hplain₂,
      h₆.mono fun hs ↦ hs.1.1.1.1, by linarith, hopen⟩
  · refine ⟨es₁ ++ es₃, es₄, q₂, by simp only [List.append_assoc], hplain₁,
      h₄.mono fun hs ↦ hs.1.1.1, by linarith, hclosed⟩

/-- A round of scrapes, and one of the prober. -/
def wedgedRound (now : ℚ) : List Event :=
  [.poll now, .scraped (some (sevenGenerated 1)) now, .tick now]

/-- Eight minutes of a wedged replica, which fails its probes too once it is probed. -/
def wedgedRounds : List Event :=
  [60, 120, 180, 240, 300, 360].flatMap wedgedRound ++ .probed false 361 :: wedgedRound 420 ++
    .probed false 421 :: wedgedRound 480 ++ [.poll 485]

theorem detects_stalled :
    ∃ c' : Watched, ∃ es₁ es₂, ∃ q : Watched, wedgedRounds = es₁ ++ es₂ ∧
      Run (Steps (watchedStep .sample .default)) (.start (.start sampleSystem 0) 0) es₁ q ∧
      Run (Steps (watchedStep .sample .default)) q es₂ c' ∧ q.now ≤ 480 ∧
      (q.state.state.breaker sampleUrl).state ≠ .closed := by
  obtain ⟨c', hr, hc⟩ := Run.exists_of_execWhile (watchedStep .sample .default)
    (fun c e ↦ decide (Polls 60 c e ∧ Steady 60 c.state e ∧
      wedged (.finite 7) sampleUrl c.state.state e)) (.start (.start sampleSystem 0) 0) wedgedRounds
    (fun c : Watched ↦ decide (480 < c.now)) (by decide +kernel)
  have hlate : (0 : ℚ) + 3 * 60 + Settings.default.upstreamWedgeWindowSec + 3 * 60 < c'.now := by
    refine lt_of_le_of_lt ?_ (of_decide_eq_true hc)
    decide +kernel
  obtain ⟨es₁, es₂, q, hes, h₁, h₂, hq, hopen⟩ :=
    detects .sample .default (by decide +kernel) [sampleUrl] (List.cons_ne_nil _ _)
      List.mem_cons_self (by norm_num) (by norm_num) rfl (.nil _)
      (hr.mono fun hs ↦ ⟨hs.1, of_decide_eq_true hs.2⟩) hlate
  refine ⟨c', es₁, es₂, q, hes, h₁, h₂, hq.trans ?_, hopen⟩
  decide +kernel

end System

end InferenceGateway
