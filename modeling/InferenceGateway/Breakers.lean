import InferenceGateway.Sample

/-!
# What opens a breaker

Only three things ever reach the breaker of a replica: an attempt that ends, a
request body that cannot be encoded, and the prober.  `System.Moves.breaker_of` says
so once, as a rule for properties of a breaker.

From it come two results about whole runs.  A breaker stays closed while every
answer has a status below 500 and can be read to its end, and every request that is
let through can be encoded (`System.breakers_stay_closed`).  And a closed breaker opens by the sixth
failed attempt if each of them has failed by the time its headers would be there
(`System.opens_by_sixth`); a stream that breaks off later has already been recorded as
a success.
-/

namespace InferenceGateway

open Py Transition

namespace System

variable {rt : Runtime} {σ : Settings} {s s' : System} {e : Event} {es : List Event} {u : Str}
  {P : ReplicaBreaker → Prop} {ds : Detectors} {started now : ℚ} {p : UpstreamPool}
  {left : List Str}

/-! ## One breaker in one step -/

/-- What a round of the prober keeps of a breaker: it only ever hands a closed one the
verdict of its detector. -/
theorem visit_breaker
    (hwedge : ∀ b, P b → b.state = .closed →
      P (b.recordWedge (ds.wedgeSuspected u now) started))
    (hP : P (p.breaker u)) : P ((visit ds started now p left).1.breaker u) := by
  induction left generalizing p with
  | nil => exact hP
  | cons url left ih =>
      rw [visit]
      split
      · rename_i hc
        apply ih
        by_cases hu : u = url
        · subst hu
          rw [UpstreamPool.breaker_setBreaker_self]
          exact hwedge _ hP hc
        · rw [UpstreamPool.breaker_setBreaker_of_ne hu]
          exact hP
      · split
        · exact hP
        · exact ih hP

/-- The prober only probes replicas that are out of rotation. -/
theorem visit_prober {url : Str} {started' : ℚ} {left' : List Str}
    (h : (visit ds started now p left).2 = .probing started' url left') :
    ((visit ds started now p left).1.breaker url).state ≠ .closed := by
  induction left generalizing p with
  | nil => cases h
  | cons v left ih =>
      rw [visit] at h ⊢
      split at h
      · rename_i hc
        rw [if_pos hc]
        exact ih h
      · rename_i hc
        rw [if_neg hc]
        split at h
        · rename_i hd
          rw [if_pos hd]
          cases h
          exact hc
        · rename_i hd
          rw [if_neg hd]
          exact ih h

/-- A rule for properties of the breaker of `u`: a step keeps it if the three things that
reach the breaker do. -/
theorem Moves.breaker_of (h : Moves rt σ s e s')
    (houtcome : ∀ i x now r outcome, e = .resume i x now → s.requests[i]? = some r →
      r.phase.outcome? x = some (u, outcome) → P ((s.breaker u).fold outcome now))
    (hunsent : ∀ i x now r f b, e = .resume i x now → s.requests[i]? = some r →
      Forwards rt σ r.principal r.started now s.world r.phase x f →
      Retry.Unsent rt f.forwarded (s.breaker u) b now → P b)
    (hprobe : ∀ started left ok now, s.prober = .probing started u left → e = .probed ok now →
      P ((s.breaker u).recordProbe ok now (s.detectors.wedgeSuspected u now)))
    (hwedge : ∀ b started now, P b → b.state = .closed →
      P (b.recordWedge (s.detectors.wedgeSuspected u now) started))
    (hP : P (s.breaker u)) : P (s'.breaker u) := by
  cases h with
  | @resume i x now r m hr hm =>
      cases ho : r.phase.outcome? x with
      | none =>
          rcases hm.breaker ho u with h | ⟨f, hf, hu⟩
          · change P (m.1.pool.breaker u)
            rw [h]
            exact hP
          · exact hunsent i x now r f _ rfl hr hf hu
      | some vo =>
          obtain ⟨v, outcome⟩ := vo
          change P (m.1.pool.breaker u)
          rw [hm.outcome ho]
          by_cases hv : u = v
          · subst hv
            rw [UpstreamPool.breaker_record_self]
            exact houtcome i x now r outcome rfl hr ho
          · rw [UpstreamPool.breaker_record_of_ne hv]
            exact hP
  | tick now _ => exact visit_breaker (fun b ↦ hwedge b now now) hP
  | @probed started url left ok now hprober =>
      refine visit_breaker (fun b ↦ hwedge b started now) ?_
      by_cases hu : u = url
      · subst hu
        rw [UpstreamPool.breaker_setBreaker_self]
        exact hprobe started left ok now hprober rfl
      · rw [UpstreamPool.breaker_setBreaker_of_ne hu]
        exact hP
  | arrive p now => exact hP
  | poll now _ => exact hP
  | scraped result now _ => exact hP

/-- The loop of `poll_once` changes no verdict. -/
theorem get_pollNext : (pollNext σ ds now left).1.get σ u = ds.get σ u := by
  cases left with
  | nil => rfl
  | cons url left => exact Detectors.get_startPoll

/-- A successful scrape is observed by the detector of its replica. -/
theorem Moves.detector_of_scraped {snapshot : Snapshot}
    (h : Moves rt σ s (.scraped (some snapshot) now) s')
    (hs : s.scraper = .scraping started u left) :
    s'.detectors.get σ u = (s.detectors.get σ u).observe snapshot started := by
  cases h with
  | scraped _ _ hs' =>
      cases hs.symm.trans hs'
      dsimp only
      rw [get_pollNext, Detectors.get_finishPoll_self]

/-- The detector of `u` changes in no other way. -/
theorem Moves.detector (h : Moves rt σ s e s') (u : Str) :
    s'.detectors.get σ u = s.detectors.get σ u ∨
      ∃ started left snapshot now, s.scraper = .scraping started u left ∧
        e = .scraped (some snapshot) now ∧
        s'.detectors.get σ u = (s.detectors.get σ u).observe snapshot started := by
  have hscraped {snapshot now} (he : e = .scraped (some snapshot) now) {started left}
      (hs : s.scraper = .scraping started u left) :
      s'.detectors.get σ u = (s.detectors.get σ u).observe snapshot started := by
    subst he
    exact h.detector_of_scraped hs
  cases h with
  | poll now _ => exact .inl get_pollNext
  | @scraped started url left result now hs =>
      by_cases hu : u = url
      · subst hu
        cases result with
        | none =>
            dsimp only
            rw [get_pollNext, Detectors.get_finishPoll_self]
            exact .inl rfl
        | some snapshot =>
            exact .inr ⟨started, left, snapshot, now, hs, rfl, hscraped rfl hs⟩
      · dsimp only
        rw [get_pollNext]
        exact .inl (Detectors.get_finishPoll_of_ne hu)
  | _ => exact .inl rfl

/-- Every breaker of a process that has just started is fresh. -/
theorem breaker_start (urls : List Str) (h : urls ≠ []) (u : Str) :
    (start urls h).breaker u = { url := u } :=
  UpstreamPool.breaker_resetBreakers urls h 0 u

/-- What is known of every breaker in a state the process can reach: the trip score is
never changed, and a replica that is being probed is out of rotation. -/
structure Rated (s : System) : Prop where
  tripScore : ∀ u, (s.breaker u).tripScore = TRIP_SCORE
  probing : ∀ started u left, s.prober = .probing started u left →
    (s.breaker u).state ≠ .closed

theorem Rated.start (urls : List Str) (h : urls ≠ []) : Rated (start urls h) :=
  ⟨fun u ↦ by rw [breaker_start], fun _ _ _ hp ↦ (by cases hp)⟩

/-- Apart from the prober, nothing puts a replica back into rotation. -/
theorem Moves.not_closed (h : Moves rt σ s e s') (he : ∀ ok now, e ≠ .probed ok now)
    (hu : (s.breaker u).state ≠ .closed) : (s'.breaker u).state ≠ .closed := by
  refine h.breaker_of (P := fun b ↦ b.state ≠ .closed) ?_ ?_ ?_ ?_ hu
  · rintro i x now r outcome - - -
    rw [ReplicaBreaker.fold_state_of_not_closed hu]
    exact hu
  · rintro i x now r f b - - - ⟨e', -, rfl⟩
    rw [ReplicaBreaker.recordFailure_state_of_not_closed hu]
    exact hu
  · rintro started left ok now - rfl
    exact absurd rfl (he ok now)
  · exact fun b _ _ hb hc ↦ absurd hc hb

theorem Rated.step (hr : Rated s) (h : Moves rt σ s e s') : Rated s' := by
  constructor
  · intro u
    refine h.breaker_of (P := fun b ↦ b.tripScore = TRIP_SCORE) ?_ ?_ ?_ ?_ (hr.tripScore u)
    · rintro i x now r outcome - - -
      rw [ReplicaBreaker.fold_tripScore, hr.tripScore]
    · rintro i x now r f b - - - ⟨e', -, rfl⟩
      rw [ReplicaBreaker.recordFailure_tripScore, hr.tripScore]
    · rintro started left ok now - -
      rw [ReplicaBreaker.recordProbe_tripScore, hr.tripScore]
    · intro b started now hb _
      rw [ReplicaBreaker.recordWedge_tripScore, hb]
  · intro started u left hp
    have hkeep := h.not_closed (u := u)
    cases h with
    | arrive p now => exact hkeep (fun _ _ he ↦ by cases he) (hr.probing started u left hp)
    | resume hreq hm => exact hkeep (fun _ _ he ↦ by cases he) (hr.probing started u left hp)
    | poll now _ => exact hkeep (fun _ _ he ↦ by cases he) (hr.probing started u left hp)
    | scraped result now _ => exact hkeep (fun _ _ he ↦ by cases he) (hr.probing started u left hp)
    | tick now _ => exact visit_prober hp
    | probed ok now _ => exact visit_prober hp

theorem rated_of_run {urls : List Str} {h : urls ≠ []}
    (hr : Runs rt σ (System.start urls h) es s) : Rated s :=
  hr.invariant (fun hs ha ↦ ha.step (moves_of_step hs)) (.start urls h)

/-! ## What a caller can do -/

/-- Every answer that an attempt ends in has a status below 500, and no scrape shows the
wedge signature.  Nothing is said here of an attempt that ends in an exception. -/
def healthy (σ : Settings) (s : System) : Event → Bool
  | .resume i x _ => s.requests[i]?.all fun r ↦ match r.phase.outcome? x with
    | some (_, .ok resp) => resp.statusCode < 500
    | _ => true
  | .scraped (some snapshot) _ => match s.scraper with
    | .scraping _ url _ => !(s.detectors.get σ url).shows snapshot
    | .asleep => true
  | _ => true

/-- No attempt ends in an exception.  More than that the replicas answer, this asks that what
they answer can be read: the body of an unstreamed answer is read and decoded inside the
attempt, and an `httpx.DecodingError` counts there as a failure to connect. -/
def readable (s : System) : Event → Bool
  | .resume i x _ => s.requests[i]?.all fun r ↦ match r.phase.outcome? x with
    | some (_, .error _) => false
    | _ => true
  | _ => true

/-- A body that the checks let through can be encoded as it is forwarded: as strict
JSON, in UTF-8. -/
def sendable (rt : Runtime) (σ : Settings) (s : System) : Event → Bool
  | .resume i (.received raw) now => s.requests[i]?.all fun r ↦
    match r.phase, (prepare rt σ r.principal s.world raw r.started now).2 with
    | .body, .ok f => (rt.encodeJson (.dict f.forwarded)).isOk
    | _, _ => true
  | _ => true

/-- All is well: every replica is in rotation and none is stalled, so the prober has
nothing to do, and what the requests carry can be sent. -/
structure Calm (rt : Runtime) (σ : Settings) (s : System) : Prop where
  closed : ∀ u, (s.breaker u).state = .closed
  unstalled : ∀ u, (s.detectors.get σ u).windowSec = σ.upstreamWedgeWindowSec ∧
    (s.detectors.get σ u).stallSince = none
  encodes : ∀ r ∈ s.requests, ∀ f, r.phase.forward? = some f →
    (rt.encodeJson (.dict f.forwarded)).isOk
  asleep : s.prober = .asleep

theorem Calm.start (urls : List Str) (h : urls ≠ []) : Calm rt σ (start urls h) where
  closed u := by rw [breaker_start]
  unstalled _ := ⟨rfl, rfl⟩
  encodes := fun _ hr ↦ (by cases hr)
  asleep := rfl

/-- Without a stall nothing is suspected. -/
theorem Calm.not_suspected (hc : Calm rt σ s) (hw : 0 < σ.upstreamWedgeWindowSec) (u : Str)
    (now : ℚ) : s.detectors.wedgeSuspected u now = false := by
  obtain ⟨hwindow, hstall⟩ := hc.unstalled u
  rw [Detectors.wedgeSuspected_eq hw]
  exact WedgeDetector.not_suspected_of_stallSince_none (hwindow ▸ hw) hstall

/-- What a request is about to hand to the pool can be encoded. -/
theorem Calm.encodes_of_forwards (hc : Calm rt σ s) {i : ℕ} {x : Input} {r : Request} {f : Forward}
    (hr : s.requests[i]? = some r) (he : sendable rt σ s (.resume i x now))
    (hf : Forwards rt σ r.principal r.started now s.world r.phase x f) :
    (rt.encodeJson (.dict f.forwarded)).isOk := by
  rcases hf with hf | ⟨raw, w', hbody, rfl, hp⟩
  · exact hc.encodes r (List.mem_of_getElem? hr) f hf
  · simpa [sendable, hr, hbody, hp] using he

/-- With every replica in rotation and nothing suspected, a round of the prober goes
through without a probe. -/
theorem visit_asleep (hclosed : ∀ u, (p.breaker u).state = .closed)
    (hsus : ∀ u, ds.wedgeSuspected u now = false) : (visit ds started now p left).2 = .asleep := by
  induction left generalizing p with
  | nil => rfl
  | cons url left ih =>
      rw [visit, if_pos (hclosed url)]
      refine ih fun u ↦ ?_
      by_cases hu : u = url
      · subst hu
        rw [UpstreamPool.breaker_setBreaker_self, hsus]
        exact hclosed u
      · rw [UpstreamPool.breaker_setBreaker_of_ne hu]
        exact hclosed u

theorem Calm.step (hc : Calm rt σ s) (hw : 0 < σ.upstreamWedgeWindowSec) (h : Moves rt σ s e s')
    (hhealthy : healthy σ s e) (hread : readable s e) (hsend : sendable rt σ s e) :
    Calm rt σ s' := by
  have hclosed : ∀ u, (s'.breaker u).state = .closed := by
    intro u
    refine h.breaker_of (P := fun b ↦ b.state = .closed) ?_ ?_ ?_ ?_ (hc.closed u)
    · rintro i x now r outcome rfl hr ho
      simp only [healthy, hr, Option.all_some, ho] at hhealthy
      simp only [readable, hr, Option.all_some, ho] at hread
      cases outcome with
      | error e => cases hread
      | ok resp =>
          rw [ReplicaBreaker.fold_state_of_lt (by simpa using hhealthy)]
          exact hc.closed u
    · rintro i x now r f b rfl hr hf ⟨e', he', -⟩
      have hok := hc.encodes_of_forwards hr hsend hf
      rw [he'] at hok
      cases hok
    · rintro started left ok now hp -
      rw [hc.asleep] at hp
      cases hp
    · intro b started now hb _
      rw [hc.not_suspected hw]
      exact hb
  have hunstalled : ∀ u, (s'.detectors.get σ u).windowSec = σ.upstreamWedgeWindowSec ∧
      (s'.detectors.get σ u).stallSince = none := by
    intro u
    rcases h.detector u with hd | ⟨started, left, snapshot, now, hs, rfl, hd⟩
    · rw [hd]
      exact hc.unstalled u
    · rw [hd, WedgeDetector.observe_windowSec]
      refine ⟨(hc.unstalled u).1, ?_⟩
      have hshows : ¬(s.detectors.get σ u).shows snapshot := by
        simpa [healthy, hs] using hhealthy
      exact WedgeDetector.observe_stallSince_none hshows (hc.unstalled u).2
  cases h with
  | arrive p now =>
      refine ⟨hclosed, hunstalled, fun r hr f hf ↦ ?_, hc.asleep⟩
      rcases List.mem_append.mp hr with hr | hr
      · exact hc.encodes r hr f hf
      · obtain rfl := List.mem_singleton.mp hr
        cases hf
  | @resume i x now r m hr hm =>
      refine ⟨hclosed, hunstalled, fun r' hr' f hf ↦ ?_, hc.asleep⟩
      rcases List.mem_or_eq_of_mem_set hr' with hr' | rfl
      · exact hc.encodes r' hr' f hf
      · exact hc.encodes_of_forwards hr hsend (hm.forward hf)
  | poll now _ => exact ⟨hclosed, hunstalled, hc.encodes, hc.asleep⟩
  | scraped result now _ => exact ⟨hclosed, hunstalled, hc.encodes, hc.asleep⟩
  | tick now _ =>
      have hsus : ∀ u, s.detectors.wedgeSuspected u now = false := fun u ↦ hc.not_suspected hw u now
      exact ⟨hclosed, hunstalled, hc.encodes, visit_asleep hc.closed hsus⟩
  | probed ok now hp =>
      rw [hc.asleep] at hp
      cases hp

/-- With a positive wedge window: as long as every replica answers with a status below
500 and shows no wedge signature, every answer can be read, and every body that is let
through can be encoded, no breaker leaves `CLOSED`. -/
theorem breakers_stay_closed (rt : Runtime) (σ : Settings) (hw : 0 < σ.upstreamWedgeWindowSec)
    (urls : List Str) (h : urls ≠ []) (es : List Event) (s : System)
    (hr : Run (Guarded (Steps (step rt σ)) fun s e ↦
      healthy σ s e && readable s e && sendable rt σ s e) (System.start urls h) es s) (u : Str) :
    (s.breaker u).state = .closed := by
  refine (hr.invariant (P := Calm rt σ) (fun hs hc ↦ ?_) (.start urls h)).closed u
  obtain ⟨hstep, hg⟩ := hs
  rw [Bool.and_eq_true, Bool.and_eq_true] at hg
  exact hc.step hw (moves_of_step hstep) hg.1.1 hg.1.2 hg.2

/-- What `breakers_stay_closed` asks of a step of the sample process. -/
def quiet (s : System) (e : Event) : Bool :=
  healthy .default s e && readable s e && sendable .sample .default s e

/-- A request that is forwarded, answered and read to its end, with a round of the prober
and a scrape in between. -/
def quietEvents : List Event :=
  [.arrive samplePrincipal 0, .poll 0, .resume 0 (.received (sampleBody "")) 0, .tick 1,
    .scraped (some [("vllm:generation_tokens_total", .finite 7)]) 2,
    .resume 0 (.responded { statusCode := 200, content := bytes "\x7b\x7d" }) 3, .tick 4]

theorem quietEvents_isSome :
    (execWhile (step .sample .default) quiet sampleSystem quietEvents).isSome := by
  decide +kernel

theorem breakers_stay_closed_quiet :
    (((execWhile (step .sample .default) quiet sampleSystem quietEvents).get
      quietEvents_isSome).breaker sampleUrl).state = .closed :=
  breakers_stay_closed .sample .default (by decide +kernel) [sampleUrl] (List.cons_ne_nil _ _)
    quietEvents _ (Run.ofExecWhile (Option.some_get quietEvents_isSome).symm) sampleUrl

/-- One body with a `NaN` in it: both attempts fail to encode it and count as failures to
connect, though the replica was never asked. -/
theorem opened_by_nan :
    ∃ s, Run (Guarded (Steps (step .sample .default)) fun s e ↦
        healthy .default s e && readable s e) sampleSystem
        [.arrive samplePrincipal 0,
          .resume 0 (.received (sampleBody ", \"temperature\": NaN")) 0, .resume 0 .done 1] s ∧
      (s.breaker sampleUrl).state = .open := by
  obtain ⟨s, hr, hs⟩ := Run.exists_of_execWhile (step .sample .default)
    (fun (s : System) (e : Event) ↦ healthy .default s e && readable s e) sampleSystem
    [.arrive samplePrincipal 0, .resume 0 (.received (sampleBody ", \"temperature\": NaN")) 0,
      .resume 0 .done 1]
    (fun s ↦ (s.breaker sampleUrl).state = .open) (by decide +kernel)
  exact ⟨s, hr, of_decide_eq_true hs⟩

/-- Two unstreamed answers that cannot be decoded do the same, whatever their status. -/
example : ((execWhile (step .sample .default)
    (fun s e ↦ healthy .default s e && sendable .sample .default s e) sampleSystem
    [.arrive samplePrincipal 0, .resume 0 (.received (sampleBody "")) 0,
      .resume 0 (.raised (.httpx .decodingError)) 1, .resume 0 .done 2,
      .resume 0 (.raised (.httpx .decodingError)) 3]).map fun s ↦
        (s.breaker sampleUrl).state) = some .open := by
  decide +kernel

/-! ## What a failing replica does -/

/-- An attempt on `u` ends in this step. -/
def attempts (u : Str) (s : System) : Event → Bool
  | .resume i x _ => s.requests[i]?.any fun r ↦ (r.phase.outcome? x).any fun o ↦ o.1 = u
  | _ => false

/-- If an attempt on `u` ends in this step, it ends in an exception or in a status from
500 on: it is not a stream that may still break off. -/
def failsAtOnce (u : Str) (s : System) : Event → Bool
  | .resume i x _ => s.requests[i]?.all fun r ↦ match r.phase.outcome? x with
    | some (v, .ok resp) => v ≠ u || 500 ≤ resp.statusCode
    | _ => true
  | _ => true

/-- A step that ends an attempt on `u` records its outcome. -/
theorem Moves.breaker_of_attempts (h : Moves rt σ s e s') (ha : attempts u s e = true) :
    ∃ i x now r outcome, e = .resume i x now ∧ s.requests[i]? = some r ∧
      r.phase.outcome? x = some (u, outcome) ∧ s'.breaker u = (s.breaker u).fold outcome now := by
  cases h with
  | @resume i x now r m hr hm =>
      simp only [attempts, hr, Option.any_some, Option.any_eq_true, decide_eq_true_eq] at ha
      obtain ⟨⟨v, outcome⟩, ho, rfl⟩ := ha
      refine ⟨i, x, now, r, outcome, rfl, hr, ho, ?_⟩
      change m.1.pool.breaker v = _
      rw [hm.outcome ho]
      exact UpstreamPool.breaker_record_self
  | _ => cases ha

/-- What one step does to a closed breaker: it opens it, or leaves it closed with no lower
score, and with a higher one still below the trip score if an attempt ends. -/
theorem Moves.closed_or_open (h : Moves rt σ s e s') (hr : Rated s)
    (hf : failsAtOnce u s e) (hc : (s.breaker u).state = .closed) :
    (s'.breaker u).state = .open ∨ ((s'.breaker u).state = .closed ∧
      (s.breaker u).score + (attempts u s e).toNat ≤ (s'.breaker u).score ∧
      (attempts u s e = true → (s'.breaker u).score < TRIP_SCORE)) := by
  have hthreshold : ∀ now, (s.breaker u).threshold now ≤ TRIP_SCORE := by
    intro now
    rw [← hr.tripScore u]
    exact ReplicaBreaker.threshold_le (by rw [hr.tripScore]; decide)
  cases ha : attempts u s e with
  | true =>
      obtain ⟨i, x, now, r, outcome, rfl, hreq, ho, hb⟩ := h.breaker_of_attempts ha
      rw [hb]
      obtain ⟨kind, hkind, hpos⟩ : ∃ kind, classify outcome = some kind ∧ 0 < kind.weight := by
        cases outcome with
        | error e' => exact ⟨_, rfl, by rw [ReplicaBreaker.weight_classifyExc]; decide⟩
        | ok resp =>
            have hle : 500 ≤ resp.statusCode := by simpa [failsAtOnce, hreq, ho] using hf
            exact ⟨_, ReplicaBreaker.classifyStatus_of_le hle, by decide⟩
      have hfold : (s.breaker u).fold outcome now = (s.breaker u).recordFailure kind now := by
        rw [ReplicaBreaker.fold, hkind]
      rw [hfold]
      rcases ReplicaBreaker.recordFailure_closed kind now hc with
        ⟨hc', hs, hlt | hz⟩ | ⟨ho', -⟩
      · refine .inr ⟨hc', ?_, fun _ ↦ ?_⟩
        · rw [hs, Bool.toNat_true]
          omega
        · rw [hs]
          exact hlt.trans_le (hthreshold now)
      · omega
      · exact .inl ho'
  | false =>
      have hkeep : (s'.breaker u).state = .open ∨
          ((s'.breaker u).state = .closed ∧ (s.breaker u).score ≤ (s'.breaker u).score) := by
        refine h.breaker_of
          (P := fun b ↦ b.state = .open ∨ (b.state = .closed ∧ (s.breaker u).score ≤ b.score))
          ?_ ?_ ?_ ?_ (.inr ⟨hc, le_rfl⟩)
        · rintro i x now r outcome rfl hreq ho
          simp [attempts, hreq, ho] at ha
        · rintro i x now r f b - - - ⟨e', -, rfl⟩
          rcases ReplicaBreaker.recordFailure_closed .connect now hc with
            ⟨hc', hs, -⟩ | ⟨ho, -⟩
          · exact .inr ⟨hc', hs ▸ Nat.le_add_right _ _⟩
          · exact .inl ho
        · intro started left ok now hp _
          exact absurd hc (hr.probing started u left hp)
        · intro b started now hb hbc
          rcases hb with hb | ⟨-, hle⟩
          · rw [hb] at hbc
            cases hbc
          · rcases ReplicaBreaker.recordWedge_closed hbc with ho | ⟨hc', hs⟩
            · exact .inl ho
            · exact .inr ⟨hc', hle.trans hs⟩
      rcases hkeep with ho | ⟨hc', hs⟩
      · exact .inl ho
      · exact .inr ⟨hc', by simpa using hs, fun hfalse ↦ by cases hfalse⟩

/-- From a closed breaker that can take `n` more failed attempts without opening, the
next one after those opens it, at the latest. -/
theorem opens_within {n : ℕ} {t : System} (hrated : Rated s) (hc : (s.breaker u).state = .closed)
    (hn : TRIP_SCORE ≤ (s.breaker u).score + (n + 1))
    (hr : Run (Guarded (Steps (step rt σ)) fun s e ↦ failsAtOnce u s e) s es t)
    (hcount : n + 1 ≤ tally (step rt σ) (attempts u) s es) :
    ∃ es₁ es₂ s', es = es₁ ++ es₂ ∧ Runs rt σ s es₁ s' ∧ Runs rt σ s' es₂ t ∧
      (s'.breaker u).state = .open ∧ tally (step rt σ) (attempts u) s es₁ ≤ n + 1 := by
  induction hr generalizing n with
  | nil s => simp [tally] at hcount
  | @cons s s₁ t e es hs hrest ih =>
      have hmove := moves_of_step hs.1
      have hrest' := hrest.of_guarded
      rw [tally_cons hs.1] at hcount
      rcases hmove.closed_or_open hrated hs.2 hc with ho | ⟨hc₁, hscore, hlt⟩
      · refine ⟨[e], es, s₁, rfl, .single hs.1, hrest', ho, ?_⟩
        rw [tally_cons hs.1]
        have : (attempts u s e).toNat ≤ 1 := Bool.toNat_le _
        simp only [tally]
        omega
      · -- Still closed: an attempt that ended here has used up one of the `n`.
        obtain ⟨m, hm⟩ : ∃ m, n = m + (attempts u s e).toNat := by
          cases ha : attempts u s e with
          | false => exact ⟨n, rfl⟩
          | true =>
              have := hlt ha
              rw [ha, Bool.toNat_true] at hscore
              exact ⟨n - 1, by rw [Bool.toNat_true]; omega⟩
        obtain ⟨es₁, es₂, s', rfl, h₁, h₂, ho, hle⟩ :=
          ih (n := m) (hrated.step hmove) hc₁ (by omega) (by omega)
        refine ⟨e :: es₁, es₂, s', rfl, .cons hs.1 h₁, h₂, ho, ?_⟩
        rw [tally_cons hs.1]
        omega

/-- From any state the process can reach in which the breaker of `u` is closed: if every
attempt on `u` that ends in a run from there fails at once, and six of them end,
then the breaker is open in some state of that run, after no more than six of them. -/
theorem opens_by_sixth (rt : Runtime) (σ : Settings) (urls : List Str) (h : urls ≠ []) (u : Str)
    (pre es : List Event) (s t : System) (hpre : Runs rt σ (System.start urls h) pre s)
    (hc : (s.breaker u).state = .closed)
    (hr : Run (Guarded (Steps (step rt σ)) fun s e ↦ failsAtOnce u s e) s es t)
    (hcount : 6 ≤ tally (step rt σ) (attempts u) s es) :
    ∃ es₁ es₂ s', es = es₁ ++ es₂ ∧ Runs rt σ s es₁ s' ∧ Runs rt σ s' es₂ t ∧
      (s'.breaker u).state = .open ∧ tally (step rt σ) (attempts u) s es₁ ≤ 6 :=
  opens_within (n := 5) (rated_of_run hpre) hc (Nat.le_add_left _ _) hr hcount

/-- Six requests, one after another, each answered with a 500. -/
def sixRefused : List Event :=
  (List.range 6).flatMap fun i ↦ [.arrive samplePrincipal 0,
    .resume i (.received (sampleBody "")) 0, .resume i (.responded { statusCode := 500 }) 1]

theorem sixRefused_isSome :
    (execWhile (step .sample .default) (failsAtOnce sampleUrl) sampleSystem sixRefused).isSome := by
  decide +kernel

theorem opens_by_sixth_refused :
    ∃ es₁ es₂ s', sixRefused = es₁ ++ es₂ ∧ Runs .sample .default sampleSystem es₁ s' ∧
      Runs .sample .default s' es₂ ((execWhile (step .sample .default) (failsAtOnce sampleUrl)
        sampleSystem sixRefused).get sixRefused_isSome) ∧
      (s'.breaker sampleUrl).state = .open ∧
      tally (step .sample .default) (attempts sampleUrl) sampleSystem es₁ ≤ 6 :=
  opens_by_sixth .sample .default [sampleUrl] (List.cons_ne_nil _ _) sampleUrl [] sixRefused
    sampleSystem _ (.nil _) (by decide +kernel)
    (Run.ofExecWhile (Option.some_get sixRefused_isSome).symm) (by decide +kernel)

/-- Six streamed requests, one after another, each answered with a 200 and then nothing
until the read times out. -/
def sixBroken : List Event :=
  (List.range 6).flatMap fun i ↦ [.arrive samplePrincipal 0,
    .resume i (.received (sampleBody ", \"stream\": true")) 0,
    .resume i (.responded { statusCode := 200 }) 1, .resume i .next 1,
    .resume i (.raised (.httpx .readTimeout)) 2, .resume i .next 2, .resume i .next 2,
    .resume i .done 3]

/-- The replica completes none of them, and its breaker is closed all the way. -/
theorem stays_closed_broken :
    tally (step .sample .default) (attempts sampleUrl) sampleSystem sixBroken = 6 ∧
      ∃ s, Run (Guarded (Steps (step .sample .default)) fun s _ ↦
          decide ((s.breaker sampleUrl).state = .closed)) sampleSystem sixBroken s ∧
        (s.breaker sampleUrl).state = .closed ∧
        s.world.audit.map AuditRecord.reason =
          List.replicate 6 (some "upstream_stream_broken") := by
  refine ⟨by decide +kernel, ?_⟩
  obtain ⟨s, hr, hs⟩ := Run.exists_of_execWhile (step .sample .default)
    (fun s _ ↦ decide ((s.breaker sampleUrl).state = .closed)) sampleSystem sixBroken
    (fun s ↦ decide ((s.breaker sampleUrl).state = .closed ∧ s.world.audit.map AuditRecord.reason =
      List.replicate 6 (some "upstream_stream_broken"))) (by decide +kernel)
  exact ⟨s, hr, of_decide_eq_true hs⟩

end System

end InferenceGateway
