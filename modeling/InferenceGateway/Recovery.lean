import InferenceGateway.Outage
import InferenceGateway.Prober
import InferenceGateway.Transition.Clock
import InferenceGateway.Upstream.RetryAfter

/-!
# The way back into rotation

A replica out of rotation comes back by two good probes and by nothing else, so how long it stays out
once it is well depends on when `_breaker_prober` looks at it.  The prober works in rounds: it reads
the clock once, and what is due then is probed in that round, one replica after another.  Here the
beat of the clock is the start of a round.

A replica that is due is never passed over: it is probed in the round, or still ahead in it
(`Attended`).  So it waits for its time and then for one more round, twice; and the wait is capped.
-/

namespace InferenceGateway

open Py Transition

/-- When an event happens. -/
def Event.time : Event → ℚ
  | .arrive _ now | .resume _ _ now | .poll now | .scraped _ now | .tick now | .probed _ now => now

/-- The prober starts a round. -/
def Event.isTick : Event → Bool
  | .tick _ => true
  | _ => false

/-- The prober is probing `u`, or has not come to it yet. -/
def Prober.Ahead (u : Str) : Prober → Prop
  | .probing _ url left => u ∈ url :: left
  | .asleep => False

namespace ReplicaBreaker

variable {b b' : ReplicaBreaker} {kind : FailureKind} {now t d : ℚ} {ok suspected : Bool}

/-! ## One breaker and the clock -/

/-- What holds of a breaker by `now`: what it waits for is recorded, is past, and is followed by a
wait. -/
structure Kept (b : ReplicaBreaker) (now : ℚ) : Prop where
  timed : b.Timed
  recorded : b.RecordedBy now
  wait : 0 < b.openSec
  good : b.state = .halfOpen → 0 < b.goodProbes

theorem Kept.fresh (url : Str) (now : ℚ) : Kept { url } now where
  timed := .fresh url
  recorded := by
    rintro t (h | h) <;> cases h
  wait := by
    change 0 < INITIAL_OPEN_SEC
    norm_num [INITIAL_OPEN_SEC]
  good h := by cases h

theorem Kept.mono (h : b.Kept t) (hle : t ≤ now) : b.Kept now :=
  ⟨h.timed, fun _ ht ↦ (h.recorded _ ht).trans hle, h.wait, h.good⟩

theorem Kept.recordFailure (h : b.Kept now) (kind : FailureKind) (ht : t ≤ now) :
    (b.recordFailure kind t).Kept now := by
  refine ⟨h.timed.recordFailure kind t, ?_, recordFailure_openSec.symm ▸ h.wait, ?_⟩
  · rcases b.recordFailure_cases kind t with ⟨-, hr⟩ | ⟨-, -, hr⟩ | ⟨-, -, -, hr⟩
    · rw [hr]
      exact h.recorded
    · rw [hr]
      exact h.recorded
    · rw [hr]
      rintro t' (ht' | ht') <;> cases ht'
      exact ht
  · rcases b.recordFailure_cases kind t with ⟨-, hr⟩ | ⟨-, -, hr⟩ | ⟨-, -, -, hr⟩
    · rw [hr]
      exact h.good
    · rw [hr]
      exact h.good
    · rw [hr]
      intro h
      cases h

theorem Kept.foldCall (h : b.Kept now) (kind : Option FailureKind) (ht : t ≤ now) :
    (b.call (Patrol.foldCall kind) t).Kept now := by
  cases kind with
  | none => exact ⟨⟨h.timed.opened, h.timed.halfOpen, h.timed.openSec⟩, h.recorded, h.wait, h.good⟩
  | some kind => exact h.recordFailure kind ht

theorem Kept.recordWedge (h : b.Kept now) (suspected : Bool) (ht : t ≤ now) :
    (b.recordWedge suspected t).Kept now := by
  have hconf (m : ℕ) : Kept { b with wedgeConfirmations := m } now :=
    ⟨⟨h.timed.opened, h.timed.halfOpen, h.timed.openSec⟩, h.recorded, h.wait, h.good⟩
  rcases b.recordWedge_cases suspected t with ⟨-, hr⟩ | ⟨-, -, hr⟩ | ⟨-, -, -, hr⟩
  · rw [hr]
    exact hconf 0
  · rw [hr]
    exact hconf _
  · rw [hr]
    exact (hconf _).recordFailure .wedge ht

theorem Kept.recordProbe (h : b.Kept now) (ok suspected : Bool) :
    (b.recordProbe ok now suspected).Kept now := by
  refine ⟨h.timed.recordProbe ok suspected now, ?_, ?_, ?_⟩
  · rcases b.recordProbe_cases ok suspected now with ⟨-, hr⟩ | ⟨-, -, -, hr⟩ | ⟨-, -, -, hr⟩
    · rw [hr]
      rintro t (ht | ht) <;> cases ht <;> exact le_rfl
    · rw [hr]
      rintro t (ht | ht)
      · exact h.recorded t (.inl ht)
      · cases ht
        exact le_rfl
    · rw [hr]
      rintro t (ht | ht) <;> cases ht
      exact le_rfl
  · rcases b.recordProbe_cases ok suspected now with ⟨-, hr⟩ | ⟨-, -, -, hr⟩ | ⟨-, -, -, hr⟩
    · rw [hr]
      exact lt_min (mul_pos h.wait two_pos) (by norm_num [MAX_OPEN_SEC])
    · rw [hr]
      exact h.wait
    · rw [hr]
      exact (Kept.fresh b.url now).wait
  · rcases b.recordProbe_cases ok suspected now with ⟨-, hr⟩ | ⟨-, -, -, hr⟩ | ⟨-, -, -, hr⟩
    · rw [hr]
      intro h
      cases h
    · rw [hr]
      exact fun _ ↦ Nat.succ_pos _
    · rw [hr]
      intro h
      cases h

/-- Apart from what was due before, nothing is due yet at `now`. -/
def Defers (b b' : ReplicaBreaker) (now : ℚ) : Prop :=
  ∀ d ∈ b'.dueAt, b.dueAt = some d ∨ now < d

/-- An opening starts a wait. -/
theorem lt_of_dueAt_open (hs : b.state = .open) (ht : b.openedAt = some now) (hw : 0 < b.openSec)
    (hd : b.dueAt = some d) : now < d := by
  rw [dueAt, hs] at hd
  obtain ⟨t, ht', rfl⟩ := Option.map_eq_some_iff.mp hd
  obtain rfl := Option.some.inj (ht.symm.trans ht')
  exact lt_add_of_pos_right now hw

theorem dueAt_of_closed (hs : b.state = .closed) : b.dueAt = none := by
  rw [dueAt, hs]

theorem dueAt_congr (hs : b'.state = b.state) (ho : b'.openedAt = b.openedAt)
    (hw : b'.openSec = b.openSec) (hl : b'.lastProbeAt = b.lastProbeAt) : b'.dueAt = b.dueAt := by
  unfold dueAt
  rw [hs, ho, hw, hl]

theorem Defers.of_eq (h : b'.dueAt = b.dueAt) : b.Defers b' now := by
  intro d hd
  exact .inl (h ▸ hd)

theorem defers_recordFailure (hw : 0 < b.openSec) (kind : FailureKind) (now : ℚ) :
    b.Defers (b.recordFailure kind now) now := by
  rcases b.recordFailure_cases kind now with ⟨-, h⟩ | ⟨-, -, h⟩ | ⟨-, -, -, h⟩
  · rw [h]
    exact .of_eq rfl
  · rw [h]
    exact .of_eq (dueAt_congr rfl rfl rfl rfl)
  · rw [h]
    intro d hd
    have hlt : now < d := lt_of_dueAt_open (b := (b.addScore kind.weight).openBreaker now) rfl rfl hw hd
    exact .inr hlt

theorem defers_foldCall (hw : 0 < b.openSec) (kind : Option FailureKind) (now : ℚ) :
    b.Defers (b.call (Patrol.foldCall kind) now) now := by
  cases kind with
  | none => exact .of_eq (dueAt_congr rfl rfl rfl rfl)
  | some kind => exact defers_recordFailure hw kind now

theorem defers_recordWedge (hw : 0 < b.openSec) (suspected : Bool) (now : ℚ) :
    b.Defers (b.recordWedge suspected now) now := by
  rcases b.recordWedge_cases suspected now with ⟨-, h⟩ | ⟨-, -, h⟩ | ⟨-, -, -, h⟩
  · rw [h]
    exact .of_eq (dueAt_congr rfl rfl rfl rfl)
  · rw [h]
    exact .of_eq (dueAt_congr rfl rfl rfl rfl)
  · rw [h]
    intro d hd
    rcases defers_recordFailure (b := { b with wedgeConfirmations := b.wedgeConfirmations + 1 })
      hw .wedge now d hd with heq | hlt
    · exact .inl heq
    · exact .inr hlt

/-- After a probe, the next one is not due yet. -/
theorem lt_of_dueAt_recordProbe (hw : 0 < b.openSec) (hd : (b.recordProbe ok now suspected).dueAt = some d) :
    now < d := by
  rcases b.recordProbe_cases ok suspected now with ⟨-, h⟩ | ⟨-, -, -, h⟩ | ⟨-, -, -, h⟩
  · rw [h] at hd
    refine lt_of_dueAt_open rfl rfl ?_ hd
    exact lt_min (mul_pos hw two_pos) (by norm_num [MAX_OPEN_SEC])
  · rw [h] at hd
    obtain rfl := Option.some.inj hd
    exact lt_add_of_pos_right now (by norm_num [PROBE_INTERVAL_SEC])
  · rw [h, dueAt_of_closed rfl] at hd
    cases hd

end ReplicaBreaker

namespace System

variable {rt : Runtime} {σ : Settings} {s s' : System} {e : Event} {es : List Event} {u : Str}
  {ds : Detectors} {started now Δ S : ℚ} {p : UpstreamPool} {left : List Str}

/-- The process with its clock, whose beat is the start of a round of the prober. -/
abbrev Timed := Clocked System ℚ

/-- One step of the process at its time. -/
abbrev timedStep (rt : Runtime) (σ : Settings) : Timed → Event → Option Timed :=
  Clocked.next (step rt σ) Event.time Event.isTick

/-- A round of the prober begins at least every `Δ`: the sleep and the probes take no longer. -/
abbrev Steady (Δ : ℚ) : Timed → Event → Prop := Clocked.Steady Event.time Δ

/-! ## No replica is passed over -/

/-- A round that comes to every replica that is due probes it, or stops before it. -/
theorem visit_ahead (hp : 0 < (p.breaker u).openSec)
    (h : ∀ d ∈ (p.breaker u).dueAt, d ≤ started → u ∈ left) :
    ∀ d ∈ ((visit ds started now p left).1.breaker u).dueAt, d ≤ started →
      (visit ds started now p left).2.Ahead u := by
  induction left generalizing p with
  | nil => exact fun d hd hle ↦ absurd (h d hd hle) List.not_mem_nil
  | cons url left ih =>
      rw [visit]
      split
      · rename_i hc
        by_cases hu : u = url
        · subst hu
          refine ih ?_ fun d hd hle ↦ ?_
          · rw [UpstreamPool.breaker_setBreaker_self, ReplicaBreaker.recordWedge_openSec]
            exact hp
          · rw [UpstreamPool.breaker_setBreaker_self] at hd
            rcases ReplicaBreaker.defers_recordWedge hp _ _ d hd with heq | hlt
            · rw [ReplicaBreaker.dueAt_of_closed hc] at heq
              cases heq
            · exact absurd hle (not_le.mpr hlt)
        · refine ih ?_ fun d hd hle ↦ ?_
          · rw [UpstreamPool.breaker_setBreaker_of_ne hu]
            exact hp
          · rw [UpstreamPool.breaker_setBreaker_of_ne hu] at hd
            exact (List.mem_cons.mp (h d hd hle)).resolve_left hu
      · split
        · exact h
        · rename_i hdue
          refine ih hp fun d hd hle ↦ ?_
          rcases List.mem_cons.mp (h d hd hle) with rfl | hmem
          · exact absurd ((ReplicaBreaker.dueForProbe_iff hd).mpr hle) hdue
          · exact hmem

/-- A round only ever awaits a probe at the time it began. -/
theorem visit_started {url : Str} {started' : ℚ} {left' : List Str}
    (h : (visit ds started now p left).2 = .probing started' url left') : started' = started := by
  induction left generalizing p with
  | nil => cases h
  | cons v left ih =>
      rw [visit] at h
      split at h
      · exact ih h
      · split at h
        · cases h
          rfl
        · exact ih h

/-- What the clock and the prober know of a replica: if it was due when the round began, the round has
not passed it. -/
structure Attended (u : Str) (c : Timed) : Prop where
  kept : (c.state.breaker u).Kept c.now
  beat : c.beat ≤ c.now
  round : ∀ started url left, c.state.prober = .probing started url left → started = c.beat
  ahead : ∀ d ∈ (c.state.breaker u).dueAt, d ≤ c.beat → c.state.prober.Ahead u

theorem Attended.start (urls : List Str) (h : urls ≠ []) (u : Str) (now : ℚ) :
    Attended u (.start (System.start urls h) now) where
  kept := by
    change ((System.start urls h).breaker u).Kept now
    rw [breaker_start]
    exact .fresh u now
  beat := le_rfl
  round _ _ _ hp := by cases hp
  ahead d hd := by
    change d ∈ ((System.start urls h).breaker u).dueAt at hd
    rw [breaker_start] at hd
    cases hd

/-- A replica that is due has a breaker in the registry. -/
theorem mem_of_dueAt {p : UpstreamPool} {d : ℚ} (hd : (p.breaker u).dueAt = some d) :
    u ∈ p.breakers.map Prod.fst := by
  cases hl : p.breakers.lookup u with
  | none =>
      rw [UpstreamPool.breaker, hl] at hd
      cases hd
  | some b =>
      obtain ⟨l₁, l₂, hl, -⟩ := List.lookup_eq_some_iff.mp hl
      exact List.mem_map_of_mem (hl ▸ List.mem_append_right l₁ List.mem_cons_self)

/-- What a step of a request does to the breaker of a replica: nothing, or it folds an outcome. -/
theorem Moves.called {i : ℕ} {x : Input} (h : Moves rt σ s (.resume i x now) s') (u : Str) :
    s'.prober = s.prober ∧ (s'.breaker u = s.breaker u ∨
      ∃ kind, s'.breaker u = (s.breaker u).call (Patrol.foldCall kind) now) := by
  cases h with
  | @resume i x now r m hr hm =>
      refine ⟨rfl, ?_⟩
      cases ho : r.phase.outcome? x with
      | none =>
          rcases hm.breaker ho u with hsame | ⟨f, -, e', -, hconn⟩
          · exact .inl hsame
          · exact .inr ⟨some .connect, hconn⟩
      | some vo =>
          obtain ⟨v, outcome⟩ := vo
          have hpool := hm.outcome ho
          by_cases hv : u = v
          · subst hv
            have hb : m.1.pool.breaker u = (s.breaker u).fold outcome now := by
              rw [hpool, UpstreamPool.breaker_record_self]
              rfl
            exact .inr ⟨classify outcome, hb.trans (call_fold _ outcome now).symm⟩
          · have hb : m.1.pool.breaker u = s.breaker u := by
              rw [hpool, UpstreamPool.breaker_record_of_ne hv]
              rfl
            exact .inl hb

/-- In a round, the breaker of a replica stays kept. -/
theorem visit_kept (hle : started ≤ now) (h : (p.breaker u).Kept now) {t : ℚ} :
    ((visit ds started t p left).1.breaker u).Kept now :=
  visit_breaker (P := fun b ↦ b.Kept now) (fun _ hb _ ↦ hb.recordWedge _ hle) h

theorem Attended.step {c c' : Timed} {e : Event} (h : Attended u c)
    (hs : Steps (timedStep rt σ) c e c') : Attended u c' := by
  have hbeat' := Clocked.beat_le_now hs h.beat
  obtain ⟨hstep, hle, hnow, hbeat⟩ := Clocked.of_next hs
  have hkept := h.kept.mono hle
  have hlt : c.beat ≤ e.time := h.beat.trans hle
  obtain ⟨s, now', beat'⟩ := c'
  dsimp only at hnow hbeat hstep hbeat'
  subst hnow hbeat
  -- what defers the next probe keeps the round from having passed it
  have hdefers {b' : ReplicaBreaker} (hb : (c.state.breaker u).Defers b' e.time) :
      ∀ d ∈ b'.dueAt, d ≤ c.beat → c.state.prober.Ahead u := by
    intro d hd hdle
    rcases hb d hd with heq | hlate
    · exact h.ahead d heq hdle
    · exact absurd (hdle.trans hlt) (not_le.mpr hlate)
  have hmoves := moves_of_step hstep
  cases e with
  | arrive p now =>
      cases hmoves
      exact ⟨hkept, hbeat', h.round, h.ahead⟩
  | poll now =>
      cases hmoves
      exact ⟨hkept, hbeat', h.round, h.ahead⟩
  | scraped result now =>
      cases hmoves
      exact ⟨hkept, hbeat', h.round, h.ahead⟩
  | resume i x now =>
      obtain ⟨hprober, hsame | ⟨kind, hb⟩⟩ := hmoves.called u
      · refine ⟨?_, hbeat', ?_, ?_⟩
        · exact hsame.symm ▸ hkept
        · exact hprober.symm ▸ h.round
        · exact hprober.symm ▸ hsame.symm ▸ h.ahead
      · refine ⟨?_, hbeat', ?_, ?_⟩
        · exact hb.symm ▸ hkept.foldCall kind le_rfl
        · exact hprober.symm ▸ h.round
        · have := hdefers (ReplicaBreaker.defers_foldCall h.kept.wait kind now)
          exact hprober.symm ▸ hb.symm ▸ this
  | tick now =>
      cases hmoves
      refine ⟨visit_kept le_rfl hkept, hbeat', fun _ _ _ hp ↦ visit_started hp, ?_⟩
      exact visit_ahead h.kept.wait fun d hd _ ↦ mem_of_dueAt hd
  | probed ok now =>
      cases hmoves with
      | @probed started url left _ _ hprober =>
        have hstarted := h.round started url left hprober
        have hpast : started ≤ now := hstarted ▸ hlt
        refine ⟨visit_kept hpast ?_, hbeat', fun _ _ _ hp ↦ hstarted ▸ visit_started hp, ?_⟩
        · by_cases hu : u = url
          · subst hu
            rw [UpstreamPool.breaker_setBreaker_self]
            exact hkept.recordProbe ok _
          · rw [UpstreamPool.breaker_setBreaker_of_ne hu]
            exact hkept
        · change ∀ d ∈ _, d ≤ c.beat → _
          rw [← hstarted]
          by_cases hu : u = url
          · subst hu
            refine visit_ahead ?_ fun d hd hdle ↦ ?_
            · rw [UpstreamPool.breaker_setBreaker_self]
              exact (hkept.recordProbe ok _).wait
            · rw [UpstreamPool.breaker_setBreaker_self] at hd
              have hlate := ReplicaBreaker.lt_of_dueAt_recordProbe h.kept.wait hd
              exact absurd (hdle.trans hpast) (not_le.mpr hlate)
          · refine visit_ahead ?_ fun d hd hdle ↦ ?_
            · rw [UpstreamPool.breaker_setBreaker_of_ne hu]
              exact h.kept.wait
            · rw [UpstreamPool.breaker_setBreaker_of_ne hu] at hd
              have hahead := h.ahead d hd (hstarted ▸ hdle)
              rw [hprober] at hahead
              exact (List.mem_cons.mp hahead).resolve_left hu

/-! ## The deadline -/

/-- By when a replica in this state is due, counting from `S`. -/
def dueBy (S Δ : ℚ) : BreakerState → ℚ
  | .halfOpen => S + MAX_OPEN_SEC + 2 * Δ + PROBE_INTERVAL_SEC
  | _ => S + MAX_OPEN_SEC

/-- Out of rotation at `S`, and not too late for being back two rounds after it is due. -/
structure Returning (S Δ : ℚ) (u : Str) (c : Timed) : Prop where
  attended : Attended u c
  out : (c.state.breaker u).state ≠ .closed
  due : ∀ d ∈ (c.state.breaker u).dueAt, d ≤ dueBy S Δ (c.state.breaker u).state
  beat : c.beat ≤ dueBy S Δ (c.state.breaker u).state + Δ
  now : c.now ≤ dueBy S Δ (c.state.breaker u).state + 2 * Δ

theorem dueBy_le (hΔ : 0 ≤ Δ) (S : ℚ) (state : BreakerState) :
    dueBy S Δ state ≤ S + MAX_OPEN_SEC + 2 * Δ + PROBE_INTERVAL_SEC := by
  cases state with
  | halfOpen => exact le_rfl
  | _ =>
      have hpos : 0 ≤ PROBE_INTERVAL_SEC := by norm_num [PROBE_INTERVAL_SEC]
      unfold dueBy
      linarith

/-- It starts when the replica is out of rotation. -/
theorem Returning.start {c : Timed} (h : Attended u c) (hΔ : 0 ≤ Δ)
    (hout : (c.state.breaker u).state ≠ .closed) : Returning c.now Δ u c := by
  have hpos : 0 ≤ MAX_OPEN_SEC := by norm_num [MAX_OPEN_SEC]
  have hlow : ∀ state, c.now ≤ dueBy c.now Δ state := by
    have hprobe : 0 ≤ PROBE_INTERVAL_SEC := by norm_num [PROBE_INTERVAL_SEC]
    intro state
    cases state <;> unfold dueBy <;> linarith
  refine ⟨h, hout, ?_, ?_, ?_⟩
  · intro d hd
    obtain ⟨d', hd', hwait⟩ := h.kept.timed.exists_dueAt hout
    obtain rfl := Option.some.inj (hd.symm.trans hd')
    have hcap : d ≤ c.now + MAX_OPEN_SEC := hwait c.now h.kept.recorded
    cases hstate : (c.state.breaker u).state with
    | closed => exact absurd hstate hout
    | «open» => exact hcap
    | halfOpen =>
        have hprobe : 0 ≤ PROBE_INTERVAL_SEC := by norm_num [PROBE_INTERVAL_SEC]
        unfold dueBy
        linarith
  · exact h.beat.trans ((hlow _).trans (le_add_of_nonneg_right hΔ))
  · exact (hlow _).trans (le_add_of_nonneg_right (by linarith))

/-- Where no probe of `u` is answered, a replica out of rotation stays as it is. -/
theorem Moves.dueAt_of_not_answers (h : Moves rt σ s e s') (ha : ¬answers u s e)
    (hout : (s.breaker u).state ≠ .closed) : (s'.breaker u).state = (s.breaker u).state ∧
      (s'.breaker u).dueAt = (s.breaker u).dueAt := by
  refine h.breaker_of_not_answers (P := fun b ↦ b.state = (s.breaker u).state ∧
    b.dueAt = (s.breaker u).dueAt) ha (fun outcome now ↦ ?_) (fun kind now ↦ ?_)
    (fun b suspected now hb hc ↦ absurd (hb.1.symm.trans hc) hout) ⟨rfl, rfl⟩
  · have hcall := System.call_fold (s.breaker u) outcome now
    obtain ⟨hs, ho, hw, -, hl⟩ := ReplicaBreaker.call_foldCall hout (classify outcome) now
    rw [hcall] at hs ho hw hl
    exact ⟨hs, ReplicaBreaker.dueAt_congr hs ho hw hl⟩
  · obtain ⟨hs, ho, hw, -, hl⟩ := ReplicaBreaker.call_foldCall hout (some kind) now
    exact ⟨hs, ReplicaBreaker.dueAt_congr hs ho hw hl⟩

/-- What a good probe leaves of the breaker, the round going on. -/
theorem Moves.breaker_of_good {ok : Bool} (h : Moves rt σ s (.probed ok now) s')
    (hprober : s.prober = .probing started u left) (hclear : s.detectors.wedgeSuspected u now = false) :
    (s'.breaker u).state = ((s.breaker u).recordProbe ok now false).state ∧
      (s'.breaker u).dueAt = ((s.breaker u).recordProbe ok now false).dueAt := by
  cases h with
  | @probed started' url' left' _ _ hs =>
      obtain ⟨rfl, rfl, rfl⟩ := Prober.probing.inj (hprober.symm.trans hs)
      refine visit_breaker (P := fun b ↦ b.state = ((s.breaker u).recordProbe ok now false).state ∧
        b.dueAt = ((s.breaker u).recordProbe ok now false).dueAt) ?_ ?_
      · rintro b ⟨hstate, hdue⟩ -
        rw [hclear]
        exact ⟨hstate, (ReplicaBreaker.dueAt_congr rfl rfl rfl rfl).trans hdue⟩
      · rw [UpstreamPool.breaker_setBreaker_self, hclear]
        exact ⟨rfl, rfl⟩

/-- A round begins when the prober is asleep. -/
theorem Moves.asleep_of_tick (h : Moves rt σ s e s') (he : e.isTick) : s.prober = .asleep := by
  cases h with
  | tick now hs => exact hs
  | _ => cases he

/-- The next event comes before the last deadline. -/
theorem Returning.time_le {c : Timed} {e : Event} (h : Returning S Δ u c) (hΔ : 0 ≤ Δ)
    (hsteady : Steady Δ c e) : e.time ≤ S + MAX_OPEN_SEC + PROBE_INTERVAL_SEC + 4 * Δ := by
  have hsteady : e.time ≤ c.beat + Δ := hsteady
  have hbeat := h.beat
  have hcap := dueBy_le hΔ S (c.state.breaker u).state
  linarith

/-- A step takes a replica out of rotation back into it in time, or keeps the deadline. -/
theorem Returning.step {c c' : Timed} {e : Event} (h : Returning S Δ u c) (hΔ : 0 ≤ Δ)
    (hs : Steps (timedStep rt σ) c e c') (hsteady : Steady Δ c e)
    (hgood : failsProbe u c.state e = false) :
    Returning S Δ u c' ∨ (c'.state.breaker u).state = .closed ∧
      c'.now ≤ S + MAX_OPEN_SEC + PROBE_INTERVAL_SEC + 4 * Δ := by
  have hattended := h.attended.step hs
  have htime := h.time_le hΔ hsteady
  obtain ⟨hstep, -, hnow, hbeat⟩ := Clocked.of_next hs
  have hmoves := moves_of_step hstep
  have hsteady : e.time ≤ c.beat + Δ := hsteady
  by_cases ha : answers u c.state e
  · obtain ⟨started, left, ok, now, hprober, rfl⟩ := answers_iff.mp ha
    simp only [failsProbe, hprober, decide_true, Bool.true_and, Bool.or_eq_false_iff,
      Bool.not_eq_false'] at hgood
    obtain ⟨rfl, hclear⟩ := hgood
    obtain ⟨hstate, hdue⟩ := hmoves.breaker_of_good hprober hclear
    rcases (c.state.breaker u).recordProbe_cases true false now with
      ⟨hbad, -⟩ | ⟨-, -, hfew, hr⟩ | ⟨-, -, -, hr⟩
    · simp at hbad
    · -- the first good probe, of a replica that was open
      left
      rw [hr] at hstate hdue
      have hopen : (c.state.breaker u).state = .open := by
        cases hs : (c.state.breaker u).state with
        | closed => exact absurd hs h.out
        | «open» => rfl
        | halfOpen =>
            have hpos := h.attended.kept.good hs
            have htwo : (c.state.breaker u).goodProbes + 1 < 2 := hfew
            omega
      have hbeat₀ : c.beat ≤ S + MAX_OPEN_SEC + Δ := by
        have := h.beat
        rwa [hopen] at this
      have hprobe : 0 ≤ PROBE_INTERVAL_SEC := by norm_num [PROBE_INTERVAL_SEC]
      have htime : now ≤ c.beat + Δ := hsteady
      refine ⟨hattended, ?_, ?_, ?_, ?_⟩
      · rw [hstate]
        exact BreakerState.noConfusion
      · rw [hstate, hdue]
        intro d hd
        obtain rfl : now + PROBE_INTERVAL_SEC = d := Option.some.inj hd
        unfold dueBy
        linarith
      · rw [hbeat, hstate]
        change c.beat ≤ dueBy S Δ .halfOpen + Δ
        unfold dueBy
        linarith
      · rw [hnow, hstate]
        change now ≤ dueBy S Δ .halfOpen + 2 * Δ
        unfold dueBy
        linarith
    · right
      rw [hr] at hstate
      exact ⟨hstate, hnow ▸ htime⟩
  · obtain ⟨hstate, hdue⟩ := hmoves.dueAt_of_not_answers ha h.out
    left
    refine ⟨hattended, hstate.trans_ne h.out, ?_, ?_, ?_⟩
    · rw [hdue, hstate]
      exact h.due
    · rw [hbeat, hstate]
      split
      · -- a round that has nothing due to do begins after the one before it
        rename_i htick
        have hasleep := hmoves.asleep_of_tick htick
        obtain ⟨d, hd, -⟩ := h.attended.kept.timed.exists_dueAt h.out
        have hlt : c.beat < d := by
          by_contra hle
          have hahead := h.attended.ahead d hd (not_lt.mp hle)
          rw [hasleep] at hahead
          exact hahead
        linarith [h.due d hd]
      · exact h.beat
    · rw [hnow, hstate]
      linarith [h.beat]

/-- However long a replica has been out of rotation, and whatever the requests do: if from some time on
its probes are answered and no wedge signal is live then, and the prober begins a round at least every
`Δ`, it is in rotation again by the time that the longest wait, the wait between two probes and four
times `Δ` have passed. -/
theorem recovers (rt : Runtime) (σ : Settings) (urls : List Str) (h : urls ≠ []) (u : Str)
    {Δ t₀ : ℚ} (hΔ : 0 ≤ Δ) {es es' : List Event} {c c' : Timed}
    (hr : Run (Steps (timedStep rt σ)) (.start (System.start urls h) t₀) es c)
    (hr' : Run (Guarded (Steps (timedStep rt σ)) fun c e ↦
      Steady Δ c e ∧ failsProbe u c.state e = false) c es' c')
    (hlate : c.now + MAX_OPEN_SEC + PROBE_INTERVAL_SEC + 4 * Δ < c'.now) :
    ∃ es₁ es₂ q, es' = es₁ ++ es₂ ∧ Run (Steps (timedStep rt σ)) c es₁ q ∧
      Run (Steps (timedStep rt σ)) q es₂ c' ∧
      q.now ≤ c.now + MAX_OPEN_SEC + PROBE_INTERVAL_SEC + 4 * Δ ∧
      (q.state.breaker u).state = .closed := by
  have hmax : 0 ≤ MAX_OPEN_SEC := by norm_num [MAX_OPEN_SEC]
  have hprobe : 0 ≤ PROBE_INTERVAL_SEC := by norm_num [PROBE_INTERVAL_SEC]
  have hattended : Attended u c := hr.invariant (fun hs ha ↦ ha.step hs) (.start urls h u t₀)
  by_cases hout : (c.state.breaker u).state = .closed
  · exact ⟨[], es', c, rfl, .nil c, hr'.of_guarded, by linarith, hout⟩
  · have hstep (c₁ : Timed) (e : Event) (c₂ : Timed)
        (hs : Guarded (Steps (timedStep rt σ)) (fun c e ↦
          Steady Δ c e ∧ failsProbe u c.state e = false) c₁ e c₂)
        (hI : Returning c.now Δ u c₁) :
        Returning c.now Δ u c₂ ∨ (c₂.state.breaker u).state = .closed ∧
          c₂.now ≤ c.now + MAX_OPEN_SEC + PROBE_INTERVAL_SEC + 4 * Δ :=
      hI.step hΔ hs.1 hs.2.1 hs.2.2
    rcases hr'.reaches_or hstep (.start hattended hΔ hout) with hI | ⟨es₁, es₂, q, rfl, h₁, h₂, hq⟩
    · have hcap := dueBy_le hΔ c.now (c'.state.breaker u).state
      linarith [hI.now]
    · exact ⟨es₁, es₂, q, rfl, h₁.of_guarded, h₂.of_guarded, hq.2, hq.1⟩

/-- Six requests that are answered with a 500. -/
def sixFailed : List Event :=
  (List.range 6).flatMap fun i ↦ [.arrive samplePrincipal 1,
    .resume i (.received (sampleBody "")) 1, .resume i (.responded { statusCode := 500 }) 1]

/-- Rounds that are fifteen seconds apart at most, two of them with something to probe. -/
def fewRounds : List Event :=
  [.tick 16, .probed true 16, .tick 30, .probed true 31] ++ [45, 60, 75, 90, 105, 120, 130].map .tick

theorem recovers_six :
    ∃ c c', Run (Steps (timedStep .sample .default)) (.start sampleSystem 1) sixFailed c ∧
      (c.state.breaker sampleUrl).state = .open ∧
      ∃ es₁ es₂ q, fewRounds = es₁ ++ es₂ ∧ Run (Steps (timedStep .sample .default)) c es₁ q ∧
        Run (Steps (timedStep .sample .default)) q es₂ c' ∧
        q.now ≤ 1 + MAX_OPEN_SEC + PROBE_INTERVAL_SEC + 4 * 15 ∧
        (q.state.breaker sampleUrl).state = .closed := by
  obtain ⟨c, hr, hc⟩ := Run.exists_of_exec (timedStep .sample .default) (.start sampleSystem 1)
    sixFailed (fun c : Timed ↦ decide ((c.state.breaker sampleUrl).state = .open ∧ c.now = 1) &&
      (execWhile (timedStep .sample .default)
        (fun c e ↦ decide (Steady 15 c e ∧ failsProbe sampleUrl c.state e = false)) c
        fewRounds).any fun c' : Timed ↦ decide (c'.now = 130)) (by decide +kernel)
  obtain ⟨hopen, hrest⟩ := Bool.and_eq_true_iff.mp hc
  obtain ⟨hopen, hnow⟩ := of_decide_eq_true hopen
  obtain ⟨c', hr', hc'⟩ := Run.exists_of_execWhile (timedStep .sample .default) _ c fewRounds _ hrest
  have hlate : c.now + MAX_OPEN_SEC + PROBE_INTERVAL_SEC + 4 * 15 < c'.now := by
    rw [hnow, of_decide_eq_true hc']
    norm_num [MAX_OPEN_SEC, PROBE_INTERVAL_SEC]
  refine ⟨c, c', hr, hopen, ?_⟩
  rw [← hnow]
  exact recovers .sample .default [sampleUrl] (List.cons_ne_nil _ _) sampleUrl (by norm_num) hr
    (hr'.mono fun hs ↦ ⟨hs.1, of_decide_eq_true hs.2⟩) hlate

end System

end InferenceGateway
