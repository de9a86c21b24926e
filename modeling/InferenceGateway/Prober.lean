import InferenceGateway.Breakers
import InferenceGateway.Upstream.Patrol

/-!
# The process, seen from one replica

What the process does to the breaker of a replica is a patrol of it: every step of the
process is some steps of the patrol, most often none.  So what holds of every patrol
holds of every replica of a running gateway, whatever the other replicas and the
requests are doing.
-/

namespace InferenceGateway

open Py Transition

/-- Since when the prober awaits the probe of `u`. -/
def Prober.asked (u : Str) : Prober → Option ℚ
  | .probing started url _ => if url = u then some started else none
  | .asleep => none

namespace System

variable {rt : Runtime} {σ : Settings} {s s' : System} {e : Event} {es : List Event} {u : Str}
  {ds : Detectors} {started now : ℚ} {pool : UpstreamPool} {left : List Str} {q : Patrol}

/-- The clock of the prober does not run backwards: a probe is answered no earlier than
its round began. -/
def Timely (s : System) : Event → Prop
  | .probed _ now => ∀ started url left, s.prober = .probing started url left → started ≤ now
  | _ => True

/-- The patrol has the breaker of `u`, and awaits its probe if the prober does. -/
structure Patrolled (b : ReplicaBreaker) (prober : Prober) (u : Str) (q : Patrol) : Prop where
  breaker : q.breaker = b
  asked : q.asked = prober.asked u

/-- The outcome of a request, as the patrol sees it. -/
theorem call_fold (b : ReplicaBreaker) (outcome : Outcome) (now : ℚ) :
    b.call (Patrol.foldCall (classify outcome)) now = b.fold outcome now := by
  unfold ReplicaBreaker.fold
  cases classify outcome <;> rfl

/-- A round of the prober hands the replica its verdict, or finds it due. -/
theorem visit_patrolled (hq : q.breaker = pool.breaker u) (ha : q.asked = none) :
    ∃ ps q', Run (Steps Patrol.step) q ps q' ∧
      Patrolled ((visit ds started now pool left).1.breaker u) (visit ds started now pool left).2
        u q' := by
  induction left generalizing pool q with
  | nil => exact ⟨[], q, .nil q, hq, ha⟩
  | cons url left ih =>
      rw [visit]
      by_cases hc : (pool.breaker url).state = .closed
      · rw [if_pos hc]
        by_cases hu : u = url
        · subst hu
          have hstep : Patrol.step q (.watch (ds.wedgeSuspected u now) started) =
              some { q with log := q.log.push (.wedge (ds.wedgeSuspected u now)) started } :=
            if_pos ⟨ha, hq ▸ hc⟩
          have hbreaker : (q.log.push (.wedge (ds.wedgeSuspected u now)) started).breaker =
              (pool.setBreaker u
                ((pool.breaker u).recordWedge (ds.wedgeSuspected u now) started)).breaker u := by
            rw [UpstreamPool.breaker_setBreaker_self, ← hq]
            rfl
          obtain ⟨ps, q', hrun, hpat⟩ := ih
            (q := { q with log := q.log.push (.wedge (ds.wedgeSuspected u now)) started }) hbreaker ha
          exact ⟨_ :: ps, q', .cons hstep hrun, hpat⟩
        · refine ih ?_ ha
          rw [UpstreamPool.breaker_setBreaker_of_ne hu]
          exact hq
      · rw [if_neg hc]
        by_cases hd : (pool.breaker url).dueForProbe started
        · rw [if_pos hd]
          by_cases hu : u = url
          · subst hu
            have hstep : Patrol.step q (.ask started) = some { q with asked := some started } :=
              if_pos ⟨ha, hq ▸ hc, hq ▸ hd⟩
            exact ⟨[_], _, .single hstep, hq, (if_pos rfl).symm⟩
          · exact ⟨[], q, .nil q, hq, ha.trans (if_neg (Ne.symm hu)).symm⟩
        · rw [if_neg hd]
          exact ih hq ha

/-- Every step of the process is some steps of the patrol. -/
theorem Moves.patrolled (h : Moves rt σ s e s') (ht : Timely s e)
    (hq : Patrolled (s.breaker u) s.prober u q) :
    ∃ ps q', Run (Steps Patrol.step) q ps q' ∧ Patrolled (s'.breaker u) s'.prober u q' := by
  cases h with
  | arrive p now => exact ⟨[], q, .nil q, hq⟩
  | poll now _ => exact ⟨[], q, .nil q, hq⟩
  | scraped result now _ => exact ⟨[], q, .nil q, hq⟩
  | @resume i x now r m hr hm =>
      have hout (kind : Option FailureKind)
          (hb : m.1.pool.breaker u = (s.breaker u).call (Patrol.foldCall kind) now) :
          ∃ ps q', Run (Steps Patrol.step) q ps q' ∧
            Patrolled (m.1.pool.breaker u) s.prober u q' := by
        have hstep : Patrol.step q (.outcome kind now) =
            some { q with log := q.log.push (Patrol.foldCall kind) now } := rfl
        refine ⟨[_], _, .single hstep, ?_, hq.asked⟩
        rw [hb, ← hq.breaker]
        rfl
      cases ho : r.phase.outcome? x with
      | none =>
          rcases hm.breaker ho u with hsame | ⟨f, -, e', -, hconn⟩
          · exact ⟨[], q, .nil q, hq.breaker.trans hsame.symm, hq.asked⟩
          · exact hout (some .connect) hconn
      | some vo =>
          obtain ⟨v, outcome⟩ := vo
          have hpool := hm.outcome ho
          by_cases hv : u = v
          · subst hv
            refine hout (classify outcome) ?_
            rw [hpool, UpstreamPool.breaker_record_self, call_fold]
            rfl
          · refine ⟨[], q, .nil q, ?_, hq.asked⟩
            change q.breaker = m.1.pool.breaker u
            rw [hpool, UpstreamPool.breaker_record_of_ne hv]
            exact hq.breaker
  | tick now hs =>
      refine visit_patrolled hq.breaker (hq.asked.trans ?_)
      rw [hs]
      rfl
  | @probed started url left ok now hs =>
      have hle : started ≤ now := ht started url left hs
      have hasked := hq.asked
      rw [hs] at hasked
      by_cases hu : u = url
      · subst hu
        rw [Prober.asked, if_pos rfl] at hasked
        have hstep : Patrol.step q (.answer ok (s.detectors.wedgeSuspected u now) now) =
            some ⟨q.log.push (.probe ok (s.detectors.wedgeSuspected u now)) now, none⟩ := by
          simp only [Patrol.step, hasked, if_pos hle]
        have hbreaker : (q.log.push (.probe ok (s.detectors.wedgeSuspected u now)) now).breaker =
            (s.world.pool.setBreaker u ((s.breaker u).recordProbe ok now
              (s.detectors.wedgeSuspected u now))).breaker u := by
          rw [UpstreamPool.breaker_setBreaker_self, ← hq.breaker]
          rfl
        have hrest := @visit_patrolled u s.detectors started now _ left
          ⟨q.log.push (.probe ok (s.detectors.wedgeSuspected u now)) now, none⟩ hbreaker rfl
        obtain ⟨ps, q', hrun, hpat⟩ := hrest
        exact ⟨_ :: ps, q', .cons hstep hrun, hpat⟩
      · rw [Prober.asked, if_neg (Ne.symm hu)] at hasked
        refine visit_patrolled ?_ hasked
        rw [UpstreamPool.breaker_setBreaker_of_ne hu]
        exact hq.breaker

/-- In every run in which the clock of the prober does not run backwards, every replica is
under patrol from its fresh breaker on. -/
theorem patrolled_of_run {urls : List Str} {h : urls ≠ []}
    (hr : Run (Guarded (Steps (step rt σ)) Timely) (System.start urls h) es s) (u : Str) :
    ∃ ps q, Run (Steps Patrol.step) (Patrol.fresh u TRIP_SCORE) ps q ∧
      q.breaker = s.breaker u ∧ q.asked = s.prober.asked u := by
  have hinv := hr.invariant (P := fun s ↦ ∃ ps q,
    Run (Steps Patrol.step) (Patrol.fresh u TRIP_SCORE) ps q ∧
      Patrolled (s.breaker u) s.prober u q) ?_ ?_
  · obtain ⟨ps, q, hrun, hq⟩ := hinv
    exact ⟨ps, q, hrun, hq.breaker, hq.asked⟩
  · rintro s e s' ⟨hs, ht⟩ ⟨ps, q, hrun, hq⟩
    obtain ⟨ps', q', hrun', hq'⟩ := (moves_of_step hs).patrolled ht hq
    exact ⟨ps ++ ps', q', hrun.append hrun', hq'⟩
  · exact ⟨[], _, .nil _, (breaker_start urls h u).symm, rfl⟩

end System

end InferenceGateway
