import InferenceGateway.Routes.Frames
import InferenceGateway.Upstream.Attempts

/-!
# What one step of a request does

`advance`, summed up for the parts of the shared state that outlive the request:
the breakers (`advance_outcome`, `advance_breaker`) and the slots
(`advance_slots`).  A request takes at most one slot, in its first step, and then
carries it from phase to phase; the step that ends it gives the slot back, except
in the cases `Phase.loses` lists.
-/

namespace InferenceGateway

open Py

namespace Phase

/-- What the request has handed to the pool. -/
def forward? : Phase → Option Forward
  | .calling f _ | .draining f _ _ _ | .drainClosing f _ _ _ | .responding f _ _
  | .relaying f _ _ _ => some f
  | .body | .ended _ => none

/-- The key whose slot the request holds. -/
def slot (phase : Phase) : Option Str := phase.forward?.bind Forward.releaseKeyid

/-- The request is over. -/
def isEnded : Phase → Bool
  | .ended _ => true
  | _ => false

/-- The outcome of the attempt that ends here, and its replica. -/
def outcome? : Phase → Input → Option (Str × Outcome)
  | .calling _ retry, x => retry.outcome? x
  | _, _ => none

/-- The exits that none of the three releases covers: something other than an
`Exception` raised into `_stream` before the response is handed back, a response
whose generator is never started, and an `aclose` that fails in the `finally` of
the generator. -/
def loses : Phase → Input → Bool
  | .calling f _, .raised g => f.streaming && !g.isException
  | .drainClosing f _ _ (some g), .done => f.streaming && !g.isException
  | .drainClosing f _ _ _, .raised g => f.streaming && !g.isException
  | .responding _ _ _, .dropped => true
  | .relaying _ _ _ relay, .raised _ => relay.point.isClosing
  | _, _ => false

end Phase

/-- The request hands `f` to the pool: it has done so, or the checks are about to let
it through. -/
def Forwards (rt : Runtime) (σ : Settings) (p : Principal) (started now : ℚ) (w : World)
    (phase : Phase) (x : Input) (f : Forward) : Prop :=
  phase.forward? = some f ∨
    ∃ raw w', phase = .body ∧ x = .received raw ∧ prepare rt σ p w raw started now = (w', .ok f)

variable {rt : Runtime} {σ : Settings} {p : Principal} {started now : ℚ} {w w' : World}
  {phase phase' : Phase} {x : Input} {f f' : Forward} {retry : Retry}

/-! ## The checks -/

/-- A request that the checks refuse, or crash on, only logs. -/
theorem prepare_error {raw : Bytes} {e : Exn}
    (h : prepare rt σ p w raw started now = (w', .error e)) :
    ∃ metrics audit, w' = { w with metrics, audit } := by
  rcases prepare_cases rt σ p w raw started now with
    ⟨metrics, audit, e', hp⟩ | ⟨f, -, -, hp⟩ | ⟨f, k, cap, quota, -, -, -, -, hp⟩
  · rw [hp] at h
    exact ⟨metrics, audit, (Prod.mk.inj h).1.symm⟩
  · rw [hp] at h
    cases (Prod.mk.inj h).2
  · rw [hp] at h
    cases (Prod.mk.inj h).2

/-- What holds when the checks let a request through to the pool: a slot has been
granted if the caller is a key with a cap, and that key was under it. -/
structure Admitted (rt : Runtime) (σ : Settings) (p : Principal) (w : World) (raw : Bytes)
    (w' : World) (f : Forward) : Prop where
  checks : validate rt σ p w.quota raw = .ok { f with releaseKeyid := none }
  pool : w'.pool = w.pool
  tokensUsed : w'.quota.tokensUsed = w.quota.tokensUsed
  audit : w'.audit = w.audit
  slots : w'.slots = w.slots.acquireFor f.releaseKeyid
  key : ∀ k, f.releaseKeyid = some k → p.keyid = some k
  cap : ∀ k cap, p.keyid = some k → p.maxConcurrency = some cap →
    f.releaseKeyid = some k ∧ (w.quota.inflight k : ℤ) < cap

theorem Admitted.validated {raw : Bytes} (h : Admitted rt σ p w raw w' f) :
    Validated rt σ p w.quota raw { f with releaseKeyid := none } :=
  of_validate h.checks

theorem prepare_ok {raw : Bytes} (h : prepare rt σ p w raw started now = (w', .ok f)) :
    Admitted rt σ p w raw w' f := by
  rcases prepare_cases rt σ p w raw started now with
    ⟨metrics, audit, e', hp⟩ | ⟨f₀, hf, hnone, hp⟩ | ⟨f₀, k, cap, quota, hf, hk, hc, ha, hp⟩
  · rw [hp] at h
    cases (Prod.mk.inj h).2
  · rw [hp] at h
    obtain ⟨rfl, hfe⟩ := Prod.mk.inj h
    obtain rfl := Except.ok.inj hfe
    have hnokey := (of_validate hf).releaseKeyid
    refine ⟨by rw [← hnokey]; exact hf, rfl, rfl, rfl, by rw [hnokey]; rfl, ?_, ?_⟩
    · intro k hk
      rw [hnokey] at hk
      cases hk
    · intro k cap hk hc
      rw [hk, hc] at hnone
      rcases hnone with h | h <;> cases h
  · rw [hp] at h
    obtain ⟨rfl, hfe⟩ := Prod.mk.inj h
    obtain rfl := Except.ok.inj hfe
    obtain ⟨hlt, hinflight, htokens⟩ := QuotaTracker.acquire_ok ha
    refine ⟨by rw [← (of_validate hf).releaseKeyid]; exact hf, rfl, htokens, rfl, ?_, ?_, ?_⟩
    · exact Slots.ext hinflight rfl rfl
    · intro k' hk'
      exact hk.trans hk'
    · intro k' cap' hk' hc'
      rw [hk] at hk'
      rw [hc] at hc'
      obtain rfl := Option.some.inj hk'
      obtain rfl := Option.some.inj hc'
      exact ⟨rfl, hlt⟩

/-! ## Settling -/

theorem settle_forward (h : (settle rt σ w f started now retry).2.forward? = some f') : f' = f := by
  unfold settle at h
  split at h
  · split at h
    · split at h <;> exact (Option.some.inj h).symm
    · cases h
  · obtain ⟨e', he'⟩ := leaveCall_phase rt w f started now ‹Exn›
    rw [he'] at h
    cases h
  · exact (Option.some.inj h).symm

/-- How a step accounts for the slot of `key`: the request goes on holding it, ends
and gives it back, or ends and loses it. -/
def Accounts (s : Slots) (key : Option Str) (s' : Slots) (phase' : Phase) (lost : Prop) : Prop :=
  (phase'.isEnded = false ∧ s' = s ∧ phase'.slot = key) ∨
    (phase'.isEnded = true ∧ s' = s.release key ∧ ¬lost) ∨
    (phase'.isEnded = true ∧ s' = s ∧ lost)

/-- A step brings no in-flight count above what it was after the grant. -/
theorem Accounts.inflight_le {s s' : Slots} {key : Option Str} {lost : Prop} {k : Str} {n : ℕ}
    (h : Accounts s key s' phase lost) (hn : s.inflight k ≤ n) : s'.inflight k ≤ n := by
  rcases h with ⟨-, rfl, -⟩ | ⟨-, rfl, -⟩ | ⟨-, rfl, -⟩
  · exact hn
  · exact (Slots.inflight_release_le).trans hn
  · exact hn

theorem leaveCall_accounts (rt : Runtime) (w : World) (f : Forward) (started now : ℚ) (e : Exn) :
    Accounts w.slots f.releaseKeyid (leaveCall rt w f started now e).1.slots
      (leaveCall rt w f started now e).2 (f.streaming ∧ ¬e.isException) := by
  obtain ⟨e', he'⟩ := leaveCall_phase rt w f started now e
  rw [leaveCall_slots, he']
  by_cases h : f.streaming ∧ ¬e.isException
  · rw [if_pos h]
    exact .inr (.inr ⟨rfl, rfl, h⟩)
  · rw [if_neg h]
    exact .inr (.inl ⟨rfl, rfl, h⟩)

theorem settle_accounts :
    Accounts w.slots f.releaseKeyid (settle rt σ w f started now retry).1.slots
      (settle rt σ w f started now retry).2
      (∃ e, retry = .raised e ∧ f.streaming ∧ ¬e.isException) := by
  unfold settle
  split
  · split
    · split <;> exact .inl ⟨rfl, rfl, rfl⟩
    · refine .inr (.inl ⟨rfl, by simp, ?_⟩)
      rintro ⟨e, he, -⟩
      cases he
  · rename_i e
    simpa using leaveCall_accounts rt w f started now e
  · exact .inl ⟨rfl, rfl, rfl⟩

theorem Accounts.congr {s s' : Slots} {key : Option Str} {lost lost' : Prop} (hl : lost ↔ lost')
    (h : Accounts s key s' phase lost) : Accounts s key s' phase lost' := by
  rwa [Accounts, ← hl]

theorem afterRetry_pool {pool : UpstreamPool} {calls : List MetricCall} :
    (afterRetry rt σ w f started now (pool, calls, retry)).1.pool = pool :=
  settle_pool

/-- After a segment of the retry loop, only what was raised into it can lose the slot. -/
theorem afterRetry_accounts {pool : UpstreamPool} {calls : List MetricCall} {lost : Prop}
    (h : (∃ e, retry = .raised e ∧ f.streaming ∧ ¬e.isException) ↔ lost) :
    Accounts w.slots f.releaseKeyid (afterRetry rt σ w f started now (pool, calls, retry)).1.slots
      (afterRetry rt σ w f started now (pool, calls, retry)).2 lost :=
  (settle_accounts (w := { w with pool, metrics := w.metrics ++ calls })).congr h

/-! ## The moves of a request -/

/-- What a request can do in one step, with everything the step is decided by. -/
inductive Moves (rt : Runtime) (σ : Settings) (p : Principal) (started now : ℚ) (w : World) :
    Phase → Input → World × Phase → Prop
  /-- The body does not arrive. -/
  | aborted (g : Fault) : Moves rt σ p started now w .body (.raised g) (w, .ended (.raised (.fault g)))
  /-- The checks refuse the request, or crash. -/
  | refused {raw : Bytes} {w₁ : World} {e : Exn} :
      prepare rt σ p w raw started now = (w₁, .error e) →
      Moves rt σ p started now w .body (.received raw) (w₁, .ended (.raised e))
  /-- The checks let the request through, and it reaches the pool. -/
  | admitted {raw : Bytes} {w₁ : World} {f : Forward} {pool : UpstreamPool}
      {calls : List MetricCall} {retry : Retry} :
      prepare rt σ p w raw started now = (w₁, .ok f) →
      Retry.start rt σ MAX_ATTEMPTS f.streaming w₁.pool f.forwarded 0 none now =
        (pool, calls, retry) →
      Moves rt σ p started now w .body (.received raw)
        (afterRetry rt σ w₁ f started now (pool, calls, retry))
  /-- The call of the pool goes on. -/
  | called {f : Forward} {retry retry' : Retry} {x : Input} {pool : UpstreamPool}
      {calls : List MetricCall} :
      retry.resume rt σ MAX_ATTEMPTS f.streaming w.pool f.forwarded x now =
        some (pool, calls, retry') →
      Moves rt σ p started now w (.calling f retry) x
        (afterRetry rt σ w f started now (pool, calls, retry'))
  /-- The drain of an error response goes on. -/
  | drained {f : Forward} {u : Str} {resp : Response} {seen seen' : ℕ} {b : Bytes} :
      Moves rt σ p started now w (.draining f u resp seen) (.chunk b) (w, .draining f u resp seen')
  /-- The drain of an error response is over. -/
  | drainEnded {f : Forward} {u : Str} {resp : Response} {seen : ℕ} {x : Input}
      {pending : Option Fault} : (∀ g, pending = some g → x = .raised g ∧ ¬g.isException) →
      Moves rt σ p started now w (.draining f u resp seen) x (w, .drainClosing f u resp pending)
  /-- The error response is closed. -/
  | drainClosed {f : Forward} {u : Str} {resp : Response} {pending : Option Fault} :
      Moves rt σ p started now w (.drainClosing f u resp pending) .done
        (leaveDrain rt w f started now resp pending)
  /-- Closing the error response fails. -/
  | drainFailed {f : Forward} {u : Str} {resp : Response} {pending : Option Fault} (g : Fault) :
      Moves rt σ p started now w (.drainClosing f u resp pending) (.raised g)
        (leaveCall rt w f started now (.fault g))
  /-- The generator is started. -/
  | opened {f : Forward} {u : Str} {resp : Response} :
      Moves rt σ p started now w (.responding f u resp) .next (w, .relaying f u resp {})
  /-- The generator is never started. -/
  | dropped {f : Forward} {u : Str} {resp : Response} :
      Moves rt σ p started now w (.responding f u resp) .dropped (w, .ended .abandoned)
  /-- The generator goes on. -/
  | relayed {f : Forward} {u : Str} {resp : Response} {relay relay' : Relay} {x : Input}
      {calls : List MetricCall} : (∀ pending, relay.point ≠ .closing pending) →
      relay.resume rt σ f.model x = some (calls, relay') →
      Moves rt σ p started now w (.relaying f u resp relay) x
        ({ w with metrics := w.metrics ++ calls }, .relaying f u resp relay')
  /-- The streamed response is closed. -/
  | finished {f : Forward} {u : Str} {resp : Response} {relay : Relay} {pending : Option Fault} :
      relay.point = .closing pending →
      Moves rt σ p started now w (.relaying f u resp relay) .done
        ((finishStream rt σ w f started now u resp relay pending).1,
          .ended (finishStream rt σ w f started now u resp relay pending).2)
  /-- Closing the streamed response fails. -/
  | closeFailed {f : Forward} {u : Str} {resp : Response} {relay : Relay}
      {pending : Option Fault} (g : Fault) : relay.point = .closing pending →
      Moves rt σ p started now w (.relaying f u resp relay) (.raised g)
        (w, .ended (.streamFailed (.fault g)))

/-- Every step of the route is one of these. -/
theorem moves_of_advance {s : World × Phase}
    (h : advance rt σ p started w phase x now = some s) : Moves rt σ p started now w phase x s := by
  cases phase with
  | body =>
      cases x with
      | received raw =>
          obtain rfl := Option.some.inj h
          unfold receive
          rcases hp : prepare rt σ p w raw started now with ⟨w₁, e | f⟩
          · exact .refused hp
          · exact .admitted hp rfl
      | raised g => cases h; exact .aborted g
      | _ => cases h
  | calling f retry =>
      obtain ⟨⟨pool, calls, retry'⟩, hr, rfl⟩ := Option.map_eq_some_iff.mp h
      exact .called hr
  | draining f u resp seen =>
      cases x with
      | chunk b =>
          simp only [advance] at h
          split at h
          · cases h
            exact .drainEnded fun g hg ↦ by cases hg
          · cases h
            exact .drained
      | eof => cases h; exact .drainEnded fun g hg ↦ by cases hg
      | raised g =>
          cases h
          refine .drainEnded fun g' hg' ↦ ?_
          split at hg'
          · cases hg'
          · rename_i hg
            cases hg'
            exact ⟨rfl, hg⟩
      | _ => cases h
  | drainClosing f u resp pending =>
      cases x with
      | done => obtain rfl := Option.some.inj h; exact .drainClosed
      | raised g => obtain rfl := Option.some.inj h; exact .drainFailed g
      | _ => cases h
  | responding f u resp =>
      cases x with
      | next => cases h; exact .opened
      | dropped => cases h; exact .dropped
      | _ => cases h
  | relaying f u resp relay =>
      cases hpoint : relay.point with
      | closing pending =>
          cases x with
          | done =>
              simp only [advance, hpoint] at h
              obtain rfl := Option.some.inj h
              exact .finished hpoint
          | raised g =>
              simp only [advance, hpoint] at h
              obtain rfl := Option.some.inj h
              exact .closeFailed g hpoint
          | _ => simp [advance, hpoint, Relay.resume] at h
      | _ =>
          simp only [advance, hpoint] at h
          obtain ⟨⟨calls, relay'⟩, hr, rfl⟩ := Option.map_eq_some_iff.mp h
          exact .relayed (fun pending hc ↦ by rw [hpoint] at hc; cases hc) hr
  | ended how => cases h

variable {s : World × Phase}

/-- No step starts from the end. -/
theorem Moves.not_isEnded (h : Moves rt σ p started now w phase x s) : phase.isEnded = false := by
  cases h <;> rfl

/-! ## The breakers -/

/-- The end of an attempt is recorded in the breaker of its replica, once. -/
theorem Moves.outcome {u : Str} {outcome : Outcome} (h : Moves rt σ p started now w phase x s)
    (ho : phase.outcome? x = some (u, outcome)) : s.1.pool = w.pool.record u outcome now := by
  cases h with
  | called hr =>
      rw [afterRetry_pool]
      exact Retry.resume_outcome hr ho
  | _ => cases ho

/-- A step that ends no attempt leaves a breaker alone, or charges it with a body that
cannot be encoded. -/
theorem Moves.breaker (h : Moves rt σ p started now w phase x s) (ho : phase.outcome? x = none)
    (v : Str) :
    s.1.pool.breaker v = w.pool.breaker v ∨ ∃ f, Forwards rt σ p started now w phase x f ∧
      Retry.Unsent rt f.forwarded (w.pool.breaker v) (s.1.pool.breaker v) now := by
  cases h with
  | refused hp =>
      obtain ⟨_, _, rfl⟩ := prepare_error hp
      exact .inl rfl
  | admitted hp hs =>
      have hadm := prepare_ok hp
      rw [← hadm.pool, afterRetry_pool]
      refine (Retry.start_breaker hs).imp_right fun hu ↦ ⟨_, .inr ⟨_, _, rfl, rfl, hp⟩, hu⟩
  | called hr =>
      rw [afterRetry_pool]
      exact (Retry.resume_breaker hr ho).imp_right fun hu ↦ ⟨_, .inl rfl, hu⟩
  | drainClosed => exact .inl (congrArg (fun p ↦ UpstreamPool.breaker p v) leaveDrain_pool)
  | drainFailed g => exact .inl (congrArg (fun p ↦ UpstreamPool.breaker p v) leaveCall_pool)
  | finished _ => exact .inl (congrArg (fun p ↦ UpstreamPool.breaker p v) finishStream_pool)
  | _ => exact .inl rfl

/-! ## What the request hands on -/

/-- What a request holds after a step it has handed to the pool. -/
theorem Moves.forward (h : Moves rt σ p started now w phase x s) (hf : s.2.forward? = some f) :
    Forwards rt σ p started now w phase x f := by
  cases h with
  | admitted hp hs =>
      obtain rfl := settle_forward hf
      exact .inr ⟨_, _, rfl, rfl, hp⟩
  | called hr =>
      obtain rfl := settle_forward hf
      exact .inl rfl
  | drainClosed =>
      obtain ⟨e', he'⟩ := leaveDrain_phase rt w ‹Forward› started now ‹Response› ‹Option Fault›
      rw [he'] at hf
      cases hf
  | drainFailed g =>
      obtain ⟨e', he'⟩ := leaveCall_phase rt w ‹Forward› started now (.fault g)
      rw [he'] at hf
      cases hf
  | drained => exact .inl hf
  | drainEnded _ => exact .inl hf
  | opened => exact .inl hf
  | relayed _ _ => exact .inl hf
  | _ => cases hf

/-! ## The slots -/

/-- Only dropping a response that was handed back leaves it abandoned, and that step
does nothing else. -/
theorem Moves.abandoned (h : Moves rt σ p started now w phase x s)
    (hs : s.2 = .ended .abandoned) :
    ∃ f u resp, phase = .responding f u resp ∧ s.1 = w := by
  cases h with
  | dropped => exact ⟨_, _, _, rfl, rfl⟩
  | admitted hp hstart => rcases settle_ended hs with ⟨_, h⟩ | ⟨_, h⟩ <;> cases h
  | called hr => rcases settle_ended hs with ⟨_, h⟩ | ⟨_, h⟩ <;> cases h
  | drainClosed =>
      obtain ⟨e', he'⟩ := leaveDrain_phase rt w ‹Forward› started now ‹Response› ‹Option Fault›
      rw [he'] at hs
      cases hs
  | drainFailed g =>
      obtain ⟨e', he'⟩ := leaveCall_phase rt w ‹Forward› started now (.fault g)
      rw [he'] at hs
      cases hs
  | finished hpoint =>
      have hhow := Phase.ended.inj hs
      rcases finishStream_snd rt σ w ‹Forward› started now ‹Str› ‹Response› ‹Relay› ‹Option Fault› with
        h | ⟨_, h⟩
      · rw [h] at hhow
        cases hhow
      · rw [h] at hhow
        cases hhow
  | _ => cases hs

/-- Inside the call of the pool the slot is lost to what is raised there and is no
`Exception`, and to nothing else. -/
theorem loses_calling {retry' : Retry} {pool : UpstreamPool} {calls : List MetricCall}
    (h : retry.resume rt σ MAX_ATTEMPTS f.streaming w.pool f.forwarded x now =
      some (pool, calls, retry')) :
    (∃ e, retry' = .raised e ∧ f.streaming ∧ ¬e.isException) ↔ (Phase.calling f retry).loses x := by
  constructor
  · rintro ⟨e, rfl, hs, he⟩
    rcases Retry.resume_raised h with ⟨href, -⟩ | ⟨g, rfl, rfl, -⟩
    · exact absurd (Exn.isException_of_isRefusal href) he
    · simpa [Phase.loses, hs, Exn.isException] using he
  · intro hl
    cases x with
    | raised g =>
        obtain ⟨hs, hg⟩ : f.streaming = true ∧ ¬g.isException = true := by
          simpa [Phase.loses] using hl
        exact ⟨_, Retry.resume_of_not_isException hg h, hs, hg⟩
    | _ => cases hl

theorem leaveDrain_accounts {u : Str} {resp : Response} {pending : Option Fault} :
    Accounts w.slots f.releaseKeyid (leaveDrain rt w f started now resp pending).1.slots
      (leaveDrain rt w f started now resp pending).2
      ((Phase.drainClosing f u resp pending).loses .done) := by
  obtain ⟨e', he'⟩ := leaveDrain_phase rt w f started now resp pending
  rw [leaveDrain_slots, he']
  cases pending with
  | none => exact .inr (.inl ⟨rfl, by simp, Bool.false_ne_true⟩)
  | some g =>
      have hiff : (Phase.drainClosing f u resp (some g)).loses .done = true ↔
          f.streaming ∧ ¬g.isException := by simp [Phase.loses]
      by_cases h : f.streaming ∧ ¬g.isException
      · exact .inr (.inr ⟨rfl, if_pos ⟨h.1, g, rfl, h.2⟩, hiff.mpr h⟩)
      · refine .inr (.inl ⟨rfl, if_neg ?_, mt hiff.mp h⟩)
        rintro ⟨hs, g', hg', hg⟩
        obtain rfl := Option.some.inj hg'
        exact h ⟨hs, hg⟩

/-- A slot of `k` is granted: the request is at its checks, and its key is under its cap
and its budget. -/
structure Granted (p : Principal) (w : World) (phase : Phase) (k : Str) : Prop where
  body : phase = .body
  key : p.keyid = some k
  cap : ∀ cap, p.maxConcurrency = some cap → (w.quota.inflight k : ℤ) < cap
  budget : ∀ budget, p.tokenBudget = some budget → ¬(w.quota.tokensUsed k).ge (.int budget)

/-- What a step does to the slots: the first step may take one; and what the request
holds after that is kept, given back, or lost where `Phase.loses` says so. -/
theorem Moves.slots (h : Moves rt σ p started now w phase x s) :
    ∃ granted : Option Str,
      (∀ k, granted = some k → Granted p w phase k) ∧
      (s.2.isEnded = false → ∀ k cap, p.keyid = some k → p.maxConcurrency = some cap →
        phase = .body → granted = some k) ∧
      Accounts (w.slots.acquireFor granted) (phase.slot.or granted) s.1.slots s.2
        (phase.loses x) := by
  have hno : ∀ {k}, (none : Option Str) = some k → Granted p w phase k := fun h ↦ by cases h
  cases h with
  | aborted g => exact ⟨none, fun _ ↦ hno, by simp [Phase.isEnded], .inr (.inl ⟨rfl, rfl, Bool.false_ne_true⟩)⟩
  | refused hp =>
      obtain ⟨_, _, rfl⟩ := prepare_error hp
      exact ⟨none, fun _ ↦ hno, by simp [Phase.isEnded], .inr (.inl ⟨rfl, rfl, Bool.false_ne_true⟩)⟩
  | admitted hp hs =>
      have hadm := prepare_ok hp
      refine ⟨_, fun k hk ↦ ⟨rfl, hadm.key k hk, fun cap hc ↦ ?_, fun budget hb ↦ ?_⟩,
        fun _ k cap hk hc _ ↦ ?_, ?_⟩
      · exact (hadm.cap k cap (hadm.key k hk) hc).2
      · exact hadm.validated.budget k budget (hadm.key k hk) hb
      · exact (hadm.cap k cap hk hc).1
      · rw [← hadm.slots]
        refine afterRetry_accounts ⟨?_, fun h ↦ absurd h Bool.false_ne_true⟩
        rintro ⟨e, rfl, -, he⟩
        exact absurd (Exn.isException_of_isRefusal (Retry.start_raised hs)) he
  | called hr =>
      refine ⟨none, fun _ ↦ hno, by simp, ?_⟩
      rw [Option.or_none]
      exact afterRetry_accounts (loses_calling hr)
  | drained => exact ⟨none, fun _ ↦ hno, by simp, .inl ⟨rfl, rfl, by simp [Phase.slot, Phase.forward?]⟩⟩
  | drainEnded _ => exact ⟨none, fun _ ↦ hno, by simp, .inl ⟨rfl, rfl, by simp [Phase.slot, Phase.forward?]⟩⟩
  | drainClosed =>
      refine ⟨none, fun _ ↦ hno, by simp, ?_⟩
      rw [Option.or_none]
      exact leaveDrain_accounts
  | drainFailed g =>
      refine ⟨none, fun _ ↦ hno, by simp, ?_⟩
      rw [Option.or_none]
      refine Accounts.congr ?_ (leaveCall_accounts ..)
      cases ‹Option Fault› <;> simp [Phase.loses, Exn.isException]
  | opened => exact ⟨none, fun _ ↦ hno, by simp, .inl ⟨rfl, rfl, by simp [Phase.slot, Phase.forward?]⟩⟩
  | dropped => exact ⟨none, fun _ ↦ hno, by simp, .inr (.inr ⟨rfl, rfl, rfl⟩)⟩
  | relayed hpoint hr => exact ⟨none, fun _ ↦ hno, by simp, .inl ⟨rfl, rfl, by simp [Phase.slot, Phase.forward?]⟩⟩
  | finished hpoint =>
      refine ⟨none, fun _ ↦ hno, by simp, .inr (.inl ⟨rfl, ?_, Bool.false_ne_true⟩)⟩
      rw [Option.or_none]
      exact finishStream_slots
  | closeFailed g hpoint =>
      refine ⟨none, fun _ ↦ hno, by simp, .inr (.inr ⟨rfl, rfl, ?_⟩)⟩
      simp only [Phase.loses, hpoint]
      rfl

end InferenceGateway
