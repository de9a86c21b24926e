import InferenceGateway.Parity
import InferenceGateway.Routes.Chunking
import InferenceGateway.Routes.Epilogue

/-!
# A request that is answered

What a whole request is billed for: the calls of `tokens_total`, and what its key is charged with
by `record_usage`.  Every step after which the request goes on leaves both alone
(`Moves.unbilled`), so that a request is billed for what its last step is billed for.

In one mode that step reads the answer, in the other it is the `finally` of the generator.  On the
way there, `Relay.Faithful` is what holds of a relay that has received the beginning of a body and
passed it on.
-/

namespace InferenceGateway

open Py Transition

/-! ## Bills -/

/-- Calls of `tokens_total`, and the total `record_usage` is called with. -/
structure Bill where
  calls : List MetricCall := []
  total : Py.Num := .int 0

/-- The totals once a key, if there is one, has been charged; what raises leaves them alone. -/
def QuotaTracker.chargedTo (q : QuotaTracker) (key : Option Str) (total : Py.Num) : Str → Py.Num :=
  match key with
  | some k => ((q.recordUsage k total).toOption.getD q).tokensUsed
  | none => q.tokensUsed

/-- From `w` to `w'` the key is billed for `b`. -/
structure Bills (key : Option Str) (b : Bill) (w w' : World) : Prop where
  counted : w'.tokensCounted = w.tokensCounted ++ b.calls
  charged : w'.quota.tokensUsed = w.quota.chargedTo key b.total

theorem QuotaTracker.chargedTo_zero {q : QuotaTracker} {key : Option Str} :
    q.chargedTo key (.int 0) = q.tokensUsed := by
  cases key <;> rfl

/-- What is charged depends on the totals only. -/
theorem QuotaTracker.chargedTo_congr {q q' : QuotaTracker} {key : Option Str} {total : Py.Num}
    (h : q'.tokensUsed = q.tokensUsed) : q'.chargedTo key total = q.chargedTo key total := by
  cases key with
  | none => exact h
  | some k =>
      unfold chargedTo recordUsage
      dsimp only
      rw [h]
      split
      · cases (q.tokensUsed k).add total with
        | error e => exact h
        | ok used => rfl
      · exact h

namespace Bills

variable {rt : Runtime} {σ : Settings} {key : Option Str} {b : Bill} {w w₁ w' : World}
  {model : Value} {usage : Fields} {prompt completion : ℕ}

/-- Neither the counters nor the totals change. -/
theorem nothing (hm : w'.tokensCounted = w.tokensCounted)
    (hq : w'.quota.tokensUsed = w.quota.tokensUsed) : Bills key {} w w' :=
  ⟨by rw [hm, List.append_nil], hq.trans QuotaTracker.chargedTo_zero.symm⟩

/-- Nothing first, then a bill. -/
theorem after (h₁ : Bills key {} w w₁) (h₂ : Bills key b w₁ w') : Bills key b w w' where
  counted := by rw [h₂.counted, h₁.counted, List.append_nil]
  charged := by
    have htotals : w₁.quota.tokensUsed = w.quota.tokensUsed :=
      h₁.charged.trans QuotaTracker.chargedTo_zero
    rw [h₂.charged, QuotaTracker.chargedTo_congr htotals]

/-- Of the state after, the metrics and the totals matter. -/
theorem congr (h : Bills key b w w₁) (hm : w'.metrics = w₁.metrics) (hq : w'.quota = w₁.quota) :
    Bills key b w w' where
  counted := by
    rw [← h.counted, World.tokensCounted, hm]
    rfl
  charged := hq ▸ h.charged

/-- Calls of other series. -/
theorem of_calls {calls : List MetricCall} (pool : UpstreamPool)
    (h : calls.filter MetricCall.ofTokens = []) :
    Bills key {} w { w with pool, metrics := w.metrics ++ calls } := by
  refine nothing ?_ rfl
  rw [World.tokensCounted, List.filter_append, h, List.append_nil]
  rfl

theorem releaseSlot {release : Option Str} : Bills key {} w (w.releaseSlot release) := by
  refine nothing ?_ World.releaseSlot_tokensUsed
  cases release <;> rfl

/-- Two counts that the counters take are counted and charged. -/
theorem recordUsage (hp : usage.get (str "prompt_tokens") = .int prompt)
    (hc : usage.get (str "completion_tokens") = .int completion)
    (hp' : countable rt (.int prompt)) (hc' : countable rt (.int completion)) :
    Bills key ⟨tokenCalls (σ.safeModel model) (.int prompt) (.int completion),
      .int (prompt + completion)⟩ w (w.recordUsage rt σ model usage key).1 := by
  obtain ⟨metrics, hmetrics, hrec⟩ :=
    @World.recordUsage_of_countable rt σ w key usage model (hp ▸ hp') (hc ▸ hc')
  rw [hp, hc] at hmetrics hrec
  rw [hrec]
  obtain ⟨tokensUsed, hfst⟩ :=
    World.charge_fst { w with metrics } key (.int prompt) (.int completion)
  refine ⟨by rw [hfst]; exact hmetrics, ?_⟩
  cases key with
  | none => rfl
  | some k =>
      have htotal : (World.orZero (.int prompt)).add (World.orZero (.int completion)) =
          .ok (.int (prompt + completion)) := by
        rw [World.orZero_int, World.orZero_int]
        rfl
      simp only [World.charge, htotal, QuotaTracker.chargedTo, bind, Except.bind]
      cases w.quota.recordUsage k (.int (prompt + completion)) <;> rfl

/-- Without counts nothing is counted or charged. -/
theorem recordUsage_nil : Bills key {} w (w.recordUsage rt σ model [] key).1 :=
  of_calls w.pool rfl

end Bills

/-! ## The steps of a request -/

section Steps

variable {rt : Runtime} {σ : Settings} {p : Principal} {started now : ℚ} {f : Forward}
  {phase phase' : Phase} {t last : Turn} {turns : List Turn} {how : Ended} {w : World}
  {m : World × Phase} {x : Input} {key : Option Str} {b : Bill}

/-- After a segment of the retry loop the request goes on, and nothing else has happened. -/
theorem afterRetry_of_goes_on {pool : UpstreamPool} {calls : List MetricCall} {retry : Retry}
    (h : (afterRetry rt σ w f started now (pool, calls, retry)).2.isEnded = false) :
    (afterRetry rt σ w f started now (pool, calls, retry)).1 =
      { w with pool, metrics := w.metrics ++ calls } := by
  cases retry with
  | returned u resp =>
      simp only [afterRetry, settle] at h ⊢
      by_cases hs : f.streaming = true
      · rw [if_pos hs]
        split <;> rfl
      · rw [if_neg hs] at h
        cases h
  | raised e =>
      obtain ⟨e', he'⟩ := leaveCall_phase rt { w with pool, metrics := w.metrics ++ calls } f
        started now e
      simp only [afterRetry, settle, he'] at h
      cases h
  | _ => rfl

/-- The relay counts the first byte and broken streams. -/
theorem Relay.resume_filter {relay relay' : Relay} {model : Value} {calls : List MetricCall}
    (h : relay.resume rt σ model x = some (calls, relay')) :
    calls.filter MetricCall.ofTokens = [] := by
  have hchunk (b : Bytes) : (relay.onChunk rt σ model b).1.filter MetricCall.ofTokens = [] := by
    have hfirst : (relay.firstByteSeen σ model b).filter MetricCall.ofTokens = [] := by
      unfold Relay.firstByteSeen
      split <;> rfl
    unfold Relay.onChunk
    dsimp only
    rcases drainEvents rt (relay.buf ++ b).length (relay.buf ++ b) relay.usage with
      ⟨buf, usage, _ | e⟩
    · exact hfirst
    · dsimp only
      rw [List.filter_append, hfirst]
      rfl
  unfold Relay.resume at h
  split at h
  · rw [← (Prod.mk.inj (Option.some.inj h)).1]
    exact hchunk _
  · cases h; rfl
  · split at h <;> cases h <;> rfl
  · cases h; rfl
  · cases h; rfl
  · cases h; rfl
  · cases h; rfl
  · cases h; rfl
  · cases h

/-- A step after which the request goes on is billed for nothing. -/
theorem Moves.unbilled (h : Moves rt σ p started now w phase x m) (hend : m.2.isEnded = false) :
    Bills key {} w m.1 := by
  have hsame : Bills key {} w w := .nothing rfl rfl
  cases h with
  | @admitted raw w₁ f pool calls retry hp hs =>
      have hprepared : w₁.tokensCounted = w.tokensCounted := by
        rcases prepare_cases rt σ p w raw started now with
          ⟨metrics, audit, e, hp'⟩ | ⟨f', -, -, hp'⟩ | ⟨f', k, cap, quota, -, -, -, -, hp'⟩
        · cases hp.symm.trans hp'
        · cases hp.symm.trans hp'
          rfl
        · cases hp.symm.trans hp'
          rfl
      rw [afterRetry_of_goes_on hend]
      have hcalls : Bills key {} w₁ { w₁ with pool, metrics := w₁.metrics ++ calls } :=
        .of_calls pool (Retry.start_filter (fun _ _ ↦ rfl) hs)
      exact (Bills.nothing hprepared (prepare_ok hp).tokensUsed).after hcalls
  | called hr =>
      rw [afterRetry_of_goes_on hend]
      exact .of_calls _ (Retry.resume_filter (fun _ _ ↦ rfl) hr)
  | relayed hpoint hr => exact .of_calls w.pool (Relay.resume_filter hr)
  | drained => exact hsame
  | drainEnded => exact hsame
  | opened => exact hsame
  | drainClosed =>
      obtain ⟨e', he'⟩ := leaveDrain_phase rt w ‹Forward› started now ‹Response› ‹Option Fault›
      rw [he'] at hend
      cases hend
  | drainFailed g =>
      obtain ⟨e', he'⟩ := leaveCall_phase rt w ‹Forward› started now (.fault g)
      rw [he'] at hend
      cases hend
  | _ => cases hend

/-! ## Whole requests -/

/-- What the step is billed for. -/
def billsAt (rt : Runtime) (σ : Settings) (p : Principal) (started : ℚ) (b : Bill) (phase : Phase)
    (t : Turn) : Prop :=
  ∀ m, advance rt σ p started t.world phase t.input t.now = some m → Bills p.keyid b t.world m.1

/-- A request, from its first step to its last, that is billed for `b`: in its last step, and for
nothing before. -/
def BilledFor (rt : Runtime) (σ : Settings) (p : Principal) (started : ℚ) (b : Bill)
    (turns : List Turn) (how : Ended) : Prop :=
  ∃ before last phase, turns = before ++ [last] ∧
    Run (Guarded (Steps (turn rt σ p started)) fun phase t ↦ billsAt rt σ p started {} phase t)
      .body before phase ∧
    Steps (turn rt σ p started) phase last (.ended how) ∧ billsAt rt σ p started b phase last

theorem not_ended_of_step (h : Steps (turn rt σ p started) phase t phase') :
    phase.isEnded = false := by
  obtain ⟨m, hm, -⟩ := turn_cases h
  exact hm.not_isEnded

/-- As long as a request goes on, it is billed for nothing. -/
theorem unbilled_of_run (h : Run (Steps (turn rt σ p started)) phase turns phase')
    (hend : phase'.isEnded = false) :
    Run (Guarded (Steps (turn rt σ p started)) fun phase t ↦ billsAt rt σ p started {} phase t)
      phase turns phase' := by
  induction h with
  | nil phase => exact .nil phase
  | @cons phase phase₁ phase' t turns hs hr ih =>
      refine .cons ⟨hs, fun m hm ↦ (moves_of_advance hm).unbilled ?_⟩ (ih hend)
      have hphase : m.2 = phase₁ := by
        have hturn : turn rt σ p started phase t = some m.2 := by rw [turn, hm]; rfl
        exact Option.some.inj (hturn.symm.trans hs)
      rw [hphase]
      cases hr with
      | nil => exact hend
      | cons hs' _ => exact not_ended_of_step hs'

/-- A request is billed for what its last step is billed for. -/
theorem billed_of_last (hr : Run (Steps (turn rt σ p started)) .body turns phase)
    (hs : Steps (turn rt σ p started) phase last (.ended how))
    (hb : billsAt rt σ p started b phase last) : BilledFor rt σ p started b (turns ++ [last]) how :=
  ⟨turns, last, phase, rfl, unbilled_of_run hr (not_ended_of_step hs), hs, hb⟩

/-- No step leads back to the beginning. -/
theorem Moves.ne_body (h : Moves rt σ p started now w phase x m) : m.2 ≠ .body := by
  have hsettle (w : World) (f : Forward) (retry : Retry) :
      (settle rt σ w f started now retry).2 ≠ .body := by
    cases retry with
    | returned u resp =>
        simp only [settle]
        split
        · split <;> exact Phase.noConfusion
        · exact Phase.noConfusion
    | raised e =>
        obtain ⟨e', he'⟩ := leaveCall_phase rt w f started now e
        rw [settle, he']
        exact Phase.noConfusion
    | _ => exact Phase.noConfusion
  cases h with
  | admitted hp hs => exact hsettle _ _ _
  | called hr => exact hsettle _ _ _
  | drainClosed =>
      obtain ⟨e', he'⟩ := leaveDrain_phase rt w ‹Forward› started now ‹Response› ‹Option Fault›
      rw [he']
      exact Phase.noConfusion
  | drainFailed g =>
      obtain ⟨e', he'⟩ := leaveCall_phase rt w ‹Forward› started now (.fault g)
      rw [he']
      exact Phase.noConfusion
  | _ => exact Phase.noConfusion

/-- A request is handed to the pool once: after its first step, it is what it is. -/
theorem Moves.forward_of_ne (h : Moves rt σ p started now w phase x m) (hbody : phase ≠ .body) :
    m.2 ≠ .body ∧ ∀ f, m.2.forward? = some f → phase.forward? = some f := by
  refine ⟨h.ne_body, fun f hf ↦ ?_⟩
  rcases h.forward hf with hf | ⟨raw, w', rfl, -⟩
  · exact hf
  · exact absurd rfl hbody

/-- What a request hands to the pool is what its first step has let through. -/
theorem accepts_of_run (h : Run (Steps (turn rt σ p started)) .body turns phase)
    (hf : phase.forward? = some f) :
    ∃ t rest, turns = t :: rest ∧ Accepts rt σ p started t f := by
  cases h with
  | nil => cases hf
  | @cons _ phase₁ _ t rest hs hr =>
      obtain ⟨m, hm, rfl, -⟩ := turn_cases hs
      have hlater := hr.invariant (P := fun phase ↦ phase ≠ .body ∧
          ∀ f, phase.forward? = some f → m.2.forward? = some f) ?_ ⟨hm.ne_body, fun _ h ↦ h⟩
      · rcases hm.forward (hlater.2 f hf) with hf | ⟨raw, w', -, hinput, hprepare⟩
        · cases hf
        · exact ⟨t, rest, rfl, raw, w', hinput, hprepare⟩
      · intro phase t phase' hs ⟨hbody, hback⟩
        obtain ⟨m', hm', rfl, -⟩ := turn_cases hs
        obtain ⟨hbody', hback'⟩ := hm'.forward_of_ne hbody
        exact ⟨hbody', fun f hf ↦ hback f (hback' f hf)⟩

/-- It is its caller's. -/
theorem principal_of_run (h : Run (Steps (turn rt σ p started)) .body turns phase)
    (hf : phase.forward? = some f) : f.principal = p := by
  obtain ⟨t, rest, -, raw, w', -, hprepare⟩ := accepts_of_run h hf
  exact (prepare_ok hprepare).validated.principal

end Steps

/-! ## What the upstream delivers -/

/-- The chunk that arrives in a step. -/
def Turn.chunk? (t : Turn) : Option Bytes :=
  match t.input with
  | .chunk b => some b
  | _ => none

/-- The body `content` is delivered: it is the body of whatever answers an unstreamed request below
400; a chunk of a stream is the next part of it, and the stream ends where it does.  The response is
taken up, and nothing is raised into its generator. -/
def delivers (content : Bytes) (phase : Phase) (t : Turn) : Bool :=
  match phase, t.input with
  | .calling f _, .responded resp =>
    400 ≤ resp.statusCode || f.streaming || resp.content = content
  | .responding _ _ _, .dropped => false
  | .relaying _ _ _ relay, .chunk b => (relay.sent.flatten ++ b).isPrefixOf content
  | .relaying _ _ _ relay, .eof => relay.sent.flatten = content
  | .relaying _ _ _ _, .raised _ => false
  | _, _ => true

/-- An attempt to send `f` is answered with a status below 400. -/
def answers (f : Forward) (phase : Phase) (t : Turn) : Prop :=
  ∃ a u resp, phase = .calling f (.sending a u) ∧ t.input = .responded resp ∧ resp.statusCode < 400

/-- A request, from its first step to its last, that is handed to the pool as `f`, is answered, and
to which `content` is delivered.  The attempts before may have failed in any way. -/
def Delivered (rt : Runtime) (σ : Settings) (p : Principal) (started : ℚ) (content : Bytes)
    (f : Forward) (turns : List Turn) (how : Ended) : Prop :=
  Passes (Guarded (Steps (turn rt σ p started)) fun phase t ↦ delivers content phase t)
    (fun phase t ↦ answers f phase t) .body turns (.ended how)

/-- The step takes in a request whose body is this object. -/
def Takes (rt : Runtime) (t : Turn) (body : Fields) : Prop :=
  ∃ raw, t.input = .received raw ∧ Json.loads rt.loadsDepth raw = .ok (.dict body)

/-- A request whose generator comes to its `finally` having yielded these chunks, and no error
frame. -/
def Relayed (rt : Runtime) (σ : Settings) (p : Principal) (started : ℚ) (chunks : List Bytes)
    (turns : List Turn) : Prop :=
  ∃ before last f u resp relay, turns = before ++ [last] ∧
    Run (Steps (turn rt σ p started)) .body before (.relaying f u resp relay) ∧
    relay.sent = chunks ∧ relay.broken = false

/-! ## The relay of a body -/

/-- A relay that has passed on the beginning of `content`. -/
structure Relay.Faithful (rt : Runtime) (content : Bytes) (r : Relay) : Prop where
  broken : r.broken = false
  sent : r.sent.flatten <+: content
  buf : r.buf = rest eventEnd r.sent.flatten
  usage : r.usage = lastUsage rt [] (pieces eventEnd r.sent.flatten)
  point : r.point = .reading ∨ r.point = .yielded ∨
    r.point = .closing none ∧ r.sent.flatten = content

section Relaying

variable {rt : Runtime} {σ : Settings} {p : Principal} {started now : ℚ} {content : Bytes}
  {f : Forward} {u : Str} {resp : Response} {relay relay' : Relay} {model : Value} {b : Bytes}
  {calls : List MetricCall} {phase phase' : Phase} {t : Turn} {turns : List Turn} {how : Ended}

theorem Relay.Faithful.fresh : Relay.Faithful rt content {} :=
  ⟨rfl, List.nil_prefix, rfl, rfl, .inl rfl⟩

/-- The next chunk. -/
theorem Relay.Faithful.onChunk (h : relay.Faithful rt content) (hpoint : relay.point = .reading)
    (hw : ∀ ev ∈ pieces eventEnd content, Watchable rt ev)
    (hb : relay.sent.flatten ++ b <+: content)
    (hr : relay.resume rt σ model (.chunk b) = some (calls, relay')) :
    relay'.Faithful rt content ∧ relay'.sent = relay.sent ++ [b] := by
  obtain ⟨hpieces, hrest⟩ := pieces_rest_append eventEnd_ne_nil relay.sent.flatten b
  rw [← h.buf] at hpieces hrest
  have hall : ∀ ev ∈ pieces eventEnd (relay.sent.flatten ++ b), Watchable rt ev := by
    obtain ⟨tail, rfl⟩ := hb
    intro ev hev
    refine hw ev ?_
    rw [pieces_append eventEnd_ne_nil]
    exact List.mem_append_left _ hev
  rw [hpieces, List.forall_mem_append] at hall
  have hfeed : relay.feed rt σ model [.chunk b] = relay' := by
    simp [Relay.feed, hr]
  have husage := @Relay.feed_chunk_usage rt σ model relay b hpoint
  obtain ⟨first, usage, hnext⟩ := Relay.feed_chunk_of_watchable σ model hpoint hall.2
  rw [hfeed, h.usage, ← lastUsage_append hall.1, ← hpieces] at husage
  rw [hfeed] at hnext
  have hsent : relay'.sent = relay.sent ++ [b] := by rw [hnext]
  have hflat : relay'.sent.flatten = relay.sent.flatten ++ b := by rw [hsent]; simp
  refine ⟨⟨?_, ?_, ?_, ?_, ?_⟩, hsent⟩
  · rw [hnext]
    exact h.broken
  · rwa [hflat]
  · rw [hflat, hrest, hnext]
  · rw [hflat, husage]
  · right
    left
    rw [hnext]

/-- A step of the generator, of a stream that is delivered. -/
theorem Relay.Faithful.resume (h : relay.Faithful rt content)
    (hw : ∀ ev ∈ pieces eventEnd content, Watchable rt ev)
    (hd : delivers content (.relaying f u resp relay) t)
    (hr : relay.resume rt σ model t.input = some (calls, relay')) :
    relay'.Faithful rt content ∧ relay'.sent = relay.sent ++ t.chunk?.toList := by
  obtain ⟨world, x, now⟩ := t
  rcases h.point with hpoint | hpoint | ⟨hpoint, -⟩
  · cases x with
    | chunk b => exact h.onChunk hpoint hw (List.isPrefixOf_iff_prefix.mp hd) hr
    | eof =>
        have hend : relay.sent.flatten = content := of_decide_eq_true hd
        simp only [Relay.resume, hpoint] at hr
        cases hr
        exact ⟨⟨h.broken, h.sent, h.buf, h.usage, .inr (.inr ⟨rfl, hend⟩)⟩,
          (List.append_nil _).symm⟩
    | raised g => cases hd
    | _ => simp [Relay.resume, hpoint] at hr
  · cases x with
    | next =>
        simp only [Relay.resume, hpoint] at hr
        cases hr
        exact ⟨⟨h.broken, h.sent, h.buf, h.usage, .inl rfl⟩, (List.append_nil _).symm⟩
    | raised g => cases hd
    | _ => simp [Relay.resume, hpoint] at hr
  · simp [Relay.resume, hpoint] at hr

/-- From the generator on, a stream that is delivered is passed on to its end. -/
theorem relays_of_run (hw : ∀ ev ∈ pieces eventEnd content, Watchable rt ev)
    (hr : Run (Guarded (Steps (turn rt σ p started)) fun phase t ↦ delivers content phase t) phase
      turns phase') (hend : phase' = .ended how) :
    ∀ relay, phase = .relaying f u resp relay → relay.Faithful rt content →
      ∃ before last relay', turns = before ++ [last] ∧
        Run (Steps (turn rt σ p started)) (.relaying f u resp relay) before
          (.relaying f u resp relay') ∧
        Steps (turn rt σ p started) (.relaying f u resp relay') last (.ended how) ∧
        last.input = .done ∧ relay'.Faithful rt content ∧ relay'.point = .closing none ∧
        relay'.sent = relay.sent ++ before.filterMap Turn.chunk? := by
  induction hr with
  | nil phase =>
      subst hend
      rintro relay ⟨⟩
  | @cons phase phase₁ phase' t turns hs hr ih =>
      subst hend
      rintro relay rfl hfaithful
      obtain ⟨hstep, hd⟩ := hs
      obtain ⟨m, hm, hphase, -⟩ := turn_cases hstep
      obtain ⟨world, x, now⟩ := t
      cases hm with
      | @relayed _ _ _ _ relay₁ x calls hpoint hresume =>
          obtain ⟨hnext, hsent⟩ := hfaithful.resume (t := ⟨world, x, now⟩) hw hd hresume
          obtain ⟨before, last, relay', rfl, hrun, hlast, hdone, hf, hclosing, hall⟩ :=
            ih rfl relay₁ hphase.symm hnext
          subst hphase
          refine ⟨_ :: before, last, relay', rfl, .cons hstep hrun, hlast, hdone, hf, hclosing, ?_⟩
          rw [hall, hsent, List.append_assoc, List.filterMap_cons]
          cases hc : Turn.chunk? ⟨world, x, now⟩ <;> rfl
      | @finished _ _ _ _ pending hpoint =>
          subst hphase
          cases hr with
          | cons hs' _ => exact absurd (not_ended_of_step hs'.1) Bool.noConfusion
          | nil =>
              have hnone : pending = none := by
                rcases hfaithful.point with h | h | ⟨h, -⟩
                · cases hpoint.symm.trans h
                · cases hpoint.symm.trans h
                · cases hpoint.symm.trans h
                  rfl
              exact ⟨[], _, relay, rfl, .nil _, hstep, rfl, hfaithful, hnone ▸ hpoint,
                (List.append_nil _).symm⟩
      | closeFailed g hpoint => cases hd

/-- A response that is handed back and delivered is passed on to its end, chunk by chunk. -/
theorem relays_of_responding (hw : ∀ ev ∈ pieces eventEnd content, Watchable rt ev)
    (hr : Run (Guarded (Steps (turn rt σ p started)) fun phase t ↦ delivers content phase t)
      (.responding f u resp) turns (.ended how)) :
    ∃ before last relay, turns = before ++ [last] ∧
      Run (Steps (turn rt σ p started)) (.responding f u resp) before (.relaying f u resp relay) ∧
      Steps (turn rt σ p started) (.relaying f u resp relay) last (.ended how) ∧
      last.input = .done ∧ relay.Faithful rt content ∧ relay.point = .closing none ∧
      relay.sent = before.filterMap Turn.chunk? := by
  cases hr with
  | @cons _ phase₁ _ t rest hopen hrest =>
      obtain ⟨hopened, hd⟩ := hopen
      obtain ⟨m, hm, hphase, -⟩ := turn_cases hopened
      obtain ⟨world, x, now⟩ := t
      cases hm with
      | dropped => cases hd
      | opened =>
          subst hphase
          obtain ⟨before, last, relay, rfl, hrun, hlast, hdone, hfaithful, hclosing, hsent⟩ :=
            relays_of_run hw hrest rfl {} rfl .fresh
          exact ⟨_ :: before, last, relay, rfl, .cons hopened hrun, hlast, hdone, hfaithful,
            hclosing, hsent⟩

/-- At the end of a delivered body everything has been passed on. -/
theorem Relay.Faithful.flatten_eq (h : relay.Faithful rt content)
    (hclosing : relay.point = .closing none) : relay.sent.flatten = content := by
  rcases h.point with hp | hp | ⟨-, hp⟩
  · cases hclosing.symm.trans hp
  · cases hclosing.symm.trans hp
  · exact hp

end Relaying

/-! ## The request that is answered -/

/-- The epilogue of an unstreamed answer whose usage can be read. -/
theorem finishUnstreamed_of_usage {rt : Runtime} (σ : Settings) (w : World) (f : Forward)
    (started now : ℚ) (u : Str) {resp : Response} {payload : Value} {usage : Fields}
    (hpay : payloadOf rt resp = .ok payload) (huse : usageOf payload = .ok usage) :
    let w' := (finishUnstreamed rt σ w f started now u resp).1
    w'.quota = (w.recordUsage rt σ f.model usage f.principal.keyid).1.quota ∧
      w'.metrics = (w.recordUsage rt σ f.model usage f.principal.keyid).1.metrics := by
  cases finishUnstreamed_cases rt σ w f started now u resp with
  | unparsed hpay' hm =>
      rw [hpay] at hpay'
      cases hpay'
  | unread hpay' huse' hm =>
      obtain rfl := Except.ok.inj (hpay.symm.trans hpay')
      rw [huse] at huse'
      cases huse'
  | unrecorded hpay' huse' hrec hm =>
      obtain rfl := Except.ok.inj (hpay.symm.trans hpay')
      obtain rfl := Except.ok.inj (huse.symm.trans huse')
      rw [hm, hrec]
      exact ⟨rfl, rfl⟩
  | unlogged hpay' huse' hrec haudit hm =>
      obtain rfl := Except.ok.inj (hpay.symm.trans hpay')
      obtain rfl := Except.ok.inj (huse.symm.trans huse')
      rw [hm, hrec]
      exact ⟨rfl, rfl⟩
  | answered hpay' huse' hrec haudit hm =>
      obtain rfl := Except.ok.inj (hpay.symm.trans hpay')
      obtain rfl := Except.ok.inj (huse.symm.trans huse')
      rw [hm, hrec]
      exact ⟨rfl, rfl⟩

section Answering

variable {rt : Runtime} {σ : Settings} {p : Principal} {started now : ℚ} {content : Bytes}
  {f : Forward} {u : Str} {resp : Response} {w : World} {m : World × Phase} {x : Input}
  {phase phase' : Phase} {t : Turn} {turns : List Turn} {how : Ended} {b : Bill}
  {payload : Value} {usage : Fields}

/-- Up to the end of the retry loop, no chunk arrives. -/
theorem Moves.not_chunk (h : Moves rt σ p started now w phase x m) (hl : phase.late = false)
    (c : Bytes) : x ≠ .chunk c := by
  rintro rfl
  cases h with
  | called hr =>
      cases Retry.resumes_of_resume hr with
      | ended hr' ho hs =>
          obtain ⟨-, ⟨resp, hx, -⟩ | ⟨g, hx, -⟩⟩ := Retry.outcome?_eq_some ho
          · cases hx
          · cases hx
      | closed hr' hx hs => cases hx
      | woken hr' hx hs => cases hx
      | thrown hx hf hs => cases hx
  | _ => cases hl

theorem chunks_of_run (h : Run (Steps (turn rt σ p started)) phase turns phase')
    (hl : phase'.late = false) : turns.filterMap Turn.chunk? = [] := by
  induction h with
  | nil phase => rfl
  | @cons phase phase₁ phase' t turns hs hr ih =>
      obtain ⟨m, hm, rfl, -⟩ := turn_cases hs
      have hlate : phase.late = false := by
        by_contra hlate
        rw [Bool.not_eq_false] at hlate
        have hend : phase'.late = true := by
          refine hr.invariant (P := fun phase ↦ phase.late = true) ?_ (hm.late hlate)
          intro phase t phase' hs hl
          obtain ⟨m, hm, rfl, -⟩ := turn_cases hs
          exact hm.late hl
        rw [hl] at hend
        cases hend
      have hnone : t.chunk? = none := by
        obtain ⟨world, x, now⟩ := t
        cases x with
        | chunk c => exact absurd rfl (hm.not_chunk hlate c)
        | _ => rfl
      rw [List.filterMap_cons_none hnone, ih hl]

/-- The step in which the answer comes: the retry loop returns. -/
theorem advance_answered (rt : Runtime) (σ : Settings) (p : Principal) (started now : ℚ) (w : World)
    (f : Forward) (a : ℕ) (u : Str) (hlt : resp.statusCode < 400) : ∃ pool calls,
    calls.filter MetricCall.ofTokens = [] ∧
    advance rt σ p started w (.calling f (.sending a u)) (.responded resp) now =
      some (settle rt σ { w with pool, metrics := w.metrics ++ calls } f started now
        (.returned u resp)) := by
  let pool := w.pool.record u (.ok resp) now
  let calls : List MetricCall :=
    [.upstreamRequest (w.pool.label u) (UpstreamPool.outcomeLabel (.ok resp))]
  have hafter : Retry.afterAttempt MAX_ATTEMPTS f.streaming a u (.ok resp) = .returned u resp :=
    if_pos hlt
  have hresume : (Retry.sending a u).resume rt σ MAX_ATTEMPTS f.streaming w.pool f.forwarded
      (.responded resp) now = some (pool, calls, .returned u resp) :=
    congrArg (fun retry ↦ some (pool, calls, retry)) hafter
  exact ⟨pool, calls, Retry.resume_filter (fun _ _ ↦ rfl) hresume,
    congrArg (Option.map (afterRetry rt σ w f started now)) hresume⟩

/-- What is answered is what the first step has let through. -/
theorem Delivered.accepts (h : Delivered rt σ p started content f (t :: turns) how) :
    Accepts rt σ p started t f := by
  obtain ⟨before, answer, after, phase, phase', heq, hrun, -, -, hans⟩ := h
  obtain ⟨a, u, resp, rfl, -⟩ := hans
  obtain ⟨t', rest, rfl, haccepts⟩ := accepts_of_run hrun.of_guarded rfl
  rw [(List.cons.inj heq).1]
  exact haccepts

/-- An unstreamed request is billed for the usage of the body that is delivered. -/
theorem Delivered.unstreamed (h : Delivered rt σ p started content f turns how)
    (hs : f.streaming = false) (hpay : Json.loads rt.loadsDepth content = .ok payload)
    (huse : usageOf payload = .ok usage)
    (hb : ∀ w : World, Bills p.keyid b w (w.recordUsage rt σ f.model usage p.keyid).1) :
    BilledFor rt σ p started b turns how := by
  obtain ⟨before, ⟨world, x, now⟩, after, phase, phase', rfl, hrun, ⟨hstep, hd⟩, hafter, hans⟩ := h
  obtain ⟨a, u, resp, rfl, rfl, hlt⟩ := hans
  obtain rfl : resp.content = content := by
    simpa [delivers, hs, not_le.mpr hlt] using hd
  have hprincipal : f.principal = p := principal_of_run hrun.of_guarded rfl
  obtain ⟨pool, calls, hcalls, hadvance⟩ :=
    advance_answered rt σ p started now world f a u hlt
  have hpay' : payloadOf rt resp = .ok payload := (if_pos hlt).trans hpay
  -- the request is over
  have hended : ∃ how', phase' = .ended how' := by
    have hturn : turn rt σ p started (.calling f (.sending a u)) ⟨world, .responded resp, now⟩ =
        some _ := congrArg (Option.map Prod.snd) hadvance
    rw [← Option.some.inj (hturn.symm.trans hstep)]
    simp only [settle, hs, Bool.false_eq_true, if_false]
    exact ⟨_, rfl⟩
  obtain ⟨how', rfl⟩ := hended
  cases hafter with
  | cons hs' _ => exact absurd (not_ended_of_step hs'.1) Bool.noConfusion
  | nil =>
      refine billed_of_last hrun.of_guarded hstep fun m hm ↦ ?_
      obtain rfl := Option.some.inj (hadvance.symm.trans hm)
      obtain ⟨hquota, hmetrics⟩ := finishUnstreamed_of_usage σ
        (World.releaseSlot { world with pool, metrics := world.metrics ++ calls } f.releaseKeyid)
        f started now u hpay' huse
      rw [hprincipal] at hquota hmetrics
      simp only [settle, hs, Bool.false_eq_true, if_false]
      exact (Bills.of_calls pool hcalls).after
        (Bills.releaseSlot.after ((hb _).congr hmetrics hquota))

/-- The `finally` of a generator that has passed on a whole body charges its last usage. -/
theorem billsAt_finished {relay : Relay} (hdone : t.input = .done)
    (hfaithful : relay.Faithful rt content) (hclosing : relay.point = .closing none)
    (hprincipal : f.principal = p)
    (hb : ∀ w : World, Bills p.keyid b w
      (w.recordUsage rt σ f.model (lastUsage rt [] (pieces eventEnd content)) p.keyid).1) :
    billsAt rt σ p started b (.relaying f u resp relay) t := by
  intro m hm
  obtain ⟨audit, hfst⟩ := finishStream_fst rt σ t.world f started t.now u resp relay none
  have hm' : m.1 = (finishStream rt σ t.world f started t.now u resp relay none).1 := by
    rw [hdone] at hm
    simp only [advance, hclosing] at hm
    rw [← Option.some.inj hm]
  rw [hfaithful.usage, hfaithful.flatten_eq hclosing, hprincipal] at hfst
  rw [hm', hfst]
  exact Bills.releaseSlot.after ((hb _).congr rfl rfl)

/-- A streamed request is billed for the last usage of the body that is delivered, and passes the
body on as it comes. -/
theorem Delivered.streamed (h : Delivered rt σ p started content f turns how)
    (hs : f.streaming = true) (hw : ∀ ev ∈ pieces eventEnd content, Watchable rt ev)
    (hb : ∀ w : World, Bills p.keyid b w
      (w.recordUsage rt σ f.model (lastUsage rt [] (pieces eventEnd content)) p.keyid).1) :
    BilledFor rt σ p started b turns how ∧
      Relayed rt σ p started (turns.filterMap Turn.chunk?) turns ∧
      (turns.filterMap Turn.chunk?).flatten = content := by
  obtain ⟨before, ⟨world, x, now⟩, after, phase, phase', rfl, hrun, ⟨hstep, -⟩, hafter, hans⟩ := h
  obtain ⟨a, u, resp, rfl, rfl, hlt⟩ := hans
  have hprincipal : f.principal = p := principal_of_run hrun.of_guarded rfl
  obtain ⟨pool, calls, -, hadvance⟩ := advance_answered rt σ p started now world f a u hlt
  -- the response is handed back
  obtain rfl : phase' = .responding f u resp := by
    have hturn : turn rt σ p started (.calling f (.sending a u)) ⟨world, .responded resp, now⟩ =
        some _ := congrArg (Option.map Prod.snd) hadvance
    rw [← Option.some.inj (hturn.symm.trans hstep)]
    simp only [settle, hs, if_true, if_neg (not_le.mpr hlt)]
  obtain ⟨relayed, last, relay, rfl, hrelay, hlast, hdone, hfaithful, hclosing, hsent⟩ :=
    relays_of_responding hw hafter
  have hall : Run (Steps (turn rt σ p started)) .body
      (before ++ ⟨world, .responded resp, now⟩ :: relayed) (.relaying f u resp relay) :=
    hrun.of_guarded.append (.cons hstep hrelay)
  have hturns : before ++ ⟨world, .responded resp, now⟩ :: (relayed ++ [last]) =
      (before ++ ⟨world, .responded resp, now⟩ :: relayed) ++ [last] := by simp
  have hchunks : (before ++ ⟨world, .responded resp, now⟩ :: (relayed ++ [last])).filterMap
      Turn.chunk? = relay.sent := by
    have hnone : last.chunk? = none := by rw [Turn.chunk?, hdone]
    rw [List.filterMap_append, chunks_of_run hrun.of_guarded rfl, hsent]
    show (relayed ++ [last]).filterMap Turn.chunk? = relayed.filterMap Turn.chunk?
    rw [List.filterMap_append, List.filterMap_cons_none hnone]
    exact List.append_nil _
  rw [hchunks]
  refine ⟨?_, ⟨_, last, f, u, resp, relay, hturns, hall, rfl, hfaithful.broken⟩,
    hfaithful.flatten_eq hclosing⟩
  rw [hturns]
  exact billed_of_last hall hlast (billsAt_finished hdone hfaithful hclosing hprincipal hb)

end Answering

end InferenceGateway
