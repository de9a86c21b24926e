import InferenceGateway.Slots
import InferenceGateway.Ledger

/-!
# Rejections: the counter and the file

`_reject` counts a refusal and records it, "from the same place, with the same
vocabulary".  The two other places that give a reason do one half each: the
unstreamed epilogue records `upstream_error` without counting it, and a relay that
breaks counts `upstream_stream_broken` at once, and records it in its `finally`, if
it gets that far.

`Run.rejections_eq` is what holds when neither of these goes wrong: the counter is
ahead of the file by the broken relays that are still to write their line.
-/

namespace InferenceGateway

open Py Transition

/-! ## The vocabulary -/

section Vocabulary

variable {rt : Runtime} {σ : Settings} {p : Principal} {q : QuotaTracker} {raw : Bytes}
  {body : Fields} {model model' : Value} {statusCode : Nat} {reason : String}

theorem acquire_reject {k : Str} {cap : ℤ} (h : q.acquire k cap = .error reason) :
    reason ∈ rejectReasons := by
  simp only [QuotaTracker.acquire] at h
  split at h
  · cases h
    decide
  · cases h

/-- What the checks refuse a request for: a reason of the vocabulary, and a model that is
none, or the one of the body, which is on the allowlist unless it or the scope is what
the request is refused for. -/
theorem validate_reject (h : validate rt σ p q raw = .error (.reject statusCode reason model)) :
    reason ∈ rejectReasons ∧ (model = .none ∨ ∃ body, parseBody rt σ raw = .ok body ∧
      model = body.get (str "model") ∧
      (σ.allows model = true ∨ checkModel σ p body = .error (.reject statusCode reason model))) := by
  cases refused_of_validate h with
  | bodyTooLarge => exact ⟨by decide, .inl rfl⟩
  | invalidJson => exact ⟨by decide, .inl rfl⟩
  | invalidBody => exact ⟨by decide, .inl rfl⟩
  | scopeDenied hbody hmodel => exact ⟨by decide, .inr ⟨_, hbody, rfl, .inr hmodel⟩⟩
  | modelNotAllowed hbody hmodel => exact ⟨by decide, .inr ⟨_, hbody, rfl, .inr hmodel⟩⟩
  | messagesRequired hbody hallows => exact ⟨by decide, .inr ⟨_, hbody, rfl, .inl hallows⟩⟩
  | promptTooLong hbody hallows => exact ⟨by decide, .inr ⟨_, hbody, rfl, .inl hallows⟩⟩
  | maxTokensInvalid hbody hallows => exact ⟨by decide, .inr ⟨_, hbody, rfl, .inl hallows⟩⟩
  | tokenBudgetExceeded hbody hallows => exact ⟨by decide, .inr ⟨_, hbody, rfl, .inl hallows⟩⟩

end Vocabulary

/-! ## Counts -/

/-- The call counts a rejection for this reason. -/
def MetricCall.rejects (reason : String) : MetricCall → Bool
  | .rejection r => r = reason
  | _ => false

/-- The record gives this reason. -/
def AuditRecord.gives (reason : String) (r : AuditRecord) : Bool := r.reason = some reason

/-- `rejections_total{reason}`. -/
def World.rejections (w : World) (reason : String) : ℕ :=
  w.metrics.countP (MetricCall.rejects reason)

/-- The lines of the file with this reason. -/
def World.refusals (w : World) (reason : String) : ℕ := w.audit.countP (AuditRecord.gives reason)

/-- The reason a relay gives that has broken. -/
def brokenReason : String := "upstream_stream_broken"

/-- The relay has broken, and its line with this reason is still to come. -/
def Relay.owes (reason : String) (relay : Relay) : Bool := relay.broken && reason = brokenReason

def Phase.owes (reason : String) : Phase → Bool
  | .relaying _ _ _ relay => relay.owes reason
  | _ => false

/-- What a posting counts for a reason. -/
def Posting.counted (E : Posting) (reason : String) : ℕ := E.counts.countP (MetricCall.rejects reason)

/-- What a posting has to record for a reason. -/
def Posting.recorded (E : Posting) (reason : String) : ℕ :=
  E.record.toList.countP (AuditRecord.gives reason)

section Counts

variable {rt : Runtime} {σ : Settings} {p : Principal} {started now : ℚ} {w w' : World}
  {phase : Phase} {x : Input} {m : World × Phase} {f : Forward} {retry : Retry} {u : Str}
  {resp : Response} {model : Value} {usage : Fields} {E : Posting} {reason : String} {r : AuditRecord}

/-- Only booked series count rejections. -/
theorem countP_booked (reason : String) (calls : List MetricCall) :
    (calls.filter MetricCall.booked).countP (MetricCall.rejects reason) =
      calls.countP (MetricCall.rejects reason) := by
  rw [List.countP_filter]
  refine List.countP_congr fun c _ ↦ ?_
  cases c <;> simp [MetricCall.rejects, MetricCall.booked]

theorem Writes.rejections (h : Writes rt w w' E) (reason : String) :
    w'.rejections reason = w.rejections reason + E.counted reason := by
  unfold World.rejections Posting.counted
  rw [← countP_booked, h.counts, List.countP_append, countP_booked]

/-- A posting whose record can be written is in the file. -/
theorem Writes.refusals (h : Writes rt w w' E) (hw : E.record.all fun r ↦ r.Writable rt)
    (reason : String) : w'.refusals reason = w.refusals reason + E.recorded reason := by
  have hlines : E.lines rt = E.record.toList := by
    unfold Posting.lines
    cases hr : E.record with
    | none => rfl
    | some r =>
        rw [hr] at hw
        exact congrArg Option.toList (if_pos hw)
  unfold World.refusals Posting.recorded
  rw [h.lines, List.countP_append, hlines]

/-- `_reject` does both halves. -/
theorem refused_balanced {statusCode : Nat} {reason' : String} (h : reason' ∈ rejectReasons) :
    (refused started now p statusCode reason' model).counted reason =
      (refused started now p statusCode reason' model).recorded reason := by
  have hfold : recordRejection reason' = .rejection reason' := by
    rw [recordRejection, if_pos h]
  simp [Posting.counted, Posting.recorded, refused, hfold, refusal, MetricCall.rejects,
    AuditRecord.gives, List.countP_cons]

/-- Recording usage counts no rejection. -/
theorem usagePosting_counted : (usagePosting σ model usage).counted reason = 0 := by
  unfold Posting.counted usagePosting usageCounts
  dsimp only
  split <;> rfl

theorem answeredPosting_counted : (answeredPosting rt σ w f usage r).counted reason = 0 :=
  usagePosting_counted

/-- An answered request records the reason of its record, unless recording the usage has
raised. -/
theorem answeredPosting_recorded : (answeredPosting rt σ w f usage r).recorded reason =
    (accountable rt w f.principal.keyid usage && r.gives reason).toNat := by
  unfold Posting.recorded answeredPosting
  dsimp only
  cases accountable rt w f.principal.keyid usage with
  | false => rfl
  | true =>
      simp only [if_true, Option.toList, List.countP_singleton, Bool.true_and]
      cases r.gives reason <;> rfl

/-! ## One step -/

theorem preparePosting_balanced {raw : Bytes} :
    (preparePosting rt σ w started now p raw).counted reason =
      (preparePosting rt σ w started now p raw).recorded reason := by
  unfold preparePosting
  cases hv : validate rt σ p w.quota raw with
  | error s =>
      cases s with
      | crash e => rfl
      | reject statusCode reason' model => exact refused_balanced (validate_reject hv).1
  | ok f =>
      dsimp only
      split
      · split
        · rename_i ha
          exact refused_balanced (acquire_reject ha)
        · rfl
      · rfl

theorem escalatePosting_balanced {e : Exn} : (escalatePosting started now f e).counted reason =
    (escalatePosting started now f e).recorded reason := by
  cases e with
  | allReplicasOpen t => exact refused_balanced (by decide)
  | upstreamUnreachable e' v => exact refused_balanced (by decide)
  | _ => rfl

/-- The unstreamed epilogue of an answer below 400 does both halves. -/
theorem unstreamedPosting_balanced (h : resp.statusCode < 400) :
    (unstreamedPosting rt σ w started now f u resp).counted reason =
      (unstreamedPosting rt σ w started now f u resp).recorded reason := by
  unfold unstreamedPosting
  cases payloadOf rt resp with
  | error e => exact refused_balanced (by decide)
  | ok payload =>
      dsimp only
      cases usageOf payload with
      | error e => rfl
      | ok usage =>
          have hgives : (unstreamedRecord f started now u resp usage).gives reason = false := by
            simp [AuditRecord.gives, unstreamedRecord, h]
          dsimp only
          rw [answeredPosting_counted, answeredPosting_recorded, hgives, Bool.and_false]
          rfl

/-- The last attempt of an unstreamed request is answered with an error. -/
def unmetered (f : Forward) (attempt : ℕ) (resp : Response) : Bool :=
  !f.streaming && 400 ≤ resp.statusCode &&
    (MAX_ATTEMPTS ≤ attempt + 1 || !shouldRetry (.ok resp))

/-- The steps that do one half of the bookkeeping: an unstreamed request is answered with
an error, or a relay that has broken skips its line. -/
def drifts (rt : Runtime) (w : World) : Phase → Input → Bool
  | .calling f (.sending attempt _), .responded resp => unmetered f attempt resp
  | .relaying f _ _ relay, .done =>
    relay.broken && !accountable rt w f.principal.keyid relay.usage
  | .relaying _ _ _ relay, .raised _ => relay.broken && relay.point.isClosing
  | _, _ => false

/-! ## The relay -/

/-- A relay that has broken reads no more. -/
def Relay.Sound (r : Relay) : Prop :=
  r.broken = true → r.point ≠ .reading ∧ r.point ≠ .yielded

/-- The request is not in a relay that reads on after it has broken. -/
def Phase.Sound : Phase → Prop
  | .relaying _ _ _ relay => relay.Sound
  | _ => True

namespace Relay

variable {relay relay' : Relay} {b : Bytes} {calls : List MetricCall}

/-- Before a relay breaks it is sound wherever it is. -/
theorem sound_of_not_broken (h : relay.broken = false) : relay.Sound := by
  intro hb
  rw [h] at hb
  cases hb

/-- Breaking is counted, once. -/
theorem fail_counts (relay : Relay) (reason : String) :
    relay.fail.2.Sound ∧ relay.fail.1.countP (MetricCall.rejects reason) =
      (relay.fail.2.owes reason).toNat := by
  constructor
  · exact fun _ ↦ ⟨Point.noConfusion, Point.noConfusion⟩
  · have hfold : recordRejection "upstream_stream_broken" = .rejection brokenReason := rfl
    by_cases hr : reason = brokenReason <;>
      simp [fail, hfold, MetricCall.rejects, owes, hr, eq_comm]

theorem firstByteSeen_counts :
    (relay.firstByteSeen σ model b).countP (MetricCall.rejects reason) = 0 := by
  unfold firstByteSeen
  split <;> rfl

/-- A chunk breaks the relay, which is counted, or does not. -/
theorem onChunk_counts (h : relay.broken = false) :
    (relay.onChunk rt σ model b).2.Sound ∧
      (relay.onChunk rt σ model b).1.countP (MetricCall.rejects reason) =
        ((relay.onChunk rt σ model b).2.owes reason).toNat := by
  unfold onChunk
  dsimp only
  rcases drainEvents rt (relay.buf ++ b).length (relay.buf ++ b) relay.usage with
    ⟨buf, usage, _ | e⟩
  · refine ⟨sound_of_not_broken h, firstByteSeen_counts.trans ?_⟩
    simp [owes, h]
  · obtain ⟨hs, hc⟩ := fail_counts
      { relay with firstByte := relay.firstByte && b.isEmpty, buf, usage } reason
    refine ⟨hs, ?_⟩
    dsimp only
    rw [List.countP_append, firstByteSeen_counts, Nat.zero_add]
    exact hc

/-- A step of a sound relay counts what the relay owes from then on. -/
theorem resume_counts (hs : relay.Sound) (h : relay.resume rt σ model x = some (calls, relay'))
    (reason : String) : relay'.Sound ∧ calls.countP (MetricCall.rejects reason) + (relay.owes reason).toNat =
      (relay'.owes reason).toNat := by
  have hreading : relay.point = .reading → relay.broken = false := fun hp ↦
    Bool.eq_false_iff.mpr fun hb ↦ (hs hb).1 hp
  have howes : relay.broken = false → (relay.owes reason).toNat = 0 := fun hb ↦ by
    simp [owes, hb]
  unfold resume at h
  split at h
  · rename_i b hpoint
    have hb := hreading hpoint
    have hchunk : (relay.onChunk rt σ model b).2.Sound ∧
        (relay.onChunk rt σ model b).1.countP (MetricCall.rejects reason) =
          ((relay.onChunk rt σ model b).2.owes reason).toNat := onChunk_counts hb
    rw [Option.some.inj h] at hchunk
    rw [howes hb]
    exact hchunk
  · cases h
    refine ⟨?_, Nat.zero_add _⟩
    exact fun _ ↦ ⟨Point.noConfusion, Point.noConfusion⟩
  · rename_i g hpoint
    split at h
    · obtain ⟨hsound, hcount⟩ := fail_counts relay reason
      rw [Option.some.inj h] at hsound hcount
      rw [howes (hreading hpoint)]
      exact ⟨hsound, hcount⟩
    · cases h
      refine ⟨?_, Nat.zero_add _⟩
      exact fun _ ↦ ⟨Point.noConfusion, Point.noConfusion⟩
  · rename_i hpoint
    cases h
    have hb : relay.broken = false := Bool.eq_false_iff.mpr fun hb ↦ (hs hb).2 hpoint
    exact ⟨sound_of_not_broken hb, Nat.zero_add _⟩
  all_goals first
    | cases h
      exact ⟨fun _ ↦ ⟨Point.noConfusion, Point.noConfusion⟩, Nat.zero_add _⟩
    | cases h

end Relay

/-! ## The balance of a step -/

/-- After a segment of the retry loop no relay owes anything. -/
theorem settle_quiet (reason : String) : (settle rt σ w f started now retry).2.Sound ∧
    (settle rt σ w f started now retry).2.owes reason = false := by
  cases retry with
  | returned u resp =>
      unfold settle
      dsimp only
      split
      · split <;> exact ⟨trivial, rfl⟩
      · exact ⟨trivial, rfl⟩
  | raised e =>
      obtain ⟨e', he'⟩ := leaveCall_phase rt w f started now e
      change (leaveCall rt w f started now e).2.Sound ∧ (leaveCall rt w f started now e).2.owes reason = false
      rw [he']
      exact ⟨trivial, rfl⟩
  | _ => exact ⟨trivial, rfl⟩

/-- What follows the retry loop is balanced, unless it is an unstreamed answer of 400 or
more. -/
theorem retryPosting_balanced
    (h : ∀ u resp, retry = .returned u resp → f.streaming = false → resp.statusCode < 400) :
    (retryPosting rt σ w started now f retry).counted reason =
      (retryPosting rt σ w started now f retry).recorded reason := by
  cases retry with
  | returned u resp =>
      unfold retryPosting
      dsimp only
      split
      · rfl
      · rename_i hs
        exact unstreamedPosting_balanced (h u resp rfl (Bool.eq_false_iff.mpr hs))
  | raised e => exact escalatePosting_balanced
  | _ => rfl

/-- The call of the pool returns an answer of 400 or more to an unstreamed request only
where `unmetered` says so. -/
theorem Retry.resume_metered {pool pool' : UpstreamPool} {body : Fields} {calls : List MetricCall}
    {retry' : Retry}
    (h : retry.resume rt σ MAX_ATTEMPTS f.streaming pool body x now = some (pool', calls, retry'))
    (hd : drifts rt w (.calling f retry) x = false) :
    ∀ u resp, retry' = .returned u resp → f.streaming = false → resp.statusCode < 400 := by
  rintro u resp rfl hs
  obtain ⟨a, rfl, rfl⟩ := Retry.resume_returned h
  have hret : afterAttempt MAX_ATTEMPTS f.streaming a u (.ok resp) = .returned u resp :=
    congrArg (fun s ↦ s.2.2) (Option.some.inj h)
  by_contra hle
  have hle : 400 ≤ resp.statusCode := not_lt.mp hle
  have hd : unmetered f a resp = false := hd
  unfold unmetered at hd
  unfold afterAttempt at hret
  simp only [hs, Bool.not_false, Bool.true_and, decide_eq_true hle, Bool.or_eq_false_iff,
    decide_eq_false_iff_not, Bool.not_eq_false'] at hd
  simp [not_lt.mpr hle, hd.1, hd.2, hs] at hret

/-- The line of a streamed request gives the reason the relay owes. -/
theorem streamedRecord_gives {relay : Relay} :
    (streamedRecord f started now u resp relay).gives reason = relay.owes reason := by
  unfold AuditRecord.gives streamedRecord Relay.owes
  cases relay.broken with
  | false => rfl
  | true =>
      rw [Bool.true_and, decide_eq_decide]
      exact ⟨fun h ↦ (Option.some.inj h).symm, fun h ↦ congrArg some h.symm⟩

/-- What a step counts and what it records differ by what the request owes. -/
theorem Moves.balanced (h : Moves rt σ p started now w phase x m) (hs : phase.Sound)
    (hd : drifts rt w phase x = false) :
    m.2.Sound ∧ ∀ reason,
      (posting rt σ w started now p phase x).counted reason + (phase.owes reason).toNat =
        (posting rt σ w started now p phase x).recorded reason + (m.2.owes reason).toNat := by
  cases h with
  | aborted g => exact ⟨trivial, fun reason ↦ rfl⟩
  | @refused raw w₁ e hp =>
      refine ⟨trivial, fun reason ↦ ?_⟩
      simp only [posting, hp]
      rw [preparePosting_balanced]
      rfl
  | @admitted raw w₁ f pool calls retry hp hstart =>
      refine ⟨(settle_quiet brokenReason).1, fun reason ↦ ?_⟩
      have hbal : (retryPosting rt σ w₁ started now f retry).counted reason =
          (retryPosting rt σ w₁ started now f retry).recorded reason :=
        retryPosting_balanced fun u resp hr _ ↦ absurd hr (Retry.start_returned hstart)
      simp only [posting, hp, hstart]
      rw [hbal, afterRetry, (settle_quiet reason).2]
      rfl
  | @called f retry retry' x pool calls hr =>
      refine ⟨(settle_quiet brokenReason).1, fun reason ↦ ?_⟩
      have hbal : (retryPosting rt σ w started now f retry').counted reason =
          (retryPosting rt σ w started now f retry').recorded reason :=
        retryPosting_balanced (Retry.resume_metered hr hd)
      simp only [posting, hr]
      rw [hbal, afterRetry, (settle_quiet reason).2]
      rfl
  | @drained f u resp seen seen' b => exact ⟨trivial, fun reason ↦ rfl⟩
  | @drainEnded f u resp seen x pending hpending => exact ⟨trivial, fun reason ↦ rfl⟩
  | @drainClosed f u resp pending =>
      obtain ⟨e', he'⟩ := leaveDrain_phase rt w f started now resp pending
      rw [he']
      refine ⟨trivial, fun reason ↦ ?_⟩
      cases pending with
      | some g => rfl
      | none => exact congrArg (· + 0) (refused_balanced (by decide))
  | @drainFailed f u resp pending g =>
      obtain ⟨e', he'⟩ := leaveCall_phase rt w f started now (.fault g)
      rw [he']
      refine ⟨trivial, fun reason ↦ ?_⟩
      cases pending <;> rfl
  | opened => exact ⟨Relay.sound_of_not_broken rfl, fun reason ↦ rfl⟩
  | dropped => exact ⟨trivial, fun reason ↦ rfl⟩
  | @relayed f u resp relay relay' x calls hpoint hr =>
      refine ⟨(Relay.resume_counts hs hr brokenReason).1, fun reason ↦ ?_⟩
      rw [posting_relaying hpoint, hr]
      have hc := (Relay.resume_counts hs hr reason).2
      have hcounted : (calls.filter MetricCall.booked).countP (MetricCall.rejects reason) =
          calls.countP (MetricCall.rejects reason) := countP_booked reason calls
      change (calls.filter MetricCall.booked).countP (MetricCall.rejects reason) +
        (relay.owes reason).toNat = 0 + (relay'.owes reason).toNat
      omega
  | @finished f u resp relay pending hpoint =>
      refine ⟨trivial, fun reason ↦ ?_⟩
      simp only [posting, hpoint]
      rw [streamedPosting, answeredPosting_counted, answeredPosting_recorded, Nat.zero_add]
      have hacc : relay.broken = true → accountable rt w f.principal.keyid relay.usage = true := by
        intro hb
        simpa [drifts, hb] using hd
      change (relay.owes reason).toNat = _
      rw [streamedRecord_gives]
      cases ho : relay.owes reason with
      | false => simp [Phase.owes]
      | true =>
          rw [hacc (Bool.and_eq_true_iff.mp ho).1]
          rfl
  | @closeFailed f u resp relay pending g hpoint =>
      refine ⟨trivial, fun reason ↦ ?_⟩
      have hb : relay.broken = false := by
        simpa [drifts, hpoint, Relay.Point.isClosing] using hd
      have howes : relay.owes reason = false := by simp [Relay.owes, hb]
      have hposting : posting rt σ w started now p (.relaying f u resp relay) (.raised g) = {} :=
        posting_closeFailed hpoint
      rw [hposting]
      change 0 + (relay.owes reason).toNat = 0
      rw [howes]
      rfl

end Counts

namespace System

variable {rt : Runtime} {σ : Settings} {s s' : System} {e : Event} {es : List Event}

/-! ## All requests -/

/-- The audit writes of the step succeed. -/
def recorded (rt : Runtime) (σ : Settings) (s : System) : Event → Bool
  | .resume i x now => s.requests[i]?.all fun r ↦
    (posting rt σ s.world r.started now r.principal r.phase x).record.all fun l ↦ l.Writable rt
  | _ => true

/-- The step does both halves of the bookkeeping. -/
def metered (rt : Runtime) (s : System) : Event → Bool
  | .resume i x _ => s.requests[i]?.all fun r ↦ !drifts rt s.world r.phase x
  | _ => true

/-- The broken relays whose line with this reason is still to come. -/
def owed (s : System) (reason : String) : ℕ :=
  s.requests.countP fun r ↦ r.phase.owes reason

/-- The counters are ahead of the file by what is owed. -/
structure Kept (s : System) : Prop where
  sound : ∀ r ∈ s.requests, r.phase.Sound
  counts : ∀ reason, s.world.rejections reason = s.world.refusals reason + s.owed reason

/-- The scrape loop and the prober keep no books. -/
theorem Kept.of_eq (hk : Kept s) (hreq : s'.requests = s.requests)
    (hmetrics : s'.world.metrics = s.world.metrics) (haudit : s'.world.audit = s.world.audit) :
    Kept s' where
  sound := by
    rw [hreq]
    exact hk.sound
  counts := by
    unfold owed World.rejections World.refusals
    rw [hreq, hmetrics, haudit]
    exact hk.counts

theorem Kept.step (hk : Kept s) (h : Moves rt σ s e s') (hrec : recorded rt σ s e)
    (hmet : metered rt s e) : Kept s' := by
  cases h with
  | arrive p now =>
      constructor
      · intro r hr
        rcases List.mem_append.mp hr with hr | hr
        · exact hk.sound r hr
        · obtain rfl := List.mem_singleton.mp hr
          trivial
      · intro reason
        have howed : ({ s with requests := s.requests ++ [{ principal := p, started := now }] } :
            System).owed reason = s.owed reason := List.countP_append
        rw [howed]
        exact hk.counts reason
  | @resume i x now r m hr hm =>
      have hsound := hk.sound r (List.mem_of_getElem? hr)
      have hdrift : drifts rt s.world r.phase x = false := by
        simpa [metered, hr] using hmet
      have hwritable : (posting rt σ s.world r.started now r.principal r.phase x).record.all
          fun l ↦ l.Writable rt := by
        simpa only [recorded, hr, Option.all_some] using hrec
      obtain ⟨hsound', hbal⟩ := hm.balanced hsound hdrift
      constructor
      · intro r' hr'
        rcases List.mem_or_eq_of_mem_set hr' with hr' | rfl
        · exact hk.sound r' hr'
        · exact hsound'
      · intro reason
        have howed : (s.requests.set i (r.moved s.world m)).countP (fun r ↦ r.phase.owes reason) +
            (r.phase.owes reason).toNat =
              s.requests.countP (fun r ↦ r.phase.owes reason) + (m.2.owes reason).toNat :=
          countP_set hr
        have hcounts := hk.counts reason
        have hrej := hm.writes.rejections reason
        have href := hm.writes.refusals hwritable reason
        have hb := hbal reason
        change m.1.rejections reason = m.1.refusals reason +
          (s.requests.set i (r.moved s.world m)).countP fun r ↦ r.phase.owes reason
        unfold owed at hcounts
        omega
  | poll now _ => exact hk.of_eq rfl rfl rfl
  | scraped result now _ => exact hk.of_eq rfl rfl rfl
  | tick now _ => exact hk.of_eq rfl rfl rfl
  | probed ok now _ => exact hk.of_eq rfl rfl rfl

/-- In every run whose audit writes succeed and whose steps do both halves of the
bookkeeping, the counter of every reason is the number of lines with this reason and of
broken relays that are still to write theirs; where every request is over, it is the
number of lines. -/
theorem rejections_eq_refusals (rt : Runtime) (σ : Settings) (urls : List Str) (h : urls ≠ [])
    (es : List Event) (s : System)
    (hr : Run (Guarded (Steps (step rt σ)) fun s e ↦ recorded rt σ s e ∧ metered rt s e)
      (System.start urls h) es s) (reason : String) :
    s.world.rejections reason = s.world.refusals reason + s.owed reason ∧
      ((∀ r ∈ s.requests, r.phase.isEnded = true) →
        s.world.rejections reason = s.world.refusals reason) := by
  have hkept : Kept s := hr.invariant
    (fun hs hk ↦ hk.step (moves_of_step hs.1) hs.2.1 hs.2.2)
    ⟨fun r hr ↦ (by cases hr), fun _ ↦ rfl⟩
  refine ⟨hkept.counts reason, fun hended ↦ ?_⟩
  have howed : s.owed reason = 0 := by
    rw [owed, List.countP_eq_zero]
    intro r hmem
    have he := hended r hmem
    cases hp : r.phase <;> rw [hp] at he <;> first | exact Bool.false_ne_true | cases he
  rw [hkept.counts reason, howed, Nat.add_zero]

/-- A request whose body is no object, and a streamed one whose relay breaks. -/
def brokenEvents : List Event :=
  [.arrive samplePrincipal 0, .resume 0 (.received (bytes "[]")) 0,
    .arrive samplePrincipal 1, .resume 1 (.received (sampleBody ", \"stream\": true")) 1,
    .resume 1 (.responded { statusCode := 200 }) 2, .resume 1 .next 2,
    .resume 1 (.raised (.httpx .readError)) 3, .resume 1 .next 3, .resume 1 .next 3,
    .resume 1 .done 4]

theorem rejections_eq_refusals_broken : ∃ s,
    Run (Guarded (Steps (step .sample .default)) fun s e ↦
      recorded .sample .default s e ∧ metered .sample s e) sampleSystem brokenEvents s ∧
    s.world.rejections brokenReason = s.world.refusals brokenReason + s.owed brokenReason ∧
      ((∀ r ∈ s.requests, r.phase.isEnded = true) →
        s.world.rejections brokenReason = s.world.refusals brokenReason) := by
  obtain ⟨s, hr, -⟩ := Run.exists_of_execWhile (step .sample .default)
    (fun s e ↦ recorded .sample .default s e && metered .sample s e) sampleSystem brokenEvents
    (fun s ↦ s.world.rejections brokenReason == 1) (by decide +kernel)
  have hr : Run (Guarded (Steps (step .sample .default)) fun s e ↦
      recorded .sample .default s e ∧ metered .sample s e) sampleSystem brokenEvents s :=
    hr.mono fun hs ↦ ⟨hs.1, Bool.and_eq_true_iff.mp hs.2⟩
  exact ⟨s, hr, rejections_eq_refusals .sample .default [sampleUrl] (List.cons_ne_nil _ _)
    brokenEvents s hr brokenReason⟩

/-- An unstreamed request that is answered with an error: the line is written, and nothing
is counted. -/
theorem upstream_error_not_counted : ∃ s,
    Run (Guarded (Steps (step .sample .default)) fun s e ↦ recorded .sample .default s e)
      sampleSystem
      [.arrive samplePrincipal 0, .resume 0 (.received (sampleBody "")) 0,
        .resume 0 (.responded { statusCode := 500 }) 1] s ∧
    (∀ r ∈ s.requests, r.phase.isEnded = true) ∧
    s.world.rejections "upstream_error" = 0 ∧ s.world.refusals "upstream_error" = 1 := by
  obtain ⟨s, hr, hs⟩ := Run.exists_of_execWhile (step .sample .default)
    (fun s e ↦ recorded .sample .default s e) sampleSystem
    [.arrive samplePrincipal 0, .resume 0 (.received (sampleBody "")) 0,
      .resume 0 (.responded { statusCode := 500 }) 1]
    (fun s ↦ (s.requests.all fun r ↦ r.phase.isEnded) &&
      s.world.rejections "upstream_error" == 0 && s.world.refusals "upstream_error" == 1)
    (by decide +kernel)
  simp only [Bool.and_eq_true, beq_iff_eq, List.all_eq_true, and_assoc] at hs
  exact ⟨s, hr, hs⟩

end System

end InferenceGateway
