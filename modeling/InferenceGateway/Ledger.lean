import InferenceGateway.AuditTrail

/-!
# The books

What a request leaves for others to read is kept twice: the counters of rejections
and of missing usage, and the audit file.  `posting` is what one step of a request puts
down in both, as the code does it: what it counts, and the record it hands to the
writer.  `Moves.writes` says that this is all.

A record that is handed over is in the file afterwards if it can be written.
-/

namespace InferenceGateway

open Py Transition

/-! ## Postings -/

/-- The series of the books. -/
def MetricCall.booked : MetricCall → Bool
  | .rejection _ | .missingUsage _ => true
  | _ => false

/-- What is counted, and the record that is handed to the audit writer. -/
structure Posting where
  counts : List MetricCall := []
  record : Option AuditRecord := none

/-- The lines the posting adds to the file. -/
def Posting.lines (rt : Runtime) (E : Posting) : List AuditRecord :=
  (E.record.filter fun r ↦ decide (r.Writable rt)).toList

/-- From `w` to `w'` the books have grown by the posting. -/
structure Writes (rt : Runtime) (w w' : World) (E : Posting) : Prop where
  counts : w'.metrics.filter MetricCall.booked = w.metrics.filter MetricCall.booked ++ E.counts
  lines : w'.audit = w.audit ++ E.lines rt

section Postings

variable (rt : Runtime) (σ : Settings) (w : World) (started now : ℚ)

/-- The record of `_reject`. -/
def refusal (p : Principal) (statusCode : Nat) (reason : String) (model : Value) : AuditRecord where
  timestamp := now
  event := "chat.completions"
  keyid := p.keyid
  subject := p.subject
  authMethod := p.method
  model
  status := statusCode
  latencyMs := (now - started) * 1000
  promptTokens := .int 0
  completionTokens := .int 0
  upstream := none
  reason := some reason
  streamed := false

/-- `_reject`. -/
def refused (p : Principal) (statusCode : Nat) (reason : String) (model : Value) : Posting where
  counts := [recordRejection reason]
  record := some (refusal started now p statusCode reason model)

/-- What `_record_usage` counts of two token counts. -/
def usageCounts (label : Str) (prompt completion : Value) : List MetricCall :=
  match prompt, completion with
  | .none, .none => [.missingUsage label]
  | _, _ => []

/-- `_record_usage`. -/
def usagePosting (model : Value) (usage : Fields) : Posting where
  counts := usageCounts (σ.safeModel model) (usage.get (str "prompt_tokens"))
    (usage.get (str "completion_tokens"))

/-- The usage, then a record that is handed over unless recording the usage has raised. -/
def answeredPosting (f : Forward) (usage : Fields) (r : AuditRecord) : Posting :=
  { usagePosting σ f.model usage with
    record := if accountable rt w f.principal.keyid usage then some r else none }

/-- The code before the call of the pool, when it does not let the request through. -/
def preparePosting (p : Principal) (raw : Bytes) : Posting :=
  match validate rt σ p w.quota raw with
  | .error (.crash _) => {}
  | .error (.reject statusCode reason model) => refused started now p statusCode reason model
  | .ok f => match p.keyid, p.maxConcurrency with
    | some keyid, some cap => match w.quota.acquire keyid cap with
      | .error reason => refused started now p 429 reason f.model
      | .ok _ => {}
    | _, _ => {}

/-- The two `except` clauses of `chat_completions`. -/
def escalatePosting (f : Forward) (e : Exn) : Posting :=
  match e with
  | .allReplicasOpen _ => refused started now f.principal 503 "all_replicas_open" f.model
  | .upstreamUnreachable _ _ => refused started now f.principal 502 "upstream_unreachable" f.model
  | _ => {}

/-- The unstreamed epilogue. -/
def unstreamedPosting (f : Forward) (upstream : Str) (resp : Response) : Posting :=
  match payloadOf rt resp with
  | .error _ => refused started now f.principal 502 "upstream_bad_response" f.model
  | .ok payload => match usageOf payload with
    | .error _ => {}
    | .ok usage =>
      answeredPosting rt σ w f usage (unstreamedRecord f started now upstream resp usage)

/-- The `finally` of the generator. -/
def streamedPosting (f : Forward) (upstream : Str) (resp : Response) (relay : Relay) : Posting :=
  answeredPosting rt σ w f relay.usage (streamedRecord f started now upstream resp relay)

/-- What follows a segment of the retry loop. -/
def retryPosting (f : Forward) : Retry → Posting
  | .returned upstream resp =>
    if f.streaming then {} else unstreamedPosting rt σ w started now f upstream resp
  | .raised e => escalatePosting started now f e
  | _ => {}

/-- What a step of a request puts down. -/
def posting (p : Principal) : Phase → Input → Posting
  | .body, .received raw => match prepare rt σ p w raw started now with
    | (_, .error _) => preparePosting rt σ w started now p raw
    | (w, .ok f) => retryPosting rt σ w started now f
      (Retry.start rt σ MAX_ATTEMPTS f.streaming w.pool f.forwarded 0 none now).2.2
  | .calling f retry, x =>
    match retry.resume rt σ MAX_ATTEMPTS f.streaming w.pool f.forwarded x now with
    | some s => retryPosting rt σ w started now f s.2.2
    | none => {}
  | .drainClosing f _ resp none, .done =>
    refused started now f.principal resp.statusCode "upstream_error" f.model
  | .relaying f upstream resp relay, x => match relay.point, x with
    | .closing _, .done => streamedPosting rt σ w started now f upstream resp relay
    | _, x =>
      { counts := ((relay.resume rt σ f.model x).elim [] Prod.fst).filter MetricCall.booked }
  | _, _ => {}

end Postings

/-! ## Writing -/

namespace Writes

variable {rt : Runtime} {w w₁ w' : World} {E : Posting} {calls : List MetricCall}

/-- What changes neither the booked series nor the file puts nothing down. -/
theorem of_eq (hm : w'.metrics.filter MetricCall.booked = w.metrics.filter MetricCall.booked)
    (ha : w'.audit = w.audit) : Writes rt w w' {} :=
  ⟨by rw [hm, List.append_nil], by rw [ha]; exact (List.append_nil _).symm⟩

theorem refl : Writes rt w w {} := of_eq rfl rfl

/-- Nothing put down first, then a posting. -/
theorem after (h₁ : Writes rt w w₁ {}) (h₂ : Writes rt w₁ w' E) : Writes rt w w' E where
  counts := by rw [h₂.counts, h₁.counts, List.append_nil]
  lines := by
    rw [h₂.lines, h₁.lines]
    exact congrArg (· ++ E.lines rt) (List.append_nil _)

/-- A posting, then nothing more. -/
theorem before (h₁ : Writes rt w w₁ E) (h₂ : Writes rt w₁ w' {}) : Writes rt w w' E where
  counts := by rw [h₂.counts, h₁.counts, List.append_nil]
  lines := by
    rw [h₂.lines, h₁.lines]
    exact List.append_nil _

/-- A count, then a record that is handed over. -/
theorem record {r : AuditRecord} {audit : List AuditRecord} (h : Writes rt w w₁ { counts := calls })
    (hw : auditWrite rt w₁.audit r = .ok audit) :
    Writes rt w { w₁ with audit } { counts := calls, record := some r } where
  counts := h.counts
  lines := by
    have haudit : w₁.audit = w.audit := h.lines.trans (List.append_nil _)
    rw [haudit] at hw
    change audit = w.audit ++ _
    by_cases hr : r.Writable rt
    · rw [auditWrite_of_writable hr] at hw
      cases hw
      have hline : Option.filter (fun r ↦ decide (r.Writable rt)) (some r) = some r :=
        if_pos (decide_eq_true hr)
      rw [Posting.lines, hline]
      rfl
    · rcases auditWrite_of_not_writable w.audit hr with hl | hl
      · rw [hl] at hw
        cases hw
        simp [Posting.lines, hr]
      · rw [hl] at hw
        cases hw

/-- A count, then a record that the writer gives up on. -/
theorem unwritten {r : AuditRecord} {e : Exc} (h : Writes rt w w₁ { counts := calls })
    (hw : auditWrite rt w₁.audit r = .error e) :
    Writes rt w w₁ { counts := calls, record := some r } where
  counts := h.counts
  lines := by
    have hr := auditWrite_error hw
    rw [h.lines]
    simp [Posting.lines, hr]

end Writes

section Segments

variable {rt : Runtime} {σ : Settings} {p : Principal} {started now : ℚ} {w : World}
  {f : Forward} {e : Exn} {u : Str} {resp : Response} {model : Value} {usage : Fields}
  {key : Option Str} {retry : Retry}

/-- `_reject` puts down what it says. -/
theorem World.reject_writes (statusCode : Nat) (reason : String)
    (headers : List (String × String)) :
    Writes rt w (w.reject rt statusCode reason p model started now headers).1
      (refused started now p statusCode reason model) := by
  have hcount : Writes rt w { w with metrics := w.metrics ++ [recordRejection reason] }
      { counts := [recordRejection reason] } :=
    ⟨List.filter_append _ _, (List.append_nil _).symm⟩
  unfold World.reject
  dsimp only
  split
  · rename_i audit hw
    exact hcount.record hw
  · rename_i e hw
    exact hcount.unwritten hw

theorem World.releaseSlot_writes : Writes rt w (w.releaseSlot key) {} := by
  refine .of_eq ?_ World.releaseSlot_audit
  cases key <;> rfl

/-- Counting tokens is not in the books. -/
theorem World.incTokens_writes (label : Str) (kind : String) (n : Value) :
    Writes rt w (w.incTokens rt label kind n).1 {} := by
  unfold World.incTokens
  split
  · split
    · refine .of_eq ?_ rfl
      exact (List.filter_append _ _).trans (List.append_nil _)
    · exact .refl
  · exact .refl

theorem World.charge_writes (n m : Value) : Writes rt w (w.charge key n m).1 {} := by
  obtain ⟨tokensUsed, h⟩ := w.charge_fst key n m
  rw [h]
  exact .of_eq rfl rfl

theorem usageCounts_of_ne {label : Str} {prompt completion : Value}
    (h : prompt = .none → completion = .none → False) : usageCounts label prompt completion = [] := by
  unfold usageCounts
  split
  · exact (h rfl rfl).elim
  · rfl

/-- `_record_usage` counts the requests without usage, whether or not it raises. -/
theorem World.recordUsage_writes :
    Writes rt w (w.recordUsage rt σ model usage key).1 (usagePosting σ model usage) := by
  unfold World.recordUsage usagePosting
  generalize usage.get (str "prompt_tokens") = prompt
  generalize usage.get (str "completion_tokens") = completion
  dsimp only
  split
  · exact ⟨List.filter_append _ _, (List.append_nil _).symm⟩
  · rename_i hne
    rw [usageCounts_of_ne hne]
    have hp : Writes rt w (w.incTokens rt (σ.safeModel model) "prompt" prompt).1 {} :=
      World.incTokens_writes ..
    rcases hinc : w.incTokens rt (σ.safeModel model) "prompt" prompt with ⟨w₁, e | _⟩
    · rw [hinc] at hp
      exact hp
    · rw [hinc] at hp
      have hc : Writes rt w₁ (w₁.incTokens rt (σ.safeModel model) "completion" completion).1 {} :=
        World.incTokens_writes ..
      dsimp only
      rcases hinc₂ : w₁.incTokens rt (σ.safeModel model) "completion" completion with ⟨w₂, e | _⟩
      · rw [hinc₂] at hc
        dsimp only at hp hc ⊢
        exact hp.after hc
      · rw [hinc₂] at hc
        dsimp only at hp hc ⊢
        exact (hp.after hc).after (World.charge_writes prompt completion)

theorem escalate_writes : Writes rt w (escalate rt w f started now e).1
    (escalatePosting started now f e) := by
  cases e with
  | allReplicasOpen t => exact World.reject_writes _ _ _
  | upstreamUnreachable e' v => exact World.reject_writes _ _ _
  | _ => exact .refl

theorem leaveCall_writes : Writes rt w (leaveCall rt w f started now e).1
    (escalatePosting started now f e) := by
  unfold leaveCall
  split
  · dsimp only
    split
    · exact World.releaseSlot_writes.after escalate_writes
    · exact escalate_writes
  · exact escalate_writes.before World.releaseSlot_writes

section Answered

variable {w' : World} {r : AuditRecord}

/-- The usage has been recorded, and the record is handed over. -/
theorem answered_writes
    (h : w.recordUsage rt σ f.model usage f.principal.keyid = (w', .ok ())) :
    (∀ audit, auditWrite rt w'.audit r = .ok audit →
      Writes rt w { w' with audit } (answeredPosting rt σ w f usage r)) ∧
    ∀ e, auditWrite rt w'.audit r = .error e →
      Writes rt w w' (answeredPosting rt σ w f usage r) := by
  have hw : Writes rt w (w.recordUsage rt σ f.model usage f.principal.keyid).1
      (usagePosting σ f.model usage) := World.recordUsage_writes
  have hacc : (w.recordUsage rt σ f.model usage f.principal.keyid).2.isOk =
      accountable rt w f.principal.keyid usage := World.recordUsage_snd
  rw [h] at hw hacc
  replace hacc : accountable rt w f.principal.keyid usage = true := hacc.symm
  unfold answeredPosting
  rw [if_pos hacc]
  exact ⟨fun audit haudit ↦ hw.record haudit, fun e haudit ↦ hw.unwritten haudit⟩

/-- Recording the usage has raised. -/
theorem unanswered_writes {e : Exc}
    (h : w.recordUsage rt σ f.model usage f.principal.keyid = (w', .error e)) :
    Writes rt w w' (answeredPosting rt σ w f usage r) := by
  have hw : Writes rt w (w.recordUsage rt σ f.model usage f.principal.keyid).1
      (usagePosting σ f.model usage) := World.recordUsage_writes
  have hacc : (w.recordUsage rt σ f.model usage f.principal.keyid).2.isOk =
      accountable rt w f.principal.keyid usage := World.recordUsage_snd
  rw [h] at hw hacc
  replace hacc : ¬accountable rt w f.principal.keyid usage = true := by
    rw [← hacc]
    exact Bool.false_ne_true
  unfold answeredPosting
  rw [if_neg hacc]
  exact hw

end Answered

theorem finishUnstreamed_writes :
    Writes rt w (finishUnstreamed rt σ w f started now u resp).1
      (unstreamedPosting rt σ w started now f u resp) := by
  unfold finishUnstreamed unstreamedPosting
  cases payloadOf rt resp with
  | error e => exact World.reject_writes _ _ _
  | ok payload =>
      dsimp only
      cases usageOf payload with
      | error e => exact .refl
      | ok usage =>
          dsimp only
          rcases hrec : w.recordUsage rt σ f.model usage f.principal.keyid with ⟨w', e | _⟩
          · exact unanswered_writes hrec
          · obtain ⟨hok, herr⟩ := answered_writes
              (r := unstreamedRecord f started now u resp usage) hrec
            dsimp only
            split
            · rename_i e haudit
              exact herr e haudit
            · rename_i audit haudit
              split <;> exact hok audit haudit

/-- Of the shared state, a posting depends on the totals only. -/
theorem answeredPosting_congr {w' : World} {r : AuditRecord}
    (h : w'.quota.tokensUsed = w.quota.tokensUsed) :
    answeredPosting rt σ w' f usage r = answeredPosting rt σ w f usage r := by
  unfold answeredPosting accountable
  rw [World.charge_isOk_congr h]

theorem retryPosting_congr {w' : World} (h : w'.quota.tokensUsed = w.quota.tokensUsed) :
    retryPosting rt σ w' started now f retry = retryPosting rt σ w started now f retry := by
  cases retry with
  | returned u resp =>
      unfold retryPosting unstreamedPosting
      simp only [answeredPosting_congr h]
  | _ => rfl

theorem finishStream_writes {relay : Relay} {pending : Option Fault} :
    Writes rt w (finishStream rt σ w f started now u resp relay pending).1
      (streamedPosting rt σ w started now f u resp relay) := by
  unfold streamedPosting
  rw [← answeredPosting_congr World.releaseSlot_tokensUsed]
  have hrelease : Writes rt w (w.releaseSlot f.releaseKeyid) {} := World.releaseSlot_writes
  refine hrelease.after ?_
  unfold finishStream
  dsimp only
  rcases hrec : (w.releaseSlot f.releaseKeyid).recordUsage rt σ f.model relay.usage
    f.principal.keyid with ⟨w', e | _⟩
  · exact unanswered_writes hrec
  · obtain ⟨hok, herr⟩ := answered_writes (r := streamedRecord f started now u resp relay) hrec
    dsimp only
    split
    · rename_i e haudit
      exact herr e haudit
    · rename_i audit haudit
      exact hok audit haudit

theorem settle_writes : Writes rt w (settle rt σ w f started now retry).1
    (retryPosting rt σ w started now f retry) := by
  cases retry with
  | returned u resp =>
      by_cases hs : f.streaming = true
      · have hposting : retryPosting rt σ w started now f (.returned u resp) = {} := if_pos hs
        rw [hposting]
        unfold settle
        simp only [hs, if_true]
        split <;> exact .refl
      · have hposting : retryPosting rt σ (w.releaseSlot f.releaseKeyid) started now f
            (.returned u resp) = unstreamedPosting rt σ (w.releaseSlot f.releaseKeyid) started now f
              u resp := if_neg hs
        have hcongr : retryPosting rt σ (w.releaseSlot f.releaseKeyid) started now f
            (.returned u resp) = retryPosting rt σ w started now f (.returned u resp) :=
          retryPosting_congr World.releaseSlot_tokensUsed
        rw [← hcongr, hposting]
        unfold settle
        simp only [hs]
        exact World.releaseSlot_writes.after finishUnstreamed_writes
  | raised e => exact leaveCall_writes
  | _ => exact .refl

/-- The checks, where they do not let the request through. -/
theorem prepare_writes {raw : Bytes} {w' : World}
    (h : prepare rt σ p w raw started now = (w', .error e)) :
    Writes rt w w' (preparePosting rt σ w started now p raw) := by
  unfold prepare at h
  unfold preparePosting
  cases hv : validate rt σ p w.quota raw with
  | error s =>
      rw [hv] at h
      cases s with
      | crash e' =>
          cases h
          exact .refl
      | reject statusCode reason model =>
          obtain ⟨rfl, -⟩ := Prod.mk.inj h
          exact World.reject_writes _ _ _
  | ok f =>
      rw [hv] at h
      dsimp only at h ⊢
      cases hk : p.keyid with
      | none =>
          rw [hk] at h
          cases (Prod.mk.inj h).2
      | some k =>
          cases hc : p.maxConcurrency with
          | none =>
              rw [hk, hc] at h
              cases (Prod.mk.inj h).2
          | some cap =>
              rw [hk, hc] at h
              dsimp only at h ⊢
              cases ha : w.quota.acquire k cap with
              | ok quota =>
                  rw [ha] at h
                  cases (Prod.mk.inj h).2
              | error reason =>
                  rw [ha] at h
                  obtain ⟨rfl, -⟩ := Prod.mk.inj h
                  exact World.reject_writes _ _ _

/-- Letting a request through puts nothing down. -/
theorem prepare_ok_writes {raw : Bytes} {w' : World}
    (h : prepare rt σ p w raw started now = (w', .ok f)) : Writes rt w w' {} := by
  rcases prepare_cases rt σ p w raw started now with
    ⟨metrics, audit, e', hp⟩ | ⟨f₀, -, -, hp⟩ | ⟨f₀, k, cap, quota, -, -, -, -, hp⟩
  · rw [hp] at h
    cases (Prod.mk.inj h).2
  · rw [hp] at h
    obtain ⟨rfl, -⟩ := Prod.mk.inj h
    exact .refl
  · rw [hp] at h
    obtain ⟨rfl, -⟩ := Prod.mk.inj h
    exact .of_eq rfl rfl

/-! ## The calls of the retry loop -/

namespace Retry

variable {n : ℕ} {stream : Bool} {pool pool' : UpstreamPool} {body : Fields} {a : ℕ}
  {exclude : Option Str} {calls : List MetricCall} {retry' : Retry} {x : Input}

/-- The retry loop counts attempts, and nothing else. -/
theorem start_filter {q : MetricCall → Bool} (hq : ∀ u o, q (.upstreamRequest u o) = false)
    (h : start rt σ n stream pool body a exclude now = (pool', calls, retry)) :
    calls.filter q = [] := by
  cases h ▸ start_cases rt σ n stream pool body a exclude now with
  | refused hp hs =>
      cases hs
      rfl
  | unencoded hp henc hs =>
      cases hs
      exact List.filter_eq_nil_iff.mpr fun c hc ↦ by simp [List.mem_singleton.mp hc, hq]
  | sent hp henc hs =>
      cases hs
      rfl

theorem resume_filter {q : MetricCall → Bool} (hq : ∀ u o, q (.upstreamRequest u o) = false)
    (h : retry.resume rt σ n stream pool body x now = some (pool', calls, retry')) :
    calls.filter q = [] := by
  cases resumes_of_resume h with
  | ended hr ho hs =>
      cases hs
      exact List.filter_eq_nil_iff.mpr fun c hc ↦ by simp [List.mem_singleton.mp hc, hq]
  | closed hr hx hs =>
      cases hs
      rfl
  | woken hr hx hs => exact start_filter hq hs.symm
  | thrown hx hf hs =>
      cases hs
      rfl

end Retry

theorem afterRetry_writes {pool : UpstreamPool} {calls : List MetricCall}
    (hc : calls.filter MetricCall.booked = []) :
    Writes rt w (afterRetry rt σ w f started now (pool, calls, retry)).1
      (retryPosting rt σ w started now f retry) := by
  have hbefore : Writes rt w { w with pool, metrics := w.metrics ++ calls } {} := by
    refine .of_eq ?_ rfl
    rw [List.filter_append, hc, List.append_nil]
  have hposting : retryPosting rt σ { w with pool, metrics := w.metrics ++ calls } started now f retry =
      retryPosting rt σ w started now f retry := retryPosting_congr rfl
  rw [← hposting]
  exact hbefore.after settle_writes

variable {phase : Phase} {x : Input} {m : World × Phase}

/-- Once the error response is closed, the request is refused, unless something was on its
way. -/
theorem leaveDrain_writes {pending : Option Fault} :
    Writes rt w (leaveDrain rt w f started now resp pending).1
      (posting rt σ w started now p (.drainClosing f u resp pending) .done) := by
  cases pending with
  | some g => exact leaveCall_writes
  | none =>
      have hsnd := World.reject_snd rt w resp.statusCode "upstream_error" f.principal f.model
        started now []
      refine (World.reject_writes (w := w) resp.statusCode "upstream_error" []).before ?_
      have hleave : escalatePosting started now f (w.reject rt resp.statusCode "upstream_error"
          f.principal f.model started now []).2 = {} := by
        rw [hsnd]
        split <;> rfl
      rw [← hleave]
      exact leaveCall_writes

/-- In the generator, what is counted is what the relay counts. -/
theorem posting_relaying {relay : Relay} (h : ∀ pending, relay.point ≠ .closing pending) :
    posting rt σ w started now p (.relaying f u resp relay) x =
      { counts := ((relay.resume rt σ f.model x).elim [] Prod.fst).filter MetricCall.booked } := by
  simp only [posting]
  split
  · rename_i pending hp
    exact absurd hp (h pending)
  · rfl

/-- A failure to close the response puts nothing down. -/
theorem posting_closeFailed {relay : Relay} {pending : Option Fault} {g : Fault}
    (h : relay.point = .closing pending) :
    posting rt σ w started now p (.relaying f u resp relay) (.raised g) = {} := by
  simp only [posting, h, Relay.resume]
  rfl

/-- What a step of a request puts down, all of it. -/
theorem Moves.writes (h : Moves rt σ p started now w phase x m) :
    Writes rt w m.1 (posting rt σ w started now p phase x) := by
  cases h with
  | aborted g => exact .refl
  | @refused raw w₁ e hp =>
      simp only [posting, hp]
      exact prepare_writes hp
  | @admitted raw w₁ f pool calls retry hp hs =>
      simp only [posting, hp, hs]
      refine (prepare_ok_writes hp).after ?_
      exact afterRetry_writes (Retry.start_filter (fun _ _ ↦ rfl) hs)
  | @called f retry retry' x pool calls hr =>
      simp only [posting, hr]
      exact afterRetry_writes (Retry.resume_filter (fun _ _ ↦ rfl) hr)
  | @drained f u resp seen seen' b => exact .refl
  | @drainEnded f u resp seen x pending hpending => exact .refl
  | @drainClosed f u resp pending => exact leaveDrain_writes
  | @drainFailed f u resp pending g =>
      have hposting : posting rt σ w started now p (.drainClosing f u resp pending) (.raised g) = {} := by
        cases pending <;> rfl
      rw [hposting]
      exact leaveCall_writes
  | opened => exact .refl
  | dropped => exact .refl
  | @relayed f u resp relay relay' x calls hpoint hr =>
      rw [posting_relaying hpoint, hr]
      exact ⟨List.filter_append _ _, (List.append_nil _).symm⟩
  | @finished f u resp relay pending hpoint =>
      simp only [posting, hpoint]
      exact finishStream_writes
  | @closeFailed f u resp relay pending g hpoint =>
      rw [posting_closeFailed hpoint]
      exact .refl

end Segments

end InferenceGateway
