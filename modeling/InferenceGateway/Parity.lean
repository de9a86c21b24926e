import InferenceGateway.Disclosure
import InferenceGateway.Routes.Turns

/-!
# Failing in the two modes

What a request that fails before the first byte of an answer leaves behind.  The same
attempts may come with any state of the process.

The streamed and the unstreamed request go through the same retry loop, and leave it in
the same `except` clauses.  They part ways where the loop returns a response of 400 or
more: `_stream` refuses it with `_reject`, and the unstreamed epilogue does not.
-/

namespace InferenceGateway

open Py Transition

/-! ## The account of a failure -/

section Failures

variable {rt : Runtime} {σ : Settings} {p : Principal} {started : ℚ} {f : Forward}
  {phase phase' : Phase} {t : Turn} {turns : List Turn} {how : Ended} {E : Posting} {u : Str}
  {resp : Response} {reason : String} {statusCode : Nat} {now : ℚ} {w : World}

/-- The account of a posting and a reply. -/
def Posting.account (rt : Runtime) (E : Posting) (reply : Option (Nat × String)) : Account where
  reply
  lines := (E.lines rt).map AuditRecord.line
  calls := E.counts

/-- A request that is refused by `_reject`. -/
def refusalAccount (rt : Runtime) (f : Forward) (statusCode : Nat) (reason : String) : Account where
  reply := some (statusCode, reason)
  lines := if traceable rt f.principal f.model then
    [⟨statusCode, some reason, none, .int 0, .int 0⟩] else []
  calls := [recordRejection reason]

/-- An unstreamed request that is answered with an error: no rejection is counted, and the
line names the replica. -/
def errorAccount (rt : Runtime) (σ : Settings) (f : Forward) (upstream : Str) (statusCode : Nat) :
    Account where
  reply := some (statusCode, "upstream error")
  lines := if traceable rt f.principal f.model && Py.encodable upstream then
    [⟨statusCode, some "upstream_error", some upstream, .int 0, .int 0⟩] else []
  calls := [.missingUsage (σ.safeModel f.model)]

/-- The account of a request whose last attempt is a failure. -/
def Attempt.account (rt : Runtime) (σ : Settings) (f : Forward) : Attempt → Account
  | .refused _ => refusalAccount rt f 503 "all_replicas_open"
  | .made _ (.error _) => refusalAccount rt f 502 "upstream_unreachable"
  | .made upstream (.ok resp) =>
    if f.streaming then refusalAccount rt f resp.statusCode "upstream_error"
    else errorAccount rt σ f upstream resp.statusCode
  | .interrupted _ => ⟨none, [], []⟩

theorem lines_of_record {r : AuditRecord} (h : E.record = some r) :
    E.lines rt = if r.Writable rt then [r] else [] := by
  unfold Posting.lines
  rw [h]
  by_cases hw : r.Writable rt
  · have hf : Option.filter (fun r ↦ decide (r.Writable rt)) (some r) = some r :=
      if_pos (decide_eq_true hw)
    rw [hf, if_pos hw]
    rfl
  · have hf : Option.filter (fun r ↦ decide (r.Writable rt)) (some r) = none :=
      if_neg (ne_of_eq_of_ne (decide_eq_false hw) Bool.false_ne_true)
    rw [hf, if_neg hw]
    rfl

theorem refused_account :
    (refused started now f.principal statusCode reason f.model).account rt (some (statusCode, reason)) =
      refusalAccount rt f statusCode reason := by
  have hlines : (refused started now f.principal statusCode reason f.model).lines rt = _ :=
    lines_of_record rfl
  unfold Posting.account refusalAccount
  rw [hlines]
  by_cases ht : traceable rt f.principal f.model = true
  · rw [if_pos ht, if_pos (refusal_writable.mpr ht)]
    rfl
  · rw [if_neg ht, if_neg fun hw ↦ ht (refusal_writable.mp hw)]
    rfl

/-! ## The steps of a failure -/

/-- A step of a request is a move, and the step's lines and calls are those of its posting. -/
theorem turn_cases (hs : Steps (turn rt σ p started) phase t phase') :
    ∃ m, Moves rt σ p started t.now t.world phase t.input m ∧ m.2 = phase' ∧
      linesAt rt σ p started phase t =
        ((posting rt σ t.world started t.now p phase t.input).lines rt).map AuditRecord.line ∧
      callsAt rt σ p started phase t = (posting rt σ t.world started t.now p phase t.input).counts := by
  obtain ⟨m, hm, rfl⟩ := Option.map_eq_some_iff.mp hs
  have hmoves := moves_of_advance hm
  have hwrites := hmoves.writes
  refine ⟨m, hmoves, rfl, ?_, ?_⟩
  · unfold linesAt
    rw [hm]
    dsimp only
    rw [hwrites.lines, List.drop_left]
  · unfold callsAt
    rw [hm]
    dsimp only
    rw [hwrites.counts, List.drop_left]

/-- A step that puts nothing down leaves the account to the rest. -/
theorem account_cons_nil (hs : Steps (turn rt σ p started) phase t phase')
    (hnil : posting rt σ t.world started t.now p phase t.input = {}) :
    account rt σ p started phase (t :: turns) how = account rt σ p started phase' turns how := by
  obtain ⟨m, -, -, hlines, hcalls⟩ := turn_cases hs
  unfold account
  rw [gather_cons hs, gather_cons hs, hlines, hcalls, hnil]
  rfl

/-- The step that ends the request puts the account down. -/
theorem account_last (hs : Steps (turn rt σ p started) phase t (.ended how)) :
    account rt σ p started phase [t] how =
      (posting rt σ t.world started t.now p phase t.input).account rt how.reply := by
  obtain ⟨m, -, -, hlines, hcalls⟩ := turn_cases hs
  unfold account
  rw [gather_cons hs, gather_cons hs, hlines, hcalls]
  unfold Posting.account
  simp [gather]

/-- From the end there is no step. -/
theorem turns_of_ended {how' : Ended}
    (hr : Run (Guarded (Steps (turn rt σ p started)) fun phase t ↦ calm phase t) (.ended how') turns
      (.ended how)) : turns = [] ∧ how' = how := by
  cases hr with
  | nil => exact ⟨rfl, rfl⟩
  | cons hs _ =>
      obtain ⟨m, hmoves, -⟩ := turn_cases hs.1
      exact absurd hmoves.not_isEnded Bool.noConfusion

/-- The request is past the retry loop. -/
def Phase.late : Phase → Bool
  | .body | .calling _ _ => false
  | _ => true

theorem Moves.late {x : Input} {m : World × Phase} (h : Moves rt σ p started now w phase x m)
    (hl : phase.late = true) : m.2.late = true := by
  cases h with
  | refused hp => cases hl
  | admitted hp hs => cases hl
  | called hr => cases hl
  | @drainClosed f u resp pending =>
      obtain ⟨e', he'⟩ := leaveDrain_phase rt w f started now resp pending
      rw [he']
      rfl
  | @drainFailed f u resp pending g =>
      obtain ⟨e', he'⟩ := leaveCall_phase rt w f started now (.fault g)
      rw [he']
      rfl
  | _ => rfl

/-- Past the retry loop there are no more attempts. -/
theorem attempts_late (hr : Run (Steps (turn rt σ p started)) phase turns phase')
    (hl : phase.late = true) :
    gather (turn rt σ p started) (attemptsAt rt σ p started) phase turns = [] := by
  induction hr with
  | nil _ => rfl
  | @cons phase phase₁ phase' t turns hs _ ih =>
      obtain ⟨m, hmoves, rfl, -⟩ := turn_cases hs
      have hnone : attemptsAt rt σ p started phase t = [] := by
        cases phase with
        | body => cases hl
        | calling f retry => cases hl
        | _ => rfl
      rw [gather_cons hs, hnone, ih (hmoves.late hl)]
      rfl

/-- What is raised out of the call of the pool, and what the caller is answered with. -/
def Exn.reply : Exn → Option (Nat × String)
  | .allReplicasOpen _ => some (503, "all_replicas_open")
  | .upstreamUnreachable _ _ => some (502, "upstream_unreachable")
  | .http statusCode detail _ => some (statusCode, detail)
  | _ => none

theorem leaveCall_how (hf : σ.allows f.model = true) {e : Exn}
    (h : (leaveCall rt w f started now e).2 = .ended how) : how.reply = e.reply := by
  have hdepth : f.model.depth ≤ rt.dumpsDepth := by
    rw [depth_of_allows hf]
    exact Nat.zero_le _
  have hescalate (w : World) : (Ended.raised (escalate rt w f started now e).2).reply = e.reply := by
    cases e with
    | allReplicasOpen wait =>
        change (Ended.raised (w.reject rt 503 "all_replicas_open" f.principal f.model started now
          [("Retry-After", toString (max 1 ⌈wait⌉))]).2).reply = _
        rw [World.reject_snd, if_pos hdepth]
        rfl
    | upstreamUnreachable e' v =>
        change (Ended.raised (w.reject rt 502 "upstream_unreachable" f.principal f.model started now
          []).2).reply = _
        rw [World.reject_snd, if_pos hdepth]
        rfl
    | _ => rfl
  unfold leaveCall at h
  split at h
  · cases h
    exact hescalate _
  · cases h
    exact hescalate _

/-- Once the error response is closed, the request ends with the refusal. -/
theorem leaveDrain_how (hf : σ.allows f.model = true)
    (h : (leaveDrain rt w f started now resp none).2 = .ended how) :
    how.reply = some (resp.statusCode, "upstream_error") := by
  have hdepth : f.model.depth ≤ rt.dumpsDepth := by
    rw [depth_of_allows hf]
    exact Nat.zero_le _
  have hsnd := World.reject_snd rt w resp.statusCode "upstream_error" f.principal f.model
    started now []
  rw [if_pos hdepth] at hsnd
  have hcall : how.reply = (w.reject rt resp.statusCode "upstream_error" f.principal f.model
      started now []).2.reply := leaveCall_how hf h
  rw [hcall, hsnd]
  rfl

/-- While an error response is drained, and after it, the account is that of a refusal. -/
theorem drain_account (hf : σ.allows f.model = true)
    (hr : Run (Guarded (Steps (turn rt σ p started)) fun phase t ↦ calm phase t) phase turns phase')
    (hphase : (∃ seen, phase = .draining f u resp seen) ∨ phase = .drainClosing f u resp none)
    (hend : phase' = .ended how) :
    account rt σ p started phase turns how = refusalAccount rt f resp.statusCode "upstream_error" := by
  induction hr with
  | nil phase =>
      subst hend
      rcases hphase with ⟨seen, h⟩ | h <;> cases h
  | @cons phase phase₁ phase' t turns hs hr ih =>
      obtain ⟨m, hmoves, hm, -⟩ := turn_cases hs.1
      obtain ⟨hsteps, hcalm⟩ := hs
      obtain ⟨world, x, now⟩ := t
      rcases hphase with ⟨seen, rfl⟩ | rfl
      · have hnil : posting rt σ world started now p (.draining f u resp seen) x = {} := rfl
        rw [account_cons_nil hsteps hnil]
        cases hmoves with
        | drained => exact ih (.inl ⟨_, hm.symm⟩) hend
        | @drainEnded _ _ _ _ _ pending hpending =>
            cases pending with
            | none => exact ih (.inr hm.symm) hend
            | some g =>
                obtain ⟨rfl, hg⟩ := hpending g rfl
                exact absurd hcalm hg
      · cases hmoves with
        | drainClosed =>
            subst hend
            obtain ⟨e', he'⟩ := leaveDrain_phase rt world f started now resp none
            have hm' : phase₁ = .ended (.raised e') := hm.symm.trans he'
            subst hm'
            obtain ⟨rfl, rfl⟩ := turns_of_ended hr
            rw [account_last hsteps, leaveDrain_how hf he']
            exact refused_account
        | drainFailed g => exact absurd hcalm Bool.false_ne_true

/-- The unstreamed epilogue of an answer of 400 or more. -/
theorem finishUnstreamed_reply (hf : σ.allows f.model = true) (h : 400 ≤ resp.statusCode) :
    (finishUnstreamed rt σ w f started now u resp).2.reply =
      some (resp.statusCode, "upstream error") := by
  have hpay : payloadOf rt resp = .ok (.dict []) := if_neg (not_lt.mpr h)
  have huse : usageOf (.dict []) = .ok [] := rfl
  have hrec : w.recordUsage rt σ f.model [] f.principal.keyid =
      ({ w with metrics := w.metrics ++ [.missingUsage (σ.safeModel f.model)] }, .ok ()) := rfl
  have hdepth : ¬rt.dumpsDepth < (unstreamedRecord f started now u resp []).depth := by
    have hzero : (unstreamedRecord f started now u resp []).depth = f.model.depth := by
      simp [AuditRecord.depth, unstreamedRecord, Fields.getD, Value.depth]
    rw [hzero, depth_of_allows hf]
    exact Nat.not_lt_zero _
  unfold finishUnstreamed
  simp only [hpay, huse, hrec, auditWrite, if_neg hdepth]
  split
  · rename_i e he
    split at he <;> cases he
  · rw [if_pos h]
    rfl

theorem unstreamedPosting_account (h : 400 ≤ resp.statusCode) :
    (unstreamedPosting rt σ w started now f u resp).account rt
      (some (resp.statusCode, "upstream error")) = errorAccount rt σ f u resp.statusCode := by
  have hpay : payloadOf rt resp = .ok (.dict []) := if_neg (not_lt.mpr h)
  have huse : usageOf (.dict []) = .ok [] := rfl
  have hacc : accountable rt w f.principal.keyid [] = true := by
    have hnone : countable rt .none = true := rfl
    have hget (k : Str) : Fields.get [] k = .none := rfl
    unfold accountable
    rw [hget, hget, hnone, World.charge_none]
    rfl
  have hposting : unstreamedPosting rt σ w started now f u resp =
      { counts := [.missingUsage (σ.safeModel f.model)]
        record := some (unstreamedRecord f started now u resp []) } := by
    unfold unstreamedPosting
    rw [hpay]
    dsimp only
    rw [huse]
    dsimp only
    unfold answeredPosting
    rw [if_pos hacc]
    rfl
  have hzero : Plain rt (.int 0) := plain_int 0
  have hwritable : (unstreamedRecord f started now u resp []).Writable rt ↔
      (traceable rt f.principal f.model && Py.encodable u) = true := by
    have hkey : (unstreamedRecord f started now u resp []).keyid = f.principal.keyid := rfl
    have hw := writable_iff hkey rfl hzero hzero
    rw [Bool.eq_iff_iff, decide_eq_true_eq] at hw
    exact hw
  have hreason : (unstreamedRecord f started now u resp []).reason = some "upstream_error" :=
    if_neg (not_lt.mpr h)
  have hlines : (unstreamedPosting rt σ w started now f u resp).lines rt = _ :=
    lines_of_record (congrArg Posting.record hposting)
  unfold Posting.account errorAccount
  rw [hlines, hposting]
  congr 1
  by_cases ht : (traceable rt f.principal f.model && Py.encodable u) = true
  · rw [if_pos ht, if_pos (hwritable.mpr ht)]
    simp only [List.map_cons, List.map_nil, AuditRecord.line, hreason]
    rfl
  · rw [if_neg ht, if_neg fun hw ↦ ht (hwritable.mp hw)]
    rfl

/-- The account of what leaves the retry loop by an exception. -/
theorem escalatePosting_account {a : Attempt} {e : Exn} (h : a.exn? = some e) :
    (escalatePosting started now f e).account rt e.reply = a.account rt σ f := by
  cases a with
  | refused wait =>
      cases h
      exact refused_account
  | made v outcome =>
      cases outcome with
      | ok resp => cases h
      | error e' =>
          cases h
          exact refused_account
  | interrupted g =>
      cases h
      rfl

/-! ## The last attempt -/

/-- The attempts of a run of a request. -/
def attempts (rt : Runtime) (σ : Settings) (p : Principal) (started : ℚ) (phase : Phase)
    (turns : List Turn) : List Attempt :=
  gather (turn rt σ p started) (attemptsAt rt σ p started) phase turns

/-- After a step that leaves the retry loop, its attempt is the last one. -/
theorem attempts_of_late {a : Attempt} (hsteps : Steps (turn rt σ p started) phase t phase')
    (ha : attemptsAt rt σ p started phase t = [a]) (hl : phase'.late = true)
    (hr : Run (Guarded (Steps (turn rt σ p started)) fun phase t ↦ calm phase t) phase' turns
      (.ended how)) : attempts rt σ p started phase (t :: turns) = [a] := by
  have hnone : attempts rt σ p started phase' turns = [] := attempts_late hr.of_guarded hl
  have hgather : attempts rt σ p started phase (t :: turns) =
      attemptsAt rt σ p started phase t ++ attempts rt σ p started phase' turns :=
    gather_cons hsteps
  rw [hgather, ha, hnone]
  rfl

section Settled

variable {calls : List MetricCall} {pool : UpstreamPool} {a : Attempt} {e : Exn}

/-- An exception out of the pool ends the request. -/
theorem raised_account (hf : σ.allows f.model = true)
    (hsteps : Steps (turn rt σ p started) phase t phase')
    (hphase' : (afterRetry rt σ w f started t.now (pool, calls, .raised e)).2 = phase')
    (hposting : posting rt σ t.world started t.now p phase t.input =
      escalatePosting started t.now f e)
    (ha : attemptsAt rt σ p started phase t = [a]) (hexn : a.exn? = some e)
    (hr : Run (Guarded (Steps (turn rt σ p started)) fun phase t ↦ calm phase t) phase' turns
      (.ended how)) :
    attempts rt σ p started phase (t :: turns) = [a] ∧
      account rt σ p started phase (t :: turns) how = a.account rt σ f := by
  obtain ⟨e', he'⟩ := leaveCall_phase rt { w with pool, metrics := w.metrics ++ calls } f started
    t.now e
  have hp : phase' = .ended (.raised e') := hphase'.symm.trans he'
  subst hp
  refine ⟨attempts_of_late hsteps ha rfl hr, ?_⟩
  obtain ⟨rfl, rfl⟩ := turns_of_ended hr
  rw [account_last hsteps, hposting, leaveCall_how hf he']
  exact escalatePosting_account hexn

/-- A streamed response of 400 or more is drained, and then refused. -/
theorem streamed_account (hf : σ.allows f.model = true) (hs : f.streaming = true)
    (hsteps : Steps (turn rt σ p started) phase t phase')
    (hphase' : (afterRetry rt σ w f started t.now (pool, calls, .returned u resp)).2 = phase')
    (hposting : posting rt σ t.world started t.now p phase t.input = {})
    (ha : attemptsAt rt σ p started phase t = [.made u (.ok resp)])
    (hr : Run (Guarded (Steps (turn rt σ p started)) fun phase t ↦ calm phase t) phase' turns
      (.ended how)) :
    attempts rt σ p started phase (t :: turns) = [.made u (.ok resp)] ∧
      ((Attempt.made u (.ok resp)).fails = true →
        account rt σ p started phase (t :: turns) how =
          (Attempt.made u (.ok resp)).account rt σ f) := by
  by_cases h400 : 400 ≤ resp.statusCode
  · have hp : phase' = .draining f u resp 0 := by
      rw [← hphase']
      simp [afterRetry, settle, hs, h400]
    refine ⟨attempts_of_late hsteps ha (by rw [hp]; rfl) hr, fun _ ↦ ?_⟩
    rw [account_cons_nil hsteps hposting]
    exact (drain_account hf hr (.inl ⟨0, hp⟩) rfl).trans (if_pos hs).symm
  · have hp : phase' = .responding f u resp := by
      rw [← hphase']
      simp [afterRetry, settle, hs, h400]
    refine ⟨attempts_of_late hsteps ha (by rw [hp]; rfl) hr, fun hfail ↦ ?_⟩
    exact absurd (of_decide_eq_true hfail) h400

/-- An unstreamed response ends the request. -/
theorem unstreamed_account (hf : σ.allows f.model = true) (hs : ¬f.streaming = true)
    (hsteps : Steps (turn rt σ p started) phase t phase')
    (hphase' : (afterRetry rt σ w f started t.now (pool, calls, .returned u resp)).2 = phase')
    (hposting : posting rt σ t.world started t.now p phase t.input =
      unstreamedPosting rt σ w started t.now f u resp)
    (ha : attemptsAt rt σ p started phase t = [.made u (.ok resp)])
    (hr : Run (Guarded (Steps (turn rt σ p started)) fun phase t ↦ calm phase t) phase' turns
      (.ended how)) :
    attempts rt σ p started phase (t :: turns) = [.made u (.ok resp)] ∧
      ((Attempt.made u (.ok resp)).fails = true →
        account rt σ p started phase (t :: turns) how =
          (Attempt.made u (.ok resp)).account rt σ f) := by
  have hp : phase' = .ended (finishUnstreamed rt σ
      ({ w with pool, metrics := w.metrics ++ calls }.releaseSlot f.releaseKeyid) f started t.now
      u resp).2 := by
    rw [← hphase']
    simp [afterRetry, settle, hs]
  subst hp
  refine ⟨attempts_of_late hsteps ha rfl hr, fun hfail ↦ ?_⟩
  have h400 : 400 ≤ resp.statusCode := of_decide_eq_true hfail
  obtain ⟨rfl, rfl⟩ := turns_of_ended hr
  rw [account_last hsteps, hposting, finishUnstreamed_reply hf h400]
  exact (unstreamedPosting_account h400).trans (if_neg hs).symm

end Settled

/-- The rest of a request that has left the retry loop where `retry` says: the account is
that of the last attempt, if that is a failure. -/
theorem settled_account {retry : Retry} {calls : List MetricCall} {pool : UpstreamPool}
    (hf : σ.allows f.model = true)
    (hsteps : Steps (turn rt σ p started) phase t phase')
    (hphase' : (afterRetry rt σ w f started t.now (pool, calls, retry)).2 = phase')
    (hposting : posting rt σ t.world started t.now p phase t.input =
      retryPosting rt σ w started t.now f retry)
    (hraised : ∀ e, retry = .raised e →
      ∃ a, attemptsAt rt σ p started phase t = [a] ∧ a.exn? = some e)
    (hreturned : ∀ u resp, retry = .returned u resp →
      attemptsAt rt σ p started phase t = [.made u (.ok resp)])
    (hr : Run (Guarded (Steps (turn rt σ p started)) fun phase t ↦ calm phase t) phase' turns
      (.ended how))
    (ih : ∀ retry', phase' = .calling f retry' → ∃ as a,
      attempts rt σ p started phase' turns = as ++ [a] ∧
        (a.fails = true → account rt σ p started phase' turns how = a.account rt σ f)) :
    ∃ as a, attempts rt σ p started phase (t :: turns) = as ++ [a] ∧
      (a.fails = true → account rt σ p started phase (t :: turns) how = a.account rt σ f) := by
  -- still in the loop, the last attempt is yet to come
  have hgo (retry' : Retry) (hp : phase' = .calling f retry')
      (hnil : retryPosting rt σ w started t.now f retry = {}) :
      ∃ as a, attempts rt σ p started phase (t :: turns) = as ++ [a] ∧
        (a.fails = true → account rt σ p started phase (t :: turns) how = a.account rt σ f) := by
    obtain ⟨as, a, hattempts, hacc⟩ := ih retry' hp
    have hgather : attempts rt σ p started phase (t :: turns) =
        attemptsAt rt σ p started phase t ++ attempts rt σ p started phase' turns :=
      gather_cons hsteps
    refine ⟨attemptsAt rt σ p started phase t ++ as, a, ?_, fun hfail ↦ ?_⟩
    · rw [hgather, hattempts, List.append_assoc]
    · rw [account_cons_nil hsteps (hposting.trans hnil)]
      exact hacc hfail
  cases retry with
  | raised e =>
      obtain ⟨a, ha, hexn⟩ := hraised e rfl
      obtain ⟨hattempts, hacc⟩ := raised_account hf hsteps hphase' hposting ha hexn hr
      exact ⟨[], a, hattempts, fun _ ↦ hacc⟩
  | returned u resp =>
      have ha := hreturned u resp rfl
      by_cases hs : f.streaming = true
      · have hnil : posting rt σ t.world started t.now p phase t.input = {} :=
          hposting.trans (if_pos hs)
        exact ⟨[], _, streamed_account hf hs hsteps hphase' hnil ha hr⟩
      · have hunstreamed : posting rt σ t.world started t.now p phase t.input =
            unstreamedPosting rt σ w started t.now f u resp := hposting.trans (if_neg hs)
        exact ⟨[], _, unstreamed_account hf hs hsteps hphase' hunstreamed ha hr⟩
  | sending a v => exact hgo _ hphase'.symm rfl
  | discarding a v resp => exact hgo _ hphase'.symm rfl
  | sleeping a v o => exact hgo _ hphase'.symm rfl

/-- The account of a request that is in the retry loop and ends in a failure is that of its
last attempt. -/
theorem calling_account (hf : σ.allows f.model = true)
    (hr : Run (Guarded (Steps (turn rt σ p started)) fun phase t ↦ calm phase t) phase turns phase')
    (hend : phase' = .ended how) : ∀ retry, phase = .calling f retry → ∃ as a,
      attempts rt σ p started phase turns = as ++ [a] ∧
        (a.fails = true → account rt σ p started phase turns how = a.account rt σ f) := by
  induction hr with
  | nil phase =>
      subst hend
      intro retry h
      cases h
  | @cons phase phase₁ phase' t turns hs hr ih =>
      subst hend
      rintro retry rfl
      obtain ⟨m, hmoves, hm, -⟩ := turn_cases hs.1
      obtain ⟨hsteps, hcalm⟩ := hs
      obtain ⟨world, x, now⟩ := t
      cases hmoves with
      | @called _ _ retry' x pool calls hresume =>
          refine settled_account hf hsteps hm ?_ ?_ ?_ hr fun retry'' h ↦ ih rfl retry'' h
          · simp only [posting, hresume]
          · rintro e rfl
            rcases Retry.resume_attempt hresume with ha | ⟨hsend, g, rfl⟩
            · exact ha
            · have hfalse : (retry.isSending || false) = true := hcalm
              rw [hsend] at hfalse
              cases hfalse
          · rintro u resp rfl
            obtain ⟨a, rfl, rfl⟩ := Retry.resume_returned hresume
            rfl

/-- The step takes in a body that the checks and the cap let through. -/
def Accepts (rt : Runtime) (σ : Settings) (p : Principal) (started : ℚ) (t : Turn) (f : Forward) :
    Prop :=
  ∃ raw w, t.input = .received raw ∧ prepare rt σ p t.world raw started t.now = (w, .ok f)

/-- The account of a request that is accepted and ends in a failure is that of its last
attempt. -/
theorem accepted_account (ha : Accepts rt σ p started t f)
    (hr : Run (Guarded (Steps (turn rt σ p started)) fun phase t ↦ calm phase t) .body (t :: turns)
      (.ended how)) : ∃ as a, attempts rt σ p started .body (t :: turns) = as ++ [a] ∧
        (a.fails = true → account rt σ p started .body (t :: turns) how = a.account rt σ f) := by
  obtain ⟨raw, w, hinput, hprepare⟩ := ha
  have hf : σ.allows f.model = true := (prepare_ok hprepare).validated.model
  obtain ⟨phase₁, hs, hrest⟩ := Run.cons_iff.mp hr
  obtain ⟨m, hmoves, hm, -⟩ := turn_cases hs.1
  obtain ⟨world, x, now⟩ := t
  obtain rfl : x = .received raw := hinput
  cases hmoves with
  | refused hp => cases (Prod.mk.inj (hprepare.symm.trans hp)).2
  | @admitted _ w₁ f₁ pool calls retry hp hstart =>
      obtain ⟨rfl, hfe⟩ := Prod.mk.inj (hprepare.symm.trans hp)
      obtain rfl := Except.ok.inj hfe
      have hattempts : attemptsAt rt σ p started .body ⟨world, .received raw, now⟩ =
          Retry.startAttempt rt σ w.pool f.forwarded none now := by
        simp only [attemptsAt, hprepare]
      refine settled_account hf hs.1 hm ?_ ?_ ?_ hrest fun retry' h ↦
        calling_account hf hrest rfl retry' h
      · simp only [posting, hprepare, hstart]
      · rintro e rfl
        rw [hattempts]
        exact Retry.start_attempt hstart
      · rintro u resp rfl
        exact absurd rfl (Retry.start_returned hstart)

/-- Two requests of one caller for one model, one unstreamed and one streamed, that are
accepted, go through the same attempts, and fail at the last one, are accounted alike
if and only if that last attempt is not a response. -/
theorem accounted_alike_iff (rt : Runtime) (σ : Settings) (p : Principal) (started₁ started₂ : ℚ)
    (t₁ t₂ : Turn) (turns₁ turns₂ : List Turn) (how₁ how₂ : Ended) (f₁ f₂ : Forward)
    (as : List Attempt) (a : Attempt)
    (hr₁ : Run (Guarded (Steps (turn rt σ p started₁)) fun phase t ↦ calm phase t) .body
      (t₁ :: turns₁) (.ended how₁))
    (hr₂ : Run (Guarded (Steps (turn rt σ p started₂)) fun phase t ↦ calm phase t) .body
      (t₂ :: turns₂) (.ended how₂))
    (ha₁ : Accepts rt σ p started₁ t₁ f₁) (ha₂ : Accepts rt σ p started₂ t₂ f₂)
    (hs₁ : f₁.streaming = false) (hs₂ : f₂.streaming = true) (hmodel : f₁.model = f₂.model)
    (hattempts₁ : attempts rt σ p started₁ .body (t₁ :: turns₁) = as ++ [a])
    (hattempts₂ : attempts rt σ p started₂ .body (t₂ :: turns₂) = as ++ [a])
    (hfails : a.fails = true) :
    account rt σ p started₁ .body (t₁ :: turns₁) how₁ =
        account rt σ p started₂ .body (t₂ :: turns₂) how₂ ↔
      ∀ upstream resp, a ≠ .made upstream (.ok resp) := by
  have hlast {as as' : List Attempt} {a a' : Attempt} (h : as ++ [a] = as' ++ [a']) : a = a' :=
    (List.append_inj' h rfl).2 |> List.singleton_inj.mp
  obtain ⟨as₁, b₁, hb₁, hacc₁⟩ := accepted_account ha₁ hr₁
  obtain ⟨as₂, b₂, hb₂, hacc₂⟩ := accepted_account ha₂ hr₂
  obtain rfl : b₁ = a := hlast (hb₁.symm.trans hattempts₁)
  obtain rfl : b₂ = b₁ := hlast (hb₂.symm.trans hattempts₂)
  rw [hacc₁ hfails, hacc₂ hfails]
  obtain ⟨raw₁, w₁, -, hp₁⟩ := ha₁
  obtain ⟨raw₂, w₂, -, hp₂⟩ := ha₂
  have hprincipal : f₁.principal = f₂.principal :=
    (prepare_ok hp₁).validated.principal.trans (prepare_ok hp₂).validated.principal.symm
  have hrefusal (statusCode : Nat) (reason : String) :
      refusalAccount rt f₁ statusCode reason = refusalAccount rt f₂ statusCode reason := by
    unfold refusalAccount
    rw [hprincipal, hmodel]
  cases b₂ with
  | refused wait =>
      refine iff_of_true (hrefusal _ _) fun u resp h ↦ ?_
      cases h
  | made v outcome =>
      cases outcome with
      | error e =>
          refine iff_of_true (hrefusal _ _) fun u resp h ↦ ?_
          cases h
      | ok resp =>
          refine iff_of_false (fun h ↦ ?_) fun h ↦ h v resp rfl
          have h₁ : (Attempt.made v (.ok resp)).account rt σ f₁ = errorAccount rt σ f₁ v resp.statusCode :=
            if_neg (Bool.eq_false_iff.mp hs₁)
          have h₂ : (Attempt.made v (.ok resp)).account rt σ f₂ =
              refusalAccount rt f₂ resp.statusCode "upstream_error" := if_pos hs₂
          rw [h₁, h₂] at h
          have hreply := congrArg Account.reply h
          have hdetail : "upstream error" = "upstream_error" :=
            (Prod.mk.inj (Option.some.inj hreply)).2
          exact absurd hdetail (by decide)
  | interrupted g =>
      refine iff_of_true rfl fun u resp h ↦ ?_
      cases h

end Failures

/-! ## Concrete requests -/

/-- What a request finds that has the gateway for itself. -/
def aloneTurn (x : Input) (now : ℚ) : Turn := ⟨sampleSystem.world, x, now⟩

/-- A request with these fields more that the only replica refuses twice. -/
def unreachableTurns (more : String) : List Turn :=
  [aloneTurn (.received (sampleBody more)) 0, aloneTurn (.raised (.httpx .connectError)) 1,
    aloneTurn .done 2, aloneTurn (.raised (.httpx .connectError)) 3]

/-- A request with these fields more that the replica answers with an error, and what
follows. -/
def erroneousTurns (more : String) (rest : List Turn) : List Turn :=
  aloneTurn (.received (sampleBody more)) 0 :: aloneTurn (.responded { statusCode := 500 }) 1 :: rest

/-- The rest of the streamed one: the error is drained and closed. -/
def drainedTurns : List Turn := [aloneTurn .eof 2, aloneTurn .done 3]

/-- The reply to a request that has ended. -/
def Phase.reply : Phase → Option (Nat × String)
  | .ended how => how.reply
  | _ => none

/-- A run of a request to its end, found by evaluation. -/
theorem exists_ended (turns : List Turn) (reply : Nat × String)
    (h : (execWhile (turn .sample .default samplePrincipal 0) calm .body turns).any
      (fun phase ↦ phase.reply = some reply) = true) : ∃ how,
    Run (Guarded (Steps (turn .sample .default samplePrincipal 0)) fun phase t ↦ calm phase t)
      .body turns (.ended how) ∧ how.reply = some reply := by
  obtain ⟨phase, hr, hreply⟩ := Run.exists_of_execWhile (turn .sample .default samplePrincipal 0) calm
    .body turns (fun phase ↦ phase.reply = some reply) h
  have hreply := of_decide_eq_true hreply
  cases phase with
  | ended how => exact ⟨how, hr, hreply⟩
  | _ => cases hreply

/-- The model of `sampleBody`. -/
def sampleModel : Str := str "Qwen/Qwen3-8B-AWQ"

/-- The checks let a request for that model through, in this mode. -/
def passes (streaming : Bool) : Except Exn Forward → Bool
  | .ok f => f.streaming == streaming && Settings.default.allowed f.model == some sampleModel
  | .error _ => false

/-- A first step that is accepted, found by evaluation. -/
theorem exists_accepts (more : String) (streaming : Bool)
    (h : passes streaming (prepare .sample .default samplePrincipal sampleSystem.world
      (sampleBody more) 0 0).2 = true) : ∃ f,
    Accepts .sample .default samplePrincipal 0 (aloneTurn (.received (sampleBody more)) 0) f ∧
      f.streaming = streaming ∧ f.model = .str sampleModel := by
  rcases hp : prepare .sample .default samplePrincipal sampleSystem.world (sampleBody more) 0 0 with
    ⟨w, e | f⟩
  · rw [hp] at h
    cases h
  · rw [hp] at h
    obtain ⟨hs, hm⟩ := Bool.and_eq_true_iff.mp h
    exact ⟨f, ⟨_, w, rfl, hp⟩, beq_iff_eq.mp hs, allowed_eq_some (beq_iff_eq.mp hm)⟩

/-- The fields that ask for a stream. -/
def streamField : String := ", \"stream\": true"

/-- The two attempts of a request whose replica cannot be reached. -/
def connectFailed : Attempt := .made sampleUrl (.error (.fault (.httpx .connectError)))

theorem accounted_alike_iff_unreachable : ∃ how₁ how₂,
    Run (Guarded (Steps (turn .sample .default samplePrincipal 0)) fun phase t ↦ calm phase t)
      .body (unreachableTurns "") (.ended how₁) ∧
    Run (Guarded (Steps (turn .sample .default samplePrincipal 0)) fun phase t ↦ calm phase t)
      .body (unreachableTurns streamField) (.ended how₂) ∧
    account .sample .default samplePrincipal 0 .body (unreachableTurns "") how₁ =
      account .sample .default samplePrincipal 0 .body (unreachableTurns streamField) how₂ := by
  obtain ⟨how₁, hr₁, -⟩ := exists_ended (unreachableTurns "") (502, "upstream_unreachable")
    (by decide +kernel)
  obtain ⟨how₂, hr₂, -⟩ := exists_ended (unreachableTurns streamField) (502, "upstream_unreachable")
    (by decide +kernel)
  obtain ⟨f₁, ha₁, hs₁, hm₁⟩ := exists_accepts "" false (by decide +kernel)
  obtain ⟨f₂, ha₂, hs₂, hm₂⟩ := exists_accepts streamField true (by decide +kernel)
  have h₁ : attempts .sample .default samplePrincipal 0 .body (unreachableTurns "") =
      [connectFailed] ++ [connectFailed] := by decide +kernel
  have h₂ : attempts .sample .default samplePrincipal 0 .body (unreachableTurns streamField) =
      [connectFailed] ++ [connectFailed] := by decide +kernel
  have halike := accounted_alike_iff .sample .default samplePrincipal 0 0 _ _ _ _ how₁ how₂ f₁ f₂
    [connectFailed] connectFailed hr₁ hr₂ ha₁ ha₂ hs₁ hs₂ (hm₁.trans hm₂.symm) h₁ h₂ rfl
  refine ⟨how₁, how₂, hr₁, hr₂, halike.mpr fun u resp h ↦ ?_⟩
  cases h

/-- The only attempt of a request is answered with 500.  Streamed, the detail is
`upstream_error`, the line names no replica, and a rejection is counted; unstreamed, the
detail is `upstream error`, the line names the replica, and missing usage is counted. -/
theorem error_accounted_apart : ∃ how₁ how₂,
    Run (Guarded (Steps (turn .sample .default samplePrincipal 0)) fun phase t ↦ calm phase t)
      .body (erroneousTurns "" []) (.ended how₁) ∧
    Run (Guarded (Steps (turn .sample .default samplePrincipal 0)) fun phase t ↦ calm phase t)
      .body (erroneousTurns streamField drainedTurns) (.ended how₂) ∧
    attempts .sample .default samplePrincipal 0 .body (erroneousTurns "" []) =
      [.made sampleUrl (.ok { statusCode := 500 })] ∧
    attempts .sample .default samplePrincipal 0 .body (erroneousTurns streamField drainedTurns) =
      [.made sampleUrl (.ok { statusCode := 500 })] ∧
    how₁.reply = some (500, "upstream error") ∧ how₂.reply = some (500, "upstream_error") ∧
    account .sample .default samplePrincipal 0 .body (erroneousTurns "" []) how₁ ≠
      account .sample .default samplePrincipal 0 .body (erroneousTurns streamField drainedTurns)
        how₂ := by
  obtain ⟨how₁, hr₁, hreply₁⟩ := exists_ended (erroneousTurns "" []) (500, "upstream error")
    (by decide +kernel)
  obtain ⟨how₂, hr₂, hreply₂⟩ := exists_ended (erroneousTurns streamField drainedTurns) (500, "upstream_error")
    (by decide +kernel)
  refine ⟨how₁, how₂, hr₁, hr₂, by decide +kernel, by decide +kernel, hreply₁, hreply₂, fun h ↦ ?_⟩
  have hreply : how₁.reply = how₂.reply := congrArg Account.reply h
  rw [hreply₁, hreply₂] at hreply
  exact absurd hreply (by decide)

end InferenceGateway
