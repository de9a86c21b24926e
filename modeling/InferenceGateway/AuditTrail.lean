import InferenceGateway.Sample

/-!
# The audit trail

A request leaves at most one record: the step that ends it writes one, or nothing
does.  `silent` lists the steps that end a request, or take it past the point of no
return, without a record: the crashes of the handler, the exits that skip the
writing code, and the records that cannot be written.  `Moves.audit` says that there
are no others.
-/

namespace InferenceGateway

open Py Transition

/-! ## Records that can be written -/

/-- A line about this caller and this model can be written. -/
def traceable (rt : Runtime) (p : Principal) (model : Value) : Bool :=
  model.depth ≤ rt.dumpsDepth && model.encodable && p.keyid.all Py.encodable &&
    Py.encodable p.subject

/-- The counter of tokens takes this count, or is not asked to. -/
def countable (rt : Runtime) (n : Value) : Bool := !n.truthy || (rt.counterInc n).isOk

/-- The counters take both counts of the usage object, and the total of the key takes
their sum. -/
def accountable (rt : Runtime) (w : World) (key : Option Str) (usage : Fields) : Bool :=
  countable rt (usage.get (str "prompt_tokens")) &&
    countable rt (usage.get (str "completion_tokens")) &&
    (w.charge key (usage.get (str "prompt_tokens")) (usage.get (str "completion_tokens"))).2.isOk

/-- A value that every line can carry. -/
def Plain (rt : Runtime) (v : Value) : Prop := v.depth ≤ rt.dumpsDepth ∧ v.encodable

variable {rt : Runtime} {σ : Settings} {p : Principal} {started now : ℚ} {w : World}
  {phase : Phase} {x : Input} {m : World × Phase} {f : Forward} {usage : Fields} {v : Value}
  {key : Option Str} {retry : Retry} {u : Str} {resp : Response} {model : Value} {e : Exn}

theorem plain_int (n : ℤ) : Plain rt (.int n) := ⟨Nat.zero_le _, rfl⟩

/-- What a counter takes is plain: it is a number, or false. -/
theorem plain_of_countable (h : countable rt v) : Plain rt v := by
  rcases Bool.or_eq_true_iff.mp h with hf | hc
  · have hone : 1 ≤ rt.dumpsDepth := le_trans (by decide) rt.two_le_dumpsDepth
    cases v with
    | str s =>
        obtain rfl : s = [] := by simpa [Value.truthy] using hf
        exact ⟨Nat.zero_le _, rfl⟩
    | list xs =>
        obtain rfl : xs = [] := by simpa [Value.truthy] using hf
        exact ⟨hone, rfl⟩
    | dict kvs =>
        obtain rfl : kvs = [] := by simpa [Value.truthy] using hf
        exact ⟨hone, rfl⟩
    | _ => exact ⟨Nat.zero_le _, rfl⟩
  · have hm : Measurable v := by
      cases hi : rt.counterInc v with
      | error e => rw [hi] at hc; cases hc
      | ok a => exact rt.counterInc_ok v hi
    cases v with
    | bool b => exact ⟨Nat.zero_le _, rfl⟩
    | int n => exact ⟨Nat.zero_le _, rfl⟩
    | float y => exact ⟨Nat.zero_le _, rfl⟩
    | _ => exact hm.elim

theorem plain_getD {k : Str} (h : countable rt (usage.get k)) : Plain rt (usage.getD k (.int 0)) := by
  unfold Fields.getD
  cases hk : usage.lookup k with
  | none => exact plain_int 0
  | some v =>
      refine plain_of_countable ?_
      simpa [Fields.get, Fields.getD, hk] using h

theorem plain_orZero (h : Plain rt v) : Plain rt (orZero v) := by
  unfold orZero
  split
  · exact h
  · exact plain_int 0

/-- Whether a line with plain token counts can be written is up to the caller, the model
and the replica. -/
theorem writable_iff {r : AuditRecord} (hkey : r.keyid = p.keyid) (hsub : r.subject = p.subject)
    (hprompt : Plain rt r.promptTokens) (hcompletion : Plain rt r.completionTokens) :
    decide (r.Writable rt) = (traceable rt p r.model && r.upstream.all Py.encodable) := by
  obtain ⟨hpd, hpe⟩ := hprompt
  obtain ⟨hcd, hce⟩ := hcompletion
  rw [Bool.eq_iff_iff]
  simp only [decide_eq_true_eq, AuditRecord.Writable, AuditRecord.depth, AuditRecord.encodable,
    traceable, hkey, hsub, hpe, hce, Bool.and_eq_true, sup_le_iff, hpd, hcd, and_true]
  tauto

/-! ## The segments -/

theorem World.charge_isOk {k : Str} {n c : Value} : (w.charge (some k) n c).2.isOk =
    ((World.orZero n).add (World.orZero c) >>= w.quota.recordUsage k).isOk := by
  unfold World.charge
  dsimp only
  cases (World.orZero n).add (World.orZero c) >>= w.quota.recordUsage k <;> rfl

/-- Whether a sum can be charged is up to the totals. -/
theorem World.charge_isOk_congr {w' : World} {n c : Value}
    (h : w'.quota.tokensUsed = w.quota.tokensUsed) :
    (w'.charge key n c).2.isOk = (w.charge key n c).2.isOk := by
  cases key with
  | none => rfl
  | some k =>
      rw [World.charge_isOk, World.charge_isOk]
      cases (World.orZero n).add (World.orZero c) with
      | error e => rfl
      | ok total => exact QuotaTracker.recordUsage_isOk_congr h

/-- Counting tokens succeeds exactly if the counter takes the count. -/
theorem World.incTokens_snd (rt : Runtime) (w : World) (label : Str) (kind : String) (n : Value) :
    (w.incTokens rt label kind n).2.isOk = countable rt n := by
  unfold World.incTokens countable
  cases n.truthy with
  | false => rfl
  | true => cases rt.counterInc n <;> rfl

/-- Nothing is added for two counts that are not there. -/
theorem World.charge_none : (w.charge key .none .none).2.isOk := by
  unfold World.charge
  cases key with
  | none => rfl
  | some k => simp [World.orZero, Value.truthy, QuotaTracker.recordUsage, bind, Except.bind,
      Except.isOk, Except.toBool]

/-- Usage is recorded without an exception exactly if it is accountable. -/
theorem World.recordUsage_snd :
    (w.recordUsage rt σ model usage key).2.isOk = accountable rt w key usage := by
  unfold World.recordUsage accountable
  generalize usage.get (str "prompt_tokens") = prompt
  generalize usage.get (str "completion_tokens") = completion
  dsimp only
  split
  · exact (World.charge_none).symm
  · have hp := World.incTokens_snd rt w (σ.safeModel model) "prompt" prompt
    obtain ⟨metrics₁, h₁⟩ := World.incTokens_fst rt w (σ.safeModel model) "prompt" prompt
    rcases hinc : w.incTokens rt (σ.safeModel model) "prompt" prompt with ⟨w₁, e | _⟩
    · rw [hinc] at hp
      rw [← hp]
      rfl
    · rw [hinc] at hp h₁
      obtain rfl : w₁ = { w with metrics := metrics₁ } := h₁
      rw [← hp]
      dsimp only
      have hc := World.incTokens_snd rt { w with metrics := metrics₁ } (σ.safeModel model)
        "completion" completion
      obtain ⟨metrics₂, h₂⟩ := World.incTokens_fst rt { w with metrics := metrics₁ }
        (σ.safeModel model) "completion" completion
      rcases hinc₂ : World.incTokens rt { w with metrics := metrics₁ } (σ.safeModel model)
        "completion" completion with ⟨w₂, e | _⟩
      · rw [hinc₂] at hc
        rw [← hc]
        rfl
      · rw [hinc₂] at hc h₂
        obtain rfl : w₂ = { w with metrics := metrics₂ } := h₂
        rw [← hc]
        have hcharge : (World.charge { w with metrics := metrics₂ } key prompt completion).2.isOk =
            (w.charge key prompt completion).2.isOk := World.charge_isOk_congr rfl
        exact hcharge

/-- A refusal leaves a line if it can be written. -/
theorem World.reject_audit (rt : Runtime) (w : World) (statusCode : Nat) (reason : String)
    (p : Principal) (model : Value) (started now : ℚ) (headers : List (String × String)) :
    (w.reject rt statusCode reason p model started now headers).1.audit.length =
      w.audit.length + (traceable rt p model).toNat := by
  unfold World.reject
  dsimp only
  split
  · rename_i audit hw
    refine (auditWrite_ok hw).trans ?_
    rw [writable_iff (p := p) rfl rfl (plain_int 0) (plain_int 0)]
    simp
  · rename_i e hw
    have hnot := decide_eq_false (auditWrite_error hw)
    rw [writable_iff (p := p) rfl rfl (plain_int 0) (plain_int 0)] at hnot
    have : traceable rt p model = false := by simpa using hnot
    simp [this]

/-- Leaving the call leaves a line for what the pool raises itself, if it can be written. -/
theorem leaveCall_audit : (leaveCall rt w f started now e).1.audit.length =
    w.audit.length + (e.isRefusal && traceable rt f.principal f.model).toNat := by
  have hescalate (w : World) : (escalate rt w f started now e).1.audit.length =
      w.audit.length + (e.isRefusal && traceable rt f.principal f.model).toNat := by
    cases e with
    | allReplicasOpen t => exact World.reject_audit ..
    | upstreamUnreachable e' u => exact World.reject_audit ..
    | _ => rfl
  unfold leaveCall
  split
  · refine (hescalate _).trans ?_
    split <;> simp
  · exact (congrArg List.length World.releaseSlot_audit).trans (hescalate w)

/-- The drain is left without a line if something is pending, or if the line cannot be
written. -/
theorem leaveDrain_audit {pending : Option Fault} :
    (leaveDrain rt w f started now resp pending).1.audit.length =
      w.audit.length + (pending.isNone && traceable rt f.principal f.model).toNat := by
  unfold leaveDrain
  cases pending with
  | some g => exact leaveCall_audit
  | none =>
      have hfst := World.reject_audit rt w resp.statusCode "upstream_error" f.principal f.model
        started now []
      have hsnd : (w.reject rt resp.statusCode "upstream_error" f.principal f.model started now
          []).2.isRefusal = false := by
        rw [World.reject_snd]
        split <;> rfl
      dsimp only
      rw [leaveCall_audit, hsnd, hfst]
      rfl

/-- The line of a request that was answered is written unless the usage crashes the
handler, or the line cannot be written. -/
def usageTraced (rt : Runtime) (w : World) (f : Forward) (u : Str) (usage : Fields) : Bool :=
  accountable rt w f.principal.keyid usage && (traceable rt f.principal f.model && Py.encodable u)

/-- The unstreamed epilogue: the payload may crash it too. -/
def answerTraced (rt : Runtime) (w : World) (f : Forward) (u : Str) (resp : Response) : Bool :=
  match payloadOf rt resp with
  | .error _ => traceable rt f.principal f.model
  | .ok payload => match usageOf payload with
    | .error _ => false
    | .ok usage => usageTraced rt w f u usage

/-- Recording the usage, then writing a line: what is in the file afterwards. -/
theorem usageTraced_audit {w' : World} {res : Except Exc Unit} {r : AuditRecord}
    (hrec : w.recordUsage rt σ f.model usage f.principal.keyid = (w', res))
    (hkey : r.keyid = f.principal.keyid) (hsub : r.subject = f.principal.subject)
    (hmodel : r.model = f.model) (hup : r.upstream = some u)
    (hprompt : countable rt (usage.get (str "prompt_tokens")) → Plain rt r.promptTokens)
    (hcompletion : countable rt (usage.get (str "completion_tokens")) →
      Plain rt r.completionTokens) :
    w'.audit = w.audit ∧
      usageTraced rt w f u usage = (res.isOk && decide (r.Writable rt)) := by
  have hfst : (w.recordUsage rt σ f.model usage f.principal.keyid).1.audit = w.audit :=
    World.recordUsage_audit
  have hsnd : (w.recordUsage rt σ f.model usage f.principal.keyid).2.isOk =
      accountable rt w f.principal.keyid usage := World.recordUsage_snd
  rw [hrec] at hfst hsnd
  refine ⟨hfst, ?_⟩
  dsimp only at hsnd
  unfold usageTraced
  rw [← hsnd]
  cases hok : res.isOk with
  | false => rfl
  | true =>
      rw [hok] at hsnd
      obtain ⟨⟨hp, hc⟩, -⟩ : (countable rt (usage.get (str "prompt_tokens")) ∧
          countable rt (usage.get (str "completion_tokens"))) ∧ _ := by
        simpa only [accountable, Bool.and_eq_true] using hsnd.symm
      rw [writable_iff hkey hsub (hprompt hp) (hcompletion hc), hmodel, hup]
      rfl

theorem usageTraced_congr {w' : World} (h : w'.quota.tokensUsed = w.quota.tokensUsed) :
    usageTraced rt w' f u usage = usageTraced rt w f u usage := by
  unfold usageTraced accountable
  rw [World.charge_isOk_congr h]

theorem answerTraced_congr {w' : World} (h : w'.quota.tokensUsed = w.quota.tokensUsed) :
    answerTraced rt w' f u resp = answerTraced rt w f u resp := by
  unfold answerTraced
  simp only [usageTraced_congr h]

theorem finishUnstreamed_audit :
    (finishUnstreamed rt σ w f started now u resp).1.audit.length =
      w.audit.length + (answerTraced rt w f u resp).toNat := by
  unfold finishUnstreamed answerTraced
  cases payloadOf rt resp with
  | error e => exact World.reject_audit ..
  | ok payload =>
      dsimp only
      cases usageOf payload with
      | error e => rfl
      | ok usage =>
          dsimp only
          rcases hrec : w.recordUsage rt σ f.model usage f.principal.keyid with ⟨w', res⟩
          obtain ⟨haudit, htraced⟩ := usageTraced_audit hrec (r := unstreamedRecord f started now u
            resp usage) rfl rfl rfl rfl plain_getD plain_getD
          rw [htraced, ← haudit]
          cases res with
          | error e => rfl
          | ok _ =>
              dsimp only
              split
              · rename_i e hw
                have := auditWrite_error hw
                simp [this]
              · rename_i audit hw
                have := auditWrite_ok hw
                split <;> exact this

theorem finishStream_audit {relay : Relay} {pending : Option Fault} :
    (finishStream rt σ w f started now u resp relay pending).1.audit.length =
      w.audit.length + (usageTraced rt w f u relay.usage).toNat := by
  unfold finishStream
  dsimp only
  rcases hrec : (w.releaseSlot f.releaseKeyid).recordUsage rt σ f.model relay.usage
    f.principal.keyid with ⟨w', res⟩
  obtain ⟨haudit, htraced⟩ := usageTraced_audit hrec (r := streamedRecord f started now u resp relay)
    rfl rfl rfl rfl (fun h ↦ plain_orZero (plain_getD h)) fun h ↦ plain_orZero (plain_getD h)
  rw [← usageTraced_congr World.releaseSlot_tokensUsed, htraced,
    ← haudit.trans World.releaseSlot_audit]
  cases res with
  | error e => rfl
  | ok _ =>
      dsimp only
      split
      · rename_i e hw
        have := auditWrite_error hw
        simp [this]
      · rename_i audit hw
        exact auditWrite_ok hw

/-- A refusal by the checks, or by the cap after them, leaves a line if it can be written;
a crash does not. -/
def checksTraced (rt : Runtime) (p : Principal) : Except Stop Forward → Bool
  | .error (.crash _) => false
  | .error (.reject _ _ model) => traceable rt p model
  | .ok f => traceable rt p f.model

theorem prepare_audit {raw : Bytes} {w' : World}
    (h : prepare rt σ p w raw started now = (w', .error e)) :
    w'.audit.length =
      w.audit.length + (checksTraced rt p (validate rt σ p w.quota raw)).toNat := by
  unfold prepare at h
  cases hv : validate rt σ p w.quota raw with
  | error s =>
      rw [hv] at h
      cases s with
      | crash e' =>
          cases h
          rfl
      | reject statusCode reason model =>
          obtain ⟨rfl, -⟩ := Prod.mk.inj h
          exact World.reject_audit ..
  | ok f =>
      rw [hv] at h
      dsimp only at h
      split at h
      · split at h
        · obtain ⟨rfl, -⟩ := Prod.mk.inj h
          exact World.reject_audit ..
        · cases (Prod.mk.inj h).2
      · cases (Prod.mk.inj h).2

/-- What is left in the file when a call of the pool is over. -/
def retryTraced (rt : Runtime) (w : World) (f : Forward) : Retry → Bool
  | .returned u resp => !f.streaming && answerTraced rt w f u resp
  | .raised e => e.isRefusal && traceable rt f.principal f.model
  | _ => false

theorem settle_audit : (settle rt σ w f started now retry).1.audit.length =
    w.audit.length + (retryTraced rt w f retry).toNat := by
  cases retry with
  | returned u resp =>
      unfold settle retryTraced
      cases f.streaming with
      | true =>
          simp only [if_true]
          split <;> rfl
      | false =>
          refine finishUnstreamed_audit.trans ?_
          rw [answerTraced_congr World.releaseSlot_tokensUsed, World.releaseSlot_audit]
          rfl
  | raised e => exact leaveCall_audit
  | _ => rfl

theorem settle_isEnded : (settle rt σ w f started now retry).2.isEnded = match retry with
    | .returned _ _ => !f.streaming
    | .raised _ => true
    | _ => false := by
  cases retry with
  | returned u resp =>
      unfold settle
      cases f.streaming with
      | true =>
          simp only [if_true]
          split <;> rfl
      | false => rfl
  | raised e =>
      obtain ⟨e', he'⟩ := leaveCall_phase rt w f started now e
      change (leaveCall rt w f started now e).2.isEnded = true
      rw [he']
      rfl
  | _ => rfl

/-! ## The steps without a line -/

/-- The steps that end a request without a line, or make sure that it will have none. -/
def silent (rt : Runtime) (σ : Settings) (p : Principal) (w : World) : Phase → Input → Bool
  | .body, .received raw => !checksTraced rt p (validate rt σ p w.quota raw)
  | .body, _ => true
  | .calling f retry, .raised g =>
    !(retry.isSending && g.isException && traceable rt f.principal f.model)
  | .calling f (.sending _ u), .responded resp => !f.streaming && !answerTraced rt w f u resp
  | .calling f _, _ => !traceable rt f.principal f.model
  | .drainClosing f _ _ pending, .done => !(pending.isNone && traceable rt f.principal f.model)
  | .drainClosing _ _ _ _, _ => true
  | .responding _ _ _, .dropped => true
  | .relaying f u _ relay, .done => !usageTraced rt w f u relay.usage
  | .relaying _ _ _ relay, .raised _ => relay.point.isClosing
  | _, _ => false

/-- A step appends one line to the file if it ends a request and is not silent, and
otherwise none. -/
theorem Moves.audit (h : Moves rt σ p started now w phase x m) :
    m.1.audit.length = w.audit.length + (m.2.isEnded && !silent rt σ p w phase x).toNat := by
  cases h with
  | aborted g => rfl
  | @refused raw w₁ e hp =>
      rw [prepare_audit hp]
      simp [silent, Phase.isEnded]
  | @admitted raw w₁ f pool calls retry hp hs =>
      have hadm := prepare_ok hp
      unfold afterRetry
      rw [settle_audit, settle_isEnded, hadm.audit]
      cases retry with
      | returned u resp => exact absurd rfl (Retry.start_returned hs)
      | raised e =>
          have hprin : f.principal = p := hadm.validated.principal
          simp [retryTraced, silent, checksTraced, hadm.checks, Retry.start_raised hs, hprin]
      | _ => rfl
  | @called f retry retry' x pool calls hr =>
      unfold afterRetry
      rw [settle_audit, settle_isEnded]
      cases retry' with
      | returned u resp =>
          obtain ⟨a, rfl, rfl⟩ := Retry.resume_returned hr
          have hcongr : answerTraced rt { w with pool, metrics := w.metrics ++ calls } f u resp =
              answerTraced rt w f u resp := answerTraced_congr rfl
          simp only [retryTraced, silent, hcongr]
          cases f.streaming <;> simp
      | raised e =>
          rcases Retry.resume_raised hr with ⟨href, rfl | ⟨g, rfl, hs, hg⟩⟩ | ⟨g, rfl, rfl, hnot⟩
          · simp [retryTraced, silent, href]
          · simp [retryTraced, silent, href, hs, hg]
          · have hand : (retry.isSending && g.isException) = false :=
              Bool.eq_false_iff.mpr fun hc ↦ hnot (Bool.and_eq_true_iff.mp hc)
            simp [retryTraced, silent, Exn.isRefusal, hand]
      | _ => rfl
  | @drained f u resp seen seen' b => rfl
  | @drainEnded f u resp seen x pending hpending => rfl
  | @drainClosed f u resp pending =>
      obtain ⟨e', he'⟩ := leaveDrain_phase rt w f started now resp pending
      rw [leaveDrain_audit, he']
      simp [silent, Phase.isEnded]
  | @drainFailed f u resp pending g =>
      rw [leaveCall_audit]
      simp [silent, Exn.isRefusal]
  | opened => rfl
  | dropped => rfl
  | @relayed f u resp relay relay' x calls hpoint hr => rfl
  | @finished f u resp relay pending hpoint =>
      rw [finishStream_audit]
      simp [silent, Phase.isEnded]
  | @closeFailed f u resp relay pending g hpoint =>
      simp [silent, hpoint, Relay.Point.isClosing]

/-! ## All requests -/

namespace System

variable {s s' : System} {e : Event} {es : List Event}

/-- The step does not end the request it resumes without a line. -/
def traced (rt : Runtime) (σ : Settings) (s : System) : Event → Bool
  | .resume i x _ => s.requests[i]?.all fun r ↦ !silent rt σ r.principal s.world r.phase x
  | _ => true

/-- Every request that is over has left one line, and no other request any. -/
def Recorded (s : System) : Prop :=
  ∀ r ∈ s.requests, r.records = r.phase.isEnded.toNat

theorem Recorded.step (hrec : Recorded s) (h : Moves rt σ s e s') (ht : traced rt σ s e) :
    Recorded s' := by
  cases h with
  | arrive p now =>
      intro r hr
      rcases List.mem_append.mp hr with hr | hr
      · exact hrec r hr
      · obtain rfl := List.mem_singleton.mp hr
        rfl
  | @resume i x now r m hr hm =>
      intro r' hr'
      rcases List.mem_or_eq_of_mem_set hr' with hr' | rfl
      · exact hrec r' hr'
      · have hsilent : silent rt σ r.principal s.world r.phase x = false := by
          simpa [traced, hr] using ht
        have hzero : r.records = 0 := by
          rw [hrec r (List.mem_of_getElem? hr), hm.not_isEnded]
          rfl
        have haudit := hm.audit
        rw [hsilent, Bool.not_false, Bool.and_true] at haudit
        change r.records + (m.1.audit.length - s.world.audit.length) = m.2.isEnded.toNat
        omega
  | poll now _ => exact hrec
  | scraped result now _ => exact hrec
  | tick now _ => exact hrec
  | probed ok now _ => exact hrec

/-- In every run none of whose steps is silent, every request that is over has left
exactly one line, and a request that is not over none. -/
theorem one_record (rt : Runtime) (σ : Settings) (urls : List Str) (h : urls ≠ [])
    (es : List Event) (s : System)
    (hr : Run (Guarded (Steps (step rt σ)) fun s e ↦ traced rt σ s e) (System.start urls h) es s) :
    ∀ r ∈ s.requests, r.records = if r.phase.isEnded then 1 else 0 := by
  have hrec : Recorded s := hr.invariant
    (fun hs hrec ↦ hrec.step (moves_of_step hs.1) hs.2) fun r hr ↦ by cases hr
  intro r hmem
  rw [hrec r hmem]
  cases r.phase.isEnded <;> rfl

/-- A request that is answered. -/
def answeredEvents : List Event :=
  [.arrive samplePrincipal 0, .resume 0 (.received (sampleBody "")) 0,
    .resume 0 (.responded { statusCode := 200, content := bytes "\x7b\x7d" }) 1]

theorem answeredEvents_isSome :
    (execWhile (step .sample .default) (traced .sample .default) sampleSystem
      answeredEvents).isSome := by
  decide +kernel

theorem one_record_answered :
    ∃ s, Run (Guarded (Steps (step .sample .default)) fun s e ↦ traced .sample .default s e)
        sampleSystem answeredEvents s ∧
      ∀ r ∈ s.requests, r.records = if r.phase.isEnded then 1 else 0 := by
  have hr : Run (Guarded (Steps (step .sample .default)) fun s e ↦ traced .sample .default s e)
      sampleSystem answeredEvents _ := Run.ofExecWhile (Option.some_get answeredEvents_isSome).symm
  exact ⟨_, hr,
    one_record .sample .default [sampleUrl] (List.cons_ne_nil _ _) answeredEvents _ hr⟩

/-- An answer that is JSON but no object: the handler crashes on it, and the request is
over without a line. -/
theorem no_record_of_list :
    ∃ s, Runs .sample .default sampleSystem
        [.arrive samplePrincipal 0, .resume 0 (.received (sampleBody "")) 0,
          .resume 0 (.responded { statusCode := 200, content := bytes "[]" }) 1] s ∧
      s.requests.map Request.records = [0] ∧ s.world.audit.length = 0 ∧
      ∀ r ∈ s.requests, r.phase.isEnded = true := by
  obtain ⟨s, hr, hs⟩ := Run.exists_of_exec (step .sample .default) sampleSystem
    [.arrive samplePrincipal 0, .resume 0 (.received (sampleBody "")) 0,
      .resume 0 (.responded { statusCode := 200, content := bytes "[]" }) 1]
    (fun s ↦ s.requests.map Request.records == [0] && s.world.audit.length == 0 &&
      s.requests.all fun r ↦ r.phase.isEnded) (by decide +kernel)
  simp only [Bool.and_eq_true, beq_iff_eq, List.all_eq_true, and_assoc] at hs
  exact ⟨s, hr, hs⟩

end System

end InferenceGateway
