import InferenceGateway.Rejections

/-!
# What the audit file says about the text of a request

A line names the caller, the decision, the status and the token counts, and nothing
that a caller wrote, as long as its model is none or a name of the allowlist.  The
checks up to the allowlist record the model as it came, so a body whose model is
something else puts it into the file: `discloses` is that step, and
`System.audit_clean_iff` says that it is the only one.
-/

namespace InferenceGateway

open Py Transition

/-! ## Lines without text -/

/-- The line carries no text of the caller. -/
structure AuditRecord.Clean (σ : Settings) (r : AuditRecord) : Prop where
  event : r.event = "chat.completions"
  model : r.model = .none ∨ σ.allows r.model = true
  reason : ∀ reason, r.reason = some reason → reason ∈ rejectReasons

/-- What was decided about a request, in terms the configuration fixes: a name of the
allowlist, a reason of the vocabulary, a replica, and the mode. -/
structure Decision where
  model : Option Str
  reason : Option String
  upstream : Option Str
  streamed : Bool

/-- The model, if it is a name of the allowlist. -/
def Settings.allowed (σ : Settings) (model : Value) : Option Str :=
  match model with
  | .str s => if σ.allows (.str s) then some s else none
  | _ => none

/-- The decision a line tells of. -/
def AuditRecord.decision (σ : Settings) (r : AuditRecord) : Decision where
  model := σ.allowed r.model
  reason := r.reason.filter fun reason ↦ decide (reason ∈ rejectReasons)
  upstream := r.upstream
  streamed := r.streamed

/-- Who made the request. -/
def AuditRecord.caller (r : AuditRecord) : Option Str × Str × String :=
  (r.keyid, r.subject, r.authMethod)

/-- The line up to timestamp and latency. -/
def AuditRecord.untimed (r : AuditRecord) : AuditRecord := { r with timestamp := 0, latencyMs := 0 }

section Lines

variable {rt : Runtime} {σ : Settings} {p : Principal} {started now : ℚ} {w w' : World}
  {f : Forward} {u : Str} {resp : Response} {model : Value} {usage : Fields} {r r' : AuditRecord}
  {reason : String} {statusCode : Nat}

theorem allowed_eq_none (h : σ.allowed model = none) : σ.allows model = false := by
  cases model with
  | str s =>
      by_cases ha : σ.allows (.str s) = true
      · have hs : σ.allowed (.str s) = some s := if_pos ha
        rw [hs] at h
        cases h
      · exact Bool.eq_false_iff.mpr ha
  | _ => rfl

theorem allowed_eq_some {s : Str} (h : σ.allowed model = some s) : model = .str s := by
  cases model with
  | str s' =>
      have hif : (if σ.allows (.str s') then some s' else none) = some s := h
      split at hif
      · cases hif
        rfl
      · cases hif
  | _ => cases h

/-- A clean model is known from its name on the allowlist. -/
theorem AuditRecord.Clean.model_eq (h : r.Clean σ) (h' : r'.Clean σ)
    (hm : σ.allowed r.model = σ.allowed r'.model) : r.model = r'.model := by
  cases ha : σ.allowed r.model with
  | some s =>
      rw [ha] at hm
      rw [allowed_eq_some ha, allowed_eq_some hm.symm]
  | none =>
      rw [ha] at hm
      have hnone {r : AuditRecord} (h : r.Clean σ) (ha : σ.allowed r.model = none) :
          r.model = .none := by
        rcases h.model with hn | hallows
        · exact hn
        · rw [allowed_eq_none ha] at hallows
          cases hallows
      rw [hnone h ha, hnone h' hm.symm]

theorem AuditRecord.Clean.filter_reason (h : r.Clean σ) :
    r.reason.filter (fun reason ↦ decide (reason ∈ rejectReasons)) = r.reason := by
  cases hr : r.reason with
  | none => rfl
  | some reason => exact if_pos (decide_eq_true (h.reason reason hr))

/-- The caller, the decision, the status and the token counts make the line. -/
theorem AuditRecord.Clean.untimed_eq (h : r.Clean σ) (h' : r'.Clean σ) (hcaller : r.caller = r'.caller)
    (hdecision : r.decision σ = r'.decision σ) (hstatus : r.status = r'.status)
    (hprompt : r.promptTokens = r'.promptTokens)
    (hcompletion : r.completionTokens = r'.completionTokens) : r.untimed = r'.untimed := by
  have hmodel : r.model = r'.model := h.model_eq h' (congrArg Decision.model hdecision)
  have hreason : r.reason = r'.reason := by
    rw [← h.filter_reason, ← h'.filter_reason]
    exact congrArg Decision.reason hdecision
  have hupstream : r.upstream = r'.upstream := congrArg Decision.upstream hdecision
  have hstreamed : r.streamed = r'.streamed := congrArg Decision.streamed hdecision
  have hevent : r.event = r'.event := h.event.trans h'.event.symm
  obtain ⟨hkeyid, hrest⟩ := Prod.mk.inj hcaller
  obtain ⟨hsubject, hmethod⟩ := Prod.mk.inj hrest
  unfold AuditRecord.untimed
  rw [hevent, hkeyid, hsubject, hmethod, hmodel, hstatus, hprompt, hcompletion, hupstream, hreason,
    hstreamed]

/-! ## The lines of a step -/

/-- The record of the posting, if there is one, is clean. -/
def Posting.Clean (σ : Settings) (E : Posting) : Prop := ∀ r, E.record = some r → r.Clean σ

theorem clean_nil : Posting.Clean σ {} := fun r hr ↦ by cases hr

/-- A refusal is clean if its reason and its model are. -/
theorem refused_clean (hreason : reason ∈ rejectReasons)
    (hmodel : model = .none ∨ σ.allows model = true) :
    (refused started now p statusCode reason model).Clean σ := by
  intro r hr
  cases hr
  refine ⟨rfl, hmodel, ?_⟩
  rintro _ ⟨⟩
  exact hreason

theorem answeredPosting_clean (h : r.Clean σ) : (answeredPosting rt σ w f usage r).Clean σ := by
  intro r' hr'
  have hif : (if accountable rt w f.principal.keyid usage then some r else none) = some r' := hr'
  split at hif
  · cases hif
    exact h
  · cases hif

theorem escalatePosting_clean {e : Exn} (hf : σ.allows f.model = true) :
    (escalatePosting started now f e).Clean σ := by
  cases e with
  | allReplicasOpen t => exact refused_clean (by decide) (.inr hf)
  | upstreamUnreachable e' v => exact refused_clean (by decide) (.inr hf)
  | _ => exact clean_nil

theorem unstreamedPosting_clean (hf : σ.allows f.model = true) :
    (unstreamedPosting rt σ w started now f u resp).Clean σ := by
  unfold unstreamedPosting
  cases payloadOf rt resp with
  | error e => exact refused_clean (by decide) (.inr hf)
  | ok payload =>
      dsimp only
      cases usageOf payload with
      | error e => exact clean_nil
      | ok usage =>
          refine answeredPosting_clean ⟨rfl, .inr hf, fun reason hr ↦ ?_⟩
          change (if resp.statusCode < 400 then none else some "upstream_error") = some reason at hr
          split at hr
          · cases hr
          · cases hr
            decide

theorem streamedPosting_clean {relay : Relay} (hf : σ.allows f.model = true) :
    (streamedPosting rt σ w started now f u resp relay).Clean σ := by
  refine answeredPosting_clean ⟨rfl, .inr hf, fun reason hr ↦ ?_⟩
  change (if relay.broken then some "upstream_stream_broken" else none) = some reason at hr
  split at hr
  · cases hr
    decide
  · cases hr

theorem retryPosting_clean {retry : Retry} (hf : σ.allows f.model = true) :
    (retryPosting rt σ w started now f retry).Clean σ := by
  cases retry with
  | returned u resp =>
      unfold retryPosting
      dsimp only
      split
      · exact clean_nil
      · exact unstreamedPosting_clean hf
  | raised e => exact escalatePosting_clean hf
  | _ => exact clean_nil

/-! ## Disclosure -/

/-- The body is an object whose model is neither none nor on the allowlist, and a line
about it can be written. -/
def disclosing (rt : Runtime) (σ : Settings) (p : Principal) (raw : Bytes) : Bool :=
  match parseBody rt σ raw with
  | .error _ => false
  | .ok body => match body.get (str "model") with
    | .none => false
    | model => !σ.allows model && traceable rt p model

theorem disclosing_iff {raw : Bytes} : disclosing rt σ p raw = true ↔
    ∃ body, parseBody rt σ raw = .ok body ∧ body.get (str "model") ≠ .none ∧
      σ.allows (body.get (str "model")) = false ∧ traceable rt p (body.get (str "model")) = true := by
  unfold disclosing
  cases hb : parseBody rt σ raw with
  | error e => simp
  | ok body =>
      simp only [Except.ok.injEq, exists_eq_left']
      split
      · rename_i hn
        simp [hn]
      · rename_i hn
        have hne : body.get (str "model") ≠ .none := hn
        simp [hne]

variable {raw : Bytes}

/-- Such a body is refused for the scope or for the model. -/
theorem validate_of_disclosing {q : QuotaTracker} (h : disclosing rt σ p raw = true) :
    ∃ statusCode reason model, validate rt σ p q raw = .error (.reject statusCode reason model) ∧
      model ≠ .none ∧ σ.allows model = false ∧ traceable rt p model = true := by
  obtain ⟨body, hbody, hne, hallows, htrace⟩ := disclosing_iff.mp h
  have hcheck : ∃ statusCode reason, checkModel σ p body =
      .error (.reject statusCode reason (body.get (str "model"))) := by
    unfold checkModel
    dsimp only
    split
    · exact ⟨_, _, rfl⟩
    · rw [hallows, if_pos Bool.false_ne_true]
      exact ⟨_, _, rfl⟩
  obtain ⟨statusCode, reason, hcheck⟩ := hcheck
  refine ⟨statusCode, reason, body.get (str "model"), ?_, hne, hallows, htrace⟩
  unfold validate
  rw [hbody]
  change checkModel σ p body >>= _ = _
  rw [hcheck]
  rfl

/-- What any other body is refused with is clean, if a line about it can be written. -/
theorem clean_of_not_disclosing {q : QuotaTracker} (h : disclosing rt σ p raw = false)
    (hv : validate rt σ p q raw = .error (.reject statusCode reason model))
    (ht : traceable rt p model = true) : model = .none ∨ σ.allows model = true := by
  rcases (validate_reject hv).2 with hn | ⟨body, hbody, rfl, hallows | -⟩
  · exact .inl hn
  · exact .inr hallows
  · by_contra hnot
    obtain ⟨hne, hallows⟩ := not_or.mp hnot
    have hd : disclosing rt σ p raw = true :=
      disclosing_iff.mpr ⟨body, hbody, hne, Bool.eq_false_iff.mpr hallows, ht⟩
    rw [h] at hd
    cases hd

theorem not_disclosing_of_validate {q : QuotaTracker} (hv : validate rt σ p q raw = .ok f) :
    disclosing rt σ p raw = false := by
  refine Bool.eq_false_iff.mpr fun hd ↦ ?_
  obtain ⟨_, _, _, hreject, -⟩ := validate_of_disclosing (q := q) hd
  rw [hv] at hreject
  cases hreject

/-- The step puts the text of a model into the file. -/
def discloses (rt : Runtime) (σ : Settings) (p : Principal) : Phase → Input → Bool
  | .body, .received raw => disclosing rt σ p raw
  | _, _ => false

theorem mem_lines {E : Posting} : r ∈ E.lines rt ↔ E.record = some r ∧ r.Writable rt := by
  unfold Posting.lines
  rw [Option.mem_toList, Option.filter_eq_some_iff, decide_eq_true_eq]

/-- A refusal is in the file if a line about its model can be written. -/
theorem refusal_writable :
    (refusal started now p statusCode reason model).Writable rt ↔ traceable rt p model = true := by
  have hkey : (refusal started now p statusCode reason model).keyid = p.keyid := rfl
  have hzero : Plain rt (.int 0) := plain_int 0
  have h := writable_iff hkey rfl hzero hzero
  rw [Bool.eq_iff_iff, decide_eq_true_eq, Bool.and_eq_true] at h
  exact h.trans (and_iff_left rfl)

theorem lines_clean {E : Posting} (h : E.Clean σ) : ∀ r ∈ E.lines rt, r.Clean σ :=
  fun r hr ↦ h r (mem_lines.mp hr).1

/-- The checks put a line with text into the file exactly if the body discloses. -/
theorem preparePosting_clean :
    (∀ r ∈ (preparePosting rt σ w started now p raw).lines rt, r.Clean σ) ↔
      disclosing rt σ p raw = false := by
  constructor
  · intro hclean
    refine Bool.eq_false_iff.mpr fun hd ↦ ?_
    obtain ⟨statusCode, reason, model, hv, hne, hallows, ht⟩ :=
      validate_of_disclosing (q := w.quota) hd
    have hposting : preparePosting rt σ w started now p raw =
        refused started now p statusCode reason model := by
      unfold preparePosting
      rw [hv]
    have hmem : refusal started now p statusCode reason model ∈
        (preparePosting rt σ w started now p raw).lines rt := by
      rw [hposting]
      exact mem_lines.mpr ⟨rfl, refusal_writable.mpr ht⟩
    rcases (hclean _ hmem).model with hn | ha
    · exact hne hn
    · change σ.allows model = true at ha
      rw [hallows] at ha
      cases ha
  · intro hd
    unfold preparePosting
    cases hv : validate rt σ p w.quota raw with
    | error s =>
        cases s with
        | crash e => exact lines_clean clean_nil
        | reject statusCode reason model =>
            intro r hr
            obtain ⟨hrecord, hwritable⟩ := mem_lines.mp hr
            cases hrecord
            have ht : traceable rt p model = true := refusal_writable.mp hwritable
            exact refused_clean (validate_reject hv).1 (clean_of_not_disclosing hd hv ht) _ rfl
    | ok f =>
        have hf : σ.allows f.model = true := (of_validate hv).model
        dsimp only
        split
        · split
          · rename_i ha
            exact lines_clean (refused_clean (acquire_reject ha) (.inr hf))
          · exact lines_clean clean_nil
        · exact lines_clean clean_nil

variable {phase : Phase} {x : Input} {m : World × Phase}

/-- The lines of a step are clean exactly if the step does not disclose, for a request
whose model has passed the allowlist. -/
theorem Moves.clean (h : Moves rt σ p started now w phase x m)
    (hallows : ∀ f, phase.forward? = some f → σ.allows f.model = true) :
    (∀ r ∈ (posting rt σ w started now p phase x).lines rt, r.Clean σ) ↔
      discloses rt σ p phase x = false := by
  cases h with
  | @refused raw w₁ e hp =>
      simp only [posting, hp]
      exact preparePosting_clean
  | @admitted raw w₁ f pool calls retry hp hstart =>
      have hv := (prepare_ok hp).checks
      simp only [posting, hp]
      exact iff_of_true (lines_clean (retryPosting_clean (of_validate hv).model))
        (not_disclosing_of_validate hv)
  | @called f retry retry' x pool calls hr =>
      simp only [posting, hr]
      exact iff_of_true (lines_clean (retryPosting_clean (hallows f rfl))) rfl
  | @drainClosed f u resp pending =>
      refine iff_of_true (lines_clean ?_) rfl
      cases pending with
      | some g => exact clean_nil
      | none => exact refused_clean (by decide) (.inr (hallows f rfl))
  | @drainFailed f u resp pending g =>
      refine iff_of_true (lines_clean ?_) rfl
      cases pending <;> exact clean_nil
  | @relayed f u resp relay relay' x calls hpoint hr =>
      rw [posting_relaying hpoint]
      refine iff_of_true (lines_clean ?_) rfl
      rintro r ⟨⟩
  | @finished f u resp relay pending hpoint =>
      simp only [posting, hpoint]
      exact iff_of_true (lines_clean (streamedPosting_clean (hallows f rfl))) rfl
  | @closeFailed f u resp relay pending g hpoint =>
      rw [posting_closeFailed hpoint]
      exact iff_of_true (lines_clean clean_nil) rfl
  | _ => exact iff_of_true (lines_clean clean_nil) rfl

end Lines

/-! ## All requests -/

namespace System

variable {rt : Runtime} {σ : Settings} {s s' : System} {e : Event} {es : List Event}

/-- The step puts the text of a model into the file. -/
def discloses (rt : Runtime) (σ : Settings) (s : System) : Event → Bool
  | .resume i x _ => s.requests[i]?.any fun r ↦ InferenceGateway.discloses rt σ r.principal r.phase x
  | _ => false

/-- Every line is clean. -/
def Clean (σ : Settings) (s : System) : Prop := ∀ r ∈ s.world.audit, r.Clean σ

/-- What has been handed to the pool names a model of the allowlist. -/
def Listed (σ : Settings) (s : System) : Prop :=
  ∀ r ∈ s.requests, ∀ f, r.phase.forward? = some f → σ.allows f.model = true

theorem Listed.step (hl : Listed σ s) (h : Moves rt σ s e s') : Listed σ s' := by
  cases h with
  | arrive p now =>
      intro r hr f hf
      rcases List.mem_append.mp hr with hr | hr
      · exact hl r hr f hf
      · obtain rfl := List.mem_singleton.mp hr
        cases hf
  | @resume i x now r m hr hm =>
      intro r' hr' f hf
      rcases List.mem_or_eq_of_mem_set hr' with hr' | rfl
      · exact hl r' hr' f hf
      · rcases hm.forward hf with hold | ⟨raw, w', -, -, hp⟩
        · exact hl r (List.mem_of_getElem? hr) f hold
        · exact (prepare_ok hp).validated.model
  | poll now _ => exact hl
  | scraped result now _ => exact hl
  | tick now _ => exact hl
  | probed ok now _ => exact hl

/-- After a step the file is clean if it was before, and the step does not disclose. -/
theorem clean_step (hl : Listed σ s) (h : Moves rt σ s e s') :
    Clean σ s' ↔ Clean σ s ∧ ¬discloses rt σ s e = true := by
  cases h with
  | arrive p now => exact (and_iff_left Bool.false_ne_true).symm
  | @resume i x now r m hr hm =>
      have hlines := hm.clean (hl r (List.mem_of_getElem? hr))
      have haudit := hm.writes.lines
      have hd : discloses rt σ s (.resume i x now) =
          InferenceGateway.discloses rt σ r.principal r.phase x := by
        simp [discloses, hr]
      rw [hd, Bool.not_eq_true, ← hlines]
      change (∀ l ∈ m.1.audit, l.Clean σ) ↔ _
      rw [haudit]
      simp only [List.mem_append, or_imp, forall_and]
      rfl
  | poll now _ => exact (and_iff_left Bool.false_ne_true).symm
  | scraped result now _ => exact (and_iff_left Bool.false_ne_true).symm
  | tick now _ => exact (and_iff_left Bool.false_ne_true).symm
  | probed ok now _ => exact (and_iff_left Bool.false_ne_true).symm

/-- After a run the file is clean if it was before, and no step on the way discloses. -/
theorem clean_run (hr : Runs rt σ s es s') (hl : Listed σ s) :
    Clean σ s' ↔ Clean σ s ∧
      ¬Passes (Steps (step rt σ)) (fun s e ↦ discloses rt σ s e = true) s es s' := by
  induction hr with
  | nil s => exact (and_iff_left Passes.not_nil).symm
  | @cons s t u e es hs hr ih =>
      have hmoves := moves_of_step hs
      rw [ih (hl.step hmoves), clean_step hl hmoves, and_assoc]
      refine and_congr_right fun _ ↦ ?_
      rw [← not_or]
      refine not_congr ⟨?_, fun h ↦ h.of_cons hs⟩
      rintro (hd | hp)
      · exact .head hs hr hd
      · exact .of_append (.single hs) hp

/-- In every run, the file is free of the text of callers if and only if no step of the run
takes in a body that is an object whose model is neither none nor on the allowlist.  And
then, in any two such runs, the lines of requests of one caller that came to the same
decision, with the same status and token counts, are the same up to timestamp and
latency. -/
theorem audit_clean_iff (rt : Runtime) (σ : Settings) (urls : List Str) (h : urls ≠ [])
    (es : List Event) (s : System) (hr : Runs rt σ (System.start urls h) es s) :
    ((∀ r ∈ s.world.audit, r.Clean σ) ↔
      ¬Passes (Steps (step rt σ)) (fun s e ↦ discloses rt σ s e = true) (System.start urls h) es s) ∧
    ∀ (es' : List Event) (s' : System), Runs rt σ (System.start urls h) es' s' →
      ¬Passes (Steps (step rt σ)) (fun s e ↦ discloses rt σ s e = true) (System.start urls h) es s →
      ¬Passes (Steps (step rt σ)) (fun s e ↦ discloses rt σ s e = true) (System.start urls h) es' s' →
      ∀ r ∈ s.world.audit, ∀ r' ∈ s'.world.audit,
        r.caller = r'.caller → r.decision σ = r'.decision σ → r.status = r'.status →
        r.promptTokens = r'.promptTokens → r.completionTokens = r'.completionTokens →
        r.untimed = r'.untimed := by
  have hclean (es : List Event) (s : System) (hr : Runs rt σ (System.start urls h) es s) :
      Clean σ s ↔ ¬Passes (Steps (step rt σ)) (fun s e ↦ discloses rt σ s e = true)
        (System.start urls h) es s := by
    have hl : Listed σ (System.start urls h) := fun r hr ↦ by cases hr
    have hstart : Clean σ (System.start urls h) := fun r hr ↦ by cases hr
    exact (clean_run hr hl).trans (and_iff_right hstart)
  constructor
  · exact hclean es s hr
  · intro es' s' hr' hp hp' r hmem r' hmem' hcaller hdecision hstatus hprompt hcompletion
    have hc : r.Clean σ := (hclean es s hr).mpr hp r hmem
    have hc' : r'.Clean σ := (hclean es' s' hr').mpr hp' r' hmem'
    exact hc.untimed_eq hc' hcaller hdecision hstatus hprompt hcompletion

/-- A request that is answered, its prompt being this text. -/
def promptedEvents (prompt : String) : List Event :=
  [.arrive samplePrincipal 0,
    .resume 0 (.received (bytes "\x7b\"model\": \"Qwen/Qwen3-8B-AWQ\", \"messages\": [\x7b\"content\": \"" ++
      bytes prompt ++ bytes "\"\x7d]\x7d")) 0,
    .resume 0 (.responded { statusCode := 200, content := bytes "\x7b\x7d" }) 1]

/-- Two requests with different prompts. -/
theorem audit_clean_iff_prompted : ∃ s s', Runs .sample .default sampleSystem (promptedEvents "hi") s ∧
    Runs .sample .default sampleSystem (promptedEvents "my account") s' ∧
    (∀ r ∈ s.world.audit, r.Clean .default) ∧
    ∀ r ∈ s.world.audit, ∀ r' ∈ s'.world.audit,
      r.caller = r'.caller → r.decision .default = r'.decision .default → r.status = r'.status →
      r.promptTokens = r'.promptTokens → r.completionTokens = r'.completionTokens →
      r.untimed = r'.untimed := by
  obtain ⟨s, hs, -⟩ := Run.exists_of_execWhile (step .sample .default)
    (fun s e ↦ !discloses .sample .default s e) sampleSystem (promptedEvents "hi")
    (fun s ↦ s.world.audit.length == 1) (by decide +kernel)
  obtain ⟨s', hs', -⟩ := Run.exists_of_execWhile (step .sample .default)
    (fun s e ↦ !discloses .sample .default s e) sampleSystem (promptedEvents "my account")
    (fun s ↦ s.world.audit.length == 1) (by decide +kernel)
  have hguard (es : List Event) (s : System)
      (h : Run (Guarded (Steps (step .sample .default)) fun s e ↦ !discloses .sample .default s e)
        sampleSystem es s) :
      Run (Guarded (Steps (step .sample .default)) fun s e ↦ ¬discloses .sample .default s e = true)
        sampleSystem es s :=
    h.mono fun hs ↦ ⟨hs.1, by simpa using hs.2⟩
  have hp := (hguard _ s hs).not_passes
  have hp' := (hguard _ s' hs').not_passes
  obtain ⟨hclean, hsame⟩ := audit_clean_iff .sample .default [sampleUrl] (List.cons_ne_nil _ _)
    (promptedEvents "hi") s hs.of_guarded
  exact ⟨s, s', hs.of_guarded, hs'.of_guarded, hclean.mpr hp,
    hsame (promptedEvents "my account") s' hs'.of_guarded hp hp'⟩

/-- A caller who sends the prompt as the name of the model: it is refused, and the text is in
the file. -/
theorem prompt_in_audit : ∃ s, Runs .sample .default sampleSystem
      [.arrive samplePrincipal 0,
        .resume 0 (.received (bytes "\x7b\"model\": \"my account is 12\"\x7d")) 0] s ∧
    ∃ r ∈ s.world.audit, r.model = .str (str "my account is 12") ∧ ¬r.Clean .default := by
  obtain ⟨s, hr, hs⟩ := Run.exists_of_exec (step .sample .default) sampleSystem
    [.arrive samplePrincipal 0,
      .resume 0 (.received (bytes "\x7b\"model\": \"my account is 12\"\x7d")) 0]
    (fun s ↦ s.world.audit.any fun r ↦ match r.model with
      | .str t => t == str "my account is 12"
      | _ => false) (by decide +kernel)
  obtain ⟨r, hmem, hr'⟩ := List.any_eq_true.mp hs
  have hmodel : r.model = .str (str "my account is 12") := by
    split at hr'
    · rename_i t ht
      rw [ht, beq_iff_eq.mp hr']
    · cases hr'
  refine ⟨s, hr, r, hmem, hmodel, fun hc ↦ ?_⟩
  rcases hc.model with hn | ha
  · rw [hmodel] at hn
    cases hn
  · rw [hmodel] at ha
    exact absurd ha (by decide)

end System

end InferenceGateway
