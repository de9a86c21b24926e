import InferenceGateway.Python.Json
import InferenceGateway.World

/-!
# `chat_completions`, up to the forwarding call

`gateway/routes/chat.py`, from the request body to the call of the pool.  The
checks only read the shared state; each of them ends in going on, in
`raise _reject(...)`, or in an exception nobody meant to raise.  `Stop` records
which, and `prepare` carries it out and takes the concurrency slot.
-/

namespace InferenceGateway

open Py

/-- Why the checks stop. -/
inductive Stop where
  /-- `raise _reject(status, reason, principal, model, started)`. -/
  | reject (statusCode : Nat) (reason : String) (model : Value)
  /-- Another exception, out of an operation on the caller's values. -/
  | crash (e : Exc)

/-- What is settled when the pool is called. -/
structure Forward where
  principal : Principal
  body : Fields
  model : Value
  streaming : Bool
  /-- The key whose slot this request holds. -/
  releaseKeyid : Option Str := none

/-- `_estimate_prompt_tokens`. -/
def estimatePromptTokens (rt : Runtime) : List Value → Except Exc ℕ
  | [] => .ok 0
  | m :: ms => do
    let content ← m.getAttrD (str "content") (.str [])
    let text ← rt.printer.text rt.strDepth content
    let rest ← estimatePromptTokens rt ms
    return (words text).length + rest

section Checks

variable (rt : Runtime) (σ : Settings) (p : Principal)

/-- The size limit, `await request.json()`, and the type of the body. -/
def parseBody (raw : Bytes) : Except Stop Fields :=
  if σ.maxBodyBytes < raw.length then .error (.reject 413 "body_too_large" .none)
  else match Json.loads rt.loadsDepth raw with
    | .error _ => .error (.reject 400 "invalid_json" .none)
    | .ok (.dict body) => .ok body
    | .ok _ => .error (.reject 400 "invalid_body" .none)

/-- The scope, then the model allowlist. -/
def checkModel (body : Fields) : Except Stop Value :=
  let model := body.get (str "model")
  if ¬p.hasScope (str "chat") then .error (.reject 403 "scope_denied" model)
  else if ¬σ.allows model then .error (.reject 400 "model_not_allowed" model)
  else .ok model

/-- The messages and their estimated length. -/
def checkMessages (body : Fields) (model : Value) : Except Stop Unit :=
  match body.get (str "messages") with
  | .list (m :: ms) => match estimatePromptTokens rt (m :: ms) with
    | .error e => .error (.crash e)
    | .ok n =>
      if σ.maxPromptTokens < n then .error (.reject 400 "prompt_too_long" model) else .ok ()
  | _ => .error (.reject 400 "messages_required" model)

/-- The ceiling on `max_tokens`: the rewritten body.  Only `TypeError` and
`ValueError` are caught around `int(requested)`. -/
def clampMaxTokens (body : Fields) (model : Value) : Except Stop Fields :=
  match body.get (str "max_tokens") with
  | .none => .ok (Dict.set body (str "max_tokens") (.int σ.maxCompletionTokens))
  | requested => match requested.toInt with
    | .error e =>
      if e = .typeError || e.isValueError then .error (.reject 400 "max_tokens_invalid" model)
      else .error (.crash e)
    | .ok wanted =>
      if wanted < 1 then .error (.reject 400 "max_tokens_invalid" model)
      else .ok (Dict.set body (str "max_tokens") (.int (min wanted σ.maxCompletionTokens)))

/-- The token budget of an API key. -/
def checkTokenBudget (q : QuotaTracker) (model : Value) : Except Stop Unit :=
  match p.keyid, p.tokenBudget with
  | some keyid, some budget => match q.checkBudget keyid budget with
    | .error reason => .error (.reject 429 reason model)
    | .ok _ => .ok ()
  | _, _ => .ok ()

/-- The checks, in the order of the source. -/
def validate (q : QuotaTracker) (raw : Bytes) : Except Stop Forward := do
  let body ← parseBody rt σ raw
  let model ← checkModel σ p body
  checkMessages rt σ body model
  let body ← clampMaxTokens σ body model
  checkTokenBudget p q model
  return { principal := p, body, model, streaming := (body.get (str "stream")).truthy }

/-- Everything before the forwarding call: the request to forward, or the exception
that leaves the handler. -/
def prepare (w : World) (raw : Bytes) (started now : ℚ) : World × Except Exn Forward :=
  match validate rt σ p w.quota raw with
  | .error (.crash e) => (w, .error (.builtin e))
  | .error (.reject statusCode reason model) =>
    let (w, e) := w.reject rt statusCode reason p model started now []
    (w, .error e)
  | .ok f =>
    match p.keyid, p.maxConcurrency with
    | some keyid, some cap => match w.quota.acquire keyid cap with
      | .error reason =>
        let (w, e) := w.reject rt 429 reason p f.model started now []
        (w, .error e)
      | .ok quota =>
        ({ w with quota, acquired := w.acquired + 1 }, .ok { f with releaseKeyid := some keyid })
    | _, _ => (w, .ok f)

end Checks

/-! ## What the checks let through -/

variable {rt : Runtime} {σ : Settings} {p : Principal} {q : QuotaTracker} {w : World} {raw : Bytes}
  {f : Forward} {started now : ℚ}

/-- The body has the right size and is a JSON object. -/
theorem parseBody_ok_iff {raw : Bytes} {body : Fields} :
    parseBody rt σ raw = .ok body ↔
      (raw.length : ℤ) ≤ σ.maxBodyBytes ∧ Json.loads rt.loadsDepth raw = .ok (.dict body) := by
  unfold parseBody
  split
  · rename_i h
    simp [not_le.mpr h]
  · rename_i h
    rw [and_iff_right (not_lt.mp h)]
    split
    · rename_i e he
      simp [he]
    · rename_i b hb
      simp [hb]
    · rename_i v hne hv
      rw [hv]
      refine ⟨fun h ↦ (by cases h), fun h ↦ ?_⟩
      exact absurd (Except.ok.inj h) (hne body)

/-- The caller has the scope, and the model is on the allowlist. -/
theorem checkModel_ok_iff {body : Fields} {model : Value} :
    checkModel σ p body = .ok model ↔
      p.hasScope (str "chat") ∧ σ.allows (body.get (str "model")) ∧ body.get (str "model") = model := by
  unfold checkModel
  dsimp only
  split
  · rename_i h
    simp [h]
  · split
    · rename_i h
      simp [h]
    · rename_i hs ha
      simp only [not_not] at hs ha
      simp [hs, ha]

/-- There are messages, and their estimated length is within the limit. -/
theorem checkMessages_ok_iff {body : Fields} {model : Value} :
    checkMessages rt σ body model = .ok () ↔
      ∃ m ms n, body.get (str "messages") = .list (m :: ms) ∧
        estimatePromptTokens rt (m :: ms) = .ok n ∧ (n : ℤ) ≤ σ.maxPromptTokens := by
  unfold checkMessages
  split
  · rename_i m ms hb
    split
    · rename_i e he
      simp only [hb, Value.list.injEq, List.cons.injEq, reduceCtorEq, false_iff]
      rintro ⟨_, _, n, ⟨rfl, rfl⟩, hn, -⟩
      rw [he] at hn
      cases hn
    · rename_i n hn
      have : (∃ m' ms' k, body.get (str "messages") = .list (m' :: ms') ∧
          estimatePromptTokens rt (m' :: ms') = .ok k ∧ (k : ℤ) ≤ σ.maxPromptTokens) ↔
          (n : ℤ) ≤ σ.maxPromptTokens := by
        constructor
        · rintro ⟨m', ms', k, hb', hk, hle⟩
          rw [hb] at hb'
          cases hb'
          rw [hn] at hk
          cases hk
          exact hle
        · exact fun hle ↦ ⟨m, ms, n, hb, hn, hle⟩
      rw [this]
      split
      · rename_i h
        simp [not_le.mpr h]
      · rename_i h
        simp [not_lt.mp h]
  · rename_i hne
    simp only [reduceCtorEq, false_iff]
    rintro ⟨m, ms, -, hb, -⟩
    exact hne m ms hb

/-- The ceiling on `max_tokens` replaces that field by an `int`. -/
theorem clampMaxTokens_ok {body body' : Fields} {model : Value}
    (h : clampMaxTokens σ body model = .ok body') :
    ∃ n, body' = Dict.set body (str "max_tokens") (.int n) := by
  unfold clampMaxTokens at h
  split at h
  · exact ⟨_, (Except.ok.inj h).symm⟩
  · split at h
    · split at h <;> cases h
    · split at h
      · cases h
      · exact ⟨_, (Except.ok.inj h).symm⟩

/-- A key with a budget has not used it up. -/
theorem checkTokenBudget_ok {model : Value} {k : Str} {budget : ℤ}
    (h : checkTokenBudget p q model = .ok ()) (hk : p.keyid = some k)
    (hb : p.tokenBudget = some budget) : ¬(q.tokensUsed k).ge (.int budget) := by
  unfold checkTokenBudget at h
  rw [hk, hb] at h
  dsimp only at h
  split at h
  · cases h
  · rename_i hc
    exact QuotaTracker.checkBudget_ok.mp hc

/-- What holds of a request the checks let through. -/
structure Validated (rt : Runtime) (σ : Settings) (p : Principal) (q : QuotaTracker) (raw : Bytes)
    (f : Forward) : Prop where
  principal : f.principal = p
  releaseKeyid : f.releaseKeyid = none
  model : σ.allows f.model
  json : ∃ body n, Json.loads rt.loadsDepth raw = .ok (.dict body) ∧
    f.body = Dict.set body (str "max_tokens") (.int n)
  budget : ∀ k budget, p.keyid = some k → p.tokenBudget = some budget →
    ¬(q.tokensUsed k).ge (.int budget)

theorem of_validate (h : validate rt σ p q raw = .ok f) : Validated rt σ p q raw f := by
  unfold validate at h
  obtain ⟨body, hbody, h⟩ := of_bind_eq_ok h
  obtain ⟨model, hmodel, h⟩ := of_bind_eq_ok h
  obtain ⟨_, -, h⟩ := of_bind_eq_ok h
  obtain ⟨body', hclamp, h⟩ := of_bind_eq_ok h
  obtain ⟨_, hbudget, h⟩ := of_bind_eq_ok h
  obtain rfl := Except.ok.inj h
  obtain ⟨-, hallows, rfl⟩ := checkModel_ok_iff.mp hmodel
  obtain ⟨n, hn⟩ := clampMaxTokens_ok hclamp
  exact
    { principal := rfl
      releaseKeyid := rfl
      model := hallows
      json := ⟨body, n, (parseBody_ok_iff.mp hbody).2, hn⟩
      budget := fun _ _ hk hb ↦ checkTokenBudget_ok hbudget hk hb }

/-! ## What the checks refuse -/

variable (rt σ p raw) in
/-- How the checks refuse a request: the status, the reason and the model of the refusal, and what
was found out before. -/
inductive Refused : (statusCode : ℕ) → (reason : String) → (model : Value) → Prop where
  | bodyTooLarge : Refused 413 "body_too_large" .none
  | invalidJson : Refused 400 "invalid_json" .none
  | invalidBody : Refused 400 "invalid_body" .none
  | scopeDenied {body : Fields} (hbody : parseBody rt σ raw = .ok body)
      (hmodel : checkModel σ p body = .error (.reject 403 "scope_denied" (body.get (str "model")))) :
      Refused 403 "scope_denied" (body.get (str "model"))
  | modelNotAllowed {body : Fields} (hbody : parseBody rt σ raw = .ok body)
      (hmodel : checkModel σ p body =
        .error (.reject 400 "model_not_allowed" (body.get (str "model")))) :
      Refused 400 "model_not_allowed" (body.get (str "model"))
  | messagesRequired {body : Fields} (hbody : parseBody rt σ raw = .ok body)
      (hallows : σ.allows (body.get (str "model"))) :
      Refused 400 "messages_required" (body.get (str "model"))
  | promptTooLong {body : Fields} {m : Value} {ms : List Value} {n : ℕ}
      (hbody : parseBody rt σ raw = .ok body) (hallows : σ.allows (body.get (str "model")))
      (hmessages : body.get (str "messages") = .list (m :: ms))
      (hestimate : estimatePromptTokens rt (m :: ms) = .ok n) (hlong : σ.maxPromptTokens < n) :
      Refused 400 "prompt_too_long" (body.get (str "model"))
  | maxTokensInvalid {body : Fields} (hbody : parseBody rt σ raw = .ok body)
      (hallows : σ.allows (body.get (str "model"))) :
      Refused 400 "max_tokens_invalid" (body.get (str "model"))
  | tokenBudgetExceeded {body : Fields} (hbody : parseBody rt σ raw = .ok body)
      (hallows : σ.allows (body.get (str "model"))) :
      Refused 429 "token_budget_exceeded" (body.get (str "model"))

theorem refused_of_validate {statusCode : ℕ} {reason : String} {model : Value}
    (h : validate rt σ p q raw = .error (.reject statusCode reason model)) :
    Refused rt σ p raw statusCode reason model := by
  unfold validate at h
  rcases of_bind_eq_error h with h | ⟨body, hbody, h⟩
  · unfold parseBody at h
    split at h
    · cases h
      exact .bodyTooLarge
    · split at h
      · cases h
        exact .invalidJson
      · cases h
      · cases h
        exact .invalidBody
  rcases of_bind_eq_error h with h | ⟨model', hmodel, h⟩
  · have hcheck := h
    unfold checkModel at h
    dsimp only at h
    split at h
    · cases h
      exact .scopeDenied hbody hcheck
    · split at h
      · cases h
        exact .modelNotAllowed hbody hcheck
      · cases h
  obtain ⟨-, hallows, rfl⟩ := checkModel_ok_iff.mp hmodel
  rcases of_bind_eq_error h with h | ⟨_, -, h⟩
  · unfold checkMessages at h
    split at h
    · rename_i m ms hmessages
      split at h
      · cases h
      · rename_i n hn
        split at h
        · rename_i hlong
          cases h
          exact .promptTooLong hbody hallows hmessages hn hlong
        · cases h
    · cases h
      exact .messagesRequired hbody hallows
  rcases of_bind_eq_error h with h | ⟨_, -, h⟩
  · unfold clampMaxTokens at h
    split at h
    · cases h
    · split at h
      · split at h
        · cases h
          exact .maxTokensInvalid hbody hallows
        · cases h
      · split at h
        · cases h
          exact .maxTokensInvalid hbody hallows
        · cases h
  rcases of_bind_eq_error h with h | ⟨_, -, h⟩
  · unfold checkTokenBudget at h
    split at h
    · split at h
      · rename_i e he
        unfold QuotaTracker.checkBudget at he
        split at he
        · cases he
          cases h
          exact .tokenBudgetExceeded hbody hallows
        · cases he
      · cases h
    · cases h
  · cases h

/-- What the code before the forwarding call comes to: a refusal or a crash, which
only logs; a request to forward without a slot, for a caller without a cap; or a
request to forward with a slot, granted under the cap. -/
theorem prepare_cases (rt : Runtime) (σ : Settings) (p : Principal) (w : World) (raw : Bytes)
    (started now : ℚ) :
    (∃ metrics audit e,
      prepare rt σ p w raw started now = ({ w with metrics, audit }, .error e)) ∨
    (∃ f, validate rt σ p w.quota raw = .ok f ∧ (p.keyid = none ∨ p.maxConcurrency = none) ∧
      prepare rt σ p w raw started now = (w, .ok f)) ∨
    (∃ f k cap quota, validate rt σ p w.quota raw = .ok f ∧ p.keyid = some k ∧
      p.maxConcurrency = some cap ∧ w.quota.acquire k cap = .ok quota ∧
      prepare rt σ p w raw started now =
        ({ w with quota, acquired := w.acquired + 1 }, .ok { f with releaseKeyid := some k })) := by
  unfold prepare
  cases hv : validate rt σ p w.quota raw with
  | error s =>
      cases s with
      | crash e => exact .inl ⟨w.metrics, w.audit, _, rfl⟩
      | reject statusCode reason model =>
          obtain ⟨metrics, audit, h⟩ := World.reject_fst rt w statusCode reason p model started
            now []
          exact .inl ⟨metrics, audit, _, Prod.ext h rfl⟩
  | ok f =>
      cases hk : p.keyid with
      | none => exact .inr (.inl ⟨f, rfl, .inl rfl, rfl⟩)
      | some k =>
          cases hc : p.maxConcurrency with
          | none => exact .inr (.inl ⟨f, rfl, .inr rfl, rfl⟩)
          | some cap =>
              dsimp only
              cases ha : w.quota.acquire k cap with
              | ok quota => exact .inr (.inr ⟨f, k, cap, quota, rfl, rfl, rfl, ha, rfl⟩)
              | error reason =>
                  obtain ⟨metrics, audit, h⟩ := World.reject_fst rt w 429 reason p f.model
                    started now []
                  exact .inl ⟨metrics, audit, _, Prod.ext h rfl⟩

end InferenceGateway
