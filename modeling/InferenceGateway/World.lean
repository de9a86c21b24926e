import InferenceGateway.Auth
import InferenceGateway.Audit
import InferenceGateway.Metrics
import InferenceGateway.Quota
import InferenceGateway.Upstream.Client

/-!
# What the requests of a process share

The module-level singletons of the gateway: the upstream pool, the quota tracker,
the metrics registry and the audit file.  Beside them stand two totals that no
code reads, the successful calls of `quota.acquire` and the calls of
`quota.release` made so far; they are what "exactly one release" is about.

The operations here are the ones the chat route calls from several places, each
with the effects it has when it raises half way.
-/

namespace InferenceGateway

open Py

/-- The shared state. -/
structure World where
  pool : UpstreamPool
  quota : QuotaTracker := .empty
  metrics : List MetricCall := []
  audit : List AuditRecord := []
  acquired : ℕ := 0
  released : ℕ := 0

namespace World

variable (rt : Runtime) (σ : Settings) (w : World)

/-- `_reject`: the exception to raise, which is the `HTTPException` it returns unless
the audit writer raised. -/
def reject (statusCode : Nat) (reason : String) (p : Principal) (model : Value)
    (started now : ℚ) (headers : List (String × String)) : World × Exn :=
  let w := { w with metrics := w.metrics ++ [recordRejection reason] }
  let record : AuditRecord :=
    { timestamp := now
      event := "chat.completions"
      keyid := p.keyid
      subject := p.subject
      authMethod := p.method
      model
      status := statusCode
      latencyMs := (now - started) * 1000
      promptTokens := .int 0
      completionTokens := .int 0
      upstream := none
      reason := some reason
      streamed := false }
  match auditWrite rt w.audit record with
  | .ok audit => ({ w with audit }, .http statusCode reason headers)
  | .error e => (w, .builtin e)

/-- Refusing a request logs, and nothing else. -/
theorem reject_fst (statusCode : Nat) (reason : String) (p : Principal) (model : Value)
    (started now : ℚ) (headers : List (String × String)) : ∃ metrics audit,
    (w.reject rt statusCode reason p model started now headers).1 = { w with metrics, audit } := by
  unfold reject
  dsimp only
  split
  · exact ⟨_, _, rfl⟩
  · exact ⟨_, w.audit, rfl⟩

/-- The exception of `_reject`: only a model nested too deeply keeps it from being the
`HTTPException`. -/
theorem reject_snd (statusCode : Nat) (reason : String) (p : Principal) (model : Value)
    (started now : ℚ) (headers : List (String × String)) :
    (w.reject rt statusCode reason p model started now headers).2 =
      if model.depth ≤ rt.dumpsDepth then .http statusCode reason headers
      else .builtin .recursionError := by
  unfold reject auditWrite
  simp only [AuditRecord.depth, Value.depth, max_self, Nat.max_zero]
  by_cases h : model.depth ≤ rt.dumpsDepth
  · rw [if_neg (not_lt.mpr h), if_pos h]
    split <;> rename_i heq
    · rfl
    · split at heq <;> cases heq
  · rw [if_pos (not_le.mp h), if_neg h]

/-- `quota.release(release_keyid)` under `if release_keyid is not None`. -/
def releaseSlot (releaseKeyid : Option Str) : World :=
  match releaseKeyid with
  | some k => { w with quota := w.quota.release k, released := w.released + 1 }
  | none => w

/-- `if n: metrics.tokens_total.labels(model, kind).inc(n)`. -/
def incTokens (label : Str) (kind : String) (n : Value) : World × Except Exc Unit :=
  if n.truthy then
    match rt.counterInc n with
    | .ok _ => ({ w with metrics := w.metrics ++ [.tokens label kind n] }, .ok ())
    | .error e => (w, .error e)
  else (w, .ok ())

/-- `n or 0`, as a number: what is neither false nor a number never gets here, the
counter having refused it. -/
def orZero (n : Value) : Py.Num := if n.truthy then n.num?.getD (.int 0) else .int 0

theorem orZero_int (n : ℤ) : orZero (.int n) = .int n := by
  by_cases h : n = 0 <;> simp [orZero, Value.truthy, Value.num?, h]

/-- `quota.record_usage(keyid, (prompt or 0) + (completion or 0))` under
`if keyid is not None`. -/
def charge (keyid : Option Str) (prompt completion : Value) : World × Except Exc Unit :=
  match keyid with
  | none => (w, .ok ())
  | some k =>
    match (orZero prompt).add (orZero completion) >>= w.quota.recordUsage k with
    | .ok quota => ({ w with quota }, .ok ())
    | .error e => (w, .error e)

/-- `_record_usage`, on a usage object. -/
def recordUsage (model : Value) (usage : Fields) (keyid : Option Str) : World × Except Exc Unit :=
  let label := σ.safeModel model
  let prompt := usage.get (str "prompt_tokens")
  let completion := usage.get (str "completion_tokens")
  match prompt, completion with
  | .none, .none => ({ w with metrics := w.metrics ++ [.missingUsage label] }, .ok ())
  | prompt, completion =>
    match w.incTokens rt label "prompt" prompt with
    | (w, .error e) => (w, .error e)
    | (w, .ok _) => match w.incTokens rt label "completion" completion with
      | (w, .error e) => (w, .error e)
      | (w, .ok _) => w.charge keyid prompt completion

end World

end InferenceGateway
