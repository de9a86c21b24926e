import InferenceGateway.Config

/-!
# Prometheus instrumentation

`gateway/metrics.py`.  A counter is written by `labels(...).inc(...)` and read only
by the scrape, so the state kept here is the log of those calls; the value of a
series is the sum of its entries.
-/

namespace InferenceGateway

open Py

/-- One call that changes a series. -/
inductive MetricCall where
  /-- `rejections_total.labels(reason).inc()`. -/
  | rejection (reason : String)
  /-- `requests_missing_usage_total.labels(model).inc()`. -/
  | missingUsage (model : Str)
  /-- `tokens_total.labels(model, kind).inc(amount)`. -/
  | tokens (model : Str) (kind : String) (amount : Value)
  /-- `upstream_requests_total.labels(upstream, outcome).inc()`. -/
  | upstreamRequest (upstream : String) (outcome : String)
  /-- `time_to_first_token_seconds.labels(model).observe(...)`. -/
  | timeToFirstToken (model : Str)

/-- `REJECT_REASONS`. -/
def rejectReasons : List String :=
  ["body_too_large", "invalid_json", "invalid_body", "scope_denied", "model_not_allowed",
    "messages_required", "prompt_too_long", "max_tokens_invalid", "upstream_unreachable",
    "upstream_error", "upstream_bad_response", "upstream_stream_broken", "all_replicas_open",
    "token_budget_exceeded", "concurrency_cap_exceeded"]

/-- `record_rejection`: an unknown reason is folded to `other`. -/
def recordRejection (reason : String) : MetricCall :=
  .rejection (if reason ∈ rejectReasons then reason else "other")

/-- `model in settings.ALLOWED_MODELS`, for a model that may be any JSON value. -/
def Settings.allows (σ : Settings) (model : Value) : Bool :=
  match model with
  | .str s => σ.allowedModels.contains s
  | _ => false

/-- `safe_model`: fold a model that is not on the allowlist to `other`. -/
def Settings.safeModel (σ : Settings) (model : Value) : Str :=
  match model with
  | .str s => if model.truthy && σ.allows model then s else str "other"
  | _ => str "other"

/-- A model on the allowlist is a string. -/
theorem depth_of_allows {σ : Settings} {model : Value} (h : σ.allows model) : model.depth = 0 := by
  cases model with
  | str s => rfl
  | _ => simp [Settings.allows] at h

end InferenceGateway
