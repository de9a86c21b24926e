import InferenceGateway.Auth.Keys
import InferenceGateway.Main

/-!
# Requests from anyone, and the series they leave

`MetricsMiddleware` of `gateway/metrics.py` around the application that `create_app` builds,
`require_principal` of `gateway/auth/__init__.py`, and the gauges of
`gateway/upstream/metrics_scraper.py`.  The process of `Main` runs underneath: a request to
the chat route that is authenticated becomes one of its requests.

A series is there from the first call of `labels` with its label values, whatever is done
to it afterwards.  A histogram has one more label, the bound of a bucket, which is a
constant of the module.

The web framework is not part of the repository.  `Framework` is what the code relies on:
the route it leaves in the scope is one of the application, and its own answers have
three-digit statuses.
-/

namespace InferenceGateway

open Py Transition

/-! ## Series -/

/-- A series: its metric, without the namespace, and its label values in the order of the
declaration. -/
structure Series where
  metric : String
  labels : List Str
  deriving DecidableEq

/-- The series a call changes. -/
def MetricCall.series : MetricCall → Series
  | .rejection reason => ⟨"rejections_total", [str reason]⟩
  | .missingUsage model => ⟨"requests_missing_usage_total", [model]⟩
  | .tokens model kind _ => ⟨"tokens_total", [model, str kind]⟩
  | .upstreamRequest upstream outcome => ⟨"upstream_requests_total", [str upstream, str outcome]⟩
  | .timeToFirstToken model => ⟨"time_to_first_token_seconds", [model]⟩

/-- The metrics without labels. -/
def unlabelled : List Series := [⟨"inflight_requests", []⟩, ⟨"event_loop_lag_seconds", []⟩]

/-- `outcome_of`. -/
def outcomeOf (status : ℕ) : String :=
  if 500 ≤ status then "server_error" else if 400 ≤ status then "client_error" else "success"

/-! ## The application -/

/-- A route of the application: its path template, its method, and whether it depends on
`require_principal`. -/
structure Route where
  path : Str
  method : Str
  guarded : Bool
  deriving DecidableEq

namespace Route

def healthz : Route := ⟨str "/healthz", str "GET", false⟩
def readyz : Route := ⟨str "/readyz", str "GET", false⟩
def metrics : Route := ⟨str "/metrics", str "GET", false⟩
def models : Route := ⟨str "/v1/models", str "GET", true⟩
def chatCompletions : Route := ⟨str "/v1/chat/completions", str "POST", true⟩

end Route

/-- The routers `create_app` includes. -/
def ROUTES : List Route :=
  [.healthz, .readyz, .metrics, .models, .chatCompletions]

/-- The web framework, as far as the instrumentation depends on it. -/
structure Framework where
  /-- The route a path leads to, in `scope["route"]`. -/
  route : Str → Option Route
  route_mem : ∀ path r, route path = some r → r ∈ ROUTES
  /-- The status of what the framework answers itself: a path without a route, a method the
  route does not have, a redirect, a page of its own. -/
  own : (method path : Str) → ℕ
  own_status : ∀ method path, 100 ≤ own method path ∧ own method path ≤ 999

/-- Who a credential belongs to: the claims of a JWT, or the record of an API key. -/
inductive Caller where
  | jwt (sub : Str) (scopes : List Str)
  | apikey (record : ApiKeyRecord)

/-- What `require_principal` returns. -/
def Caller.principal : Caller → Principal
  | .jwt sub scopes => { subject := sub, scopes, method := "jwt" }
  | .apikey r =>
    { subject := str "key:" ++ r.keyid, scopes := r.scopes, method := "apikey"
      keyid := some r.keyid, tokenBudget := r.tokenBudget, maxConcurrency := r.maxConcurrency }

/-! ## Requests in the middleware -/

/-- A request in `MetricsMiddleware`: what its scope says, `status_holder`, and the request
of the chat route it has become. -/
structure Visit where
  method : Str
  path : Str
  authMethod : String := "none"
  status : ℕ := 500
  request : Option ℕ := none

/-- The status the response of a chat request starts with, once it does. -/
def Phase.sent? : Phase → Option ℕ
  | .responding _ _ _ | .relaying _ _ _ _ | .ended (.returned _) => some 200
  | .ended (.raised (.http statusCode _ _)) => some statusCode
  | _ => none

namespace Visit

variable (fw : Framework)

/-- The route whose function the request reaches. -/
def endpoint? (v : Visit) : Option Route := (fw.route v.path).filter fun r ↦ r.method = v.method

/-- The status of the response, if it is not one of a chat request. -/
def plainStatus (healthy : Bool) (v : Visit) : ℕ :=
  match v.endpoint? fw with
  | none => fw.own v.method v.path
  | some r =>
    if r.guarded && v.authMethod == "none" then 401
    else if r = .readyz && !healthy then 503
    else 200

/-- `route or "__unmatched__"`. -/
def routeLabel (v : Visit) : Str := match fw.route v.path with
  | some r => r.path
  | none => str "__unmatched__"

/-- `_record`. -/
def record (v : Visit) : List Series :=
  if v.routeLabel fw = str "/metrics" then []
  else [⟨"requests_total",
      [v.routeLabel fw, v.method, intText v.status, str v.authMethod]⟩,
    ⟨"request_duration_seconds", [v.routeLabel fw, str (outcomeOf v.status)]⟩]

end Visit

/-! ## Scrapes -/

/-- What a scrape comes to. -/
inductive Scrape where
  /-- An answer, and what `parse` makes of it. -/
  | answered (statusCode : ℕ) (snapshot : Snapshot)
  /-- An exception, with `Timeout` in the name of its type or not. -/
  | raised (timeout : Bool)

namespace Scrape

/-- The kind of the failure, if it is one. -/
def kind? : Scrape → Option String
  | .answered statusCode snapshot =>
    if 400 ≤ statusCode then some "http_status"
    else if snapshot.isEmpty then some "parse"
    else none
  | .raised timeout => some (if timeout then "timeout" else "connect")

/-- What the detector observes. -/
def snapshot? : Scrape → Option Snapshot
  | .answered statusCode snapshot =>
    if 400 ≤ statusCode || snapshot.isEmpty then none else some snapshot
  | .raised _ => none

/-- The gauges of `_poll_one` and `_fail`, for a replica with this label; the age is known
from the first success on. -/
def series (label : Str) (seen : Bool) (scrape : Scrape) : List Series :=
  match scrape.kind? with
  | none => [⟨"upstream_up", [label]⟩, ⟨"upstream_scrape_age_seconds", [label]⟩,
      ⟨"upstream_wedge_stall_seconds", [label]⟩, ⟨"upstream_wedge_suspected", [label]⟩]
  | some kind => [⟨"upstream_scrape_failures_total", [label, str kind]⟩, ⟨"upstream_up", [label]⟩] ++
      if seen then [⟨"upstream_scrape_age_seconds", [label]⟩] else []

end Scrape

/-! ## Refused amounts -/

section Usage

variable (rt : Runtime) (σ : Settings)

/-- The usage a step of a request hands to `_record_usage`, with the model. -/
def usage? (w : World) (phase : Phase) (x : Input) (now : ℚ) : Option (Value × Fields) :=
  match phase, x with
  | .calling f retry, x =>
    match retry.resume rt σ MAX_ATTEMPTS f.streaming w.pool f.forwarded x now with
    | some (_, _, .returned _ resp) =>
      if f.streaming then none
      else (payloadOf rt resp >>= usageOf).toOption.map fun usage ↦ (f.model, usage)
    | _ => none
  | .relaying f _ _ relay, .done => if relay.point.isClosing then some (f.model, relay.usage) else none
  | _, _ => none

/-- The series of `tokens_total` whose `inc` raises in `_record_usage`: by then `labels` has
made it. -/
def refusedTokens (model : Value) (usage : Fields) : List Series :=
  let refused (v : Value) : Bool := v.truthy && !(rt.counterInc v).isOk
  let prompt := usage.get (str "prompt_tokens")
  let completion := usage.get (str "completion_tokens")
  if refused prompt then [⟨"tokens_total", [σ.safeModel model, str "prompt"]⟩]
  else if refused completion then [⟨"tokens_total", [σ.safeModel model, str "completion"]⟩]
  else []

end Usage

/-! ## The gateway -/

/-- The process with its instrumentation. -/
structure Gateway where
  system : System
  /-- The requests in the middleware. -/
  visits : List Visit := []
  /-- The replicas with an entry in `_last_ok`. -/
  lastOk : List Str := []
  /-- The series the middleware and the scraper have made. -/
  made : List Series := []

/-- What can happen next. -/
inductive Traffic where
  /-- A request comes in. -/
  | enter (method path : Str)
  /-- `require_principal` returns. -/
  | authenticated (i : ℕ) (caller : Caller) (now : ℚ)
  /-- The response starts; `healthy` is what `pool.health` has found out. -/
  | answered (i : ℕ) (healthy : Bool)
  /-- The application returns, or raises an `Exception`. -/
  | left (i : ℕ) (raised : Bool)
  /-- A scrape ends. -/
  | scraped (scrape : Scrape) (now : ℚ)
  /-- A chat request goes on. -/
  | resumed (j : ℕ) (x : Input) (now : ℚ)
  /-- The scrape loop or the prober goes on. -/
  | background (e : Event)

namespace Gateway

variable (fw : Framework) (rt : Runtime) (σ : Settings)

/-- The process right after it has started. -/
def start (urls : List Str) (h : urls ≠ []) : Gateway := { system := .start urls h }

/-- Every series of the exposition. -/
def exposed (g : Gateway) : List Series :=
  unlabelled ++ g.made ++ g.system.world.metrics.map MetricCall.series

/-- `str(index)` of the replica being scraped, the replicas `left` coming after it. -/
def scrapeLabel (g : Gateway) (left : List Str) : Str :=
  str (toString (g.system.world.pool.urls.length - (left.length + 1)))

/-- One step of the gateway; `none` if the event cannot happen now. -/
def step (g : Gateway) : Traffic → Option Gateway
  | .enter method path => some { g with visits := g.visits ++ [{ method, path }] }
  | .authenticated i caller now => do
    let v ← g.visits[i]?
    let r ← (v.endpoint? fw).filter fun r ↦ r.guarded && v.authMethod == "none"
    let v := { v with authMethod := caller.principal.method }
    if r = .chatCompletions then
      let system ← g.system.step rt σ (.arrive caller.principal now)
      return { g with
        system
        visits := g.visits.set i { v with request := some g.system.requests.length } }
    else return { g with visits := g.visits.set i v }
  | .answered i healthy => do
    let v ← g.visits[i]?
    match v.request with
    | none => return { g with visits := g.visits.set i { v with status := v.plainStatus fw healthy } }
    | some j =>
      let r ← g.system.requests[j]?
      let status ← r.phase.sent?
      return { g with visits := g.visits.set i { v with status } }
  | .left i raised => do
    let v ← g.visits[i]?
    let v := if raised then { v with status := 500 } else v
    return { g with visits := g.visits.eraseIdx i, made := g.made ++ v.record fw }
  | .scraped scrape now => match g.system.scraper with
    | .asleep => none
    | .scraping _ url left => do
      let system ← g.system.step rt σ (.scraped scrape.snapshot? now)
      return { g with
        system
        lastOk := if scrape.kind?.isNone then url :: g.lastOk else g.lastOk
        made := g.made ++ scrape.series (g.scrapeLabel left) (g.lastOk.contains url) }
  | .resumed j x now => do
    let r ← g.system.requests[j]?
    let system ← g.system.step rt σ (.resume j x now)
    let refused := (usage? rt σ g.system.world r.phase x now).elim [] fun u ↦
      refusedTokens rt σ u.1 u.2
    return { g with system, made := g.made ++ refused }
  | .background e => match e with
    | .poll _ | .tick _ | .probed _ _ => (g.system.step rt σ e).map fun system ↦ { g with system }
    | _ => none

end Gateway

end InferenceGateway
