import InferenceGateway.Upstream.Breaker
import InferenceGateway.Metrics

/-!
# The upstream pool

`gateway/upstream/client.py`: the choice of a replica, the classification of what
an attempt ended in, and the retry loop.

`_with_retry` awaits three things: the attempt itself, the closing of a response
it discards, and the pause before the next attempt.  `Retry` says where it is
suspended, or how it ended; `Retry.resume` is the code from one of these points
to the next.  Between two of them other requests and the prober may change the
pool, so every segment takes the pool as it finds it.
-/

namespace InferenceGateway

open Py

/-- What the gateway reads of an `httpx.Response`.  The body of a streamed response
is not part of it: it arrives later, chunk by chunk. -/
structure Response where
  statusCode : Nat
  retryAfter : Option Str := none
  content : Bytes := []
  deriving DecidableEq

/-- The response of an attempt, or the exception it raised. -/
abbrev Outcome := Except Exn Response

/-- `classify` of an exception. -/
def classifyExc : Exn → FailureKind
  | .fault (.httpx .readTimeout) => .readTimeout
  | _ => .connect

/-- `classify` of a status. -/
def classifyStatus (statusCode : Nat) : Option FailureKind :=
  if statusCode = 429 then some .throttled
  else if 500 ≤ statusCode then some .serverError
  else if 400 ≤ statusCode then some .clientError
  else none

/-- `classify`: `none` for a success. -/
def classify : Outcome → Option FailureKind
  | .error e => some (classifyExc e)
  | .ok r => classifyStatus r.statusCode

/-- `_RETRYABLE_STATUS`. -/
def retryableStatus : List Nat := [429, 502, 503, 504]

/-- `_should_retry`. -/
def shouldRetry : Outcome → Bool
  | .error e => classifyExc e = .connect
  | .ok r => r.statusCode ∈ retryableStatus

/-- `MAX_ATTEMPTS`. -/
def MAX_ATTEMPTS : ℕ := 2

/-! ## The pool -/

/-- `UpstreamPool`, with the breakers of its registry by URL.  The list of replicas
is never empty: `set_urls` refuses an empty one. -/
structure UpstreamPool where
  urls : List Str
  urls_ne_nil : urls ≠ []
  next : ℕ
  breakers : Dict Str ReplicaBreaker

namespace UpstreamPool

/-- `BreakerRegistry.reset`. -/
def resetBreakers (urls : List Str) : Dict Str ReplicaBreaker :=
  urls.foldl (fun d url ↦ d.set url { url }) []

/-- `set_urls`; `none` for the `ValueError`. -/
def setUrls (urls : List Str) : Option UpstreamPool :=
  if h : urls = [] then none else some ⟨urls, h, 0, resetBreakers urls⟩

/-- `BreakerRegistry.get`. -/
def breaker (p : UpstreamPool) (url : Str) : ReplicaBreaker :=
  (p.breakers.lookup url).getD { url }

/-- Replace the breaker of a replica: the registry holds mutable objects. -/
def setBreaker (p : UpstreamPool) (url : Str) (b : ReplicaBreaker) : UpstreamPool :=
  { p with breakers := p.breakers.set url b }

/-- The least of the waits of all replicas. -/
def minWait (p : UpstreamPool) (σ : Settings) (now : ℚ) : ℚ :=
  match p.urls.map fun u ↦ (p.breaker u).secondsUntilProbe now with
  | [] => σ.breakerOpenSec
  | w :: ws => ws.foldl min w

/-- The replicas `pick` chooses from: closed and not excluded, or just closed. -/
def candidates (p : UpstreamPool) (exclude : Option Str) : List Str :=
  let closed := p.urls.filter fun u ↦ (p.breaker u).allows
  match closed.filter fun u ↦ some u ≠ exclude with
  | [] => closed
  | cs => cs

/-- `pick`. -/
def pick (p : UpstreamPool) (σ : Settings) (exclude : Option Str) (now : ℚ) :
    Except Exn Str × UpstreamPool :=
  if ¬σ.breakerEnabled then
    let next := (p.next + 1) % p.urls.length
    (.ok (p.urls.getD next []), { p with next })
  else
    match p.candidates exclude with
    | [] => (.error (.allReplicasOpen (p.minWait σ now)), p)
    | c :: cs =>
      let next := (p.next + 1) % (c :: cs).length
      (.ok ((c :: cs).getD next c), { p with next })

/-- `record`: fold the outcome of an attempt into the breaker of its replica. -/
def record (p : UpstreamPool) (url : Str) (outcome : Outcome) (now : ℚ) : UpstreamPool :=
  match classify outcome with
  | none => p.setBreaker url (p.breaker url).recordSuccess
  | some kind => p.setBreaker url ((p.breaker url).recordFailure kind now)

/-- `_label`: a replica is labelled by its index. -/
def label (p : UpstreamPool) (url : Str) : String :=
  match p.urls.idxOf? url with
  | some i => toString i
  | none => "unknown"

/-- The outcome label of `upstream_requests_total`. -/
def outcomeLabel : Outcome → String
  | .error _ => "unreachable"
  | .ok r => if r.statusCode < 400 then "ok" else "http_error"

end UpstreamPool

/-! ## The retry loop -/

/-- Where a call of `_with_retry` is suspended, or how it ended. -/
inductive Retry where
  /-- Awaiting the attempt. -/
  | sending (attempt : ℕ) (upstream : Str)
  /-- Awaiting `outcome.aclose()` of a streamed response that is discarded. -/
  | discarding (attempt : ℕ) (upstream : Str) (response : Response)
  /-- Awaiting the pause before the next attempt. -/
  | sleeping (attempt : ℕ) (upstream : Str) (outcome : Outcome)
  /-- The call returned. -/
  | returned (upstream : Str) (response : Response)
  /-- The call raised. -/
  | raised (e : Exn)

/-- What the event loop can resume a suspended request with. -/
inductive Input where
  /-- The request body. -/
  | received (raw : Bytes)
  /-- The response of an attempt. -/
  | responded (r : Response)
  /-- The awaited operation raised. -/
  | raised (f : Fault)
  /-- `aclose` or `sleep` returned. -/
  | done
  /-- The next chunk of a streamed body. -/
  | chunk (b : Bytes)
  /-- The end of a streamed body. -/
  | eof
  /-- The consumer of the response asks for its next part. -/
  | next
  /-- The consumer drops a response it never asked anything of. -/
  | dropped
  deriving DecidableEq

namespace Retry

variable (rt : Runtime) (σ : Settings) (maxAttempts : ℕ) (stream : Bool)

/-- The rest of an iteration, once `_send_and_record` has returned. -/
def afterAttempt (attempt : ℕ) (upstream : Str) (outcome : Outcome) : Retry :=
  match outcome with
  | .ok r =>
    if r.statusCode < 400 then .returned upstream r
    else if maxAttempts ≤ attempt + 1 ∨ ¬shouldRetry outcome then .returned upstream r
    else if stream then .discarding attempt upstream r
    else .sleeping attempt upstream outcome
  | .error e =>
    if maxAttempts ≤ attempt + 1 ∨ ¬shouldRetry outcome then
      .raised (.upstreamUnreachable e upstream)
    else .sleeping attempt upstream outcome

/-- `_send_and_record` after the attempt: breaker, metric, then the loop goes on. -/
def recorded (p : UpstreamPool) (attempt : ℕ) (upstream : Str) (outcome : Outcome) (now : ℚ) :
    UpstreamPool × List MetricCall × Retry :=
  (p.record upstream outcome now,
    [.upstreamRequest (p.label upstream) (UpstreamPool.outcomeLabel outcome)],
    afterAttempt maxAttempts stream attempt upstream outcome)

/-- The head of an iteration: pick, then start the attempt.  Encoding the body is the
first thing both ways of sending do, before anything is awaited. -/
def start (p : UpstreamPool) (body : Fields) (attempt : ℕ) (exclude : Option Str) (now : ℚ) :
    UpstreamPool × List MetricCall × Retry :=
  match p.pick σ exclude now with
  | (.error e, p) => (p, [], .raised e)
  | (.ok upstream, p) => match rt.encodeJson (.dict body) with
    | .error e => recorded maxAttempts stream p attempt upstream (.error (.builtin e)) now
    | .ok _ => (p, [], .sending attempt upstream)

/-- `_with_retry` from one `await` to the next. -/
def resume (p : UpstreamPool) (body : Fields) (r : Retry) (x : Input) (now : ℚ) :
    Option (UpstreamPool × List MetricCall × Retry) :=
  match r, x with
  | .sending a u, .responded resp => some (recorded maxAttempts stream p a u (.ok resp) now)
  | .sending a u, .raised f =>
    if f.isException then some (recorded maxAttempts stream p a u (.error (.fault f)) now)
    else some (p, [], .raised (.fault f))
  | .discarding a u resp, .done => some (p, [], .sleeping a u (.ok resp))
  | .discarding _ _ _, .raised f => some (p, [], .raised (.fault f))
  | .sleeping a u _, .done => some (start rt σ maxAttempts stream p body (a + 1) (some u) now)
  | .sleeping _ _ _, .raised f => some (p, [], .raised (.fault f))
  | _, _ => none

end Retry

end InferenceGateway
