import Mathlib.Algebra.Order.Floor.Ring
import InferenceGateway.Routes.Relay
import InferenceGateway.Routes.Validate

/-!
# `chat_completions` and `_stream`

`gateway/routes/chat.py`, as a machine that is suspended wherever the source
awaits.  `advance` is the code from one of these points to the next; it finds the
shared state as whatever ran in between has left it.

The slot of a request changes hands on the way, and so the release is written in
three places: the `finally` of `chat_completions` and the `except Exception` of
`_stream` (both in `leaveCall`; the unstreamed return in `settle`), and the
`finally` of the generator (`finishStream`).
-/

namespace InferenceGateway

open Py

/-! ## Suspension points -/

/-- How a request ended. -/
inductive Ended where
  /-- The handler returned this payload. -/
  | returned (payload : Value)
  /-- This exception left the handler. -/
  | raised (e : Exn)
  /-- The generator of the response ran to its end, raising what was pending. -/
  | streamed (pending : Option Fault)
  /-- This exception left the generator from inside its `finally`. -/
  | streamFailed (e : Exn)
  /-- The generator was never started, and so never will run its `finally`. -/
  | abandoned

/-- Where a request is suspended, or how it ended. -/
inductive Phase where
  /-- In `await request.body()`. -/
  | body
  /-- In `pool.request` or `pool.open_stream`. -/
  | calling (f : Forward) (retry : Retry)
  /-- In the loop of `_drain_error`, after this many bytes. -/
  | draining (f : Forward) (upstream : Str) (resp : Response) (seen : ℕ)
  /-- In the `finally` of `_drain_error`, with the exception on its way. -/
  | drainClosing (f : Forward) (upstream : Str) (resp : Response) (pending : Option Fault)
  /-- The response is handed back, and its generator not started yet. -/
  | responding (f : Forward) (upstream : Str) (resp : Response)
  /-- In the generator. -/
  | relaying (f : Forward) (upstream : Str) (resp : Response) (relay : Relay)
  | ended (how : Ended)

/-- `_MAX_ERROR_BODY_BYTES`. -/
def maxErrorBodyBytes : ℕ := 64 * 1024

/-- What `_stream` does to the body: usage is asked for, unless the caller said no. -/
def forceUsage (body : Fields) : Fields :=
  let body : Fields := Dict.setDefault body (str "stream_options") (.dict [])
  let options : Fields := match Fields.get body (str "stream_options") with
    | .dict options => options
    | _ => []
  Dict.set body (str "stream_options")
    (.dict (Dict.setDefault options (str "include_usage") (.bool true)))

/-- The body the pool is handed. -/
def Forward.forwarded (f : Forward) : Fields := if f.streaming then forceUsage f.body else f.body

section Segments

variable (rt : Runtime) (σ : Settings) (w : World) (f : Forward) (started now : ℚ)

/-! ## Leaving the call of the pool by an exception -/

/-- The two `except` clauses of `chat_completions`. -/
def escalate (e : Exn) : World × Exn :=
  match e with
  | .allReplicasOpen retryAfter =>
    w.reject rt 503 "all_replicas_open" f.principal f.model started now
      [("Retry-After", toString (max 1 ⌈retryAfter⌉))]
  | .upstreamUnreachable _ _ =>
    w.reject rt 502 "upstream_unreachable" f.principal f.model started now []
  | e => (w, e)

/-- An exception out of the call.  Streaming, `except Exception` of `_stream` comes
first and releases the slot; otherwise the `finally` of `chat_completions` does,
after the `except` clauses. -/
def leaveCall (e : Exn) : World × Phase :=
  if f.streaming then
    let w := if e.isException then w.releaseSlot f.releaseKeyid else w
    let (w, e) := escalate rt w f started now e
    (w, .ended (.raised e))
  else
    let (w, e) := escalate rt w f started now e
    (w.releaseSlot f.releaseKeyid, .ended (.raised e))

/-! ## The unstreamed response -/

/-- `resp.json() if resp.status_code < 400 else {}`. -/
def payloadOf (resp : Response) : Except Exc Value :=
  if resp.statusCode < 400 then Json.loads rt.loadsDepth resp.content else .ok (.dict [])

/-- `payload.get("usage") or {}`, and that it has the method `get` too. -/
def usageOf (payload : Value) : Except Exc Fields := do
  let usage ← payload.getAttrD (str "usage") .none
  if usage.truthy then
    match usage with
    | .dict usage => .ok usage
    | _ => .error .attributeError
  else .ok []

/-- The audit record of an unstreamed request. -/
def unstreamedRecord (upstream : Str) (resp : Response) (usage : Fields) : AuditRecord where
  timestamp := now
  event := "chat.completions"
  keyid := f.principal.keyid
  subject := f.principal.subject
  authMethod := f.principal.method
  model := f.model
  status := resp.statusCode
  latencyMs := (now - started) * 1000
  promptTokens := usage.getD (str "prompt_tokens") (.int 0)
  completionTokens := usage.getD (str "completion_tokens") (.int 0)
  upstream := some upstream
  reason := if resp.statusCode < 400 then none else some "upstream_error"
  streamed := false

/-- The handler after its `finally`. -/
def finishUnstreamed (upstream : Str) (resp : Response) : World × Ended :=
  match payloadOf rt resp with
  | .error _ =>
    let (w, e) := w.reject rt 502 "upstream_bad_response" f.principal f.model started now []
    (w, .raised e)
  | .ok payload => match usageOf payload with
    | .error e => (w, .raised (.builtin e))
    | .ok usage => match w.recordUsage rt σ f.model usage f.principal.keyid with
      | (w, .error e) => (w, .raised (.builtin e))
      | (w, .ok _) =>
        match auditWrite rt w.audit (unstreamedRecord f started now upstream resp usage) with
        | .error e => (w, .raised (.builtin e))
        | .ok audit =>
          let w := { w with audit }
          if 400 ≤ resp.statusCode then (w, .raised (.http resp.statusCode "upstream error" []))
          else (w, .returned payload)

/-! ## The streamed response -/

/-- `v or 0`. -/
def orZero (v : Value) : Value := if v.truthy then v else .int 0

/-- The audit record of a streamed request. -/
def streamedRecord (upstream : Str) (resp : Response) (relay : Relay) : AuditRecord where
  timestamp := now
  event := "chat.completions"
  keyid := f.principal.keyid
  subject := f.principal.subject
  authMethod := f.principal.method
  model := f.model
  status := resp.statusCode
  latencyMs := (now - started) * 1000
  promptTokens := orZero (relay.usage.getD (str "prompt_tokens") (.int 0))
  completionTokens := orZero (relay.usage.getD (str "completion_tokens") (.int 0))
  upstream := some upstream
  reason := if relay.broken then some "upstream_stream_broken" else none
  streamed := true

/-- The `finally` of the generator, once `resp.aclose()` has returned. -/
def finishStream (upstream : Str) (resp : Response) (relay : Relay) (pending : Option Fault) :
    World × Ended :=
  let w := w.releaseSlot f.releaseKeyid
  match w.recordUsage rt σ f.model relay.usage f.principal.keyid with
  | (w, .error e) => (w, .streamFailed (.builtin e))
  | (w, .ok _) =>
    match auditWrite rt w.audit (streamedRecord f started now upstream resp relay) with
    | .error e => (w, .streamFailed (.builtin e))
    | .ok audit => ({ w with audit }, .streamed pending)

/-! ## The machine -/

/-- From the call of the pool on, given where that call stands. -/
def settle (retry : Retry) : World × Phase :=
  match retry with
  | .returned upstream resp =>
    if f.streaming then
      if 400 ≤ resp.statusCode then (w, .draining f upstream resp 0)
      else (w, .responding f upstream resp)
    else
      let (w, how) := finishUnstreamed rt σ (w.releaseSlot f.releaseKeyid) f started now upstream resp
      (w, .ended how)
  | .raised e => leaveCall rt w f started now e
  | retry => (w, .calling f retry)

/-- A segment of the retry loop, and what follows it. -/
def afterRetry (s : UpstreamPool × List MetricCall × Retry) : World × Phase :=
  settle rt σ { w with pool := s.1, metrics := w.metrics ++ s.2.1 } f started now s.2.2

/-- The first segment: the checks, and the head of the retry loop. -/
def receive (p : Principal) (raw : Bytes) : World × Phase :=
  match prepare rt σ p w raw started now with
  | (w, .error e) => (w, .ended (.raised e))
  | (w, .ok f) =>
    afterRetry rt σ w f started now
      (Retry.start rt σ MAX_ATTEMPTS f.streaming w.pool f.forwarded 0 none now)

/-- `_stream`, once `_drain_error` has returned or raised. -/
def leaveDrain (resp : Response) (pending : Option Fault) : World × Phase :=
  match pending with
  | some g => leaveCall rt w f started now (.fault g)
  | none =>
    let (w, e) := w.reject rt resp.statusCode "upstream_error" f.principal f.model started now []
    leaveCall rt w f started now e

end Segments

/-- The route, from one suspension to the next. -/
def advance (rt : Runtime) (σ : Settings) (p : Principal) (started : ℚ) (w : World)
    (phase : Phase) (x : Input) (now : ℚ) : Option (World × Phase) :=
  match phase, x with
  | .body, .received raw => some (receive rt σ w started now p raw)
  | .body, .raised g => some (w, .ended (.raised (.fault g)))
  | .calling f retry, x =>
    (retry.resume rt σ MAX_ATTEMPTS f.streaming w.pool f.forwarded x now).map
      (afterRetry rt σ w f started now)
  | .draining f u resp seen, .chunk b =>
    if maxErrorBodyBytes ≤ seen + b.length then some (w, .drainClosing f u resp none)
    else some (w, .draining f u resp (seen + b.length))
  | .draining f u resp _, .eof => some (w, .drainClosing f u resp none)
  | .draining f u resp _, .raised g =>
    some (w, .drainClosing f u resp (if g.isException then none else some g))
  | .drainClosing f _ resp pending, .done => some (leaveDrain rt w f started now resp pending)
  | .drainClosing f _ _ _, .raised g => some (leaveCall rt w f started now (.fault g))
  | .responding f u resp, .next => some (w, .relaying f u resp {})
  | .responding _ _ _, .dropped => some (w, .ended .abandoned)
  | .relaying f u resp relay, x => match relay.point, x with
    | .closing pending, .done =>
      let (w, how) := finishStream rt σ w f started now u resp relay pending
      some (w, .ended how)
    | .closing _, .raised g => some (w, .ended (.streamFailed (.fault g)))
    | _, x => (relay.resume rt σ f.model x).map fun s ↦
      ({ w with metrics := w.metrics ++ s.1 }, .relaying f u resp s.2)
  | _, _ => none

/-! ## Requests -/

/-- A request: who makes it, when it came in, and where it is.  The three totals are
not read by any code: how many slots it was granted, how many it gave back, and
how many audit records it has left. -/
structure Request where
  principal : Principal
  started : ℚ
  phase : Phase := .body
  acquires : ℕ := 0
  releases : ℕ := 0
  records : ℕ := 0

/-- The request after a step in the state `w` that ended in `m`. -/
def Request.moved (r : Request) (w : World) (m : World × Phase) : Request :=
  { r with
    phase := m.2
    acquires := r.acquires + (m.1.acquired - w.acquired)
    releases := r.releases + (m.1.released - w.released)
    records := r.records + (m.1.audit.length - w.audit.length) }

/-- A request resumed in the shared state. -/
def Request.resume (rt : Runtime) (σ : Settings) (w : World) (r : Request) (x : Input) (now : ℚ) :
    Option (World × Request) :=
  (advance rt σ r.principal r.started w r.phase x now).map fun m ↦ (m.1, r.moved w m)

end InferenceGateway
