import InferenceGateway.Metrics
import InferenceGateway.Python.Json
import InferenceGateway.Python.Split
import InferenceGateway.Upstream.Client

/-!
# The relay of a streamed answer

`gateway/routes/chat.py`: `_parse_usage_frame`, and the body of the generator
`relay` of `_stream` up to its `finally`.

The generator is suspended while it waits for a chunk of the upstream, and at each
of its three `yield`s.  `Relay.resume` is the code between two such points.  At a
`yield` the consumer either asks for more or closes the generator, which is the
exception `GeneratorExit`.
-/

namespace InferenceGateway

open Py

/-! ## The observer -/

/-- `b"\n\n"`, which ends an event. -/
def eventEnd : Bytes := [10, 10]

theorem eventEnd_ne_nil : eventEnd ≠ [] := List.cons_ne_nil _ _

/-- `b"data:"`. -/
def dataField : Bytes := bytes "data:"

/-- `raw_event.split(b"\n")`. -/
def eventLines (event : Bytes) : List Bytes := event.splitOn 10

/-- The loop of `_parse_usage_frame` over the lines of an event. -/
def parseUsageLines (rt : Runtime) : List Bytes → Except Exc (Option Fields)
  | [] => .ok none
  | line :: lines =>
    if ¬dataField.isPrefixOf line then parseUsageLines rt lines
    else
      let text := stripBytes (line.drop dataField.length)
      if text = bytes "[DONE]" then .ok none
      else match Json.loads rt.loadsDepth text with
        -- `except ValueError`; a `RecursionError` is not one.
        | .error e => if e.isValueError then .ok none else .error e
        | .ok payload => match payload.getAttrD (str "usage") .none with
          | .error e => .error e
          | .ok (.dict usage) => .ok (some usage)
          | .ok _ => parseUsageLines rt lines

/-- `_parse_usage_frame`. -/
def parseUsageFrame (rt : Runtime) (event : Bytes) : Except Exc (Option Fields) :=
  parseUsageLines rt (eventLines event)

/-- `while b"\n\n" in buf`: the buffer and the usage object afterwards, and the
exception that ended the loop, if one did.  A buffer holds fewer events than
bytes, so its length is fuel enough. -/
def drainEvents (rt : Runtime) : ℕ → Bytes → Fields → Bytes × Fields × Option Exc
  | 0, buf, usage => (buf, usage, none)
  | n + 1, buf, usage => match cut? eventEnd buf with
    | none => (buf, usage, none)
    | some (event, buf) => match parseUsageFrame rt event with
      | .error e => (buf, usage, some e)
      | .ok none => drainEvents rt n buf usage
      | .ok (some parsed) => drainEvents rt n buf parsed

/-! ## The generator -/

/-- Where the generator is suspended. -/
inductive Relay.Point where
  /-- In `resp.aiter_raw()`. -/
  | reading
  /-- At `yield chunk`. -/
  | yielded
  /-- At the first or the last of the two `yield`s of the error frame. -/
  | yieldedError (last : Bool)
  /-- At `await resp.aclose()` in the `finally`, with the exception on its way. -/
  | closing (pending : Option Fault)
  deriving DecidableEq

/-- In the `finally`. -/
def Relay.Point.isClosing : Relay.Point → Bool
  | .closing _ => true
  | _ => false

/-- The local variables of `relay`, what it has yielded so far, and where it is. -/
structure Relay where
  firstByte : Bool := true
  broken : Bool := false
  usage : Fields := []
  buf : Bytes := []
  sent : List Bytes := []
  point : Relay.Point := .reading

namespace Relay

/-- The first part of the error frame. -/
def errorHead : Bytes := bytes "data: \x7b\"error\": \x7b\"message\": \"upstream stream failed\", "

/-- The last part of the error frame. -/
def errorTail : Bytes := bytes "\"type\": \"upstream_stream_broken\"\x7d\x7d\n\n"

variable (rt : Runtime) (σ : Settings) (model : Value)

/-- The metric of the first byte. -/
def firstByteSeen (r : Relay) (chunk : Bytes) : List MetricCall :=
  if r.firstByte && !chunk.isEmpty then [.timeToFirstToken (σ.safeModel model)] else []

/-- `except Exception`, up to its first `yield`. -/
def fail (r : Relay) : List MetricCall × Relay :=
  ([recordRejection "upstream_stream_broken"],
    { r with broken := true, sent := r.sent ++ [errorHead], point := .yieldedError false })

/-- The body of the loop over the chunks, up to its `yield`. -/
def onChunk (r : Relay) (chunk : Bytes) : List MetricCall × Relay :=
  let calls := r.firstByteSeen σ model chunk
  let buf := r.buf ++ chunk
  let r := { r with firstByte := r.firstByte && chunk.isEmpty }
  match drainEvents rt buf.length buf r.usage with
  | (buf, usage, none) =>
    (calls, { r with buf, usage, sent := r.sent ++ [chunk], point := .yielded })
  | (buf, usage, some _) =>
    let (failed, r) := { r with buf, usage }.fail
    (calls ++ failed, r)

/-- The generator, from one suspension to the next; `closing` is left by the code
of the `finally`. -/
def resume (r : Relay) (x : Input) : Option (List MetricCall × Relay) :=
  match r.point, x with
  | .reading, .chunk b => some (r.onChunk rt σ model b)
  | .reading, .eof => some ([], { r with point := .closing none })
  | .reading, .raised f =>
    if f.isException then some r.fail else some ([], { r with point := .closing (some f) })
  | .yielded, .next => some ([], { r with point := .reading })
  | .yieldedError false, .next =>
    some ([], { r with sent := r.sent ++ [errorTail], point := .yieldedError true })
  | .yieldedError true, .next => some ([], { r with point := .closing none })
  | .yielded, .raised .generatorExit | .yieldedError _, .raised .generatorExit =>
    some ([], { r with point := .closing (some .generatorExit) })
  | _, _ => none

end Relay

end InferenceGateway
