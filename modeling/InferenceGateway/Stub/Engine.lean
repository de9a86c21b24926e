import InferenceGateway.Python.Float
import InferenceGateway.Python.Semaphore
import InferenceGateway.Stub.Server
import InferenceGateway.Transition.Run

/-!
# The stub at work

`stub/server.py` with many requests at once: the semaphore that admits them, the gauges and the counter
behind its `/metrics`, and the switches of `/control`.  The code between two awaits is one step.  What
is said in an answer is the matter of `Stub.Server`; here only its length counts.

The web server may cancel a request wherever it is suspended, and what a stream is sent to may break
off, which closes its generator.  A request that is cancelled in `acquire` goes on in two steps: its
future is cancelled, and later the exception is raised.
-/

namespace InferenceGateway.Stub

open Asyncio Py Transition

/-! ## State -/

/-- The arguments of `main` that end up in the state. -/
structure Args where
  think : Bool := false
  latency : Double := .finite 0
  failAfter : Option ℤ := none
  control : Bool := false
  /-- `time.time() + args.stub_fail_seconds`. -/
  failUntil : Option Double := none
  failMode : Str := str "chat"
  failStatus : ℤ := 503
  failFirstN : ℤ := 0
  wedge : Bool := false
  maxConcurrent : ℤ := 0

/-- `StubState`. -/
structure StubState where
  think : Bool
  latency : Double
  failAfter : Option ℤ
  requests : ℕ := 0
  running : ℤ := 0
  waiting : ℤ := 0
  generatedTokens : ℤ := 0
  wedge : Bool
  failUntil : Option Double
  controlEnabled : Bool
  failMode : Str
  failStatus : ℤ
  failFirstN : ℤ
  maxConcurrent : ℤ
  sem : Option (Semaphore ℕ) := none

/-- `Control`. -/
structure Control where
  fail : Option Bool := none
  failStatus : Option ℤ := none
  failMode : Option Str := none
  latency : Option Double := none
  wedge : Option Bool := none

/-- A request that will be answered. -/
structure Job where
  body : Fields
  completion : Completion

/-- Where the generator of a stream is suspended. -/
inductive Stage where
  | unstarted
  /-- At the `yield` of a word, or of the frame before the first. -/
  | word
  /-- In the sleep before a word. -/
  | asleep
  /-- At the `yield` of the frame that says `stop`. -/
  | stop
  /-- At the `yield` of the usage. -/
  | usage
  /-- At the `yield` of `[DONE]`. -/
  | last
  deriving DecidableEq

/-- The generator is inside its `try`. -/
def Stage.isOpen : Stage → Bool
  | .word | .asleep | .stop => true
  | .unstarted | .usage | .last => false

/-- How a request has ended. -/
inductive Ending where
  /-- With an error, before it was counted anywhere. -/
  | refused
  | answered (tokens : ℕ)
  /-- A stream that is over, for whatever reason, after this many words. -/
  | streamed (words : ℕ)
  /-- By an exception while it waited. -/
  | abandoned
  /-- By an exception after that. -/
  | failed
  deriving DecidableEq

/-- A chat request. -/
inductive Call where
  /-- In `await asyncio.Event().wait()`. -/
  | wedged
  /-- In `acquire`. -/
  | queued (job : Job)
  /-- In the sleep inside `async with state.sem`. -/
  | holding (job : Job)
  /-- In `_stream`, with `sent` of its words sent. -/
  | streaming (words : ℕ) (usage : Bool) (sent : ℕ) (stage : Stage)
  | ended (how : Ending)

namespace StubState

/-- The state that `main` starts the server with. -/
def boot (args : Args) : StubState where
  think := args.think
  latency := args.latency
  failAfter := args.failAfter
  wedge := args.wedge
  failUntil := args.failUntil
  controlEnabled := args.control
  failMode := args.failMode
  failStatus := args.failStatus
  failFirstN := args.failFirstN
  maxConcurrent := args.maxConcurrent

/-- `self.max_concurrent or 1024`. -/
def capacity (s : StubState) : ℤ := if s.maxConcurrent = 0 then 1024 else s.maxConcurrent

/-- The property `sem`; `none` for the `ValueError` of a negative value. -/
def sem? (s : StubState) : Option (Semaphore ℕ) := match s.sem with
  | some sem => some sem
  | none => if s.capacity < 0 then none else some { value := s.capacity.toNat }

/-- `_should_fail`. -/
def shouldFail (s : StubState) (now : Double) : Bool × StubState :=
  let healed := s.failUntil.any fun t ↦ t.le now
  let s := if healed then { s with failAfter := none, failUntil := none } else s
  ((s.failAfter.any fun n ↦ n < (s.requests : ℤ)) || (0 < s.failFirstN && s.requests ≤ s.failFirstN), s)

/-- `control`. -/
def control (s : StubState) (c : Control) : StubState :=
  if !s.controlEnabled then s
  else { s with
    failAfter := match c.fail with
      | some fail => if fail then some 0 else none
      | none => s.failAfter
    failUntil := if c.fail.isSome then none else s.failUntil
    failStatus := c.failStatus.getD s.failStatus
    failMode := c.failMode.getD s.failMode
    latency := c.latency.getD s.latency
    wedge := c.wedge.getD s.wedge }

/-- What `health` and `list_models` do to the state. -/
def status (s : StubState) (now : Double) : StubState :=
  if s.failMode = str "all" then (s.shouldFail now).2 else s

/-- `state.waiting += 1`. -/
def wait (s : StubState) : StubState := { s with waiting := s.waiting + 1 }

/-- A method of the semaphore has been called. -/
def withSem (s : StubState) (sem : Semaphore ℕ) : StubState := { s with sem := some sem }

/-- From the end of `async with state.sem` to the return. -/
def leave (s : StubState) (job : Job) : StubState × Call :=
  let s := { s with running := s.running - 1, sem := s.sem.map Semaphore.release }
  let tokens := job.completion.completionTokens
  if (Fields.get job.body (str "stream")).truthy then
    match includeUsage job.body with
    | .error _ => (s, .ended .failed)
    | .ok usage => (s, .streaming tokens usage 0 .unstarted)
  else ({ s with generatedTokens := s.generatedTokens + tokens }, .ended (.answered tokens))

/-- `async with state.sem`, once `acquire` has returned. -/
def enter (s : StubState) (job : Job) : StubState × Call :=
  let s := { s with waiting := s.waiting - 1, running := s.running + 1 }
  if s.latency.truthy then (s, .holding job) else s.leave job

section Arrive

variable (rt : Runtime) (F : FloatRepr) (sha256 : Bytes → Bytes)

/-- `chat_completions`, up to where it first waits; `i` is the task it runs in. -/
def arrive (s : StubState) (i : ℕ) (body : Value) (now : Double) : StubState × Call :=
  let s := { s with requests := s.requests + 1 }
  let (fails, s) := s.shouldFail now
  if fails then (s, .ended .refused)
  else match body with
  | .dict body =>
    if !(Fields.get body (str "messages")).truthy then (s, .ended .refused)
    else if s.wedge then (s.wait, .wedged)
    else match complete rt F sha256 s.think body with
    | .error _ => (s, .ended .refused)
    | .ok completion =>
      let s := s.wait
      match s.sem? with
      | none => (s, .ended .abandoned)
      | some sem => match sem.acquire? with
        | some sem => (s.withSem sem).enter ⟨body, completion⟩
        | none => (s.withSem (sem.wait i), .queued ⟨body, completion⟩)
  | _ => (s, .ended .refused)

end Arrive

/-- The next part of `_stream`. -/
def advance (s : StubState) (words : ℕ) (usage : Bool) (sent : ℕ) : Stage → StubState × Call
  | .unstarted => ({ s with running := s.running + 1 }, .streaming words usage sent .word)
  | .word =>
    if words ≤ sent then (s, .streaming words usage sent .stop)
    else if s.latency.truthy then (s, .streaming words usage sent .asleep)
    else ({ s with generatedTokens := s.generatedTokens + 1 },
      .streaming words usage (sent + 1) .word)
  | .asleep =>
    ({ s with generatedTokens := s.generatedTokens + 1 }, .streaming words usage (sent + 1) .word)
  | .stop =>
    ({ s with running := s.running - 1 }, .streaming words usage sent (if usage then .usage else .last))
  | .usage => (s, .streaming words usage sent .last)
  | .last => (s, .ended (.streamed sent))

/-- A request goes on. -/
def resume (s : StubState) (i : ℕ) : Call → Option (StubState × Call)
  | .queued job => do
    let sem ← s.sem
    if sem.fut? i = some .done then some ((s.withSem (sem.resumed i)).enter job) else none
  | .holding job => some (s.leave job)
  | .streaming words usage sent stage => some (s.advance words usage sent stage)
  | .wedged | .ended _ => none

/-- `CancelledError`, or `GeneratorExit`, is raised where a request is suspended. -/
def raised (s : StubState) (i : ℕ) : Call → Option (StubState × Call)
  | .wedged => some (s, .ended .abandoned)
  | .queued _ => do
    let sem ← s.sem
    if sem.fut? i = some .done ∨ sem.fut? i = some .cancelled then
      some (s.withSem (sem.cancelled i), .ended .abandoned)
    else none
  | .holding _ =>
    some ({ s with running := s.running - 1, sem := s.sem.map Semaphore.release }, .ended .failed)
  | .streaming _ _ sent stage =>
    let running := if stage.isOpen then s.running - 1 else s.running
    some ({ s with running }, .ended (.streamed sent))
  | .ended _ => none

end StubState

/-- The server and its chat requests. -/
structure Engine where
  state : StubState
  calls : List Call := []

/-- What can happen next. -/
inductive Event where
  /-- A chat request has come in, with this body. -/
  | chat (body : Value) (now : Double)
  /-- A request goes on. -/
  | resumed (i : ℕ)
  /-- A request in `acquire` is cancelled: first its future is. -/
  | cancel (i : ℕ)
  /-- An exception is raised where a request is suspended. -/
  | raised (i : ℕ)
  /-- `POST /control`. -/
  | control (c : Control)
  /-- `GET /health` or `GET /v1/models`. -/
  | status (now : Double)

namespace Engine

variable (rt : Runtime) (F : FloatRepr) (sha256 : Bytes → Bytes)

/-- The server right after its start. -/
def boot (args : Args) : Engine := { state := .boot args }

/-- One step; `none` if the event cannot happen now. -/
def step (e : Engine) : Event → Option Engine
  | .chat body now =>
    let (state, call) := e.state.arrive rt F sha256 e.calls.length body now
    some { state, calls := e.calls ++ [call] }
  | .resumed i => do
    let call ← e.calls[i]?
    let (state, call) ← e.state.resume i call
    return { state, calls := e.calls.set i call }
  | .cancel i => do
    let sem ← e.state.sem
    if sem.fut? i = some .pending then
      return { e with state := e.state.withSem (sem.cancel i) }
    else none
  | .raised i => do
    let call ← e.calls[i]?
    let (state, call) ← e.state.raised i call
    return { state, calls := e.calls.set i call }
  | .control c => some { e with state := e.state.control c }
  | .status now => some { e with state := e.state.status now }

/-- A run of the server. -/
abbrev Runs : Engine → List Event → Engine → Prop := Run (Steps (step rt F sha256))

end Engine

end InferenceGateway.Stub
