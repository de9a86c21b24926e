import InferenceGateway.Python.Value

/-!
# Settings, runtime and exceptions

`Settings` holds the values of `gateway/config.py` that the modelled code reads.
`Runtime` stands for what runs that code and is not part of it: the interpreter's
limits and tables, and the two calls into third-party packages whose outcome
depends on a value a caller or an upstream chose.  What the code relies on there
are fields of the structure.

Times are exact rationals; code between two `await`s runs at one instant.
-/

namespace InferenceGateway

open Py

/-- The settings the modelled code reads. -/
structure Settings where
  breakerEnabled : Bool
  breakerOpenSec : ℚ
  upstreamWedgeWindowSec : ℚ
  allowedModels : List Str
  maxBodyBytes : ℤ
  maxCompletionTokens : ℤ
  maxPromptTokens : ℤ

/-- The defaults of `gateway/config.py`. -/
def Settings.default : Settings where
  breakerEnabled := true
  breakerOpenSec := 15
  upstreamWedgeWindowSec := 120
  allowedModels := [str "Qwen/Qwen3-8B-AWQ"]
  maxBodyBytes := 2 ^ 20
  maxCompletionTokens := 2048
  maxPromptTokens := 7000

/-! ## Runtime -/

/-- A number that converts to a `float`, which is what a metric adds up. -/
def Measurable (v : Value) : Prop :=
  match v with
  | .bool _ | .float _ => True
  | .int n => (Double.ofInt n).isSome
  | _ => False

/-- What the gateway runs on. -/
structure Runtime where
  /-- The tables behind `str`. -/
  printer : Printer
  /-- How deep a value `json.loads` builds. -/
  loadsDepth : Nat
  /-- How deep a value `str` renders. -/
  strDepth : Nat
  /-- How deep a value `dataclasses.asdict` and `json.dumps` walk. -/
  dumpsDepth : Nat
  two_le_dumpsDepth : 2 ≤ dumpsDepth
  /-- `Counter.inc(amount)` of `prometheus_client`: refuses what is not a non-negative
  number. -/
  counterInc : Value → Except Exc Unit
  counterInc_ok : ∀ v, counterInc v = .ok () → Measurable v
  /-- Encoding a request body in `httpx`, strict JSON in UTF-8. -/
  encodeJson : Value → Except Exc Unit
  encodeJson_ok : ∀ v, v.finite → v.encodable → v.depth ≤ dumpsDepth → encodeJson v = .ok ()

/-! ## Exceptions -/

/-- The exceptions of `httpx` the pool can meet. -/
inductive HttpxError where
  | connectError
  | connectTimeout
  | poolTimeout
  | unsupportedProtocol
  | readTimeout
  | readError
  | writeTimeout
  | writeError
  | closeError
  | localProtocolError
  | remoteProtocolError
  | decodingError
  | proxyError
  | tooManyRedirects
  deriving DecidableEq, Repr

/-- What an awaited operation outside the gateway's code can raise. -/
inductive Fault where
  /-- An `httpx` exception. -/
  | httpx (e : HttpxError)
  /-- Any other subclass of `Exception`. -/
  | other
  /-- `asyncio.CancelledError`: not an `Exception`. -/
  | cancelled
  /-- `GeneratorExit`, thrown into a generator that is closed: not an `Exception`. -/
  | generatorExit
  deriving DecidableEq, Repr

/-- The exceptions that travel through the gateway's code. -/
inductive Exn where
  | builtin (e : Exc)
  | fault (f : Fault)
  /-- `fastapi.HTTPException`. -/
  | http (statusCode : Nat) (detail : String) (headers : List (String × String))
  | allReplicasOpen (retryAfter : ℚ)
  | upstreamUnreachable (lastExc : Exn) (upstream : Str)

/-- `isinstance(e, Exception)`: caught by `except Exception`. -/
def Fault.isException : Fault → Bool
  | .httpx _ | .other => true
  | .cancelled | .generatorExit => false

/-- `isinstance(e, Exception)`: caught by `except Exception`. -/
def Exn.isException : Exn → Bool
  | .fault f => f.isException
  | _ => true

end InferenceGateway
