import InferenceGateway.Python.Sorted
import InferenceGateway.Routes.Validate

/-!
# The stub server

`stub/server.py`: what the fake upstream answers, as a function of the request and of its switches.
The hash behind its filler is a parameter, and so are the time and the random bytes of an id.
-/

namespace InferenceGateway.Stub

open Py

/-- `STUB_MODEL`. -/
def STUB_MODEL : Str := str "Qwen/Qwen3-8B-AWQ"

/-- `_WORDS`. -/
def WORDS : List Str :=
  ["the", "asset", "portfolio", "position", "reported", "quarter", "value", "token", "supply",
    "investor", "compliance", "review", "figure", "record", "allocation", "yield", "treasury",
    "balance", "status", "summary"].map str

/-! ## The text -/

section Text

variable (rt : Runtime) (F : FloatRepr) (sha256 : Bytes → Bytes) (think : Bool)

/-- `text[0].upper() + text[1:] + "."`, the words being in lower case. -/
def sentence (text : Str) : Str := match text with
  | [] => str "."
  | c :: t => (if 97 ≤ c && c ≤ 122 then c - 32 else c) :: (t ++ str ".")

/-- The words that the bytes of a digest choose. -/
def chosen (digest : Bytes) (n : ℕ) : List Str := (List.range n).map fun i ↦
  WORDS.getD ((digest.getD (i % digest.length) 0).toNat % WORDS.length) []

/-- `_deterministic_text`. -/
def deterministicText (seed : Str) (tokens : ℤ) : Except Exc Str := do
  let digest := sha256 (← encodeUtf8 seed)
  return sentence ((str " ").intercalate (chosen digest (max 1 tokens).toNat))

/-- `_seed_of`. -/
def seedOf (body : Fields) : Except Exc Str :=
  let messages := body.getD (str "messages") (.list [])
  if rt.dumpsDepth < messages.depth then .error .recursionError
  else if !messages.writable then .error .valueError
  else .ok (Json.dumps F { ascii := false } messages.sorted)

/-- `_completion_text`. -/
def completionText (body : Fields) (tokens : ℤ) : Except Exc Str := do
  let text ← deterministicText sha256 (← seedOf rt F body) tokens
  if think then
    let thought ← deterministicText sha256 (str "think" ++ (← seedOf rt F body)) 40
    return str "<think>\n" ++ thought ++ str "\n</think>\n\n" ++ text
  else return text

/-- What a request is answered with, before it has a slot. -/
structure Completion where
  text : Str
  promptTokens : ℕ
  completionTokens : ℕ
  deriving DecidableEq

/-- `int(body.get("max_tokens") or 64)`. -/
def maxTokens (body : Fields) : Except Exc ℤ :=
  let requested := body.get (str "max_tokens")
  (if requested.truthy then requested else .int 64).toInt

/-- The text and the counts. -/
def complete (body : Fields) : Except Exc Completion := do
  let text ← completionText rt F sha256 think body (← maxTokens body)
  let promptTokens ← estimatePromptTokens rt (← (body.get (str "messages")).elements)
  return { text, promptTokens, completionTokens := (words text).length }

end Text

/-! ## The answer -/

/-- `usage`. -/
def Completion.usage (c : Completion) : Fields :=
  [(str "prompt_tokens", .int c.promptTokens),
    (str "completion_tokens", .int c.completionTokens),
    (str "total_tokens", .int (c.promptTokens + c.completionTokens))]

/-- `include_usage`, once `stream_options` has the method `get`. -/
def includeUsage (body : Fields) : Except Exc Bool := do
  let options := body.get (str "stream_options")
  let usage ← (if options.truthy then options else .dict []).getAttrD (str "include_usage") .none
  return usage.truthy

/-- What does not depend on the text: `f"chatcmpl-{uuid.uuid4().hex[:24]}"`, `int(time.time())` and
`body.get("model", STUB_MODEL)`. -/
structure Envelope where
  uuid : Bytes
  created : ℤ
  model : Value

namespace Envelope

variable (e : Envelope)

/-- `cid`. -/
def cid : Str := str "chatcmpl-" ++ (tokenHex e.uuid).take 24

/-- The items all payloads have. -/
def items (object : String) : Fields :=
  [(str "id", .str e.cid), (str "object", .str (str object)), (str "created", .int e.created),
    (str "model", e.model)]

/-- The payload of an unstreamed answer. -/
def payload (c : Completion) : Fields := e.items "chat.completion" ++
  [(str "choices", .list [.dict [(str "index", .int 0),
      (str "message", .dict [(str "role", .str (str "assistant")), (str "content", .str c.text)]),
      (str "finish_reason", .str (str "stop"))]]),
    (str "usage", .dict c.usage)]

/-- The payload of `frame`. -/
def delta (delta : Fields) (finish : Value) : Fields := e.items "chat.completion.chunk" ++
  [(str "choices", .list [.dict [(str "index", .int 0), (str "delta", .dict delta),
    (str "finish_reason", finish)]])]

/-- The payload of the last frame before `[DONE]`. -/
def final (usage : Fields) : Fields := e.items "chat.completion.chunk" ++
  [(str "choices", .list []), (str "usage", .dict usage)]

/-- The payloads of `_stream`, in the order they are sent. -/
def payloads (text : Str) (usage : Option Fields) : List Fields :=
  e.delta [(str "role", .str (str "assistant")), (str "content", .str [])] .none ::
    ((words text).map fun w ↦ e.delta [(str "content", .str (w ++ str " "))] .none) ++
    e.delta [] (.str (str "stop")) :: usage.toList.map e.final

end Envelope

variable (F : FloatRepr)

/-- `f"data: {json.dumps(payload, ensure_ascii=False)}"`. -/
def dataLine (payload : Fields) : Str :=
  str "data: " ++ Json.dumps F { ascii := false } (.dict payload)

/-- The events of `_stream`, without the blank line that ends each of them. -/
def events (e : Envelope) (text : Str) (usage : Option Fields) : List Str :=
  (e.payloads text usage).map (dataLine F) ++ [str "data: [DONE]"]

/-- The bytes of the stream. -/
def streamed (e : Envelope) (text : Str) (usage : Option Fields) : Bytes :=
  (events F e text usage).flatMap fun event ↦ utf8Bytes event ++ [10, 10]

/-- The bytes of an unstreamed answer, as the web framework renders them. -/
def rendered (e : Envelope) (c : Completion) : Bytes :=
  utf8Bytes (Json.dumps F { ascii := false, compact := true } (.dict (e.payload c)))

/-- `chat_completions`, once it has come to the text: the bytes of the answer to `body`. -/
def answer (rt : Runtime) (sha256 : Bytes → Bytes) (think : Bool) (e : Envelope) (body : Fields) :
    Except Exc Bytes := do
  let c ← complete rt F sha256 think body
  if (body.get (str "stream")).truthy then
    let asked ← includeUsage body
    return streamed F e c.text (if asked then some c.usage else none)
  else return rendered F e c

end InferenceGateway.Stub
