import InferenceGateway.Main

/-!
# A runtime to evaluate on

A runtime with small tables, which agrees with CPython on the inputs the concrete
runs of this development use: their strings are ASCII, and no double is printed.
-/

namespace InferenceGateway

open Py

/-- The text this table gives for every double. -/
def sampleFloatText : Str := str "0.0"

theorem sampleFloatText_not_space : ∀ c ∈ sampleFloatText, ¬isSpace c := by decide

/-- Printing for ASCII. -/
def samplePrinter : Printer where
  isPrintable c := 32 ≤ c && c < 127
  isPrintable_space := by
    intro c hs hp
    simp only [isSpace, Bool.and_eq_true, Bool.or_eq_true, decide_eq_true_eq, beq_iff_eq] at hs hp
    omega
  floatText _ := sampleFloatText
  floatText_ne_nil := fun _ ↦ by decide
  floatText_not_space := fun _ ↦ sampleFloatText_not_space

/-- `Counter.inc`: a negative amount is a `ValueError`, what is no number cannot be
compared with `0`, and an `int` past the range of a double overflows. -/
def sampleCounterInc : Value → Except Exc Unit
  | .bool _ => .ok ()
  | .int n =>
    if n < 0 then .error .valueError
    else if (Double.ofInt n).isNone then .error .overflowError
    else .ok ()
  | .float x => if x.lt (.finite 0) then .error .valueError else .ok ()
  | _ => .error .typeError

theorem measurable_of_sampleCounterInc (v : Value) (h : sampleCounterInc v = .ok ()) :
    Measurable v := by
  cases v with
  | bool b => trivial
  | float x => trivial
  | int n =>
      simp only [sampleCounterInc] at h
      split at h
      · cases h
      · split at h
        · cases h
        · rename_i hn
          exact Option.isSome_iff_ne_none.mpr (by simpa using hn)
  | none => cases h
  | str s => cases h
  | list xs => cases h
  | dict kvs => cases h

/-- Strict JSON in UTF-8, `limit` deep. -/
def sampleEncodeJson (limit : ℕ) (v : Value) : Except Exc Unit :=
  if limit < v.depth then .error .recursionError
  else if ¬v.finite then .error .valueError
  else if ¬v.encodable then .error .unicodeEncodeError
  else .ok ()

theorem sampleEncodeJson_ok (limit : ℕ) (v : Value) (hf : v.finite) (he : v.encodable)
    (hd : v.depth ≤ limit) : sampleEncodeJson limit v = .ok () := by
  simp [sampleEncodeJson, hf, he, not_lt.mpr hd]

/-- The runtime, with a recursion limit of 900. -/
def Runtime.sample : Runtime where
  printer := samplePrinter
  loadsDepth := 900
  strDepth := 900
  dumpsDepth := 900
  two_le_dumpsDepth := by decide
  counterInc := sampleCounterInc
  counterInc_ok := measurable_of_sampleCounterInc
  encodeJson := sampleEncodeJson 900
  encodeJson_ok := sampleEncodeJson_ok 900

/-! ## Values for concrete runs -/

/-- A replica. -/
def sampleUrl : Str := str "http://vllm:8000/v1"

/-- The key id of `samplePrincipal`. -/
def sampleKey : Str := str "ab12"

/-- A key with a cap of one request and a budget of a hundred tokens. -/
def samplePrincipal : Principal where
  subject := str "key:ab12"
  scopes := [str "chat"]
  method := "apikey"
  keyid := some sampleKey
  tokenBudget := some 100
  maxConcurrency := some 1

/-- A request body with some more fields. -/
def sampleBody (more : String) : Bytes :=
  bytes "\x7b\"model\": \"Qwen/Qwen3-8B-AWQ\", \"messages\": [\x7b\"content\": \"hi\"\x7d]" ++
    bytes more ++ bytes "\x7d"

/-- A process with one replica. -/
def sampleSystem : System := System.start [sampleUrl] (List.cons_ne_nil _ _)

end InferenceGateway
