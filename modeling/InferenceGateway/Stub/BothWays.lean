import InferenceGateway.Routes.Delivery
import InferenceGateway.Routes.Forwarded
import InferenceGateway.Sample
import InferenceGateway.Stub.Replies

/-!
# One request, as a stream and not

What the stub makes of a request depends on its messages and its `max_tokens`, and the gateway hands
on the same for a stream and for a request that is none.  So the stub comes to the same text and the
same counts, the one answer carries them in its `usage` and the other in its last event, and the
key is billed alike -- unless the caller has refused that event, in which case the gateway sees no
counts at all.
-/

namespace InferenceGateway.Stub

open Py Transition

variable {rt : Runtime} {σ : Settings} {p : Principal} {F : FloatRepr} {sha256 : Bytes → Bytes}
  {think : Bool} {body₁ body₂ sent₁ sent₂ : Fields} {q₁ q₂ : QuotaTracker} {raw : Bytes}

/-! ## What the stub is asked -/

/-- The text and the counts come from the messages and `max_tokens`. -/
theorem complete_congr (hmessages : sent₁.lookup (str "messages") = sent₂.lookup (str "messages"))
    (htokens : sent₁.lookup (str "max_tokens") = sent₂.lookup (str "max_tokens")) :
    complete rt F sha256 think sent₁ = complete rt F sha256 think sent₂ := by
  have hseed : seedOf rt F sent₁ = seedOf rt F sent₂ := by
    rw [seedOf, Fields.getD, hmessages]
    rfl
  have hmax : maxTokens sent₁ = maxTokens sent₂ := by
    rw [maxTokens, Fields.get, Fields.getD, htokens]
    rfl
  have hget : sent₁.get (str "messages") = sent₂.get (str "messages") := by
    rw [Fields.get, Fields.getD, hmessages]
    rfl
  unfold complete completionText
  rw [hseed, hmax, hget]

/-- `include_usage`, of options that say what to do about it. -/
theorem includeUsage_of_options {options : Fields} {v : Value}
    (hsent : sent₁.lookup (str "stream_options") = some (.dict options))
    (hv : options.lookup (str "include_usage") = some v) :
    includeUsage sent₁ = .ok v.truthy := by
  have hoptions : sent₁.get (str "stream_options") = .dict options := by
    rw [Fields.get, Fields.getD, hsent]
    rfl
  have htruthy : (Value.dict options).truthy := by
    cases options with
    | nil => cases hv
    | cons kv kvs => rfl
  have hget : (Value.dict options).getAttrD (str "include_usage") .none = .ok v := by
    rw [Value.getAttrD, Fields.getD, hv]
    rfl
  simp only [includeUsage, hoptions, htruthy, if_true, hget]
  rfl

/-- The caller of a stream has not refused its usage. -/
def asksUsage (body : Fields) : Bool :=
  ((callerOptions body).getD (str "include_usage") (.bool true)).truthy

/-- The body of a request, and that of a stream, which may differ in what is said about the stream
and in nothing else. -/
structure BothWays (body₁ body₂ : Fields) : Prop where
  plain : (body₁.get (str "stream")).truthy = false
  stream : (body₂.get (str "stream")).truthy = true
  others : ∀ k, k ≠ str "stream" → k ≠ str "stream_options" → body₁.lookup k = body₂.lookup k

namespace BothWays

theorem get_model (h : BothWays body₁ body₂) :
    body₁.get (str "model") = body₂.get (str "model") := by
  rw [Fields.get, Fields.getD, h.others _ (by decide) (by decide)]
  rfl

/-- What the stub is asked for is the same. -/
theorem complete_eq (h : BothWays body₁ body₂) (h₁ : HandedOver rt σ p q₁ body₁ sent₁ false)
    (h₂ : HandedOver rt σ p q₂ body₂ sent₂ true) :
    complete rt F sha256 think sent₁ = complete rt F sha256 think sent₂ := by
  refine complete_congr ?_ ?_
  · rw [h₁.others _ (by decide) (fun _ ↦ by decide), h₂.others _ (by decide) (fun _ ↦ by decide)]
    exact h.others _ (by decide) (by decide)
  · obtain ⟨n₁, hn₁, hclamped₁⟩ := h₁.maxTokens
    obtain ⟨n₂, hn₂, hclamped₂⟩ := h₂.maxTokens
    have hget : body₁.get (str "max_tokens") = body₂.get (str "max_tokens") := by
      rw [Fields.get, Fields.getD, h.others _ (by decide) (by decide)]
      rfl
    rw [hn₁, hn₂, hclamped₁.unique (hget ▸ hclamped₂)]

end BothWays

/-! ## What the stub answers -/

theorem answer_plain {e : Envelope} {content : Bytes} {c : Completion}
    (hstream : (sent₁.get (str "stream")).truthy = false)
    (hc : complete rt F sha256 think sent₁ = .ok c)
    (h : answer F rt sha256 think e sent₁ = .ok content) : content = rendered F e c := by
  rw [answer, hc] at h
  simp only [bind, Except.bind, hstream] at h
  exact (Except.ok.inj h).symm

theorem answer_stream {e : Envelope} {content : Bytes} {c : Completion} {asked : Bool}
    (hstream : (sent₁.get (str "stream")).truthy = true)
    (hc : complete rt F sha256 think sent₁ = .ok c) (hasked : includeUsage sent₁ = .ok asked)
    (h : answer F rt sha256 think e sent₁ = .ok content) :
    content = streamed F e c.text (if asked then some c.usage else none) := by
  rw [answer, hc] at h
  simp only [bind, Except.bind, hstream, hasked, if_true] at h
  exact (Except.ok.inj h).symm

/-! ## What is handed over -/

/-- What the pool is handed of a request that is answered, and its model. -/
theorem handedOver_of_delivered {body : Fields} {content : Bytes} {f : Forward} {t : Turn}
    {turns : List Turn} {how : Ended} {started : ℚ} (ht : Takes rt t body)
    (hd : Delivered rt σ p started content f (t :: turns) how) :
    f.model = body.get (str "model") ∧ f.streaming = (body.get (str "stream")).truthy ∧
      ∃ q, HandedOver rt σ p q body f.forwarded f.streaming := by
  obtain ⟨raw, w, hinput, hprepare⟩ := hd.accepts
  obtain ⟨raw', hinput', hjson⟩ := ht
  cases hinput.symm.trans hinput'
  obtain ⟨body', hjson', hstream, hsent⟩ := handedOver_of_prepare hprepare
  cases hjson.symm.trans hjson'
  have hmodel := model_of_validate (prepare_ok hprepare).checks hjson
  exact ⟨hmodel, hstream, _, hsent⟩

/-! ## The bill -/

/-- What a request with these counts is billed for. -/
def Completion.bill (c : Completion) (label : Str) : Bill where
  calls := tokenCalls label (.int c.promptTokens) (.int c.completionTokens)
  total := .int (c.promptTokens + c.completionTokens)

/-- The counts can be written, and the counters take them. -/
structure Completion.Billable (rt : Runtime) (c : Completion) : Prop where
  counted : c.Counted
  prompt : countable rt (.int c.promptTokens)
  completion : countable rt (.int c.completionTokens)

theorem Completion.Billable.bills {c : Completion} (h : c.Billable rt) {key : Option Str}
    {model : Value} (w : World) :
    Bills key (c.bill (σ.safeModel model)) w (w.recordUsage rt σ model c.usage key).1 :=
  .recordUsage rfl rfl h.prompt h.completion

/-- A request that the stub can complete, once with and once without `stream`, from a caller whose
two requests are answered with what the stub answers, to the end.  The stub comes to the same text
and counts.  The stream is passed on as its chunks arrive, unbroken.  The token counters and the key
are charged for the counts in the last step of each, and for nothing before; only the stream of a
caller that refuses the usage is charged for nothing. -/
theorem charged_alike {f₁ f₂ : Forward} {t₁ t₂ : Turn} {turns₁ turns₂ : List Turn}
    {how₁ how₂ : Ended} {started₁ started₂ : ℚ} {content₁ content₂ : Bytes} {e₁ e₂ : Envelope}
    {m₁ m₂ : Str} {c : Completion} (hbodies : BothWays body₁ body₂)
    (ht₁ : Takes rt t₁ body₁) (ht₂ : Takes rt t₂ body₂)
    (hd₁ : Delivered rt σ p started₁ content₁ f₁ (t₁ :: turns₁) how₁)
    (hd₂ : Delivered rt σ p started₂ content₂ f₂ (t₂ :: turns₂) how₂)
    (ha₁ : answer F rt sha256 think e₁ f₁.forwarded = .ok content₁)
    (ha₂ : answer F rt sha256 think e₂ f₂.forwarded = .ok content₂)
    (hc : complete rt F sha256 think f₁.forwarded = .ok c) (hb : c.Billable rt)
    (he₁ : e₁.Proper m₁) (he₂ : e₂.Proper m₂) (hD : 4 ≤ rt.loadsDepth) :
    let bill := c.bill (σ.safeModel (body₁.get (str "model")))
    let chunks := (t₂ :: turns₂).filterMap Turn.chunk?
    complete rt F sha256 think f₂.forwarded = .ok c ∧
      Relayed rt σ p started₂ chunks (t₂ :: turns₂) ∧ chunks.flatten = content₂ ∧
      BilledFor rt σ p started₁ bill (t₁ :: turns₁) how₁ ∧
      BilledFor rt σ p started₂ (if asksUsage body₂ then bill else {}) (t₂ :: turns₂) how₂ := by
  obtain ⟨hmodel₁, hs₁, q₁, hsent₁⟩ := handedOver_of_delivered ht₁ hd₁
  obtain ⟨hmodel₂, hs₂, q₂, hsent₂⟩ := handedOver_of_delivered ht₂ hd₂
  rw [hbodies.plain] at hs₁
  rw [hbodies.stream] at hs₂
  rw [hs₁] at hsent₁
  rw [hs₂] at hsent₂
  rw [← hbodies.get_model, ← hmodel₁] at hmodel₂
  have hc₂ : complete rt F sha256 think f₂.forwarded = .ok c :=
    (hbodies.complete_eq hsent₁ hsent₂).symm.trans hc
  have ht := ascii_of_complete hc
  -- the unstreamed answer
  have hstream₁ : (f₁.forwarded.get (str "stream")).truthy = false := by
    rw [Fields.get, Fields.getD, hsent₁.others _ (by decide) fun _ ↦ by decide]
    exact hbodies.plain
  obtain rfl := answer_plain hstream₁ hc ha₁
  obtain ⟨hpay, huse⟩ := loads_rendered (F := F) he₁ hD hb.counted ht
  have hbill₁ := hd₁.unstreamed hs₁ hpay huse fun w ↦ hb.bills w
  -- the streamed one
  have hstream₂ : (f₂.forwarded.get (str "stream")).truthy = true := by
    rw [Fields.get, Fields.getD, hsent₂.others _ (by decide) fun _ ↦ by decide]
    exact hbodies.stream
  obtain ⟨options, hoptions, hinclude, -⟩ := hsent₂.options rfl
  have hasked : includeUsage f₂.forwarded = .ok (asksUsage body₂) :=
    includeUsage_of_options hoptions hinclude
  obtain rfl := answer_stream hstream₂ hc₂ hasked ha₂
  have hwatch := watchable_streamed (F := F) he₂ hD hb.counted ht (asksUsage body₂)
  have husage := lastUsage_streamed (F := F) he₂ hD hb.counted ht (asksUsage body₂)
  have hbills (w : World) : Bills p.keyid
      (if asksUsage body₂ then c.bill (σ.safeModel f₁.model) else {}) w
      (w.recordUsage rt σ f₂.model (lastUsage rt [] (pieces eventEnd (streamed F e₂ c.text
        (if asksUsage body₂ then some c.usage else none)))) p.keyid).1 := by
    rw [husage, hmodel₂]
    cases asksUsage body₂ with
    | true => exact hb.bills w
    | false => exact .recordUsage_nil
  obtain ⟨hbill₂, hrelayed, hflat⟩ := hd₂.streamed hs₂ hwatch hbills
  rw [← hmodel₁]
  exact ⟨hc₂, hrelayed, hflat, hbill₁, hbill₂⟩

/-! ## Concrete requests -/

/-- The id that is drawn, and the second. -/
def sampleEnvelope (created : ℤ) : Envelope :=
  { uuid := List.replicate 16 10, created, model := .str STUB_MODEL }

theorem proper_sampleEnvelope (created : ℤ)
    (h : (Nat.toDigits 10 created.natAbs).length ≤ maxStrDigits) :
    (sampleEnvelope created).Proper STUB_MODEL := ⟨rfl, Json.strWritable_str _, h⟩

/-- `sampleRequest` as a caller sends it. -/
def sampleChat (streaming : Bool) : Fields :=
  (str "stream", .bool streaming) :: (str "model", .str STUB_MODEL) :: sampleRequest

theorem bothWays_sampleChat : BothWays (sampleChat false) (sampleChat true) where
  plain := by decide
  stream := by decide
  others k hk _ := by simp only [sampleChat, List.lookup_cons, beq_false_of_ne hk]

theorem legible_sampleChat (streaming : Bool) : Legible .sample (sampleChat streaming) := by
  refine ⟨?_, ?_, Nat.le_of_ble_eq_true rfl⟩
  · exact ⟨Json.strWritable_str _, trivial, Json.strWritable_str _, Json.strWritable_str _,
      Json.strWritable_str _, ⟨⟨Json.strWritable_str _, Json.strWritable_str _, trivial⟩, trivial⟩,
      Json.strWritable_str _, Nat.le_of_ble_eq_true rfl, trivial⟩
  · have hkeys : (["stream", "model", "messages", "max_tokens"].map str).Nodup := by decide
    exact ⟨hkeys, trivial, trivial, ⟨⟨List.nodup_singleton _, trivial, trivial⟩, trivial⟩, trivial,
      trivial⟩

/-- The step that takes it in. -/
def sampleFirst (streaming : Bool) : Turn :=
  aloneTurn (.received (utf8Bytes
    (Json.dumps .exact { ascii := false } (.dict (sampleChat streaming))))) 0

theorem takes_sampleFirst (streaming : Bool) :
    Takes .sample (sampleFirst streaming) (sampleChat streaming) := by
  obtain ⟨hw, hk, hd⟩ := legible_sampleChat streaming
  have hloads := (Json.loads_dumps .exact { ascii := false } hw hd).2
  rw [Value.reread_eq_self hw hk] at hloads
  exact ⟨_, rfl, hloads⟩

/-- The unstreamed answer. -/
def samplePlain : Bytes := rendered .exact (sampleEnvelope 1700000000) sampleCompletion

/-- The stream. -/
def sampleStream : Bytes :=
  streamed .exact (sampleEnvelope 1700000001) sampleCompletion.text (some sampleCompletion.usage)

/-- The step in which the replica answers. -/
def sampleAnswered (content : Bytes) : Turn :=
  aloneTurn (.responded { statusCode := 200, content }) 1

/-- The stream in two chunks, and its end. -/
def sampleRelayed : List Turn :=
  [aloneTurn .next 2, aloneTurn (.chunk (sampleStream.take 100)) 3, aloneTurn .next 4,
    aloneTurn (.chunk (sampleStream.drop 100)) 5, aloneTurn .next 6, aloneTurn .eof 7,
    aloneTurn .done 8]

/-- The request as a whole, unstreamed and streamed. -/
def samplePlainTurns : List Turn := [sampleFirst false, sampleAnswered samplePlain]

def sampleStreamTurns : List Turn :=
  sampleFirst true :: sampleAnswered sampleStream :: sampleRelayed

/-- The request is being sent, and the test holds of it. -/
def sending (q : Forward → Bool) : Phase → Bool
  | .calling f (.sending _ _) => q f
  | _ => false

/-- The stub answers what is sent with these bytes. -/
def answersWith (e : Envelope) (content : Bytes) (f : Forward) : Bool :=
  answer .exact .sample sampleSha256 false e f.forwarded = .ok content &&
    complete .sample .exact sampleSha256 false f.forwarded = .ok sampleCompletion

/-- A request that is answered, found by evaluation. -/
theorem exists_delivered (first : Turn) (content : Bytes) (rest : List Turn) (e : Envelope)
    (h : (execWhile (turn .sample .default samplePrincipal 0) (delivers content) .body [first]).any
      (fun phase ↦ sending (answersWith e content) phase &&
        (execWhile (turn .sample .default samplePrincipal 0) (delivers content) phase
          (sampleAnswered content :: rest)).any Phase.isEnded) = true) : ∃ f how,
    Delivered .sample .default samplePrincipal 0 content f (first :: sampleAnswered content :: rest)
      how ∧
    answer .exact .sample sampleSha256 false e f.forwarded = .ok content ∧
    complete .sample .exact sampleSha256 false f.forwarded = .ok sampleCompletion := by
  obtain ⟨phase, hrun, hphase⟩ := Run.exists_of_execWhile (turn .sample .default samplePrincipal 0)
    (delivers content) .body [first] _ h
  obtain ⟨hsending, hrest⟩ := Bool.and_eq_true_iff.mp hphase
  cases phase with
  | calling f retry =>
      cases retry with
      | sending a u =>
          obtain ⟨hanswer, hcomplete⟩ := Bool.and_eq_true_iff.mp hsending
          obtain ⟨phase', hrun', hended⟩ := Run.exists_of_execWhile
            (turn .sample .default samplePrincipal 0) (delivers content) _ _ _ hrest
          cases phase' with
          | ended how =>
              obtain ⟨phase₁, hstep, hafter⟩ := Run.cons_iff.mp hrun'
              have hanswers : answers f (.calling f (.sending a u)) (sampleAnswered content) :=
                ⟨a, u, _, rfl, rfl, Nat.le_of_ble_eq_true rfl⟩
              exact ⟨f, how, ⟨[first], _, rest, _, phase₁, rfl, hrun, hstep, hafter, hanswers⟩,
                of_decide_eq_true hanswer, of_decide_eq_true hcomplete⟩
          | _ => cases hended
      | _ => cases hsending
  | _ => cases hsending

/-- Three words, with and without a stream: four tokens are charged for both. -/
theorem charged_alike_sample : ∃ how₁ how₂,
    BilledFor .sample .default samplePrincipal 0
      ⟨tokenCalls sampleModel (.int 1) (.int 3), .int 4⟩ samplePlainTurns how₁ ∧
    BilledFor .sample .default samplePrincipal 0
      ⟨tokenCalls sampleModel (.int 1) (.int 3), .int 4⟩ sampleStreamTurns how₂ ∧
    Relayed .sample .default samplePrincipal 0 [sampleStream.take 100, sampleStream.drop 100]
      sampleStreamTurns := by
  obtain ⟨f₁, how₁, hd₁, ha₁, hc₁⟩ := exists_delivered (sampleFirst false) samplePlain []
    (sampleEnvelope 1700000000) (by decide +kernel)
  obtain ⟨f₂, how₂, hd₂, ha₂, -⟩ := exists_delivered (sampleFirst true) sampleStream sampleRelayed
    (sampleEnvelope 1700000001) (by decide +kernel)
  have hbillable : sampleCompletion.Billable .sample :=
    ⟨⟨by decide, by decide, by decide⟩, by decide +kernel, by decide +kernel⟩
  obtain ⟨-, hrelayed, -, hbill₁, hbill₂⟩ := charged_alike bothWays_sampleChat
    (takes_sampleFirst false) (takes_sampleFirst true) hd₁ hd₂ ha₁ ha₂ hc₁ hbillable
    (proper_sampleEnvelope 1700000000 (by decide)) (proper_sampleEnvelope 1700000001 (by decide))
    (by decide)
  exact ⟨how₁, how₂, hbill₁, hbill₂, hrelayed⟩

end InferenceGateway.Stub
