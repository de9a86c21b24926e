import InferenceGateway.Routes.Chat
import InferenceGateway.Sample

/-!
# The body the pool is handed

What `chat_completions` has established of a request when it calls the pool, and how
the body it hands over is made from the one the caller sent.  Two fields are
rewritten, `max_tokens` and, for a stream, `stream_options`; each rewrite is an
assignment to one key, and `HandedOver.others` is the frame around both.
-/

namespace InferenceGateway

open Py

/-! ## The rewrites -/

/-- The caller's stream options, if they are an object. -/
def callerOptions (body : Fields) : Fields :=
  ((body.get (str "stream_options")).fields?).getD []

section Rewrites

variable {σ : Settings} {body body' : Fields} {model : Value} {k : Str}

/-- Asking for usage rewrites the stream options. -/
theorem lookup_forceUsage :
    (forceUsage body).lookup (str "stream_options") =
      some (.dict (Dict.setDefault (callerOptions body) (str "include_usage") (.bool true))) := by
  have hset : (Fields.get (Dict.setDefault body (str "stream_options") (.dict []))
      (str "stream_options")).fields?.getD [] = callerOptions body := by
    unfold callerOptions Fields.get Fields.getD
    rw [Dict.lookup_setDefault_self]
    cases body.lookup (str "stream_options") <;> rfl
  unfold forceUsage
  dsimp only
  rw [Dict.lookup_set_self, ← hset]
  split
  · rename_i options heq
    rw [heq]
    rfl
  · rename_i hne
    cases hv : Fields.get (Dict.setDefault body (str "stream_options") (.dict []))
        (str "stream_options") with
    | dict options => exact absurd hv (hne options)
    | _ => rfl

/-- It rewrites nothing else. -/
theorem lookup_forceUsage_of_ne (h : k ≠ str "stream_options") :
    (forceUsage body).lookup k = body.lookup k := by
  unfold forceUsage
  dsimp only
  rw [Dict.lookup_set_of_ne h, Dict.lookup_setDefault_of_ne h]

/-- The ceiling on `max_tokens`: absent or null, it becomes the ceiling; otherwise it is
the lesser of the ceiling and the number it is read as. -/
def Clamped (σ : Settings) (requested : Value) (n : ℤ) : Prop :=
  (requested = .none ∧ n = σ.maxCompletionTokens) ∨
    ∃ wanted, requested.toInt = .ok wanted ∧ 1 ≤ wanted ∧ n = min wanted σ.maxCompletionTokens

theorem clampMaxTokens_clamped (h : clampMaxTokens σ body model = .ok body') :
    ∃ n, Clamped σ (body.get (str "max_tokens")) n ∧
      body' = Dict.set body (str "max_tokens") (.int n) := by
  unfold clampMaxTokens at h
  split at h
  · rename_i hnone
    exact ⟨_, .inl ⟨hnone, rfl⟩, (Except.ok.inj h).symm⟩
  · split at h
    · split at h <;> cases h
    · rename_i wanted hwanted
      split at h
      · cases h
      · rename_i hlow
        exact ⟨_, .inr ⟨wanted, hwanted, not_lt.mp hlow, rfl⟩, (Except.ok.inj h).symm⟩

/-- The clamped value is determined by what was requested. -/
theorem Clamped.unique {requested : Value} {n k : ℤ} (hn : Clamped σ requested n)
    (hk : Clamped σ requested k) : n = k := by
  rcases hn with ⟨rfl, rfl⟩ | ⟨wanted, hwanted, -, rfl⟩
  · rcases hk with ⟨-, rfl⟩ | ⟨wanted, hwanted, -⟩
    · rfl
    · cases hwanted
  · rcases hk with ⟨rfl, -⟩ | ⟨wanted', hwanted', -, rfl⟩
    · cases hwanted
    · rw [Except.ok.inj (hwanted.symm.trans hwanted')]

/-- The clamped value is never above the ceiling. -/
theorem Clamped.le {requested : Value} {n : ℤ} (h : Clamped σ requested n) :
    n ≤ σ.maxCompletionTokens := by
  rcases h with ⟨-, rfl⟩ | ⟨wanted, -, -, rfl⟩
  · exact le_rfl
  · exact min_le_right _ _

/-- With a positive ceiling, it is positive. -/
theorem Clamped.pos {requested : Value} {n : ℤ} (h : Clamped σ requested n)
    (hmax : 1 ≤ σ.maxCompletionTokens) : 1 ≤ n := by
  rcases h with ⟨-, rfl⟩ | ⟨wanted, -, hwanted, rfl⟩
  · exact hmax
  · exact le_min hwanted hmax

end Rewrites

/-! ## What is handed over -/

/-- What holds of the body `sent` that the pool is handed, of the body the caller sent, and
of the caller. -/
structure HandedOver (rt : Runtime) (σ : Settings) (p : Principal) (q : QuotaTracker)
    (body sent : Fields) (streaming : Bool) : Prop where
  scope : p.hasScope (str "chat")
  budget : ∀ k budget, p.keyid = some k → p.tokenBudget = some budget →
    ¬(q.tokensUsed k).ge (.int budget)
  model : σ.allows (sent.get (str "model"))
  messages : ∃ m ms n, sent.get (str "messages") = .list (m :: ms) ∧
    estimatePromptTokens rt (m :: ms) = .ok n ∧ (n : ℤ) ≤ σ.maxPromptTokens
  maxTokens : ∃ n, sent.lookup (str "max_tokens") = some (.int n) ∧
    Clamped σ (body.get (str "max_tokens")) n
  options : streaming → ∃ options, sent.lookup (str "stream_options") = some (.dict options) ∧
    options.lookup (str "include_usage") =
      some (((callerOptions body).lookup (str "include_usage")).getD (.bool true)) ∧
    ∀ k, k ≠ str "include_usage" → options.lookup k = (callerOptions body).lookup k
  /-- Every other key is the caller's. -/
  others : ∀ k, k ≠ str "max_tokens" → (streaming → k ≠ str "stream_options") →
    sent.lookup k = body.lookup k

section Handing

variable {rt : Runtime} {σ : Settings} {p : Principal} {q : QuotaTracker} {w w' : World}
  {raw : Bytes} {f : Forward} {started now : ℚ}

/-- The body that is sent, in terms of the one that passed the checks. -/
theorem lookup_forwarded_of_ne {k : Str} (h : f.streaming → k ≠ str "stream_options") :
    f.forwarded.lookup k = f.body.lookup k := by
  unfold Forward.forwarded
  split
  · rename_i hs
    exact lookup_forceUsage_of_ne (h hs)
  · rfl

/-- For a stream, the body that is sent carries the caller's options, with usage asked for
unless the caller said what to do about it. -/
theorem lookup_forwarded_options (h : f.streaming) :
    ∃ options, f.forwarded.lookup (str "stream_options") = some (.dict options) ∧
      options.lookup (str "include_usage") =
        some (((callerOptions f.body).lookup (str "include_usage")).getD (.bool true)) ∧
      ∀ k, k ≠ str "include_usage" → options.lookup k = (callerOptions f.body).lookup k := by
  refine ⟨Dict.setDefault (callerOptions f.body) (str "include_usage") (.bool true), ?_,
    Dict.lookup_setDefault_self, fun k hk ↦ Dict.lookup_setDefault_of_ne hk⟩
  rw [Forward.forwarded, if_pos h]
  exact lookup_forceUsage

/-- The checks and the two rewrites. -/
theorem handedOver_of_validate (h : validate rt σ p q raw = .ok f) :
    ∃ body : Fields, Json.loads rt.loadsDepth raw = .ok (.dict body) ∧
      f.streaming = (body.get (str "stream")).truthy ∧
      HandedOver rt σ p q body f.forwarded f.streaming := by
  unfold validate at h
  obtain ⟨body, hbody, h⟩ := of_bind_eq_ok h
  obtain ⟨model, hmodel, h⟩ := of_bind_eq_ok h
  obtain ⟨_, hmessages, h⟩ := of_bind_eq_ok h
  obtain ⟨body', hclamp, h⟩ := of_bind_eq_ok h
  obtain ⟨_, hbudget, h⟩ := of_bind_eq_ok h
  obtain ⟨hscope, hallows, rfl⟩ := checkModel_ok_iff.mp hmodel
  obtain ⟨m, ms, n, hlist, hestimate, hn⟩ := checkMessages_ok_iff.mp hmessages
  obtain ⟨tokens, hclamped, rfl⟩ := clampMaxTokens_clamped hclamp
  have hfbody : f.body = Dict.set body (str "max_tokens") (.int tokens) :=
    congrArg Forward.body (Except.ok.inj h).symm
  have hstreaming : f.streaming = (f.body.get (str "stream")).truthy := by
    rw [← Except.ok.inj h]
  have hget : ∀ k, k ≠ str "max_tokens" → f.body.get k = body.get k := by
    intro k hk
    rw [hfbody]
    exact congrArg (·.getD Value.none) (Dict.lookup_set_of_ne hk)
  have hothers : ∀ k, k ≠ str "max_tokens" → (f.streaming → k ≠ str "stream_options") →
      f.forwarded.lookup k = body.lookup k := by
    intro k hk hs
    rw [lookup_forwarded_of_ne hs, hfbody, Dict.lookup_set_of_ne hk]
  have hsent : ∀ k, k ≠ str "max_tokens" → k ≠ str "stream_options" →
      f.forwarded.get k = body.get k :=
    fun k hk hs ↦ congrArg (·.getD Value.none) (hothers k hk fun _ ↦ hs)
  have hoptions : callerOptions f.body = callerOptions body := by
    rw [callerOptions, hget _ (by decide), callerOptions]
  refine ⟨body, (parseBody_ok_iff.mp hbody).2, ?_, ?_⟩
  · rw [hstreaming, hget _ (by decide)]
  · exact
      { scope := hscope
        budget := fun _ _ hk hb ↦ checkTokenBudget_ok hbudget hk hb
        model := by
          rw [hsent _ (by decide) (by decide)]
          exact hallows
        messages := by
          rw [hsent _ (by decide) (by decide)]
          exact ⟨m, ms, n, hlist, hestimate, hn⟩
        maxTokens := by
          refine ⟨tokens, ?_, hclamped⟩
          rw [lookup_forwarded_of_ne fun _ ↦ by decide, hfbody, Dict.lookup_set_self]
        options := by
          rw [← hoptions]
          exact lookup_forwarded_options
        others := hothers }

/-- The model is the one that the caller's object names. -/
theorem model_of_validate {body : Fields} (h : validate rt σ p q raw = .ok f)
    (hjson : Json.loads rt.loadsDepth raw = .ok (.dict body)) :
    f.model = body.get (str "model") := by
  unfold validate at h
  obtain ⟨body', hbody, h⟩ := of_bind_eq_ok h
  obtain ⟨model, hmodel, h⟩ := of_bind_eq_ok h
  obtain ⟨_, -, h⟩ := of_bind_eq_ok h
  obtain ⟨_, -, h⟩ := of_bind_eq_ok h
  obtain ⟨_, -, h⟩ := of_bind_eq_ok h
  obtain ⟨-, -, rfl⟩ := checkModel_ok_iff.mp hmodel
  cases (parseBody_ok_iff.mp hbody).2.symm.trans hjson
  rw [← Except.ok.inj h]

/-- Taking the slot changes nothing of what is sent. -/
theorem handedOver_of_prepare (h : prepare rt σ p w raw started now = (w', .ok f)) :
    ∃ body : Fields, Json.loads rt.loadsDepth raw = .ok (.dict body) ∧
      f.streaming = (body.get (str "stream")).truthy ∧
      HandedOver rt σ p w.quota body f.forwarded f.streaming := by
  rcases prepare_cases rt σ p w raw started now with
    ⟨_, _, e, hp⟩ | ⟨g, hv, -, hp⟩ | ⟨g, k, cap, quota, hv, -, -, -, hp⟩
  · rw [hp] at h
    cases h
  · rw [hp] at h
    cases h
    exact handedOver_of_validate hv
  · rw [hp] at h
    cases h
    obtain ⟨body, hjson, hstreaming, hsent⟩ := handedOver_of_validate hv
    exact ⟨body, hjson, hstreaming, hsent⟩

/-- A request that reaches the pool: the body that is handed over is the caller's object
with a checked model, checked messages, a clamped `max_tokens` and, for a stream,
usage asked for; every other key is the caller's; and the caller had the scope and
budget left. -/
theorem forwards_validated (rt : Runtime) (σ : Settings) (hmax : 1 ≤ σ.maxCompletionTokens)
    (p : Principal) (w w' : World) (raw : Bytes) (started now : ℚ) (f : Forward)
    (h : prepare rt σ p w raw started now = (w', .ok f)) :
    ∃ body : Fields, Json.loads rt.loadsDepth raw = .ok (.dict body) ∧
      f.streaming = (body.get (str "stream")).truthy ∧
      HandedOver rt σ p w.quota body f.forwarded f.streaming ∧
      ∃ n, f.forwarded.lookup (str "max_tokens") = some (.int n) ∧
        Clamped σ (body.get (str "max_tokens")) n ∧ 1 ≤ n ∧ n ≤ σ.maxCompletionTokens := by
  obtain ⟨body, hjson, hstreaming, hsent⟩ := handedOver_of_prepare h
  obtain ⟨n, hlookup, hclamped⟩ := hsent.maxTokens
  exact ⟨body, hjson, hstreaming, hsent, n, hlookup, hclamped, hclamped.pos hmax, hclamped.le⟩

/-- A body with more fields is forwarded, of which `q` holds; found by evaluation. -/
def forwards (more : String) (q : Fields → Bool) : Bool :=
  match (prepare .sample .default samplePrincipal sampleSystem.world (sampleBody more) 0 0).2 with
  | .ok f => q f.forwarded
  | .error _ => false

theorem exists_of_forwards {more : String} {q : Fields → Bool} (h : forwards more q = true) :
    ∃ w' f, prepare .sample .default samplePrincipal sampleSystem.world (sampleBody more) 0 0 =
      (w', .ok f) ∧ q f.forwarded := by
  unfold forwards at h
  split at h
  · rename_i f hf
    exact ⟨_, f, Prod.ext rfl hf, h⟩
  · cases h

/-- The integer a field holds. -/
def intField (k : String) (sent : Fields) : Option ℤ :=
  match sent.lookup (str k) with
  | some (.int n) => some n
  | _ => none

theorem lookup_of_intField {k : String} {sent : Fields} {n : ℤ} (h : intField k sent = some n) :
    sent.lookup (str k) = some (.int n) := by
  unfold intField at h
  split at h
  · rename_i m hm
    obtain rfl := Option.some.inj h
    exact hm
  · cases h

/-- A stream, with a number of tokens above the ceiling written as text. -/
theorem forwards_validated_stream :
    ∃ w' f n, prepare .sample .default samplePrincipal sampleSystem.world
        (sampleBody ", \"stream\": 1, \"max_tokens\": \"9000\"") 0 0 = (w', .ok f) ∧
      f.forwarded.lookup (str "max_tokens") = some (.int n) ∧
      1 ≤ n ∧ n ≤ Settings.default.maxCompletionTokens := by
  obtain ⟨w', f, h, -⟩ := @exists_of_forwards ", \"stream\": 1, \"max_tokens\": \"9000\""
    (fun sent ↦ intField "max_tokens" sent = some 2048) (by decide +kernel)
  obtain ⟨body, -, -, -, n, hn, -, hpos, hle⟩ := forwards_validated .sample .default (by decide)
    samplePrincipal sampleSystem.world w' _ 0 0 f h
  exact ⟨w', f, n, h, hn, hpos, hle⟩

/-! ## The ceiling on the output -/

/-- The fields of the chat schema that bound the length of the output. -/
def outputLengthFields : List Str := [str "max_tokens", str "max_completion_tokens"]

/-- The bound the upstream goes by: `max_completion_tokens` takes precedence. -/
def askedTokens (sent : Fields) : Value :=
  ((sent.lookup (str "max_completion_tokens")).or (sent.lookup (str "max_tokens"))).getD .none

/-- An integer from one to the ceiling. -/
def UnderCeiling (σ : Settings) (v : Value) : Prop :=
  ∃ n, v = .int n ∧ 1 ≤ n ∧ n ≤ σ.maxCompletionTokens

/-- Every bound on the output that is sent is under the ceiling, and so is the one the
upstream goes by. -/
def Ceiled (σ : Settings) (sent : Fields) : Prop :=
  (∀ k ∈ outputLengthFields, ∀ v, sent.lookup k = some v → UnderCeiling σ v) ∧
    UnderCeiling σ (askedTokens sent)

/-- The ceiling holds of a forwarded request exactly if it is positive and the caller's body
has no `max_completion_tokens`, or one that is under the ceiling already. -/
theorem ceiled_iff (rt : Runtime) (σ : Settings) (p : Principal) (w w' : World) (raw : Bytes)
    (started now : ℚ) (f : Forward) (h : prepare rt σ p w raw started now = (w', .ok f))
    (body : Fields) (hjson : Json.loads rt.loadsDepth raw = .ok (.dict body)) :
    Ceiled σ f.forwarded ↔ 1 ≤ σ.maxCompletionTokens ∧
      ∀ v, body.lookup (str "max_completion_tokens") = some v → UnderCeiling σ v := by
  obtain ⟨body', hjson', -, hsent⟩ := handedOver_of_prepare h
  obtain rfl : body' = body := by
    rw [hjson'] at hjson
    exact Value.dict.inj (Except.ok.inj hjson)
  obtain ⟨n, hlookup, hclamped⟩ := hsent.maxTokens
  have hother : f.forwarded.lookup (str "max_completion_tokens") =
      body'.lookup (str "max_completion_tokens") :=
    hsent.others _ (by decide) fun _ ↦ by decide
  constructor
  · rintro ⟨hfields, -⟩
    constructor
    · obtain ⟨m, hm, hpos, hle⟩ := hfields _ List.mem_cons_self _ hlookup
      exact hpos.trans hle
    · intro v hv
      exact hfields _ (List.mem_cons_of_mem _ List.mem_cons_self) v (hother.trans hv)
  · rintro ⟨hmax, hcaller⟩
    have htokens : UnderCeiling σ (.int n) := ⟨n, rfl, hclamped.pos hmax, hclamped.le⟩
    constructor
    · intro k hk v hv
      simp only [outputLengthFields, List.mem_cons, List.not_mem_nil, or_false] at hk
      rcases hk with rfl | rfl
      · rw [hlookup] at hv
        exact Option.some.inj hv ▸ htokens
      · exact hcaller v (hother.symm.trans hv)
    · unfold askedTokens
      cases hv : f.forwarded.lookup (str "max_completion_tokens") with
      | none =>
          rw [hlookup]
          exact htokens
      | some v => exact hcaller v (hother.symm.trans hv)

/-- A caller who asks for a thousand tokens in the other field. -/
theorem ceiled_iff_thousand :
    ∃ w' f, prepare .sample .default samplePrincipal sampleSystem.world
        (sampleBody ", \"max_completion_tokens\": 1000") 0 0 = (w', .ok f) ∧
      Ceiled .default f.forwarded := by
  obtain ⟨w', f, h, hn⟩ := @exists_of_forwards ", \"max_completion_tokens\": 1000"
    (fun sent ↦ intField "max_completion_tokens" sent = some 1000) (by decide +kernel)
  obtain ⟨body, hjson, -, hsent⟩ := handedOver_of_prepare h
  refine ⟨w', f, h, (ceiled_iff .sample .default samplePrincipal sampleSystem.world w' _ 0 0 f h
    body hjson).mpr ⟨by decide, fun v hv ↦ ?_⟩⟩
  have hlookup := lookup_of_intField (of_decide_eq_true hn)
  rw [hsent.others _ (by decide) fun _ ↦ by decide, hv] at hlookup
  exact ⟨1000, Option.some.inj hlookup, by decide, by decide⟩

/-- A caller who asks for 32768 tokens there: they are asked of the upstream. -/
theorem not_ceiled_other_field :
    ∃ w' f, prepare .sample .default samplePrincipal sampleSystem.world
        (sampleBody ", \"max_completion_tokens\": 32768") 0 0 = (w', .ok f) ∧
      askedTokens f.forwarded = .int 32768 ∧ ¬Ceiled .default f.forwarded := by
  obtain ⟨w', f, h, hn⟩ := @exists_of_forwards ", \"max_completion_tokens\": 32768"
    (fun sent ↦ intField "max_completion_tokens" sent = some 32768) (by decide +kernel)
  have hlookup := lookup_of_intField (of_decide_eq_true hn)
  refine ⟨w', f, h, by simp [askedTokens, hlookup], ?_⟩
  rintro ⟨hfields, -⟩
  obtain ⟨m, hm, -, hle⟩ := hfields _ (List.mem_cons_of_mem _ List.mem_cons_self) _ hlookup
  obtain rfl := Value.int.inj hm
  revert hle
  decide

end Handing

end InferenceGateway
