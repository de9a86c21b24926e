import Mathlib.Data.List.Sections
import InferenceGateway.Middleware

/-!
# Label values

`vocabulary` lists every series whose label values are in sets that are fixed by the
configuration: the models of the allowlist, the number of replicas, and constants of the
source; for the label `method` the set is a parameter.

Whatever a caller or a replica chooses on the request path is folded into these sets before
it becomes a label value (`Moves.labelled`).
-/

namespace InferenceGateway

open Py Transition

/-! ## The vocabulary -/

/-- The values of `route`. -/
def routeLabels : List Str := str "__unmatched__" :: ROUTES.map Route.path

/-- The values of `status`: three digits. -/
def statusLabels : List Str := (List.range 900).map fun k ↦ intText ((k + 100 : ℕ) : ℤ)

/-- The values of `auth_method`. -/
def authMethods : List Str := ["none", "jwt", "apikey"].map str

/-- The values of `reason`. -/
def reasonLabels : List Str := ("other" :: rejectReasons).map str

/-- The values of `model`. -/
def Settings.modelLabels (σ : Settings) : List Str := str "other" :: σ.allowedModels

/-- The values of `upstream`, for this many replicas. -/
def upstreamLabels (n : ℕ) : List Str :=
  str "unknown" :: (List.range n).map fun i ↦ str (toString i)

section Vocabulary

variable (σ : Settings) (n : ℕ) (methods : List Str)

/-- The metrics of the module, and the values of their labels. -/
def families : List (String × List (List Str)) :=
  [("requests_total", [routeLabels, methods, statusLabels, authMethods]),
    ("request_duration_seconds",
      [routeLabels, ["success", "client_error", "server_error"].map str]),
    ("time_to_first_token_seconds", [σ.modelLabels]),
    ("inflight_requests", []),
    ("rejections_total", [reasonLabels]),
    ("tokens_total", [σ.modelLabels, ["prompt", "completion"].map str]),
    ("requests_missing_usage_total", [σ.modelLabels]),
    ("upstream_requests_total",
      [upstreamLabels n, ["ok", "http_error", "unreachable"].map str]),
    ("upstream_up", [upstreamLabels n]),
    ("upstream_scrape_age_seconds", [upstreamLabels n]),
    ("upstream_scrape_failures_total",
      [upstreamLabels n, ["http_status", "timeout", "connect", "parse"].map str]),
    ("upstream_wedge_suspected", [upstreamLabels n]),
    ("upstream_wedge_stall_seconds", [upstreamLabels n]),
    ("event_loop_lag_seconds", [])]

/-- Every series over these values. -/
def vocabulary : List Series :=
  (families σ n methods).flatMap fun fam ↦ fam.2.sections.map (Series.mk fam.1)

end Vocabulary

variable {rt : Runtime} {σ : Settings} {n : ℕ} {methods : List Str}

theorem mem_vocabulary {x : Series} : x ∈ vocabulary σ n methods ↔
    ∃ sets, (x.metric, sets) ∈ families σ n methods ∧ List.Forall₂ (· ∈ ·) x.labels sets := by
  obtain ⟨metric, labels⟩ := x
  simp only [vocabulary, List.mem_flatMap, List.mem_map, List.mem_sections, Series.mk.injEq]
  constructor
  · rintro ⟨⟨metric', sets⟩, hfam, labels', hl, rfl, rfl⟩
    exact ⟨sets, hfam, hl⟩
  · rintro ⟨sets, hfam, hl⟩
    exact ⟨(metric, sets), hfam, labels, hl, rfl, rfl⟩

theorem mem_statusLabels {s : ℕ} (h : 100 ≤ s ∧ s ≤ 999) : intText s ∈ statusLabels := by
  refine List.mem_map.mpr ⟨s - 100, List.mem_range.mpr (by omega), ?_⟩
  rw [Nat.sub_add_cancel h.1]

theorem mem_upstreamLabels {i : ℕ} (h : i < n) : str (toString i) ∈ upstreamLabels n :=
  List.mem_cons_of_mem _ (List.mem_map.mpr ⟨i, List.mem_range.mpr h, rfl⟩)

theorem safeModel_mem (model : Value) : σ.safeModel model ∈ σ.modelLabels := by
  cases model with
  | str s =>
      rw [Settings.safeModel]
      by_cases h : ((Value.str s).truthy && σ.allows (.str s)) = true
      · rw [if_pos h]
        exact List.mem_cons_of_mem _ (List.contains_iff_mem.mp (Bool.and_eq_true_iff.mp h).2)
      · rw [if_neg h]
        exact List.mem_cons_self
  | _ => exact List.mem_cons_self

/-- A replica is labelled by its index, or not at all. -/
theorem label_mem {p : UpstreamPool} (hn : p.urls.length = n) (url : Str) :
    str (p.label url) ∈ upstreamLabels n := by
  unfold UpstreamPool.label
  split
  · rename_i i hi
    have hlt : i < p.urls.length := (List.idxOf?_eq_some_iff.mp hi).1
    exact mem_upstreamLabels (hn ▸ hlt)
  · exact List.mem_cons_self

/-! ## The calls of the request path -/

theorem recordRejection_mem (reason : String) :
    (recordRejection reason).series ∈ vocabulary σ n methods := by
  have hreason : (if reason ∈ rejectReasons then reason else "other") ∈ "other" :: rejectReasons := by
    split
    · rename_i h
      exact List.mem_cons_of_mem _ h
    · exact List.mem_cons_self
  refine mem_vocabulary.mpr ⟨[reasonLabels], by simp [families, recordRejection, MetricCall.series], ?_⟩
  exact .cons (List.mem_map_of_mem hreason) .nil

theorem missingUsage_mem (model : Value) :
    (MetricCall.missingUsage (σ.safeModel model)).series ∈ vocabulary σ n methods := by
  refine mem_vocabulary.mpr ⟨[σ.modelLabels], by simp [families, MetricCall.series], ?_⟩
  exact .cons (safeModel_mem model) .nil

theorem timeToFirstToken_mem (model : Value) :
    (MetricCall.timeToFirstToken (σ.safeModel model)).series ∈ vocabulary σ n methods := by
  refine mem_vocabulary.mpr ⟨[σ.modelLabels], by simp [families, MetricCall.series], ?_⟩
  exact .cons (safeModel_mem model) .nil

theorem tokens_mem (model : Value) {kind : String} (h : kind ∈ ["prompt", "completion"]) :
    (⟨"tokens_total", [σ.safeModel model, str kind]⟩ : Series) ∈ vocabulary σ n methods := by
  refine mem_vocabulary.mpr
    ⟨[σ.modelLabels, ["prompt", "completion"].map str], by simp [families], ?_⟩
  exact .cons (safeModel_mem model) (.cons (List.mem_map_of_mem h) .nil)

theorem outcomeLabel_mem (outcome : Outcome) :
    UpstreamPool.outcomeLabel outcome ∈ ["ok", "http_error", "unreachable"] := by
  cases outcome with
  | error e => simp [UpstreamPool.outcomeLabel]
  | ok r =>
      unfold UpstreamPool.outcomeLabel
      dsimp only
      split <;> decide

theorem upstreamRequest_mem {p : UpstreamPool} (hn : p.urls.length = n) (url : Str)
    (outcome : Outcome) :
    (MetricCall.upstreamRequest (p.label url) (UpstreamPool.outcomeLabel outcome)).series ∈
      vocabulary σ n methods := by
  refine mem_vocabulary.mpr ⟨[upstreamLabels n, ["ok", "http_error", "unreachable"].map str],
    by simp [families, MetricCall.series], ?_⟩
  exact .cons (label_mem hn url) (.cons (List.mem_map_of_mem (outcomeLabel_mem outcome)) .nil)

/-! ## The shared state -/

variable (σ n methods) in
/-- There are `n` replicas, and every series of the request path is in the vocabulary. -/
structure World.Labelled (w : World) : Prop where
  urls : w.pool.urls.length = n
  calls : ∀ c ∈ w.metrics, c.series ∈ vocabulary σ n methods

namespace World

variable {w w' : World} {p : Principal} {started now : ℚ} {model : Value} {usage : Fields}
  {key : Option Str}

/-- What neither counts nor replaces the pool. -/
theorem Labelled.congr (h : w.Labelled σ n methods) (hp : w'.pool = w.pool)
    (hm : w'.metrics = w.metrics) : w'.Labelled σ n methods :=
  ⟨by rw [hp]; exact h.urls, by rw [hm]; exact h.calls⟩

theorem Labelled.count {calls : List MetricCall} (h : w.Labelled σ n methods)
    (hc : ∀ c ∈ calls, c.series ∈ vocabulary σ n methods) :
    { w with metrics := w.metrics ++ calls }.Labelled σ n methods := by
  refine ⟨h.urls, ?_⟩
  intro c hmem
  rcases List.mem_append.mp hmem with hmem | hmem
  · exact h.calls c hmem
  · exact hc c hmem

theorem Labelled.reject (h : w.Labelled σ n methods) (statusCode : ℕ) (reason : String)
    (headers : List (String × String)) :
    (w.reject rt statusCode reason p model started now headers).1.Labelled σ n methods := by
  have hcount : { w with metrics := w.metrics ++ [recordRejection reason] }.Labelled σ n methods := by
    apply h.count
    intro c hc
    rw [List.mem_singleton.mp hc]
    exact recordRejection_mem reason
  unfold World.reject
  dsimp only
  split
  · exact hcount.congr rfl rfl
  · exact hcount

theorem Labelled.releaseSlot (h : w.Labelled σ n methods) :
    (w.releaseSlot key).Labelled σ n methods := by
  cases key with
  | none => exact h
  | some k => exact h.congr rfl rfl

theorem Labelled.incTokens (h : w.Labelled σ n methods) {kind : String}
    (hk : kind ∈ ["prompt", "completion"]) (v : Value) :
    (w.incTokens rt (σ.safeModel model) kind v).1.Labelled σ n methods := by
  unfold World.incTokens
  split
  · split
    · apply h.count
      intro c hc
      rw [List.mem_singleton.mp hc]
      exact tokens_mem model hk
    · exact h
  · exact h

theorem Labelled.charge (h : w.Labelled σ n methods) (prompt completion : Value) :
    (w.charge key prompt completion).1.Labelled σ n methods := by
  obtain ⟨tokensUsed, hc⟩ := charge_fst w key prompt completion
  rw [hc]
  exact h.congr rfl rfl

theorem Labelled.recordUsage (h : w.Labelled σ n methods) :
    (w.recordUsage rt σ model usage key).1.Labelled σ n methods := by
  unfold World.recordUsage
  generalize usage.get (str "prompt_tokens") = prompt
  generalize usage.get (str "completion_tokens") = completion
  dsimp only
  split
  · apply h.count
    intro c hc
    rw [List.mem_singleton.mp hc]
    exact missingUsage_mem model
  · have hp : (w.incTokens rt (σ.safeModel model) "prompt" prompt).1.Labelled σ n methods :=
      h.incTokens (by decide) prompt
    rcases hinc : w.incTokens rt (σ.safeModel model) "prompt" prompt with ⟨w₁, e | _⟩
    · rw [hinc] at hp
      exact hp
    · rw [hinc] at hp
      have hc : (w₁.incTokens rt (σ.safeModel model) "completion" completion).1.Labelled σ n methods :=
        hp.incTokens (by decide) completion
      dsimp only
      rcases hinc₂ : w₁.incTokens rt (σ.safeModel model) "completion" completion with ⟨w₂, e | _⟩
      · rw [hinc₂] at hc
        exact hc
      · rw [hinc₂] at hc
        exact hc.charge prompt completion

end World

/-! ## The segments of a request -/

section Segments

variable {w w' : World} {f : Forward} {started now : ℚ} {e : Exn} {u : Str} {resp : Response}
  {relay : Relay} {pending : Option Fault} {retry : Retry} {p : Principal} {raw : Bytes}

open World

theorem escalate_labelled (h : w.Labelled σ n methods) :
    (escalate rt w f started now e).1.Labelled σ n methods := by
  cases e with
  | allReplicasOpen t => exact h.reject _ _ _
  | upstreamUnreachable e' v => exact h.reject _ _ _
  | _ => exact h

theorem leaveCall_labelled (h : w.Labelled σ n methods) :
    (leaveCall rt w f started now e).1.Labelled σ n methods := by
  unfold leaveCall
  split
  · dsimp only
    split
    · exact escalate_labelled h.releaseSlot
    · exact escalate_labelled h
  · exact (escalate_labelled h).releaseSlot

theorem finishUnstreamed_labelled (h : w.Labelled σ n methods) :
    (finishUnstreamed rt σ w f started now u resp).1.Labelled σ n methods := by
  have hrecord (usage : Fields) :
      (w.recordUsage rt σ f.model usage f.principal.keyid).1.Labelled σ n methods := h.recordUsage
  cases finishUnstreamed_cases rt σ w f started now u resp with
  | unparsed _ hm =>
      rw [hm]
      exact h.reject _ _ _
  | unread _ _ hm =>
      rw [hm]
      exact h
  | unrecorded _ _ hrec hm =>
      rw [hm]
      exact (congrArg Prod.fst hrec) ▸ hrecord _
  | unlogged _ _ hrec _ hm =>
      rw [hm]
      exact (congrArg Prod.fst hrec) ▸ hrecord _
  | answered _ _ hrec _ hm =>
      rw [hm]
      have hw := (congrArg Prod.fst hrec) ▸ hrecord _
      exact hw.congr rfl rfl

theorem finishStream_labelled (h : w.Labelled σ n methods) :
    (finishStream rt σ w f started now u resp relay pending).1.Labelled σ n methods := by
  obtain ⟨audit, hfst⟩ := finishStream_fst rt σ w f started now u resp relay pending
  have hrec : ((w.releaseSlot f.releaseKeyid).recordUsage rt σ f.model relay.usage
      f.principal.keyid).1.Labelled σ n methods := h.releaseSlot.recordUsage
  rw [hfst]
  exact hrec.congr rfl rfl

theorem settle_labelled (h : w.Labelled σ n methods) :
    (settle rt σ w f started now retry).1.Labelled σ n methods := by
  unfold settle
  split
  · split
    · split <;> exact h
    · exact finishUnstreamed_labelled h.releaseSlot
  · exact leaveCall_labelled h
  · exact h

theorem prepare_labelled (h : w.Labelled σ n methods) :
    (prepare rt σ p w raw started now).1.Labelled σ n methods := by
  unfold prepare
  split
  · exact h
  · exact h.reject _ _ _
  · split
    · split
      · exact h.reject _ _ _
      · exact h.congr rfl rfl
    · exact h

theorem leaveDrain_labelled (h : w.Labelled σ n methods) :
    (leaveDrain rt w f started now resp pending).1.Labelled σ n methods := by
  unfold leaveDrain
  split
  · exact leaveCall_labelled h
  · exact leaveCall_labelled (h.reject _ _ _)

/-! ## The retry loop and the relay -/

namespace UpstreamPool

variable {q : UpstreamPool} {exclude : Option Str}

theorem pick_urls : (q.pick σ exclude now).2.urls = q.urls := by
  unfold pick
  split
  · rfl
  · split <;> rfl

theorem record_urls {outcome : Outcome} : (q.record u outcome now).urls = q.urls := by
  unfold record
  split <;> rfl

end UpstreamPool

namespace Retry

variable {m a : ℕ} {stream : Bool} {pool pool' : UpstreamPool} {body : Fields}
  {exclude : Option Str} {calls : List MetricCall} {retry' : Retry} {x : Input}

variable (σ n methods) in
/-- The pool keeps its replicas, and what is counted is in the vocabulary. -/
def Counts (pool pool' : UpstreamPool) (calls : List MetricCall) : Prop :=
  pool'.urls = pool.urls ∧ ∀ c ∈ calls, c.series ∈ vocabulary σ n methods

theorem Counts.nil (h : pool'.urls = pool.urls) : Counts σ n methods pool pool' [] :=
  ⟨h, fun c hc ↦ by cases hc⟩

theorem recorded_counts {outcome : Outcome} (hn : pool.urls.length = n)
    (h : recorded m stream pool a u outcome now = (pool', calls, retry')) :
    Counts σ n methods pool pool' calls := by
  cases h
  refine ⟨UpstreamPool.record_urls, ?_⟩
  intro c hc
  rw [List.mem_singleton.mp hc]
  exact upstreamRequest_mem hn u outcome

theorem start_counts (hn : pool.urls.length = n)
    (h : start rt σ m stream pool body a exclude now = (pool', calls, retry')) :
    Counts σ n methods pool pool' calls := by
  have hpick : (pool.pick σ exclude now).2.urls = pool.urls := UpstreamPool.pick_urls
  cases h ▸ start_cases rt σ m stream pool body a exclude now with
  | refused hp hs =>
      cases hs
      rw [hp] at hpick
      exact .nil hpick
  | unencoded hp henc hs =>
      rw [hp] at hpick
      obtain ⟨hurls, hcalls⟩ := recorded_counts (hpick ▸ hn) hs.symm
      exact ⟨hurls.trans hpick, hcalls⟩
  | sent hp henc hs =>
      cases hs
      rw [hp] at hpick
      exact .nil hpick

theorem resume_counts (hn : pool.urls.length = n)
    (h : retry.resume rt σ m stream pool body x now = some (pool', calls, retry')) :
    Counts σ n methods pool pool' calls := by
  cases resumes_of_resume h with
  | ended hr ho hs => exact recorded_counts hn hs.symm
  | closed hr hx hs =>
      cases hs
      exact .nil rfl
  | woken hr hx hs => exact start_counts hn hs.symm
  | thrown hx hf hs =>
      cases hs
      exact .nil rfl

end Retry

theorem afterRetry_labelled {pool : UpstreamPool} {calls : List MetricCall}
    (h : w.Labelled σ n methods) (hc : Retry.Counts σ n methods w.pool pool calls) :
    (afterRetry rt σ w f started now (pool, calls, retry)).1.Labelled σ n methods := by
  apply settle_labelled
  have hcount := h.count hc.2
  exact ⟨hc.1 ▸ h.urls, hcount.calls⟩

theorem fail_counts (r : Relay) : ∀ c ∈ r.fail.1, c.series ∈ vocabulary σ n methods := by
  intro c hc
  rw [List.mem_singleton.mp hc]
  exact recordRejection_mem _

theorem onChunk_counts (model : Value) (r : Relay) (chunk : Bytes) :
    ∀ c ∈ (r.onChunk rt σ model chunk).1, c.series ∈ vocabulary σ n methods := by
  have hfirst : ∀ c ∈ r.firstByteSeen σ model chunk, c.series ∈ vocabulary σ n methods := by
    intro c hc
    unfold Relay.firstByteSeen at hc
    split at hc
    · rw [List.mem_singleton.mp hc]
      exact timeToFirstToken_mem model
    · cases hc
  unfold Relay.onChunk
  dsimp only
  split
  · exact hfirst
  · intro c hc
    rcases List.mem_append.mp hc with hc | hc
    · exact hfirst c hc
    · exact fail_counts _ c hc

theorem relay_counts {model : Value} {x : Input} {calls : List MetricCall} {relay' : Relay}
    (h : relay.resume rt σ model x = some (calls, relay')) :
    ∀ c ∈ calls, c.series ∈ vocabulary σ n methods := by
  have none_counted : ∀ c ∈ ([] : List MetricCall), c.series ∈ vocabulary σ n methods := by
    intro c hc
    cases hc
  unfold Relay.resume at h
  split at h
  · rename_i b hpoint
    have hc : ∀ c ∈ (relay.onChunk rt σ model b).1, c.series ∈ vocabulary σ n methods :=
      onChunk_counts model relay b
    rw [Option.some.inj h] at hc
    exact hc
  · cases h; exact none_counted
  · split at h
    · have hc : ∀ c ∈ relay.fail.1, c.series ∈ vocabulary σ n methods := fail_counts relay
      rw [Option.some.inj h] at hc
      exact hc
    · cases h; exact none_counted
  all_goals first | (cases h; exact none_counted) | cases h

variable {phase : Phase} {x : Input} {m : World × Phase}

/-- A step of a request keeps the replicas, and counts within the vocabulary. -/
theorem Moves.labelled (h : Moves rt σ p started now w phase x m) (hw : w.Labelled σ n methods) :
    m.1.Labelled σ n methods := by
  cases h with
  | aborted g => exact hw
  | @refused raw w₁ e hp =>
      have h₁ : (prepare rt σ p w raw started now).1.Labelled σ n methods := prepare_labelled hw
      rw [hp] at h₁
      exact h₁
  | @admitted raw w₁ f pool calls retry hp hs =>
      have h₁ : (prepare rt σ p w raw started now).1.Labelled σ n methods := prepare_labelled hw
      rw [hp] at h₁
      exact afterRetry_labelled h₁ (Retry.start_counts h₁.urls hs)
  | @called f retry retry' x pool calls hr =>
      exact afterRetry_labelled hw (Retry.resume_counts hw.urls hr)
  | drained => exact hw
  | drainEnded _ => exact hw
  | drainClosed => exact leaveDrain_labelled hw
  | drainFailed g => exact leaveCall_labelled hw
  | opened => exact hw
  | dropped => exact hw
  | relayed hpoint hr => exact hw.count (relay_counts hr)
  | finished hpoint => exact finishStream_labelled hw
  | closeFailed g hpoint => exact hw

end Segments

end InferenceGateway
