import Mathlib.Algebra.Order.BigOperators.Group.List
import Mathlib.Data.List.Dedup
import InferenceGateway.Cardinality.Labels
import InferenceGateway.Cardinality.Statuses
import InferenceGateway.Sample

/-!
# How many series there can be

Every series the gateway exposes is of the vocabulary, with one exception.
`MetricsMiddleware._record` takes the method token of the request as it is.  So the
exposition stays within the vocabulary exactly as long as the recorded requests have
methods of the set that was fixed (`Gateway.series_bounded_iff`).
-/

namespace InferenceGateway

open Py Transition

variable {rt : Runtime} {σ : Settings} {n : ℕ} {methods : List Str}

/-! ## The process -/

/-- What resumes a request brings a status of three digits, if it brings one. -/
def Event.ThreeDigit : Event → Prop
  | .resume _ x _ => x.ThreeDigit
  | _ => True

namespace System

variable {s s' : System} {e : Event}

theorem visit_urls (ds : Detectors) (started now : ℚ) (q : UpstreamPool) (left : List Str) :
    (visit ds started now q left).1.urls = q.urls := by
  induction left generalizing q with
  | nil => rfl
  | cons url left ih =>
      rw [visit]
      split_ifs
      · exact ih _
      · rfl
      · exact ih _

theorem runProber_labelled {started now : ℚ} {q : UpstreamPool} {left : List Str}
    (h : s.world.Labelled σ n methods) (hq : q.urls = s.world.pool.urls) :
    (s.runProber started now q left).world.Labelled σ n methods := by
  refine ⟨?_, h.calls⟩
  exact (congrArg List.length ((visit_urls s.detectors started now q left).trans hq)).trans h.urls

/-- A step of the process keeps the replicas, and counts within the vocabulary. -/
theorem labelled_of_moves (hs : Moves rt σ s e s') (h : s.world.Labelled σ n methods) :
    s'.world.Labelled σ n methods := by
  cases hs with
  | arrive p now => exact h
  | resume hr hm => exact hm.labelled h
  | poll now hs => exact h
  | scraped result now hs => exact h
  | tick now hs => exact runProber_labelled h rfl
  | probed ok now hs => exact runProber_labelled h rfl

/-- Every request has received statuses of three digits only. -/
def ThreeDigit (s : System) : Prop := ∀ r ∈ s.requests, r.phase.ThreeDigit

theorem threeDigit_of_moves (hs : Moves rt σ s e s') (h : s.ThreeDigit) (he : e.ThreeDigit) :
    s'.ThreeDigit := by
  cases hs with
  | arrive p now =>
      intro r hr
      rcases List.mem_append.mp hr with hr | hr
      · exact h r hr
      · rw [List.mem_singleton.mp hr]
        trivial
  | resume hreq hm =>
      intro r hr
      rcases List.mem_or_eq_of_mem_set hr with hr | rfl
      · exact h r hr
      · exact hm.threeDigit (h _ (List.mem_of_getElem? hreq)) he
  | poll now hs => exact h
  | scraped result now hs => exact h
  | tick now hs => exact h
  | probed ok now hs => exact h

end System

/-! ## The middleware and the scraper -/

theorem routeLabel_mem (fw : Framework) (v : Visit) : v.routeLabel fw ∈ routeLabels := by
  unfold Visit.routeLabel
  split
  · rename_i r hr
    exact List.mem_cons_of_mem _ (List.mem_map_of_mem (fw.route_mem v.path r hr))
  · exact List.mem_cons_self

theorem outcomeOf_mem (status : ℕ) :
    outcomeOf status ∈ ["success", "client_error", "server_error"] := by
  unfold outcomeOf
  split_ifs <;> decide

/-- What the middleware keeps of a request, the method apart, is in the vocabulary. -/
structure Visit.Sound (v : Visit) : Prop where
  status : ThreeDigit v.status
  authMethod : str v.authMethod ∈ authMethods

/-- The record of a request is in the vocabulary if its method is. -/
theorem record_mem {fw : Framework} {v : Visit} (hv : v.Sound)
    (hm : v.routeLabel fw ≠ str "/metrics" → v.method ∈ methods) :
    ∀ x ∈ v.record fw, x ∈ vocabulary σ n methods := by
  intro x hx
  unfold Visit.record at hx
  split at hx
  · cases hx
  · rename_i hroute
    rcases List.mem_pair.mp hx with rfl | rfl
    · refine mem_vocabulary.mpr
        ⟨[routeLabels, methods, statusLabels, authMethods], by simp [families], ?_⟩
      exact .cons (routeLabel_mem fw v) (.cons (hm hroute)
        (.cons (mem_statusLabels hv.status) (.cons hv.authMethod .nil)))
    · refine mem_vocabulary.mpr
        ⟨[routeLabels, ["success", "client_error", "server_error"].map str], by simp [families], ?_⟩
      exact .cons (routeLabel_mem fw v) (.cons (List.mem_map_of_mem (outcomeOf_mem v.status)) .nil)

/-- The one label of a recorded request that can be outside the vocabulary. -/
theorem method_mem_of_record {fw : Framework} {v : Visit}
    (hroute : v.routeLabel fw ≠ str "/metrics")
    (h : ∀ x ∈ v.record fw, x ∈ vocabulary σ n methods) : v.method ∈ methods := by
  unfold Visit.record at h
  rw [if_neg hroute] at h
  obtain ⟨sets, hfam, hl⟩ := mem_vocabulary.mp (h _ List.mem_cons_self)
  have hsets : sets = [routeLabels, methods, statusLabels, authMethods] := by
    simpa [families] using hfam
  subst hsets
  cases hl with
  | cons _ hl =>
      cases hl with
      | cons hmethod _ => exact hmethod

theorem plainStatus_threeDigit (fw : Framework) (healthy : Bool) (v : Visit) :
    ThreeDigit (v.plainStatus fw healthy) := by
  unfold Visit.plainStatus
  split
  · exact fw.own_status v.method v.path
  · split_ifs <;> decide

theorem authMethod_mem (caller : Caller) : str caller.principal.method ∈ authMethods := by
  cases caller <;> simp [Caller.principal, authMethods]

theorem scrape_mem {label : Str} (hl : label ∈ upstreamLabels n) (seen : Bool) (scrape : Scrape) :
    ∀ x ∈ scrape.series label seen, x ∈ vocabulary σ n methods := by
  have gauge : ∀ metric ∈ ["upstream_up", "upstream_scrape_age_seconds",
      "upstream_wedge_stall_seconds", "upstream_wedge_suspected"],
      (⟨metric, [label]⟩ : Series) ∈ vocabulary σ n methods := by
    intro metric hm
    refine mem_vocabulary.mpr ⟨[upstreamLabels n], ?_, .cons hl .nil⟩
    simp only [List.mem_cons, List.not_mem_nil, or_false] at hm
    rcases hm with rfl | rfl | rfl | rfl <;> simp [families]
  have failed : ∀ kind, scrape.kind? = some kind →
      kind ∈ ["http_status", "timeout", "connect", "parse"] := by
    intro kind hk
    cases scrape with
    | answered statusCode snapshot =>
        simp only [Scrape.kind?] at hk
        split_ifs at hk <;> cases hk <;> decide
    | raised timeout =>
        cases hk
        cases timeout <;> decide
  intro x hx
  unfold Scrape.series at hx
  split at hx
  · simp only [List.mem_cons, List.not_mem_nil, or_false] at hx
    rcases hx with rfl | rfl | rfl | rfl <;> exact gauge _ (by simp)
  · rename_i kind hk
    rcases List.mem_append.mp hx with hx | hx
    · rcases List.mem_pair.mp hx with rfl | rfl
      · refine mem_vocabulary.mpr ⟨[upstreamLabels n,
          ["http_status", "timeout", "connect", "parse"].map str], by simp [families], ?_⟩
        exact .cons hl (.cons (List.mem_map_of_mem (failed kind hk)) .nil)
      · exact gauge _ (by simp)
    · split at hx
      · rw [List.mem_singleton.mp hx]
        exact gauge _ (by simp)
      · cases hx

theorem refusedTokens_mem (model : Value) (usage : Fields) :
    ∀ x ∈ refusedTokens rt σ model usage, x ∈ vocabulary σ n methods := by
  intro x hx
  unfold refusedTokens at hx
  dsimp only at hx
  split_ifs at hx
  · rw [List.mem_singleton.mp hx]
    exact tokens_mem model (by decide)
  · rw [List.mem_singleton.mp hx]
    exact tokens_mem model (by decide)
  · cases hx

/-! ## Runs -/

/-- A replica answers with a status of three digits: what `httpx` parses has no other. -/
def Traffic.ThreeDigit : Traffic → Prop
  | .resumed _ x _ => x.ThreeDigit
  | _ => True

namespace Gateway

variable {fw : Framework} {g g' : Gateway} {e : Traffic} {es : List Traffic} {urls : List Str}
  {h : urls ≠ []}

variable (fw) in
/-- The request that the middleware records in this step. -/
def recorded (g : Gateway) : Traffic → Option Visit
  | .left i _ => g.visits[i]?.filter fun v ↦ v.routeLabel fw ≠ str "/metrics"
  | _ => none

/-- If the step records a request, its method is of the set. -/
def Meets (fw : Framework) (methods : List Str) (g : Gateway) (e : Traffic) : Prop :=
  ∀ v, g.recorded fw e = some v → v.method ∈ methods

variable (σ n methods) in
/-- What the gateway keeps and does not expose yet is in the vocabulary too. -/
structure Sound (g : Gateway) : Prop where
  world : g.system.world.Labelled σ n methods
  system : g.system.ThreeDigit
  visits : ∀ v ∈ g.visits, v.Sound

theorem Sound.start : (start urls h).Sound σ urls.length methods := by
  refine ⟨⟨rfl, ?_⟩, ?_, ?_⟩
  · intro c hc; cases hc
  · intro r hr; cases hr
  · intro v hv; cases hv

/-- A request in the middleware is replaced by one that is fit to be recorded. -/
theorem sound_set {i : ℕ} {v : Visit} (hg : ∀ v ∈ g.visits, v.Sound) (hv : v.Sound) :
    ∀ v' ∈ g.visits.set i v, v'.Sound := by
  intro v' hv'
  rcases List.mem_or_eq_of_mem_set hv' with hv' | heq
  · exact hg v' hv'
  · rw [heq]
    exact hv

/-- A step of the process underneath. -/
theorem Sound.system_step {system : System} {e : Event} (hg : g.Sound σ n methods)
    (hs : g.system.step rt σ e = some system) (he : e.ThreeDigit) :
    system.world.Labelled σ n methods ∧ system.ThreeDigit :=
  have hmoves := System.moves_of_step hs
  ⟨System.labelled_of_moves hmoves hg.world, System.threeDigit_of_moves hmoves hg.system he⟩

/-- The record of a request that leaves is in the vocabulary if and only if the step meets
the condition. -/
theorem left_meets {i : ℕ} {raised : Bool} {v v' : Visit} (hget : g.visits[i]? = some v)
    (hpath : v'.path = v.path) (hmethod : v'.method = v.method) (hv' : v'.Sound) :
    (∀ x ∈ v'.record fw, x ∈ vocabulary σ n methods) ↔ Meets fw methods g (.left i raised) := by
  have hroute : v'.routeLabel fw = v.routeLabel fw := by rw [Visit.routeLabel, hpath]; rfl
  have hrec : g.recorded fw (.left i raised) =
      (some v).filter fun v ↦ v.routeLabel fw ≠ str "/metrics" := by rw [recorded, hget]
  constructor
  · intro hx v₀ hv₀
    rw [hrec, Option.filter_eq_some_iff] at hv₀
    obtain ⟨heq, hne⟩ := hv₀
    cases heq
    rw [← hmethod]
    apply method_mem_of_record _ hx
    rw [hroute]
    exact of_decide_eq_true hne
  · intro hmeets
    apply record_mem hv'
    intro hne
    rw [hmethod]
    apply hmeets v
    rw [hrec, Option.filter_eq_some_iff]
    exact ⟨rfl, decide_eq_true (hroute ▸ hne)⟩

/-- A step that records no request, and makes series of the vocabulary only, meets the
condition. -/
theorem meets_of_quiet {new : List Series} (hnone : g.recorded fw e = none)
    (hnew : ∀ x ∈ new, x ∈ vocabulary σ n methods) :
    (∀ x ∈ new, x ∈ vocabulary σ n methods) ↔ Meets fw methods g e := by
  constructor
  · intro _ v hv
    rw [hnone] at hv
    cases hv
  · exact fun _ ↦ hnew

/-- A step that makes no series. -/
theorem meets_of_silent (hnone : g.recorded fw e = none) (hmade : g'.made = g.made) :
    ∃ new, g'.made = g.made ++ new ∧
      ((∀ x ∈ new, x ∈ vocabulary σ n methods) ↔ Meets fw methods g e) := by
  refine ⟨[], hmade.trans (List.append_nil _).symm, meets_of_quiet hnone ?_⟩
  intro x hx
  cases hx

theorem Sound.entered {method path : Str} (hg : g.Sound σ n methods)
    (hs : Steps (step fw rt σ) g (.enter method path) g') :
    g'.Sound σ n methods ∧ g'.made = g.made := by
  cases hs
  refine ⟨⟨hg.world, hg.system, ?_⟩, rfl⟩
  intro v hv
  rcases List.mem_append.mp hv with hv | hv
  · exact hg.visits v hv
  · rw [List.mem_singleton.mp hv]
    constructor
    · show ThreeDigit 500
      decide
    · show str "none" ∈ authMethods
      decide

theorem Sound.authenticated {i : ℕ} {caller : Caller} {now : ℚ} (hg : g.Sound σ n methods)
    (hs : Steps (step fw rt σ) g (.authenticated i caller now) g') :
    g'.Sound σ n methods ∧ g'.made = g.made := by
  obtain ⟨v, hv, hs⟩ := Option.bind_eq_some_iff.mp hs
  obtain ⟨r, -, hs⟩ := Option.bind_eq_some_iff.mp hs
  have hsound : v.Sound := hg.visits v (List.mem_of_getElem? hv)
  dsimp only at hs
  split at hs
  · obtain ⟨system, harrive, hs⟩ := Option.bind_eq_some_iff.mp hs
    cases hs
    obtain ⟨hworld, hthree⟩ := hg.system_step harrive trivial
    refine ⟨⟨hworld, hthree, ?_⟩, rfl⟩
    exact sound_set hg.visits ⟨hsound.status, authMethod_mem caller⟩
  · cases hs
    refine ⟨⟨hg.world, hg.system, ?_⟩, rfl⟩
    exact sound_set hg.visits ⟨hsound.status, authMethod_mem caller⟩

theorem Sound.answered {i : ℕ} {healthy : Bool} (hg : g.Sound σ n methods)
    (hs : Steps (step fw rt σ) g (.answered i healthy) g') :
    g'.Sound σ n methods ∧ g'.made = g.made := by
  obtain ⟨v, hv, hs⟩ := Option.bind_eq_some_iff.mp hs
  have hsound : v.Sound := hg.visits v (List.mem_of_getElem? hv)
  cases hreq : v.request with
  | none =>
      rw [hreq] at hs
      cases hs
      refine ⟨⟨hg.world, hg.system, ?_⟩, rfl⟩
      exact sound_set hg.visits ⟨plainStatus_threeDigit fw healthy v, hsound.authMethod⟩
  | some j =>
      rw [hreq] at hs
      obtain ⟨r, hr, hs⟩ := Option.bind_eq_some_iff.mp hs
      obtain ⟨status, hsent, hs⟩ := Option.bind_eq_some_iff.mp hs
      cases hs
      have hthree : ThreeDigit status :=
        Phase.sent_threeDigit (hg.system r (List.mem_of_getElem? hr)) hsent
      refine ⟨⟨hg.world, hg.system, ?_⟩, rfl⟩
      exact sound_set hg.visits ⟨hthree, hsound.authMethod⟩

/-- The only step that records a request. -/
theorem Sound.left {i : ℕ} {raised : Bool} (hg : g.Sound σ n methods)
    (hs : Steps (step fw rt σ) g (.left i raised) g') :
    g'.Sound σ n methods ∧ ∃ new, g'.made = g.made ++ new ∧
      ((∀ x ∈ new, x ∈ vocabulary σ n methods) ↔ Meets fw methods g (.left i raised)) := by
  obtain ⟨v, hv, hs⟩ := Option.bind_eq_some_iff.mp hs
  have hsound : v.Sound := hg.visits v (List.mem_of_getElem? hv)
  have hleft : ∀ v' ∈ g.visits.eraseIdx i, v'.Sound :=
    fun v' hv' ↦ hg.visits v' (List.mem_of_mem_eraseIdx hv')
  cases raised with
  | true =>
      cases hs
      refine ⟨⟨hg.world, hg.system, hleft⟩, _, rfl, left_meets hv rfl rfl ?_⟩
      exact ⟨show ThreeDigit 500 by decide, hsound.authMethod⟩
  | false =>
      cases hs
      exact ⟨⟨hg.world, hg.system, hleft⟩, _, rfl, left_meets hv rfl rfl hsound⟩

theorem Sound.scraped {scrape : Scrape} {now : ℚ} (hg : g.Sound σ n methods)
    (hs : Steps (step fw rt σ) g (.scraped scrape now) g') :
    g'.Sound σ n methods ∧ ∃ new, g'.made = g.made ++ new ∧
      ∀ x ∈ new, x ∈ vocabulary σ n methods := by
  rw [Steps, Gateway.step] at hs
  cases hscr : g.system.scraper with
  | asleep =>
      rw [hscr] at hs
      cases hs
  | scraping started url left =>
      rw [hscr] at hs
      obtain ⟨system, hstep, hs⟩ := Option.bind_eq_some_iff.mp hs
      cases hs
      obtain ⟨hworld, hthree⟩ := hg.system_step hstep trivial
      refine ⟨⟨hworld, hthree, hg.visits⟩, _, rfl, ?_⟩
      apply scrape_mem
      apply mem_upstreamLabels
      have hpos : 0 < n := hg.world.urls ▸ List.length_pos_iff.mpr g.system.world.pool.urls_ne_nil
      rw [hg.world.urls]
      omega

theorem Sound.resumed {j : ℕ} {x : Input} {now : ℚ} (hg : g.Sound σ n methods)
    (hs : Steps (step fw rt σ) g (.resumed j x now) g') (hx : x.ThreeDigit) :
    g'.Sound σ n methods ∧ ∃ new, g'.made = g.made ++ new ∧
      ∀ x ∈ new, x ∈ vocabulary σ n methods := by
  obtain ⟨r, -, hs⟩ := Option.bind_eq_some_iff.mp hs
  obtain ⟨system, hstep, hs⟩ := Option.bind_eq_some_iff.mp hs
  cases hs
  obtain ⟨hworld, hthree⟩ := hg.system_step hstep hx
  refine ⟨⟨hworld, hthree, hg.visits⟩, _, rfl, ?_⟩
  cases usage? rt σ g.system.world r.phase x now with
  | none =>
      intro y hy
      cases hy
  | some u => exact refusedTokens_mem u.1 u.2

/-- A turn of a background task is a step of the process. -/
theorem of_background {e : Event} (hs : Steps (step fw rt σ) g (.background e) g') :
    ∃ system, g.system.step rt σ e = some system ∧ g' = { g with system } ∧ e.ThreeDigit := by
  cases e with
  | poll now =>
      obtain ⟨system, hstep, rfl⟩ := Option.map_eq_some_iff.mp hs
      exact ⟨system, hstep, rfl, trivial⟩
  | tick now =>
      obtain ⟨system, hstep, rfl⟩ := Option.map_eq_some_iff.mp hs
      exact ⟨system, hstep, rfl, trivial⟩
  | probed ok now =>
      obtain ⟨system, hstep, rfl⟩ := Option.map_eq_some_iff.mp hs
      exact ⟨system, hstep, rfl, trivial⟩
  | _ => cases hs

/-- One step: the invariant is kept, and the series that are made are in the vocabulary if
and only if the method of a request recorded here is in the set. -/
theorem Sound.step (hg : g.Sound σ n methods) (hs : Steps (step fw rt σ) g e g')
    (he : e.ThreeDigit) : g'.Sound σ n methods ∧ ∃ new, g'.made = g.made ++ new ∧
      ((∀ x ∈ new, x ∈ vocabulary σ n methods) ↔ Meets fw methods g e) := by
  cases e with
  | enter method path =>
      obtain ⟨hg', hmade⟩ := hg.entered hs
      exact ⟨hg', meets_of_silent rfl hmade⟩
  | authenticated i caller now =>
      obtain ⟨hg', hmade⟩ := hg.authenticated hs
      exact ⟨hg', meets_of_silent rfl hmade⟩
  | answered i healthy =>
      obtain ⟨hg', hmade⟩ := hg.answered hs
      exact ⟨hg', meets_of_silent rfl hmade⟩
  | left i raised => exact hg.left hs
  | scraped scrape now =>
      obtain ⟨hg', new, hmade, hnew⟩ := hg.scraped hs
      exact ⟨hg', new, hmade, meets_of_quiet rfl hnew⟩
  | resumed j x now =>
      obtain ⟨hg', new, hmade, hnew⟩ := hg.resumed hs he
      exact ⟨hg', new, hmade, meets_of_quiet rfl hnew⟩
  | background e =>
      obtain ⟨system, hstep, rfl, hthree⟩ := of_background hs
      obtain ⟨hworld, hthree⟩ := hg.system_step hstep hthree
      exact ⟨⟨hworld, hthree, hg.visits⟩, meets_of_silent rfl rfl⟩

/-- A run: what it makes is in the vocabulary if and only if all its steps meet the
condition. -/
theorem made_iff_of_run (hrun : Run (Guarded (Steps (step fw rt σ)) fun _ e ↦ e.ThreeDigit) g es g')
    (hg : g.Sound σ n methods) : g'.Sound σ n methods ∧
      ((∀ x ∈ g'.made, x ∈ vocabulary σ n methods) ↔ (∀ x ∈ g.made, x ∈ vocabulary σ n methods) ∧
        Run (Guarded (Steps (step fw rt σ)) fun g e ↦ Meets fw methods g e) g es g') := by
  induction hrun with
  | nil g => exact ⟨hg, fun hx ↦ ⟨hx, .nil g⟩, And.left⟩
  | @cons g g₁ g' e es hs hrun ih =>
      obtain ⟨hg₁, new, hnew, hmeets⟩ := hg.step hs.1 hs.2
      obtain ⟨hg', hiff⟩ := ih hg₁
      refine ⟨hg', hiff.trans ?_⟩
      rw [hnew]
      constructor
      · rintro ⟨hmade, hrest⟩
        refine ⟨fun x hx ↦ hmade x (List.mem_append_left _ hx), .cons ⟨hs.1, ?_⟩ hrest⟩
        exact hmeets.mp fun x hx ↦ hmade x (List.mem_append_right _ hx)
      · rintro ⟨hmade, hall⟩
        obtain ⟨g₂, ⟨hs₂, hmeets₂⟩, hrest⟩ := Run.cons_iff.mp hall
        obtain rfl : g₁ = g₂ := Option.some.inj (hs.1.symm.trans hs₂)
        refine ⟨?_, hrest⟩
        intro x hx
        rcases List.mem_append.mp hx with hx | hx
        · exact hmade x hx
        · exact hmeets.mpr hmeets₂ x hx

/-- Whatever requests come in and whatever the replicas answer, the exposition is within
the vocabulary, and so has no more series than it, if and only if every request that is
recorded has a method of the set. -/
theorem series_bounded_iff (fw : Framework) (rt : Runtime) (σ : Settings) (urls : List Str)
    (h : urls ≠ []) (methods : List Str) {es : List Traffic} {g : Gateway}
    (hrun : Run (Guarded (Steps (step fw rt σ)) fun _ e ↦ e.ThreeDigit) (start urls h) es g) :
    ((∀ x ∈ g.exposed, x ∈ vocabulary σ urls.length methods) ∧
        g.exposed.dedup.length ≤ (vocabulary σ urls.length methods).length) ↔
      Run (Guarded (Steps (step fw rt σ)) fun g e ↦ Meets fw methods g e) (start urls h) es g := by
  have hstart : (start urls h).Sound σ urls.length methods := Sound.start
  obtain ⟨hg, hiff⟩ := made_iff_of_run hrun hstart
  have hmade : (∀ x ∈ g.made, x ∈ vocabulary σ urls.length methods) ↔
      Run (Guarded (Steps (step fw rt σ)) fun g e ↦ Meets fw methods g e) (start urls h) es g := by
    rw [hiff, and_iff_right]
    intro x hx
    cases hx
  rw [← hmade]
  constructor
  · rintro ⟨hexposed, -⟩ x hx
    exact hexposed x (List.mem_append_left _ (List.mem_append_right _ hx))
  · intro hx
    have hexposed : ∀ x ∈ g.exposed, x ∈ vocabulary σ urls.length methods := by
      intro x hmem
      rcases List.mem_append.mp hmem with hmem | hmem
      · rcases List.mem_append.mp hmem with hmem | hmem
        · refine mem_vocabulary.mpr ⟨[], ?_, ?_⟩
          · rcases List.mem_pair.mp hmem with rfl | rfl <;> simp [families]
          · rcases List.mem_pair.mp hmem with rfl | rfl <;> exact .nil
        · exact hx x hmem
      · obtain ⟨c, hc, rfl⟩ := List.mem_map.mp hmem
        exact hg.world.calls c hc
    refine ⟨hexposed, ?_⟩
    apply List.Subperm.length_le
    apply List.subperm_of_subset (List.nodup_dedup _)
    intro x hmem
    exact hexposed x (List.mem_dedup.mp hmem)

/-! ## A method nobody fixed -/

/-- A framework for paths that are a route or nothing. -/
def sampleFramework : Framework where
  route path := ROUTES.find? fun r ↦ r.path = path
  route_mem _ _ hr := List.mem_of_find?_eq_some hr
  own _ path := if (ROUTES.find? fun r ↦ r.path = path).isSome then 405 else 404
  own_status _ _ := by split_ifs <;> decide

/-- A request without a credential, up to its end. -/
def anonymous (method path : Str) : List Traffic := [.enter method path, .answered 0 true, .left 0 false]

/-- The request when it leaves. -/
def answeredVisit (method path : Str) : Visit :=
  { method, path, status := Visit.plainStatus sampleFramework true { method, path } }

/-- A process with one replica. -/
def sampleStart : Gateway := { system := sampleSystem }

/-- The process after the request. -/
def afterAnonymous (method path : Str) : Gateway :=
  { sampleStart with made := (answeredVisit method path).record sampleFramework }

theorem anonymous_run (method path : Str) :
    Run (Guarded (Steps (step sampleFramework .sample .default)) fun _ e ↦ e.ThreeDigit)
      sampleStart (anonymous method path) (afterAnonymous method path) :=
  .cons ⟨rfl, trivial⟩ (.cons ⟨rfl, trivial⟩ (.cons ⟨rfl, trivial⟩ (.nil _)))

/-- `GET /healthz`, where `GET` is the whole set. -/
theorem series_bounded_iff_get :
    Run (Guarded (Steps (step sampleFramework .sample .default))
        fun g e ↦ Meets sampleFramework [str "GET"] g e)
      sampleStart (anonymous (str "GET") (str "/healthz"))
      (afterAnonymous (str "GET") (str "/healthz")) ∧
    ∀ x ∈ (afterAnonymous (str "GET") (str "/healthz")).exposed,
      x ∈ vocabulary .default 1 [str "GET"] := by
  have hmeets : Run (Guarded (Steps (step sampleFramework .sample .default))
      fun g e ↦ Meets sampleFramework [str "GET"] g e) sampleStart
      (anonymous (str "GET") (str "/healthz")) (afterAnonymous (str "GET") (str "/healthz")) := by
    refine .cons ⟨rfl, ?_⟩ (.cons ⟨rfl, ?_⟩ (.cons ⟨rfl, ?_⟩ (.nil _)))
    · intro v hv
      cases hv
    · intro v hv
      cases hv
    · intro v hv
      rw [recorded, Option.filter_eq_some_iff] at hv
      cases hv.1
      exact List.mem_cons_self
  have hbounded := (series_bounded_iff sampleFramework .sample .default [sampleUrl]
    (List.cons_ne_nil _ _) [str "GET"] (anonymous_run (str "GET") (str "/healthz"))).mpr hmeets
  exact ⟨hmeets, hbounded.1⟩

/-- No finite set of methods does: an anonymous request with a longer one leaves its own
series. -/
theorem method_escapes : ¬∃ methods : List Str, ∀ (es : List Traffic) (g : Gateway),
    Run (Guarded (Steps (step sampleFramework .sample .default)) fun _ e ↦ e.ThreeDigit)
      sampleStart es g → ∀ x ∈ g.exposed, x ∈ vocabulary .default 1 methods := by
  rintro ⟨methods, hall⟩
  let token : Str := List.replicate ((methods.map List.length).sum + 1) 65
  have hexposed := hall _ _ (anonymous_run token (str "/x"))
  have hrecord : ∀ x ∈ (answeredVisit token (str "/x")).record sampleFramework,
      x ∈ vocabulary .default 1 methods := by
    intro x hx
    apply hexposed
    exact List.mem_append_left _ (List.mem_append_right _ hx)
  have hunmatched : (answeredVisit token (str "/x")).routeLabel sampleFramework ≠ str "/metrics" := by
    show str "__unmatched__" ≠ str "/metrics"
    decide
  have hmem : token ∈ methods := method_mem_of_record hunmatched hrecord
  have hle : token.length ≤ (methods.map List.length).sum :=
    List.single_le_sum (fun _ _ ↦ Nat.zero_le _) _ (List.mem_map_of_mem hmem)
  rw [List.length_replicate] at hle
  omega

end Gateway

end InferenceGateway
