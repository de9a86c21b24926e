import InferenceGateway.Sample

/-!
# Concurrency slots

A key's in-flight count is, in every reachable state, the number of its requests
that were granted a slot and have not given it back (`System.Accounted`).  From
this come the cap, and what a leaked slot is: the count never comes down again,
because the request that held it is over.

A request that ends gives its slot back, except where `Phase.loses` says it does
not (`Request.Balanced.moved`).
-/

namespace InferenceGateway

open Py Transition

/-! ## One request -/

namespace Request

/-- The request was granted a slot of `k` and has not given it back. -/
def holds (k : Str) (r : Request) : Bool :=
  r.principal.keyid = some k && decide (r.releases < r.acquires)

/-- The totals of a request agree with the slot it carries. -/
structure Balanced (r : Request) : Prop where
  releases_le : r.releases ≤ r.acquires
  acquires_le : r.acquires ≤ 1
  slot : ∀ k, r.phase.slot = some k →
    r.principal.keyid = some k ∧ r.acquires = 1 ∧ r.releases = 0
  idle : r.phase.slot = none → r.phase.isEnded = false → r.acquires = 0

variable {rt : Runtime} {σ : Settings} {r : Request} {w : World} {m : World × Phase} {x : Input}
  {now : ℚ} {k : Str} {s : Slots}

/-- A request that just came in. -/
theorem Balanced.fresh (p : Principal) (started : ℚ) :
    Balanced { principal := p, started } :=
  ⟨le_rfl, Nat.zero_le _, fun _ h ↦ (by cases h), fun _ _ ↦ rfl⟩

/-- A request that is over is balanced if its totals are in order. -/
theorem Balanced.of_isEnded (he : r.phase.isEnded = true) (hle : r.releases ≤ r.acquires)
    (hone : r.acquires ≤ 1) : r.Balanced := by
  have hslot : r.phase.slot = none := by
    cases hp : r.phase <;> rw [hp] at he <;> first | rfl | cases he
  refine ⟨hle, hone, fun k hk ↦ ?_, fun _ hlive ↦ ?_⟩
  · rw [hslot] at hk
    cases hk
  · rw [he] at hlive
    cases hlive

theorem holds_of_key_ne (h : r.principal.keyid ≠ some k) : r.holds k = false := by
  simp [holds, h]

theorem holds_of_key (h : r.principal.keyid = some k) :
    r.holds k = decide (r.releases < r.acquires) := by
  simp [holds, h]

/-- The totals after a step, by what the step did to the ledger. -/
theorem moved_totals (w : World) (h : m.1.slots = s) :
    (r.moved w m).acquires = r.acquires + (s.acquired - w.acquired) ∧
      (r.moved w m).releases = r.releases + (s.released - w.released) ∧
      m.1.quota.inflight = s.inflight := by
  subst h
  exact ⟨rfl, rfl, rfl⟩

/-- A request that leaves the ledger alone. -/
theorem moved_of_slots_eq (h : m.1.slots = w.slots) :
    (r.moved w m).acquires = r.acquires ∧ (r.moved w m).releases = r.releases ∧
      ∀ k, m.1.quota.inflight k + (r.holds k).toNat =
        w.quota.inflight k + ((r.moved w m).holds k).toNat := by
  obtain ⟨ha, hr, hi⟩ := moved_totals (r := r) w h
  have ha : (r.moved w m).acquires = r.acquires := by simpa [World.slots] using ha
  have hr : (r.moved w m).releases = r.releases := by simpa [World.slots] using hr
  refine ⟨ha, hr, fun k ↦ ?_⟩
  rw [hi, holds, holds, ha, hr]
  rfl

/-- A step that changes the in-flight count of the request's own key only. -/
theorem moved_of_update {n : ℕ} (hk : r.principal.keyid = some k)
    (hi : m.1.quota.inflight = Function.update w.quota.inflight k n)
    (hn : n + (r.holds k).toNat = w.quota.inflight k + ((r.moved w m).holds k).toNat)
    (k' : Str) : m.1.quota.inflight k' + (r.holds k').toNat =
      w.quota.inflight k' + ((r.moved w m).holds k').toNat := by
  by_cases hkk : k' = k
  · subst hkk
    rw [hi, Function.update_self, hn]
  · have hne : r.principal.keyid ≠ some k' := fun h' ↦ hkk (Option.some.inj (h'.symm.trans hk))
    rw [hi, Function.update_of_ne hkk, holds_of_key_ne hne,
      holds_of_key_ne (r := r.moved w m) hne]

/-- A request that gives back the slot it holds. -/
theorem moved_of_release (hk : r.principal.keyid = some k) (ha : r.acquires = 1)
    (hr : r.releases = 0) (hw : (r.holds k).toNat ≤ w.quota.inflight k)
    (h : m.1.slots = w.slots.release (some k)) :
    (r.moved w m).acquires = 1 ∧ (r.moved w m).releases = 1 ∧
      ∀ k', m.1.quota.inflight k' + (r.holds k').toNat =
        w.quota.inflight k' + ((r.moved w m).holds k').toNat := by
  obtain ⟨hma, hmr, hi⟩ := moved_totals (r := r) w h
  have ha' : (r.moved w m).acquires = 1 := by simpa [World.slots, Slots.release, ha] using hma
  have hr' : (r.moved w m).releases = 1 := by simpa [World.slots, Slots.release, hr] using hmr
  have h₁ : r.holds k = true := by simp [holds_of_key hk, ha, hr]
  have h₂ : (r.moved w m).holds k = false := by
    rw [holds_of_key (r := r.moved w m) hk, ha', hr']
    rfl
  refine ⟨ha', hr', moved_of_update hk hi ?_⟩
  rw [h₁] at hw
  rw [h₁, h₂]
  exact Nat.sub_add_cancel hw

/-- A request that is granted a slot and keeps it. -/
theorem moved_of_acquire (hk : r.principal.keyid = some k) (ha : r.acquires = 0)
    (hr : r.releases = 0) (h : m.1.slots = w.slots.acquire k) :
    (r.moved w m).acquires = 1 ∧ (r.moved w m).releases = 0 ∧
      ∀ k', m.1.quota.inflight k' + (r.holds k').toNat =
        w.quota.inflight k' + ((r.moved w m).holds k').toNat := by
  obtain ⟨hma, hmr, hi⟩ := moved_totals (r := r) w h
  have ha' : (r.moved w m).acquires = 1 := by simpa [World.slots, Slots.acquire, ha] using hma
  have hr' : (r.moved w m).releases = 0 := by simpa [World.slots, Slots.acquire, hr] using hmr
  have h₁ : r.holds k = false := by simp [holds_of_key hk, ha, hr]
  have h₂ : (r.moved w m).holds k = true := by
    rw [holds_of_key (r := r.moved w m) hk, ha', hr']
    rfl
  refine ⟨ha', hr', moved_of_update hk hi ?_⟩
  rw [h₁, h₂]
  rfl

/-- A request that is granted a slot and gives it back in the same step. -/
theorem moved_of_acquire_release (ha : r.acquires = 0) (hr : r.releases = 0)
    (h : m.1.slots = (w.slots.acquire k).release (some k)) :
    (r.moved w m).acquires = 1 ∧ (r.moved w m).releases = 1 ∧
      ∀ k', m.1.quota.inflight k' + (r.holds k').toNat =
        w.quota.inflight k' + ((r.moved w m).holds k').toNat := by
  obtain ⟨hma, hmr, hi⟩ := moved_totals (r := r) w h
  have ha' : (r.moved w m).acquires = 1 := by
    simpa [World.slots, Slots.acquire, Slots.release, ha] using hma
  have hr' : (r.moved w m).releases = 1 := by
    simpa [World.slots, Slots.acquire, Slots.release, hr] using hmr
  have hi' : m.1.quota.inflight = w.quota.inflight := by
    rw [hi]
    simp [World.slots, Slots.acquire, Slots.release]
  refine ⟨ha', hr', fun k' ↦ ?_⟩
  rw [hi', holds, holds, ha, hr, ha', hr']
  rfl

/-- One step of a request: its totals stay in agreement; the in-flight counts change by
what it starts and stops holding; and if it ends, it has given back what it was
granted, unless it lost it. -/
theorem Balanced.moved (hb : r.Balanced)
    (h : Moves rt σ r.principal r.started now w r.phase x m)
    (hw : ∀ k, (r.holds k).toNat ≤ w.quota.inflight k) :
    (r.moved w m).Balanced ∧
      (∀ k, m.1.quota.inflight k + (r.holds k).toNat =
        w.quota.inflight k + ((r.moved w m).holds k).toNat) ∧
      (m.2.isEnded = true → ((r.moved w m).releases = (r.moved w m).acquires ↔
        ¬(r.phase.slot.isSome ∧ r.phase.loses x))) := by
  have hlive := h.not_isEnded
  have hle := hb.releases_le
  have hone := hb.acquires_le
  obtain ⟨granted, hgranted, -, hacc⟩ := h.slots
  cases granted with
  | none =>
      rw [Option.or_none] at hacc
      rcases hacc with ⟨hend, hs, hslot⟩ | ⟨hend, hs, hlost⟩ | ⟨hend, hs, hlost⟩
      · -- The request goes on, with or without a slot.
        obtain ⟨ha, hr, hi⟩ := moved_of_slots_eq (r := r) hs
        refine ⟨⟨by omega, by omega, ?_, ?_⟩, hi, fun hc ↦ ?_⟩
        · intro k hk
          rw [ha, hr]
          exact hb.slot k (hslot ▸ hk)
        · intro hk _
          rw [ha]
          exact hb.idle (hslot ▸ hk) hlive
        · rw [hend] at hc
          cases hc
      · cases hkey : r.phase.slot with
        | none =>
            -- It ends, and had no slot to give back.
            rw [hkey] at hs
            obtain ⟨ha, hr, hi⟩ := moved_of_slots_eq (r := r) hs
            have := hb.idle hkey hlive
            refine ⟨.of_isEnded hend (by omega) (by omega), hi, fun _ ↦ iff_of_true (by omega) ?_⟩
            exact fun hc ↦ hlost hc.2
        | some k =>
            rw [hkey] at hs
            obtain ⟨hk, ha₀, hr₀⟩ := hb.slot k hkey
            obtain ⟨ha, hr, hi⟩ := moved_of_release hk ha₀ hr₀ (hw k) hs
            refine ⟨.of_isEnded hend (by omega) (by omega), hi, fun _ ↦ iff_of_true (by omega) ?_⟩
            exact fun hc ↦ hlost hc.2
      · obtain ⟨ha, hr, hi⟩ := moved_of_slots_eq (r := r) hs
        refine ⟨.of_isEnded hend (by omega) (by omega), hi, fun _ ↦ ?_⟩
        cases hkey : r.phase.slot with
        | none =>
            have := hb.idle hkey hlive
            exact iff_of_true (by omega) (by simp)
        | some k =>
            obtain ⟨hk, ha₀, hr₀⟩ := hb.slot k hkey
            exact iff_of_false (by omega) (by simp [hlost])
  | some k =>
      obtain ⟨hbody, hk, -, -⟩ := hgranted k rfl
      have hslot : r.phase.slot = none := by rw [hbody]; rfl
      have ha₀ := hb.idle hslot hlive
      have hr₀ : r.releases = 0 := by omega
      have hkeep : ¬(r.phase.slot.isSome ∧ r.phase.loses x) := by simp [hslot]
      rw [hslot, Option.none_or] at hacc
      rcases hacc with ⟨hend, hs, hslot'⟩ | ⟨hend, hs, hlost⟩ | ⟨hend, hs, hlost⟩
      · obtain ⟨ha, hr, hi⟩ := moved_of_acquire hk ha₀ hr₀ hs
        refine ⟨⟨by omega, by omega, ?_, ?_⟩, hi, fun hc ↦ ?_⟩
        · intro k' hk'
          obtain rfl := Option.some.inj (hslot'.symm.trans hk')
          exact ⟨hk, ha, hr⟩
        · intro hnone _
          cases hslot'.symm.trans hnone
        · rw [hend] at hc
          cases hc
      · obtain ⟨ha, hr, hi⟩ := moved_of_acquire_release ha₀ hr₀ hs
        exact ⟨.of_isEnded hend (by omega) (by omega), hi, fun _ ↦ iff_of_true (by omega) hkeep⟩
      · rw [hbody] at hlost
        cases hlost

/-- A request that may still be using the upstream: it has been handed to the pool and
is not over, or its response was dropped without being closed.  Closing a response
counts as closed when it raises: the response is marked closed before anything else
happens. -/
def live (k : Str) (r : Request) : Bool :=
  r.principal.keyid = some k && match r.phase with
    | .body => false
    | .ended .abandoned => true
    | .ended _ => false
    | _ => true

/-- A request that is not over holds the slot it carries. -/
theorem Balanced.holds_of_slot (hb : r.Balanced) (h : r.phase.slot = some k) :
    r.holds k = true := by
  obtain ⟨hk, ha, hr⟩ := hb.slot k h
  simp [holds_of_key hk, ha, hr]

/-- A request that is not over carries the slot it holds. -/
theorem Balanced.slot_of_holds (hb : r.Balanced) (hlive : r.phase.isEnded = false)
    (h : r.holds k = true) : r.phase.slot = some k := by
  simp only [holds, Bool.and_eq_true, decide_eq_true_eq] at h
  cases hs : r.phase.slot with
  | none =>
      have := hb.idle hs hlive
      omega
  | some k' =>
      rw [← (hb.slot k' hs).1]
      exact h.1

/-- If a request of a key with a cap holds its slot while it is live, it does so after
a step. -/
theorem Balanced.moved_live {cap : ℤ} (hb : r.Balanced)
    (h : Moves rt σ r.principal r.started now w r.phase x m)
    (hw : ∀ k, (r.holds k).toNat ≤ w.quota.inflight k)
    (hcap : r.principal.keyid = some k → r.principal.maxConcurrency = some cap)
    (hheld : r.live k = true → r.holds k = true) (hlive : (r.moved w m).live k = true) :
    (r.moved w m).holds k = true := by
  have hkey : r.principal.keyid = some k := by
    simp only [live, Bool.and_eq_true, decide_eq_true_eq] at hlive
    exact hlive.1
  cases hend : m.2.isEnded with
  | true =>
      -- It is over, so its response was dropped, and that step changes no total.
      have hab : m.2 = .ended .abandoned := by
        cases hm : m.2 with
        | ended how => cases how <;> simp_all [live, Request.moved]
        | _ => rw [hm] at hend; cases hend
      obtain ⟨f, u, resp, hphase, hfst⟩ := h.abandoned hab
      have hr : r.holds k = true := hheld (by simp [live, hkey, hphase])
      obtain ⟨hma, hmr, -⟩ := moved_of_slots_eq (r := r) (w := w) (m := m) (by rw [hfst])
      rwa [holds, hma, hmr]
  | false =>
      obtain ⟨granted, -, hgiven, hacc⟩ := h.slots
      refine (hb.moved h hw).1.holds_of_slot ?_
      rcases hacc with ⟨-, -, hslot⟩ | ⟨hc, -⟩ | ⟨hc, -⟩
      · refine hslot.trans ?_
        by_cases hbody : r.phase = .body
        · rw [hbody, hgiven hend k cap hkey (hcap hkey) hbody]
          rfl
        · have hnot := h.not_isEnded
          have hlive' : r.live k = true := by
            cases hp : r.phase <;> simp_all [live, Phase.isEnded]
          rw [hb.slot_of_holds hnot (hheld hlive')]
          rfl
      · rw [hend] at hc
        cases hc
      · rw [hend] at hc
        cases hc

end Request

/-! ## All requests -/

namespace System

variable {rt : Runtime} {σ : Settings} {s s' : System} {e : Event} {es : List Event} {k : Str}

/-- What the slots and the requests have to do with each other. -/
structure Accounted (s : System) : Prop where
  balanced : ∀ r ∈ s.requests, r.Balanced
  inflight : ∀ k, s.world.quota.inflight k = s.requests.countP (Request.holds k)

theorem Accounted.start (urls : List Str) (h : urls ≠ []) : Accounted (start urls h) :=
  ⟨fun _ hr ↦ (by cases hr), fun _ ↦ rfl⟩

/-- Replacing one of the elements changes a count by that element. -/
theorem countP_set {α : Type} {l : List α} {i : ℕ} {a b : α} {q : α → Bool} (h : l[i]? = some a) :
    (l.set i b).countP q + (q a).toNat = l.countP q + (q b).toNat := by
  obtain ⟨hi, rfl⟩ := List.getElem?_eq_some_iff.mp h
  have hpos : (q l[i]).toNat ≤ l.countP q := by
    cases hq : q l[i] with
    | false => exact Nat.zero_le _
    | true => exact List.countP_pos_iff.mpr ⟨_, List.getElem_mem hi, hq⟩
  have htoNat : ∀ c : Bool, (if c = true then 1 else 0) = c.toNat := by decide
  rw [List.countP_set hi, htoNat, htoNat]
  omega

/-- A request in the list counts for what it holds. -/
theorem Accounted.holds_le (ha : Accounted s) {r : Request} (hr : r ∈ s.requests) (k : Str) :
    (r.holds k).toNat ≤ s.world.quota.inflight k := by
  rw [ha.inflight]
  cases hk : r.holds k with
  | false => exact Nat.zero_le _
  | true => exact List.countP_pos_iff.mpr ⟨r, hr, hk⟩

theorem Accounted.step (ha : Accounted s) (h : Moves rt σ s e s') : Accounted s' := by
  cases h with
  | arrive p now =>
      refine ⟨fun r hr ↦ ?_, fun k ↦ ?_⟩
      · rcases List.mem_append.mp hr with hr | hr
        · exact ha.balanced r hr
        · obtain rfl := List.mem_singleton.mp hr
          exact .fresh p now
      · rw [List.countP_append, ← ha.inflight]
        simp [Request.holds]
  | @resume i x now r m hr hm =>
      have hmem := List.mem_of_getElem? hr
      obtain ⟨hb, hi, -⟩ := (ha.balanced _ hmem).moved hm (ha.holds_le hmem)
      refine ⟨fun r' hr' ↦ ?_, fun k ↦ ?_⟩
      · rcases List.mem_or_eq_of_mem_set hr' with hr' | rfl
        · exact ha.balanced r' hr'
        · exact hb
      · have hset := countP_set (b := r.moved s.world m) (q := Request.holds k) hr
        have hk := hi k
        rw [ha.inflight] at hk
        exact Nat.add_right_cancel (hk.trans hset.symm)
  | poll now _ => exact ⟨ha.balanced, ha.inflight⟩
  | scraped result now _ => exact ⟨ha.balanced, ha.inflight⟩
  | tick now _ => exact ⟨ha.balanced, ha.inflight⟩
  | probed ok now _ => exact ⟨ha.balanced, ha.inflight⟩

theorem accounted_of_run {urls : List Str} {h : urls ≠ []}
    (hr : Runs rt σ (System.start urls h) es s) : Accounted s :=
  hr.invariant (fun hs ha ↦ ha.step (moves_of_step hs)) (.start urls h)

/-! ## No slot is leaked or returned twice -/

/-- The step does not lose the slot of the request it resumes. -/
def spares (s : System) : Event → Bool
  | .resume i x _ => s.requests[i]?.all fun r ↦ !(r.phase.slot.isSome && r.phase.loses x)
  | _ => true

/-- Every request that is over has given back what it was granted. -/
def Settled (s : System) : Prop :=
  ∀ r ∈ s.requests, r.phase.isEnded = true → r.releases = r.acquires

theorem Settled.step (ha : Accounted s) (hst : Settled s) (h : Moves rt σ s e s')
    (hsp : spares s e) : Settled s' := by
  cases h with
  | arrive p now =>
      intro r hr hend
      rcases List.mem_append.mp hr with hr | hr
      · exact hst r hr hend
      · obtain rfl := List.mem_singleton.mp hr
        cases hend
  | @resume i x now r m hr hm =>
      have hmem := List.mem_of_getElem? hr
      obtain ⟨-, -, hiff⟩ := (ha.balanced _ hmem).moved hm (ha.holds_le hmem)
      intro r' hr' hend
      rcases List.mem_or_eq_of_mem_set hr' with hr' | rfl
      · exact hst r' hr' hend
      · refine (hiff hend).mpr fun hc ↦ ?_
        rw [spares, hr, Option.all_some, hc.1, hc.2] at hsp
        cases hsp
  | poll now _ => exact hst
  | scraped result now _ => exact hst
  | tick now _ => exact hst
  | probed ok now _ => exact hst

/-- In every run none of whose steps loses a slot, every request that is over has made
as many calls of `release` as it had slots granted, one or none; and a key none of
whose requests is live has no slot in flight. -/
theorem slots_returned (rt : Runtime) (σ : Settings) (urls : List Str) (h : urls ≠ [])
    (es : List Event) (s : System)
    (hr : Run (Guarded (Steps (step rt σ)) fun s e ↦ spares s e) (System.start urls h) es s) :
    (∀ r ∈ s.requests, r.phase.isEnded = true → r.releases = r.acquires ∧ r.acquires ≤ 1) ∧
      ∀ k, (∀ r ∈ s.requests, r.principal.keyid = some k → r.phase.isEnded = true) →
        s.world.quota.inflight k = 0 := by
  have ha := accounted_of_run hr.of_guarded
  have hst : Settled s := hr.invariant_of (I := Accounted) (P := Settled)
    (fun hs ha ↦ ha.step (moves_of_step hs.1))
    (fun hs ha hst ↦ hst.step ha (moves_of_step hs.1) hs.2)
    (.start urls h) (fun r hr ↦ by cases hr)
  refine ⟨fun r hr hend ↦ ⟨hst r hr hend, (ha.balanced r hr).acquires_le⟩, fun k hk ↦ ?_⟩
  rw [ha.inflight, List.countP_eq_zero]
  intro r hr hholds
  by_cases hkey : r.principal.keyid = some k
  · rw [Request.holds_of_key hkey, hst r hr (hk r hr hkey)] at hholds
    simp at hholds
  · rw [Request.holds_of_key_ne hkey] at hholds
    cases hholds

/-- A streamed answer read to its end. -/
def streamedEvents : List Event :=
  [.arrive samplePrincipal 0, .resume 0 (.received (sampleBody ", \"stream\": true")) 0,
    .resume 0 (.responded { statusCode := 200 }) 1, .resume 0 .next 1,
    .resume 0 (.chunk (bytes "data: [DONE]\n\n")) 2, .resume 0 .next 2, .resume 0 .eof 3,
    .resume 0 .done 3]

theorem streamedEvents_isSome :
    (execWhile (step .sample .default) spares sampleSystem streamedEvents).isSome := by
  decide +kernel

/-- After it, the key has no slot in flight. -/
theorem slots_returned_streamed :
    ((execWhile (step .sample .default) spares sampleSystem streamedEvents).get
      streamedEvents_isSome).world.quota.inflight sampleKey = 0 :=
  (slots_returned .sample .default [sampleUrl] (List.cons_ne_nil _ _) streamedEvents _
    (Run.ofExecWhile (Option.some_get streamedEvents_isSome).symm)).2 sampleKey (by decide +kernel)

/-- A caller who goes away while the stream is being opened: the cancellation is no
`Exception`, so the slot stays taken after the request is over. -/
theorem slot_lost_on_cancellation :
    ∃ s, Runs .sample .default sampleSystem
        [.arrive samplePrincipal 0, .resume 0 (.received (sampleBody ", \"stream\": true")) 0,
          .resume 0 (.raised .cancelled) 1] s ∧
      (∀ r ∈ s.requests, r.phase.isEnded = true ∧ r.acquires = 1 ∧ r.releases = 0) ∧
      s.world.quota.inflight sampleKey = 1 := by
  obtain ⟨s, hr, hs⟩ := Run.exists_of_exec (step .sample .default) sampleSystem
    [.arrive samplePrincipal 0, .resume 0 (.received (sampleBody ", \"stream\": true")) 0,
      .resume 0 (.raised .cancelled) 1]
    (fun s ↦ s.requests.all (fun r ↦ r.phase.isEnded && r.acquires == 1 && r.releases == 0) &&
      s.world.quota.inflight sampleKey == 1) (by decide +kernel)
  simp only [Bool.and_eq_true, List.all_eq_true, beq_iff_eq, and_assoc] at hs
  exact ⟨s, hr, hs.1, hs.2⟩

/-! ## The cap

The count of a key's live requests is at most its in-flight count, and that one never
passes the cap.  For the first, what a request holds has to be read off where it is:
a live one carries its slot, and a dropped response takes its slot with it. -/

/-- The live requests of a key are among the holders of its slots. -/
def LiveHold (k : Str) (s : System) : Prop :=
  ∀ r ∈ s.requests, r.live k = true → r.holds k = true

/-- Every request of the key has the cap `C`, and the slots are within it. -/
structure Capped (k : Str) (C : ℤ) (s : System) : Prop where
  cap : ∀ r ∈ s.requests, r.principal.keyid = some k → r.principal.maxConcurrency = some C
  inflight_le : s.world.quota.inflight k ≤ C.toNat

/-- The key's requests come in with the cap `C`. -/
def ArrivesCapped (k : Str) (C : ℤ) : Event → Prop
  | .arrive p _ => p.keyid = some k → p.maxConcurrency = some C
  | _ => True

theorem LiveHold.step {C : ℤ} (ha : Accounted s) (hc : Capped k C s) (hl : LiveHold k s)
    (h : Moves rt σ s e s') : LiveHold k s' := by
  cases h with
  | arrive p now =>
      intro r hr hlive
      rcases List.mem_append.mp hr with hr | hr
      · exact hl r hr hlive
      · obtain rfl := List.mem_singleton.mp hr
        simp [Request.live] at hlive
  | @resume i x now r m hr hm =>
      have hmem := List.mem_of_getElem? hr
      intro r' hr' hlive
      rcases List.mem_or_eq_of_mem_set hr' with hr' | rfl
      · exact hl r' hr' hlive
      · exact (ha.balanced r hmem).moved_live hm (ha.holds_le hmem) (hc.cap r hmem) (hl r hmem) hlive
  | poll now _ => exact hl
  | scraped result now _ => exact hl
  | tick now _ => exact hl
  | probed ok now _ => exact hl

theorem Capped.step {C : ℤ} (hc : Capped k C s) (h : Moves rt σ s e s')
    (he : ArrivesCapped k C e) : Capped k C s' := by
  cases h with
  | arrive p now =>
      refine ⟨fun r hr hk ↦ ?_, hc.inflight_le⟩
      rcases List.mem_append.mp hr with hr | hr
      · exact hc.cap r hr hk
      · obtain rfl := List.mem_singleton.mp hr
        exact he hk
  | @resume i x now r m hr hm =>
      have hmem := List.mem_of_getElem? hr
      refine ⟨fun r' hr' hk ↦ ?_, ?_⟩
      · rcases List.mem_or_eq_of_mem_set hr' with hr' | rfl
        · exact hc.cap r' hr' hk
        · exact hc.cap r hmem hk
      · obtain ⟨granted, hgranted, -, hacc⟩ := hm.slots
        refine hacc.inflight_le (le_trans ?_ (max_le hc.inflight_le le_rfl))
        refine Slots.inflight_acquireFor_le fun hk ↦ ?_
        have hg := hgranted k hk
        have hlt := hg.cap C (hc.cap r hmem hg.key)
        change s.world.quota.inflight k < C.toNat
        omega
  | poll now _ => exact ⟨hc.cap, hc.inflight_le⟩
  | scraped result now _ => exact ⟨hc.cap, hc.inflight_le⟩
  | tick now _ => exact ⟨hc.cap, hc.inflight_le⟩
  | probed ok now _ => exact ⟨hc.cap, hc.inflight_le⟩

/-- In every state a process can reach, for a key whose requests come in with the cap
`C`: its live requests are at most `C`, and no more than its in-flight count. -/
theorem live_le_cap (rt : Runtime) (σ : Settings) (urls : List Str) (h : urls ≠ []) (k : Str)
    (C : ℤ) (es : List Event) (s : System) (hr : Runs rt σ (System.start urls h) es s)
    (hC : ∀ p now, .arrive p now ∈ es → p.keyid = some k → p.maxConcurrency = some C) :
    s.requests.countP (Request.live k) ≤ s.world.quota.inflight k ∧
      s.requests.countP (Request.live k) ≤ C.toNat := by
  have hes : ∀ e ∈ es, ArrivesCapped k C e := by
    intro e he
    cases e with
    | arrive p now => exact hC p now he
    | _ => trivial
  have hcap : Capped k C s ∧ LiveHold k s := (hr.guard hes).invariant_of (I := Accounted)
    (P := fun s ↦ Capped k C s ∧ LiveHold k s)
    (fun hs ha ↦ ha.step (moves_of_step hs.1))
    (fun hs ha hc ↦ ⟨hc.1.step (moves_of_step hs.1) hs.2, hc.2.step ha hc.1 (moves_of_step hs.1)⟩)
    (.start urls h) ⟨⟨fun r hr ↦ (by cases hr), Nat.zero_le _⟩, fun r hr ↦ (by cases hr)⟩
  have hle : s.requests.countP (Request.live k) ≤ s.world.quota.inflight k := by
    rw [(accounted_of_run hr).inflight]
    exact List.countP_mono_left hcap.2
  exact ⟨hle, hle.trans hcap.1.inflight_le⟩

/-- The streamed answer while it is being read: one live request, one slot. -/
theorem live_le_cap_streamed :
    ∃ s, Runs .sample .default sampleSystem (streamedEvents.take 5) s ∧
      s.requests.countP (Request.live sampleKey) ≤ s.world.quota.inflight sampleKey ∧
      s.requests.countP (Request.live sampleKey) ≤ 1 ∧
      s.requests.countP (Request.live sampleKey) = 1 := by
  obtain ⟨s, hr, hs⟩ := Run.exists_of_exec (step .sample .default) sampleSystem
    (streamedEvents.take 5) (fun s ↦ s.requests.countP (Request.live sampleKey) == 1)
    (by decide +kernel)
  obtain ⟨h₁, h₂⟩ := live_le_cap .sample .default [sampleUrl] (List.cons_ne_nil _ _) sampleKey 1
    (streamedEvents.take 5) s hr fun p now hp _ ↦ by
      obtain ⟨rfl, -⟩ : p = samplePrincipal ∧ now = 0 := by simpa [streamedEvents] using hp
      rfl
  exact ⟨s, hr, h₁, h₂, beq_iff_eq.mp hs⟩

end System

end InferenceGateway
