import Mathlib.Data.List.GetD
import InferenceGateway.Sample

/-!
# Where requests are routed

`UpstreamPool.pick` with the breaker on: what it returns, when it raises, and that
its round-robin counter never makes it raise anything else.

The counter is shared by calls that index lists of different lengths, so nothing is
known of it when `pick` is entered.  The lemmas therefore hold of every pool, in
whatever state the operations before have left the counter and the breakers.
-/

namespace InferenceGateway

open Py Transition

namespace UpstreamPool

/-! ## The two operations that Python checks -/

/-- `self._next = (self._next + 1) % len(urls)` and `urls[self._next]`; `none` for the
`ZeroDivisionError` and for the `IndexError`. -/
def turn? (p : UpstreamPool) (urls : List Str) : Option (Str × UpstreamPool) :=
  if urls.length = 0 then none
  else
    let next := (p.next + 1) % urls.length
    match urls[next]? with
    | none => none
    | some url => some (url, { p with next })

/-- `pick` as Python runs it; `none` if the counter makes it raise. -/
def pick? (p : UpstreamPool) (σ : Settings) (exclude : Option Str) (now : ℚ) :
    Option (Except Exn Str × UpstreamPool) :=
  if ¬σ.breakerEnabled then (p.turn? p.urls).map fun t ↦ (.ok t.1, t.2)
  else if p.candidates exclude = [] then some (.error (.allReplicasOpen (p.minWait σ now)), p)
  else (p.turn? (p.candidates exclude)).map fun t ↦ (.ok t.1, t.2)

variable {p : UpstreamPool} {σ : Settings} {exclude : Option Str} {now : ℚ} {u : Str}
  {urls : List Str}

/-- A turn over a list that is not empty succeeds, wherever the counter stands. -/
theorem turn?_eq (h : urls ≠ []) (default : Str) :
    p.turn? urls = some (urls.getD ((p.next + 1) % urls.length) default,
      { p with next := (p.next + 1) % urls.length }) := by
  have hpos : 0 < urls.length := List.length_pos_iff.mpr h
  have hlt : (p.next + 1) % urls.length < urls.length := Nat.mod_lt _ hpos
  unfold turn?
  rw [if_neg (Nat.ne_of_gt hpos)]
  dsimp only
  rw [List.getD_eq_getElem _ _ hlt, List.getElem?_eq_getElem hlt]

/-- The counter never makes `pick` raise. -/
theorem pick?_eq : p.pick? σ exclude now = some (p.pick σ exclude now) := by
  unfold pick? pick
  by_cases hσ : σ.breakerEnabled = true
  · rw [if_neg (not_not.mpr hσ), if_neg (not_not.mpr hσ)]
    cases hc : p.candidates exclude with
    | nil => rw [if_pos rfl]
    | cons c cs =>
        rw [if_neg (List.cons_ne_nil c cs), turn?_eq (List.cons_ne_nil c cs) c]
        rfl
  · rw [if_pos hσ, if_pos hσ, turn?_eq p.urls_ne_nil []]
    rfl

/-! ## The candidates -/

/-- The replicas in rotation. -/
def closed (p : UpstreamPool) : List Str := p.urls.filter fun u ↦ (p.breaker u).allows

theorem mem_closed : u ∈ p.closed ↔ u ∈ p.urls ∧ (p.breaker u).state = .closed := by
  rw [closed, List.mem_filter, ReplicaBreaker.allows, decide_eq_true_eq]

/-- The replicas in rotation that are not excluded, if there are any; otherwise all in
rotation. -/
theorem candidates_cases (p : UpstreamPool) (exclude : Option Str) :
    ((∀ u ∈ p.closed, some u = exclude) ∧ p.candidates exclude = p.closed) ∨
    ((∃ u ∈ p.closed, some u ≠ exclude) ∧
      p.candidates exclude = p.closed.filter fun u ↦ some u ≠ exclude) := by
  unfold candidates
  dsimp only
  split
  · rename_i hf
    refine .inl ⟨fun u hu ↦ ?_, rfl⟩
    have hno := List.filter_eq_nil_iff.mp hf u hu
    rwa [decide_eq_true_eq, not_not] at hno
  · rename_i hne
    obtain ⟨u, hu⟩ := List.exists_mem_of_ne_nil _ hne
    obtain ⟨hmem, hu⟩ := List.mem_filter.mp hu
    exact .inr ⟨⟨u, hmem, of_decide_eq_true hu⟩, rfl⟩

theorem mem_closed_of_mem_candidates (h : u ∈ p.candidates exclude) : u ∈ p.closed := by
  rcases p.candidates_cases exclude with ⟨-, hc⟩ | ⟨-, hc⟩
  · rwa [hc] at h
  · rw [hc] at h
    exact (List.mem_filter.mp h).1

/-- There are candidates as long as a replica is in rotation: to exclude one never
leaves none. -/
theorem candidates_eq_nil : p.candidates exclude = [] ↔ p.closed = [] := by
  rcases p.candidates_cases exclude with ⟨-, hc⟩ | ⟨⟨u, hu, hne⟩, hc⟩
  · rw [hc]
  · constructor
    · intro h
      have hmem : u ∈ p.candidates exclude := by
        rw [hc]
        exact List.mem_filter.mpr ⟨hu, decide_eq_true hne⟩
      rw [h] at hmem
      exact absurd hmem List.not_mem_nil
    · intro h
      rw [h] at hu
      exact absurd hu List.not_mem_nil

/-- The excluded replica is a candidate only if no other one is in rotation. -/
theorem ne_exclude_of_mem_candidates (h : ∃ v ∈ p.closed, some v ≠ exclude)
    (hu : u ∈ p.candidates exclude) : some u ≠ exclude := by
  obtain ⟨v, hv, hne⟩ := h
  rcases p.candidates_cases exclude with ⟨hall, -⟩ | ⟨-, hc⟩
  · exact absurd (hall v hv) hne
  · rw [hc] at hu
    exact of_decide_eq_true (List.mem_filter.mp hu).2

/-! ## What `pick` does -/

/-- With the breaker on, `pick` raises and leaves the pool alone, there being no
candidates, or it returns one of them and moves the counter. -/
theorem pick_cases (p : UpstreamPool) (exclude : Option Str) (now : ℚ)
    (hσ : σ.breakerEnabled = true) :
    (p.candidates exclude = [] ∧
      p.pick σ exclude now = (.error (.allReplicasOpen (p.minWait σ now)), p)) ∨
    (∃ v ∈ p.candidates exclude, ∃ next, p.pick σ exclude now = (.ok v, { p with next })) := by
  unfold pick
  rw [if_neg (not_not.mpr hσ)]
  split
  · rename_i hc
    exact .inl ⟨hc, rfl⟩
  · rename_i c cs hc
    have hlt : (p.next + 1) % (c :: cs).length < (c :: cs).length := Nat.mod_lt _ (Nat.succ_pos _)
    refine .inr ⟨_, ?_, _, rfl⟩
    rw [hc, List.getD_eq_getElem _ _ hlt]
    exact List.getElem_mem hlt

theorem candidates_eq_nil_iff (exclude : Option Str) :
    p.candidates exclude = [] ↔ ∀ u ∈ p.urls, (p.breaker u).state ≠ .closed := by
  rw [candidates_eq_nil, List.eq_nil_iff_forall_not_mem]
  constructor
  · intro h u hu hc
    exact h u (mem_closed.mpr ⟨hu, hc⟩)
  · intro h u hu
    obtain ⟨hmem, hc⟩ := mem_closed.mp hu
    exact h u hmem hc

/-- `pick` raises `AllReplicasOpen` exactly when no replica is in rotation. -/
theorem pick_raises_iff (hσ : σ.breakerEnabled = true) :
    (∃ wait, (p.pick σ exclude now).1 = .error (.allReplicasOpen wait)) ↔
      ∀ u ∈ p.urls, (p.breaker u).state ≠ .closed := by
  rw [← candidates_eq_nil_iff exclude]
  rcases pick_cases p exclude now hσ with
    ⟨hnil, hp⟩ | ⟨v, hv, next, hp⟩
  · rw [hp]
    exact ⟨fun _ ↦ hnil, fun _ ↦ ⟨_, rfl⟩⟩
  · rw [hp]
    constructor
    · rintro ⟨wait, h⟩
      cases h
    · intro hnil
      rw [hnil] at hv
      exact absurd hv List.not_mem_nil

/-- As long as a replica is in rotation, `pick` returns a candidate. -/
theorem pick_returns (hσ : σ.breakerEnabled = true)
    (h : ∃ u ∈ p.urls, (p.breaker u).state = .closed) :
    ∃ v ∈ p.candidates exclude, (p.pick σ exclude now).1 = .ok v := by
  rcases pick_cases p exclude now hσ with
    ⟨hnil, -⟩ | ⟨v, hv, next, hp⟩
  · obtain ⟨u, hu, hc⟩ := h
    exact absurd hc ((candidates_eq_nil_iff exclude).mp hnil u hu)
  · exact ⟨v, hv, by rw [hp]⟩

/-- What `pick` returns is a replica in rotation. -/
theorem pick_ok_closed {p' : UpstreamPool} (hσ : σ.breakerEnabled = true)
    (h : p.pick σ exclude now = (.ok u, p')) : u ∈ p.urls ∧ (p.breaker u).state = .closed := by
  rcases pick_cases p exclude now hσ with
    ⟨-, hp⟩ | ⟨v, hv, next, hp⟩
  · rw [hp] at h
    cases h
  · rw [hp] at h
    cases h
    exact mem_closed.mp (mem_closed_of_mem_candidates hv)

end UpstreamPool

/-! ## Where the retry loop sends -/

namespace Retry

variable {rt : Runtime} {σ : Settings} {n : ℕ} {stream : Bool} {p p' : UpstreamPool}
  {body : Fields} {a a' : ℕ} {u u' : Str} {exclude : Option Str} {now : ℚ} {r : Retry}
  {x : Input} {calls : List MetricCall} {outcome : Outcome}

theorem afterAttempt_ne_sending : afterAttempt n stream a u outcome ≠ .sending a' u' := by
  unfold afterAttempt
  split
  · split
    · exact Retry.noConfusion
    · split
      · exact Retry.noConfusion
      · split <;> exact Retry.noConfusion
  · split <;> exact Retry.noConfusion

/-- After an attempt the loop ends, or awaits something else first. -/
theorem recorded_ne_sending :
    recorded n stream p a u outcome now ≠ (p', calls, .sending a' u') := by
  intro h
  have hr : afterAttempt n stream a u outcome = .sending a' u' := congrArg (fun s ↦ s.2.2) h
  exact afterAttempt_ne_sending hr

/-- The attempt that an iteration starts goes to a replica in rotation. -/
theorem start_sending (hσ : σ.breakerEnabled = true)
    (h : start rt σ n stream p body a exclude now = (p', calls, .sending a' u)) :
    u ∈ p.urls ∧ (p.breaker u).state = .closed := by
  cases h ▸ start_cases rt σ n stream p body a exclude now with
  | refused hp hs => cases hs
  | unencoded hp henc hs => exact absurd hs.symm recorded_ne_sending
  | sent hp henc hs =>
      cases hs
      exact UpstreamPool.pick_ok_closed hσ hp

/-- A segment of the retry loop that ends in an attempt has picked its replica. -/
theorem resume_sending (hσ : σ.breakerEnabled = true)
    (h : r.resume rt σ n stream p body x now = some (p', calls, .sending a u)) :
    u ∈ p.urls ∧ (p.breaker u).state = .closed := by
  cases resumes_of_resume h with
  | ended hr ho hs => exact absurd hs.symm recorded_ne_sending
  | closed hr hx hs => cases hs
  | woken hr hx hs => exact start_sending hσ hs.symm
  | thrown hx hf hs => cases hs

end Retry

/-! ## Where the gateway sends -/

/-- The replica whose answer the request awaits. -/
def Phase.sendingTo : Phase → Option Str
  | .calling _ (.sending _ upstream) => some upstream
  | _ => none

section Gateway

variable {rt : Runtime} {σ : Settings} {w : World} {f : Forward} {started now : ℚ} {retry : Retry}
  {u : Str} {p : Principal} {phase : Phase} {x : Input} {m : World × Phase}

theorem leaveCall_sendingTo (e : Exn) : (leaveCall rt w f started now e).2.sendingTo = none := by
  unfold leaveCall
  split <;> rfl

theorem leaveDrain_sendingTo {resp : Response} {pending : Option Fault} :
    (leaveDrain rt w f started now resp pending).2.sendingTo = none := by
  cases pending with
  | some g => exact leaveCall_sendingTo _
  | none => exact leaveCall_sendingTo _

/-- What follows a segment of the retry loop starts no attempt of its own. -/
theorem settle_sendingTo (h : (settle rt σ w f started now retry).2.sendingTo = some u) :
    ∃ a, retry = .sending a u := by
  cases retry with
  | returned v resp =>
      unfold settle at h
      dsimp only at h
      split at h
      · split at h <;> cases h
      · cases h
  | raised e =>
      have hn : (settle rt σ w f started now (.raised e)).2.sendingTo = none :=
        leaveCall_sendingTo e
      rw [hn] at h
      cases h
  | sending a v =>
      cases h
      exact ⟨a, rfl⟩
  | discarding a v resp => cases h
  | sleeping a v outcome => cases h

/-- A segment of the route that ends in an attempt has picked its replica among those in
rotation. -/
theorem Moves.sendingTo (hσ : σ.breakerEnabled = true)
    (h : Moves rt σ p started now w phase x m) (hs : m.2.sendingTo = some u) :
    u ∈ w.pool.urls ∧ (w.pool.breaker u).state = .closed := by
  cases h with
  | refused hp => cases hs
  | admitted hp hr =>
      obtain ⟨a, rfl⟩ := settle_sendingTo hs
      rw [← (prepare_ok hp).pool]
      exact Retry.start_sending hσ hr
  | called hr =>
      obtain ⟨a, rfl⟩ := settle_sendingTo hs
      exact Retry.resume_sending hσ hr
  | drainClosed =>
      rw [leaveDrain_sendingTo] at hs
      cases hs
  | drainFailed g =>
      rw [leaveCall_sendingTo] at hs
      cases hs
  | _ => cases hs

/-- A request of the gateway that ends a segment in an attempt has sent it to a replica
that was in rotation. -/
theorem System.resume_sendingTo {s s' : System} {i : ℕ} {r : Request}
    (hσ : σ.breakerEnabled = true)
    (h : Steps (System.step rt σ) s (.resume i x now) s') (hr : s'.requests[i]? = some r)
    (hs : r.phase.sendingTo = some u) :
    u ∈ s.world.pool.urls ∧ (s.breaker u).state = .closed := by
  cases System.moves_of_step h with
  | resume hget hmoves =>
      have hlt : i < s.requests.length := (List.getElem?_eq_some_iff.mp hget).1
      rw [List.getElem?_set_self hlt] at hr
      cases hr
      exact hmoves.sendingTo hσ hs

end Gateway

/-! ## Routing safety -/

/-- With the breaker on, and in every pool whatever its counter and its breakers:
`pick` raises nothing of Python's own; it returns a replica in rotation if there is
one, another than the excluded if there is another; it raises `AllReplicasOpen` if
and only if there is none.  And whenever a request of the gateway goes on and ends up
awaiting a replica, that replica was in rotation when it was picked. -/
theorem UpstreamPool.pick_routes_safely (rt : Runtime) (σ : Settings)
    (hσ : σ.breakerEnabled = true) :
    (∀ (p : UpstreamPool) (exclude : Option Str) (now : ℚ),
      p.pick? σ exclude now = some (p.pick σ exclude now) ∧
      ((∃ u ∈ p.urls, (p.breaker u).state = .closed) →
        ∃ v ∈ p.urls, (p.pick σ exclude now).1 = .ok v ∧ (p.breaker v).state = .closed) ∧
      ((∃ u ∈ p.urls, (p.breaker u).state = .closed ∧ some u ≠ exclude) →
        ∃ v ∈ p.urls, (p.pick σ exclude now).1 = .ok v ∧ (p.breaker v).state = .closed ∧
          some v ≠ exclude) ∧
      ((∃ wait, (p.pick σ exclude now).1 = .error (.allReplicasOpen wait)) ↔
        ∀ u ∈ p.urls, (p.breaker u).state ≠ .closed)) ∧
    (∀ (s s' : System) (i : ℕ) (x : Input) (now : ℚ) (r : Request) (u : Str),
      Steps (System.step rt σ) s (.resume i x now) s' → s'.requests[i]? = some r →
      r.phase.sendingTo = some u →
      u ∈ s.world.pool.urls ∧ (s.breaker u).state = .closed) := by
  constructor
  · intro p exclude now
    refine ⟨pick?_eq, ?_, ?_, ?_⟩
    · intro h
      obtain ⟨v, hv, hp⟩ := pick_returns hσ h
      obtain ⟨hmem, hc⟩ := mem_closed.mp (mem_closed_of_mem_candidates hv)
      exact ⟨v, hmem, hp, hc⟩
    · rintro ⟨u, hu, hc, hne⟩
      obtain ⟨v, hv, hp⟩ := pick_returns hσ ⟨u, hu, hc⟩
      obtain ⟨hmem, hc'⟩ := mem_closed.mp (mem_closed_of_mem_candidates hv)
      refine ⟨v, hmem, hp, hc', ?_⟩
      exact ne_exclude_of_mem_candidates ⟨u, mem_closed.mpr ⟨hu, hc⟩, hne⟩ hv
    · exact pick_raises_iff hσ
  · intro s s' i x now r u h hr hs
    exact System.resume_sendingTo hσ h hr hs

/-- Two replicas, the first out of rotation, and a counter past the end of the list. -/
def mixedPool : UpstreamPool where
  urls := [str "a", str "b"]
  urls_ne_nil := List.cons_ne_nil _ _
  next := 7
  breakers := [(str "a", { url := str "a", state := .open }), (str "b", { url := str "b" })]

/-- The only replica in rotation is returned even where it is excluded. -/
theorem UpstreamPool.pick_routes_safely_excluded :
    ∃ v ∈ mixedPool.urls, (mixedPool.pick .default (some (str "b")) 0).1 = .ok v ∧
      (mixedPool.breaker v).state = .closed :=
  ((UpstreamPool.pick_routes_safely Runtime.sample .default rfl).1 mixedPool
    (some (str "b")) 0).2.1 ⟨str "b", by decide, by decide⟩

end InferenceGateway
