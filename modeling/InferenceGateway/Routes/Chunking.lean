import InferenceGateway.Routes.Frames
import InferenceGateway.Routes.Passthrough

/-!
# The usage of a stream

What `relay` has in `usage` when it comes to its `finally`, as a function of the bytes
the upstream delivered.  The loop over the buffer runs after every chunk, on what the
chunks before have left, so the induction is on the chunks with an unfinished event
in the buffer; `lastUsage` goes on from any usage object, as the loop does.
-/

namespace InferenceGateway

open Py

section Events

variable (rt : Runtime)

/-- The frame parser returns. -/
def parses (event : Bytes) : Bool := (parseUsageFrame rt event).isOk

/-- The usage object of an event, if it carries one. -/
def carried? (event : Bytes) : Option Fields := (parseUsageFrame rt event).toOption.join

/-- The usage object of the last event that carries one, among those up to the first the
frame parser fails on; `usage` if there is none. -/
def lastUsage (usage : Fields) (events : List Bytes) : Fields :=
  ((events.takeWhile (parses rt)).filterMap (carried? rt)).getLast?.getD usage

variable {rt} {event : Bytes} {events events' : List Bytes} {usage parsed : Fields}

theorem lastUsage_of_error {e : Exc} (h : parseUsageFrame rt event = .error e) :
    lastUsage rt usage (event :: events) = usage := by
  have hp : parses rt event = false := by
    rw [parses, h]
    rfl
  simp [lastUsage, hp]

theorem lastUsage_of_none (h : parseUsageFrame rt event = .ok none) :
    lastUsage rt usage (event :: events) = lastUsage rt usage events := by
  have hp : parses rt event = true := by
    rw [parses, h]
    rfl
  have hc : carried? rt event = none := by
    rw [carried?, h]
    rfl
  simp [lastUsage, hp, hc]

theorem lastUsage_of_some (h : parseUsageFrame rt event = .ok (some parsed)) :
    lastUsage rt usage (event :: events) = lastUsage rt parsed events := by
  have hp : parses rt event = true := by
    rw [parses, h]
    rfl
  have hc : carried? rt event = some parsed := by
    rw [carried?, h]
    rfl
  simp [lastUsage, hp, hc, List.getLast?_cons]

/-- Going on after events the parser does not fail on. -/
theorem lastUsage_append (h : ∀ ev ∈ events, Watchable rt ev) :
    lastUsage rt usage (events ++ events') = lastUsage rt (lastUsage rt usage events) events' := by
  induction events generalizing usage with
  | nil => rfl
  | cons event events ih =>
      obtain ⟨hev, hevs⟩ := List.forall_mem_cons.mp h
      obtain ⟨o, ho⟩ := parseUsageFrame_ok_iff.mpr hev
      rw [List.cons_append]
      cases o with
      | none => rw [lastUsage_of_none ho, lastUsage_of_none ho, ih hevs]
      | some parsed => rw [lastUsage_of_some ho, lastUsage_of_some ho, ih hevs]

/-- After an event the parser fails on, nothing counts any more. -/
theorem lastUsage_append_of_not_watchable (h : ¬∀ ev ∈ events, Watchable rt ev) :
    lastUsage rt usage (events ++ events') = lastUsage rt usage events := by
  induction events generalizing usage with
  | nil => exact absurd (fun _ hev ↦ absurd hev List.not_mem_nil) h
  | cons event events ih =>
      rw [List.cons_append]
      cases ho : parseUsageFrame rt event with
      | error e => rw [lastUsage_of_error ho, lastUsage_of_error ho]
      | ok o =>
          have hevs : ¬∀ ev ∈ events, Watchable rt ev := fun hevs ↦
            h (List.forall_mem_cons.mpr ⟨parseUsageFrame_ok_iff.mp ⟨o, ho⟩, hevs⟩)
          cases o with
          | none => rw [lastUsage_of_none ho, lastUsage_of_none ho, ih hevs]
          | some parsed => rw [lastUsage_of_some ho, lastUsage_of_some ho, ih hevs]

/-- The loop over the buffer keeps the last usage object of the events it completes. -/
theorem drainEvents_lastUsage {n : ℕ} {buf : Bytes} (hn : buf.length ≤ n) :
    (drainEvents rt n buf usage).2.1 = lastUsage rt usage (pieces eventEnd buf) := by
  induction n generalizing buf usage with
  | zero =>
      obtain rfl := List.eq_nil_of_length_eq_zero (Nat.le_zero.mp hn)
      rfl
  | succ n ih =>
      rw [drainEvents]
      cases hc : cut? eventEnd buf with
      | none =>
          rw [(pieces_of_cut?_none hc).1]
          rfl
      | some xy =>
          obtain ⟨event, left⟩ := xy
          have hlen : left.length ≤ n := by
            have := length_lt_of_cut? eventEnd_ne_nil hc
            omega
          rw [(pieces_of_cut? eventEnd_ne_nil hc).1]
          dsimp only
          cases hparse : parseUsageFrame rt event with
          | error e => exact (lastUsage_of_error hparse).symm
          | ok o =>
              cases o with
              | none => exact (ih hlen).trans (lastUsage_of_none hparse).symm
              | some parsed => exact (ih hlen).trans (lastUsage_of_some hparse).symm

end Events

namespace Relay

variable {rt : Runtime} {σ : Settings} {model : Value} {r : Relay} {c : Bytes} {cs : List Bytes}
  {fault : Option HttpxError}

/-- A chunk, whatever the observer makes of it. -/
theorem feed_chunk_usage (hr : r.point = .reading) :
    (r.feed rt σ model [.chunk c]).usage =
      lastUsage rt r.usage (pieces eventEnd (r.buf ++ c)) := by
  have husage := @drainEvents_lastUsage rt r.usage _ _ (le_refl (r.buf ++ c).length)
  simp only [feed, List.foldl_cons, List.foldl_nil, resume, hr, onChunk, Option.map_some,
    Option.getD_some]
  rcases hd : drainEvents rt (r.buf ++ c).length (r.buf ++ c) r.usage with ⟨buf, usage, exc⟩
  rw [hd] at husage
  cases exc with
  | none => exact husage
  | some e => exact husage

/-- The end of the stream leaves the usage as it is. -/
theorem readAll_nil_usage (hr : r.point = .reading) :
    (readAll rt σ model fault [] r).usage = r.usage := by
  cases fault with
  | none => simp [readAll, feed, resume, hr]
  | some e => simp [readAll, feed, resume, hr, fail, Fault.isException]

/-- So do the two parts of the error frame. -/
theorem feed_errorFrame_usage (hr : r.point = .yieldedError false) :
    (r.feed rt σ model [.next, .next]).usage = r.usage := by
  simp [feed, resume, hr]

/-- The stream from any point on, given the unfinished event in the buffer. -/
theorem readAll_usage (hr : r.point = .reading) (hbuf : pieces eventEnd r.buf = []) :
    (readAll rt σ model fault cs r).usage =
      lastUsage rt r.usage (pieces eventEnd (r.buf ++ cs.flatten)) := by
  induction cs generalizing r with
  | nil =>
      rw [readAll_nil_usage hr, List.flatten_nil, List.append_nil, hbuf]
      rfl
  | cons c cs ih =>
      have husage := @feed_chunk_usage rt σ model r c hr
      rw [List.flatten_cons, ← List.append_assoc, pieces_append eventEnd_ne_nil, readAll]
      by_cases h : ∀ ev ∈ pieces eventEnd (r.buf ++ c), Watchable rt ev
      · obtain ⟨first, usage, hfeed⟩ := feed_chunk_of_watchable σ model hr h
        rw [hfeed] at husage
        rw [hfeed, if_pos rfl, lastUsage_append h, ← husage]
        exact ih rfl (pieces_rest eventEnd_ne_nil _)
      · obtain ⟨hpoint, -, -⟩ := feed_chunk_of_not_watchable σ model hr h
        rw [if_neg (by rw [hpoint]; exact Relay.Point.noConfusion), feed_errorFrame_usage hpoint,
          husage, lastUsage_append_of_not_watchable h]

/-- However the bytes of a stream are cut into chunks, and however it ends, the relay comes
to its `finally` with the usage object of the last complete event that carries one, up
to the first event the frame parser fails on; so the tokens charged are the same. -/
theorem usage_chunking (rt : Runtime) (σ : Settings) (model : Value) (stream : Bytes)
    (chunks chunks' : List Bytes) (hc : chunks.flatten = stream) (hc' : chunks'.flatten = stream)
    (fault fault' : Option HttpxError) :
    let r := readAll rt σ model fault chunks {}
    let r' := readAll rt σ model fault' chunks' {}
    r.usage = lastUsage rt [] (pieces eventEnd stream) ∧ r'.usage = r.usage ∧
      ∀ (w : World) (f : Forward) (started now : ℚ) (u : Str) (resp : Response)
        (pending : Option Fault),
        let w₁ := (finishStream rt σ w f started now u resp r pending).1
        let w₂ := (finishStream rt σ w f started now u resp r' pending).1
        w₁.quota = w₂.quota ∧ w₁.metrics = w₂.metrics := by
  intro r r'
  have hr : r.usage = lastUsage rt [] (pieces eventEnd stream) := by
    have := @readAll_usage rt σ model {} chunks fault rfl rfl
    rwa [List.nil_append, hc] at this
  have hr' : r'.usage = lastUsage rt [] (pieces eventEnd stream) := by
    have := @readAll_usage rt σ model {} chunks' fault' rfl rfl
    rwa [List.nil_append, hc'] at this
  refine ⟨hr, hr'.trans hr.symm, ?_⟩
  intro w f started now u resp pending
  obtain ⟨audit, h₁⟩ := finishStream_fst rt σ w f started now u resp r pending
  obtain ⟨audit', h₂⟩ := finishStream_fst rt σ w f started now u resp r' pending
  dsimp only
  rw [h₁, h₂, hr, hr']
  exact ⟨rfl, rfl⟩

/-- A chunk boundary inside the end of an event, and an unfinished event after it. -/
def straddling : List Bytes :=
  [bytes "data: \x7b\"usage\": \x7b\"prompt_tokens\": 3\x7d\x7d\n", bytes "\ndata: 1"]

theorem usage_chunking_straddling :
    (readAll .sample .default .none none straddling {}).usage = [(str "prompt_tokens", .int 3)] ∧
      (readAll .sample .default .none none [straddling.flatten] {}).usage =
        (readAll .sample .default .none none straddling {}).usage := by
  have h := usage_chunking .sample .default .none straddling.flatten straddling
    [straddling.flatten] rfl (by simp) none none
  exact ⟨h.1.trans rfl, h.2.1⟩

end Relay

end InferenceGateway
