import InferenceGateway.Routes.Relay
import InferenceGateway.Sample

/-!
# Passing a stream through

What the consumer of `relay` receives, against what the upstream delivered.  The
observer and the `yield` share one `try` block, so the chunk during which the
observer raises is never yielded, and the stream ends there in the error frame.

Whether the observer raises is a matter of the lines of the complete events, and
of nothing else: chunk boundaries play no part, because splitting the buffer as it
grows gives the pieces of the whole input (`Py.pieces_append`).
-/

namespace InferenceGateway

open Py

/-! ## Lines and events -/

section Lines

variable (rt : Runtime)

/-- The text of a `data:` line. -/
def dataText? (line : Bytes) : Option Bytes :=
  if dataField.isPrefixOf line then some (stripBytes (line.drop dataField.length)) else none

/-- A line that ends the scan of its event: `[DONE]`, no JSON, or an object that
carries a usage object. -/
def Stops (line : Bytes) : Prop :=
  ∃ text, dataText? line = some text ∧
    (text = bytes "[DONE]" ∨ (∃ e, Json.loads rt.loadsDepth text = .error e ∧ e.isValueError) ∨
      ∃ body usage, Json.loads rt.loadsDepth text = .ok (.dict body) ∧
        Fields.get body (str "usage") = .dict usage)

/-- A `data:` line that is JSON but not an object, or JSON nested past the recursion
limit. -/
def Unreadable (line : Bytes) : Prop :=
  ∃ text, dataText? line = some text ∧ text ≠ bytes "[DONE]" ∧
    ((∃ v, Json.loads rt.loadsDepth text = .ok v ∧ v.fields? = none) ∨
      ∃ e, Json.loads rt.loadsDepth text = .error e ∧ ¬e.isValueError)

/-- An event in which every unreadable line comes after a line that ends the scan. -/
def Watchable (event : Bytes) : Prop :=
  ∀ before line after, eventLines event = before ++ line :: after → Unreadable rt line →
    ∃ l ∈ before, Stops rt l

variable {rt} {line : Bytes} {lines : List Bytes}

/-- What the scan does at a line: it ends there, it fails there, or it goes on. -/
theorem parseUsageLines_cons (rt : Runtime) (line : Bytes) (lines : List Bytes) :
    (Stops rt line ∧ ¬Unreadable rt line ∧ ∃ o, parseUsageLines rt (line :: lines) = .ok o) ∨
      (¬Stops rt line ∧ Unreadable rt line ∧
        ∃ e, parseUsageLines rt (line :: lines) = .error e) ∨
      (¬Stops rt line ∧ ¬Unreadable rt line ∧
        parseUsageLines rt (line :: lines) = parseUsageLines rt lines) := by
  by_cases hp : dataField.isPrefixOf line
  · have ht : dataText? line = some (stripBytes (line.drop dataField.length)) := by
      simp [dataText?, hp]
    simp only [Stops, Unreadable, parseUsageLines, hp, ht, not_true_eq_false, if_false,
      Option.some.injEq, exists_eq_left']
    generalize stripBytes (line.drop dataField.length) = text
    by_cases hd : text = bytes "[DONE]"
    · exact .inl (by simp [hd])
    · simp only [hd, false_or, if_false, ne_eq, not_false_eq_true, true_and]
      cases hl : Json.loads rt.loadsDepth text with
      | error e =>
          cases he : e.isValueError with
          | true => exact .inl (by simp [he])
          | false => exact .inr (.inl (by simp [he]))
      | ok v =>
          cases v with
          | dict body =>
              have hget : (Value.dict body).getAttrD (str "usage") .none =
                  .ok (Fields.get body (str "usage")) := rfl
              cases hu : Fields.get body (str "usage") with
              | dict usage => exact .inl (by simp [Value.fields?, hget, hu])
              | _ => exact .inr (.inr (by simp [Value.fields?, hget, hu]))
          | _ => exact .inr (.inl (by simp [Value.fields?, Value.getAttrD]))
  · have ht : dataText? line = none := by simp [dataText?, hp]
    refine .inr (.inr ⟨?_, ?_, by simp [parseUsageLines, hp]⟩)
    · rintro ⟨text, h, _⟩
      rw [ht] at h
      cases h
    · rintro ⟨text, h, _⟩
      rw [ht] at h
      cases h

/-- The scan fails exactly at an unreadable line before which no line ends it. -/
theorem parseUsageLines_ok_iff :
    (∃ o, parseUsageLines rt lines = .ok o) ↔
      ∀ before line after, lines = before ++ line :: after → Unreadable rt line →
        ∃ l ∈ before, Stops rt l := by
  induction lines with
  | nil => simp [parseUsageLines]
  | cons l lines ih =>
      rcases parseUsageLines_cons rt l lines with
        ⟨hs, hu, hok⟩ | ⟨hs, hu, e, he⟩ | ⟨hs, hu, hgo⟩
      · refine ⟨fun _ before line after heq hline ↦ ?_, fun _ ↦ hok⟩
        cases before with
        | nil =>
            obtain ⟨rfl, -⟩ := List.cons.inj heq
            exact absurd hline hu
        | cons b before =>
            obtain ⟨rfl, -⟩ := List.cons.inj heq
            exact ⟨l, List.mem_cons_self, hs⟩
      · constructor
        · rintro ⟨o, ho⟩
          rw [he] at ho
          cases ho
        · intro h
          obtain ⟨l', hl', -⟩ := h [] l lines rfl hu
          cases hl'
      · rw [hgo, ih]
        constructor
        · intro h before line after heq hline
          cases before with
          | nil =>
              obtain ⟨rfl, -⟩ := List.cons.inj heq
              exact absurd hline hu
          | cons b before =>
              obtain ⟨rfl, htail⟩ := List.cons.inj heq
              obtain ⟨l', hl', hs'⟩ := h before line after htail hline
              exact ⟨l', List.mem_cons_of_mem _ hl', hs'⟩
        · intro h before line after heq hline
          obtain ⟨l', hl', hs'⟩ := h (l :: before) line after (by rw [heq]; rfl) hline
          rcases List.mem_cons.mp hl' with rfl | hl'
          · exact absurd hs' hs
          · exact ⟨l', hl', hs'⟩

/-- The observer copes with an event exactly when it is watchable. -/
theorem parseUsageFrame_ok_iff {event : Bytes} :
    (∃ o, parseUsageFrame rt event = .ok o) ↔ Watchable rt event :=
  parseUsageLines_ok_iff

/-! ## The buffer -/

/-- The loop over the buffer ends without an exception exactly when every complete
event in it is watchable, and then it leaves what no event end terminates. -/
theorem drainEvents_none_iff {n : ℕ} {buf : Bytes} (usage : Fields) (hn : buf.length ≤ n) :
    ((drainEvents rt n buf usage).2.2 = none ↔ ∀ ev ∈ pieces eventEnd buf, Watchable rt ev) ∧
      ((drainEvents rt n buf usage).2.2 = none →
        (drainEvents rt n buf usage).1 = rest eventEnd buf) := by
  induction n generalizing buf usage with
  | zero =>
      obtain rfl := List.eq_nil_of_length_eq_zero (Nat.le_zero.mp hn)
      simp [drainEvents, pieces, rest, splitN]
  | succ n ih =>
      rw [drainEvents]
      cases hc : cut? eventEnd buf with
      | none =>
          obtain ⟨hp, hr⟩ := pieces_of_cut?_none hc
          simp [hp, hr]
      | some xy =>
          obtain ⟨event, left⟩ := xy
          obtain ⟨hp, hr⟩ := pieces_of_cut? eventEnd_ne_nil hc
          have hlen : left.length ≤ n := by
            have := length_lt_of_cut? eventEnd_ne_nil hc
            omega
          simp only [hp, hr, List.forall_mem_cons, ← @parseUsageFrame_ok_iff rt event]
          cases hparse : parseUsageFrame rt event with
          | error e => simp
          | ok o =>
              cases o with
              | none => simpa using ih _ hlen
              | some parsed => simpa using ih _ hlen

end Lines

/-! ## Reading a stream to its end -/

namespace Relay

variable (rt : Runtime) (σ : Settings) (model : Value)

/-- Resume the generator with each of these in turn. -/
def feed (r : Relay) (xs : List Input) : Relay :=
  xs.foldl (fun r x ↦ ((r.resume rt σ model x).map Prod.snd).getD r) r

/-- The stream read to its end, from where the generator waits for a chunk: the
upstream delivers `chunks`, then ends, or fails in `fault`; the consumer asks for
more at every `yield`. -/
def readAll (fault : Option HttpxError) : List Bytes → Relay → Relay
  | [], r => match fault with
    | none => r.feed rt σ model [.eof]
    | some e => r.feed rt σ model [.raised (.httpx e), .next, .next]
  | c :: cs, r =>
    let r := r.feed rt σ model [.chunk c]
    if r.point = .yielded then readAll fault cs (r.feed rt σ model [.next])
    else r.feed rt σ model [.next, .next]

/-- The frame that tells a consumer the stream is broken. -/
def errorFrame : List Bytes := [errorHead, errorTail]

/-- The consumer receives the chunks of the upstream and nothing else, and the error
frame after them exactly if reading failed. -/
def Transparent (chunks : List Bytes) (fault : Option HttpxError) : Prop :=
  let r := readAll rt σ model fault chunks {}
  r.sent = chunks ++ (if fault.isSome then errorFrame else []) ∧ (r.broken ↔ fault.isSome)

variable {rt σ model} {r : Relay} {c : Bytes} {cs : List Bytes} {fault : Option HttpxError}

/-- A chunk that completes only watchable events is yielded. -/
theorem feed_chunk_of_watchable (σ : Settings) (model : Value) (hr : r.point = .reading)
    (h : ∀ ev ∈ pieces eventEnd (r.buf ++ c), Watchable rt ev) :
    ∃ first usage, r.feed rt σ model [.chunk c] =
      { r with
        firstByte := first
        usage
        buf := rest eventEnd (r.buf ++ c)
        sent := r.sent ++ [c]
        point := .yielded } := by
  obtain ⟨hiff, hrest⟩ := @drainEvents_none_iff rt _ _ r.usage (le_refl (r.buf ++ c).length)
  have hnone := hiff.mpr h
  have hbuf := hrest hnone
  simp only [feed, List.foldl_cons, List.foldl_nil, resume, hr, onChunk, Option.map_some,
    Option.getD_some]
  rcases hd : drainEvents rt (r.buf ++ c).length (r.buf ++ c) r.usage with ⟨buf, usage, exc⟩
  rw [hd] at hnone hbuf
  obtain rfl : exc = none := hnone
  obtain rfl : buf = _ := hbuf
  exact ⟨_, _, rfl⟩

/-- A chunk that completes an event the observer fails on is not yielded; the stream
ends in the error frame instead. -/
theorem feed_chunk_of_not_watchable (σ : Settings) (model : Value) (hr : r.point = .reading)
    (h : ¬∀ ev ∈ pieces eventEnd (r.buf ++ c), Watchable rt ev) :
    let r' := r.feed rt σ model [.chunk c]
    r'.point = .yieldedError false ∧ r'.broken = true ∧ r'.sent = r.sent ++ [errorHead] := by
  obtain ⟨hiff, -⟩ := @drainEvents_none_iff rt _ _ r.usage (le_refl (r.buf ++ c).length)
  have hsome := mt hiff.mp h
  simp only [feed, List.foldl_cons, List.foldl_nil, resume, hr, onChunk, Option.map_some,
    Option.getD_some]
  rcases hd : drainEvents rt (r.buf ++ c).length (r.buf ++ c) r.usage with ⟨buf, usage, exc⟩
  rw [hd] at hsome
  cases exc with
  | none => exact absurd rfl hsome
  | some e => exact ⟨rfl, rfl, rfl⟩

/-- The end of a stream of which nothing is buffered but an unfinished event. -/
theorem readAll_nil (hr : r.point = .reading) (hb : r.broken = false) :
    (readAll rt σ model fault [] r).sent = r.sent ++ (if fault.isSome then errorFrame else []) ∧
      ((readAll rt σ model fault [] r).broken ↔ fault.isSome) := by
  cases fault with
  | none => simp [readAll, feed, resume, hr, hb]
  | some e => simp [readAll, feed, resume, hr, fail, Fault.isException, errorFrame]

/-- The stream from any point on, given the unfinished event in the buffer. -/
theorem readAll_iff (hr : r.point = .reading) (hb : r.broken = false)
    (hbuf : pieces eventEnd r.buf = []) :
    ((readAll rt σ model fault cs r).sent =
        r.sent ++ cs ++ (if fault.isSome then errorFrame else []) ∧
      ((readAll rt σ model fault cs r).broken ↔ fault.isSome)) ↔
      ∀ ev ∈ pieces eventEnd (r.buf ++ cs.flatten), Watchable rt ev := by
  induction cs generalizing r with
  | nil => simpa [hbuf] using readAll_nil hr hb
  | cons c cs ih =>
      rw [List.flatten_cons, ← List.append_assoc, pieces_append eventEnd_ne_nil]
      simp only [List.forall_mem_append]
      by_cases h : ∀ ev ∈ pieces eventEnd (r.buf ++ c), Watchable rt ev
      · obtain ⟨first, usage, hfeed⟩ := feed_chunk_of_watchable σ model hr h
        rw [readAll, hfeed, if_pos rfl]
        have := ih (r := { r with
          firstByte := first
          usage
          buf := rest eventEnd (r.buf ++ c)
          sent := r.sent ++ [c]
          point := .reading }) rfl hb (pieces_rest eventEnd_ne_nil _)
        simp only [List.append_assoc, List.singleton_append] at this ⊢
        exact this.trans ⟨fun hw ↦ ⟨by simpa using h, hw⟩, And.right⟩
      · obtain ⟨hpoint, hbroken, hsent⟩ :=
          feed_chunk_of_not_watchable σ model hr h
        refine iff_of_false ?_ (fun hw ↦ h hw.1)
        rw [readAll, if_neg (by rw [hpoint]; exact Relay.Point.noConfusion)]
        rintro ⟨hs, hf⟩
        generalize r.feed rt σ model [.chunk c] = r' at hpoint hbroken hsent hs hf
        simp only [feed, resume, hpoint, List.foldl_cons, List.foldl_nil, Option.map_some,
          Option.getD_some, hbroken, true_iff] at hs hf
        have hlen := congrArg List.length hs
        simp only [hsent, hf, errorFrame, if_true, List.length_append, List.length_cons,
          List.length_nil] at hlen
        omega

/-- Passthrough is transparent exactly when every event the stream completes is
watchable, however it is cut into chunks and however it ends. -/
theorem transparent_iff (rt : Runtime) (σ : Settings) (model : Value) (chunks : List Bytes)
    (fault : Option HttpxError) :
    Transparent rt σ model chunks fault ↔
      ∀ ev ∈ pieces eventEnd chunks.flatten, Watchable rt ev := by
  have h := @readAll_iff rt σ model {} chunks fault rfl rfl rfl
  simpa [Transparent] using h

/-- A complete stream of one event, `data: 1`: the client gets the error frame in
place of its chunk. -/
theorem not_transparent_number :
    ¬Transparent .sample .default (.str (str "Qwen/Qwen3-8B-AWQ")) [bytes "data: 1\n\n"] none := by
  intro h
  exact absurd h.1 (by decide +kernel)

end Relay

end InferenceGateway
