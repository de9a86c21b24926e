import InferenceGateway.Python.DumpsLoads

/-!
# A text that is cut short

Until the last brace of an object is read, the machine of `json.loads` has something open
(`State.Open`), and a text that ends there is refused.  So of the beginnings of a text that
`json.dumps` wrote of a dictionary, only the whole is read (`loadsStr_torn`).
-/

namespace Py.Json

variable {D : ℕ} {stack : List Frame} {s t : State} {c : ℕ} {v : Value}

/-- A container is open, or an object before its first value. -/
inductive State.Open : State → Prop
  | frame (f : Frame) (stack : List Frame) (mode : Mode) : Open ⟨f :: stack, mode⟩
  | key (stack : List Frame) (kvs : Fields) (canClose : Bool) : Open ⟨stack, .key kvs canClose⟩
  | colon (stack : List Frame) (kvs : Fields) (k : Str) : Open ⟨stack, .colon kvs k⟩
  | string (stack : List Frame) (kvs : Fields) (rev : List (ℕ × Bool)) (esc : Escape) :
    Open ⟨stack, .string (some kvs) rev esc⟩

/-- Something is open, or the value is complete. -/
def State.Going (s : State) : Prop := s.Open ∨ ∃ v, s = ⟨[], .after v⟩

theorem State.Open.finish (h : s.Open) : Json.finish s = .error .valueError := by
  cases h with
  | frame f stack mode => rfl
  | key stack kvs canClose => cases stack <;> rfl
  | colon stack kvs k => cases stack <;> rfl
  | string stack kvs rev esc => cases stack <;> rfl

/-! ## One character -/

theorem going_of_stack (stack : List Frame) (v : Value) : State.Going ⟨stack, .after v⟩ := by
  cases stack with
  | nil => exact .inr ⟨v, rfl⟩
  | cons f stack => exact .inl (.frame f stack _)

theorem going_afterValue {f : Frame} (h : afterValue (f :: stack) v c = .ok t) : t.Going := by
  unfold afterValue at h
  split at h
  · cases h
    exact going_of_stack _ v
  · split at h
    · cases h
      exact .inl (.frame ..)
    · cases h
      exact going_of_stack _ _
    · cases h
      exact .inl (.key ..)
    · cases h
      exact going_of_stack _ _
    · cases h

theorem going_startValue {f : Frame} {canClose : Bool}
    (h : startValue D (f :: stack) canClose c = .ok t) : t.Going := by
  unfold startValue at h
  split at h
  · cases h
    exact .inl (.frame ..)
  · split at h
    · cases h
      exact .inl (.frame ..)
    · split at h
      · cases h
      · cases h
        exact .inl (.frame ..)
    · split at h
      · cases h
      · cases h
        exact .inl (.frame ..)
    · split at h
      · cases h
        exact going_of_stack _ _
      · cases h
    all_goals first
      | (cases h; exact .inl (.frame ..))
      | skip
    split at h
    · cases h
      exact .inl (.frame ..)
    · cases h

theorem going_stringStep {obj : Option Fields} {rev : List (ℕ × Bool)} {esc : Escape}
    (hopen : ∀ mode, State.Open ⟨stack, mode⟩ ∨ obj.isSome)
    (h : stringStep stack obj rev esc c = .ok t) : t.Going := by
  have hstring (rev : List (ℕ × Bool)) (esc : Escape) : State.Open ⟨stack, .string obj rev esc⟩ := by
    rcases hopen (.string obj rev esc) with hs | hobj
    · exact hs
    · obtain ⟨kvs, rfl⟩ := Option.isSome_iff_exists.mp hobj
      exact .string stack kvs rev esc
  unfold stringStep at h
  split at h
  · split at h
    · cases h
      cases obj with
      | some kvs => exact .inl (.colon ..)
      | none => exact going_of_stack _ _
    · split at h
      · cases h
        exact .inl (hstring _ _)
      · split at h
        · cases h
        · cases h
          exact .inl (hstring _ _)
  · split at h
    · cases h
      exact .inl (hstring _ _)
    · split at h
      · cases h
        exact .inl (hstring _ _)
      · cases h
  · split at h
    · split at h
      · cases h
        exact .inl (hstring _ _)
      · cases h
        exact .inl (hstring _ _)
    · cases h

/-- One character leaves something open, or completes the value. -/
theorem State.Open.step (hs : s.Open) (h : Json.step D s c = .ok t) : t.Going := by
  obtain ⟨stack, mode⟩ := s
  cases mode with
  | value canClose =>
      cases hs
      exact going_startValue h
  | key kvs canClose =>
      simp only [Json.step] at h
      split at h
      · cases h
        exact .inl (.key ..)
      · split at h
        · cases h
          exact .inl (.string ..)
        · split at h
          · cases h
            exact going_of_stack _ _
          · cases h
  | colon kvs k =>
      simp only [Json.step] at h
      split at h
      · cases h
        exact .inl (.colon ..)
      · split at h
        · cases h
          exact .inl (.frame ..)
        · cases h
  | after v =>
      cases hs
      exact going_afterValue h
  | string obj rev esc =>
      refine going_stringStep (fun mode ↦ ?_) h
      cases hs with
      | frame f stack => exact .inl (.frame ..)
      | string stack kvs => exact .inr rfl
  | number rev =>
      cases hs
      simp only [Json.step] at h
      split at h
      · cases h
        exact .inl (.frame ..)
      · split at h
        · cases h
          exact .inl (.frame ..)
        · cases hn : number rev.reverse with
          | error e =>
              rw [hn] at h
              cases h
          | ok w =>
              rw [hn] at h
              exact going_afterValue h
  | word rest w =>
      cases hs
      cases rest with
      | nil => exact going_afterValue h
      | cons r rest =>
          simp only [Json.step] at h
          split at h
          · cases h
            exact .inl (.frame ..)
          · cases h

/-- After the value there are blanks only. -/
theorem step_after (h : Json.step D ⟨[], .after v⟩ c = .ok t) : isBlank c ∧ t = ⟨[], .after v⟩ := by
  simp only [Json.step, afterValue] at h
  split at h
  · rename_i hc
    exact ⟨hc, (Except.ok.inj h).symm⟩
  · cases h

/-! ## A text -/

variable {p q text : Str}

theorem Feeds.append_inv (h : Feeds D s (p ++ q) t) : ∃ u, Feeds D s p u ∧ Feeds D u q t := by
  unfold Feeds at h ⊢
  rw [List.foldlM_append] at h
  cases hu : p.foldlM (Json.step D) s with
  | error e =>
      rw [hu] at h
      cases h
  | ok u =>
      rw [hu] at h
      exact ⟨u, rfl, h⟩

theorem Feeds.cons_inv (h : Feeds D s (c :: text) t) :
    ∃ u, Json.step D s c = .ok u ∧ Feeds D u text t := by
  unfold Feeds at h ⊢
  rw [List.foldlM_cons] at h
  cases hu : Json.step D s c with
  | error e =>
      rw [hu] at h
      cases h
  | ok u =>
      rw [hu] at h
      exact ⟨u, rfl, h⟩

theorem Feeds.of_after (h : Feeds D ⟨[], .after v⟩ text t) :
    (∀ c ∈ text, isBlank c) ∧ t = ⟨[], .after v⟩ := by
  induction text with
  | nil => exact ⟨List.forall_mem_nil _, (Except.ok.inj h).symm⟩
  | cons c text ih =>
      obtain ⟨u, hu, hrest⟩ := h.cons_inv
      obtain ⟨hc, rfl⟩ := step_after hu
      obtain ⟨hall, rfl⟩ := ih hrest
      exact ⟨List.forall_mem_cons.mpr ⟨hc, hall⟩, rfl⟩

theorem State.Going.feeds (hs : s.Going) (h : Feeds D s text t) : t.Going := by
  induction text generalizing s with
  | nil =>
      cases h
      exact hs
  | cons c text ih =>
      obtain ⟨u, hu, hrest⟩ := h.cons_inv
      rcases hs with hs | ⟨v, rfl⟩
      · exact ih (hs.step hu) hrest
      · obtain ⟨-, rfl⟩ := step_after hu
        exact ih (.inr ⟨v, rfl⟩) hrest

/-- Of what `json.dumps` wrote of a dictionary, a beginning that is not the whole is refused. -/
theorem loadsStr_torn {F : FloatRepr} {st : Style} {kvs : Fields}
    (hw : Writable st.ascii (.dict kvs)) (hd : (Value.dict kvs).depth ≤ D)
    (htext : dumps F st (.dict kvs) = p ++ q) (hp : p ≠ []) (hq : q ≠ []) :
    loadsStr D p = .error .valueError := by
  obtain ⟨t, ht, -⟩ := feeds_dumpsAt (F := F) (.dict kvs) 0 [] false hw (by simpa using hd)
  obtain ⟨body, hbody⟩ : ∃ body, dumps F st (.dict kvs) = 123 :: (body ++ [125]) := by
    cases kvs with
    | nil => exact ⟨[], rfl⟩
    | cons kv kvs =>
        obtain ⟨k, v⟩ := kv
        exact ⟨_, rfl⟩
  have hlast : q.getLast hq = 125 := by
    have hsome : (p ++ q).getLast? = some 125 := by
      rw [← htext, hbody, ← List.cons_append, List.getLast?_concat]
    rw [List.getLast?_append_of_ne_nil p hq, List.getLast?_eq_getLast_of_ne_nil hq] at hsome
    exact Option.some.inj hsome
  obtain ⟨p', rfl⟩ : ∃ p', p = 123 :: p' := by
    cases p with
    | nil => exact absurd rfl hp
    | cons c p' =>
        rw [hbody, List.cons_append] at htext
        exact ⟨p', by rw [(List.cons.inj htext).1]⟩
  have hfeeds : Feeds D ⟨[], .value false⟩ (123 :: p' ++ q) t := htext ▸ ht
  obtain ⟨u, hu, hrest⟩ := hfeeds.append_inv
  obtain ⟨u', hu', hopen⟩ := hu.cons_inv
  obtain rfl : u' = ⟨[], .key [] true⟩ := by
    rw [step_brace (Nat.lt_of_lt_of_le (Nat.succ_pos _) hd)] at hu'
    exact (Except.ok.inj hu').symm
  have hgoing : u.Going := State.Going.feeds (.inl (.key ..)) hopen
  have hloads : loadsStr D (123 :: p') = finish u := by
    rw [loadsStr, show (123 :: p').foldlM (Json.step D) ⟨[], .value false⟩ = .ok u from hu]
    rfl
  rw [hloads]
  rcases hgoing with hgoing | ⟨v, rfl⟩
  · exact hgoing.finish
  · have hblank := hrest.of_after.1 _ (List.getLast_mem hq)
    rw [hlast] at hblank
    exact absurd hblank (by decide)

end Py.Json
