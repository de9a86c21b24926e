import InferenceGateway.Sample

/-!
# Malformed requests

What leaves the code before the forwarding call.  The checks are a chain, and a
chain is handled when each of its links is, given what the links before it let
through (`Handles.bind`); so the condition on a request is read off check by check.

The exceptions nobody meant to raise come from three places: an element of
`messages` that is not an object, an infinite `max_tokens`, and values nested past
what `str` and the audit writer can walk.
-/

namespace InferenceGateway

open Py

variable {rt : Runtime} {σ : Settings} {p : Principal} {α β : Type}

/-! ## Handled outcomes -/

/-- Forwarded, or refused by an `HTTPException` with a status in 400..499. -/
def Handled : Except Exn Forward → Prop
  | .ok _ => True
  | .error (.http statusCode _ _) => 400 ≤ statusCode ∧ statusCode < 500
  | .error _ => False

/-- The stop of a check that ends in such a refusal: not a crash, and its record can
be written. -/
def Stop.Refuses (rt : Runtime) : Stop → Prop
  | .reject statusCode _ model => 400 ≤ statusCode ∧ statusCode < 500 ∧ model.depth ≤ rt.dumpsDepth
  | .crash _ => False

/-- A check that goes on or refuses. -/
def Handles (rt : Runtime) (x : Except Stop α) : Prop := ∀ s, x = .error s → s.Refuses rt

theorem Handles.ok (a : α) : Handles rt (.ok a) := fun _ h ↦ by cases h

theorem handles_error {s : Stop} : Handles rt (.error s : Except Stop α) ↔ s.Refuses rt :=
  ⟨fun h ↦ h s rfl, fun h _ hs ↦ by cases hs; exact h⟩

/-- A chain of checks handles what each of its links does. -/
theorem handles_bind {x : Except Stop α} {k : α → Except Stop β} :
    Handles rt (x >>= k) ↔ Handles rt x ∧ ∀ a, x = .ok a → Handles rt (k a) := by
  cases x with
  | error s =>
      refine ⟨fun h ↦ ⟨handles_error.mpr (handles_error.mp h), fun a ha ↦ by cases ha⟩, ?_⟩
      exact fun h ↦ handles_error.mpr (handles_error.mp h.1)
  | ok a =>
      refine ⟨fun h ↦ ⟨.ok a, fun b hb ↦ ?_⟩, fun h ↦ h.2 a rfl⟩
      obtain rfl := Except.ok.inj hb
      exact h

/-! ## The checks one by one -/

/-- A message the length estimate copes with: an object whose content is a string, or
another value that `str` can walk. -/
def Readable (rt : Runtime) (m : Value) : Prop :=
  ∃ fields, m = .dict fields ∧ (Fields.getD fields (str "content") (.str [])).depth ≤ rt.strDepth

theorem text_ok_iff (rt : Runtime) {v : Value} {n : ℕ} :
    (∃ s, rt.printer.text n v = .ok s) ↔ v.depth ≤ n := by
  cases v with
  | str s => simp [Printer.text, Value.depth]
  | _ =>
      simp only [Printer.text]
      split
      · rename_i h
        simp [h]
      · rename_i h
        simp [not_lt.mp h]

/-- The estimate succeeds exactly on readable messages. -/
theorem estimatePromptTokens_ok_iff {ms : List Value} :
    (∃ n, estimatePromptTokens rt ms = .ok n) ↔ ∀ m ∈ ms, Readable rt m := by
  induction ms with
  | nil => simp [estimatePromptTokens]
  | cons m ms ih =>
      rw [List.forall_mem_cons, ← ih]
      cases m with
      | dict fields =>
          have hread : Readable rt (.dict fields) ↔
              (Fields.getD fields (str "content") (.str [])).depth ≤ rt.strDepth := by
            simp [Readable]
          rw [hread, ← text_ok_iff rt]
          simp only [estimatePromptTokens, Value.getAttrD]
          cases ht : rt.printer.text rt.strDepth (Fields.getD fields (str "content") (.str [])) with
          | error e => simp [ht, bind, Except.bind]
          | ok s =>
              cases he : estimatePromptTokens rt ms with
              | error e => simp [ht, bind, Except.bind]
              | ok n => simp [ht, bind, Except.bind, pure, Except.pure]
      | _ => simp [estimatePromptTokens, Value.getAttrD, Readable, bind, Except.bind]

theorem intOfStr_error {s : Str} {e : Exc} (h : intOfStr s = .error e) : e = .valueError := by
  unfold intOfStr at h
  dsimp only at h
  split at h
  · cases h; rfl
  · split at h
    · cases h; rfl
    · cases h

/-- `int` fails otherwise than by a `TypeError` or a `ValueError` only on an infinity. -/
theorem toInt_error {v : Value} {e : Exc} (h : v.toInt = .error e) :
    (e = .typeError ∨ e.isValueError) ↔ ¬v.isInfinite := by
  cases v with
  | float x =>
      cases x with
      | nan => cases h; decide
      | inf neg => cases h; simp [Value.isInfinite, Exc.isValueError]
      | finite q => cases h
  | str s =>
      obtain rfl := intOfStr_error h
      simp [Value.isInfinite, Exc.isValueError]
  | none => cases h; decide
  | bool b => cases h
  | int n => cases h
  | list xs => cases h; simp [Value.isInfinite]
  | dict kvs => cases h; simp [Value.isInfinite]

theorem toInt_ok {v : Value} {n : ℤ} (h : v.toInt = .ok n) : ¬v.isInfinite := by
  cases v with
  | float x =>
      cases x with
      | inf neg => cases h
      | _ => simp [Value.isInfinite]
  | _ => simp [Value.isInfinite]

theorem handles_parseBody {raw : Bytes} : Handles rt (parseBody rt σ raw) := by
  unfold parseBody
  split
  · exact handles_error.mpr ⟨by decide, by decide, Nat.zero_le _⟩
  · split
    · exact handles_error.mpr ⟨by decide, by decide, Nat.zero_le _⟩
    · exact Handles.ok _
    · exact handles_error.mpr ⟨by decide, by decide, Nat.zero_le _⟩

theorem handles_checkModel {body : Fields} :
    Handles rt (checkModel σ p body) ↔
      (p.hasScope (str "chat") ∧ σ.allows (body.get (str "model"))) ∨
        (body.get (str "model")).depth ≤ rt.dumpsDepth := by
  unfold checkModel
  dsimp only
  split
  · rename_i h
    simp only [handles_error, Stop.Refuses]
    simp [h]
  · split
    · rename_i h
      simp only [handles_error, Stop.Refuses]
      simp [h]
    · rename_i hs ha
      exact iff_of_true (.ok _) (.inl ⟨by simpa using hs, by simpa using ha⟩)

theorem handles_checkMessages {body : Fields} {model : Value} (hm : model.depth = 0) :
    Handles rt (checkMessages rt σ body model) ↔
      ∀ m ms, body.get (str "messages") = .list (m :: ms) → ∀ m' ∈ m :: ms, Readable rt m' := by
  have hreject : ∀ reason, Handles rt (.error (.reject 400 reason model) : Except Stop Unit) :=
    fun _ ↦ handles_error.mpr ⟨by decide, by decide, by rw [hm]; exact Nat.zero_le _⟩
  unfold checkMessages
  split
  · rename_i m ms hb
    simp only [hb, Value.list.injEq, List.cons.injEq, and_imp]
    have hok := @estimatePromptTokens_ok_iff rt (m :: ms)
    split
    · rename_i e he
      rw [he] at hok
      rw [handles_error]
      refine iff_of_false id fun h ↦ ?_
      obtain ⟨n, hn⟩ := hok.mpr (h m ms rfl rfl)
      cases hn
    · rename_i n hn
      refine iff_of_true ?_ ?_
      · split
        · exact hreject _
        · exact .ok _
      · rintro _ _ rfl rfl
        exact hok.mp ⟨n, hn⟩
  · rename_i hne
    refine iff_of_true (hreject _) fun m ms hb ↦ ?_
    exact absurd hb (hne m ms)

theorem handles_clampMaxTokens {body : Fields} {model : Value} (hm : model.depth = 0) :
    Handles rt (clampMaxTokens σ body model) ↔ ¬(body.get (str "max_tokens")).isInfinite := by
  have hreject : Handles rt (.error (.reject 400 "max_tokens_invalid" model) : Except Stop Fields) :=
    handles_error.mpr ⟨by decide, by decide, by rw [hm]; exact Nat.zero_le _⟩
  unfold clampMaxTokens
  split
  · rename_i hb
    rw [hb]
    exact iff_of_true (.ok _) (by decide)
  · split
    · rename_i e he
      have hinf := toInt_error he
      split
      · rename_i hc
        refine iff_of_true hreject (hinf.mp ?_)
        simpa using hc
      · rename_i hc
        rw [handles_error]
        refine iff_of_false id (fun h ↦ hc ?_)
        simpa using hinf.mpr h
    · rename_i n hn
      refine iff_of_true ?_ (toInt_ok hn)
      split
      · exact hreject
      · exact .ok _

theorem handles_checkTokenBudget {q : QuotaTracker} {model : Value} (hm : model.depth = 0) :
    Handles rt (checkTokenBudget p q model) := by
  unfold checkTokenBudget
  split
  · split
    · exact handles_error.mpr ⟨by decide, by decide, by rw [hm]; exact Nat.zero_le _⟩
    · exact .ok _
  · exact .ok _

/-! ## The whole -/

/-- The requests the checks cope with. -/
def Tractable (rt : Runtime) (σ : Settings) (p : Principal) (raw : Bytes) : Prop :=
  ∀ body, (raw.length : ℤ) ≤ σ.maxBodyBytes → Json.loads rt.loadsDepth raw = .ok (.dict body) →
    if p.hasScope (str "chat") ∧ σ.allows (Fields.get body (str "model")) then
      ∀ m ms, Fields.get body (str "messages") = .list (m :: ms) →
        (∀ m' ∈ m :: ms, Readable rt m') ∧
          ∀ n, estimatePromptTokens rt (m :: ms) = .ok n → (n : ℤ) ≤ σ.maxPromptTokens →
            ¬(Fields.get body (str "max_tokens")).isInfinite
    else (Fields.get body (str "model")).depth ≤ rt.dumpsDepth

/-- The checks after the messages, for an allowed model. -/
theorem handles_tail {q : QuotaTracker} {body : Fields} {model : Value} {k : Fields → Forward}
    (hm : model.depth = 0) :
    Handles rt (clampMaxTokens σ body model >>= fun b ↦
        checkTokenBudget p q model >>= fun _ ↦ pure (k b)) ↔
      ¬(body.get (str "max_tokens")).isInfinite := by
  rw [handles_bind, handles_clampMaxTokens hm]
  refine and_iff_left fun b _ ↦ handles_bind.mpr ⟨handles_checkTokenBudget hm, fun _ _ ↦ ?_⟩
  exact Handles.ok _

theorem handles_validate (q : QuotaTracker) {raw : Bytes} :
    Handles rt (validate rt σ p q raw) ↔ Tractable rt σ p raw := by
  unfold validate Tractable
  rw [handles_bind, and_iff_right handles_parseBody]
  refine forall_congr' fun body ↦ ?_
  rw [parseBody_ok_iff, and_imp]
  refine imp_congr_right fun _ ↦ imp_congr_right fun _ ↦ ?_
  rw [handles_bind, handles_checkModel]
  split
  · rename_i hallowed
    have hdepth := depth_of_allows hallowed.2
    simp only [hallowed, true_or, and_self, true_and, checkModel_ok_iff, forall_eq']
    rw [handles_bind, handles_checkMessages hdepth]
    constructor
    · rintro ⟨hread, htail⟩ m ms hb
      refine ⟨hread m ms hb, fun n hn hle ↦ ?_⟩
      exact (handles_tail hdepth).mp (htail () (checkMessages_ok_iff.mpr ⟨m, ms, n, hb, hn, hle⟩))
    · intro h
      refine ⟨fun m ms hb ↦ (h m ms hb).1, fun u hu ↦ (handles_tail hdepth).mpr ?_⟩
      obtain ⟨m, ms, n, hb, hn, hle⟩ := checkMessages_ok_iff.mp hu
      exact (h m ms hb).2 n hn hle
  · rename_i hnot
    rw [or_iff_right hnot]
    refine and_iff_left fun model hm ↦ ?_
    rw [checkModel_ok_iff] at hm
    exact absurd ⟨hm.1, hm.2.1⟩ hnot

/-- What leaves the code before the forwarding call is a request to forward or a
refusal with a status in 400..499, exactly on the requests the checks cope with. -/
theorem handled_prepare_iff (rt : Runtime) (σ : Settings) (p : Principal) (w : World) (raw : Bytes)
    (started now : ℚ) :
    Handled (prepare rt σ p w raw started now).2 ↔ Tractable rt σ p raw := by
  rw [← handles_validate w.quota]
  unfold prepare
  cases hv : validate rt σ p w.quota raw with
  | error s =>
      rw [handles_error]
      cases s with
      | crash e => exact Iff.rfl
      | reject statusCode reason model =>
          simp only [Stop.Refuses, World.reject_snd]
          split
          · rename_i hd
            simp only [Handled, hd, and_true]
          · rename_i hd
            exact iff_of_false id fun h ↦ hd h.2.2
  | ok f =>
      refine iff_of_true ?_ (Handles.ok f)
      have hd : f.model.depth ≤ rt.dumpsDepth := by
        rw [depth_of_allows (of_validate hv).model]
        exact Nat.zero_le _
      dsimp only
      split
      · split
        · simp only [World.reject_snd, if_pos hd]
          exact ⟨by decide, by decide⟩
        · trivial
      · trivial

/-- An element of `messages` that is not an object is a 500. -/
theorem not_handled_number_message :
    ¬Handled (prepare .sample .default { subject := str "key:abcd", scopes := [str "chat"], method := "apikey" }
      { pool := ⟨[str "http://vllm/v1"], List.cons_ne_nil _ _, 0, []⟩ }
      (bytes "\x7b\"model\": \"Qwen/Qwen3-8B-AWQ\", \"messages\": [1]\x7d") 0 0).2 :=
  fun h ↦ h

end InferenceGateway
