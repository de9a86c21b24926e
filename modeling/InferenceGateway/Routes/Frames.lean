import InferenceGateway.Routes.Chat

/-!
# What each segment of the route touches

One lemma for each function of the route and each part of the shared state: the
pool, the slots, the token totals.  The later modules combine these and do not
unfold the route again.

The slots are looked at together with the two totals of calls made: `Slots` is the
ledger, and what a segment does to it is nothing, `Slots.acquire`, or
`Slots.release`.
-/

namespace InferenceGateway

open Py

/-! ## The ledger of slots -/

/-- The in-flight counts, and how many slots were granted and given back so far. -/
@[ext] structure Slots where
  inflight : Str → ℕ
  acquired : ℕ
  released : ℕ

namespace Slots

/-- A slot of `k` is granted. -/
def acquire (s : Slots) (k : Str) : Slots :=
  ⟨Function.update s.inflight k (s.inflight k + 1), s.acquired + 1, s.released⟩

/-- The slot is given back, if there is one. -/
def release (s : Slots) : Option Str → Slots
  | some k => ⟨Function.update s.inflight k (s.inflight k - 1), s.acquired, s.released + 1⟩
  | none => s

/-- Granted if there is a key to grant it to. -/
def acquireFor (s : Slots) : Option Str → Slots
  | some k => s.acquire k
  | none => s

variable {s : Slots} {k : Str} {key : Option Str} {n : ℕ}

/-- Granting a slot stays within what bounds the count, if it is granted below that. -/
theorem inflight_acquireFor_le (h : key = some k → s.inflight k < n) :
    (s.acquireFor key).inflight k ≤ max (s.inflight k) n := by
  cases key with
  | none => exact le_max_left _ _
  | some k' =>
      by_cases hk : k = k'
      · subst hk
        have : (s.acquire k).inflight k = s.inflight k + 1 := Function.update_self _ _ _
        exact le_max_of_le_right (this.trans_le (h rfl))
      · have : (s.acquire k').inflight k = s.inflight k := Function.update_of_ne hk _ _
        exact le_max_of_le_left this.le

/-- Giving a slot back raises no count. -/
theorem inflight_release_le : (s.release key).inflight k ≤ s.inflight k := by
  cases key with
  | none => exact le_rfl
  | some k' =>
      by_cases hk : k = k'
      · subst hk
        have : (s.release (some k)).inflight k = s.inflight k - 1 := Function.update_self _ _ _
        exact this.trans_le (Nat.sub_le _ _)
      · exact (Function.update_of_ne (β := fun _ ↦ ℕ) hk _ _).le

end Slots

namespace World

/-- The ledger of the shared state. -/
def slots (w : World) : Slots := ⟨w.quota.inflight, w.acquired, w.released⟩

variable {rt : Runtime} {σ : Settings} {w : World} {p : Principal} {model : Value}
  {statusCode : Nat} {reason : String} {started now : ℚ} {headers : List (String × String)}
  {key : Option Str} {usage : Fields} {label : Str} {kind : String} {n m : Value}

@[simp] theorem reject_pool :
    (w.reject rt statusCode reason p model started now headers).1.pool = w.pool := by
  obtain ⟨_, _, h⟩ := reject_fst rt w statusCode reason p model started now headers
  rw [h]

@[simp] theorem reject_quota :
    (w.reject rt statusCode reason p model started now headers).1.quota = w.quota := by
  obtain ⟨_, _, h⟩ := reject_fst rt w statusCode reason p model started now headers
  rw [h]

@[simp] theorem reject_slots :
    (w.reject rt statusCode reason p model started now headers).1.slots = w.slots := by
  obtain ⟨_, _, h⟩ := reject_fst rt w statusCode reason p model started now headers
  rw [h]
  rfl

@[simp] theorem releaseSlot_pool : (w.releaseSlot key).pool = w.pool := by cases key <;> rfl

@[simp] theorem releaseSlot_tokensUsed :
    (w.releaseSlot key).quota.tokensUsed = w.quota.tokensUsed := by cases key <;> rfl

@[simp] theorem releaseSlot_audit : (w.releaseSlot key).audit = w.audit := by cases key <;> rfl

@[simp] theorem releaseSlot_slots : (w.releaseSlot key).slots = w.slots.release key := by
  cases key <;> rfl

/-- Counting tokens only logs. -/
theorem incTokens_fst (rt : Runtime) (w : World) (label : Str) (kind : String) (n : Value) :
    ∃ metrics, (w.incTokens rt label kind n).1 = { w with metrics } := by
  unfold incTokens
  split
  · split
    · exact ⟨_, rfl⟩
    · exact ⟨w.metrics, rfl⟩
  · exact ⟨w.metrics, rfl⟩

/-- Charging a key leaves the slots alone. -/
theorem charge_fst (w : World) (key : Option Str) (n m : Value) :
    ∃ tokensUsed, (w.charge key n m).1 =
    { w with quota := { w.quota with tokensUsed } } := by
  unfold charge
  split
  · exact ⟨w.quota.tokensUsed, rfl⟩
  · split
    · rename_i k quota h
      obtain ⟨total, -, hrec⟩ := of_bind_eq_ok h
      refine ⟨quota.tokensUsed, ?_⟩
      have := (QuotaTracker.recordUsage_ok hrec).1
      obtain ⟨inflight, tokensUsed⟩ := quota
      obtain rfl : inflight = w.quota.inflight := this
      rfl
    · exact ⟨w.quota.tokensUsed, rfl⟩

/-- Recording usage logs, and then charges the key if the counters take both counts. -/
theorem recordUsage_cases (rt : Runtime) (σ : Settings) (w : World) (model : Value) (usage : Fields)
    (key : Option Str) : ∃ metrics, (w.recordUsage rt σ model usage key).1 = { w with metrics } ∨
      (w.recordUsage rt σ model usage key).1 = (charge { w with metrics } key
        (usage.get (str "prompt_tokens")) (usage.get (str "completion_tokens"))).1 := by
  unfold recordUsage
  generalize usage.get (str "prompt_tokens") = prompt
  generalize usage.get (str "completion_tokens") = completion
  dsimp only
  split
  · exact ⟨_, .inl rfl⟩
  · obtain ⟨metrics₁, h₁⟩ := incTokens_fst rt w (σ.safeModel model) "prompt" prompt
    rcases hp : w.incTokens rt (σ.safeModel model) "prompt" prompt with ⟨w₁, _ | _⟩
    · rw [hp] at h₁
      exact ⟨metrics₁, .inl h₁⟩
    · rw [hp] at h₁
      obtain rfl := h₁
      dsimp only
      obtain ⟨metrics₂, h₂⟩ := incTokens_fst rt { w with metrics := metrics₁ }
        (σ.safeModel model) "completion" completion
      rcases hc : incTokens rt { w with metrics := metrics₁ } (σ.safeModel model) "completion"
        completion with ⟨w₂, _ | _⟩
      · rw [hc] at h₂
        exact ⟨metrics₂, .inl h₂⟩
      · rw [hc] at h₂
        obtain rfl := h₂
        exact ⟨metrics₂, .inr rfl⟩

/-- Recording usage logs metrics and changes token totals, and nothing else. -/
theorem recordUsage_fst (rt : Runtime) (σ : Settings) (w : World) (model : Value) (usage : Fields)
    (key : Option Str) : ∃ metrics tokensUsed, (w.recordUsage rt σ model usage key).1 =
    { w with metrics, quota := { w.quota with tokensUsed } } := by
  obtain ⟨metrics, h | h⟩ := recordUsage_cases rt σ w model usage key
  · exact ⟨metrics, w.quota.tokensUsed, h⟩
  · obtain ⟨tokensUsed, hc⟩ := charge_fst { w with metrics } key
      (usage.get (str "prompt_tokens")) (usage.get (str "completion_tokens"))
    exact ⟨metrics, tokensUsed, h.trans hc⟩

@[simp] theorem recordUsage_pool : (w.recordUsage rt σ model usage key).1.pool = w.pool := by
  obtain ⟨_, _, h⟩ := recordUsage_fst rt σ w model usage key
  rw [h]

@[simp] theorem recordUsage_slots : (w.recordUsage rt σ model usage key).1.slots = w.slots := by
  obtain ⟨_, _, h⟩ := recordUsage_fst rt σ w model usage key
  rw [h]
  rfl

@[simp] theorem recordUsage_audit : (w.recordUsage rt σ model usage key).1.audit = w.audit := by
  obtain ⟨_, _, h⟩ := recordUsage_fst rt σ w model usage key
  rw [h]

end World

/-! ## The segments -/

section Segments

variable {rt : Runtime} {σ : Settings} {w w' : World} {f : Forward} {started now : ℚ} {e : Exn}
  {upstream : Str} {resp : Response} {relay : Relay} {pending : Option Fault} {retry : Retry}

@[simp] theorem escalate_pool : (escalate rt w f started now e).1.pool = w.pool := by
  unfold escalate
  split <;> simp

@[simp] theorem escalate_quota : (escalate rt w f started now e).1.quota = w.quota := by
  unfold escalate
  split <;> simp

@[simp] theorem escalate_slots : (escalate rt w f started now e).1.slots = w.slots := by
  unfold escalate
  split <;> simp

@[simp] theorem leaveCall_pool : (leaveCall rt w f started now e).1.pool = w.pool := by
  unfold leaveCall
  split
  · split <;> simp
  · simp

@[simp] theorem leaveCall_tokensUsed :
    (leaveCall rt w f started now e).1.quota.tokensUsed = w.quota.tokensUsed := by
  unfold leaveCall
  split
  · split <;> simp
  · simp

/-- Leaving the call gives the slot back, unless the request is streamed and what is
raised is not an `Exception`. -/
theorem leaveCall_slots : (leaveCall rt w f started now e).1.slots =
    if f.streaming ∧ ¬e.isException then w.slots else w.slots.release f.releaseKeyid := by
  unfold leaveCall
  cases hs : f.streaming with
  | true => cases he : e.isException <;> simp
  | false => simp

/-- Leaving the call ends the request. -/
theorem leaveCall_phase (rt : Runtime) (w : World) (f : Forward) (started now : ℚ) (e : Exn) :
    ∃ e', (leaveCall rt w f started now e).2 = .ended (.raised e') := by
  unfold leaveCall
  split
  · exact ⟨_, rfl⟩
  · exact ⟨_, rfl⟩

/-- What the unstreamed epilogue does: it refuses a payload it cannot parse, it raises where the
usage is no usage, cannot be recorded or cannot be logged, or it answers. -/
inductive Concludes (rt : Runtime) (σ : Settings) (w : World) (f : Forward) (started now : ℚ)
    (upstream : Str) (resp : Response) (m : World × Ended) : Prop
  | unparsed {e : Exc} (hpay : payloadOf rt resp = .error e)
      (hm : m = ((w.reject rt 502 "upstream_bad_response" f.principal f.model started now []).1,
        .raised (w.reject rt 502 "upstream_bad_response" f.principal f.model started now []).2))
  | unread {payload : Value} {e : Exc} (hpay : payloadOf rt resp = .ok payload)
      (huse : usageOf payload = .error e) (hm : m = (w, .raised (.builtin e)))
  | unrecorded {payload : Value} {usage : Fields} {w' : World} {e : Exc}
      (hpay : payloadOf rt resp = .ok payload) (huse : usageOf payload = .ok usage)
      (hrec : w.recordUsage rt σ f.model usage f.principal.keyid = (w', .error e))
      (hm : m = (w', .raised (.builtin e)))
  | unlogged {payload : Value} {usage : Fields} {w' : World} {e : Exc}
      (hpay : payloadOf rt resp = .ok payload) (huse : usageOf payload = .ok usage)
      (hrec : w.recordUsage rt σ f.model usage f.principal.keyid = (w', .ok ()))
      (haudit : auditWrite rt w'.audit (unstreamedRecord f started now upstream resp usage) =
        .error e) (hm : m = (w', .raised (.builtin e)))
  | answered {payload : Value} {usage : Fields} {w' : World} {audit : List AuditRecord}
      (hpay : payloadOf rt resp = .ok payload) (huse : usageOf payload = .ok usage)
      (hrec : w.recordUsage rt σ f.model usage f.principal.keyid = (w', .ok ()))
      (haudit : auditWrite rt w'.audit (unstreamedRecord f started now upstream resp usage) =
        .ok audit) (hm : m = ({ w' with audit },
          if 400 ≤ resp.statusCode then .raised (.http resp.statusCode "upstream error" [])
          else .returned payload))

theorem finishUnstreamed_cases (rt : Runtime) (σ : Settings) (w : World) (f : Forward)
    (started now : ℚ) (upstream : Str) (resp : Response) :
    Concludes rt σ w f started now upstream resp
      (finishUnstreamed rt σ w f started now upstream resp) := by
  unfold finishUnstreamed
  split
  · rename_i hpay
    exact .unparsed hpay rfl
  · rename_i hpay
    split
    · rename_i huse
      exact .unread hpay huse rfl
    · rename_i huse
      split
      · rename_i hrec
        exact .unrecorded hpay huse hrec rfl
      · rename_i hrec
        split
        · rename_i haudit
          exact .unlogged hpay huse hrec haudit rfl
        · rename_i haudit
          refine .answered hpay huse hrec haudit ?_
          dsimp only
          split
          · rfl
          · rfl

/-- The unstreamed epilogue logs, after recording the usage of the payload if there is
one to record. -/
theorem finishUnstreamed_fst (rt : Runtime) (σ : Settings) (w : World) (f : Forward)
    (started now : ℚ) (upstream : Str) (resp : Response) :
    (∃ metrics audit, (finishUnstreamed rt σ w f started now upstream resp).1 =
      { w with metrics, audit }) ∨
    ∃ payload usage audit, payloadOf rt resp = .ok payload ∧ usageOf payload = .ok usage ∧
      (finishUnstreamed rt σ w f started now upstream resp).1 =
        { (w.recordUsage rt σ f.model usage f.principal.keyid).1 with audit } := by
  cases finishUnstreamed_cases rt σ w f started now upstream resp with
  | unparsed hpay hm =>
      rw [hm]
      exact .inl (World.reject_fst ..)
  | unread hpay huse hm =>
      rw [hm]
      exact .inl ⟨w.metrics, w.audit, rfl⟩
  | @unrecorded payload usage w' e hpay huse hrec hm =>
      rw [hm]
      refine .inr ⟨payload, usage, w'.audit, hpay, huse, ?_⟩
      rw [hrec]
  | @unlogged payload usage w' e hpay huse hrec haudit hm =>
      rw [hm]
      refine .inr ⟨payload, usage, w'.audit, hpay, huse, ?_⟩
      rw [hrec]
  | @answered payload usage w' audit hpay huse hrec haudit hm =>
      rw [hm]
      refine .inr ⟨payload, usage, audit, hpay, huse, ?_⟩
      rw [hrec]

@[simp] theorem finishUnstreamed_pool :
    (finishUnstreamed rt σ w f started now upstream resp).1.pool = w.pool := by
  rcases finishUnstreamed_fst rt σ w f started now upstream resp with
    ⟨_, _, h⟩ | ⟨_, _, _, -, -, h⟩
  · rw [h]
  · rw [h]
    exact World.recordUsage_pool

@[simp] theorem finishUnstreamed_slots :
    (finishUnstreamed rt σ w f started now upstream resp).1.slots = w.slots := by
  rcases finishUnstreamed_fst rt σ w f started now upstream resp with
    ⟨_, _, h⟩ | ⟨_, _, _, -, -, h⟩
  · rw [h]
    rfl
  · rw [h]
    exact World.recordUsage_slots

/-- The unstreamed epilogue returns or raises. -/
theorem finishUnstreamed_snd :
    (∃ payload, (finishUnstreamed rt σ w f started now upstream resp).2 = .returned payload) ∨
      ∃ e, (finishUnstreamed rt σ w f started now upstream resp).2 = .raised e := by
  cases finishUnstreamed_cases rt σ w f started now upstream resp with
  | unparsed _ hm => exact .inr ⟨_, congrArg Prod.snd hm⟩
  | unread _ _ hm => exact .inr ⟨_, congrArg Prod.snd hm⟩
  | unrecorded _ _ _ hm => exact .inr ⟨_, congrArg Prod.snd hm⟩
  | unlogged _ _ _ _ hm => exact .inr ⟨_, congrArg Prod.snd hm⟩
  | answered _ _ _ _ hm =>
      rw [hm]
      dsimp only
      split
      · exact .inr ⟨_, rfl⟩
      · exact .inl ⟨_, rfl⟩

/-- The `finally` of the generator gives the slot back, records the usage, and logs. -/
theorem finishStream_fst (rt : Runtime) (σ : Settings) (w : World) (f : Forward) (started now : ℚ)
    (upstream : Str) (resp : Response) (relay : Relay) (pending : Option Fault) : ∃ audit,
    (finishStream rt σ w f started now upstream resp relay pending).1 =
      { ((w.releaseSlot f.releaseKeyid).recordUsage rt σ f.model relay.usage
          f.principal.keyid).1 with audit } := by
  unfold finishStream
  dsimp only
  rcases (w.releaseSlot f.releaseKeyid).recordUsage rt σ f.model relay.usage f.principal.keyid with
    ⟨w', _ | _⟩
  · exact ⟨w'.audit, rfl⟩
  · dsimp only
    split
    · exact ⟨w'.audit, rfl⟩
    · exact ⟨_, rfl⟩

@[simp] theorem finishStream_pool :
    (finishStream rt σ w f started now upstream resp relay pending).1.pool = w.pool := by
  obtain ⟨_, h⟩ := finishStream_fst rt σ w f started now upstream resp relay pending
  rw [h]
  simp

@[simp] theorem finishStream_slots :
    (finishStream rt σ w f started now upstream resp relay pending).1.slots =
      w.slots.release f.releaseKeyid := by
  obtain ⟨_, h⟩ := finishStream_fst rt σ w f started now upstream resp relay pending
  rw [h]
  exact World.recordUsage_slots.trans World.releaseSlot_slots

/-- The `finally` of the generator lets what is pending go on, or raises. -/
theorem finishStream_snd (rt : Runtime) (σ : Settings) (w : World) (f : Forward) (started now : ℚ)
    (upstream : Str) (resp : Response) (relay : Relay) (pending : Option Fault) :
    (finishStream rt σ w f started now upstream resp relay pending).2 = .streamed pending ∨
      ∃ e, (finishStream rt σ w f started now upstream resp relay pending).2 = .streamFailed e := by
  unfold finishStream
  dsimp only
  split
  · exact .inr ⟨_, rfl⟩
  · split
    · exact .inr ⟨_, rfl⟩
    · exact .inl rfl

/-- Where a call of the pool ends the request, the handler has returned or raised. -/
theorem settle_ended {how : Ended} (h : (settle rt σ w f started now retry).2 = .ended how) :
    (∃ payload, how = .returned payload) ∨ ∃ e, how = .raised e := by
  unfold settle at h
  split at h
  · split at h
    · split at h <;> cases h
    · cases h
      exact finishUnstreamed_snd
  · obtain ⟨e', he'⟩ := leaveCall_phase rt w f started now ‹Exn›
    rw [he'] at h
    cases h
    exact .inr ⟨_, rfl⟩
  · cases h

@[simp] theorem settle_pool : (settle rt σ w f started now retry).1.pool = w.pool := by
  unfold settle
  split
  · split
    · split <;> rfl
    · simp
  · simp
  · rfl

@[simp] theorem leaveDrain_pool : (leaveDrain rt w f started now resp pending).1.pool = w.pool := by
  unfold leaveDrain
  split <;> simp

@[simp] theorem leaveDrain_tokensUsed :
    (leaveDrain rt w f started now resp pending).1.quota.tokensUsed = w.quota.tokensUsed := by
  unfold leaveDrain
  split <;> simp

/-- What is raised out of the drain is what is pending, or the refusal that follows it. -/
theorem leaveDrain_slots : (leaveDrain rt w f started now resp pending).1.slots =
    if f.streaming ∧ ∃ g, pending = some g ∧ ¬g.isException then w.slots
    else w.slots.release f.releaseKeyid := by
  unfold leaveDrain
  cases pending with
  | some g => simp [leaveCall_slots, Exn.isException]
  | none =>
      have h : (w.reject rt resp.statusCode "upstream_error" f.principal f.model started now
          []).2.isException := by
        rw [World.reject_snd]
        split <;> rfl
      simp [leaveCall_slots, h]

theorem leaveDrain_phase (rt : Runtime) (w : World) (f : Forward) (started now : ℚ)
    (resp : Response) (pending : Option Fault) :
    ∃ e', (leaveDrain rt w f started now resp pending).2 = .ended (.raised e') := by
  unfold leaveDrain
  split
  · exact leaveCall_phase ..
  · exact leaveCall_phase ..

end Segments

end InferenceGateway
