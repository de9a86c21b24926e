import InferenceGateway.Slots
import InferenceGateway.Transition.Admission

/-!
# Token budgets

The budget check compares against past usage only, so what keeps a key near its
budget is that a request holds its slot until its own usage is charged, in the same
step.  Seen from one key, every step of the process is then a few moves of
`Transition.Admission`: a request that is granted a slot enters, one that gives it
back leaves and is charged for what its response reported, and everything else is
idle -- a slot that is lost too, which only means that nobody will enter in its
place.
-/

namespace InferenceGateway

open Py Transition

/-! ## What a response reports -/

/-- A usage object with nothing in it, or with two token counts that sum to at most
`T`. -/
def atMost (T : ℕ) (usage : Fields) : Bool :=
  usage.isEmpty ||
    match Fields.get usage (str "prompt_tokens"), Fields.get usage (str "completion_tokens") with
    | .int prompt, .int completion => 0 ≤ prompt && 0 ≤ completion && prompt + completion ≤ T
    | _, _ => false

/-- The usage objects that arrive in a step: the one in the payload of an unstreamed
response, or those in the events of a stream. -/
def reported (rt : Runtime) : Phase → Input → List Fields
  | .calling f _, .responded resp =>
    if f.streaming then []
    else match payloadOf rt resp with
      | .error _ => []
      | .ok payload => (usageOf payload).toOption.toList
  | .relaying _ _ _ relay, .chunk b =>
    (pieces eventEnd (relay.buf ++ b)).filterMap fun event ↦
      (parseUsageFrame rt event).toOption.join
  | _, _ => []

/-- The usage object the request holds on to. -/
def Phase.usage : Phase → Fields
  | .relaying _ _ _ relay => relay.usage
  | _ => []

variable {rt : Runtime} {σ : Settings} {p : Principal} {started now : ℚ} {w : World}
  {phase : Phase} {x : Input} {m : World × Phase} {f : Forward} {usage : Fields} {k : Str}
  {T : ℕ} {used : ℤ} {retry : Retry}

theorem atMost_nil : atMost T [] := rfl

theorem atMost_cases (h : atMost T usage) : usage = [] ∨ ∃ prompt completion : ℕ,
    Fields.get usage (str "prompt_tokens") = .int prompt ∧
      Fields.get usage (str "completion_tokens") = .int completion ∧ prompt + completion ≤ T := by
  unfold atMost at h
  rcases Bool.or_eq_true_iff.mp h with h | h
  · exact .inl (List.isEmpty_iff.mp h)
  · split at h
    · rename_i prompt completion hp hc
      simp only [Bool.and_eq_true, decide_eq_true_eq] at h
      refine .inr ⟨prompt.toNat, completion.toNat, ?_, ?_, by omega⟩
      · rw [hp, Int.toNat_of_nonneg h.1.1]
      · rw [hc, Int.toNat_of_nonneg h.1.2]
    · cases h

/-- The payload of an unstreamed response reports its usage object. -/
theorem mem_reported_of_payload {resp : Response} {payload : Value} (hs : f.streaming = false)
    (hpay : payloadOf rt resp = .ok payload) (huse : usageOf payload = .ok usage) :
    usage ∈ reported rt (.calling f retry) (.responded resp) := by
  simp [reported, hs, hpay, huse, Except.toOption]

/-- The events of a chunk report theirs. -/
theorem mem_reported_of_event {u : Str} {resp : Response} {relay : Relay} {b event : Bytes}
    (hev : event ∈ pieces eventEnd (relay.buf ++ b))
    (hparse : parseUsageFrame rt event = .ok (some usage)) :
    usage ∈ reported rt (.relaying f u resp relay) (.chunk b) :=
  List.mem_filterMap.mpr ⟨event, hev, by rw [hparse]; rfl⟩

/-- The observer keeps the usage object it has, or takes one of an event. -/
theorem drainEvents_usage {n : ℕ} {buf : Bytes} :
    (drainEvents rt n buf usage).2.1 = usage ∨ ∃ event ∈ pieces eventEnd buf,
      parseUsageFrame rt event = .ok (some (drainEvents rt n buf usage).2.1) := by
  induction n generalizing buf usage with
  | zero => exact .inl rfl
  | succ n ih =>
      rw [drainEvents]
      cases hc : cut? eventEnd buf with
      | none => exact .inl rfl
      | some xy =>
          obtain ⟨event, left⟩ := xy
          obtain ⟨hp, -⟩ := pieces_of_cut? eventEnd_ne_nil hc
          simp only [hp, List.exists_mem_cons_iff]
          cases hparse : parseUsageFrame rt event with
          | error e => exact .inl rfl
          | ok o =>
              cases o with
              | none => exact (@ih usage left).imp_right .inr
              | some parsed =>
                  rcases @ih parsed left with h | h
                  · exact .inr (.inl (by rw [h]))
                  · exact .inr (.inr h)

theorem Relay.onChunk_usage {relay : Relay} {model : Value} {b : Bytes} :
    (relay.onChunk rt σ model b).2.usage =
      (drainEvents rt (relay.buf ++ b).length (relay.buf ++ b) relay.usage).2.1 := by
  unfold Relay.onChunk
  dsimp only
  rcases drainEvents rt (relay.buf ++ b).length (relay.buf ++ b) relay.usage with
    ⟨buf, usage, _ | e⟩ <;> rfl

/-- What the generator holds on to, it held on to before or has just read. -/
theorem Relay.resume_usage {relay relay' : Relay} {model : Value} {calls : List MetricCall}
    (h : relay.resume rt σ model x = some (calls, relay')) :
    relay'.usage = relay.usage ∨ ∃ b, x = .chunk b ∧
      ∃ event ∈ pieces eventEnd (relay.buf ++ b), parseUsageFrame rt event = .ok (some relay'.usage) := by
  unfold Relay.resume at h
  split at h
  · rename_i b hpoint
    have hrelay : (relay.onChunk rt σ model b).2 = relay' := (Prod.mk.inj (Option.some.inj h)).2
    rw [← hrelay, Relay.onChunk_usage]
    exact drainEvents_usage.imp_right fun hev ↦ ⟨b, rfl, hev⟩
  · cases h; exact .inl rfl
  · split at h <;> cases h <;> exact .inl rfl
  · cases h; exact .inl rfl
  · cases h; exact .inl rfl
  · cases h; exact .inl rfl
  · cases h; exact .inl rfl
  · cases h; exact .inl rfl
  · cases h

/-! ## What a request is charged -/

/-- Charging the key for the usage object is all that happens to the totals. -/
def Charged (rt : Runtime) (σ : Settings) (f : Forward) (usage : Fields) (w w' : World) : Prop :=
  ∃ w₁ : World, w₁.quota.tokensUsed = w.quota.tokensUsed ∧
    w'.quota.tokensUsed =
      (w₁.recordUsage rt σ f.model usage f.principal.keyid).1.quota.tokensUsed

theorem settle_charges (h : (settle rt σ w f started now retry).1.quota.tokensUsed ≠
      w.quota.tokensUsed) :
    ∃ u resp payload usage, retry = .returned u resp ∧ f.streaming = false ∧
      payloadOf rt resp = .ok payload ∧ usageOf payload = .ok usage ∧
      Charged rt σ f usage w (settle rt σ w f started now retry).1 ∧
      (settle rt σ w f started now retry).2.isEnded = true := by
  cases retry with
  | returned u resp =>
      cases hs : f.streaming with
      | true =>
          refine absurd ?_ h
          simp only [settle, hs, if_true]
          split <;> rfl
      | false =>
          simp only [settle, hs, Bool.false_eq_true, if_false] at h ⊢
          rcases finishUnstreamed_fst rt σ (w.releaseSlot f.releaseKeyid) f started now u resp with
            ⟨_, _, hfst⟩ | ⟨payload, usage, _, hpay, huse, hfst⟩
          · refine absurd ?_ h
            simp [hfst]
          · refine ⟨u, resp, payload, usage, rfl, trivial, hpay, huse, ?_, rfl⟩
            exact ⟨w.releaseSlot f.releaseKeyid, World.releaseSlot_tokensUsed, by rw [hfst]⟩
  | raised e => exact absurd leaveCall_tokensUsed h
  | _ => exact absurd rfl h

/-- A step that changes a total ends the request and does not lose its slot, and
charges it for a usage object that just arrived or that the request held on to. -/
theorem Moves.charges (h : Moves rt σ p started now w phase x m)
    (hne : m.1.quota.tokensUsed ≠ w.quota.tokensUsed) :
    ∃ f usage, phase.forward? = some f ∧ Charged rt σ f usage w m.1 ∧ m.2.isEnded = true ∧
      phase.loses x = false ∧ (usage ∈ reported rt phase x ∨ phase.usage = usage) := by
  cases h with
  | refused hp =>
      obtain ⟨_, _, rfl⟩ := prepare_error hp
      exact absurd rfl hne
  | admitted hp hstart =>
      rw [← (prepare_ok hp).tokensUsed] at hne
      obtain ⟨_, _, _, _, hret, -⟩ := settle_charges hne
      exact absurd hret (Retry.start_returned hstart)
  | called hr =>
      obtain ⟨u, resp, payload, usage, rfl, hs, hpay, huse, hc, hend⟩ := settle_charges hne
      obtain ⟨a, rfl, rfl⟩ := Retry.resume_returned hr
      exact ⟨_, usage, rfl, hc, hend, rfl, .inl (mem_reported_of_payload hs hpay huse)⟩
  | drainClosed => exact absurd leaveDrain_tokensUsed hne
  | drainFailed g => exact absurd leaveCall_tokensUsed hne
  | @finished f u resp relay pending hpoint =>
      obtain ⟨_, hfst⟩ := finishStream_fst rt σ w f started now u resp relay pending
      have hc : Charged rt σ f relay.usage w (finishStream rt σ w f started now u resp relay pending).1 :=
        ⟨w.releaseSlot f.releaseKeyid, World.releaseSlot_tokensUsed, by rw [hfst]⟩
      exact ⟨f, relay.usage, rfl, hc, rfl, rfl, .inr rfl⟩
  | _ => exact absurd rfl hne

/-- A caller is charged to its own key only. -/
theorem World.charge_of_ne {key : Option Str} {n c : Value} (h : key ≠ some k) :
    (w.charge key n c).1.quota.tokensUsed k = w.quota.tokensUsed k := by
  unfold World.charge
  split
  · rfl
  · split
    · rename_i k' quota hq
      obtain ⟨total, -, hrec⟩ := of_bind_eq_ok hq
      exact (QuotaTracker.recordUsage_ok hrec).2 k fun hk ↦ h (by rw [hk])
    · rfl

/-- Two token counts are added up and charged. -/
theorem World.charge_int {prompt completion : ℕ} (hused : w.quota.tokensUsed k = .int used) :
    (w.charge (some k) (.int prompt) (.int completion)).1.quota.tokensUsed k =
      .int (used + (prompt + completion : ℕ)) := by
  obtain ⟨q', hq, hk⟩ := QuotaTracker.recordUsage_int (n := prompt + completion) hused
  have hbind : ((World.orZero (.int prompt)).add (World.orZero (.int completion)) >>=
      w.quota.recordUsage k) = .ok q' := by
    rw [World.orZero_int, World.orZero_int]
    exact hq
  unfold World.charge
  dsimp only
  rw [hbind]
  rw [max_eq_left (by positivity)] at hk
  exact_mod_cast hk

/-- A usage object within the bound charges its key for no more than that, and no other
key. -/
theorem World.recordUsage_atMost (rt : Runtime) (σ : Settings) (model : Value) (hm : atMost T usage)
    (hused : w.quota.tokensUsed k = .int used) :
    ∃ n : ℕ, n ≤ T ∧
      (w.recordUsage rt σ model usage (some k)).1.quota.tokensUsed k = .int (used + n) := by
  rcases atMost_cases hm with rfl | ⟨prompt, completion, hp, hc, hle⟩
  · exact ⟨0, Nat.zero_le _, by simpa [World.recordUsage, Fields.get, Fields.getD] using hused⟩
  · obtain ⟨metrics, h | h⟩ := World.recordUsage_cases rt σ w model usage (some k)
    · exact ⟨0, Nat.zero_le _, by rw [h]; simpa using hused⟩
    · refine ⟨prompt + completion, hle, ?_⟩
      rw [h, hp, hc]
      exact World.charge_int hused

theorem World.recordUsage_of_ne {model : Value} {key : Option Str} (h : key ≠ some k) :
    (w.recordUsage rt σ model usage key).1.quota.tokensUsed k = w.quota.tokensUsed k := by
  obtain ⟨metrics, hr | hr⟩ := World.recordUsage_cases rt σ w model usage key
  · rw [hr]
  · rw [hr]
    exact World.charge_of_ne h

/-! ## What a request holds on to -/

/-- After a call of the pool, nothing has been read of a stream. -/
theorem settle_usage : (settle rt σ w f started now retry).2.usage = [] := by
  unfold settle
  split
  · split
    · split <;> rfl
    · rfl
  · obtain ⟨e', he'⟩ := leaveCall_phase rt w f started now ‹Exn›
    rw [he']
    rfl
  · rfl

/-- The usage object a request holds on to is empty, or the one it held on to before, or
has just arrived. -/
theorem Moves.usage_cases (h : Moves rt σ p started now w phase x m) :
    m.2.usage = [] ∨ m.2.usage = phase.usage ∨ m.2.usage ∈ reported rt phase x := by
  cases h with
  | admitted hp hstart => exact .inl settle_usage
  | called hr => exact .inl settle_usage
  | @drainClosed f u resp pending =>
      obtain ⟨e', he'⟩ := leaveDrain_phase rt w f started now resp pending
      rw [he']
      exact .inl rfl
  | @drainFailed f u resp pending g =>
      obtain ⟨e', he'⟩ := leaveCall_phase rt w f started now (.fault g)
      rw [he']
      exact .inl rfl
  | relayed hpoint hr =>
      rcases Relay.resume_usage hr with h | ⟨b, rfl, event, hev, hparse⟩
      · exact .inr (.inl h)
      · exact .inr (.inr (mem_reported_of_event hev hparse))
  | _ => exact .inl rfl

/-! ## One request of the key -/

/-- The books of `k` show this ledger. -/
structure Books (k : Str) (w : World) (l : Admission.Ledger) : Prop where
  inflight : w.quota.inflight k = l.inside
  tokensUsed : w.quota.tokensUsed k = .int l.spent

/-- What is known of a request: `k`'s have the budget `B`, each has handed itself to the
pool in its own name, and what those of `k` hold on to is within `T`. -/
structure Metered (k : Str) (B : ℤ) (T : ℕ) (r : Request) : Prop where
  budget : r.principal.keyid = some k → r.principal.tokenBudget = some B
  principal : ∀ f, r.phase.forward? = some f → f.principal = r.principal
  usage : r.principal.keyid = some k → atMost T r.phase.usage

/-- What is known of a request of `k` before a step: with the pool, it carries its slot. -/
structure Billed (k : Str) (B C : ℤ) (T : ℕ) (r : Request) : Prop extends Metered k B T r where
  key : r.principal.keyid = some k
  cap : r.principal.maxConcurrency = some C
  slot : ∀ f, r.phase.forward? = some f → r.phase.slot = some k

variable {r : Request} {B C : ℤ} {l : Admission.Ledger}

/-- What a request is charged in a step. -/
theorem Billed.charge (hb : Billed k B C T r) (hl : Books k w l)
    (h : Moves rt σ r.principal r.started now w r.phase x m)
    (hx : ∀ usage ∈ reported rt r.phase x, atMost T usage) :
    ∃ n : ℕ, n ≤ T ∧ m.1.quota.tokensUsed k = .int (l.spent + n) ∧
      (n ≠ 0 → m.2.isEnded = true ∧ r.phase.loses x = false ∧ r.phase.slot = some k) := by
  by_cases hne : m.1.quota.tokensUsed = w.quota.tokensUsed
  · exact ⟨0, Nat.zero_le _, by rw [hne, hl.tokensUsed]; simp, fun h ↦ absurd rfl h⟩
  · obtain ⟨f, usage, hf, ⟨w₁, hw₁, hm⟩, hend, hlose, hrep⟩ := h.charges hne
    have hkey : f.principal.keyid = some k := by rw [hb.principal f hf, hb.key]
    have husage : atMost T usage := by
      rcases hrep with hrep | rfl
      · exact hx usage hrep
      · exact hb.usage hb.key
    have hused : w₁.quota.tokensUsed k = .int l.spent := by rw [hw₁, hl.tokensUsed]
    obtain ⟨n, hn, hrec⟩ := World.recordUsage_atMost rt σ f.model husage hused
    refine ⟨n, hn, ?_, fun _ ↦ ⟨hend, hlose, hb.slot f hf⟩⟩
    rw [hm, hkey]
    exact hrec

/-- A step of a request keeps what is known of it. -/
theorem Metered.moved (hb : Metered k B T r)
    (h : Moves rt σ r.principal r.started now w r.phase x m)
    (hx : r.principal.keyid = some k → ∀ usage ∈ reported rt r.phase x, atMost T usage) :
    Metered k B T (r.moved w m) := by
  refine ⟨hb.budget, fun f hf ↦ ?_, fun hk ↦ ?_⟩
  · rcases h.forward hf with hf | ⟨raw, w', -, -, hp⟩
    · exact hb.principal f hf
    · exact (prepare_ok hp).validated.principal
  · change atMost T m.2.usage
    rcases h.usage_cases with h | h | h
    · rw [h]
      exact atMost_nil
    · rw [h]
      exact hb.usage hk
    · exact hx hk _ h

/-- The slot that a step grants to a request of the key, if any, is an entry of the ledger. -/
theorem Billed.enters {granted : Option Str} (hb : Billed k B C T r) (hl : Books k w l)
    (hgranted : ∀ k', granted = some k' → Granted r.principal w r.phase k') :
    ∃ l₁ : Admission.Ledger, (w.slots.acquireFor granted).inflight k = l₁.inside ∧
      l₁.spent = l.spent ∧ Relation.ReflTransGen (Admission.Step B C.toNat T) l l₁ := by
  cases granted with
  | none => exact ⟨l, hl.inflight, rfl, .refl⟩
  | some k' =>
      have hg := hgranted k' rfl
      obtain rfl : k' = k := Option.some.inj (hg.key.symm.trans hb.key)
      have hbudget : l.spent < B := by
        have := hg.budget B (hb.budget hb.key)
        rw [hl.tokensUsed, Py.Num.ge_int] at this
        simpa using this
      have hcap : l.inside < C.toNat := by
        have := hg.cap C hb.cap
        rw [hl.inflight] at this
        omega
      refine ⟨⟨l.inside + 1, l.spent⟩, ?_, rfl, .single (.enter l hbudget hcap)⟩
      rw [← hl.inflight]
      exact Function.update_self _ _ _

/-- With the slot it holds or is granted, a request of the key is inside. -/
theorem Books.inside_pos {slot granted : Option Str} (hl : Books k w l)
    (hpos : slot = some k → 0 < l.inside) (hor : slot.or granted = some k) :
    0 < (w.slots.acquireFor granted).inflight k := by
  cases granted with
  | none =>
      rw [Option.or_none] at hor
      show 0 < w.quota.inflight k
      rw [hl.inflight]
      exact hpos hor
  | some k' =>
      by_cases hk : k' = k
      · subst hk
        have hself : (w.slots.acquire k').inflight k' = w.quota.inflight k' + 1 :=
          Function.update_self _ _ _
        exact hself ▸ Nat.succ_pos _
      · rcases Option.or_eq_some_iff.mp hor with h | ⟨-, h⟩
        · have hother : (w.slots.acquire k').inflight k = l.inside :=
            (Function.update_of_ne (Ne.symm hk) _ _).trans hl.inflight
          exact hother ▸ hpos h
        · exact absurd (Option.some.inj h) hk

/-- One step of a request of the key is a few moves of the ledger. -/
theorem Billed.admission (hb : Billed k B C T r) (hl : Books k w l)
    (h : Moves rt σ r.principal r.started now w r.phase x m)
    (hx : ∀ usage ∈ reported rt r.phase x, atMost T usage)
    (hpos : r.phase.slot = some k → 0 < l.inside)
    (hslot : ∀ k', r.phase.slot = some k' → k' = k) :
    ∃ l', Books k m.1 l' ∧ Relation.ReflTransGen (Admission.Step B C.toNat T) l l' := by
  obtain ⟨n, hn, hspent, hcharged⟩ := hb.charge hl h hx
  obtain ⟨granted, hgranted, -, hacc⟩ := h.slots
  -- First the slot is granted, if it is.
  obtain ⟨l₁, hinside, hl₁, hmoves⟩ := hb.enters hl hgranted
  -- A step that charges nothing and leaves the slots alone ends there.
  have hidle (hs : m.1.slots = w.slots.acquireFor granted) (hn₀ : n = 0) : Books k m.1 l₁ := by
    constructor
    · rw [← hinside, ← hs]
      rfl
    · rw [hspent, hn₀, hl₁]
      simp
  rcases hacc with ⟨hend, hs, -⟩ | ⟨hend, hs, hlost⟩ | ⟨hend, hs, hlost⟩
  · refine ⟨l₁, hidle hs ?_, hmoves⟩
    by_contra hne
    rw [(hcharged hne).1] at hend
    cases hend
  · cases hor : r.phase.slot.or granted with
    | none =>
        have hnone : r.phase.slot = none := (Option.or_eq_none_iff.mp hor).1
        rw [hor] at hs
        refine ⟨l₁, hidle hs ?_, hmoves⟩
        by_contra hne
        rw [(hcharged hne).2.2] at hnone
        cases hnone
    | some k' =>
        obtain rfl : k' = k := by
          rcases Option.or_eq_some_iff.mp hor with h | ⟨-, h⟩
          · exact hslot k' h
          · exact Option.some.inj ((hgranted k' h).key.symm.trans hb.key)
        have hpos₁ : 0 < l₁.inside := hinside ▸ hl.inside_pos hpos hor
        refine ⟨⟨l₁.inside - 1, l₁.spent + n⟩, ⟨?_, ?_⟩, hmoves.tail (.leave l₁ n hpos₁ hn)⟩
        · show m.1.slots.inflight k' = l₁.inside - 1
          rw [hs, hor, ← hinside]
          exact Function.update_self _ _ _
        · rw [hspent, hl₁]
  · refine ⟨l₁, hidle hs ?_, hmoves⟩
    by_contra hne
    rw [(hcharged hne).2.1] at hlost
    cases hlost

/-- A step of another request leaves the books of `k` as they are. -/
theorem Books.of_key_ne (hl : Books k w l) (hb : r.Balanced) (hk : r.principal.keyid ≠ some k)
    (hp : ∀ f, r.phase.forward? = some f → f.principal = r.principal)
    (h : Moves rt σ r.principal r.started now w r.phase x m)
    (hw : ∀ k, (r.holds k).toNat ≤ w.quota.inflight k) : Books k m.1 l := by
  have hi := (hb.moved h hw).2.1 k
  rw [Request.holds_of_key_ne hk, Request.holds_of_key_ne (r := r.moved w m) hk] at hi
  refine ⟨(Nat.add_right_cancel hi).trans hl.inflight, ?_⟩
  by_cases hne : m.1.quota.tokensUsed = w.quota.tokensUsed
  · rw [hne, hl.tokensUsed]
  · obtain ⟨f, usage, hf, ⟨w₁, hw₁, hm⟩, -⟩ := h.charges hne
    rw [hm, World.recordUsage_of_ne (by rw [hp f hf]; exact hk), hw₁, hl.tokensUsed]

/-! ## All requests -/

namespace System

variable {s s' : System} {e : Event} {es fs : List Event}

/-- The key's requests come in with the budget `B` and the cap `C`, and what its
responses report is at most `T` each. -/
def modest (rt : Runtime) (k : Str) (B C : ℤ) (T : ℕ) (s : System) : Event → Bool
  | .arrive p _ =>
    p.keyid ≠ some k || (p.tokenBudget = some B && p.maxConcurrency = some C)
  | .resume i x _ => s.requests[i]?.all fun r ↦
    r.principal.keyid ≠ some k || (reported rt r.phase x).all (atMost T)
  | _ => true

theorem modest_arrive {p : Principal} {now : ℚ} (h : modest rt k B C T s (.arrive p now))
    (hk : p.keyid = some k) : p.tokenBudget = some B ∧ p.maxConcurrency = some C := by
  simpa [modest, hk] using h

theorem modest_resume {i : ℕ} {r : Request} (h : modest rt k B C T s (.resume i x now))
    (hr : s.requests[i]? = some r) (hk : r.principal.keyid = some k) :
    ∀ usage ∈ reported rt r.phase x, atMost T usage := by
  simpa [modest, hr, hk] using h

/-- What is known of all requests, `k`'s in particular. -/
structure Budgeted (k : Str) (B C : ℤ) (T : ℕ) (s : System) : Prop where
  accounted : Accounted s
  capped : Capped k C s
  liveHold : LiveHold k s
  metered : ∀ r ∈ s.requests, Metered k B T r

theorem Budgeted.start (urls : List Str) (h : urls ≠ []) : Budgeted k B C T (start urls h) where
  accounted := .start urls h
  capped := ⟨fun _ hr ↦ (by cases hr), Nat.zero_le _⟩
  liveHold := fun _ hr ↦ (by cases hr)
  metered := fun _ hr ↦ (by cases hr)

theorem Budgeted.step (hb : Budgeted k B C T s) (h : Moves rt σ s e s')
    (he : modest rt k B C T s e) : Budgeted k B C T s' := by
  have hcapped : ArrivesCapped k C e := by
    cases e with
    | arrive p now => exact fun hk ↦ (modest_arrive he hk).2
    | _ => trivial
  refine ⟨hb.accounted.step h, hb.capped.step h hcapped, hb.liveHold.step hb.accounted hb.capped h, ?_⟩
  cases h with
  | arrive p now =>
      intro r hr
      rcases List.mem_append.mp hr with hr | hr
      · exact hb.metered r hr
      · obtain rfl := List.mem_singleton.mp hr
        exact ⟨fun hk ↦ (modest_arrive he hk).1, fun f hf ↦ (by cases hf), fun _ ↦ atMost_nil⟩
  | @resume i x now r m hr hm =>
      intro r' hr'
      rcases List.mem_or_eq_of_mem_set hr' with hr' | rfl
      · exact hb.metered r' hr'
      · exact (hb.metered r (List.mem_of_getElem? hr)).moved hm (modest_resume he hr)
  | poll now _ => exact hb.metered
  | scraped result now _ => exact hb.metered
  | tick now _ => exact hb.metered
  | probed ok now _ => exact hb.metered

/-- One step of the process is a few moves of the ledger of `k`. -/
theorem Budgeted.admission (hb : Budgeted k B C T s) (hl : Books k s.world l)
    (h : Moves rt σ s e s') (he : modest rt k B C T s e) :
    ∃ l', Books k s'.world l' ∧ Relation.ReflTransGen (Admission.Step B C.toNat T) l l' := by
  cases h with
  | @resume i x now r m hr hm =>
      have hmem := List.mem_of_getElem? hr
      have hbal := hb.accounted.balanced r hmem
      by_cases hk : r.principal.keyid = some k
      · refine Billed.admission ?_ hl hm (modest_resume he hr hk) (fun hs ↦ ?_) (fun k' hs ↦ ?_)
        · refine ⟨hb.metered r hmem, hk, hb.capped.cap r hmem hk, fun f hf ↦ ?_⟩
          have hlive : r.live k = true := by
            cases hp : r.phase <;> simp_all [Request.live, Phase.forward?]
          exact hbal.slot_of_holds hm.not_isEnded (hb.liveHold r hmem hlive)
        · have hholds := hbal.holds_of_slot hs
          have := hb.accounted.holds_le hmem k
          rw [hholds, hl.inflight] at this
          exact this
        · exact Option.some.inj ((hbal.slot k' hs).1.symm.trans hk)
      · exact ⟨l, hl.of_key_ne hbal hk (hb.metered r hmem).principal hm (hb.accounted.holds_le hmem), .refl⟩
  | arrive p now => exact ⟨l, hl, .refl⟩
  | poll now _ => exact ⟨l, hl, .refl⟩
  | scraped result now _ => exact ⟨l, hl, .refl⟩
  | tick now _ => exact ⟨l, ⟨hl.inflight, hl.tokensUsed⟩, .refl⟩
  | probed ok now _ => exact ⟨l, ⟨hl.inflight, hl.tokensUsed⟩, .refl⟩

/-- A run of the process is a run of the ledger of `k`. -/
theorem Budgeted.run (hb : Budgeted k B C T s) (hl : Books k s.world l)
    (hr : Run (Guarded (Steps (System.step rt σ)) (fun s e ↦ modest rt k B C T s e)) s es s') :
    Budgeted k B C T s' ∧ ∃ l', Books k s'.world l' ∧
      Relation.ReflTransGen (Admission.Step B C.toNat T) l l' := by
  induction hr generalizing l with
  | nil => exact ⟨hb, l, hl, .refl⟩
  | cons hs _ ih =>
      obtain ⟨l₁, hl₁, hm₁⟩ := hb.admission hl (moves_of_step hs.1) hs.2
      obtain ⟨hb', l₂, hl₂, hm₂⟩ := ih (hb.step (moves_of_step hs.1) hs.2) hl₁
      exact ⟨hb', l₂, hl₂, hm₁.trans hm₂⟩

/-- For a key whose requests come in with a budget `B` and a cap `C`, and whose responses
report at most `T` tokens each: in every state of every run its total is at most
`(B - 1) + C * T`, and no lower than in any state before. -/
theorem tokensUsed_le_budget (rt : Runtime) (σ : Settings) (urls : List Str) (h : urls ≠ [])
    (k : Str) (B C : ℤ) (T : ℕ) (hB : 1 ≤ B) (hC : 1 ≤ C) (es fs : List Event) (s s' : System)
    (hr : Run (Guarded (Steps (step rt σ)) (fun s e ↦ modest rt k B C T s e)) (System.start urls h) es s)
    (hr' : Run (Guarded (Steps (step rt σ)) (fun s e ↦ modest rt k B C T s e)) s fs s') :
    ∃ used used' : ℤ, s.world.quota.tokensUsed k = .int used ∧
      s'.world.quota.tokensUsed k = .int used' ∧ used ≤ used' ∧ used' ≤ (B - 1) + C * T := by
  obtain ⟨hb, l, hl, hm⟩ := (Budgeted.start urls h).run (l := ⟨0, 0⟩) ⟨rfl, rfl⟩ hr
  obtain ⟨-, l', hl', hm'⟩ := hb.run hl hr'
  have hbounded := (Admission.Bounded.empty hB).steps (hm.trans hm')
  have hcast : (C.toNat : ℤ) = C := Int.toNat_of_nonneg (by omega)
  refine ⟨l.spent, l'.spent, hl.tokensUsed, hl'.tokensUsed, Admission.spent_mono_of_steps hm', ?_⟩
  rw [← hcast]
  exact hbounded.spent_le

/-- An answer that reports seven tokens. -/
def sevenTokens : Response where
  statusCode := 200
  content := bytes "\x7b\"usage\": \x7b\"prompt_tokens\": 3, \"completion_tokens\": 4\x7d\x7d"

/-- A request that gets it. -/
def reportedEvents : List Event :=
  [.arrive samplePrincipal 0, .resume 0 (.received (sampleBody "")) 0,
    .resume 0 (.responded sevenTokens) 1]

theorem reportedEvents_isSome :
    (execWhile (step .sample .default) (modest .sample sampleKey 100 1 7) sampleSystem
      reportedEvents).isSome := by
  decide +kernel

/-- From the start to there, the total goes from one state within the bound to another. -/
theorem tokensUsed_le_budget_reported : ∃ used used' : ℤ,
    sampleSystem.world.quota.tokensUsed sampleKey = .int used ∧
      ((execWhile (step .sample .default) (modest .sample sampleKey 100 1 7) sampleSystem
        reportedEvents).get reportedEvents_isSome).world.quota.tokensUsed sampleKey = .int used' ∧
      used ≤ used' ∧ used' ≤ (100 - 1) + 1 * (7 : ℕ) :=
  tokensUsed_le_budget .sample .default [sampleUrl] (List.cons_ne_nil _ _) sampleKey 100 1 7
    (by decide) (by decide) [] reportedEvents _ _ (.nil _)
    (Run.ofExecWhile (Option.some_get reportedEvents_isSome).symm)

end System

end InferenceGateway
