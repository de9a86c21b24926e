import InferenceGateway.AuditTrail

/-!
# What an upstream response does to the unstreamed path

After the call of the pool, `chat_completions` reads a JSON value that an upstream wrote.
Only the parse is guarded.  `Digested` is what the handler owes whatever the response is:
it returns the payload or raises an `HTTPException`, and the token metrics and the ledger
of the key stay in step.  `Digestible` says for which responses it does.
-/

namespace InferenceGateway

open Py

/-! ## The counters of tokens -/

/-- The series of `tokens_total`. -/
def MetricCall.ofTokens : MetricCall → Bool
  | .tokens .. => true
  | _ => false

/-- The amount a call adds to the series of a kind. -/
def MetricCall.amount? (kind : String) : MetricCall → Option Py.Num
  | .tokens _ kind' n => if kind' = kind then n.num? else none
  | _ => none

/-- What some calls count of a kind. -/
def amountOf (kind : String) (calls : List MetricCall) : Py.Num :=
  (calls.findSome? (MetricCall.amount? kind)).getD (.int 0)

/-- The total of the prompt and the completion they count. -/
def tokenTotal (calls : List MetricCall) : Except Exc Py.Num :=
  (amountOf "prompt" calls).add (amountOf "completion" calls)

/-- The call for one count, which is made if the count is not false. -/
def tokenCall (label : Str) (kind : String) (n : Value) : List MetricCall :=
  if n.truthy then [.tokens label kind n] else []

/-- The calls for both counts. -/
def tokenCalls (label : Str) (prompt completion : Value) : List MetricCall :=
  tokenCall label "prompt" prompt ++ tokenCall label "completion" completion

/-- What has been counted of tokens. -/
def World.tokensCounted (w : World) : List MetricCall := w.metrics.filter MetricCall.ofTokens

/-- How the token metrics and the ledger of a key move, if they stay in step. -/
inductive Reconciled (key : Option Str) (w w' : World) : Prop
  /-- Neither changes. -/
  | unchanged (metrics : w'.tokensCounted = w.tokensCounted)
      (ledger : w'.quota = w.quota)
  /-- Tokens are counted, and there is no key to charge. -/
  | keyless (hkey : key = none) (calls : List MetricCall)
      (metrics : w'.tokensCounted = w.tokensCounted ++ calls)
      (ledger : w'.quota = w.quota)
  /-- Tokens are counted, and the key is charged with the total. -/
  | charged (k : Str) (hkey : key = some k) (calls : List MetricCall)
      (metrics : w'.tokensCounted = w.tokensCounted ++ calls)
      (total used : Py.Num) (htotal : tokenTotal calls = .ok total)
      (hused : (w.quota.tokensUsed k).add total = .ok used)
      (ledger : w'.quota =
        { w.quota with tokensUsed := Function.update w.quota.tokensUsed k used })

/-- How the handler may end: with the payload, or with the status of the upstream if that is an
error, or with 502. -/
inductive Presentable (rt : Runtime) (resp : Response) : Ended → Prop
  | payload {v : Value} (h : payloadOf rt resp = .ok v) : Presentable rt resp (.returned v)
  | upstream {detail : String} {headers : List (String × String)} (h : 400 ≤ resp.statusCode) :
      Presentable rt resp (.raised (.http resp.statusCode detail headers))
  | badGateway {detail : String} {headers : List (String × String)} :
      Presentable rt resp (.raised (.http 502 detail headers))

/-- What the handler owes for a response, for a caller with this key. -/
structure Digested (rt : Runtime) (key : Option Str) (resp : Response) (w : World)
    (m : World × Ended) : Prop where
  ending : Presentable rt resp m.2
  accounts : Reconciled key w m.1

/-! ## The responses that are digested -/

/-- A key that has used `used` can be charged with two counts: their sum is a number, adding it
gives a number, and `record_usage` does not leave it out although it counts.  It leaves out what
is not above `0`, and of the numbers a counter of tokens takes only a NaN is not. -/
def Chargeable (used : Py.Num) (prompt completion : Value) : Prop :=
  ∃ total used', (World.orZero prompt).add (World.orZero completion) = .ok total ∧
    used.add total = .ok used' ∧ ((Py.Num.int 0).lt total ∨ used' = used)

/-- A usage object in order: the counters take both counts, and the key, if there is one, can
be charged with them, if there is anything to charge. -/
structure WellReported (rt : Runtime) (w : World) (key : Option Str) (usage : Fields) : Prop where
  prompt : countable rt (usage.get (str "prompt_tokens"))
  completion : countable rt (usage.get (str "completion_tokens"))
  charge : ∀ k, key = some k →
    (usage.get (str "prompt_tokens")).truthy = false ∧
        (usage.get (str "completion_tokens")).truthy = false ∨
      Chargeable (w.quota.tokensUsed k) (usage.get (str "prompt_tokens"))
        (usage.get (str "completion_tokens"))

/-- A payload in order: an object whose usage is false, or an object in order. -/
def Legible (rt : Runtime) (w : World) (key : Option Str) (payload : Value) : Prop :=
  ∃ fields, payload = .dict fields ∧ ((Fields.get fields (str "usage")).truthy = false ∨
    ∃ usage, Fields.get fields (str "usage") = .dict usage ∧ WellReported rt w key usage)

/-- A response in order: an error, or not JSON, or a payload in order. -/
def Digestible (rt : Runtime) (w : World) (key : Option Str) (resp : Response) : Prop :=
  400 ≤ resp.statusCode ∨ ∀ payload,
    Json.loads rt.loadsDepth resp.content = .ok payload → Legible rt w key payload

section Epilogue

variable {rt : Runtime} {σ : Settings} {w w' : World} {f : Forward} {started now : ℚ}
  {upstream : Str} {resp : Response} {key : Option Str} {k : Str} {usage : Fields} {model : Value}
  {label : Str} {kind : String} {n prompt completion payload : Value} {q : QuotaTracker}

/-! ## Counting -/

theorem amountOf_tokenCall : amountOf kind (tokenCall label kind n) = World.orZero n := by
  unfold tokenCall World.orZero amountOf
  split
  · simp only [List.findSome?, MetricCall.amount?, if_true]
    cases n.num? <;> rfl
  · rfl

theorem tokenTotal_tokenCalls : tokenTotal (tokenCalls label prompt completion) =
    (World.orZero prompt).add (World.orZero completion) := by
  have hprompt : amountOf "prompt" (tokenCalls label prompt completion) = World.orZero prompt := by
    rw [← @amountOf_tokenCall label "prompt" prompt]
    unfold tokenCalls amountOf
    rw [List.findSome?_append]
    unfold tokenCall
    by_cases h : completion.truthy <;> simp [h, MetricCall.amount?]
  have hcompletion :
      amountOf "completion" (tokenCalls label prompt completion) = World.orZero completion := by
    rw [← @amountOf_tokenCall label "completion" completion]
    unfold tokenCalls amountOf
    rw [List.findSome?_append]
    unfold tokenCall
    by_cases h : prompt.truthy <;> simp [h, MetricCall.amount?]
  rw [tokenTotal, hprompt, hcompletion]

theorem tokenCalls_eq_nil : tokenCalls label prompt completion = [] ↔
    prompt.truthy = false ∧ completion.truthy = false := by
  unfold tokenCalls tokenCall
  cases prompt.truthy <;> cases completion.truthy <;> simp

theorem filter_tokenCall : (tokenCall label kind n).filter MetricCall.ofTokens = tokenCall label kind n := by
  unfold tokenCall
  split <;> rfl

/-- A count that the counter takes is counted. -/
theorem World.incTokens_of_countable (h : countable rt n) :
    w.incTokens rt label kind n =
      ({ w with metrics := w.metrics ++ tokenCall label kind n }, .ok ()) := by
  unfold World.incTokens tokenCall
  unfold countable at h
  cases ht : n.truthy with
  | false => simp
  | true =>
      rw [ht] at h
      cases hi : rt.counterInc n with
      | error e => rw [hi] at h; cases h
      | ok _ => simp

/-- Counts that the counters take are counted, and what is left is to charge the key. -/
theorem World.recordUsage_of_countable (hp : countable rt (usage.get (str "prompt_tokens")))
    (hc : countable rt (usage.get (str "completion_tokens"))) : ∃ metrics,
    metrics.filter MetricCall.ofTokens = w.tokensCounted ++ tokenCalls (σ.safeModel model)
      (usage.get (str "prompt_tokens")) (usage.get (str "completion_tokens")) ∧
    w.recordUsage rt σ model usage key = World.charge { w with metrics } key
      (usage.get (str "prompt_tokens")) (usage.get (str "completion_tokens")) := by
  unfold World.recordUsage
  generalize usage.get (str "prompt_tokens") = prompt at hp ⊢
  generalize usage.get (str "completion_tokens") = completion at hc ⊢
  dsimp only
  split
  · refine ⟨w.metrics ++ [.missingUsage (σ.safeModel model)], ?_, ?_⟩
    · exact List.filter_append _ _
    · cases key <;> rfl
  · rw [World.incTokens_of_countable hp]
    dsimp only
    rw [World.incTokens_of_countable hc]
    refine ⟨_, ?_, rfl⟩
    rw [List.filter_append, List.filter_append, filter_tokenCall, filter_tokenCall,
      List.append_assoc]
    rfl

/-- Only the metrics of tokens and the ledger matter. -/
theorem Reconciled.congr {w₁ w₂ : World} (h : Reconciled key w w₁)
    (hm : w₁.tokensCounted = w₂.tokensCounted) (hq : w₁.quota = w₂.quota) :
    Reconciled key w w₂ := by
  cases h with
  | unchanged metrics ledger => exact .unchanged (hm ▸ metrics) (hq ▸ ledger)
  | keyless hkey calls metrics ledger => exact .keyless hkey calls (hm ▸ metrics) (hq ▸ ledger)
  | charged k hkey calls metrics total used htotal hused ledger =>
      exact .charged k hkey calls (hm ▸ metrics) total used htotal hused (hq ▸ ledger)

/-! ## Charging -/

/-- A positive total is added. -/
theorem World.charge_of_pos {total used : Py.Num}
    (htotal : (World.orZero prompt).add (World.orZero completion) = .ok total)
    (hpos : (Py.Num.int 0).lt total) (hused : (w.quota.tokensUsed k).add total = .ok used) :
    w.charge (some k) prompt completion = ({ w with quota :=
      { w.quota with tokensUsed := Function.update w.quota.tokensUsed k used } }, .ok ()) := by
  have hrec : w.quota.recordUsage k total =
      .ok { w.quota with tokensUsed := Function.update w.quota.tokensUsed k used } := by
    rw [QuotaTracker.recordUsage, if_pos hpos, hused]
    rfl
  simp only [World.charge, htotal, bind, Except.bind, hrec]

/-- A total that is not positive is left out. -/
theorem World.charge_of_not_pos {total : Py.Num}
    (htotal : (World.orZero prompt).add (World.orZero completion) = .ok total)
    (hpos : ¬(Py.Num.int 0).lt total) : w.charge (some k) prompt completion = (w, .ok ()) := by
  have hrec : w.quota.recordUsage k total = .ok w.quota := if_neg hpos
  simp only [World.charge, htotal, bind, Except.bind, hrec]

/-- Tokens have been counted and their total, which is not positive, was left out: the books are
in step exactly if nothing was counted or the total would have changed nothing. -/
theorem reconciled_uncharged_iff {metrics : List MetricCall} {total : Py.Num}
    (hmetrics : metrics.filter MetricCall.ofTokens =
      w.tokensCounted ++ tokenCalls label prompt completion)
    (htotal : (World.orZero prompt).add (World.orZero completion) = .ok total)
    (hpos : ¬(Py.Num.int 0).lt total) : Reconciled (some k) w { w with metrics } ↔
      prompt.truthy = false ∧ completion.truthy = false ∨
        Chargeable (w.quota.tokensUsed k) prompt completion := by
  constructor
  · rintro (⟨hm, -⟩ | ⟨hkey, _, _, _⟩ | ⟨k', hk, calls, hm, total', used, ht, hu, hq⟩)
    · left
      have happ : w.tokensCounted ++ tokenCalls label prompt completion = w.tokensCounted ++ [] := by
        rw [← hmetrics, List.append_nil]
        exact hm
      exact tokenCalls_eq_nil.mp (List.append_cancel_left happ)
    · cases hkey
    · right
      cases hk
      obtain rfl : tokenCalls label prompt completion = calls :=
        List.append_cancel_left (hmetrics.symm.trans hm)
      have hself : w.quota.tokensUsed k = used := by
        have := congrArg (fun q ↦ q.tokensUsed k) hq
        simpa using this
      exact ⟨total', used, tokenTotal_tokenCalls.symm.trans ht, hu, .inr hself.symm⟩
  · rintro (hfalse | ⟨total', used, ht, hu, hpos' | rfl⟩)
    · apply Reconciled.unchanged
      · rw [tokenCalls_eq_nil.mpr hfalse, List.append_nil] at hmetrics
        exact hmetrics
      · rfl
    · obtain rfl := Except.ok.inj (htotal.symm.trans ht)
      exact absurd hpos' hpos
    · refine .charged k rfl _ hmetrics total' _ (tokenTotal_tokenCalls.trans ht) hu ?_
      rw [Function.update_eq_self]

/-- Charging the key after counting keeps the books in step exactly if there is no key, or
nothing was counted, or the key can be charged with the two counts. -/
theorem reconciled_charge_iff {metrics : List MetricCall}
    (hmetrics : metrics.filter MetricCall.ofTokens =
      w.tokensCounted ++ tokenCalls label prompt completion)
    (hok : (w.charge key prompt completion).2.isOk) :
    Reconciled key w (World.charge { w with metrics } key prompt completion).1 ↔
      ∀ k, key = some k → prompt.truthy = false ∧ completion.truthy = false ∨
        Chargeable (w.quota.tokensUsed k) prompt completion := by
  cases key with
  | none =>
      constructor
      · intro _ k hk
        cases hk
      · intro _
        exact .keyless rfl _ hmetrics rfl
  | some k =>
      simp only [Option.some.injEq, forall_eq']
      rw [World.charge_isOk] at hok
      cases htotal : (World.orZero prompt).add (World.orZero completion) with
      | error e => rw [htotal] at hok; cases hok
      | ok total =>
          by_cases hpos : (Py.Num.int 0).lt total
          · cases hused : (w.quota.tokensUsed k).add total with
            | error e =>
                rw [htotal] at hok
                simp [bind, Except.bind, QuotaTracker.recordUsage, hpos, hused, Except.isOk,
                  Except.toBool] at hok
            | ok used =>
                rw [@World.charge_of_pos { w with metrics } k prompt completion total used htotal hpos hused]
                constructor
                · intro _
                  exact .inr ⟨total, used, htotal, hused, .inl hpos⟩
                · intro _
                  exact .charged k rfl _ hmetrics total used
                    (tokenTotal_tokenCalls.trans htotal) hused rfl
          · rw [World.charge_of_not_pos htotal hpos]
            exact reconciled_uncharged_iff hmetrics htotal hpos

/-- What can be charged is charged without an exception. -/
theorem World.charge_isOk_of_chargeable (h : ∀ k, key = some k →
      prompt.truthy = false ∧ completion.truthy = false ∨
        Chargeable (w.quota.tokensUsed k) prompt completion) :
    (w.charge key prompt completion).2.isOk := by
  cases key with
  | none => rfl
  | some k =>
      rcases h k rfl with ⟨hp, hc⟩ | ⟨total, used, htotal, hused, -⟩
      · have htotal : (World.orZero prompt).add (World.orZero completion) = .ok (.int 0) := by
          simp [World.orZero, hp, hc]
        rw [World.charge_of_not_pos htotal (by decide)]
        rfl
      · by_cases hpos : (Py.Num.int 0).lt total
        · rw [World.charge_of_pos htotal hpos hused]
          rfl
        · rw [World.charge_of_not_pos htotal hpos]
          rfl

/-- A usage object is in order exactly if it is recorded without an exception and recording it
keeps the books in step. -/
theorem wellReported_iff : WellReported rt w key usage ↔ accountable rt w key usage ∧
    Reconciled key w (w.recordUsage rt σ model usage key).1 := by
  constructor
  · rintro ⟨hp, hc, hcharge⟩
    have hisOk := World.charge_isOk_of_chargeable hcharge
    obtain ⟨metrics, hmetrics, hrec⟩ :=
      @World.recordUsage_of_countable rt σ w key usage model hp hc
    constructor
    · simp only [accountable, hp, hc, hisOk, Bool.and_self]
    · rw [hrec, reconciled_charge_iff hmetrics hisOk]
      exact hcharge
  · rintro ⟨hacc, hrecon⟩
    simp only [accountable, Bool.and_eq_true] at hacc
    obtain ⟨⟨hp, hc⟩, hisOk⟩ := hacc
    obtain ⟨metrics, hmetrics, hrec⟩ :=
      @World.recordUsage_of_countable rt σ w key usage model hp hc
    rw [hrec, reconciled_charge_iff hmetrics hisOk] at hrecon
    exact ⟨hp, hc, hrecon⟩

/-! ## The epilogue -/

/-- An exception that is no `HTTPException` is not presentable. -/
theorem not_presentable_builtin {e : Exc} : ¬Presentable rt resp (.raised (.builtin e)) := by
  rintro ⟨⟩

/-- A payload whose usage can be read: an object whose usage is false, or an object. -/
theorem usageOf_eq_ok : usageOf payload = .ok usage ↔ ∃ fields, payload = .dict fields ∧
    ((Fields.get fields (str "usage")).truthy = false ∧ usage = [] ∨
      (Fields.get fields (str "usage")).truthy = true ∧
        Fields.get fields (str "usage") = .dict usage) := by
  cases payload with
  | dict fields =>
      simp only [usageOf, Value.getAttrD, bind, Except.bind, Value.dict.injEq, exists_eq_left',
        Fields.get]
      generalize Fields.getD fields (str "usage") .none = v
      cases hv : v.truthy with
      | false => simp [eq_comm]
      | true => cases v <;> simp
  | _ =>
      constructor
      · intro h
        cases h
      · rintro ⟨fields, hfields, -⟩
        cases hfields

theorem World.reject_tokensCounted (p : Principal) (statusCode : Nat) (reason : String)
    (headers : List (String × String)) :
    (w.reject rt statusCode reason p model started now headers).1.tokensCounted =
      w.tokensCounted := by
  have hcount : (w.metrics ++ [recordRejection reason]).filter MetricCall.ofTokens =
      w.tokensCounted := (List.filter_append _ _).trans (List.append_nil _)
  unfold World.reject
  dsimp only
  split
  · exact hcount
  · exact hcount

/-- A body that is not JSON is answered with 502, and the books stay as they are. -/
theorem finishUnstreamed_of_error {e : Exc} (hf : σ.allows f.model)
    (h : payloadOf rt resp = .error e) :
    Digested rt key resp w (finishUnstreamed rt σ w f started now upstream resp) := by
  unfold finishUnstreamed
  rw [h]
  constructor
  · dsimp only
    rw [World.reject_snd, if_pos ((depth_of_allows hf).trans_le (Nat.zero_le _))]
    exact .badGateway
  · exact .unchanged (World.reject_tokensCounted _ _ _ _) World.reject_quota

/-- The line of a request whose usage was recorded is written, or cannot be encoded. -/
theorem exists_auditWrite (started now : ℚ) (upstream : Str) (resp : Response)
    (log : List AuditRecord) (hf : σ.allows f.model)
    (hacc : accountable rt w f.principal.keyid usage) :
    ∃ audit, auditWrite rt log (unstreamedRecord f started now upstream resp usage) = .ok audit := by
  simp only [accountable, Bool.and_eq_true] at hacc
  obtain ⟨⟨hp, hc⟩, -⟩ := hacc
  have hdepth : (unstreamedRecord f started now upstream resp usage).depth ≤ rt.dumpsDepth :=
    max_le ((depth_of_allows hf).trans_le (Nat.zero_le _))
      (max_le (plain_getD hp).1 (plain_getD hc).1)
  rw [auditWrite, if_neg (not_lt.mpr hdepth)]
  split
  · exact ⟨_, rfl⟩
  · exact ⟨_, rfl⟩

/-- Recording the usage raises: the exception leaves the handler. -/
theorem finishUnstreamed_of_raised {e : Exc} (hpay : payloadOf rt resp = .ok payload)
    (huse : usageOf payload = .ok usage)
    (hrec : w.recordUsage rt σ f.model usage f.principal.keyid = (w', .error e)) :
    finishUnstreamed rt σ w f started now upstream resp = (w', .raised (.builtin e)) := by
  unfold finishUnstreamed
  rw [hpay]
  dsimp only
  rw [huse]
  dsimp only
  rw [hrec]

/-- The usage is recorded and the line is written: the payload is returned, or the status of the
upstream is raised. -/
theorem finishUnstreamed_of_recorded {audit : List AuditRecord}
    (hpay : payloadOf rt resp = .ok payload) (huse : usageOf payload = .ok usage)
    (hrec : w.recordUsage rt σ f.model usage f.principal.keyid = (w', .ok ()))
    (haudit : auditWrite rt w'.audit (unstreamedRecord f started now upstream resp usage) =
      .ok audit) : finishUnstreamed rt σ w f started now upstream resp = ({ w' with audit },
        if 400 ≤ resp.statusCode then .raised (.http resp.statusCode "upstream error" [])
        else .returned payload) := by
  unfold finishUnstreamed
  rw [hpay]
  dsimp only
  rw [huse]
  dsimp only
  rw [hrec]
  dsimp only
  rw [haudit]
  dsimp only
  split
  · rfl
  · rfl

/-- A usage that is recorded without an exception: the handler ends as it should, and the books
are as recording the usage has left them. -/
theorem finishUnstreamed_of_accountable (started now : ℚ) (upstream : Str) (hf : σ.allows f.model)
    (hpay : payloadOf rt resp = .ok payload) (huse : usageOf payload = .ok usage)
    (hacc : accountable rt w f.principal.keyid usage) :
    ∃ audit, (finishUnstreamed rt σ w f started now upstream resp).1 =
        { (w.recordUsage rt σ f.model usage f.principal.keyid).1 with audit } ∧
      Presentable rt resp (finishUnstreamed rt σ w f started now upstream resp).2 := by
  have hisOk : (w.recordUsage rt σ f.model usage f.principal.keyid).2.isOk =
      accountable rt w f.principal.keyid usage := World.recordUsage_snd
  rcases hrec : w.recordUsage rt σ f.model usage f.principal.keyid with ⟨w', e | _⟩
  · rw [hrec, hacc] at hisOk
    cases hisOk
  · obtain ⟨audit, haudit⟩ := exists_auditWrite started now upstream resp w'.audit hf hacc
    refine ⟨audit, ?_⟩
    rw [finishUnstreamed_of_recorded hpay huse hrec haudit]
    dsimp only
    split
    · exact ⟨rfl, .upstream ‹_›⟩
    · exact ⟨rfl, .payload hpay⟩

/-- A usage that is not recorded without an exception lets it out. -/
theorem finishUnstreamed_of_not_accountable (σ : Settings) (started now : ℚ) (upstream : Str)
    (hpay : payloadOf rt resp = .ok payload) (huse : usageOf payload = .ok usage)
    (hacc : ¬accountable rt w f.principal.keyid usage) :
    ∃ e, (finishUnstreamed rt σ w f started now upstream resp).2 = .raised (.builtin e) := by
  have hisOk : (w.recordUsage rt σ f.model usage f.principal.keyid).2.isOk =
      accountable rt w f.principal.keyid usage := World.recordUsage_snd
  rcases hrec : w.recordUsage rt σ f.model usage f.principal.keyid with ⟨w', e | _⟩
  · rw [finishUnstreamed_of_raised hpay huse hrec]
    exact ⟨e, rfl⟩
  · rw [hrec] at hisOk
    exact absurd hisOk.symm hacc

/-- An object with its usage read is digested exactly if the usage is in order. -/
theorem digested_iff_wellReported (hf : σ.allows f.model)
    (hpay : payloadOf rt resp = .ok payload) (huse : usageOf payload = .ok usage) :
    Digested rt f.principal.keyid resp w (finishUnstreamed rt σ w f started now upstream resp) ↔
      WellReported rt w f.principal.keyid usage := by
  rw [@wellReported_iff rt σ w f.principal.keyid usage f.model]
  by_cases hacc : accountable rt w f.principal.keyid usage
  · obtain ⟨audit, hfst, hsnd⟩ := finishUnstreamed_of_accountable started now upstream hf hpay
      huse hacc
    constructor
    · rintro ⟨-, haccounts⟩
      rw [hfst] at haccounts
      exact ⟨hacc, haccounts.congr rfl rfl⟩
    · rintro ⟨-, hrecon⟩
      refine ⟨hsnd, ?_⟩
      rw [hfst]
      exact hrecon.congr rfl rfl
  · obtain ⟨e, he⟩ := finishUnstreamed_of_not_accountable σ started now upstream hpay huse hacc
    constructor
    · rintro ⟨hending, -⟩
      rw [he] at hending
      exact (not_presentable_builtin hending).elim
    · rintro ⟨h, -⟩
      exact absurd h hacc

/-- A usage object without counts is in order. -/
theorem wellReported_nil : WellReported rt w key [] := ⟨rfl, rfl, fun _ _ ↦ .inl ⟨rfl, rfl⟩⟩

/-- A payload whose usage can be read is in order exactly if the usage is. -/
theorem legible_iff (huse : usageOf payload = .ok usage) :
    Legible rt w key payload ↔ WellReported rt w key usage := by
  obtain ⟨fields, rfl, ⟨hfalse, rfl⟩ | ⟨htrue, hdict⟩⟩ := usageOf_eq_ok.mp huse
  · constructor
    · intro _
      exact wellReported_nil
    · intro _
      exact ⟨fields, rfl, .inl hfalse⟩
  · constructor
    · rintro ⟨_, ⟨⟩, hfalse | ⟨usage', hdict', hwell⟩⟩
      · rw [hfalse] at htrue
        cases htrue
      · rw [hdict] at hdict'
        cases hdict'
        exact hwell
    · intro hwell
      exact ⟨fields, rfl, .inr ⟨usage, hdict, hwell⟩⟩

/-- A payload whose usage cannot be read is not in order. -/
theorem not_legible {e : Exc} (huse : usageOf payload = .error e) :
    ¬Legible rt w key payload := by
  rintro ⟨fields, rfl, husage⟩
  have hok : ∃ usage, usageOf (.dict fields) = .ok usage := by
    simp only [usageOf_eq_ok]
    cases hv : (Fields.get fields (str "usage")).truthy with
    | false => exact ⟨[], fields, rfl, .inl ⟨hv, rfl⟩⟩
    | true =>
        rcases husage with hfalse | ⟨usage, hdict, -⟩
        · rw [hv] at hfalse
          cases hfalse
        · exact ⟨usage, fields, rfl, .inr ⟨hv, hdict⟩⟩
  obtain ⟨usage, hok⟩ := hok
  rw [huse] at hok
  cases hok

/-- A payload whose usage cannot be read lets the exception out. -/
theorem finishUnstreamed_of_unread {e : Exc} (hpay : payloadOf rt resp = .ok payload)
    (huse : usageOf payload = .error e) : finishUnstreamed rt σ w f started now upstream resp =
      (w, .raised (.builtin e)) := by
  unfold finishUnstreamed
  rw [hpay]
  dsimp only
  rw [huse]

/-- **The handler digests a response exactly if it is in order**: an error status, or not JSON, or
an object whose usage is false or an object with counts that can be counted and charged. -/
theorem digested_iff (rt : Runtime) (σ : Settings) (w : World) (f : Forward) (started now : ℚ)
    (upstream : Str) (resp : Response) (hf : σ.allows f.model) :
    Digested rt f.principal.keyid resp w (finishUnstreamed rt σ w f started now upstream resp) ↔
      Digestible rt w f.principal.keyid resp := by
  by_cases hstatus : 400 ≤ resp.statusCode
  · have hpay : payloadOf rt resp = .ok (.dict []) := if_neg (not_lt.mpr hstatus)
    rw [digested_iff_wellReported hf hpay rfl]
    constructor
    · intro _
      exact .inl hstatus
    · intro _
      exact wellReported_nil
  · have hpay : payloadOf rt resp = Json.loads rt.loadsDepth resp.content :=
      if_pos (not_le.mp hstatus)
    unfold Digestible
    simp only [hstatus, false_or]
    cases hload : Json.loads rt.loadsDepth resp.content with
    | error e =>
        constructor
        · rintro - payload ⟨⟩
        · intro _
          exact finishUnstreamed_of_error hf (hpay.trans hload)
    | ok payload =>
        simp only [Except.ok.injEq, forall_eq']
        cases huse : usageOf payload with
        | ok usage =>
            rw [legible_iff huse]
            exact digested_iff_wellReported hf (hpay.trans hload) huse
        | error e =>
            constructor
            · rintro ⟨hending, -⟩
              rw [finishUnstreamed_of_unread (hpay.trans hload) huse] at hending
              exact (not_presentable_builtin hending).elim
            · intro hread
              exact (not_legible huse hread).elim

end Epilogue

/-! ## A count that is no number -/

/-- The request of `samplePrincipal` that holds its slot. -/
def sampleForward : Forward where
  principal := samplePrincipal
  body := []
  model := .str (str "Qwen/Qwen3-8B-AWQ")
  streaming := false
  releaseKeyid := some sampleKey

/-- A 200 with these token counts. -/
def reporting (usage : String) : Response where
  statusCode := 200
  content := bytes "\x7b\"usage\": \x7b" ++ bytes usage ++ bytes "\x7d\x7d"

/-- An exception that is no `HTTPException` left the handler. -/
def Ended.crashed : Ended → Bool
  | .raised (.builtin _) => true
  | _ => false

theorem not_presentable_of_crashed {rt : Runtime} {resp : Response} {how : Ended}
    (h : how.crashed) : ¬Presentable rt resp how := by
  intro hp
  cases hp <;> cases h

/-- Three tokens and four. -/
theorem digested_iff_seven : Digested .sample (some sampleKey)
    (reporting "\"prompt_tokens\": 3, \"completion_tokens\": 4") sampleSystem.world
    (finishUnstreamed .sample .default sampleSystem.world sampleForward 0 0 sampleUrl
      (reporting "\"prompt_tokens\": 3, \"completion_tokens\": 4")) := by
  refine (digested_iff .sample .default sampleSystem.world sampleForward 0 0 sampleUrl _
    (by decide)).mpr (.inr ?_)
  have hload : Json.loads 900 (reporting "\"prompt_tokens\": 3, \"completion_tokens\": 4").content =
      .ok (.dict [(str "usage", .dict [(str "prompt_tokens", .int 3),
        (str "completion_tokens", .int 4)])]) := by rfl
  rintro payload hpay
  cases hload.symm.trans hpay
  refine ⟨_, rfl, .inr ⟨_, rfl, by decide +kernel, by decide +kernel, ?_⟩⟩
  intro k hk
  exact .inr ⟨.int 7, .int 7, rfl, rfl, .inl (by decide)⟩

/-- Seven tokens and a text: an exception leaves the handler, the prompt has been counted,
and the key has not been charged. -/
theorem not_digested_text :
    let m := finishUnstreamed .sample .default sampleSystem.world sampleForward 0 0 sampleUrl
      (reporting "\"prompt_tokens\": 7, \"completion_tokens\": \"7\"")
    m.1.tokensCounted.length = 1 ∧ m.1.quota.tokensUsed sampleKey = .int 0 ∧
      ¬Digested .sample (some sampleKey)
        (reporting "\"prompt_tokens\": 7, \"completion_tokens\": \"7\"") sampleSystem.world m := by
  refine ⟨by decide +kernel, by decide +kernel, fun h ↦ ?_⟩
  exact not_presentable_of_crashed (by decide +kernel) h.ending

end InferenceGateway
