import InferenceGateway.Upstream.RetryLoop

/-!
# How long the retry loop pauses

`_retry_delay` clamps a `Retry-After` from above only, so what bounds the pause from below is the
header: `float` reads negative numbers, infinities and NaNs as well, and `min` lets a NaN through.
Without a header that `float` can read the pause is drawn, and then it lies between zero and the
cap, as long as the power of two is a double.
-/

namespace InferenceGateway

open Py Transition

/-- The pause the upstream asks for, if `float` can read its `Retry-After`. -/
def askedDelay (response : Option Response) : Option Double :=
  (response.bind Response.retryAfter).bind fun raw ↦ (floatOfStr raw).toOption

/-- `d` is a real number from zero to the cap. -/
def InBounds (d : Double) : Prop :=
  ∃ q : ℚ, d = .finite q ∧ 0 ≤ q ∧ (Double.finite q).le maxRetryDelaySec

variable {uniform : Double → Double} {a : ℕ} {response : Option Response} {x d : Double}

/-- A readable header is clamped. -/
theorem retryDelay_of_asked (h : askedDelay response = some x) :
    retryDelay uniform a response = .ok (x.min maxRetryDelaySec) := by
  obtain ⟨raw, hraw, hx⟩ := Option.bind_eq_some_iff.mp h
  unfold retryDelay
  rw [hraw, Option.map_some]
  cases hf : floatOfStr raw with
  | error e =>
      rw [hf] at hx
      cases hx
  | ok y =>
      rw [hf] at hx
      cases hx
      rfl

/-- Without one the pause is drawn. -/
theorem retryDelay_of_not_asked (h : askedDelay response = none) :
    retryDelay uniform a response = (jitterCap a).map uniform := by
  unfold retryDelay
  cases hraw : response.bind Response.retryAfter with
  | none => rfl
  | some raw =>
      cases hf : floatOfStr raw with
      | error e =>
          rw [Option.map_some, hf]
      | ok y =>
          unfold askedDelay at h
          rw [hraw, Option.bind_some, hf] at h
          cases h

/-! ## A header -/

/-- Clamping from above gives a pause in bounds to what is not negative, and to nothing else. -/
theorem inBounds_min_iff : InBounds (x.min maxRetryDelaySec) ↔ (Double.finite 0).le x := by
  constructor
  · rintro ⟨q, hq, hq₀, -⟩
    exact Double.nonneg_of_min hq hq₀
  · intro h
    obtain ⟨q, hq, hq₀, hq₂⟩ := Double.min_of_nonneg (c := 2) (by norm_num) h
    exact ⟨q, hq, hq₀, Double.le_finite.mpr hq₂⟩

/-! ## The jitter -/

/-- Up to attempt 1023 there is a cap, and it lies between zero and the cap of the pause. -/
theorem jitterCap_of_lt (ha : a < 1024) :
    ∃ c : ℚ, jitterCap a = .ok (.finite c) ∧ 0 ≤ c ∧ c ≤ 2 := by
  have hnonneg : (Double.finite 0).le (jitterBaseSec.mul (.finite (2 ^ a))) := by
    have hprod : (0 : ℚ) ≤ 1 / 4 * 2 ^ a := by positivity
    have hmul : jitterBaseSec.mul (.finite (2 ^ a)) = Double.round (1 / 4 * 2 ^ a) := rfl
    rw [hmul]
    rcases Double.round_nonneg hprod with h | ⟨v, h, hv⟩
    · rw [h]
      rfl
    · rw [h]
      exact Double.le_finite.mpr hv
  obtain ⟨c, hc, hc₀, hc₂⟩ := Double.min_of_nonneg (c := 2) (by norm_num) hnonneg
  refine ⟨c, ?_, hc₀, hc₂⟩
  unfold jitterCap
  rw [Double.ofInt_two_pow, if_neg (not_le.mpr ha)]
  exact congrArg Except.ok hc

theorem jitterCap_of_le (ha : 1024 ≤ a) : jitterCap a = .error .overflowError := by
  unfold jitterCap
  rw [Double.ofInt_two_pow, if_pos ha]

/-- Whatever is drawn is in bounds. -/
theorem inBounds_uniform (u : Double.Draw) {c : ℚ} (hc : 0 ≤ c) (hc₂ : c ≤ 2) :
    InBounds (Double.uniform (.finite u.val) (.finite 0) (.finite c)) := by
  have hc' : c ≤ 2 ^ (1 : ℤ) := by rwa [zpow_one]
  obtain ⟨q, hq, hq₀, hq₂⟩ := Double.uniform_zero_le u hc hc' (by norm_num) (by norm_num)
  rw [zpow_one] at hq₂
  exact ⟨q, hq, hq₀, Double.le_finite.mpr hq₂⟩

/-! ## The pause -/

/-- The pause after an attempt is in bounds exactly if the upstream asks for one that is not
negative, or asks for none that can be read and the power of two of the attempt is a double. -/
theorem retryDelay_inBounds_iff (u : Double.Draw) (attempt : ℕ) (response : Option Response) :
    (∃ d, retryDelay (Double.uniform (.finite u.val) (.finite 0)) attempt response = .ok d ∧
      InBounds d) ↔
    (∃ x, askedDelay response = some x ∧ (Double.finite 0).le x) ∨
      (askedDelay response = none ∧ attempt < 1024) := by
  cases h : askedDelay response with
  | some x =>
      rw [retryDelay_of_asked h]
      constructor
      · rintro ⟨d, hd, hin⟩
        cases hd
        exact .inl ⟨x, rfl, inBounds_min_iff.mp hin⟩
      · rintro (⟨y, hy, hle⟩ | ⟨hnone, -⟩)
        · cases hy
          exact ⟨_, rfl, inBounds_min_iff.mpr hle⟩
        · cases hnone
  | none =>
      rw [retryDelay_of_not_asked h]
      constructor
      · rintro ⟨d, hd, -⟩
        refine .inr ⟨rfl, ?_⟩
        by_contra ha
        rw [jitterCap_of_le (not_lt.mp ha)] at hd
        cases hd
      · rintro (⟨y, hy, -⟩ | ⟨-, ha⟩)
        · cases hy
        · obtain ⟨c, hc, hc₀, hc₂⟩ := jitterCap_of_lt ha
          rw [hc]
          exact ⟨_, rfl, inBounds_uniform u hc₀ hc₂⟩

/-- The first pause after a response with status 503 that asks for a pause of minus five seconds,
and after one that asks for a NaN. -/
theorem retryDelay_negative_and_nan :
    let u : Double.Draw := ⟨0, le_rfl, zero_lt_one⟩
    let answer (raw : String) : Response := { statusCode := 503, retryAfter := some (str raw) }
    let delay (raw : String) :=
      retryDelay (Double.uniform (.finite u.val) (.finite 0)) 0 (some (answer raw))
    delay "-5" = .ok (.finite (-5)) ∧ ¬InBounds (.finite (-5)) ∧
      delay "nan" = .ok .nan ∧ ¬InBounds .nan := by
  refine ⟨by decide +kernel, ?_, by decide +kernel, ?_⟩
  · rintro ⟨q, hq, hq₀, -⟩
    cases hq
    exact absurd hq₀ (by norm_num)
  · rintro ⟨q, hq, -⟩
    cases hq

/-! ## The pauses of a call -/

namespace RetryCall

variable {rt : Runtime} {σ : Settings} {n : ℕ} {stream : Bool} {body : Fields}
  {c c' : RetryCall} {e : Resumption} {es : List Resumption} {r : Retry} {upstream : Str}
  {outcome : Outcome}

/-- A call pauses only if the length of the pause can be computed. -/
def Measured (uniform : Double → Double) (c : RetryCall) : Prop :=
  ∀ a upstream outcome, c.retry = .sleeping a upstream outcome →
    ∃ d, retryDelay uniform a outcome.toOption = .ok d

theorem measured_delayed {p : UpstreamPool} {acts : List Act} :
    Measured uniform ⟨p, r.delayed uniform, acts⟩ := by
  intro b u o h
  cases r with
  | sleeping a upstream outcome =>
      dsimp only [Retry.delayed] at h
      split at h
      · rename_i d hd
        cases h
        exact ⟨d, hd⟩
      · cases h
  | _ => cases h

theorem Measured.resume (hstep : c.resume rt σ n stream body uniform e = some c') :
    Measured uniform c' := by
  cases moved_of_resume hstep with
  | recorded outcome hr => exact measured_delayed
  | closed hr => exact measured_delayed
  | woken hr => exact measured_delayed
  | disturbed hx hf hr =>
      intro a u o h
      cases h

/-- In every run of the loop, with any bound on the attempts: where the call pauses, the pause is
in bounds exactly if the response before it does not ask for a negative one or for a NaN. -/
theorem pause_inBounds_iff (u : Double.Draw) {p : UpstreamPool} {now : ℚ}
    (h : Run (Steps (resume rt σ n stream body (Double.uniform (.finite u.val) (.finite 0))))
      (opened rt σ n stream body (Double.uniform (.finite u.val) (.finite 0)) p now) es c)
    (hc : c.retry = .sleeping a upstream outcome) :
    ∃ d, retryDelay (Double.uniform (.finite u.val) (.finite 0)) a outcome.toOption = .ok d ∧
      (InBounds d ↔ ∀ x, askedDelay outcome.toOption = some x → (Double.finite 0).le x) := by
  have hmeasured : Measured (Double.uniform (.finite u.val) (.finite 0)) c :=
    h.invariant (fun hstep _ ↦ Measured.resume hstep) measured_delayed
  obtain ⟨d, hd⟩ := hmeasured a upstream outcome hc
  refine ⟨d, hd, ?_⟩
  cases hasked : askedDelay outcome.toOption with
  | some x =>
      rw [retryDelay_of_asked hasked] at hd
      cases hd
      rw [inBounds_min_iff]
      constructor
      · rintro hx y ⟨⟩
        exact hx
      · intro hx
        exact hx x rfl
  | none =>
      have hlt : a < 1024 := by
        by_contra ha
        rw [retryDelay_of_not_asked hasked, jitterCap_of_le (not_lt.mp ha)] at hd
        cases hd
      obtain ⟨d', hd', hin⟩ := (retryDelay_inBounds_iff u a outcome.toOption).mpr
        (.inr ⟨hasked, hlt⟩)
      cases hd.symm.trans hd'
      exact ⟨fun _ ↦ nofun, fun _ ↦ hin⟩

end RetryCall

end InferenceGateway
