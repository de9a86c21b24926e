import InferenceGateway.Transition.Clock
import Mathlib.Algebra.Order.Monoid.Unbundled.Pow
import Mathlib.Tactic.GCongr

/-!
# What is served in every round

A task that works in rounds begins one at least every `Δ`, and never before the last one is over.  What
is ahead in a round until it is served is served again and again: the `n`-th time before `n + 1` times
`Δ` have passed (`Run.served`), counted from any moment, also from the middle of a round that has
already been there.

What being served does is left to the stages: it leads from one to the next.  The last stage may also
come early.
-/

universe u v w

namespace Transition

variable {S : Type u} {E : Type v} {T : Type w} {R : S → E → S → Prop} {s t : S} {es : List E}

section Split

variable [LinearOrder T] {now : S → T} {time : E → T}

/-- A run comes to its last state that is not past `b`; what happens after that happens later. -/
theorem Run.split_at (hnow : ∀ {s e t}, R s e t → now t = time e ∧ now s ≤ time e) {b : T}
    (h : Run R s es t) (hs : now s ≤ b) : ∃ es₁ es₂ q, es = es₁ ++ es₂ ∧ Run R s es₁ q ∧ now q ≤ b ∧
      Run (Guarded R fun _ e ↦ b < time e) q es₂ t := by
  have hlater {s t : S} {es : List E} (h : Run R s es t) (hs : b < now s) :
      Run (Guarded R fun _ e ↦ b < time e) s es t := by
    induction h with
    | nil s => exact .nil s
    | cons he _ ih =>
        obtain ⟨heq, hle⟩ := hnow he
        have hlt := hs.trans_le hle
        exact .cons ⟨he, hlt⟩ (ih (hlt.trans_eq heq.symm))
  induction h with
  | nil s => exact ⟨[], [], s, rfl, .nil s, hs, .nil s⟩
  | @cons s t u e es he hr ih =>
      rcases le_or_gt (now t) b with hle | hlt
      · obtain ⟨es₁, es₂, q, rfl, h₁, hq, h₂⟩ := ih hle
        exact ⟨e :: es₁, es₂, q, rfl, .cons he h₁, hq, h₂⟩
      · refine ⟨[], e :: es, s, rfl, .nil s, hs, .cons ⟨he, ?_⟩ (hlater hr hlt)⟩
        exact hlt.trans_eq (hnow he).1

end Split

section Rounds

variable [AddCommMonoid T] [LinearOrder T] [IsOrderedAddMonoid T] {now beat : S → T}
  {ahead : S → Prop} {Δ b : T} {stage : ℕ → S → Prop} {n k : ℕ}

/-- The steps of a task that works in rounds: none comes later than `Δ` after the latest round began,
and a new round begins only when nothing is ahead in the old one. -/
structure Rounds (R : S → E → S → Prop) (now beat : S → T) (ahead : S → Prop) (Δ : T) : Prop where
  now_le : ∀ {s e t}, R s e t → now t ≤ beat s + Δ
  beat_le : ∀ {s e t}, R s e t → beat t = beat s ∨ ¬ahead s ∧ beat t ≤ beat s + Δ

omit [IsOrderedAddMonoid T] in
theorem Rounds.mono {R' : S → E → S → Prop} (h : Rounds R now beat ahead Δ)
    (hR : ∀ {s e t}, R' s e t → R s e t) : Rounds R' now beat ahead Δ :=
  ⟨fun he ↦ h.now_le (hR he), fun he ↦ h.beat_le (hR he)⟩

/-- At stage `k`, counting from `b`: one round more has begun than it was served, at most. -/
structure Served (now beat : S → T) (ahead : S → Prop) (Δ : T) (stage : ℕ → S → Prop) (b : T) (k : ℕ)
    (s : S) : Prop where
  reached : stage k s
  inTime : now s ≤ b + (k + 2) • Δ
  begun : beat s ≤ b + (k + 1) • Δ
  passed : ¬ahead s → beat s ≤ b + k • Δ

/-- How a step leads on. -/
def Leads (beat : S → T) (ahead : S → Prop) (stage : ℕ → S → Prop) (n k : ℕ) (s t : S) : Prop :=
  stage (k + 1) t ∨ stage n t ∨ stage k t ∧ (ahead t ∨ ¬ahead s ∧ beat t = beat s)

theorem add_nsmul_le (hΔ : 0 ≤ Δ) (b : T) {i j : ℕ} (h : i ≤ j) : b + i • Δ ≤ b + j • Δ := by
  gcongr

/-- A step keeps the count, or reaches the last stage in time. -/
theorem Served.step {e : E} (h : Served now beat ahead Δ stage b k s) (hR : Rounds R now beat ahead Δ)
    (hΔ : 0 ≤ Δ) (hk : k < n) (he : R s e t) (hstage : Leads beat ahead stage n k s t) :
    (∃ k < n, Served now beat ahead Δ stage b k t) ∨ stage n t ∧ now t ≤ b + (n + 1) • Δ := by
  have hadd {x : T} {i : ℕ} (hx : x ≤ b + i • Δ) : x + Δ ≤ b + (i + 1) • Δ := by
    rw [succ_nsmul, ← add_assoc]
    gcongr
  have hnow : now t ≤ b + (k + 2) • Δ := (hR.now_le he).trans (hadd h.begun)
  have hend : now t ≤ b + (n + 1) • Δ := hnow.trans (add_nsmul_le hΔ b (by omega))
  have hbeat : beat t ≤ b + (k + 1) • Δ := by
    rcases hR.beat_le he with heq | ⟨hpassed, hle⟩
    · exact heq ▸ h.begun
    · exact hle.trans (hadd (h.passed hpassed))
  rcases hstage with hnext | hlast | ⟨hsame, hround⟩
  · rcases Nat.lt_or_eq_of_le hk with hlt | rfl
    · refine .inl ⟨k + 1, hlt, hnext, ?_, ?_, fun _ ↦ hbeat⟩
      · exact hnow.trans (add_nsmul_le hΔ b (Nat.le_succ _))
      · exact hbeat.trans (add_nsmul_le hΔ b (Nat.le_succ _))
    · exact .inr ⟨hnext, hend⟩
  · exact .inr ⟨hlast, hend⟩
  · refine .inl ⟨k, hk, hsame, hnow, hbeat, fun hpassed ↦ ?_⟩
    rcases hround with hahead | ⟨hpassed, heq⟩
    · exact absurd hahead hpassed
    · exact heq ▸ h.passed hpassed

/-- A run that is long enough comes to the last stage in time. -/
theorem Run.served (hR : Rounds R now beat ahead Δ) (hΔ : 0 ≤ Δ)
    (hstage : ∀ k < n, ∀ {s e t}, R s e t → stage k s → Leads beat ahead stage n k s t)
    (h : Run R s es t) (hs : stage 0 s) (hbeat : beat s ≤ now s) (hlate : now s + (n + 1) • Δ < now t) :
    ∃ es₁ es₂ q, es = es₁ ++ es₂ ∧ Run R s es₁ q ∧ Run R q es₂ t ∧ stage n q ∧
      now q ≤ now s + (n + 1) • Δ := by
  have hpos (x : T) (i : ℕ) : x ≤ x + i • Δ := le_add_of_nonneg_right (nsmul_nonneg hΔ i)
  rcases Nat.eq_zero_or_pos n with rfl | hn
  · exact ⟨[], es, s, rfl, .nil s, h, hs, hpos _ _⟩
  · have hstart : Served now beat ahead Δ stage (now s) 0 s :=
      ⟨hs, hpos _ _, hbeat.trans (hpos _ _), fun _ ↦ hbeat.trans (hpos _ _)⟩
    rcases h.reaches_or (I := fun q ↦ ∃ k < n, Served now beat ahead Δ stage (now s) k q)
      (Q := fun q ↦ stage n q ∧ now q ≤ now s + (n + 1) • Δ)
      (fun _ _ _ he ⟨_, hk, hI⟩ ↦ hI.step hR hΔ hk he (hstage _ hk he hI.reached)) ⟨0, hn, hstart⟩
      with ⟨k, hk, hI⟩ | ⟨es₁, es₂, q, rfl, h₁, h₂, hq, hin⟩
    · have hin := hI.inTime.trans (add_nsmul_le hΔ (now s) (show k + 2 ≤ n + 1 by omega))
      exact absurd hlate (not_lt.mpr hin)
    · exact ⟨es₁, es₂, q, rfl, h₁, h₂, hq, hin⟩

end Rounds

end Transition
