import Mathlib.Data.List.Basic
import Mathlib.Order.Basic

/-!
# Finite runs of a labelled step relation

A step relation `R : S → E → S → Prop` says which state an event may lead to.
`Run R s es t` is a finite run: the events `es`, taken one after another from
`s`, end in `t`.  The one induction every safety property needs is
`Run.invariant`, and `Run.ofExec` turns an executable partial step function into
runs, so that a concrete run is checked by evaluation.

Nothing here refers to a particular system.
-/

universe u v

namespace Transition

variable {S : Type u} {E : Type v}

/-- A finite run: the events, in order, from the first state to the last. -/
inductive Run (R : S → E → S → Prop) : S → List E → S → Prop
  /-- No event, no change. -/
  | nil (s : S) : Run R s [] s
  /-- One step, then the rest of the run. -/
  | cons {s t u : S} {e : E} {es : List E} : R s e t → Run R t es u → Run R s (e :: es) u

namespace Run

variable {R R' : S → E → S → Prop} {s t u : S} {e : E} {es fs : List E}

/-- A single step is a run. -/
theorem single (h : R s e t) : Run R s [e] t := .cons h (.nil t)

/-- A run that starts with an event takes a step and goes on. -/
theorem cons_iff : Run R s (e :: es) u ↔ ∃ t, R s e t ∧ Run R t es u := by
  constructor
  · intro h
    cases h with
    | cons hs hr => exact ⟨_, hs, hr⟩
  · rintro ⟨t, hs, hr⟩
    exact .cons hs hr

/-- Runs compose. -/
theorem append (h : Run R s es t) (h' : Run R t fs u) : Run R s (es ++ fs) u := by
  induction h with
  | nil _ => exact h'
  | cons hs _ ih => exact .cons hs (ih h')

/-- A run extended by one step. -/
theorem snoc (h : Run R s es t) (hs : R t e u) : Run R s (es ++ [e]) u :=
  h.append (single hs)

/-- Runs are monotone in the step relation. -/
theorem mono (hR : ∀ {s e t}, R s e t → R' s e t) (h : Run R s es t) : Run R' s es t := by
  induction h with
  | nil s => exact .nil s
  | cons hs _ ih => exact .cons (hR hs) ih

/-- What every step preserves, every run preserves. -/
theorem invariant {P : S → Prop} (hstep : ∀ {s e t}, R s e t → P s → P t)
    (h : Run R s es t) (hs : P s) : P t := by
  induction h with
  | nil _ => exact hs
  | cons hR _ ih => exact ih (hstep hR hs)

/-- An invariant may lean on another one that is already known. -/
theorem invariant_of {I P : S → Prop} (hI : ∀ {s e t}, R s e t → I s → I t)
    (hP : ∀ {s e t}, R s e t → I s → P s → P t) (h : Run R s es t) (hIs : I s) (hs : P s) :
    P t :=
  (h.invariant (P := fun s ↦ I s ∧ P s) (fun hR hs ↦ ⟨hI hR hs.1, hP hR hs.1 hs.2⟩)
    ⟨hIs, hs⟩).2

end Run

/-! ## Steps that meet a condition -/

/-- The steps of `R` at which the condition `G` on the state before and the event
holds. -/
def Guarded (R : S → E → S → Prop) (G : S → E → Prop) : S → E → S → Prop :=
  fun s e t ↦ R s e t ∧ G s e

/-- A run of guarded steps is a run. -/
theorem Run.of_guarded {R : S → E → S → Prop} {G : S → E → Prop} {s t : S} {es : List E}
    (h : Run (Guarded R G) s es t) : Run R s es t :=
  h.mono And.left

/-- A run all of whose events meet a condition is a run of guarded steps. -/
theorem Run.guard {R : S → E → S → Prop} {P : E → Prop} {s t : S} {es : List E}
    (h : Run R s es t) (hes : ∀ e ∈ es, P e) : Run (Guarded R fun _ e ↦ P e) s es t := by
  induction h with
  | nil s => exact .nil s
  | cons hs _ ih =>
      refine .cons ⟨hs, hes _ List.mem_cons_self⟩ (ih fun e he ↦ ?_)
      exact hes e (List.mem_cons_of_mem _ he)

/-- A run from a state of an invariant is a run of steps from states of it. -/
theorem Run.guard_invariant {R : S → E → S → Prop} {P : S → Prop} {s t : S} {es : List E}
    (hstep : ∀ {s e t}, R s e t → P s → P t) (h : Run R s es t) (hs : P s) :
    Run (Guarded R fun s _ ↦ P s) s es t := by
  induction h with
  | nil s => exact .nil s
  | cons he _ ih => exact .cons ⟨he, hs⟩ (ih (hstep he hs))

/-! ## Steps on the way -/

/-- The run passes a step at which the condition `G` holds. -/
def Passes (R : S → E → S → Prop) (G : S → E → Prop) (s : S) (es : List E) (u : S) : Prop :=
  ∃ es₁ e es₂ t t', es = es₁ ++ e :: es₂ ∧ Run R s es₁ t ∧ R t e t' ∧ Run R t' es₂ u ∧ G t e

section Passes

variable {R : S → E → S → Prop} {G G' : S → E → Prop} {s t u : S} {e : E} {es fs : List E}

/-- What a later part of a run passes, the run passes. -/
theorem Passes.of_append (h : Run R s es t) (hp : Passes R G t fs u) : Passes R G s (es ++ fs) u := by
  obtain ⟨es₁, e, es₂, t₁, t₂, rfl, h₁, hs, h₂, hG⟩ := hp
  exact ⟨es ++ es₁, e, es₂, t₁, t₂, by rw [List.append_assoc], h.append h₁, hs, h₂, hG⟩

/-- A run passes its first step. -/
theorem Passes.head (hs : R s e t) (h : Run R t es u) (hG : G s e) : Passes R G s (e :: es) u :=
  ⟨[], e, es, s, t, rfl, .nil s, hs, h, hG⟩

/-- A run without steps passes none. -/
theorem Passes.not_nil : ¬Passes R G s [] u := by
  rintro ⟨es₁, e, es₂, t, t', h, -⟩
  cases es₁ <;> cases h

theorem Passes.imp (hG : ∀ {s e}, G s e → G' s e) (h : Passes R G s es u) : Passes R G' s es u := by
  obtain ⟨es₁, e, es₂, t, t', rfl, h₁, hs, h₂, hg⟩ := h
  exact ⟨es₁, e, es₂, t, t', rfl, h₁, hs, h₂, hG hg⟩

/-- A run passes a step that meets the condition, or none of its steps does. -/
theorem Run.passes_or_guarded (G : S → E → Prop) (h : Run R s es u) :
    Passes R G s es u ∨ Run (Guarded R fun s e ↦ ¬G s e) s es u := by
  induction h with
  | nil s => exact .inr (.nil s)
  | @cons s t u e es hs hr ih =>
      by_cases hG : G s e
      · exact .inl (.head hs hr hG)
      · rcases ih with hp | hg
        · exact .inl (Passes.of_append (.single hs) hp)
        · exact .inr (.cons ⟨hs, hG⟩ hg)

end Passes

/-! ## Executable steps -/

section Exec

variable (step : S → E → Option S)

/-- The step relation of a partial step function. -/
def Steps : S → E → S → Prop := fun s e t ↦ step s e = some t

/-- Run a list of events; `none` if one of them is not enabled where it comes. -/
def exec : S → List E → Option S
  | s, [] => some s
  | s, e :: es => (step s e).bind fun t ↦ exec t es

variable {step}

/-- What executes is a run. -/
theorem Run.ofExec {s t : S} {es : List E} (h : exec step s es = some t) :
    Run (Steps step) s es t := by
  induction es generalizing s with
  | nil => cases h; exact .nil _
  | cons e es ih =>
      obtain ⟨s', hs, hr⟩ := Option.bind_eq_some_iff.mp h
      exact .cons hs (ih hr)

/-- A run to a state of which a test holds, found by evaluation. -/
theorem Run.exists_of_exec (step : S → E → Option S) (s : S) (es : List E) (P : S → Bool)
    (h : (exec step s es).any P = true) : ∃ t, Run (Steps step) s es t ∧ P t = true := by
  cases ht : exec step s es with
  | none => rw [ht] at h; cases h
  | some t => exact ⟨t, .ofExec ht, by rwa [ht] at h⟩

/-- Run a list of events as long as a condition holds before each of them. -/
def execWhile (step : S → E → Option S) (g : S → E → Bool) : S → List E → Option S
  | s, [] => some s
  | s, e :: es => if g s e then (step s e).bind fun t ↦ execWhile step g t es else none

/-- What executes under a condition is a run of guarded steps. -/
theorem Run.ofExecWhile {g : S → E → Bool} {s t : S} {es : List E}
    (h : execWhile step g s es = some t) : Run (Guarded (Steps step) fun s e ↦ g s e) s es t := by
  induction es generalizing s with
  | nil => cases h; exact .nil _
  | cons e es ih =>
      rw [execWhile] at h
      split at h
      · rename_i hg
        obtain ⟨s', hs, hr⟩ := Option.bind_eq_some_iff.mp h
        exact .cons ⟨hs, hg⟩ (ih hr)
      · cases h

/-- A run of guarded steps to a state of which a test holds, found by evaluation. -/
theorem Run.exists_of_execWhile (step : S → E → Option S) (g : S → E → Bool) (s : S) (es : List E)
    (P : S → Bool) (h : (execWhile step g s es).any P = true) :
    ∃ t, Run (Guarded (Steps step) fun s e ↦ g s e) s es t ∧ P t = true := by
  cases ht : execWhile step g s es with
  | none => rw [ht] at h; cases h
  | some t => exact ⟨t, .ofExecWhile ht, by rwa [ht] at h⟩

/-- How many steps of a run meet a condition. -/
def tally (step : S → E → Option S) (g : S → E → Bool) : S → List E → ℕ
  | _, [] => 0
  | s, e :: es => (g s e).toNat + (step s e).elim 0 fun t ↦ tally step g t es

theorem tally_cons {g : S → E → Bool} {s t : S} {e : E} {es : List E} (h : Steps step s e t) :
    tally step g s (e :: es) = (g s e).toNat + tally step g t es := by
  rw [tally, h]
  rfl

/-- What the steps of a run yield, in order. -/
def gather {α : Type*} (step : S → E → Option S) (g : S → E → List α) : S → List E → List α
  | _, [] => []
  | s, e :: es => g s e ++ (step s e).elim [] fun t ↦ gather step g t es

theorem gather_cons {α : Type*} {g : S → E → List α} {s t : S} {e : E} {es : List E}
    (h : Steps step s e t) : gather step g s (e :: es) = g s e ++ gather step g t es := by
  rw [gather, h]
  rfl

/-- What a run of a step function passes, it passes in its first step or after it. -/
theorem Passes.of_cons {G : S → E → Prop} {s t u : S} {e : E} {es : List E} (hs : Steps step s e t)
    (h : Passes (Steps step) G s (e :: es) u) : G s e ∨ Passes (Steps step) G t es u := by
  obtain ⟨es₁, e', es₂, s₁, s₂, heq, h₁, hs', h₂, hG⟩ := h
  cases es₁ with
  | nil =>
      cases heq
      cases h₁
      exact .inl hG
  | cons e₁ es₁ =>
      cases heq
      obtain ⟨t', ht', h₁⟩ := Run.cons_iff.mp h₁
      obtain rfl : t = t' := Option.some.inj (hs.symm.trans ht')
      exact .inr ⟨es₁, e', es₂, s₁, s₂, rfl, h₁, hs', h₂, hG⟩

/-- A run of a step function whose steps all miss the condition passes none that meets it. -/
theorem Run.not_passes {G : S → E → Prop} {s u : S} {es : List E}
    (h : Run (Guarded (Steps step) fun s e ↦ ¬G s e) s es u) : ¬Passes (Steps step) G s es u := by
  induction h with
  | nil s => exact Passes.not_nil
  | cons hs _ ih =>
      intro hp
      rcases hp.of_cons hs.1 with hG | hp
      · exact hs.2 hG
      · exact ih hp

end Exec

end Transition
