import InferenceGateway.Transition.Run
import Mathlib.Algebra.Order.Group.Defs

/-!
# Runs with a clock

Events that carry a time, none earlier than the one before it.  Some events are beats, and the
clock remembers the latest one: a run in which no event comes later than `Δ` after the latest beat
is one whose beats are never more than `Δ` apart.

With time a bound on how long something takes is a safety property: a state that the clock has
passed is not waiting any more (`Run.reaches_or`).
-/

universe u v w

namespace Transition

variable {S : Type u} {E : Type v} {T : Type w}

/-- From a state of `I` every step leads to a state of `I`, or to one of `Q`: then a run stays in
`I`, or reaches `Q` on its way. -/
theorem Run.reaches_or {R : S → E → S → Prop} {I Q : S → Prop} {s t : S} {es : List E}
    (hstep : ∀ s e t, R s e t → I s → I t ∨ Q t) (h : Run R s es t) (hs : I s) :
    I t ∨ ∃ es₁ es₂ q, es = es₁ ++ es₂ ∧ Run R s es₁ q ∧ Run R q es₂ t ∧ Q q := by
  induction h with
  | nil s => exact .inl hs
  | @cons s t u e es he hr ih =>
      rcases hstep s e t he hs with hI | hQ
      · rcases ih hI with hu | ⟨es₁, es₂, q, rfl, h₁, h₂, hq⟩
        · exact .inl hu
        · exact .inr ⟨e :: es₁, es₂, q, rfl, .cons he h₁, h₂, hq⟩
      · exact .inr ⟨[e], es, t, rfl, .single he, hr, hQ⟩

/-- A state with the time of the latest event and of the latest beat. -/
structure Clocked (S : Type u) (T : Type w) where
  state : S
  now : T
  beat : T

namespace Clocked

/-- A clock that is started now. -/
def start (s : S) (now : T) : Clocked S T := ⟨s, now, now⟩

variable [LinearOrder T] {step : S → E → Option S} {time : E → T} {beats : E → Bool}
  {c c' : Clocked S T} {e : E} {es : List E}

/-- A step, no earlier than the one before. -/
def next (step : S → E → Option S) (time : E → T) (beats : E → Bool) (c : Clocked S T) (e : E) :
    Option (Clocked S T) :=
  if c.now ≤ time e then
    (step c.state e).map fun s ↦ ⟨s, time e, if beats e then time e else c.beat⟩
  else none

theorem of_next (h : Steps (next step time beats) c e c') :
    Steps step c.state e c'.state ∧ c.now ≤ time e ∧ c'.now = time e ∧
      c'.beat = if beats e then time e else c.beat := by
  unfold Steps next at h
  split at h
  · rename_i hle
    obtain ⟨s, hs, rfl⟩ := Option.map_eq_some_iff.mp h
    exact ⟨hs, hle, rfl, rfl⟩
  · cases h

/-- No beat is in the future. -/
theorem beat_le_now (hs : Steps (next step time beats) c e c') (h : c.beat ≤ c.now) :
    c'.beat ≤ c'.now := by
  obtain ⟨-, hle, hnow, hbeat⟩ := of_next hs
  rw [hnow, hbeat]
  split
  · exact le_rfl
  · exact h.trans hle

/-- The latest beat is at most `Δ` ago. -/
def Steady [Add T] (time : E → T) (Δ : T) (c : Clocked S T) (e : E) : Prop :=
  time e ≤ c.beat + Δ

instance [Add T] (Δ : T) (c : Clocked S T) (e : E) : Decidable (Steady time Δ c e) :=
  inferInstanceAs (Decidable (_ ≤ _))

end Clocked

end Transition
