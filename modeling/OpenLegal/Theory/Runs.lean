import Mathlib.Data.List.Basic

/-! # Runs of a state machine

A machine is a total step function; a run is a left fold over its events. `Along` says that a condition on
the state and the next event holds at every step of a run.
-/

namespace OpenLegal.Theory

variable {σ ε : Type*} (step : σ → ε → σ)

/-- Every event of the run is allowed in the state it meets. -/
def Along (allowed : σ → ε → Prop) : σ → List ε → Prop
  | _, [] => True
  | state, event :: events => allowed state event ∧ Along allowed (step state event) events

instance Along.decidable (allowed : σ → ε → Prop) [∀ state event, Decidable (allowed state event)] (state : σ)
    (events : List ε) : Decidable (Along step allowed state events) :=
  match events with
  | [] => .isTrue trivial
  | event :: events =>
    have := Along.decidable allowed (step state event) events
    inferInstanceAs (Decidable (_ ∧ _))

variable {step}

/-- What every step preserves holds after the run. -/
theorem foldl_invariant (invariant : σ → Prop)
    (preserves : ∀ state event, invariant state → invariant (step state event)) {state : σ} (events : List ε)
    (initial : invariant state) : invariant (events.foldl step state) := by
  induction events generalizing state with
  | nil => exact initial
  | cons event events ih => exact ih (preserves state event initial)

/-- What allowed steps preserve holds after the run. -/
theorem Along.invariant {allowed : σ → ε → Prop} (invariant : σ → Prop)
    (preserves : ∀ state event, invariant state → allowed state event → invariant (step state event))
    {state : σ} {events : List ε} (along : Along step allowed state events) (initial : invariant state) :
    invariant (events.foldl step state) := by
  induction events generalizing state with
  | nil => exact initial
  | cons event events ih =>
    obtain ⟨first, rest⟩ := along
    exact ih rest (preserves state event initial first)

/-- A run after a run. -/
theorem Along.append {allowed : σ → ε → Prop} {state : σ} {first second : List ε} (along : Along step allowed state first)
    (next : Along step allowed (first.foldl step state) second) : Along step allowed state (first ++ second) := by
  induction first generalizing state with
  | nil => exact next
  | cons event first ih =>
    obtain ⟨now, rest⟩ := along
    exact ⟨now, ih rest next⟩

end OpenLegal.Theory
