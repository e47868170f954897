import Mathlib.Order.Defs.Unbundled

/-! # Computations that keep their state when they fail

An `EStateM` computation that fails leaves behind what it changed so far, and whoever catches the failure has to undo it. What every
step of a computation leaves behind is said by a relation between the states before and after.
-/

namespace OpenLegal.Theory.Effect

open EStateM (Result)

variable {ε σ α β : Type}

/-- The state in which a computation ends, however it ends. -/
def stateOf : Result ε σ α → σ
  | .ok _ state => state
  | .error _ state => state

/-- What a computation hands to its caller. -/
def resultOf : Result ε σ α → Except ε α
  | .ok a _ => .ok a
  | .error e _ => .error e

attribute [grind =] stateOf resultOf

theorem resultOf_eq_ok {result : Result ε σ α} {a : α} : resultOf result = .ok a ↔ ∃ state, result = .ok a state := by
  cases result with
  | ok b state => simp [resultOf]
  | error e state => simp [resultOf]

variable {x : EStateM ε σ α} {f : α → EStateM ε σ β} {state final : σ}

theorem bind_eq (x : EStateM ε σ α) (f : α → EStateM ε σ β) (state : σ) :
    (x >>= f) state = match x state with
      | .ok a middle => f a middle
      | .error e middle => .error e middle := rfl

/-- A sequence that succeeds consists of two computations that do. -/
theorem bind_eq_ok {b : β} : (x >>= f) state = .ok b final ↔ ∃ a middle, x state = .ok a middle ∧ f a middle = .ok b final := by
  rw [bind_eq]
  cases x state with
  | ok a middle => simp [and_assoc]
  | error error middle => simp

/-- A sequence that fails does so in its first or in its second computation. -/
theorem bind_eq_error {error : ε} : (x >>= f) state = .error error final ↔
    x state = .error error final ∨ ∃ a middle, x state = .ok a middle ∧ f a middle = .error error final := by
  rw [bind_eq]
  cases x state with
  | ok a middle => simp [and_assoc]
  | error other middle => simp

/-- The computation does not fail. -/
def Succeeds (x : EStateM ε σ α) (state : σ) : Prop := ∃ a final, x state = .ok a final

theorem succeeds_bind : Succeeds (x >>= f) state ↔ ∃ a middle, x state = .ok a middle ∧ Succeeds (f a) middle := by
  simp only [Succeeds, bind_eq_ok]
  constructor
  · rintro ⟨b, final, a, middle, first, second⟩
    exact ⟨a, middle, first, b, final, second⟩
  · rintro ⟨a, middle, first, b, final, second⟩
    exact ⟨b, final, a, middle, first, second⟩

/-- Whether the computation succeeds or fails, it leaves a state that is related to the one it met. -/
def Leaves (R : σ → σ → Prop) (x : EStateM ε σ α) : Prop := ∀ state, R state (stateOf (x state))

variable {R : σ → σ → Prop}

namespace Leaves

theorem bind [IsTrans σ R] (first : Leaves R x) (next : ∀ a, Leaves R (f a)) : Leaves R (x >>= f) := by
  intro state
  have before := first state
  rw [bind_eq]
  cases ran : x state with
  | ok a middle =>
    rw [ran] at before
    exact IsTrans.trans _ _ _ before (next a middle)
  | error error middle =>
    rw [ran] at before
    exact before

/-- A loop leaves what its rounds leave. -/
theorem forM [Std.Refl R] [IsTrans σ R] {items : List α} {body : α → EStateM ε σ PUnit} (each : ∀ item ∈ items, Leaves R (body item)) :
    Leaves R (items.forM body) := by
  induction items with
  | nil => exact fun state => Std.Refl.refl state
  | cons item items ih =>
    rw [List.forall_mem_cons] at each
    exact each.1.bind fun _ => ih each.2

end Leaves

/-- A loop that succeeds preserves what its successful rounds preserve, round by round. -/
theorem forM_invariant {body : α → EStateM ε σ PUnit} (invariant : List α → σ → Prop) {items : List α} (initial : invariant [] state)
    (preserved : ∀ done item state next, invariant done state → body item state = .ok .unit next → invariant (done ++ [item]) next)
    (ran : items.forM body state = .ok .unit final) : invariant items final := by
  suffices general : ∀ done state, invariant done state → items.forM body state = .ok .unit final → invariant (done ++ items) final from
    general [] state initial ran
  clear initial ran
  induction items with
  | nil =>
    intro done state holds ran
    cases ran
    rwa [List.append_nil]
  | cons item items ih =>
    intro done state holds ran
    obtain ⟨_, middle, round, ran⟩ := (bind_eq_ok).mp ran
    rw [← List.singleton_append, ← List.append_assoc]
    exact ih (done ++ [item]) middle (preserved done item state middle holds round) ran

end OpenLegal.Theory.Effect
