import Mathlib.Algebra.Order.Group.Nat
import Mathlib.Data.List.Basic

/-! # Fallible computations and checked slices

`?` on a `Result` is the bind of `Except`. The lemmas here peel a successful computation into its
successful steps, and run loops that thread a state through a fallible body.
-/

namespace OpenLegal.Rust

universe u

variable {ε : Type*} {α β σ : Type u}

theorem bind_eq_ok {x : Except ε α} {f : α → Except ε β} {b : β} :
    x >>= f = .ok b ↔ ∃ a, x = .ok a ∧ f a = .ok b := by
  cases x with
  | error e =>
    constructor
    · intro impossible
      cases impossible
    · rintro ⟨a, impossible, -⟩
      cases impossible
  | ok a =>
    constructor
    · intro success
      exact ⟨a, rfl, success⟩
    · rintro ⟨a, same, success⟩
      cases same
      exact success

theorem map_eq_ok {x : Except ε α} {f : α → β} {b : β} : f <$> x = .ok b ↔ ∃ a, x = .ok a ∧ f a = b := by
  cases x with
  | error e => simp [Functor.map, Except.map]
  | ok a => simp [Functor.map, Except.map]

/-- A guard that fails early. -/
theorem ite_error_eq_ok {condition : Prop} [Decidable condition] {error : ε} {x : Except ε α} {a : α} :
    (if condition then .error error else x) = .ok a ↔ ¬condition ∧ x = .ok a := by
  split_ifs with failed
  · simp [failed]
  · simp [failed]

@[simp] theorem ok_bind (a : α) (f : α → Except ε β) : (Except.ok a >>= f) = f a := rfl
@[simp] theorem error_bind (e : ε) (f : α → Except ε β) : (Except.error e >>= f) = .error e := rfl
@[simp] theorem pure_eq_ok (a : α) : (pure a : Except ε α) = .ok a := rfl

/-- A loop that succeeds preserves what each of its successful steps preserves. -/
theorem foldlM_invariant {step : σ → α → Except ε σ} (invariant : σ → Prop) {items : List α} {start final : σ}
    (success : items.foldlM step start = .ok final) (holds : invariant start)
    (preserved : ∀ state item next, item ∈ items → step state item = .ok next → invariant state → invariant next) :
    invariant final := by
  induction items generalizing start with
  | nil =>
    cases success
    exact holds
  | cons item items ih =>
    rw [List.foldlM_cons] at success
    obtain ⟨next, ran, success⟩ := (bind_eq_ok).mp success
    refine ih success (preserved start item next (by simp) ran holds) ?_
    intro state other next' member
    exact preserved state other next' (List.mem_cons_of_mem _ member)

/-- A loop whose steps append to a list appends what all of them append. -/
theorem foldlM_append {step : List β → α → Except ε (List β)} {shown : α → List β} {items : List α}
    {start final : List β} (success : items.foldlM step start = .ok final)
    (appends : ∀ state item next, item ∈ items → step state item = .ok next → next = state ++ shown item) :
    final = start ++ items.flatMap shown := by
  induction items generalizing start with
  | nil =>
    cases success
    simp
  | cons item items ih =>
    rw [List.foldlM_cons] at success
    obtain ⟨next, ran, success⟩ := (bind_eq_ok).mp success
    rw [ih success fun state other next' member => appends state other next' (List.mem_cons_of_mem _ member),
      appends start item next (by simp) ran, List.flatMap_cons, List.append_assoc]

/-- Collected results are results of the items. -/
theorem exists_of_mem_mapM {f : α → Except ε β} {items : List α} {results : List β} (success : items.mapM f = .ok results) :
    ∀ result ∈ results, ∃ item ∈ items, f item = .ok result := by
  induction items generalizing results with
  | nil =>
    cases success
    intro result impossible
    cases impossible
  | cons item items ih =>
    rw [List.mapM_cons] at success
    obtain ⟨first, ran, success⟩ := (bind_eq_ok).mp success
    obtain ⟨rest, collected, success⟩ := (bind_eq_ok).mp success
    cases success
    rw [List.forall_mem_cons]
    refine ⟨⟨item, List.mem_cons_self, ran⟩, ?_⟩
    intro result member
    obtain ⟨other, listed, found⟩ := ih collected result member
    exact ⟨other, List.mem_cons_of_mem _ listed, found⟩

/-- `slice::get` for a half-open range of indices. -/
def getRange (items : List α) (start stop : ℕ) : Option (List α) :=
  if start ≤ stop ∧ stop ≤ items.length then some ((items.take stop).drop start) else none

/-- A checked slice is the middle part of the list. -/
theorem getRange_append (front middle rear : List α) :
    getRange (front ++ middle ++ rear) front.length (front.length + middle.length) = some middle := by
  have inside : front.length + middle.length ≤ (front ++ middle ++ rear).length := by simp
  have cut : (front ++ middle ++ rear).take (front.length + middle.length) = front ++ middle := by
    rw [← List.length_append, List.take_left]
  simp only [getRange, cut, inside, Nat.le_add_right, and_self, ↓reduceIte, List.drop_left]

theorem getRange_eq_some {items middle : List α} {start stop : ℕ} (found : getRange items start stop = some middle) :
    start ≤ stop ∧ stop ≤ items.length ∧ middle = (items.take stop).drop start := by
  simp only [getRange] at found
  split_ifs at found with inside
  exact ⟨inside.1, inside.2, (Option.some.inj found).symm⟩

/-- What no separator stands in belongs to the first piece. -/
theorem splitOnP_append_left {separates : α → Bool} {front : List α} (inside : ∀ a ∈ front, separates a = false)
    (rear : List α) :
    (front ++ rear).splitOnP separates = (rear.splitOnP separates).modifyHead (front ++ ·) := by
  induction front with
  | nil =>
    rw [List.nil_append]
    cases rear.splitOnP separates <;> rfl
  | cons a front ih =>
    rw [List.forall_mem_cons] at inside
    rw [List.cons_append, List.splitOnP_cons_eq_if_modifyHead, if_neg (by simp [inside.1]), ih inside.2,
      List.modifyHead_modifyHead]
    rfl

end OpenLegal.Rust
