import Mathlib.Data.List.Basic

/-! # A pass that carries its last result

Every item of a list is answered with the answer to the item before it in hand, and may leave requests for the
caller. Answers of two passes agree where their steps do, and what holds of an answer is proved from the one before.
-/

namespace OpenLegal.Theory.Carried

variable {α β γ : Type} (step : Option β → α → β × List γ)

/-- The answers in order, and the requests that they leave. -/
def pass (last : Option β) : List α → List β × List γ
  | [] => ([], [])
  | item :: rest =>
    let (answer, requests) := step last item
    let (answers, more) := pass (some answer) rest
    (answer :: answers, requests ++ more)

attribute [grind =] pass

/-- What is in hand at an item: the answer to the one before. -/
def inHand (last : Option β) (answers : List β) : ℕ → Option β
  | 0 => last
  | i + 1 => answers[i]?

attribute [grind =] inHand

variable {step}

theorem pass_cons (last : Option β) (item : α) (rest : List α) :
    pass step last (item :: rest) =
      ((step last item).1 :: (pass step (some (step last item).1) rest).1,
        (step last item).2 ++ (pass step (some (step last item).1) rest).2) := rfl

theorem inHand_cons (last : Option β) (answer : β) (answers : List β) (i : ℕ) :
    inHand last (answer :: answers) (i + 1) = inHand (some answer) answers i := by
  cases i with
  | zero => rfl
  | succ i => rfl

/-- The answer to an item, from what is in hand there. -/
theorem getElem?_pass (last : Option β) (items : List α) (i : ℕ) :
    (pass step last items).1[i]? = items[i]?.map fun item => (step (inHand last (pass step last items).1 i) item).1 := by
  induction items generalizing last i with
  | nil => rfl
  | cons item rest ih =>
    rw [pass_cons]
    cases i with
    | zero => rfl
    | succ i => rw [List.getElem?_cons_succ, List.getElem?_cons_succ, ih, inHand_cons]

/-- Every request was left at some item. -/
theorem mem_requests {last : Option β} {items : List α} {request : γ} :
    request ∈ (pass step last items).2 ↔
      ∃ i item, items[i]? = some item ∧ request ∈ (step (inHand last (pass step last items).1 i) item).2 := by
  induction items generalizing last with
  | nil => simp [pass]
  | cons item rest ih =>
    rw [pass_cons, List.mem_append, ih]
    constructor
    · rintro (here | ⟨i, later, found, left⟩)
      · exact ⟨0, item, rfl, here⟩
      · exact ⟨i + 1, later, found, by rwa [inHand_cons]⟩
    · rintro ⟨i, later, found, left⟩
      cases i with
      | zero =>
        cases found
        exact .inl left
      | succ i => exact .inr ⟨i, later, found, by rwa [inHand_cons] at left⟩

/-- Two passes answer alike if their steps do, whatever they request. -/
theorem pass_congr {step' : Option β → α → β × List γ} {items : List α}
    (same : ∀ item ∈ items, ∀ last, (step' last item).1 = (step last item).1) (last : Option β) :
    (pass step' last items).1 = (pass step last items).1 := by
  induction items generalizing last with
  | nil => rfl
  | cons item rest ih =>
    rw [List.forall_mem_cons] at same
    rw [pass_cons, pass_cons, same.1, ih same.2]

section Invariant

variable {P : β → Prop} {last : Option β} {items : List α} (start : ∀ answer ∈ last, P answer)
  (keeps : ∀ i item, items[i]? = some item → (∀ answer ∈ inHand last (pass step last items).1 i, P answer) →
    P (step (inHand last (pass step last items).1 i) item).1)
include start keeps

/-- What every step proves of its answer, from the answer in hand, holds of what is in hand everywhere. -/
theorem forall_inHand (i : ℕ) : ∀ answer ∈ inHand last (pass step last items).1 i, P answer := by
  induction i with
  | zero => exact start
  | succ i ih =>
    intro answer found
    rw [Option.mem_def, inHand, getElem?_pass] at found
    obtain ⟨item, here, rfl⟩ := Option.map_eq_some_iff.mp found
    exact keeps i item here ih

theorem forall_answers : ∀ answer ∈ (pass step last items).1, P answer := by
  intro answer member
  obtain ⟨i, found⟩ := List.mem_iff_getElem?.mp member
  exact forall_inHand start keeps (i + 1) answer found

end Invariant

end OpenLegal.Theory.Carried
