import Mathlib.Algebra.BigOperators.Group.List.Basic
import Mathlib.Data.List.Forall2
import Mathlib.Algebra.GroupWithZero.Nat

/-! # Spending a budget

Items are served in order out of one budget. What an item is served depends on what is left, and without a budget nothing is
served.
-/

namespace OpenLegal.Theory

variable {α β : Type*}

/-- What was served, what is left of the budget, and whether something was cut or left out. -/
structure Spent (β : Type*) where
  served : List β
  left : ℕ
  short : Bool

section Spend

variable (serve : α → ℕ → β) (cost : β → ℕ) (cut : β → Bool)

def spend : ℕ → List α → Spent β
  | budget, [] => ⟨[], budget, false⟩
  | budget, item :: rest =>
    if budget = 0 then ⟨[], 0, true⟩
    else
      let out := serve item budget
      let others := spend (budget - cost out) rest
      ⟨out :: others.served, others.left, cut out || others.short⟩

attribute [grind =] spend

/-- One more item. -/
def Spent.next (spent : Spent β) (item : α) : Spent β :=
  if spent.left = 0 then { spent with short := true }
  else
    let out := serve item spent.left
    ⟨spent.served ++ [out], spent.left - cost out, spent.short || cut out⟩

end Spend

variable {serve : α → ℕ → β} {cost : β → ℕ} {cut : β → Bool} {whole : α → β}

theorem spend_concat (budget : ℕ) (items : List α) (item : α) :
    spend serve cost cut budget (items ++ [item]) = (spend serve cost cut budget items).next serve cost cut item := by
  induction items generalizing budget with
  | nil =>
    rw [List.nil_append, spend, spend, Spent.next]
    split_ifs with empty
    · rw [empty]
    · simp [spend]
  | cons first rest ih =>
    rw [List.cons_append, spend, spend]
    split_ifs with empty
    · rfl
    · simp only [ih, Spent.next]
      split_ifs
      · rw [Bool.or_true]
      · rw [Bool.or_assoc, List.cons_append]

/-- What is served costs what the budget lost. -/
theorem spend_total (within : ∀ item left, cost (serve item left) ≤ left) (budget : ℕ) (items : List α) :
    ((spend serve cost cut budget items).served.map cost).sum + (spend serve cost cut budget items).left = budget := by
  induction items generalizing budget with
  | nil => exact Nat.zero_add budget
  | cons item rest ih =>
    rw [spend]
    split_ifs with empty
    · exact empty.symm
    · have affordable := within item budget
      have others := ih (budget - cost (serve item budget))
      simp only [List.map_cons, List.sum_cons]
      omega

/-- The first items are served, in their order. -/
theorem spend_served (budget : ℕ) (items : List α) :
    List.Forall₂ (fun item out => ∃ left, out = serve item left)
      (items.take (spend serve cost cut budget items).served.length) (spend serve cost cut budget items).served := by
  induction items generalizing budget with
  | nil => exact .nil
  | cons item rest ih =>
    rw [spend]
    split_ifs
    · exact .nil
    · exact .cons ⟨budget, rfl⟩ (ih _)

/-- Nothing was cut or left out exactly if every item was served in whole. -/
theorem spend_short (full : ∀ item left, cut (serve item left) = false ↔ serve item left = whole item) (budget : ℕ)
    (items : List α) :
    (spend serve cost cut budget items).short = false ↔ (spend serve cost cut budget items).served = items.map whole := by
  induction items generalizing budget with
  | nil => exact iff_of_true rfl rfl
  | cons item rest ih =>
    rw [spend]
    split_ifs
    · exact iff_of_false not_false (List.cons_ne_nil _ _ ·.symm)
    · rw [Bool.or_eq_false_iff, full, ih, List.map_cons, List.cons.injEq]

end OpenLegal.Theory
