import Mathlib.Data.List.Basic

/-! # Lists addressed by position

Parties and objects of a running system are often kept in a list and named by their positions: a new one is
appended, and an existing one is replaced in place.
-/

namespace OpenLegal.Theory

variable {α : Type*} {items : List α} {position index : ℕ} {new value : α}

/-- After a replacement. -/
theorem getElem?_set_cases (found : (items.set position new)[index]? = some value) :
    (index = position ∧ value = new) ∨ (index ≠ position ∧ items[index]? = some value) := by
  by_cases same : index = position
  · subst same
    have bound : index < items.length := by
      have := (List.getElem?_eq_some_iff.mp found).1
      simpa using this
    rw [List.getElem?_set_self bound, Option.some.injEq] at found
    exact .inl ⟨rfl, found.symm⟩
  · rw [List.getElem?_set_ne (Ne.symm same)] at found
    exact .inr ⟨same, found⟩

/-- After an addition. -/
theorem getElem?_concat_cases (found : (items ++ [new])[index]? = some value) :
    (index = items.length ∧ value = new) ∨ items[index]? = some value := by
  rcases Nat.lt_or_ge index items.length with old | late
  · rw [List.getElem?_append_left old] at found
    exact .inr found
  · rw [List.getElem?_append_right late] at found
    obtain ⟨bound, rfl⟩ := List.getElem?_eq_some_iff.mp found
    have : index = items.length := by
      simp only [List.length_singleton] at bound
      omega
    exact .inl ⟨this, by simp⟩

theorem lt_length_of_getElem? (found : items[index]? = some value) : index < items.length :=
  (List.getElem?_eq_some_iff.mp found).1

/-- How a replacement changes a count. -/
theorem countP_set_add {old : α} (found : items[position]? = some old) (new : α) (p : α → Bool) :
    (items.set position new).countP p + (p old).toNat = items.countP p + (p new).toNat := by
  obtain ⟨bound, rfl⟩ := List.getElem?_eq_some_iff.mp found
  have counted := List.boole_getElem_le_countP (p := p) bound
  rw [List.countP_set bound]
  cases before : p items[position] <;> cases after : p new <;>
    simp only [before, Bool.false_eq_true, ↓reduceIte, Bool.toNat_true, Bool.toNat_false] at counted ⊢ <;> omega

end OpenLegal.Theory
