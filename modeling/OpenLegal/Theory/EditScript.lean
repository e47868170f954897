import Mathlib.Algebra.Order.Group.Nat
import Mathlib.Data.List.Basic
import Mathlib.Algebra.GroupWithZero.Nat

/-! # Edit scripts and the hunks of a patch

A script is a sequence of tagged elements. Its deleted and kept elements spell the source, its
inserted and kept elements the target. A patch shows only some stretches of a script, its hunks; the
elements before, between and after them are common to both sides.
-/

namespace OpenLegal.Theory

/-- What one row of a script does with its element. -/
inductive ChangeTag where
  | equal
  | delete
  | insert
deriving DecidableEq, Repr

/-- Tagged elements in the order in which they are shown. -/
abbrev Script (α : Type*) := List (ChangeTag × α)

variable {α : Type*}

namespace Script

/-- The elements of the old side. -/
def source : Script α → List α
  | [] => []
  | (.insert, _) :: rows => source rows
  | (.delete, a) :: rows => a :: source rows
  | (.equal, a) :: rows => a :: source rows

/-- The elements of the new side. -/
def target : Script α → List α
  | [] => []
  | (.delete, _) :: rows => target rows
  | (.insert, a) :: rows => a :: target rows
  | (.equal, a) :: rows => a :: target rows

@[simp] theorem source_nil : source ([] : Script α) = [] := rfl
@[simp] theorem target_nil : target ([] : Script α) = [] := rfl
@[simp] theorem source_equal (a : α) (rows : Script α) : source ((.equal, a) :: rows) = a :: source rows := rfl
@[simp] theorem source_delete (a : α) (rows : Script α) : source ((.delete, a) :: rows) = a :: source rows := rfl
@[simp] theorem source_insert (a : α) (rows : Script α) : source ((.insert, a) :: rows) = source rows := rfl
@[simp] theorem target_equal (a : α) (rows : Script α) : target ((.equal, a) :: rows) = a :: target rows := rfl
@[simp] theorem target_delete (a : α) (rows : Script α) : target ((.delete, a) :: rows) = target rows := rfl
@[simp] theorem target_insert (a : α) (rows : Script α) : target ((.insert, a) :: rows) = a :: target rows := rfl

@[simp] theorem source_append (front rear : Script α) : source (front ++ rear) = source front ++ source rear := by
  induction front with
  | nil => rfl
  | cons row front ih =>
    rcases row with ⟨tag, a⟩
    cases tag <;> simp [ih]

@[simp] theorem target_append (front rear : Script α) : target (front ++ rear) = target front ++ target rear := by
  induction front with
  | nil => rfl
  | cons row front ih =>
    rcases row with ⟨tag, a⟩
    cases tag <;> simp [ih]

/-- A script that only keeps elements has the same two sides. -/
theorem source_eq_target {rows : Script α} (kept : ∀ row ∈ rows, row.1 = .equal) : source rows = target rows := by
  induction rows with
  | nil => rfl
  | cons row rows ih =>
    rcases row with ⟨tag, a⟩
    obtain rfl : tag = .equal := kept (tag, a) (by simp)
    simp [ih fun other member => kept other (List.mem_cons_of_mem _ member)]

/-- Every row stands on at least one side. -/
theorem length_le (rows : Script α) : rows.length ≤ (source rows).length + (target rows).length := by
  induction rows with
  | nil => simp
  | cons row rows ih =>
    rcases row with ⟨tag, a⟩
    cases tag <;> simp <;> omega

theorem mem_source_or_target {rows : Script α} {row : ChangeTag × α} (member : row ∈ rows) :
    row.2 ∈ source rows ∨ row.2 ∈ target rows := by
  induction rows with
  | nil => cases member
  | cons other rows ih =>
    rcases other with ⟨tag, a⟩
    rcases List.mem_cons.mp member with rfl | member
    · cases tag <;> simp
    · rcases ih member with old | new
      · cases tag <;> simp [old]
      · cases tag <;> simp [new]

/-- At least one row changes something. -/
def Changes (rows : Script α) : Prop := ∃ row ∈ rows, row.1 ≠ .equal

theorem length_pos_of_changes {rows : Script α} (changes : Changes rows) :
    0 < (source rows).length + (target rows).length := by
  obtain ⟨row, member, -⟩ := changes
  rcases mem_source_or_target member with old | new
  · have := List.length_pos_of_mem old; omega
  · have := List.length_pos_of_mem new; omega

end Script

/-- A shown stretch of a script, after the common elements that precede it. -/
structure Hunk (α : Type*) where
  gap : List α
  rows : Script α

namespace Hunk

open Script

/-- The old side of a sequence of hunks and the common elements after the last one. -/
def sourceOf (hunks : List (Hunk α)) (tail : List α) : List α :=
  hunks.flatMap (fun hunk => hunk.gap ++ source hunk.rows) ++ tail

/-- The new side of a sequence of hunks and the common elements after the last one. -/
def targetOf (hunks : List (Hunk α)) (tail : List α) : List α :=
  hunks.flatMap (fun hunk => hunk.gap ++ target hunk.rows) ++ tail

@[simp] theorem sourceOf_nil (tail : List α) : sourceOf [] tail = tail := rfl
@[simp] theorem targetOf_nil (tail : List α) : targetOf [] tail = tail := rfl

@[simp] theorem sourceOf_cons (hunk : Hunk α) (hunks : List (Hunk α)) (tail : List α) :
    sourceOf (hunk :: hunks) tail = hunk.gap ++ source hunk.rows ++ sourceOf hunks tail := by
  simp [sourceOf]

@[simp] theorem targetOf_cons (hunk : Hunk α) (hunks : List (Hunk α)) (tail : List α) :
    targetOf (hunk :: hunks) tail = hunk.gap ++ target hunk.rows ++ targetOf hunks tail := by
  simp [targetOf]

theorem sourceOf_eq_append (hunks : List (Hunk α)) (tail : List α) :
    sourceOf hunks tail = sourceOf hunks [] ++ tail := by
  simp [sourceOf]

theorem targetOf_eq_append (hunks : List (Hunk α)) (tail : List α) :
    targetOf hunks tail = targetOf hunks [] ++ tail := by
  simp [targetOf]

/-- Rows shown in all hunks stand on at least one side each. -/
theorem rows_length_le (hunks : List (Hunk α)) (tail : List α) :
    (hunks.map fun hunk => hunk.rows.length).sum ≤ (sourceOf hunks tail).length + (targetOf hunks tail).length := by
  induction hunks with
  | nil => simp
  | cons hunk hunks ih =>
    have := length_le hunk.rows
    simp only [List.map_cons, List.sum_cons, sourceOf_cons, targetOf_cons, List.length_append]
    omega

/-- Hunks that change something and are separated by common elements are at most a third of the
elements of both sides. -/
theorem three_mul_length_le (hunks : List (Hunk α)) (tail : List α)
    (changes : ∀ hunk ∈ hunks, Changes hunk.rows) (separated : ∀ hunk ∈ hunks, hunk.gap ≠ []) :
    3 * hunks.length ≤ (sourceOf hunks tail).length + (targetOf hunks tail).length := by
  induction hunks with
  | nil => simp
  | cons hunk hunks ih =>
    have rest := ih (fun other member => changes other (List.mem_cons_of_mem _ member))
      (fun other member => separated other (List.mem_cons_of_mem _ member))
    have shown := length_pos_of_changes (changes hunk (by simp))
    have hidden := List.length_pos_of_ne_nil (separated hunk (by simp))
    simp only [List.length_cons, sourceOf_cons, targetOf_cons, List.length_append]
    omega

end Hunk

end OpenLegal.Theory
