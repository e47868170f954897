import Mathlib.Data.List.Basic

/-! # Marked parts of a list

A list cut at ordered ranges, with the pieces inside a range marked, and two lists laid side by side. Nothing is lost by either.
-/

namespace OpenLegal.Theory

variable {α : Type*}

/-! ## Cutting at ranges -/

/-- The items from one position to another. -/
def slice (xs : List α) (start stop : ℕ) : List α := (xs.take stop).drop start

/-- The pieces from a position on. -/
def cut (xs : List α) : ℕ → List (ℕ × ℕ) → List (List α × Bool)
  | offset, [] => if offset < xs.length then [(xs.drop offset, false)] else []
  | offset, (start, stop) :: ranges =>
    (if offset < start then [(slice xs offset start, false)] else []) ++ (slice xs start stop, true) :: cut xs stop ranges

/-- The ranges are not empty, follow each other from a position on and end within a size. -/
def Ordered (size : ℕ) : ℕ → List (ℕ × ℕ) → Prop
  | _, [] => True
  | offset, (start, stop) :: ranges => offset ≤ start ∧ start < stop ∧ stop ≤ size ∧ Ordered size stop ranges

/-- A position lies in one of the ranges. -/
def within (ranges : List (ℕ × ℕ)) (i : ℕ) : Bool := ranges.any fun range => range.1 ≤ i && i < range.2

/-- Every item with the mark of its position. -/
def mark (xs : List α) (marked : ℕ → Bool) : List (α × Bool) := xs.mapIdx fun i x => (x, marked i)

/-- The items of pieces, each with the mark of its piece. -/
def spread (pieces : List (List α × Bool)) : List (α × Bool) := pieces.flatMap fun piece => piece.1.map (·, piece.2)

variable {xs : List α} {ranges : List (ℕ × ℕ)} {size offset start stop : ℕ} {marked : ℕ → Bool}

theorem spread_append (front back : List (List α × Bool)) : spread (front ++ back) = spread front ++ spread back :=
  List.flatMap_append

theorem spread_cons (piece : List α × Bool) (pieces : List (List α × Bool)) :
    spread (piece :: pieces) = piece.1.map (·, piece.2) ++ spread pieces := List.flatMap_cons

theorem within_of_lt (ordered : Ordered size offset ranges) {i : ℕ} (before : i < offset) : within ranges i = false := by
  induction ranges generalizing offset with
  | nil => rfl
  | cons range ranges ih =>
    obtain ⟨from_offset, nonempty, -, rest⟩ := ordered
    rw [within, List.any_cons, ← within, ih rest (by omega), Bool.or_false, Bool.and_eq_false_iff]
    exact .inl (decide_eq_false (by omega))

theorem mark_slice {value : Bool} (same : ∀ i, start ≤ i → i < stop → marked i = value) :
    slice (mark xs marked) start stop = (slice xs start stop).map (·, value) := by
  apply List.ext_getElem?
  intro i
  simp only [slice, mark, List.getElem?_drop, List.getElem?_take, List.getElem?_mapIdx, List.getElem?_map]
  split
  · next inside => rw [same (start + i) (by omega) inside]
  · rfl

theorem mark_drop {value : Bool} (same : ∀ i, start ≤ i → marked i = value) :
    (mark xs marked).drop start = (xs.drop start).map (·, value) := by
  apply List.ext_getElem?
  intro i
  simp only [mark, List.getElem?_drop, List.getElem?_mapIdx, List.getElem?_map]
  rw [same (start + i) (by omega)]

theorem drop_eq_slice (forward : start ≤ stop) : xs.drop start = slice xs start stop ++ xs.drop stop := by
  have rest : (xs.drop start).drop (stop - start) = xs.drop stop := by
    rw [List.drop_drop]
    congr 1
    omega
  rw [slice, List.drop_take, ← rest, List.take_append_drop]

/-- The pieces are the list from the position on, and the marks those of the ranges. -/
theorem spread_cut (ordered : Ordered xs.length offset ranges) (agree : ∀ i, offset ≤ i → marked i = within ranges i) :
    spread (cut xs offset ranges) = (mark xs marked).drop offset := by
  induction ranges generalizing offset with
  | nil =>
    rw [cut]
    have none := @mark_drop _ xs offset marked false agree
    split
    · rw [none, spread, List.flatMap_singleton]
    · next outside => rw [none, List.drop_eq_nil_of_le (by omega)]; rfl
  | cons range ranges ih =>
    obtain ⟨from_offset, nonempty, -, rest⟩ := ordered
    have first : slice (mark xs marked) offset range.1 = (slice xs offset range.1).map (·, false) := by
      apply mark_slice
      intro i after before
      rw [agree i after, within, List.any_cons, ← within, within_of_lt rest (by omega), Bool.or_false, Bool.and_eq_false_iff]
      exact .inl (decide_eq_false (by omega))
    have second : slice (mark xs marked) range.1 range.2 = (slice xs range.1 range.2).map (·, true) := by
      apply mark_slice
      intro i after before
      rw [agree i (by omega), within, List.any_cons]
      simp [after, before]
    have later : ∀ i, range.2 ≤ i → marked i = within ranges i := by
      intro i after
      rw [agree i (by omega), within, List.any_cons, ← within, decide_eq_false (by omega : ¬ i < range.2), Bool.and_false,
        Bool.false_or]
    have gap : spread (if offset < range.1 then [(slice xs offset range.1, false)] else []) =
        (slice xs offset range.1).map (·, false) := by
      split
      · rw [spread, List.flatMap_singleton]
      · next empty =>
        have none : slice xs offset range.1 = [] := List.drop_eq_nil_of_le (by rw [List.length_take]; omega)
        rw [none]
        rfl
    rw [cut, spread_append, spread_cons, ih rest later, gap, ← first, ← second, drop_eq_slice from_offset,
      drop_eq_slice (Nat.le_of_lt nonempty)]

theorem cut_nonempty (ordered : Ordered xs.length offset ranges) : ∀ piece ∈ cut xs offset ranges, piece.1 ≠ [] := by
  have filled : ∀ start stop, start < stop → stop ≤ xs.length → slice xs start stop ≠ [] := by
    intro start stop forward inside empty
    have length := congrArg List.length empty
    rw [slice, List.length_drop, List.length_take, List.length_nil] at length
    omega
  induction ranges generalizing offset with
  | nil =>
    intro piece member
    rw [cut] at member
    split at member
    · next inside =>
      rw [List.mem_singleton.mp member]
      exact fun empty => absurd (List.drop_eq_nil_iff.mp empty) (by omega)
    · cases member
  | cons range ranges ih =>
    obtain ⟨from_offset, nonempty, inside, rest⟩ := ordered
    rw [cut, List.forall_mem_append, List.forall_mem_cons]
    refine ⟨?_, filled _ _ nonempty inside, ih rest⟩
    split
    · next gap =>
      intro piece member
      rw [List.mem_singleton.mp member]
      exact filled _ _ gap (by omega)
    · intro piece member
      cases member

theorem map_fst_mark (xs : List α) (marked : ℕ → Bool) : (mark xs marked).map Prod.fst = xs := by
  apply List.ext_getElem?
  intro i
  rw [mark, List.getElem?_map, List.getElem?_mapIdx, Option.map_map]
  exact Option.map_id'

theorem map_fst_spread (pieces : List (List α × Bool)) : (spread pieces).map Prod.fst = (pieces.map Prod.fst).flatten := by
  rw [spread, List.map_flatMap, ← List.flatMap_def]
  apply List.flatMap_congr
  intro piece _
  rw [List.map_map]
  exact List.map_id _

/-! ## Side by side -/

/-- Two lists in rows of two. -/
def sideBySide (before after : List α) : List (Option α × Option α) :=
  (List.range (max before.length after.length)).map fun i => (before[i]?, after[i]?)

theorem filterMap_getElem? {n : ℕ} (long : xs.length ≤ n) : (List.range n).filterMap (fun i => xs[i]?) = xs := by
  induction xs generalizing n with
  | nil => simp
  | cons x xs ih =>
    obtain ⟨n, rfl⟩ : ∃ m, n = m + 1 := ⟨n - 1, by rw [List.length_cons] at long; omega⟩
    rw [List.range_succ_eq_map, List.filterMap_cons, List.filterMap_map]
    simp only [List.getElem?_cons_zero]
    congr 1
    exact ih (by rw [List.length_cons] at long; omega)

variable {before after : List α}

theorem sideBySide_fst : (sideBySide before after).filterMap Prod.fst = before := by
  rw [sideBySide, List.filterMap_map]
  exact filterMap_getElem? (Nat.le_max_left _ _)

theorem sideBySide_snd : (sideBySide before after).filterMap Prod.snd = after := by
  rw [sideBySide, List.filterMap_map]
  exact filterMap_getElem? (Nat.le_max_right _ _)

theorem sideBySide_some {pair : Option α × Option α} (member : pair ∈ sideBySide before after) :
    pair.1.isSome ∨ pair.2.isSome := by
  obtain ⟨i, inside, rfl⟩ := List.mem_map.mp member
  rw [List.mem_range] at inside
  simp only [isSome_getElem?]
  omega

end OpenLegal.Theory
