import Mathlib.Data.List.Lex
import Mathlib.Data.List.Sort
import OpenLegal.Rust.Result

/-! # Scans in key order

Items are kept in the order of their keys. A scan asks again and again for the next item after a key; a scan
of a convex class of keys, such as the keys with one prefix, stops at the first key outside of it. Whatever
it threads along is the fold over the items of the class.
-/

namespace OpenLegal.Theory

open Rust

section Scan

variable {α κ : Type} [LinearOrder κ] (key : α → κ)

/-- Keys strictly increase. -/
def KeySorted (items : List α) : Prop := items.Pairwise fun first second => key first < key second

/-- The first item after a key. -/
def nextAfter (items : List α) (after : κ) : Option α := items.find? fun item => after < key item

/-- All items after a key. -/
def itemsAfter (items : List α) (after : κ) : List α := items.filter fun item => after < key item

variable {σ ε : Type}

/-- The scan loop over the items of a class, with an allowance of items. -/
def walk (items : List α) (inside : κ → Bool) (step : σ → α → Except ε σ) (exhausted : ε) :
    ℕ → κ → σ → Except ε σ
  | 0, after, state =>
    match nextAfter key items after with
    | none => .ok state
    | some item => if inside (key item) then .error exhausted else .ok state
  | allowance + 1, after, state =>
    match nextAfter key items after with
    | none => .ok state
    | some item =>
      if inside (key item) then do
        let state ← step state item
        walk items inside step exhausted allowance (key item) state
      else .ok state

variable {key} {items : List α}

/-- The items before and after the next one. -/
theorem nextAfter_eq_some {after : κ} {item : α} (sorted : KeySorted key items)
    (found : nextAfter key items after = some item) :
    after < key item ∧ ∃ front rear, items = front ++ item :: rear ∧ (∀ other ∈ front, key other ≤ after) ∧
      ∀ other ∈ rear, key item < key other := by
  obtain ⟨beyond, front, rear, rfl, before⟩ := List.find?_eq_some_iff_append.mp found
  refine ⟨by simpa using beyond, front, rear, rfl, ?_, ?_⟩
  · intro other member
    simpa using before other member
  · intro other member
    have later := (List.pairwise_append.mp sorted).2.1
    exact (List.pairwise_cons.mp later).1 other member

/-- Items are told apart by their keys. -/
theorem KeySorted.injective {first second : α} (sorted : KeySorted key items) (member : first ∈ items)
    (member' : second ∈ items) (same : key first = key second) : first = second := by
  have distinct : (items.map key).Nodup := by
    apply List.pairwise_map.mpr
    exact sorted.imp ne_of_lt
  exact List.inj_on_of_nodup_map distinct member member' same

/-- An item is among those with the keys of a selection exactly if it is selected. -/
theorem KeySorted.key_mem_iff {item : α} (sorted : KeySorted key items) (member : item ∈ items) (selected : α → Bool) :
    key item ∈ (items.filter selected).map key ↔ selected item = true := by
  constructor
  · intro found
    obtain ⟨other, inside, same⟩ := List.mem_map.mp found
    obtain ⟨member', chosen⟩ := List.mem_filter.mp inside
    rwa [sorted.injective member' member same] at chosen
  · intro chosen
    exact List.mem_map_of_mem (List.mem_filter.mpr ⟨member, chosen⟩)

theorem nextAfter_eq_none {after : κ} (none : nextAfter key items after = none) : ∀ item ∈ items, key item ≤ after := by
  intro item member
  have absent := List.find?_eq_none.mp none item member
  simpa using absent

/-- The items of a class after a key are the next one and those after it. -/
theorem filter_nextAfter {after : κ} {item : α} {inside : κ → Bool} (sorted : KeySorted key items)
    (found : nextAfter key items after = some item) (member : inside (key item) = true) :
    items.filter (fun other => after < key other && inside (key other)) =
      item :: items.filter (fun other => key item < key other && inside (key other)) := by
  obtain ⟨beyond, front, rear, rfl, before, later⟩ := nextAfter_eq_some sorted found
  have none (bound : κ) (le : after ≤ bound) :
      front.filter (fun other => bound < key other && inside (key other)) = [] := by
    apply List.filter_eq_nil_iff.mpr
    intro other inFront
    have small := (before other inFront).trans le
    simp [not_lt.mpr small]
  have same : rear.filter (fun other => after < key other && inside (key other)) =
      rear.filter (fun other => key item < key other && inside (key other)) := by
    apply List.filter_congr
    intro other inRear
    simp [later other inRear, beyond.trans (later other inRear)]
  rw [List.filter_append, List.filter_append, none after le_rfl, none (key item) beyond.le,
    List.filter_cons_of_pos (by simp [beyond, member]), List.filter_cons_of_neg (by simp), same]
  rfl

theorem nextAfter_eq_head? (items : List α) (after : κ) :
    nextAfter key items after = (itemsAfter key items after).head? :=
  List.head?_filter.symm

theorem itemsAfter_of_none {after : κ} (none : nextAfter key items after = none) : itemsAfter key items after = [] := by
  apply List.filter_eq_nil_iff.mpr
  intro item member
  simpa using nextAfter_eq_none none item member

theorem itemsAfter_of_some {after : κ} {item : α} (sorted : KeySorted key items)
    (found : nextAfter key items after = some item) :
    itemsAfter key items after = item :: itemsAfter key items (key item) := by
  simpa [itemsAfter] using @filter_nextAfter _ _ _ _ _ _ _ (fun _ => true) sorted found rfl

/-- A scan gets closer to its end with every item, whatever their order. -/
theorem length_itemsAfter_lt {after : κ} {item : α} (found : nextAfter key items after = some item) :
    (itemsAfter key items (key item)).length < (itemsAfter key items after).length := by
  have beyond : after < key item := by simpa using List.find?_some found
  have inside : itemsAfter key items (key item) =
      (itemsAfter key items after).filter fun other => key item < key other := by
    rw [itemsAfter, itemsAfter, List.filter_filter]
    apply List.filter_congr
    intro other _
    rw [Bool.eq_iff_iff, Bool.and_eq_true, decide_eq_true_iff, decide_eq_true_iff]
    exact ⟨fun later => ⟨later, beyond.trans later⟩, And.left⟩
  rw [inside]
  apply List.length_filter_lt_length_iff_exists.mpr
  refine ⟨item, List.mem_filter.mpr ⟨List.mem_of_find?_eq_some found, by simpa using beyond⟩, ?_⟩
  simp

/-- A completed scan is the fold over the items of the class. -/
theorem walk_eq_foldlM {inside : κ → Bool} {step : σ → α → Except ε σ} {exhausted : ε} {start : κ}
    (sorted : KeySorted key items)
    (convex : ∀ first second, start < first → inside first = false → first ≤ second → inside second = false)
    {allowance : ℕ} {after : κ} {state final : σ} (reached : start ≤ after)
    (ran : walk key items inside step exhausted allowance after state = .ok final) :
    (items.filter fun item => after < key item && inside (key item)).foldlM step state = .ok final := by
  -- past the class there is nothing left of it
  have outside {item : α} {after : κ} (reached : start ≤ after) (found : nextAfter key items after = some item)
      (other : inside (key item) = false) :
      items.filter (fun item => after < key item && inside (key item)) = [] := by
    obtain ⟨beyond, front, rear, rfl, before, later⟩ := nextAfter_eq_some sorted found
    apply List.filter_eq_nil_iff.mpr
    intro candidate member
    rcases List.mem_append.mp member with inFront | inRear
    · simp [not_lt.mpr (before candidate inFront)]
    · have le : key item ≤ key candidate := by
        rcases List.mem_cons.mp inRear with rfl | inRear
        · exact le_rfl
        · exact (later candidate inRear).le
      simp [convex (key item) (key candidate) (reached.trans_lt beyond) other le]
  have ended {after : κ} (none : nextAfter key items after = none) :
      items.filter (fun item => after < key item && inside (key item)) = [] := by
    apply List.filter_eq_nil_iff.mpr
    intro candidate member
    simp [not_lt.mpr (nextAfter_eq_none none candidate member)]
  induction allowance generalizing after state with
  | zero =>
    rw [walk] at ran
    split at ran
    · next none =>
      cases ran
      rw [ended none]
      rfl
    · next item found =>
      split_ifs at ran with member
      cases ran
      rw [outside reached found (by simpa using member)]
      rfl
  | succ allowance ih =>
    rw [walk] at ran
    split at ran
    · next none =>
      cases ran
      rw [ended none]
      rfl
    · next item found =>
      split_ifs at ran with member
      · obtain ⟨next, stepped, ran⟩ := bind_eq_ok.mp ran
        have beyond := (nextAfter_eq_some sorted found).1
        rw [filter_nextAfter sorted found member, List.foldlM_cons, stepped, ok_bind]
        exact ih (reached.trans beyond.le) ran
      · cases ran
        rw [outside reached found (by simpa using member)]
        rfl

end Scan

section Lists

variable {α : Type} [LinearOrder α]

/-- Past the lists with one prefix, no list has it. -/
theorem not_prefix_of_le {front first second : List α} (above : front < first) (outside : ¬ front <+: first)
    (le : first ≤ second) : ¬ front <+: second := by
  induction front generalizing first second with
  | nil => exact absurd List.nil_prefix outside
  | cons a front ih =>
    rintro ⟨rest, rfl⟩
    cases first with
    | nil => exact absurd above (List.not_lt_nil _)
    | cons b first =>
      have notBelow := not_lt.mpr le
      rw [List.cons_append, List.cons_lt_cons_iff, not_or, not_and] at notBelow
      rcases List.cons_lt_cons_iff.mp above with smaller | ⟨rfl, deeper⟩
      · exact notBelow.1 smaller
      · apply ih deeper _ (not_lt.mp (notBelow.2 rfl)) ⟨rest, rfl⟩
        intro inside
        exact outside (List.cons_prefix_cons.mpr ⟨rfl, inside⟩)

theorem lt_of_prefix {front whole : List α} (inside : front <+: whole) (other : front ≠ whole) : front < whole := by
  obtain ⟨rest, rfl⟩ := inside
  induction front with
  | nil =>
    cases rest with
    | nil => exact absurd rfl other
    | cons a rest => exact List.nil_lt_cons a rest
  | cons a front ih =>
    rw [List.cons_append, List.cons_lt_cons_iff]
    refine .inr ⟨rfl, ih ?_⟩
    intro same
    apply other
    rw [List.cons_append, ← same]

end Lists

end OpenLegal.Theory
