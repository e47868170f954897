import Mathlib.Data.List.DropRight
import Mathlib.Order.Lattice

/-! # Open items

Items of rank stand in a sequence, and an item is closed by the next one of its rank or a lower one. The items that are open
at the end are kept on a stack: a new item takes off the top what it closes.
-/

namespace OpenLegal.Theory

variable {α ρ : Type*} [LinearOrder ρ] (rank : α → ρ)

/-- The items that all later ones outrank. -/
def openItems : List α → List α
  | [] => []
  | item :: rest => if rest.all fun later => rank item < rank later then item :: openItems rest else openItems rest

attribute [grind =] openItems

/-- A stack, its top last, with one more item. -/
def pushItem (stack : List α) (item : α) : List α := stack.rdropWhile (fun other => decide (rank item ≤ rank other)) ++ [item]

variable {rank} {items stack : List α} {item : α}

theorem mem_openItems : item ∈ openItems rank items ↔
    ∃ before after, items = before ++ item :: after ∧ ∀ later ∈ after, rank item < rank later := by
  induction items with
  | nil => simp [openItems]
  | cons first rest ih =>
    rw [openItems]
    constructor
    · intro member
      split_ifs at member with opens
      · rcases List.mem_cons.mp member with rfl | behind
        · exact ⟨[], rest, rfl, by simpa using opens⟩
        · obtain ⟨before, after, rfl, above⟩ := ih.mp behind
          exact ⟨first :: before, after, rfl, above⟩
      · obtain ⟨before, after, rfl, above⟩ := ih.mp member
        exact ⟨first :: before, after, rfl, above⟩
    · rintro ⟨before, after, same, above⟩
      cases before with
      | nil =>
        obtain ⟨rfl, rfl⟩ := List.cons.inj same
        rw [if_pos (by simpa using above)]
        exact List.mem_cons_self
      | cons other before =>
        obtain ⟨rfl, rfl⟩ := List.cons.inj same
        have behind := ih.mpr ⟨before, after, rfl, above⟩
        split_ifs
        · exact List.mem_cons_of_mem _ behind
        · exact behind

theorem openItems_subset : openItems rank items ⊆ items := by
  intro item member
  obtain ⟨before, after, rfl, -⟩ := (mem_openItems).mp member
  simp

/-- The open items are of strictly increasing rank. -/
theorem pairwise_openItems (items : List α) : (openItems rank items).Pairwise fun a b => rank a < rank b := by
  induction items with
  | nil => exact List.Pairwise.nil
  | cons first rest ih =>
    rw [openItems]
    split_ifs with opens
    · rw [List.all_eq_true] at opens
      exact List.pairwise_cons.mpr ⟨fun later member => by simpa using opens later (openItems_subset member), ih⟩
    · exact ih

/-- A new item closes those of its rank and above. -/
theorem openItems_concat (items : List α) (item : α) :
    openItems rank (items ++ [item]) = (openItems rank items).filter (fun other => rank other < rank item) ++ [item] := by
  induction items with
  | nil => simp [openItems]
  | cons first rest ih =>
    rw [List.cons_append, openItems, openItems, List.all_append, ih]
    by_cases opens : rest.all fun later => decide (rank first < rank later)
    · by_cases below : rank first < rank item
      · simp [opens, below]
      · simp [opens, below]
    · simp [opens]

theorem rdropWhile_of_sorted (sorted : stack.Pairwise fun a b => rank a < rank b) (item : α) :
    stack.rdropWhile (fun other => decide (rank item ≤ rank other)) = stack.filter fun other => rank other < rank item := by
  induction stack using List.reverseRecOn with
  | nil => rfl
  | append_singleton stack top ih =>
    rw [List.pairwise_append] at sorted
    rw [List.rdropWhile_concat, List.filter_append]
    by_cases closes : rank item ≤ rank top
    · rw [if_pos (by simpa using closes), ih sorted.1, List.filter_cons_of_neg (by simpa using closes)]
      exact (List.append_nil _).symm
    · have below := not_le.mp closes
      rw [if_neg (by simpa using below), List.filter_cons_of_pos (by simpa using below), List.filter_nil,
        List.filter_eq_self.mpr fun other member => ?_]
      have smaller := sorted.2.2 other member top List.mem_cons_self
      simpa using smaller.trans below

/-- The stack holds the open items. -/
theorem pushItem_openItems (items : List α) (item : α) :
    pushItem rank (openItems rank items) item = openItems rank (items ++ [item]) := by
  rw [pushItem, rdropWhile_of_sorted (pairwise_openItems items), openItems_concat]

/-- What else is known of the items does not matter to the stack. -/
theorem pushItem_map {β : Type*} {rank' : β → ρ} {f : α → β} (same : ∀ item, rank' (f item) = rank item) (stack : List α)
    (item : α) : pushItem rank' (stack.map f) (f item) = (pushItem rank stack item).map f := by
  rw [pushItem, pushItem, List.map_append, List.map_singleton, List.rdropWhile, List.rdropWhile, ← List.map_reverse,
    List.dropWhile_map, List.map_reverse]
  simp only [Function.comp_def, same]

end OpenLegal.Theory
