import Mathlib.Data.List.MinMax
import Mathlib.Data.List.Perm.Basic

/-! # Items ordered by a key

Where no two items have one key, the first and the last item and the whole order by that key do not depend on how the items
came.
-/

namespace OpenLegal.Theory

variable {α κ : Type*} [LinearOrder κ] (key : α → κ)

/-- No two items of the list have one key. -/
def KeyedApart (items : List α) : Prop := ∀ a ∈ items, ∀ b ∈ items, key a = key b → a = b

/-- The first of the items with the greatest key. -/
def maxByKey (items : List α) : Option α := items.argmax key

/-- The first of the items with the least key. -/
def minByKey (items : List α) : Option α := items.argmin key

/-- A stable sort by the key. -/
def sortByKey (items : List α) : List α := items.mergeSort fun a b => decide (key a ≤ key b)

variable {key} {items others : List α} {item : α}

omit [LinearOrder κ] in
theorem KeyedApart.of_injective (injective : Function.Injective key) (items : List α) : KeyedApart key items :=
  fun _ _ _ _ same => injective same

omit [LinearOrder κ] in
theorem KeyedApart.subset (apart : KeyedApart key items) (inside : others ⊆ items) : KeyedApart key others :=
  fun a first b second same => apart a (inside first) b (inside second) same

theorem minByKey_spec (found : minByKey key items = some item) : item ∈ items ∧ ∀ other ∈ items, key item ≤ key other :=
  ⟨List.argmin_mem found, fun _ member => List.le_of_mem_argmin member found⟩

theorem maxByKey_eq_some (apart : KeyedApart key items) :
    maxByKey key items = some item ↔ item ∈ items ∧ ∀ other ∈ items, key other ≤ key item := by
  constructor
  · intro found
    exact ⟨List.argmax_mem found, fun other member => List.le_of_mem_argmax member found⟩
  · rintro ⟨member, greatest⟩
    cases found : maxByKey key items with
    | none =>
      rw [List.argmax_eq_none.mp found] at member
      cases member
    | some other =>
      have listed := List.argmax_mem found
      rw [apart other listed item member ((greatest other listed).antisymm (List.le_of_mem_argmax member found))]

theorem minByKey_eq_some (apart : KeyedApart key items) :
    minByKey key items = some item ↔ item ∈ items ∧ ∀ other ∈ items, key item ≤ key other := by
  constructor
  · exact minByKey_spec
  · rintro ⟨member, least⟩
    cases found : minByKey key items with
    | none =>
      rw [List.argmin_eq_none.mp found] at member
      cases member
    | some other =>
      have listed := List.argmin_mem found
      rw [apart other listed item member ((List.le_of_mem_argmin member found).antisymm (least other listed))]

@[simp] theorem maxByKey_eq_none : maxByKey key items = none ↔ items = [] := List.argmax_eq_none

@[simp] theorem minByKey_eq_none : minByKey key items = none ↔ items = [] := List.argmin_eq_none

theorem maxByKey_perm (apart : KeyedApart key items) (perm : items.Perm others) : maxByKey key items = maxByKey key others := by
  apply Option.ext
  intro item
  rw [maxByKey_eq_some apart, maxByKey_eq_some (apart.subset perm.symm.subset), perm.mem_iff]
  simp only [perm.mem_iff]

theorem minByKey_perm (apart : KeyedApart key items) (perm : items.Perm others) : minByKey key items = minByKey key others := by
  apply Option.ext
  intro item
  rw [minByKey_eq_some apart, minByKey_eq_some (apart.subset perm.symm.subset), perm.mem_iff]
  simp only [perm.mem_iff]

theorem sortByKey_perm (items : List α) : (sortByKey key items).Perm items := List.mergeSort_perm items _

theorem pairwise_sortByKey (items : List α) : (sortByKey key items).Pairwise fun a b => key a ≤ key b := by
  have sorted := @List.pairwise_mergeSort _ (fun a b => decide (key a ≤ key b))
    (fun a b c first second => by simp only [decide_eq_true_eq] at *; exact first.trans second)
    (fun a b => by simpa using le_total (key a) (key b)) items
  exact sorted.imp of_decide_eq_true

theorem sortByKey_eq (apart : KeyedApart key items) (perm : items.Perm others) :
    sortByKey key items = sortByKey key others := by
  apply List.Perm.eq_of_pairwise _ (pairwise_sortByKey items) (pairwise_sortByKey others)
  · exact (sortByKey_perm items).trans (perm.trans (sortByKey_perm others).symm)
  · intro a b first second below above
    have first := (sortByKey_perm items).subset first
    have second := perm.symm.subset ((sortByKey_perm others).subset second)
    exact apart a first b second (below.antisymm above)

/-- The last in the order is the greatest. -/
theorem getLast_sortByKey (apart : KeyedApart key items) : (sortByKey key items).getLast? = maxByKey key items := by
  have perm := @sortByKey_perm _ _ _ key items
  cases found : maxByKey key items with
  | none =>
    rw [maxByKey_eq_none] at found
    rw [found] at perm ⊢
    rw [perm.eq_nil]
    rfl
  | some item =>
    obtain ⟨member, greatest⟩ := (maxByKey_eq_some apart).mp found
    rcases List.eq_nil_or_concat' (sortByKey key items) with empty | ⟨front, last, split⟩
    · rw [← perm.mem_iff, empty] at member
      cases member
    · have sorted := @pairwise_sortByKey _ _ _ key items
      rw [split] at sorted perm ⊢
      have listed : last ∈ items := perm.subset (by simp)
      have above : key item ≤ key last := by
        rcases List.mem_append.mp (perm.mem_iff.mpr member) with inside | inside
        · exact (List.pairwise_append.mp sorted).2.2 item inside last List.mem_cons_self
        · rw [List.mem_singleton.mp inside]
      rw [List.getLast?_concat, apart last listed item member ((greatest last listed).antisymm above)]

end OpenLegal.Theory
