import Mathlib.Algebra.BigOperators.Group.Finset.Basic
import Mathlib.Algebra.Order.BigOperators.Group.Finset
import Mathlib.Algebra.GroupWithZero.Nat

/-! # A ledger of shared values

Values are shared by reference: a holder is the identity and the charge of the value it refers to, and
a value with several holders is charged once. The last holder to go releases the charge.
-/

namespace OpenLegal.Theory

variable {ι : Type*} [DecidableEq ι]

/-- The charges of the values that some holder refers to. -/
def liveCharge (holders : List (ι × ℕ)) : ℕ := ∑ value ∈ holders.toFinset, value.2

theorem liveCharge_perm {holders holders' : List (ι × ℕ)} (perm : holders.Perm holders') :
    liveCharge holders = liveCharge holders' := by
  rw [liveCharge, List.toFinset_eq_of_perm _ _ perm, liveCharge]

theorem liveCharge_mono {holders holders' : List (ι × ℕ)} (fewer : holders' ⊆ holders) :
    liveCharge holders' ≤ liveCharge holders := by
  refine Finset.sum_le_sum_of_subset fun value member => ?_
  exact List.mem_toFinset.mpr (fewer (List.mem_toFinset.mp member))

theorem liveCharge_cons_of_mem {holders : List (ι × ℕ)} {value : ι × ℕ} (member : value ∈ holders) :
    liveCharge (value :: holders) = liveCharge holders := by
  rw [liveCharge, List.toFinset_cons, Finset.insert_eq_of_mem (List.mem_toFinset.mpr member), liveCharge]

theorem liveCharge_cons_of_notMem {holders : List (ι × ℕ)} {value : ι × ℕ} (absent : value ∉ holders) :
    liveCharge (value :: holders) = value.2 + liveCharge holders := by
  rw [liveCharge, List.toFinset_cons, Finset.sum_insert (fun member => absent (List.mem_toFinset.mp member)), liveCharge]

/-- The recorded total is the charge of the live values, and an identity has one charge. -/
structure Balanced (holders : List (ι × ℕ)) (recorded : ℕ) : Prop where
  sum : recorded = liveCharge holders
  functional : ∀ value ∈ holders, ∀ other ∈ holders, value.1 = other.1 → value = other

namespace Balanced

variable {holders holders' : List (ι × ℕ)} {recorded : ℕ} {value : ι × ℕ}

theorem nil : Balanced ([] : List (ι × ℕ)) 0 := ⟨rfl, fun _ member => by cases member⟩

theorem perm (balanced : Balanced holders recorded) (same : holders.Perm holders') : Balanced holders' recorded where
  sum := by rw [balanced.sum, liveCharge_perm same]
  functional := fun value member other found =>
    balanced.functional value (same.mem_iff.mpr member) other (same.mem_iff.mpr found)

/-- A new value is charged. -/
theorem alloc (balanced : Balanced holders recorded) (fresh : ∀ other ∈ holders, other.1 ≠ value.1) :
    Balanced (value :: holders) (recorded + value.2) where
  sum := by rw [liveCharge_cons_of_notMem fun member => fresh value member rfl, balanced.sum, Nat.add_comm]
  functional := by
    intro first member second found same
    rcases List.mem_cons.mp member with rfl | old
    · rcases List.mem_cons.mp found with rfl | found
      · rfl
      · exact absurd same.symm (fresh second found)
    · rcases List.mem_cons.mp found with rfl | found
      · exact absurd same (fresh first old)
      · exact balanced.functional first old second found same

/-- Another reference to a live value costs nothing. -/
theorem clone (balanced : Balanced holders recorded) (member : value ∈ holders) : Balanced (value :: holders) recorded where
  sum := by rw [liveCharge_cons_of_mem member, balanced.sum]
  functional := by
    intro first here second found same
    have inside {other : ι × ℕ} (here : other ∈ value :: holders) : other ∈ holders := by
      rcases List.mem_cons.mp here with rfl | here
      · exact member
      · exact here
    exact balanced.functional first (inside here) second (inside found) same

theorem tail_functional (balanced : Balanced (value :: holders) recorded) :
    ∀ first ∈ holders, ∀ second ∈ holders, first.1 = second.1 → first = second :=
  fun first member second found =>
    balanced.functional first (List.mem_cons_of_mem _ member) second (List.mem_cons_of_mem _ found)

/-- A reference goes while others remain. -/
theorem drop_shared (balanced : Balanced (value :: holders) recorded) (shared : ∃ other ∈ holders, other.1 = value.1) :
    Balanced holders recorded := by
  obtain ⟨other, member, same⟩ := shared
  have equal := balanced.functional other (List.mem_cons_of_mem _ member) value List.mem_cons_self same
  subst equal
  exact ⟨by rw [balanced.sum, liveCharge_cons_of_mem member], balanced.tail_functional⟩

/-- The last reference goes, and its charge can be taken off. -/
theorem drop_last (balanced : Balanced (value :: holders) recorded) (last : ∀ other ∈ holders, other.1 ≠ value.1) :
    value.2 ≤ recorded ∧ Balanced holders (recorded - value.2) := by
  have sum := balanced.sum
  rw [liveCharge_cons_of_notMem fun member => last value member rfl] at sum
  exact ⟨by omega, by omega, balanced.tail_functional⟩

end Balanced

end OpenLegal.Theory
