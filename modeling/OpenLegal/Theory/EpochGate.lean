import Mathlib.Data.Nat.ModEq
import Mathlib.Order.Basic

/-! # Gates with epochs

A gate is healthy or not, counts its failures as epochs, and is closed for good at some time. Activities carry
the epoch they were admitted in. A certificate of an epoch says that, as long as this epoch lasts and the gate
is not healthy, nothing admitted in an earlier one is active. A counter of epochs that wraps tells two of them apart
while it has not come round.
-/

namespace OpenLegal.Theory

/-- A counter that wraps has its old value again, though it has moved. -/
def ComeRound (width past now : ℕ) : Prop := past < now ∧ width ∣ now - past

theorem eq_of_mod_eq {width past now : ℕ} (bound : past ≤ now) (fresh : ¬ComeRound width past now)
    (same : now % width = past % width) : past = now := by
  by_contra moved
  exact fresh ⟨lt_of_le_of_ne bound moved, (Nat.modEq_iff_dvd' bound).mp same.symm⟩

theorem not_comeRound_of_lt {width past now : ℕ} (recent : now < past + width) : ¬ComeRound width past now := by
  rintro ⟨less, divides⟩
  have := Nat.le_of_dvd (by omega) divides
  omega

structure EpochGate where
  epoch : ℕ
  healthy : Bool
  closed : Bool
  active : List ℕ

namespace EpochGate

/-- What a certificate of an epoch is worth. -/
def Drained (gate : EpochGate) (epoch : ℕ) : Prop :=
  epoch = gate.epoch → gate.closed = false → gate.healthy = false → ∀ stamp ∈ gate.active, stamp = gate.epoch

/-- No failure: an open gate does not become unhealthy, and what is new is of the current epoch. -/
structure Calm (gate next : EpochGate) : Prop where
  epoch : next.epoch = gate.epoch
  opened : next.closed = false → gate.closed = false
  health : next.closed = false → next.healthy = false → gate.healthy = false
  active : ∀ stamp ∈ next.active, stamp ∈ gate.active ∨ stamp = gate.epoch

/-- A failure begins a new epoch. -/
structure Fails (gate next : EpochGate) : Prop where
  epoch : next.epoch = gate.epoch + 1
  healthy : next.healthy = false
  closed : next.closed = gate.closed

variable {gate next : EpochGate} {epoch : ℕ}

theorem Drained.of_ne (other : epoch ≠ gate.epoch) : gate.Drained epoch := fun same => absurd same other

theorem Drained.of_healthy (healthy : gate.healthy = true) : gate.Drained epoch := by
  intro _ _ unhealthy
  rw [healthy] at unhealthy
  cases unhealthy

theorem Drained.calm (drained : gate.Drained epoch) (calm : gate.Calm next) : next.Drained epoch := by
  intro same opened unhealthy stamp member
  rw [calm.epoch] at same ⊢
  rcases calm.active stamp member with old | new
  · exact drained same (calm.opened opened) (calm.health opened unhealthy) stamp old
  · exact new

theorem Drained.fails (bound : epoch ≤ gate.epoch) (fails : gate.Fails next) : next.Drained epoch := by
  apply Drained.of_ne
  rw [fails.epoch]
  omega

theorem Calm.refl (gate : EpochGate) : gate.Calm gate := ⟨rfl, id, fun _ => id, fun _ => .inl⟩

/-- Losing activities is calm. -/
theorem Calm.of_subset {active : List ℕ} (subset : active ⊆ gate.active) : gate.Calm { gate with active } :=
  ⟨rfl, id, fun _ => id, fun _ member => .inl (subset member)⟩

end EpochGate

end OpenLegal.Theory
