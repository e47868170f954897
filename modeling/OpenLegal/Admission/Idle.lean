import Mathlib.Data.Finset.Card
import Mathlib.Data.List.Range
import OpenLegal.Admission.Ledger

/-! # The idle predicate and the reservation decision

The same decision is written twice, in a different order. Both agree on every ledger in which the locked slots
are those of the admission rows.
-/

namespace OpenLegal.Admission

open Rust Legal

def Denied (result : Except DatabaseError (Decision × Ledger)) : Prop := result = .error .budgetExhausted

def ToldToWait (result : Except DatabaseError (Decision × Ledger)) : Prop := ∃ delay ledger, result = .ok (.wait delay, ledger)

namespace Ledger

variable {ledger : Ledger} {mode : RequestBudgetMode} {clock : Clock}

/-- A settled owner has released its lock. -/
def NoLockLag (ledger : Ledger) : Prop := ∀ session ∈ ledger.sessions, session.slot ∈ ledger.admissions.map AdmissionRow.slot

/-- With fewer admissions than slots, a slot is free. -/
theorem exists_freeSlot (settled : ledger.NoLockLag)
    (room : ledger.admissions.length < ledger.budget.policy.limits.maxInFlight) : ∃ slot, ledger.freeSlot = some slot := by
  apply Option.isSome_iff_exists.mp
  rw [freeSlot, List.find?_isSome]
  by_contra full
  have covered : List.range' 1 ledger.budget.policy.limits.maxInFlight ⊆ ledger.admissions.map AdmissionRow.slot := by
    intro slot member
    have locked : ledger.slotLocked slot = true := by
      by_contra free
      exact full ⟨slot, member, by simp [free]⟩
    obtain ⟨session, present, same⟩ := List.any_eq_true.mp locked
    rw [← of_decide_eq_true same]
    exact settled session present
  have distinct : (List.range' 1 ledger.budget.policy.limits.maxInFlight).Nodup := List.nodup_range'
  have bound := (distinct.subperm covered).length_le
  rw [List.length_range', List.length_map] at bound
  omega

/-- A reservation that gets to its slot is neither denied nor told to wait. -/
theorem charge_plain (ledger : Ledger) (mode : RequestBudgetMode) (clock : Clock) (slot : ℕ) :
    ¬ Denied (ledger.charge clock (.plain mode) slot) ∧ ¬ ToldToWait (ledger.charge clock (.plain mode) slot) := by
  have added (value extra : ℕ) : checkedAdd value extra = .error .storageCorrupt ∨ ∃ sum, checkedAdd value extra = .ok sum := by
    rw [checkedAdd]
    split_ifs
    · exact .inl rfl
    · exact .inr ⟨_, rfl⟩
  rw [charge]
  rcases added (ledger.budget.usedOn clock.day .continuous) (if (Attempt.plain mode).mode = .onDemand then 0 else 1) with
    full | ⟨daily, ok⟩
  · simp [full, Denied, ToldToWait]
  rcases added (ledger.budget.usedOn clock.day .onDemand) (if (Attempt.plain mode).mode = .onDemand then 1 else 0) with
    full | ⟨demand, ok'⟩
  · simp [ok, full, Denied, ToldToWait]
  rcases added ledger.budget.pilotUsed (if (Attempt.plain mode).mode = .pilot then 1 else 0) with full | ⟨pilot, ok''⟩
  · simp [ok, ok', full, Denied, ToldToWait]
  rw [ok, ok', ok'']
  cases ledger.admissions.any fun row => row.slot = slot <;> simp [Attempt.plain, Denied, ToldToWait]

/-- A limit is positive, so that a new day always has budget. -/
theorem dailyAvailable_eq (ledger : Ledger) (clock : Clock) (mode : PolicyMode) :
    ledger.dailyAvailable clock mode =
      !Budget.reached (ledger.budget.policy.limits.daily mode) (ledger.budget.usedOn clock.day mode) := by
  rw [dailyAvailable, Budget.reached, Budget.usedOn]
  cases limited : ledger.budget.policy.limits.daily mode with
  | none => simp
  | some limit =>
    have positive := ledger.budget.policy.daily_pos limited
    by_cases today : ledger.budget.utcDay = clock.day
    · have decided : decide (ledger.budget.used mode < limit) = !decide (limit ≤ ledger.budget.used mode) := by
        rw [← decide_not, decide_eq_decide, not_le]
      simp [today, decided]
    · have nonzero : limit ≠ 0 := by omega
      simp [today, nonzero]

/-- An idle ledger passes every check that a reservation makes before it takes a slot, and no other ledger does. -/
theorem idle_eq (ledger : Ledger) (mode : RequestBudgetMode) (clock : Clock) :
    ledger.idle mode clock = (!ledger.refused mode clock &&
      (ledger.liveOwnerCount.any fun active => active < ledger.budget.policy.limits.maxInFlight) &&
      !ledger.otherTurn mode clock && ledger.budget.next ≤ clock.ms) := by
  have counted : (ledger.liveOwnerCount.all fun count => decide (ledger.budget.policy.limits.maxInFlight ≤ count)) =
      !ledger.liveOwnerCount.any fun active => decide (active < ledger.budget.policy.limits.maxInFlight) := by
    cases ledger.liveOwnerCount with
    | none => rfl
    | some count => simp only [Option.all_some, Option.any_some, ← decide_not, not_lt]
  have due : decide (ledger.budget.next > clock.ms) = !decide (ledger.budget.next ≤ clock.ms) := by
    rw [← decide_not, decide_eq_decide, gt_iff_lt, not_le]
  rw [idle, refused, otherTurn, counted, due]
  simp only [dailyAvailable_eq]
  generalize (ledger.liveOwnerCount.any fun active => decide (active < ledger.budget.policy.limits.maxInFlight)) = room
  generalize decide (ledger.budget.next ≤ clock.ms) = open_
  -- the same conditions in another order
  cases mode <;> grind [RequestBudgetMode.policy]

/-- The idle predicate holds exactly if a reservation in the same snapshot is neither denied nor told to wait. -/
theorem idle_iff (ledger : Ledger) (mode : RequestBudgetMode) (clock : Clock) (settled : ledger.NoLockLag) :
    ledger.idle mode clock = true ↔
      ¬ Denied (ledger.reserveLocked clock (.plain mode)) ∧ ¬ ToldToWait (ledger.reserveLocked clock (.plain mode)) := by
  rw [idle_eq, reserveLocked]
  cases denied : ledger.refused mode clock with
  | true => simp [Attempt.plain, authorize, denied, Denied]
  | false =>
    cases live : ledger.liveOwnerCount with
    | none => simp [Attempt.plain, authorize, denied, Denied]
    | some active =>
      by_cases room : active < ledger.budget.policy.limits.maxInFlight
      · obtain ⟨slot, free⟩ := exists_freeSlot settled ((liveOwnerCount_eq_some live).2 ▸ room)
        cases turn : ledger.otherTurn mode clock with
        | true => simp [Attempt.plain, authorize, denied, room, turn, ToldToWait]
        | false =>
          by_cases due : ledger.budget.next ≤ clock.ms
          · have full : ¬ ledger.budget.policy.limits.maxInFlight ≤ active := not_le.mpr room
            have late : ¬ (clock.ms : ℤ) < ledger.budget.next := not_lt.mpr due
            have charged := charge_plain ledger mode clock slot
            simp only [Attempt.plain] at charged
            simpa [Attempt.plain, authorize, denied, full, room, turn, due, late, free] using charged
          · have full : ¬ ledger.budget.policy.limits.maxInFlight ≤ active := not_le.mpr room
            have early : (clock.ms : ℤ) < ledger.budget.next := not_le.mp due
            by_cases far : 30000 < ledger.budget.next - clock.ms
            · simp [Attempt.plain, authorize, denied, full, turn, due, early, far, Denied]
            · simp [Attempt.plain, authorize, denied, full, turn, due, early, far, ToldToWait]
      · have full : ledger.budget.policy.limits.maxInFlight ≤ active := not_lt.mp room
        simp [Attempt.plain, authorize, denied, room, full, ToldToWait]

/-- Both budgets unlimited, and a single slot. -/
def singleSlot : Policy := ⟨⟨.unlimited, .unlimited, .unlimited, .unlimited, 200, 1, 1800, 7200, 3⟩, by decide⟩

/-- The same with two slots. -/
def twoSlots : Policy := ⟨⟨.unlimited, .unlimited, .unlimited, .unlimited, 200, 2, 1800, 7200, 3⟩, by decide⟩

/-- A request is under way. -/
def oneActive : Ledger :=
  (((initial twoSlots).reserveLocked ⟨5000, by decide⟩ (.plain .continuous)).map Prod.snd).toOption.getD (initial twoSlots)

/-- The second slot is there to be taken when spacing is over, and not before. -/
theorem idle_iff_oneActive :
    oneActive.admissions.map AdmissionRow.slot = [1] ∧
      (¬ Denied (oneActive.reserveLocked ⟨5200, by decide⟩ (.plain .continuous)) ∧
        ¬ ToldToWait (oneActive.reserveLocked ⟨5200, by decide⟩ (.plain .continuous))) ∧
      ¬ (¬ Denied (oneActive.reserveLocked ⟨5100, by decide⟩ (.plain .continuous)) ∧
        ¬ ToldToWait (oneActive.reserveLocked ⟨5100, by decide⟩ (.plain .continuous))) := by
  have settled : oneActive.NoLockLag := by
    intro session present
    have slots : oneActive.sessions = [⟨0, 1⟩] := rfl
    rw [slots, List.mem_singleton] at present
    subst present
    decide
  refine ⟨rfl, (idle_iff oneActive .continuous ⟨5200, by decide⟩ settled).mp (by decide), ?_⟩
  rw [← idle_iff oneActive .continuous ⟨5100, by decide⟩ settled]
  decide

end Ledger

end OpenLegal.Admission
