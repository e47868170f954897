import OpenLegal.Admission.Ledger

/-! # Operations on the admission ledger

Settlement, suspension and loss of an owner, the operator's policy and recovery, and runs of all of them under
the database clock.
-/

namespace OpenLegal.Admission

open Rust Legal

/-! ## Owners -/

namespace Ledger

/-- `DELETE FROM provider_request_admission WHERE owner=$1`. -/
def deleteOwner (ledger : Ledger) (owner : Uuid) : List AdmissionRow := ledger.admissions.filter fun row => row.owner ≠ owner

/-- A `Retry-After` delay in seconds, as it is stored. -/
def clampDelay (delay : ℕ) : ℕ := min delay (i64Max / 4)

/-- Settle only this response; a delay pauses all of them. The owner's own connection carries the transaction. -/
def settle (ledger : Ledger) (clock : Clock) (owner : Uuid) (delay : Option ℕ) : Except DatabaseError Ledger :=
  if !ledger.sessions.any fun session => session.owner = owner then .error .conflict
  else if (ledger.admissions.countP fun row => row.owner = owner) ≠ 1 then .error .conflict
  else
    let settled := { ledger with admissions := ledger.deleteOwner owner }
    match delay with
    | none => .ok settled
    | some delay => .ok { settled with
        budget :=
          { ledger.budget with
            nextAllowedAt := max ledger.budget.nextAllowedAt (clock.secs + clampDelay delay)
            operatorSuspended := ledger.budget.operatorSuspended || clampDelay delay > 7 * 86400 } }

/-- A rejection suspends the provider, whether or not its response was settled before. -/
def suspendOwnedResponse (ledger : Ledger) (owner : Uuid) : Ledger :=
  { ledger with
    budget := { ledger.budget with operatorSuspended := true }
    admissions := ledger.deleteOwner owner }

/-- The owner's connection ends: after its settlement, or when it is dropped or lost before. -/
def disconnect (ledger : Ledger) (owner : Uuid) : Ledger :=
  { ledger with sessions := ledger.sessions.filter fun session => session.owner ≠ owner }

/-! ## Operators -/

/-- Change admission policy without resetting attempts or clearing provider evidence. -/
def configureProviderRequestLimits (ledger : Ledger) (limits : ProviderRequestLimits) : Except DatabaseError Ledger :=
  if checked : limits.valid = true then .ok { ledger with budget := { ledger.budget with policy := ⟨limits, checked⟩ } }
  else .error .invalidInput

/-- Start one durable pilot window, or resume the original one. -/
def beginPilot (ledger : Ledger) (clock : Clock) : Ledger :=
  { ledger with
    budget :=
      { ledger.budget with
        pilotStartedAt := some (ledger.budget.pilotStartedAt.getD clock.secs)
        pilotDurationSecs := some ledger.budget.pilotDuration } }

/-- A recovery plan, and whether its form, its timing and its reviewed waits are accepted. -/
structure RecoveryPlan where
  resolveLegacy : Bool
  owners : List Uuid
  resume : Bool
  accepted : Bool

/-- Offline recovery resolves the entire ledger, and only while no owner is connected. -/
def providerApply (ledger : Ledger) (plan : RecoveryPlan) : Except DatabaseError Ledger :=
  if !plan.accepted || !ledger.sessions.isEmpty then .error .conflict
  else if plan.resolveLegacy ≠ ledger.budget.unresolvedResponse then .error .conflict
  else if !plan.owners.isPerm (ledger.admissions.map AdmissionRow.owner) then .error .conflict
  else if !ledger.budget.unresolvedResponse && plan.owners.isEmpty && !ledger.held then .error .invalidInput
  else .ok { ledger with
    budget := { ledger.budget with unresolvedResponse := ledger.budget.unresolvedResponse && !plan.resolveLegacy }
    admissions := ledger.admissions.filter fun row => row.owner ∉ plan.owners
    held := !plan.resume }

/-! ## Runs -/

end Ledger

inductive Action where
  | reserve (attempt : Attempt)
  | settle (owner : Uuid) (delay : Option ℕ)
  | suspend (owner : Uuid)
  | disconnect (owner : Uuid)
  /-- Tickets are opened, renewed and dropped, and requests are queued and launched. -/
  | demand (tickets : List DemandTicket) (requests : List CollectionRequest) (collectionSchedulerSeenAt : ℤ)
  | beginPilot
  | configure (limits : ProviderRequestLimits)
  | recover (plan : Ledger.RecoveryPlan)
  /-- The operator's own statements: pause, suspension and hold. -/
  | operate (nextAllowedAt : ℤ) (operatorSuspended held : Bool)

/-- Actions that the operator takes. -/
def Action.isOperator : Action → Bool
  | .configure _ | .recover _ | .operate .. => true
  | _ => false

namespace Ledger

def perform (ledger : Ledger) (clock : Clock) : Action → Except DatabaseError Ledger
  | .reserve attempt => do
    let (_, next) ← ledger.reserveLocked clock attempt
    pure next
  | .settle owner delay => ledger.settle clock owner delay
  | .suspend owner => .ok (ledger.suspendOwnedResponse owner)
  | .disconnect owner => .ok (ledger.disconnect owner)
  | .demand tickets requests collectionSchedulerSeenAt => .ok { ledger with tickets, requests, collectionSchedulerSeenAt }
  | .beginPilot => .ok (ledger.beginPilot clock)
  | .configure limits => ledger.configureProviderRequestLimits limits
  | .recover plan => ledger.providerApply plan
  | .operate nextAllowedAt operatorSuspended held =>
    .ok { ledger with budget := { ledger.budget with nextAllowedAt, operatorSuspended }, held }

/-- A failed transaction is rolled back. -/
def step (ledger : Ledger) (entry : Clock × Action) : Ledger := (ledger.perform entry.1 entry.2).toOption.getD ledger

def run (ledger : Ledger) (entries : List (Clock × Action)) : Ledger := entries.foldl step ledger

/-- A reservation with the policy in force and the number of admissions after it. -/
structure Reservation where
  owner : Uuid
  slot : ℕ
  mode : RequestBudgetMode
  clock : Clock
  policy : Policy
  live : ℕ

/-- The reservation that an action makes, if any. -/
def reservation (ledger : Ledger) (clock : Clock) : Action → Option Reservation
  | .reserve attempt =>
    match ledger.reserveLocked clock attempt with
    | .ok (.reserved owner slot, next) =>
      some ⟨owner, slot, attempt.mode, clock, ledger.budget.policy, next.admissions.length⟩
    | _ => none
  | _ => none

/-- All reservations of a run, in order. -/
def reservations : Ledger → List (Clock × Action) → List Reservation
  | _, [] => []
  | ledger, entry :: entries =>
    (ledger.reservation entry.1 entry.2).toList ++ reservations (ledger.step entry) entries

end Ledger

end OpenLegal.Admission
