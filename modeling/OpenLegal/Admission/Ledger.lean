import OpenLegal.Legal.Domain
import OpenLegal.Rust.Result

/-! # The provider admission ledger

One budget row, one admission row for each outstanding request and one advisory-lock session for each owner
that is still connected. Every operation is a transaction that holds the budget row, so operations happen one
after the other; a transaction that fails changes nothing.
-/

namespace OpenLegal.Admission

open Rust Legal

/-! ## Policy -/

inductive RequestBudgetMode where
  | pilot
  | continuous
  | onDemand
deriving DecidableEq, Repr

/-- The two daily budgets, and the two kinds of waiting. -/
inductive PolicyMode where
  | continuous
  | onDemand
deriving DecidableEq, Repr

def RequestBudgetMode.policy : RequestBudgetMode → PolicyMode
  | .onDemand => .onDemand
  | .pilot | .continuous => .continuous

inductive RequestLimit where
  | limited (value : ℕ)
  | unlimited
deriving DecidableEq, Repr

namespace RequestLimit

def valid : RequestLimit → Bool
  | .limited value => 1 ≤ value && value ≤ 1000000
  | .unlimited => true

def asOption : RequestLimit → Option ℕ
  | .limited value => some value
  | .unlimited => none

end RequestLimit

/-- Operator policy persisted once for every client using the same provider ledger. -/
structure ProviderRequestLimits where
  continuousDailyLimit : RequestLimit
  onDemandDailyLimit : RequestLimit
  pilotAttemptLimit : RequestLimit
  onDemandAttemptLimit : RequestLimit
  intervalMs : ℕ
  maxInFlight : ℕ
  pilotTimeoutSecs : ℕ
  onDemandTimeoutSecs : ℕ
  maxJobAttempts : ℕ
deriving DecidableEq, Repr

namespace ProviderRequestLimits

def valid (limits : ProviderRequestLimits) : Bool :=
  limits.continuousDailyLimit.valid && limits.onDemandDailyLimit.valid && limits.pilotAttemptLimit.valid &&
    limits.onDemandAttemptLimit.valid && (1 ≤ limits.intervalMs && limits.intervalMs ≤ 3600001) &&
    (1 ≤ limits.maxInFlight && limits.maxInFlight ≤ 16) &&
    (60 ≤ limits.pilotTimeoutSecs && limits.pilotTimeoutSecs ≤ 86400) &&
    (60 ≤ limits.onDemandTimeoutSecs && limits.onDemandTimeoutSecs ≤ 86400) &&
    (1 ≤ limits.maxJobAttempts && limits.maxJobAttempts ≤ 10)

def daily (limits : ProviderRequestLimits) : PolicyMode → Option ℕ
  | .continuous => limits.continuousDailyLimit.asOption
  | .onDemand => limits.onDemandDailyLimit.asOption

end ProviderRequestLimits

/-- The policy columns of the budget row, with the checks of their columns. -/
structure Policy where
  limits : ProviderRequestLimits
  checked : limits.valid = true

theorem Policy.interval_le (policy : Policy) : policy.limits.intervalMs ≤ 3600001 := by
  have checked := policy.checked
  simp only [ProviderRequestLimits.valid, Bool.and_eq_true, decide_eq_true_eq] at checked
  omega

theorem Policy.interval_pos (policy : Policy) : 0 < policy.limits.intervalMs := by
  have checked := policy.checked
  simp only [ProviderRequestLimits.valid, Bool.and_eq_true, decide_eq_true_eq] at checked
  omega

/-- A daily limit admits at least one request. -/
theorem Policy.daily_pos (policy : Policy) {mode : PolicyMode} {limit : ℕ} (limited : policy.limits.daily mode = some limit) :
    1 ≤ limit := by
  have checked := policy.checked
  simp only [ProviderRequestLimits.valid, Bool.and_eq_true] at checked
  obtain ⟨⟨⟨⟨⟨⟨⟨⟨continuous, onDemand⟩, -⟩, -⟩, -⟩, -⟩, -⟩, -⟩, -⟩ := checked
  have positive {budget : RequestLimit} (valid : budget.valid = true) (same : budget.asOption = some limit) : 1 ≤ limit := by
    cases budget with
    | limited value =>
      cases same
      simp only [RequestLimit.valid, Bool.and_eq_true, decide_eq_true_eq] at valid
      exact valid.1
    | unlimited => cases same
  cases mode with
  | continuous => exact positive continuous limited
  | onDemand => exact positive onDemand limited

/-! ## Machine integers and the database clock -/

def i64Max : ℕ := 2 ^ 63 - 1

def saturatingMul (value factor : ℤ) : ℤ := max (-2 ^ 63) (min (value * factor) i64Max)

def saturatingSub (first second : ℤ) : ℤ := max (-2 ^ 63) (min (first - second) i64Max)

def saturatingAdd (first second : ℕ) : ℕ := min (first + second) i64Max

def checkedAdd (value extra : ℕ) : Except DatabaseError ℕ :=
  if value + extra > i64Max then .error .storageCorrupt else .ok (value + extra)

/-- Milliseconds of `clock_timestamp()`, which ends with the year 294276. -/
structure Clock where
  ms : ℕ
  ends : ms ≤ 9224318015999999

namespace Clock

def secs (clock : Clock) : ℕ := clock.ms / 1000

def day (clock : Clock) : ℕ := clock.secs / 86400

theorem day_le {first second : Clock} (le : first.ms ≤ second.ms) : first.day ≤ second.day :=
  Nat.div_le_div_right (Nat.div_le_div_right le)

/-- The next request time never saturates. -/
theorem saturatingAdd_interval (clock : Clock) (policy : Policy) :
    saturatingAdd clock.ms policy.limits.intervalMs = clock.ms + policy.limits.intervalMs := by
  have time := clock.ends
  have interval := policy.interval_le
  rw [saturatingAdd, i64Max]
  omega

end Clock

/-! ## Tables -/

abbrev Uuid := ℕ

structure Budget where
  utcDay : ℤ
  dailyUsed : ℕ
  onDemandUsed : ℕ
  pilotUsed : ℕ
  nextAllowedAt : ℤ
  nextRequestAtMs : ℕ
  operatorSuspended : Bool
  unresolvedResponse : Bool
  lastAdmissionMode : Option PolicyMode
  pilotStartedAt : Option ℤ
  pilotDurationSecs : Option ℤ
  policy : Policy

/-- A charged request whose outcome is not settled. -/
structure AdmissionRow where
  owner : Uuid
  slot : ℕ
  mode : RequestBudgetMode
  startedAtMs : ℕ
  explicit : Option (Uuid × ℕ)

/-- A detached connection that holds the advisory lock of a slot. -/
structure Session where
  owner : Uuid
  slot : ℕ
deriving DecidableEq

structure DemandTicket where
  owner : Uuid
  leaseUntil : ℤ
  mode : PolicyMode

inductive RequestStatus where
  | queued
  | launching
  | running
  | done
  | skipped
  | deferred
  | failed
deriving DecidableEq, Repr

structure CollectionRequest where
  id : Uuid
  status : RequestStatus
  expiresAt : ℤ
  launchedAt : Option ℤ
  leaseUntil : Option ℤ

structure Ledger where
  budget : Budget
  held : Bool
  admissions : List AdmissionRow
  sessions : List Session
  tickets : List DemandTicket
  requests : List CollectionRequest
  collectionSchedulerSeenAt : ℤ
  /-- The next value of `uuidv7()`. -/
  uuids : Uuid

namespace Ledger

/-- The ledger as the migrations leave it, under some policy. -/
def initial (policy : Policy) : Ledger where
  budget :=
    { utcDay := -1, dailyUsed := 0, onDemandUsed := 0, pilotUsed := 0, nextAllowedAt := 0, nextRequestAtMs := 0
      operatorSuspended := false, unresolvedResponse := false, lastAdmissionMode := none
      pilotStartedAt := none, pilotDurationSecs := none, policy }
  held := false
  admissions := []
  sessions := []
  tickets := []
  requests := []
  collectionSchedulerSeenAt := 0
  uuids := 0

def slotLocked (ledger : Ledger) (slot : ℕ) : Bool := ledger.sessions.any fun session => session.slot = slot

/-- Live owners hold the locks of their slots; a single abandoned slot makes the count uncertain. -/
def liveOwnerCount (ledger : Ledger) : Option ℕ :=
  if ledger.admissions.all fun row => ledger.slotLocked row.slot then some ledger.admissions.length else none

theorem liveOwnerCount_eq_some {ledger : Ledger} {active : ℕ} (live : ledger.liveOwnerCount = some active) :
    (∀ row ∈ ledger.admissions, ledger.slotLocked row.slot = true) ∧ ledger.admissions.length = active := by
  rw [liveOwnerCount] at live
  split_ifs at live with locked
  exact ⟨List.all_eq_true.mp locked, Option.some.inj live⟩

/-- Someone waits for on-demand admission, with a ticket or with a request that is being launched or is due. -/
def demandWaiting (ledger : Ledger) (now : ℤ) : Bool :=
  (ledger.tickets.any fun ticket => ticket.mode = .onDemand && now < ticket.leaseUntil) ||
    ledger.requests.any fun request => now < request.expiresAt &&
      ((request.status = .launching && request.launchedAt.any fun launched => now - 30 ≤ launched) ||
        ((request.status = .queued || (request.status = .deferred && request.leaseUntil.any fun lease => lease ≤ now)) &&
          now - 30 ≤ ledger.collectionSchedulerSeenAt &&
          (ledger.requests.countP fun other => other.status = .launching || other.status = .running) < 16))

def backgroundWaiting (ledger : Ledger) (now : ℤ) : Bool :=
  ledger.tickets.any fun ticket => ticket.mode = .continuous && now < ticket.leaseUntil

end Ledger

namespace Budget

def used (budget : Budget) : PolicyMode → ℕ
  | .continuous => budget.dailyUsed
  | .onDemand => budget.onDemandUsed

/-- Counts of another day are over. -/
def usedOn (budget : Budget) (day : ℕ) (mode : PolicyMode) : ℕ := if budget.utcDay = day then budget.used mode else 0

/-- `limit.is_some_and(|limit| used >= limit)`. -/
def reached (limit : Option ℕ) (used : ℕ) : Bool := limit.any fun limit => limit ≤ used

def pilotDuration (budget : Budget) : ℤ := budget.pilotDurationSecs.getD budget.policy.limits.pilotTimeoutSecs

def pilotOver (budget : Budget) (now : ℤ) : Bool :=
  reached budget.policy.limits.pilotAttemptLimit.asOption budget.pilotUsed ||
    budget.pilotStartedAt.any fun started => budget.pilotDuration ≤ saturatingSub now started

/-- The first millisecond that neither a pause nor spacing excludes. -/
def next (budget : Budget) : ℤ := max (saturatingMul budget.nextAllowedAt 1000) budget.nextRequestAtMs

end Budget

/-! ## Reservation -/

/-- One attempt to reserve. What is decided outside of the ledger is given: whether the row lock was obtained,
cancellation, the local allowance and the canary. -/
structure Attempt where
  mode : RequestBudgetMode
  localCap : Option ℕ
  ticket : Option Uuid
  explicitOwner : Option (Uuid × ℕ)
  lock : Except DatabaseError Unit
  cancelled : Bool
  canary : Except DatabaseError Unit

/-- An attempt without explicit owner, ticket, local allowance and canary, that is not interrupted. -/
def Attempt.plain (mode : RequestBudgetMode) : Attempt where
  mode
  localCap := none
  ticket := none
  explicitOwner := none
  lock := .ok ()
  cancelled := false
  canary := .ok ()

/-- Delays are in milliseconds. -/
inductive Decision where
  | reserved (owner : Uuid) (slot : ℕ)
  | wait (delay : ℕ)
deriving DecidableEq, Repr

namespace Ledger

/-- The explicit request that a collector works for must still be its own. -/
def authorize (ledger : Ledger) (now : ℤ) : Option (Uuid × ℕ) → Except DatabaseError Unit
  | none => .ok ()
  | some (owner, launchedAt) =>
    if launchedAt > i64Max then .error .invalidInput
    else if ledger.requests.any fun request =>
        request.id = owner && request.launchedAt = some (launchedAt : ℤ) &&
          (request.status = .launching || request.status = .running) &&
          request.leaseUntil.any fun lease => now < lease then .ok ()
    else .error .cancelled

/-- Hold, suspension, uncertain evidence and exhausted budgets deny a reservation. -/
def refused (ledger : Ledger) (mode : RequestBudgetMode) (clock : Clock) : Bool :=
  ledger.held || ledger.budget.operatorSuspended || ledger.budget.unresolvedResponse ||
    Budget.reached (ledger.budget.policy.limits.daily mode.policy) (ledger.budget.usedOn clock.day mode.policy) ||
    (mode = .pilot && ledger.budget.pilotOver clock.secs)

/-- Both modes alternate while both wait and have budget left. -/
def otherTurn (ledger : Ledger) (mode : RequestBudgetMode) (clock : Clock) : Bool :=
  (mode ≠ .onDemand && ledger.budget.lastAdmissionMode ≠ some .onDemand &&
      !Budget.reached (ledger.budget.policy.limits.daily .onDemand) (ledger.budget.usedOn clock.day .onDemand) &&
      ledger.demandWaiting clock.secs) ||
    (mode = .onDemand && ledger.budget.lastAdmissionMode = some .onDemand &&
      !Budget.reached (ledger.budget.policy.limits.daily .continuous) (ledger.budget.usedOn clock.day .continuous) &&
      ledger.backgroundWaiting clock.secs)

/-- The first slot whose lock is free. -/
def freeSlot (ledger : Ledger) : Option ℕ :=
  (List.range' 1 ledger.budget.policy.limits.maxInFlight).find? fun slot => !ledger.slotLocked slot

/-- The counters and the admission row are written together. -/
def charge (ledger : Ledger) (clock : Clock) (attempt : Attempt) (slot : ℕ) :
    Except DatabaseError (Decision × Ledger) := do
  let budget := ledger.budget
  let onDemand := attempt.mode = .onDemand
  let pilot := attempt.mode = .pilot
  let daily ← checkedAdd (budget.usedOn clock.day .continuous) (if onDemand then 0 else 1)
  let demand ← checkedAdd (budget.usedOn clock.day .onDemand) (if onDemand then 1 else 0)
  let pilotUsed ← checkedAdd budget.pilotUsed (if pilot then 1 else 0)
  if attempt.localCap = some 0 then .error .budgetExhausted
  else
    attempt.canary
    if ledger.admissions.any fun row => row.slot = slot then .error .storageUnavailable
    else
      pure (.reserved ledger.uuids slot,
        { ledger with
          budget :=
            { budget with
              utcDay := clock.day
              dailyUsed := daily
              onDemandUsed := demand
              nextRequestAtMs := saturatingAdd clock.ms budget.policy.limits.intervalMs
              lastAdmissionMode := some attempt.mode.policy
              pilotStartedAt := if pilot then budget.pilotStartedAt <|> some (clock.secs : ℤ) else budget.pilotStartedAt
              pilotDurationSecs :=
                if pilot then budget.pilotDurationSecs <|> some (budget.policy.limits.pilotTimeoutSecs : ℤ)
                else budget.pilotDurationSecs
              pilotUsed }
          admissions := ledger.admissions ++ [⟨ledger.uuids, slot, attempt.mode, clock.ms, attempt.explicitOwner⟩]
          sessions := ledger.sessions ++ [⟨ledger.uuids, slot⟩]
          tickets := ledger.tickets.filter fun ticket => ticket.leaseUntil > clock.secs && some ticket.owner ≠ attempt.ticket
          uuids := ledger.uuids + 1 })

/-- Reserve under the shared budget lock; every denied or waiting path leaves the ledger as it is. -/
def reserveLocked (ledger : Ledger) (clock : Clock) (attempt : Attempt) : Except DatabaseError (Decision × Ledger) := do
  attempt.lock
  ledger.authorize clock.secs attempt.explicitOwner
  if ledger.refused attempt.mode clock then .error .budgetExhausted
  else
    match ledger.liveOwnerCount with
    | none => .error .budgetExhausted
    | some active =>
      if active ≥ ledger.budget.policy.limits.maxInFlight then pure (.wait 5000, ledger)
      else if ledger.otherTurn attempt.mode clock then pure (.wait 5000, ledger)
      else if ledger.budget.next > clock.ms then
        if ledger.budget.next - clock.ms > 30000 then .error .budgetExhausted
        else pure (.wait (ledger.budget.next - clock.ms).toNat, ledger)
      else if attempt.ticket.any fun owner =>
          !ledger.tickets.any fun ticket => ticket.owner = owner && ticket.leaseUntil > clock.secs then
        .error .storageUnavailable
      else if attempt.cancelled then .error .cancelled
      else
        match ledger.freeSlot with
        | none => pure (.wait 50, ledger)
        | some slot => ledger.charge clock attempt slot

/-! ## The idle predicate -/

def dailyAvailable (ledger : Ledger) (clock : Clock) (mode : PolicyMode) : Bool :=
  !(ledger.budget.utcDay = clock.day) ||
    (ledger.budget.policy.limits.daily mode).all fun limit => ledger.budget.used mode < limit

/-- Whether a reservation would be made now. -/
def idle (ledger : Ledger) (mode : RequestBudgetMode) (clock : Clock) : Bool :=
  if ledger.held || ledger.budget.operatorSuspended || ledger.budget.unresolvedResponse ||
      (ledger.liveOwnerCount.all fun count => ledger.budget.policy.limits.maxInFlight ≤ count) ||
      ledger.budget.next > clock.ms ||
      !ledger.dailyAvailable clock (if mode = .onDemand then .onDemand else .continuous) then false
  else if mode ≠ .onDemand && ledger.budget.lastAdmissionMode ≠ some .onDemand &&
      ledger.dailyAvailable clock .onDemand && ledger.demandWaiting clock.secs then false
  else if mode = .onDemand && ledger.budget.lastAdmissionMode = some .onDemand &&
      ledger.dailyAvailable clock .continuous && ledger.backgroundWaiting clock.secs then false
  else if mode = .pilot then !ledger.budget.pilotOver clock.secs
  else true

end Ledger

end OpenLegal.Admission
