import OpenLegal.Admission.Ledger
import OpenLegal.Theory.Effects

/-! # A reservation, statement by statement

A reservation is one transaction of many statements, each of which can fail, and beside the durable rows it spends an
allowance that only this process keeps. The transaction undoes its rows when it fails; nothing undoes the allowance.
-/

namespace OpenLegal.Admission

open Rust Legal Theory.Effect
open EStateM (Result)

/-! ## Durable rows and the canary -/

/-- A canary allows a hundred requests until its deadline. Times are in microseconds. -/
structure Canary where
  id : Uuid
  consumed : ℕ
  ended : Bool
  deadline : ℤ
  lastObserved : ℤ

structure Store where
  ledger : Ledger
  requiredCanary : Option Uuid
  canaries : List Canary

/-- `canary_consume`: the deadline of the required canary, and the canaries after this use. Its errors are as the caller
maps them: only an exhausted canary exhausts the budget. -/
def Store.canaryConsume (store : Store) (operation : Option Uuid) (stamp : ℤ) :
    Except DatabaseError (Option ℤ × List Canary) :=
  match store.requiredCanary, operation with
  | none, none => .ok (none, store.canaries)
  | some required, some id =>
    if required ≠ id then .error .storageUnavailable
    else
      match store.canaries.find? fun canary => canary.id = id with
      | none => .error .storageUnavailable
      | some canary =>
        if canary.ended || canary.consumed ≥ 100 || stamp ≥ canary.deadline then .error .budgetExhausted
        else if stamp < canary.lastObserved then .error .storageUnavailable
        else .ok (some canary.deadline, store.canaries.map fun other =>
          if other.id = id then { other with consumed := other.consumed + 1, lastObserved := stamp } else other)
  | _, _ => .error .storageUnavailable

/-! ## What a reservation is given -/

structure Call where
  mode : RequestBudgetMode
  ticket : Option Uuid
  explicitOwner : Option (Uuid × ℕ)
  canaryOperation : Option Uuid
  /-- Whether a reservation observer is given. -/
  observer : Bool

inductive Statement where
  | beginTransaction
  | lockBudget
  | clock
  | authorize
  | providerHeld
  | observeUncertainty
  | liveOwners
  | expireTickets
  | demandWaiting
  | backgroundWaiting
  | liveTicket
  | slots
  | owner
  | canaryConsume
  | updateBudget
  | insertAdmission
  | deleteTicket
  | notify
deriving DecidableEq, Repr

/-- How a `COMMIT` ends. One that is not acknowledged may have been applied. -/
structure CommitOutcome where
  applied : Bool
  failure : Option DatabaseError

/-- What the surroundings decide in one transaction: which statements fail, what the clocks show, whether the caller
has cancelled before slots are tried, and how the `COMMIT` ends. A column that cannot be decoded fails with its query. -/
structure Round where
  fault : Statement → Option DatabaseError
  clock : Clock
  cancelled : Bool
  canaryStamp : ℤ
  canaryReading : ℤ
  commit : CommitOutcome

/-- The state of a transaction: the rows as it sees them, the allowance of the process, and what it reports. -/
structure Txn where
  store : Store
  cap : Option ℕ
  observed : Bool
  submitted : Bool
  committed : Bool

abbrev Step := EStateM DatabaseError Txn

namespace Round

def run (round : Round) (statement : Statement) : Step Unit := fun txn =>
  match round.fault statement with
  | none => .ok () txn
  | some error => .error error txn

def commitBudget (round : Round) : Step Unit := fun txn =>
  match round.commit.failure with
  | none => .ok () { txn with committed := round.commit.applied }
  | some error => .error error { txn with committed := round.commit.applied }

end Round

def failWith {α : Type} (error : DatabaseError) : Step α := fun txn => .error error txn

def liftExcept {α : Type} (value : Except DatabaseError α) : Step α := fun txn =>
  match value with
  | .ok a => .ok a txn
  | .error error => .error error txn

def modifyStore (f : Store → Store) : Step Unit := fun txn => .ok () { txn with store := f txn.store }

/-- Reads the rows of the transaction. -/
def withLedger {α : Type} (body : Ledger → Step α) : Step α := fun txn => body txn.store.ledger txn

/-! ## Checks -/

/-- What the checks decide. Delays are in milliseconds. -/
inductive Turn where
  | wait (delay : ℕ)
  | take (slot : ℕ)
deriving DecidableEq

/-- First-observation evidence is committed with a refusal. -/
def refuse {α : Type} (round : Round) : Step α := do
  round.run .observeUncertainty
  round.commitBudget
  failWith .budgetExhausted

def authorizeOwner (call : Call) (round : Round) (next : Step Turn) : Step Turn :=
  match call.explicitOwner with
  | none => next
  | some (owner, launchedAt) =>
    if launchedAt > i64Max then failWith .invalidInput
    else do
      round.run .authorize
      withLedger fun ledger => liftExcept (ledger.authorize round.clock.secs (some (owner, launchedAt)))
      next

def checkRefusal (call : Call) (round : Round) (next : Step Turn) : Step Turn := do
  round.run .providerHeld
  withLedger fun ledger =>
    if ledger.refused call.mode round.clock then refuse round
    else do
      round.run .liveOwners
      match ledger.liveOwnerCount with
      | none => refuse round
      | some active => if active ≥ ledger.budget.policy.limits.maxInFlight then pure (.wait 5000) else next

def Ledger.expireTickets (ledger : Ledger) (clock : Clock) : Ledger :=
  { ledger with tickets := ledger.tickets.filter fun ticket => ticket.leaseUntil > clock.secs }

/-- The other mode may go first if it has budget left and was not last. -/
def Ledger.yieldsTo (ledger : Ledger) (mode : RequestBudgetMode) (clock : Clock) : Option PolicyMode :=
  if mode ≠ .onDemand && ledger.budget.lastAdmissionMode ≠ some .onDemand &&
      !Budget.reached (ledger.budget.policy.limits.daily .onDemand) (ledger.budget.usedOn clock.day .onDemand) then
    some .onDemand
  else if mode = .onDemand && ledger.budget.lastAdmissionMode = some .onDemand &&
      !Budget.reached (ledger.budget.policy.limits.daily .continuous) (ledger.budget.usedOn clock.day .continuous) then
    some .continuous
  else none

def checkTurn (call : Call) (round : Round) (next : Step Turn) : Step Turn := do
  round.run .expireTickets
  modifyStore fun store => { store with ledger := store.ledger.expireTickets round.clock }
  withLedger fun ledger =>
    match ledger.yieldsTo call.mode round.clock with
    | some .onDemand => do
      round.run .demandWaiting
      if ledger.demandWaiting round.clock.secs then pure (.wait 5000) else next
    | some .continuous => do
      round.run .backgroundWaiting
      if ledger.backgroundWaiting round.clock.secs then pure (.wait 5000) else next
    | none => next

def checkDue (round : Round) (next : Step Turn) : Step Turn :=
  withLedger fun ledger =>
    if ledger.budget.next > round.clock.ms then
      if ledger.budget.next - round.clock.ms > 30000 then failWith .budgetExhausted
      else pure (.wait (ledger.budget.next - round.clock.ms).toNat)
    else next

def Ledger.ticketLive (ledger : Ledger) (clock : Clock) (owner : Uuid) : Bool :=
  ledger.tickets.any fun ticket => ticket.owner = owner && ticket.leaseUntil > clock.secs

def checkTicket (call : Call) (round : Round) (next : Step Turn) : Step Turn :=
  match call.ticket with
  | none => next
  | some owner => do
    round.run .liveTicket
    withLedger fun ledger => if ledger.ticketLive round.clock owner then next else failWith .storageUnavailable

def takeSlot (round : Round) : Step Turn :=
  if round.cancelled then failWith .cancelled
  else do
    round.run .slots
    withLedger fun ledger =>
      match ledger.freeSlot with
      | none => pure (.wait 50)
      | some slot => do
        round.run .owner
        pure (.take slot)

/-- Everything before the first change that would have to be undone. -/
def checkReservation (call : Call) (round : Round) : Step Turn := do
  round.run .beginTransaction
  round.run .lockBudget
  round.run .clock
  authorizeOwner call round <| checkRefusal call round <| checkTurn call round <| checkDue round <|
    checkTicket call round <| takeSlot round

/-! ## Changes -/

structure Counters where
  daily : ℕ
  onDemand : ℕ
  pilotUsed : ℕ

/-- The counters after this request, validated before the allowance is spent. -/
def Ledger.counters (ledger : Ledger) (clock : Clock) (mode : RequestBudgetMode) : Except DatabaseError Counters := do
  let daily ← checkedAdd (ledger.budget.usedOn clock.day .continuous) (if mode = .onDemand then 0 else 1)
  let onDemand ← checkedAdd (ledger.budget.usedOn clock.day .onDemand) (if mode = .onDemand then 1 else 0)
  let pilotUsed ← checkedAdd ledger.budget.pilotUsed (if mode = .pilot then 1 else 0)
  pure ⟨daily, onDemand, pilotUsed⟩

/-- The allowance of the process. -/
def spendAllowance : Step Unit := fun txn =>
  match txn.cap with
  | none => .ok () txn
  | some 0 => .error .budgetExhausted txn
  | some (left + 1) => .ok () { txn with cap := some left }

/-- Six hours. -/
def longestCanary : ℤ := 21600 * 1000000

def Txn.withCanaries (txn : Txn) (canaries : List Canary) : Txn := { txn with store := { txn.store with canaries } }

/-- The time until the deadline of the canary, if there is one. -/
def useCanary (call : Call) (round : Round) : Step (Option ℤ) := fun txn =>
  match txn.store.canaryConsume call.canaryOperation round.canaryStamp with
  | .error error => .error error txn
  | .ok (deadline, canaries) =>
    let seconds := deadline.map fun time => time - round.canaryReading
    if seconds.any fun left => left < 0 || left > longestCanary then
      .error .budgetExhausted (txn.withCanaries canaries)
    else .ok seconds (txn.withCanaries canaries)

def Ledger.update (ledger : Ledger) (clock : Clock) (mode : RequestBudgetMode) (counters : Counters) : Ledger :=
  { ledger with
    budget :=
      { ledger.budget with
        utcDay := clock.day
        dailyUsed := counters.daily
        onDemandUsed := counters.onDemand
        nextRequestAtMs := saturatingAdd clock.ms ledger.budget.policy.limits.intervalMs
        lastAdmissionMode := some mode.policy
        pilotStartedAt :=
          if mode = .pilot then ledger.budget.pilotStartedAt <|> some (clock.secs : ℤ) else ledger.budget.pilotStartedAt
        pilotDurationSecs :=
          if mode = .pilot then ledger.budget.pilotDurationSecs <|> some (ledger.budget.policy.limits.pilotTimeoutSecs : ℤ)
          else ledger.budget.pilotDurationSecs
        pilotUsed := counters.pilotUsed } }

/-- The admission row of the new owner, whose connection holds the lock of the slot. -/
def Ledger.addAdmission (ledger : Ledger) (clock : Clock) (call : Call) (slot : ℕ) : Ledger :=
  { ledger with
    admissions := ledger.admissions ++ [⟨ledger.uuids, slot, call.mode, clock.ms, call.explicitOwner⟩]
    sessions := ledger.sessions ++ [⟨ledger.uuids, slot⟩]
    uuids := ledger.uuids + 1 }

def Ledger.closeTicket (ledger : Ledger) (owner : Uuid) : Ledger :=
  { ledger with tickets := ledger.tickets.filter fun ticket => ticket.owner ≠ owner }

def insertAdmission (call : Call) (round : Round) (slot : ℕ) : Step Unit := do
  round.run .insertAdmission
  withLedger fun ledger =>
    if ledger.admissions.any fun row => row.slot = slot then failWith .storageUnavailable
    else modifyStore fun store => { store with ledger := store.ledger.addAdmission round.clock call slot }

def deleteTicket (call : Call) (round : Round) : Step Unit :=
  match call.ticket with
  | none => pure ()
  | some owner => do
    round.run .deleteTicket
    modifyStore fun store => { store with ledger := store.ledger.closeTicket owner }

/-- Everything between the allowance and the `COMMIT`. -/
def writeReservation (call : Call) (round : Round) (counters : Counters) (slot : ℕ) : Step (Option ℤ) := do
  round.run .canaryConsume
  let dispatch ← useCanary call round
  round.run .updateBudget
  modifyStore fun store => { store with ledger := store.ledger.update round.clock call.mode counters }
  insertAdmission call round slot
  deleteTicket call round
  round.run .notify
  pure dispatch

/-- From here on the reservation may be charged whatever is acknowledged. -/
def markSubmitted (call : Call) : Step Unit := fun txn =>
  .ok () { txn with observed := txn.observed || call.observer, submitted := true }

def submitReservation (call : Call) (round : Round) : Step Unit := do
  markSubmitted call
  round.commitBudget

inductive RoundDecision where
  /-- The time until the deadline of the canary is in microseconds. -/
  | reserved (owner : Uuid) (slot : ℕ) (dispatch : Option ℤ)
  | wait (delay : ℕ)
deriving DecidableEq

/-- Canary, rows and `COMMIT`, with the allowance spent. -/
def finishReservation (call : Call) (round : Round) (owner : Uuid) (counters : Counters) (slot : ℕ) : Step RoundDecision := do
  let dispatch ← writeReservation call round counters slot
  submitReservation call round
  pure (.reserved owner slot dispatch)

/-- Everything behind the checks. -/
def reserveSlot (call : Call) (round : Round) (slot : ℕ) : Step RoundDecision := do
  let owner ← withLedger fun ledger => pure ledger.uuids
  let counters ← withLedger fun ledger => liftExcept (ledger.counters round.clock call.mode)
  spendAllowance
  finishReservation call round owner counters slot

/-- What follows the checks. -/
def followTurn (call : Call) (round : Round) : Turn → Step RoundDecision
  | .wait delay => pure (.wait delay)
  | .take slot => reserveSlot call round slot

def reserveLockedWithCanary (call : Call) (round : Round) : Step RoundDecision := do
  let turn ← checkReservation call round
  followTurn call round turn

attribute [grind =] Round.run Round.commitBudget modifyStore withLedger checkReservation spendAllowance useCanary insertAdmission
  deleteTicket writeReservation markSubmitted submitReservation finishReservation reserveSlot followTurn reserveLockedWithCanary

/-! ## A call -/

/-- What a reservation can change: durable rows, and the allowance of the process. Only reservations spend the
allowance, and they do so while they hold the budget row. -/
structure World where
  store : Store
  cap : Option ℕ

structure RoundEnd where
  decision : Except DatabaseError RoundDecision
  world : World
  observed : Bool
  submitted : Bool

/-- One transaction; without a `COMMIT` that was applied it is rolled back, and its connection gives up the slot. -/
def attempt (call : Call) (round : Round) (world : World) : RoundEnd :=
  let result := reserveLockedWithCanary call round ⟨world.store, world.cap, false, false, false⟩
  let txn := stateOf result
  { decision := resultOf result
    world := ⟨if txn.committed then txn.store else world.store, txn.cap⟩
    observed := txn.observed
    submitted := txn.submitted }

/-- What the surroundings decide in one iteration, beginning with what others did before it. -/
structure Iteration where
  others : World → World
  cancelled : Bool
  ticketFailed : Bool
  acquire : Option DatabaseError
  round : Round
  /-- Closing the connection of a round that waits, and waiting for a change. -/
  close : Option DatabaseError
  waitChange : Option DatabaseError
  /-- The fence and the dispatch deadline of a reservation that was acknowledged. -/
  fence : Option DatabaseError

/-- A guard: its owner, its slot and the time until the deadline of the canary. -/
abbrev Guard := Uuid × ℕ × Option ℤ

namespace Iteration

/-- What ends a call before the transaction of an iteration. -/
def stop (iteration : Iteration) : Option DatabaseError :=
  if iteration.cancelled then some .cancelled
  else if iteration.ticketFailed then some .storageUnavailable
  else iteration.acquire

/-- How a call ends after the transaction of an iteration, if it does. -/
def finish (iteration : Iteration) : Except DatabaseError RoundDecision → Option (Except DatabaseError Guard)
  | .error error => some (.error error)
  | .ok (.reserved owner slot dispatch) =>
    match iteration.fence with
    | none => some (.ok (owner, slot, dispatch))
    | some error => some (.error error)
  | .ok (.wait _) => (iteration.close <|> iteration.waitChange).map .error

end Iteration

/-- How a call ends, `none` while it goes on, and what its own transactions did to the world. -/
structure Execution where
  result : Option (Except DatabaseError Guard)
  world : World
  observed : Bool
  submitted : Bool
  transactions : List (World × World)

/-- A call that ends without a transaction of its own. -/
def Execution.stopped (error : DatabaseError) (world : World) : Execution := ⟨some (.error error), world, false, false, []⟩

def reserveLoop (call : Call) : List Iteration → World → Execution
  | [], world => ⟨none, world, false, false, []⟩
  | iteration :: iterations, before =>
    let world := iteration.others before
    match iteration.stop with
    | some error => .stopped error world
    | none =>
      let ended := attempt call iteration.round world
      match iteration.finish ended.decision with
      | some result => ⟨some result, ended.world, ended.observed, ended.submitted, [(world, ended.world)]⟩
      | none =>
        let rest := reserveLoop call iterations ended.world
        { rest with
          observed := ended.observed || rest.observed
          submitted := ended.submitted || rest.submitted
          transactions := (world, ended.world) :: rest.transactions }

/-- What the surroundings decide before the loop. -/
structure Preparation where
  cancelled : Bool
  replicationRequired : Except DatabaseError Bool
  durability : Bool
  /-- The ticket that the call opens for itself if it is given none. -/
  owner : Uuid
  clock : Clock
  openFault : Option DatabaseError
  openCommit : CommitOutcome

/-- `ForegroundTicket::open_mode`: thirty seconds, and at most 128 live tickets. -/
def Ledger.openTicket (ledger : Ledger) (clock : Clock) (owner : Uuid) (mode : PolicyMode) : Except DatabaseError Ledger :=
  let live := ledger.expireTickets clock
  if live.tickets.length ≥ 128 then .error .capacity
  else .ok { live with tickets := live.tickets ++ [⟨owner, clock.secs + 30, mode⟩] }

/-- A call that may enter the loop, with the world as it left it. -/
structure Prepared where
  call : Call
  world : World
  transactions : List (World × World)

/-- Everything before the loop. -/
def prepareReservation (call : Call) (preparation : Preparation) (world : World) : Except Execution Prepared :=
  if preparation.cancelled then .error (.stopped .cancelled world)
  else
    match preparation.replicationRequired with
    | .error error => .error (.stopped error world)
    | .ok required =>
      if required && !preparation.durability then .error (.stopped .storageUnavailable world)
      else if call.ticket.isSome then .ok ⟨call, world, []⟩
      else
        match preparation.openFault with
        | some error => .error (.stopped error world)
        | none =>
          match world.store.ledger.openTicket preparation.clock preparation.owner call.mode.policy with
          | .error error => .error (.stopped error world)
          | .ok ledger =>
            let opened : World :=
              if preparation.openCommit.applied then { world with store := { world.store with ledger } } else world
            match preparation.openCommit.failure with
            | some error => .error ⟨some (.error error), opened, false, false, [(world, opened)]⟩
            | none => .ok ⟨{ call with ticket := some preparation.owner }, opened, [(world, opened)]⟩

def reserve (call : Call) (preparation : Preparation) (iterations : List Iteration) (world : World) : Execution :=
  match prepareReservation call preparation world with
  | .error execution => execution
  | .ok prepared =>
    let rest := reserveLoop prepared.call iterations prepared.world
    { rest with transactions := prepared.transactions ++ rest.transactions }

end OpenLegal.Admission
