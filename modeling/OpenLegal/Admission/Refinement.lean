import OpenLegal.Admission.Actions
import OpenLegal.Admission.Allowance

/-! # A reservation as one step

A transaction in which no statement fails does in many steps what the ledger does in one. What is proved of runs of the
ledger therefore holds of these transactions.
-/

namespace OpenLegal.Admission

open Rust Legal Theory.Effect
open EStateM (Result)

/-! ## The attempt of a transaction -/

/-- The attempt that a transaction makes, with the answer of the canary. -/
def Call.attempt (call : Call) (round : Round) (world : World) : Attempt where
  mode := call.mode
  localCap := world.cap
  ticket := call.ticket
  explicitOwner := call.explicitOwner
  lock := .ok ()
  cancelled := round.cancelled
  canary := (resultOf (useCanary call round world.begin)).map fun _ => ()

/-- The deadline of the canary is not a matter of the ledger. -/
def RoundDecision.forget : RoundDecision → Decision
  | .reserved owner slot _ => .reserved owner slot
  | .wait delay => .wait delay

/-- No statement fails, and the `COMMIT` is acknowledged. -/
structure Round.Quiet (round : Round) : Prop where
  statements : ∀ statement, round.fault statement = none
  commit : round.commit = ⟨true, none⟩

/-- A transaction ends as the attempt does. -/
structure Agrees (before : Ledger) (result : Result DatabaseError Txn RoundDecision)
    (atomic : Except DatabaseError (Decision × Ledger)) : Prop where
  decision : (resultOf result).map RoundDecision.forget = atomic.map Prod.fst
  ledger : (if (stateOf result).committed then (stateOf result).store.ledger else before) =
    (atomic.map Prod.snd).toOption.getD before

section Checks

variable {call : Call} {round : Round} {next : Step Turn} {txn : Txn}

theorem run_bind_of_quiet {α : Type} (quiet : round.Quiet) (statement : Statement) (f : Unit → Step α) :
    (round.run statement >>= f) txn = f () txn := by
  rw [bind_eq, Round.run, quiet.statements]

theorem refuse_of_quiet {α : Type} (quiet : round.Quiet) :
    (refuse round : Step α) txn = .error .budgetExhausted { txn with committed := true } := by
  rw [refuse, run_bind_of_quiet quiet, bind_eq, Round.commitBudget, quiet.commit]
  rfl

theorem authorizeOwner_of_quiet (quiet : round.Quiet) : authorizeOwner call round next txn =
    match txn.store.ledger.authorize round.clock.secs call.explicitOwner with
    | .ok _ => next txn
    | .error error => .error error txn := by
  rw [authorizeOwner]
  cases call.explicitOwner with
  | none => rfl
  | some owner =>
    dsimp only
    by_cases large : owner.2 > i64Max
    · simp only [if_pos large, Ledger.authorize]
      rfl
    · rw [if_neg large, run_bind_of_quiet quiet, bind_eq, withLedger]
      cases txn.store.ledger.authorize round.clock.secs (some (owner.1, owner.2)) with
      | ok _ => rfl
      | error error => rfl

theorem checkRefusal_of_quiet (quiet : round.Quiet) : checkRefusal call round next txn =
    if txn.store.ledger.refused call.mode round.clock then .error .budgetExhausted { txn with committed := true }
    else
      match txn.store.ledger.liveOwnerCount with
      | none => .error .budgetExhausted { txn with committed := true }
      | some active =>
        if active ≥ txn.store.ledger.budget.policy.limits.maxInFlight then .ok (.wait 5000) txn else next txn := by
  rw [checkRefusal, run_bind_of_quiet quiet, withLedger]
  by_cases refused : txn.store.ledger.refused call.mode round.clock = true
  · rw [if_pos refused, if_pos refused, refuse_of_quiet quiet]
  · rw [if_neg refused, if_neg refused, run_bind_of_quiet quiet]
    cases txn.store.ledger.liveOwnerCount with
    | none => exact refuse_of_quiet quiet
    | some active =>
      dsimp only
      split <;> rfl

theorem otherTurn_eq (ledger : Ledger) (mode : RequestBudgetMode) (clock : Clock) : ledger.otherTurn mode clock =
    match ledger.yieldsTo mode clock with
    | some .onDemand => ledger.demandWaiting clock.secs
    | some .continuous => ledger.backgroundWaiting clock.secs
    | none => false := by
  rw [Ledger.otherTurn, Ledger.yieldsTo]
  cases mode <;> simp <;> split_ifs <;> simp_all

theorem checkTurn_of_quiet (quiet : round.Quiet) : checkTurn call round next txn =
    if txn.store.ledger.otherTurn call.mode round.clock then .ok (.wait 5000) (txn.expired round.clock)
    else next (txn.expired round.clock) := by
  rw [checkTurn, run_bind_of_quiet quiet, bind_eq, modifyStore, otherTurn_eq]
  dsimp only [withLedger]
  have same : (txn.store.ledger.expireTickets round.clock).yieldsTo call.mode round.clock =
      txn.store.ledger.yieldsTo call.mode round.clock := rfl
  rw [same]
  cases txn.store.ledger.yieldsTo call.mode round.clock with
  | none => rfl
  | some other =>
    cases other with
    | onDemand =>
      dsimp only
      rw [run_bind_of_quiet quiet, demandWaiting_expireTickets]
      split <;> rfl
    | continuous =>
      dsimp only
      rw [run_bind_of_quiet quiet, backgroundWaiting_expireTickets]
      split <;> rfl

theorem checkTicket_of_quiet (quiet : round.Quiet) : checkTicket call round next txn =
    if call.ticket.any fun owner => !txn.store.ledger.ticketLive round.clock owner then .error .storageUnavailable txn
    else next txn := by
  rw [checkTicket]
  cases call.ticket with
  | none => rfl
  | some owner =>
    dsimp only
    rw [run_bind_of_quiet quiet, withLedger, Option.any_some]
    cases txn.store.ledger.ticketLive round.clock owner <;> rfl

theorem takeSlot_of_quiet (quiet : round.Quiet) : takeSlot round txn =
    if round.cancelled then .error .cancelled txn
    else
      match txn.store.ledger.freeSlot with
      | none => .ok (.wait 50) txn
      | some slot => .ok (.take slot) txn := by
  rw [takeSlot]
  cases round.cancelled with
  | true => rfl
  | false =>
    rw [if_neg Bool.false_ne_true, if_neg Bool.false_ne_true, run_bind_of_quiet quiet, withLedger]
    cases txn.store.ledger.freeSlot with
    | none => rfl
    | some slot => exact run_bind_of_quiet quiet _ _

end Checks

section Charge

variable {call : Call} {round : Round} {world : World} {slot : ℕ} {txn : Txn} {counters : Counters}

/-- The ledger without the ticket of a call. -/
def Ledger.closeOwn (ledger : Ledger) (call : Call) : Ledger :=
  match call.ticket with
  | none => ledger
  | some owner => ledger.closeTicket owner

def Txn.withRows (txn : Txn) (ledger : Ledger) : Txn := { txn with store := { txn.store with ledger } }

theorem insertAdmission_of_quiet (quiet : round.Quiet) : insertAdmission call round slot txn =
    if txn.store.ledger.admissions.any fun row => row.slot = slot then .error .storageUnavailable txn
    else .ok () (txn.withRows (txn.store.ledger.addAdmission round.clock call slot)) := by
  rw [insertAdmission, run_bind_of_quiet quiet, withLedger]
  split <;> rfl

theorem deleteTicket_of_quiet (quiet : round.Quiet) : deleteTicket call round txn =
    .ok () (txn.withRows (txn.store.ledger.closeOwn call)) := by
  rw [deleteTicket, Ledger.closeOwn]
  cases call.ticket with
  | none => rfl
  | some owner => exact run_bind_of_quiet quiet _ _

/-- The ledger after the rows of a reservation are written. -/
def Ledger.reserved (ledger : Ledger) (clock : Clock) (call : Call) (counters : Counters) (slot : ℕ) : Ledger :=
  ((ledger.update clock call.mode counters).addAdmission clock call slot).closeOwn call

/-- Expired tickets and the own ticket are removed, by two statements or by one. -/
theorem reserved_expireTickets (ledger : Ledger) (clock : Clock) (counters : Counters) :
    (ledger.expireTickets clock).reserved clock call counters slot =
      { ledger.update clock call.mode counters with
        admissions := ledger.admissions ++ [⟨ledger.uuids, slot, call.mode, clock.ms, call.explicitOwner⟩]
        sessions := ledger.sessions ++ [⟨ledger.uuids, slot⟩]
        tickets := ledger.tickets.filter fun ticket => ticket.leaseUntil > clock.secs && some ticket.owner ≠ call.ticket
        uuids := ledger.uuids + 1 } := by
  rw [Ledger.reserved, Ledger.closeOwn]
  cases call.ticket with
  | none => simp [Ledger.addAdmission, Ledger.update, Ledger.expireTickets]
  | some owner =>
    simp [Ledger.closeTicket, Ledger.addAdmission, Ledger.update, Ledger.expireTickets, List.filter_filter, Bool.and_comm]

/-- The charge of the ledger, in the order in which a transaction makes it. -/
theorem charge_eq (ledger : Ledger) (clock : Clock) (attempt : Attempt) (slot : ℕ) :
    ledger.charge clock attempt slot =
      match ledger.counters clock attempt.mode with
      | .error error => .error error
      | .ok counters =>
        if attempt.localCap = some 0 then .error .budgetExhausted
        else
          match attempt.canary with
          | .error error => .error error
          | .ok _ =>
            if ledger.admissions.any fun row => row.slot = slot then .error .storageUnavailable
            else
              .ok (.reserved ledger.uuids slot,
                { ledger.update clock attempt.mode counters with
                  admissions := ledger.admissions ++ [⟨ledger.uuids, slot, attempt.mode, clock.ms, attempt.explicitOwner⟩]
                  sessions := ledger.sessions ++ [⟨ledger.uuids, slot⟩]
                  tickets := ledger.tickets.filter fun ticket =>
                    ticket.leaseUntil > clock.secs && some ticket.owner ≠ attempt.ticket
                  uuids := ledger.uuids + 1 }) := by
  rw [Ledger.charge, Ledger.counters]
  cases checkedAdd (ledger.budget.usedOn clock.day .continuous) (if attempt.mode = .onDemand then 0 else 1) with
  | error error => rfl
  | ok daily =>
    cases checkedAdd (ledger.budget.usedOn clock.day .onDemand) (if attempt.mode = .onDemand then 1 else 0) with
    | error error => rfl
    | ok onDemand =>
      cases checkedAdd ledger.budget.pilotUsed (if attempt.mode = .pilot then 1 else 0) with
      | error error => rfl
      | ok pilotUsed =>
        cases attempt.canary with
        | error error => rfl
        | ok _ => rfl

theorem charge_attempt : world.store.ledger.charge round.clock (call.attempt round world) slot =
    match world.store.ledger.counters round.clock call.mode with
    | .error error => .error error
    | .ok counters =>
      if world.cap = some 0 then .error .budgetExhausted
      else
        match (call.attempt round world).canary with
        | .error error => .error error
        | .ok _ =>
          if world.store.ledger.admissions.any fun row => row.slot = slot then .error .storageUnavailable
          else
            .ok (.reserved world.store.ledger.uuids slot,
              (world.store.ledger.expireTickets round.clock).reserved round.clock call counters slot) := by
  simp only [reserved_expireTickets]
  exact charge_eq _ _ _ _

/-- What is left when the row of a slot is still there. -/
theorem writeReservation_of_quiet (quiet : round.Quiet) : writeReservation call round counters slot txn =
    match useCanary call round txn with
    | .error error used => .error error used
    | .ok dispatch used =>
      if used.store.ledger.admissions.any fun row => row.slot = slot then
        .error .storageUnavailable (used.withRows (used.store.ledger.update round.clock call.mode counters))
      else .ok dispatch (used.withRows (used.store.ledger.reserved round.clock call counters slot)) := by
  rw [writeReservation, run_bind_of_quiet quiet, bind_eq]
  cases useCanary call round txn with
  | error error used => rfl
  | ok dispatch used =>
    dsimp only
    rw [run_bind_of_quiet quiet]
    change (insertAdmission call round slot >>= _) (used.withRows (used.store.ledger.update round.clock call.mode counters)) = _
    rw [bind_eq, insertAdmission_of_quiet quiet]
    by_cases taken : (used.store.ledger.admissions.any fun row => row.slot = slot) = true
    · have still : ((used.withRows (used.store.ledger.update round.clock call.mode counters)).store.ledger.admissions.any
        fun row => row.slot = slot) = true := taken
      rw [if_pos still, if_pos taken]
    · have still : ¬ ((used.withRows (used.store.ledger.update round.clock call.mode counters)).store.ledger.admissions.any
        fun row => row.slot = slot) = true := taken
      rw [if_neg still, if_neg taken]
      change (deleteTicket call round >>= _) _ = _
      rw [bind_eq, deleteTicket_of_quiet quiet]
      exact run_bind_of_quiet quiet _ _

theorem resultOf_useCanary {other : Txn} (same : txn.store.canaryConsume = other.store.canaryConsume) :
    resultOf (useCanary call round txn) = resultOf (useCanary call round other) := by
  rw [useCanary, useCanary, same]
  cases other.store.canaryConsume call.canaryOperation round.canaryStamp with
  | error error => rfl
  | ok consumed =>
    dsimp only
    split <;> rfl

theorem useCanary_ledger (call : Call) (round : Round) (txn : Txn) :
    (stateOf (useCanary call round txn)).store.ledger = txn.store.ledger := by
  rw [useCanary]
  split
  · rfl
  · dsimp only
    split <;> rfl

/-- With the allowance spent, a quiet transaction ends as the canary and the row of its slot decide. -/
theorem finishReservation_agrees (quiet : round.Quiet) (cap : Option ℕ) : Agrees world.store.ledger
    (finishReservation call round world.store.ledger.uuids counters slot { world.begin.expired round.clock with cap })
    (match (call.attempt round world).canary with
      | .error error => .error error
      | .ok _ =>
        if world.store.ledger.admissions.any fun row => row.slot = slot then .error .storageUnavailable
        else
          .ok (.reserved world.store.ledger.uuids slot,
            (world.store.ledger.expireTickets round.clock).reserved round.clock call counters slot)) := by
  set txn : Txn := { world.begin.expired round.clock with cap }
  have verdict : resultOf (useCanary call round txn) = resultOf (useCanary call round world.begin) := by
    exact resultOf_useCanary rfl
  have kept := useCanary_ledger call round txn
  have spared := spares_useCanary call round txn
  rw [finishReservation, bind_eq, writeReservation_of_quiet quiet, Call.attempt, ← verdict]
  cases asked : useCanary call round txn with
  | error error used =>
    rw [asked] at spared
    have uncommitted : used.committed = false := spared.committed
    exact ⟨rfl, if_neg (Bool.eq_false_iff.mp uncommitted)⟩
  | ok dispatch used =>
    rw [asked] at kept spared
    have ledger : used.store.ledger = world.store.ledger.expireTickets round.clock := kept
    have uncommitted : used.committed = false := spared.committed
    have same : used.store.ledger.admissions = world.store.ledger.admissions := by
      rw [ledger]
      rfl
    dsimp only [resultOf, Except.map]
    rw [same, ledger]
    by_cases taken : (world.store.ledger.admissions.any fun row => row.slot = slot) = true
    · rw [if_pos taken, if_pos taken]
      exact ⟨rfl, if_neg (Bool.eq_false_iff.mp uncommitted)⟩
    · rw [if_neg taken, if_neg taken]
      change Agrees _ ((submitReservation call round >>= _) _) _
      rw [bind_eq, submitReservation, bind_eq, markSubmitted]
      dsimp only
      rw [Round.commitBudget, quiet.commit]
      exact ⟨rfl, rfl⟩

/-- Behind the checks a quiet transaction charges as the ledger does. -/
theorem reserveSlot_agrees (quiet : round.Quiet) : Agrees world.store.ledger
    (reserveSlot call round slot (world.begin.expired round.clock))
    (world.store.ledger.charge round.clock (call.attempt round world) slot) := by
  rw [charge_attempt]
  cases counted : world.store.ledger.counters round.clock call.mode with
  | error error =>
    rw [reserveSlot_of_uncounted counted]
    exact ⟨rfl, rfl⟩
  | ok counters =>
    rw [reserveSlot_eq counted, bind_eq, spendAllowance]
    obtain ⟨store, cap⟩ := world
    cases cap with
    | none => exact finishReservation_agrees quiet none
    | some allowance =>
      cases allowance with
      | zero => exact ⟨rfl, rfl⟩
      | succ left => exact finishReservation_agrees quiet (some left)

/-- The checks after the tickets have expired, and what follows them. -/
theorem checkDue_agrees (call : Call) (world : World) (quiet : round.Quiet) : Agrees world.store.ledger
    (((checkDue round <| checkTicket call round <| takeSlot round) >>= followTurn call round)
      (world.begin.expired round.clock))
    (if world.store.ledger.budget.next > round.clock.ms then
      if world.store.ledger.budget.next - round.clock.ms > 30000 then .error .budgetExhausted
      else .ok (.wait (world.store.ledger.budget.next - round.clock.ms).toNat, world.store.ledger)
    else if call.ticket.any fun owner => !world.store.ledger.ticketLive round.clock owner then .error .storageUnavailable
    else if round.cancelled then .error .cancelled
    else
      match world.store.ledger.freeSlot with
      | none => .ok (.wait 50, world.store.ledger)
      | some slot => world.store.ledger.charge round.clock (call.attempt round world) slot) := by
  have same : (world.begin.expired round.clock).store.ledger = world.store.ledger.expireTickets round.clock := rfl
  have spacing : (world.store.ledger.expireTickets round.clock).budget = world.store.ledger.budget := rfl
  have slots : (world.store.ledger.expireTickets round.clock).freeSlot = world.store.ledger.freeSlot := rfl
  rw [bind_eq, checkDue, withLedger, same, spacing]
  by_cases early : world.store.ledger.budget.next > round.clock.ms
  · rw [if_pos early, if_pos early]
    by_cases late : world.store.ledger.budget.next - round.clock.ms > 30000
    · rw [if_pos late, if_pos late]
      exact ⟨rfl, rfl⟩
    · rw [if_neg late, if_neg late]
      exact ⟨rfl, rfl⟩
  rw [if_neg early, if_neg early, checkTicket_of_quiet quiet, same]
  simp only [ticketLive_expireTickets]
  by_cases dead : (call.ticket.any fun owner => !world.store.ledger.ticketLive round.clock owner) = true
  · rw [if_pos dead, if_pos dead]
    exact ⟨rfl, rfl⟩
  rw [if_neg dead, if_neg dead, takeSlot_of_quiet quiet, same, slots]
  cases round.cancelled with
  | true => exact ⟨rfl, rfl⟩
  | false =>
    rw [if_neg Bool.false_ne_true, if_neg Bool.false_ne_true]
    cases world.store.ledger.freeSlot with
    | none => exact ⟨rfl, rfl⟩
    | some slot => exact reserveSlot_agrees quiet

/-- The checks of an attempt, in the order in which a transaction makes them. -/
theorem reserveLocked_attempt : world.store.ledger.reserveLocked round.clock (call.attempt round world) =
    match world.store.ledger.authorize round.clock.secs call.explicitOwner with
    | .error error => .error error
    | .ok _ =>
      if world.store.ledger.refused call.mode round.clock then .error .budgetExhausted
      else
        match world.store.ledger.liveOwnerCount with
        | none => .error .budgetExhausted
        | some active =>
          if active ≥ world.store.ledger.budget.policy.limits.maxInFlight then .ok (.wait 5000, world.store.ledger)
          else if world.store.ledger.otherTurn call.mode round.clock then .ok (.wait 5000, world.store.ledger)
          else if world.store.ledger.budget.next > round.clock.ms then
            if world.store.ledger.budget.next - round.clock.ms > 30000 then .error .budgetExhausted
            else .ok (.wait (world.store.ledger.budget.next - round.clock.ms).toNat, world.store.ledger)
          else if call.ticket.any fun owner => !world.store.ledger.ticketLive round.clock owner then
            .error .storageUnavailable
          else if round.cancelled then .error .cancelled
          else
            match world.store.ledger.freeSlot with
            | none => .ok (.wait 50, world.store.ledger)
            | some slot => world.store.ledger.charge round.clock (call.attempt round world) slot := by
  have same : world.store.ledger.authorize round.clock.secs (call.attempt round world).explicitOwner =
      world.store.ledger.authorize round.clock.secs call.explicitOwner := rfl
  rw [Ledger.reserveLocked, same]
  cases world.store.ledger.authorize round.clock.secs call.explicitOwner with
  | error error => rfl
  | ok _ => rfl

/-- A quiet transaction ends as the attempt does. -/
theorem reserveLockedWithCanary_agrees (quiet : round.Quiet) : Agrees world.store.ledger
    (reserveLockedWithCanary call round world.begin)
    (world.store.ledger.reserveLocked round.clock (call.attempt round world)) := by
  rw [reserveLockedWithCanary, bind_eq, checkReservation, run_bind_of_quiet quiet, run_bind_of_quiet quiet,
    run_bind_of_quiet quiet, authorizeOwner_of_quiet quiet, reserveLocked_attempt]
  rw [show world.begin.store = world.store from rfl]
  cases world.store.ledger.authorize round.clock.secs call.explicitOwner with
  | error error => exact ⟨rfl, rfl⟩
  | ok _ =>
    dsimp only
    rw [checkRefusal_of_quiet quiet, show world.begin.store = world.store from rfl]
    by_cases refused : world.store.ledger.refused call.mode round.clock = true
    · rw [if_pos refused, if_pos refused]
      exact ⟨rfl, rfl⟩
    rw [if_neg refused, if_neg refused]
    cases world.store.ledger.liveOwnerCount with
    | none => exact ⟨rfl, rfl⟩
    | some active =>
      dsimp only
      by_cases full : active ≥ world.store.ledger.budget.policy.limits.maxInFlight
      · rw [if_pos full, if_pos full]
        exact ⟨rfl, rfl⟩
      rw [if_neg full, if_neg full, checkTurn_of_quiet quiet, show world.begin.store = world.store from rfl]
      by_cases yields : world.store.ledger.otherTurn call.mode round.clock = true
      · rw [if_pos yields, if_pos yields]
        exact ⟨rfl, rfl⟩
      rw [if_neg yields, if_neg yields]
      exact checkDue_agrees call world quiet

/-- A transaction in which nothing fails decides as the ledger does, and is one step of its runs. -/
theorem attempt_refines (quiet : round.Quiet) :
    (attempt call round world).decision.map RoundDecision.forget =
        (world.store.ledger.reserveLocked round.clock (call.attempt round world)).map Prod.fst ∧
      (attempt call round world).world.store.ledger =
        world.store.ledger.step (round.clock, .reserve (call.attempt round world)) := by
  have agrees : Agrees world.store.ledger (reserveLockedWithCanary call round world.begin)
      (world.store.ledger.reserveLocked round.clock (call.attempt round world)) := reserveLockedWithCanary_agrees quiet
  refine ⟨agrees.decision, ?_⟩
  rw [attempt_world, World.after, apply_ite Store.ledger, agrees.ledger, Ledger.step, Ledger.perform]
  cases world.store.ledger.reserveLocked round.clock (call.attempt round world) with
  | error error => rfl
  | ok ended => rfl

end Charge

/-! ## Transactions one after another -/

/-- How some transactions end, and the world after them. -/
def attempts : List (Call × Round) → World → List RoundEnd × World
  | [], world => ([], world)
  | (call, round) :: rest, world =>
    let ended := attempt call round world
    let later := attempts rest ended.world
    (ended :: later.1, later.2)

/-- What some calls attempt, each in the world that the ones before it leave. -/
def attempted : List (Call × Round) → World → List (Clock × Attempt)
  | [], _ => []
  | (call, round) :: rest, world =>
    (round.clock, call.attempt round world) :: attempted rest (attempt call round world).world

namespace Ledger

/-- What the ledger answers to some attempts. -/
def answers : List (Clock × Attempt) → Ledger → List (Except DatabaseError Decision)
  | [], _ => []
  | (clock, attempt) :: rest, ledger =>
    (ledger.reserveLocked clock attempt).map Prod.fst :: answers rest (ledger.step (clock, .reserve attempt))

/-- The ledger after some attempts. -/
def attempts (entries : List (Clock × Attempt)) (ledger : Ledger) : Ledger :=
  ledger.run (entries.map fun entry => (entry.1, .reserve entry.2))

end Ledger

/-- Some transactions are these attempts on the ledger. -/
structure Refines (rounds : List (Call × Round)) (world : World) (entries : List (Clock × Attempt)) : Prop where
  calls : entries.length = rounds.length
  /-- Each is the attempt of its call, in the world that the transactions before it leave. -/
  reached : ∀ before call round after, rounds = before ++ (call, round) :: after →
    entries[before.length]? = some (round.clock, call.attempt round (attempts before world).2)
  decisions : (attempts rounds world).1.map (fun ended => ended.decision.map RoundDecision.forget) =
    world.store.ledger.answers entries
  /-- The rows after the transactions so far are those after the attempts so far. -/
  rows : ∀ before after, rounds = before ++ after →
    (attempts before world).2.store.ledger = world.store.ledger.attempts (entries.take before.length)

theorem Refines.nil (world : World) : Refines [] world [] where
  calls := rfl
  reached before call round after shape := absurd shape.symm (by simp)
  decisions := rfl
  rows before after shape := by
    rw [(List.nil_eq_append_iff.mp shape).1]
    rfl

/-- One more transaction in front of others. -/
theorem Refines.cons {call : Call} {round : Round} {rest : List (Call × Round)} {world : World} {entries : List (Clock × Attempt)}
    (quiet : round.Quiet) (refines : Refines rest (attempt call round world).world entries) :
    Refines ((call, round) :: rest) world ((round.clock, call.attempt round world) :: entries) := by
  obtain ⟨decision, ledger⟩ := @attempt_refines call round world quiet
  constructor
  · rw [List.length_cons, List.length_cons, refines.calls]
  · intro before other next after shape
    cases before with
    | nil =>
      cases shape
      rfl
    | cons first before =>
      obtain ⟨rfl, same⟩ := List.cons.inj shape
      exact refines.reached before other next after same
  · have decisions := refines.decisions
    rw [ledger] at decisions
    rw [attempts, Ledger.answers, List.map_cons, decision, decisions]
  · intro before after shape
    cases before with
    | nil => rfl
    | cons first before =>
      obtain ⟨rfl, same⟩ := List.cons.inj shape
      have rows := refines.rows before after same
      rw [ledger] at rows
      exact rows

/-- Transactions in which nothing fails are a run of the ledger: each is the attempt of its call in the world reached before it,
ends as the ledger answers at its clock, and leaves the rows of the run so far. -/
theorem attempts_refine {rounds : List (Call × Round)} (quiet : ∀ entry ∈ rounds, entry.2.Quiet) (world : World) :
    Refines rounds world (attempted rounds world) := by
  induction rounds generalizing world with
  | nil => exact .nil world
  | cons entry rest ih =>
    obtain ⟨first, others⟩ := List.forall_mem_cons.mp quiet
    exact .cons first (ih others _)

/-- A ledger with two slots and no canary, in a process that may send one request. -/
def allowedOnce : World := ⟨⟨Ledger.initial Ledger.twoSlots, none, []⟩, some 1⟩

/-- The second transaction, when spacing is over. -/
def spacedRound : Round := { uneventful.round with clock := ⟨uneventful.round.clock.ms + 200, by decide⟩ }

/-- The second of two calls finds the allowance of the process spent. -/
theorem attempts_refine_twice :
    (attempts [(unaware, uneventful.round), (unaware, spacedRound)] allowedOnce).1.map (·.decision) =
        [.ok (.reserved 0 1 none), .error .budgetExhausted] ∧
      (attempted [(unaware, uneventful.round), (unaware, spacedRound)] allowedOnce).map (·.2.localCap) = [some 1, some 0] ∧
      Refines [(unaware, uneventful.round), (unaware, spacedRound)] allowedOnce
        (attempted [(unaware, uneventful.round), (unaware, spacedRound)] allowedOnce) := by
  refine ⟨rfl, rfl, attempts_refine ?_ allowedOnce⟩
  intro entry member
  simp only [List.mem_cons, List.not_mem_nil, or_false] at member
  rcases member with rfl | rfl <;> exact ⟨fun _ => rfl, rfl⟩

end OpenLegal.Admission
