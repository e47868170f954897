import OpenLegal.Admission.Idle
import OpenLegal.Admission.Reserve

/-! # What a failed reservation leaves behind

Until a reservation has its slot it changes nothing that counts, and its later changes of rows are undone unless the
`COMMIT` is submitted. The allowance of the process is spent before the canary and the rows are written, and is not
given back when one of these fails.
-/

namespace OpenLegal.Admission

open Legal Theory.Effect
open EStateM (Result)

/-! ## What counts -/

/-- Two states of the rows with the same counters: the budget row, the admissions and the canaries. -/
structure Store.SameCounters (before after : Store) : Prop where
  budget : after.ledger.budget = before.ledger.budget
  admissions : after.ledger.admissions = before.ledger.admissions
  requiredCanary : after.requiredCanary = before.requiredCanary
  canaries : after.canaries = before.canaries

theorem Store.SameCounters.refl (store : Store) : store.SameCounters store := ⟨rfl, rfl, rfl, rfl⟩

theorem Store.SameCounters.trans {first second third : Store} (front : first.SameCounters second)
    (rear : second.SameCounters third) : first.SameCounters third :=
  ⟨rear.budget.trans front.budget, rear.admissions.trans front.admissions,
    rear.requiredCanary.trans front.requiredCanary, rear.canaries.trans front.canaries⟩

/-- Neither a durable counter nor the allowance changes. -/
structure World.Unchanged (before after : World) : Prop where
  counters : before.store.SameCounters after.store
  cap : after.cap = before.cap

theorem World.Unchanged.refl (world : World) : world.Unchanged world := ⟨.refl _, rfl⟩

theorem World.Unchanged.trans {first second third : World} (front : first.Unchanged second)
    (rear : second.Unchanged third) : first.Unchanged third :=
  ⟨front.counters.trans rear.counters, rear.cap.trans front.cap⟩

/-- A part of a transaction that changes nothing that counts and submits nothing. -/
structure Txn.Keeps (before after : Txn) : Prop where
  counters : before.store.SameCounters after.store
  cap : after.cap = before.cap
  submitted : after.submitted = before.submitted

instance : Std.Refl Txn.Keeps := ⟨fun _ => ⟨.refl _, rfl, rfl⟩⟩

instance : IsTrans Txn Txn.Keeps :=
  ⟨fun _ _ _ front rear =>
    ⟨front.counters.trans rear.counters, rear.cap.trans front.cap, rear.submitted.trans front.submitted⟩⟩

/-! ## The checks change nothing -/

section Checks

variable {α : Type} {call : Call} {round : Round} {next : Step Turn}

theorem keeps_pure (a : α) : Leaves Txn.Keeps (pure a : Step α) := fun txn => Std.Refl.refl txn

theorem keeps_failWith (error : DatabaseError) : Leaves Txn.Keeps (failWith error : Step α) :=
  fun txn => Std.Refl.refl txn

theorem keeps_run (round : Round) (statement : Statement) : Leaves Txn.Keeps (round.run statement) := by
  intro txn
  rw [Round.run]
  split <;> exact Std.Refl.refl txn

theorem keeps_liftExcept (value : Except DatabaseError α) : Leaves Txn.Keeps (liftExcept value) := by
  intro txn
  cases value <;> exact Std.Refl.refl txn

theorem keeps_withLedger {body : Ledger → Step α} (each : ∀ ledger, Leaves Txn.Keeps (body ledger)) :
    Leaves Txn.Keeps (withLedger body) := fun txn => each txn.store.ledger txn

theorem keeps_commitBudget (round : Round) : Leaves Txn.Keeps round.commitBudget := by
  intro txn
  rw [Round.commitBudget]
  split <;> exact ⟨.refl _, rfl, rfl⟩

theorem keeps_refuse (round : Round) : Leaves Txn.Keeps (refuse round : Step α) :=
  (keeps_run round _).bind fun _ => (keeps_commitBudget round).bind fun _ => keeps_failWith _

theorem keeps_authorizeOwner (keeps : Leaves Txn.Keeps next) : Leaves Txn.Keeps (authorizeOwner call round next) := by
  rw [authorizeOwner]
  split
  · exact keeps
  · split
    · exact keeps_failWith _
    · exact (keeps_run round _).bind fun _ =>
        (keeps_withLedger fun _ => keeps_liftExcept _).bind fun _ => keeps

theorem keeps_checkRefusal (keeps : Leaves Txn.Keeps next) : Leaves Txn.Keeps (checkRefusal call round next) := by
  refine (keeps_run round _).bind fun _ => keeps_withLedger fun ledger => ?_
  split
  · exact keeps_refuse round
  · refine (keeps_run round _).bind fun _ => ?_
    split
    · exact keeps_refuse round
    · split
      · exact keeps_pure _
      · exact keeps

theorem keeps_checkTurn (keeps : Leaves Txn.Keeps next) : Leaves Txn.Keeps (checkTurn call round next) := by
  have expire : Leaves Txn.Keeps
      (modifyStore fun store => { store with ledger := store.ledger.expireTickets round.clock }) :=
    fun txn => ⟨⟨rfl, rfl, rfl, rfl⟩, rfl, rfl⟩
  refine (keeps_run round _).bind fun _ => expire.bind fun _ => keeps_withLedger fun ledger => ?_
  split
  · refine (keeps_run round _).bind fun _ => ?_
    split
    · exact keeps_pure _
    · exact keeps
  · refine (keeps_run round _).bind fun _ => ?_
    split
    · exact keeps_pure _
    · exact keeps
  · exact keeps

theorem keeps_checkDue (keeps : Leaves Txn.Keeps next) : Leaves Txn.Keeps (checkDue round next) := by
  refine keeps_withLedger fun ledger => ?_
  split
  · split
    · exact keeps_failWith _
    · exact keeps_pure _
  · exact keeps

theorem keeps_checkTicket (keeps : Leaves Txn.Keeps next) : Leaves Txn.Keeps (checkTicket call round next) := by
  rw [checkTicket]
  split
  · exact keeps
  · refine (keeps_run round _).bind fun _ => keeps_withLedger fun ledger => ?_
    split
    · exact keeps
    · exact keeps_failWith _

theorem keeps_takeSlot (round : Round) : Leaves Txn.Keeps (takeSlot round) := by
  rw [takeSlot]
  split
  · exact keeps_failWith _
  · refine (keeps_run round _).bind fun _ => keeps_withLedger fun ledger => ?_
    split
    · exact keeps_pure _
    · exact (keeps_run round _).bind fun _ => keeps_pure _

theorem keeps_checkReservation (call : Call) (round : Round) : Leaves Txn.Keeps (checkReservation call round) :=
  (keeps_run round _).bind fun _ => (keeps_run round _).bind fun _ => (keeps_run round _).bind fun _ =>
    keeps_authorizeOwner <| keeps_checkRefusal <| keeps_checkTurn <| keeps_checkDue <| keeps_checkTicket <|
      keeps_takeSlot round

end Checks

/-! ## When the allowance is reached -/

/-- Nobody of the other mode goes first. -/
def First (call : Call) (round : Round) (ledger : Ledger) : Prop :=
  match ledger.yieldsTo call.mode round.clock with
  | some .onDemand => round.fault .demandWaiting = none ∧ ledger.demandWaiting round.clock.secs = false
  | some .continuous => round.fault .backgroundWaiting = none ∧ ledger.backgroundWaiting round.clock.secs = false
  | none => True

attribute [grind =] First

/-- Everything that stands in front of the allowance lets a reservation pass to a slot. -/
structure Ready (call : Call) (round : Round) (ledger : Ledger) (slot : ℕ) : Prop where
  transaction : ∀ statement ∈ [Statement.beginTransaction, .lockBudget, .clock, .providerHeld, .liveOwners, .expireTickets,
    .slots, .owner], round.fault statement = none
  authorized : ∀ owner, call.explicitOwner = some owner →
    round.fault .authorize = none ∧ ledger.authorize round.clock.secs (some owner) = .ok ()
  admitted : ledger.refused call.mode round.clock = false
  room : ∃ active, ledger.liveOwnerCount = some active ∧ active < ledger.budget.policy.limits.maxInFlight
  first : First call round ledger
  due : ledger.budget.next ≤ round.clock.ms
  ticket : ∀ owner, call.ticket = some owner →
    round.fault .liveTicket = none ∧ ledger.ticketLive round.clock owner = true
  running : round.cancelled = false
  free : ledger.freeSlot = some slot

theorem run_eq_ok {round : Round} {statement : Statement} {txn final : Txn} {u : Unit} :
    round.run statement txn = .ok u final ↔ round.fault statement = none ∧ final = txn := by
  rw [Round.run]
  cases round.fault statement with
  | none => simp [eq_comm]
  | some error => simp

section Ready

variable {call : Call} {round : Round} {next : Step Turn} {slot : ℕ} {txn final : Txn}

/-- A statement in front succeeds, or nothing behind it does. -/
theorem run_bind_eq_ok {α : Type} {statement : Statement} {f : Unit → Step α} {a : α} :
    (round.run statement >>= f) txn = .ok a final ↔ round.fault statement = none ∧ f () txn = .ok a final := by
  rw [bind_eq_ok]
  constructor
  · rintro ⟨_, middle, ran, rest⟩
    obtain ⟨fine, rfl⟩ := (run_eq_ok).mp ran
    exact ⟨fine, rest⟩
  · rintro ⟨fine, rest⟩
    exact ⟨(), txn, (run_eq_ok).mpr ⟨fine, rfl⟩, rest⟩

theorem succeeds_run_bind {α : Type} {statement : Statement} {f : Unit → Step α} :
    Succeeds (round.run statement >>= f) txn ↔ round.fault statement = none ∧ Succeeds (f ()) txn := by
  simp only [Succeeds, run_bind_eq_ok, exists_and_left]

/-- A decision on the rows comes out well, or nothing behind it is done. -/
theorem decided_bind_eq_ok {α β : Type} {decide : Ledger → Except DatabaseError β} {f : β → Step α} {a : α} :
    ((withLedger fun ledger => liftExcept (decide ledger)) >>= f) txn = .ok a final ↔
      ∃ b, decide txn.store.ledger = .ok b ∧ f b txn = .ok a final := by
  rw [bind_eq, withLedger]
  cases decide txn.store.ledger with
  | ok b => simp [liftExcept]
  | error error => simp [liftExcept]

theorem refuse_ne_ok {α : Type} {a : α} : (refuse round : Step α) txn ≠ .ok a final := by
  intro ran
  obtain ⟨-, ran⟩ := (run_bind_eq_ok).mp ran
  obtain ⟨_, _, -, failed⟩ := bind_eq_ok.mp ran
  cases failed

theorem authorizeOwner_eq_ok {turn : Turn} : authorizeOwner call round next txn = .ok turn final ↔
    (∀ owner, call.explicitOwner = some owner →
      round.fault .authorize = none ∧ txn.store.ledger.authorize round.clock.secs (some owner) = .ok ()) ∧
      next txn = .ok turn final := by
  rw [authorizeOwner]
  cases owned : call.explicitOwner with
  | none => simp
  | some owner =>
    simp only [Option.some.injEq, forall_eq']
    by_cases large : owner.2 > i64Max
    · simp only [if_pos large, Ledger.authorize]
      constructor
      · intro failed
        cases failed
      · rintro ⟨⟨-, failed⟩, -⟩
        cases failed
    · simp only [if_neg large, run_bind_eq_ok, decided_bind_eq_ok, and_assoc]
      refine and_congr_right fun _ => ?_
      constructor
      · rintro ⟨_, authorized, rest⟩
        exact ⟨authorized, rest⟩
      · rintro ⟨authorized, rest⟩
        exact ⟨(), authorized, rest⟩

theorem wait_or_eq_take {waits : Prop} [Decidable waits] {delay : ℕ} :
    (if waits then pure (.wait delay) else next : Step Turn) txn = .ok (.take slot) final ↔
      ¬ waits ∧ next txn = .ok (.take slot) final := by
  by_cases holds : waits
  · simp only [holds, if_true, not_true_eq_false, false_and, iff_false]
    exact fun waited => nomatch waited
  · simp only [holds, if_false, not_false_eq_true, true_and]

theorem checkRefusal_eq_take : checkRefusal call round next txn = .ok (.take slot) final ↔
    round.fault .providerHeld = none ∧ txn.store.ledger.refused call.mode round.clock = false ∧
      round.fault .liveOwners = none ∧
      (∃ active, txn.store.ledger.liveOwnerCount = some active ∧
        active < txn.store.ledger.budget.policy.limits.maxInFlight) ∧ next txn = .ok (.take slot) final := by
  rw [checkRefusal, run_bind_eq_ok]
  refine and_congr_right fun _ => ?_
  rw [withLedger]
  cases txn.store.ledger.refused call.mode round.clock with
  | true => simp [refuse_ne_ok]
  | false =>
    simp only [Bool.false_eq_true, if_false, true_and, run_bind_eq_ok]
    refine and_congr_right fun _ => ?_
    cases txn.store.ledger.liveOwnerCount with
    | none => simp [refuse_ne_ok]
    | some active => simp [wait_or_eq_take]

theorem demandWaiting_expireTickets (ledger : Ledger) (clock : Clock) :
    (ledger.expireTickets clock).demandWaiting clock.secs = ledger.demandWaiting clock.secs := by
  simp only [Ledger.demandWaiting, Ledger.expireTickets, List.any_filter]
  congr 2
  funext ticket
  rw [Bool.eq_iff_iff]
  simp only [Bool.and_eq_true, decide_eq_true_eq, gt_iff_lt]
  tauto

theorem backgroundWaiting_expireTickets (ledger : Ledger) (clock : Clock) :
    (ledger.expireTickets clock).backgroundWaiting clock.secs = ledger.backgroundWaiting clock.secs := by
  simp only [Ledger.backgroundWaiting, Ledger.expireTickets, List.any_filter]
  congr 1
  funext ticket
  rw [Bool.eq_iff_iff]
  simp only [Bool.and_eq_true, decide_eq_true_eq, gt_iff_lt]
  tauto

theorem ticketLive_expireTickets (ledger : Ledger) (clock : Clock) (owner : Uuid) :
    (ledger.expireTickets clock).ticketLive clock owner = ledger.ticketLive clock owner := by
  simp only [Ledger.ticketLive, Ledger.expireTickets, List.any_filter]
  congr 1
  funext ticket
  rw [Bool.eq_iff_iff]
  simp only [Bool.and_eq_true, decide_eq_true_eq, gt_iff_lt]
  tauto

/-- The transaction after the tickets have expired. -/
def Txn.expired (txn : Txn) (clock : Clock) : Txn :=
  { txn with store := { txn.store with ledger := txn.store.ledger.expireTickets clock } }

attribute [grind =] Txn.expired

theorem checkTurn_eq_take : checkTurn call round next txn = .ok (.take slot) final ↔
    round.fault .expireTickets = none ∧ First call round txn.store.ledger ∧
      next (txn.expired round.clock) = .ok (.take slot) final := by
  rw [checkTurn, run_bind_eq_ok]
  refine and_congr_right fun _ => ?_
  rw [bind_eq, modifyStore, First]
  dsimp only [withLedger]
  have same : (txn.store.ledger.expireTickets round.clock).yieldsTo call.mode round.clock =
      txn.store.ledger.yieldsTo call.mode round.clock := rfl
  rw [same]
  cases txn.store.ledger.yieldsTo call.mode round.clock with
  | none => simp [Txn.expired]
  | some other =>
    cases other with
    | onDemand =>
      simp only [run_bind_eq_ok, wait_or_eq_take, demandWaiting_expireTickets, Bool.not_eq_true, and_assoc]
      rfl
    | continuous =>
      simp only [run_bind_eq_ok, wait_or_eq_take, backgroundWaiting_expireTickets, Bool.not_eq_true, and_assoc]
      rfl

theorem checkDue_eq_take : checkDue round next txn = .ok (.take slot) final ↔
    txn.store.ledger.budget.next ≤ round.clock.ms ∧ next txn = .ok (.take slot) final := by
  rw [checkDue, withLedger]
  by_cases early : txn.store.ledger.budget.next > round.clock.ms
  · rw [if_pos early]
    constructor
    · intro taken
      split at taken <;> cases taken
    · rintro ⟨due, -⟩
      exact absurd due (not_le_of_gt early)
  · rw [if_neg early]
    simp [not_lt.mp early]

theorem checkTicket_eq_take : checkTicket call round next txn = .ok (.take slot) final ↔
    (∀ owner, call.ticket = some owner →
      round.fault .liveTicket = none ∧ txn.store.ledger.ticketLive round.clock owner = true) ∧
      next txn = .ok (.take slot) final := by
  rw [checkTicket]
  cases call.ticket with
  | none => simp
  | some owner =>
    simp only [run_bind_eq_ok, withLedger, Option.some.injEq, forall_eq', and_assoc]
    refine and_congr_right fun _ => ?_
    cases txn.store.ledger.ticketLive round.clock owner with
    | true => simp
    | false => simp [failWith]

theorem takeSlot_eq_take : takeSlot round txn = .ok (.take slot) final ↔
    round.cancelled = false ∧ round.fault .slots = none ∧ txn.store.ledger.freeSlot = some slot ∧
      round.fault .owner = none ∧ final = txn := by
  rw [takeSlot]
  cases round.cancelled with
  | true => simp [failWith]
  | false =>
    simp only [Bool.false_eq_true, if_false, run_bind_eq_ok, withLedger, true_and]
    refine and_congr_right fun _ => ?_
    cases txn.store.ledger.freeSlot with
    | none => simp [pure, EStateM.pure]
    | some other =>
      simp only [run_bind_eq_ok, pure, EStateM.pure, Result.ok.injEq, Turn.take.injEq, Option.some.injEq]
      constructor
      · rintro ⟨fine, rfl, rfl⟩
        exact ⟨rfl, fine, rfl⟩
      · rintro ⟨rfl, fine, rfl⟩
        exact ⟨fine, rfl, rfl⟩

/-- The checks end at a slot exactly in a transaction that is ready for it. -/
theorem checkReservation_eq_take : checkReservation call round txn = .ok (.take slot) final ↔
    Ready call round txn.store.ledger slot ∧ final = txn.expired round.clock := by
  simp only [checkReservation, run_bind_eq_ok, authorizeOwner_eq_ok, checkRefusal_eq_take, checkTurn_eq_take,
    checkDue_eq_take, checkTicket_eq_take, takeSlot_eq_take]
  constructor
  · rintro ⟨began, locked, clock, authorized, held, admitted, live, room, expired, first, due, ticket, running, slots, free,
      owner, same⟩
    simp only [Txn.expired, ticketLive_expireTickets] at ticket
    refine ⟨⟨?_, authorized, admitted, room, first, due, ticket, running, free⟩, same⟩
    simp only [List.forall_mem_cons]
    exact ⟨began, locked, clock, held, live, expired, slots, owner, List.forall_mem_nil _⟩
  · rintro ⟨ready, same⟩
    have fine := ready.transaction
    simp only [List.forall_mem_cons] at fine
    obtain ⟨began, locked, clock, held, live, expired, slots, owner, -⟩ := fine
    refine ⟨began, locked, clock, ready.authorized, held, ready.admitted, live, ready.room, expired, ready.first, ready.due,
      ?_, ready.running, slots, ready.free, owner, same⟩
    simp only [Txn.expired, ticketLive_expireTickets]
    exact ready.ticket

end Ready

/-! ## From the allowance to the `COMMIT` -/

/-- The canary and the rows can be written. -/
structure Writable (call : Call) (round : Round) (store : Store) (slot : ℕ) : Prop where
  statements : ∀ statement ∈ [Statement.canaryConsume, .updateBudget, .insertAdmission, .notify],
    round.fault statement = none
  canary : ∃ deadline canaries, store.canaryConsume call.canaryOperation round.canaryStamp = .ok (deadline, canaries) ∧
    ∀ time, deadline = some time → 0 ≤ time - round.canaryReading ∧ time - round.canaryReading ≤ longestCanary
  vacant : ∀ row ∈ store.ledger.admissions, row.slot ≠ slot
  ticket : ∀ owner, call.ticket = some owner → round.fault .deleteTicket = none

/-- A transaction with a slot has an allowance left, and cannot be written. -/
structure SpendsInVain (call : Call) (round : Round) (slot : ℕ) (store : Store) (cap : Option ℕ) : Prop where
  allowed : ∃ left, cap = some (left + 1)
  counted : ∃ counters, store.ledger.counters round.clock call.mode = .ok counters
  stuck : ¬ Writable call round store slot

/-- A reservation gets to its slot, spends the allowance and then fails, before its `COMMIT` is submitted. -/
def LosesAllowance (call : Call) (round : Round) (world : World) : Prop :=
  ∃ slot, Ready call round world.store.ledger slot ∧ SpendsInVain call round slot world.store world.cap

attribute [grind =] LosesAllowance

/-- A part of a transaction that changes only its rows. -/
structure Txn.Spares (before after : Txn) : Prop where
  cap : after.cap = before.cap
  submitted : after.submitted = before.submitted
  committed : after.committed = before.committed

instance : Std.Refl Txn.Spares := ⟨fun _ => ⟨rfl, rfl, rfl⟩⟩

instance : IsTrans Txn Txn.Spares :=
  ⟨fun _ _ _ front rear =>
    ⟨rear.cap.trans front.cap, rear.submitted.trans front.submitted, rear.committed.trans front.committed⟩⟩

section Write

variable {call : Call} {round : Round} {slot : ℕ} {txn final : Txn} {counters : Counters}

theorem useCanary_eq_ok {dispatch : Option ℤ} : useCanary call round txn = .ok dispatch final ↔
    ∃ deadline canaries, txn.store.canaryConsume call.canaryOperation round.canaryStamp = .ok (deadline, canaries) ∧
      (∀ time, deadline = some time → 0 ≤ time - round.canaryReading ∧ time - round.canaryReading ≤ longestCanary) ∧
      dispatch = deadline.map (· - round.canaryReading) ∧ final = txn.withCanaries canaries := by
  rw [useCanary]
  cases txn.store.canaryConsume call.canaryOperation round.canaryStamp with
  | error error => simp
  | ok consumed =>
    obtain ⟨deadline, canaries⟩ := consumed
    cases deadline with
    | none => simp [eq_comm]
    | some time =>
      simp only [Option.map_some, Option.any_some, Bool.or_eq_true, decide_eq_true_eq, Except.ok.injEq, Prod.mk.injEq]
      by_cases outside : time - round.canaryReading < 0 ∨ time - round.canaryReading > longestCanary
      · rw [if_pos outside]
        constructor
        · intro failed
          cases failed
        · rintro ⟨_, _, ⟨rfl, rfl⟩, inside, -⟩
          have := inside time rfl
          omega
      · rw [if_neg outside]
        constructor
        · rintro ⟨⟩
          refine ⟨_, _, ⟨rfl, rfl⟩, ?_, rfl, rfl⟩
          rintro _ ⟨⟩
          omega
        · rintro ⟨_, _, ⟨rfl, rfl⟩, -, rfl, rfl⟩
          rfl

theorem insertAdmission_eq_ok {u : Unit} : insertAdmission call round slot txn = .ok u final ↔
    round.fault .insertAdmission = none ∧ (∀ row ∈ txn.store.ledger.admissions, row.slot ≠ slot) ∧
      final = { txn with store := { txn.store with ledger := txn.store.ledger.addAdmission round.clock call slot } } := by
  rw [insertAdmission, run_bind_eq_ok]
  refine and_congr_right fun _ => ?_
  rw [withLedger]
  by_cases taken : (txn.store.ledger.admissions.any fun row => row.slot = slot) = true
  · rw [if_pos taken]
    simp only [List.any_eq_true, decide_eq_true_eq] at taken
    obtain ⟨row, member, same⟩ := taken
    constructor
    · intro failed
      cases failed
    · rintro ⟨vacant, -⟩
      exact absurd same (vacant row member)
  · rw [if_neg taken]
    simp only [List.any_eq_true, decide_eq_true_eq, not_exists, not_and] at taken
    simp only [modifyStore, Result.ok.injEq, true_and]
    constructor
    · rintro rfl
      exact ⟨taken, rfl⟩
    · rintro ⟨-, rfl⟩
      rfl

theorem succeeds_deleteTicket : Succeeds (deleteTicket call round) txn ↔
    ∀ owner, call.ticket = some owner → round.fault .deleteTicket = none := by
  rw [Succeeds, deleteTicket]
  cases call.ticket with
  | none => simp [pure, EStateM.pure]
  | some owner => simp [run_bind_eq_ok, modifyStore]

theorem spares_run (round : Round) (statement : Statement) : Leaves Txn.Spares (round.run statement) := by
  intro txn
  rw [Round.run]
  split <;> exact Std.Refl.refl txn

theorem spares_modifyStore (f : Store → Store) : Leaves Txn.Spares (modifyStore f) := fun _ => ⟨rfl, rfl, rfl⟩

theorem spares_useCanary (call : Call) (round : Round) : Leaves Txn.Spares (useCanary call round) := by
  intro txn
  rw [useCanary]
  split
  · exact Std.Refl.refl txn
  · dsimp only
    split <;> exact ⟨rfl, rfl, rfl⟩

theorem spares_insertAdmission (call : Call) (round : Round) (slot : ℕ) :
    Leaves Txn.Spares (insertAdmission call round slot) := by
  refine (spares_run round _).bind fun _ txn => ?_
  rw [withLedger]
  split
  · exact Std.Refl.refl txn
  · exact ⟨rfl, rfl, rfl⟩

theorem spares_deleteTicket (call : Call) (round : Round) : Leaves Txn.Spares (deleteTicket call round) := by
  rw [deleteTicket]
  split
  · exact fun txn => Std.Refl.refl txn
  · exact (spares_run round _).bind fun _ => spares_modifyStore _

theorem spares_writeReservation (call : Call) (round : Round) (counters : Counters) (slot : ℕ) :
    Leaves Txn.Spares (writeReservation call round counters slot) :=
  (spares_run round _).bind fun _ => (spares_useCanary call round).bind fun _ => (spares_run round _).bind fun _ =>
    (spares_modifyStore _).bind fun _ => (spares_insertAdmission call round slot).bind fun _ =>
      (spares_deleteTicket call round).bind fun _ => (spares_run round _).bind fun _ txn => Std.Refl.refl txn

/-- The rows and the canary are written exactly if they can be. -/
theorem succeeds_writeReservation : Succeeds (writeReservation call round counters slot) txn ↔
    Writable call round txn.store slot := by
  rw [writeReservation, succeeds_run_bind]
  constructor
  · rintro ⟨canaryFine, written⟩
    obtain ⟨dispatch, _, used, written⟩ := succeeds_bind.mp written
    obtain ⟨deadline, canaries, accepted, inside, -, rfl⟩ := (useCanary_eq_ok).mp used
    obtain ⟨updateFine, written⟩ := succeeds_run_bind.mp written
    obtain ⟨_, _, updated, written⟩ := succeeds_bind.mp written
    cases updated
    obtain ⟨_, _, insert, written⟩ := succeeds_bind.mp written
    obtain ⟨insertFine, vacant, rfl⟩ := (insertAdmission_eq_ok).mp insert
    obtain ⟨_, closed, deleted, written⟩ := succeeds_bind.mp written
    obtain ⟨notifyFine, -⟩ := succeeds_run_bind.mp written
    refine ⟨?_, ⟨deadline, canaries, accepted, inside⟩, vacant, (succeeds_deleteTicket).mp ⟨_, _, deleted⟩⟩
    simp only [List.forall_mem_cons]
    exact ⟨canaryFine, updateFine, insertFine, notifyFine, List.forall_mem_nil _⟩
  · intro writable
    have fine := writable.statements
    simp only [List.forall_mem_cons] at fine
    obtain ⟨canaryFine, updateFine, insertFine, notifyFine, -⟩ := fine
    obtain ⟨deadline, canaries, accepted, inside⟩ := writable.canary
    refine ⟨canaryFine, succeeds_bind.mpr ⟨_, _, (useCanary_eq_ok).mpr ⟨deadline, canaries, accepted, inside, rfl, rfl⟩, ?_⟩⟩
    refine succeeds_run_bind.mpr ⟨updateFine, succeeds_bind.mpr ⟨(), _, rfl, ?_⟩⟩
    refine succeeds_bind.mpr ⟨(), _, (insertAdmission_eq_ok).mpr ⟨insertFine, writable.vacant, rfl⟩, ?_⟩
    obtain ⟨_, closed, deleted⟩ := (succeeds_deleteTicket).mpr writable.ticket
    exact succeeds_bind.mpr ⟨_, closed, deleted, succeeds_run_bind.mpr ⟨notifyFine, _, _, rfl⟩⟩

theorem finishReservation_submitted {owner : Uuid} (writable : Writable call round txn.store slot) :
    (stateOf (finishReservation call round owner counters slot txn)).submitted = true := by
  obtain ⟨dispatch, written, ran⟩ : Succeeds (writeReservation call round counters slot) txn :=
    (succeeds_writeReservation).mpr writable
  rw [finishReservation, bind_eq, ran]
  simp only [submitReservation, markSubmitted, Round.commitBudget, bind_eq]
  cases round.commit.failure <;> rfl

theorem finishReservation_spares {owner : Uuid} (stuck : ¬ Writable call round txn.store slot) :
    txn.Spares (stateOf (finishReservation call round owner counters slot txn)) := by
  have spared := spares_writeReservation call round counters slot txn
  rw [finishReservation, bind_eq]
  cases ran : writeReservation call round counters slot txn with
  | ok dispatch final => exact absurd (succeeds_writeReservation.mp ⟨dispatch, final, ran⟩) stuck
  | error error final =>
    rw [ran] at spared
    exact spared

/-- A reservation at its slot, if its counters are valid. -/
theorem reserveSlot_eq (counted : txn.store.ledger.counters round.clock call.mode = .ok counters) :
    reserveSlot call round slot txn =
      (spendAllowance >>= fun _ => finishReservation call round txn.store.ledger.uuids counters slot) txn := by
  rw [reserveSlot, bind_eq]
  change (withLedger _ >>= _) txn = _
  rw [bind_eq, withLedger, counted]
  rfl

theorem reserveSlot_of_uncounted {error : DatabaseError}
    (uncounted : txn.store.ledger.counters round.clock call.mode = .error error) :
    reserveSlot call round slot txn = .error error txn := by
  rw [reserveSlot, bind_eq]
  change (withLedger _ >>= _) txn = _
  rw [bind_eq, withLedger, uncounted]
  rfl

/-- A reservation at its slot is submitted, or changes only its rows, unless it spends the allowance in vain. -/
theorem reserveSlot_of_not_vain (fruitful : ¬ SpendsInVain call round slot txn.store txn.cap) :
    (stateOf (reserveSlot call round slot txn)).submitted = true ∨ txn.Spares (stateOf (reserveSlot call round slot txn)) := by
  cases counted : txn.store.ledger.counters round.clock call.mode with
  | error error =>
    rw [reserveSlot_of_uncounted counted]
    exact .inr (Std.Refl.refl txn)
  | ok counters =>
    rw [reserveSlot_eq counted, bind_eq, spendAllowance]
    cases cap : txn.cap with
    | none =>
      by_cases writable : Writable call round txn.store slot
      · exact .inl (finishReservation_submitted writable)
      · exact .inr (finishReservation_spares writable)
    | some allowance =>
      cases allowance with
      | zero => exact .inr (Std.Refl.refl txn)
      | succ left =>
        have writable : Writable call round txn.store slot := by
          by_contra stuck
          exact fruitful ⟨⟨left, cap⟩, ⟨counters, counted⟩, stuck⟩
        exact .inl (finishReservation_submitted writable)

/-- What is spent in vain is not given back. -/
theorem reserveSlot_of_vain (vain : SpendsInVain call round slot txn.store txn.cap) :
    (stateOf (reserveSlot call round slot txn)).submitted = txn.submitted ∧
      (stateOf (reserveSlot call round slot txn)).cap ≠ txn.cap := by
  obtain ⟨left, cap⟩ := vain.allowed
  obtain ⟨counters, counted⟩ := vain.counted
  have spent : stateOf (reserveSlot call round slot txn) = stateOf (finishReservation call round txn.store.ledger.uuids
      counters slot { txn with cap := some left }) := by
    rw [reserveSlot_eq counted, bind_eq, spendAllowance, cap]
  have spared : Txn.Spares { txn with cap := some left } (stateOf (reserveSlot call round slot txn)) := by
    rw [spent]
    exact finishReservation_spares vain.stuck
  refine ⟨spared.submitted, ?_⟩
  rw [spared.cap, cap]
  simp

theorem reserveSlot_ne_wait {delay : ℕ} : reserveSlot call round slot txn ≠ .ok (.wait delay) final := by
  intro ran
  obtain ⟨_, _, -, ran⟩ := bind_eq_ok.mp ran
  obtain ⟨_, _, -, ran⟩ := bind_eq_ok.mp ran
  obtain ⟨_, _, -, ran⟩ := bind_eq_ok.mp ran
  obtain ⟨_, _, -, ran⟩ := bind_eq_ok.mp ran
  obtain ⟨_, _, -, ran⟩ := bind_eq_ok.mp ran
  cases ran

end Write

/-! ## One transaction -/

section Attempt

variable {call : Call} {round : Round} {world : World}

/-- The transaction of an attempt at its beginning. -/
def World.begin (world : World) : Txn := ⟨world.store, world.cap, false, false, false⟩

/-- What a transaction leaves of the world. -/
def World.after (world : World) (txn : Txn) : World := ⟨if txn.committed then txn.store else world.store, txn.cap⟩

attribute [grind =] World.begin World.after

theorem attempt_world (call : Call) (round : Round) (world : World) :
    (attempt call round world).world = world.after (stateOf (reserveLockedWithCanary call round world.begin)) := rfl

theorem attempt_submitted (call : Call) (round : Round) (world : World) :
    (attempt call round world).submitted = (stateOf (reserveLockedWithCanary call round world.begin)).submitted := rfl

theorem unchanged_of_keeps {txn : Txn} (keeps : world.begin.Keeps txn) : world.Unchanged (world.after txn) := by
  refine ⟨?_, keeps.cap⟩
  rw [World.after]
  cases txn.committed with
  | true => exact keeps.counters
  | false => exact .refl _

/-- What is not committed changes nothing but the allowance. -/
theorem unchanged_iff_of_rolledBack {txn : Txn} (rolledBack : txn.committed = false) :
    world.Unchanged (world.after txn) ↔ txn.cap = world.cap := by
  rw [World.after, rolledBack]
  exact ⟨fun unchanged => unchanged.cap, fun same => ⟨.refl _, same⟩⟩

/-- What follows the checks does not look at the tickets of others. -/
theorem spendsInVain_expired {slot : ℕ} {clock : Clock} : SpendsInVain call round slot (world.begin.expired clock).store
    (world.begin.expired clock).cap ↔ SpendsInVain call round slot world.store world.cap :=
  ⟨fun vain => ⟨vain.allowed, vain.counted, fun writable =>
      vain.stuck ⟨writable.statements, writable.canary, writable.vacant, writable.ticket⟩⟩,
    fun vain => ⟨vain.allowed, vain.counted, fun writable =>
      vain.stuck ⟨writable.statements, writable.canary, writable.vacant, writable.ticket⟩⟩⟩

theorem losesAllowance_iff {slot : ℕ} (ready : Ready call round world.store.ledger slot) :
    LosesAllowance call round world ↔ SpendsInVain call round slot world.store world.cap := by
  constructor
  · rintro ⟨other, otherReady, vain⟩
    cases Option.some.inj (ready.free.symm.trans otherReady.free)
    exact vain
  · exact fun vain => ⟨slot, ready, vain⟩

/-- A transaction that is not submitted leaves everything as it was, unless it loses the allowance. -/
theorem attempt_unchanged_iff (call : Call) (round : Round) (world : World) :
    ((attempt call round world).submitted = false → world.Unchanged (attempt call round world).world) ↔
      ¬ LosesAllowance call round world := by
  rw [attempt_world, attempt_submitted, reserveLockedWithCanary, bind_eq]
  have kept := keeps_checkReservation call round world.begin
  cases ran : checkReservation call round world.begin with
  | error error txn =>
    rw [ran] at kept
    refine iff_of_true (fun _ => unchanged_of_keeps kept) ?_
    rintro ⟨slot, ready, -⟩
    cases ran.symm.trans (checkReservation_eq_take.mpr ⟨ready, rfl⟩)
  | ok turn txn =>
    cases turn with
    | wait delay =>
      rw [ran] at kept
      refine iff_of_true (fun _ => unchanged_of_keeps kept) ?_
      rintro ⟨slot, ready, -⟩
      cases ran.symm.trans (checkReservation_eq_take.mpr ⟨ready, rfl⟩)
    | take slot =>
      obtain ⟨ready, rfl⟩ := checkReservation_eq_take.mp ran
      change ((stateOf (reserveSlot call round slot (world.begin.expired round.clock))).submitted = false →
        world.Unchanged (world.after (stateOf (reserveSlot call round slot (world.begin.expired round.clock))))) ↔ _
      rw [losesAllowance_iff ready, ← spendsInVain_expired]
      by_cases vain : SpendsInVain call round slot (world.begin.expired round.clock).store (world.begin.expired round.clock).cap
      · obtain ⟨unsubmitted, lost⟩ := reserveSlot_of_vain vain
        exact iff_of_false (fun unchanged => lost (unchanged unsubmitted).cap) (not_not_intro vain)
      · refine iff_of_true (fun unsubmitted => ?_) vain
        obtain submitted | spared := reserveSlot_of_not_vain vain
        · cases submitted.symm.trans unsubmitted
        · exact (unchanged_iff_of_rolledBack spared.committed).mpr spared.cap

/-- A transaction after which the call waits has submitted nothing and changed nothing that counts. -/
theorem attempt_wait {delay : ℕ} (waits : (attempt call round world).decision = .ok (.wait delay)) :
    (attempt call round world).submitted = false ∧ world.Unchanged (attempt call round world).world := by
  have kept := keeps_checkReservation call round world.begin
  obtain ⟨txn, ran⟩ : ∃ txn, reserveLockedWithCanary call round world.begin = .ok (.wait delay) txn :=
    resultOf_eq_ok.mp waits
  rw [attempt_submitted, attempt_world, ran]
  obtain ⟨turn, middle, checked, rest⟩ := bind_eq_ok.mp ran
  rw [checked] at kept
  cases turn with
  | wait _ =>
    cases rest
    exact ⟨kept.submitted, unchanged_of_keeps kept⟩
  | take slot => exact absurd rest reserveSlot_ne_wait

end Attempt

/-! ## A call -/

/-- No transaction that a call begins loses the allowance. -/
def SparesAllowance (call : Call) : List Iteration → World → Prop
  | [], _ => True
  | iteration :: iterations, before =>
    let world := iteration.others before
    iteration.stop = none → ¬ LosesAllowance call iteration.round world ∧
      let ended := attempt call iteration.round world
      (iteration.finish ended.decision = none → SparesAllowance call iterations ended.world)

attribute [grind =] SparesAllowance

/-- Nobody else changes a counter or the allowance during a call. -/
def Alone (iterations : List Iteration) : Prop :=
  ∀ iteration ∈ iterations, ∀ world, World.Unchanged world (iteration.others world)

attribute [grind =] Alone

/-- Each transaction of a call leaves what counts as it found it. -/
def Execution.Unchanging (execution : Execution) : Prop :=
  ∀ transaction ∈ execution.transactions, transaction.1.Unchanged transaction.2

attribute [grind =] Execution.Unchanging

section Calls

variable {call : Call} {preparation : Preparation} {iterations : List Iteration} {world : World}

theorem Iteration.wait_of_finish {iteration : Iteration} {decision : Except DatabaseError RoundDecision}
    (unfinished : iteration.finish decision = none) : ∃ delay, decision = .ok (.wait delay) := by
  cases decision with
  | error error => cases unfinished
  | ok decision =>
    cases decision with
    | reserved owner slot dispatch =>
      rw [Iteration.finish] at unfinished
      split at unfinished <;> cases unfinished
    | wait delay => exact ⟨delay, rfl⟩

theorem reserveLoop_unchanging_iff (call : Call) (iterations : List Iteration) (world : World) :
    ((reserveLoop call iterations world).submitted = false → (reserveLoop call iterations world).Unchanging) ↔
      SparesAllowance call iterations world := by
  induction iterations generalizing world with
  | nil => exact iff_of_true (fun _ => List.forall_mem_nil _) trivial
  | cons iteration iterations ih =>
    rw [reserveLoop, SparesAllowance]
    cases stopped : iteration.stop with
    | some error => exact iff_of_true (fun _ => List.forall_mem_nil _) (fun going => nomatch going)
    | none =>
      rw [imp_iff_right rfl]
      dsimp only
      cases finished : iteration.finish (attempt call iteration.round (iteration.others world)).decision with
      | some result =>
        simp only [Execution.Unchanging, List.forall_mem_singleton, attempt_unchanged_iff, reduceCtorEq, false_implies,
          and_true]
      | none =>
        obtain ⟨delay, waits⟩ := Iteration.wait_of_finish finished
        obtain ⟨unsubmitted, unchanged⟩ := attempt_wait waits
        have spared := (attempt_unchanged_iff call iteration.round (iteration.others world)).mp fun _ => unchanged
        simp only [Execution.Unchanging, List.forall_mem_cons, unsubmitted, Bool.false_or, spared, unchanged,
          not_false_eq_true, true_and, true_implies]
        exact ih _

/-- A call without competitors ends as its transactions do. -/
theorem reserveLoop_alone (alone : Alone iterations) (unchanging : (reserveLoop call iterations world).Unchanging) :
    world.Unchanged (reserveLoop call iterations world).world := by
  induction iterations generalizing world with
  | nil => exact .refl world
  | cons iteration iterations ih =>
    rw [Alone, List.forall_mem_cons] at alone
    have quiet := alone.1 world
    rw [reserveLoop] at unchanging ⊢
    cases stopped : iteration.stop with
    | some error => exact quiet
    | none =>
      rw [stopped] at unchanging
      dsimp only at unchanging ⊢
      cases finished : iteration.finish (attempt call iteration.round (iteration.others world)).decision with
      | some result =>
        rw [finished] at unchanging
        exact quiet.trans (unchanging _ List.mem_cons_self)
      | none =>
        rw [finished, Execution.Unchanging, List.forall_mem_cons] at unchanging
        exact (quiet.trans unchanging.1).trans (ih alone.2 unchanging.2)

theorem unchanged_of_openTicket {ledger : Ledger} {clock : Clock} {owner : Uuid} {mode : PolicyMode}
    (opened : world.store.ledger.openTicket clock owner mode = .ok ledger) (applied : Bool) :
    world.Unchanged (if applied then { world with store := { world.store with ledger } } else world) := by
  cases applied with
  | false => exact .refl world
  | true =>
    rw [Ledger.openTicket] at opened
    split at opened
    · cases opened
    · cases opened
      exact ⟨⟨rfl, rfl, rfl, rfl⟩, rfl⟩

/-- What a call does before its loop changes nothing that counts. -/
def QuietPreparation (world : World) : Except Execution Prepared → Prop
  | .error execution => execution.submitted = false ∧ execution.Unchanging ∧ world.Unchanged execution.world
  | .ok prepared =>
    (∀ transaction ∈ prepared.transactions, transaction.1.Unchanged transaction.2) ∧ world.Unchanged prepared.world

attribute [grind =] QuietPreparation

/-- The ticket that a call opens for itself does not count, whether its `COMMIT` is applied or not. -/
theorem prepareReservation_quiet (call : Call) (preparation : Preparation) (world : World) :
    QuietPreparation world (prepareReservation call preparation world) := by
  have stopped (error : DatabaseError) : QuietPreparation world (.error (.stopped error world)) :=
    ⟨rfl, List.forall_mem_nil _, .refl world⟩
  rw [prepareReservation]
  split
  · exact stopped _
  split
  · exact stopped _
  split
  · exact stopped _
  split
  · exact ⟨List.forall_mem_nil _, .refl world⟩
  split
  · exact stopped _
  split
  · exact stopped _
  next ledger opened =>
    have unchanged := unchanged_of_openTicket opened preparation.openCommit.applied
    dsimp only
    split
    · exact ⟨rfl, List.forall_mem_singleton.mpr unchanged, unchanged⟩
    · exact ⟨List.forall_mem_singleton.mpr unchanged, unchanged⟩

/-- A call that submits no reservation leaves everything as it was, unless one of its transactions loses the
allowance. -/
theorem reserve_without_effect_iff (call : Call) (preparation : Preparation) (iterations : List Iteration) (world : World) :
    ((reserve call preparation iterations world).submitted = false →
      (reserve call preparation iterations world).Unchanging ∧
        (Alone iterations → world.Unchanged (reserve call preparation iterations world).world)) ↔
      ∀ prepared, prepareReservation call preparation world = .ok prepared →
        SparesAllowance prepared.call iterations prepared.world := by
  have quiet := prepareReservation_quiet call preparation world
  rw [reserve]
  cases entered : prepareReservation call preparation world with
  | error execution =>
    rw [entered] at quiet
    obtain ⟨-, unchanging, unchanged⟩ := quiet
    exact iff_of_true (fun _ => ⟨unchanging, fun _ => unchanged⟩) (fun _ same => nomatch same)
  | ok prepared =>
    rw [entered] at quiet
    obtain ⟨unchanging, unchanged⟩ := quiet
    simp only [Except.ok.injEq, forall_eq']
    rw [← reserveLoop_unchanging_iff]
    refine imp_congr_right fun _ => ?_
    simp only [Execution.Unchanging, List.forall_mem_append]
    constructor
    · exact fun whole => whole.1.2
    · exact fun loop => ⟨⟨unchanging, loop⟩, fun alone => unchanged.trans (reserveLoop_alone alone loop)⟩

end Calls

/-- An operator has armed a canary, and one request is left of the allowance. -/
def armed : World := ⟨⟨Ledger.initial Ledger.singleSlot, some 7, [⟨7, 0, false, 3600000000, 0⟩]⟩, some 1⟩

/-- A call on demand that knows of no canary. -/
def unaware : Call := ⟨.onDemand, none, none, none, false⟩

def undisturbed : Preparation := ⟨false, .ok false, false, 8, ⟨7000, by decide⟩, none, ⟨true, none⟩⟩

/-- No statement fails and nobody else is there. -/
def uneventful : Iteration where
  others := id
  cancelled := false
  ticketFailed := false
  acquire := none
  round := ⟨fun _ => none, ⟨7000, by decide⟩, false, 7000000, 7000000, ⟨true, none⟩⟩
  close := none
  waitChange := none
  fence := none

/-- The canary is asked after the allowance is spent. The call is refused, and the allowance is gone. -/
theorem reserve_loses_allowance :
    (reserve unaware undisturbed [uneventful] armed).result = some (.error .storageUnavailable) ∧
      (reserve unaware undisturbed [uneventful] armed).submitted = false ∧ Alone [uneventful] ∧
      armed.cap = some 1 ∧ (reserve unaware undisturbed [uneventful] armed).world.cap = some 0 ∧
      ¬ armed.Unchanged (reserve unaware undisturbed [uneventful] armed).world := by
  refine ⟨rfl, rfl, List.forall_mem_singleton.mpr fun world => .refl world, rfl, rfl, fun unchanged => ?_⟩
  cases unchanged.cap

end OpenLegal.Admission
