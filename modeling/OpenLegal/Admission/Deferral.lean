import OpenLegal.Admission.Runs

/-! # When a refused collector asks again

A collector that cannot reserve takes one snapshot of the ledger and sleeps until the time it names. The time is put
together from whole seconds and from the same columns that a reservation tests later in milliseconds.
-/

namespace OpenLegal.Admission

open Rust Legal

inductive DeferralReason where
  | providerRecoveryHold
  | providerResponseUncertain
  | providerSuspended
  | providerDailyLimit
  | operationAttemptLimit
  | providerRetryAfter
  | providerAdmissionWait
deriving DecidableEq, Repr

/-- The text of a reason. -/
def DeferralReason.text : DeferralReason → String
  | .providerRecoveryHold => "provider_recovery_hold"
  | .providerResponseUncertain => "provider_response_uncertain"
  | .providerSuspended => "provider_suspended"
  | .providerDailyLimit => "provider_daily_limit"
  | .operationAttemptLimit => "operation_attempt_limit"
  | .providerRetryAfter => "provider_retry_after"
  | .providerAdmissionWait => "provider_admission_wait"

structure ProviderBlockerFingerprint where
  legacyIdentity : Option Uuid
  holdGeneration : Option ℕ
  slotOwners : List Uuid
deriving DecidableEq

/-- What is kept about a blocker beside the ledger, after `observe_uncertainty`. -/
structure Evidence where
  legacyIdentity : Option Uuid
  generation : ℕ

structure ProviderDeferral where
  reason : DeferralReason
  recheckAt : ℕ
  fingerprint : Option ProviderBlockerFingerprint
deriving DecidableEq

theorem Clock.saturatingAdd_ten (clock : Clock) : saturatingAdd clock.secs 10 = clock.secs + 10 := by
  have time := clock.ends
  rw [saturatingAdd, i64Max, Clock.secs]
  omega

namespace Ledger

def providerBlockerFingerprint (ledger : Ledger) (evidence : Evidence) : ProviderBlockerFingerprint where
  legacyIdentity := if ledger.budget.unresolvedResponse then evidence.legacyIdentity else none
  holdGeneration := if ledger.held then some evidence.generation else none
  slotOwners :=
    ((ledger.admissions.filter fun row => !ledger.slotLocked row.slot).map AdmissionRow.owner).mergeSort (· ≤ ·)

def uncertain (ledger : Ledger) : Bool := ledger.budget.unresolvedResponse || ledger.liveOwnerCount.isNone

/-- The budget of the day that is in the row is used up, and that day is today. -/
def dailyExhausted (ledger : Ledger) (clock : Clock) (mode : RequestBudgetMode) : Bool :=
  ledger.budget.utcDay = clock.day &&
    Budget.reached (ledger.budget.policy.limits.daily mode.policy) (ledger.budget.used mode.policy)

/-- The first whole second at which spacing is over. -/
def spacing (ledger : Ledger) : ℕ :=
  ledger.budget.nextRequestAtMs / 1000 + if ledger.budget.nextRequestAtMs % 1000 ≠ 0 then 1 else 0

/-- Pause and spacing are over then, and ten seconds have passed. -/
def earliest (ledger : Ledger) (clock : Clock) : ℤ :=
  max (max ledger.budget.nextAllowedAt ledger.spacing) (saturatingAdd clock.secs 10)

def deferral (ledger : Ledger) (clock : Clock) (mode : RequestBudgetMode) (operationExhausted locallySuspended : Bool) :
    DeferralReason × ℤ :=
  if ledger.held then (.providerRecoveryHold, saturatingAdd clock.secs 3600)
  else if ledger.uncertain then (.providerResponseUncertain, saturatingAdd clock.secs 3600)
  else if ledger.budget.operatorSuspended || locallySuspended then (.providerSuspended, saturatingAdd clock.secs 3600)
  else if ledger.dailyExhausted clock mode then
    (.providerDailyLimit, max (ledger.earliest clock) ((clock.day + 1) * 86400 + 10))
  else if operationExhausted then (.operationAttemptLimit, ledger.earliest clock)
  else if ledger.budget.nextAllowedAt > clock.secs then (.providerRetryAfter, ledger.earliest clock)
  else (.providerAdmissionWait, ledger.earliest clock)

/-- One locked snapshot. `lock` is whether the row lock was obtained; the clock is read after it. -/
def deferralSnapshot (ledger : Ledger) (evidence : Evidence) (lock : Except DatabaseError Unit) (clock : Clock)
    (mode : RequestBudgetMode) (operationExhausted locallySuspended : Bool) : Except DatabaseError ProviderDeferral := do
  lock
  let fingerprint :=
    if ledger.uncertain || ledger.held then some (ledger.providerBlockerFingerprint evidence) else none
  let (reason, recheck) := ledger.deferral clock mode operationExhausted locallySuspended
  if recheck < 0 then .error .storageCorrupt else pure ⟨reason, recheck.toNat, fingerprint⟩

/-- Nothing blocks the provider that only an operator can clear. -/
structure Unblocked (ledger : Ledger) : Prop where
  held : ledger.held = false
  certain : ledger.uncertain = false
  resumed : ledger.budget.operatorSuspended = false

/-- Neither the pause, nor spacing, nor the daily limit keeps a reservation back. -/
structure Due (ledger : Ledger) (clock : Clock) (mode : RequestBudgetMode) : Prop where
  pause : saturatingMul ledger.budget.nextAllowedAt 1000 ≤ clock.ms
  spacing : ledger.budget.nextRequestAtMs ≤ clock.ms
  daily : Budget.reached (ledger.budget.policy.limits.daily mode.policy) (ledger.budget.usedOn clock.day mode.policy) = false

variable {ledger : Ledger} {clock later : Clock} {mode : RequestBudgetMode} {operationExhausted : Bool}

theorem deferral_unblocked (unblocked : ledger.Unblocked) :
    (ledger.deferral clock mode operationExhausted false).2 =
      if ledger.dailyExhausted clock mode then max (ledger.earliest clock) ((clock.day + 1) * 86400 + 10)
      else ledger.earliest clock := by
  simp only [deferral, unblocked.held, unblocked.certain, unblocked.resumed, Bool.or_self, Bool.false_eq_true, if_false]
  split_ifs <;> rfl

theorem earliest_le_recheck (unblocked : ledger.Unblocked) :
    ledger.earliest clock ≤ (ledger.deferral clock mode operationExhausted false).2 := by
  rw [deferral_unblocked unblocked]
  split_ifs
  · exact le_max_left _ _
  · exact le_rfl

theorem recheck_of_snapshot {evidence : Evidence} {lock : Except DatabaseError Unit} {deferral : ProviderDeferral}
    {locallySuspended : Bool}
    (snapshot : ledger.deferralSnapshot evidence lock clock mode operationExhausted locallySuspended = .ok deferral) :
    (deferral.recheckAt : ℤ) = (ledger.deferral clock mode operationExhausted locallySuspended).2 := by
  simp only [deferralSnapshot, bind_eq_ok, ite_error_eq_ok, pure_eq_ok, not_lt, Except.ok.injEq] at snapshot
  obtain ⟨-, -, positive, rfl⟩ := snapshot
  exact Int.toNat_of_nonneg positive

/-- At the first whole second of spacing, spacing is over. -/
theorem nextRequestAtMs_le_of_spacing (elapsed : ledger.spacing ≤ clock.secs) : ledger.budget.nextRequestAtMs ≤ clock.ms := by
  rw [spacing, Clock.secs] at elapsed
  split_ifs at elapsed <;> omega

theorem pause_le_of_secs {pause : ℤ} (elapsed : pause ≤ clock.secs) : saturatingMul pause 1000 ≤ clock.ms := by
  rw [Clock.secs] at elapsed
  rw [saturatingMul]
  have positive := clock.ends
  omega

theorem usedOn_of_other_day {day : ℕ} (other : ledger.budget.utcDay ≠ day) (kind : PolicyMode) :
    ledger.budget.usedOn day kind = 0 := if_neg other

theorem not_reached_zero (ledger : Ledger) (kind : PolicyMode) :
    Budget.reached (ledger.budget.policy.limits.daily kind) 0 = false := by
  cases limited : ledger.budget.policy.limits.daily kind with
  | none => rfl
  | some limit =>
    have positive := ledger.budget.policy.daily_pos limited
    simp only [Budget.reached, Option.any_some, decide_eq_false_iff_not]
    omega

/-- A daily limit that was reached before the snapshot is told by it, or is over. -/
theorem not_reached_of_recheck (unblocked : ledger.Unblocked) (recorded : ledger.budget.utcDay ≤ clock.day)
    (reached : (ledger.deferral clock mode operationExhausted false).2 ≤ later.secs) :
    Budget.reached (ledger.budget.policy.limits.daily mode.policy) (ledger.budget.usedOn later.day mode.policy) = false := by
  by_cases today : ledger.budget.utcDay = later.day
  · by_contra refused
    rw [Bool.not_eq_false, Budget.usedOn, if_pos today] at refused
    have early : ledger.earliest clock ≤ later.secs := (earliest_le_recheck unblocked).trans reached
    rw [earliest, max_le_iff, clock.saturatingAdd_ten] at early
    have forward : clock.day ≤ later.day := Nat.div_le_div_right (by omega)
    -- the counts are those of the snapshot's day, so the recheck time is on a later day
    have same : ledger.budget.utcDay = clock.day := by omega
    have exhausted : ledger.dailyExhausted clock mode = true := by
      rw [dailyExhausted, decide_eq_true same, Bool.true_and]
      exact refused
    rw [deferral_unblocked unblocked, if_pos exhausted, max_le_iff] at reached
    have tomorrow : clock.day + 1 ≤ later.day := (Nat.le_div_iff_mul_le (by decide)).mpr (by omega)
    omega
  · rw [usedOn_of_other_day today, not_reached_zero]

theorem over_of_recheck (unblocked : ledger.Unblocked)
    (reached : (ledger.deferral clock mode operationExhausted false).2 ≤ later.secs) :
    saturatingMul ledger.budget.nextAllowedAt 1000 ≤ later.ms ∧ ledger.budget.nextRequestAtMs ≤ later.ms := by
  have early : ledger.earliest clock ≤ later.secs := (earliest_le_recheck unblocked).trans reached
  rw [earliest, max_le_iff, max_le_iff] at early
  obtain ⟨⟨pause, spacing⟩, -⟩ := early
  exact ⟨pause_le_of_secs pause, nextRequestAtMs_le_of_spacing (by exact_mod_cast spacing)⟩

/-- From the recheck time on, a reservation is not kept back by the pause or by spacing. It is kept back by the daily
limit only if the counts are those of its own day and were written when the clock was already past the snapshot's day. -/
theorem recheck_sound {evidence : Evidence} {lock : Except DatabaseError Unit} {deferral : ProviderDeferral}
    (unblocked : ledger.Unblocked)
    (snapshot : ledger.deferralSnapshot evidence lock clock mode operationExhausted false = .ok deferral)
    (reached : deferral.recheckAt ≤ later.secs) :
    saturatingMul ledger.budget.nextAllowedAt 1000 ≤ later.ms ∧ ledger.budget.nextRequestAtMs ≤ later.ms ∧
      (Budget.reached (ledger.budget.policy.limits.daily mode.policy) (ledger.budget.usedOn later.day mode.policy) = true →
        clock.day < ledger.budget.utcDay ∧ ledger.budget.utcDay = later.day) := by
  have recheck : (ledger.deferral clock mode operationExhausted false).2 ≤ later.secs := by
    rw [← recheck_of_snapshot snapshot]
    exact_mod_cast reached
  obtain ⟨pause, spacing⟩ := over_of_recheck unblocked recheck
  refine ⟨pause, spacing, fun refused => ⟨?_, ?_⟩⟩
  · by_contra recorded
    rw [not_reached_of_recheck unblocked (not_lt.mp recorded) recheck] at refused
    cases refused
  · by_contra other
    rw [usedOn_of_other_day other, not_reached_zero] at refused
    cases refused

/-- The limit of one is used up by one request, which is settled. -/
def usedUp : Ledger :=
  ((initial ⟨dailyLimited 1, by decide⟩).step (⟨2000, by decide⟩, .reserve (.plain .continuous))).step
    (⟨3000, by decide⟩, .settle 0 none)

theorem usedUp_unblocked : usedUp.Unblocked where
  held := by decide
  certain := by decide
  resumed := by decide

theorem recheck_sound_usedUp :
    usedUp.deferralSnapshot ⟨none, 0⟩ (.ok ()) ⟨5000, by decide⟩ .continuous false false =
        .ok ⟨.providerDailyLimit, 86410, none⟩ ∧
      usedUp.budget.nextRequestAtMs ≤ 86410000 ∧
      Budget.reached (usedUp.budget.policy.limits.daily .continuous) (usedUp.budget.usedOn 1 .continuous) = false := by
  have snapshot : usedUp.deferralSnapshot ⟨none, 0⟩ (.ok ()) ⟨5000, by decide⟩ .continuous false false =
      .ok ⟨.providerDailyLimit, 86410, none⟩ := by decide
  have reached : 86410 ≤ (⟨86410000, by decide⟩ : Clock).secs := by decide
  obtain ⟨-, spacing, daily⟩ := recheck_sound usedUp_unblocked snapshot reached
  refine ⟨snapshot, spacing, Bool.eq_false_iff.mpr fun refused => ?_⟩
  exact absurd (daily refused).1 (by decide)

/-- The limit of one is used up on the second day, then the clock is set back to the last seconds of the first. -/
def setBack : Ledger :=
  ((initial ⟨dailyLimited 1, by decide⟩).step (⟨86402000, by decide⟩, .reserve (.plain .continuous))).step
    (⟨86403000, by decide⟩, .settle 0 none)

theorem setBack_unblocked : setBack.Unblocked where
  held := by decide
  certain := by decide
  resumed := by decide

/-- The snapshot names a time ten seconds later, on the day that is used up; the reservation is refused then. -/
theorem recheck_refused_after_setBack :
    setBack.Unblocked ∧
      (setBack.deferralSnapshot ⟨none, 0⟩ (.ok ()) ⟨86395000, by decide⟩ .continuous false false).map
        ProviderDeferral.recheckAt = .ok 86405 ∧
      Budget.reached (setBack.budget.policy.limits.daily .continuous) (setBack.budget.usedOn 1 .continuous) = true ∧
      (setBack.reserveLocked ⟨86405000, by decide⟩ (.plain .continuous)).map Prod.fst = .error .budgetExhausted :=
  ⟨setBack_unblocked, by decide, by decide, by decide⟩

/-- The recheck time lies behind the snapshot. -/
theorem past_of_recheck {evidence : Evidence} {lock : Except DatabaseError Unit} {deferral : ProviderDeferral}
    (unblocked : ledger.Unblocked)
    (snapshot : ledger.deferralSnapshot evidence lock clock mode operationExhausted false = .ok deferral)
    (reached : deferral.recheckAt ≤ later.secs) : clock.ms ≤ later.ms := by
  have recheck := recheck_of_snapshot snapshot
  have early : ledger.earliest clock ≤ (deferral.recheckAt : ℤ) := recheck ▸ earliest_le_recheck unblocked
  rw [earliest, max_le_iff, clock.saturatingAdd_ten] at early
  rw [Clock.secs] at early reached
  omega

/-- Under a clock that does not go back, the recheck time of any run is sound for all three. -/
theorem run_due {policy : Policy} {entries : List (Clock × Action)} (ordered : Ordered entries)
    (past : ∀ entry ∈ entries, entry.1.ms ≤ clock.ms) {evidence : Evidence} {lock : Except DatabaseError Unit}
    {deferral : ProviderDeferral} (unblocked : ((initial policy).run entries).Unblocked)
    (snapshot : ((initial policy).run entries).deferralSnapshot evidence lock clock mode operationExhausted false =
      .ok deferral) (reached : deferral.recheckAt ≤ later.secs) : ((initial policy).run entries).Due later mode := by
  obtain ⟨last, accounted, bound⟩ := run_accounted (initial_accounted policy) ordered fun _ _ => Nat.zero_le _
  have recorded := accounted.day clock (bound clock.ms (Nat.zero_le _) past)
  have recheck : (((initial policy).run entries).deferral clock mode operationExhausted false).2 ≤ later.secs := by
    rw [← recheck_of_snapshot snapshot]
    exact_mod_cast reached
  obtain ⟨pause, spacing⟩ := over_of_recheck unblocked recheck
  exact ⟨pause, spacing, not_reached_of_recheck unblocked recorded recheck⟩

/-! ## What a reservation meets then -/

/-- Every count can be added to. -/
structure Countable (ledger : Ledger) (clock : Clock) : Prop where
  daily : ∀ kind, ledger.budget.usedOn clock.day kind < i64Max
  pilot : ledger.budget.pilotUsed ≤ i64Max

theorem run_countable {policy : Policy} {entries : List (Clock × Action)} (ordered : Ordered entries)
    (past : ∀ entry ∈ entries, entry.1.ms ≤ clock.ms) (passed : clock.ms ≤ later.ms) :
    ((initial policy).run entries).Countable later := by
  obtain ⟨last, accounted, bound⟩ := run_accounted (initial_accounted policy) ordered fun _ _ => Nat.zero_le _
  constructor
  · intro kind
    have counted := accounted.usedOn_le ((bound clock.ms (Nat.zero_le _) past).trans passed) kind
    exact counted.trans_lt (by decide)
  · exact run_pilotUsed_le (Nat.zero_le _) entries

/-- What is decided about an attempt that no limit keeps back: it fails for what it lacks itself, waits for what others hold, or
takes the first slot whose lock is free. -/
def decideUnlimited (ledger : Ledger) (clock : Clock) (attempt : Attempt) : Except DatabaseError Decision := do
  attempt.lock
  ledger.authorize clock.secs attempt.explicitOwner
  if ledger.admissions.length ≥ ledger.budget.policy.limits.maxInFlight then pure (.wait 5000)
  else if ledger.otherTurn attempt.mode clock then pure (.wait 5000)
  else if attempt.ticket.any fun owner =>
      !ledger.tickets.any fun ticket => ticket.owner = owner && ticket.leaseUntil > clock.secs then
    .error .storageUnavailable
  else if attempt.cancelled then .error .cancelled
  else
    match ledger.freeSlot with
    | none => pure (.wait 50)
    | some slot =>
      if attempt.localCap = some 0 then .error .budgetExhausted
      else attempt.canary.map fun _ => .reserved ledger.uuids slot

theorem checkedAdd_of_le {value extra : ℕ} (fits : value + extra ≤ i64Max) : checkedAdd value extra = .ok (value + extra) :=
  if_neg (not_lt.mpr fits)

/-- A slot without a row is taken, unless the allowance or the canary refuses. -/
theorem charge_of_countable {attempt : Attempt} {slot : ℕ} (countable : ledger.Countable clock) (open_ended : attempt.mode ≠ .pilot)
    (vacant : (ledger.admissions.any fun row => row.slot = slot) = false) :
    (ledger.charge clock attempt slot).map Prod.fst =
      if attempt.localCap = some 0 then .error .budgetExhausted
      else attempt.canary.map fun _ => .reserved ledger.uuids slot := by
  have continuous := countable.daily .continuous
  have onDemand := countable.daily .onDemand
  have pilot := countable.pilot
  rw [charge, checkedAdd_of_le (by split_ifs <;> omega), ok_bind, checkedAdd_of_le (by split_ifs <;> omega), ok_bind,
    checkedAdd_of_le (by rwa [if_neg open_ended]), ok_bind, vacant]
  by_cases spent : attempt.localCap = some 0
  · rw [if_pos spent, if_pos spent]
    rfl
  · rw [if_neg spent, if_neg spent]
    cases attempt.canary <;> rfl

/-- A slot whose lock is free has no row, since the rows hold the locks of their slots. -/
theorem vacant_of_freeSlot {slot : ℕ} (locked : ∀ row ∈ ledger.admissions, ledger.slotLocked row.slot = true)
    (free : ledger.freeSlot = some slot) : (ledger.admissions.any fun row => row.slot = slot) = false := by
  have unlocked : ledger.slotLocked slot = false := by simpa using List.find?_some free
  rw [List.any_eq_false]
  intro row member same
  rw [← of_decide_eq_true same, locked row member] at unlocked
  cases unlocked

/-- What is due is decided as if there were no limits. -/
theorem reserveLocked_of_due {attempt : Attempt} (unblocked : ledger.Unblocked) (due : ledger.Due clock attempt.mode)
    (countable : ledger.Countable clock) (open_ended : attempt.mode ≠ .pilot) :
    (ledger.reserveLocked clock attempt).map Prod.fst = ledger.decideUnlimited clock attempt := by
  have certain := unblocked.certain
  rw [uncertain, Bool.or_eq_false_iff, Option.isNone_eq_false_iff, Option.isSome_iff_exists] at certain
  obtain ⟨resolved, active, live⟩ := certain
  obtain ⟨locked, rfl⟩ := liveOwnerCount_eq_some live
  have admitted : ledger.refused attempt.mode clock = false := by
    rw [refused, unblocked.held, unblocked.resumed, resolved, due.daily, decide_eq_false open_ended]
    rfl
  have elapsed : ¬ ledger.budget.next > clock.ms := by
    rw [gt_iff_lt, not_lt, Budget.next, max_le_iff]
    exact ⟨due.pause, by exact_mod_cast due.spacing⟩
  rw [reserveLocked, decideUnlimited, admitted, live]
  cases attempt.lock with
  | error error => rfl
  | ok _ =>
    rw [ok_bind, ok_bind]
    cases ledger.authorize clock.secs attempt.explicitOwner with
    | error error => rfl
    | ok _ =>
      rw [ok_bind, ok_bind, if_neg Bool.false_ne_true]
      dsimp only
      by_cases full : ledger.admissions.length ≥ ledger.budget.policy.limits.maxInFlight
      · rw [if_pos full, if_pos full]
        rfl
      rw [if_neg full, if_neg full]
      by_cases turn : ledger.otherTurn attempt.mode clock = true
      · rw [if_pos turn, if_pos turn]
        rfl
      rw [if_neg turn, if_neg turn, if_neg elapsed]
      cases free : ledger.freeSlot with
      | none => split_ifs <;> rfl
      | some slot =>
        dsimp only
        rw [← charge_of_countable countable open_ended (vacant_of_freeSlot locked free)]
        split_ifs <;> rfl

/-- In a run under a clock that does not go back, a reservation at a recheck time is decided as if there were no limits, and a
slot that it takes was free and is its own then. -/
theorem run_reserveLocked_of_recheck {policy : Policy} {entries : List (Clock × Action)} (ordered : Ordered entries)
    (past : ∀ entry ∈ entries, entry.1.ms ≤ clock.ms) {evidence : Evidence} {lock : Except DatabaseError Unit}
    {deferral : ProviderDeferral} {attempt : Attempt} (unblocked : ((initial policy).run entries).Unblocked)
    (snapshot : ((initial policy).run entries).deferralSnapshot evidence lock clock attempt.mode operationExhausted false =
      .ok deferral) (reached : deferral.recheckAt ≤ later.secs) (open_ended : attempt.mode ≠ .pilot) :
    let ledger := (initial policy).run entries
    (ledger.reserveLocked later attempt).map Prod.fst = ledger.decideUnlimited later attempt ∧
      ∀ owner slot next, ledger.reserveLocked later attempt = .ok (.reserved owner slot, next) →
        ledger.slotLocked slot = false ∧ ledger.Charged next later attempt.mode slot := by
  refine ⟨reserveLocked_of_due unblocked (run_due ordered past unblocked snapshot reached) ?_ open_ended, ?_⟩
  · exact run_countable ordered past (past_of_recheck unblocked snapshot reached)
  · intro owner slot next ran
    rcases of_reserveLocked ran with ⟨delay, impossible, -⟩ | ⟨taken, same, admits, charged⟩
    · cases impossible
    · cases same
      exact ⟨admits.free, charged⟩

/-- An attempt on behalf of a waiting collector, with the last request of its process. -/
def ticketed : Attempt := { Attempt.plain .continuous with ticket := some 5, localCap := some 1 }

/-- The limit of one is used up on the first day, and another collector waits with a ticket. -/
def usedUpWaiting : Ledger :=
  ((initial ⟨dailyLimited 1, by decide⟩).run
    [(⟨2000, by decide⟩, .reserve (.plain .continuous)), (⟨3000, by decide⟩, .settle 0 none),
      (⟨4000, by decide⟩, .demand [⟨5, 90000, .continuous⟩] [] 0)])

/-- Ten seconds into the second day a slot is taken again, unless the allowance of the process is spent. -/
theorem run_reserveLocked_of_recheck_usedUp :
    usedUpWaiting.deferralSnapshot ⟨none, 0⟩ (.ok ()) ⟨5000, by decide⟩ .continuous false false =
        .ok ⟨.providerDailyLimit, 86410, none⟩ ∧
      (usedUpWaiting.reserveLocked ⟨86410000, by decide⟩ ticketed).map Prod.fst = .ok (.reserved 1 2) ∧
      (usedUpWaiting.reserveLocked ⟨86410000, by decide⟩ { ticketed with localCap := some 0 }).map Prod.fst =
        .error .budgetExhausted := by
  have snapshot : usedUpWaiting.deferralSnapshot ⟨none, 0⟩ (.ok ()) ⟨5000, by decide⟩ .continuous false false =
      .ok ⟨.providerDailyLimit, 86410, none⟩ := by decide
  have unblocked : usedUpWaiting.Unblocked := ⟨by decide, by decide, by decide⟩
  have reached : 86410 ≤ (⟨86410000, by decide⟩ : Clock).secs := by decide
  have decided (attempt : Attempt) (mode : attempt.mode = .continuous) :
      (usedUpWaiting.reserveLocked ⟨86410000, by decide⟩ attempt).map Prod.fst =
        usedUpWaiting.decideUnlimited ⟨86410000, by decide⟩ attempt := by
    refine (@run_reserveLocked_of_recheck ⟨5000, by decide⟩ ⟨86410000, by decide⟩ false ⟨dailyLimited 1, by decide⟩ _ ?_ ?_ _ _ _
      attempt unblocked (mode ▸ snapshot) reached (by rw [mode]; decide)).1
    · simp [Ordered]
    · simp
  exact ⟨snapshot, (decided _ rfl).trans (by decide), (decided _ rfl).trans (by decide)⟩

end Ledger

end OpenLegal.Admission
