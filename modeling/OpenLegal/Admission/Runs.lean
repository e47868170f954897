import OpenLegal.Admission.Actions
import OpenLegal.Theory.RateLimit

/-! # Limits over whole runs

What a reservation checks and what it writes are said once. Over every run under a clock that does not go
back, the counters of the budget row are the numbers of reservations of the day, the next request time keeps
reservations apart, and an abandoned owner blocks until the operator acts.
-/

namespace OpenLegal.Admission

open Rust Legal Theory

/-- The two daily counters, of the day in the row. -/
def Budget.counters (budget : Budget) : WindowCounters ℤ PolicyMode := ⟨budget.utcDay, budget.used⟩

namespace Ledger

/-! ## What a reservation does -/

/-- What a reservation writes. -/
structure Charged (ledger next : Ledger) (clock : Clock) (mode : RequestBudgetMode) (slot : ℕ) : Prop where
  counters : next.budget.counters = ledger.budget.counters.record clock.day mode.policy
  nextRequestAtMs : next.budget.nextRequestAtMs = clock.ms + ledger.budget.policy.limits.intervalMs
  nextAllowedAt : next.budget.nextAllowedAt = ledger.budget.nextAllowedAt
  policy : next.budget.policy = ledger.budget.policy
  pilotUsed : next.budget.pilotUsed ≤ i64Max
  admissions : ∃ row : AdmissionRow, row.owner = ledger.uuids ∧ row.slot = slot ∧ next.admissions = ledger.admissions ++ [row]
  sessions : next.sessions = ledger.sessions ++ [⟨ledger.uuids, slot⟩]
  uuids : next.uuids = ledger.uuids + 1

theorem of_charge {ledger next : Ledger} {clock : Clock} {attempt : Attempt} {slot : ℕ} {decision : Decision}
    (ran : ledger.charge clock attempt slot = .ok (decision, next)) :
    decision = .reserved ledger.uuids slot ∧ ledger.Charged next clock attempt.mode slot := by
  simp only [charge, bind_eq_ok, ite_error_eq_ok, pure_eq_ok, checkedAdd, Except.ok.injEq, Prod.mk.injEq] at ran
  obtain ⟨daily, ⟨-, rfl⟩, demand, ⟨-, rfl⟩, pilot, ⟨fits, rfl⟩, -, _, -, -, rfl, rfl⟩ := ran
  refine ⟨rfl, ?_, clock.saturatingAdd_interval _, rfl, rfl, not_lt.mp fits, ⟨_, rfl, rfl, rfl⟩, rfl, rfl⟩
  rw [Budget.counters, WindowCounters.record, WindowCounters.mk.injEq]
  refine ⟨rfl, ?_⟩
  funext mode
  cases mode <;> cases attempt.mode <;> rfl

/-- What a reservation has checked. -/
structure Admits (ledger : Ledger) (clock : Clock) (mode : RequestBudgetMode) (slot : ℕ) : Prop where
  admitted : ledger.refused mode clock = false
  locked : ∀ row ∈ ledger.admissions, ledger.slotLocked row.slot = true
  room : ledger.admissions.length < ledger.budget.policy.limits.maxInFlight
  due : ledger.budget.next ≤ clock.ms
  free : ledger.slotLocked slot = false

/-- An attempt waits and changes nothing, or it reserves. -/
theorem of_reserveLocked {ledger next : Ledger} {clock : Clock} {attempt : Attempt} {decision : Decision}
    (ran : ledger.reserveLocked clock attempt = .ok (decision, next)) :
    (∃ delay, decision = .wait delay ∧ next = ledger) ∨
      ∃ slot, decision = .reserved ledger.uuids slot ∧ ledger.Admits clock attempt.mode slot ∧
        ledger.Charged next clock attempt.mode slot := by
  simp only [reserveLocked, bind_eq_ok, ite_error_eq_ok, Bool.not_eq_true] at ran
  obtain ⟨_, -, _, -, admitted, ran⟩ := ran
  cases live : ledger.liveOwnerCount with
  | none =>
    rw [live] at ran
    cases ran
  | some active =>
    obtain ⟨locked, rfl⟩ := liveOwnerCount_eq_some live
    rw [live] at ran
    simp only [pure_eq_ok] at ran
    split_ifs at ran with full turn early far dead cancelled
    · cases ran
      exact .inl ⟨_, rfl, rfl⟩
    · cases ran
      exact .inl ⟨_, rfl, rfl⟩
    · cases ran
      exact .inl ⟨_, rfl, rfl⟩
    · cases free : ledger.freeSlot with
      | none =>
        rw [free] at ran
        cases ran
        exact .inl ⟨_, rfl, rfl⟩
      | some slot =>
        rw [free] at ran
        obtain ⟨decided, charged⟩ := of_charge ran
        have unlocked := List.find?_some free
        refine .inr ⟨slot, decided, ?_, charged⟩
        exact ⟨admitted, locked, not_le.mp full, not_lt.mp early, by simpa using unlocked⟩

/-! ## What a step does -/

/-- A step that reserves nothing leaves counters and spacing, and only takes rows and sessions away. The policy
changes only if it is configured, and a pause gets shorter only if the operator acts. -/
structure Quiet (action : Action) (ledger next : Ledger) : Prop where
  counters : next.budget.counters = ledger.budget.counters
  nextRequestAtMs : next.budget.nextRequestAtMs = ledger.budget.nextRequestAtMs
  pilotUsed : next.budget.pilotUsed = ledger.budget.pilotUsed
  admissions : next.admissions ⊆ ledger.admissions
  sessions : next.sessions ⊆ ledger.sessions
  policy : next.budget.policy = ledger.budget.policy ∨
    ∃ limits, action = .configure limits ∧ next.budget.policy.limits = limits
  nextAllowedAt : action.isOperator = false → ledger.budget.nextAllowedAt ≤ next.budget.nextAllowedAt

theorem Quiet.refl (action : Action) (ledger : Ledger) : Quiet action ledger ledger :=
  ⟨rfl, rfl, rfl, List.Subset.refl _, List.Subset.refl _, .inl rfl, fun _ => le_rfl⟩

theorem deleteOwner_subset (ledger : Ledger) (owner : Uuid) : ledger.deleteOwner owner ⊆ ledger.admissions :=
  List.filter_subset_self _

theorem settle_quiet {ledger next : Ledger} {clock : Clock} {owner : Uuid} {delay : Option ℕ}
    (ran : ledger.settle clock owner delay = .ok next) : Quiet (.settle owner delay) ledger next := by
  simp only [settle, ite_error_eq_ok] at ran
  obtain ⟨-, -, ran⟩ := ran
  cases delay with
  | none =>
    cases ran
    exact ⟨rfl, rfl, rfl, ledger.deleteOwner_subset owner, List.Subset.refl _, .inl rfl, fun _ => le_rfl⟩
  | some delay =>
    cases ran
    exact ⟨rfl, rfl, rfl, ledger.deleteOwner_subset owner, List.Subset.refl _, .inl rfl, fun _ => le_max_left _ _⟩

theorem configure_quiet {ledger next : Ledger} {limits : ProviderRequestLimits}
    (ran : ledger.configureProviderRequestLimits limits = .ok next) : Quiet (.configure limits) ledger next := by
  rw [configureProviderRequestLimits] at ran
  split_ifs at ran
  cases ran
  exact ⟨rfl, rfl, rfl, List.Subset.refl _, List.Subset.refl _, .inr ⟨limits, rfl, rfl⟩, fun _ => le_rfl⟩

theorem providerApply_quiet {ledger next : Ledger} {plan : RecoveryPlan} (ran : ledger.providerApply plan = .ok next) :
    Quiet (.recover plan) ledger next := by
  simp only [providerApply, ite_error_eq_ok, Except.ok.injEq] at ran
  obtain ⟨-, -, -, -, rfl⟩ := ran
  exact ⟨rfl, rfl, rfl, List.filter_subset_self _, List.Subset.refl _, .inl rfl, fun _ => le_rfl⟩

/-- Every action makes a reservation that was admitted and is charged, or none. -/
theorem step_cases (ledger : Ledger) (clock : Clock) (action : Action) :
    (ledger.reservation clock action = none ∧ Quiet action ledger (ledger.step (clock, action))) ∨
      ∃ attempt slot, action = .reserve attempt ∧ ledger.Admits clock attempt.mode slot ∧
        ledger.Charged (ledger.step (clock, action)) clock attempt.mode slot ∧
        ledger.reservation clock action = some
          ⟨ledger.uuids, slot, attempt.mode, clock, ledger.budget.policy, ledger.admissions.length + 1⟩ := by
  cases ran : ledger.perform clock action with
  | error error =>
    have same : ledger.step (clock, action) = ledger := by
      rw [step, ran]
      rfl
    rw [same]
    refine .inl ⟨?_, .refl action ledger⟩
    cases action with
    | reserve attempt =>
      rw [perform] at ran
      cases reserved : ledger.reserveLocked clock attempt with
      | error error => simp only [reservation, reserved]
      | ok result => simp [reserved] at ran
    | _ => rfl
  | ok next =>
    have same : ledger.step (clock, action) = next := by
      rw [step, ran]
      rfl
    rw [same]
    cases action with
    | reserve attempt =>
      rw [perform] at ran
      obtain ⟨⟨decision, after⟩, reserved, final⟩ := bind_eq_ok.mp ran
      cases final
      rcases of_reserveLocked reserved with ⟨delay, rfl, rfl⟩ | ⟨slot, rfl, admits, charged⟩
      · exact .inl ⟨by simp only [reservation, reserved], .refl _ _⟩
      · refine .inr ⟨attempt, slot, rfl, admits, charged, ?_⟩
        obtain ⟨row, -, -, rows⟩ := charged.admissions
        simp only [reservation, reserved, rows, List.length_append, List.length_singleton]
    | settle owner delay => exact .inl ⟨rfl, settle_quiet ran⟩
    | suspend owner =>
      cases ran
      refine .inl ⟨rfl, rfl, rfl, rfl, ledger.deleteOwner_subset owner, List.Subset.refl _, .inl rfl, ?_⟩
      exact fun _ => le_rfl
    | disconnect owner =>
      cases ran
      refine .inl ⟨rfl, rfl, rfl, rfl, List.Subset.refl _, List.filter_subset_self _, .inl rfl, ?_⟩
      exact fun _ => le_rfl
    | configure limits => exact .inl ⟨rfl, configure_quiet ran⟩
    | recover plan => exact .inl ⟨rfl, providerApply_quiet ran⟩
    | operate nextAllowedAt operatorSuspended held =>
      cases ran
      refine .inl ⟨rfl, rfl, rfl, rfl, List.Subset.refl _, List.Subset.refl _, .inl rfl, ?_⟩
      intro other
      cases other
    | demand _ _ _ | beginPilot =>
      cases ran
      refine .inl ⟨rfl, rfl, rfl, rfl, List.Subset.refl _, List.Subset.refl _, .inl rfl, ?_⟩
      exact fun _ => le_rfl

/-! ## Counters and spacing over runs -/

/-- The day and the budget that a reservation is charged to. -/
def Reservation.charge (made : Reservation) : ℤ × PolicyMode := (made.clock.day, made.mode.policy)

/-- A reservation is within the limits in force: on its day, with all earlier ones of its budget, and with all
admissions that are live. -/
structure Reservation.Within (made : Reservation) (earlier : List Reservation) : Prop where
  daily : ∀ limit, made.policy.limits.daily made.mode.policy = some limit →
    ((earlier ++ [made]).map Reservation.charge).count made.charge ≤ limit
  live : made.live ≤ made.policy.limits.maxInFlight

/-- The row agrees with the reservations made so far, the last action being at `latest`. -/
structure Accounted (ledger : Ledger) (history : List Reservation) (latest : ℕ) : Prop where
  counts : ledger.budget.counters.Counts (history.map Reservation.charge)
  day : ∀ clock : Clock, latest ≤ clock.ms → ledger.budget.utcDay ≤ clock.day
  spaced : Spaced ledger.budget.nextRequestAtMs
    (history.map fun made => (made.clock.ms, made.policy.limits.intervalMs))
  within : ∀ earlier made later, history = earlier ++ made :: later → made.Within earlier

theorem initial_accounted (policy : Policy) : (initial policy).Accounted [] 0 := by
  constructor
  · exact ⟨by simp, by intro kind; cases kind <;> rfl⟩
  · intro clock _
    have past : (-1 : ℤ) ≤ clock.day := by omega
    exact past
  · exact ⟨List.isChain_nil, by simp⟩
  · simp

/-- What is due is due for spacing. -/
theorem nextRequestAtMs_le {budget : Budget} {ms : ℕ} (due : budget.next ≤ ms) : budget.nextRequestAtMs ≤ ms := by
  have le := (le_max_right _ _).trans due
  exact_mod_cast le

theorem Admits.below {ledger : Ledger} {clock : Clock} {mode : RequestBudgetMode} {slot limit : ℕ}
    (admits : ledger.Admits clock mode slot) (limited : ledger.budget.policy.limits.daily mode.policy = some limit) :
    ledger.budget.usedOn clock.day mode.policy < limit := by
  have admitted := admits.admitted
  simp only [refused, Bool.or_eq_false_iff] at admitted
  have free := admitted.1.2
  rw [Budget.reached, limited] at free
  simpa using free

/-- A charged reservation is within the daily limit. -/
theorem within_of_admits {ledger : Ledger} {history : List Reservation} {latest : ℕ} {clock : Clock}
    {mode : RequestBudgetMode} {slot : ℕ} (accounted : ledger.Accounted history latest) (reached : latest ≤ clock.ms)
    (admits : ledger.Admits clock mode slot) (owner : Uuid) :
    Reservation.Within ⟨owner, slot, mode, clock, ledger.budget.policy, ledger.admissions.length + 1⟩ history := by
  constructor
  · intro limit limited
    have below := admits.below limited
    have counted := accounted.counts.usedIn_eq (accounted.day clock reached) mode.policy
    have same : ledger.budget.counters.usedIn clock.day mode.policy = ledger.budget.usedOn clock.day mode.policy := rfl
    rw [List.map_append, List.count_append, Reservation.charge, List.map_singleton, Reservation.charge,
      List.count_singleton_self, ← counted, same]
    omega
  · exact admits.room

theorem step_accounted {ledger : Ledger} {history : List Reservation} {latest : ℕ}
    (accounted : ledger.Accounted history latest) {clock : Clock} (reached : latest ≤ clock.ms) (action : Action) :
    (ledger.step (clock, action)).Accounted (history ++ (ledger.reservation clock action).toList) clock.ms := by
  rcases ledger.step_cases clock action with ⟨none, quiet⟩ | ⟨attempt, slot, -, admits, charged, made⟩
  · rw [none, Option.toList_none, List.append_nil]
    have sameDay : (ledger.step (clock, action)).budget.utcDay = ledger.budget.utcDay :=
      congrArg WindowCounters.window quiet.counters
    constructor
    · exact quiet.counters ▸ accounted.counts
    · intro later le
      rw [sameDay]
      exact accounted.day later (reached.trans le)
    · exact quiet.nextRequestAtMs ▸ accounted.spaced
    · exact accounted.within
  · rw [made, Option.toList_some]
    have today : (ledger.step (clock, action)).budget.utcDay = clock.day :=
      congrArg WindowCounters.window charged.counters
    constructor
    · rw [charged.counters, List.map_append]
      exact accounted.counts.record (accounted.day clock reached) _
    · intro later le
      rw [today]
      exact_mod_cast Clock.day_le le
    · rw [charged.nextRequestAtMs, List.map_append]
      exact accounted.spaced.pass (nextRequestAtMs_le admits.due)
    · intro earlier other later shape
      rcases List.eq_nil_or_concat later with rfl | ⟨front, last, rfl⟩
      · obtain ⟨rfl, same⟩ := List.append_inj' shape rfl
        cases same
        exact within_of_admits accounted reached admits _
      · rw [List.concat_eq_append, ← List.cons_append, ← List.append_assoc] at shape
        exact accounted.within earlier other front (List.append_inj' shape rfl).1

/-- Clock readings do not go back. -/
def Ordered (entries : List (Clock × Action)) : Prop := entries.Pairwise fun earlier later => earlier.1.ms ≤ later.1.ms

theorem run_accounted {ledger : Ledger} {history : List Reservation} {latest : ℕ}
    (accounted : ledger.Accounted history latest) {entries : List (Clock × Action)} (ordered : Ordered entries)
    (reached : ∀ entry ∈ entries, latest ≤ entry.1.ms) :
    ∃ last, (ledger.run entries).Accounted (history ++ ledger.reservations entries) last ∧
      ∀ time, latest ≤ time → (∀ entry ∈ entries, entry.1.ms ≤ time) → last ≤ time := by
  induction entries generalizing ledger history latest with
  | nil => exact ⟨latest, by rwa [reservations, List.append_nil], fun _ le _ => le⟩
  | cons entry entries ih =>
    obtain ⟨later, rest⟩ := List.pairwise_cons.mp ordered
    obtain ⟨clock, action⟩ := entry
    have stepped := step_accounted accounted (reached _ List.mem_cons_self) action
    obtain ⟨last, final, bound⟩ := ih stepped rest later
    refine ⟨last, ?_, ?_⟩
    · rwa [List.append_assoc] at final
    · intro time _ all
      rw [List.forall_mem_cons] at all
      exact bound time all.1 all.2

/-- Reservations of one day are apart by a millisecond at least, so that its counts stay far from overflow. -/
theorem Accounted.usedOn_le {ledger : Ledger} {history : List Reservation} {latest : ℕ} (accounted : ledger.Accounted history latest)
    {clock : Clock} (reached : latest ≤ clock.ms) (kind : PolicyMode) : ledger.budget.usedOn clock.day kind ≤ 86400000 := by
  have counted := accounted.counts.usedIn_eq (accounted.day clock reached) kind
  have same : ledger.budget.counters.usedIn clock.day kind = ledger.budget.usedOn clock.day kind := rfl
  have bound : (history.map fun made => (made.clock.ms, made.policy.limits.intervalMs)).countP
      (fun passage => passage.1 / 1000 / 86400 = clock.day) ≤ 86400000 := by
    refine accounted.spaced.countP_le ?_ (clock.day * 86400000) 86400000 ?_
    · simp only [List.forall_mem_map]
      exact fun made _ => made.policy.interval_pos
    · intro passage today
      rw [decide_eq_true_eq] at today
      omega
  rw [List.countP_map] at bound
  rw [← same, counted, List.count_eq_countP, List.countP_map]
  refine (List.countP_mono_left fun made _ charged => ?_).trans bound
  simp only [Function.comp_apply, Reservation.charge, beq_iff_eq, Prod.mk.injEq, Int.natCast_inj] at charged
  exact decide_eq_true charged.1

/-- The count of the pilot, which is over no day, was checked when it was added to. -/
theorem run_pilotUsed_le {ledger : Ledger} (stored : ledger.budget.pilotUsed ≤ i64Max) (entries : List (Clock × Action)) :
    (ledger.run entries).budget.pilotUsed ≤ i64Max := by
  induction entries generalizing ledger with
  | nil => exact stored
  | cons entry entries ih =>
    refine ih ?_
    rcases ledger.step_cases entry.1 entry.2 with ⟨-, quiet⟩ | ⟨attempt, slot, -, -, charged, -⟩
    · exact quiet.pilotUsed.trans_le stored
    · exact charged.pilotUsed

/-! ## Daily limits that are not lowered below the count -/

/-- No policy of the run sets a limit below what the day has used already. -/
def KeepsLimits : Ledger → List (Clock × Action) → Prop
  | _, [] => True
  | ledger, entry :: entries =>
    (∀ limits mode limit, entry.2 = .configure limits → limits.daily mode = some limit →
      ledger.budget.usedOn entry.1.day mode ≤ limit) ∧ KeepsLimits (ledger.step entry) entries

/-- From a time on, the count of the day stays within the limit. -/
def LimitsKept (ledger : Ledger) (latest : ℕ) : Prop :=
  ∀ clock : Clock, latest ≤ clock.ms → ∀ mode limit, ledger.budget.policy.limits.daily mode = some limit →
    ledger.budget.usedOn clock.day mode ≤ limit

theorem initial_limitsKept (policy : Policy) : (initial policy).LimitsKept 0 := by
  intro clock _ mode limit _
  have other : (initial policy).budget.utcDay ≠ clock.day := show (-1 : ℤ) ≠ clock.day by omega
  rw [Budget.usedOn, if_neg other]
  exact Nat.zero_le _

theorem step_limitsKept {ledger : Ledger} {history : List Reservation} {latest : ℕ}
    (accounted : ledger.Accounted history latest) (kept : ledger.LimitsKept latest) {clock : Clock} {action : Action}
    (reached : latest ≤ clock.ms)
    (keeps : ∀ limits mode limit, action = .configure limits → limits.daily mode = some limit →
      ledger.budget.usedOn clock.day mode ≤ limit) :
    (ledger.step (clock, action)).LimitsKept clock.ms := by
  intro later le mode limit limited
  rcases ledger.step_cases clock action with ⟨-, quiet⟩ | ⟨attempt, slot, -, admits, charged, -⟩
  · have same (day : ℕ) : (ledger.step (clock, action)).budget.usedOn day mode = ledger.budget.usedOn day mode :=
      congrArg (fun counters => counters.usedIn (day : ℤ) mode) quiet.counters
    rw [same]
    rcases quiet.policy with policy | ⟨limits, configured, policy⟩
    · exact kept later (reached.trans le) mode limit (policy ▸ limited)
    · by_cases today : ledger.budget.utcDay = later.day
      · have before := accounted.day clock reached
        have after := Clock.day_le le
        have sameDay : clock.day = later.day := by omega
        exact sameDay ▸ keeps limits mode limit configured (policy ▸ limited)
      · rw [Budget.usedOn, if_neg today]
        exact Nat.zero_le _
  · rw [charged.policy] at limited
    have recorded : (ledger.step (clock, action)).budget.usedOn later.day mode =
        (ledger.budget.counters.record clock.day attempt.mode.policy).usedIn later.day mode :=
      congrArg (fun counters => counters.usedIn (later.day : ℤ) mode) charged.counters
    rw [recorded, WindowCounters.usedIn]
    split_ifs with today
    · have before := kept clock reached mode limit limited
      by_cases mine : mode = attempt.mode.policy
      · subst mine
        have below := admits.below limited
        have counted : (ledger.budget.counters.record clock.day attempt.mode.policy).used attempt.mode.policy =
            ledger.budget.usedOn clock.day attempt.mode.policy + 1 := by
          rw [WindowCounters.record_used, if_pos rfl]
          rfl
        omega
      · have counted : (ledger.budget.counters.record clock.day attempt.mode.policy).used mode =
            ledger.budget.usedOn clock.day mode := by
          rw [WindowCounters.record_used, if_neg mine]
          rfl
        omega
    · exact Nat.zero_le _

theorem run_limitsKept {ledger : Ledger} {history : List Reservation} {latest : ℕ}
    (accounted : ledger.Accounted history latest) (kept : ledger.LimitsKept latest) {entries : List (Clock × Action)}
    (ordered : Ordered entries) (reached : ∀ entry ∈ entries, latest ≤ entry.1.ms) (keeps : ledger.KeepsLimits entries)
    {clock : Clock} (first : latest ≤ clock.ms) (last : ∀ entry ∈ entries, entry.1.ms ≤ clock.ms) {mode : PolicyMode} {limit : ℕ}
    (limited : (ledger.run entries).budget.policy.limits.daily mode = some limit) :
    (ledger.run entries).budget.usedOn clock.day mode ≤ limit := by
  induction entries generalizing ledger history latest with
  | nil => exact kept clock first mode limit limited
  | cons entry entries ih =>
    obtain ⟨later, rest⟩ := List.pairwise_cons.mp ordered
    rw [List.forall_mem_cons] at reached last
    obtain ⟨now, action⟩ := entry
    exact ih (step_accounted accounted reached.1 action) (step_limitsKept accounted kept reached.1 keeps.1) rest later
      keeps.2 last.1 last.2 limited

/-! ## Abandoned owners -/

/-- A locked slot with a row is locked by the owner of the row. -/
def OwnLocks (ledger : Ledger) : Prop :=
  ∀ row ∈ ledger.admissions, ∀ session ∈ ledger.sessions, session.slot = row.slot → session.owner = row.owner

/-- The owner has a row and is not connected. -/
structure Abandoned (ledger : Ledger) (owner : Uuid) : Prop where
  row : ∃ row ∈ ledger.admissions, row.owner = owner
  disconnected : ∀ session ∈ ledger.sessions, session.owner ≠ owner

theorem slotLocked_iff {ledger : Ledger} {slot : ℕ} :
    ledger.slotLocked slot = true ↔ ∃ session ∈ ledger.sessions, session.slot = slot := by
  simp [slotLocked]

theorem step_ownLocks {ledger : Ledger} (own : ledger.OwnLocks) (clock : Clock) (action : Action) :
    (ledger.step (clock, action)).OwnLocks := by
  rcases ledger.step_cases clock action with ⟨-, quiet⟩ | ⟨attempt, slot, -, admits, charged, -⟩
  · intro row member session connected
    exact own row (quiet.admissions member) session (quiet.sessions connected)
  · intro row member session connected same
    obtain ⟨new, owner, place, rows⟩ := charged.admissions
    have free : ¬ ledger.slotLocked slot = true := by
      rw [admits.free]
      decide
    rw [rows, List.mem_append, List.mem_singleton] at member
    rw [charged.sessions, List.mem_append, List.mem_singleton] at connected
    rcases member with old | rfl
    · rcases connected with before | rfl
      · exact own row old session before same
      · rw [show slot = row.slot from same] at free
        exact absurd (admits.locked row old) free
    · rcases connected with before | rfl
      · exact absurd (slotLocked_iff.mpr ⟨session, before, same.trans place⟩) free
      · exact owner.symm

/-- Nothing is reserved beside an abandoned owner or under suspension. -/
theorem not_admits {ledger : Ledger} (own : ledger.OwnLocks) {owner : Uuid}
    (blocked : ledger.Abandoned owner ∨ ledger.budget.operatorSuspended = true) {clock : Clock} {mode : RequestBudgetMode}
    {slot : ℕ} : ¬ ledger.Admits clock mode slot := by
  intro admits
  rcases blocked with abandoned | suspended
  · obtain ⟨row, member, named⟩ := abandoned.row
    obtain ⟨session, connected, same⟩ := (slotLocked_iff).mp (admits.locked row member)
    exact abandoned.disconnected session connected ((own row member session connected same).trans named)
  · have admitted := admits.admitted
    rw [refused, suspended] at admitted
    simp at admitted


/-- Only the operator frees what an abandoned owner blocks; a late rejection leaves suspension behind. -/
theorem step_blocked {ledger : Ledger} (own : ledger.OwnLocks) {owner : Uuid}
    (blocked : ledger.Abandoned owner ∨ ledger.budget.operatorSuspended = true) {clock : Clock} {action : Action}
    (other : action.isOperator = false) :
    (ledger.step (clock, action)).Abandoned owner ∨ (ledger.step (clock, action)).budget.operatorSuspended = true := by
  cases ran : ledger.perform clock action with
  | error error =>
    rw [step, ran]
    exact blocked
  | ok next =>
    have same : ledger.step (clock, action) = next := by
      rw [step, ran]
      rfl
    rw [same]
    cases action with
    | reserve attempt =>
      obtain ⟨⟨decision, after⟩, reserved, final⟩ := bind_eq_ok.mp ran
      cases final
      rcases of_reserveLocked reserved with ⟨delay, -, rfl⟩ | ⟨slot, -, admits, -⟩
      · exact blocked
      · exact absurd admits (not_admits own blocked)
    | settle settled delay =>
      simp only [perform, settle, ite_error_eq_ok] at ran
      obtain ⟨connected, -, ran⟩ := ran
      rcases blocked with abandoned | suspended
      · left
        have different : settled ≠ owner := by
          rintro rfl
          simp only [Bool.not_eq_true', Bool.not_eq_false, List.any_eq_true, decide_eq_true_eq] at connected
          obtain ⟨session, present, named⟩ := connected
          exact abandoned.disconnected session present named
        obtain ⟨row, member, named⟩ := abandoned.row
        have stays : row ∈ ledger.deleteOwner settled := by
          apply List.mem_filter.mpr
          exact ⟨member, by simpa [named] using different.symm⟩
        cases delay <;> cases ran <;> exact ⟨⟨row, stays, named⟩, abandoned.disconnected⟩
      · right
        cases delay <;> cases ran <;> simp [suspended]
    | suspend rejected =>
      cases ran
      exact .inr rfl
    | disconnect gone =>
      cases ran
      refine blocked.imp_left fun abandoned => ⟨abandoned.row, ?_⟩
      intro session present
      exact abandoned.disconnected session (List.mem_of_mem_filter present)
    | demand tickets requests seen =>
      cases ran
      exact blocked.imp_left fun abandoned => ⟨abandoned.row, abandoned.disconnected⟩
    | beginPilot =>
      cases ran
      exact blocked.imp_left fun abandoned => ⟨abandoned.row, abandoned.disconnected⟩
    | configure limits => cases other
    | recover plan => cases other
    | operate nextAllowedAt operatorSuspended held => cases other

theorem reservations_blocked {ledger : Ledger} (own : ledger.OwnLocks) {owner : Uuid}
    (blocked : ledger.Abandoned owner ∨ ledger.budget.operatorSuspended = true) {entries : List (Clock × Action)}
    (others : ∀ entry ∈ entries, entry.2.isOperator = false) : ledger.reservations entries = [] := by
  induction entries generalizing ledger with
  | nil => rfl
  | cons entry entries ih =>
    rw [List.forall_mem_cons] at others
    rw [reservations, ih (step_ownLocks own _ _) (step_blocked own blocked others.1) others.2, List.append_nil]
    rcases ledger.step_cases entry.1 entry.2 with ⟨none, -⟩ | ⟨attempt, slot, -, admits, -, -⟩
    · rw [none, Option.toList_none]
    · exact absurd admits (not_admits own blocked)

theorem run_ownLocks {ledger : Ledger} (own : ledger.OwnLocks) (entries : List (Clock × Action)) :
    (ledger.run entries).OwnLocks := by
  induction entries generalizing ledger with
  | nil => exact own
  | cons entry entries ih => exact ih (step_ownLocks own _ _)

/-! ## The contract of the ledger -/

/-- What holds of a run that starts with an unused ledger. -/
structure Contract (policy : Policy) (entries : List (Clock × Action)) : Prop where
  /-- The used count of a day is the number of reservations charged to it. -/
  used : ∀ clock : Clock, (∀ entry ∈ entries, entry.1.ms ≤ clock.ms) → ∀ mode,
    ((initial policy).run entries).budget.usedOn clock.day mode =
      (((initial policy).reservations entries).map Reservation.charge).count (↑clock.day, mode)
  /-- Every reservation is within the daily limit and the capacity in force when it is made. -/
  within : ∀ earlier made later, (initial policy).reservations entries = earlier ++ made :: later → made.Within earlier
  /-- The count exceeds the limit only if a limit is configured below it. -/
  limits : (initial policy).KeepsLimits entries → ∀ clock : Clock, (∀ entry ∈ entries, entry.1.ms ≤ clock.ms) →
    ∀ mode limit, ((initial policy).run entries).budget.policy.limits.daily mode = some limit →
      ((initial policy).run entries).budget.usedOn clock.day mode ≤ limit
  /-- Consecutive reservations are apart by the interval in force at the earlier one. -/
  apart : ((initial policy).reservations entries).IsChain fun earlier later =>
    earlier.clock.ms + earlier.policy.limits.intervalMs ≤ later.clock.ms
  /-- An abandoned owner blocks every reservation until the operator acts. -/
  abandoned : ∀ before during after owner, entries = before ++ during ++ after →
    ((initial policy).run before).Abandoned owner → (∀ entry ∈ during, entry.2.isOperator = false) →
      ((initial policy).run before).reservations during = []
  /-- A settlement deletes the row of its owner and no other. -/
  settles : ∀ before after, entries = before ++ after → ∀ clock owner delay next,
    ((initial policy).run before).settle clock owner delay = .ok next →
      ∀ row, row ∈ next.admissions ↔ row ∈ ((initial policy).run before).admissions ∧ row.owner ≠ owner
  /-- A pause gets shorter only if the operator acts. -/
  pause : ∀ before clock action after, entries = before ++ (clock, action) :: after → action.isOperator = false →
    ((initial policy).run before).budget.nextAllowedAt ≤
      ((initial policy).run (before ++ [(clock, action)])).budget.nextAllowedAt

theorem initial_ownLocks (policy : Policy) : (initial policy).OwnLocks := by
  intro row member
  cases member

theorem run_append (ledger : Ledger) (first second : List (Clock × Action)) :
    ledger.run (first ++ second) = (ledger.run first).run second :=
  List.foldl_append

theorem step_nextAllowedAt (ledger : Ledger) {clock : Clock} {action : Action} (other : action.isOperator = false) :
    ledger.budget.nextAllowedAt ≤ (ledger.step (clock, action)).budget.nextAllowedAt := by
  rcases ledger.step_cases clock action with ⟨-, quiet⟩ | ⟨attempt, slot, -, -, charged, -⟩
  · exact quiet.nextAllowedAt other
  · exact charged.nextAllowedAt.ge

theorem mem_of_settle {ledger next : Ledger} {clock : Clock} {owner : Uuid} {delay : Option ℕ}
    (ran : ledger.settle clock owner delay = .ok next) (row : AdmissionRow) :
    row ∈ next.admissions ↔ row ∈ ledger.admissions ∧ row.owner ≠ owner := by
  have deleted : next.admissions = ledger.deleteOwner owner := by
    simp only [settle, ite_error_eq_ok] at ran
    obtain ⟨-, -, ran⟩ := ran
    cases delay <;> cases ran <;> rfl
  simp [deleted, deleteOwner]

theorem admission_ledger (policy : Policy) (entries : List (Clock × Action)) (ordered : Ordered entries) :
    Contract policy entries := by
  have started := initial_accounted policy
  obtain ⟨last, accounted, bound⟩ := run_accounted started ordered fun _ _ => Nat.zero_le _
  rw [List.nil_append] at accounted
  constructor
  · intro clock later mode
    exact accounted.counts.usedIn_eq (accounted.day clock (bound clock.ms (Nat.zero_le _) later)) mode
  · exact accounted.within
  · intro keeps clock later mode limit limited
    exact run_limitsKept started (initial_limitsKept policy) ordered (fun _ _ => Nat.zero_le _) keeps
      (Nat.zero_le _) later limited
  · have apart := accounted.spaced.apart
    rwa [List.isChain_map] at apart
  · intro before during after owner _ abandoned others
    exact reservations_blocked (run_ownLocks (initial_ownLocks policy) before) (.inl abandoned) others
  · intro before after _ clock owner delay next ran row
    exact mem_of_settle ran row
  · intro before clock action after _ other
    rw [run_append]
    exact step_nextAllowedAt _ other

/-- A daily limit, four slots and a fifth of a second between requests. -/
def dailyLimited (limit : ℕ) : ProviderRequestLimits :=
  ⟨.limited limit, .limited 1000, .limited 100, .limited 32, 200, 4, 1800, 7200, 3⟩

/-- Two requests of one day, and then a limit of one. -/
def loweredLimit : List (Clock × Action) :=
  [(⟨1000, by decide⟩, .reserve (.plain .continuous)), (⟨1200, by decide⟩, .reserve (.plain .continuous)),
    (⟨1300, by decide⟩, .settle 0 none), (⟨1400, by decide⟩, .configure (dailyLimited 1))]

theorem admission_ledger_twoRequests :
    ((initial ⟨dailyLimited 2, by decide⟩).run (loweredLimit.take 3)).budget.usedOn 0 .continuous = 2 ∧
      Contract ⟨dailyLimited 2, by decide⟩ (loweredLimit.take 3) :=
  ⟨by decide, admission_ledger _ _ (by unfold Ordered; decide)⟩

/-- The count of the day exceeds a limit that is configured below it. -/
theorem used_exceeds_lowered_limit :
    ¬ ∀ policy entries, Ordered entries → ∀ clock : Clock, (∀ entry ∈ entries, entry.1.ms ≤ clock.ms) →
      ∀ mode limit, ((initial policy).run entries).budget.policy.limits.daily mode = some limit →
        ((initial policy).run entries).budget.usedOn clock.day mode ≤ limit := by
  intro never
  have within := never ⟨dailyLimited 2, by decide⟩ loweredLimit (by unfold Ordered; decide) ⟨1400, by decide⟩ (by decide)
    .continuous 1 (by decide)
  revert within
  decide

end Ledger

end OpenLegal.Admission
