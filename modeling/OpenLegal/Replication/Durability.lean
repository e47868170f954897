import OpenLegal.Replication.Fence
import OpenLegal.Rust.Result
import OpenLegal.Theory.Indexed
import OpenLegal.Theory.Runs
import Mathlib.Data.Nat.ModEq

/-! # What a passed check says

A passed check has seen the replica flush a position taken after it started, under the identity and in the
session of that position, while nobody recorded a failure. The log of the fence is cut at the start of the
check, and what the check has learned so far is a statement about the part after it.
-/

namespace OpenLegal.Replication

open Rust Rust.Str Retrieval Theory

/-- The check an entry reports about. A failure reports about the dependency. -/
def Entry.checkId : Entry → Option ℕ
  | .started id => some id
  | .observed id _ _ => some id
  | .loaded id => some id
  | .failed _ _ _ => none
  | .uncertain => none

def Entry.isFailure : Entry → Bool
  | .failed _ _ _ => true
  | .uncertain => true
  | _ => false

/-- The number of recorded failures. -/
def failures (log : List Entry) : ℕ := log.countP Entry.isFailure

def Entry.receiptOf (id : ℕ) : Entry → Option Receipt
  | .observed other _ receipt => if other = id then some receipt else none
  | _ => none

/-- The receipts a check has seen. -/
def receiptsOf (id : ℕ) (log : List Entry) : List Receipt := log.filterMap (Entry.receiptOf id)

/-- The position captured by the check was flushed later on. -/
def Flushed (id : ℕ) (since : List Entry) : Prop :=
  ∃ captured receipt target position,
    List.Sublist [Entry.observed id .capturePrefix captured, .observed id .observeFlush receipt] since ∧
      lsn captured.prefixLsn = some target ∧ lsn receipt.flushLsn = some position ∧ target ≤ position

/-- What the log since the start of a check says when the check passes. -/
structure Durable (binding : Receipt) (id : ℕ) (since : List Entry) : Prop where
  flushed : Flushed id since
  bound : ∀ receipt ∈ receiptsOf id since, receipt.sameBinding binding = true
  session : ∀ receipt ∈ receiptsOf id since, ∀ other ∈ receiptsOf id since, receipt.sameSession other = true
  undisturbed : ∃ front rear, since = front ++ .loaded id :: rear ∧ .loaded id ∉ rear ∧ failures front = 0

/-- All receipts are of the session of the captured one, and that one is of the fence's identity. -/
structure Session (binding : Receipt) (id : ℕ) (captured : Receipt) (since : List Entry) : Prop where
  bound : captured.identity = binding.identity
  same : ∀ receipt ∈ receiptsOf id since, receipt.session = captured.session

/-- What a check knows in each phase. -/
def Evidence (binding : Receipt) (id : ℕ) (since : List Entry) : Phase → Prop
  | .admitting => receiptsOf id since = []
  | .capturing => receiptsOf id since = []
  | .watching captured target | .pausing captured target =>
    Session binding id captured since ∧ .observed id .capturePrefix captured ∈ since ∧
      lsn captured.prefixLsn = some target
  | .confirming captured | .comparing captured | .readmitting captured | .rereading captured =>
    Session binding id captured since ∧ Flushed id since
  | .settling ending => ending.result = .ok () → Durable binding id since
  | .returned result => result = .ok () → Durable binding id since
  | .dropped => True

section Log

variable {binding captured receipt : Receipt} {id : ℕ} {since more : List Entry} {phase : Phase}

@[simp] theorem failures_append (front rear : List Entry) :
    failures (front ++ rear) = failures front + failures rear :=
  List.countP_append

@[simp] theorem failures_started (id : ℕ) (log : List Entry) : failures (.started id :: log) = failures log := by
  simp [failures, Entry.isFailure]

theorem failures_eq_zero {log : List Entry} (none : ∀ entry ∈ log, entry.isFailure = false) : failures log = 0 := by
  apply List.countP_eq_zero.mpr
  intro entry member
  simp [none entry member]

theorem receiptOf_of_foreign {entry : Entry} (foreign : entry.checkId ≠ some id) : entry.receiptOf id = none := by
  cases entry with
  | observed other _ _ =>
    have different : other ≠ id := fun same => foreign (congrArg some same)
    simp [Entry.receiptOf, different]
  | _ => rfl

theorem receiptsOf_append (id : ℕ) (front rear : List Entry) :
    receiptsOf id (front ++ rear) = receiptsOf id front ++ receiptsOf id rear :=
  List.filterMap_append

theorem receiptsOf_frame (since : List Entry) (foreign : ∀ entry ∈ more, entry.checkId ≠ some id) :
    receiptsOf id (since ++ more) = receiptsOf id since := by
  have none : receiptsOf id more = [] := by
    apply List.filterMap_eq_nil_iff.mpr
    intro entry member
    exact receiptOf_of_foreign (foreign entry member)
  rw [receiptsOf_append, none, List.append_nil]

theorem Flushed.append (flushed : Flushed id since) (more : List Entry) : Flushed id (since ++ more) := by
  obtain ⟨captured, receipt, target, position, order, known⟩ := flushed
  exact ⟨captured, receipt, target, position, order.trans (List.sublist_append_left since more), known⟩

theorem Durable.frame (durable : Durable binding id since) (foreign : ∀ entry ∈ more, entry.checkId ≠ some id) :
    Durable binding id (since ++ more) := by
  obtain ⟨front, rear, rfl, last, calm⟩ := durable.undisturbed
  have same := receiptsOf_frame (front ++ .loaded id :: rear) foreign
  constructor
  · exact durable.flushed.append more
  · rw [same]
    exact durable.bound
  · rw [same]
    exact durable.session
  · refine ⟨front, rear ++ more, by simp, ?_, calm⟩
    intro member
    rcases List.mem_append.mp member with old | new
    · exact last old
    · exact foreign _ new rfl

theorem Session.frame (session : Session binding id captured since)
    (foreign : ∀ entry ∈ more, entry.checkId ≠ some id) : Session binding id captured (since ++ more) := by
  constructor
  · exact session.bound
  · rw [receiptsOf_frame since foreign]
    exact session.same

/-- What others write does not change what a check knows. -/
theorem Evidence.frame (evidence : Evidence binding id since phase)
    (foreign : ∀ entry ∈ more, entry.checkId ≠ some id) : Evidence binding id (since ++ more) phase := by
  cases phase with
  | admitting => exact (receiptsOf_frame since foreign).trans evidence
  | capturing => exact (receiptsOf_frame since foreign).trans evidence
  | watching captured target | pausing captured target =>
    obtain ⟨session, member, known⟩ := evidence
    exact ⟨session.frame foreign, List.mem_append_left more member, known⟩
  | confirming captured | comparing captured | readmitting captured | rereading captured =>
    obtain ⟨session, flushed⟩ := evidence
    exact ⟨session.frame foreign, flushed.append more⟩
  | settling ending => exact fun ok => (evidence ok).frame foreign
  | returned result => exact fun ok => (evidence ok).frame foreign
  | dropped => trivial

theorem receiptsOf_observed (id : ℕ) (observation : Observation) (receipt : Receipt) (since : List Entry) :
    receiptsOf id (since ++ [.observed id observation receipt]) = receiptsOf id since ++ [receipt] := by
  simp [receiptsOf, Entry.receiptOf]

/-- The captured receipt opens the session. -/
theorem Session.capture (observation : Observation) (empty : receiptsOf id since = [])
    (bound : captured.sameBinding binding = true) :
    Session binding id captured (since ++ [.observed id observation captured]) := by
  constructor
  · exact Receipt.sameBinding_iff.mp bound
  · intro receipt member
    rw [receiptsOf_observed, empty] at member
    rw [List.eq_of_mem_singleton member]

theorem Session.observe (observation : Observation) (session : Session binding id captured since)
    (same : captured.sameSession receipt = true) :
    Session binding id captured (since ++ [.observed id observation receipt]) := by
  constructor
  · exact session.bound
  · intro other member
    rw [receiptsOf_observed] at member
    rcases List.mem_append.mp member with old | new
    · exact session.same other old
    · rw [List.eq_of_mem_singleton new]
      exact (Receipt.sameSession_iff.mp same).symm

theorem Session.load (session : Session binding id captured since) :
    Session binding id captured (since ++ [.loaded id]) := by
  have same : receiptsOf id (since ++ [.loaded id]) = receiptsOf id since := by
    simp [receiptsOf, Entry.receiptOf]
  constructor
  · exact session.bound
  · rw [same]
    exact session.same

/-- A last reading of the generation without a failure before it makes the evidence complete. -/
theorem Session.durable (session : Session binding id captured since) (flushed : Flushed id since)
    (calm : failures since = 0) : Durable binding id (since ++ [.loaded id]) := by
  have loaded := session.load
  constructor
  · exact flushed.append [.loaded id]
  · intro receipt member
    apply Receipt.sameBinding_iff.mpr
    rw [← receipt.identity_session, loaded.same receipt member, captured.identity_session, loaded.bound]
  · intro receipt member other also
    apply Receipt.sameSession_iff.mpr
    rw [loaded.same receipt member, loaded.same other also]
  · exact ⟨since, [], rfl, List.not_mem_nil, calm⟩

/-- A flush observation at or beyond the target. -/
theorem Flushed.intro {target position : ℕ} (captures : .observed id .capturePrefix captured ∈ since)
    (aim : lsn captured.prefixLsn = some target) (seen : lsn receipt.flushLsn = some position)
    (reached : position ≥ target) : Flushed id (since ++ [.observed id .observeFlush receipt]) := by
  refine ⟨captured, receipt, target, position, ?_, aim, seen, reached⟩
  exact (List.singleton_sublist.mpr captures).append (List.Sublist.refl [_])

end Log

/-- The failures recorded since a check started. -/
def failuresSince (id : ℕ) (log : List Entry) : ℕ := failures (log.dropWhile (· ≠ .started id))

/-- The log is cut at the start of the check, whose first reading of the generation is of that moment. -/
def Held (binding : Receipt) (log : List Entry) (id : ℕ) (check : Check) : Prop :=
  ∃ before since, log = before ++ .started id :: since ∧ .started id ∉ before ∧ .started id ∉ since ∧
    check.generation = failures before % 2 ^ 64 ∧ Evidence binding id since check.phase

/-- A check that its guard refused for lack of time was not short of time by its caller's deadline. -/
def Timely (check : Check) : Prop := check.phase = .settling (.refused .elapsed) → check.callerLimited = false

/-- The two awaits of the admission guard. -/
def Phase.asksGuard : Phase → Bool
  | .admitting | .readmitting _ => true
  | _ => false

/-- When the guard does not run out of a caller's time, and the generation does not come round to the value a
check started with. -/
def Fence.Steady (fence : Fence) : Event → Prop
  | .check id (.admission .elapsed) =>
    ∀ check, fence.checks[id]? = some check → check.phase.asksGuard = true → check.callerLimited = false
  | .check id .load => failuresSince id fence.log < 2 ^ 64
  | _ => True

structure Invariant (fence : Fence) : Prop where
  generation : fence.failureGeneration = failures fence.log % 2 ^ 64
  known : ∀ entry ∈ fence.log, ∀ id, entry.checkId = some id → id < fence.checks.length
  held : ∀ (id : ℕ) (check : Check), fence.checks[id]? = some check → Held fence.binding fence.log id check
  timely : ∀ (id : ℕ) (check : Check), fence.checks[id]? = some check → Timely check
  counted : ∀ id limited ending, .failed id limited ending ∈ fence.log → ¬ ending.RequestLocal limited

theorem failuresSince_eq {before since log : List Entry} {id : ℕ} (cut : log = before ++ .started id :: since)
    (fresh : .started id ∉ before) : failuresSince id log = failures since := by
  subst cut
  have dropped : (before ++ .started id :: since).dropWhile (· ≠ .started id) = .started id :: since := by
    rw [List.dropWhile_append_of_pos]
    · simp
    · intro entry member
      simpa using fun same : entry = .started id => fresh (same ▸ member)
  rw [failuresSince, dropped, failures_started]

theorem Held.frame {binding : Receipt} {log more : List Entry} {id : ℕ} {check : Check}
    (held : Held binding log id check) (foreign : ∀ entry ∈ more, entry.checkId ≠ some id) :
    Held binding (log ++ more) id check := by
  obtain ⟨before, since, rfl, fresh, once, generation, evidence⟩ := held
  refine ⟨before, since ++ more, by simp, fresh, ?_, generation, evidence.frame foreign⟩
  intro member
  rcases List.mem_append.mp member with old | new
  · exact once old
  · exact foreign _ new rfl

/-- A dependency failure is request-local only where the guard was short of time. -/
theorem Timely.not_requestLocal {check : Check} {ending : Ending} (timely : Timely check)
    (settling : check.phase = .settling ending) (failed : ending.dependencyFailed check.callerLimited = true) :
    ¬ ending.RequestLocal check.callerLimited := by
  cases ending with
  | refused answer =>
    cases answer with
    | admitted => simp [Ending.dependencyFailed, GuardAnswer.result] at failed
    | elapsed => simp [Ending.RequestLocal, Ending.result, GuardAnswer.result, timely settling]
    | failed error =>
      simp only [Ending.dependencyFailed, GuardAnswer.result, Bool.and_eq_true, decide_eq_true_eq] at failed
      simp [Ending.RequestLocal, Ending.result, GuardAnswer.result, failed]
  | elapsed =>
    simp only [Ending.dependencyFailed, Bool.not_eq_true'] at failed
    simp [Ending.RequestLocal, Ending.result, failed]
  | denied => simp [Ending.RequestLocal, Ending.result]
  | expired | cancelled | passed => simp [Ending.dependencyFailed] at failed

namespace Invariant

variable {fence : Fence} {id : ℕ} {check : Check}

/-- Recording a failure concerns no check. -/
theorem fetchAdd {entry : Entry} (invariant : Invariant fence) (failure : entry.isFailure = true)
    (cause : ∀ id limited ending, entry = .failed id limited ending → ¬ ending.RequestLocal limited) :
    Invariant (fence.fetchAdd entry) := by
  have anonymous : entry.checkId = none := by
    cases entry with
    | failed | uncertain => rfl
    | _ => simp [Entry.isFailure] at failure
  constructor
  · change (fence.failureGeneration + 1) % 2 ^ 64 = failures (fence.log ++ [entry]) % 2 ^ 64
    rw [invariant.generation, failures_append]
    simp [failures, failure]
  · intro other member id named
    rcases List.mem_append.mp member with old | new
    · exact invariant.known other old id named
    · rw [List.eq_of_mem_singleton new, anonymous] at named
      cases named
  · intro id check present
    apply (invariant.held id check present).frame
    intro other member
    rw [List.eq_of_mem_singleton member, anonymous]
    simp
  · exact invariant.timely
  · intro id limited ending member
    rcases List.mem_append.mp member with old | new
    · exact invariant.counted id limited ending old
    · exact cause id limited ending (List.eq_of_mem_singleton new).symm

theorem start (invariant : Invariant fence) (deadline now entered : ℕ) :
    Invariant (fence.start deadline now entered) := by
  -- the new check is the last one; its phase is one of the first three
  have last : ∀ (id : ℕ) (check : Check), (fence.start deadline now entered).checks[id]? = some check →
      fence.checks[id]? = some check ∨ (id = fence.checks.length ∧ check.generation = fence.failureGeneration ∧
        (check.phase = .settling .expired ∨ check.phase = .admitting ∨ check.phase = .capturing)) := by
    intro id check present
    simp only [Fence.start] at present
    rcases getElem?_concat_cases present with ⟨rfl, rfl⟩ | old
    · refine .inr ⟨rfl, rfl, ?_⟩
      dsimp only
      split_ifs <;> simp
    · exact .inl old
  have unseen : .started fence.checks.length ∉ fence.log := by
    intro member
    exact absurd (invariant.known _ member _ rfl) (lt_irrefl _)
  constructor
  · change fence.failureGeneration = failures (fence.log ++ [.started fence.checks.length]) % 2 ^ 64
    rw [invariant.generation, failures_append]
    simp [failures, Entry.isFailure]
  · intro entry member id named
    simp only [Fence.start, List.length_append, List.length_singleton]
    rcases List.mem_append.mp member with old | new
    · have := invariant.known entry old id named
      omega
    · rw [List.eq_of_mem_singleton new] at named
      cases named
      omega
  · intro id check present
    rcases last id check present with old | ⟨rfl, generation, phase⟩
    · apply (invariant.held id check old).frame
      intro entry member
      have bound := lt_length_of_getElem? old
      rw [List.eq_of_mem_singleton member]
      intro same
      cases same
      omega
    · refine ⟨fence.log, [], rfl, unseen, List.not_mem_nil, generation.trans invariant.generation, ?_⟩
      rcases phase with phase | phase | phase <;> rw [phase]
      · intro ok
        cases ok
      · rfl
      · rfl
  · intro id check present
    rcases last id check present with old | ⟨rfl, -, phase⟩
    · exact invariant.timely id check old
    · intro refused
      rcases phase with phase | phase | phase <;> rw [phase] at refused <;> cases refused
  · intro id limited ending member
    rcases List.mem_append.mp member with old | new
    · exact invariant.counted id limited ending old
    · cases List.eq_of_mem_singleton new

/-- A check moves on and writes what it saw. -/
theorem move {phase : Phase} {entries : List Entry} (invariant : Invariant fence)
    (present : fence.checks[id]? = some check)
    (own : ∀ entry ∈ entries, entry.checkId = some id ∧ entry.isFailure = false ∧ entry ≠ .started id)
    (timely : phase = .settling (.refused .elapsed) → check.callerLimited = false)
    (learns : ∀ before since, fence.log = before ++ .started id :: since → .started id ∉ before →
      check.generation = failures before % 2 ^ 64 → Evidence fence.binding id since check.phase →
      Evidence fence.binding id (since ++ entries) phase) :
    Invariant (fence.move id check phase entries) := by
  have bound := lt_length_of_getElem? present
  constructor
  · change fence.failureGeneration = failures (fence.log ++ entries) % 2 ^ 64
    rw [invariant.generation, failures_append, failures_eq_zero (fun entry member => (own entry member).2.1), Nat.add_zero]
  · intro entry member other named
    simp only [Fence.move, List.length_set]
    rcases List.mem_append.mp member with old | new
    · exact invariant.known entry old other named
    · rw [(own entry new).1] at named
      cases named
      exact bound
  · intro other moved now
    rcases getElem?_set_cases now with ⟨rfl, rfl⟩ | ⟨different, old⟩
    · obtain ⟨before, since, cut, fresh, once, generation, evidence⟩ := invariant.held other check present
      refine ⟨before, since ++ entries, ?_, fresh, ?_, generation, learns before since cut fresh generation evidence⟩
      · simp [Fence.move, cut]
      · intro member
        rcases List.mem_append.mp member with old | new
        · exact once old
        · exact (own _ new).2.2 rfl
    · apply (invariant.held other moved old).frame
      intro entry member same
      rw [(own entry member).1] at same
      cases same
      exact different rfl
  · intro other moved now
    rcases getElem?_set_cases now with ⟨rfl, rfl⟩ | ⟨-, old⟩
    · exact timely
    · exact invariant.timely other moved old
  · intro other limited ending member
    rcases List.mem_append.mp member with old | new
    · exact invariant.counted other limited ending old
    · cases (own _ new).2.1

/-- A check settles with an error. -/
theorem settle {ending : Ending} {entries : List Entry} (invariant : Invariant fence)
    (present : fence.checks[id]? = some check)
    (own : ∀ entry ∈ entries, entry.checkId = some id ∧ entry.isFailure = false ∧ entry ≠ .started id)
    (timely : ending = .refused .elapsed → check.callerLimited = false) (error : ending.result ≠ .ok ()) :
    Invariant (fence.move id check (.settling ending) entries) := by
  apply invariant.move present own
  · intro same
    cases same
    exact timely rfl
  · intro before since _ _ _ _ ok
    exact absurd ok error

/-- A check goes on with what it knows. -/
theorem proceed {phase : Phase} (invariant : Invariant fence) (present : fence.checks[id]? = some check)
    (unsettled : ∀ ending, phase ≠ .settling ending)
    (learns : ∀ since, Evidence fence.binding id since check.phase → Evidence fence.binding id since phase) :
    Invariant (fence.move id check phase []) := by
  apply invariant.move present
  · intro entry member
    cases member
  · intro same
    exact absurd same (unsettled _)
  · intro before since _ _ _ evidence
    rw [List.append_nil]
    exact learns since evidence

/-- A check goes on with one more receipt. -/
theorem observe {phase : Phase} {observation : Observation} {receipt : Receipt} (invariant : Invariant fence)
    (present : fence.checks[id]? = some check) (unsettled : ∀ ending, phase ≠ .settling ending)
    (learns : ∀ since, Evidence fence.binding id since check.phase →
      Evidence fence.binding id (since ++ [.observed id observation receipt]) phase) :
    Invariant (fence.move id check phase [.observed id observation receipt]) := by
  apply invariant.move present
  · intro entry member
    rw [List.eq_of_mem_singleton member]
    exact ⟨rfl, rfl, by simp⟩
  · intro same
    exact absurd same (unsettled _)
  · intro before since _ _ _ evidence
    exact learns since evidence

theorem settle_observed {observation : Observation} {receipt : Receipt} (invariant : Invariant fence)
    (present : fence.checks[id]? = some check) :
    Invariant (fence.move id check (.settling .denied) [.observed id observation receipt]) := by
  apply invariant.settle present
  · intro entry member
    rw [List.eq_of_mem_singleton member]
    exact ⟨rfl, rfl, by simp⟩
  · intro same
    cases same
  · intro ok
    cases ok

theorem settle_silently {ending : Ending} (invariant : Invariant fence) (present : fence.checks[id]? = some check)
    (timely : ending = .refused .elapsed → check.callerLimited = false) (error : ending.result ≠ .ok ()) :
    Invariant (fence.move id check (.settling ending) []) := by
  apply invariant.settle present _ timely error
  intro entry member
  cases member

theorem react_receipt (invariant : Invariant fence) (present : fence.checks[id]? = some check)
    (reply : Option Receipt) : Invariant (fence.react id check (.receipt reply)) := by
  have denied : Invariant (fence.move id check (.settling .denied) []) :=
    invariant.settle_silently present (fun same => by cases same) (fun ok => by cases ok)
  unfold Fence.react
  cases phase : check.phase with
  | capturing =>
    dsimp only
    split
    · exact denied
    · next captured _ =>
      split_ifs with other
      · exact invariant.settle_observed present
      · split
        · exact invariant.settle_observed present
        · next target aim =>
          apply invariant.observe present (by simp)
          intro since evidence
          rw [phase] at evidence
          refine ⟨Session.capture _ evidence (by simpa using other), by simp, aim⟩
  | watching captured target =>
    dsimp only
    split
    · exact denied
    · next receipt _ =>
      split_ifs with other
      · exact invariant.settle_observed present
      · split
        · exact invariant.settle_observed present
        · next flushed seen =>
          split_ifs with reached
          · apply invariant.observe present (by simp)
            intro since evidence
            rw [phase] at evidence
            obtain ⟨session, captures, aim⟩ := evidence
            exact ⟨session.observe _ (by simpa using other), Flushed.intro captures aim seen reached⟩
          · apply invariant.observe present (by simp)
            intro since evidence
            rw [phase] at evidence
            obtain ⟨session, captures, aim⟩ := evidence
            exact ⟨session.observe _ (by simpa using other), List.mem_append_left _ captures, aim⟩
  | confirming captured =>
    dsimp only
    split
    · exact denied
    · next final _ =>
      split_ifs with other
      · exact invariant.settle_observed present
      · apply invariant.observe present (by simp)
        intro since evidence
        rw [phase] at evidence
        obtain ⟨session, flushed⟩ := evidence
        exact ⟨session.observe _ (by simpa using other), flushed.append _⟩
  | _ => exact invariant

theorem react_admission (invariant : Invariant fence) (present : fence.checks[id]? = some check) (answer : GuardAnswer)
    (steady : fence.Steady (.check id (.admission answer))) :
    Invariant (fence.react id check (.admission answer)) := by
  have refused (asks : check.phase.asksGuard = true) (refusal : answer ≠ .admitted) :
      Invariant (fence.move id check (.settling (.refused answer)) []) := by
    apply invariant.settle_silently present
    · intro same
      cases same
      exact steady check present asks
    · cases answer with
      | admitted => exact absurd rfl refusal
      | elapsed | failed => simp [Ending.result, GuardAnswer.result]
  unfold Fence.react
  cases phase : check.phase with
  | admitting =>
    cases answer with
    | admitted =>
      apply invariant.proceed present (by simp)
      intro since evidence
      rwa [phase] at evidence
    | elapsed | failed => exact refused (by rw [phase]; rfl) (by simp)
  | readmitting captured =>
    cases answer with
    | admitted =>
      apply invariant.proceed present (by simp)
      intro since evidence
      rwa [phase] at evidence
    | elapsed | failed => exact refused (by rw [phase]; rfl) (by simp)
  | _ => exact invariant

/-- Equal readings with few failures in between are readings without a failure in between. -/
theorem calm_of_load (invariant : Invariant fence) {before since : List Entry}
    (cut : fence.log = before ++ .started id :: since) (fresh : .started id ∉ before)
    (generation : check.generation = failures before % 2 ^ 64) (few : failuresSince id fence.log < 2 ^ 64)
    (same : fence.failureGeneration = check.generation) : failures since = 0 := by
  rw [failuresSince_eq cut fresh] at few
  rw [invariant.generation, generation, cut, failures_append, failures_started] at same
  generalize 2 ^ 64 = width at few same
  have divides : width ∣ failures since := by
    apply Nat.modEq_zero_iff_dvd.mp
    exact Nat.ModEq.add_left_cancel' (failures before) same
  exact Nat.eq_zero_of_dvd_of_lt divides few

theorem react_load (invariant : Invariant fence) (present : fence.checks[id]? = some check)
    (steady : fence.Steady (.check id .load)) : Invariant (fence.react id check .load) := by
  have own : ∀ entry ∈ [Entry.loaded id],
      entry.checkId = some id ∧ entry.isFailure = false ∧ entry ≠ .started id := by
    simp [Entry.checkId, Entry.isFailure]
  have denied : Invariant (fence.move id check (.settling .denied) [.loaded id]) :=
    invariant.settle present own (fun same => by cases same) (fun ok => by cases ok)
  unfold Fence.react
  cases phase : check.phase with
  | comparing captured =>
    dsimp only
    split_ifs
    · exact denied
    · apply invariant.move present own (by simp)
      intro before since _ _ _ evidence
      rw [phase] at evidence
      exact ⟨evidence.1.load, evidence.2.append _⟩
    · apply invariant.move present own (by simp)
      intro before since _ _ _ evidence
      rw [phase] at evidence
      exact ⟨evidence.1.load, evidence.2.append _⟩
  | rereading captured =>
    dsimp only
    split_ifs with moved
    · exact denied
    · apply invariant.move present own (by simp)
      intro before since cut fresh generation evidence ok
      rw [phase] at evidence
      have calm := invariant.calm_of_load cut fresh generation steady (not_not.mp moved)
      exact evidence.1.durable evidence.2 calm
  | _ => exact invariant

theorem react_record (invariant : Invariant fence) (present : fence.checks[id]? = some check) :
    Invariant (fence.react id check .record) := by
  unfold Fence.react
  cases phase : check.phase with
  | settling ending =>
    have returned : Invariant (fence.move id check (.returned ending.result) []) := by
      apply invariant.proceed present (by simp)
      intro since evidence
      rwa [phase] at evidence
    dsimp only
    split_ifs with failed
    · apply returned.fetchAdd rfl
      intro other limited cause same
      cases same
      exact (invariant.timely id check present).not_requestLocal phase failed
    · exact returned
  | _ => exact invariant

theorem react_interrupted (invariant : Invariant fence) (present : fence.checks[id]? = some check) (input : Input)
    (interrupts : input = .cancel ∨ (∃ now, input = .timeout now) ∨ input = .abandon) :
    Invariant (fence.react id check input) := by
  have settles (ending : Ending) (kind : ending = .cancelled ∨ ending = .elapsed) :
      Invariant (fence.move id check (.settling ending) []) := by
    apply invariant.settle_silently present <;> rcases kind with rfl | rfl <;> intro same <;> cases same
  rcases interrupts with rfl | ⟨now, rfl⟩ | rfl
  · rw [Fence.react_cancel]
    split_ifs
    · exact settles .cancelled (.inl rfl)
    · exact invariant
  · rw [Fence.react_timeout]
    split_ifs
    · exact settles .elapsed (.inr rfl)
    · exact invariant
  · rw [Fence.react_abandon]
    split_ifs
    · exact invariant.proceed present (by simp) (fun _ _ => trivial)
    · exact invariant

theorem react_wake (invariant : Invariant fence) (present : fence.checks[id]? = some check) :
    Invariant (fence.react id check .wake) := by
  unfold Fence.react
  cases phase : check.phase with
  | pausing captured target =>
    apply invariant.proceed present (by simp)
    intro since evidence
    rwa [phase] at evidence
  | _ => exact invariant

theorem step {event : Event} (invariant : Invariant fence) (steady : fence.Steady event) :
    Invariant (fence.step event) := by
  cases event with
  | markUncertain =>
    apply invariant.fetchAdd rfl
    intro id limited ending same
    cases same
  | start deadline now entered => exact invariant.start deadline now entered
  | check id input =>
    unfold Fence.step
    dsimp only
    split
    · exact invariant
    · next check present =>
      cases input with
      | admission answer => exact invariant.react_admission present answer steady
      | receipt reply => exact invariant.react_receipt present reply
      | wake => exact invariant.react_wake present
      | load => exact invariant.react_load present steady
      | cancel => exact invariant.react_interrupted present _ (.inl rfl)
      | timeout now => exact invariant.react_interrupted present _ (.inr (.inl ⟨now, rfl⟩))
      | record => exact invariant.react_record present
      | abandon => exact invariant.react_interrupted present _ (.inr (.inr rfl))

end Invariant

theorem Fence.step_binding (fence : Fence) (event : Event) : (fence.step event).binding = fence.binding := by
  cases event with
  | markUncertain => rfl
  | start => rfl
  | check id input =>
    unfold Fence.step Fence.react
    dsimp only
    repeat' split
    all_goals rfl

/-- What the fence promises about its checks and its failure generation. -/
structure FenceContract (options : Options) (fence : Fence) : Prop where
  /-- the binding is of the epoch and the roots the fence was opened for -/
  opened : fence.binding.managedEpoch = options.managedEpoch ∧
    fence.binding.blobBindingSha256 = options.expectedBlobBindingSha256
  /-- the generation counts the failures in the log -/
  generation : fence.failureGeneration = failures fence.log % 2 ^ 64
  passed : ∀ (id : ℕ) (check : Check), fence.checks[id]? = some check → check.phase = .returned (.ok ()) →
    ∃ before since, fence.log = before ++ .started id :: since ∧ .started id ∉ before ∧ .started id ∉ since ∧
      Durable fence.binding id since
  requestLocal : ∀ id limited ending, .failed id limited ending ∈ fence.log → ¬ ending.RequestLocal limited

theorem openFence_invariant {options : Options} {answer : GuardAnswer} {reply : Option Receipt} {fence : Fence}
    (opened : openFence options answer reply = .ok fence) :
    Invariant fence ∧ fence.binding.managedEpoch = options.managedEpoch ∧
      fence.binding.blobBindingSha256 = options.expectedBlobBindingSha256 := by
  have built : ∃ binding, binding.managedEpoch = options.managedEpoch ∧
      binding.blobBindingSha256 = options.expectedBlobBindingSha256 ∧
      fence = { binding, guarded := options.guarded, failureGeneration := 0, checks := [], log := [] } := by
    simp only [openFence, bind_eq_ok, ite_error_eq_ok, pure_eq_ok] at opened
    obtain ⟨-, -, -, binding, -, same, built⟩ := opened
    simp only [Bool.or_eq_true, decide_eq_true_eq, not_or, not_not] at same
    exact ⟨binding, same.1, same.2, (Except.ok.inj built).symm⟩
  obtain ⟨binding, epoch, digest, rfl⟩ := built
  refine ⟨?_, epoch, digest⟩
  constructor
  · rfl
  · intro entry member
    cases member
  · intro id check present
    cases present
  · intro id check present
    cases present
  · intro id limited ending member
    cases member

theorem steady_fence {options : Options} {answer : GuardAnswer} {reply : Option Receipt} {fence : Fence}
    (opened : openFence options answer reply = .ok fence) (events : List Event)
    (steady : Along Fence.step Fence.Steady fence events) : FenceContract options (fence.run events) := by
  obtain ⟨initial, epoch, digest⟩ := openFence_invariant opened
  have reached : Invariant (fence.run events) ∧ (fence.run events).binding = fence.binding := by
    apply steady.invariant (fun state => Invariant state ∧ state.binding = fence.binding) _ ⟨initial, rfl⟩
    rintro state event ⟨invariant, same⟩ allowed
    exact ⟨invariant.step allowed, (state.step_binding event).trans same⟩
  obtain ⟨invariant, binding⟩ := reached
  constructor
  · rw [binding]
    exact ⟨epoch, digest⟩
  · exact invariant.generation
  · intro id check present returned
    obtain ⟨before, since, cut, fresh, once, -, evidence⟩ := invariant.held id check present
    rw [returned] at evidence
    exact ⟨before, since, cut, fresh, once, evidence rfl⟩
  · exact invariant.counted

namespace Sample

def receipt : Receipt :=
  { managedEpoch := 1
    blobBindingSha256 := List.replicate 64 '1'
    primarySystemIdentifier := "123".toList
    timeline := 1
    postmasterStartedAt := "2026-11-01 00:00:00+00".toList
    standbyName := "openlegal_ssd".toList
    standbyRole := "replicator".toList
    standbyAddr := "127.0.0.1".toList
    standbyClientDn := "CN=ssd".toList
    standbyIssuerDn := "CN=private-ca".toList
    standbyClientSerial := "1234".toList
    senderPid := 123
    senderStartedAt := "2026-11-01 00:00:01+00".toList
    prefixLsn := "1/100".toList
    flushLsn := "1/100".toList }

def options : Options :=
  { managedEpoch := 1, expectedBlobBindingSha256 := List.replicate 64 '1', guarded := true }

def fence : Fence := { binding := receipt, guarded := true, failureGeneration := 0, checks := [], log := [] }

/-- A check that passes on its second flush observation, the first being of an earlier position. -/
def passing : List Event :=
  [.start (3 * 10 ^ 9) 0 0, .check 0 (.admission .admitted), .check 0 (.receipt (some receipt)),
    .check 0 (.receipt (some { receipt with flushLsn := "1/FF".toList })), .check 0 .wake,
    .check 0 (.receipt (some receipt)), .check 0 (.receipt (some { receipt with prefixLsn := "1/200".toList })),
    .check 0 .load, .check 0 (.admission .admitted), .check 0 .load, .check 0 .record]

/-- A check with one second left that waits for a slot of its guard until this second is over. -/
def starved : List Event :=
  [.start (10 ^ 9) 0 0, .check 0 (.admission .elapsed), .check 0 .record]

theorem steady_fence_passing :
    (fence.run passing).checks.map Check.phase = [.returned (.ok ())] ∧ FenceContract options (fence.run passing) := by
  have opened : openFence options .admitted (some receipt) = .ok fence := by decide +kernel
  refine ⟨by decide +kernel, steady_fence opened passing ?_⟩
  refine ⟨trivial, trivial, trivial, trivial, trivial, trivial, trivial, ?_, trivial, ?_, trivial, trivial⟩
  · change failuresSince 0 _ < 2 ^ 64
    decide +kernel
  · change failuresSince 0 _ < 2 ^ 64
    decide +kernel

/-- The caller's deadline, run out inside the guard, is recorded as a failure of the dependency. -/
theorem caller_deadline_recorded :
    ¬ ∀ (options : Options) (answer : GuardAnswer) (reply : Option Receipt) (fence : Fence) (events : List Event),
      openFence options answer reply = .ok fence → FenceContract options (fence.run events) := by
  intro claim
  have contract := claim options .admitted (some receipt) fence starved (by decide +kernel)
  have recorded : .failed 0 true (.refused .elapsed) ∈ (fence.run starved).log := by decide +kernel
  apply contract.requestLocal 0 true (.refused .elapsed) recorded
  exact .inr (.inr ⟨rfl, .inr (.inr rfl)⟩)

end Sample

end OpenLegal.Replication
