import OpenLegal.Retrieval.Domain
import OpenLegal.Theory.Runs

/-! # Releasing a runtime guard

A strict process holds a record on the shared disk and a lock on it. A clean release rewrites the record, flushes it and drops the
lock in a blocking task, while the caller waits for the task under a deadline. The caller can be dropped, the deadline can pass,
another holder can revoke the guard and any file operation can fail, at every point of either side.
-/

namespace OpenLegal.Replication

open Retrieval Theory

namespace RuntimeGuard

/-- The state that a record names. -/
inductive RecordState where
  | activeUnclean | closedClean
deriving DecidableEq, Repr

/-! ## The two sides -/

/-- The steps of `write_record`. -/
inductive Stage where
  | write | setLen | sync | readBack
deriving DecidableEq, Repr

/-- Where the blocking task stands: first in `locked_until`, then in the action under the lock. -/
inductive Point where
  | start | openLock | lock | locked | validate | validated
  | look | scan | lookAgain | beforeWrite
  | writing (target : RecordState) (stage : Stage)
  | afterWrite | syncDir | lastLook | unlock | afterAction
deriving DecidableEq, Repr

/-- The blocking task. -/
inductive Worker where
  | idle
  | running (point : Point)
  | done (result : Except RetrievalError Unit)
deriving DecidableEq

/-- The caller of `release_clean`. -/
inductive Caller where
  | entering | draining | admitting | waiting
  | checking (result : Except RetrievalError Unit)
  | returned (result : Except RetrievalError Unit)
  | dropped
deriving DecidableEq

/-- Whether the call is over. -/
def Caller.ended : Caller → Bool
  | .returned _ | .dropped => true
  | _ => false

/-- Whether the task has not been spawned yet. -/
def Caller.early : Caller → Bool
  | .entering | .draining | .admitting => true
  | _ => false

/-- The guard, its record and both sides of one call. The content is what `read_record` finds, if the file can be read. -/
structure Release where
  content : Option RecordState
  synced : Bool
  locked : Bool
  poisoned : Bool
  attempted : Bool
  expired : Bool
  cancelled : Bool
  caller : Caller
  worker : Worker
deriving DecidableEq

/-- What can happen next. -/
inductive Event where
  | expire | dropCaller | markUncertain
  | enter | drained | drainTimeout | permit | noPermit | join | taskTimeout | finish
  | work
  | ioFailure (left : Option RecordState)
deriving DecidableEq

namespace Release

/-- A guard that has not been released, before the call. -/
def initial (poisoned attempted : Bool) : Release where
  content := some .activeUnclean
  synced := true
  locked := !poisoned
  poisoned := poisoned
  attempted := attempted
  expired := false
  cancelled := false
  caller := .entering
  worker := .idle

/-- `Shared::poison`. The flag is stored before the record is unlocked; neither side looks at the lock in between. -/
def poison (r : Release) : Release := { r with poisoned := true, locked := false }

/-- The token is cancelled when the call is over. -/
def answer (r : Release) (result : Except RetrievalError Unit) : Release := { r with caller := .returned result, cancelled := true }

/-- An error of the call that revokes the guard. -/
def refuse (r : Release) (error : RetrievalError) : Release := r.poison.answer (.error error)

def goto (r : Release) (point : Point) : Release := { r with worker := .running point }

/-- The task ends with an error. The directory is unlocked. -/
def fail (r : Release) (error : RetrievalError) : Release := { r with worker := .done (.error error) }

/-- The check of the token and the clock. -/
def within (r : Release) (next : Release) : Release :=
  if r.cancelled then r.fail .cancelled else if r.expired then r.fail .storageUnavailable else next

/-- The file after its first bytes are overwritten. The closed record is the shorter one, so the end of the other remains until
the length is set. -/
def overwritten : RecordState → Option RecordState
  | .activeUnclean => some .activeUnclean
  | .closedClean => none

/-- The next step of the task, when the file system does its part. -/
def work (r : Release) : Point → Release
  | .start => r.within (r.goto .openLock)
  | .openLock => r.goto .lock
  | .lock => r.within (r.goto .locked)
  | .locked => r.within (r.goto .validate)
  | .validate => r.goto .validated
  | .validated => r.within (r.goto .look)
  | .look => if r.poisoned then r.fail .storageUnavailable else r.goto .scan
  | .scan => if r.content = some .activeUnclean then r.goto .lookAgain else r.fail .storageUnavailable
  | .lookAgain => if r.poisoned then r.fail .storageUnavailable else r.goto .beforeWrite
  | .beforeWrite => r.within (r.goto (.writing .closedClean .write))
  | .writing target .write => { r with content := overwritten target, synced := false, worker := .running (.writing target .setLen) }
  | .writing target .setLen => { r with content := some target, worker := .running (.writing target .sync) }
  | .writing target .sync => { r with synced := true, worker := .running (.writing target .readBack) }
  | .writing .closedClean .readBack => if r.content = some .closedClean then r.goto .afterWrite else r.fail .storageUnavailable
  | .writing .activeUnclean .readBack => r.fail .storageUnavailable
  | .afterWrite => if r.poisoned then r.goto (.writing .activeUnclean .write) else r.goto .syncDir
  | .syncDir => r.goto .lastLook
  | .lastLook => if r.poisoned then r.goto (.writing .activeUnclean .write) else r.goto .unlock
  | .unlock => { r with locked := false, worker := .running .afterAction }
  | .afterAction => r.within { r with worker := .done (.ok ()) }

/-- A file operation of the task fails. A write that fails leaves some content. -/
def ioFailure (r : Release) (left : Option RecordState) : Point → Release
  | .writing _ .write => { r.fail .storageUnavailable with content := left, synced := r.synced && left = r.content }
  | .openLock | .lock | .validate | .scan | .writing _ _ | .syncDir | .unlock => r.fail .storageUnavailable
  | _ => r

/-- The next state. An event that cannot happen changes nothing; a task that waits for the directory lock makes no step. -/
def step (r : Release) : Event → Release
  | .expire => { r with expired := true }
  | .dropCaller =>
    match r.caller with
    | .entering | .draining | .waiting => { r with caller := .dropped, cancelled := true }
    | _ => r
  | .markUncertain => r.poison
  | .enter =>
    match r.caller with
    | .entering =>
      if r.poisoned || r.attempted then r.answer (.error .storageUnavailable)
      else { r with attempted := true, caller := .draining }
    | _ => r
  | .drained =>
    match r.caller with
    | .draining => { r with caller := .admitting }
    | _ => r
  | .drainTimeout =>
    match r.caller with
    | .draining => if r.expired then r.refuse .storageUnavailable else r
    | _ => r
  | .permit =>
    match r.caller with
    | .admitting => { r with caller := .waiting, worker := .running .start }
    | _ => r
  | .noPermit =>
    match r.caller with
    | .admitting => r.refuse .storageUnavailable
    | _ => r
  | .join =>
    match r.caller, r.worker with
    | .waiting, .done result => { r with caller := .checking result }
    | _, _ => r
  | .taskTimeout =>
    match r.caller, r.worker with
    | .waiting, .running _ => if r.expired then { r with caller := .checking (.error .storageUnavailable) } else r
    | _, _ => r
  | .finish =>
    match r.caller with
    | .checking result =>
      if r.poisoned || r.expired then r.refuse .storageUnavailable
      else
        match result with
        | .error error => r.refuse error
        | .ok () => r.answer (.ok ())
    | _ => r
  | .work =>
    match r.worker with
    | .running point => r.work point
    | _ => r
  | .ioFailure left =>
    match r.worker with
    | .running point => r.ioFailure left point
    | _ => r

end Release

/-! ## All or nothing -/

/-- The directory lock is free, so that peers can look. -/
def Worker.free : Worker → Bool
  | .running point => point = .start || point = .openLock || point = .lock
  | _ => true

def Worker.stopped : Worker → Bool
  | .running _ => false
  | _ => true

/-- The task has looked at the flag for the last time and left the record closed. -/
def Worker.committed : Worker → Bool
  | .running .unlock | .running .afterAction | .done (.ok ()) => true
  | _ => false

/-- A failed file operation of the task leaves the active record. -/
def harmless : Worker → Option RecordState → Bool
  | .running (.writing .closedClean .write), left => left = some .activeUnclean
  | .running (.writing .activeUnclean .readBack), _ => true
  | .running (.writing _ _), _ | .running .syncDir, _ | .running .unlock, _ => false
  | _, _ => true

/-- Nothing goes wrong too late: the call is the first one or the guard is revoked already, a file operation does not fail once the
record is rewritten, and from the last look at the flag to the return there is no expiry, no dropped caller and no revocation. -/
def Timely (r : Release) : Event → Prop
  | .expire | .dropCaller | .markUncertain => r.worker.committed = true → r.caller.ended = true
  | .enter => r.caller = .entering → r.attempted = true → r.poisoned = true
  | .work => r.worker = .running .lastLook → r.poisoned = false → r.expired = false ∧ r.cancelled = false
  | .ioFailure left => harmless r.worker left = true
  | _ => True

/-! ## The invariant -/

/-- The record at each point of the task, and whether it is on the disk. -/
def recordAt : Worker → Option RecordState × Bool
  | .running (.writing .closedClean .write) => (some .activeUnclean, true)
  | .running (.writing .activeUnclean .write) => (some .closedClean, true)
  | .running (.writing target .setLen) => (Release.overwritten target, false)
  | .running (.writing target .sync) => (some target, false)
  | .running (.writing target .readBack) => (some target, true)
  | .running .afterWrite | .running .syncDir | .running .lastLook | .running .unlock | .running .afterAction =>
    (some .closedClean, true)
  | .done (.ok ()) => (some .closedClean, true)
  | _ => (some .activeUnclean, true)

/-- How the two sides and the record belong together. -/
structure Inv (r : Release) : Prop where
  record : (r.content, r.synced) = recordAt r.worker
  revoked : r.poisoned = true → r.locked = false
  unlocked : r.worker = .running .afterAction ∨ r.worker = .done (.ok ()) → r.locked = false
  early : r.caller.early = true → r.worker = .idle
  cancelled : r.cancelled = r.caller.ended
  ok : r.caller = .checking (.ok ()) ∨ r.caller = .returned (.ok ()) → r.worker = .done (.ok ())
  late : ∀ error, r.caller = .checking (.error error) → r.expired = true ∨ ∃ other, r.worker = .done (.error other)
  error : ∀ error, r.caller = .returned (.error error) → r.poisoned = true
  committed : r.worker.committed = true → r.caller = .waiting ∨ r.caller = .checking (.ok ()) ∨ r.caller = .returned (.ok ())
  calm : r.worker.committed = true → r.caller.ended = false → r.expired = false ∧ r.poisoned = false

variable {r : Release}

theorem Inv.initial (poisoned attempted : Bool) : Inv (Release.initial poisoned attempted) := by
  constructor <;> simp [Release.initial, recordAt, Worker.committed, Caller.early, Caller.ended]

theorem Inv.record_eq (inv : Inv r) {record : Option RecordState × Bool} (known : recordAt r.worker = record) :
    r.content = record.1 ∧ r.synced = record.2 := Prod.ext_iff.mp (inv.record.trans known)

section Work

variable {point : Point}

/-- A task that runs has a caller who waits for it or has stopped waiting. -/
theorem Inv.not_ok (inv : Inv r) (running : r.worker = .running point) :
    ¬ (r.caller = .checking (.ok ()) ∨ r.caller = .returned (.ok ())) := by
  intro ok
  have worker := inv.ok ok
  rw [running] at worker
  cases worker

/-- A step of the task that does not commit it keeps the two sides together, if the record is what it has to be. -/
theorem Inv.move (inv : Inv r) (running : r.worker = .running point) {worker : Worker} {content : Option RecordState} {synced : Bool}
    (record : (content, synced) = recordAt worker) (uncommitted : worker.committed = false) :
    Inv { r with content := content, synced := synced, worker := worker } where
  record := record
  revoked := inv.revoked
  unlocked := by
    rintro (same | same)
    · change worker = _ at same
      rw [same] at uncommitted
      cases uncommitted
    · change worker = _ at same
      rw [same] at uncommitted
      cases uncommitted
  early := by
    intro early
    have idle := inv.early early
    rw [running] at idle
    cases idle
  cancelled := inv.cancelled
  ok := fun ok => absurd ok (inv.not_ok running)
  late := by
    intro error checking
    rcases inv.late error checking with expired | ⟨other, worker⟩
    · exact .inl expired
    · rw [running] at worker
      cases worker
  error := inv.error
  committed := fun committed => absurd committed (by rw [uncommitted]; decide)
  calm := fun committed => absurd committed (by rw [uncommitted]; decide)

/-- The move of a task that leaves the record alone. -/
theorem Inv.goto (inv : Inv r) (running : r.worker = .running point) {next : Point} (same : recordAt (.running next) = recordAt (.running point))
    (uncommitted : (Worker.running next).committed = false) : Inv (r.goto next) :=
  inv.move running (by rw [same, ← running]; exact inv.record) uncommitted

/-- A task that ends with an error while the record is active. -/
theorem Inv.fail (inv : Inv r) (running : r.worker = .running point) (active : recordAt (.running point) = (some .activeUnclean, true))
    (error : RetrievalError) : Inv (r.fail error) := by
  apply inv.move running ?_ rfl
  rw [inv.record, running, active]
  rfl

theorem Inv.within (inv : Inv r) (running : r.worker = .running point) (active : recordAt (.running point) = (some .activeUnclean, true))
    {next : Release} (checked : Inv next) : Inv (r.within next) := by
  rw [Release.within]
  split
  · exact inv.fail running active _
  · split
    · exact inv.fail running active _
    · exact checked

/-- A committed task has a caller who waits for it, with everything quiet. -/
theorem Inv.quiet (inv : Inv r) (running : r.worker = .running point) (committed : (Worker.running point).committed = true) :
    r.caller = .waiting ∧ r.expired = false ∧ r.cancelled = false ∧ r.poisoned = false := by
  rw [← running] at committed
  have waiting : r.caller = .waiting := by
    rcases inv.committed committed with waiting | ok
    · exact waiting
    · exact absurd ok (inv.not_ok running)
  obtain ⟨expired, poisoned⟩ := inv.calm committed (by rw [waiting]; rfl)
  exact ⟨waiting, expired, by rw [inv.cancelled, waiting]; rfl, poisoned⟩

/-- The task commits, or goes on after that. -/
theorem Inv.commit (inv : Inv r) (closed : recordAt r.worker = (some .closedClean, true)) (waiting : r.caller = .waiting)
    (expired : r.expired = false) (poisoned : r.poisoned = false) {locked : Bool} {worker : Worker}
    (same : recordAt worker = (some .closedClean, true))
    (unlocked : worker = .running .afterAction ∨ worker = .done (.ok ()) → locked = false) :
    Inv { r with locked := locked, worker := worker } where
  record := by rw [same, ← closed]; exact inv.record
  revoked := fun revoked => absurd revoked (by rw [poisoned]; decide)
  unlocked := unlocked
  early := fun early => absurd early (by rw [waiting]; decide)
  cancelled := inv.cancelled
  ok := by
    change r.caller = _ ∨ r.caller = _ → _
    rw [waiting]
    rintro (same | same) <;> cases same
  late := by
    intro error checking
    change r.caller = _ at checking
    rw [waiting] at checking
    cases checking
  error := inv.error
  committed := fun _ => .inl waiting
  calm := fun _ _ => ⟨expired, poisoned⟩

theorem Inv.work (inv : Inv r) (running : r.worker = .running point) (timely : Timely r .work) : Inv (r.work point) := by
  cases point with
  | start => exact inv.within running rfl (inv.goto running rfl rfl)
  | openLock => exact inv.goto running rfl rfl
  | lock => exact inv.within running rfl (inv.goto running rfl rfl)
  | locked => exact inv.within running rfl (inv.goto running rfl rfl)
  | validate => exact inv.goto running rfl rfl
  | validated => exact inv.within running rfl (inv.goto running rfl rfl)
  | look =>
    rw [Release.work]
    split
    · exact inv.fail running rfl _
    · exact inv.goto running rfl rfl
  | scan =>
    rw [Release.work]
    split
    · exact inv.goto running rfl rfl
    · exact inv.fail running rfl _
  | lookAgain =>
    rw [Release.work]
    split
    · exact inv.fail running rfl _
    · exact inv.goto running rfl rfl
  | beforeWrite => exact inv.within running rfl (inv.goto running rfl rfl)
  | writing target stage =>
    cases stage with
    | write =>
      apply inv.move running ?_ rfl
      cases target <;> rfl
    | setLen =>
      apply inv.move running ?_ rfl
      have unsynced : (recordAt r.worker).2 = false := by rw [running]; cases target <;> rfl
      rw [(inv.record_eq rfl).2, unsynced]
      cases target <;> rfl
    | sync =>
      apply inv.move running ?_ rfl
      have content : (recordAt r.worker).1 = some target := by rw [running]; cases target <;> rfl
      rw [(inv.record_eq rfl).1, content]
      cases target <;> rfl
    | readBack =>
      cases target with
      | closedClean =>
        have content : r.content = some .closedClean := (inv.record_eq (congrArg recordAt running)).1
        rw [Release.work, if_pos content]
        exact inv.goto running rfl rfl
      | activeUnclean => exact inv.fail running rfl _
  | afterWrite =>
    rw [Release.work]
    split
    · exact inv.goto running rfl rfl
    · exact inv.goto running rfl rfl
  | syncDir => exact inv.goto running rfl rfl
  | lastLook =>
    rw [Release.work]
    split
    · exact inv.goto running rfl rfl
    · next clear =>
      have clear := Bool.eq_false_iff.mpr clear
      obtain ⟨expired, cancelled⟩ := timely running clear
      rw [inv.cancelled] at cancelled
      have waiting : r.caller = .waiting := by
        cases known : r.caller with
        | waiting => rfl
        | returned => rw [known] at cancelled; cases cancelled
        | dropped => rw [known] at cancelled; cases cancelled
        | checking result =>
          cases result with
          | ok value => exact absurd (.inl known) (inv.not_ok running)
          | error error =>
            rcases inv.late error known with late | ⟨other, worker⟩
            · rw [expired] at late
              cases late
            · rw [running] at worker
              cases worker
        | _ =>
          have idle := inv.early (by rw [known]; rfl)
          rw [running] at idle
          cases idle
      exact inv.commit (by rw [running]; rfl) waiting expired clear rfl (by rintro (same | same) <;> cases same)
  | unlock =>
    obtain ⟨waiting, expired, -, poisoned⟩ := inv.quiet running rfl
    exact inv.commit (by rw [running]; rfl) waiting expired poisoned rfl fun _ => rfl
  | afterAction =>
    obtain ⟨waiting, expired, cancelled, poisoned⟩ := inv.quiet running rfl
    rw [Release.work, Release.within, if_neg (by rw [cancelled]; decide), if_neg (by rw [expired]; decide)]
    exact inv.commit (by rw [running]; rfl) waiting expired poisoned rfl fun _ => inv.unlocked (.inl running)

/-- A failure that leaves the active record. -/
theorem Inv.ioFailure (inv : Inv r) (running : r.worker = .running point) {left : Option RecordState} (harmless : harmless (.running point) left = true) :
    Inv (r.ioFailure left point) := by
  cases point with
  | openLock => exact inv.fail running rfl _
  | lock => exact inv.fail running rfl _
  | validate => exact inv.fail running rfl _
  | scan => exact inv.fail running rfl _
  | writing target stage =>
    cases target with
    | closedClean =>
      cases stage with
      | write =>
        have active : left = some .activeUnclean := by simpa [RuntimeGuard.harmless] using harmless
        obtain ⟨content, synced⟩ := inv.record_eq (congrArg recordAt running)
        apply inv.move running ?_ rfl
        rw [active, content, synced]
        rfl
      | setLen => cases harmless
      | sync => cases harmless
      | readBack => cases harmless
    | activeUnclean =>
      cases stage with
      | readBack => exact inv.fail running rfl _
      | write => cases harmless
      | setLen => cases harmless
      | sync => cases harmless
  | syncDir => cases harmless
  | unlock => cases harmless
  | _ => exact inv

end Work

/-! ## Steps of the caller and of others -/

/-- The guard is revoked. -/
theorem Inv.poison (inv : Inv r) (early : r.worker.committed = true → r.caller.ended = true) : Inv r.poison where
  record := inv.record
  revoked := fun _ => rfl
  unlocked := fun _ => rfl
  early := inv.early
  cancelled := inv.cancelled
  ok := inv.ok
  late := inv.late
  error := fun _ _ => rfl
  committed := inv.committed
  calm := by
    intro committed unended
    have ended := early committed
    change r.caller.ended = false at unended
    rw [unended] at ended
    cases ended

/-- The caller goes on while the task has not committed. -/
theorem Inv.call (inv : Inv r) (uncommitted : r.worker.committed = false) {caller : Caller} {cancelled attempted : Bool}
    (early : caller.early = true → r.worker = .idle) (quiet : cancelled = caller.ended)
    (not_ok : ¬ (caller = .checking (.ok ()) ∨ caller = .returned (.ok ())))
    (late : ∀ error, caller = .checking (.error error) → r.expired = true ∨ ∃ other, r.worker = .done (.error other))
    (refused : ∀ error, caller = .returned (.error error) → r.poisoned = true) :
    Inv { r with caller := caller, cancelled := cancelled, attempted := attempted } where
  record := inv.record
  revoked := inv.revoked
  unlocked := inv.unlocked
  early := early
  cancelled := quiet
  ok := fun ok => absurd ok not_ok
  late := late
  error := refused
  committed := fun committed => absurd committed (by rw [uncommitted]; decide)
  calm := fun committed => absurd committed (by rw [uncommitted]; decide)

/-- The call ends with an error and the guard is revoked. -/
theorem Inv.refuse (inv : Inv r) (uncommitted : r.worker.committed = false) (error : RetrievalError) : Inv (r.refuse error) := by
  have poisoned := inv.poison fun committed => absurd committed (by rw [uncommitted]; decide)
  exact poisoned.call uncommitted (fun early => nomatch early) rfl (by rintro (same | same) <;> cases same)
    (fun _ same => nomatch same) fun _ _ => rfl

/-- A caller in one of the other phases has no committed task. -/
theorem Inv.uncommitted (inv : Inv r) {caller : Caller} (known : r.caller = caller)
    (other : ¬ (caller = .waiting ∨ caller = .checking (.ok ()) ∨ caller = .returned (.ok ()))) : r.worker.committed = false := by
  apply Bool.eq_false_iff.mpr
  intro committed
  exact other (known ▸ inv.committed committed)

theorem Inv.dropCaller (inv : Inv r) (timely : Timely r .dropCaller) : Inv (r.step .dropCaller) := by
  rw [Release.step]
  have dropped (unended : r.caller.ended = false) : Inv { r with caller := .dropped, cancelled := true } := by
    have uncommitted : r.worker.committed = false := by
      apply Bool.eq_false_iff.mpr
      intro committed
      have ended := timely committed
      rw [unended] at ended
      cases ended
    exact inv.call uncommitted (fun early => nomatch early) rfl (by rintro (same | same) <;> cases same)
      (fun _ same => nomatch same) fun _ same => nomatch same
  split
  · next known => exact dropped (by rw [known]; rfl)
  · next known => exact dropped (by rw [known]; rfl)
  · next known => exact dropped (by rw [known]; rfl)
  · exact inv

theorem Inv.enter (inv : Inv r) (timely : Timely r .enter) : Inv (r.step .enter) := by
  rw [Release.step]
  split
  · next known =>
    have uncommitted := inv.uncommitted known (by simp)
    split
    · next used =>
      have poisoned : r.poisoned = true := by
        rcases Bool.or_eq_true_iff.mp used with poisoned | attempted
        · exact poisoned
        · exact timely known attempted
      exact inv.call uncommitted (fun early => nomatch early) rfl (by rintro (same | same) <;> cases same)
        (fun _ same => nomatch same) fun _ _ => poisoned
    · exact inv.call uncommitted (fun _ => inv.early (by rw [known]; rfl)) (by rw [inv.cancelled, known]; rfl)
        (by rintro (same | same) <;> cases same) (fun _ same => nomatch same) fun _ same => nomatch same
  · exact inv

/-- The task is spawned. -/
theorem Inv.spawn (inv : Inv r) (idle : r.worker = .idle) (admitting : r.caller = .admitting) :
    Inv { r with caller := .waiting, worker := .running .start } where
  record := inv.record.trans (by rw [idle]; rfl)
  revoked := inv.revoked
  unlocked := by rintro (same | same) <;> cases same
  early := fun early => nomatch early
  cancelled := inv.cancelled.trans (by rw [admitting]; rfl)
  ok := by rintro (same | same) <;> cases same
  late := fun _ same => nomatch same
  error := fun _ same => nomatch same
  committed := fun committed => nomatch committed
  calm := fun committed => nomatch committed

/-- The call before the task is spawned. -/
theorem Inv.prepare (inv : Inv r) : Inv (r.step .drained) ∧ Inv (r.step .drainTimeout) ∧ Inv (r.step .permit) ∧ Inv (r.step .noPermit) := by
  refine ⟨?_, ?_, ?_, ?_⟩ <;> rw [Release.step]
  · split
    · next known =>
      exact inv.call (inv.uncommitted known (by simp)) (fun _ => inv.early (by rw [known]; rfl)) (by rw [inv.cancelled, known]; rfl)
        (by rintro (same | same) <;> cases same) (fun _ same => nomatch same) fun _ same => nomatch same
    · exact inv
  · split
    · next known =>
      split
      · exact inv.refuse (inv.uncommitted known (by simp)) _
      · exact inv
    · exact inv
  · split
    · next known =>
      have idle := inv.early (by rw [known]; rfl)
      exact inv.spawn idle known
    · exact inv
  · split
    · next known => exact inv.refuse (inv.uncommitted known (by simp)) _
    · exact inv

/-- The caller learns the result of the task. -/
theorem Inv.join (inv : Inv r) : Inv (r.step .join) := by
  rw [Release.step]
  split
  · next result waiting worker =>
    constructor
    case record => exact inv.record
    case revoked => exact inv.revoked
    case unlocked => exact inv.unlocked
    case early => exact fun early => nomatch early
    case cancelled => exact inv.cancelled.trans (by rw [waiting]; rfl)
    case ok =>
      rintro (same | same)
      · cases same
        exact worker
      · cases same
    case late =>
      intro error same
      cases same
      exact .inr ⟨error, worker⟩
    case error => exact fun _ same => nomatch same
    case committed =>
      intro committed
      change r.worker.committed = true at committed
      rw [worker] at committed
      cases result with
      | ok value => exact .inr (.inl rfl)
      | error error => cases committed
    case calm => exact fun committed _ => inv.calm committed (by rw [waiting]; rfl)
  · exact inv

/-- The caller stops waiting for the task. -/
theorem Inv.taskTimeout (inv : Inv r) : Inv (r.step .taskTimeout) := by
  rw [Release.step]
  split
  · next point waiting running =>
    split
    · next expired =>
      have uncommitted : r.worker.committed = false := by
        apply Bool.eq_false_iff.mpr
        intro committed
        have calm := (inv.calm committed (by rw [waiting]; rfl)).1
        rw [expired] at calm
        cases calm
      exact inv.call uncommitted (fun early => nomatch early) (inv.cancelled.trans (by rw [waiting]; rfl))
        (by rintro (same | same) <;> cases same) (fun _ _ => .inl expired) fun _ same => nomatch same
    · exact inv
  · exact inv

theorem Inv.finish (inv : Inv r) : Inv (r.step .finish) := by
  rw [Release.step]
  split
  · next result checking =>
    split
    · next late =>
      apply inv.refuse
      apply Bool.eq_false_iff.mpr
      intro committed
      obtain ⟨expired, poisoned⟩ := inv.calm committed (by rw [checking]; rfl)
      rw [expired, poisoned] at late
      cases late
    · cases result with
      | error error => exact inv.refuse (inv.uncommitted checking (by simp)) error
      | ok value =>
        have worker := inv.ok (.inl checking)
        constructor
        case record => exact inv.record
        case revoked => exact inv.revoked
        case unlocked => exact inv.unlocked
        case early => exact fun early => nomatch early
        case cancelled => rfl
        case ok => exact fun _ => worker
        case late => exact fun _ same => nomatch same
        case error => exact fun _ same => nomatch same
        case committed => exact fun _ => .inr (.inr rfl)
        case calm => exact fun _ open' => nomatch open'
  · exact inv

/-- The clock passes the deadline while the task has not committed, or after the call. -/
theorem Inv.expire (inv : Inv r) (timely : Timely r .expire) : Inv (r.step .expire) where
  record := inv.record
  revoked := inv.revoked
  unlocked := inv.unlocked
  early := inv.early
  cancelled := inv.cancelled
  ok := inv.ok
  late := fun _ _ => .inl rfl
  error := inv.error
  committed := inv.committed
  calm := by
    intro committed unended
    have ended := timely committed
    change r.caller.ended = false at unended
    rw [unended] at ended
    cases ended

theorem Inv.step (inv : Inv r) (event : Event) (timely : Timely r event) : Inv (r.step event) := by
  cases event with
  | expire => exact inv.expire timely
  | dropCaller => exact inv.dropCaller timely
  | markUncertain => exact inv.poison timely
  | enter => exact inv.enter timely
  | drained => exact inv.prepare.1
  | drainTimeout => exact inv.prepare.2.1
  | permit => exact inv.prepare.2.2.1
  | noPermit => exact inv.prepare.2.2.2
  | join => exact inv.join
  | taskTimeout => exact inv.taskTimeout
  | finish => exact inv.finish
  | work =>
    rw [Release.step]
    split
    · next point running => exact inv.work running timely
    · exact inv
  | ioFailure left =>
    rw [Release.step]
    split
    · next point running => exact inv.ioFailure running (running ▸ timely)
    · exact inv

/-! ## Runs -/

instance Timely.decidable (r : Release) : (event : Event) → Decidable (Timely r event)
  | .expire | .dropCaller | .markUncertain => inferInstanceAs (Decidable (_ → _))
  | .enter | .work => inferInstanceAs (Decidable (_ → _ → _))
  | .ioFailure left => inferInstanceAs (Decidable (harmless r.worker left = true))
  | .drained | .drainTimeout | .permit | .noPermit | .join | .taskTimeout | .finish => .isTrue trivial

/-- A release that nothing disturbs. -/
def undisturbed : List Event := [.enter, .drained, .permit] ++ List.replicate 19 .work ++ [.join, .finish]

end RuntimeGuard

end OpenLegal.Replication
