import OpenLegal.Theory.EpochGate

/-! # Health of a blob store

Blocking jobs stay active until the filesystem call completes, whether or not anyone still waits. A failure
closes admission until a probe succeeds that was started after it. Every step below happens under the
admission lock, apart from the end of a job, which takes one off the number of active jobs.

The failure epoch is a `u64` that wraps. Beside it stands the number of failures, which the store does not have.
-/

namespace OpenLegal.Blob

open Theory

inductive BlobError where
  | cancelled
  | invalidInput
  | busy
  | shutdown
  | storageUnavailable
  | storageCorrupt
  | internal
deriving DecidableEq, Repr

/-- Errors of a job that say something about the store. -/
def BlobError.isFailure : BlobError → Bool
  | .cancelled | .invalidInput | .busy | .shutdown => false
  | .storageUnavailable | .storageCorrupt | .internal => true

/-- An active job, with the number of failures before it was admitted and what its owner knows it by. -/
structure Job (α : Type) where
  failures : ℕ
  label : α
deriving DecidableEq, Repr

/-- A shared probe: waiting for its job, running before or after its check, given up with its job still active,
or over. -/
inductive FlightPhase where
  | queued
  | running (checked : Bool)
  | lingering
  | succeeded
  | failed
deriving DecidableEq, Repr

structure HealthFlight where
  generation : ℕ
  /-- the failures before the probe was started -/
  failures : ℕ
  recovering : Bool
  phase : FlightPhase
deriving DecidableEq, Repr

/-- The job of the probe counts as active. -/
def HealthFlight.active (flight : HealthFlight) : Bool :=
  match flight.phase with
  | .running _ | .lingering => true
  | .queued | .succeeded | .failed => false

structure FsBlobStore (α : Type) where
  failureEpoch : ℕ
  /-- the failures so far -/
  failures : ℕ
  healthy : Bool
  closed : Bool
  jobs : List (Job α)
  flights : List HealthFlight
deriving DecidableEq, Repr

namespace FsBlobStore

variable {α : Type}

/-- A store is opened after a first probe. -/
def opened : FsBlobStore α := ⟨0, 0, true, false, [], []⟩

def activeJobs (store : FsBlobStore α) : ℕ := store.jobs.length + store.flights.countP HealthFlight.active

/-- Ordinary admission. A semaphore that is full refuses the job and changes nothing. -/
def admitJob (store : FsBlobStore α) (label : α) : Except BlobError (FsBlobStore α) :=
  if store.closed then .error .shutdown
  else if !store.healthy then .error .storageUnavailable
  else .ok { store with jobs := store.jobs ++ [⟨store.failures, label⟩] }

/-- `failed`: failure publication is serialized with recovery and shutdown. -/
def failed (store : FsBlobStore α) (error : BlobError) : FsBlobStore α :=
  if error.isFailure then
    { store with
      failureEpoch := (store.failureEpoch + 1) % 2 ^ 64
      failures := store.failures + 1
      healthy := false }
  else store

def setPhase (store : FsBlobStore α) (flight : ℕ) (phase : FlightPhase) : FsBlobStore α :=
  { store with flights := store.flights.modify flight fun old => { old with phase } }

/-- A new probe remembers the epoch and whether there is something to recover from. -/
def startHealth (store : FsBlobStore α) : Except BlobError (FsBlobStore α) :=
  if store.closed then .error .shutdown
  else .ok { store with flights := store.flights ++ [⟨store.failureEpoch, store.failures, !store.healthy, .queued⟩] }

/-- The check before the filesystem is touched: no newer failure, and nothing left from before it. -/
def checkProbe (store : FsBlobStore α) (flight : ℕ) (probe : HealthFlight) : FsBlobStore α :=
  if store.failureEpoch ≠ probe.generation then (store.setPhase flight .lingering).failed .storageUnavailable
  else if probe.recovering && !store.healthy && store.activeJobs ≠ 1 then store.setPhase flight .lingering
  else store.setPhase flight (.running true)

/-- A waiter that still waits applies the outcome of a probe. -/
def settle (store : FsBlobStore α) (flight : ℕ) : Except BlobError (FsBlobStore α) :=
  match store.flights[flight]? with
  | none => .error .storageUnavailable
  | some probe =>
    if probe.phase ≠ .succeeded then .error .storageUnavailable
    else if store.closed then .error .shutdown
    else if store.failureEpoch ≠ probe.generation then .error .storageUnavailable
    else .ok { store with healthy := store.healthy || probe.recovering }

def close (store : FsBlobStore α) : FsBlobStore α := { store with closed := true, healthy := false }

inductive Action where
  | admitJob
  /-- The filesystem call of an ordinary job completes. -/
  | finish (job : ℕ)
  /-- A job or its deadline supervisor reports an error. -/
  | fail (error : BlobError)
  | startHealth
  | admitProbe (flight : ℕ)
  | checkProbe (flight : ℕ)
  | probeOk (flight : ℕ)
  /-- A probe fails, or its deadline passes while its call is still in the kernel. -/
  | probeError (flight : ℕ) (error : BlobError)
  | endProbe (flight : ℕ)
  | settle (flight : ℕ)
  | close
deriving DecidableEq, Repr

/-- What happens to a probe, by its phase. -/
def probeStep (store : FsBlobStore α) (flight : ℕ) (probe : HealthFlight) : Action → FsBlobStore α
  | .admitProbe _ =>
    if probe.phase = .queued then
      if store.closed then store.setPhase flight .failed else store.setPhase flight (.running false)
    else store
  | .checkProbe _ => if probe.phase = .running false then store.checkProbe flight probe else store
  | .probeOk _ => if probe.phase = .running true then store.setPhase flight .succeeded else store
  | .probeError _ error =>
    match probe.phase with
    | .queued => store.setPhase flight .failed
    | .running _ => (store.setPhase flight .lingering).failed error
    | _ => store
  | .endProbe _ => if probe.phase = .lingering then store.setPhase flight .failed else store
  | _ => store

/-- The probe that an action is about. -/
def Action.flight : Action → Option ℕ
  | .admitProbe flight | .checkProbe flight | .probeOk flight | .probeError flight _ | .endProbe flight => some flight
  | _ => none

/-- A refused step changes nothing. New jobs get the label. -/
def step (label : α) (store : FsBlobStore α) (action : Action) : FsBlobStore α :=
  match action with
  | .admitJob => (store.admitJob label).toOption.getD store
  | .finish job => { store with jobs := store.jobs.eraseIdx job }
  | .fail error => store.failed error
  | .startHealth => store.startHealth.toOption.getD store
  | .settle flight => (store.settle flight).toOption.getD store
  | .close => store.close
  | action =>
    match action.flight with
    | none => store
    | some flight =>
      match store.flights[flight]? with
      | none => store
      | some probe => store.probeStep flight probe action

def run (label : α) (store : FsBlobStore α) (actions : List Action) : FsBlobStore α := actions.foldl (step label) store

/-- The gate of the store, with its ordinary jobs. -/
def gate (store : FsBlobStore α) : EpochGate :=
  ⟨store.failures, store.healthy, store.closed, store.jobs.map Job.failures⟩

end FsBlobStore

end OpenLegal.Blob
