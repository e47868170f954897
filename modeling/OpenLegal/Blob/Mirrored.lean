import OpenLegal.Blob.Store

/-! # The mirrored blob store

An operation is acknowledged after both roots are durable. The aggregate has its own health and counts its own
failures as generations. A failure is recorded under the admission lock in two writes, first the generation and
then the health; a probe reads the generation, the health and the numbers of active jobs without that lock.

The generation is a `u64` that wraps. Beside it stands the number of failures begun, which the store does not have.
-/

namespace OpenLegal.Blob

open Theory

inductive Member where
  | primary
  | mirror
deriving DecidableEq, Repr

/-- The generation that a probe has read, and the failures begun by then. -/
structure Reading where
  generation : ℕ
  failures : ℕ
deriving DecidableEq, Repr

/-- A probe of the aggregate: admitted, with the generation read, reading what is still active, probing both
members, stopped with its operation still counted, or over. -/
inductive MirrorPhase where
  | admitted
  | loaded (reading : Reading)
  | draining (reading : Reading) (passed : ℕ)
  | probing (reading : Reading) (primary mirror : Bool)
  | stopping
  | succeeded (reading : Reading)
  | failed
deriving DecidableEq, Repr

/-- The operation of the probe is counted. -/
def MirrorPhase.active : MirrorPhase → Bool
  | .admitted | .loaded _ | .draining .. | .probing .. | .stopping => true
  | .succeeded _ | .failed => false

structure MirroredBlobStore where
  generation : ℕ
  /-- The failures begun so far. -/
  failures : ℕ
  healthy : Bool
  closed : Bool
  /-- The lock is held by a failure that has written the generation and not yet the health. -/
  publishing : Bool
  /-- The active operations, each with the failures begun before it was admitted. -/
  operations : List ℕ
  probes : List MirrorPhase
  /-- The members, with jobs labelled by the failures of the aggregate. -/
  primary : FsBlobStore ℕ
  mirror : FsBlobStore ℕ
deriving DecidableEq, Repr

namespace MirroredBlobStore

def opened : MirroredBlobStore := ⟨0, 0, true, false, false, [], [], .opened, .opened⟩

/-- `active`: ordinary operations and probes. -/
def active (store : MirroredBlobStore) : ℕ := store.operations.length + store.probes.countP MirrorPhase.active

def member (store : MirroredBlobStore) : Member → FsBlobStore ℕ
  | .primary => store.primary
  | .mirror => store.mirror

def setMember (store : MirroredBlobStore) (which : Member) (next : FsBlobStore ℕ) : MirroredBlobStore :=
  match which with
  | .primary => { store with primary := next }
  | .mirror => { store with mirror := next }

def setPhase (store : MirroredBlobStore) (probe : ℕ) (phase : MirrorPhase) : MirroredBlobStore :=
  { store with probes := store.probes.modify probe fun _ => phase }

/-- Ordinary admission, under the lock. -/
def admitOperation (store : MirroredBlobStore) : Except BlobError MirroredBlobStore :=
  if store.closed then .error .shutdown
  else if !store.healthy then .error .storageUnavailable
  else .ok { store with operations := store.operations ++ [store.failures] }

/-- One leg of a probe: the health of a member is settled. -/
def leg (store : MirroredBlobStore) (probe : ℕ) (reading : Reading) (primary mirror : Bool) (which : Member)
    (flight : ℕ) : MirroredBlobStore :=
  match (store.member which).settle flight with
  | .error _ => store.setPhase probe .stopping
  | .ok next => (store.setMember which next).setPhase probe
      (.probing reading (primary || which = .primary) (mirror || which = .mirror))

/-- A waiter that still waits applies the outcome of a probe, under the lock. -/
def settle (store : MirroredBlobStore) (generation : ℕ) : Except BlobError MirroredBlobStore :=
  if store.closed then .error .shutdown
  else if store.generation ≠ generation || !store.primary.healthy || !store.mirror.healthy then .error .storageUnavailable
  else .ok { store with healthy := true }

inductive Action where
  /-- A step of a member: of a leg of an operation, or of a lookup in the primary. -/
  | member (which : Member) (action : FsBlobStore.Action)
  | admitOperation
  | finish (operation : ℕ)
  | beginFailure (error : BlobError)
  | endFailure
  | admitProbe
  | loadGeneration (probe : ℕ)
  | loadHealth (probe : ℕ)
  | loadActive (probe : ℕ)
  | loadPrimary (probe : ℕ)
  | loadMirror (probe : ℕ)
  | leg (probe : ℕ) (which : Member) (flight : ℕ)
  | probeError (probe : ℕ)
  | endProbe (probe : ℕ)
  | settle (probe : ℕ)
  | close
deriving DecidableEq, Repr

/-- What happens to a probe, by its phase. -/
def probeStep (store : MirroredBlobStore) (probe : ℕ) : MirrorPhase → Action → MirroredBlobStore
  | .admitted, .loadGeneration _ => store.setPhase probe (.loaded ⟨store.generation, store.failures⟩)
  | .loaded reading, .loadHealth _ =>
    store.setPhase probe (if store.healthy then .probing reading false false else .draining reading 0)
  | .draining reading 0, .loadActive _ =>
    store.setPhase probe (if store.active = 1 then .draining reading 1 else .stopping)
  | .draining reading 1, .loadPrimary _ =>
    store.setPhase probe (if store.primary.activeJobs = 0 then .draining reading 2 else .stopping)
  | .draining reading 2, .loadMirror _ =>
    store.setPhase probe (if store.mirror.activeJobs = 0 then .probing reading false false else .stopping)
  | .probing reading primary mirror, .leg _ which flight => store.leg probe reading primary mirror which flight
  | .probing reading true true, .endProbe _ => store.setPhase probe (.succeeded reading)
  | .stopping, .endProbe _ => store.setPhase probe .failed
  | .succeeded reading, .settle _ =>
    if store.publishing then store else (store.settle reading.generation).toOption.getD store
  | phase, .probeError _ => if phase.active then store.setPhase probe .stopping else store
  | _, _ => store

def Action.probe : Action → Option ℕ
  | .loadGeneration probe | .loadHealth probe | .loadActive probe | .loadPrimary probe | .loadMirror probe
  | .leg probe _ _ | .probeError probe | .endProbe probe | .settle probe => some probe
  | _ => none

/-- A refused step, and one that has to wait for the lock, changes nothing. -/
def step (store : MirroredBlobStore) (action : Action) : MirroredBlobStore :=
  match action with
  | .member which action => store.setMember which (FsBlobStore.step store.failures (store.member which) action)
  | .admitOperation => if store.publishing then store else store.admitOperation.toOption.getD store
  | .finish operation => { store with operations := store.operations.eraseIdx operation }
  | .beginFailure error =>
    if store.publishing || !error.isFailure then store
    else
      { store with
        generation := (store.generation + 1) % 2 ^ 64
        failures := store.failures + 1
        publishing := true }
  | .endFailure => if store.publishing then { store with healthy := false, publishing := false } else store
  | .admitProbe => if store.publishing || store.closed then store else { store with probes := store.probes ++ [.admitted] }
  | .close => if store.publishing then store else { store with closed := true, healthy := false }
  | action =>
    match action.probe with
    | none => store
    | some probe =>
      match store.probes[probe]? with
      | none => store
      | some phase => store.probeStep probe phase action

def run (store : MirroredBlobStore) (actions : List Action) : MirroredBlobStore := actions.foldl step store

attribute [grind =] member setMember setPhase admitOperation leg settle probeStep step

end MirroredBlobStore

end OpenLegal.Blob
