import OpenLegal.Legal.Domain

/-! # Availability of the corpus store

`Availability` guards the corpus store by two flags, a failure generation and a count of admitted work. Work and
commits are admitted under one lock, failures are recorded under another, and the flags and the generation are
read by probes without any lock.

A step is one critical section or one access to a shared cell inside a longer one: a failure is recorded in two
or three steps, `complete` enters with the lock of the work and reopens with both locks, and an owned commit is
dropped guard first. A step that would have to wait for a lock leaves the world unchanged. What the database, the
blob store and the durability fence answer is part of the events.
-/

namespace OpenLegal.Corpus

open Legal

structure WorkState where
  closing : Bool
  pending : ℕ
  commits : ℕ
deriving DecidableEq, Repr

/-- `Availability::enter_work`. -/
def WorkState.enterWork (work : WorkState) (limit : Option ℕ) : Except DatabaseError WorkState :=
  if work.closing then .error .storageUnavailable
  else if limit.any (work.commits ≥ ·) then .error .storageContended
  else
    .ok { work with
      pending := work.pending + 1
      commits := if limit.isSome then work.commits + 1 else work.commits }

/-- What an `OwnedWork` belongs to: a mutation, or an `OwnedCommit` whose guard is armed or not. -/
inductive Kind where
  | mutation
  | commit (armed : Bool)
deriving DecidableEq, Repr

def Kind.isCommit : Kind → Bool
  | .mutation => false
  | .commit _ => true

/-- The drop of owned work: an armed guard records uncertainty, then the work is given back. -/
inductive Stage where
  | held
  | unguarding
  | unguarded
  | released
deriving DecidableEq, Repr

/-- `confirmed` says that `CommitGuard::confirmed` was called. -/
structure Work where
  kind : Kind
  stage : Stage
  confirmed : Bool
deriving DecidableEq, Repr

/-- A failure being recorded: what its next access to the shared cells is, and the work whose drop it is part of. -/
inductive Progress where
  | marking
  | counting
  | storing
deriving DecidableEq, Repr

structure Failing where
  progress : Progress
  owner : Option ℕ
deriving DecidableEq, Repr

inductive ProbeState where
  | allowed
  | running
  | proved
  | spent
deriving DecidableEq, Repr

/-- A probe, and the proof it returns. `recorded` is the number of failures recorded when it read the generation. -/
structure Probe where
  generation : ℕ
  recorded : ℕ
  state : ProbeState
deriving DecidableEq, Repr

/-- A call of `drain_storage_work`. -/
inductive Drain where
  | waiting
  | drained
  | returned (result : Except DatabaseError Unit)
deriving DecidableEq

structure World where
  tracksFailures : Bool
  /-- `blocked`, or a closed pool -/
  blocked : Bool
  failed : Bool
  uncertain : Bool
  generation : ℕ
  recoveries : ℕ
  work : WorkState
  /-- who holds the lock `transition` between two steps -/
  transition : Option Failing
  /-- who holds the lock `work` between two steps -/
  completing : Option Probe
  works : List Work
  probes : List Probe
  drains : List Drain
  /-- the failures recorded so far -/
  recorded : ℕ
  /-- the limit of the last admission that raised `commits` -/
  lastLimit : ℕ
deriving DecidableEq

inductive Event where
  | enter
  | ownedCommit (limit : ℕ)
  /-- the commit and its durability check succeeded -/
  | confirm (id : ℕ)
  /-- the next step of dropping owned work: at its end, by a panic or by an abort of its task -/
  | dropWork (id : ℕ)
  | fail
  | failUncertain
  /-- the next access of the failure being recorded -/
  | advance
  | corrupt
  | probeHealth
  | probeReads (id : ℕ)
  | probeEnds (id : ℕ) (proved : Bool)
  /-- `complete_health` up to the lock `transition` -/
  | completeHealth (id : ℕ)
  | reopen (cancelled : Bool)
  | drainStorageWork
  /-- one turn of the loop in `close_and_drain` -/
  | closeAndDrain (id : ℕ)
  | drainReads (id : ℕ)
deriving DecidableEq, Repr

namespace World

def initial (tracksFailures : Bool) : World :=
  { tracksFailures, blocked := false, failed := false, uncertain := false, generation := 0, recoveries := 0
    work := { closing := false, pending := 0, commits := 0 }
    transition := none, completing := none, works := [], probes := [], drains := [], recorded := 0, lastLimit := 0 }

/-- `Availability::healthy`. -/
def healthy (world : World) : Bool := !world.failed && !world.uncertain

/-- `PgCorpusStore::healthy`. -/
def storeHealthy (world : World) : Bool := !world.blocked && world.healthy

def enter (world : World) : World :=
  if world.completing.isSome then world
  else
    match world.work.enterWork none with
    | .error _ => world
    | .ok work =>
      { world with work, works := world.works ++ [{ kind := .mutation, stage := .held, confirmed := false }] }

/-- `owned_commit` up to the spawn of its task. What is refused is never submitted. -/
def ownedCommit (world : World) (limit : ℕ) : World :=
  if world.completing.isSome then world
  else
    match world.work.enterWork (some limit) with
    | .error _ => world
    | .ok work =>
      let owned := { kind := .commit world.tracksFailures, stage := .held, confirmed := false }
      { world with work, works := world.works ++ [owned], lastLimit := limit }

def confirm (world : World) (id : ℕ) : World :=
  match world.works[id]? with
  | some { kind := .commit _, stage := .held, .. } =>
    { world with works := world.works.set id { kind := .commit false, stage := .held, confirmed := true } }
  | _ => world

/-- `Drop for OwnedWork`. -/
def release (world : World) (id : ℕ) (work : Work) : World :=
  if world.completing.isSome then world
  else
    { world with
      work := { world.work with
        pending := world.work.pending - 1
        commits := if work.kind.isCommit then world.work.commits - 1 else world.work.commits }
      works := world.works.set id { work with stage := .released } }

def dropWork (world : World) (id : ℕ) : World :=
  match world.works[id]? with
  | none => world
  | some work =>
    match work.stage with
    | .held =>
      match work.kind with
      | .mutation => world.release id work
      | .commit true =>
        -- `record_commit_uncertain` waits for the lock
        if world.transition.isSome then world
        else
          { world with
            transition := some { progress := .marking, owner := some id }
            works := world.works.set id { work with stage := .unguarding } }
      | .commit false => { world with works := world.works.set id { work with stage := .unguarded } }
    | .unguarding => world
    | .unguarded => world.release id work
    | .released => world

/-- The store records failures only where it tracks them. -/
def lock (world : World) (progress : Progress) : World :=
  if world.tracksFailures && world.transition.isNone then
    { world with transition := some { progress, owner := none } }
  else world

def fail (world : World) : World := world.lock .counting

def failUncertain (world : World) : World := world.lock .marking

def advance (world : World) : World :=
  match world.transition with
  | none => world
  | some failing =>
    match failing.progress with
    | .marking => { world with uncertain := true, transition := some { failing with progress := .counting } }
    | .counting =>
      { world with
        generation := (world.generation + 1) % 2 ^ 64
        recorded := world.recorded + 1
        transition := some { failing with progress := .storing } }
    | .storing =>
      { world with
        failed := true
        transition := none
        works :=
          match failing.owner with
          | none => world.works
          | some id => world.works.modify id fun work => { work with stage := .unguarded } }

/-- The checks before the probe reads anything. The probe mutex admits one probe at a time. -/
def probeHealth (world : World) : World :=
  if world.blocked || world.uncertain || world.probes.any fun probe => probe.state == .allowed || probe.state == .running then
    world
  else { world with probes := world.probes ++ [{ generation := 0, recorded := 0, state := .allowed }] }

def probeReads (world : World) (id : ℕ) : World :=
  match world.probes[id]? with
  | some { state := .allowed, .. } =>
    { world with
      probes := world.probes.set id
        { generation := world.generation, recorded := world.recorded, state := .running } }
  | _ => world

def probeEnds (world : World) (id : ℕ) (proved : Bool) : World :=
  match world.probes[id]? with
  | some { generation, recorded, state := .running } =>
    { world with
      probes := world.probes.set id { generation, recorded, state := if proved then .proved else .spent } }
  | _ => world

def completeHealth (world : World) (id : ℕ) : World :=
  match world.probes[id]? with
  | some { generation, recorded, state := .proved } =>
    let spent := { world with probes := world.probes.set id { generation, recorded, state := .spent } }
    if world.completing.isSome then world
    else if world.blocked then spent
    else if world.work.closing || (world.failed && world.work.pending ≠ 0) then spent
    else { spent with completing := some { generation, recorded, state := .spent } }
  | _ => world

def reopen (world : World) (cancelled : Bool) : World :=
  match world.completing with
  | none => world
  | some proof =>
    if world.transition.isSome then world
    else if cancelled then { world with completing := none }
    else if world.uncertain || world.generation ≠ proof.generation then { world with completing := none }
    else
      { world with
        completing := none
        failed := false
        recoveries := if world.failed then world.recoveries + 1 else world.recoveries }

def closeAndDrain (world : World) (id : ℕ) : World :=
  match world.drains[id]? with
  | some .waiting =>
    if world.completing.isSome then world
    else
      let closed := { world with work := { world.work with closing := true } }
      if world.work.pending = 0 then { closed with drains := world.drains.set id .drained } else closed
  | _ => world

def drainReads (world : World) (id : ℕ) : World :=
  match world.drains[id]? with
  | some .drained =>
    let result := if world.uncertain then .error .storageUnavailable else .ok ()
    { world with drains := world.drains.set id (.returned result) }
  | _ => world

def step (world : World) : Event → World
  | .enter => world.enter
  | .ownedCommit limit => world.ownedCommit limit
  | .confirm id => world.confirm id
  | .dropWork id => world.dropWork id
  | .fail => world.fail
  | .failUncertain => world.failUncertain
  | .advance => world.advance
  | .corrupt => { world with blocked := true }
  | .probeHealth => world.probeHealth
  | .probeReads id => world.probeReads id
  | .probeEnds id proved => world.probeEnds id proved
  | .completeHealth id => world.completeHealth id
  | .reopen cancelled => world.reopen cancelled
  | .drainStorageWork => { world with drains := world.drains ++ [.waiting] }
  | .closeAndDrain id => world.closeAndDrain id
  | .drainReads id => world.drainReads id

def run (world : World) (events : List Event) : World := events.foldl step world

attribute [grind =] enter ownedCommit confirm release dropWork lock fail failUncertain advance probeHealth probeReads
  probeEnds completeHealth reopen closeAndDrain drainReads step

end World

end OpenLegal.Corpus
