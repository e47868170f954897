import OpenLegal.Corpus.Tables

/-! # Jobs

A job asks for one revision of an object. It is enqueued, claimed by a worker under a lease, and settled by the worker
or published. Each claim raises the version of the object and writes the new version into the job; a late worker is
recognized by the version and the attempts of its claim.

Each operation is one transaction, under the clock of the world. What the operations read of `collection_request` and
`openlegal_admin.provider_held()` are arguments.
-/

namespace OpenLegal.Corpus.Database

open Rust Rust.Str Legal Theory
open Corpus.Collection (CollectionLaunch)

/-- `u32 as i32`. -/
def asI32 (value : UInt32) : ℤ := if value.toNat < 2 ^ 31 then value.toNat else value.toNat - 2 ^ 32

def recoveryAt (launch : CollectionLaunch) : ℕ := launch.launchedAt + launch.timeoutSecs + 900

def validMetadata (metadata : Map Str Str) : Bool :=
  metadata.len ≤ 128 && (metadata.entries.map fun entry => byteLen entry.1 + byteLen entry.2).sum ≤ 65536

/-- The arguments of `enqueue_job_with_owner`. `id` is the identifier that the database generates for a new row. -/
structure Enqueue where
  object : ObjectId
  revisionId : Str
  effectiveDate : Option Str
  installHead : Bool
  markHeadPending : Bool
  sourceMetadata : Map Str Str
  observedVersion : Option ℕ
  launch : Option CollectionLaunch
  id : ℕ
  owners : List Owner

namespace Enqueue

/-- The checks that come before the transaction, and the authority of the launch. -/
def check (request : Enqueue) (now : ℕ) : Except DatabaseError Unit :=
  if request.launch.any fun launch => recoveryAt launch ≥ 2 ^ 63 then .error .invalidInput
  else if !validMetadata request.sourceMetadata then .error .invalidInput
  else
    match request.object.validate with
    | .error error => .error error
    | .ok () =>
      if !validRevision request.revisionId then .error .invalidInput
      else if request.effectiveDate.any fun date => !validDate date then .error .invalidInput
      else if request.launch.any fun launch => launch.launchedAt ≥ 2 ^ 63 || now ≥ 2 ^ 63 then .error .invalidInput
      else if request.launch.any fun launch => !activeLaunch request.owners launch.id launch.launchedAt now then
        .error .cancelled
      else .ok ()

def date (request : Enqueue) : Str := request.effectiveDate.getD []

/-- Whether a job is for the same revision. -/
def names (request : Enqueue) (row : JobRow) : Bool :=
  row.object == request.object && row.revisionId == request.revisionId && row.effectiveDate == request.date

/-- Whether a job for another HEAD revision gives way. -/
def supersedes (request : Enqueue) (row : JobRow) : Bool :=
  row.object == request.object && row.installHead && row.revisionId != request.revisionId && row.isOpen

def headChanged (request : Enqueue) (row : ObjectRow) : Bool :=
  request.installHead &&
    (row.desiredHeadRevision != some request.revisionId || (request.markHeadPending && !row.pending))

/-- The version of the object after the enqueue. -/
def version (request : Enqueue) (row : ObjectRow) : ℕ := row.version + (request.headChanged row).toNat

/-- The row of a new job, with the defaults of the columns. -/
def newRow (request : Enqueue) (now version : ℕ) : JobRow :=
  { id := request.id, object := request.object, revisionId := request.revisionId, effectiveDate := request.date
    installHead := request.installHead, sourceMetadata := request.sourceMetadata, expectedVersion := version
    status := .pending, attempts := 0, createdAt := now, leaseUntil := none, errorCategory := none, startedAt := none
    completedAt := none, explicitRequestId := request.launch.map (·.id), explicitRecoveryAt := request.launch.map recoveryAt }

/-- A settled job is queued again under its identifier: `ON CONFLICT … DO UPDATE`. -/
def revive (request : Enqueue) (now version : ℕ) (row : JobRow) : JobRow := { request.newRow now version with id := row.id }

/-- A job that was not for HEAD is fenced and queued again. -/
def promote (request : Enqueue) (now version : ℕ) (row : JobRow) : JobRow :=
  { row with
    installHead := true
    sourceMetadata :=
      if row.explicitRequestId.isSome then request.sourceMetadata.insert collectionOrigin explicitOrigin
      else request.sourceMetadata
    expectedVersion := version
    status := .pending
    attempts := 0
    createdAt := now
    leaseUntil := none
    errorCategory := none
    startedAt := none
    completedAt := none }

end Enqueue

namespace JobRow

def superseded (now : ℕ) (row : JobRow) : JobRow :=
  { row with status := .failed, leaseUntil := none, errorCategory := some .superseded, completedAt := some now }

end JobRow

namespace World

/-- The replacement of HEAD that an enqueue records. -/
def observeHead (world : World) (request : Enqueue) (row : ObjectRow) : World :=
  if request.installHead then
    let fenced := (world.updateJobs request.supersedes (JobRow.superseded world.now)).updateObject request.object
      fun old => { old with
        desiredHeadRevision := some request.revisionId
        pending := old.pending || request.markHeadPending
        version := request.version row }
    fenced.note ((world.jobs.filter request.supersedes).map fun job => .superseded job.id)
  else world

/-- The job that an enqueue finds open, or a row for a new one. -/
def placeJob (world : World) (request : Enqueue) (version : ℕ) : World × Except DatabaseError Job :=
  match world.jobs.find? fun row => request.names row && row.isOpen with
  | some row =>
    if request.installHead && !row.installHead then
      let promoted := request.promote world.now version row
      ((world.updateJobs (fun other => other.id == row.id) (request.promote world.now version)).note [.enqueued row.id],
        .ok { promoted.toJob with sourceMetadata := request.sourceMetadata, effectiveDate := request.effectiveDate })
    else
      (world.updateObject request.object fun old => { old with pending := old.pending || request.markHeadPending },
        .ok { row.toJob with effectiveDate := request.effectiveDate, installHead := request.installHead || row.installHead })
  | none =>
    -- a saturated queue does not erase the replacement of HEAD that was observed
    if world.jobs.countP JobRow.isOpen ≥ 128 then (world, .error .capacity)
    else
      match world.jobs.find? request.names with
      | some row =>
        ((world.updateJobs (fun other => other.id == row.id) (request.revive world.now version)).note [.enqueued row.id],
          .ok { (request.revive world.now version row).toJob with effectiveDate := request.effectiveDate })
      | none =>
        if world.issued.contains request.id then (world, .error .storageUnavailable)
        else
          (({ world with
              jobs := world.jobs ++ [request.newRow world.now version]
              issued := request.id :: world.issued } : World).note [.enqueued request.id],
            .ok { (request.newRow world.now version).toJob with effectiveDate := request.effectiveDate })

/-- `enqueue_job_with_owner`. Only a full queue leaves a trace with its error. -/
def enqueueJobWithOwner (world : World) (request : Enqueue) : World × Except DatabaseError Job :=
  match request.check world.now with
  | .error error => (world, .error error)
  | .ok () =>
    let (present, row) := world.ensureObject request.object
    if row.withdrawn then (world, .error .withdrawn)
    else if request.installHead && row.currentInventoryConflict then (world, .error .sourceInventoryIncomplete)
    else if request.observedVersion.any (· ≠ row.version) then (world, .error .conflict)
    else
      match (present.observeHead request row).placeJob request (request.version row) with
      | (next, .ok job) => (next, .ok job)
      | (next, .error .capacity) => (next, .error .capacity)
      | (_, .error error) => (world, .error error)

/-- Another job of the object is running under an unexpired lease. -/
def hasOtherLive (world : World) (row : JobRow) : Bool :=
  world.jobs.any fun active => active.object == row.object && active.id != row.id && active.isLive world.now

/-- The wait that an explicit request may take over. -/
def adoptable (world : World) (object : ObjectId) (revisionId : Str) (effectiveDate : Option Str) (version : ℕ)
    (row : JobRow) : Bool :=
  row.object == object && row.revisionId == revisionId && row.effectiveDate == effectiveDate.getD [] &&
    row.installHead && row.status == .running && row.errorCategory == some .budgetWait &&
    row.expectedVersion == version && row.explicitRequestId.isNone && !row.isExplicit &&
    row.attempts < world.maxJobAttempts && !world.hasOtherLive row

/-- Move a completed background admission wait to a live explicit request: the attempts stay, the version advances. -/
def adoptBackgroundBudgetWait (world : World) (object : ObjectId) (revisionId : Str) (effectiveDate : Option Str)
    (observedVersion : ℕ) (sourceMetadata : Map Str Str) (launch : CollectionLaunch) (owners : List Owner) :
    Except DatabaseError World :=
  let metadata := sourceMetadata.insert collectionOrigin explicitOrigin
  if !validMetadata metadata || effectiveDate.any fun date => !validDate date then .error .invalidInput
  else if !validRevision revisionId then .error .invalidInput
  else
    match object.validate with
    | .error error => .error error
    | .ok () =>
      if observedVersion ≥ 2 ^ 63 then .error .invalidInput
      else if observedVersion + 1 ≥ 2 ^ 63 then .error .storageCorrupt
      else if recoveryAt launch ≥ 2 ^ 63 || launch.launchedAt ≥ 2 ^ 63 then .error .invalidInput
      else
        match world.object? object with
        | none => .ok world
        | some row =>
          if !(row.pending && !row.withdrawn && !row.currentInventoryConflict &&
              row.desiredHeadRevision == some revisionId && row.version == observedVersion) then .ok world
          else if !activeLaunch owners launch.id launch.launchedAt world.now then .ok world
          else
            match world.jobs.find? (world.adoptable object revisionId effectiveDate observedVersion) with
            | none => .ok world
            | some job =>
              .ok (((world.updateObject object fun old => { old with version := observedVersion + 1 }).updateJobs
                (fun other => other.id == job.id) fun old =>
                  { old with
                    status := .pending
                    expectedVersion := observedVersion + 1
                    sourceMetadata := metadata
                    explicitRequestId := some launch.id
                    explicitRecoveryAt := some (recoveryAt launch)
                    leaseUntil := none
                    errorCategory := none
                    startedAt := none
                    completedAt := none }).note [.adopted job.id])

/-- Bind an unclaimed job to its original request deadline. Joining work never renews it. -/
def adoptExplicitJob (world : World) (id requestId recoveryAt : ℕ) (owners : List Owner) : Except DatabaseError World :=
  if recoveryAt ≥ 2 ^ 63 then .error .invalidInput
  else
    .ok (world.updateJobs
      (fun row => row.id == id &&
        (row.status == .pending || (row.status == .running && row.leaseUntil.any (· ≤ world.now))) &&
        !world.hasOtherLive row && activeOwner owners requestId world.now &&
        (row.explicitRequestId == some requestId ||
          (row.explicitRequestId.isNone && row.explicitRecoveryAt.all (· ≤ world.now)) ||
          (row.explicitRequestId.any fun owner => !activeOwner owners owner world.now) &&
            row.explicitRecoveryAt.any (· ≤ world.now)))
      fun row =>
        { row with
          explicitRequestId := some requestId
          explicitRecoveryAt :=
            if row.explicitRequestId = some requestId then row.explicitRecoveryAt else some recoveryAt
          sourceMetadata := row.sourceMetadata.insert collectionOrigin explicitOrigin })

/-- The arguments of `claim_job_inner`. -/
structure Claim where
  leaseSeconds : ℕ
  explicitId : Option ℕ
  preferredDataset : Option Dataset
  explicitOwner : Option ℕ
  held : Bool
  owners : List Owner

/-- Whether a claim may take a job of an object. -/
def claimable (world : World) (claim : Claim) (object : ObjectRow) (row : JobRow) : Bool :=
  !object.withdrawn &&
    (!row.installHead || (!object.currentInventoryConflict && some row.revisionId == object.desiredHeadRevision)) &&
    (match claim.explicitId with
      | none => row.explicitRequestId.isNone && !row.isExplicit
      | some id => row.id == id && row.isExplicit) &&
    (claim.preferredDataset.all (· == object.object.dataset)) &&
    (match claim.explicitOwner with
      | none => row.explicitRequestId.isNone
      | some owner => row.explicitRequestId == some owner && activeOwner claim.owners owner world.now) &&
    !world.hasOtherLive row && row.attempts < world.maxJobAttempts &&
    (row.status == .pending || (row.status == .running && row.leaseUntil.any (· ≤ world.now)))

/-- The job of the query in `claim_job_inner`. -/
def nextJob (world : World) (claim : Claim) : Option JobRow :=
  firstBy JobRow.before (world.jobs.filter fun row => (world.object? row.object).any fun object => world.claimable claim object row)

def claimedRow (now version leaseSeconds : ℕ) (row : JobRow) : JobRow :=
  { row with
    status := .running
    attempts := row.attempts + 1
    leaseUntil := some (now + leaseSeconds)
    expectedVersion := version
    startedAt := some now
    completedAt := none
    errorCategory := none }

/-- A dead worker is retried. The lease must cover the configured detail deadline plus validation and publication. -/
def claimJobInner (world : World) (claim : Claim) : Except DatabaseError World :=
  if !(600 ≤ claim.leaseSeconds && claim.leaseSeconds ≤ 7320) then .error .invalidInput
  else if claim.held then .ok world
  else
    match world.nextJob claim with
    | none => .ok world
    | some row =>
      match world.object? row.object with
      | none => .error .storageCorrupt
      | some object =>
        .ok (((world.updateJobs (fun other => other.id == row.id)
          (claimedRow world.now (object.version + 1) claim.leaseSeconds)).updateObject row.object
            fun old => { old with version := old.version + 1 }).note
          [.claimed (claimedRow world.now (object.version + 1) claim.leaseSeconds row).toJob])

/-- Whether a job is still held by the claim that a worker was given. -/
def heldBy (job : Job) (row : JobRow) : Bool :=
  row.id == job.id && row.expectedVersion == job.expectedVersion && row.attempts == asI32 job.attempts &&
    row.status == .running

/-- The jobs that a settlement reaches, which `history` records. -/
def settleJobs (world : World) (meets : JobRow → Bool) (change : JobRow → JobRow) : World :=
  (world.updateJobs meets change).note ((world.jobs.filter meets).map fun row => .settled row.id)

def failClaim (world : World) (job : Job) (retry : Bool) : Except DatabaseError World :=
  if job.expectedVersion ≥ 2 ^ 63 then .error .invalidInput
  else
    .ok (world.settleJobs (heldBy job) fun row =>
      let again := retry && decide (row.attempts < world.maxJobAttempts)
      { row with
        status := if again then .pending else .failed
        leaseUntil := none
        errorCategory := some .processingFailed
        completedAt := if again then none else some world.now })

/-- A claim that never reserved an upstream attempt does not spend a processing execution. -/
def releaseAdmissionWait (world : World) (job : Job) : Except DatabaseError World :=
  if job.attempts = 0 then .error .invalidInput
  else if job.expectedVersion ≥ 2 ^ 63 then .error .invalidInput
  else if !world.jobs.any (heldBy job) then .error .conflict
  else
    .ok (world.settleJobs (heldBy job) fun row =>
      { row with
        status := .pending
        attempts := row.attempts - 1
        leaseUntil := none
        errorCategory := none
        startedAt := none
        completedAt := none })

/-- Whether a claim is still executing: under its lease, without an error, and for the current version of its object. -/
def executes (world : World) (job : Job) (row : JobRow) : Bool :=
  row.id == job.id && row.expectedVersion == job.expectedVersion && row.attempts == job.attempts.toNat &&
    row.isLive world.now && row.errorCategory.isNone &&
    (world.object? row.object).any fun object => object.version == row.expectedVersion && !object.withdrawn

/-- End only this active execution after a proven database rejection, until the cooldown expires. -/
def deferStorageClaim (world : World) (job : Job) : Except DatabaseError World :=
  if job.expectedVersion ≥ 2 ^ 63 then .error .invalidInput
  else if job.attempts.toNat ≥ 2 ^ 31 then .error .invalidInput
  else if !world.jobs.any (world.executes job) then .error .conflict
  else
    .ok (world.settleJobs (world.executes job) fun row =>
      let exhausted := decide (row.attempts ≥ world.maxJobAttempts)
      { row with
        status := if exhausted then .failed else .running
        leaseUntil := if exhausted then none else some (world.now + 5 ^ min job.attempts.toNat 3)
        errorCategory := some .processingFailed
        completedAt := if exhausted then some world.now else none })

/-- `defer_budget_claim` with `refund`, else `defer_reserved_budget_claim`. -/
def deferBudgetClaim (world : World) (job : Job) (resumeAt : ℕ) (refund : Bool) : Except DatabaseError World :=
  if job.attempts = 0 || resumeAt = 0 then .error .invalidInput
  else if job.expectedVersion ≥ 2 ^ 63 then .error .invalidInput
  else if !world.jobs.any (heldBy job) then .error .conflict
  else
    .ok (world.settleJobs (heldBy job) fun row =>
      let exhausted := !refund && decide (row.attempts ≥ world.maxJobAttempts)
      { row with
        attempts := if refund then row.attempts - 1 else row.attempts
        status := if exhausted then .failed else .running
        leaseUntil := if exhausted then none else some resumeAt
        errorCategory := if exhausted then some .processingFailed else some .budgetWait
        completedAt := if exhausted then some world.now else none })

end World

end OpenLegal.Corpus.Database
