import OpenLegal.Corpus.Jobs

/-! # Publication and maintenance

`publish` reserves its blobs in one transaction, writes them to the blob store one after another, and commits capture,
HEAD and event in a second transaction; the capture it compares with is read before. `maintain` moves the reservations
of slow publications to the deletion queue, reads the queue, and deletes blob and queue row one after another. Any of
these steps may fail, and others may happen between them. `sha256` and the parsers are not part of the repository.

The sessions and citation leases that `maintain` also cleans, the collection gaps that a publication updates and the
observations of source responses are left out.
-/

namespace OpenLegal.Corpus.Database

open Rust Rust.Str Legal Theory

def maxSourceBytes : ℕ := 100 * 1024 * 1024

def attachmentStatus : Str := "attachment_status".toList

/-- `metadata["attachment_status"] == "incomplete"`. -/
def attachmentIncomplete (record : LegalRecord) : Bool :=
  record.metadata.get attachmentStatus == some "incomplete".toList

/-- Equality of records; the order of a map means nothing. -/
def sameRecord (a b : LegalRecord) : Bool :=
  a.object == b.object && a.revisionId == b.revisionId && a.title == b.title && a.body == b.body &&
    decide (a.metadata.entries.Perm b.metadata.entries) && a.publicationDate == b.publicationDate &&
    a.effectiveDate == b.effectiveDate && a.sourceUrl == b.sourceUrl && a.representation == b.representation &&
    a.sections == b.sections

namespace Publication

/-- The source and the attachments, in their order. -/
def inputs (publication : Publication) : List Bytes := publication.raw :: publication.additionalEvidence

def totalSize (publication : Publication) : ℕ := (publication.inputs.map List.length).sum

/-- The checks before any transaction. -/
def check (parsers : Parsers) (sha256 : Bytes → Bytes) (publication : Publication) : Except DatabaseError Unit := do
  publication.record.validate parsers
  if publication.additionalEvidence.length > 64 || publication.totalSize > maxSourceBytes ||
      publication.processorVersion.isEmpty || byteLen publication.processorVersion > 128 ||
      publication.retrievedAt > publication.now then .error .invalidInput
  else if publication.record.sections.any fun unit => unit.sourceDocumentSha256.any fun digest =>
      !(publication.inputs.map fun input => hex (sha256 input)).contains digest then .error .invalidInput
  else .ok ()

/-- The blobs of a publication under their generations. -/
def blobs (sha256 : Bytes → Bytes) (publication : Publication) (generations : List ℕ) : List Blob :=
  List.zipWith (fun input generation => ⟨generation, sha256 input, input.length⟩) publication.inputs generations

end Publication

namespace World

def capture? (world : World) (id : ℕ) : Option CaptureRow := world.captures.find? (·.id = id)

def revision? (world : World) (object : ObjectId) (revisionId : Str) : Option RevisionRow :=
  world.revisions.find? fun row => row.object = object ∧ row.revisionId = revisionId

/-- The capture that a publication is compared with: HEAD, or the latest capture of its revision. -/
def currentId (world : World) (publication : Publication) : Option ℕ :=
  if publication.installHead then (world.object? publication.record.object).bind (·.headCapture)
  else (world.revision? publication.record.object publication.record.revisionId).bind (·.latestCapture)

/-- A storage key that a capture or its evidence refers to. -/
def references (world : World) (key : ℕ) : Bool :=
  world.captures.any fun capture => capture.blobs.any (·.storageKey == key)

def setPublisher (world : World) (index : ℕ) (publisher : Publisher) : World :=
  { world with publishers := world.publishers.set index publisher }

/-- The read of the capture that a publication is compared with. A retired capture of a revision is as good as none. -/
def readPrevious (world : World) (publication : Publication) : Except DatabaseError (Option CaptureRow) :=
  match world.currentId publication with
  | none => .ok none
  | some id =>
    match world.capture? id with
    | none => if publication.installHead then .error .revisionUnavailable else .ok none
    | some capture =>
      if ((world.object? capture.object).map (·.withdrawn)).getD false then .error .withdrawn else .ok (some capture)

/-- The beginning of `publish`, up to the capture it is compared with. -/
def beginPublish (parsers : Parsers) (sha256 : Bytes → Bytes) (world : World) (publication : Publication) :
    Except DatabaseError World := do
  publication.check parsers sha256
  let previous ← world.readPrevious publication
  -- the version of the object is looked at only by the commit
  pure { world with publishers := world.publishers ++ [⟨publication, previous, [], .reserving⟩] }

/-- The transaction that reserves the blobs of a publication under fresh generations. -/
def reserve (sha256 : Bytes → Bytes) (world : World) (index : ℕ) (publisher : Publisher) (generations : List ℕ) :
    Except DatabaseError World :=
  let publication := publisher.publication
  let staged := publication.blobs sha256 generations
  if generations.length ≠ publication.inputs.length ∨ ¬ generations.Nodup ∨
      (generations.any fun generation => world.issued.contains generation) = true then .error .storageUnavailable
  else if world.maxRawBytes.any fun max => world.rawBytes + world.stagedBytes + publication.totalSize > max then
    .error .capacity
  else if world.stagedBytes + publication.totalSize > 16 * 1024 * 1024 * 1024 then .error .capacity
  else if world.staging.length + staged.length > 128 * 65 then .error .capacity
  else
    .ok ({ world with
      issued := generations ++ world.issued
      staging := world.staging ++ staged.map fun blob => (⟨blob, publication.now⟩ : StageRow)
      stagedBytes := world.stagedBytes + publication.totalSize }.setPublisher index
        { publisher with staged, phase := .writing 0 })

/-- What the commit of a publication knows when it has taken its locks. -/
structure Committing where
  publication : Publication
  previous : Option CaptureRow
  staged : List Blob
  object : ObjectRow
  now : ℕ

namespace Committing

/-- A partial observation leaves a complete HEAD in place. -/
def preserveHead (commit : Committing) : Bool :=
  commit.publication.installHead && attachmentIncomplete commit.publication.record &&
    commit.previous.any fun old => !attachmentIncomplete old.record

def publishHead (commit : Committing) : Bool := commit.publication.installHead && !commit.preserveHead

def preserveRevision (commit : Committing) : Bool :=
  commit.preserveHead && commit.previous.any fun old => old.record.revisionId == commit.publication.record.revisionId

/-- The capture found before is the current one, and it says the same. -/
def duplicates (world : World) (sha256 : Bytes → Bytes) (commit : Committing) (old : CaptureRow) : Bool :=
  (old.evidence.map (·.digest)) == (commit.staged.drop 1).map (·.digest) &&
    sameRecord old.record commit.publication.record &&
    old.processorVersion == commit.publication.processorVersion &&
    old.source.digest == sha256 commit.publication.raw &&
    world.currentId commit.publication == some old.id

end Committing

/-- The job of a publication is done. -/
def finishJob (world : World) (commit : Committing) : World :=
  match commit.publication.jobId with
  | none => world
  | some id =>
    (world.updateJobs
      (fun row => row.id == id && row.object == commit.publication.record.object &&
        row.expectedVersion == commit.object.version)
      fun row => { row with status := .done, leaseUntil := none, completedAt := some commit.now }).note [.published id]

/-- The reservations of a publication are given up. -/
def unstage (world : World) (commit : Committing) : World :=
  { world with
    staging := world.staging.filter fun row => !(commit.staged.map (·.storageKey)).contains row.blob.storageKey
    stagedBytes := world.stagedBytes - commit.publication.totalSize }

/-- A publication that says what the current capture says. -/
def commitDuplicate (world : World) (commit : Committing) (old : CaptureRow) : World :=
  let publication := commit.publication
  let incomplete := attachmentIncomplete publication.record
  let validated :=
    if publication.installHead && !incomplete then
      world.updateObject publication.record.object fun row =>
        { row with
          validatedAt := some commit.now
          pending := false
          version := row.version + 1
          desiredHeadRevision := some publication.record.revisionId }
    else world
  let seen :=
    if incomplete then validated
    else
      { validated with
        revisions := updateWhere
          (fun row => row.object == publication.record.object && row.revisionId == publication.record.revisionId &&
            row.latestCapture == some old.id)
          (fun row => { row with lastValidatedAt := some commit.now }) validated.revisions }
  ({ seen.unstage commit with deletions := seen.deletions ++ commit.staged }).finishJob commit

/-- The row of a new capture. -/
def newCapture (world : World) (commit : Committing) (source : Blob) : CaptureRow :=
  let publication := commit.publication
  { id := source.storageKey, object := publication.record.object, revisionId := publication.record.revisionId
    sequence := commit.object.nextCapture, eventSequence := world.nextEvent, capturedAt := commit.now
    retrievedAt := publication.retrievedAt, record := publication.record
    processorVersion := publication.processorVersion, source, evidence := commit.staged.drop 1 }

/-- The latest capture of a revision: an insert, or an update of the row that is there. -/
def recordRevision (world : World) (commit : Committing) (capture : CaptureRow) : World :=
  let record := commit.publication.record
  let row : RevisionRow :=
    { object := record.object, revisionId := record.revisionId, latestCapture := some capture.id
      publicationDate := record.publicationDate, effectiveDate := record.effectiveDate
      lastSequence := capture.sequence, capturedAt := some commit.now, lastValidatedAt := some commit.now }
  if commit.preserveRevision then world
  else if (world.revision? record.object record.revisionId).isSome then
    { world with
      revisions := updateWhere (fun old => old.object == record.object && old.revisionId == record.revisionId)
        (fun _ => row) world.revisions }
  else { world with revisions := world.revisions ++ [row] }

/-- What the replaced HEAD, or else the new capture, adds to the historical bytes. -/
def historicalAdd (world : World) (commit : Committing) : ℤ :=
  if commit.publishHead then ((commit.object.headCapture.bind world.capture?).map CaptureRow.size).getD 0
  else commit.publication.totalSize

/-- A publication that says something new. -/
def commitCapture (world : World) (commit : Committing) (source : Blob) : World :=
  let publication := commit.publication
  let capture := world.newCapture commit source
  let recorded := ({ world with
    historicalBytes := world.historicalBytes + world.historicalAdd commit
    captures := world.captures ++ [capture] } : World).recordRevision commit capture
  let headed := recorded.updateObject publication.record.object fun row =>
    { row with
      version := row.version + 1
      nextCapture := row.nextCapture + 1
      headCapture := if commit.publishHead then some capture.id else row.headCapture
      validatedAt := if commit.publishHead then some commit.now else row.validatedAt
      pending := if commit.publishHead || commit.preserveRevision then false else row.pending
      desiredHeadRevision :=
        if commit.publishHead then some publication.record.revisionId else row.desiredHeadRevision }
  (({ headed with
      outbox := headed.outbox ++ [{ sequence := headed.nextEvent, object := publication.record.object
                                    objectVersion := commit.object.version + 1, captureId := some capture.id
                                    withdrawn := false, isHead := commit.publishHead, removed := false }]
      nextEvent := headed.nextEvent + 1
      rawBytes := headed.rawBytes + publication.totalSize } : World).unstage commit).finishJob commit

/-- Whether the job of a publication is held by its claim. -/
def authorized (world : World) (commit : Committing) : Bool :=
  commit.publication.jobId.all fun id =>
    world.jobs.any fun row => row.id == id && row.object == commit.publication.record.object &&
      row.revisionId == commit.publication.record.revisionId && row.expectedVersion == commit.object.version &&
      row.isLive commit.now && row.errorCategory.isNone && row.installHead == commit.publication.installHead

/-- The transaction that commits a publication. -/
def commitPublication (sha256 : Bytes → Bytes) (world : World) (publisher : Publisher) : Except DatabaseError World :=
  let publication := publisher.publication
  let (present, object) := world.ensureObject publication.record.object
  let now := max publication.now world.now
  let commit : Committing := ⟨publication, publisher.previous, publisher.staged, object, now⟩
  if object.withdrawn then .error .withdrawn
  else if publication.installHead && object.currentInventoryConflict then .error .conflict
  else if publication.installHead && object.validatedAt.any (now < ·) then .error .invalidInput
  else if !present.authorized commit then .error .conflict
  else if object.version ≠ publication.expectedVersion then .error .conflict
  else if !(publisher.staged.all fun blob => world.staging.any (·.blob.storageKey == blob.storageKey)) then
    .error .conflict
  else
    match publisher.staged with
    | [] => .error .storageCorrupt
    | source :: _ =>
      match publisher.previous with
      | some old =>
        if commit.duplicates present sha256 old then .ok (present.commitDuplicate commit old)
        else .ok (present.commitCapture commit source)
      | none => .ok (present.commitCapture commit source)

def revalidate (world : World) (object : ObjectId) (captureId expectedVersion : ℕ) : Except DatabaseError World := do
  object.validate
  let meets := fun row : ObjectRow => row.object == object && row.headCapture == some captureId &&
    row.version == expectedVersion && !row.withdrawn && !row.currentInventoryConflict &&
    row.validatedAt.any (· ≤ world.now)
  if expectedVersion ≥ 2 ^ 63 then .error .invalidInput
  else if !world.objects.any meets then .error .conflict
  else
    pure { world with
      objects := updateWhere meets
        (fun row => { row with validatedAt := some world.now, pending := false, version := row.version + 1 })
        world.objects }

def withdraw (world : World) (object : ObjectId) (expectedVersion : ℕ) : Except DatabaseError World := do
  object.validate
  if expectedVersion ≥ 2 ^ 63 then .error .invalidInput
  else if ((world.object? object).map (·.version)) ≠ some expectedVersion then .error .conflict
  else
    let withdrawn := world.updateObject object fun row =>
      { row with withdrawn := true, pending := row.currentInventoryConflict, version := row.version + 1 }
    pure { withdrawn with
      outbox := world.outbox ++ [{ sequence := world.nextEvent, object, objectVersion := expectedVersion + 1
                                   captureId := none, withdrawn := true, isHead := true, removed := false }]
      nextEvent := world.nextEvent + 1 }

/-- The cleanup transaction of `maintain`. Which of the rows that qualify a bounded batch takes is an argument. -/
def cleanup (world : World) (intents jobs stages : List ℕ) (held : Bool) : World :=
  let exhausted := fun row : JobRow => jobs.contains row.id && !held && decide (row.attempts ≥ world.maxJobAttempts) &&
    (row.status == .pending || (row.status == .running && row.leaseUntil.any (· ≤ world.now)))
  let expired := fun row : StageRow => stages.contains row.blob.storageKey && row.createdAt < world.now - 3600
  let kept := world.deletions.filter fun blob => !(intents.contains blob.storageKey && world.references blob.storageKey)
  let retired := (world.updateJobs exhausted fun row =>
    { row with status := .failed, errorCategory := some .attemptsExhausted, completedAt := some world.now }).note
      ((world.jobs.filter exhausted).map fun row => .retired row.id)
  let moved := (world.staging.filter expired).map (·.blob)
  { retired with
    -- `ON CONFLICT DO NOTHING`
    deletions := kept ++ moved.filter fun blob => !kept.any (·.storageKey == blob.storageKey)
    staging := world.staging.filter fun row => !expired row
    stagedBytes := world.stagedBytes - (moved.map fun blob => (blob.size : ℤ)).sum }

/-- `maintain` reads deletions that nothing refers to; which, when there are many, is an argument. -/
def readQueue (world : World) (batch : List ℕ) : World :=
  { world with
    maintainers := world.maintainers ++
      [⟨((world.deletions.filter fun blob => batch.contains blob.storageKey && !world.references blob.storageKey).map
        (·.storageKey)), false⟩] }

def setMaintainer (world : World) (index : ℕ) (maintainer : Maintainer) : World :=
  { world with maintainers := world.maintainers.set index maintainer }

/-- The next blob of a publication is written. A call that fails may have written it. -/
def writeBlob (world : World) (index : ℕ) (publisher : Publisher) (next : ℕ) (blob : Blob) (stored failed : Bool) : World :=
  ({ world with
    blobs := if stored || !failed then blob.storageKey :: world.blobs else world.blobs } : World).setPublisher index
      { publisher with phase := if failed then .finished else .writing (next + 1) }

/-- The first deletion of a batch is carried out on the blob store. A call that fails may have deleted the blob. -/
def deleteBlob (world : World) (index key : ℕ) (rest : List ℕ) (removed failed : Bool) : World :=
  ({ world with
    deleted := key :: world.deleted
    blobs := if removed || !failed then world.blobs.filter (· ≠ key) else world.blobs } : World).setMaintainer index
      (if failed then ⟨[], false⟩ else ⟨key :: rest, true⟩)

/-- The row of a deletion is removed. A call that fails may have removed it. -/
def removeDeletion (world : World) (index key : ℕ) (rest : List ℕ) (removed failed : Bool) : World :=
  ({ world with
    deletions :=
      if removed || !failed then world.deletions.filter (·.storageKey ≠ key) else world.deletions } : World).setMaintainer
    index (if failed then ⟨[], false⟩ else ⟨rest, false⟩)

end World

/-- One transaction or one access to the blob store, or the passing of time. The numbers `publisher` and `maintainer`
say which call takes the step. -/
inductive Event where
  | tick (seconds : ℕ)
  | configure (maxJobAttempts : ℕ)
  | enqueue (request : Enqueue)
  | adoptBackgroundBudgetWait (object : ObjectId) (revisionId : Str) (effectiveDate : Option Str) (observedVersion : ℕ)
      (sourceMetadata : Map Str Str) (launch : Collection.CollectionLaunch) (owners : List Owner)
  | adoptExplicitJob (id requestId recoveryAt : ℕ) (owners : List Owner)
  | claim (claim : World.Claim)
  | failClaim (job : Job) (retry : Bool)
  | releaseAdmissionWait (job : Job)
  | deferStorageClaim (job : Job)
  | deferBudgetClaim (job : Job) (resumeAt : ℕ) (refund : Bool)
  | beginPublish (publication : Publication)
  | reserve (publisher : ℕ) (generations : List ℕ)
  | write (publisher : ℕ) (stored failed : Bool)
  | commit (publisher : ℕ)
  | abandon (publisher : ℕ)
  | revalidate (object : ObjectId) (captureId expectedVersion : ℕ)
  | withdraw (object : ObjectId) (expectedVersion : ℕ)
  | cleanup (intents jobs stages : List ℕ) (held : Bool)
  | readQueue (batch : List ℕ)
  | deleteBlob (maintainer : ℕ) (removed failed : Bool)
  | removeDeletion (maintainer : ℕ) (removed failed : Bool)

section

variable (parsers : Parsers) (sha256 : Bytes → Bytes)

namespace World

/-- A step of a call of `publish`. A call that fails is over. -/
def publishStep (world : World) (index : ℕ) (publisher : Publisher) : Event → World
  | .reserve _ generations =>
    match publisher.phase with
    | .reserving =>
      (world.reserve sha256 index publisher generations).toOption.getD
        (world.setPublisher index { publisher with phase := .finished })
    | _ => world
  | .write _ stored failed =>
    match publisher.phase with
    | .writing next =>
      match publisher.staged[next]? with
      | some blob => world.writeBlob index publisher next blob stored failed
      | none => world
    | _ => world
  | .commit _ =>
    match publisher.phase with
    | .writing next =>
      if next = publisher.staged.length then
        ((world.commitPublication sha256 publisher).toOption.getD world).setPublisher index
          { publisher with phase := .finished }
      else world
    | _ => world
  | .abandon _ => world.setPublisher index { publisher with phase := .finished }
  | _ => world

/-- A step of a call of `maintain`. -/
def maintainStep (world : World) (index : ℕ) (maintainer : Maintainer) : Event → World
  | .deleteBlob _ removed failed =>
    match maintainer with
    | ⟨key :: rest, false⟩ => world.deleteBlob index key rest removed failed
    | _ => world
  | .removeDeletion _ removed failed =>
    match maintainer with
    | ⟨key :: rest, true⟩ => world.removeDeletion index key rest removed failed
    | _ => world
  | _ => world

/-- A failed transaction is rolled back. -/
def step (world : World) (event : Event) : World :=
  match event with
  | .tick seconds => { world with now := world.now + seconds }
  | .configure maxJobAttempts => { world with maxJobAttempts }
  | .enqueue request => (world.enqueueJobWithOwner request).1
  | .adoptBackgroundBudgetWait object revisionId effectiveDate observedVersion sourceMetadata launch owners =>
    (world.adoptBackgroundBudgetWait object revisionId effectiveDate observedVersion sourceMetadata launch
      owners).toOption.getD world
  | .adoptExplicitJob id requestId recoveryAt owners =>
    (world.adoptExplicitJob id requestId recoveryAt owners).toOption.getD world
  | .claim claim => (world.claimJobInner claim).toOption.getD world
  | .failClaim job retry => (world.failClaim job retry).toOption.getD world
  | .releaseAdmissionWait job => (world.releaseAdmissionWait job).toOption.getD world
  | .deferStorageClaim job => (world.deferStorageClaim job).toOption.getD world
  | .deferBudgetClaim job resumeAt refund => (world.deferBudgetClaim job resumeAt refund).toOption.getD world
  | .beginPublish publication => (world.beginPublish parsers sha256 publication).toOption.getD world
  | .reserve index _ | .write index _ _ | .commit index | .abandon index =>
    match world.publishers[index]? with
    | some publisher => world.publishStep sha256 index publisher event
    | none => world
  | .revalidate object captureId expectedVersion =>
    (world.revalidate object captureId expectedVersion).toOption.getD world
  | .withdraw object expectedVersion => (world.withdraw object expectedVersion).toOption.getD world
  | .cleanup intents jobs stages held => world.cleanup intents jobs stages held
  | .readQueue batch => world.readQueue batch
  | .deleteBlob index _ _ | .removeDeletion index _ _ =>
    match world.maintainers[index]? with
    | some maintainer => world.maintainStep index maintainer event
    | none => world

def run (world : World) (events : List Event) : World := events.foldl (step parsers sha256) world

end World

end

end OpenLegal.Corpus.Database
