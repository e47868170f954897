import OpenLegal.Legal.Record
import OpenLegal.Corpus.CollectionRequests
import OpenLegal.Rust.Reader
import OpenLegal.Theory.Table

/-! # The corpus database

The tables that hold objects, jobs, captures and their evidence, the counters of `corpus_control`, the blob store
and the calls of `publish` and `maintain` that are under way.

A row of `corpus_object` is found under the digest of its object, which stands for the object. Every storage key ends
in a generation, a UUID that the database generates and never repeats; a storage key is the number of its generation,
and so is the identifier of a capture, which is the digest of the generation of its source. `issued` are the numbers
generated so far. `history` and `deleted` record what has happened; no operation reads them.
-/

namespace OpenLegal.Corpus.Database

open Rust Rust.Str Legal

/-- A row of `corpus_object`. -/
structure ObjectRow where
  object : ObjectId
  version : ℕ
  nextCapture : ℕ
  desiredHeadRevision : Option Str
  headCapture : Option ℕ
  validatedAt : Option ℕ
  pending : Bool
  withdrawn : Bool
  currentInventoryConflict : Bool
deriving DecidableEq

/-- The defaults of the columns. -/
def ObjectRow.new (object : ObjectId) : ObjectRow :=
  { object, version := 0, nextCapture := 1, desiredHeadRevision := none, headCapture := none, validatedAt := none
    pending := false, withdrawn := false, currentInventoryConflict := false }

inductive JobStatus where
  | pending
  | running
  | done
  | failed
deriving DecidableEq, Repr

inductive ErrorCategory where
  | processingFailed
  | budgetWait
  | superseded
  | attemptsExhausted
deriving DecidableEq, Repr

/-- A row of `corpus_job`. The fingerprint of a deferral, which no operation here reads, is left out. -/
structure JobRow where
  id : ℕ
  object : ObjectId
  revisionId : Str
  effectiveDate : Str
  installHead : Bool
  sourceMetadata : Map Str Str
  expectedVersion : ℕ
  status : JobStatus
  attempts : ℤ
  createdAt : ℕ
  leaseUntil : Option ℕ
  errorCategory : Option ErrorCategory
  startedAt : Option ℕ
  completedAt : Option ℕ
  explicitRequestId : Option ℕ
  explicitRecoveryAt : Option ℕ
deriving DecidableEq

/-- What a claim hands to its worker. -/
structure Job where
  id : ℕ
  object : ObjectId
  revisionId : Str
  effectiveDate : Option Str
  installHead : Bool
  sourceMetadata : Map Str Str
  expectedVersion : ℕ
  attempts : UInt32
deriving DecidableEq

/-- What the job operations read of a row of `collection_request`. -/
structure Owner where
  id : ℕ
  launched : Bool
  launchedAt : Option ℕ
  leaseUntil : Option ℕ
deriving DecidableEq, Repr

/-- A blob of a publication: its storage key, digest and size. -/
structure Blob where
  storageKey : ℕ
  digest : Bytes
  size : ℕ
deriving DecidableEq, Repr

/-- A row of `corpus_capture`, with its rows of `corpus_capture_blob` in their order. -/
structure CaptureRow where
  id : ℕ
  object : ObjectId
  revisionId : Str
  sequence : ℕ
  eventSequence : ℕ
  capturedAt : ℕ
  retrievedAt : ℕ
  record : LegalRecord
  processorVersion : Str
  source : Blob
  evidence : List Blob

namespace CaptureRow

def blobs (capture : CaptureRow) : List Blob := capture.source :: capture.evidence

/-- `c.raw_size+COALESCE(sum(b.raw_size),0)`. -/
def size (capture : CaptureRow) : ℤ := (capture.blobs.map fun blob => (blob.size : ℤ)).sum

end CaptureRow

/-- A row of `corpus_revision`. -/
structure RevisionRow where
  object : ObjectId
  revisionId : Str
  latestCapture : Option ℕ
  publicationDate : Option Str
  effectiveDate : Option Str
  lastSequence : ℕ
  capturedAt : Option ℕ
  lastValidatedAt : Option ℕ
deriving DecidableEq

/-- A row of `corpus_outbox`. -/
structure OutboxRow where
  sequence : ℕ
  object : ObjectId
  objectVersion : ℕ
  captureId : Option ℕ
  withdrawn : Bool
  isHead : Bool
  removed : Bool
deriving DecidableEq

/-- A row of `corpus_staging`. -/
structure StageRow where
  blob : Blob
  createdAt : ℕ
deriving DecidableEq

/-- Immutable input to a single atomic corpus publication. -/
structure Publication where
  record : LegalRecord
  raw : Bytes
  additionalEvidence : List Bytes
  processorVersion : Str
  retrievedAt : ℕ
  now : ℕ
  expectedVersion : ℕ
  installHead : Bool
  jobId : Option ℕ

/-- How far a call of `publish` has come: `writing n` has written its first `n` blobs. -/
inductive PublishPhase where
  | reserving
  | writing (next : ℕ)
  | finished
deriving DecidableEq, Repr

/-- A call of `publish`: the capture it found when it began, and the blobs it has reserved. -/
structure Publisher where
  publication : Publication
  previous : Option CaptureRow
  staged : List Blob
  phase : PublishPhase

/-- A call of `maintain` after its cleanup: the deletions it has still to carry out. `removing` says that the blob of
the first one is deleted and its row is not yet removed. -/
structure Maintainer where
  queue : List ℕ
  removing : Bool
deriving DecidableEq, Repr

/-- What has happened to a job. `enqueued` is also a reset to pending with no attempts. -/
inductive Entry where
  | enqueued (id : ℕ)
  | superseded (id : ℕ)
  | claimed (job : Job)
  | adopted (id : ℕ)
  | settled (id : ℕ)
  | published (id : ℕ)
  | retired (id : ℕ)
deriving DecidableEq

structure World where
  now : ℕ
  maxJobAttempts : ℕ
  maxRawBytes : Option ℕ
  issued : List ℕ
  objects : List ObjectRow
  jobs : List JobRow
  captures : List CaptureRow
  revisions : List RevisionRow
  outbox : List OutboxRow
  nextEvent : ℕ
  rawBytes : ℤ
  stagedBytes : ℤ
  historicalBytes : ℤ
  staging : List StageRow
  deletions : List Blob
  blobs : List ℕ
  publishers : List Publisher
  maintainers : List Maintainer
  history : List Entry
  deleted : List ℕ

/-- An empty corpus. -/
def World.initial (now maxJobAttempts : ℕ) (maxRawBytes : Option ℕ) : World :=
  { now, maxJobAttempts, maxRawBytes, issued := [], objects := [], jobs := [], captures := [], revisions := []
    outbox := [], nextEvent := 1, rawBytes := 0, stagedBytes := 0, historicalBytes := 0, staging := [], deletions := []
    blobs := [], publishers := [], maintainers := [], history := [], deleted := [] }

namespace World

/-- The row of an object, if it has one. -/
def object? (world : World) (object : ObjectId) : Option ObjectRow := world.objects.find? (·.object = object)

/-- `INSERT INTO corpus_object … ON CONFLICT DO NOTHING`, and the row that is there afterwards. -/
def ensureObject (world : World) (object : ObjectId) : World × ObjectRow :=
  match world.object? object with
  | some row => (world, row)
  | none => ({ world with objects := world.objects ++ [.new object] }, .new object)

def updateObject (world : World) (object : ObjectId) (change : ObjectRow → ObjectRow) : World :=
  { world with objects := Theory.updateWhere (fun row => row.object == object) change world.objects }

def updateJobs (world : World) (meets : JobRow → Bool) (change : JobRow → JobRow) : World :=
  { world with jobs := Theory.updateWhere meets change world.jobs }

def note (world : World) (entries : List Entry) : World := { world with history := world.history ++ entries }

end World

/-- `source_metadata->>'collection_origin'`. -/
def collectionOrigin : Str := "collection_origin".toList

def explicitOrigin : Str := "explicit".toList

namespace JobRow

def isExplicit (row : JobRow) : Bool := row.sourceMetadata.get collectionOrigin == some explicitOrigin

/-- `status IN ('pending','running')`. -/
def isOpen (row : JobRow) : Bool := row.status == .pending || row.status == .running

/-- Running with an unexpired lease. -/
def isLive (now : ℕ) (row : JobRow) : Bool := row.status == .running && row.leaseUntil.any (· > now)

/-- `ORDER BY created_at,id`. -/
def before (a b : JobRow) : Bool := a.createdAt < b.createdAt || (a.createdAt == b.createdAt && a.id < b.id)

/-- The job that a worker is given for a row. -/
def toJob (row : JobRow) : Job :=
  { id := row.id, object := row.object, revisionId := row.revisionId
    effectiveDate := if row.effectiveDate.isEmpty then none else some row.effectiveDate
    installHead := row.installHead, sourceMetadata := row.sourceMetadata, expectedVersion := row.expectedVersion
    attempts := .ofNat row.attempts.toNat }

end JobRow

/-- A collection request that is launched and holds its lease. -/
def activeOwner (owners : List Owner) (id now : ℕ) : Bool :=
  owners.any fun owner => owner.id == id && owner.launched && owner.leaseUntil.any (· > now)

/-- The same, for one launch of it. -/
def activeLaunch (owners : List Owner) (id launchedAt now : ℕ) : Bool :=
  owners.any fun owner => owner.id == id && owner.launchedAt == some launchedAt && owner.launched &&
    owner.leaseUntil.any (· > now)

end OpenLegal.Corpus.Database
