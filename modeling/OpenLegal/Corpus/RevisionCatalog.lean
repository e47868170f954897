import OpenLegal.Corpus.Accounting
import OpenLegal.Corpus.Fencing

/-! # The revision catalog

The inventories of a provider name revisions before their bodies are fetched: `record_revision_catalog` adds them to
the table of revisions, and `mark_inventory_complete` says when no more are to come. Both advance the catalog version of
an object, as a publication advances its version. The rows of `corpus_capture_catalog` are written with the captures and
stay, so the captures stand for them.

A counter is a `bigint`: a transaction that would take one out of its range is rolled back. The quarantine of an
inventory and its release, which may raise the version of an object and touch no row of it, are left out.
-/

namespace OpenLegal.Corpus.Database

open Rust Rust.Str Legal Theory

/-- What history shows of a revision or a capture. -/
structure HistoryEntry where
  revisionId : Str
  captureId : Option ℕ
  sequence : ℕ
  capturedAt : Option ℕ
  publicationDate : Option Str
  effectiveDate : Option Str
deriving DecidableEq

inductive HistoryKind where
  | revisions
  | captures
deriving DecidableEq, Repr

def RevisionRow.entry (row : RevisionRow) : HistoryEntry :=
  ⟨row.revisionId, row.latestCapture, row.lastSequence, row.capturedAt, row.publicationDate, row.effectiveDate⟩

def CaptureRow.entry (capture : CaptureRow) : HistoryEntry :=
  ⟨capture.revisionId, some capture.id, capture.sequence, some capture.capturedAt, capture.record.publicationDate,
    capture.record.effectiveDate⟩

structure ObjectState where
  version : ℕ
  catalogVersion : ℕ
  withdrawn : Bool
  inventoryComplete : Bool
deriving DecidableEq, Repr

/-- The corpus with the columns of `corpus_object` that the catalog keeps. -/
structure Library where
  world : World
  catalogVersion : ObjectId → ℕ
  inventoryComplete : ObjectId → Bool

inductive LibraryEvent where
  | database (event : Event)
  | recordRevisionCatalog (object : ObjectId) (revisionId : Str) (publicationDate effectiveDate : Option Str)
  | markInventoryComplete (object : ObjectId) (complete : Bool)
  | markDatasetInventoryComplete (dataset : Dataset) (complete : Bool)

def hasProviderRevisions : Dataset → Bool
  | .nationalStatute | .administrativeRule | .ordinance | .englishStatute | .schoolRule | .localPublicCorporationRule
  | .publicInstitutionRule => true
  | _ => false

namespace World

/-- `INSERT INTO corpus_revision … ON CONFLICT(object_key,revision_id) DO UPDATE`. -/
def upsertRevision (world : World) (row : RevisionRow) (change : RevisionRow → RevisionRow) : List RevisionRow :=
  if (world.revision? row.object row.revisionId).isSome then
    updateWhere (fun old => old.object == row.object && old.revisionId == row.revisionId) change world.revisions
  else world.revisions ++ [row]

end World

namespace Library

def initial (now maxJobAttempts : ℕ) (maxRawBytes : Option ℕ) : Library :=
  ⟨.initial now maxJobAttempts maxRawBytes, fun _ => 0, fun _ => false⟩

/-- The state of an object; one without a row has not been observed. -/
def state (library : Library) (object : ObjectId) : ObjectState :=
  match library.world.object? object with
  | none => ⟨0, 0, false, false⟩
  | some row => ⟨row.version, library.catalogVersion object, row.withdrawn, library.inventoryComplete object⟩

/-- The rows of an object in `corpus_revision` or `corpus_capture_catalog`. -/
def entries (library : Library) (object : ObjectId) : HistoryKind → List HistoryEntry
  | .revisions => (library.world.revisions.filter (·.object = object)).map RevisionRow.entry
  | .captures => (library.world.captures.filter (·.object = object)).map CaptureRow.entry

/-- Provider inventory metadata survives body eviction. -/
def recordRevisionCatalog (library : Library) (object : ObjectId) (revisionId : Str)
    (publicationDate effectiveDate : Option Str) : Except DatabaseError Library := do
  object.validate
  if !validRevision revisionId then .error .invalidInput
  else if [publicationDate, effectiveDate].any fun date => date.any fun date => !validDate date then .error .invalidInput
  else if !hasProviderRevisions object.dataset then .error .unsupportedHistory
  else
    let (present, row) := library.world.ensureObject object
    let previous := present.revision? object revisionId
    let changed := previous.all fun old =>
      (publicationDate.isSome && publicationDate != old.publicationDate) ||
        (effectiveDate.isSome && effectiveDate != old.effectiveDate)
    if changed then
      let recorded := { present with
        revisions := present.upsertRevision
          { object, revisionId, latestCapture := none, publicationDate, effectiveDate, lastSequence := row.nextCapture
            capturedAt := none, lastValidatedAt := none }
          fun old => { old with
            publicationDate := publicationDate <|> old.publicationDate
            effectiveDate := effectiveDate <|> old.effectiveDate } }
      .ok { library with
        world := recorded.updateObject object fun old =>
          { old with nextCapture := old.nextCapture + previous.isNone.toNat }
        catalogVersion := Function.update library.catalogVersion object (library.catalogVersion object + 1) }
    else .ok { library with world := present }

/-- `UPDATE … SET inventory_complete=…,catalog_version=catalog_version+1 WHERE … IS DISTINCT FROM …`. -/
def mark (library : Library) (meets : ObjectId → Bool) (complete : Bool) : Library :=
  let marked := fun object =>
    meets object && (library.world.object? object).isSome && library.inventoryComplete object != complete
  { library with
    catalogVersion := fun object => library.catalogVersion object + (marked object).toNat
    inventoryComplete := fun object => if marked object then complete else library.inventoryComplete object }

def markInventoryComplete (library : Library) (object : ObjectId) (complete : Bool) : Except DatabaseError Library := do
  object.validate
  pure (library.mark (· == object) complete)

def markDatasetInventoryComplete (library : Library) (dataset : Dataset) (complete : Bool) :
    Except DatabaseError Library :=
  if !hasProviderRevisions dataset then .error .unsupportedHistory
  else
    .ok (library.mark
      (fun object => object.jurisdiction == "kr".toList && object.provider == "law_go_kr".toList &&
        object.dataset == dataset) complete)

/-- The counters of every object are in the range of their columns. -/
def inRange (library : Library) : Bool :=
  library.world.objects.all fun row =>
    row.version < 2 ^ 63 && row.nextCapture < 2 ^ 63 && library.catalogVersion row.object < 2 ^ 63

section

variable (parsers : Parsers) (sha256 : Bytes → Bytes)

def transact (library : Library) : LibraryEvent → Library
  | .database event => { library with world := library.world.step parsers sha256 event }
  | .recordRevisionCatalog object revisionId publicationDate effectiveDate =>
    (library.recordRevisionCatalog object revisionId publicationDate effectiveDate).toOption.getD library
  | .markInventoryComplete object complete => (library.markInventoryComplete object complete).toOption.getD library
  | .markDatasetInventoryComplete dataset complete =>
    (library.markDatasetInventoryComplete dataset complete).toOption.getD library

def step (library : Library) (event : LibraryEvent) : Library :=
  let next := library.transact parsers sha256 event
  if next.inRange then next else library

def run (library : Library) (events : List LibraryEvent) : Library := events.foldl (step parsers sha256) library

end

end Library

/-! ## What a step does to revisions and captures -/

/-- The tables that only publications write are as they were. -/
structure World.Leaves (world next : World) : Prop where
  revisions : next.revisions = world.revisions
  captures : next.captures = world.captures
  publishers : next.publishers = world.publishers

/-- A revision under the names and dates of a record. -/
structure RevisionRow.Names (row : RevisionRow) (record : LegalRecord) : Prop where
  object : row.object = record.object
  revisionId : row.revisionId = record.revisionId
  publicationDate : row.publicationDate = record.publicationDate
  effectiveDate : row.effectiveDate = record.effectiveDate

/-- A publication adds a capture, raises the version of its object and enters the revision, unless it preserves it. -/
structure World.Installs (world next : World) (publisher : Publisher) (capture : CaptureRow) : Prop where
  member : publisher ∈ world.publishers
  captures : next.captures = world.captures ++ [capture]
  object : capture.object = publisher.publication.record.object
  sequence : capture.sequence = world.nextCaptureOf capture.object
  version : next.versionOf = Function.update world.versionOf capture.object (world.versionOf capture.object + 1)
  nextCapture : next.nextCaptureOf =
    Function.update world.nextCaptureOf capture.object (world.nextCaptureOf capture.object + 1)
  revisions : next.revisions = world.revisions ∨
    ∃ row : RevisionRow, row.Names publisher.publication.record ∧ next.revisions = world.upsertRevision row fun _ => row

/-- What a step does to revisions and captures. -/
inductive World.Files (world next : World) : Prop where
  | kept (revisions : next.revisions = world.revisions) (captures : next.captures = world.captures)
  | validated (meets : RevisionRow → Bool) (now : ℕ)
      (revisions : next.revisions = updateWhere meets (fun row => { row with lastValidatedAt := some now }) world.revisions)
      (captures : next.captures = world.captures)
  | installed (publisher : Publisher) (capture : CaptureRow) (installs : world.Installs next publisher capture)

section Steps

variable {world next : World} {sha256 : Bytes → Bytes} {parsers : Parsers}

theorem World.Leaves.refl : world.Leaves world := ⟨rfl, rfl, rfl⟩

theorem leaves_ensureObject (object : ObjectId) : world.Leaves (world.ensureObject object).1 := by
  obtain ⟨objects, equal, -, -⟩ := world.ensureObject_spec object
  rw [equal]
  exact ⟨rfl, rfl, rfl⟩

theorem leaves_observeHead {request : Enqueue} {row : ObjectRow} : world.Leaves (world.observeHead request row) := by
  unfold World.observeHead
  split <;> exact ⟨rfl, rfl, rfl⟩

theorem leaves_placeJob {request : Enqueue} {version : ℕ} : world.Leaves (world.placeJob request version).1 := by
  unfold World.placeJob
  split
  · split <;> exact ⟨rfl, rfl, rfl⟩
  · split
    · exact ⟨rfl, rfl, rfl⟩
    · split
      · exact ⟨rfl, rfl, rfl⟩
      · split <;> exact ⟨rfl, rfl, rfl⟩

theorem World.Leaves.trans {last : World} (first : world.Leaves next) (second : next.Leaves last) : world.Leaves last where
  revisions := second.revisions.trans first.revisions
  captures := second.captures.trans first.captures
  publishers := second.publishers.trans first.publishers

theorem leaves_enqueue {request : Enqueue} : world.Leaves (world.enqueueJobWithOwner request).1 := by
  have placed : world.Leaves ((((world.ensureObject request.object).1.observeHead request
      (world.ensureObject request.object).2).placeJob request
        (request.version (world.ensureObject request.object).2)).1) :=
    ((leaves_ensureObject request.object).trans leaves_observeHead).trans leaves_placeJob
  unfold World.enqueueJobWithOwner
  split
  · exact ⟨rfl, rfl, rfl⟩
  · dsimp only
    split_ifs
    · exact ⟨rfl, rfl, rfl⟩
    · exact ⟨rfl, rfl, rfl⟩
    · exact ⟨rfl, rfl, rfl⟩
    · split
      · next outcome => exact outcome ▸ placed
      · next outcome => exact outcome ▸ placed
      · exact ⟨rfl, rfl, rfl⟩

theorem leaves_adoptBackgroundBudgetWait {object : ObjectId} {revisionId : Str} {effectiveDate : Option Str}
    {observedVersion : ℕ} {sourceMetadata : Map Str Str} {launch : Collection.CollectionLaunch} {owners : List Owner}
    (adopted : world.adoptBackgroundBudgetWait object revisionId effectiveDate observedVersion sourceMetadata launch
      owners = .ok next) : world.Leaves next := by
  simp only [World.adoptBackgroundBudgetWait, ite_error_eq_ok] at adopted
  obtain ⟨-, -, adopted⟩ := adopted
  split at adopted
  · cases adopted
  simp only [ite_error_eq_ok] at adopted
  obtain ⟨-, -, -, adopted⟩ := adopted
  split at adopted
  · cases adopted
    exact ⟨rfl, rfl, rfl⟩
  · split_ifs at adopted
    · cases adopted
      exact ⟨rfl, rfl, rfl⟩
    · cases adopted
      exact ⟨rfl, rfl, rfl⟩
    · split at adopted <;> cases adopted <;> exact ⟨rfl, rfl, rfl⟩

theorem leaves_claimJobInner {claim : World.Claim} (claimed : world.claimJobInner claim = .ok next) :
    world.Leaves next := by
  simp only [World.claimJobInner, ite_error_eq_ok] at claimed
  obtain ⟨-, claimed⟩ := claimed
  split_ifs at claimed
  · cases claimed
    exact ⟨rfl, rfl, rfl⟩
  · split at claimed
    · cases claimed
      exact ⟨rfl, rfl, rfl⟩
    · split at claimed <;> cases claimed
      exact ⟨rfl, rfl, rfl⟩

theorem World.Leaves.files (leaves : world.Leaves next) : world.Files next :=
  .kept leaves.revisions leaves.captures

theorem revisions_finishJob {commit : World.Committing} : (world.finishJob commit).revisions = world.revisions := by
  obtain ⟨jobs, history, finished⟩ := finishJob_eq world commit
  rw [finished]

/-- A repeated publication validates the revision that holds its capture, or leaves the revisions alone. -/
theorem revisions_commitDuplicate {commit : World.Committing} {old : CaptureRow} :
    (world.commitDuplicate commit old).revisions = world.revisions ∨
      ∃ meets, (world.commitDuplicate commit old).revisions =
        updateWhere meets (fun row => { row with lastValidatedAt := some commit.now }) world.revisions := by
  unfold World.commitDuplicate
  extract_lets current incomplete validated seen unstaged
  have validates : validated.revisions = world.revisions := by
    dsimp only [validated]
    split <;> rfl
  rw [revisions_finishJob]
  change seen.revisions = _ ∨ ∃ meets, seen.revisions = _
  dsimp only [seen]
  split
  · exact .inl validates
  · right
    refine ⟨fun row => row.object == current.record.object && row.revisionId == current.record.revisionId &&
      row.latestCapture == some old.id, ?_⟩
    rw [validates]

theorem revisions_recordRevision {commit : World.Committing} {capture : CaptureRow} :
    (world.recordRevision commit capture).revisions = world.revisions ∨
      ∃ row : RevisionRow, row.Names commit.publication.record ∧
        (world.recordRevision commit capture).revisions = world.upsertRevision row fun _ => row := by
  unfold World.recordRevision
  extract_lets record row
  by_cases preserved : commit.preserveRevision = true
  · left
    rw [if_pos preserved]
  · right
    rw [if_neg preserved]
    refine ⟨row, ⟨rfl, rfl, rfl, rfl⟩, ?_⟩
    change _ = if (world.revision? record.object record.revisionId).isSome then _ else _
    split <;> rfl

theorem upsertRevision_congr {other : World} (same : other.revisions = world.revisions) (row : RevisionRow)
    (change : RevisionRow → RevisionRow) : other.upsertRevision row change = world.upsertRevision row change := by
  rw [World.upsertRevision, World.revision?, same]
  rfl

theorem files_commitPublication {publisher : Publisher} (member : publisher ∈ world.publishers)
    (committed : world.commitPublication sha256 publisher = .ok next) : world.Files next := by
  obtain ⟨present, commit, source, facts, outcome⟩ := commitPublication_ok committed
  have leaves : world.Leaves present := facts.ensured ▸ leaves_ensureObject _
  have found : present.object? commit.publication.record.object = some commit.object := by
    rw [facts.publication, facts.ensured, facts.row, object?_ensureObject, if_pos rfl]
  have archive : present.archive = world.archive := by
    rw [facts.ensured, archive_ensureObject]
  rcases outcome with ⟨old, -, -, rfl⟩ | ⟨-, rfl⟩
  · obtain ⟨revisions, jobs, history, -, equal⟩ := @commitDuplicate_eq present commit old
    have captures : (present.commitDuplicate commit old).captures = world.captures := by
      rw [equal]
      exact leaves.captures
    rcases @revisions_commitDuplicate present commit old with kept | ⟨meets, validated⟩
    · exact .kept (kept.trans leaves.revisions) captures
    · exact .validated meets commit.now (validated.trans (by rw [leaves.revisions])) captures
  · have tables := @archive_commitCapture present commit source found
    have captures : (present.commitCapture commit source).captures =
        world.captures ++ [present.newCapture commit source] := by
      rw [← leaves.captures]
      exact congrArg Archive.captures tables
    have object : (present.newCapture commit source).object = publisher.publication.record.object :=
      congrArg (·.record.object) facts.publication
    have versions : present.versionOf = world.versionOf := congrArg Archive.version archive
    have nexts : present.nextCaptureOf = world.nextCaptureOf := congrArg Archive.nextCapture archive
    refine .installed publisher (present.newCapture commit source) ⟨member, captures, object, ?_, ?_, ?_, ?_⟩
    · rw [← nexts]
      change commit.object.nextCapture = present.nextCaptureOf commit.publication.record.object
      rw [World.nextCaptureOf, found]
      rfl
    · rw [← versions]
      exact congrArg Archive.version tables
    · rw [← nexts]
      exact congrArg Archive.nextCapture tables
    · unfold World.commitCapture
      extract_lets current capture recorded headed
      rw [revisions_finishJob, ← facts.publication]
      change recorded.revisions = _ ∨ ∃ row : RevisionRow, _ ∧ recorded.revisions = _
      rcases @revisions_recordRevision { present with
          historicalBytes := present.historicalBytes + present.historicalAdd commit
          captures := present.captures ++ [capture] } commit capture with kept | ⟨row, names, entered⟩
      · exact .inl (kept.trans leaves.revisions)
      · exact .inr ⟨row, names, entered.trans (upsertRevision_congr leaves.revisions row _)⟩

theorem files_publishStep {index : ℕ} {publisher : Publisher} {event : Event} (member : publisher ∈ world.publishers) :
    world.Files (world.publishStep sha256 index publisher event) := by
  unfold World.publishStep
  split
  · next generations =>
    split
    · cases reserved : world.reserve sha256 index publisher generations with
      | ok next =>
        simp only [World.reserve, ite_error_eq_ok] at reserved
        obtain ⟨-, -, -, -, reserved⟩ := reserved
        cases reserved
        exact .kept rfl rfl
      | error error => exact .kept rfl rfl
    · exact .kept rfl rfl
  · split
    · split
      · exact .kept rfl rfl
      · exact .kept rfl rfl
    · exact .kept rfl rfl
  · split
    · split
      · cases committed : world.commitPublication sha256 publisher with
        | ok next =>
          -- the call of `publish` itself is not part of the tables
          cases files_commitPublication member committed with
          | kept revisions captures => exact .kept revisions captures
          | validated meets now revisions captures => exact .validated meets now revisions captures
          | installed publisher capture installs => exact .installed publisher capture { installs with }
        | error error => exact .kept rfl rfl
      · exact .kept rfl rfl
    · exact .kept rfl rfl
  · exact .kept rfl rfl
  · exact .kept rfl rfl

theorem leaves_maintainStep {index : ℕ} {maintainer : Maintainer} {event : Event} :
    world.Leaves (world.maintainStep index maintainer event) := by
  unfold World.maintainStep
  split
  · split <;> exact ⟨rfl, rfl, rfl⟩
  · split <;> exact ⟨rfl, rfl, rfl⟩
  · exact ⟨rfl, rfl, rfl⟩

/-- A step of a call of `publish`. -/
def Event.isPublish : Event → Bool
  | .beginPublish _ | .reserve _ _ | .write _ _ _ | .commit _ | .abandon _ => true
  | _ => false

theorem leaves_getD {result : Except DatabaseError World} (leaves : ∀ next, result = .ok next → world.Leaves next) :
    world.Leaves (result.toOption.getD world) := by
  cases result with
  | ok next => exact leaves next rfl
  | error error => exact .refl

/-- Every step but those of `publish` leaves revisions and captures alone. -/
theorem leaves_step {event : Event} (other : event.isPublish = false) :
    world.Leaves (world.step parsers sha256 event) := by
  cases event with
  | tick seconds => exact ⟨rfl, rfl, rfl⟩
  | configure maxJobAttempts => exact ⟨rfl, rfl, rfl⟩
  | enqueue request => exact leaves_enqueue
  | adoptBackgroundBudgetWait object revisionId effectiveDate observedVersion sourceMetadata launch owners =>
    exact leaves_getD fun next adopted => leaves_adoptBackgroundBudgetWait adopted
  | adoptExplicitJob id requestId recoveryAt owners =>
    apply leaves_getD
    intro next adopted
    simp only [World.adoptExplicitJob, ite_error_eq_ok] at adopted
    cases adopted.2
    exact ⟨rfl, rfl, rfl⟩
  | claim claim => exact leaves_getD fun next claimed => leaves_claimJobInner claimed
  | failClaim job retry =>
    apply leaves_getD
    intro next failed
    simp only [World.failClaim, ite_error_eq_ok] at failed
    cases failed.2
    exact ⟨rfl, rfl, rfl⟩
  | releaseAdmissionWait job =>
    apply leaves_getD
    intro next released
    simp only [World.releaseAdmissionWait, ite_error_eq_ok] at released
    cases released.2.2.2
    exact ⟨rfl, rfl, rfl⟩
  | deferStorageClaim job =>
    apply leaves_getD
    intro next deferred
    simp only [World.deferStorageClaim, ite_error_eq_ok] at deferred
    cases deferred.2.2.2
    exact ⟨rfl, rfl, rfl⟩
  | deferBudgetClaim job resumeAt refund =>
    apply leaves_getD
    intro next deferred
    simp only [World.deferBudgetClaim, ite_error_eq_ok] at deferred
    cases deferred.2.2.2
    exact ⟨rfl, rfl, rfl⟩
  | beginPublish publication => cases other
  | reserve index generations | write index stored failed | commit index | abandon index => cases other
  | revalidate object captureId expectedVersion =>
    apply leaves_getD
    intro next revalidated
    simp only [World.revalidate, bind_eq_ok, ite_error_eq_ok] at revalidated
    obtain ⟨-, -, -, -, revalidated⟩ := revalidated
    cases revalidated
    exact ⟨rfl, rfl, rfl⟩
  | withdraw object expectedVersion =>
    apply leaves_getD
    intro next withdrawn
    simp only [World.withdraw, bind_eq_ok, ite_error_eq_ok] at withdrawn
    obtain ⟨-, -, -, -, withdrawn⟩ := withdrawn
    cases withdrawn
    exact ⟨rfl, rfl, rfl⟩
  | cleanup intents jobs stages held => exact ⟨rfl, rfl, rfl⟩
  | readQueue batch => exact ⟨rfl, rfl, rfl⟩
  | deleteBlob index removed failed | removeDeletion index removed failed =>
    simp only [World.step]
    split
    · exact leaves_maintainStep
    · exact .refl

theorem files_step (event : Event) : world.Files (world.step parsers sha256 event) := by
  cases publish : event.isPublish with
  | false => exact (leaves_step publish).files
  | true =>
    cases event with
    | beginPublish publication =>
      simp only [World.step]
      cases begun : world.beginPublish parsers sha256 publication with
      | ok next =>
        simp only [World.beginPublish, bind_eq_ok] at begun
        obtain ⟨_, -, previous, -, begun⟩ := begun
        cases begun
        exact .kept rfl rfl
      | error error => exact .kept rfl rfl
    | reserve index generations | write index stored failed | commit index | abandon index =>
      simp only [World.step]
      split
      · next found => exact files_publishStep (List.mem_of_getElem? found)
      · exact .kept rfl rfl
    | _ => cases publish

/-- Every call of `publish` has checked its record. -/
def World.Checked (parsers : Parsers) (world : World) : Prop :=
  ∀ publisher ∈ world.publishers, publisher.publication.record.validate parsers = .ok ()

/-- A call of `publish` goes on with its publication. -/
theorem publishers_publishStep {index : ℕ} {publisher : Publisher} {event : Event}
    (found : world.publishers[index]? = some publisher) :
    ∃ staged phase, (world.publishStep sha256 index publisher event).publishers =
      world.publishers.set index { publisher with staged, phase } := by
  obtain ⟨bound, here⟩ := List.getElem?_eq_some_iff.mp found
  have same : ∃ staged phase, world.publishers = world.publishers.set index { publisher with staged, phase } := by
    refine ⟨publisher.staged, publisher.phase, ?_⟩
    rw [← here, List.set_getElem_self]
  unfold World.publishStep
  split
  · next generations =>
    split
    · cases reserved : world.reserve sha256 index publisher generations with
      | ok next =>
        simp only [World.reserve, ite_error_eq_ok] at reserved
        obtain ⟨-, -, -, -, reserved⟩ := reserved
        cases reserved
        exact ⟨_, _, rfl⟩
      | error error => exact ⟨_, _, rfl⟩
    · exact same
  · split
    · split
      · exact ⟨_, _, rfl⟩
      · exact same
    · exact same
  · split
    · split
      · cases committed : world.commitPublication sha256 publisher with
        | ok next =>
          have publishers := (@archives_commitPublication _ _ _ True _ _ found committed).2
          refine ⟨publisher.staged, .finished, ?_⟩
          change next.publishers.set index _ = _
          rw [publishers]
        | error error => exact ⟨_, _, rfl⟩
      · exact same
    · exact same
  · exact ⟨_, _, rfl⟩
  · exact same

theorem checked_step (checked : world.Checked parsers) (event : Event) :
    (world.step parsers sha256 event).Checked parsers := by
  cases publish : event.isPublish with
  | false =>
    intro publisher member
    rw [(leaves_step publish).publishers] at member
    exact checked publisher member
  | true =>
    cases event with
    | beginPublish publication =>
      simp only [World.step]
      cases begun : world.beginPublish parsers sha256 publication with
      | ok next =>
        simp only [World.beginPublish, bind_eq_ok] at begun
        obtain ⟨_, accepted, previous, -, begun⟩ := begun
        cases begun
        simp only [Publication.check, bind_eq_ok] at accepted
        intro publisher member
        rcases List.mem_append.mp member with old | new
        · exact checked publisher old
        · rw [List.mem_singleton.mp new]
          obtain ⟨_, valid, -⟩ := accepted
          exact valid
      | error error => exact checked
    | reserve index generations | write index stored failed | commit index | abandon index =>
      simp only [World.step]
      split
      · next publisher found =>
        obtain ⟨staged, phase, publishers⟩ := publishers_publishStep found
        intro other member
        rw [publishers] at member
        rcases List.mem_or_eq_of_mem_set member with old | rfl
        · exact checked other old
        · exact checked publisher (List.mem_of_getElem? found)
      · exact checked
    | _ => cases publish

end Steps

/-! ## Versions and rows -/

/-- The name and the dates of a revision have been checked. -/
structure RevisionRow.Valid (row : RevisionRow) : Prop where
  revisionId : validRevision row.revisionId = true
  publicationDate : row.publicationDate.all validDate = true
  effectiveDate : row.effectiveDate.all validDate = true

def RevisionRow.key (row : RevisionRow) : ObjectId × Str := (row.object, row.revisionId)

/-- What is always true of the catalog. -/
structure Library.Sound (parsers : Parsers) (library : Library) : Prop where
  objects : Keyed ObjectRow.object library.world.objects
  checked : library.world.Checked parsers
  keyed : Keyed RevisionRow.key library.world.revisions
  revisions : ∀ row ∈ library.world.revisions, row.Valid
  sequences : library.world.captures.Pairwise fun a b => a.object = b.object → a.sequence < b.sequence
  numbered : ∀ capture ∈ library.world.captures, capture.sequence < library.world.nextCaptureOf capture.object
  inRange : library.inRange = true

/-- Later states of an object: versions do not fall, a withdrawal stands, and rows change with a version only. -/
structure Library.Follows (object : ObjectId) (old new : Library) : Prop where
  version : (old.state object).version ≤ (new.state object).version
  catalogVersion : (old.state object).catalogVersion ≤ (new.state object).catalogVersion
  withdrawn : (old.state object).withdrawn = true → (new.state object).withdrawn = true
  entries : (new.state object).version = (old.state object).version →
    (new.state object).catalogVersion = (old.state object).catalogVersion →
      ∀ kind, new.entries object kind = old.entries object kind

namespace Library.Follows

variable {object : ObjectId} {first second third : Library}

theorem refl : first.Follows object first :=
  ⟨Nat.le_refl _, Nat.le_refl _, fun withdrawn => withdrawn, fun _ _ _ => rfl⟩

theorem trans (near : first.Follows object second) (far : second.Follows object third) : first.Follows object third where
  version := near.version.trans far.version
  catalogVersion := near.catalogVersion.trans far.catalogVersion
  withdrawn held := far.withdrawn (near.withdrawn held)
  entries version catalogVersion kind := by
    -- a version that returns to its value has not moved
    have versions := near.version
    have versions' := far.version
    have catalogs := near.catalogVersion
    have catalogs' := far.catalogVersion
    rw [far.entries (by omega) (by omega) kind, near.entries (by omega) (by omega) kind]

end Library.Follows

section Rows

variable {object : ObjectId}

/-- An update of other rows, or one that history does not show. -/
theorem entries_updateWhere {rows : List RevisionRow} {meets : RevisionRow → Bool} {change : RevisionRow → RevisionRow}
    (same : ∀ row, meets row = true → (change row).object = row.object)
    (shows : ∀ row, meets row = true → row.object = object → (change row).entry = row.entry) :
    ((updateWhere meets change rows).filter (·.object = object)).map RevisionRow.entry =
      (rows.filter (·.object = object)).map RevisionRow.entry := by
  induction rows with
  | nil => rfl
  | cons row rows ih =>
    change (((if meets row then change row else row) :: updateWhere meets change rows).filter _).map _ = _
    cases met : meets row with
    | false =>
      simp only [Bool.false_eq_true, ↓reduceIte, List.filter_cons]
      split
      · rw [List.map_cons, List.map_cons, ih]
      · exact ih
    | true =>
      simp only [↓reduceIte, List.filter_cons, same row met, decide_eq_true_eq]
      split
      · next mine => rw [List.map_cons, List.map_cons, ih, shows row met mine]
      · exact ih

/-- Another object's revision. -/
theorem entries_upsertRevision {world : World} {row : RevisionRow} {change : RevisionRow → RevisionRow}
    (same : ∀ old : RevisionRow, old.object = row.object → (change old).object = row.object) (other : row.object ≠ object) :
    ((world.upsertRevision row change).filter (·.object = object)).map RevisionRow.entry =
      (world.revisions.filter (·.object = object)).map RevisionRow.entry := by
  unfold World.upsertRevision
  split
  · apply entries_updateWhere
    · intro old met
      simp only [Bool.and_eq_true, beq_iff_eq] at met
      rw [same old met.1, met.1]
    · intro old met mine
      simp only [Bool.and_eq_true, beq_iff_eq] at met
      exact absurd (met.1.symm.trans mine) other
  · rw [List.filter_append, List.filter_cons_of_neg (by simpa using other)]
    simp

section Upsert

variable {world : World} {row : RevisionRow} {change : RevisionRow → RevisionRow}

theorem keyed_upsertRevision (keyed : Keyed RevisionRow.key world.revisions)
    (same : ∀ old : RevisionRow, old.key = row.key → (change old).key = old.key) :
    Keyed RevisionRow.key (world.upsertRevision row change) := by
  unfold World.upsertRevision
  split
  · apply keyed.update
    intro old _ met
    simp only [Bool.and_eq_true, beq_iff_eq] at met
    exact same old (Prod.ext met.1 met.2)
  · next absent =>
    apply keyed.insert
    intro old member equal
    have none := List.find?_eq_none.mp (Option.not_isSome_iff_eq_none.mp absent) old member
    simp only [RevisionRow.key, Prod.mk.injEq] at equal
    simp [equal] at none

theorem valid_upsertRevision (valid : ∀ old ∈ world.revisions, old.Valid) (entered : row.Valid)
    (keeps : ∀ old : RevisionRow, old.Valid → (change old).Valid) : ∀ old ∈ world.upsertRevision row change, old.Valid := by
  unfold World.upsertRevision
  intro old member
  split at member
  · rcases mem_updateWhere_cases member with ⟨before, present, -, rfl⟩ | ⟨present, -⟩
    · exact keeps before (valid before present)
    · exact valid old present
  · rcases List.mem_append.mp member with present | new
    · exact valid old present
    · rw [List.mem_singleton.mp new]
      exact entered

end Upsert

end Rows

section Sound

variable {parsers : Parsers} {sha256 : Bytes → Bytes} {world next : World}

theorem Library.state_version (library : Library) (object : ObjectId) :
    (library.state object).version = library.world.versionOf object := by
  unfold Library.state World.versionOf
  cases library.world.object? object <;> rfl

theorem Library.state_catalogVersion_le (library : Library) (object : ObjectId) :
    (library.state object).catalogVersion ≤ library.catalogVersion object := by
  unfold Library.state
  cases library.world.object? object with
  | none => exact Nat.zero_le _
  | some row => exact Nat.le_refl _

/-- Versions that do not fall where objects move on. -/
theorem ObjectsMove.state {library after : Library} (moves : ObjectsMove library.world.objects after.world.objects)
    (keyed : Keyed ObjectRow.object library.world.objects) {object : ObjectId}
    (catalog : library.catalogVersion object ≤ after.catalogVersion object) :
    (library.state object).version ≤ (after.state object).version ∧
      (library.state object).catalogVersion ≤ (after.state object).catalogVersion ∧
      ((library.state object).withdrawn = true → (after.state object).withdrawn = true) := by
  cases found : library.world.object? object with
  | none => simp [Library.state, found]
  | some row =>
    obtain ⟨member, rfl⟩ := World.object?_mem found
    obtain ⟨later, present, same, version, withdrawn⟩ := moves.moves row member
    have here : after.world.object? row.object = some later := by
      rw [World.object?, ← same]
      exact (moves.keyed keyed).find?_eq_some present
    simp only [Library.state, found, here]
    exact ⟨version, catalog, withdrawn⟩

theorem Archive.Changes.nextCapture_le {spared : Prop} {archive later : Archive}
    (changes : Archive.Changes sha256 spared archive later) (object : ObjectId) :
    archive.nextCapture object ≤ later.nextCapture object := by
  induction changes with
  | refl => exact Nat.le_refl _
  | @tail middle last _ change ih =>
    apply ih.trans
    cases change with
    | capture publisher capture publishHead keepRevision row member reserved adds sequence =>
      change middle.nextCapture object ≤
        Function.update middle.nextCapture capture.object (middle.nextCapture capture.object + 1) object
      by_cases mine : object = capture.object
      · rw [mine, Function.update_self]
        exact Nat.le_succ _
      · rw [Function.update_of_ne mine]
    | _ => exact Nat.le_refl _

/-- A record that is checked has a checked name and checked dates. -/
theorem valid_of_validate {record : LegalRecord} (accepted : record.validate parsers = .ok ()) {row : RevisionRow}
    (names : row.Names record) : row.Valid := by
  simp only [LegalRecord.validate, bind_eq_ok, ite_error_eq_ok] at accepted
  obtain ⟨_, -, named, _, -, -, accepted⟩ := accepted
  split at accepted
  · cases accepted
  · simp only [ite_error_eq_ok, Bool.not_eq_true', Bool.not_eq_false] at accepted
    obtain ⟨-, fields, -⟩ := accepted
    simp only [LegalRecord.validFields, Bool.and_eq_true] at fields
    constructor
    · rw [names.revisionId]
      simpa using named
    · rw [names.publicationDate]
      exact fields.1.2
    · rw [names.effectiveDate]
      exact fields.2

theorem follows_database (keyed : Keyed ObjectRow.object world.objects) (catalogVersion : ObjectId → ℕ)
    (inventoryComplete : ObjectId → Bool) (event : Event) (object : ObjectId) :
    (⟨world, catalogVersion, inventoryComplete⟩ : Library).Follows object
      ⟨world.step parsers sha256 event, catalogVersion, inventoryComplete⟩ := by
  have moves := (changes_step parsers sha256 keyed event).objectsMove
  obtain ⟨version, catalogs, withdrawn⟩ := @ObjectsMove.state ⟨world, catalogVersion, inventoryComplete⟩
    ⟨world.step parsers sha256 event, catalogVersion, inventoryComplete⟩ moves keyed object (Nat.le_refl _)
  refine ⟨version, catalogs, withdrawn, ?_⟩
  intro same _ kind
  rw [Library.state_version, Library.state_version] at same
  change (world.step parsers sha256 event).versionOf object = world.versionOf object at same
  have files := @files_step world sha256 parsers event
  clear version catalogs withdrawn moves
  generalize world.step parsers sha256 event = next at *
  cases files with
  | kept revisions captures => cases kind <;> simp only [Library.entries, revisions, captures]
  | validated meets now revisions captures =>
    cases kind with
    | captures => simp only [Library.entries, captures]
    | revisions =>
      simp only [Library.entries, revisions]
      apply entries_updateWhere
      · intro row _
        rfl
      · intro row _ _
        rfl
  | installed publisher capture installs =>
    have other : capture.object ≠ object := by
      rintro rfl
      have raised := congrFun installs.version capture.object
      rw [Function.update_self] at raised
      omega
    cases kind with
    | captures =>
      simp only [Library.entries, installs.captures, List.filter_append]
      rw [List.filter_cons_of_neg (by simpa using other)]
      simp
    | revisions =>
      rcases installs.revisions with kept | ⟨row, names, entered⟩
      · simp only [Library.entries, kept]
      · simp only [Library.entries, entered]
        apply entries_upsertRevision
        · intro old _
          rfl
        · rw [names.object, ← installs.object]
          exact other

/-- The captures of a world and their numbers. -/
structure World.Numbered (world : World) : Prop where
  sequences : world.captures.Pairwise fun a b => a.object = b.object → a.sequence < b.sequence
  numbered : ∀ capture ∈ world.captures, capture.sequence < world.nextCaptureOf capture.object

theorem World.Numbered.kept (numbered : world.Numbered) (captures : next.captures = world.captures)
    (grows : ∀ object, world.nextCaptureOf object ≤ next.nextCaptureOf object) : next.Numbered where
  sequences := by
    rw [captures]
    exact numbered.sequences
  numbered capture member := by
    rw [captures] at member
    exact (numbered.numbered capture member).trans_le (grows capture.object)

theorem World.Numbered.installed (numbered : world.Numbered) {publisher : Publisher} {capture : CaptureRow}
    (installs : world.Installs next publisher capture)
    (grows : ∀ object, world.nextCaptureOf object ≤ next.nextCaptureOf object) : next.Numbered where
  sequences := by
    rw [installs.captures]
    apply List.pairwise_append.mpr
    refine ⟨numbered.sequences, List.pairwise_singleton _ _, ?_⟩
    intro other member new mine same
    rw [List.mem_singleton.mp mine] at same ⊢
    rw [installs.sequence, ← same]
    exact numbered.numbered other member
  numbered other member := by
    rw [installs.captures] at member
    rcases List.mem_append.mp member with old | new
    · exact (numbered.numbered other old).trans_le (grows other.object)
    · rw [List.mem_singleton.mp new, installs.nextCapture, Function.update_self, installs.sequence]
      exact Nat.lt_succ_self _

theorem sound_database {library : Library} (sound : library.Sound parsers) (event : Event)
    (inRange : ({ library with world := library.world.step parsers sha256 event } : Library).inRange = true) :
    ({ library with world := library.world.step parsers sha256 event } : Library).Sound parsers := by
  have grows := (@archives_step library.world parsers sha256 event).nextCapture_le
  have files := @files_step library.world sha256 parsers event
  have objects := (changes_step parsers sha256 sound.objects event).objectsMove.keyed sound.objects
  have checked : (library.world.step parsers sha256 event).Checked parsers := checked_step sound.checked event
  have numbers : library.world.Numbered := ⟨sound.sequences, sound.numbered⟩
  generalize library.world.step parsers sha256 event = next at *
  cases files with
  | kept revisions captures =>
    have numbered := numbers.kept captures grows
    refine ⟨objects, checked, ?_, ?_, numbered.sequences, numbered.numbered, inRange⟩
    · rw [revisions]
      exact sound.keyed
    · rw [revisions]
      exact sound.revisions
  | validated meets now revisions captures =>
    have numbered := numbers.kept captures grows
    refine ⟨objects, checked, ?_, ?_, numbered.sequences, numbered.numbered, inRange⟩
    · rw [revisions]
      apply sound.keyed.update
      intro row _ _
      rfl
    · intro row member
      rw [revisions] at member
      rcases mem_updateWhere_cases member with ⟨old, present, -, rfl⟩ | ⟨present, -⟩
      · exact { sound.revisions old present with }
      · exact sound.revisions row present
  | installed publisher capture installs =>
    have numbered := numbers.installed installs grows
    refine ⟨objects, checked, ?_, ?_, numbered.sequences, numbered.numbered, inRange⟩
    · rcases installs.revisions with kept | ⟨row, names, entered⟩
      · rw [kept]
        exact sound.keyed
      · rw [entered]
        exact keyed_upsertRevision sound.keyed fun old same => same.symm
    · rcases installs.revisions with kept | ⟨row, names, entered⟩
      · rw [kept]
        exact sound.revisions
      · rw [entered]
        have valid := valid_of_validate (sound.checked publisher installs.member) names
        exact valid_upsertRevision sound.revisions valid fun _ _ => valid

/-- What an inventory that says something new leaves: a revision is entered, and the catalog version advances. -/
structure Library.Records (library next : Library) (object : ObjectId) (row : RevisionRow)
    (change : RevisionRow → RevisionRow) : Prop where
  owner : row.object = object
  valid : row.Valid
  keeps : ∀ old : RevisionRow, old.Valid → (change old).Valid
  key : ∀ old : RevisionRow, (change old).key = old.key
  revisions : next.world.revisions = library.world.upsertRevision row change
  captures : next.world.captures = library.world.captures
  publishers : next.world.publishers = library.world.publishers
  objects : ObjectsMove library.world.objects next.world.objects
  observed : (next.world.object? object).isSome = true
  nextCapture : ∀ other, library.world.nextCaptureOf other ≤ next.world.nextCaptureOf other
  catalogVersion : next.catalogVersion = Function.update library.catalogVersion object (library.catalogVersion object + 1)

theorem nextCaptureOf_updateObject_le {object : ObjectId} {change : ObjectRow → ObjectRow}
    (same : ∀ row, (change row).object = row.object) (grows : ∀ row, row.nextCapture ≤ (change row).nextCapture)
    (other : ObjectId) : world.nextCaptureOf other ≤ (world.updateObject object change).nextCaptureOf other := by
  change _ ≤ (World.updateObjects world _ change).nextCaptureOf other
  rw [World.nextCaptureOf, World.nextCaptureOf, object?_updateObjects same]
  cases world.object? other with
  | none => exact Nat.le_refl _
  | some row =>
    simp only [Option.map_some, Option.getD_some]
    split
    · exact grows row
    · exact Nat.le_refl _

theorem observed_updateObject {object other : ObjectId} {change : ObjectRow → ObjectRow}
    (same : ∀ row, (change row).object = row.object) (observed : (world.object? other).isSome = true) :
    ((world.updateObject object change).object? other).isSome = true := by
  change ((World.updateObjects world _ change).object? other).isSome = true
  rw [object?_updateObjects same, Option.isSome_map]
  exact observed

theorem recordRevisionCatalog_ok {library after : Library} {object : ObjectId} {revisionId : Str}
    {publicationDate effectiveDate : Option Str}
    (recorded : library.recordRevisionCatalog object revisionId publicationDate effectiveDate = .ok after) :
    after = { library with world := (library.world.ensureObject object).1 } ∨
      ∃ row change, library.Records after object row change := by
  simp only [Library.recordRevisionCatalog, bind_eq_ok, ite_error_eq_ok] at recorded
  obtain ⟨_, -, named, dated, -, recorded⟩ := recorded
  simp only [Bool.not_eq_true', Bool.not_eq_false] at named
  simp only [List.any_cons, List.any_nil, Bool.or_false, Bool.or_eq_true, not_or, Bool.not_eq_true] at dated
  have published : publicationDate.all validDate = true := by
    cases publicationDate <;> simp_all
  have effective : effectiveDate.all validDate = true := by
    cases effectiveDate <;> simp_all
  have leaves : library.world.Leaves (library.world.ensureObject object).1 := leaves_ensureObject object
  obtain ⟨objects, tables, moves, -⟩ := library.world.ensureObject_spec object
  have archive := @archive_ensureObject library.world object
  split at recorded
  · right
    cases recorded
    refine ⟨⟨object, revisionId, none, publicationDate, effectiveDate, (library.world.ensureObject object).2.nextCapture,
        none, none⟩, fun old => { old with
          publicationDate := publicationDate <|> old.publicationDate
          effectiveDate := effectiveDate <|> old.effectiveDate }, ⟨rfl, ⟨named, published, effective⟩, ?_, fun _ => rfl, ?_,
      leaves.captures, leaves.publishers, ?_, ?_, ?_, rfl⟩⟩
    · intro old valid
      constructor
      · exact valid.revisionId
      · cases publicationDate with
        | none => exact valid.publicationDate
        | some date => exact published
      · cases effectiveDate with
        | none => exact valid.effectiveDate
        | some date => exact effective
    · exact upsertRevision_congr leaves.revisions _ _
    · rw [tables]
      apply moves.trans
      apply ObjectsMove.update
      · intro row _ _
        rfl
      · intro row _ _
        exact Nat.le_refl _
      · intro row _ _ withdrawn
        exact withdrawn
    · apply observed_updateObject
      · intro row
        rfl
      · change ((library.world.ensureObject object).1.object? object).isSome = true
        rw [object?_ensureObject, if_pos rfl]
        rfl
    · intro other
      have ensured : (library.world.ensureObject object).1.nextCaptureOf = library.world.nextCaptureOf :=
        congrArg Archive.nextCapture archive
      rw [← ensured]
      apply nextCaptureOf_updateObject_le
      · intro row
        rfl
      · intro row
        exact Nat.le_add_right _ _
  · left
    cases recorded
    rfl

namespace Library

variable {library after : Library} {object : ObjectId} {row : RevisionRow} {change : RevisionRow → RevisionRow}

theorem Records.sound (records : library.Records after object row change) (sound : library.Sound parsers)
    (inRange : after.inRange = true) : after.Sound parsers := by
  have numbers : library.world.Numbered := ⟨sound.sequences, sound.numbered⟩
  have numbered := numbers.kept records.captures records.nextCapture
  refine ⟨records.objects.keyed sound.objects, ?_, ?_, ?_, numbered.sequences, numbered.numbered, inRange⟩
  · intro publisher member
    rw [records.publishers] at member
    exact sound.checked publisher member
  · rw [records.revisions]
    exact keyed_upsertRevision sound.keyed fun old _ => records.key old
  · rw [records.revisions]
    exact valid_upsertRevision sound.revisions records.valid records.keeps

theorem Records.follows (records : library.Records after object row change)
    (keyed : Keyed ObjectRow.object library.world.objects) (other : ObjectId) : library.Follows other after := by
  have catalogs : library.catalogVersion other ≤ after.catalogVersion other := by
    rw [records.catalogVersion]
    by_cases mine : other = object
    · rw [mine, Function.update_self]
      exact Nat.le_succ _
    · rw [Function.update_of_ne mine]
  obtain ⟨version, catalogVersion, withdrawn⟩ := records.objects.state keyed catalogs
  refine ⟨version, catalogVersion, withdrawn, ?_⟩
  intro _ same kind
  have another : row.object ≠ other := by
    rw [records.owner]
    rintro rfl
    obtain ⟨found, here⟩ := Option.isSome_iff_exists.mp records.observed
    have before := library.state_catalogVersion_le object
    have advanced : (after.state object).catalogVersion = library.catalogVersion object + 1 := by
      simp only [state, here, records.catalogVersion, Function.update_self]
    omega
  cases kind with
  | captures => simp only [entries, records.captures]
  | revisions =>
    simp only [entries, records.revisions]
    apply entries_upsertRevision _ another
    intro old mine
    rw [← mine]
    exact congrArg Prod.fst (records.key old)

/-- A row for an object that had none says nothing new. -/
theorem ensured_sound (sound : library.Sound parsers) (object : ObjectId)
    (inRange : ({ library with world := (library.world.ensureObject object).1 } : Library).inRange = true) :
    ({ library with world := (library.world.ensureObject object).1 } : Library).Sound parsers := by
  have leaves : library.world.Leaves (library.world.ensureObject object).1 := leaves_ensureObject object
  obtain ⟨objects, tables, moves, -⟩ := library.world.ensureObject_spec object
  have nexts : (library.world.ensureObject object).1.nextCaptureOf = library.world.nextCaptureOf :=
    congrArg Archive.nextCapture archive_ensureObject
  have numbers : library.world.Numbered := ⟨sound.sequences, sound.numbered⟩
  have numbered := numbers.kept leaves.captures fun other => (congrFun nexts other).ge
  refine ⟨?_, ?_, ?_, ?_, numbered.sequences, numbered.numbered, inRange⟩
  · rw [tables]
    exact moves.keyed sound.objects
  · intro publisher member
    rw [leaves.publishers] at member
    exact sound.checked publisher member
  · rw [leaves.revisions]
    exact sound.keyed
  · rw [leaves.revisions]
    exact sound.revisions

theorem ensured_follows (keyed : Keyed ObjectRow.object library.world.objects) (object other : ObjectId) :
    library.Follows other { library with world := (library.world.ensureObject object).1 } := by
  have leaves : library.world.Leaves (library.world.ensureObject object).1 := leaves_ensureObject object
  obtain ⟨objects, tables, moves, -⟩ := library.world.ensureObject_spec object
  have moved : ObjectsMove library.world.objects (library.world.ensureObject object).1.objects := by
    rw [tables]
    exact moves
  obtain ⟨version, catalogVersion, withdrawn⟩ := @ObjectsMove.state library
    { library with world := (library.world.ensureObject object).1 } moved keyed other (Nat.le_refl _)
  refine ⟨version, catalogVersion, withdrawn, ?_⟩
  intro _ _ kind
  cases kind <;> simp only [entries, leaves.revisions, leaves.captures]

theorem marked_follows (keyed : Keyed ObjectRow.object library.world.objects) (meets : ObjectId → Bool) (complete : Bool)
    (other : ObjectId) : library.Follows other (library.mark meets complete) := by
  obtain ⟨version, catalogVersion, withdrawn⟩ := @ObjectsMove.state library (library.mark meets complete) .refl keyed other
    (Nat.le_add_right _ _)
  refine ⟨version, catalogVersion, withdrawn, ?_⟩
  intro _ _ kind
  cases kind <;> rfl

theorem marked_sound (sound : library.Sound parsers) {meets : ObjectId → Bool} {complete : Bool}
    (inRange : (library.mark meets complete).inRange = true) : (library.mark meets complete).Sound parsers :=
  { sound with inRange }

theorem transact_sound (sound : library.Sound parsers) (event : LibraryEvent)
    (inRange : (library.transact parsers sha256 event).inRange = true) :
    (library.transact parsers sha256 event).Sound parsers := by
  cases event with
  | database event => exact sound_database sound event inRange
  | recordRevisionCatalog object revisionId publicationDate effectiveDate =>
    simp only [transact] at inRange ⊢
    cases recorded : library.recordRevisionCatalog object revisionId publicationDate effectiveDate with
    | error error => exact sound
    | ok after =>
      rw [recorded] at inRange
      rcases recordRevisionCatalog_ok recorded with rfl | ⟨row, change, records⟩
      · exact ensured_sound sound object inRange
      · exact records.sound sound inRange
  | markInventoryComplete object complete =>
    simp only [transact, markInventoryComplete] at inRange ⊢
    cases valid : object.validate with
    | error error => exact sound
    | ok =>
      rw [valid] at inRange
      exact marked_sound sound inRange
  | markDatasetInventoryComplete dataset complete =>
    simp only [transact, markDatasetInventoryComplete] at inRange ⊢
    by_cases revised : hasProviderRevisions dataset = true
    · simp only [revised, Bool.not_true, Bool.false_eq_true, ↓reduceIte] at inRange ⊢
      exact marked_sound sound inRange
    · simp only [revised, Bool.not_false, ↓reduceIte]
      exact sound

theorem transact_follows (sound : library.Sound parsers) (event : LibraryEvent) (other : ObjectId) :
    library.Follows other (library.transact parsers sha256 event) := by
  cases event with
  | database event => exact follows_database sound.objects _ _ event other
  | recordRevisionCatalog object revisionId publicationDate effectiveDate =>
    simp only [transact]
    cases recorded : library.recordRevisionCatalog object revisionId publicationDate effectiveDate with
    | error error => exact .refl
    | ok after =>
      rcases recordRevisionCatalog_ok recorded with rfl | ⟨row, change, records⟩
      · exact ensured_follows sound.objects object other
      · exact records.follows sound.objects other
  | markInventoryComplete object complete =>
    simp only [transact, markInventoryComplete]
    cases object.validate with
    | error error => exact .refl
    | ok => exact marked_follows sound.objects _ _ other
  | markDatasetInventoryComplete dataset complete =>
    simp only [transact, markDatasetInventoryComplete]
    split
    · exact .refl
    · exact marked_follows sound.objects _ _ other

theorem step_sound (sound : library.Sound parsers) (event : LibraryEvent) :
    (library.step parsers sha256 event).Sound parsers := by
  simp only [step]
  split
  · next inRange => exact transact_sound sound event inRange
  · exact sound

theorem step_follows (sound : library.Sound parsers) (event : LibraryEvent) (other : ObjectId) :
    library.Follows other (library.step parsers sha256 event) := by
  simp only [step]
  split
  · exact transact_follows sound event other
  · exact .refl

theorem initial_sound (now maxJobAttempts : ℕ) (maxRawBytes : Option ℕ) :
    (initial now maxJobAttempts maxRawBytes).Sound parsers where
  objects := List.nodup_nil
  checked _ member := absurd member List.not_mem_nil
  keyed := List.nodup_nil
  revisions _ member := absurd member List.not_mem_nil
  sequences := .nil
  numbered _ member := absurd member List.not_mem_nil
  inRange := rfl

theorem run_sound (sound : library.Sound parsers) (events : List LibraryEvent) :
    (library.run parsers sha256 events).Sound parsers :=
  foldl_invariant (fun library : Library => library.Sound parsers) (fun _ event held => step_sound held event) events sound

theorem run_follows (sound : library.Sound parsers) (events : List LibraryEvent) (other : ObjectId) :
    library.Follows other (library.run parsers sha256 events) := by
  have both : (library.run parsers sha256 events).Sound parsers ∧
      library.Follows other (library.run parsers sha256 events) :=
    foldl_invariant (fun later : Library => later.Sound parsers ∧ library.Follows other later)
      (fun _ event held => ⟨step_sound held.1 event, held.2.trans (step_follows held.1 event other)⟩) events
      ⟨sound, .refl⟩
  exact both.2

end Library

end Sound

end OpenLegal.Corpus.Database
