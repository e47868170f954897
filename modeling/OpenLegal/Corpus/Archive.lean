import OpenLegal.Corpus.JobChanges

/-! # What a step does to captures and blobs

The archive is what captures, events, reservations and deletions are about: of an object only its version, its HEAD,
the number of its next capture and the latest captures of its revisions. Every step changes it in a few ways, and most
steps only raise a version. `Spares` is the condition under which a blob that is written stays within reach.
-/

namespace OpenLegal.Corpus.Database

open Rust Rust.Str Legal Theory

@[ext]
structure Archive where
  version : ObjectId → ℕ
  head : ObjectId → Option ℕ
  nextCapture : ObjectId → ℕ
  latest : ObjectId → Str → Option ℕ
  issued : List ℕ
  captures : List CaptureRow
  outbox : List OutboxRow
  nextEvent : ℕ
  rawBytes : ℤ
  stagedBytes : ℤ
  historicalBytes : ℤ
  staging : List StageRow
  deletions : List Blob
  blobs : List ℕ
  publishers : List Publisher
  maintainers : List Maintainer
  deleted : List ℕ

namespace World

variable (world : World)

/-- The version of an object; an object without a row has none. -/
def versionOf (object : ObjectId) : ℕ := ((world.object? object).map (·.version)).getD 0

def headOf (object : ObjectId) : Option ℕ := (world.object? object).bind (·.headCapture)

def validatedAtOf (object : ObjectId) : Option ℕ := (world.object? object).bind (·.validatedAt)

def nextCaptureOf (object : ObjectId) : ℕ := ((world.object? object).map (·.nextCapture)).getD 1

def latestOf (object : ObjectId) (revisionId : Str) : Option ℕ := (world.revision? object revisionId).bind (·.latestCapture)

def archive : Archive :=
  { version := world.versionOf, head := world.headOf, nextCapture := world.nextCaptureOf, latest := world.latestOf
    issued := world.issued, captures := world.captures, outbox := world.outbox, nextEvent := world.nextEvent
    rawBytes := world.rawBytes, stagedBytes := world.stagedBytes, historicalBytes := world.historicalBytes
    staging := world.staging, deletions := world.deletions, blobs := world.blobs, publishers := world.publishers
    maintainers := world.maintainers, deleted := world.deleted }

end World

namespace Archive

variable (archive : Archive)

/-- The capture that a publication would be compared with now. -/
def currentId (publication : Publication) : Option ℕ :=
  if publication.installHead then archive.head publication.record.object
  else archive.latest publication.record.object publication.record.revisionId

def current (publication : Publication) : Option CaptureRow :=
  (archive.currentId publication).bind fun id => archive.captures.find? (·.id = id)

/-- A storage key that is reserved. -/
def Staged (key : ℕ) : Prop := ∃ row ∈ archive.staging, row.blob.storageKey = key

/-- A storage key that a capture or its evidence refers to. -/
def Referenced (key : ℕ) : Prop := ∃ capture ∈ archive.captures, ∃ blob ∈ capture.blobs, blob.storageKey = key

/-- A storage key with a deletion row. -/
def Queued (key : ℕ) : Prop := ∃ blob ∈ archive.deletions, blob.storageKey = key

/-- A storage key that is on its way to deletion or has been deleted. -/
def Discarded (key : ℕ) : Prop :=
  archive.Queued key ∨ (∃ maintainer ∈ archive.maintainers, key ∈ maintainer.queue) ∨ key ∈ archive.deleted

/-- The blob of a key is deleted, and its row is about to be removed. -/
def Removing (key : ℕ) : Prop := ∃ rest, (⟨key :: rest, true⟩ : Maintainer) ∈ archive.maintainers

/-- A blob that is written now has a row, and the row stays until the blob is deleted. -/
def Spares (key : ℕ) : Prop := archive.Staged key ∨ (archive.Queued key ∧ ¬ archive.Removing key)

/-- The staging rows that are left when those of a publication are given up. -/
def unstaged (staged : List Blob) : List StageRow :=
  archive.staging.filter fun row => !(staged.map (·.storageKey)).contains row.blob.storageKey

end Archive

/-- A capture that a publication adds to an archive. -/
structure Archive.Adds (archive : Archive) (publisher : Publisher) (capture : CaptureRow) : Prop where
  object : capture.object = publisher.publication.record.object
  record : capture.record = publisher.publication.record
  processorVersion : capture.processorVersion = publisher.publication.processorVersion
  sequence : capture.sequence = archive.nextCapture capture.object
  id : capture.id = capture.source.storageKey
  blobs : capture.blobs = publisher.staged

/-- What a new capture, or the HEAD that it replaces, adds to the historical bytes. -/
def Archive.historicalAdd (archive : Archive) (publication : Publication) (publishHead : Bool) : ℤ :=
  if publishHead then
    (((archive.head publication.record.object).bind fun id => archive.captures.find? (·.id = id)).map
      CaptureRow.size).getD 0
  else publication.totalSize

inductive Archive.Change (sha256 : Bytes → Bytes) (spared : Prop) (archive : Archive) : Archive → Prop where
  | observe (version : ObjectId → ℕ) (issued : List ℕ) (raises : ∀ object, archive.version object ≤ version object)
      (grows : archive.issued ⊆ issued) : Change sha256 spared archive { archive with version, issued }
  | event (row : OutboxRow) (sequence : row.sequence = archive.nextEvent) :
      Change sha256 spared archive { archive with outbox := archive.outbox ++ [row], nextEvent := archive.nextEvent + 1 }
  | enter (publication : Publication) :
      Change sha256 spared archive { archive with
        publishers := archive.publishers ++ [⟨publication, archive.current publication, [], .reserving⟩] }
  | reserve (index : ℕ) (publisher : Publisher) (generations : List ℕ) (now : ℕ)
      (found : archive.publishers[index]? = some publisher)
      (complete : generations.length = publisher.publication.inputs.length) (distinct : generations.Nodup)
      (fresh : ∀ generation ∈ generations, generation ∉ archive.issued) :
      Change sha256 spared archive { archive with
        issued := generations ++ archive.issued
        staging := archive.staging ++ (publisher.publication.blobs sha256 generations).map fun blob => ⟨blob, now⟩
        stagedBytes := archive.stagedBytes + publisher.publication.totalSize
        publishers := archive.publishers.set index
          { publisher with staged := publisher.publication.blobs sha256 generations, phase := .writing 0 } }
  | progress (index : ℕ) (publisher : Publisher) (phase : PublishPhase)
      (found : archive.publishers[index]? = some publisher) :
      Change sha256 spared archive { archive with
        publishers := archive.publishers.set index { publisher with phase } }
  | write (key : ℕ) (stays : spared → archive.Spares key) :
      Change sha256 spared archive { archive with blobs := key :: archive.blobs }
  | duplicate (publisher : Publisher) (member : publisher ∈ archive.publishers) (nonempty : publisher.staged ≠ [])
      (reserved : ∀ blob ∈ publisher.staged, archive.Staged blob.storageKey) :
      Change sha256 spared archive { archive with
        staging := archive.unstaged publisher.staged
        stagedBytes := archive.stagedBytes - publisher.publication.totalSize
        deletions := archive.deletions ++ publisher.staged }
  | capture (publisher : Publisher) (capture : CaptureRow) (publishHead keepRevision : Bool) (row : OutboxRow)
      (member : publisher ∈ archive.publishers)
      (reserved : ∀ blob ∈ publisher.staged, archive.Staged blob.storageKey)
      (adds : archive.Adds publisher capture) (sequence : row.sequence = archive.nextEvent) :
      Change sha256 spared archive { archive with
        version := Function.update archive.version capture.object (archive.version capture.object + 1)
        head := if publishHead then Function.update archive.head capture.object (some capture.id) else archive.head
        nextCapture := Function.update archive.nextCapture capture.object (archive.nextCapture capture.object + 1)
        latest :=
          if keepRevision then archive.latest
          else Function.update archive.latest capture.object
            (Function.update (archive.latest capture.object) capture.record.revisionId (some capture.id))
        captures := archive.captures ++ [capture]
        outbox := archive.outbox ++ [row]
        nextEvent := archive.nextEvent + 1
        rawBytes := archive.rawBytes + publisher.publication.totalSize
        stagedBytes := archive.stagedBytes - publisher.publication.totalSize
        historicalBytes := archive.historicalBytes + archive.historicalAdd publisher.publication publishHead
        staging := archive.unstaged publisher.staged }
  | forget (keep : Blob → Bool) (referenced : ∀ blob ∈ archive.deletions, keep blob = false → archive.Referenced blob.storageKey) :
      Change sha256 spared archive { archive with deletions := archive.deletions.filter keep }
  | expire (expired : StageRow → Bool) (deletions : List Blob)
      (queued : ∀ key, (∃ blob ∈ deletions, blob.storageKey = key) ↔
        archive.Queued key ∨ ∃ row ∈ archive.staging, expired row = true ∧ row.blob.storageKey = key) :
      Change sha256 spared archive { archive with
        deletions
        staging := archive.staging.filter fun row => !expired row
        stagedBytes := archive.stagedBytes - ((archive.staging.filter expired).map fun row => (row.blob.size : ℤ)).sum }
  | read (queue : List ℕ) (queued : ∀ key ∈ queue, archive.Queued key) :
      Change sha256 spared archive { archive with maintainers := archive.maintainers ++ [⟨queue, false⟩] }
  | delete (index key : ℕ) (rest : List ℕ) (removed failed : Bool)
      (found : archive.maintainers[index]? = some ⟨key :: rest, false⟩) :
      Change sha256 spared archive { archive with
        deleted := key :: archive.deleted
        blobs := if removed || !failed then archive.blobs.filter (· ≠ key) else archive.blobs
        maintainers := archive.maintainers.set index (if failed then ⟨[], false⟩ else ⟨key :: rest, true⟩) }
  | remove (index key : ℕ) (rest : List ℕ) (removed failed : Bool)
      (found : archive.maintainers[index]? = some ⟨key :: rest, true⟩) :
      Change sha256 spared archive { archive with
        deletions :=
          if removed || !failed then archive.deletions.filter (·.storageKey ≠ key) else archive.deletions
        maintainers := archive.maintainers.set index (if failed then ⟨[], false⟩ else ⟨rest, false⟩) }

/-- The changes of a step, one after another. -/
def Archive.Changes (sha256 : Bytes → Bytes) (spared : Prop) (archive next : Archive) : Prop :=
  Relation.ReflTransGen (Archive.Change sha256 spared) archive next

/-! ## What is known of an object -/

section Views

variable {world : World} {object : ObjectId} {change : ObjectRow → ObjectRow}

/-- `UPDATE corpus_object`. -/
def World.updateObjects (world : World) (meets : ObjectRow → Bool) (change : ObjectRow → ObjectRow) : World :=
  { world with objects := updateWhere meets change world.objects }

theorem object?_updateObjects {meets : ObjectRow → Bool} (same : ∀ row, (change row).object = row.object)
    (other : ObjectId) :
    (world.updateObjects meets change).object? other =
      (world.object? other).map fun row => if meets row then change row else row := by
  apply find?_updateWhere
  intro row _
  simp [same]

/-- A column of an object after an update of one object. -/
theorem column_updateObject {β : Type} (column : Option ObjectRow → β) (same : ∀ row, (change row).object = row.object) :
    (fun other => column ((world.updateObject object change).object? other)) =
      Function.update (fun other => column (world.object? other)) object (column ((world.object? object).map change)) := by
  funext other
  change column ((world.updateObjects _ change).object? other) = _
  rw [object?_updateObjects same]
  by_cases mine : other = object
  · subst mine
    rw [Function.update_self]
    cases found : world.object? other with
    | none => rfl
    | some row => simp [(World.object?_mem found).2]
  · rw [Function.update_of_ne mine]
    cases found : world.object? other with
    | none => rfl
    | some row => simp [(World.object?_mem found).2, mine]

/-- A new row of an object says what was known without it. -/
theorem object?_ensureObject (other : ObjectId) :
    (world.ensureObject object).1.object? other =
      if other = object then some (world.ensureObject object).2 else world.object? other := by
  rw [World.ensureObject]
  cases found : world.object? object with
  | some row =>
    by_cases mine : other = object
    · rw [if_pos mine, mine]
      exact found
    · rw [if_neg mine]
  | none =>
    rw [World.object?, List.find?_append]
    by_cases mine : other = object
    · rw [if_pos mine, mine]
      change (world.object? object).or _ = _
      rw [found]
      simp [ObjectRow.new]
    · rw [if_neg mine]
      change (world.object? other).or _ = _
      simp [ObjectRow.new, Ne.symm mine]

theorem ensureObject_eq : (world.ensureObject object).2 = (world.object? object).getD (.new object) := by
  rw [World.ensureObject]
  cases world.object? object <;> rfl

/-- A column of an object whose default is that of a new row. -/
theorem column_ensureObject {β : Type} (column : Option ObjectRow → β)
    (default : column (some (.new object)) = column none) (other : ObjectId) :
    column ((world.ensureObject object).1.object? other) = column (world.object? other) := by
  rw [object?_ensureObject]
  by_cases mine : other = object
  · rw [if_pos mine, mine, ensureObject_eq]
    cases world.object? object with
    | none => exact default
    | some row => rfl
  · rw [if_neg mine]

theorem archive_ensureObject : (world.ensureObject object).1.archive = world.archive := by
  obtain ⟨objects, equal, -, -⟩ := world.ensureObject_spec object
  have version : (world.ensureObject object).1.versionOf = world.versionOf := funext fun other =>
    column_ensureObject (fun row => (row.map ObjectRow.version).getD 0) rfl other
  have head : (world.ensureObject object).1.headOf = world.headOf := funext fun other =>
    column_ensureObject (fun row => row.bind (·.headCapture)) rfl other
  have nextCapture : (world.ensureObject object).1.nextCaptureOf = world.nextCaptureOf := funext fun other =>
    column_ensureObject (fun row => (row.map ObjectRow.nextCapture).getD 1) rfl other
  rw [World.archive, version, head, nextCapture, equal]
  rfl

/-- An update of objects that leaves their captures alone. -/
structure ObjectRow.Keeps (old new : ObjectRow) : Prop where
  object : new.object = old.object
  headCapture : new.headCapture = old.headCapture
  nextCapture : new.nextCapture = old.nextCapture

theorem archive_updateObjects {meets : ObjectRow → Bool} (keeps : ∀ row, ObjectRow.Keeps row (change row)) :
    (world.updateObjects meets change).archive =
      { world.archive with version := (world.updateObjects meets change).versionOf } := by
  have same : ∀ row, (change row).object = row.object := fun row => (keeps row).object
  have heads : (world.updateObjects meets change).headOf = world.headOf := by
    funext other
    rw [World.headOf, object?_updateObjects same, World.headOf]
    cases world.object? other with
    | none => rfl
    | some row => cases met : meets row <;> simp [met, (keeps row).headCapture]
  have nexts : (world.updateObjects meets change).nextCaptureOf = world.nextCaptureOf := by
    funext other
    rw [World.nextCaptureOf, object?_updateObjects same, World.nextCaptureOf]
    cases world.object? other with
    | none => rfl
    | some row => cases met : meets row <;> simp [met, (keeps row).nextCapture]
  rw [World.archive, heads, nexts]
  rfl

theorem versionOf_updateObjects_le {meets : ObjectRow → Bool} (same : ∀ row, (change row).object = row.object)
    (raises : ∀ other row, world.object? other = some row → meets row = true → row.version ≤ (change row).version)
    (other : ObjectId) : world.versionOf other ≤ (world.updateObjects meets change).versionOf other := by
  rw [World.versionOf, World.versionOf, object?_updateObjects same]
  cases found : world.object? other with
  | none => exact Nat.le_refl _
  | some row =>
    cases met : meets row with
    | true => simpa [met] using raises other row found met
    | false => simp [met]

end Views

/-! ## Jobs -/

section Jobs

variable {world next : World} {sha256 : Bytes → Bytes} {spared : Prop}

theorem Archive.Changes.of_eq {archive other : Archive} (equal : other = archive) :
    Archive.Changes sha256 spared archive other := by
  rw [equal]
  exact .refl

theorem archives_updateObjects {meets : ObjectRow → Bool} {change : ObjectRow → ObjectRow}
    (keeps : ∀ row, ObjectRow.Keeps row (change row))
    (raises : ∀ other row, world.object? other = some row → meets row = true → row.version ≤ (change row).version) :
    Archive.Changes sha256 spared world.archive (world.updateObjects meets change).archive := by
  rw [archive_updateObjects keeps]
  apply Relation.ReflTransGen.single
  exact .observe _ world.issued (versionOf_updateObjects_le (fun row => (keeps row).object) raises) fun _ member => member

theorem archives_updateObject {object : ObjectId} {change : ObjectRow → ObjectRow}
    (keeps : ∀ row, ObjectRow.Keeps row (change row))
    (raises : ∀ row, world.object? object = some row → row.version ≤ (change row).version) :
    Archive.Changes sha256 spared world.archive (world.updateObject object change).archive := by
  apply archives_updateObjects keeps
  intro other row found met
  apply raises
  rw [← beq_iff_eq.mp met, (World.object?_mem found).2]
  exact found

theorem archives_failClaim {job : Job} {retry : Bool} (failed : world.failClaim job retry = .ok next) :
    next.archive = world.archive := by
  simp only [World.failClaim, ite_error_eq_ok] at failed
  obtain ⟨-, failed⟩ := failed
  cases failed
  rfl

theorem archives_releaseAdmissionWait {job : Job} (released : world.releaseAdmissionWait job = .ok next) :
    next.archive = world.archive := by
  simp only [World.releaseAdmissionWait, ite_error_eq_ok] at released
  obtain ⟨-, -, -, released⟩ := released
  cases released
  rfl

theorem archives_deferStorageClaim {job : Job} (deferred : world.deferStorageClaim job = .ok next) :
    next.archive = world.archive := by
  simp only [World.deferStorageClaim, ite_error_eq_ok] at deferred
  obtain ⟨-, -, -, deferred⟩ := deferred
  cases deferred
  rfl

theorem archives_deferBudgetClaim {job : Job} {resumeAt : ℕ} {refund : Bool}
    (deferred : world.deferBudgetClaim job resumeAt refund = .ok next) : next.archive = world.archive := by
  simp only [World.deferBudgetClaim, ite_error_eq_ok] at deferred
  obtain ⟨-, -, -, deferred⟩ := deferred
  cases deferred
  rfl

theorem archives_adoptExplicitJob {id requestId recoveryAt : ℕ} {owners : List Owner}
    (adopted : world.adoptExplicitJob id requestId recoveryAt owners = .ok next) : next.archive = world.archive := by
  simp only [World.adoptExplicitJob, ite_error_eq_ok] at adopted
  obtain ⟨-, adopted⟩ := adopted
  cases adopted
  rfl

theorem archives_adoptBackgroundBudgetWait {object : ObjectId} {revisionId : Str} {effectiveDate : Option Str}
    {observedVersion : ℕ} {sourceMetadata : Map Str Str} {launch : Collection.CollectionLaunch} {owners : List Owner}
    (adopted : world.adoptBackgroundBudgetWait object revisionId effectiveDate observedVersion sourceMetadata launch owners =
      .ok next) : Archive.Changes sha256 spared world.archive next.archive := by
  simp only [World.adoptBackgroundBudgetWait, ite_error_eq_ok] at adopted
  obtain ⟨-, -, adopted⟩ := adopted
  split at adopted
  · cases adopted
  simp only [ite_error_eq_ok] at adopted
  obtain ⟨-, -, -, adopted⟩ := adopted
  split at adopted
  · cases adopted
    exact .refl
  next row found =>
  split at adopted
  · cases adopted
    exact .refl
  next current =>
  simp only [Bool.not_eq_true', Bool.not_eq_false, Bool.and_eq_true, beq_iff_eq] at current
  split at adopted
  · cases adopted
    exact .refl
  split at adopted
  · cases adopted
    exact .refl
  · cases adopted
    -- the jobs are not part of the archive
    change Archive.Changes sha256 spared world.archive
      (world.updateObject object fun old => { old with version := observedVersion + 1 }).archive
    apply archives_updateObject
    · intro row
      exact ⟨rfl, rfl, rfl⟩
    · intro other same
      rw [found] at same
      cases same
      change row.version ≤ observedVersion + 1
      omega

theorem archives_claimJobInner {claim : World.Claim} (claimed : world.claimJobInner claim = .ok next) :
    Archive.Changes sha256 spared world.archive next.archive := by
  simp only [World.claimJobInner, ite_error_eq_ok] at claimed
  obtain ⟨-, claimed⟩ := claimed
  split at claimed
  · cases claimed
    exact .refl
  split at claimed
  · cases claimed
    exact .refl
  next row _ =>
  split at claimed
  · cases claimed
  next object _ =>
  cases claimed
  change Archive.Changes sha256 spared world.archive
    (world.updateObject row.object fun old => { old with version := old.version + 1 }).archive
  apply archives_updateObject
  · intro row
    exact ⟨rfl, rfl, rfl⟩
  · intro other _
    exact Nat.le_succ _

theorem archives_observeHead {request : Enqueue} {row : ObjectRow} (found : world.object? request.object = some row) :
    Archive.Changes sha256 spared world.archive (world.observeHead request row).archive := by
  unfold World.observeHead
  split
  · change Archive.Changes sha256 spared world.archive (world.updateObject request.object _).archive
    apply archives_updateObject
    · intro row
      exact ⟨rfl, rfl, rfl⟩
    · intro other same
      rw [found] at same
      cases same
      exact Nat.le_add_right _ _
  · exact .refl

theorem archives_placeJob {request : Enqueue} {version : ℕ} :
    Archive.Changes sha256 spared world.archive (world.placeJob request version).1.archive := by
  unfold World.placeJob
  split
  · split
    · exact .refl
    · apply archives_updateObject
      · intro row
        exact ⟨rfl, rfl, rfl⟩
      · intro row _
        exact Nat.le_refl _
  · split
    · exact .refl
    · split
      · exact .refl
      · split
        · exact .refl
        · apply Relation.ReflTransGen.single
          exact .observe _ _ (fun _ => Nat.le_refl _) fun _ member => List.mem_cons_of_mem _ member

theorem archives_enqueue {request : Enqueue} :
    Archive.Changes sha256 spared world.archive (world.enqueueJobWithOwner request).1.archive := by
  unfold World.enqueueJobWithOwner
  split
  · exact .refl
  dsimp only
  split
  · exact .refl
  split
  · exact .refl
  split
  · exact .refl
  have ensured : Archive.Changes sha256 spared world.archive (world.ensureObject request.object).1.archive :=
    .of_eq archive_ensureObject
  have found : (world.ensureObject request.object).1.object? request.object =
      some (world.ensureObject request.object).2 := by
    rw [object?_ensureObject, if_pos rfl]
  have observed : Archive.Changes sha256 spared _ _ := ensured.trans (archives_observeHead found)
  have placed := observed.trans (@archives_placeJob _ _ spared request (request.version (world.ensureObject request.object).2))
  split
  · next next job equal =>
    rw [equal] at placed
    exact placed
  · next next equal =>
    rw [equal] at placed
    exact placed
  · exact .refl

end Jobs

/-! ## Publication -/

section Publication

variable {world next : World} {sha256 : Bytes → Bytes} {spared : Prop}

theorem current_archive (publication : Publication) :
    world.archive.current publication = (world.currentId publication).bind world.capture? := rfl

theorem readPrevious_ok {publication : Publication} {previous : Option CaptureRow}
    (read : world.readPrevious publication = .ok previous) : previous = world.archive.current publication := by
  rw [current_archive]
  unfold World.readPrevious at read
  split at read
  · next none =>
    cases read
    rw [none]
    rfl
  · next id some =>
    rw [some, Option.bind_some]
    split at read
    · next absent =>
      rw [absent]
      split at read
      · cases read
      · cases read
        rfl
    · next capture found =>
      simp only [ite_error_eq_ok] at read
      obtain ⟨-, read⟩ := read
      cases read
      exact found.symm

theorem archives_beginPublish {parsers : Parsers} {publication : Publication}
    (begun : world.beginPublish parsers sha256 publication = .ok next) :
    Archive.Changes sha256 spared world.archive next.archive := by
  simp only [World.beginPublish, bind_eq_ok] at begun
  obtain ⟨-, -, previous, read, begun⟩ := begun
  cases begun
  rw [readPrevious_ok read]
  exact .single (.enter publication)

theorem archives_reserve {index : ℕ} {publisher : Publisher} {generations : List ℕ}
    (found : world.publishers[index]? = some publisher)
    (reserved : world.reserve sha256 index publisher generations = .ok next) :
    Archive.Changes sha256 spared world.archive next.archive := by
  simp only [World.reserve, ite_error_eq_ok] at reserved
  obtain ⟨fresh, -, -, -, reserved⟩ := reserved
  cases reserved
  simp only [not_or, Decidable.not_not, List.any_eq_true, List.contains_iff_mem, not_exists, not_and] at fresh
  obtain ⟨complete, distinct, unissued⟩ := fresh
  exact .single (.reserve index publisher generations publisher.publication.now found complete distinct unissued)

theorem finishJob_eq (world : World) (commit : World.Committing) :
    ∃ jobs history, world.finishJob commit = { world with jobs, history } := by
  unfold World.finishJob
  split
  · exact ⟨world.jobs, world.history, rfl⟩
  · exact ⟨_, _, rfl⟩

theorem archive_finishJob {commit : World.Committing} : (world.finishJob commit).archive = world.archive := by
  unfold World.finishJob
  split <;> rfl

/-- A validation of revisions does not change their captures. -/
theorem latestOf_validate {meets : RevisionRow → Bool} {change : RevisionRow → RevisionRow} {validated : World}
    (revisions : validated.revisions = updateWhere meets change world.revisions)
    (keeps : ∀ row, (change row).object = row.object ∧ (change row).revisionId = row.revisionId ∧
      (change row).latestCapture = row.latestCapture) : validated.latestOf = world.latestOf := by
  funext object revisionId
  have found : validated.revision? object revisionId =
      (world.revision? object revisionId).map fun row => if meets row then change row else row := by
    rw [World.revision?, revisions]
    apply find?_updateWhere
    intro row _
    rw [(keeps row).1, (keeps row).2.1]
  rw [World.latestOf, World.latestOf, found]
  cases world.revision? object revisionId with
  | none => rfl
  | some row => cases met : meets row <;> simp [met, (keeps row).2.2]

/-- The row of an object after the validation of its HEAD. -/
def World.Committing.confirm (commit : World.Committing) (row : ObjectRow) : ObjectRow :=
  { row with
    validatedAt := some commit.now
    pending := false
    version := row.version + 1
    desiredHeadRevision := some commit.publication.record.revisionId }

/-- A repeated publication, table by table. -/
theorem commitDuplicate_eq {commit : World.Committing} {old : CaptureRow} :
    ∃ revisions jobs history, ({ world with revisions } : World).latestOf = world.latestOf ∧
      world.commitDuplicate commit old = { world with
        objects :=
          if commit.publication.installHead && !attachmentIncomplete commit.publication.record then
            (world.updateObject commit.publication.record.object commit.confirm).objects
          else world.objects
        staging := world.archive.unstaged commit.staged
        stagedBytes := world.stagedBytes - commit.publication.totalSize
        deletions := world.deletions ++ commit.staged
        revisions, jobs, history } := by
  unfold World.commitDuplicate
  extract_lets current incomplete validated seen unstaged
  have validates : validated = { world with
      objects :=
        if commit.publication.installHead && !attachmentIncomplete commit.publication.record then
          (world.updateObject commit.publication.record.object commit.confirm).objects
        else world.objects } := by
    dsimp only [validated]
    split <;> rfl
  obtain ⟨revisions, sees, latest⟩ : ∃ revisions, seen = { validated with revisions } ∧
      ({ world with revisions } : World).latestOf = world.latestOf := by
    dsimp only [seen]
    split
    · exact ⟨world.revisions, by rw [validates], rfl⟩
    · refine ⟨_, rfl, ?_⟩
      rw [validates]
      apply latestOf_validate rfl
      intro row
      exact ⟨rfl, rfl, rfl⟩
  obtain ⟨jobs, history, finished⟩ := finishJob_eq _ commit
  refine ⟨revisions, jobs, history, latest, finished.trans ?_⟩
  dsimp only [unstaged]
  rw [sees, validates]
  rfl

theorem archives_commitDuplicate {publisher : Publisher} {commit : World.Committing} {old : CaptureRow}
    (member : publisher ∈ world.publishers) (publication : commit.publication = publisher.publication)
    (staged : commit.staged = publisher.staged) (nonempty : publisher.staged ≠ [])
    (reserved : ∀ blob ∈ publisher.staged, world.archive.Staged blob.storageKey) :
    Archive.Changes sha256 spared world.archive (world.commitDuplicate commit old).archive := by
  obtain ⟨revisions, jobs, history, latest, equal⟩ := @commitDuplicate_eq world commit old
  by_cases validates : (commit.publication.installHead && !attachmentIncomplete commit.publication.record) = true
  · rw [if_pos validates] at equal
    have moved : Archive.Changes sha256 spared world.archive
        (world.updateObject commit.publication.record.object commit.confirm).archive := by
      apply archives_updateObject
      · intro row
        exact ⟨rfl, rfl, rfl⟩
      · intro row _
        exact Nat.le_succ _
    have repeats := @Archive.Change.duplicate sha256 spared
      (world.updateObject commit.publication.record.object commit.confirm).archive publisher member nonempty reserved
    rw [← staged, ← publication] at repeats
    rw [equal]
    apply moved.tail
    convert repeats using 1
    exact Archive.ext rfl rfl rfl latest rfl rfl rfl rfl rfl rfl rfl rfl rfl rfl rfl rfl rfl
  · rw [if_neg validates] at equal
    have repeats := @Archive.Change.duplicate sha256 spared world.archive publisher member nonempty reserved
    rw [← staged, ← publication] at repeats
    rw [equal]
    apply Relation.ReflTransGen.single
    convert repeats using 1
    exact Archive.ext rfl rfl rfl latest rfl rfl rfl rfl rfl rfl rfl rfl rfl rfl rfl rfl rfl

/-- One revision is looked up differently. -/
theorem latestOf_update {other : World} {row : RevisionRow} {id : ℕ} (latest : row.latestCapture = some id)
    (found : ∀ object revisionId, other.revision? object revisionId =
      if object = row.object ∧ revisionId = row.revisionId then some row else world.revision? object revisionId) :
    other.latestOf = Function.update world.latestOf row.object
      (Function.update (world.latestOf row.object) row.revisionId (some id)) := by
  funext object revisionId
  rw [World.latestOf, found]
  by_cases sameObject : object = row.object
  · subst sameObject
    rw [Function.update_self]
    by_cases sameRevision : revisionId = row.revisionId
    · subst sameRevision
      rw [Function.update_self, if_pos ⟨rfl, rfl⟩]
      exact latest
    · rw [Function.update_of_ne sameRevision, if_neg fun both => sameRevision both.2]
      rfl
  · rw [Function.update_of_ne sameObject, if_neg fun both => sameObject both.1]
    rfl

theorem latestOf_recordRevision {commit : World.Committing} {capture : CaptureRow} :
    (world.recordRevision commit capture).latestOf =
      if commit.preserveRevision then world.latestOf
      else Function.update world.latestOf commit.publication.record.object
        (Function.update (world.latestOf commit.publication.record.object) commit.publication.record.revisionId
          (some capture.id)) := by
  unfold World.recordRevision
  extract_lets record row
  cases preserved : commit.preserveRevision with
  | true => rfl
  | false =>
    simp only [Bool.false_eq_true, ↓reduceIte]
    split
    · next present =>
      apply @latestOf_update _ _ row _ rfl
      intro object revisionId
      rw [World.revision?, find?_updateWhere]
      · change (world.revision? object revisionId).map _ = _
        cases found : world.revision? object revisionId with
        | none =>
          rw [if_neg]
          · rfl
          · rintro ⟨rfl, rfl⟩
            rw [found] at present
            cases present
        | some old =>
          have named : old.object = object ∧ old.revisionId = revisionId := by simpa using List.find?_some found
          simp only [Option.map_some, named.1, named.2, Bool.and_eq_true, beq_iff_eq]
          exact apply_ite some _ _ _
      · intro old met
        simp only [Bool.and_eq_true, beq_iff_eq] at met
        simp [row, met.1, met.2]
    · next absent =>
      apply @latestOf_update _ _ row _ rfl
      intro object revisionId
      rw [World.revision?, List.find?_append]
      change (world.revision? object revisionId).or _ = _
      by_cases same : object = row.object ∧ revisionId = row.revisionId
      · obtain ⟨rfl, rfl⟩ := same
        rw [if_pos ⟨rfl, rfl⟩, Option.not_isSome_iff_eq_none.mp absent]
        simp [row]
      · rw [if_neg same]
        have other : ¬ (row.object = object ∧ row.revisionId = revisionId) := fun both =>
          same ⟨both.1.symm, both.2.symm⟩
        simp [other]

theorem recordRevision_eq {commit : World.Committing} {capture : CaptureRow} :
    world.recordRevision commit capture =
      { world with revisions := (world.recordRevision commit capture).revisions } := by
  unfold World.recordRevision
  dsimp only
  split
  · rfl
  · split <;> rfl

/-- The row of an object after a new capture. -/
def World.Committing.advance (commit : World.Committing) (id : ℕ) (row : ObjectRow) : ObjectRow :=
  { row with
    version := row.version + 1
    nextCapture := row.nextCapture + 1
    headCapture := if commit.publishHead then some id else row.headCapture
    validatedAt := if commit.publishHead then some commit.now else row.validatedAt
    pending := if commit.publishHead || commit.preserveRevision then false else row.pending
    desiredHeadRevision :=
      if commit.publishHead then some commit.publication.record.revisionId else row.desiredHeadRevision }

/-- A new capture, table by table. -/
theorem commitCapture_eq {commit : World.Committing} {source : Blob} :
    ∃ revisions jobs history, world.commitCapture commit source = { world with
      objects := (world.updateObject commit.publication.record.object (commit.advance source.storageKey)).objects
      captures := world.captures ++ [world.newCapture commit source]
      outbox := world.outbox ++ [⟨world.nextEvent, commit.publication.record.object, commit.object.version + 1,
        some source.storageKey, false, commit.publishHead, false⟩]
      nextEvent := world.nextEvent + 1
      rawBytes := world.rawBytes + commit.publication.totalSize
      stagedBytes := world.stagedBytes - commit.publication.totalSize
      historicalBytes := world.historicalBytes + world.historicalAdd commit
      staging := world.archive.unstaged commit.staged
      revisions, jobs, history } := by
  unfold World.commitCapture
  extract_lets current capture recorded headed
  obtain ⟨revisions, equal⟩ : ∃ revisions, recorded = { world with
      historicalBytes := world.historicalBytes + world.historicalAdd commit
      captures := world.captures ++ [capture]
      revisions } := ⟨_, recordRevision_eq⟩
  obtain ⟨jobs, history, finished⟩ := finishJob_eq _ commit
  refine ⟨revisions, jobs, history, finished.trans ?_⟩
  dsimp only [headed]
  rw [equal]
  rfl

theorem latestOf_commitCapture {commit : World.Committing} {source : Blob} :
    (world.commitCapture commit source).latestOf =
      if commit.preserveRevision then world.latestOf
      else Function.update world.latestOf commit.publication.record.object
        (Function.update (world.latestOf commit.publication.record.object) commit.publication.record.revisionId
          (some source.storageKey)) := by
  have finished : ∀ other : World, (other.finishJob commit).latestOf = other.latestOf := fun other =>
    congrArg Archive.latest archive_finishJob
  unfold World.commitCapture
  rw [finished]
  exact latestOf_recordRevision

/-- A column of an object after a new capture. -/
theorem column_commitCapture {β : Type} (column : Option ObjectRow → β) {commit : World.Committing} {source : Blob}
    {row : ObjectRow} (found : world.object? commit.publication.record.object = some row) :
    (fun other => column ((world.commitCapture commit source).object? other)) =
      Function.update (fun other => column (world.object? other)) commit.publication.record.object
        (column (some (commit.advance source.storageKey row))) := by
  obtain ⟨revisions, jobs, history, equal⟩ := @commitCapture_eq world commit source
  have updated := @column_updateObject world commit.publication.record.object (commit.advance source.storageKey) β column
    fun row => rfl
  rw [found] at updated
  rw [equal]
  exact updated

theorem archive_commitCapture {commit : World.Committing} {source : Blob}
    (found : world.object? commit.publication.record.object = some commit.object) :
    (world.commitCapture commit source).archive = { world.archive with
      version := Function.update world.versionOf commit.publication.record.object
        (world.versionOf commit.publication.record.object + 1)
      head :=
        if commit.publishHead then
          Function.update world.headOf commit.publication.record.object (some source.storageKey)
        else world.headOf
      nextCapture := Function.update world.nextCaptureOf commit.publication.record.object
        (world.nextCaptureOf commit.publication.record.object + 1)
      latest :=
        if commit.preserveRevision then world.latestOf
        else Function.update world.latestOf commit.publication.record.object
          (Function.update (world.latestOf commit.publication.record.object) commit.publication.record.revisionId
            (some source.storageKey))
      captures := world.captures ++ [world.newCapture commit source]
      outbox := world.outbox ++ [⟨world.nextEvent, commit.publication.record.object, commit.object.version + 1,
        some source.storageKey, false, commit.publishHead, false⟩]
      nextEvent := world.nextEvent + 1
      rawBytes := world.rawBytes + commit.publication.totalSize
      stagedBytes := world.stagedBytes - commit.publication.totalSize
      historicalBytes :=
        world.historicalBytes + world.archive.historicalAdd commit.publication commit.publishHead
      staging := world.archive.unstaged commit.staged } := by
  have version : (world.commitCapture commit source).versionOf = Function.update world.versionOf
      commit.publication.record.object (world.versionOf commit.publication.record.object + 1) := by
    refine (column_commitCapture (fun row => (row.map ObjectRow.version).getD 0) found).trans ?_
    apply congrArg (Function.update _ _)
    rw [World.versionOf, found]
    rfl
  have nextCapture : (world.commitCapture commit source).nextCaptureOf = Function.update world.nextCaptureOf
      commit.publication.record.object (world.nextCaptureOf commit.publication.record.object + 1) := by
    refine (column_commitCapture (fun row => (row.map ObjectRow.nextCapture).getD 1) found).trans ?_
    apply congrArg (Function.update _ _)
    rw [World.nextCaptureOf, found]
    rfl
  have head : (world.commitCapture commit source).headOf =
      if commit.publishHead then
        Function.update world.headOf commit.publication.record.object (some source.storageKey)
      else world.headOf := by
    refine (column_commitCapture (fun row => row.bind ObjectRow.headCapture) found).trans ?_
    rw [Option.bind_some, World.Committing.advance]
    cases commit.publishHead with
    | true => rfl
    | false =>
      apply Function.update_eq_self_iff.mpr
      rw [found]
      rfl
  have historical : world.historicalAdd commit = world.archive.historicalAdd commit.publication commit.publishHead := by
    change _ = if commit.publishHead then
      (((world.headOf commit.publication.record.object).bind world.capture?).map CaptureRow.size).getD 0 else _
    rw [World.headOf, found]
    rfl
  have latest := @latestOf_commitCapture world commit source
  obtain ⟨revisions, jobs, history, equal⟩ := @commitCapture_eq world commit source
  rw [historical] at equal
  rw [equal] at version nextCapture head latest ⊢
  exact Archive.ext version head nextCapture latest rfl rfl rfl rfl rfl rfl rfl rfl rfl rfl rfl rfl rfl

theorem archives_commitCapture {publisher : Publisher} {commit : World.Committing} {source : Blob} {rest : List Blob}
    (member : publisher ∈ world.publishers) (publication : commit.publication = publisher.publication)
    (staged : commit.staged = publisher.staged) (first : publisher.staged = source :: rest)
    (found : world.object? commit.publication.record.object = some commit.object)
    (reserved : ∀ blob ∈ publisher.staged, world.archive.Staged blob.storageKey) :
    Archive.Changes sha256 spared world.archive (world.commitCapture commit source).archive := by
  have adds : world.archive.Adds publisher (world.newCapture commit source) := by
    constructor
    · exact congrArg (·.record.object) publication
    · exact congrArg (·.record) publication
    · exact congrArg (·.processorVersion) publication
    · change commit.object.nextCapture = world.nextCaptureOf commit.publication.record.object
      rw [World.nextCaptureOf, found]
      rfl
    · rfl
    · change source :: commit.staged.drop 1 = publisher.staged
      rw [staged, first]
      rfl
  have given := @Archive.Change.capture sha256 spared world.archive publisher (world.newCapture commit source)
    commit.publishHead commit.preserveRevision ⟨world.nextEvent, commit.publication.record.object,
      commit.object.version + 1, some source.storageKey, false, commit.publishHead, false⟩ member reserved adds rfl
  rw [← publication, ← staged] at given
  rw [archive_commitCapture found]
  exact .single given

theorem publishers_commitDuplicate {commit : World.Committing} {old : CaptureRow} :
    (world.commitDuplicate commit old).publishers = world.publishers := by
  obtain ⟨revisions, jobs, history, -, equal⟩ := @commitDuplicate_eq world commit old
  rw [equal]

theorem publishers_commitCapture {commit : World.Committing} {source : Blob} :
    (world.commitCapture commit source).publishers = world.publishers := by
  obtain ⟨revisions, jobs, history, equal⟩ := @commitCapture_eq world commit source
  rw [equal]

theorem archives_commitPublication {index : ℕ} {publisher : Publisher} (found : world.publishers[index]? = some publisher)
    (committed : world.commitPublication sha256 publisher = .ok next) :
    Archive.Changes sha256 spared world.archive next.archive ∧ next.publishers = world.publishers := by
  obtain ⟨present, commit, source, facts, outcome⟩ := commitPublication_ok committed
  obtain ⟨objects, tables, -, -⟩ := facts.objects
  obtain ⟨rest, first⟩ := facts.source
  have archive : present.archive = world.archive := by
    rw [facts.ensured, archive_ensureObject]
  have row : present.object? commit.publication.record.object = some commit.object := by
    rw [facts.publication, facts.ensured, facts.row, object?_ensureObject, if_pos rfl]
  have publishers : present.publishers = world.publishers := by
    rw [tables]
  have member : publisher ∈ present.publishers := by
    rw [publishers]
    exact List.mem_of_getElem? found
  have reserved : ∀ blob ∈ publisher.staged, present.archive.Staged blob.storageKey := by
    rw [archive]
    exact facts.reserved
  rw [← archive, ← publishers]
  rcases outcome with ⟨old, -, -, rfl⟩ | ⟨-, rfl⟩
  · constructor
    · exact archives_commitDuplicate member facts.publication facts.staged (by simp [first]) reserved
    · exact publishers_commitDuplicate
  · constructor
    · exact archives_commitCapture member facts.publication facts.staged first row reserved
    · exact publishers_commitCapture

theorem archives_revalidate {object : ObjectId} {captureId expectedVersion : ℕ}
    (revalidated : world.revalidate object captureId expectedVersion = .ok next) :
    Archive.Changes sha256 spared world.archive next.archive := by
  simp only [World.revalidate, bind_eq_ok, ite_error_eq_ok] at revalidated
  obtain ⟨-, -, -, -, revalidated⟩ := revalidated
  cases revalidated
  apply archives_updateObjects
  · intro row
    exact ⟨rfl, rfl, rfl⟩
  · intro _ row _ _
    exact Nat.le_succ _

theorem archives_withdraw {object : ObjectId} {expectedVersion : ℕ}
    (withdrawn : world.withdraw object expectedVersion = .ok next) :
    Archive.Changes sha256 spared world.archive next.archive := by
  simp only [World.withdraw, bind_eq_ok, ite_error_eq_ok] at withdrawn
  obtain ⟨-, -, -, -, withdrawn⟩ := withdrawn
  cases withdrawn
  have raised : Archive.Changes sha256 spared world.archive (world.updateObject object fun row =>
      { row with withdrawn := true, pending := row.currentInventoryConflict, version := row.version + 1 }).archive := by
    apply archives_updateObject
    · intro row
      exact ⟨rfl, rfl, rfl⟩
    · intro row _
      exact Nat.le_succ _
  exact raised.tail (.event ⟨world.nextEvent, object, expectedVersion + 1, none, true, true, false⟩ rfl)

end Publication

/-! ## Maintenance -/

section Maintenance

variable {world next : World} {sha256 : Bytes → Bytes} {spared : Prop}

theorem references_iff {key : ℕ} : world.references key = true ↔ world.archive.Referenced key := by
  simp [World.references, Archive.Referenced, World.archive]

theorem archives_cleanup {intents jobs stages : List ℕ} {held : Bool} :
    Archive.Changes sha256 spared world.archive (world.cleanup intents jobs stages held).archive := by
  let keep := fun blob : Blob => !(intents.contains blob.storageKey && world.references blob.storageKey)
  let expired := fun row : StageRow => stages.contains row.blob.storageKey && decide (row.createdAt < world.now - 3600)
  let kept := world.deletions.filter keep
  let moved := (world.staging.filter expired).map (·.blob)
  have forgotten : Archive.Change sha256 spared world.archive { world.archive with deletions := kept } := by
    apply Archive.Change.forget
    intro blob _ dropped
    apply (references_iff).mp
    simp only [keep, Bool.not_eq_false', Bool.and_eq_true] at dropped
    exact dropped.2
  have expires : Archive.Change sha256 spared { world.archive with deletions := kept } { world.archive with
      deletions := kept ++ moved.filter fun blob => !kept.any (·.storageKey == blob.storageKey)
      staging := world.staging.filter fun row => !expired row
      stagedBytes := world.stagedBytes - ((world.staging.filter expired).map fun row => (row.blob.size : ℤ)).sum } := by
    apply Archive.Change.expire
    intro key
    constructor
    · rintro ⟨blob, member, rfl⟩
      rcases List.mem_append.mp member with old | new
      · exact .inl ⟨blob, old, rfl⟩
      · obtain ⟨row, taken, rfl⟩ := List.mem_map.mp (List.mem_filter.mp new).1
        obtain ⟨present, elapsed⟩ := List.mem_filter.mp taken
        exact .inr ⟨row, present, elapsed, rfl⟩
    · rintro (⟨blob, old, rfl⟩ | ⟨row, present, elapsed, rfl⟩)
      · exact ⟨blob, List.mem_append_left _ old, rfl⟩
      · by_cases already : kept.any (·.storageKey == row.blob.storageKey) = true
        · obtain ⟨blob, old, same⟩ := List.any_eq_true.mp already
          exact ⟨blob, List.mem_append_left _ old, beq_iff_eq.mp same⟩
        · refine ⟨row.blob, List.mem_append_right _ (List.mem_filter.mpr ⟨?_, by simpa using already⟩), rfl⟩
          exact List.mem_map_of_mem (List.mem_filter.mpr ⟨present, elapsed⟩)
  have reached : (world.cleanup intents jobs stages held).archive = { world.archive with
      deletions := kept ++ moved.filter fun blob => !kept.any (·.storageKey == blob.storageKey)
      staging := world.staging.filter fun row => !expired row
      stagedBytes := world.stagedBytes - ((world.staging.filter expired).map fun row => (row.blob.size : ℤ)).sum } := by
    have sum : moved.map (fun blob => (blob.size : ℤ)) =
        (world.staging.filter expired).map fun row => (row.blob.size : ℤ) := List.map_map
    rw [← sum]
    rfl
  rw [reached]
  exact (Relation.ReflTransGen.single forgotten).tail expires

theorem archives_readQueue {batch : List ℕ} :
    Archive.Changes sha256 spared world.archive (world.readQueue batch).archive := by
  apply Relation.ReflTransGen.single
  apply Archive.Change.read
  intro key member
  obtain ⟨blob, within, rfl⟩ := List.mem_map.mp member
  exact ⟨blob, (List.mem_filter.mp within).1, rfl⟩

theorem archives_maintainStep {index : ℕ} {maintainer : Maintainer} {event : Event}
    (found : world.maintainers[index]? = some maintainer) :
    Archive.Changes sha256 spared world.archive (world.maintainStep index maintainer event).archive := by
  unfold World.maintainStep
  split
  · next removed failed =>
    split
    · next key rest => exact .single (.delete index key rest removed failed found)
    · exact .refl
  · next removed failed =>
    split
    · next key rest => exact .single (.remove index key rest removed failed found)
    · exact .refl
  · exact .refl

end Maintenance

/-! ## Steps -/

/-- A blob that a step stores has a row that stays until the blob is deleted. -/
def World.Spared (world : World) : Event → Prop
  | .write index stored failed => ∀ publisher ∈ world.publishers[index]?, ∀ next, publisher.phase = .writing next →
      ∀ blob ∈ publisher.staged[next]?, (stored || !failed) = true → world.archive.Spares blob.storageKey
  | _ => True

section Steps

variable {world : World} {sha256 : Bytes → Bytes}

theorem archives_writeBlob {spared : Prop} {index next : ℕ} {publisher : Publisher} {blob : Blob} {stored failed : Bool}
    (found : world.publishers[index]? = some publisher)
    (spares : (stored || !failed) = true → spared → world.archive.Spares blob.storageKey) :
    Archive.Changes sha256 spared world.archive (world.writeBlob index publisher next blob stored failed).archive := by
  unfold World.writeBlob
  by_cases present : (stored || !failed) = true
  · rw [if_pos present]
    apply (Relation.ReflTransGen.single (Archive.Change.write blob.storageKey (spares present))).tail
    exact .progress index publisher _ found
  · rw [if_neg present]
    exact .single (.progress index publisher _ found)

theorem archives_publishStep {index : ℕ} {publisher : Publisher} {event : Event}
    (found : world.publishers[index]? = some publisher)
    (own : ∀ other stored failed, event = .write other stored failed → other = index) :
    Archive.Changes sha256 (world.Spared event) world.archive (world.publishStep sha256 index publisher event).archive := by
  unfold World.publishStep
  split
  · next generations =>
    split
    · cases reserved : world.reserve sha256 index publisher generations with
      | ok next => exact archives_reserve found reserved
      | error error => exact .single (.progress index publisher .finished found)
    · exact .refl
  · next other stored failed =>
    obtain rfl := own _ _ _ rfl
    split
    · next next writing =>
      split
      · next blob first =>
        apply archives_writeBlob found
        intro present spares
        exact spares publisher found next writing blob first present
      · exact .refl
    · exact .refl
  · split
    · split
      · cases committed : world.commitPublication sha256 publisher with
        | ok next =>
          obtain ⟨changes, publishers⟩ := archives_commitPublication found committed
          refine changes.tail (.progress index publisher .finished ?_)
          change next.publishers[index]? = _
          rw [publishers]
          exact found
        | error error => exact .single (.progress index publisher .finished found)
      · exact .refl
    · exact .refl
  · exact .single (.progress index publisher .finished found)
  · exact .refl

/-- Every step is a chain of changes of the archive. -/
theorem archives_step (parsers : Parsers) (sha256 : Bytes → Bytes) (event : Event) :
    Archive.Changes sha256 (world.Spared event) world.archive (world.step parsers sha256 event).archive := by
  cases event with
  | tick seconds => exact .refl
  | configure maxJobAttempts => exact .refl
  | enqueue request => exact archives_enqueue
  | adoptBackgroundBudgetWait object revisionId effectiveDate observedVersion sourceMetadata launch owners =>
    simp only [World.step]
    cases adopted : world.adoptBackgroundBudgetWait object revisionId effectiveDate observedVersion sourceMetadata launch
      owners with
    | ok next => exact archives_adoptBackgroundBudgetWait adopted
    | error error => exact .refl
  | adoptExplicitJob id requestId recoveryAt owners =>
    simp only [World.step]
    cases adopted : world.adoptExplicitJob id requestId recoveryAt owners with
    | ok next => exact .of_eq (archives_adoptExplicitJob adopted)
    | error error => exact .refl
  | claim claim =>
    simp only [World.step]
    cases claimed : world.claimJobInner claim with
    | ok next => exact archives_claimJobInner claimed
    | error error => exact .refl
  | failClaim job retry =>
    simp only [World.step]
    cases failed : world.failClaim job retry with
    | ok next => exact .of_eq (archives_failClaim failed)
    | error error => exact .refl
  | releaseAdmissionWait job =>
    simp only [World.step]
    cases released : world.releaseAdmissionWait job with
    | ok next => exact .of_eq (archives_releaseAdmissionWait released)
    | error error => exact .refl
  | deferStorageClaim job =>
    simp only [World.step]
    cases deferred : world.deferStorageClaim job with
    | ok next => exact .of_eq (archives_deferStorageClaim deferred)
    | error error => exact .refl
  | deferBudgetClaim job resumeAt refund =>
    simp only [World.step]
    cases deferred : world.deferBudgetClaim job resumeAt refund with
    | ok next => exact .of_eq (archives_deferBudgetClaim deferred)
    | error error => exact .refl
  | beginPublish publication =>
    simp only [World.step]
    cases begun : world.beginPublish parsers sha256 publication with
    | ok next => exact archives_beginPublish begun
    | error error => exact .refl
  | write index stored failed =>
    simp only [World.step]
    split
    · next publisher found =>
      apply archives_publishStep found
      rintro _ _ _ ⟨⟩
      rfl
    · exact .refl
  | reserve index generations | commit index | abandon index =>
    simp only [World.step]
    split
    · next publisher found =>
      apply archives_publishStep found
      rintro _ _ _ ⟨⟩
    · exact .refl
  | revalidate object captureId expectedVersion =>
    simp only [World.step]
    cases revalidated : world.revalidate object captureId expectedVersion with
    | ok next => exact archives_revalidate revalidated
    | error error => exact .refl
  | withdraw object expectedVersion =>
    simp only [World.step]
    cases withdrawn : world.withdraw object expectedVersion with
    | ok next => exact archives_withdraw withdrawn
    | error error => exact .refl
  | cleanup intents jobs stages held => exact archives_cleanup
  | readQueue batch => exact archives_readQueue
  | deleteBlob index removed failed | removeDeletion index removed failed =>
    simp only [World.step]
    split
    · next maintainer found => exact archives_maintainStep found
    · exact .refl

end Steps

end OpenLegal.Corpus.Database
