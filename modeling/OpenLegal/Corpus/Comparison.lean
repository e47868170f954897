import OpenLegal.Corpus.Reachability
import OpenLegal.Corpus.RevisionCatalog

/-! # What a publication is compared with

A publication reads the capture that is current when it begins, and compares itself with it when it commits. The version
that it expects is looked at only then. A publication whose version the object has already had commits only if nothing
else has, so the capture is still the current one. One that is ahead of its object may be overtaken by another.
-/

namespace OpenLegal.Corpus.Database

open Rust Rust.Str Legal Theory

/-- A capture says what a publication says. -/
structure CaptureRow.Says (sha256 : Bytes → Bytes) (capture : CaptureRow) (publication : Publication) : Prop where
  record : sameRecord capture.record publication.record = true
  processorVersion : capture.processorVersion = publication.processorVersion
  source : capture.source.digest = sha256 publication.raw
  evidence : capture.evidence.map (·.digest) = publication.additionalEvidence.map sha256

namespace World

/-- The capture that is HEAD of an object. -/
def headCapture (world : World) (object : ObjectId) : Option CaptureRow := (world.headOf object).bind world.capture?

/-- What a publication that commits does to HEAD. -/
structure Publishes (sha256 : Bytes → Bytes) (world next : World) (publication : Publication) : Prop where
  incomplete : attachmentIncomplete publication.record = true → ∀ object head, world.headCapture object = some head →
    attachmentIncomplete head.record = false →
    next.headOf object = world.headOf object ∧ next.validatedAtOf object = world.validatedAtOf object
  complete : publication.installHead = true → attachmentIncomplete publication.record = false →
    ∃ capture ∈ next.captures, next.headOf publication.record.object = some capture.id ∧ capture.Says sha256 publication
  repeats : ∀ capture, (world.currentId publication).bind world.capture? = some capture → capture.Says sha256 publication →
    next.captures = world.captures ∧ next.outbox = world.outbox ∧ next.nextEvent = world.nextEvent

/-- HEAD of the object is complete, and was not when an incomplete publication of it began. -/
structure Completed (start world : World) (publication : Publication) : Prop where
  install : publication.installHead = true
  incomplete : attachmentIncomplete publication.record = true
  complete : ∃ head, world.headCapture publication.record.object = some head ∧ attachmentIncomplete head.record = false
  before : ∀ head, start.headCapture publication.record.object = some head → attachmentIncomplete head.record = true

/-- The current capture says what a publication says, and was not current when the publication began. -/
def Repeated (sha256 : Bytes → Bytes) (start world : World) (publication : Publication) : Prop :=
  ∃ capture, (world.currentId publication).bind world.capture? = some capture ∧ capture.Says sha256 publication ∧
    start.currentId publication ≠ some capture.id

section

variable (parsers : Parsers) (sha256 : Bytes → Bytes)

/-- The state in which a call of `publish` begins: the step adds it to the calls. -/
def begins (world : World) (event : Event) : List World :=
  if world.publishers.length < (world.step parsers sha256 event).publishers.length then [world] else []

/-- The states in which the calls of `publish` have begun, in the order of the calls. -/
def beginnings (world : World) : List Event → List World
  | [] => []
  | event :: events => world.begins parsers sha256 event ++ (world.step parsers sha256 event).beginnings events

end

end World

/-! ## Since the beginning -/

namespace Archive

variable {archive next : Archive} {sha256 : Bytes → Bytes} {spared : Prop}

/-- What is known of a publication since it began: what it found is still there, and is current as long as the version
has not moved. -/
structure Began (start archive : Archive) (publication : Publication) (previous : Option CaptureRow) : Prop where
  found : previous = start.current publication
  present : ∀ id, start.currentId publication = some id → ∃ capture ∈ start.captures, capture.id = id
  captures : start.captures <+: archive.captures
  version : start.version publication.record.object ≤ archive.version publication.record.object
  unmoved : archive.version publication.record.object = start.version publication.record.object →
    archive.current publication = start.current publication

theorem Catalog.present (catalog : archive.Catalog) {publication : Publication} {id : ℕ}
    (named : archive.currentId publication = some id) : ∃ capture ∈ archive.captures, capture.id = id := by
  rw [currentId] at named
  split at named
  · obtain ⟨old, member, same, -⟩ := catalog.heads _ _ named
    exact ⟨old, member, same⟩
  · obtain ⟨old, member, same, -⟩ := catalog.latests _ _ _ named
    exact ⟨old, member, same⟩

theorem Catalog.began (catalog : archive.Catalog) (publication : Publication) :
    Began archive archive publication (archive.current publication) :=
  ⟨rfl, fun _ named => catalog.present named, List.prefix_rfl, Nat.le_refl _, fun _ => rfl⟩

/-- A capture that is found stays the one that is found. -/
theorem find?_append_of_mem {captures : List CaptureRow} {id : ℕ} (present : ∃ capture ∈ captures, capture.id = id)
    (more : List CaptureRow) : (captures ++ more).find? (·.id = id) = captures.find? (·.id = id) := by
  obtain ⟨capture, member, same⟩ := present
  rw [List.find?_append]
  cases found : captures.find? (·.id = id) with
  | none =>
    have absent := List.find?_eq_none.mp found capture member
    simp [same] at absent
  | some other => rfl

/-- The current capture of another object is not touched. -/
theorem Catalog.current_capture (catalog : archive.Catalog) {publication : Publication} {capture : CaptureRow}
    {publishHead keepRevision : Bool} (other : publication.record.object ≠ capture.object)
    (head : next.head =
      if publishHead then Function.update archive.head capture.object (some capture.id) else archive.head)
    (latest : next.latest =
      if keepRevision then archive.latest
      else Function.update archive.latest capture.object
        (Function.update (archive.latest capture.object) capture.record.revisionId (some capture.id)))
    (captures : next.captures = archive.captures ++ [capture]) : next.current publication = archive.current publication := by
  have sameHead : next.head publication.record.object = archive.head publication.record.object := by
    rw [head]
    cases publishHead with
    | true => exact Function.update_of_ne other _ _
    | false => rfl
  have sameLatest : next.latest publication.record.object = archive.latest publication.record.object := by
    rw [latest]
    cases keepRevision with
    | true => rfl
    | false => exact Function.update_of_ne other _ _
  have sameId : next.currentId publication = archive.currentId publication := by
    rw [currentId, currentId, sameHead, sameLatest]
  rw [current, current, sameId, captures]
  cases found : archive.currentId publication with
  | none => rfl
  | some id => exact find?_append_of_mem (catalog.present found) [capture]

namespace Began

variable {start : Archive} {publication : Publication} {previous : Option CaptureRow}

theorem change (began : Began start archive publication previous) (catalog : archive.Catalog)
    (change : Archive.Change sha256 spared archive next) : Began start next publication previous := by
  cases change with
  | observe version issued raises grows =>
    have raised := raises publication.record.object
    have known := began.version
    refine { began with version := known.trans raised, unmoved := fun same => began.unmoved ?_ }
    change version publication.record.object = _ at same
    omega
  | capture publisher capture publishHead keepRevision row member reserved adds sequence =>
    have known := began.version
    by_cases mine : publication.record.object = capture.object
    · -- the version has moved
      have raised : Function.update archive.version capture.object (archive.version capture.object + 1)
          publication.record.object = archive.version publication.record.object + 1 := by
        rw [mine, Function.update_self]
      refine { began with captures := began.captures.trans (List.prefix_append _ _), version := ?_, unmoved := ?_ }
      · change _ ≤ Function.update archive.version _ _ _
        rw [raised]
        omega
      · intro same
        change Function.update archive.version _ _ _ = _ at same
        rw [raised] at same
        omega
    · have kept : Function.update archive.version capture.object (archive.version capture.object + 1)
          publication.record.object = archive.version publication.record.object :=
        Function.update_of_ne mine _ _
      refine { began with captures := began.captures.trans (List.prefix_append _ _), version := ?_, unmoved := ?_ }
      · change _ ≤ Function.update archive.version _ _ _
        rw [kept]
        exact known
      · intro same
        change Function.update archive.version _ _ _ = _ at same
        rw [kept] at same
        rw [← began.unmoved same]
        exact catalog.current_capture mine rfl rfl rfl
  | _ => exact { began with }

theorem changes (began : Began start archive publication previous) (sound : archive.Sound sha256)
    (changes : Archive.Changes sha256 spared archive next) : Began start next publication previous := by
  have both : next.Sound sha256 ∧ Began start next publication previous := by
    induction changes with
    | refl => exact ⟨sound, began⟩
    | tail before change ih => exact ⟨ih.1.change change, ih.2.change ih.1.catalog change⟩
  exact both.2

/-- What a publication found is still there under its identifier. -/
theorem find? (began : Began start archive publication previous) {id : ℕ} (named : start.currentId publication = some id) :
    archive.captures.find? (·.id = id) = previous := by
  obtain ⟨more, grown⟩ := began.captures
  rw [← grown, find?_append_of_mem (began.present id named), began.found, current, named, Option.bind_some]

theorem previous_id (began : Began start archive publication previous) {old : CaptureRow} (found : previous = some old) :
    start.currentId publication = some old.id ∧ old ∈ archive.captures := by
  have first := began.found
  rw [found, current] at first
  obtain ⟨id, named, here⟩ := Option.bind_eq_some_iff.mp first.symm
  have same : old.id = id := by simpa using List.find?_some here
  exact ⟨same ▸ named, began.captures.subset (List.mem_of_find?_eq_some here)⟩

end Began

end Archive

/-! ## Commits -/

theorem sameRecord_refl (record : LegalRecord) : sameRecord record record = true := by
  simp [sameRecord]

/-- What a publication has reserved says what the publication says. -/
theorem Archive.Holds.digests {archive : Archive} {sha256 : Bytes → Bytes} {publisher : Publisher}
    (holds : archive.Holds sha256 publisher) {source : Blob} {rest : List Blob} (staged : publisher.staged = source :: rest) :
    source.digest = sha256 publisher.publication.raw ∧
      rest.map (·.digest) = publisher.publication.additionalEvidence.map sha256 := by
  have contents := congrArg (List.map Prod.fst) (holds.contents.resolve_left (by simp [staged]))
  rw [staged, Publication.inputs, List.map_map, List.map_map, List.map_cons, List.map_cons] at contents
  exact List.cons.inj contents

/-- No capture has the key of a reservation. -/
theorem Archive.Sound.unused {sha256 : Bytes → Bytes} {archive : Archive} (sound : archive.Sound sha256) {key : ℕ}
    (staged : archive.Staged key) {capture : CaptureRow} (member : capture ∈ archive.captures) : capture.id ≠ key := by
  intro same
  apply sound.keys.stagedReferenced key staged
  exact ⟨capture, member, capture.source, List.mem_cons_self, (sound.catalog.ids capture member).symm.trans same⟩

theorem validatedAtOf_ensureObject {world : World} {object : ObjectId} :
    (world.ensureObject object).1.validatedAtOf = world.validatedAtOf :=
  funext fun other => column_ensureObject (fun row => row.bind (·.validatedAt)) rfl other

theorem headOf_commitDuplicate {world : World} {commit : World.Committing} {old : CaptureRow} :
    (world.commitDuplicate commit old).headOf = world.headOf := by
  obtain ⟨revisions, jobs, history, -, equal⟩ := @commitDuplicate_eq world commit old
  rw [equal]
  by_cases validates : (commit.publication.installHead && !attachmentIncomplete commit.publication.record) = true
  · rw [if_pos validates]
    exact congrArg Archive.head (@archive_updateObjects world commit.confirm
      (fun row => row.object == commit.publication.record.object) fun row => ⟨rfl, rfl, rfl⟩)
  · rw [if_neg validates]
    rfl

/-- The capture that a publication of HEAD is compared with. -/
theorem current_of_install {publication : Publication} (install : publication.installHead = true) (world : World) :
    world.archive.current publication = world.headCapture publication.record.object := by
  rw [current_archive, World.currentId, if_pos install]
  rfl

section Commit

variable {sha256 : Bytes → Bytes} {start world next present : World} {publisher : Publisher} {commit : World.Committing}
  {source : Blob}

theorem Commits.archive (facts : Commits sha256 world publisher present commit source) : present.archive = world.archive := by
  rw [facts.ensured, archive_ensureObject]

theorem Commits.validatedAtOf (facts : Commits sha256 world publisher present commit source) :
    present.validatedAtOf = world.validatedAtOf := by
  rw [facts.ensured, validatedAtOf_ensureObject]

theorem Commits.present_row (facts : Commits sha256 world publisher present commit source) :
    present.object? commit.publication.record.object = some commit.object := by
  rw [facts.publication, facts.ensured, facts.row, object?_ensureObject, if_pos rfl]

theorem Commits.versionOf (facts : Commits sha256 world publisher present commit source) :
    world.versionOf publisher.publication.record.object = publisher.publication.expectedVersion := by
  rw [← facts.version, facts.row, ensureObject_eq, World.versionOf]
  cases world.object? publisher.publication.record.object <;> rfl

theorem Commits.captures (facts : Commits sha256 world publisher present commit source) :
    (present.commitCapture commit source).captures = world.captures ++ [present.newCapture commit source] := by
  have captures := congrArg Archive.captures (@archive_commitCapture present commit source facts.present_row)
  change (present.commitCapture commit source).captures = present.captures ++ [_] at captures
  rw [captures]
  exact congrArg (· ++ [_]) (congrArg Archive.captures facts.archive)

theorem Commits.headOf (facts : Commits sha256 world publisher present commit source) :
    (present.commitCapture commit source).headOf =
      if commit.publishHead then Function.update world.headOf publisher.publication.record.object (some source.storageKey)
      else world.headOf := by
  have after := congrArg Archive.head (@archive_commitCapture present commit source facts.present_row)
  have head : present.headOf = world.headOf := congrArg Archive.head facts.archive
  change (present.commitCapture commit source).headOf =
    if commit.publishHead then Function.update present.headOf _ _ else present.headOf at after
  rw [after, head, facts.publication]

/-- A publication leaves HEAD in place if it is incomplete and the capture that it found is complete. -/
theorem Commits.publishHead_iff (facts : Commits sha256 world publisher present commit source) :
    commit.publishHead = true ↔ publisher.publication.installHead = true ∧
      ¬(attachmentIncomplete publisher.publication.record = true ∧
        ∃ old, publisher.previous = some old ∧ attachmentIncomplete old.record = false) := by
  rw [World.Committing.publishHead, World.Committing.preserveHead, facts.publication, facts.previous]
  cases publisher.publication.installHead <;> cases attachmentIncomplete publisher.publication.record <;>
    cases publisher.previous <;> simp

section Overtaken

variable (began : Archive.Began start.archive world.archive publisher.publication publisher.previous)
  (facts : Commits sha256 world publisher present commit source)
include began facts

/-- A publication that the object has caught up with is compared with the current capture, if the version was not behind
when it began. -/
theorem current_of_le (known : publisher.publication.expectedVersion ≤ start.versionOf publisher.publication.record.object) :
    world.archive.current publisher.publication = start.archive.current publisher.publication := by
  apply began.unmoved
  have reached := facts.versionOf
  have least := began.version
  change start.versionOf _ ≤ world.versionOf _ at least
  change world.versionOf _ = start.versionOf _
  omega

theorem not_overtaken_of_le (known : publisher.publication.expectedVersion ≤ start.versionOf publisher.publication.record.object) :
    ¬World.Completed start world publisher.publication ∧ ¬World.Repeated sha256 start world publisher.publication := by
  have same := current_of_le began facts known
  constructor
  · rintro ⟨install, -, ⟨head, now, complete⟩, before⟩
    rw [current_of_install install, current_of_install install, now] at same
    rw [before head same.symm] at complete
    cases complete
  · rintro ⟨capture, current, -, moved⟩
    rw [← current_archive, same] at current
    exact moved (began.previous_id (began.found.trans current)).1

/-- A publication that says what the capture it found says has not been overtaken. -/
theorem not_overtaken_of_duplicates {old : CaptureRow} (previous : publisher.previous = some old)
    (duplicates : commit.duplicates present sha256 old = true) :
    ¬World.Completed start world publisher.publication ∧ ¬World.Repeated sha256 start world publisher.publication := by
  obtain ⟨named, -⟩ := began.previous_id previous
  have current : world.currentId publisher.publication = some old.id := by
    simp only [World.Committing.duplicates, facts.publication, Bool.and_eq_true, beq_iff_eq] at duplicates
    rw [← duplicates.2]
    exact (congrArg (Archive.currentId · publisher.publication) facts.archive).symm
  have same : world.archive.current publisher.publication = some old := by
    rw [current_archive, current, Option.bind_some, ← previous]
    exact began.find? named
  constructor
  · rintro ⟨install, -, ⟨head, now, complete⟩, before⟩
    rw [current_of_install install, now] at same
    cases same
    have found := began.found
    rw [previous, current_of_install install] at found
    rw [before old found.symm] at complete
    cases complete
  · rintro ⟨capture, now, -, moved⟩
    rw [← current_archive, same] at now
    cases now
    exact moved named

theorem publishes_duplicate (sound : world.archive.Sound sha256) (member : publisher ∈ world.publishers)
    {old : CaptureRow} (previous : publisher.previous = some old) (duplicates : commit.duplicates present sha256 old = true) :
    World.Publishes sha256 world (present.commitDuplicate commit old) publisher.publication := by
  obtain ⟨rest, staged⟩ := facts.source
  obtain ⟨-, digests⟩ := (sound.holds publisher member).digests staged
  obtain ⟨revisions, jobs, history, -, equal⟩ := @commitDuplicate_eq present commit old
  simp only [World.Committing.duplicates, facts.publication, facts.staged, staged, Bool.and_eq_true, beq_iff_eq,
    List.drop_one, List.tail_cons] at duplicates
  obtain ⟨⟨⟨⟨evidence, record⟩, processor⟩, digest⟩, current⟩ := duplicates
  rw [facts.publication] at equal
  constructor
  · intro incomplete object head _ _
    rw [incomplete, Bool.not_true, Bool.and_false, if_neg Bool.false_ne_true] at equal
    rw [equal]
    exact ⟨congrFun (congrArg Archive.head facts.archive) object, congrFun facts.validatedAtOf object⟩
  · intro install complete
    have captures : (present.commitDuplicate commit old).captures = world.captures := by
      rw [equal]
      exact congrArg Archive.captures facts.archive
    refine ⟨old, ?_, ?_, record, processor, digest, evidence.trans digests⟩
    · rw [captures]
      exact (began.previous_id previous).2
    · rw [World.currentId, if_pos install] at current
      rw [headOf_commitDuplicate]
      exact current
  · intro capture _ _
    rw [equal]
    exact ⟨congrArg Archive.captures facts.archive, congrArg Archive.outbox facts.archive,
      congrArg Archive.nextEvent facts.archive⟩

theorem publishes_capture (sound : world.archive.Sound sha256) (member : publisher ∈ world.publishers)
    (differs : ∀ old, publisher.previous = some old → commit.duplicates present sha256 old = false)
    (uncompleted : ¬World.Completed start world publisher.publication)
    (unrepeated : ¬World.Repeated sha256 start world publisher.publication) :
    World.Publishes sha256 world (present.commitCapture commit source) publisher.publication := by
  obtain ⟨rest, staged⟩ := facts.source
  obtain ⟨digest, digests⟩ := (sound.holds publisher member).digests staged
  have after := facts.headOf
  have validatedAfter :=
    @column_commitCapture present _ (fun row => row.bind (·.validatedAt)) commit source _ facts.present_row
  change (present.commitCapture commit source).validatedAtOf = Function.update present.validatedAtOf _ _ at validatedAfter
  constructor
  · intro incomplete object old found complete
    cases publishHead : commit.publishHead with
    | false =>
      rw [publishHead] at after
      have same : (commit.advance source.storageKey commit.object).validatedAt = commit.object.validatedAt := by
        rw [World.Committing.advance, publishHead]
        rfl
      have kept : Function.update present.validatedAtOf commit.publication.record.object
          ((some (commit.advance source.storageKey commit.object)).bind (·.validatedAt)) = present.validatedAtOf := by
        apply Function.update_eq_self_iff.mpr
        rw [World.validatedAtOf, facts.present_row]
        exact same
      rw [validatedAfter, after, kept, facts.validatedAtOf]
      exact ⟨rfl, rfl⟩
    | true =>
      rw [publishHead, if_pos rfl] at after
      by_cases mine : object = publisher.publication.record.object
      · -- a complete HEAD would have been preserved
        obtain ⟨install, unpreserved⟩ := facts.publishHead_iff.mp publishHead
        rw [mine] at found
        refine absurd ⟨install, incomplete, ⟨old, found, complete⟩, fun head before => ?_⟩ uncompleted
        rw [← current_of_install install, ← began.found] at before
        cases partly : attachmentIncomplete head.record with
        | true => rfl
        | false => exact absurd ⟨incomplete, head, before, partly⟩ unpreserved
      · rw [validatedAfter, after, facts.publication, Function.update_of_ne mine, Function.update_of_ne mine,
          facts.validatedAtOf]
        exact ⟨rfl, rfl⟩
  · intro install complete
    have publishHead : commit.publishHead = true := by
      refine facts.publishHead_iff.mpr ⟨install, fun preserved => ?_⟩
      rw [complete] at preserved
      cases preserved.1
    rw [if_pos publishHead] at after
    refine ⟨present.newCapture commit source, ?_, ?_, ?_⟩
    · rw [facts.captures]
      exact List.mem_append_right _ (List.mem_singleton_self _)
    · rw [after, Function.update_self]
      rfl
    · constructor
      · change sameRecord commit.publication.record _ = true
        rw [facts.publication]
        exact sameRecord_refl _
      · exact congrArg (·.processorVersion) facts.publication
      · exact digest
      · change (commit.staged.drop 1).map _ = _
        rw [facts.staged, staged]
        exact digests
  · intro capture current agrees
    obtain ⟨id, named, found⟩ := Option.bind_eq_some_iff.mp current
    have same : capture.id = id := by simpa using List.find?_some found
    subst same
    have known : present.currentId publisher.publication = some capture.id := by
      rw [← named]
      exact congrArg (Archive.currentId · publisher.publication) facts.archive
    -- the capture was current when the publication began, so it was compared with it
    have before : start.currentId publisher.publication = some capture.id := by
      by_contra moved
      exact unrepeated ⟨capture, current, agrees, moved⟩
    have duplicates := differs capture ((began.find? before).symm.trans found)
    simp [World.Committing.duplicates, facts.publication, facts.staged, staged, agrees.record, agrees.processorVersion,
      agrees.source, agrees.evidence, digests, known] at duplicates

/-- A publication that has been overtaken does what it should not. -/
theorem not_overtaken_of_publishes (sound : world.archive.Sound sha256)
    (publishes : World.Publishes sha256 world (present.commitCapture commit source) publisher.publication) :
    ¬World.Completed start world publisher.publication ∧ ¬World.Repeated sha256 start world publisher.publication := by
  obtain ⟨rest, staged⟩ := facts.source
  constructor
  · rintro ⟨install, incomplete, ⟨head, now, complete⟩, before⟩
    have publishHead : commit.publishHead = true := by
      refine facts.publishHead_iff.mpr ⟨install, ?_⟩
      rintro ⟨-, old, previous, finished⟩
      rw [began.found, current_of_install install] at previous
      rw [before old previous] at finished
      cases finished
    have kept := (publishes.incomplete incomplete _ head now complete).1
    rw [facts.headOf, if_pos publishHead, Function.update_self] at kept
    -- HEAD would have the key of a reservation
    obtain ⟨id, named, found⟩ := Option.bind_eq_some_iff.mp now
    rw [← kept] at named
    have same : head.id = id := by simpa using List.find?_some found
    refine sound.unused (facts.reserved source (by simp [staged])) (List.mem_of_find?_eq_some found) ?_
    rw [same, Option.some.inj named]
  · rintro ⟨capture, current, agrees, -⟩
    have kept := (publishes.repeats capture current agrees).1
    rw [facts.captures] at kept
    simp at kept

end Overtaken

theorem publishes_iff (sound : world.archive.Sound sha256) (member : publisher ∈ world.publishers)
    (began : Archive.Began start.archive world.archive publisher.publication publisher.previous)
    (committed : world.commitPublication sha256 publisher = .ok next) :
    (World.Publishes sha256 world next publisher.publication ↔
      ¬World.Completed start world publisher.publication ∧ ¬World.Repeated sha256 start world publisher.publication) ∧
    (publisher.publication.expectedVersion ≤ start.versionOf publisher.publication.record.object →
      World.Publishes sha256 world next publisher.publication) := by
  obtain ⟨present, commit, source, facts, outcome⟩ := commitPublication_ok committed
  have exactly : World.Publishes sha256 world next publisher.publication ↔
      ¬World.Completed start world publisher.publication ∧ ¬World.Repeated sha256 start world publisher.publication := by
    rcases outcome with ⟨old, previous, duplicates, rfl⟩ | ⟨differs, rfl⟩
    · exact ⟨fun _ => not_overtaken_of_duplicates began facts previous duplicates,
        fun _ => publishes_duplicate began facts sound member previous duplicates⟩
    · exact ⟨fun publishes => not_overtaken_of_publishes began facts sound publishes,
        fun free => publishes_capture began facts sound member differs free.1 free.2⟩
  exact ⟨exactly, fun known => exactly.mpr (not_overtaken_of_le began facts known)⟩

end Commit

/-! ## Runs -/

/-- The calls of `publish`: what they publish and what they found. -/
def World.calls (world : World) : List (Publication × Option CaptureRow) :=
  world.publishers.map fun publisher => (publisher.publication, publisher.previous)

/-- What is known of the calls of `publish` since they began. -/
def World.Tracked (starts : List World) (world : World) : Prop :=
  List.Forall₂ (fun start call => Archive.Began start.archive world.archive call.1 call.2) starts world.calls

section Runs

variable {parsers : Parsers} {sha256 : Bytes → Bytes} {world : World} {starts : List World} {event : Event}

theorem begins_of_calls (same : (world.step parsers sha256 event).calls = world.calls) :
    world.begins parsers sha256 event = [] := by
  have length := congrArg List.length same
  simp only [World.calls, List.length_map] at length
  exact if_neg (by omega)

theorem calls_publishStep {index : ℕ} {publisher : Publisher} (found : world.publishers[index]? = some publisher) :
    (world.publishStep sha256 index publisher event).calls = world.calls := by
  obtain ⟨staged, phase, publishers⟩ := @publishers_publishStep _ _ _ _ event found
  obtain ⟨bound, here⟩ := List.getElem?_eq_some_iff.mp found
  rw [World.calls, publishers, List.map_set]
  change (world.publishers.map _).set index ((fun publisher => (publisher.publication, publisher.previous)) publisher) = _
  rw [← List.map_set, ← here, List.set_getElem_self]
  rfl

/-- A step adds the call of a publication that begins, or none. -/
theorem calls_step (parsers : Parsers) (sha256 : Bytes → Bytes) (world : World) (event : Event) :
    (world.step parsers sha256 event).calls = world.calls ∨
      ∃ publication, (world.step parsers sha256 event).calls =
        world.calls ++ [(publication, world.archive.current publication)] := by
  cases publish : event.isPublish with
  | false =>
    left
    rw [World.calls, (leaves_step publish).publishers]
    rfl
  | true =>
    cases event with
    | beginPublish publication =>
      simp only [World.step]
      cases begun : world.beginPublish parsers sha256 publication with
      | ok next =>
        simp only [World.beginPublish, bind_eq_ok] at begun
        obtain ⟨_, -, previous, read, begun⟩ := begun
        cases begun
        rw [readPrevious_ok read]
        exact .inr ⟨publication, List.map_append⟩
      | error error => exact .inl rfl
    | reserve index generations | write index stored failed | commit index | abandon index =>
      simp only [World.step]
      split
      · next found => exact .inl (calls_publishStep found)
      · exact .inl rfl
    | _ => cases publish

theorem tracked_step (sound : world.archive.Sound sha256) (tracked : world.Tracked starts) :
    (world.step parsers sha256 event).Tracked (starts ++ world.begins parsers sha256 event) := by
  have changes := @archives_step world parsers sha256 event
  have kept := tracked.imp fun start call began => began.changes sound changes
  rcases calls_step parsers sha256 world event with same | ⟨publication, added⟩
  · rw [begins_of_calls same, List.append_nil, World.Tracked, same]
    exact kept
  · have grown : world.begins parsers sha256 event = [world] := by
      have length := congrArg List.length added
      simp only [World.calls, List.length_map, List.length_append, List.length_singleton] at length
      exact if_pos (by omega)
    rw [grown, World.Tracked, added]
    exact List.rel_append kept (.cons ((sound.catalog.began publication).changes sound changes) .nil)

theorem tracked_run (sound : world.archive.Sound sha256) (tracked : world.Tracked starts) (events : List Event) :
    (world.run parsers sha256 events).Tracked (starts ++ world.beginnings parsers sha256 events) := by
  induction events generalizing world starts with
  | nil =>
    rw [World.beginnings, List.append_nil]
    exact tracked
  | cons event events ih =>
    rw [World.beginnings, ← List.append_assoc]
    exact ih (sound.changes (archives_step parsers sha256 event)) (tracked_step sound tracked)

/-- The state in which a call began. -/
theorem World.Tracked.began (tracked : world.Tracked starts) {index : ℕ} {publisher : Publisher}
    (found : world.publishers[index]? = some publisher) : ∃ start, starts[index]? = some start ∧
      Archive.Began start.archive world.archive publisher.publication publisher.previous := by
  obtain ⟨bound, here⟩ := List.getElem?_eq_some_iff.mp found
  have length := tracked.length_eq
  rw [World.calls, List.length_map] at length
  have within : index < starts.length := by omega
  have began := tracked.get within (by rw [World.calls, List.length_map]; exact bound)
  simp only [World.calls, List.get_eq_getElem, List.getElem_map, here] at began
  exact ⟨starts[index], List.getElem?_eq_getElem within, began⟩

end Runs

/-- In every corpus that grows from an empty one the books are balanced and every step only adds captures and events. A
publication that commits treats HEAD as it should exactly if HEAD has not become complete and no capture that says the same
has become current since it began, and always if the version it expects was not ahead of the object then. -/
theorem publication_accounting (parsers : Parsers) (sha256 : Bytes → Bytes) (now maxJobAttempts : ℕ)
    (maxRawBytes : Option ℕ) (events : List Event) :
    let empty := World.initial now maxJobAttempts maxRawBytes
    let world := empty.run parsers sha256 events
    world.Balanced ∧ (∀ event, world.Appends (world.step parsers sha256 event)) ∧
      ∀ (index : ℕ) (publisher : Publisher), world.publishers[index]? = some publisher →
        ∃ start, (empty.beginnings parsers sha256 events)[index]? = some start ∧
          ∀ next, world.commitPublication sha256 publisher = .ok next →
            (World.Publishes sha256 world next publisher.publication ↔
              ¬World.Completed start world publisher.publication ∧
                ¬World.Repeated sha256 start world publisher.publication) ∧
            (publisher.publication.expectedVersion ≤ start.versionOf publisher.publication.record.object →
              World.Publishes sha256 world next publisher.publication) := by
  intro empty world
  have sound := sound_run parsers sha256 now maxJobAttempts maxRawBytes events
  have none : empty.Tracked [] := .nil
  have tracked := @tracked_run parsers sha256 empty [] (Archive.sound_initial sha256 now maxJobAttempts maxRawBytes) none events
  refine ⟨sound.balanced, appends_step sound parsers, fun index publisher found => ?_⟩
  obtain ⟨start, there, began⟩ := tracked.began found
  exact ⟨start, there, fun next committed => publishes_iff sound (List.mem_of_getElem? found) began committed⟩

namespace Sample

/-- A partial observation whose version the object has not had yet. -/
def earlyPublication : Publication :=
  { publication with
    record := { record with metadata := .insert ∅ attachmentStatus "incomplete".toList }
    expectedVersion := 1 }

/-- The early publication begins first, and a complete one commits before it does. -/
def overtaken : List Event :=
  [.beginPublish earlyPublication, .beginPublish publication, .reserve 1 [7], .write 1 true false, .commit 1, .reserve 0 [8],
    .write 0 true false]

/-- The partial observation replaces the complete HEAD. -/
theorem early_replaces_complete : ¬∀ (parsers : Parsers) (sha256 : Bytes → Bytes) (now maxJobAttempts : ℕ)
    (maxRawBytes : Option ℕ) (events : List Event),
    let world := (World.initial now maxJobAttempts maxRawBytes).run parsers sha256 events
    ∀ publisher ∈ world.publishers, ∀ next, world.commitPublication sha256 publisher = .ok next →
      World.Publishes sha256 world next publisher.publication := by
  intro accounting
  have publishes := accounting lawParsers id 1000 3 none overtaken
  dsimp only at publishes
  have partly : ((World.initial 1000 3 none).run lawParsers id overtaken).publishers[0]?.map
      (attachmentIncomplete ·.publication.record) = some true := by decide +kernel
  have before : ((World.initial 1000 3 none).run lawParsers id overtaken).headOf statute = some 7 := by decide +kernel
  have complete : (((World.initial 1000 3 none).run lawParsers id overtaken).headCapture statute).map
      (attachmentIncomplete ·.record) = some false := by decide +kernel
  have after : (((World.initial 1000 3 none).run lawParsers id overtaken).publishers[0]?.bind fun publisher =>
      (((World.initial 1000 3 none).run lawParsers id overtaken).commitPublication id publisher).toOption.map
        (·.headOf statute)) = some (some 8) := by decide +kernel
  generalize (World.initial 1000 3 none).run lawParsers id overtaken = world at publishes partly before complete after
  obtain ⟨publisher, found, incomplete⟩ := Option.map_eq_some_iff.mp partly
  obtain ⟨head, now, finished⟩ := Option.map_eq_some_iff.mp complete
  rw [found, Option.bind_some] at after
  cases committed : world.commitPublication id publisher with
  | error error =>
    rw [committed] at after
    cases after
  | ok next =>
    have moved : next.headOf statute = some 8 := by
      rw [committed] at after
      exact Option.some.inj after
    have kept := (publishes publisher (List.mem_of_getElem? found) next committed).incomplete incomplete statute head now finished
    rw [before, moved] at kept
    cases kept.1

end Sample

end OpenLegal.Corpus.Database
