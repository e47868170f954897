import OpenLegal.Corpus.Accounting
import OpenLegal.Corpus.Exclusion

/-! # Blobs within reach

A blob that is present should be referenced, reserved or queued for deletion, or nothing will ever remove it. A slow
publication can lose its reservation to `maintain` before it has written its blobs. If the deletion is carried out
before the blob is written, the blob stays without a row: the commit finds the reservation gone and fails, and does not
queue what was written.
-/

namespace OpenLegal.Corpus.Database

open Rust Rust.Str Legal Theory

/-- A storage key that a later step can find. -/
def Archive.Known (archive : Archive) (key : ℕ) : Prop :=
  archive.Referenced key ∨ archive.Staged key ∨ archive.Queued key

/-- Every blob has a row, and none is there whose row is about to be removed. -/
structure Archive.Reachable (archive : Archive) : Prop where
  known : ∀ key ∈ archive.blobs, archive.Known key
  removed : ∀ key, archive.Removing key → key ∉ archive.blobs

namespace Archive

variable {archive : Archive}

/-- The call that took the last step is the only one that may have come to a removal. -/
theorem removing_set {maintainers : List Maintainer} {index : ℕ} {maintainer : Maintainer} {key : ℕ} {rest : List ℕ}
    (held : (⟨key :: rest, true⟩ : Maintainer) ∈ maintainers.set index maintainer) :
    (⟨key :: rest, true⟩ : Maintainer) ∈ maintainers ∨ maintainer = ⟨key :: rest, true⟩ :=
  (List.mem_or_eq_of_mem_set held).imp_right Eq.symm

end Archive

namespace Archive.Reachable

variable {archive : Archive} {sha256 : Bytes → Bytes} {spared : Prop}

theorem change {next : Archive} (reachable : archive.Reachable) (keys : archive.Keys) (held : spared)
    (change : Archive.Change sha256 spared archive next) : next.Reachable := by
  cases change with
  | observe version issued raises grows => exact { reachable with }
  | event row sequence => exact { reachable with }
  | enter publication => exact { reachable with }
  | progress index publisher phase found => exact { reachable with }
  | reserve index publisher generations now found complete distinct fresh =>
    refine { reachable with known := ?_ }
    intro key member
    refine (reachable.known key member).imp_right (Or.imp_left ?_)
    rintro ⟨row, present, same⟩
    exact ⟨row, List.mem_append_left _ present, same⟩
  | write key stays =>
    have spares := stays held
    constructor
    · rintro other (_ | ⟨_, member⟩)
      · exact .inr (spares.imp_right And.left)
      · exact reachable.known other member
    · rintro other ⟨rest, removing⟩ (_ | ⟨_, member⟩)
      · rcases spares with staged | ⟨-, kept⟩
        · exact keys.stagedDiscarded key staged (.inr (.inl ⟨_, removing, List.mem_cons_self⟩))
        · exact kept ⟨rest, removing⟩
      · exact reachable.removed other ⟨rest, removing⟩ member
  | duplicate publisher member nonempty reserved =>
    refine { reachable with known := ?_ }
    intro key present
    refine (reachable.known key present).imp_right ?_
    rintro (staged | ⟨blob, queued, same⟩)
    · rcases staged_unstaged staged with ⟨blob, given, same⟩ | kept
      · exact .inr ⟨blob, List.mem_append_right _ given, same⟩
      · exact .inl kept
    · exact .inr ⟨blob, List.mem_append_left _ queued, same⟩
  | capture publisher capture publishHead keepRevision row member reserved adds sequence =>
    refine { reachable with known := ?_ }
    intro key present
    rcases reachable.known key present with ⟨other, old, blob⟩ | staged | queued
    · exact .inl ⟨other, List.mem_append_left _ old, blob⟩
    · rcases staged_unstaged staged with ⟨blob, given, same⟩ | kept
      · refine .inl ⟨capture, List.mem_append_right _ (List.mem_singleton_self _), blob, ?_, same⟩
        rw [adds.blobs]
        exact given
      · exact .inr (.inl kept)
    · exact .inr (.inr queued)
  | forget keep referenced =>
    refine { reachable with known := ?_ }
    intro key present
    rcases reachable.known key present with refers | staged | ⟨blob, queued, rfl⟩
    · exact .inl refers
    · exact .inr (.inl staged)
    · cases kept : keep blob with
      | true => exact .inr (.inr ⟨blob, List.mem_filter.mpr ⟨queued, kept⟩, rfl⟩)
      | false => exact .inl (referenced blob queued kept)
  | expire expired deletions queued =>
    refine { reachable with known := ?_ }
    intro key present
    rcases reachable.known key present with refers | ⟨row, staged, rfl⟩ | old
    · exact .inl refers
    · cases elapsed : expired row with
      | true => exact .inr (.inr ((queued _).mpr (.inr ⟨row, staged, elapsed, rfl⟩)))
      | false => exact .inr (.inl ⟨row, List.mem_filter.mpr ⟨staged, by simp [elapsed]⟩, rfl⟩)
    · exact .inr (.inr ((queued key).mpr (.inl old)))
  | read queue queued =>
    refine { reachable with removed := ?_ }
    rintro key ⟨rest, removing⟩
    rcases List.mem_append.mp removing with old | new
    · exact reachable.removed key ⟨rest, old⟩
    · simp at new
  | delete index key rest removed failed found =>
    have remain : ∀ other, other ∈ (if removed || !failed then archive.blobs.filter (· ≠ key) else archive.blobs) →
        other ∈ archive.blobs := by
      intro other
      split
      · exact fun member => (List.mem_filter.mp member).1
      · exact id
    constructor
    · intro other member
      exact reachable.known other (remain other member)
    · rintro other ⟨more, removing⟩ member
      rcases removing_set removing with old | new
      · exact reachable.removed other ⟨more, old⟩ (remain other member)
      · cases failed with
        | true => simp at new
        | false =>
          simp only [Bool.false_eq_true, ↓reduceIte, Maintainer.mk.injEq, List.cons.injEq, and_true] at new
          obtain ⟨rfl, -⟩ := new
          simp at member
  | remove index key rest removed failed found =>
    have gone := reachable.removed key ⟨rest, List.mem_of_getElem? found⟩
    constructor
    · intro other member
      rcases reachable.known other member with refers | staged | ⟨blob, queued, rfl⟩
      · exact .inl refers
      · exact .inr (.inl staged)
      · refine .inr (.inr ⟨blob, ?_, rfl⟩)
        have different : blob.storageKey ≠ key := fun same => gone (same ▸ member)
        split
        · exact List.mem_filter.mpr ⟨queued, by simpa using different⟩
        · exact queued
    · rintro other ⟨more, removing⟩
      rcases removing_set removing with old | new
      · exact reachable.removed other ⟨more, old⟩
      · cases failed <;> simp at new

theorem changes {next : Archive} (reachable : archive.Reachable) (keys : archive.Keys) (held : spared)
    (changes : Archive.Changes sha256 spared archive next) : next.Reachable ∧ next.Keys := by
  induction changes with
  | refl => exact ⟨reachable, keys⟩
  | tail before change ih => exact ⟨ih.1.change ih.2 held change, ih.2.change change⟩

end Archive.Reachable

/-- In every run that writes no blob whose rows are gone, every blob is referenced, reserved or queued for deletion. -/
theorem spared_blobs_known (parsers : Parsers) (sha256 : Bytes → Bytes) (now maxJobAttempts : ℕ) (maxRawBytes : Option ℕ)
    (events : List Event)
    (spared : Along (World.step parsers sha256) World.Spared (World.initial now maxJobAttempts maxRawBytes) events) :
    let world := (World.initial now maxJobAttempts maxRawBytes).run parsers sha256 events
    ∀ key ∈ world.blobs, world.archive.Known key := by
  have both := spared.invariant (fun world : World => world.archive.Reachable ∧ world.archive.Keys)
    (fun world event held allowed => held.1.changes held.2 allowed (archives_step parsers sha256 event))
    ⟨⟨fun _ member => absurd member List.not_mem_nil, fun _ _ member => absurd member List.not_mem_nil⟩,
      (Archive.sound_initial sha256 now maxJobAttempts maxRawBytes).keys⟩
  exact both.1.known

namespace Sample

def record : LegalRecord :=
  { object := statute, revisionId := ['1'], title := ['법'], body := ['가'], metadata := ∅, publicationDate := none
    effectiveDate := none, sourceUrl := "https://www.law.go.kr/".toList, representation := "json".toList, sections := [] }

def publication : Publication :=
  { record, raw := [1, 2], additionalEvidence := [], processorVersion := ['1'], retrievedAt := 1000, now := 1000
    expectedVersion := 0, installHead := true, jobId := none }

/-- The reservation expires and its deletion is carried out before the blob is written. The commit fails. -/
def slowPublication : List Event :=
  [.beginPublish publication, .reserve 0 [7], .tick 4000, .cleanup [] [] [7] false, .readQueue [7], .deleteBlob 0 true false,
    .removeDeletion 0 true false, .write 0 true false, .commit 0]

theorem unreachable_blob :
    let world := (World.initial 1000 3 none).run lawParsers id slowPublication
    (∀ publisher ∈ world.publishers, publisher.phase = .finished) ∧ ∃ key ∈ world.blobs, ¬ world.archive.Known key := by
  intro world
  have phases : world.publishers.map (·.phase) = [.finished] := by decide +kernel
  have blobs : world.blobs = [7] := by decide +kernel
  have rows : world.captures.length = 0 ∧ world.staging = [] ∧ world.deletions = [] := by decide +kernel
  clear_value world
  constructor
  · intro publisher member
    apply List.mem_singleton.mp
    rw [← phases]
    exact List.mem_map_of_mem member
  · refine ⟨7, by rw [blobs]; exact List.mem_singleton_self _, ?_⟩
    rintro (⟨capture, member, -⟩ | ⟨row, member, -⟩ | ⟨blob, member, -⟩)
    · change capture ∈ world.captures at member
      rw [List.length_eq_zero_iff.mp rows.1] at member
      cases member
    · change row ∈ world.staging at member
      rw [rows.2.1] at member
      cases member
    · change blob ∈ world.deletions at member
      rw [rows.2.2] at member
      cases member

/-- The blob is written in time, and the reservation expires before the commit. -/
def lateCommit : List Event :=
  [.beginPublish publication, .reserve 0 [7], .write 0 true false, .tick 4000, .cleanup [] [] [7] false, .commit 0]

theorem spared_blobs_known_late_commit :
    let world := (World.initial 1000 3 none).run lawParsers id lateCommit
    world.blobs = [7] ∧ ∀ key ∈ world.blobs, world.archive.Known key := by
  refine ⟨by decide +kernel, ?_⟩
  apply spared_blobs_known
  refine ⟨trivial, trivial, ?_, trivial, trivial, trivial, trivial⟩
  intro publisher found next writing blob first present
  have reserved : ((World.initial 1000 3 none).run lawParsers id [.beginPublish publication, .reserve 0 [7]]).publishers.map
      (·.staged.map (·.storageKey)) = [[7]] := by decide +kernel
  have staged : ((World.initial 1000 3 none).run lawParsers id [.beginPublish publication, .reserve 0 [7]]).staging.map
      (·.blob.storageKey) = [7] := by decide +kernel
  have keys : publisher.staged.map (·.storageKey) ∈ [[7]] := by
    rw [← reserved]
    exact List.mem_map_of_mem (List.mem_of_getElem? found)
  have key : blob.storageKey ∈ [7] := by
    rw [← List.mem_singleton.mp keys]
    exact List.mem_map_of_mem (List.mem_of_getElem? first)
  rw [← staged] at key
  obtain ⟨row, member, same⟩ := List.mem_map.mp key
  exact .inl ⟨row, member, same⟩

end Sample

end OpenLegal.Corpus.Database
