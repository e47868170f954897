import OpenLegal.Corpus.Archive
import Mathlib.Algebra.BigOperators.Ring.Finset

/-! # The life of a storage key

A storage key is reserved under a fresh generation, and then it is either referenced by a capture or given up for
deletion. No key is ever two of these at a time, so what is deleted is not referenced.
-/

namespace OpenLegal.Corpus.Database

open Rust Rust.Str Legal Theory

/-- Every key is reserved, referenced or discarded, and nothing else. -/
structure Archive.Keys (archive : Archive) : Prop where
  keyed : Keyed (fun row : StageRow => row.blob.storageKey) archive.staging
  stagedIssued : ∀ key, archive.Staged key → key ∈ archive.issued
  referencedIssued : ∀ key, archive.Referenced key → key ∈ archive.issued
  discardedIssued : ∀ key, archive.Discarded key → key ∈ archive.issued
  stagedReferenced : ∀ key, archive.Staged key → ¬ archive.Referenced key
  stagedDiscarded : ∀ key, archive.Staged key → ¬ archive.Discarded key
  referencedDiscarded : ∀ key, archive.Referenced key → ¬ archive.Discarded key

/-- What a call of `publish` has reserved: fresh keys for its inputs, and the rows that are left of them. -/
structure Archive.Holds (archive : Archive) (sha256 : Bytes → Bytes) (publisher : Publisher) : Prop where
  issued : ∀ blob ∈ publisher.staged, blob.storageKey ∈ archive.issued
  distinct : (publisher.staged.map (·.storageKey)).Nodup
  contents : publisher.staged = [] ∨ publisher.staged.map (fun blob => (blob.digest, blob.size)) =
    publisher.publication.inputs.map fun input => (sha256 input, input.length)
  rows : ∀ blob ∈ publisher.staged, ∀ row ∈ archive.staging, row.blob.storageKey = blob.storageKey → row.blob = blob

namespace Archive

variable {archive : Archive}

theorem mem_unstaged {staged : List Blob} {row : StageRow} :
    row ∈ archive.unstaged staged ↔ row ∈ archive.staging ∧ ∀ blob ∈ staged, blob.storageKey ≠ row.blob.storageKey := by
  simp [unstaged]

theorem staged_unstaged {staged : List Blob} {key : ℕ} (held : archive.Staged key) :
    (∃ blob ∈ staged, blob.storageKey = key) ∨ ∃ row ∈ archive.unstaged staged, row.blob.storageKey = key := by
  obtain ⟨row, member, rfl⟩ := held
  by_cases given : ∃ blob ∈ staged, blob.storageKey = row.blob.storageKey
  · exact .inl given
  · exact .inr ⟨row, (mem_unstaged).mpr ⟨member, fun blob within same => given ⟨blob, within, same⟩⟩, rfl⟩

/-- The call that took the last step is the only one whose queue may have changed. -/
theorem mem_queue_set {maintainers : List Maintainer} {index key : ℕ} {maintainer : Maintainer}
    (held : ∃ other ∈ maintainers.set index maintainer, key ∈ other.queue) :
    (∃ other ∈ maintainers, key ∈ other.queue) ∨ key ∈ maintainer.queue := by
  obtain ⟨other, member, queued⟩ := held
  rcases List.mem_or_eq_of_mem_set member with old | rfl
  · exact .inl ⟨other, old, queued⟩
  · exact .inr queued

end Archive

namespace Publication

variable {sha256 : Bytes → Bytes} {publication : Publication} {generations : List ℕ}

theorem map_key_blobs (complete : generations.length = publication.inputs.length) :
    (publication.blobs sha256 generations).map (·.storageKey) = generations := by
  rw [blobs, List.map_zipWith]
  apply List.ext_getElem
  · simp [complete]
  · intro index _ _
    simp

theorem map_contents_blobs (complete : generations.length = publication.inputs.length) :
    (publication.blobs sha256 generations).map (fun blob => (blob.digest, blob.size)) =
      publication.inputs.map fun input => (sha256 input, input.length) := by
  rw [blobs, List.map_zipWith]
  apply List.ext_getElem
  · simp [complete]
  · intro index _ _
    simp

theorem sum_size {blobs : List Blob} (contents : blobs.map (fun blob => (blob.digest, blob.size)) =
      publication.inputs.map fun input => (sha256 input, input.length)) :
    (blobs.map fun blob => (blob.size : ℤ)).sum = publication.totalSize := by
  have sizes := congrArg (List.map Prod.snd) contents
  simp only [List.map_map] at sizes
  have sum := congrArg List.sum (show blobs.map (·.size) = publication.inputs.map List.length from sizes)
  rw [totalSize, ← sum, Nat.cast_list_sum, List.map_map]
  rfl

end Publication

/-! ## Keys -/

namespace Archive.Keys

variable {archive next : Archive} {sha256 : Bytes → Bytes} {spared : Prop}

/-- Reservations are given up, or deletions are carried out. -/
theorem discard (keys : archive.Keys) (issued : next.issued = archive.issued) (captures : next.captures = archive.captures)
    (staging : next.staging.Sublist archive.staging)
    (discarded : ∀ key, next.Discarded key → archive.Discarded key ∨ (archive.Staged key ∧ ¬ next.Staged key)) :
    next.Keys := by
  have staged : ∀ key, next.Staged key → archive.Staged key := fun key ⟨row, member, same⟩ =>
    ⟨row, staging.subset member, same⟩
  have referenced : ∀ key, next.Referenced key → archive.Referenced key := by
    intro key held
    rw [Archive.Referenced, captures] at held
    exact held
  constructor
  · exact keys.keyed.sublist (staging.map _)
  · intro key held
    rw [issued]
    exact keys.stagedIssued key (staged key held)
  · intro key held
    rw [issued]
    exact keys.referencedIssued key (referenced key held)
  · intro key held
    rw [issued]
    rcases discarded key held with old | ⟨was, -⟩
    · exact keys.discardedIssued key old
    · exact keys.stagedIssued key was
  · intro key held refers
    exact keys.stagedReferenced key (staged key held) (referenced key refers)
  · intro key held gone
    rcases discarded key gone with old | ⟨-, lost⟩
    · exact keys.stagedDiscarded key (staged key held) old
    · exact lost held
  · intro key refers gone
    rcases discarded key gone with old | ⟨was, -⟩
    · exact keys.referencedDiscarded key (referenced key refers) old
    · exact keys.stagedReferenced key was (referenced key refers)

theorem reserve (keys : archive.Keys) {blobs : List Blob} {now : ℕ} {publishers : List Publisher} {bytes : ℤ}
    {generations : List ℕ} (named : blobs.map (·.storageKey) = generations) (distinct : generations.Nodup)
    (fresh : ∀ generation ∈ generations, generation ∉ archive.issued) :
    Archive.Keys { archive with
      issued := generations ++ archive.issued
      staging := archive.staging ++ blobs.map fun blob => ⟨blob, now⟩
      stagedBytes := bytes
      publishers } := by
  have new : ∀ blob ∈ blobs, blob.storageKey ∉ archive.issued := by
    intro blob member
    apply fresh
    rw [← named]
    exact List.mem_map_of_mem member
  have staged : ∀ key, (∃ row ∈ archive.staging ++ blobs.map fun blob => (⟨blob, now⟩ : StageRow),
      row.blob.storageKey = key) → archive.Staged key ∨ ∃ blob ∈ blobs, blob.storageKey = key := by
    rintro key ⟨row, member, rfl⟩
    rcases List.mem_append.mp member with old | added
    · exact .inl ⟨row, old, rfl⟩
    · obtain ⟨blob, within, rfl⟩ := List.mem_map.mp added
      exact .inr ⟨blob, within, rfl⟩
  constructor
  · rw [Keyed, List.map_append, List.map_map]
    apply keys.keyed.append
    · change (blobs.map (·.storageKey)).Nodup
      rw [named]
      exact distinct
    · intro key old added
      obtain ⟨row, member, rfl⟩ := List.mem_map.mp old
      obtain ⟨blob, within, same⟩ := List.mem_map.mp added
      apply new blob within
      rw [show blob.storageKey = row.blob.storageKey from same]
      exact keys.stagedIssued _ ⟨row, member, rfl⟩
  · intro key held
    rcases staged key held with old | ⟨blob, within, rfl⟩
    · exact List.mem_append_right _ (keys.stagedIssued key old)
    · apply List.mem_append_left
      rw [← named]
      exact List.mem_map_of_mem within
  · intro key held
    exact List.mem_append_right _ (keys.referencedIssued key held)
  · intro key held
    exact List.mem_append_right _ (keys.discardedIssued key held)
  · intro key held refers
    rcases staged key held with old | ⟨blob, within, rfl⟩
    · exact keys.stagedReferenced key old refers
    · exact new blob within (keys.referencedIssued _ refers)
  · intro key held gone
    rcases staged key held with old | ⟨blob, within, rfl⟩
    · exact keys.stagedDiscarded key old gone
    · exact new blob within (keys.discardedIssued _ gone)
  · exact keys.referencedDiscarded

/-- A capture refers to keys that were reserved. -/
theorem capture (keys : archive.Keys) {capture : CaptureRow} (issued : next.issued = archive.issued)
    (captures : next.captures = archive.captures ++ [capture]) (staging : next.staging = archive.unstaged capture.blobs)
    (discarded : ∀ key, next.Discarded key → archive.Discarded key)
    (reserved : ∀ blob ∈ capture.blobs, archive.Staged blob.storageKey) : next.Keys := by
  have staged : ∀ key, next.Staged key → archive.Staged key ∧ ∀ blob ∈ capture.blobs, blob.storageKey ≠ key := by
    rintro key ⟨row, member, rfl⟩
    rw [staging] at member
    obtain ⟨old, kept⟩ := (mem_unstaged).mp member
    exact ⟨⟨row, old, rfl⟩, kept⟩
  have referenced : ∀ key, next.Referenced key →
      archive.Referenced key ∨ ∃ blob ∈ capture.blobs, blob.storageKey = key := by
    rintro key ⟨other, member, blob, within, same⟩
    rw [captures] at member
    rcases List.mem_append.mp member with old | added
    · exact .inl ⟨other, old, blob, within, same⟩
    · rw [List.mem_singleton.mp added] at within
      exact .inr ⟨blob, within, same⟩
  constructor
  · rw [staging]
    exact keys.keyed.filter _
  · intro key held
    rw [issued]
    exact keys.stagedIssued key (staged key held).1
  · intro key held
    rw [issued]
    rcases referenced key held with old | ⟨blob, within, rfl⟩
    · exact keys.referencedIssued key old
    · exact keys.stagedIssued _ (reserved blob within)
  · intro key held
    rw [issued]
    exact keys.discardedIssued key (discarded key held)
  · intro key held refers
    obtain ⟨was, kept⟩ := staged key held
    rcases referenced key refers with old | ⟨blob, within, same⟩
    · exact keys.stagedReferenced key was old
    · exact kept blob within same
  · intro key held gone
    exact keys.stagedDiscarded key (staged key held).1 (discarded key gone)
  · intro key refers gone
    rcases referenced key refers with old | ⟨blob, within, rfl⟩
    · exact keys.referencedDiscarded key old (discarded key gone)
    · exact keys.stagedDiscarded _ (reserved blob within) (discarded _ gone)

theorem change (keys : archive.Keys) (change : Archive.Change sha256 spared archive next) : next.Keys := by
  cases change with
  | observe version issued raises grows =>
    exact { keys with
      stagedIssued := fun key held => grows (keys.stagedIssued key held)
      referencedIssued := fun key held => grows (keys.referencedIssued key held)
      discardedIssued := fun key held => grows (keys.discardedIssued key held) }
  | event row sequence => exact { keys with }
  | enter publication => exact { keys with }
  | progress index publisher phase found => exact { keys with }
  | write key stays => exact { keys with }
  | reserve index publisher generations now found complete distinct fresh =>
    exact keys.reserve (Publication.map_key_blobs complete) distinct fresh
  | duplicate publisher member nonempty reserved =>
    refine keys.discard rfl rfl List.filter_sublist ?_
    rintro key (⟨blob, queued, rfl⟩ | gone)
    · rcases List.mem_append.mp queued with old | given
      · exact .inl (.inl ⟨blob, old, rfl⟩)
      · refine .inr ⟨reserved blob given, ?_⟩
        rintro ⟨row, kept, same⟩
        exact (mem_unstaged.mp kept).2 blob given same.symm
    · exact .inl (.inr gone)
  | capture publisher capture publishHead keepRevision row member reserved adds sequence =>
    refine keys.capture rfl rfl ?_ ?_ ?_
    · rw [adds.blobs]
    · exact fun key held => held
    · rw [adds.blobs]
      exact reserved
  | forget keep referenced =>
    refine keys.discard rfl rfl (List.Sublist.refl _) ?_
    rintro key (⟨blob, queued, rfl⟩ | gone)
    · exact .inl (.inl ⟨blob, (List.mem_filter.mp queued).1, rfl⟩)
    · exact .inl (.inr gone)
  | expire expired deletions queued =>
    refine keys.discard rfl rfl List.filter_sublist ?_
    rintro key (listed | gone)
    · rcases (queued key).mp listed with old | ⟨row, member, elapsed, rfl⟩
      · exact .inl (.inl old)
      · refine .inr ⟨⟨row, member, rfl⟩, ?_⟩
        rintro ⟨other, kept, same⟩
        obtain ⟨present, live⟩ := List.mem_filter.mp kept
        rw [keys.keyed.eq_of_key present member same, elapsed] at live
        cases live
    · exact .inl (.inr gone)
  | read queue queued =>
    refine keys.discard rfl rfl (List.Sublist.refl _) ?_
    rintro key (old | ⟨maintainer, member, within⟩ | gone)
    · exact .inl (.inl old)
    · rcases List.mem_append.mp member with old | new
      · exact .inl (.inr (.inl ⟨maintainer, old, within⟩))
      · rw [List.mem_singleton.mp new] at within
        exact .inl (.inl (queued key within))
    · exact .inl (.inr (.inr gone))
  | delete index key rest removed failed found =>
    have listed : ∀ other ∈ key :: rest, ∃ maintainer ∈ archive.maintainers, other ∈ maintainer.queue :=
      fun other member => ⟨_, List.mem_of_getElem? found, member⟩
    refine keys.discard rfl rfl (List.Sublist.refl _) ?_
    rintro other (old | within | gone)
    · exact .inl (.inl old)
    · refine .inl (.inr (.inl ?_))
      rcases mem_queue_set within with old | new
      · exact old
      · cases failed with
        | true => cases new
        | false => exact listed other new
    · rcases List.mem_cons.mp gone with rfl | old
      · exact .inl (.inr (.inl (listed other List.mem_cons_self)))
      · exact .inl (.inr (.inr old))
  | remove index key rest removed failed found =>
    refine keys.discard rfl rfl (List.Sublist.refl _) ?_
    rintro other (⟨blob, queued, rfl⟩ | within | gone)
    · refine .inl (.inl ⟨blob, ?_, rfl⟩)
      split at queued
      · exact (List.mem_filter.mp queued).1
      · exact queued
    · refine .inl (.inr (.inl ?_))
      rcases mem_queue_set within with old | new
      · exact old
      · cases failed with
        | true => cases new
        | false => exact ⟨_, List.mem_of_getElem? found, List.mem_cons_of_mem _ new⟩
    · exact .inl (.inr (.inr gone))

end Archive.Keys

/-! ## Reservations -/

namespace Archive.Holds

variable {archive next : Archive} {sha256 : Bytes → Bytes} {spared : Prop} {publisher : Publisher}

/-- Rows are given up, and keys are issued. -/
theorem mono (holds : archive.Holds sha256 publisher) (issued : archive.issued ⊆ next.issued)
    (staging : next.staging ⊆ archive.staging) : next.Holds sha256 publisher :=
  { holds with
    issued := fun blob member => issued (holds.issued blob member)
    rows := fun blob member row present => holds.rows blob member row (staging present) }

theorem reserve (holds : archive.Holds sha256 publisher) {blobs : List Blob} {now : ℕ} {generations : List ℕ}
    (named : blobs.map (·.storageKey) = generations) (fresh : ∀ generation ∈ generations, generation ∉ archive.issued)
    (issued : next.issued = generations ++ archive.issued)
    (staging : next.staging = archive.staging ++ blobs.map fun blob => ⟨blob, now⟩) : next.Holds sha256 publisher := by
  refine { holds with issued := ?_, rows := ?_ }
  · intro blob member
    rw [issued]
    exact List.mem_append_right _ (holds.issued blob member)
  · intro blob member row present same
    rw [staging] at present
    rcases List.mem_append.mp present with old | added
    · exact holds.rows blob member row old same
    · obtain ⟨new, within, rfl⟩ := List.mem_map.mp added
      -- a fresh key is not one that is held
      refine absurd (holds.issued blob member) (fresh _ ?_)
      rw [← same, ← named]
      exact List.mem_map_of_mem within

/-- The call that reserves. -/
theorem reserved (keys : archive.Keys) {publication : Publication} {previous : Option CaptureRow} {phase : PublishPhase}
    {now : ℕ} {generations : List ℕ} (complete : generations.length = publication.inputs.length)
    (distinct : generations.Nodup) (fresh : ∀ generation ∈ generations, generation ∉ archive.issued)
    (issued : next.issued = generations ++ archive.issued)
    (staging : next.staging = archive.staging ++ (publication.blobs sha256 generations).map fun blob => ⟨blob, now⟩) :
    next.Holds sha256 ⟨publication, previous, publication.blobs sha256 generations, phase⟩ := by
  have named := @Publication.map_key_blobs sha256 _ _ complete
  have key : ∀ blob ∈ publication.blobs sha256 generations, blob.storageKey ∈ generations := by
    intro blob member
    rw [← named]
    exact List.mem_map_of_mem member
  constructor
  · intro blob member
    rw [issued]
    exact List.mem_append_left _ (key blob member)
  · rw [named]
    exact distinct
  · exact .inr (Publication.map_contents_blobs complete)
  · intro blob member row present same
    rw [staging] at present
    rcases List.mem_append.mp present with old | added
    · refine absurd (keys.stagedIssued _ ⟨row, old, rfl⟩) (fresh _ ?_)
      rw [same]
      exact key blob member
    · obtain ⟨new, within, rfl⟩ := List.mem_map.mp added
      have keyed : Keyed (·.storageKey) (publication.blobs sha256 generations) := by
        rw [Keyed, named]
        exact distinct
      exact keyed.eq_of_key within member same

theorem change (keys : archive.Keys) (holds : ∀ publisher ∈ archive.publishers, archive.Holds sha256 publisher)
    (change : Archive.Change sha256 spared archive next) : ∀ publisher ∈ next.publishers, next.Holds sha256 publisher := by
  cases change with
  | observe version issued raises grows =>
    exact fun publisher member => (holds publisher member).mono grows (List.Subset.refl _)
  | event row sequence => exact fun publisher member => { holds publisher member with }
  | enter publication =>
    intro publisher member
    rcases List.mem_append.mp member with old | new
    · exact { holds publisher old with }
    · rw [List.mem_singleton.mp new]
      exact ⟨by simp, by simp, .inl rfl, by simp⟩
  | progress index other phase found =>
    intro publisher member
    rcases List.mem_or_eq_of_mem_set member with old | rfl
    · exact { holds publisher old with }
    · exact { holds other (List.mem_of_getElem? found) with }
  | write key stays => exact fun publisher member => { holds publisher member with }
  | reserve index other generations now found complete distinct fresh =>
    intro publisher member
    rcases List.mem_or_eq_of_mem_set member with old | rfl
    · exact (holds publisher old).reserve (Publication.map_key_blobs complete) fresh rfl rfl
    · exact reserved keys complete distinct fresh rfl rfl
  | duplicate other member nonempty reserved =>
    exact fun publisher member => (holds publisher member).mono (List.Subset.refl _) List.filter_sublist.subset
  | capture other capture publishHead keepRevision row member reserved adds sequence =>
    exact fun publisher member => (holds publisher member).mono (List.Subset.refl _) List.filter_sublist.subset
  | forget keep referenced => exact fun publisher member => { holds publisher member with }
  | expire expired deletions queued =>
    exact fun publisher member => (holds publisher member).mono (List.Subset.refl _) List.filter_sublist.subset
  | read queue queued => exact fun publisher member => { holds publisher member with }
  | delete index key rest removed failed found => exact fun publisher member => { holds publisher member with }
  | remove index key rest removed failed found => exact fun publisher member => { holds publisher member with }

/-- The sizes of what is reserved. -/
theorem sum_staged (holds : archive.Holds sha256 publisher) (nonempty : publisher.staged ≠ []) :
    (publisher.staged.map fun blob => (blob.size : ℤ)).sum = publisher.publication.totalSize :=
  Publication.sum_size (holds.contents.resolve_left nonempty)

/-- What is left of the staging rows when a reservation that is complete is given up. -/
theorem sum_unstaged (holds : archive.Holds sha256 publisher) (keys : archive.Keys) (nonempty : publisher.staged ≠ [])
    (reserved : ∀ blob ∈ publisher.staged, archive.Staged blob.storageKey) :
    ((archive.unstaged publisher.staged).map fun row => (row.blob.size : ℤ)).sum =
      (archive.staging.map fun row => (row.blob.size : ℤ)).sum - publisher.publication.totalSize := by
  let given := fun row : StageRow => (publisher.staged.map (·.storageKey)).contains row.blob.storageKey
  have rows : ((archive.staging.filter given).map (·.blob)).Perm publisher.staged := by
    have nodupRows : ((archive.staging.filter given).map (·.blob)).Nodup := by
      apply List.Nodup.of_map (·.storageKey)
      rw [List.map_map]
      exact keys.keyed.filter given
    apply (List.perm_ext_iff_of_nodup nodupRows (.of_map _ holds.distinct)).mpr
    intro blob
    constructor
    · intro member
      obtain ⟨row, taken, rfl⟩ := List.mem_map.mp member
      obtain ⟨present, held⟩ := List.mem_filter.mp taken
      obtain ⟨other, within, same⟩ := List.mem_map.mp (List.contains_iff_mem.mp held)
      rw [holds.rows other within row present same.symm]
      exact within
    · intro within
      obtain ⟨row, present, same⟩ := reserved blob within
      rw [← holds.rows blob within row present same]
      apply List.mem_map_of_mem
      apply List.mem_filter.mpr
      refine ⟨present, List.contains_iff_mem.mpr ?_⟩
      rw [same]
      exact List.mem_map_of_mem within
  have split := ((List.filter_append_perm given archive.staging).map fun row => (row.blob.size : ℤ)).sum_eq
  rw [List.map_append, List.sum_append] at split
  have sizes := (rows.map fun blob => (blob.size : ℤ)).sum_eq
  rw [holds.sum_staged nonempty, List.map_map] at sizes
  change (List.map (fun row : StageRow => (row.blob.size : ℤ)) (archive.staging.filter given)).sum = _ at sizes
  rw [sizes] at split
  change (List.map _ (archive.staging.filter fun row => !given row)).sum = _
  rw [← split]
  exact (add_sub_cancel_left _ _).symm

end Archive.Holds

end OpenLegal.Corpus.Database
