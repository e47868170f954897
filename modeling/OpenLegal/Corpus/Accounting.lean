import OpenLegal.Corpus.StorageKeys
import OpenLegal.Theory.Runs

/-! # The books of a corpus

The counters of `corpus_control` are kept by three transactions and a cleanup that may take reservations away between
them. They always agree with the rows: staged bytes with the staging rows, raw bytes with the captures, historical
bytes with the captures that are not HEAD. Events are numbered in the order of their commits.
-/

namespace OpenLegal.Corpus.Database

open Rust Rust.Str Legal Theory

/-- Captures, their numbers and the events. -/
structure Archive.Catalog (archive : Archive) : Prop where
  ids : ∀ capture ∈ archive.captures, capture.id = capture.source.storageKey
  identified : Keyed CaptureRow.id archive.captures
  heads : ∀ object id, archive.head object = some id → ∃ capture ∈ archive.captures, capture.id = id ∧ capture.object = object
  latests : ∀ object revisionId id, archive.latest object revisionId = some id →
    ∃ capture ∈ archive.captures, capture.id = id ∧ capture.object = object ∧ capture.record.revisionId = revisionId
  sequences : archive.captures.Pairwise fun a b => a.object = b.object → a.sequence < b.sequence
  numbered : ∀ capture ∈ archive.captures, capture.sequence < archive.nextCapture capture.object
  events : archive.outbox.map (·.sequence) = List.range' 1 archive.outbox.length
  nextEvent : archive.nextEvent = archive.outbox.length + 1

/-- A capture that is not HEAD of its object. -/
def Archive.isHistorical (archive : Archive) (capture : CaptureRow) : Bool :=
  archive.head capture.object != some capture.id

structure Archive.Balances (archive : Archive) : Prop where
  staged : archive.stagedBytes = (archive.staging.map fun row => (row.blob.size : ℤ)).sum
  raw : archive.rawBytes = (archive.captures.map CaptureRow.size).sum
  historical : archive.historicalBytes = ((archive.captures.filter archive.isHistorical).map CaptureRow.size).sum

namespace Archive

variable {archive next : Archive} {sha256 : Bytes → Bytes} {spared : Prop}

/-- The identifier of a capture is the key of a reserved blob, which no capture refers to. -/
theorem Catalog.fresh (catalog : archive.Catalog) (keys : archive.Keys) {publisher : Publisher} {capture : CaptureRow}
    (adds : archive.Adds publisher capture) (reserved : ∀ blob ∈ publisher.staged, archive.Staged blob.storageKey) :
    ∀ old ∈ archive.captures, old.id ≠ capture.id := by
  intro old member same
  have staged : archive.Staged capture.id := by
    rw [adds.id]
    apply reserved
    rw [← adds.blobs]
    exact List.mem_cons_self
  apply keys.stagedReferenced capture.id staged
  refine ⟨old, member, old.source, List.mem_cons_self, ?_⟩
  rw [← catalog.ids old member]
  exact same

theorem range'_append_one {length : ℕ} : List.range' 1 length ++ [length + 1] = List.range' 1 (length + 1) := by
  rw [List.range'_concat, Nat.one_mul, Nat.add_comm 1]

/-- An event takes the next number. -/
theorem Catalog.event (catalog : archive.Catalog) {row : OutboxRow} (sequence : row.sequence = archive.nextEvent) :
    (archive.outbox ++ [row]).map (·.sequence) = List.range' 1 (archive.outbox ++ [row]).length ∧
      archive.nextEvent + 1 = (archive.outbox ++ [row]).length + 1 := by
  rw [List.map_append, List.map_singleton, sequence, List.length_append, catalog.events, catalog.nextEvent]
  exact ⟨range'_append_one, rfl⟩

theorem Catalog.change (catalog : archive.Catalog) (keys : archive.Keys)
    (change : Archive.Change sha256 spared archive next) : next.Catalog := by
  cases change with
  | observe version issued raises grows => exact { catalog with }
  | event row sequence =>
    obtain ⟨events, nextEvent⟩ := catalog.event sequence
    exact { catalog with events, nextEvent }
  | enter publication => exact { catalog with }
  | reserve index publisher generations now found complete distinct fresh => exact { catalog with }
  | progress index publisher phase found => exact { catalog with }
  | write key stays => exact { catalog with }
  | duplicate publisher member nonempty reserved => exact { catalog with }
  | capture publisher capture publishHead keepRevision row member reserved adds sequence =>
    have fresh := catalog.fresh keys adds reserved
    have added : capture ∈ archive.captures ++ [capture] := List.mem_append_right _ (List.mem_singleton_self _)
    obtain ⟨events, nextEvent⟩ := catalog.event sequence
    refine { ids := ?_, identified := catalog.identified.insert fresh, heads := ?_, latests := ?_, sequences := ?_,
             numbered := ?_, events, nextEvent }
    · intro other member
      rcases List.mem_append.mp member with old | new
      · exact catalog.ids other old
      · rw [List.mem_singleton.mp new]
        exact adds.id
    · intro object id held
      have old : archive.head object = some id → ∃ other ∈ archive.captures ++ [capture], other.id = id ∧ other.object = object := by
        intro was
        obtain ⟨other, member, rest⟩ := catalog.heads object id was
        exact ⟨other, List.mem_append_left _ member, rest⟩
      cases publishHead with
      | false => exact old held
      | true =>
        by_cases mine : object = capture.object
        · simp only [↓reduceIte, mine, Function.update_self, Option.some.injEq] at held
          exact ⟨capture, added, held, mine.symm⟩
        · simp only [↓reduceIte, Function.update_of_ne mine] at held
          exact old held
    · intro object revisionId id held
      have old : archive.latest object revisionId = some id → ∃ other ∈ archive.captures ++ [capture],
          other.id = id ∧ other.object = object ∧ other.record.revisionId = revisionId := by
        intro was
        obtain ⟨other, member, rest⟩ := catalog.latests object revisionId id was
        exact ⟨other, List.mem_append_left _ member, rest⟩
      cases keepRevision with
      | true => exact old held
      | false =>
        simp only [Bool.false_eq_true, ↓reduceIte] at held
        by_cases mine : object = capture.object
        · rw [mine, Function.update_self] at held
          by_cases same : revisionId = capture.record.revisionId
          · rw [same, Function.update_self] at held
            exact ⟨capture, added, Option.some.inj held, mine.symm, same.symm⟩
          · rw [Function.update_of_ne same, ← mine] at held
            exact old held
        · rw [Function.update_of_ne mine] at held
          exact old held
    · apply List.pairwise_append.mpr
      refine ⟨catalog.sequences, List.pairwise_singleton _ _, ?_⟩
      intro other member new mine same
      rw [List.mem_singleton.mp mine] at same ⊢
      rw [adds.sequence, ← same]
      exact catalog.numbered other member
    · intro other member
      change other.sequence < Function.update archive.nextCapture capture.object _ other.object
      rcases List.mem_append.mp member with old | new
      · have bound := catalog.numbered other old
        by_cases mine : other.object = capture.object
        · rw [mine, Function.update_self, ← mine]
          omega
        · rw [Function.update_of_ne mine]
          exact bound
      · rw [List.mem_singleton.mp new, Function.update_self, adds.sequence]
        exact Nat.lt_succ_self _
  | forget keep referenced => exact { catalog with }
  | expire expired deletions queued => exact { catalog with }
  | read queue queued => exact { catalog with }
  | delete index key rest removed failed found => exact { catalog with }
  | remove index key rest removed failed found => exact { catalog with }

/-! ## Bytes -/

theorem size_eq {capture : CaptureRow} {publisher : Publisher} (adds : archive.Adds publisher capture)
    (holds : archive.Holds sha256 publisher) : capture.size = publisher.publication.totalSize := by
  have nonempty : publisher.staged ≠ [] := by
    rw [← adds.blobs]
    exact List.cons_ne_nil _ _
  rw [CaptureRow.size, adds.blobs, holds.sum_staged nonempty]

/-- The sum of the captures that are not HEAD, with the captures that are HEAD as zeros. -/
theorem historical_eq_sum (archive : Archive) (captures : List CaptureRow) :
    ((captures.filter archive.isHistorical).map CaptureRow.size).sum =
      (captures.map fun capture => if archive.head capture.object = some capture.id then 0 else capture.size).sum := by
  rw [sum_map_filter]
  apply congrArg List.sum
  apply List.map_congr_left
  intro capture _
  by_cases head : archive.head capture.object = some capture.id <;> simp [isHistorical, head]

/-- A new capture that is not HEAD, or the HEAD that it replaces, becomes historical. -/
theorem Balances.historical_capture (catalog : archive.Catalog) {publisher : Publisher} {capture : CaptureRow}
    {publishHead : Bool} (adds : archive.Adds publisher capture) (size : capture.size = publisher.publication.totalSize)
    (fresh : ∀ old ∈ archive.captures, old.id ≠ capture.id)
    (head : next.head =
      if publishHead then Function.update archive.head capture.object (some capture.id) else archive.head) :
    (((archive.captures ++ [capture]).filter next.isHistorical).map CaptureRow.size).sum =
      ((archive.captures.filter archive.isHistorical).map CaptureRow.size).sum +
        archive.historicalAdd publisher.publication publishHead := by
  rw [historical_eq_sum, historical_eq_sum, List.map_append, List.sum_append, List.map_singleton, List.sum_singleton,
    historicalAdd, ← adds.object]
  cases publishHead with
  | false =>
    simp only [Bool.false_eq_true, ↓reduceIte] at head ⊢
    rw [head, if_neg, size]
    intro isHead
    obtain ⟨old, member, same, -⟩ := catalog.heads _ _ isHead
    exact fresh old member same
  | true =>
    simp only [↓reduceIte] at head ⊢
    rw [head, Function.update_self, if_pos rfl, add_zero]
    -- of the captures before, only HEAD of the object counts differently
    have after : ∀ old ∈ archive.captures,
        (if Function.update archive.head capture.object (some capture.id) old.object = some old.id then 0 else old.size) =
          if old.object = capture.object then old.size
          else if archive.head old.object = some old.id then 0 else old.size := by
      intro old member
      by_cases mine : old.object = capture.object
      · rw [if_pos mine, mine, Function.update_self, if_neg]
        intro same
        exact fresh old member (Option.some.inj same).symm
      · rw [if_neg mine, Function.update_of_ne mine]
    rw [List.map_congr_left after]
    cases was : archive.head capture.object with
    | none =>
      rw [Option.bind_none, Option.map_none, Option.getD_none, add_zero]
      apply congrArg List.sum
      apply List.map_congr_left
      intro old member
      by_cases mine : old.object = capture.object
      · rw [if_pos mine, mine, was, if_neg (Option.some_ne_none _).symm]
      · rw [if_neg mine]
    | some id =>
      obtain ⟨old, member, rfl, mine⟩ := catalog.heads _ _ was
      rw [Option.bind_some, catalog.identified.find?_eq_some member, Option.map_some, Option.getD_some]
      rw [catalog.identified.sum_map_eq_add
        (fun capture => if archive.head capture.object = some capture.id then 0 else capture.size) _ member]
      · rw [if_pos mine, mine, was, if_pos rfl, sub_zero]
      · intro other present different
        by_cases same : other.object = capture.object
        · rw [if_pos same, same, was, if_neg]
          intro equal
          exact different (Option.some.inj equal).symm
        · rw [if_neg same]

theorem Balances.change (balances : archive.Balances) (catalog : archive.Catalog) (keys : archive.Keys)
    (holds : ∀ publisher ∈ archive.publishers, archive.Holds sha256 publisher)
    (change : Archive.Change sha256 spared archive next) : next.Balances := by
  cases change with
  | observe version issued raises grows => exact { balances with }
  | event row sequence => exact { balances with }
  | enter publication => exact { balances with }
  | reserve index publisher generations now found complete distinct fresh =>
    refine { balances with staged := ?_ }
    have sum := Publication.sum_size (@Publication.map_contents_blobs sha256 _ _ complete)
    rw [List.map_append, List.sum_append, List.map_map, ← balances.staged]
    exact congrArg (archive.stagedBytes + ·) sum.symm
  | progress index publisher phase found => exact { balances with }
  | write key stays => exact { balances with }
  | duplicate publisher member nonempty reserved =>
    refine { balances with staged := ?_ }
    rw [(holds publisher member).sum_unstaged keys nonempty reserved, ← balances.staged]
  | capture publisher capture publishHead keepRevision row member reserved adds sequence =>
    have size := size_eq adds (holds publisher member)
    have nonempty : publisher.staged ≠ [] := by
      rw [← adds.blobs]
      exact List.cons_ne_nil _ _
    constructor
    · rw [(holds publisher member).sum_unstaged keys nonempty reserved, ← balances.staged]
    · rw [List.map_append, List.sum_append, List.map_singleton, List.sum_singleton, size, ← balances.raw]
    · rw [Balances.historical_capture catalog adds size (catalog.fresh keys adds reserved) rfl, ← balances.historical]
  | forget keep referenced => exact { balances with }
  | expire expired deletions queued =>
    refine { balances with staged := ?_ }
    have split := ((List.filter_append_perm expired archive.staging).map fun row => (row.blob.size : ℤ)).sum_eq
    rw [List.map_append, List.sum_append] at split
    rw [balances.staged, ← split]
    exact add_sub_cancel_left _ _
  | read queue queued => exact { balances with }
  | delete index key rest removed failed found => exact { balances with }
  | remove index key rest removed failed found => exact { balances with }

/-- What holds of the archive of every corpus. -/
structure Sound (sha256 : Bytes → Bytes) (archive : Archive) : Prop where
  keys : archive.Keys
  holds : ∀ publisher ∈ archive.publishers, archive.Holds sha256 publisher
  catalog : archive.Catalog
  balances : archive.Balances

theorem Sound.change (sound : archive.Sound sha256) (change : Archive.Change sha256 spared archive next) :
    next.Sound sha256 where
  keys := sound.keys.change change
  holds := Holds.change sound.keys sound.holds change
  catalog := sound.catalog.change sound.keys change
  balances := sound.balances.change sound.catalog sound.keys sound.holds change

theorem Sound.changes (sound : archive.Sound sha256) (changes : Archive.Changes sha256 spared archive next) :
    next.Sound sha256 := by
  induction changes with
  | refl => exact sound
  | tail before change ih => exact ih.change change

theorem sound_initial (sha256 : Bytes → Bytes) (now maxJobAttempts : ℕ) (maxRawBytes : Option ℕ) :
    (World.initial now maxJobAttempts maxRawBytes).archive.Sound sha256 := by
  have staged : ∀ key, ¬ (World.initial now maxJobAttempts maxRawBytes).archive.Staged key := by
    rintro key ⟨row, member, -⟩
    cases member
  have referenced : ∀ key, ¬ (World.initial now maxJobAttempts maxRawBytes).archive.Referenced key := by
    rintro key ⟨capture, member, -⟩
    cases member
  have discarded : ∀ key, ¬ (World.initial now maxJobAttempts maxRawBytes).archive.Discarded key := by
    rintro key (⟨blob, member, -⟩ | ⟨maintainer, member, -⟩ | member) <;> cases member
  constructor
  · exact ⟨List.nodup_nil, fun key held => absurd held (staged key), fun key held => absurd held (referenced key),
      fun key held => absurd held (discarded key), fun key held => absurd held (staged key),
      fun key held => absurd held (staged key), fun key held => absurd held (referenced key)⟩
  · rintro publisher ⟨⟩
  · exact ⟨fun _ member => absurd member List.not_mem_nil, List.nodup_nil, fun _ _ held => (Option.some_ne_none _ held.symm).elim,
      fun _ _ _ held => (Option.some_ne_none _ held.symm).elim, List.Pairwise.nil,
      fun _ member => absurd member List.not_mem_nil, rfl, rfl⟩
  · exact ⟨rfl, rfl, rfl⟩

end Archive

/-! ## Runs -/

namespace World

/-- The counters, the numbers and the deletions of a corpus. -/
structure Balanced (world : World) : Prop where
  staged : world.stagedBytes = (world.staging.map fun row => (row.blob.size : ℤ)).sum
  raw : world.rawBytes = (world.captures.map CaptureRow.size).sum
  historical : world.historicalBytes =
    ((world.captures.filter fun capture => world.headOf capture.object != some capture.id).map CaptureRow.size).sum
  events : world.outbox.map (·.sequence) = List.range' 1 world.outbox.length
  nextEvent : world.nextEvent = world.outbox.length + 1
  sequences : world.captures.Pairwise fun a b => a.object = b.object → a.sequence < b.sequence
  deleted : ∀ key ∈ world.deleted, world.references key = false

/-- Captures and events are only added, and a new capture adds the sizes of its blobs. -/
structure Appends (world next : World) : Prop where
  captures : ∃ added, next.captures = world.captures ++ added ∧
    next.rawBytes = world.rawBytes + (added.map CaptureRow.size).sum
  outbox : ∃ added, next.outbox = world.outbox ++ added

end World

theorem Archive.Sound.balanced {sha256 : Bytes → Bytes} {world : World} (sound : world.archive.Sound sha256) :
    world.Balanced where
  staged := sound.balances.staged
  raw := sound.balances.raw
  historical := sound.balances.historical
  events := sound.catalog.events
  nextEvent := sound.catalog.nextEvent
  sequences := sound.catalog.sequences
  deleted := by
    intro key member
    rw [← Bool.not_eq_true, references_iff]
    intro referenced
    exact sound.keys.referencedDiscarded key referenced (.inr (.inr member))

theorem Archive.Changes.appends {sha256 : Bytes → Bytes} {spared : Prop} {archive next : Archive}
    (changes : Archive.Changes sha256 spared archive next) :
    archive.captures <+: next.captures ∧ archive.outbox <+: next.outbox := by
  induction changes with
  | refl => exact ⟨List.prefix_refl _, List.prefix_refl _⟩
  | tail before change ih =>
    obtain ⟨captures, outbox⟩ := ih
    cases change with
    | event row sequence => exact ⟨captures, outbox.trans (List.prefix_append _ _)⟩
    | capture publisher capture publishHead keepRevision row member reserved adds sequence =>
      exact ⟨captures.trans (List.prefix_append _ _), outbox.trans (List.prefix_append _ _)⟩
    | _ => exact ⟨captures, outbox⟩

theorem sound_run (parsers : Parsers) (sha256 : Bytes → Bytes) (now maxJobAttempts : ℕ) (maxRawBytes : Option ℕ)
    (events : List Event) :
    ((World.initial now maxJobAttempts maxRawBytes).run parsers sha256 events).archive.Sound sha256 :=
  foldl_invariant (fun world : World => world.archive.Sound sha256)
    (fun _ event sound => sound.changes (archives_step parsers sha256 event)) events
    (Archive.sound_initial sha256 now maxJobAttempts maxRawBytes)

theorem appends_step {sha256 : Bytes → Bytes} {world : World} (sound : world.archive.Sound sha256) (parsers : Parsers)
    (event : Event) : world.Appends (world.step parsers sha256 event) := by
  have changes := @archives_step world parsers sha256 event
  have after := (sound.changes changes).balances.raw
  obtain ⟨⟨captures, grown⟩, ⟨rows, sent⟩⟩ := changes.appends
  refine ⟨⟨captures, grown.symm, ?_⟩, ⟨rows, sent.symm⟩⟩
  change (world.step parsers sha256 event).rawBytes = _ at after
  rw [after, ← grown, List.map_append, List.sum_append]
  exact congrArg (· + _) sound.balances.raw.symm

/-! ## What identifiers refer to -/

/-- A capture is found under its identifier. -/
theorem Archive.Catalog.capture?_eq_some {world : World} (catalog : world.archive.Catalog) {capture : CaptureRow}
    (member : capture ∈ world.captures) : world.capture? capture.id = some capture :=
  catalog.identified.find?_eq_some member

/-- In every corpus that grows from an empty one an identifier finds its capture: HEAD one of its object, the latest capture
of a revision one of that object and revision. -/
theorem identifiers_resolve (parsers : Parsers) (sha256 : Bytes → Bytes) (now maxJobAttempts : ℕ)
    (maxRawBytes : Option ℕ) (events : List Event) :
    let world := (World.initial now maxJobAttempts maxRawBytes).run parsers sha256 events
    (∀ capture ∈ world.captures, world.capture? capture.id = some capture) ∧
      (∀ object id, world.headOf object = some id →
        ∃ capture, world.capture? id = some capture ∧ capture.object = object) ∧
      ∀ object revisionId id, world.latestOf object revisionId = some id →
        ∃ capture, world.capture? id = some capture ∧ capture.object = object ∧ capture.record.revisionId = revisionId := by
  intro world
  have catalog := (sound_run parsers sha256 now maxJobAttempts maxRawBytes events).catalog
  refine ⟨fun capture member => catalog.capture?_eq_some member, ?_, ?_⟩
  · intro object id head
    obtain ⟨capture, member, rfl, mine⟩ := catalog.heads object id head
    exact ⟨capture, catalog.capture?_eq_some member, mine⟩
  · intro object revisionId id latest
    obtain ⟨capture, member, rfl, mine, revision⟩ := catalog.latests object revisionId id latest
    exact ⟨capture, catalog.capture?_eq_some member, mine, revision⟩

/-! ## What stays -/

theorem Archive.Changes.version_le {sha256 : Bytes → Bytes} {spared : Prop} {archive next : Archive}
    (changes : Archive.Changes sha256 spared archive next) (object : ObjectId) :
    archive.version object ≤ next.version object := by
  induction changes with
  | refl => exact Nat.le_refl _
  | @tail middle last _ change ih =>
    apply ih.trans
    cases change with
    | observe version issued raises grows => exact raises object
    | capture publisher capture publishHead keepRevision row member reserved adds sequence =>
      change middle.version object ≤ Function.update middle.version capture.object (middle.version capture.object + 1) object
      by_cases mine : object = capture.object
      · rw [mine, Function.update_self]
        exact Nat.le_succ _
      · rw [Function.update_of_ne mine]
    | _ => exact Nat.le_refl _

/-- What a later state of a corpus keeps of an earlier one. -/
structure World.Preserves (world later : World) : Prop where
  captures : world.captures <+: later.captures
  outbox : world.outbox <+: later.outbox
  version : ∀ object, world.versionOf object ≤ later.versionOf object

theorem World.Preserves.step {world later : World} (preserves : world.Preserves later) (parsers : Parsers)
    (sha256 : Bytes → Bytes) (event : Event) : world.Preserves (later.step parsers sha256 event) := by
  have changes := @archives_step later parsers sha256 event
  obtain ⟨captures, outbox⟩ := changes.appends
  exact ⟨preserves.captures.trans captures, preserves.outbox.trans outbox,
    fun object => (preserves.version object).trans (changes.version_le object)⟩

/-- Whatever follows, an identifier finds the capture that it found before, the events that were written stay where they
are, and no version of an object is lower. -/
theorem captures_permanent (parsers : Parsers) (sha256 : Bytes → Bytes) (world : World) (events : List Event) :
    let later := world.run parsers sha256 events
    (∀ id capture, world.capture? id = some capture → later.capture? id = some capture) ∧
      (∀ (place : ℕ) (row : OutboxRow), world.outbox[place]? = some row → later.outbox[place]? = some row) ∧
      ∀ object, world.versionOf object ≤ later.versionOf object := by
  intro later
  have preserves : world.Preserves later :=
    foldl_invariant world.Preserves (fun _ event preserves => preserves.step parsers sha256 event) events
      ⟨List.prefix_rfl, List.prefix_rfl, fun _ => Nat.le_refl _⟩
  refine ⟨fun id capture found => ?_, fun place row there => ?_, preserves.version⟩
  · exact preserves.captures.find?_eq_some found
  · obtain ⟨added, grown⟩ := preserves.outbox
    rw [← grown, List.getElem?_append_left (List.getElem?_eq_some_iff.mp there).1]
    exact there

end OpenLegal.Corpus.Database
