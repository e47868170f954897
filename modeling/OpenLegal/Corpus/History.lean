import OpenLegal.Corpus.RevisionCatalog
import OpenLegal.Legal.SearchIndex
import OpenLegal.Theory.Keyset
import Mathlib.Data.Prod.Lex

/-! # History

`history_inner` lists the revisions or the captures of an object page by page. A cursor names the object, the kind, the
versions of the object and the place of the last entry; the revision ID occupies the terminal field, so embedded colons
remain literal. A request reads the state of the object, the rows and the state again, and other transactions may come
between.

The gate of the store and the cancellation of a request, which only refuse, are left out. `sha256` and the serializer
are not part of the repository.
-/

namespace OpenLegal.Corpus.Database

open Rust Rust.Str Legal Theory

/-- `COLLATE "C"`: texts in the order of their bytes. -/
def collateC (value : Str) : List ℕ := value.asBytes.map UInt8.toNat

namespace HistoryEntry

/-- `COALESCE(effective_date,publication_date,'')`. -/
def sortDate (entry : HistoryEntry) : Str := (entry.effectiveDate <|> entry.publicationDate).getD []

/-- `COALESCE(effective_date,publication_date,'') DESC,revision_id COLLATE "C" ASC`. -/
def byCheckpoint (entry : HistoryEntry) : (List ℕ)ᵒᵈ ×ₗ List ℕ :=
  toLex (OrderDual.toDual (collateC entry.sortDate), collateC entry.revisionId)

/-- `sequence DESC`. -/
def bySequence (entry : HistoryEntry) : ℕᵒᵈ := OrderDual.toDual entry.sequence

end HistoryEntry

structure HistoryPage where
  entries : List HistoryEntry
  nextCursor : Option Str
  inventoryComplete : Bool
deriving DecidableEq

/-- The serializer of identities and the digest of the `sha2` crate. -/
structure KeyCodec where
  toJson : ObjectId → Bytes
  sha256 : Bytes → Vector UInt8 32

namespace KeyCodec

variable (codec : KeyCodec)

def key (object : ObjectId) : Except DatabaseError Str := do
  object.validate
  pure (hex (codec.sha256 (codec.toJson object)).toList)

end KeyCodec

namespace HistoryKind

def tag : HistoryKind → Str
  | .revisions => ['r', '2']
  | .captures => ['c']

end HistoryKind

def ObjectState.stamp (state : ObjectState) : Str := decimal state.version ++ '.' :: decimal state.catalogVersion

/-- Where a page begins: `after_revision` with `after_date`, and `before`. -/
structure Place where
  afterRevision : Option (Str × Str)
  before : ℤ
deriving DecidableEq

def Place.start : Place := ⟨none, 2 ^ 63 - 1⟩

def parseCursor (k : Str) (state : ObjectState) (kind : HistoryKind) (cursor : Str) : Except DatabaseError Place :=
  match kind with
  | .revisions =>
    match splitn ':' 5 cursor with
    | [first, second, third, date, id] =>
      if first ≠ k || second ≠ kind.tag || third ≠ state.stamp then .error .snapshotInvalidated
      else if !date.isEmpty && !validDate date then .error .invalidInput
      else if !validRevision id then .error .invalidInput
      else .ok ⟨some (date, id), 2 ^ 63 - 1⟩
    | _ => .error .snapshotInvalidated
  | .captures =>
    match cursor.splitOn ':' with
    | [first, second, third, sequence] =>
      if first ≠ k || second ≠ kind.tag || third ≠ state.stamp then .error .snapshotInvalidated
      else
        match parseI64 sequence with
        | none => .error .invalidInput
        | some before => .ok ⟨none, before⟩
    | _ => .error .snapshotInvalidated

def readPlace (k : Str) (state : ObjectState) (kind : HistoryKind) : Option Str → Except DatabaseError Place
  | none => .ok .start
  | some cursor => parseCursor k state kind cursor

/-- The fields of a cursor that name an entry. -/
def HistoryEntry.fields (kind : HistoryKind) (entry : HistoryEntry) : Str :=
  match kind with
  | .revisions => entry.sortDate ++ ':' :: entry.revisionId
  | .captures => decimal entry.sequence

/-- The cursor behind an entry. -/
def issueCursor (k : Str) (state : ObjectState) (kind : HistoryKind) (entry : HistoryEntry) : Str :=
  k ++ ':' :: (kind.tag ++ ':' :: (state.stamp ++ ':' :: entry.fields kind))

/-- The queries for a page. Behind a revision there are two bounded ranges. -/
def queryRows (rows : List HistoryEntry) (kind : HistoryKind) (place : Place) (n : ℕ) : List HistoryEntry :=
  match kind, place.afterRevision with
  | .revisions, none => limited HistoryEntry.byCheckpoint n rows
  | .revisions, some (date, id) =>
    limited HistoryEntry.byCheckpoint n
      (limited HistoryEntry.byCheckpoint n
          (rows.filter fun entry => entry.sortDate == date && collateC id < collateC entry.revisionId) ++
        limited HistoryEntry.byCheckpoint n (rows.filter fun entry => collateC entry.sortDate < collateC date))
  | .captures, _ => limited HistoryEntry.bySequence n (rows.filter fun entry => entry.sequence < place.before)

/-- A request that reads the state of the object in `first`, its rows in `second` and its state again in `third`. -/
def historyInner (codec : KeyCodec) (first second third : Library) (object : ObjectId) (kind : HistoryKind)
    (cursor : Option Str) (limit : ℕ) : Except DatabaseError HistoryPage :=
  if !(1 ≤ limit && limit ≤ 100) || cursor.any (byteLen · > 512) then .error .invalidInput
  else do
    let k ← codec.key object
    let state := first.state object
    if state.withdrawn then .error .withdrawn
    else if !hasProviderRevisions object.dataset && kind == .revisions then .error .unsupportedHistory
    else
      let place ← readPlace k state kind cursor
      let rows := queryRows (second.entries object kind) kind place (limit + 1)
      let entries := rows.take limit
      let newState := third.state object
      if newState.version ≠ state.version || newState.catalogVersion ≠ state.catalogVersion || newState.withdrawn then
        .error .snapshotInvalidated
      else
        .ok
          { entries
            nextCursor := if rows.length > limit then entries.getLast?.map (issueCursor k state kind) else none
            inventoryComplete := state.inventoryComplete }

/-! ## The order of the entries -/

theorem collateC_injective : Function.Injective collateC := by
  intro first second same
  have bytes : first.asBytes = second.asBytes := List.map_injective_iff.mpr (fun _ _ => UInt8.toNat_inj.mp) same
  have decoded := congrArg fromUtf8 bytes
  simpa using decoded

namespace HistoryKind

/-- The entries of a kind in the order of their pages. -/
def listed : HistoryKind → List HistoryEntry → List HistoryEntry
  | .revisions, rows => orderBy HistoryEntry.byCheckpoint rows
  | .captures, rows => orderBy HistoryEntry.bySequence rows

/-- Revisions by checkpoint date with the undated last and ties by the bytes of their names; captures by sequence. -/
def Before (kind : HistoryKind) (first second : HistoryEntry) : Prop :=
  match kind with
  | .revisions =>
    collateC second.sortDate < collateC first.sortDate ∨
      (first.sortDate = second.sortDate ∧ collateC first.revisionId < collateC second.revisionId)
  | .captures => second.sequence < first.sequence

end HistoryKind

theorem byCheckpoint_lt {first second : HistoryEntry} :
    first.byCheckpoint < second.byCheckpoint ↔ HistoryKind.revisions.Before first second := by
  unfold HistoryEntry.byCheckpoint HistoryKind.Before
  rw [Prod.Lex.toLex_lt_toLex]
  simp only [OrderDual.toDual_lt_toDual, OrderDual.toDual_inj, (collateC_injective).eq_iff]

/-- An entry that a cursor can name. -/
def HistoryEntry.Nameable (kind : HistoryKind) (entry : HistoryEntry) : Prop :=
  match kind with
  | .revisions => validRevision entry.revisionId = true ∧ (entry.sortDate = [] ∨ validDate entry.sortDate = true)
  | .captures => entry.sequence < 2 ^ 63 - 1

/-- The rows that history lists are told apart by their places in the order, and cursors can hold them. -/
structure Listable (kind : HistoryKind) (rows : List HistoryEntry) : Prop where
  distinct : match kind with
    | .revisions => (rows.map HistoryEntry.byCheckpoint).Nodup
    | .captures => (rows.map HistoryEntry.bySequence).Nodup
  nameable : ∀ entry ∈ rows, entry.Nameable kind

/-- The place behind an entry. -/
def HistoryEntry.place (kind : HistoryKind) (entry : HistoryEntry) : Place :=
  match kind with
  | .revisions => ⟨some (entry.sortDate, entry.revisionId), 2 ^ 63 - 1⟩
  | .captures => ⟨none, entry.sequence⟩

section Queries

variable {kind : HistoryKind} {rows : List HistoryEntry}

theorem listed_perm : (kind.listed rows).Perm rows := by
  cases kind <;> exact orderBy_perm

theorem listed_pairwise (listable : Listable kind rows) : (kind.listed rows).Pairwise kind.Before := by
  cases kind with
  | revisions => exact (orderBy_sorted listable.distinct).imp (byCheckpoint_lt).mp
  | captures => exact (orderBy_sorted listable.distinct).imp OrderDual.toDual_lt_toDual.mp

/-- The first page begins with the first entries. -/
theorem queryRows_start (listable : Listable kind rows) (n : ℕ) :
    queryRows rows kind .start n = (kind.listed rows).take n := by
  cases kind with
  | revisions => rfl
  | captures =>
    have all : rows.filter (fun entry => (entry.sequence : ℤ) < Place.start.before) = rows := by
      apply List.filter_eq_self.mpr
      intro entry member
      have bound : entry.sequence < 2 ^ 63 - 1 := listable.nameable entry member
      have below : (entry.sequence : ℤ) < 2 ^ 63 - 1 := by omega
      exact decide_eq_true below
    change limited _ n (rows.filter _) = _
    rw [all]
    rfl

/-- Behind an entry a page goes on with the next ones. -/
theorem queryRows_place (listable : Listable kind rows) {front rear : List HistoryEntry} {last : HistoryEntry}
    (split : kind.listed rows = front ++ last :: rear) (n : ℕ) :
    queryRows rows kind (last.place kind) n = rear.take n := by
  cases kind with
  | revisions =>
    change limited _ n (limited _ n _ ++ limited _ n _) = _
    rw [limited_union listable.distinct]
    · have later : rows.filter (fun entry =>
          (entry.sortDate == last.sortDate && decide (collateC last.revisionId < collateC entry.revisionId)) ||
            decide (collateC entry.sortDate < collateC last.sortDate)) =
          rows.filter fun entry => last.byCheckpoint < entry.byCheckpoint := by
        apply List.filter_congr
        intro entry _
        rw [Bool.eq_iff_iff]
        simp only [Bool.or_eq_true, Bool.and_eq_true, beq_iff_eq, decide_eq_true_eq, byCheckpoint_lt]
        rw [HistoryKind.Before, or_comm, eq_comm]
      have sorted := orderBy_sorted listable.distinct
      change orderBy _ rows = _ at split
      rw [later, limited, orderBy_filter listable.distinct, split]
      rw [split] at sorted
      rw [KeySorted.filter_after sorted]
    · intro first _ second _ near far
      simp only [Bool.and_eq_true, beq_iff_eq, decide_eq_true_eq] at near far
      rw [byCheckpoint_lt]
      left
      rw [near.1]
      exact far
  | captures =>
    have sorted := orderBy_sorted listable.distinct
    change orderBy _ rows = _ at split
    have later : rows.filter (fun entry => (entry.sequence : ℤ) < (last.place .captures).before) =
        rows.filter fun entry => last.bySequence < entry.bySequence := by
      apply List.filter_congr
      intro entry _
      simp only [HistoryEntry.place, Int.ofNat_lt, HistoryEntry.bySequence, OrderDual.toDual_lt_toDual]
    change limited _ n (rows.filter _) = _
    rw [later, limited, orderBy_filter listable.distinct, split]
    rw [split] at sorted
    rw [KeySorted.filter_after sorted]

end Queries

/-! ## Cursors -/

/-- The counters of a state are in the range of their columns. -/
structure ObjectState.InRange (state : ObjectState) : Prop where
  version : state.version < 2 ^ 63
  catalogVersion : state.catalogVersion < 2 ^ 63

section Cursors

variable {k : Str} {state other : ObjectState} {kind : HistoryKind} {entry : HistoryEntry}

theorem colon_not_mem_tag (kind : HistoryKind) : ':' ∉ kind.tag := by
  cases kind <;> decide

theorem colon_not_mem_stamp (state : ObjectState) : ':' ∉ state.stamp := by
  have digits : ∀ n, ':' ∉ decimal n := fun n => not_mem_decimal (by decide)
  simp [ObjectState.stamp, digits]

theorem stamp_injective (same : state.stamp = other.stamp) :
    state.version = other.version ∧ state.catalogVersion = other.catalogVersion := by
  have cut : ∀ state : ObjectState, splitOnce ['.'] state.stamp = some (decimal state.version, decimal state.catalogVersion) := by
    intro state
    have found := splitOnce_append '.' [] (decimal state.version) (decimal state.catalogVersion)
      (not_mem_decimal (by decide))
    simpa [ObjectState.stamp] using found
  have parts := cut state
  rw [same, cut other, Option.some.injEq, Prod.mk.injEq] at parts
  exact ⟨decimal_injective parts.1.symm, decimal_injective parts.2.symm⟩

theorem isDigit_of_validDate {date : Str} (valid : validDate date = true) : byteLen date = 8 ∧ ∀ c ∈ date, isAsciiDigit c = true := by
  unfold validDate at valid
  split at valid
  · cases valid
  · next shape => simpa using shape

theorem colon_not_mem_date {date : Str} (valid : date = [] ∨ validDate date = true) : ':' ∉ date := by
  rcases valid with rfl | valid
  · exact List.not_mem_nil
  · intro member
    have digit := (isDigit_of_validDate valid).2 ':' member
    revert digit
    decide

/-- The fields of a cursor. -/
theorem parse_issue (colon : ':' ∉ k) (nameable : entry.Nameable kind) :
    parseCursor k other kind (issueCursor k state kind entry) =
      if state.stamp = other.stamp then .ok (entry.place kind) else .error .snapshotInvalidated := by
  cases kind with
  | revisions =>
    obtain ⟨valid, dated⟩ := nameable
    have fields : splitn ':' 5 (issueCursor k state .revisions entry) =
        [k, HistoryKind.tag .revisions, state.stamp, entry.sortDate, entry.revisionId] := by
      simp only [issueCursor, HistoryEntry.fields]
      rw [splitn_append colon, splitn_append (colon_not_mem_tag _), splitn_append (colon_not_mem_stamp _),
        splitn_append (colon_not_mem_date dated)]
      rfl
    simp only [parseCursor, fields]
    have checked : (!entry.sortDate.isEmpty && !validDate entry.sortDate) = false := by
      rcases dated with empty | dated
      · simp [empty]
      · simp [dated]
    by_cases same : state.stamp = other.stamp
    · simp [same, checked, valid, HistoryEntry.place]
    · simp [same]
  | captures =>
    have bound : entry.sequence < 2 ^ 63 - 1 := nameable
    have fields : (issueCursor k state .captures entry).splitOn ':' =
        [k, HistoryKind.tag .captures, state.stamp, decimal entry.sequence] := by
      have joined : issueCursor k state .captures entry =
          [':'].intercalate [k, HistoryKind.tag .captures, state.stamp, decimal entry.sequence] := by
        simp [issueCursor, HistoryEntry.fields, List.intercalate]
      rw [joined]
      apply List.splitOn_intercalate
      · simp only [List.forall_mem_cons]
        exact ⟨colon, colon_not_mem_tag _, colon_not_mem_stamp _, not_mem_decimal (by decide), by simp⟩
      · simp
    simp only [parseCursor, fields]
    have parsed : parseI64 (decimal entry.sequence) = some (entry.sequence : ℤ) := parseI64_decimal (by omega)
    by_cases same : state.stamp = other.stamp
    · simp [same, parsed, HistoryEntry.place]
    · simp [same]

theorem hex_spec (bytes : Bytes) : ':' ∉ hex bytes ∧ byteLen (hex bytes) = 2 * bytes.length := by
  have digits : ∀ n < 16, ':' ≠ Nat.digitChar n ∧ (Nat.digitChar n).utf8Size = 1 := by decide
  induction bytes with
  | nil => exact ⟨List.not_mem_nil, rfl⟩
  | cons byte bytes ih =>
    have small := byte.toNat_lt
    obtain ⟨high, highSize⟩ := digits (byte.toNat / 16) (by omega)
    obtain ⟨low, lowSize⟩ := digits (byte.toNat % 16) (by omega)
    change ':' ∉ hexByte byte ++ hex bytes ∧ byteLen (hexByte byte ++ hex bytes) = 2 * (bytes.length + 1)
    constructor
    · simp [hexByte, high, low, ih.1]
    · simp only [hexByte, byteLen_append, byteLen_cons, byteLen_nil, highSize, lowSize, ih.2]
      omega

theorem key_ok {codec : KeyCodec} {object : ObjectId} (named : codec.key object = .ok k) :
    ':' ∉ k ∧ byteLen k = 64 := by
  simp only [KeyCodec.key, bind_eq_ok] at named
  obtain ⟨_, -, same⟩ := named
  cases same
  obtain ⟨colon, length⟩ := hex_spec (codec.sha256 (codec.toJson object)).toList
  exact ⟨colon, by simpa using length⟩

/-- A cursor is short, also for an ID of the maximum length. -/
theorem issueCursor_length (length : byteLen k = 64) (inRange : state.InRange) (nameable : entry.Nameable kind) :
    byteLen (issueCursor k state kind entry) ≤ 512 := by
  have colon : (':' : Char).utf8Size = 1 := by decide
  have dot : ('.' : Char).utf8Size = 1 := by decide
  have version := @byteLen_decimal_le state.version 19 (by decide) (by have := inRange.version; omega)
  have catalog := @byteLen_decimal_le state.catalogVersion 19 (by decide) (by have := inRange.catalogVersion; omega)
  have tag : byteLen kind.tag ≤ 2 := by cases kind <;> decide
  have place : byteLen (entry.fields kind) ≤ 265 := by
    cases kind with
    | revisions =>
      obtain ⟨valid, dated⟩ := nameable
      have short : byteLen entry.revisionId ≤ 256 := by
        simp only [validRevision, Bool.and_eq_true, decide_eq_true_eq] at valid
        exact valid.1.2
      have date : byteLen entry.sortDate ≤ 8 := by
        rcases dated with empty | dated
        · simp [empty]
        · exact (isDigit_of_validDate dated).1.le
      simp only [HistoryEntry.fields, byteLen_append, byteLen_cons, colon]
      omega
    | captures =>
      have bound : entry.sequence < 2 ^ 63 - 1 := nameable
      have short := @byteLen_decimal_le entry.sequence 19 (by decide) (by omega)
      exact short.trans (by decide)
  simp only [issueCursor, ObjectState.stamp, byteLen_append, byteLen_cons, colon, dot, length]
  omega

end Cursors

/-! ## Pages -/

section Pages

variable {codec : KeyCodec} {first second third : Library} {object : ObjectId} {kind : HistoryKind}

/-- The parameters of a request for a history that the object has. -/
structure Offered (codec : KeyCodec) (object : ObjectId) (kind : HistoryKind) (state : ObjectState) (k : Str) : Prop where
  key : codec.key object = .ok k
  present : state.withdrawn = false
  supported : kind = .revisions → hasProviderRevisions object.dataset = true

/-- What a page shows of the entries that are left, and the cursor behind them. -/
def pageOf (k : Str) (state : ObjectState) (kind : HistoryKind) (remaining : List HistoryEntry) (limit : ℕ) : HistoryPage :=
  { entries := remaining.take limit
    nextCursor :=
      if remaining.length > limit then (remaining.take limit).getLast?.map (issueCursor k state kind) else none
    inventoryComplete := state.inventoryComplete }

/-- A request whose cursor is accepted shows the next entries of its place. -/
theorem historyInner_ok {k : Str} (offered : Offered codec object kind (first.state object) k) {limit : ℕ}
    (positive : 1 ≤ limit) (bounded : limit ≤ 100) {cursor : Option Str} {place : Place}
    (short : ∀ text ∈ cursor, byteLen text ≤ 512)
    (parsed : readPlace k (first.state object) kind cursor = .ok place)
    (version : (third.state object).version = (first.state object).version)
    (catalogVersion : (third.state object).catalogVersion = (first.state object).catalogVersion)
    (withdrawn : (third.state object).withdrawn = false) {remaining : List HistoryEntry}
    (rows : queryRows (second.entries object kind) kind place (limit + 1) = remaining.take (limit + 1)) :
    historyInner codec first second third object kind cursor limit =
      .ok (pageOf k (first.state object) kind remaining limit) := by
  have within : (!(1 ≤ limit && limit ≤ 100) || cursor.any (byteLen · > 512)) = false := by
    have fits : cursor.any (byteLen · > 512) = false := by
      cases cursor with
      | none => rfl
      | some text => simpa using short text rfl
    simp [positive, bounded, fits]
  have supported : (!hasProviderRevisions object.dataset && kind == .revisions) = false := by
    by_cases revised : kind = .revisions
    · simp [offered.supported revised]
    · simp [revised]
  have shown : (remaining.take (limit + 1)).take limit = remaining.take limit := by
    rw [List.take_take, Nat.min_eq_left (Nat.le_succ limit)]
  have more : (remaining.take (limit + 1)).length > limit ↔ remaining.length > limit := by
    rw [List.length_take]
    omega
  simp only [historyInner, within, Bool.false_eq_true, ↓reduceIte, offered.key, ok_bind, offered.present, supported, parsed,
    rows, version, catalogVersion, withdrawn, ne_eq, not_true_eq_false, decide_false, Bool.or_self, shown, more, pageOf]

end Pages

/-! ## Following the cursors -/

/-- A request with its limit, and when it reads the state of the object, its rows, and its state again. -/
structure Visit where
  limit : ℕ
  begun : ℕ
  read : ℕ
  ended : ℕ

/-- A request with a limit that is accepted, inside a stretch of time. -/
structure Visit.Within (visit : Visit) (start stop : ℕ) : Prop where
  positive : 1 ≤ visit.limit
  bounded : visit.limit ≤ 100
  begun : start ≤ visit.begun
  read : visit.begun ≤ visit.read
  ended : visit.read ≤ visit.ended
  stop : visit.ended ≤ stop

section Follow

variable (codec : KeyCodec) (states : ℕ → Library) (object : ObjectId) (kind : HistoryKind)

def historyAt (visit : Visit) (cursor : Option Str) : Except DatabaseError HistoryPage :=
  historyInner codec (states visit.begun) (states visit.read) (states visit.ended) object kind cursor visit.limit

/-- One request after another, each with the cursor of the one before, until there is none. -/
def follow : List Visit → Option Str → Except DatabaseError (List HistoryEntry × Option Str)
  | [], cursor => .ok ([], cursor)
  | visit :: visits, cursor => do
    let page ← historyAt codec states object kind visit cursor
    match page.nextCursor with
    | none => .ok (page.entries, none)
    | some next => do
      let (entries, last) ← follow visits (some next)
      .ok (page.entries ++ entries, last)

end Follow

/-- The states of a run: each one is sound, and the later ones follow the earlier ones. -/
structure Chronicle (parsers : Parsers) (states : ℕ → Library) (object : ObjectId) : Prop where
  sound : ∀ moment, (states moment).Sound parsers
  follows : ∀ earlier later, earlier ≤ later → (states earlier).Follows object (states later)

section Runs

variable {parsers : Parsers} {codec : KeyCodec} {states : ℕ → Library} {object : ObjectId} {kind : HistoryKind}

theorem chronicle_run (sha256 : Bytes → Bytes) {library : Library} (sound : library.Sound parsers) (events : List LibraryEvent) :
    Chronicle parsers (fun moment => library.run parsers sha256 (events.take moment)) object where
  sound moment := Library.run_sound sound _
  follows earlier later le := by
    have split : events.take later = events.take earlier ++ (events.drop earlier).take (later - earlier) := by
      rw [← List.take_add, Nat.add_sub_cancel' le]
    have run : library.run parsers sha256 (events.take later) = (library.run parsers sha256 (events.take earlier)).run
        parsers sha256 ((events.drop earlier).take (later - earlier)) := by
      rw [split]
      exact List.foldl_append
    change Library.Follows object _ (library.run parsers sha256 (events.take later))
    rw [run]
    exact Library.run_follows (Library.run_sound sound _) _ object

theorem inRange_state {library : Library} (sound : library.Sound parsers) (object : ObjectId) :
    (library.state object).InRange := by
  cases found : library.world.object? object with
  | none =>
    simp only [Library.state, found]
    exact ⟨by decide, by decide⟩
  | some row =>
    simp only [Library.state, found]
    obtain ⟨member, rfl⟩ := World.object?_mem found
    have inRange := List.all_eq_true.mp sound.inRange row member
    simp only [Bool.and_eq_true, decide_eq_true_eq] at inRange
    exact ⟨inRange.1.1, inRange.2⟩

theorem byCheckpoint_injOn {first second : RevisionRow}
    (same : first.entry.byCheckpoint = second.entry.byCheckpoint) : first.revisionId = second.revisionId := by
  have names := congrArg (fun key => (ofLex key).2) same
  exact collateC_injective names

/-- The rows of a sound catalog can be listed. -/
theorem listable_entries {library : Library} (sound : library.Sound parsers) (object : ObjectId) (kind : HistoryKind) :
    Listable kind (library.entries object kind) := by
  cases kind with
  | revisions =>
    constructor
    · change (((library.world.revisions.filter (·.object = object)).map RevisionRow.entry).map HistoryEntry.byCheckpoint).Nodup
      rw [List.map_map]
      have keyed := sound.keyed.filter fun row => decide (row.object = object)
      apply List.Nodup.map_on _ keyed.of_map
      intro a inA b inB same
      have owned := of_decide_eq_true (List.mem_filter.mp inA).2
      have owned' := of_decide_eq_true (List.mem_filter.mp inB).2
      apply keyed.eq_of_key inA inB
      exact Prod.ext (owned.trans owned'.symm) (byCheckpoint_injOn same)
    · intro entry member
      obtain ⟨row, inside, rfl⟩ := List.mem_map.mp member
      have valid := sound.revisions row (List.mem_filter.mp inside).1
      refine ⟨valid.revisionId, ?_⟩
      have published := valid.publicationDate
      have effective := valid.effectiveDate
      simp only [HistoryEntry.sortDate, RevisionRow.entry]
      cases dated : row.effectiveDate with
      | some date =>
        rw [dated] at effective
        exact .inr effective
      | none =>
        cases dated' : row.publicationDate with
        | some date =>
          rw [dated'] at published
          exact .inr published
        | none => exact .inl rfl
  | captures =>
    have owned := sound.sequences.filter fun capture => decide (capture.object = object)
    constructor
    · change (((library.world.captures.filter (·.object = object)).map CaptureRow.entry).map HistoryEntry.bySequence).Nodup
      rw [List.map_map]
      apply List.pairwise_map.mpr
      apply owned.imp_of_mem
      intro first second inFirst inSecond less same
      have mine := of_decide_eq_true (List.mem_filter.mp inFirst).2
      have mine' := of_decide_eq_true (List.mem_filter.mp inSecond).2
      exact absurd (OrderDual.toDual_inj.mp same) (less (mine.trans mine'.symm)).ne
    · intro entry member
      obtain ⟨capture, inside, rfl⟩ := List.mem_map.mp member
      have numbered := sound.numbered capture (List.mem_filter.mp inside).1
      change capture.sequence < 2 ^ 63 - 1
      unfold World.nextCaptureOf at numbered
      cases found : library.world.object? capture.object with
      | none =>
        rw [found] at numbered
        simp only [Option.map_none, Option.getD_none] at numbered
        omega
      | some row =>
        obtain ⟨present, -⟩ := World.object?_mem found
        have inRange := List.all_eq_true.mp sound.inRange row present
        rw [found] at numbered
        simp only [Option.map_some, Option.getD_some, Bool.and_eq_true, decide_eq_true_eq] at numbered inRange
        omega

/-- A stretch of time in which the versions of the object stay and it is not withdrawn. -/
structure Steady (states : ℕ → Library) (object : ObjectId) (start stop : ℕ) : Prop where
  version : ((states stop).state object).version = ((states start).state object).version
  catalogVersion : ((states stop).state object).catalogVersion = ((states start).state object).catalogVersion
  present : ((states stop).state object).withdrawn = false

/-- Nothing that history shows changes in between. -/
theorem Steady.inside (chronicle : Chronicle parsers states object) {start stop moment : ℕ}
    (steady : Steady states object start stop) (late : start ≤ moment) (early : moment ≤ stop) :
    Steady states object start moment ∧ ((states moment).state object).stamp = ((states start).state object).stamp ∧
      ∀ kind, (states moment).entries object kind = (states start).entries object kind := by
  have near := chronicle.follows start moment late
  have far := chronicle.follows moment stop early
  have versions := near.version
  have versions' := far.version
  have catalogs := near.catalogVersion
  have catalogs' := far.catalogVersion
  have version : ((states moment).state object).version = ((states start).state object).version := by
    have := steady.version
    omega
  have catalogVersion : ((states moment).state object).catalogVersion = ((states start).state object).catalogVersion := by
    have := steady.catalogVersion
    omega
  have present : ((states moment).state object).withdrawn = false := by
    cases withdrawn : ((states moment).state object).withdrawn with
    | false => rfl
    | true =>
      have stands := far.withdrawn withdrawn
      rw [steady.present] at stands
      cases stands
  refine ⟨⟨version, catalogVersion, present⟩, ?_, near.entries version catalogVersion⟩
  simp only [ObjectState.stamp, version, catalogVersion]

/-- A cursor that is accepted in a stretch of time: none, or the one behind an entry. -/
inductive Reaches (k : Str) (kind : HistoryKind) (stamp : Str) (listed : List HistoryEntry) :
    Option Str → List HistoryEntry → Prop where
  | start : Reaches k kind stamp listed none listed
  | behind (front remaining : List HistoryEntry) (last : HistoryEntry) (state : ObjectState)
      (split : listed = front ++ last :: remaining) (same : state.stamp = stamp) (inRange : state.InRange) :
      Reaches k kind stamp listed (some (issueCursor k state kind last)) remaining

/-- Every request of a stretch of time is answered from the entries that are left. -/
theorem historyAt_ok (chronicle : Chronicle parsers states object) {start stop : ℕ} (steady : Steady states object start stop)
    {k : Str} (named : codec.key object = .ok k)
    (supported : kind = .revisions → hasProviderRevisions object.dataset = true) {visit : Visit}
    (within : visit.Within start stop) {cursor : Option Str} {remaining : List HistoryEntry}
    (reaches : Reaches k kind ((states start).state object).stamp (kind.listed ((states start).entries object kind))
      cursor remaining) :
    historyAt codec states object kind visit cursor =
      .ok (pageOf k ((states visit.begun).state object) kind remaining visit.limit) := by
  obtain ⟨colon, length⟩ := key_ok named
  have listable := listable_entries (chronicle.sound start) object kind
  have readBefore := within.read.trans (within.ended.trans within.stop)
  have readAfter := within.begun.trans within.read
  obtain ⟨begun, stamp, -⟩ := steady.inside chronicle within.begun readBefore
  obtain ⟨-, -, rows⟩ := steady.inside chronicle readAfter (within.ended.trans within.stop)
  obtain ⟨ended, -, -⟩ := steady.inside chronicle (readAfter.trans within.ended) within.stop
  have version := ended.version.trans begun.version.symm
  have catalogVersion := ended.catalogVersion.trans begun.catalogVersion.symm
  have offered : Offered codec object kind ((states visit.begun).state object) k := ⟨named, begun.present, supported⟩
  cases reaches with
  | start =>
    apply @historyInner_ok codec _ (states visit.read) _ object kind k offered _ within.positive within.bounded none .start
    · simp
    · rfl
    · exact version
    · exact catalogVersion
    · exact ended.present
    · rw [rows kind]
      exact queryRows_start listable _
  | behind front remaining last state split same inRange =>
    have member : last ∈ (states start).entries object kind := by
      apply listed_perm.mem_iff.mp
      rw [split]
      simp
    have nameable := listable.nameable last member
    apply @historyInner_ok codec _ (states visit.read) _ object kind k offered _ within.positive within.bounded _ (last.place kind)
    · rintro text ⟨⟩
      exact issueCursor_length length inRange nameable
    · rw [readPlace, parse_issue colon nameable, if_pos (same.trans stamp.symm)]
    · exact version
    · exact catalogVersion
    · exact ended.present
    · rw [rows kind]
      exact queryRows_place listable split _

/-- The requests that follow the cursors list what is left. -/
theorem follow_ok (chronicle : Chronicle parsers states object) {start stop : ℕ} (steady : Steady states object start stop)
    {k : Str} (named : codec.key object = .ok k)
    (supported : kind = .revisions → hasProviderRevisions object.dataset = true) {visits : List Visit}
    (within : ∀ visit ∈ visits, visit.Within start stop) {cursor : Option Str} {remaining : List HistoryEntry}
    (reaches : Reaches k kind ((states start).state object).stamp (kind.listed ((states start).entries object kind))
      cursor remaining) (some : visits ≠ []) (enough : remaining.length ≤ visits.length) :
    follow codec states object kind visits cursor = .ok (remaining, none) := by
  induction visits generalizing cursor remaining with
  | nil => exact absurd rfl some
  | cons visit visits ih =>
    have here := within visit List.mem_cons_self
    have positive := here.positive
    rw [follow, historyAt_ok chronicle steady named supported here reaches, ok_bind]
    by_cases more : remaining.length > visit.limit
    · -- the last entry of the page is the place of the next one
      obtain ⟨init, last, shown⟩ := List.eq_nil_or_concat (remaining.take visit.limit) |>.resolve_left (by
        intro empty
        have := congrArg List.length empty
        simp only [List.length_take, List.length_nil] at this
        omega)
      rw [List.concat_eq_append] at shown
      have parts : init ++ last :: remaining.drop visit.limit = remaining := by
        rw [List.append_cons, ← shown, List.take_append_drop]
      have stamp := (steady.inside chronicle here.begun (here.read.trans (here.ended.trans here.stop))).2.1
      have inRange := inRange_state (chronicle.sound visit.begun) object
      have next : Reaches k kind ((states start).state object).stamp (kind.listed ((states start).entries object kind))
          (issueCursor k ((states visit.begun).state object) kind last) (remaining.drop visit.limit) := by
        cases reaches with
        | start =>
          exact Reaches.behind init _ last _ parts.symm stamp inRange
        | behind front remaining before state split same inRange' =>
          apply Reaches.behind (front ++ before :: init) _ last _ _ stamp inRange
          rw [List.append_assoc, List.cons_append, parts]
          exact split
      have left : (remaining.drop visit.limit).length = remaining.length - visit.limit := List.length_drop
      simp only [List.length_cons] at enough
      have rest := ih (fun other member => within other (List.mem_cons_of_mem _ member)) next
        (by rintro rfl; simp at enough; omega) (by omega)
      simp only [pageOf, more, ↓reduceIte, shown, List.getLast?_append, List.getLast?_singleton, Option.some_or,
        Option.map_some, rest, ok_bind]
      rw [← shown, List.take_append_drop]
    · have all : remaining.take visit.limit = remaining := List.take_of_length_le (by omega)
      simp only [pageOf, more, ↓reduceIte, all]

theorem mem_queryRows {rows : List HistoryEntry} {place : Place} {n : ℕ} {entry : HistoryEntry}
    (member : entry ∈ queryRows rows kind place n) : entry ∈ rows := by
  have limits : ∀ {κ : Type} [LinearOrder κ] {key : HistoryEntry → κ} {n : ℕ} {some : List HistoryEntry},
      entry ∈ limited key n some → entry ∈ some := fun inside => mem_orderBy.mp (List.mem_of_mem_take inside)
  unfold queryRows at member
  split at member
  · exact limits member
  · rcases List.mem_append.mp (limits member) with near | far
    · exact (List.mem_filter.mp (limits near)).1
    · exact (List.mem_filter.mp (limits far)).1
  · exact (List.mem_filter.mp (limits member)).1

/-- What a cursor that was issued says of the request. -/
structure Issued (codec : KeyCodec) (first second third : Library) (object : ObjectId) (kind : HistoryKind) (next : Str) :
    Prop where
  issued : ∃ k entry, codec.key object = .ok k ∧ entry ∈ second.entries object kind ∧
    next = issueCursor k (first.state object) kind entry
  supported : kind = .revisions → hasProviderRevisions object.dataset = true
  version : (third.state object).version = (first.state object).version
  catalogVersion : (third.state object).catalogVersion = (first.state object).catalogVersion
  present : (third.state object).withdrawn = false

theorem historyInner_inv {first second third : Library} {cursor : Option Str} {limit : ℕ} {page : HistoryPage} {next : Str}
    (answered : historyInner codec first second third object kind cursor limit = .ok page)
    (more : page.nextCursor = some next) : Issued codec first second third object kind next := by
  simp only [historyInner, bind_eq_ok, ite_error_eq_ok] at answered
  obtain ⟨-, k, named, -, supported, place, -, unchanged, answered⟩ := answered
  cases answered
  simp only [Bool.or_eq_true, not_or, decide_eq_true_eq, ne_eq, Decidable.not_not, Bool.not_eq_true] at unchanged
  simp only [Bool.and_eq_true, Bool.not_eq_true', beq_iff_eq, not_and] at supported
  split_ifs at more with further
  obtain ⟨entry, last, rfl⟩ := Option.map_eq_some_iff.mp more
  refine ⟨⟨k, entry, named, ?_, rfl⟩, ?_, unchanged.1.1, unchanged.1.2, unchanged.2⟩
  · exact mem_queryRows (List.mem_of_mem_take (List.mem_of_getLast? last))
  · intro revised
    by_contra unsupported
    exact supported (by simpa using unsupported) revised

/-- What a reader of the history of an object may rely on, in the states of a run. -/
structure HistoryContract (codec : KeyCodec) (states : ℕ → Library) (object : ObjectId) (kind : HistoryKind) : Prop where
  exact : ∀ start stop, Steady states object start stop → object.validate = .ok () →
    (kind = .revisions → hasProviderRevisions object.dataset = true) →
      ∃ listed : List HistoryEntry, listed.Perm ((states start).entries object kind) ∧ listed.Pairwise kind.Before ∧
        ∀ visits, visits ≠ [] → listed.length ≤ visits.length → (∀ visit ∈ visits, visit.Within start stop) →
          follow codec states object kind visits none = .ok (listed, none)
  accepted : ∀ visit cursor page next, visit.begun ≤ visit.read → visit.read ≤ visit.ended →
    historyAt codec states object kind visit cursor = .ok page → page.nextCursor = some next →
      ∀ later stop, later.Within visit.ended stop → Steady states object visit.ended stop →
        ∃ page, historyAt codec states object kind later (some next) = .ok page
  refused : ∀ visit cursor page next, visit.begun ≤ visit.read → visit.read ≤ visit.ended →
    historyAt codec states object kind visit cursor = .ok page → page.nextCursor = some next →
      ∀ later changed, later.begun ≤ later.read → later.read ≤ later.ended → visit.ended ≤ later.begun →
        visit.ended ≤ changed → changed ≤ later.ended →
        (((states changed).state object).version ≠ ((states visit.ended).state object).version ∨
          ((states changed).state object).catalogVersion ≠ ((states visit.ended).state object).catalogVersion) →
        ∃ error, historyAt codec states object kind later (some next) = .error error

/-- A cursor that was issued, as far as the versions stay. -/
theorem reaches_issued (chronicle : Chronicle parsers states object) {visit : Visit} (read : visit.begun ≤ visit.read)
    (ended : visit.read ≤ visit.ended) {next : Str}
    (issued : Issued codec (states visit.begun) (states visit.read) (states visit.ended) object kind next) :
    ∃ k entry remaining, codec.key object = .ok k ∧ entry.Nameable kind ∧
      next = issueCursor k ((states visit.begun).state object) kind entry ∧
      Reaches k kind ((states visit.ended).state object).stamp (kind.listed ((states visit.ended).entries object kind))
        (some next) remaining := by
  obtain ⟨k, entry, named, member, rfl⟩ := issued.issued
  have steady : Steady states object visit.begun visit.ended := ⟨issued.version, issued.catalogVersion, issued.present⟩
  obtain ⟨-, stamp, atEnd⟩ := steady.inside chronicle (read.trans ended) (Nat.le_refl _)
  obtain ⟨-, -, atRead⟩ := steady.inside chronicle read ended
  have nameable := (listable_entries (chronicle.sound visit.read) object kind).nameable entry member
  have present : entry ∈ kind.listed ((states visit.ended).entries object kind) := by
    rw [listed_perm.mem_iff, atEnd kind, ← atRead kind]
    exact member
  obtain ⟨front, rear, split⟩ := List.append_of_mem present
  refine ⟨k, entry, rear, named, nameable, rfl, ?_⟩
  exact .behind front rear entry _ split stamp.symm (inRange_state (chronicle.sound visit.begun) object)

/-- A cursor for other versions is refused. -/
theorem historyInner_refused {first second third : Library} {k : Str} (named : codec.key object = .ok k)
    {state : ObjectState} {entry : HistoryEntry} (nameable : entry.Nameable kind) {limit : ℕ}
    (moved : state.stamp ≠ (first.state object).stamp ∨
      (third.state object).version ≠ (first.state object).version ∨
        (third.state object).catalogVersion ≠ (first.state object).catalogVersion) :
    ∃ error, historyInner codec first second third object kind (some (issueCursor k state kind entry)) limit =
      .error error := by
  cases answered : historyInner codec first second third object kind (some (issueCursor k state kind entry)) limit with
  | error error => exact ⟨error, rfl⟩
  | ok page =>
    exfalso
    simp only [historyInner, bind_eq_ok, ite_error_eq_ok] at answered
    obtain ⟨-, k', named', -, -, place, parsed, unchanged, -⟩ := answered
    cases named.symm.trans named'
    simp only [Bool.or_eq_true, not_or, decide_eq_true_eq, ne_eq, Decidable.not_not] at unchanged
    rw [readPlace, parse_issue (key_ok named).1 nameable] at parsed
    rcases moved with other | version | catalogVersion
    · rw [if_neg other] at parsed
      cases parsed
    · exact version unchanged.1.1
    · exact catalogVersion unchanged.1.2

theorem contract_of_chronicle (chronicle : Chronicle parsers states object) : HistoryContract codec states object kind where
  exact start stop steady valid supported := by
    have listable := listable_entries (chronicle.sound start) object kind
    refine ⟨_, listed_perm, listed_pairwise listable, ?_⟩
    intro visits some enough within
    have named : codec.key object = .ok (hex (codec.sha256 (codec.toJson object)).toList) := by
      simp only [KeyCodec.key, valid, ok_bind, pure_eq_ok]
    exact follow_ok chronicle steady named supported within .start some enough
  accepted visit cursor page next read ended answered more later stop within steady := by
    have issued := historyInner_inv answered more
    obtain ⟨k, entry, remaining, named, -, -, reaches⟩ := reaches_issued chronicle read ended issued
    exact ⟨_, historyAt_ok chronicle steady named issued.supported within reaches⟩
  refused visit cursor page next read ended answered more later changed read' ended' after begun stop moved := by
    have issued := historyInner_inv answered more
    obtain ⟨k, entry, remaining, named, nameable, rfl, -⟩ := reaches_issued chronicle read ended issued
    apply historyInner_refused named nameable
    -- otherwise the versions are those of the cursor all the way to the end of the request
    by_contra still
    simp only [not_or, ne_eq, Decidable.not_not] at still
    obtain ⟨stamp, version, catalogVersion⟩ := still
    obtain ⟨versions, catalogs⟩ := stamp_injective stamp
    have near := chronicle.follows visit.ended changed begun
    have far := chronicle.follows changed later.ended stop
    have nearVersion := near.version
    have farVersion := far.version
    have nearCatalog := near.catalogVersion
    have farCatalog := far.catalogVersion
    have endVersion := issued.version
    have endCatalog := issued.catalogVersion
    rcases moved with other | other <;> omega

/-- Whatever happens to the corpus, the pages of the history of an object list its rows exactly once and in order while
its versions stay; the cursors of its pages are accepted as long, and refused ever after. -/
theorem history_paging (parsers : Parsers) (codec : KeyCodec) (now maxJobAttempts : ℕ) (maxRawBytes : Option ℕ)
    (events : List LibraryEvent) (object : ObjectId) (kind : HistoryKind) :
    HistoryContract codec
      (fun moment => (Library.initial now maxJobAttempts maxRawBytes).run parsers
        (fun bytes => (codec.sha256 bytes).toList) (events.take moment)) object kind :=
  contract_of_chronicle (chronicle_run _ (Library.initial_sound now maxJobAttempts maxRawBytes) events)

end Runs

/-- Three revisions, one with a colon in its name and one without a date, one by one. -/
example :
    let statute : ObjectId := ⟨"kr".toList, "law_go_kr".toList, .nationalStatute, "1".toList⟩
    let events : List LibraryEvent :=
      [.recordRevisionCatalog statute ['b'] none none,
        .recordRevisionCatalog statute ['a', ':', '1'] (some "20240101".toList) none,
        .recordRevisionCatalog statute ['c'] (some "20200101".toList) (some "20240102".toList)]
    let states := fun moment => (Library.initial 0 3 none).run ⟨fun _ => none, fun _ => none⟩ (fun _ => [])
      (events.take moment)
    (follow ⟨fun _ => [], fun _ => .replicate 32 0⟩ states statute .revisions (.replicate 3 ⟨1, 3, 3, 3⟩) none).toOption.map
        (fun (entries, last) => (entries.map HistoryEntry.revisionId, last)) =
      some ([['c'], ['a', ':', '1'], ['b']], none) := by
  decide +kernel

end OpenLegal.Corpus.Database
