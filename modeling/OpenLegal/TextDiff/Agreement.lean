import OpenLegal.TextDiff.Highlights
import OpenLegal.TextDiff.RoundTrip

/-! # Producer and checker agree

What the diff producer writes passes every check of the pager: its headers name the lines they stand
for, its rows are the lines of both texts, its annotations are consumed one by one, and the encoded
size that the pager estimates for a part bounds the size that is checked when the part is closed. The
only limit that a produced diff can reach is the number of ranges of a single line.
-/

namespace OpenLegal.TextDiff.Paging

open Rust Rust.Str Theory Theory.Script Written

/-! ## Encoded sizes -/

/-- The serializer writes compact JSON. -/
structure SerdeJson.IsCompact (json : SerdeJson) : Prop where
  stringLen : ∀ s, json.stringLen s = SerdeJson.compact.stringLen s
  fragmentLen : ∀ fragment, json.fragmentLen fragment = SerdeJson.compact.fragmentLen fragment

/-- The encoded bytes of a text between its quotes. -/
def escaped (s : Str) : ℕ := (s.map SerdeJson.escapedLen).sum

@[simp] theorem escaped_append (s t : Str) : escaped (s ++ t) = escaped s + escaped t := by simp [escaped]

theorem escapedLen_le (c : Char) : SerdeJson.escapedLen c ≤ 6 ∧ SerdeJson.escapedLen c ≤ 6 * c.utf8Size := by
  have small := c.utf8Size_le_four
  have positive := c.utf8Size_pos
  rw [SerdeJson.escapedLen]
  split_ifs <;> omega

theorem escaped_le_length (s : Str) : escaped s ≤ 6 * s.length := by
  induction s with
  | nil => rfl
  | cons c s ih =>
    have := (escapedLen_le c).1
    simp only [escaped, List.map_cons, List.sum_cons, List.length_cons] at ih ⊢
    omega

theorem escaped_le_byteLen (s : Str) : escaped s ≤ 6 * byteLen s := by
  induction s with
  | nil => rfl
  | cons c s ih =>
    have := (escapedLen_le c).2
    simp only [escaped, List.map_cons, List.sum_cons, byteLen_cons] at ih ⊢
    omega

theorem decimal_length_le {n : ℕ} (small : n < 10 ^ 10) : (decimal n).length ≤ 10 :=
  (Nat.length_toDigits_le_iff (by decide) (by decide)).mpr small

/-- The bytes of one annotation. -/
def changeLen (change : InlineChange) : ℕ :=
  SerdeJson.itemsLen [9 + 3 + (decimal change.rowIndex).length,
    6 + 3 + SerdeJson.itemsLen (change.ranges.map fun range =>
      SerdeJson.itemsLen [(decimal range.1).length, (decimal range.2).length])]

theorem compact_stringLen (s : Str) : SerdeJson.compact.stringLen s = 2 + escaped s := rfl

theorem compact_fragmentLen (fragment : DiffFragment) : SerdeJson.compact.fragmentLen fragment =
    SerdeJson.itemsLen [5 + 3 + (2 + escaped fragment.patch), 12 + 3 + (decimal fragment.beforeStart).length,
      12 + 3 + (decimal fragment.beforeCount).length, 11 + 3 + (decimal fragment.afterStart).length,
      11 + 3 + (decimal fragment.afterCount).length,
      14 + 3 + SerdeJson.itemsLen (fragment.inlineChanges.map changeLen)] := rfl

/-- Items cost one byte each on top of their own, and the brackets two. -/
theorem itemsLen_map_le {α : Type} (items : List α) (size : α → ℕ) :
    SerdeJson.itemsLen (items.map size) ≤ 2 + (items.map fun item => size item + 1).sum := by
  have each : (items.map fun item => size item + 1).sum = (items.map size).sum + items.length := by
    induction items with
    | nil => rfl
    | cons item items ih =>
      simp only [List.map_cons, List.sum_cons, List.length_cons, ih]
      omega
  rw [SerdeJson.itemsLen, each, List.length_map]
  omega

/-- The estimate for an annotation covers its encoding. -/
theorem changeLen_le (row : ℕ) {ranges : List ScalarRange} (rowBound : row ≤ 400)
    (small : ∀ range ∈ ranges, range.1 < 10 ^ 10 ∧ range.2 < 10 ^ 10) :
    changeLen ⟨row, ranges⟩ + 1 ≤ serializedHighlightSize ranges := by
  have digits := decimal_length_le (n := row) (by omega)
  have each : (ranges.map fun range =>
      SerdeJson.itemsLen [(decimal range.1).length, (decimal range.2).length] + 1).sum ≤ ranges.length * 24 := by
    induction ranges with
    | nil => simp
    | cons range ranges ih =>
      obtain ⟨first, others⟩ := List.forall_mem_cons.mp small
      have start := decimal_length_le first.1
      have stop := decimal_length_le first.2
      have rest := ih others
      simp only [List.map_cons, List.sum_cons, List.length_cons, SerdeJson.itemsLen, List.sum_nil, List.length_nil] at rest ⊢
      omega
  have all := itemsLen_map_le ranges fun range =>
    SerdeJson.itemsLen [(decimal range.1).length, (decimal range.2).length]
  rw [changeLen, serializedHighlightSize]
  dsimp only
  simp only [SerdeJson.itemsLen, List.sum_cons, List.sum_nil, List.length_cons, List.length_nil] at all each ⊢
  omega

/-- The estimate of a part covers its rows, and its coordinates are those of lines. -/
structure Estimated (part : Part) : Prop where
  rows : part.rows ≤ 400
  before : part.before ≤ maxLines + 1
  after : part.after ≤ maxLines + 1
  beforeCount : part.beforeCount ≤ part.rows
  afterCount : part.afterCount ≤ part.rows
  size : escaped part.body + (part.inlineChanges.map fun change => changeLen change + 1).sum ≤ part.encoded

theorem estimated_fresh {before after : ℕ} (beforeBound : before ≤ maxLines + 1) (afterBound : after ≤ maxLines + 1) :
    Estimated { before, after } where
  rows := Nat.zero_le _
  before := beforeBound
  after := afterBound
  beforeCount := le_rfl
  afterCount := le_rfl
  size := le_rfl

/-- A fragment has at most 1024 bytes beyond the estimate of its part. -/
theorem Estimated.fragmentLen_le {part : Part} (estimated : Estimated part) :
    SerdeJson.compact.fragmentLen part.finish ≤ part.encoded + 1024 := by
  have rows := estimated.rows
  have before := estimated.before
  have after := estimated.after
  have beforeCount := estimated.beforeCount
  have afterCount := estimated.afterCount
  have lines : maxLines = 100000 := rfl
  have startDigits : (decimal part.finish.beforeStart).length ≤ 10 := by
    apply decimal_length_le
    simp only [Part.finish]
    split_ifs <;> omega
  have afterDigits : (decimal part.finish.afterStart).length ≤ 10 := by
    apply decimal_length_le
    simp only [Part.finish]
    split_ifs <;> omega
  have countDigits := decimal_length_le (n := part.beforeCount) (by omega)
  have afterCountDigits := decimal_length_le (n := part.afterCount) (by omega)
  have front : escaped (beforeHeader ++ afterHeader ++ Part.header part.finish.beforeStart part.beforeCount
      part.finish.afterStart part.afterCount) ≤ 6 * 80 := by
    apply (escaped_le_length _).trans
    apply Nat.mul_le_mul_left
    simp only [Part.header, beforeHeader, afterHeader, List.length_append, List.length_cons, List.length_nil]
    omega
  have patch : part.finish.patch = beforeHeader ++ afterHeader ++ Part.header part.finish.beforeStart part.beforeCount
      part.finish.afterStart part.afterCount ++ part.body := rfl
  have changes := itemsLen_map_le part.inlineChanges changeLen
  have size := estimated.size
  rw [compact_fragmentLen, patch, escaped_append]
  have inlineChanges : part.finish.inlineChanges = part.inlineChanges := rfl
  have shownBefore : part.finish.beforeCount = part.beforeCount := rfl
  have shownAfter : part.finish.afterCount = part.afterCount := rfl
  rw [inlineChanges, shownBefore, shownAfter]
  generalize SerdeJson.itemsLen (part.inlineChanges.map changeLen) = changesLen at changes ⊢
  simp only [SerdeJson.itemsLen, List.sum_cons, List.sum_nil, List.length_cons, List.length_nil]
  omega

/-- A row whose size is estimated as the pager does leaves an estimated part. -/
theorem Estimated.push {part : Part} (estimated : Estimated part) (sign : Char) (line : Str) (noNewline : Bool)
    (ranges : Option (List ScalarRange)) {encoded : ℕ} (rangeCount : ℕ) (rows : part.rows < 400)
    (estimate : encoded = 2 + escaped line + (ranges.map serializedHighlightSize).getD 0 + if noNewline then 40 else 0)
    (small : ∀ found, ranges = some found → ∀ range ∈ found, range.1 < 10 ^ 10 ∧ range.2 < 10 ^ 10) :
    Estimated (part.push sign line noNewline ranges encoded rangeCount) where
  rows := rows
  before := estimated.before
  after := estimated.after
  beforeCount := by
    have := estimated.beforeCount
    simp only [Part.push]
    split_ifs <;> omega
  afterCount := by
    have := estimated.afterCount
    simp only [Part.push]
    split_ifs <;> omega
  size := by
    have size := estimated.size
    have markerSize : escaped marker = 30 := by decide
    have annotation : ((ranges.map fun ranges => (⟨part.rows, ranges⟩ : InlineChange)).toList.map
        fun change => changeLen change + 1).sum ≤ (ranges.map serializedHighlightSize).getD 0 := by
      cases ranges with
      | none => simp
      | some found => simpa using changeLen_le part.rows (by omega) (small found rfl)
    have ending : escaped (if noNewline then marker else []) ≤ if noNewline then 40 else 0 := by
      cases noNewline with
      | false => exact le_rfl
      | true => rw [if_pos rfl, if_pos rfl, markerSize]; decide
    simp only [Part.push, escaped_append, List.map_append, List.sum_append] at annotation ⊢
    omega

/-- A part that can be closed: what it estimates bounds what it encodes, and leaves room for its envelope. -/
structure Fits (part : Part) : Prop where
  empty : part.rows = 0 → part.encoded = 0 ∧ part.rangeCount = 0
  rows : part.rows ≤ 400
  before : part.before ≤ maxLines + 1
  after : part.after ≤ maxLines + 1
  beforeCount : part.beforeCount ≤ part.rows
  afterCount : part.afterCount ≤ part.rows
  encoded : part.encoded + 1024 ≤ pageBytesLimit
  ranges : part.rangeCount ≤ maxPageInlineRanges
  size : escaped part.body + (part.inlineChanges.map fun change => changeLen change + 1).sum ≤ part.encoded

theorem Fits.estimated {part : Part} (fits : Fits part) : Estimated part :=
  ⟨fits.rows, fits.before, fits.after, fits.beforeCount, fits.afterCount, fits.size⟩

theorem fits_fresh {before after : ℕ} (beforeBound : before ≤ maxLines + 1) (afterBound : after ≤ maxLines + 1) :
    Fits { before, after } where
  empty := fun _ => ⟨rfl, rfl⟩
  rows := Nat.zero_le _
  before := beforeBound
  after := afterBound
  beforeCount := le_rfl
  afterCount := le_rfl
  encoded := by show 0 + 1024 ≤ pageBytesLimit; decide
  ranges := Nat.zero_le _
  size := le_rfl

/-- The checked size of a fragment stays in the limit. -/
theorem Fits.fragmentLen_le {part : Part} (fits : Fits part) :
    SerdeJson.compact.fragmentLen part.finish ≤ pageBytesLimit := by
  have := fits.encoded
  have := fits.estimated.fragmentLen_le
  omega

/-- A part with rows that fits is closed. -/
theorem Fits.finishPart {json : SerdeJson} (compact : json.IsCompact) {part : Part} (fits : Fits part)
    (inhabited : 0 < part.rows) (state : State) : ∃ final, finishPart json state part = .ok final := by
  have bytes : ¬(json.fragmentLen part.finish > pageBytesLimit) := by
    rw [compact.fragmentLen]
    exact not_lt.mpr fits.fragmentLen_le
  have ranges : ¬(part.rangeCount > maxPageInlineRanges) := not_lt.mpr fits.ranges
  have rows : (part.rows == 0) = false := by simpa using Nat.ne_of_gt inhabited
  simp only [Paging.finishPart, rows, internal, Bool.false_eq_true, if_false, ok_bind, bytes, ranges, decide_false, Bool.or_self]
  split_ifs <;> exact ⟨_, rfl⟩

/-! ## Headers -/

theorem range_coordinates (sign : Char) {start len : ℕ} (bound : start + len ≤ maxLines) :
    range (some (sign :: Compute.coordinates start len)) sign = .ok (if len = 0 then start else start + 1, len) := by
  have strip : stripPrefix [sign] (sign :: Compute.coordinates start len) =
      some (Compute.coordinates start len) := stripPrefix_append [sign] _
  have limit : maxLines < 2 ^ 64 := by decide
  have startBound : (if len = 0 then start else start + 1) ≤ maxLines := by split_ifs <;> omega
  have inside : (decide ((if len = 0 then start else start + 1) > maxLines + 1) || decide (len > maxLines)) = false := by
    simp only [Bool.or_eq_false_iff, decide_eq_false_iff_not]
    omega
  rw [range, Option.bind_some, strip]
  simp only [requireInternal, Option.elim_some, ok_bind, splitOnce_coordinates,
    parseUsize_decimal (lt_of_le_of_lt startBound limit), parseUsize_decimal (show len < 2 ^ 64 by omega), inside, internal,
    Bool.false_eq_true, if_false, pure_eq_ok]

private theorem visible_coordinates (sign : Char) (visible : isAsciiWhitespace sign = false) (start len : ℕ) :
    ∀ c ∈ sign :: Compute.coordinates start len, isAsciiWhitespace c = false := by
  rw [List.forall_mem_cons]
  refine ⟨visible, fun c member => ?_⟩
  rcases mem_coordinates member with digit | rfl
  · have bounds := Char.isDigit_iff_toNat.mp digit
    rw [Bool.eq_false_iff]
    intro blank
    simp only [isAsciiWhitespace, Bool.or_eq_true, beq_iff_eq] at blank
    rcases blank with (((rfl | rfl) | rfl) | rfl) | rfl <;> revert bounds <;> decide
  · decide

/-- A written header is read as the numbers it shows. -/
theorem headerRanges_hunkHeader {oldStart oldLen newStart newLen : ℕ} (oldBound : oldStart + oldLen ≤ maxLines)
    (newBound : newStart + newLen ≤ maxLines) :
    headerRanges (Compute.hunkHeader oldStart oldLen newStart newLen) =
      .ok ((if oldLen = 0 then oldStart else oldStart + 1, oldLen),
        (if newLen = 0 then newStart else newStart + 1, newLen)) := by
  have tokens : splitAsciiWhitespace (Compute.hunkHeader oldStart oldLen newStart newLen) =
      [['@', '@'], '-' :: Compute.coordinates oldStart oldLen, '+' :: Compute.coordinates newStart newLen, ['@', '@']] := by
    have header : Compute.hunkHeader oldStart oldLen newStart newLen = ['@', '@'] ++ ' ' ::
        (('-' :: Compute.coordinates oldStart oldLen) ++ ' ' ::
          (('+' :: Compute.coordinates newStart newLen) ++ ' ' :: (['@', '@'] ++ '\n' :: []))) := by
      simp [Compute.hunkHeader]
    rw [header, splitAsciiWhitespace_append (by simp) (by simp [isAsciiWhitespace]) (by decide),
      splitAsciiWhitespace_append (by simp) (visible_coordinates '-' (by decide) _ _) (by decide),
      splitAsciiWhitespace_append (by simp) (visible_coordinates '+' (by decide) _ _) (by decide),
      splitAsciiWhitespace_append (by simp) (by simp [isAsciiWhitespace]) (by decide)]
    rfl
  rw [headerRanges, tokens]
  simp only [List.getElem?_cons_zero, List.getElem?_cons_succ, List.getElem?_nil, range_coordinates '-' oldBound,
    range_coordinates '+' newBound, ok_bind, internal, pure_eq_ok]
  rfl

/-! ## Rows -/

/-- The annotations that wait for their rows: one for each remaining change, with ranges of its line. -/
structure Pending (oldLines newLines : List Str) (keys : List (DiffSide × ℕ)) (annotations : Annotations) : Prop where
  keys : (annotations.map Prod.fst).Perm keys
  valid : ValidAnnotations oldLines newLines annotations
  few : ∀ entry ∈ annotations, entry.2.length ≤ maxPageInlineRanges

theorem takeHighlight_of_mem {key : DiffSide × ℕ} {annotations : Annotations}
    (present : key ∈ annotations.map Prod.fst) :
    ∃ ranges rest, takeHighlight key annotations = some (ranges, rest) ∧
      annotations.Perm ((key, ranges) :: rest) := by
  induction annotations with
  | nil => cases present
  | cons entry annotations ih =>
    by_cases same : entry.1 = key
    · refine ⟨entry.2, annotations, by rw [takeHighlight, if_pos same], ?_⟩
      rw [← same]
    · rw [List.map_cons, List.mem_cons] at present
      obtain ⟨ranges, rest, taken, perm⟩ := ih (present.resolve_left fun here => same here.symm)
      refine ⟨ranges, entry :: rest, ?_, ?_⟩
      · rw [takeHighlight, if_neg same, taken]
        rfl
      · exact (perm.cons entry).trans (List.Perm.swap ..)

/-- The next pending annotation is there, and the others stay pending. -/
theorem Pending.take {oldLines newLines : List Str} {key : DiffSide × ℕ} {keys : List (DiffSide × ℕ)}
    {annotations : Annotations} (pending : Pending oldLines newLines (key :: keys) annotations) :
    ∃ ranges rest, takeHighlight key annotations = some (ranges, rest) ∧ Pending oldLines newLines keys rest ∧
      ranges.length ≤ maxPageInlineRanges := by
  obtain ⟨ranges, rest, taken, perm⟩ := takeHighlight_of_mem (pending.keys.mem_iff.mpr List.mem_cons_self)
  have members : ∀ entry ∈ (key, ranges) :: rest, entry ∈ annotations := fun entry member => perm.mem_iff.mpr member
  refine ⟨ranges, rest, taken, ⟨?_, ?_, ?_⟩, ?_⟩
  · exact List.Perm.cons_inv ((perm.map Prod.fst).symm.trans pending.keys)
  · exact fun entry member => pending.valid entry (members entry (List.mem_cons_of_mem _ member))
  · exact fun entry member => pending.few entry (members entry (List.mem_cons_of_mem _ member))
  · exact pending.few (key, ranges) (members _ List.mem_cons_self)

/-- A row consumes its own annotation. -/
theorem Pending.consumeHighlight {oldLines newLines : List Str} {tag : ChangeTag} {text : Str} {rows : Script Str}
    {more : List (DiffSide × ℕ)} {state : State}
    (pending : Pending oldLines newLines (scriptKeys state.oldCursor state.newCursor ((tag, text) :: rows) ++ more)
      state.annotations) :
    ∃ ranges rest, consumeHighlight (Compute.rowSign tag) state = .ok (ranges, rest) ∧
      Pending oldLines newLines (scriptKeys (state.oldCursor + (source [(tag, text)]).length)
        (state.newCursor + (target [(tag, text)]).length) rows ++ more) rest ∧
      ∀ found, ranges = some found → found.length ≤ maxPageInlineRanges := by
  cases tag with
  | equal => exact ⟨none, state.annotations, rfl, pending, by simp⟩
  | delete =>
    obtain ⟨ranges, rest, taken, others, few⟩ := pending.take
    refine ⟨some ranges, rest, ?_, others, by rintro _ ⟨⟩; exact few⟩
    simp [Paging.consumeHighlight, Compute.rowSign, taken, requireInternal]
  | insert =>
    obtain ⟨ranges, rest, taken, others, few⟩ := pending.take
    refine ⟨some ranges, rest, ?_, others, by rintro _ ⟨⟩; exact few⟩
    simp [Paging.consumeHighlight, Compute.rowSign, taken, requireInternal]

/-- There is room for a row in the current part or in a fresh one. -/
theorem Fits.fitPart {json : SerdeJson} (compact : json.IsCompact) {part : Part} (fits : Fits part)
    {encoded rangeCount : ℕ} (small : encoded + 1024 ≤ pageBytesLimit) (few : rangeCount ≤ maxPageInlineRanges)
    (state : State) (before : state.before ≤ maxLines + 1) (after : state.after ≤ maxLines + 1) :
    ∃ next pages page pageRows pageBytes pageRanges,
      fitPart json encoded rangeCount part state =
        .ok (next, { state with pages, page, pageRows, pageBytes, pageRanges }) ∧
      Fits next ∧ next.rows < 400 ∧ next.encoded + encoded + 1024 ≤ pageBytesLimit ∧
      next.rangeCount + rangeCount ≤ maxPageInlineRanges := by
  by_cases full : part.rows ≥ 400 || part.encoded + encoded + 1024 > pageBytesLimit ||
      part.rangeCount + rangeCount > maxPageInlineRanges
  · have inhabited : 0 < part.rows := by
      simp only [Bool.or_eq_true, decide_eq_true_eq] at full
      have empty := fits.empty
      omega
    obtain ⟨final, closed⟩ := fits.finishPart compact inhabited state
    obtain ⟨pages, page, pageRows, pageBytes, pageRanges, rfl, -⟩ := finishPart_ok closed
    refine ⟨{ before := state.before, after := state.after }, pages, page, pageRows, pageBytes, pageRanges, ?_,
      fits_fresh before after, by simp, by simpa using small, by simpa using few⟩
    rw [Paging.fitPart, if_pos full, closed]
    rfl
  · refine ⟨part, state.pages, state.page, state.pageRows, state.pageBytes, state.pageRanges, ?_, fits, ?_⟩
    · rw [Paging.fitPart, if_neg full]
      rfl
    · simp only [Bool.or_eq_true, decide_eq_true_eq] at full
      omega

/-- A row whose size is estimated as the pager does leaves a part that fits. -/
theorem Fits.push {part : Part} (fits : Fits part) (tag : ChangeTag) (line : Str) (noNewline : Bool)
    (ranges : Option (List ScalarRange)) {encoded rangeCount : ℕ} (rows : part.rows < 400)
    (room : part.encoded + encoded + 1024 ≤ pageBytesLimit)
    (few : part.rangeCount + rangeCount ≤ maxPageInlineRanges)
    (estimate : encoded = 2 + escaped line + (ranges.map serializedHighlightSize).getD 0 + if noNewline then 40 else 0)
    (small : ∀ found, ranges = some found → ∀ range ∈ found, range.1 < 10 ^ 10 ∧ range.2 < 10 ^ 10) :
    Fits (part.push (Compute.rowSign tag) line noNewline ranges encoded rangeCount) := by
  have next := fits.estimated.push (Compute.rowSign tag) line noNewline ranges rangeCount rows estimate small
  exact {
    empty := fun none => by cases none
    rows := next.rows
    before := next.before
    after := next.after
    beforeCount := next.beforeCount
    afterCount := next.afterCount
    encoded := by
      simp only [Part.push]
      omega
    ranges := few
    size := next.size }

/-- The reader stands in a hunk after `i` old and `j` new lines, in front of `rows`. -/
structure InHunk (oldLines newLines : List Str) (i j : ℕ) (rows : Script Str) (more : List (DiffSide × ℕ)) (state : State) :
    Prop where
  pending : Pending oldLines newLines (scriptKeys i j rows ++ more) state.annotations
  oldCursor : state.oldCursor = i
  newCursor : state.newCursor = j
  before : state.before = i + 1
  after : state.after = j + 1
  oldRemaining : state.oldRemaining = (source rows).length
  newRemaining : state.newRemaining = (target rows).length
  sawHunk : state.sawHunk = true
  part : ∃ part, state.part = some part ∧ Fits part ∧ (state.hunkChanged = true → 0 < part.rows)

theorem ranges_small {text : Str} (short : text.length ≤ maxLineBytes + 1) {ranges : List ScalarRange}
    (ordered : OrderedRanges text.length ranges) : ∀ range ∈ ranges, range.1 < 10 ^ 10 ∧ range.2 < 10 ^ 10 := by
  intro range member
  have inside := ordered.2 range member
  have limit : maxLineBytes = 16384 := rfl
  omega

/-- A written row is accepted. -/
theorem InHunk.dataRow {json : SerdeJson} (compact : json.IsCompact) {oldLines newLines : List Str} {i j : ℕ}
    {tag : ChangeTag} {text line : Str} {rows : Script Str} {more : List (DiffSide × ℕ)} {state : State}
    (inHunk : InHunk oldLines newLines i j ((tag, text) :: rows) more state) (oldBound : i ≤ maxLines)
    (newBound : j ≤ maxLines) (matched : RowMatch oldLines newLines state tag text)
    (short : text.length ≤ maxLineBytes + 1) {noNewline : Bool} (bytes : byteLen line ≤ maxLineBytes + 2)
    (head : line.head? = some (Compute.rowSign tag)) (ends : endsWith line '\n' = true)
    (shown : (if noNewline then line.tail.dropLast else line.tail) = text) :
    ∃ next, dataRow json oldLines newLines line noNewline state = .ok next ∧
      InHunk oldLines newLines (i + (source [(tag, text)]).length) (j + (target [(tag, text)]).length) rows more next ∧
      next.hunkChanged = (state.hunkChanged || tag ≠ .equal) := by
  obtain ⟨part, opened, fits, -⟩ := inHunk.part
  have pending := inHunk.pending
  rw [← inHunk.oldCursor, ← inHunk.newCursor] at pending
  obtain ⟨ranges, rest, consumed, others, few⟩ := pending.consumeHighlight
  obtain ⟨-, ordered, -⟩ := consumeHighlight_ok pending.valid matched consumed
  have rangeFew : (ranges.map List.length).getD 0 ≤ maxPageInlineRanges := by
    cases ranges with
    | none => exact Nat.zero_le _
    | some found => exact few found rfl
  have limits : maxLineBytes = 16384 ∧ maxPageInlineRanges = 4096 ∧ pageBytesLimit = 245760 := ⟨rfl, rfl, rfl⟩
  have small : json.stringLen line + (ranges.map serializedHighlightSize).getD 0 + (if noNewline then 40 else 0) + 1024 ≤
      pageBytesLimit := by
    have text := escaped_le_byteLen line
    have annotation : (ranges.map serializedHighlightSize).getD 0 ≤ 64 + 4096 * 24 := by
      cases ranges with
      | none => exact Nat.zero_le _
      | some found =>
        have := few found rfl
        simp only [Option.map_some, Option.getD_some, serializedHighlightSize]
        omega
    have ending : (if noNewline then 40 else 0) ≤ 40 := by split_ifs <;> omega
    rw [compact.stringLen, compact_stringLen]
    omega
  obtain ⟨next, pages, page, pageRows, pageBytes, pageRanges, fitted, nextFits, nextRows, room, nextFew⟩ :=
    fits.fitPart compact small rangeFew { state with annotations := rest }
      (by simp only [inHunk.before]; omega) (by simp only [inHunk.after]; omega)
  have sign : (!(Compute.rowSign tag == ' ' || Compute.rowSign tag == '+' || Compute.rowSign tag == '-') ||
      !endsWith line '\n') = false := by
    rw [ends]
    cases tag <;> rfl
  have oldMatch : (decide (Compute.rowSign tag ≠ '+') && decide (oldLines[state.oldCursor]? ≠ some text)) = false := by
    cases tag with
    | insert => rfl
    | _ => simp [matched.old (by simp)]
  have newMatch : (decide (Compute.rowSign tag ≠ '-') && decide (newLines[state.newCursor]? ≠ some text)) = false := by
    cases tag with
    | delete => rfl
    | _ => simp [matched.new (by simp)]
  have oldRoom : (decide (Compute.rowSign tag ≠ '+') && (state.oldRemaining == 0)) = false := by
    rw [inHunk.oldRemaining]
    cases tag <;> simp [Compute.rowSign]
  have newRoom : (decide (Compute.rowSign tag ≠ '-') && (state.newRemaining == 0)) = false := by
    rw [inHunk.newRemaining]
    cases tag <;> simp [Compute.rowSign]
  refine ⟨pushed { state with annotations := rest, pages, page, pageRows, pageBytes, pageRanges } (Compute.rowSign tag)
    (next.push (Compute.rowSign tag) line noNewline ranges (json.stringLen line +
      (ranges.map serializedHighlightSize).getD 0 + if noNewline then 40 else 0) ((ranges.map List.length).getD 0)), ?_, ?_, ?_⟩
  · simp only [opened] at fitted
    simp only [Paging.dataRow, opened, head, requireInternal, Option.elim_some, ok_bind, sign, internal, Bool.false_eq_true,
      if_false, shown, oldMatch, newMatch, consumed, fitted, oldRoom, newRoom]
    rfl
  · have fitsNext := nextFits.push tag line noNewline ranges nextRows room
      nextFew (by rw [compact.stringLen, compact_stringLen]) (fun found same => ranges_small short (ordered found same))
    have oldRemaining := inHunk.oldRemaining
    have newRemaining := inHunk.newRemaining
    have before := inHunk.before
    have after := inHunk.after
    rw [inHunk.oldCursor, inHunk.newCursor] at others
    constructor
    · exact others
    · cases tag <;> simp [pushed, Compute.rowSign, inHunk.oldCursor]
    · cases tag <;> simp [pushed, Compute.rowSign, inHunk.newCursor]
    · cases tag <;> simp [pushed, Compute.rowSign, before]
    · cases tag <;> simp [pushed, Compute.rowSign, after]
    · cases tag <;> simp [pushed, Compute.rowSign, oldRemaining]
    · cases tag <;> simp [pushed, Compute.rowSign, newRemaining]
    · exact inHunk.sawHunk
    · exact ⟨_, rfl, fitsNext, fun _ => Nat.succ_pos _⟩
  · cases tag <;> simp [pushed, Compute.rowSign]

/-- A line of a valid text. -/
def ShortLine (line : Str) : Prop := IsLine line ∧ lineTooLong line = false

theorem ShortLine.byteLen_le {line : Str} (short : ShortLine line) :
    byteLen line + (if endsWith line '\n' then 0 else 1) ≤ maxLineBytes + 1 := by
  obtain ⟨isLine, fits⟩ := short
  rw [lineTooLong, decide_eq_false_iff_not, not_lt] at fits
  rcases isLine with ⟨body, -, rfl⟩ | ⟨-, absent⟩
  · have newline : ('\n' : Char).utf8Size = 1 := rfl
    rw [stripSuffix_concat, Option.getD_some] at fits
    rw [endsWith_concat, beq_self_eq_true, if_pos rfl, byteLen_append, byteLen_cons, byteLen_nil, newline]
    omega
  · have plain : ¬endsWith line '\n' = true := fun found => absent (List.mem_of_getLast? (beq_iff_eq.mp found))
    have none : stripSuffix '\n' line = none := by
      rw [stripSuffix, if_neg plain]
    rw [none, Option.getD_none] at fits
    rw [if_neg plain]
    omega

/-- The reader takes a written row with its marker. -/
theorem readLines_row (json : SerdeJson) (oldLines newLines : List Str) (tag : ChangeTag) {text : Str}
    (short : ShortLine text) {rest : List Str} (noMarker : rest.head? ≠ some marker) (state : State) :
    ∃ line noNewline, line.head? = some (Compute.rowSign tag) ∧ endsWith line '\n' = true ∧
      (if noNewline then line.tail.dropLast else line.tail) = text ∧ byteLen line ≤ maxLineBytes + 2 ∧
      readLines json oldLines newLines (rowLines (tag, text) ++ rest) state =
        dataRow json oldLines newLines line noNewline state >>= readLines json oldLines newLines rest := by
  have bytes := short.byteLen_le
  have signSize : (Compute.rowSign tag).utf8Size = 1 := by cases tag <;> rfl
  have notHeader (more : Str) : ¬['@', '@', ' '].isPrefixOf (Compute.rowSign tag :: more) = true := by
    cases tag <;> simp [Compute.rowSign]
  by_cases terminated : endsWith text '\n' = true
  · rw [if_pos terminated] at bytes
    refine ⟨Compute.rowSign tag :: text, false, rfl, ?_, rfl, ?_, ?_⟩
    · obtain ⟨init, rfl⟩ := List.getLast?_eq_some_iff.mp (beq_iff_eq.mp terminated)
      rw [← List.cons_append, endsWith_concat]
      rfl
    · rw [byteLen_cons, signSize]
      omega
    · rw [rowLines, if_pos terminated, List.singleton_append, readLines.eq_def]
      dsimp only
      rw [if_neg (notHeader text), if_neg noMarker]
  · rw [if_neg terminated] at bytes
    have newline : ('\n' : Char).utf8Size = 1 := rfl
    have written : rowLines (tag, text) = [Compute.rowSign tag :: (text ++ ['\n']), marker] := by
      rw [rowLines, if_neg terminated]
      rfl
    refine ⟨Compute.rowSign tag :: (text ++ ['\n']), true, rfl, ?_, ?_, ?_, ?_⟩
    · rw [← List.cons_append, endsWith_concat]
      rfl
    · rw [if_pos rfl, List.tail_cons, List.dropLast_concat]
    · rw [byteLen_cons, byteLen_append, byteLen_cons, byteLen_nil, signSize, newline]
      omega
    · rw [written, List.cons_append, List.singleton_append, readLines.eq_def]
      dsimp only
      rw [if_neg (notHeader (text ++ ['\n'])), List.head?_cons, if_pos rfl]
      rfl

/-- The rows of a hunk are accepted one after the other. -/
theorem InHunk.readRows {json : SerdeJson} (compact : json.IsCompact) {oldLines newLines oldFront newFront oldRest newRest : List Str}
    {rows : Script Str} {more : List (DiffSide × ℕ)} {state : State}
    (inHunk : InHunk oldLines newLines oldFront.length newFront.length rows more state)
    (old : oldLines = oldFront ++ (source rows ++ oldRest)) (new : newLines = newFront ++ (target rows ++ newRest))
    (oldBound : oldLines.length ≤ maxLines) (newBound : newLines.length ≤ maxLines)
    (short : ∀ row ∈ rows, ShortLine row.2) {rest : List Str} (noMarker : rest.head? ≠ some marker) :
    ∃ final, readLines json oldLines newLines (rows.flatMap rowLines ++ rest) state =
        readLines json oldLines newLines rest final ∧
      InHunk oldLines newLines (oldFront ++ source rows).length (newFront ++ target rows).length [] more final ∧
      final.hunkChanged = (state.hunkChanged || rows.any (·.1 ≠ .equal)) := by
  induction rows generalizing state oldFront newFront with
  | nil => exact ⟨state, rfl, by simpa using inHunk, by simp⟩
  | cons row rows ih =>
    rcases row with ⟨tag, text⟩
    obtain ⟨here, others⟩ := List.forall_mem_cons.mp short
    obtain ⟨line, noNewline, head, ends, shown, bytes, reads⟩ := readLines_row json oldLines newLines tag here
      (rowLines_head_ne_marker rows noMarker) state
    have oldLength := congrArg List.length old
    have newLength := congrArg List.length new
    simp only [List.length_append] at oldLength newLength
    have matched : RowMatch oldLines newLines state tag text := by
      constructor
      · intro kept
        rw [inHunk.oldCursor, old]
        cases tag <;> simp_all
      · intro kept
        rw [inHunk.newCursor, new]
        cases tag <;> simp_all
    have textBytes : byteLen text + (if endsWith text '\n' then 0 else 1) ≤ maxLineBytes + 1 := here.byteLen_le
    have textLength := length_le_byteLen text
    obtain ⟨next, ran, inNext, changed⟩ := inHunk.dataRow compact (by omega) (by omega) matched
      (by split_ifs at textBytes <;> omega) bytes head ends shown
    have oldSplit : source ((tag, text) :: rows) = source [(tag, text)] ++ source rows := source_append [(tag, text)] rows
    have newSplit : target ((tag, text) :: rows) = target [(tag, text)] ++ target rows := target_append [(tag, text)] rows
    rw [← List.length_append, ← List.length_append] at inNext
    obtain ⟨final, same, done, finalChanged⟩ := ih inNext
      (by rw [List.append_assoc, ← List.append_assoc (source _), ← oldSplit]; exact old)
      (by rw [List.append_assoc, ← List.append_assoc (target _), ← newSplit]; exact new) others
    refine ⟨final, ?_, ?_, ?_⟩
    · rw [List.flatMap_cons, List.append_assoc, reads, ran, ok_bind, same]
    · rw [oldSplit, newSplit, ← List.append_assoc, ← List.append_assoc]
      exact done
    · rw [finalChanged, changed, List.any_cons, Bool.or_assoc]

/-! ## Hunks -/

/-- The reader stands between hunks: the last one, if any, is complete and changed something. -/
structure Between (oldLines newLines : List Str) (i j : ℕ) (keys : List (DiffSide × ℕ)) (state : State) : Prop where
  pending : Pending oldLines newLines keys state.annotations
  oldCursor : state.oldCursor = i
  newCursor : state.newCursor = j
  oldRemaining : state.oldRemaining = 0
  newRemaining : state.newRemaining = 0
  changed : state.sawHunk = true → state.hunkChanged = true
  part : ∀ part, state.part = some part → Fits part ∧ 0 < part.rows

theorem Between.finishPending {json : SerdeJson} (compact : json.IsCompact) {oldLines newLines : List Str} {i j : ℕ}
    {keys : List (DiffSide × ℕ)} {state : State} (between : Between oldLines newLines i j keys state) :
    ∃ pages page pageRows pageBytes pageRanges,
      finishPending json state = .ok { state with part := none, pages, page, pageRows, pageBytes, pageRanges } := by
  cases opened : state.part with
  | none =>
    refine ⟨state.pages, state.page, state.pageRows, state.pageBytes, state.pageRanges, ?_⟩
    have same : { state with part := none } = state := by rw [← opened]
    rw [Paging.finishPending, opened]
    exact congrArg Except.ok same.symm
  | some part =>
    obtain ⟨fits, inhabited⟩ := between.part part opened
    obtain ⟨final, closed⟩ := fits.finishPart compact inhabited { state with part := none }
    obtain ⟨pages, page, pageRows, pageBytes, pageRanges, rfl, -⟩ := finishPart_ok closed
    refine ⟨pages, page, pageRows, pageBytes, pageRanges, ?_⟩
    rw [Paging.finishPending, opened]
    exact closed

/-- A written header is accepted: the lines that it skips are the same on both sides. -/
theorem Between.openHunk {json : SerdeJson} (compact : json.IsCompact)
    {oldLines newLines oldFront newFront oldRest newRest : List Str} {hunk : Hunk Str} {more : List (DiffSide × ℕ)}
    {state : State}
    (between : Between oldLines newLines oldFront.length newFront.length
      (scriptKeys (oldFront.length + hunk.gap.length) (newFront.length + hunk.gap.length) hunk.rows ++ more) state)
    (old : oldLines = oldFront ++ (hunk.gap ++ (source hunk.rows ++ oldRest)))
    (new : newLines = newFront ++ (hunk.gap ++ (target hunk.rows ++ newRest)))
    (oldBound : oldLines.length ≤ maxLines) (newBound : newLines.length ≤ maxLines) :
    ∃ next, openHunk json oldLines newLines (Compute.hunkHeader (oldFront.length + hunk.gap.length)
        (source hunk.rows).length (newFront.length + hunk.gap.length) (target hunk.rows).length) state = .ok next ∧
      InHunk oldLines newLines (oldFront ++ hunk.gap).length (newFront ++ hunk.gap).length hunk.rows more next ∧
      next.hunkChanged = false := by
  have oldLength := congrArg List.length old
  have newLength := congrArg List.length new
  simp only [List.length_append] at oldLength newLength
  obtain ⟨pages, page, pageRows, pageBytes, pageRanges, closed⟩ := between.finishPending compact
  have complete : ((state.sawHunk && !state.hunkChanged) || decide (state.oldRemaining ≠ 0) ||
      decide (state.newRemaining ≠ 0)) = false := by
    rw [between.oldRemaining, between.newRemaining]
    cases saw : state.sawHunk with
    | false => rfl
    | true => simp [between.changed saw]
  have start (position count : ℕ) :
      (if count = 0 then position else position + 1) + (if count = 0 then 1 else 0) = position + 1 := by
    split_ifs <;> rfl
  have oldGap : getRange oldLines state.oldCursor (oldFront.length + hunk.gap.length) = some hunk.gap := by
    rw [old, between.oldCursor]
    exact getRange_of_lengths oldFront hunk.gap _ rfl rfl
  have newGap : getRange newLines state.newCursor (newFront.length + hunk.gap.length) = some hunk.gap := by
    rw [new, between.newCursor]
    exact getRange_of_lengths newFront hunk.gap _ rfl rfl
  refine ⟨{ state with
    pages, page, pageRows, pageBytes, pageRanges
    part := some { before := oldFront.length + hunk.gap.length + 1, after := newFront.length + hunk.gap.length + 1 }
    before := oldFront.length + hunk.gap.length + 1
    after := newFront.length + hunk.gap.length + 1
    oldRemaining := (source hunk.rows).length
    newRemaining := (target hunk.rows).length
    oldCursor := oldFront.length + hunk.gap.length
    newCursor := newFront.length + hunk.gap.length
    sawHunk := true
    hunkChanged := false }, ?_, ?_, rfl⟩
  · simp only [Paging.openHunk, complete, internal, Bool.false_eq_true, if_false, ok_bind, closed,
      headerRanges_hunkHeader (show oldFront.length + hunk.gap.length + (source hunk.rows).length ≤ maxLines by omega)
        (show newFront.length + hunk.gap.length + (target hunk.rows).length ≤ maxLines by omega),
      start, Nat.add_sub_cancel, oldGap, newGap, requireInternal, Option.elim_some, ne_eq, not_true_eq_false, decide_false]
    rfl
  · rw [List.length_append, List.length_append]
    exact {
      pending := between.pending
      oldCursor := rfl
      newCursor := rfl
      before := rfl
      after := rfl
      oldRemaining := rfl
      newRemaining := rfl
      sawHunk := rfl
      part := ⟨_, rfl, fits_fresh (by omega) (by omega), fun changed => by cases changed⟩ }

/-- All written hunks are accepted. -/
theorem Between.readHunks {json : SerdeJson} (compact : json.IsCompact) {oldLines newLines tail : List Str}
    (oldFront newFront : List Str)
    {hunks : List (Hunk Str)} {state : State}
    (between : Between oldLines newLines oldFront.length newFront.length
      (hunksKeys oldFront.length newFront.length hunks) state)
    (old : oldLines = oldFront ++ Hunk.sourceOf hunks tail) (new : newLines = newFront ++ Hunk.targetOf hunks tail)
    (oldBound : oldLines.length ≤ maxLines) (newBound : newLines.length ≤ maxLines)
    (changes : ∀ hunk ∈ hunks, Changes hunk.rows) (short : ∀ hunk ∈ hunks, ∀ row ∈ hunk.rows, ShortLine row.2) :
    ∃ final, readLines json oldLines newLines (hunksLines oldFront.length newFront.length hunks) state = .ok final ∧
      Between oldLines newLines (oldFront ++ Hunk.sourceOf hunks []).length (newFront ++ Hunk.targetOf hunks []).length []
        final ∧
      (state.sawHunk = true ∨ hunks ≠ [] → final.sawHunk = true) := by
  induction hunks generalizing state oldFront newFront with
  | nil =>
    refine ⟨state, ?_, by simpa [hunksKeys] using between, by simp⟩
    rw [hunksLines, readLines.eq_def]
  | cons hunk hunks ih =>
    obtain ⟨changesHere, changesLater⟩ := List.forall_mem_cons.mp changes
    obtain ⟨shortHere, shortLater⟩ := List.forall_mem_cons.mp short
    rw [Hunk.sourceOf_cons, List.append_assoc] at old
    rw [Hunk.targetOf_cons, List.append_assoc] at new
    obtain ⟨opened, ran, inHunk, fresh⟩ := between.openHunk compact old new oldBound newBound
    obtain ⟨closed, reads, inEnd, changed⟩ := inHunk.readRows compact (by rw [List.append_assoc]; exact old)
      (by rw [List.append_assoc]; exact new) oldBound newBound shortHere
      (hunksLines_head_ne_marker (oldFront.length + hunk.gap.length + (source hunk.rows).length)
        (newFront.length + hunk.gap.length + (target hunk.rows).length) hunks)
    rw [fresh, any_changed changesHere, Bool.or_true] at changed
    obtain ⟨part, open', fits, inhabited⟩ := inEnd.part
    have next : Between oldLines newLines (oldFront ++ hunk.gap ++ source hunk.rows).length
        (newFront ++ hunk.gap ++ target hunk.rows).length
        (hunksKeys (oldFront ++ hunk.gap ++ source hunk.rows).length (newFront ++ hunk.gap ++ target hunk.rows).length hunks)
        closed := by
      constructor
      · simpa [scriptKeys, Nat.add_assoc] using inEnd.pending
      · exact inEnd.oldCursor
      · exact inEnd.newCursor
      · exact inEnd.oldRemaining
      · exact inEnd.newRemaining
      · exact fun _ => changed
      · intro other same
        rw [open'] at same
        cases same
        exact ⟨fits, inhabited changed⟩
    obtain ⟨final, done, last, saw⟩ := ih _ _ next (by simpa using old) (by simpa using new) changesLater shortLater
    refine ⟨final, ?_, ?_, fun _ => saw (.inl inEnd.sawHunk)⟩
    · rw [hunksLines, hunkLines, List.cons_append, readLines.eq_def]
      dsimp only
      rw [if_pos (by rfl), ran, ok_bind, reads]
      simpa [Nat.add_assoc] using done
    · simpa using last

/-! ## The whole diff -/

theorem checkRanges_of_orderedRanges {count : ℕ} (stop : ℕ) {ranges : List ScalarRange} (ordered : OrderedRanges count ranges)
    (behind : ∀ range ∈ ranges, stop ≤ range.1) : checkRanges count stop ranges = true := by
  induction ranges generalizing stop with
  | nil => rfl
  | cons range ranges ih =>
    obtain ⟨start, next⟩ := range
    obtain ⟨ahead, pairwise⟩ := List.pairwise_cons.mp ordered.1
    obtain ⟨inside, others⟩ := List.forall_mem_cons.mp ordered.2
    have first := behind (start, next) List.mem_cons_self
    dsimp only at inside first
    rw [checkRanges, ih _ ⟨pairwise, others⟩ ahead, Bool.and_true]
    simp only [Bool.not_eq_true', Bool.or_eq_false_iff, decide_eq_false_iff_not]
    omega

/-- One annotation of a line that has none yet is stored. -/
theorem checkHighlight_ok {oldLines newLines : List Str} {highlights : SourceLineHighlights} {start : Annotations}
    (total : ℕ) {line : Str}
    (found : (sideLines oldLines newLines highlights.side)[highlights.lineIndex]? = some line)
    (ordered : OrderedRanges line.length highlights.ranges) (fresh : highlights.key ∉ start.map Prod.fst)
    (limit : total + highlights.ranges.length ≤ maxInlineRanges) (few : highlights.ranges.length ≤ maxPageInlineRanges) :
    checkHighlight oldLines newLines (start, total) highlights =
      .ok ((highlights.key, highlights.ranges) :: start, total + highlights.ranges.length) := by
  have inside : (decide (total + highlights.ranges.length > maxInlineRanges) ||
      decide (highlights.ranges.length > maxPageInlineRanges)) = false := by
    simp only [Bool.or_eq_false_iff, decide_eq_false_iff_not]
    omega
  have unseen : (start.any fun entry => decide (entry.1 = (highlights.side, highlights.lineIndex))) = false := by
    rw [List.any_eq_false]
    intro entry member
    rw [decide_eq_true_eq]
    exact fun same => fresh (List.mem_map.mpr ⟨entry, member, same⟩)
  have checked := checkRanges_of_orderedRanges 0 ordered fun _ _ => Nat.zero_le _
  rcases highlights with ⟨side, lineIndex, ranges⟩
  cases side
  all_goals
    simp only [sideLines] at found
    simp only [checkHighlight, inside, Bool.false_eq_true, if_false, found, requireInternal, Option.elim_some, ok_bind,
      checked, internal, unseen, Bool.not_true, pure_eq_ok]
    rfl

/-- Annotations of distinct lines are stored unless one of them has too many ranges. -/
theorem checkHighlights {oldLines newLines : List Str} {output : List SourceLineHighlights} (start : Annotations) (total : ℕ)
    (ordered : ∀ highlights ∈ output, ∃ line,
      (sideLines oldLines newLines highlights.side)[highlights.lineIndex]? = some line ∧
        OrderedRanges line.length highlights.ranges)
    (distinct : (start.map Prod.fst ++ output.map SourceLineHighlights.key).Nodup)
    (limit : total + Compute.rangeTotal output ≤ maxInlineRanges) :
    if ∀ highlights ∈ output, highlights.ranges.length ≤ maxPageInlineRanges then
      output.foldlM (checkHighlight oldLines newLines) (start, total) =
        .ok ((output.map fun highlights => (highlights.key, highlights.ranges)).reverse ++ start,
          total + Compute.rangeTotal output)
    else output.foldlM (checkHighlight oldLines newLines) (start, total) = .error .resourceLimit := by
  induction output generalizing start total with
  | nil => simp [Compute.rangeTotal]
  | cons highlights output ih =>
    obtain ⟨⟨line, found, ranges⟩, others⟩ := List.forall_mem_cons.mp ordered
    have totals : Compute.rangeTotal (highlights :: output) = highlights.ranges.length + Compute.rangeTotal output := rfl
    rw [totals] at limit ⊢
    by_cases few : highlights.ranges.length ≤ maxPageInlineRanges
    · have fresh : highlights.key ∉ start.map Prod.fst := by
        rw [List.map_cons, List.nodup_append] at distinct
        exact fun member => distinct.2.2 _ member _ List.mem_cons_self rfl
      have step := checkHighlight_ok total found ranges fresh (by omega) few
      have rest := ih ((highlights.key, highlights.ranges) :: start) (total + highlights.ranges.length)
        others (by simpa using List.perm_middle.nodup_iff.mp distinct) (by omega)
      rw [List.foldlM_cons, step, ok_bind]
      simpa [few, Nat.add_assoc] using rest
    · have failed : checkHighlight oldLines newLines (start, total) highlights = .error .resourceLimit := by
        have many : (decide (total + highlights.ranges.length > maxInlineRanges) ||
            decide (highlights.ranges.length > maxPageInlineRanges)) = true := by
          simp only [Bool.or_eq_true, decide_eq_true_eq]
          omega
        simp only [checkHighlight, many, if_true]
      have absent : ¬∀ other ∈ highlights :: output, other.ranges.length ≤ maxPageInlineRanges :=
        fun all => few (all highlights List.mem_cons_self)
      rw [if_neg absent, List.foldlM_cons, failed]
      rfl

/-- A diff that the producer returned for two different texts. -/
structure Produced (before after : Str) (computed : ComputedDiff) (hunks : List (Hunk Str)) (tail : List Str) : Prop where
  validBefore : ValidText before
  validAfter : ValidText after
  old : linesOf before = Hunk.sourceOf hunks tail
  new : linesOf after = Hunk.targetOf hunks tail
  inhabited : hunks ≠ []
  changes : ∀ hunk ∈ hunks, Changes hunk.rows
  patch : computed.patch = (patchLines hunks).flatten
  highlights : Compute.Highlights (linesOf before) (linesOf after) (hunksKeys 0 0 hunks) computed.inlineChanges
  distinct : (hunksKeys 0 0 hunks).Nodup
  count : (hunksKeys 0 0 hunks).length ≤ maxLines * 2
  ranges : Compute.rangeTotal computed.inlineChanges ≤ maxInlineRanges

theorem compare_produced {similar : Similar} (lawful : similar.Lawful) (chars : similar.LawfulChars) {before after : Str}
    {computed : ComputedDiff} (different : before ≠ after)
    (success : Compute.compare similar before after = .ok computed) :
    ∃ hunks tail, Produced before after computed hunks tail := by
  simp only [Compute.compare, bind_eq_ok] at success
  obtain ⟨_, beforeInfo, _, afterInfo, success⟩ := success
  have validBefore := validText_of_textInfo beforeInfo
  have validAfter := validText_of_textInfo afterInfo
  obtain ⟨hunks, tail, old, new, shows, -⟩ := lawful.hunks (linesOf before) (linesOf after)
  have inhabited : hunks ≠ [] := by
    rintro rfl
    exact different (splitInclusive_injective (old.trans new.symm))
  have grouped : ¬(similar.groupedOps (similar.diffSlices (linesOf before) (linesOf after)) 3).isEmpty = true := by
    intro none
    have count := showsAll_length shows
    rw [List.isEmpty_iff.mp none] at count
    exact inhabited (List.length_eq_zero_iff.mp count.symm)
  rw [if_neg grouped] at success
  simp only [bind_eq_ok] at success
  obtain ⟨header, headerRan, patch, ran, ⟨inlineChanges, total⟩, annotated, same⟩ := success
  cases same
  obtain ⟨rfl, headerBound⟩ := compute_append_ok headerRan
  obtain ⟨written, -⟩ := appendGroups_ok shows headerBound ran
  have tiles := lawful.tiles (linesOf before) (linesOf after)
  obtain ⟨⟨added, outcome, highlights, counted⟩, limit⟩ := Compute.annotateOps_ok chars tiles le_rfl le_rfl annotated
  have rows : similar.iterChanges (linesOf before) (linesOf after) = fun op => rowsOf _ _ op.edits :=
    funext (lawful.iterChanges _ _)
  rw [rows] at shows
  have keys := (lawful.groupedOps (linesOf before) (linesOf after) 3 (by decide)).changeKeys_eq tiles.walk shows
  have distinct := tiles.walk.changeKeys_nodup.1
  have length := tiles.walk.changeKeys_length
  rw [List.nil_append] at outcome
  subst outcome
  rw [keys] at highlights distinct length
  have few := validBefore.lines
  have few' := validAfter.lines
  exact ⟨hunks, tail, {
    validBefore, validAfter, old, new, inhabited, highlights, distinct
    changes := showsAll_changes shows
    patch := by rw [written]; rfl
    count := by omega
    ranges := by
      have := limit (Nat.zero_le _)
      dsimp only
      omega }⟩

theorem Produced.shortLines {before after : Str} {computed : ComputedDiff} {hunks : List (Hunk Str)} {tail : List Str}
    (produced : Produced before after computed hunks tail) : ∀ hunk ∈ hunks, ∀ row ∈ hunk.rows, ShortLine row.2 := by
  intro hunk member row shown
  rcases RoundTrip.mem_of_row produced.old produced.new member shown with inOld | inNew
  · exact ⟨isLine_of_mem (splitInclusive_isLines before) _ inOld, produced.validBefore.shortLines _ inOld⟩
  · exact ⟨isLine_of_mem (splitInclusive_isLines after) _ inNew, produced.validAfter.shortLines _ inNew⟩

/-- The annotations of a produced diff, once stored, wait for the rows of its hunks. -/
theorem Produced.pending {before after : Str} {computed : ComputedDiff} {hunks : List (Hunk Str)} {tail : List Str}
    (produced : Produced before after computed hunks tail)
    (few : ∀ highlights ∈ computed.inlineChanges, highlights.ranges.length ≤ maxPageInlineRanges) :
    Pending (linesOf before) (linesOf after) (hunksKeys 0 0 hunks)
      (computed.inlineChanges.map fun highlights => (highlights.key, highlights.ranges)).reverse where
  keys := by
    rw [List.map_reverse, List.map_map]
    exact (List.reverse_perm _).trans produced.highlights.keys
  valid := by
    intro entry member
    obtain ⟨highlights, present, rfl⟩ := List.mem_map.mp (List.mem_reverse.mp member)
    obtain ⟨line, found, ordered⟩ := produced.highlights.ordered highlights present
    refine ⟨line, ?_, ordered⟩
    rw [← found]
    rcases highlights with ⟨side, lineIndex, ranges⟩
    cases side <;> rfl
  few := by
    intro entry member
    obtain ⟨highlights, present, rfl⟩ := List.mem_map.mp (List.mem_reverse.mp member)
    exact few highlights present

/-- A produced diff is paged, unless a line of it carries too many ranges. -/
theorem Produced.changes_eq {json : SerdeJson} (compact : json.IsCompact) {before after : Str} {computed : ComputedDiff}
    {hunks : List (Hunk Str)} {tail : List Str} (different : before ≠ after)
    (produced : Produced before after computed hunks tail) :
    if ∀ highlights ∈ computed.inlineChanges, highlights.ranges.length ≤ maxPageInlineRanges then
      ∃ result, Paging.changes json computed before after = .ok result
    else Paging.changes json computed before after = .error .resourceLimit := by
  have length : computed.inlineChanges.length ≤ maxLines * 2 := by
    have keys := produced.highlights.keys.length_eq
    rw [List.length_map] at keys
    rw [keys]
    exact produced.count
  have checked := checkHighlights [] 0 produced.highlights.ordered
    (produced.highlights.keys.nodup_iff.mpr produced.distinct) (by rw [Nat.zero_add]; exact produced.ranges)
  rw [Paging.changes, if_neg different]
  dsimp only
  rw [if_neg (not_lt.mpr length)]
  split_ifs at checked ⊢ with few
  · have lines : linesOf computed.patch = patchLines hunks := by
      rw [produced.patch]
      apply RoundTrip.linesOf_patchLines
      exact fun hunk member row shown => (produced.shortLines hunk member row shown).1
    have between : Between (linesOf before) (linesOf after) 0 0 (hunksKeys 0 0 hunks) { annotations :=
        (computed.inlineChanges.map fun highlights => (highlights.key, highlights.ranges)).reverse } :=
      ⟨produced.pending few, rfl, rfl, rfl, rfl, by rintro ⟨⟩, by rintro _ ⟨⟩⟩
    obtain ⟨final, ran, last, saw⟩ := Between.readHunks compact [] [] between produced.old
      produced.new produced.validBefore.lines produced.validAfter.lines produced.changes produced.shortLines
    have sawHunk := saw (.inr produced.inhabited)
    obtain ⟨pages, page, pageRows, pageBytes, pageRanges, closed⟩ := last.finishPending compact
    have oldTail : getRange (linesOf before) final.oldCursor (linesOf before).length = some tail := by
      rw [last.oldCursor, produced.old, Hunk.sourceOf_eq_append, List.nil_append, List.length_append]
      simpa using getRange_of_lengths (Hunk.sourceOf hunks []) tail [] rfl rfl
    have newTail : getRange (linesOf after) final.newCursor (linesOf after).length = some tail := by
      rw [last.newCursor, produced.new, Hunk.targetOf_eq_append, List.nil_append, List.length_append]
      simpa using getRange_of_lengths (Hunk.targetOf hunks []) tail [] rfl rfl
    have consumed : final.annotations = [] := List.map_eq_nil_iff.mp (List.perm_nil.mp last.pending.keys)
    rw [checked, ok_bind, List.append_nil, lines]
    simp only [patchLines, List.getElem?_cons_zero, List.getElem?_cons_succ, List.drop_succ_cons, List.drop_zero, ne_eq,
      not_true_eq_false, decide_false, Bool.or_self, internal, Bool.false_eq_true, if_false, ok_bind]
    rw [List.length_nil] at ran
    simp only [ran, ok_bind, oldTail, newTail, requireInternal, Option.elim_some, sawHunk, last.changed sawHunk,
      last.oldRemaining, last.newRemaining, consumed, closed, List.isEmpty_nil, Bool.not_true, not_true_eq_false,
      decide_false, Bool.or_self, Bool.false_eq_true, if_false]
    exact ⟨_, rfl⟩
  · rw [checked]
    rfl

/-- The pager accepts what the producer returns for two different texts, unless a single changed line
carries more ranges than fit on a page; this is the only error it can report. -/
theorem changes_compare (similar : Similar) (lawful : similar.Lawful) (chars : similar.LawfulChars) (json : SerdeJson)
    (compact : json.IsCompact) (before after : Str) (computed : ComputedDiff) (different : before ≠ after)
    (success : Compute.compare similar before after = .ok computed) :
    ((∃ result, changes json computed before after = .ok result) ∨
        changes json computed before after = .error .resourceLimit) ∧
      (changes json computed before after = .error .resourceLimit ↔
        ∃ highlights ∈ computed.inlineChanges, highlights.ranges.length > maxPageInlineRanges) := by
  obtain ⟨hunks, tail, produced⟩ := compare_produced lawful chars different success
  have outcome := produced.changes_eq compact different
  split_ifs at outcome with few
  · obtain ⟨result, paged⟩ := outcome
    refine ⟨.inl ⟨result, paged⟩, ?_⟩
    constructor
    · intro failed
      rw [paged] at failed
      cases failed
    · rintro ⟨highlights, member, many⟩
      exact absurd (few highlights member) (not_le.mpr many)
  · refine ⟨.inr outcome, fun _ => ?_, fun _ => outcome⟩
    simpa using few

theorem changes_compare_replacement :
    (∃ result, changes SerdeJson.compact {
        patch := "--- before\n+++ after\n@@ -1 +1 @@\n-a\n+b\n\\ No newline at end of file\n".toList
        inlineChanges := [⟨.before, 0, [(0, 2)]⟩, ⟨.after, 0, [(0, 1)]⟩] } ['a', '\n'] ['b'] = .ok result) := by
  have computed : Compute.compare Similar.whole ['a', '\n'] ['b'] = .ok {
      patch := "--- before\n+++ after\n@@ -1 +1 @@\n-a\n+b\n\\ No newline at end of file\n".toList
      inlineChanges := [⟨.before, 0, [(0, 2)]⟩, ⟨.after, 0, [(0, 1)]⟩] } := by decide +kernel
  obtain ⟨accepted | failed, many⟩ := changes_compare Similar.whole Similar.whole_lawful Similar.whole_lawfulChars
    SerdeJson.compact ⟨fun _ => rfl, fun _ => rfl⟩ ['a', '\n'] ['b'] _ (by decide) computed
  · exact accepted
  · obtain ⟨highlights, member, long⟩ := many.mp failed
    exfalso
    revert highlights
    decide

end OpenLegal.TextDiff.Paging
