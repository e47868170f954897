import OpenLegal.Rust.Result
import OpenLegal.TextDiff.Domain

/-! # Checking worker output and paging it

The application does not trust the worker: it replays the patch against both originals, consumes every
annotation exactly once, verifies the unchanged lines before, between and after hunks, and only then
publishes fragments. Hunks are cut into fragments, and fragments packed into pages, by rows, encoded
bytes and annotation ranges.
-/

namespace OpenLegal.TextDiff.Paging

open Rust Rust.Str

/-- Wire envelope and JSON field overhead are reserved. -/
def pageBytesLimit : ℕ := 240 * 1024

def marker : Str := "\\ No newline at end of file\n".toList

/-- Encoded sizes reported by the third-party JSON serializer. -/
structure SerdeJson where
  stringLen : Str → ℕ
  fragmentLen : DiffFragment → ℕ

namespace SerdeJson

/-- The bytes of a scalar inside a JSON string. -/
def escapedLen (c : Char) : ℕ :=
  if c = '"' || c = '\\' || c = '\x08' || c = '\t' || c = '\n' || c = '\x0c' || c = '\r' then 2
  else if c.val < 0x20 then 6 else c.utf8Size

/-- An array or object: brackets, items and commas. -/
def itemsLen (items : List ℕ) : ℕ := 2 + items.sum + (items.length - 1)

/-- The compact encoding. -/
def compact : SerdeJson :=
  let string (s : Str) := 2 + (s.map escapedLen).sum
  let number (n : ℕ) := (decimal n).length
  let ranges (ranges : List ScalarRange) := itemsLen (ranges.map fun range => itemsLen [number range.1, number range.2])
  let change (change : InlineChange) := itemsLen ["row_index".length + 3 + number change.rowIndex,
    "ranges".length + 3 + ranges change.ranges]
  { stringLen := string
    fragmentLen := fun fragment => itemsLen ["patch".length + 3 + string fragment.patch,
      "before_start".length + 3 + number fragment.beforeStart, "before_count".length + 3 + number fragment.beforeCount,
      "after_start".length + 3 + number fragment.afterStart, "after_count".length + 3 + number fragment.afterCount,
      "inline_changes".length + 3 + itemsLen (fragment.inlineChanges.map change)] }

end SerdeJson

structure Part where
  before : ℕ
  after : ℕ
  beforeCount : ℕ := 0
  afterCount : ℕ := 0
  body : Str := []
  rows : ℕ := 0
  encoded : ℕ := 0
  rangeCount : ℕ := 0
  inlineChanges : List InlineChange := []
deriving DecidableEq, Repr

namespace Part

/-- The fragment header, which always shows both counts. -/
def header (beforeStart beforeCount afterStart afterCount : ℕ) : Str :=
  ['@', '@', ' ', '-'] ++ decimal beforeStart ++ ',' :: decimal beforeCount ++ [' ', '+'] ++ decimal afterStart ++
    ',' :: decimal afterCount ++ [' ', '@', '@', '\n']

/-- An empty-side start identifies the preceding line, not the next row. -/
def finish (part : Part) : DiffFragment :=
  let beforeStart := if part.beforeCount = 0 then part.before - 1 else part.before
  let afterStart := if part.afterCount = 0 then part.after - 1 else part.after
  { patch := beforeHeader ++ afterHeader ++
      header beforeStart part.beforeCount afterStart part.afterCount ++ part.body
    beforeStart
    beforeCount := part.beforeCount
    afterStart
    afterCount := part.afterCount
    inlineChanges := part.inlineChanges }

end Part

/-- Pending annotations by side and line, standing for a `BTreeMap`. -/
abbrev Annotations := List ((DiffSide × ℕ) × List ScalarRange)

/-- `BTreeMap::remove`, with the entry it returns. -/
def takeHighlight (key : DiffSide × ℕ) : Annotations → Option (List ScalarRange × Annotations)
  | [] => none
  | entry :: rest =>
    if entry.1 = key then some (entry.2, rest)
    else (takeHighlight key rest).map fun (ranges, others) => (ranges, entry :: others)

/-- Every range is nonempty, starts at or after the end of the one before, and lies in the line. -/
def checkRanges (scalarCount : ℕ) : ℕ → List ScalarRange → Bool
  | _, [] => true
  | stop, (start, next) :: ranges =>
    !(start < stop || start ≥ next || next > scalarCount) && checkRanges scalarCount next ranges

def internal (condition : Bool) : Except TextDiffError Unit :=
  if condition then .error .internal else .ok ()

def requireInternal {α : Type} (value : Option α) : Except TextDiffError α := value.elim (.error .internal) .ok

/-- Validate one annotation and store it; the state is the map and the number of ranges so far. -/
def checkHighlight (oldLines newLines : List Str) (state : Annotations × ℕ) (change : SourceLineHighlights) :
    Except TextDiffError (Annotations × ℕ) := do
  let totalRanges := state.2 + change.ranges.length
  if totalRanges > maxInlineRanges || change.ranges.length > maxPageInlineRanges then .error .resourceLimit
  else do
    let source := match change.side with
      | .before => oldLines
      | .after => newLines
    let line ← requireInternal source[change.lineIndex]?
    internal !(checkRanges line.length 0 change.ranges)
    internal (state.1.any (·.1 = (change.side, change.lineIndex)))
    pure (((change.side, change.lineIndex), change.ranges) :: state.1, totalRanges)

structure State where
  pages : List (List DiffFragment) := []
  page : List DiffFragment := []
  pageRows : ℕ := 0
  pageBytes : ℕ := 0
  pageRanges : ℕ := 0
  part : Option Part := none
  before : ℕ := 0
  after : ℕ := 0
  oldRemaining : ℕ := 0
  newRemaining : ℕ := 0
  oldCursor : ℕ := 0
  newCursor : ℕ := 0
  additions : ℕ := 0
  deletions : ℕ := 0
  annotations : Annotations
  sawHunk : Bool := false
  hunkChanged : Bool := false

/-- The closure `finish`: close a part and put its fragment on the current or on a new page. -/
def finishPart (json : SerdeJson) (state : State) (part : Part) : Except TextDiffError State := do
  internal (part.rows == 0)
  let fragment := part.finish
  let bytes := json.fragmentLen fragment
  if bytes > pageBytesLimit || part.rangeCount > maxPageInlineRanges then .error .resourceLimit
  else if !state.page.isEmpty && (state.pageRows + part.rows > 400 || state.pageBytes + bytes > pageBytesLimit ||
      state.pageRanges + part.rangeCount > maxPageInlineRanges) then
    pure { state with
      pages := state.pages ++ [state.page]
      page := [fragment]
      pageRows := part.rows
      pageBytes := bytes
      pageRanges := part.rangeCount }
  else
    pure { state with
      page := state.page ++ [fragment]
      pageRows := state.pageRows + part.rows
      pageBytes := state.pageBytes + bytes
      pageRanges := state.pageRanges + part.rangeCount }

def serializedHighlightSize (ranges : List ScalarRange) : ℕ := 64 + ranges.length * 24

/-- Start and count of one side of a hunk header, as written. -/
def range (token : Option Str) (sign : Char) : Except TextDiffError (ℕ × ℕ) := do
  let token ← requireInternal (token.bind (stripPrefix [sign]))
  let (start, count) := (splitOnce [','] token).getD (token, ['1'])
  let start ← requireInternal (parseUsize start)
  let count ← requireInternal (parseUsize count)
  internal (start > maxLines + 1 || count > maxLines)
  pure (start, count)

/-- The coordinates of a header line: exactly four tokens. -/
def headerRanges (line : Str) : Except TextDiffError ((ℕ × ℕ) × (ℕ × ℕ)) := do
  let tokens := splitAsciiWhitespace line
  internal (tokens[0]? ≠ some ['@', '@'])
  let old ← range tokens[1]? '-'
  let new ← range tokens[2]? '+'
  internal (tokens[3]? ≠ some ['@', '@'] || tokens[4]?.isSome)
  pure (old, new)

/-- Close the part under construction, if any. -/
def finishPending (json : SerdeJson) (state : State) : Except TextDiffError State :=
  match state.part with
  | some part => finishPart json { state with part := none } part
  | none => .ok state

/-- A hunk header: the previous hunk must be complete and changed, and the lines skipped on both sides
must be equal. -/
def openHunk (json : SerdeJson) (oldLines newLines : List Str) (line : Str) (state : State) :
    Except TextDiffError State := do
  internal ((state.sawHunk && !state.hunkChanged) || state.oldRemaining ≠ 0 || state.newRemaining ≠ 0)
  let state ← finishPending json state
  let ((old, oldCount), (new, newCount)) ← headerRanges line
  let before := old + if oldCount = 0 then 1 else 0
  let after := new + if newCount = 0 then 1 else 0
  internal (before == 0)
  internal (after == 0)
  let oldGap ← requireInternal (getRange oldLines state.oldCursor (before - 1))
  let newGap ← requireInternal (getRange newLines state.newCursor (after - 1))
  internal (oldGap ≠ newGap)
  pure { state with
    part := some { before, after }
    before
    after
    oldRemaining := oldCount
    newRemaining := newCount
    oldCursor := before - 1
    newCursor := after - 1
    sawHunk := true
    hunkChanged := false }

/-- The annotation that a row consumes: deletions and insertions have one, context rows none. -/
def consumeHighlight (sign : Char) (state : State) :
    Except TextDiffError (Option (List ScalarRange) × Annotations) :=
  if sign = '-' then do
    let (ranges, rest) ← requireInternal (takeHighlight (.before, state.oldCursor) state.annotations)
    pure (some ranges, rest)
  else if sign = '+' then do
    let (ranges, rest) ← requireInternal (takeHighlight (.after, state.newCursor) state.annotations)
    pure (some ranges, rest)
  else pure (none, state.annotations)

/-- Start a new part when the row does not fit the current one any more. -/
def fitPart (json : SerdeJson) (encoded rangeCount : ℕ) (part : Part) (state : State) :
    Except TextDiffError (Part × State) :=
  if part.rows ≥ 400 || part.encoded + encoded + 1024 > pageBytesLimit ||
      part.rangeCount + rangeCount > maxPageInlineRanges then do
    let state ← finishPart json state part
    pure ({ before := state.before, after := state.after }, state)
  else pure (part, state)

/-- The part extended by one row. -/
def Part.push (part : Part) (sign : Char) (line : Str) (noNewline : Bool) (ranges : Option (List ScalarRange))
    (encoded rangeCount : ℕ) : Part :=
  { part with
    beforeCount := if sign = '+' then part.beforeCount else part.beforeCount + 1
    afterCount := if sign = '-' then part.afterCount else part.afterCount + 1
    body := part.body ++ line ++ if noNewline then marker else []
    rows := part.rows + 1
    encoded := part.encoded + encoded
    rangeCount := part.rangeCount + rangeCount
    inlineChanges := part.inlineChanges ++ (ranges.map fun ranges => ⟨part.rows, ranges⟩).toList }

/-- A data row: compare it with the originals, consume its annotation and append it to the part. -/
def dataRow (json : SerdeJson) (oldLines newLines : List Str) (line : Str) (noNewline : Bool) (state : State) :
    Except TextDiffError State := do
  let part ← requireInternal state.part
  let sign ← requireInternal line.head?
  internal (!(sign == ' ' || sign == '+' || sign == '-') || !endsWith line '\n')
  let sourceLine := if noNewline then line.tail.dropLast else line.tail
  internal (sign ≠ '+' && oldLines[state.oldCursor]? ≠ some sourceLine)
  internal (sign ≠ '-' && newLines[state.newCursor]? ≠ some sourceLine)
  let (ranges, annotations) ← consumeHighlight sign state
  let rangeCount := (ranges.map List.length).getD 0
  let encoded := json.stringLen line + (ranges.map serializedHighlightSize).getD 0 + if noNewline then 40 else 0
  let (part, state) ← fitPart json encoded rangeCount part { state with annotations }
  internal (sign ≠ '+' && state.oldRemaining == 0)
  internal (sign ≠ '-' && state.newRemaining == 0)
  pure { state with
    part := some (part.push sign line noNewline ranges encoded rangeCount)
    before := if sign = '+' then state.before else state.before + 1
    after := if sign = '-' then state.after else state.after + 1
    oldRemaining := if sign = '+' then state.oldRemaining else state.oldRemaining - 1
    newRemaining := if sign = '-' then state.newRemaining else state.newRemaining - 1
    oldCursor := if sign = '+' then state.oldCursor else state.oldCursor + 1
    newCursor := if sign = '-' then state.newCursor else state.newCursor + 1
    additions := state.additions + if sign = '+' then 1 else 0
    deletions := state.deletions + if sign = '-' then 1 else 0
    hunkChanged := state.hunkChanged || sign ≠ ' ' }

/-- The loop over the patch lines after the two file headers; a marker is consumed with its row. -/
def readLines (json : SerdeJson) (oldLines newLines : List Str) (lines : List Str) (state : State) :
    Except TextDiffError State :=
  match lines with
  | [] => .ok state
  | line :: rest =>
    if ['@', '@', ' '].isPrefixOf line then do
      let state ← openHunk json oldLines newLines line state
      readLines json oldLines newLines rest state
    else if rest.head? = some marker then do
      let state ← dataRow json oldLines newLines line true state
      readLines json oldLines newLines rest.tail state
    else do
      let state ← dataRow json oldLines newLines line false state
      readLines json oldLines newLines rest state
termination_by lines.length
decreasing_by all_goals grind

/-- Check worker output against both originals before publishing any part of it. -/
def changes (json : SerdeJson) (computed : ComputedDiff) (oldText newText : Str) :
    Except TextDiffError (List (List DiffFragment) × ℕ × ℕ) :=
  if oldText = newText then
    if computed.patch.isEmpty && computed.inlineChanges.isEmpty then .ok ([], 0, 0) else .error .internal
  else do
    let oldLines := linesOf oldText
    let newLines := linesOf newText
    if computed.inlineChanges.length > maxLines * 2 then .error .resourceLimit
    else do
      let (annotations, _) ← computed.inlineChanges.foldlM (checkHighlight oldLines newLines) ([], 0)
      let lines := linesOf computed.patch
      internal (lines[0]? ≠ some beforeHeader || lines[1]? ≠ some afterHeader)
      let state ← readLines json oldLines newLines (lines.drop 2) { annotations }
      let oldTail ← requireInternal (getRange oldLines state.oldCursor oldLines.length)
      let newTail ← requireInternal (getRange newLines state.newCursor newLines.length)
      internal (!state.sawHunk || !state.hunkChanged || state.oldRemaining ≠ 0 || state.newRemaining ≠ 0 ||
        !state.annotations.isEmpty || oldTail ≠ newTail)
      let state ← finishPending json state
      pure (if state.page.isEmpty then state.pages else state.pages ++ [state.page], state.additions, state.deletions)

end OpenLegal.TextDiff.Paging
