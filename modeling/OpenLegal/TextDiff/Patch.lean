import OpenLegal.Rust.Result
import OpenLegal.TextDiff.Domain

/-! # Strict, atomic single-text patch application

The whole patch is parsed before any row is compared with the target, so that malformed syntax in a
later hunk is reported as such. Parsing tracks the positions both sides must have reached; application
replaces exactly the declared lines and keeps every other byte of the target.
-/

namespace OpenLegal.TextDiff.Patch

open Rust Rust.Str

def maxPatch : ℕ := 8 * 1024 * 1024

/-- Every patch row contributes to at least one side, and either side has at most `maxLines`. -/
def maxPatchRows : ℕ := 2 * maxLines

def marker : Str := "\\ No newline at end of file\n".toList

def append (out text : Str) : Except TextDiffError Str :=
  if byteLen out + byteLen text > maxTextBytes then .error .resourceLimit else .ok (out ++ text)

def validateText (text : Str) : Except TextDiffError Unit :=
  if byteLen text > maxTextBytes || text.contains '\x00' || (linesOf text).length > maxLines ||
      (linesOf text).any lineTooLong then
    .error .invalidInput
  else .ok ()

/-- `?` on an `Option` whose absence is invalid input. -/
def require {α : Type} (value : Option α) : Except TextDiffError α := value.elim (.error .invalidInput) .ok

/-- `if condition { return invalid(); }`. -/
def reject (condition : Bool) : Except TextDiffError Unit :=
  if condition then .error .invalidInput else .ok ()

@[simp] theorem require_some {α : Type} (value : α) : require (some value) = .ok value := rfl
@[simp] theorem reject_false : reject false = .ok () := rfl

theorem require_eq_ok {α : Type} {value : Option α} {result : α} (success : require value = .ok result) :
    value = some result := by
  cases value with
  | none => cases success
  | some value => cases success; rfl

theorem reject_eq_ok {condition : Bool} (success : reject condition = .ok ()) : condition = false := by
  cases condition with
  | false => rfl
  | true => cases success

/-- Zero-based start and count of one side of a hunk header. -/
def coordinate (token : Str) (sign : Char) : Except TextDiffError (ℕ × ℕ) := do
  let token ← require (stripPrefix [sign] token)
  let (start, count) := (splitOnce [','] token).getD (token, ['1'])
  reject (start.isEmpty || count.isEmpty || !start.all Char.isDigit || !count.all Char.isDigit)
  let start ← require (parseUsize start)
  let count ← require (parseUsize count)
  reject (count > maxLines || start > maxLines || (count ≠ 0 && start == 0))
  pure (if count = 0 then start else start - 1, count)

structure PatchRow where
  sign : Char
  text : Str
deriving DecidableEq, Repr

structure PatchHunk where
  oldStart : ℕ
  rows : List PatchRow
deriving DecidableEq, Repr

/-- The state of the loop over the rows of one hunk, with the totals it updates. -/
structure RowState where
  consumed : ℕ := 0
  produced : ℕ := 0
  changed : Bool := false
  rows : List PatchRow := []
  unterminated : Bool
  totalRows : ℕ
deriving DecidableEq, Repr

/-- What one row does once its text is known. -/
def acceptRow (oldCount newCount : ℕ) (sign : Char) (text : Str) (state : RowState) :
    Except TextDiffError RowState := do
  let consumed ←
    if sign ≠ '+' then do
      reject (state.consumed ≥ oldCount)
      pure (state.consumed + 1)
    else pure state.consumed
  let (produced, unterminated) ←
    if sign ≠ '-' then do
      reject (state.produced ≥ newCount || state.unterminated)
      pure (state.produced + 1, !endsWith text '\n')
    else pure (state.produced, state.unterminated)
  pure {
    consumed
    produced
    changed := state.changed || sign ≠ ' '
    rows := state.rows ++ [⟨sign, text⟩]
    unterminated
    totalRows := state.totalRows + 1 }

/-- The sign of a row line: its first character, if the line is a complete row. -/
def rowSign (row : Str) : Except TextDiffError Char := do
  let sign ← require row.head?
  reject (!(sign == ' ' || sign == '-' || sign == '+') || !endsWith row '\n')
  pure sign

/-- The text of a row that a missing-newline marker follows. -/
def unterminatedText (row : Str) : Except TextDiffError Str := do
  let text ← require (stripSuffix '\n' row.tail)
  reject text.isEmpty
  pure text

/-- The sign and text of a row, and the lines after it and its marker. -/
def nextRow (row : Str) (lines : List Str) : Except TextDiffError (Char × Str × List Str) := do
  let sign ← rowSign row
  if lines.head? = some marker then do
    let text ← unterminatedText row
    pure (sign, text, lines.tail)
  else pure (sign, row.tail, lines)

theorem nextRow_length {row text : Str} {sign : Char} {lines rest : List Str}
    (read : nextRow row lines = .ok (sign, text, rest)) : rest.length ≤ lines.length := by
  simp only [nextRow, bind_eq_ok] at read
  obtain ⟨found, -, read⟩ := read
  split_ifs at read
  · obtain ⟨text, -, same⟩ := bind_eq_ok.mp read
    cases same
    simp
  · cases read
    exact le_rfl

/-- Read rows until both declared counts are reached, and return the remaining lines. -/
def parseRows (oldCount newCount : ℕ) (lines : List Str) (state : RowState) :
    Except TextDiffError (RowState × List Str) :=
  if state.consumed < oldCount || state.produced < newCount then
    if state.totalRows ≥ maxPatchRows then .error .resourceLimit
    else
      match lines with
      | [] => .error .invalidInput
      | row :: lines =>
        match _read : nextRow row lines with
        | .error error => .error error
        | .ok (sign, text, rest) => do
          let state ← acceptRow oldCount newCount sign text state
          parseRows oldCount newCount rest state
  else .ok (state, lines)
termination_by lines.length
decreasing_by exact Nat.lt_succ_of_le (nextRow_length (by assumption))

/-- The positions and totals that parsing carries from hunk to hunk. -/
structure HunkState where
  hunks : List PatchHunk := []
  oldCursor : ℕ := 0
  newCursor : ℕ := 0
  unterminated : Bool := false
  totalRows : ℕ := 0
deriving DecidableEq, Repr

/-- The coordinates a hunk header declares. -/
def parseHeader (header : Str) : Except TextDiffError ((ℕ × ℕ) × (ℕ × ℕ)) := do
  let inner ← require (stripPrefix "@@ ".toList header)
  let (coordinates, suffix) ← require (splitOnce " @@".toList inner)
  reject (suffix ≠ ['\n'] && suffix.head? ≠ some ' ')
  let (old, new) ← require (splitOnce [' '] coordinates)
  let old ← coordinate old '-'
  let new ← coordinate new '+'
  pure (old, new)

/-- One iteration of the loop over hunks: a header and the rows it announces. -/
def parseHunk (header : Str) (lines : List Str) (state : HunkState) :
    Except TextDiffError (HunkState × List Str) := do
  reject (state.hunks.length ≥ maxLines || !endsWith header '\n')
  let ((oldStart, oldCount), (newStart, newCount)) ← parseHeader header
  reject (oldStart < state.oldCursor)
  let gap := oldStart - state.oldCursor
  reject (state.newCursor + gap ≠ newStart || (gap > 0 && state.unterminated))
  let (rows, lines) ← parseRows oldCount newCount lines
    { unterminated := state.unterminated, totalRows := state.totalRows }
  reject !rows.changed
  pure ({
    hunks := state.hunks ++ [⟨oldStart, rows.rows⟩]
    oldCursor := oldStart + oldCount
    newCursor := newStart + newCount
    unterminated := rows.unterminated
    totalRows := rows.totalRows }, lines)

/-- Reading rows never returns more lines than it was given. -/
theorem parseRows_length {oldCount newCount : ℕ} {lines rest : List Str} {state final : RowState}
    (parsed : parseRows oldCount newCount lines state = .ok (final, rest)) : rest.length ≤ lines.length := by
  fun_induction parseRows oldCount newCount lines state with
  | case1 | case2 | case3 => cases parsed
  | case4 state _ _ row lines sign text remaining read ih =>
    obtain ⟨next, -, parsed⟩ := bind_eq_ok.mp parsed
    have shorter := ih next parsed
    have := nextRow_length read
    simp only [List.length_cons]
    omega
  | case5 =>
    cases parsed
    exact le_rfl

/-- A hunk consumes its header. -/
theorem parseHunk_length {header : Str} {lines rest : List Str} {state final : HunkState}
    (parsed : parseHunk header lines state = .ok (final, rest)) : rest.length ≤ lines.length := by
  simp only [parseHunk, bind_eq_ok] at parsed
  obtain ⟨_, _, _, _, _, _, _, _, ⟨rows, remaining⟩, ran, _, _, same⟩ := parsed
  cases same
  exact parseRows_length ran

def parseHunks (lines : List Str) (state : HunkState) : Except TextDiffError HunkState :=
  match lines with
  | [] => .ok state
  | header :: lines =>
    match _parsed : parseHunk header lines state with
    | .error error => .error error
    | .ok (state, rest) => parseHunks rest state
termination_by lines.length
decreasing_by exact Nat.lt_succ_of_le (parseHunk_length (by assumption))

/-- Skip one optional `diff --git` line and one optional `index` line after it. -/
def skipPreamble (lines : List Str) : Except TextDiffError (List Str) :=
  match lines with
  | header :: rest =>
    if "diff --git ".toList.isPrefixOf header then
      if endsWith header '\n' then
        match rest with
        | index :: rest' => .ok (if "index ".toList.isPrefixOf index then rest' else rest)
        | [] => .ok []
      else .error .invalidInput
    else .ok lines
  | [] => .ok []

/-- Consume one of the two file headers; what follows the pattern is never used. -/
def fileHeader (pattern : Str) (lines : List Str) : Except TextDiffError (List Str) := do
  let header ← require lines.head?
  reject (!pattern.isPrefixOf header || !endsWith header '\n' || byteLen header ≤ byteLen pattern + 1 ||
    byteLen header > 4096)
  pure lines.tail

def parsePatch (patch : Str) : Except TextDiffError (List PatchHunk) := do
  let lines ← skipPreamble (linesOf patch)
  let lines ← fileHeader "--- ".toList lines
  let lines ← fileHeader "+++ ".toList lines
  let state ← parseHunks lines {}
  reject state.hunks.isEmpty
  pure state.hunks

/-- The next output line must not be glued to an unterminated one. -/
def glued (out : Str) : Bool := !out.isEmpty && !endsWith out '\n'

/-- Apply one row; the state is the next source line and the output so far. -/
def applyRow (source : List Str) (state : ℕ × Str) (row : PatchRow) : Except TextDiffError (ℕ × Str) := do
  let (oldCursor, out) := state
  let oldCursor ←
    if row.sign ≠ '+' then
      if source[oldCursor]? ≠ some row.text then .error .patchConflict else pure (oldCursor + 1)
    else pure oldCursor
  if row.sign ≠ '-' then
    if glued out then .error .patchConflict
    else do
      let out ← append out row.text
      pure (oldCursor, out)
  else pure (oldCursor, out)

def applyHunk (source : List Str) (state : ℕ × Str) (hunk : PatchHunk) : Except TextDiffError (ℕ × Str) := do
  let (oldCursor, out) := state
  let gap ← (getRange source oldCursor hunk.oldStart).elim (.error .patchConflict) .ok
  if !gap.isEmpty && glued out then .error .patchConflict
  else do
    let out ← gap.foldlM append out
    hunk.rows.foldlM (applyRow source) (hunk.oldStart, out)

/-- The loop over parsed hunks and the unchanged lines after the last one. -/
def applyHunks (source : List Str) (hunks : List PatchHunk) : Except TextDiffError Str := do
  let (oldCursor, out) ← hunks.foldlM (applyHunk source) (0, [])
  if oldCursor < source.length && glued out then .error .patchConflict
  else (source.drop oldCursor).foldlM append out

/-- Apply exactly at declared positions, preserving every source byte. Empty patches are no-ops. -/
def applyPatch (target patch : Str) : Except TextDiffError Str := do
  validateText target
  if byteLen patch > maxPatch || patch.contains '\x00' then .error .invalidInput
  else if patch.isEmpty then pure target
  else do
    let hunks ← parsePatch patch
    let out ← applyHunks (linesOf target) hunks
    validateText out
    pure out

end OpenLegal.TextDiff.Patch
