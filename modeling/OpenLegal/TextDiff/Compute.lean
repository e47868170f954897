import OpenLegal.TextDiff.Domain
import OpenLegal.TextDiff.Similar

/-! # The diff producer

The worker writes one unified patch over LF-inclusive lines with three context lines, then annotates
the complete replacement blocks with the scalar ranges a character diff reports. Writing fails as soon
as the patch would exceed its byte limit, so a returned patch is the text of all groups in order.
-/

namespace OpenLegal.TextDiff.Compute

open Rust Rust.Str Theory Theory.Script

/-- The row written after a line that lacks its final newline. -/
def noNewlineMarker : Str := "\\ No newline at end of file\n".toList

def append (output value : Str) : Except TextDiffError Str :=
  if byteLen output + byteLen value > maxPatchBytes then .error .resourceLimit else .ok (output ++ value)

def coordinates (start len : ℕ) : Str :=
  let start := if len = 0 then start else start + 1
  if len = 1 then decimal start else decimal start ++ ',' :: decimal len

/-- The character in front of a row. -/
def rowSign : ChangeTag → Char
  | .equal => ' '
  | .delete => '-'
  | .insert => '+'

def appendChange (patch : Str) (change : ChangeTag × Str) : Except TextDiffError Str := do
  let patch ← append patch [rowSign change.1]
  let patch ← append patch change.2
  if endsWith change.2 '\n' then pure patch else append patch ('\n' :: noNewlineMarker)

def hunkHeader (oldStart oldLen newStart newLen : ℕ) : Str :=
  ['@', '@', ' ', '-'] ++ coordinates oldStart oldLen ++ [' ', '+'] ++ coordinates newStart newLen ++
    [' ', '@', '@', '\n']

def appendGroup (changes : DiffOp → Script Str) (patch : Str) (group : List DiffOp) :
    Except TextDiffError Str := do
  let first ← group.head?.elim (.error .internal) .ok
  let last ← group.getLast?.elim (.error .internal) .ok
  let oldStart := first.oldRange.1
  let newStart := first.newRange.1
  let oldLen := last.oldRange.2 - oldStart
  let newLen := last.newRange.2 - newStart
  let patch ← append patch (hunkHeader oldStart oldLen newStart newLen)
  group.foldlM (fun patch op => (changes op).foldlM appendChange patch) patch

/-- The ranges of one line that occupies the scalars from `offset` to `stop` of its block. Changes that
touch are merged; `count` bounds the ranges of the whole diff. -/
def lineRanges (offset stop : ℕ) : List (ℕ × ℕ) → ℕ → List ScalarRange →
    Except TextDiffError (List ScalarRange × ℕ)
  | [], count, ranges => .ok (ranges, count)
  | (changeStart, changeEnd) :: changes, count, ranges =>
    if changeStart ≥ stop then .ok (ranges, count)
    else
      let a := max changeStart offset - offset
      let b := min changeEnd stop - offset
      if a < b then
        match ranges.getLast?.filter (·.2 == a) with
        | some last => lineRanges offset stop changes count (ranges.dropLast ++ [(last.1, b)])
        | none =>
          if count + 1 > maxInlineRanges then .error .resourceLimit
          else lineRanges offset stop changes (count + 1) (ranges ++ [(a, b)])
      else lineRanges offset stop changes count ranges

/-- The loop over the lines of a block; `offset` is the scalar offset of the first remaining line and
`changes` the changes from the current range index on. -/
def annotateLines (side : DiffSide) : ℕ → ℕ → List Str → List (ℕ × ℕ) → ℕ → List SourceLineHighlights →
    Except TextDiffError (List SourceLineHighlights × ℕ)
  | _, _, [], _, count, output => .ok (output, count)
  | lineIndex, offset, line :: lines, changes, count, output => do
    let stop := offset + line.length
    let changes := changes.dropWhile (·.2 ≤ offset)
    let (ranges, count) ← lineRanges offset stop changes count []
    annotateLines side (lineIndex + 1) stop lines changes count (output ++ [⟨side, lineIndex, ranges⟩])

def annotate (output : List SourceLineHighlights) (side : DiffSide) (start : ℕ) (lines : List Str)
    (changes : List (ℕ × ℕ)) (count : ℕ) : Except TextDiffError (List SourceLineHighlights × ℕ) :=
  annotateLines side start 0 lines changes count output

/-- The nonempty ranges of the operations that change something. -/
def changedRanges (range : DiffOp → ℕ × ℕ) (ops : List DiffOp) : List (ℕ × ℕ) :=
  (ops.filter fun op => op.tag ≠ .equal && (range op).1 < (range op).2).map range

/-- Both annotations of one replacement block: consecutive operations none of which is `Equal`. -/
def annotateBlock (similar : Similar) (beforeLines afterLines : List Str) (first last : DiffOp)
    (output : List SourceLineHighlights) (count : ℕ) :
    Except TextDiffError (List SourceLineHighlights × ℕ) := do
  let oldStart := first.oldRange.1
  let newStart := first.newRange.1
  let oldLines := (beforeLines.take last.oldRange.2).drop oldStart
  let newLines := (afterLines.take last.newRange.2).drop newStart
  let chars := similar.diffChars oldLines.flatten newLines.flatten
  let (output, count) ←
    annotate output .before oldStart oldLines (changedRanges DiffOp.oldRange chars) count
  annotate output .after newStart newLines (changedRanges DiffOp.newRange chars) count

/-- The loop over the operations, one replacement block at a time. -/
def annotateOps (similar : Similar) (beforeLines afterLines : List Str) (ops : List DiffOp)
    (output : List SourceLineHighlights) (count : ℕ) :
    Except TextDiffError (List SourceLineHighlights × ℕ) :=
  match ops with
  | [] => .ok (output, count)
  | op :: rest =>
    if op.tag = .equal then annotateOps similar beforeLines afterLines rest output count
    else do
      let block := rest.takeWhile (·.tag ≠ .equal)
      let (output, count) ←
        annotateBlock similar beforeLines afterLines op (block.getLast?.getD op) output count
      annotateOps similar beforeLines afterLines (rest.dropWhile (·.tag ≠ .equal)) output count
termination_by ops.length
decreasing_by
  · simp
  · have := (List.dropWhile_sublist (fun op : DiffOp => decide (op.tag ≠ .equal)) (l := rest)).length_le
    simp only [List.length_cons]
    omega

def compare (similar : Similar) (before after : Str) : Except TextDiffError ComputedDiff := do
  let _ ← textInfo before "Before".toList
  let _ ← textInfo after "After".toList
  let beforeLines := linesOf before
  let afterLines := linesOf after
  let ops := similar.diffSlices beforeLines afterLines
  let groups := similar.groupedOps ops 3
  if groups.isEmpty then
    pure ⟨[], []⟩
  else
    let patch ← append [] (beforeHeader ++ afterHeader)
    let patch ← groups.foldlM (appendGroup (similar.iterChanges beforeLines afterLines)) patch
    let (inlineChanges, _) ← annotateOps similar beforeLines afterLines ops [] 0
    pure ⟨patch, inlineChanges⟩

end OpenLegal.TextDiff.Compute
