import OpenLegal.Rust.Str

/-! # The contracts of supplied-text comparison

The limits, errors and values shared by the diff producer, the patch reader, the pager and the
service, together with the text validation that every entry point runs first.
-/

namespace OpenLegal.TextDiff

open Rust Rust.Str

def maxTextBytes : ℕ := 1024 * 1024
def maxLineBytes : ℕ := 16 * 1024
def maxLines : ℕ := 100000
def maxInlineRanges : ℕ := 65536
def maxPageInlineRanges : ℕ := 4096
def maxPatchInputBytes : ℕ := 8 * 1024 * 1024
def maxAttachmentChunkBytes : ℕ := 32 * 1024
def maxPatchBytes : ℕ := 8 * 1024 * 1024

inductive TextDiffError where
  | invalidInput
  | invalidUtf8Boundary (offset : ℕ)
  | patchConflict
  | attachmentKindMismatch
  | notFound
  | busy
  | resourceLimit
  | unavailable
  | cancelled
  | internal
deriving DecidableEq, Repr

/-- Half-open Unicode scalar offsets in the original line, including CR/LF. -/
abbrev ScalarRange := ℕ × ℕ

/-- The source side used by engine annotations; independent of patch/page layout. -/
inductive DiffSide where
  | before
  | after
deriving DecidableEq, Repr

structure SourceLineHighlights where
  side : DiffSide
  lineIndex : ℕ
  ranges : List ScalarRange
deriving DecidableEq, Repr

/-- Complete engine output. -/
structure ComputedDiff where
  patch : Str
  inlineChanges : List SourceLineHighlights
deriving DecidableEq, Repr

structure InlineChange where
  rowIndex : ℕ
  ranges : List ScalarRange
deriving DecidableEq, Repr

structure DiffFragment where
  patch : Str
  beforeStart : ℕ
  beforeCount : ℕ
  afterStart : ℕ
  afterCount : ℕ
  inlineChanges : List InlineChange
deriving DecidableEq, Repr

structure TextInfo where
  label : Str
  bytes : ℕ
  lines : ℕ
  crlf : ℕ
  lf : ℕ
  bareCr : ℕ
  bom : Bool
  finalNewline : Bool
deriving DecidableEq, Repr

/-- `text.matches("\r\n").count()`. -/
def crlfCount : Str → ℕ
  | '\r' :: '\n' :: rest => crlfCount rest + 1
  | _ :: rest => crlfCount rest
  | [] => 0

/-- The lines of a text: LF-inclusive, the last one possibly unterminated. -/
abbrev linesOf (text : Str) : List Str := splitInclusive '\n' text

/-- The file header line `--- before` of every patch and fragment the service writes. -/
def beforeHeader : Str := ['-', '-', '-', ' ', 'b', 'e', 'f', 'o', 'r', 'e', '\n']

/-- The file header line `+++ after`. -/
def afterHeader : Str := ['+', '+', '+', ' ', 'a', 'f', 't', 'e', 'r', '\n']

/-- A line exceeds the byte limit without counting its terminating LF. -/
def lineTooLong (line : Str) : Bool :=
  byteLen ((stripSuffix '\n' line).getD line) > maxLineBytes

def textInfo (text label : Str) : Except TextDiffError TextInfo :=
  if byteLen text > maxTextBytes || text.contains '\x00' || label.isEmpty || byteLen label > 128 ||
      label.any isControl then
    .error .invalidInput
  else
    let lines := (linesOf text).length
    if lines > maxLines || (linesOf text).any lineTooLong then
      .error .invalidInput
    else
      let crlf := crlfCount text
      .ok {
        label
        bytes := byteLen text
        lines
        crlf
        lf := text.count '\n' - crlf
        bareCr := text.count '\r' - crlf
        bom := text.head? == some '\ufeff'
        finalNewline := endsWith text '\n' }

/-- The conditions on a text that `text_info` checks, without those on its label. -/
structure ValidText (text : Str) : Prop where
  bytes : byteLen text ≤ maxTextBytes
  noNul : '\x00' ∉ text
  lines : (linesOf text).length ≤ maxLines
  shortLines : ∀ line ∈ linesOf text, lineTooLong line = false

theorem validText_of_textInfo {text label : Str} {info : TextInfo} (accepted : textInfo text label = .ok info) :
    ValidText text := by
  simp only [textInfo] at accepted
  split_ifs at accepted with outer inner
  simp only [Bool.or_eq_true, decide_eq_true_eq, not_or, gt_iff_lt, Nat.not_lt, List.contains_iff_mem, List.any_eq_true,
    not_exists, not_and, Bool.not_eq_true] at outer inner
  exact ⟨outer.1.1.1.1, outer.1.1.1.2, inner.1, inner.2⟩

theorem beforeHeader_terminated : Terminated '\n' beforeHeader := ⟨beforeHeader.dropLast, by decide, rfl⟩
theorem afterHeader_terminated : Terminated '\n' afterHeader := ⟨afterHeader.dropLast, by decide, rfl⟩

end OpenLegal.TextDiff
