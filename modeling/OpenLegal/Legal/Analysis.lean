import OpenLegal.Legal.Record
import OpenLegal.Theory.Polled

/-! # Korean surface analysis

Bounded dual-engine analysis. Each line of a text is normalized and segmented by both engines; a text that
exceeds a bound is rejected rather than split, which would change its segmentation.
-/

namespace OpenLegal.Legal

open Rust Rust.Str Theory Polled

def maxLineBytes : ℕ := 65536
def maxLineScalars : ℕ := 4096
def maxRunScalars : ℕ := 128
def maxFieldTokens : ℕ := 262144

inductive Engine where
  | lindera
  | mecab
deriving DecidableEq, Repr

/-- The tokens that each engine found. -/
structure AnalyzedText where
  lindera : List Str
  mecab : List Str
deriving DecidableEq, Repr

namespace AnalyzedText

def none : AnalyzedText := ⟨[], []⟩

def tokens (text : AnalyzedText) : Engine → List Str
  | .lindera => text.lindera
  | .mecab => text.mecab

def count (text : AnalyzedText) : ℕ := text.lindera.length + text.mecab.length

end AnalyzedText

/-- The third-party analyzers: canonical composition, and the surfaces that either engine finds in a line. -/
structure KoreanAnalyzer where
  nfc : Str → Str
  segment : Str → Option (List Str)
  tokenize : Str → List Str

/-- The engines have superlinear work in the runs between whitespace. -/
def validateLine : ℕ → ℕ → Str → Except DatabaseError Unit
  | _, _, [] => .ok ()
  | scalars, run, c :: rest =>
    let run := if isWhitespace c then 0 else run + 1
    if scalars + 1 > maxLineScalars then .error .capacity
    else if run > maxRunScalars then .error .capacity
    else validateLine (scalars + 1) run rest

namespace KoreanAnalyzer

variable (analyzer : KoreanAnalyzer)

def analyzeLine (result : AnalyzedText) (line : Str) : Polled DatabaseError AnalyzedText := do
  poll
  if byteLen line > maxLineBytes then fail .capacity
  else do
    let normalized := toAsciiLowercase (analyzer.nfc line)
    if byteLen normalized > maxLineBytes then fail .capacity
    else do
      lift (validateLine 0 0 normalized)
      if SourceRights.isBlank normalized then pure result
      else do
        let surfaces ← lift ((analyzer.segment normalized).elim (.error .storageCorrupt) .ok)
        poll
        let found : AnalyzedText :=
          ⟨surfaces.filter (!SourceRights.isBlank ·), (analyzer.tokenize normalized).filter (!SourceRights.isBlank ·)⟩
        if found.lindera.isEmpty || found.mecab.isEmpty then fail .storageCorrupt
        else if result.count + found.count > maxFieldTokens then fail .capacity
        else do
          poll
          pure ⟨result.lindera ++ found.lindera, result.mecab ++ found.mecab⟩

/-- The second poll is the search for a free engine: all of them may be busy. -/
def analyze (text : Str) : Polled DatabaseError AnalyzedText := do
  poll
  poll
  (splitInclusive '\n' text).foldlM analyzer.analyzeLine .none

theorem steady_analyzeLine (result : AnalyzedText) (line : Str) : Steady (analyzer.analyzeLine result line) := by
  apply Steady.bind Steady.poll
  intro _
  apply Steady.ite (fun _ => Steady.fail _)
  intro _
  apply Steady.ite (fun _ => Steady.fail _)
  intro _
  apply Steady.bind (Steady.lift _)
  intro _
  apply Steady.ite (fun _ => Steady.pure _)
  intro _
  apply Steady.bind (Steady.lift _)
  intro surfaces
  apply Steady.bind Steady.poll
  intro _
  apply Steady.ite (fun _ => Steady.fail _)
  intro _
  apply Steady.ite (fun _ => Steady.fail _)
  intro _
  exact Steady.bind Steady.poll fun _ => Steady.pure _

theorem steady_analyze (text : Str) : Steady (analyzer.analyze text) := by
  apply Steady.bind Steady.poll
  intro _
  apply Steady.bind Steady.poll
  intro _
  exact Steady.foldlM analyzer.steady_analyzeLine _ _

end KoreanAnalyzer

end OpenLegal.Legal
