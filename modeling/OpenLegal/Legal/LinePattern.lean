import OpenLegal.Legal.LawReference
import OpenLegal.Legal.Record
import OpenLegal.Rust.Pattern

/-! # Looking up lines by patterns

Patterns for whole lines are combined into anchored queries of bounded size. The queries together find the lines that one
of the patterns matches.
-/

namespace OpenLegal.Legal

open Rust Rust.Str Theory Pattern

def pushEscaped (c : Char) : Str := if "\\.+*?()|[]\x7b\x7d^$#&-~".toList.contains c then ['\\', c] else [c]

theorem readsItem_pushEscaped (c : Char) : ReadsItem (pushEscaped c) (literal c) := by
  have table : "\\.+*?()|[]\x7b\x7d^$#&-~".toList = metaCharacters := by rfl
  have quoted := @readsItem_quoted c
  simpa only [pushEscaped, table, List.contains_iff_mem] using quoted

theorem reads_escaped (text : Str) : Reads (text.flatMap pushEscaped) (text.map literal) := by
  induction text with
  | nil => exact reads_nil
  | cons c text ih => exact (readsItem_pushEscaped c).cons ih

/-- `[^0-9]`. -/
def noDigit : Regex Char := classOf true [('0', '9')]

theorem mem_noDigit {word : Str} : word ∈ noDigit.language ↔ ∃ c, isAsciiDigit c = false ∧ word = [c] := by
  have same (c : Char) : inRanges [('0', '9')] c = isAsciiDigit c := by simp [inRanges, isAsciiDigit, Char.le_def]
  simp [noDigit, classOf, same]

theorem readsItem_noDigit : ReadsItem ['[', '^', '0', '-', '9', ']'] noDigit := fun _ _ _ => rfl

theorem mem_behind {word : Str} (line : '\n' ∉ word) : word ∈ (Regex.sequence [noDigit, .star dot]).optional.language ↔
    ∀ c ∈ word.head?, isAsciiDigit c = false := by
  rw [Regex.mem_optional, Regex.mem_sequence_cons]
  constructor
  · rintro (⟨u, single, v, -, rfl⟩ | rfl)
    · obtain ⟨d, other, rfl⟩ := (mem_noDigit).mp single
      rintro _ ⟨⟩
      exact other
    · intro c impossible
      cases impossible
  · intro other
    cases word with
    | nil => exact .inr rfl
    | cons c rest =>
      refine .inl ⟨[c], (mem_noDigit).mpr ⟨c, other c rfl, rfl⟩, rest, ?_, rfl⟩
      exact Regex.mem_sequence_cons.mpr ⟨rest, mem_dotStar.mpr fun member => line (by simp [member]), [], rfl, by simp⟩

/-! ## Anchored queries -/

def maxQueryBytes : ℕ := 4000

end OpenLegal.Legal
