import Mathlib.Data.Char
import Mathlib.Data.List.Lex
import OpenLegal.Legal.LawName
import OpenLegal.Legal.LinePattern

/-! # Searching for titles

A wanted name becomes a pattern for titles with its characters, and a title that is found is accepted by its key. The key
ignores more than the pattern does.
-/

namespace OpenLegal.Legal

open Rust Rust.Str Theory Pattern

/-- The name without spaces and with the official dot. -/
def spelling (name : Str) : Str := (name.filter (!isWhitespace ·)).map officialDot

/-- Words with one space between them. -/
def SingleSpaced (title : Str) : Prop := ∃ words, (∀ word ∈ words, IsWord word) ∧ title = joinWords words

/-! ## Keys and spellings -/

/-- What stands for a character of a name. -/
def titleItem (c : Char) : Regex Char :=
  if c ∈ middleDots then classOf false (middleDots.map fun dot => (dot, dot)).reverse else literal c

/-- Behind the first character every other one may follow a space. -/
def gapped (name : Str) : List (Regex Char) := name.flatMap fun c => [(literal ' ').optional, titleItem c]

/-- A text with the characters of a name, each behind at most one space. -/
inductive Gapped : Str → Str → Prop where
  | nil : Gapped [] []
  | next {c d : Char} {name text : Str} (same : officialDot c = officialDot d) (more : Gapped name text) :
      Gapped (c :: name) (d :: text)
  | space {c d : Char} {name text : Str} (same : officialDot c = officialDot d) (more : Gapped name text) :
      Gapped (c :: name) (' ' :: d :: text)

theorem isWhitespace_of_officialDot {c d : Char} (same : officialDot c = officialDot d) :
    isWhitespace c = isWhitespace d := by
  rw [← (officialDot_class c).1, same, (officialDot_class d).1]

/-- Only white space is between the characters. -/
theorem Gapped.spelling {name text : Str} (matched : Gapped name text) (visible : ∀ c ∈ name, isWhitespace c = false) :
    name.map officialDot = spelling text := by
  have shown {d : Char} (other : isWhitespace d = false) (rest : Str) :
      Legal.spelling (d :: rest) = officialDot d :: Legal.spelling rest := by
    rw [Legal.spelling, List.filter_cons_of_pos (by simp [other]), List.map_cons, Legal.spelling]
  induction matched with
  | nil => rfl
  | next same _ ih =>
    rw [List.forall_mem_cons] at visible
    rw [shown ((isWhitespace_of_officialDot same).symm.trans visible.1), ← ih visible.2, List.map_cons, same]
  | @space c d name text same _ ih =>
    rw [List.forall_mem_cons] at visible
    have space : Legal.spelling (' ' :: d :: text) = Legal.spelling (d :: text) := by
      rw [Legal.spelling, List.filter_cons_of_neg (by simp [isWhitespace_space]), Legal.spelling]
    rw [space, shown ((isWhitespace_of_officialDot same).symm.trans visible.1), ← ih visible.2, List.map_cons, same]

theorem Gapped.word (word : Str) {name text : Str} (matched : Gapped name text) : Gapped (word ++ name) (word ++ text) := by
  induction word with
  | nil => exact matched
  | cons c word ih => exact .next rfl ih

theorem SingleSpaced.line {title : Str} (spaced : SingleSpaced title) : '\n' ∉ title := by
  obtain ⟨words, shapes, rfl⟩ := spaced
  intro member
  rcases mem_joinWords member with space | ⟨word, known, here⟩
  · cases space
  · have blank := isWhitespace_newline
    rw [(shapes word known).2 _ here] at blank
    cases blank

end OpenLegal.Legal
