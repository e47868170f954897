import OpenLegal.Legal.Domain
import OpenLegal.SearchQuery.PlainWords

/-! # Collection requests

Explicit, bounded requests for collecting public legal source material. A search target carries a plain term;
whether the term means the same as a search query is decided here against the query language.
-/

namespace OpenLegal.Legal

open Rust Rust.Str SearchQuery

inductive CollectionSearchMode where
  | query
  | literal
deriving DecidableEq, Repr

inductive CollectionTarget where
  | object (object : ObjectId)
  | precedentCase (caseNumber : Str) (expectedId : Option Str)
  | search (mode : CollectionSearchMode) (term : Str) (datasets : List Dataset)
deriving DecidableEq, Repr

structure CollectionRequest where
  target : CollectionTarget
deriving DecidableEq, Repr

/-- A word that would be an operator, in either case. -/
def isOperatorName (word : Str) : Bool :=
  ([['A', 'N', 'D'], ['O', 'R'], ['N', 'O', 'T']] : List Str).contains (toAsciiUppercase word)

namespace CollectionRequest

variable (unicode : Unicode)

def validate (request : CollectionRequest) : Except DatabaseError Unit :=
  match request.target with
  | .object object => do
    object.validate
    if object.jurisdiction ≠ ['k', 'r'] || object.provider ≠ "law_go_kr".toList ||
        object.dataset ≠ .nationalStatute || !object.id.all isAsciiDigit then .error .invalidInput
    else .ok ()
  | .precedentCase caseNumber expectedId =>
    if caseNumber.isEmpty || byteLen caseNumber > 64 ||
        !(caseNumber.all fun c => unicode.isAlphanumeric c || c == '-') ||
        expectedId.any fun id => id.isEmpty || byteLen id > 128 || !id.all isAsciiDigit then .error .invalidInput
    else .ok ()
  | .search mode term datasets =>
    if trim term ≠ term || term.isEmpty || byteLen term > 128 ||
        (term.any fun c => !(unicode.isAlphanumeric c || c == ' ' || c == '-')) || datasets.length > 8 ||
        (mode == .query && (splitWhitespace term).any isOperatorName) || !datasets.Nodup then .error .invalidInput
    else .ok ()

variable {unicode}

/-- What acceptance of a term in query mode says about it. -/
theorem of_validate_search {term : Str} {datasets : List Dataset}
    (accepted : validate unicode ⟨.search .query term datasets⟩ = .ok ()) :
    trim term = term ∧ term ≠ [] ∧ byteLen term ≤ 128 ∧
      (∀ c ∈ term, isPlain unicode c = true ∨ c = ' ') ∧ ∀ word ∈ splitWhitespace term, isOperatorName word = false := by
  simp only [validate, ite_error_eq_ok, Bool.or_eq_true, not_or, decide_eq_true_eq, not_not, gt_iff_lt, Nat.not_lt,
    Bool.and_eq_true, not_and, beq_self_eq_true, true_implies, Bool.not_eq_true, List.any_eq_false,
    Bool.not_eq_true', Bool.not_eq_false, List.isEmpty_eq_false_iff] at accepted
  obtain ⟨⟨⟨⟨⟨⟨⟨trimmed, nonempty⟩, short⟩, letters⟩, -⟩, words⟩, -⟩, -⟩ := accepted
  refine ⟨trimmed, nonempty, short, ?_, words⟩
  intro c member
  have plain := letters c member
  simp only [isPlain, Bool.or_eq_true, beq_iff_eq] at plain ⊢
  tauto

end CollectionRequest

/-- The fields that searches of the corpus may name. -/
def searchFields : List Str := [['t', 'i', 't', 'l', 'e'], ['b', 'o', 'd', 'y'], "case_number".toList]

/-- The processor of corpus searches. -/
def corpusQueries : SearchQueryProcessor := ⟨searchFields, by decide, by decide, by decide⟩

example : SearchQueryProcessor.new searchFields = .ok corpusQueries := rfl

/-- An accepted term keeps its meaning as a query exactly if no word of it begins with a minus sign. -/
theorem plainQuery_iff {unicode : Unicode} {term : Str} {datasets : List Dataset}
    (accepted : CollectionRequest.validate unicode ⟨.search .query term datasets⟩ = .ok ()) :
    (∃ query, corpusQueries.parse unicode term = .ok query ∧
      query.expression.plainWords = some (splitWhitespace term)) ↔
    ∀ word ∈ splitWhitespace term, word.head? ≠ some '-' := by
  obtain ⟨trimmed, nonempty, short, letters, operators⟩ := CollectionRequest.of_validate_search accepted
  have space : isWhitespace ' ' = true ∧ isControl ' ' = false := by decide +kernel
  constructor
  · rintro ⟨query, parsed, values⟩
    apply SearchQueryProcessor.words_head_of_parse _ parsed values
    intro c member
    rcases letters c member with plain | rfl
    · exact .inl plain
    · exact .inr space.1
  · intro heads
    apply SearchQueryProcessor.parse_plainWords trimmed nonempty
    · simp only [maxQueryNodes]
      omega
    · intro c member
      rcases letters c member with plain | rfl
      · exact ⟨isControl_of_isPlain plain, ne_of_isPlain plain (by decide) (by decide)⟩
      · exact ⟨space.2, by decide⟩
    · intro word member
      obtain ⟨shape, inside⟩ := mem_splitWhitespace trimmed member
      refine ⟨shape.1, ?_, heads word member, ?_⟩
      · intro c found
        rcases letters c (inside found) with plain | rfl
        · exact plain
        · rw [shape.2 ' ' found] at space
          cases space.1
      · have other := operators word member
        refine ⟨?_, ?_, ?_⟩
        all_goals
          rintro rfl
          revert other
          decide

/-- Two plain words. -/
theorem plainQuery_iff_twoWords :
    ∃ query, corpusQueries.parse Unicode.korean ['민', '법', ' ', '형', '-', '1'] = .ok query ∧
      query.expression.plainWords = some [['민', '법'], ['형', '-', '1']] := by
  have split : splitWhitespace ['민', '법', ' ', '형', '-', '1'] = [['민', '법'], ['형', '-', '1']] := by decide +kernel
  rw [← split]
  apply (@plainQuery_iff Unicode.korean ['민', '법', ' ', '형', '-', '1'] [] (by decide +kernel)).mpr
  rw [split]
  decide

/-- An accepted term whose second word is negated in the query language. -/
theorem negated_term_accepted :
    ¬ ∀ unicode term datasets, CollectionRequest.validate unicode ⟨.search .query term datasets⟩ = .ok () →
      ∃ query, corpusQueries.parse unicode term = .ok query ∧
        query.expression.plainWords = some (splitWhitespace term) := by
  intro keeps
  obtain ⟨query, parsed, values⟩ := keeps Unicode.korean ['민', '법', ' ', '-', '형', '법'] [] (by decide +kernel)
  have plain : PlainText Unicode.korean ['민', '법', ' ', '-', '형', '법'] := by
    have each : ['민', '법', ' ', '-', '형', '법'].all (fun c => isPlain Unicode.korean c || isWhitespace c) = true := by
      decide +kernel
    intro c member
    have found := List.all_eq_true.mp each c member
    rwa [Bool.or_eq_true] at found
  have split : ['-', '형', '법'] ∈ splitWhitespace ['민', '법', ' ', '-', '형', '법'] := by decide +kernel
  exact SearchQueryProcessor.words_head_of_parse plain parsed values _ split rfl

end OpenLegal.Legal
