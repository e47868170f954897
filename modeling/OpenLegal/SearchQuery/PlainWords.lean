import OpenLegal.Rust.Words
import OpenLegal.SearchQuery.Compositional

/-! # Queries that are plain words

A list of plain words is the simplest query. A text of such words parses to the conjunction of them, and a
conjunction of terms is read from words none of which begins with a minus sign.
-/

namespace OpenLegal.SearchQuery

open Rust Rust.Str Scanner

/-- The value of a term. -/
def Expr.termValue : Expr → Option Str
  | .term _ value => some value
  | _ => none

/-- The words of a term or of a conjunction of terms. -/
def Expr.plainWords : Expr → Option (List Str)
  | .term _ value => some [value]
  | .and _ expressions => expressions.mapM Expr.termValue
  | _ => none

/-- A character of a plain word. -/
def isPlain (unicode : Unicode) (c : Char) : Bool := unicode.isAlphanumeric c || c == '-'

/-- A word of letters, numbers and minus signs that is no operator and does not begin with one. -/
structure PlainWord (unicode : Unicode) (word : Str) : Prop where
  nonempty : word ≠ []
  plain : ∀ c ∈ word, isPlain unicode c = true
  first : word.head? ≠ some '-'
  notOperator : word ≠ ['A', 'N', 'D'] ∧ word ≠ ['O', 'R'] ∧ word ≠ ['N', 'O', 'T']

section Plain

variable {unicode : Unicode}

theorem isWhitespace_of_isPlain {c : Char} (plain : isPlain unicode c = true) : isWhitespace c = false := by
  rcases Bool.or_eq_true_iff.mp plain with letter | minus
  · exact (unicode.separated c letter).1
  · rw [eq_of_beq minus]
    decide +kernel

theorem isControl_of_isPlain {c : Char} (plain : isPlain unicode c = true) : isControl c = false := by
  rcases Bool.or_eq_true_iff.mp plain with letter | minus
  · exact unicode.printable c letter
  · rw [eq_of_beq minus]
    decide

/-- Of the ASCII punctuation only the minus sign is plain. -/
theorem ne_of_isPlain {c mark : Char} (plain : isPlain unicode c = true) (punctuation : isAsciiPunctuation mark = true)
    (other : mark ≠ '-') : c ≠ mark := by
  rintro rfl
  rcases Bool.or_eq_true_iff.mp plain with letter | minus
  · rw [(unicode.separated c letter).2] at punctuation
    cases punctuation
  · exact other (eq_of_beq minus)

theorem PlainWord.isWord {word : Str} (shape : PlainWord unicode word) : IsWord word :=
  ⟨shape.nonempty, fun c member => isWhitespace_of_isPlain (shape.plain c member)⟩

/-! ## Reading a plain word -/

theorem endsWord_plain {c : Char} (plain : isPlain unicode c = true) (before rest : Str) :
    endsWord unicode before c rest = false := by
  have opening := ne_of_isPlain plain (show isAsciiPunctuation '(' = true by decide) (by decide)
  have closing := ne_of_isPlain plain (show isAsciiPunctuation ')' = true by decide) (by decide)
  have double := ne_of_isPlain plain (show isAsciiPunctuation '"' = true by decide) (by decide)
  have single := ne_of_isPlain plain (show isAsciiPunctuation '\'' = true by decide) (by decide)
  rw [endsWord, isWhitespace_of_isPlain plain]
  simp [opening, closing, double, single]

theorem wordLoop_plain {text : Str} (plain : ∀ c ∈ text, isPlain unicode c = true) {tail : Str}
    (ends : Separates tail) (before : Str) (word : Word) :
    wordLoop unicode before (text ++ tail) word =
      .ok ({ word with value := word.value ++ text }, ⟨text.reverse ++ before, tail⟩) := by
  induction text generalizing before word with
  | nil =>
    cases tail with
    | nil => simp [wordLoop]
    | cons c tail =>
      have blank := ends c rfl
      rw [List.nil_append, wordLoop_ends (by simp [endsWord, blank])]
      simp
  | cons c text ih =>
    rw [List.forall_mem_cons] at plain
    have escape := ne_of_isPlain plain.1 (show isAsciiPunctuation '\\' = true by decide) (by decide)
    have star := ne_of_isPlain plain.1 (show isAsciiPunctuation '*' = true by decide) (by decide)
    rw [List.cons_append, wordLoop_char (endsWord_plain plain.1 _ _) escape, ih plain.2, if_neg star]
    simp

/-- A plain word is no field, whatever follows it. -/
theorem not_field {word tail : Str} (shape : PlainWord unicode word) (ends : Separates tail) :
    (['i', 'n', ':'] : Str).isPrefixOf (word ++ tail) = false := by
  by_contra field
  rw [Bool.not_eq_false, List.isPrefixOf_iff_prefix] at field
  obtain ⟨rest, same⟩ := field
  have colon : ':' ∉ word := fun member =>
    ne_of_isPlain (shape.plain _ member) (show isAsciiPunctuation ':' = true by decide) (by decide) rfl
  have blanks : isWhitespace 'n' = false ∧ isWhitespace ':' = false := by decide +kernel
  match word, shape.nonempty with
  | [c], _ =>
    cases same
    have blank := ends 'n' rfl
    rw [blanks.1] at blank
    cases blank
  | [c, d], _ =>
    cases same
    have blank := ends ':' rfl
    rw [blanks.2] at blank
    cases blank
  | c :: d :: e :: word, _ =>
    cases same
    exact colon (by simp)

theorem kindAt_plain {word tail : Str} (shape : PlainWord unicode word) (ends : Separates tail) (before : Str) :
    kindAt unicode ⟨before, word ++ tail⟩ = .ok (.term word, ⟨word.reverse ++ before, tail⟩) := by
  have loop := wordLoop_plain shape.plain ends before ⟨[], false, []⟩
  have field := not_field shape ends
  obtain ⟨c, rest, rfl⟩ := List.exists_cons_of_ne_nil shape.nonempty
  have plain := shape.plain c List.mem_cons_self
  rw [kindAt]
  dsimp only [List.cons_append] at field loop ⊢
  rw [if_neg (ne_of_isPlain plain (by decide) (by decide)), if_neg (ne_of_isPlain plain (by decide) (by decide)),
    if_neg (by rintro rfl; exact shape.first rfl), if_neg (ne_of_isPlain plain (by decide) (by decide)),
    if_neg (ne_of_isPlain plain (by decide) (by decide)), if_neg (by simp [field]), Scanner.word, loop, ok_bind]
  simp [classify, shape.notOperator]

theorem next_plain {gap word tail : Str} (blank : ∀ c ∈ gap, isWhitespace c = true) (shape : PlainWord unicode word)
    (ends : Separates tail) (before : Str) :
    next unicode ⟨before, gap ++ (word ++ tail)⟩ =
      .ok (⟨.term word, ⟨byteLen gap + byteLen before, byteLen word + (byteLen gap + byteLen before)⟩⟩,
        ⟨word.reverse ++ (gap.reverse ++ before), tail⟩) := by
  have skipped : skipWhitespace ⟨before, gap ++ (word ++ tail)⟩ = ⟨gap.reverse ++ before, word ++ tail⟩ := by
    obtain ⟨c, rest, rfl⟩ := List.exists_cons_of_ne_nil shape.nonempty
    have visible := shape.isWord.2 c List.mem_cons_self
    rw [skipWhitespace, skipWhile_eq, List.takeWhile_append_of_pos blank, List.dropWhile_append_of_pos blank]
    simp [visible]
  rw [next, skipped, kindAt_plain shape ends, ok_bind]
  simp [offset, byteLen_reverse]

/-! ## Parsing plain words -/

/-- No text without a colon is a field shorthand. -/
theorem notShorthand_of_not_mem {fields : List Str} {source : Str} (absent : ':' ∉ source) (range : ByteSpan) :
    notShorthand fields source range := by
  intro field _ rest stripped first
  apply absent
  have inside : ':' ∈ (get source range.start range.stop).getD [] := by
    rw [stripPrefix_eq_some stripped]
    exact List.mem_append_right _ (List.mem_of_head? first)
  match found : get source range.start range.stop with
  | none =>
    rw [found] at inside
    cases inside
  | some middle =>
    rw [found] at inside
    obtain ⟨front, rear, rfl, -, -⟩ := get_iff.mp found
    exact List.mem_append_right _ (List.mem_append_left _ inside)

/-- A plain word after a gap is an operand. -/
theorem derives_plain {fields : List Str} {gap word tail before : Str} (blank : ∀ c ∈ gap, isWhitespace c = true)
    (shape : PlainWord unicode word) (ends : Separates tail)
    (absent : ':' ∉ input ⟨before, gap ++ (word ++ tail)⟩) (depth : ℕ) (inField : Bool) :
    Derives fields unicode .operand depth inField ⟨before, gap ++ (word ++ tail)⟩
      [.term ⟨byteLen gap + byteLen before, byteLen word + (byteLen gap + byteLen before)⟩ word]
      ⟨word.reverse ++ (gap.reverse ++ before), tail⟩ := by
  have read := next_plain blank shape ends before
  refine .term read rfl (notShorthand_of_not_mem ?_ _)
  rw [(next_reads rfl read).input_eq rfl]
  exact absent

theorem derives_spaced {fields : List Str} {tail : Str} {words : List Str} (spaced : Spaced tail words)
    (plain : ∀ word ∈ words, PlainWord unicode word) (before : Str) (absent : ':' ∉ input ⟨before, tail⟩) :
    ∃ others place, Derives fields unicode (.andRest (byteLen before)) 0 false ⟨before, tail⟩ others place ∧
      place.rest = [] ∧ others.mapM Expr.termValue = some words ∧ sizes others = words.length := by
  induction spaced generalizing before with
  | nil =>
    obtain ⟨token, read, kind⟩ := @next_at_end unicode ⟨before, []⟩ rfl
    refine ⟨[], ⟨before, []⟩, .andStop read ?_ ?_, rfl, rfl, rfl⟩
    · simp [kind]
    · rw [kind]
      rfl
  | @cons gap word tail words blank nonempty _ more ih =>
    rw [List.forall_mem_cons] at plain
    have read := next_plain blank plain.1 more.separates before
    have head := @derives_plain unicode fields gap word tail before blank plain.1 more.separates absent 0 false
    obtain ⟨others, place, rest, done, values, size⟩ := ih plain.2 (word.reverse ++ (gap.reverse ++ before)) (by
      simpa [input] using absent)
    have positive : 0 < byteLen gap := (List.length_pos_iff.mpr nonempty).trans_le (length_le_byteLen gap)
    refine ⟨_ :: others, place, .andImplicit read rfl ?_ head ?_, done, ?_, ?_⟩
    · dsimp only
      omega
    · simpa [Expr.span, byteLen_reverse] using rest
    · rw [List.mapM_cons, values]
      rfl
    · rw [sizes, size, List.length_cons, Expr.size]
      omega

/-- A chain of terms is a conjunction of its words. -/
theorem plainWords_chained {span : ByteSpan} {value : Str} {others : List Expr} {words : List Str}
    (values : others.mapM Expr.termValue = some words) :
    (chained .and (.term span value) others).plainWords = some (value :: words) := by
  rw [chained]
  cases last : others.getLast? with
  | none =>
    rw [List.getLast?_eq_none_iff.mp last] at values
    cases values
    rfl
  | some expression =>
    rw [Expr.plainWords, List.mapM_cons, values]
    rfl

theorem size_chained_le (first : Expr) (others : List Expr) :
    (chained .and first others).size ≤ first.size + sizes others + 1 := by
  rw [chained]
  cases others.getLast? with
  | none => dsimp only; omega
  | some last => rw [Expr.size, sizes]

end Plain

/-! ## Terms that were read -/

section Read

variable {fields : List Str} {unicode : Unicode}

/-- A word goes on from what was read of it. -/
theorem wordLoop_extends {before rest : Str} {word result : Word} {after : Scanner}
    (read : wordLoop unicode before rest word = .ok (result, after)) : word.value <+: result.value := by
  induction before, rest, word using wordLoop.induct unicode with
  | case1 before word =>
    simp only [wordLoop, Except.ok.injEq, Prod.mk.injEq] at read
    obtain ⟨rfl, -⟩ := read
    exact List.prefix_rfl
  | case2 before c rest word ends =>
    rw [wordLoop_ends ends] at read
    cases read
    exact List.prefix_rfl
  | case3 before word inside =>
    rw [wordLoop_trailing] at read
    cases read
  | case4 before word inside literal rest ih =>
    rw [wordLoop_escape] at read
    exact (List.prefix_append _ _).trans (ih read)
  | case5 before c rest word inside plain stars ih =>
    rw [wordLoop_char (by simpa using inside) plain] at read
    exact (List.prefix_append _ _).trans (ih read)

theorem classify_term {word : Word} {span : ByteSpan} {value : Str} (classified : classify word span = .ok (.term value)) :
    value = word.value := by
  simp only [classify] at classified
  split at classified
  · split_ifs at classified
    all_goals simp_all
  · split_ifs at classified
    cases classified
  · cases classified

/-- Letters, numbers, minus signs and white space. -/
def PlainText (unicode : Unicode) (text : Str) : Prop := ∀ c ∈ text, isPlain unicode c = true ∨ isWhitespace c = true

theorem PlainText.of_reaches {s later : Scanner} (plain : PlainText unicode s.rest) (reaches : s.Reaches later) :
    PlainText unicode later.rest := by
  obtain ⟨consumed, shape, -⟩ := reaches
  intro c member
  exact plain c (by rw [shape]; exact List.mem_append_right _ member)

/-- A term of a plain text does not begin with a minus sign. -/
theorem next_term_head {s after : Scanner} {token : Token} {value : Str} (read : s.next unicode = .ok (token, after))
    (kind : token.kind = .term value) (plain : PlainText unicode s.rest) : value.head? ≠ some '-' := by
  have letters := plain.of_reaches (reaches_skipWhitespace s)
  have settled := skipWhitespace_idem s
  rw [next] at read
  obtain ⟨⟨kind', position⟩, found, result⟩ := bind_eq_ok.mp read
  cases result
  obtain rfl : kind' = .term value := kind
  generalize s.skipWhitespace = start at found letters settled
  obtain ⟨before, rest⟩ := start
  rw [kindAt] at found
  split at found
  · cases found
  · next c rest shape =>
    cases shape
    have visible : isPlain unicode c = true := by
      rcases letters c List.mem_cons_self with plain | blank
      · exact plain
      · have moved := congrArg (fun s => s.rest.length) settled
        simp only [skipWhitespace, skipWhile_eq, List.dropWhile_cons_of_pos blank, List.length_cons] at moved
        have shorter := (List.dropWhile_suffix isWhitespace (l := rest)).length_le
        omega
    have double := ne_of_isPlain visible (show isAsciiPunctuation '"' = true by decide) (by decide)
    have single := ne_of_isPlain visible (show isAsciiPunctuation '\'' = true by decide) (by decide)
    have escape := ne_of_isPlain visible (show isAsciiPunctuation '\\' = true by decide) (by decide)
    have named : (['i', 'n', ':'] : Str).isPrefixOf (c :: rest) = false := by
      by_contra field
      rw [Bool.not_eq_false, List.isPrefixOf_iff_prefix] at field
      have colon : ':' ∈ c :: rest := field.subset (by simp)
      rcases letters ':' colon with plain | blank
      · exact ne_of_isPlain plain (show isAsciiPunctuation ':' = true by decide) (by decide) rfl
      · revert blank
        decide +kernel
    simp only [double, single, named, if_false, Bool.false_eq_true] at found
    split_ifs at found with opening closing minus
    · cases found
    · cases found
    · cases found
    · rw [Scanner.word] at found
      obtain ⟨⟨word, last⟩, loop, found⟩ := bind_eq_ok.mp found
      obtain ⟨kind, classified, same⟩ := bind_eq_ok.mp found
      cases same
      rw [wordLoop_char (endsWord_plain visible _ _) escape] at loop
      obtain ⟨more, begins⟩ := wordLoop_extends loop
      rw [classify_term classified, ← begins]
      simpa using minus

theorem exists_of_mem_mapM {expressions : List Expr} {words : List Str} {word : Str}
    (values : expressions.mapM Expr.termValue = some words) (inside : word ∈ words) :
    ∃ expression ∈ expressions, expression.termValue = some word := by
  induction expressions generalizing words with
  | nil =>
    cases values
    cases inside
  | cons expression expressions ih =>
    rw [List.mapM_cons] at values
    obtain ⟨value, first, values⟩ := Option.bind_eq_some_iff.mp values
    obtain ⟨rest, more, same⟩ := Option.bind_eq_some_iff.mp values
    cases same
    rcases List.mem_cons.mp inside with rfl | inside
    · exact ⟨expression, List.mem_cons_self, first⟩
    · obtain ⟨other, member, found⟩ := ih more inside
      exact ⟨other, List.mem_cons_of_mem _ member, found⟩

/-- The words of a conjunction are the words of its members. -/
theorem words_head_chained {first : Expr} {others : List Expr}
    (head : ∀ words, first.plainWords = some words → ∀ word ∈ words, word.head? ≠ some '-')
    (tail : ∀ expression ∈ others, ∀ words, expression.plainWords = some words → ∀ word ∈ words, word.head? ≠ some '-')
    {words : List Str} (values : (chained .and first others).plainWords = some words) :
    ∀ word ∈ words, word.head? ≠ some '-' := by
  rw [chained] at values
  split at values
  · exact head words values
  · intro word inside
    obtain ⟨expression, member, value⟩ := exists_of_mem_mapM values inside
    have alone : expression.plainWords = some [word] := by
      cases expression with
      | term span value' =>
        cases value
        rfl
      | _ => cases value
    rcases List.mem_cons.mp member with rfl | member
    · exact head _ alone word (List.mem_singleton.mpr rfl)
    · exact tail _ member _ alone word (List.mem_singleton.mpr rfl)

/-- The words of what is derived from a plain text do not begin with minus signs. -/
theorem Derives.words_head {rule : Rule} {depth : ℕ} {inField : Bool} {s after : Scanner} {expressions : List Expr}
    (derives : Derives fields unicode rule depth inField s expressions after) (plain : PlainText unicode s.rest) :
    ∀ expression ∈ expressions, ∀ words, expression.plainWords = some words → ∀ word ∈ words, word.head? ≠ some '-' := by
  induction derives with
  | term read kind =>
    intro expression member words values word inside
    cases List.mem_singleton.mp member
    cases values
    cases List.mem_singleton.mp inside
    exact next_term_head read kind plain
  | prefixed | exact | not | field | parentheses =>
    intro expression member words values
    cases List.mem_singleton.mp member
    cases values
  | words =>
    intro expression member words values
    cases List.mem_singleton.mp member
    rw [wordGroup] at values
    split at values <;> cases values
  | andStop | orStop =>
    intro expression impossible
    cases impossible
  | and head tail first rest =>
    intro expression member words values word inside
    cases List.mem_singleton.mp member
    have others := rest (plain.of_reaches head.located.advances)
    exact words_head_chained (first plain _ (List.mem_singleton.mpr rfl)) others values word inside
  | or head tail first rest =>
    intro expression member words values
    cases List.mem_singleton.mp member
    rw [chained] at values
    split at values
    · exact first plain _ (List.mem_singleton.mpr rfl) words values
    · cases values
  | andExplicit read _ head tail first rest =>
    have middle := plain.of_reaches (next_reads rfl read).advances
    rw [List.forall_mem_cons]
    exact ⟨first middle _ (List.mem_singleton.mpr rfl), rest (middle.of_reaches head.located.advances)⟩
  | orMore read _ head tail first rest =>
    have middle := plain.of_reaches (next_reads rfl read).advances
    rw [List.forall_mem_cons]
    exact ⟨first middle _ (List.mem_singleton.mpr rfl), rest (middle.of_reaches head.located.advances)⟩
  | andImplicit _ _ _ head tail first rest =>
    rw [List.forall_mem_cons]
    exact ⟨first plain _ (List.mem_singleton.mpr rfl), rest (plain.of_reaches head.located.advances)⟩

end Read

namespace SearchQueryProcessor

variable {processor : SearchQueryProcessor} {unicode : Unicode}

/-- A trimmed text of plain words is parsed to these words. -/
theorem parse_plainWords {text : Str} (trimmed : trim text = text) (nonempty : text ≠ [])
    (short : byteLen text + 2 ≤ maxQueryNodes) (letters : ∀ c ∈ text, isControl c = false ∧ c ≠ ':')
    (plain : ∀ word ∈ splitWhitespace text, PlainWord unicode word) :
    ∃ query, processor.parse unicode text = .ok query ∧ query.expression.plainWords = some (splitWhitespace text) := by
  obtain ⟨word, tail, words, rfl, shape, spaced⟩ := exists_words trimmed nonempty
  have split := splitWhitespace_word shape spaced.separates
  rw [spaced.split] at split
  rw [split, List.forall_mem_cons] at plain
  have absent : ':' ∉ input ⟨[], word ++ tail⟩ := fun member => (letters ':' member).2 rfl
  have head := @derives_plain unicode processor.fields [] word tail [] (by simp) plain.1 spaced.separates absent 0 false
  obtain ⟨others, place, rest, done, values, size⟩ := derives_spaced spaced plain.2 word.reverse (by
    simpa [input] using absent)
  have chain : Derives processor.fields unicode .and 0 false ⟨[], word ++ tail⟩
      [chained .and (.term ⟨0, byteLen word⟩ word) others] place := by
    refine .and (by simpa using head) ?_
    simpa [Expr.span, byteLen_reverse] using rest
  have counted : words.length ≤ byteLen (word ++ tail) := by
    have words := spaced.length_le
    have bytes := length_le_byteLen tail
    rw [byteLen_append]
    omega
  refine ⟨⟨word ++ tail, _⟩, parse_of_derives ?_ (fun c member => (letters c member).1) ?_ (chain.toOr (by simp) done) done, ?_⟩
  · simp only [maxQueryNodes, maxQueryBytes] at short ⊢
    omega
  · have bounded := size_chained_le (.term ⟨0, byteLen word⟩ word) others
    rw [Expr.size, size] at bounded
    omega
  · rw [split]
    exact plainWords_chained values

/-- The words of a parsed plain text do not begin with minus signs. -/
theorem words_head_of_parse {text : Str} {query : ParsedQuery} {words : List Str} (plain : PlainText unicode text)
    (parsed : processor.parse unicode text = .ok query) (values : query.expression.plainWords = some words) :
    ∀ word ∈ words, word.head? ≠ some '-' := by
  obtain ⟨-, -, blank | ⟨last, derives⟩⟩ := derives_of_parse parsed
  · rw [blank] at values
    cases values
  · exact derives.words_head plain _ (List.mem_singleton.mpr rfl) words values

end SearchQueryProcessor

end OpenLegal.SearchQuery
