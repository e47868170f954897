import OpenLegal.Legal.ArticleLocator
import OpenLegal.Rust.Trim
import Mathlib.Data.List.DropRight

/-! # Law names before an article

A citation names its law in the text before the article: in brackets, as the law of the previous citation, or
as the last words there. How many of the words belong to the name is left to the caller, who gets all of the
candidates with their places.
-/

namespace OpenLegal.Legal

open Rust Rust.Str

/-! ## Names -/

def middleDots : List Char := ['·', 'ㆍ', '‧', '•', '・', '･', '∙']

def officialDot (c : Char) : Char := if c ∈ middleDots then 'ㆍ' else c

/-- The brackets and quotes around a name. -/
def isQuote (c : Char) : Bool := "「」『』\"“”'‘’".toList.contains c

/-- `str::trim_matches`. -/
def trimMatches (accepts : Char → Bool) (s : Str) : Str := (s.dropWhile accepts).rdropWhile accepts

/-- `str::trim_end`. -/
def trimEnd (s : Str) : Str := s.rdropWhile isWhitespace

/-- The characters of a trimmed name, behind what was written of it. -/
def collapse (out : Str) (space : Bool) : Str → Str
  | [] => out
  | c :: rest =>
    if isWhitespace c then collapse out (!out.isEmpty) rest
    else collapse (out ++ (if space then [' '] else []) ++ [officialDot c]) false rest

attribute [grind =] collapse

/-- Bracket, whitespace and middle-dot normalization. The result keeps word spacing. -/
def normalizeLawName (input : Str) : Str := collapse [] false (trim (trimMatches isQuote (trim input)))

def maxLawNameBytes : ℕ := 512

def maxNameWords : ℕ := 8

/-! ## Words -/

def isBoundary (c : Char) : Bool :=
  c == '\n' || ".,;:!?()[]\x7b\x7d\"'“”‘’<>《》〈〉「」『』（）、。".toList.contains c

def separatesWords (c : Char) : Bool := isWhitespace c || isBoundary c

/-- The words that end a text, with their byte starts. -/
def wordTailLoop : ℕ → Str → List (ℕ × Str)
  | 0, _ => []
  | max + 1, head =>
    let word := head.rtakeWhile (!separatesWords ·)
    let before := head.rdropWhile (!separatesWords ·)
    if word.isEmpty then []
    else
      let trimmed := before.rdropWhile fun c => isWhitespace c && c != '\n'
      (if trimmed.length = before.length then [] else wordTailLoop max trimmed) ++ [(byteLen before, word)]

attribute [grind =] wordTailLoop

/-- Up to `max` whitespace-separated words ending `front`, stopping at punctuation. -/
def wordTail (front : Str) (max : ℕ) : List (ℕ × Str) := wordTailLoop max (trimEnd front)

def endsLikeLawName (word : Str) : Bool :=
  ["법", "법률", "령", "규칙", "규정", "헌법", "특례법", "기본법"].any fun suffix => suffix.toList.isSuffixOf word

def genericLawWord (word : Str) : Bool :=
  (["법", "법률", "영", "령", "규칙", "규정", "시행령", "시행규칙"].map String.toList).contains word

/-! ## References -/

/-- How an extracted citation names its law. -/
inductive LawReference where
  /-- Candidate names ending at the article, longest first, with their byte starts; and whether the word before the
  article is a generic word. -/
  | named (candidates : List (Str × ℕ)) (genericTail : Bool)
  /-- A reference to the previous citation's law, optionally naming a subordinate instrument of it. -/
  | same (suffix : Option Str) (start : ℕ)
  /-- A bare article joined to the previous citation by a connector. -/
  | continued
deriving DecidableEq, Repr

def suffixes : List Str := ["시행규칙", "시행령"].map String.toList

/-- `str::strip_suffix` for a string pattern. -/
def stripSuffixStr (suffix s : Str) : Option Str :=
  if suffix.isSuffixOf s then some (s.take (s.length - suffix.length)) else none

/-- The text before the last `c`, as `str::rfind` finds it, and the text behind it. -/
def rsplitAt (c : Char) (s : Str) : Option (Str × Str) :=
  if s.contains c then some ((s.rdropWhile (· != c)).dropLast, s.rtakeWhile (· != c)) else none

def openingBracket (c : Char) : Option Char :=
  if c = '」' then some '「' else if c = '』' then some '『' else none

/-- The text up to a closing bracket, with the suffix of the name behind it. -/
def bracketedBody (front : Str) : Str × Option Str :=
  (suffixes.findSome? fun suffix => do
    let body := trimEnd (← stripSuffixStr suffix (trimEnd front))
    if endsWith body '」' || endsWith body '』' then some (body, some suffix) else none).getD (trimEnd front, none)

def bracketedName (front : Str) : Option (Str × ℕ) := do
  let (body, suffix) := bracketedBody front
  let opening ← body.getLast?.bind openingBracket
  let (before, inner) ← rsplitAt opening body.dropLast
  if inner.isEmpty || maxLawNameBytes < byteLen inner || inner.contains '\n' then none
  else
    let name := normalizeLawName inner
    some (suffix.elim name fun suffix => name ++ ' ' :: suffix, byteLen before)

def sameLawForms : List (Str × Option Str) :=
  [("같은법시행규칙".toList, some "시행규칙".toList), ("같은법시행령".toList, some "시행령".toList),
    ("동법시행규칙".toList, some "시행규칙".toList), ("동법시행령".toList, some "시행령".toList), ("같은법".toList, none),
    ("동법".toList, none), ("같은영".toList, none), ("같은규칙".toList, none), ("동령".toList, none)]

/-- The last words as a reference to the same law: all of them, then ever fewer. -/
def sameLawSlices : List (ℕ × Str) → Option (Option Str × ℕ)
  | [] => none
  | (start, word) :: rest =>
    match sameLawForms.find? fun (form, _) => form == ((word :: rest.map Prod.snd).flatten) with
    | some (_, suffix) => some (suffix, start)
    | none => sameLawSlices rest

attribute [grind =] sameLawSlices

def sameLawReference (front : Str) : Option (Option Str × ℕ) := sameLawSlices (wordTail front 3)

/-- Words joined by single spaces. -/
def joinWords (words : List Str) : Str := [' '].intercalate words

/-- The names that the last words may be: all of them, then ever fewer. -/
def nameCandidates : List (ℕ × Str) → List (Str × ℕ)
  | [] => []
  | (start, word) :: rest =>
    let joined := joinWords (word :: rest.map Prod.snd)
    if byteLen joined ≤ maxLawNameBytes then (normalizeLawName joined, start) :: nameCandidates rest
    else nameCandidates rest

attribute [grind =] nameCandidates

/-- `str::replace` of a pattern of two characters by nothing. -/
def removePair (a b : Char) : Str → Str
  | [] => []
  | [c] => [c]
  | c :: d :: rest => if c = a ∧ d = b then removePair a b rest else c :: removePair a b (d :: rest)

attribute [grind =] removePair

def connectorOnly (gap : Str) : Bool :=
  let rest := removePair '까' '지' (removePair '부' '터' (removePair '내' '지' (removePair '또' '는' gap)))
  byteLen gap ≤ 24 && rest.all fun c => isWhitespace c || ",·ㆍ、~및와과".toList.contains c

/-- The law of an article behind `front`. -/
def lawReference (front : Str) (previousEnd : Option ℕ) : Option LawReference :=
  match bracketedName front with
  | some candidate => some (.named [candidate] false)
  | none =>
    match sameLawReference front with
    | some (suffix, start) => some (.same suffix start)
    | none =>
      let words := wordTail front maxNameWords
      match words.getLast?.filter fun (_, last) => endsLikeLawName last with
      | some (_, last) => some (.named (nameCandidates words) (genericLawWord last))
      | none =>
        -- the text between the previous citation and the article
        match previousEnd.bind (splitAt front) with
        | some (_, gap) => if connectorOnly gap then some .continued else none
        | none => none

/-! ## Places of names -/

/-- A byte offset at a character of the text. -/
def Inside (front : Str) (start : ℕ) : Prop := ∃ before rest, front = before ++ rest ∧ rest ≠ [] ∧ byteLen before = start

theorem Inside.lt {front : Str} {start : ℕ} (inside : Inside front start) : start < byteLen front := by
  obtain ⟨before, rest, rfl, nonempty, rfl⟩ := inside
  have positive := List.length_pos_iff.mpr nonempty
  have bytes := length_le_byteLen rest
  rw [byteLen_append]
  omega

theorem Inside.append {front : Str} {start : ℕ} (inside : Inside front start) (more : Str) : Inside (front ++ more) start := by
  obtain ⟨before, rest, rfl, nonempty, rfl⟩ := inside
  exact ⟨before, rest ++ more, by simp, by simp [nonempty], rfl⟩

theorem inside_of_begins {head front : Str} {start : ℕ} (inside : Inside head start) (begins : head <+: front) :
    Inside front start := by
  obtain ⟨more, rfl⟩ := begins
  exact inside.append more

/-- A word that a name may hold. -/
structure NameWord (word : Str) : Prop where
  nonempty : word ≠ []
  plain : ∀ c ∈ word, separatesWords c = false

theorem nameWord_rtakeWhile {head : Str} (nonempty : head.rtakeWhile (!separatesWords ·) ≠ []) :
    NameWord (head.rtakeWhile (!separatesWords ·)) :=
  ⟨nonempty, fun _ member => by simpa using List.mem_rtakeWhile_imp member⟩

theorem rdropWhile_append_rtakeWhile (accepts : Char → Bool) (s : Str) :
    s.rdropWhile accepts ++ s.rtakeWhile accepts = s := by
  rw [List.rdropWhile, List.rtakeWhile, ← List.reverse_append, List.takeWhile_append_dropWhile, List.reverse_reverse]

/-- The words that end a text stand in it one after the other. -/
structure Tail (front : Str) (words : List (ℕ × Str)) : Prop where
  inside : ∀ entry ∈ words, Inside front entry.1 ∧ NameWord entry.2
  ordered : words.Pairwise fun a b => a.1 < b.1

theorem Tail.of_begins {head front : Str} {words : List (ℕ × Str)} (tail : Tail head words) (begins : head <+: front) :
    Tail front words :=
  ⟨fun entry member => ⟨inside_of_begins (tail.inside entry member).1 begins, (tail.inside entry member).2⟩, tail.ordered⟩

theorem tail_concat {before word : Str} {words : List (ℕ × Str)} (tail : Tail before words) (shape : NameWord word) :
    Tail (before ++ word) (words ++ [(byteLen before, word)]) where
  inside := by
    rw [List.forall_mem_append]
    refine ⟨fun entry member => ⟨(tail.inside entry member).1.append word, (tail.inside entry member).2⟩, ?_⟩
    rintro entry member
    rw [List.mem_singleton.mp member]
    exact ⟨⟨before, word, rfl, shape.nonempty, rfl⟩, shape⟩
  ordered := by
    refine List.pairwise_append.mpr ⟨tail.ordered, List.pairwise_singleton _ _, ?_⟩
    intro entry member last final
    rw [List.mem_singleton.mp final]
    exact (tail.inside entry member).1.lt

theorem wordTailLoop_tail (max : ℕ) (head : Str) : Tail head (wordTailLoop max head) := by
  induction max generalizing head with
  | zero => exact ⟨by simp [wordTailLoop], .nil⟩
  | succ max ih =>
    rw [wordTailLoop]
    split_ifs with empty
    · exact ⟨by simp, .nil⟩
    · have shape := nameWord_rtakeWhile (by simpa using empty)
      have split := rdropWhile_append_rtakeWhile (!separatesWords ·) head
      conv => arg 1; rw [← split]
      refine tail_concat ?_ shape
      split_ifs
      · exact ⟨by simp, .nil⟩
      · exact (ih _).of_begins (List.rdropWhile_prefix _ _)

theorem wordTail_tail (front : Str) (max : ℕ) : Tail front (wordTail front max) :=
  (wordTailLoop_tail max (trimEnd front)).of_begins (List.rdropWhile_prefix _ _)

/-! ## Names of words -/

theorem not_isQuote_of_not_isBoundary {c : Char} (plain : isBoundary c = false) : isQuote c = false := by
  have quotes : "「」『』\"“”'‘’".toList.all isBoundary = true := by decide +kernel
  refine Bool.eq_false_iff.mpr fun quote => ?_
  rw [isQuote, List.contains_iff_mem] at quote
  rw [List.all_eq_true.mp quotes c quote] at plain
  cases plain

theorem NameWord.isWord {word : Str} (shape : NameWord word) : IsWord word := by
  refine ⟨shape.nonempty, fun c member => ?_⟩
  have plain := shape.plain c member
  rw [separatesWords, Bool.or_eq_false_iff] at plain
  exact plain.1

/-- Without white space the characters are kept one by one. -/
theorem collapse_word (out : Str) (space : Bool) {word : Str} (shape : IsWord word) (rest : Str) :
    collapse out space (word ++ rest) =
      collapse (out ++ (if space then [' '] else []) ++ word.map officialDot) false rest := by
  obtain ⟨c, word, rfl⟩ := List.exists_cons_of_ne_nil shape.1
  have more (word out : Str) (visible : ∀ d ∈ word, isWhitespace d = false) :
      collapse out false (word ++ rest) = collapse (out ++ word.map officialDot) false rest := by
    induction word generalizing out with
    | nil => simp
    | cons d word ih =>
      rw [List.cons_append, collapse, if_neg (by simp [visible d List.mem_cons_self]), ih]
      · simp
      · exact fun e member => visible e (List.mem_cons_of_mem _ member)
  rw [List.cons_append, collapse, if_neg (by simp [shape.2 c List.mem_cons_self]), more]
  · simp
  · exact fun d member => shape.2 d (List.mem_cons_of_mem _ member)

/-- A gap asks for a space before the next word. -/
theorem collapse_gap {out : Str} (started : out ≠ []) (space : Bool) {gap : Str} (blank : ∀ c ∈ gap, isWhitespace c = true)
    (nonempty : gap ≠ []) (rest : Str) : collapse out space (gap ++ rest) = collapse out true rest := by
  induction gap generalizing space with
  | nil => exact absurd rfl nonempty
  | cons c gap ih =>
    rw [List.forall_mem_cons] at blank
    rw [List.cons_append, collapse, if_pos blank.1, show (!out.isEmpty) = true by simpa using started]
    cases gap with
    | nil => rfl
    | cons d gap => exact ih true blank.2 (List.cons_ne_nil d gap)

theorem joinWords_cons (word next : Str) (rest : List Str) :
    joinWords (word :: next :: rest) = word ++ ' ' :: joinWords (next :: rest) := by
  simp [joinWords, List.intercalate]

theorem joinWords_eq (word : Str) (rest : List Str) : joinWords (word :: rest) = word ++ rest.flatMap (' ' :: ·) := by
  induction rest generalizing word with
  | nil => simp [joinWords, List.intercalate]
  | cons next rest ih =>
    rw [joinWords_cons, ih, List.flatMap_cons]
    rfl

theorem mem_joinWords {words : List Str} {c : Char} (member : c ∈ joinWords words) : c = ' ' ∨ ∃ word ∈ words, c ∈ word := by
  cases words with
  | nil => cases member
  | cons word rest =>
    rw [joinWords_eq] at member
    rcases List.mem_append.mp member with first | later
    · exact .inr ⟨word, List.mem_cons_self, first⟩
    · obtain ⟨other, known, here⟩ := List.mem_flatMap.mp later
      rcases List.mem_cons.mp here with space | here
      · exact .inl space
      · exact .inr ⟨other, List.mem_cons_of_mem word known, here⟩

/-- Words after gaps are written with one space between them. -/
theorem collapse_spaced (out : Str) (space : Bool) {word tail : Str} {words : List Str} (shape : IsWord word)
    (spaced : Spaced tail words) :
    collapse out space (word ++ tail) =
      out ++ (if space then [' '] else []) ++ (joinWords (word :: words)).map officialDot := by
  induction spaced generalizing out space word with
  | nil =>
    rw [collapse_word out space shape, show joinWords [word] = word by simp [joinWords, List.intercalate]]
    rfl
  | @cons gap next tail words blank nonempty shape' more ih =>
    have dot : officialDot ' ' = ' ' := by decide
    rw [collapse_word out space shape, collapse_gap (by simp [shape.1]) false blank nonempty, ih _ true shape', joinWords_cons]
    simp [dot]

/-- Joined words are a word and the others after a gap. -/
theorem spaced_joinWords {word : Str} {rest : List Str} (shapes : ∀ w ∈ rest, IsWord w) :
    ∃ tail, joinWords (word :: rest) = word ++ tail ∧ Spaced tail rest := by
  induction rest generalizing word with
  | nil => exact ⟨[], by simp [joinWords, List.intercalate], .nil⟩
  | cons next rest ih =>
    rw [List.forall_mem_cons] at shapes
    obtain ⟨tail, joined, spaced⟩ := @ih next shapes.2
    refine ⟨[' '] ++ (next ++ tail), by rw [joinWords_cons, joined]; rfl, .cons ?_ (by simp) shapes.1 spaced⟩
    rw [List.forall_mem_singleton]
    decide +kernel

theorem collapse_joinWords (out : Str) (space : Bool) {word : Str} {rest : List Str}
    (shapes : ∀ w ∈ word :: rest, IsWord w) :
    collapse out space (joinWords (word :: rest)) =
      out ++ (if space then [' '] else []) ++ (joinWords (word :: rest)).map officialDot := by
  rw [List.forall_mem_cons] at shapes
  obtain ⟨tail, joined, spaced⟩ := @spaced_joinWords word rest shapes.2
  conv_lhs => rw [joined]
  exact collapse_spaced out space shapes.1 spaced

theorem head_joinWords {P : Char → Prop} {word : Str} {rest : List Str} (nonempty : word ≠ []) (plain : ∀ c ∈ word, P c) :
    ∀ c ∈ (joinWords (word :: rest)).head?, P c := by
  obtain ⟨tail, joined⟩ : ∃ tail, joinWords (word :: rest) = word ++ tail := by
    cases rest with
    | nil => exact ⟨[], by simp [joinWords, List.intercalate]⟩
    | cons next rest => exact ⟨_, joinWords_cons word next rest⟩
  intro c first
  rw [joined, List.head?_append_of_ne_nil _ nonempty] at first
  exact plain c (List.mem_of_head? first)

theorem last_joinWords {P : Char → Prop} {word : Str} {rest : List Str}
    (shapes : ∀ w ∈ word :: rest, w ≠ [] ∧ ∀ c ∈ w, P c) : ∀ c ∈ (joinWords (word :: rest)).getLast?, P c := by
  induction rest generalizing word with
  | nil =>
    intro c last
    rw [show joinWords [word] = word by simp [joinWords, List.intercalate]] at last
    exact (shapes word List.mem_cons_self).2 c (List.mem_of_getLast? last)
  | cons next rest ih =>
    have more := @ih next fun w member => shapes w (List.mem_cons_of_mem _ member)
    have nonempty : joinWords (next :: rest) ≠ [] := by
      obtain ⟨c, tail, same⟩ := List.exists_cons_of_ne_nil (shapes next (by simp)).1
      cases rest <;> simp [joinWords, List.intercalate, same]
    intro c last
    rw [joinWords_cons, List.getLast?_append_of_ne_nil _ (List.cons_ne_nil _ _), List.getLast?_cons_of_ne_nil nonempty] at last
    exact more c last

/-- Nothing but the middle dots of joined words is normalized. -/
theorem normalizeLawName_joinWords {word : Str} {rest : List Str} (shapes : ∀ w ∈ word :: rest, NameWord w) :
    normalizeLawName (joinWords (word :: rest)) = (joinWords (word :: rest)).map officialDot := by
  have first := @head_joinWords (separatesWords · = false) word rest (shapes word List.mem_cons_self).nonempty
    (shapes word List.mem_cons_self).plain
  have last := @last_joinWords (separatesWords · = false) word rest fun w member =>
    ⟨(shapes w member).nonempty, (shapes w member).plain⟩
  have plain {c : Char} (other : separatesWords c = false) : isWhitespace c = false ∧ isQuote c = false := by
    rw [separatesWords, Bool.or_eq_false_iff] at other
    exact ⟨other.1, not_isQuote_of_not_isBoundary other.2⟩
  have trimmed : Trimmed (joinWords (word :: rest)) :=
    ⟨fun c found => (plain (first c found)).1, fun c found => (plain (last c found)).1⟩
  have unquoted : trimMatches isQuote (joinWords (word :: rest)) = joinWords (word :: rest) := by
    rw [trimMatches, List.dropWhile_eq_self_iff.mpr, List.rdropWhile_eq_self_iff.mpr]
    · intro nonempty
      rw [(plain (last _ (List.getLast?_eq_some_getLast nonempty))).2]
      exact Bool.false_ne_true
    · intro positive
      rw [(plain (first _ (by rw [List.head?_eq_getElem?]; exact List.getElem?_eq_getElem positive))).2]
      exact Bool.false_ne_true
  rw [normalizeLawName, trimmed.trim_eq_self, unquoted, trimmed.trim_eq_self,
    collapse_joinWords [] false fun w member => (shapes w member).isWord]
  rfl

/-! ## Candidates -/

/-- A later candidate begins later and is a proper suffix of an earlier one. -/
def Shorter (a b : Str × ℕ) : Prop := a.2 < b.2 ∧ b.1 <:+ a.1 ∧ b.1.length < a.1.length

/-- Every candidate ends with the last word. -/
theorem nameCandidates_suffix {words : List (ℕ × Str)} (shapes : ∀ entry ∈ words, NameWord entry.2) :
    ∀ candidate ∈ nameCandidates words, candidate.1 <:+ (joinWords (words.map Prod.snd)).map officialDot ∧
      candidate.2 ∈ words.map Prod.fst := by
  induction words with
  | nil => simp [nameCandidates]
  | cons entry rest ih =>
    obtain ⟨start, word⟩ := entry
    have more : ∀ candidate ∈ nameCandidates rest,
        candidate.1 <:+ (joinWords (((start, word) :: rest).map Prod.snd)).map officialDot ∧
          candidate.2 ∈ ((start, word) :: rest).map Prod.fst := by
      intro candidate member
      obtain ⟨suffix, place⟩ := ih (fun entry member => shapes entry (List.mem_cons_of_mem _ member)) candidate member
      refine ⟨suffix.trans ?_, List.mem_cons_of_mem _ place⟩
      cases rest with
      | nil => cases member
      | cons next rest =>
        simp only [List.map_cons]
        rw [joinWords_cons, List.map_append, List.map_cons]
        exact (List.suffix_cons _ _).trans (List.suffix_append _ _)
    have named : ∀ w ∈ word :: rest.map Prod.snd, NameWord w := by
      rw [← List.map_cons (f := Prod.snd) (a := (start, word)), List.forall_mem_map]
      exact shapes
    rw [nameCandidates]
    split_ifs
    · rw [List.forall_mem_cons]
      refine ⟨⟨?_, List.mem_cons_self⟩, more⟩
      rw [normalizeLawName_joinWords named]
      exact List.suffix_rfl
    · exact more

theorem nameCandidates_pairwise {words : List (ℕ × Str)} (shapes : ∀ entry ∈ words, NameWord entry.2)
    (ordered : words.Pairwise fun a b => a.1 < b.1) : (nameCandidates words).Pairwise Shorter := by
  induction words with
  | nil => exact .nil
  | cons entry rest ih =>
    obtain ⟨start, word⟩ := entry
    rw [List.pairwise_cons] at ordered
    have inner : ∀ entry ∈ rest, NameWord entry.2 := fun entry member => shapes entry (List.mem_cons_of_mem _ member)
    have more := ih inner ordered.2
    rw [nameCandidates]
    split_ifs
    · refine List.pairwise_cons.mpr ⟨fun candidate member => ?_, more⟩
      obtain ⟨suffix, place⟩ := nameCandidates_suffix inner candidate member
      obtain ⟨later, known, begins⟩ := List.mem_map.mp place
      refine ⟨begins ▸ ordered.1 later known, ?_⟩
      have named : ∀ w ∈ word :: rest.map Prod.snd, NameWord w := by
        rw [← List.map_cons (f := Prod.snd) (a := (start, word)), List.forall_mem_map]
        exact shapes
      cases rest with
      | nil => cases member
      | cons next rest =>
        have whole : normalizeLawName (joinWords (word :: ((next :: rest).map Prod.snd))) =
            (word ++ [' ']).map officialDot ++ (joinWords ((next :: rest).map Prod.snd)).map officialDot := by
          rw [normalizeLawName_joinWords named, List.map_cons, joinWords_cons, ← List.map_append]
          simp
        rw [whole]
        refine ⟨suffix.trans (List.suffix_append _ _), ?_⟩
        have short := suffix.length_le
        simp only [List.length_append, List.length_map, List.length_cons, List.length_nil] at short ⊢
        omega
    · exact more

def LawReference.candidates : LawReference → List (Str × ℕ)
  | .named candidates _ => candidates
  | .same _ _ => []
  | .continued => []

attribute [grind =] LawReference.candidates

/-- The places that a caller may choose as the start of the law's name. -/
def LawReference.starts : LawReference → List ℕ
  | .named candidates _ => candidates.map Prod.snd
  | .same _ start => [start]
  | .continued => []

/-- What a reference before an article promises. -/
structure LawReference.Sound (front : Str) (law : LawReference) : Prop where
  inside : ∀ start ∈ law.starts, Inside front start
  ordered : law.candidates.Pairwise Shorter

theorem rsplitAt_eq_some {c : Char} {s before inner : Str} (found : rsplitAt c s = some (before, inner)) :
    s = before ++ c :: inner := by
  rw [rsplitAt] at found
  split_ifs at found with member
  obtain ⟨rfl, rfl⟩ := Prod.mk.inj (Option.some.inj found)
  have nonempty : s.rdropWhile (· != c) ≠ [] := by
    intro empty
    have absent := List.rdropWhile_eq_nil_iff.mp empty c (List.contains_iff_mem.mp member)
    simp at absent
  have last : (s.rdropWhile (· != c)).getLast nonempty = c := by
    simpa using List.rdropWhile_last_not (· != c) s nonempty
  conv_lhs => rw [← rdropWhile_append_rtakeWhile (· != c) s, ← List.dropLast_append_getLast nonempty, last]
  rw [List.append_assoc, List.singleton_append]

theorem bracketedBody_begins (front : Str) : (bracketedBody front).1 <+: front := by
  have trimmed : trimEnd front <+: front := List.rdropWhile_prefix _ _
  rw [bracketedBody]
  cases found : suffixes.findSome? _ with
  | none => exact trimmed
  | some result =>
    obtain ⟨suffix, -, body⟩ := List.exists_of_findSome?_eq_some found
    simp only [Option.bind_eq_bind, Option.bind_eq_some_iff] at body
    obtain ⟨stripped, strip, body⟩ := body
    split_ifs at body
    rw [stripSuffixStr] at strip
    split_ifs at strip
    obtain rfl := Option.some.inj body
    obtain rfl := Option.some.inj strip
    exact ((List.rdropWhile_prefix _ _).trans (List.take_prefix _ _)).trans trimmed

theorem bracketedName_inside {front name : Str} {start : ℕ} (found : bracketedName front = some (name, start)) :
    Inside front start := by
  simp only [bracketedName, Option.bind_eq_bind, Option.bind_eq_some_iff] at found
  obtain ⟨opening, -, ⟨before, inner⟩, split, found⟩ := found
  split_ifs at found
  obtain ⟨-, rfl⟩ := Prod.mk.inj (Option.some.inj found)
  have body : Inside (bracketedBody front).1.dropLast (byteLen before) :=
    ⟨before, opening :: inner, rsplitAt_eq_some split, List.cons_ne_nil _ _, rfl⟩
  exact inside_of_begins body ((List.dropLast_prefix _).trans (bracketedBody_begins front))

theorem sameLawSlices_start {words : List (ℕ × Str)} {suffix : Option Str} {start : ℕ}
    (found : sameLawSlices words = some (suffix, start)) : start ∈ words.map Prod.fst := by
  induction words with
  | nil => cases found
  | cons entry rest ih =>
    rw [sameLawSlices] at found
    split at found
    · obtain ⟨-, rfl⟩ := Prod.mk.inj (Option.some.inj found)
      exact List.mem_cons_self
    · exact List.mem_cons_of_mem _ (ih found)

theorem Tail.inside_of_mem {front : Str} {words : List (ℕ × Str)} (tail : Tail front words) {start : ℕ}
    (member : start ∈ words.map Prod.fst) : Inside front start := by
  obtain ⟨entry, known, rfl⟩ := List.mem_map.mp member
  exact (tail.inside entry known).1

theorem lawReference_sound {front : Str} {previousEnd : Option ℕ} {law : LawReference}
    (found : lawReference front previousEnd = some law) : law.Sound front := by
  rw [lawReference] at found
  split at found
  · next candidate bracketed =>
    obtain rfl := Option.some.inj found
    exact ⟨by simpa [LawReference.starts] using bracketedName_inside bracketed, List.pairwise_singleton _ _⟩
  · split at found
    · next suffix start same =>
      obtain rfl := Option.some.inj found
      have inside := (wordTail_tail front 3).inside_of_mem (sameLawSlices_start same)
      exact ⟨by simpa [LawReference.starts] using inside, .nil⟩
    · have tail := wordTail_tail front maxNameWords
      have shapes : ∀ entry ∈ wordTail front maxNameWords, NameWord entry.2 := fun entry member => (tail.inside entry member).2
      dsimp only at found
      split at found
      · obtain rfl := Option.some.inj found
        refine ⟨?_, nameCandidates_pairwise shapes tail.ordered⟩
        intro start member
        obtain ⟨candidate, known, rfl⟩ := List.mem_map.mp member
        exact tail.inside_of_mem (nameCandidates_suffix shapes candidate known).2
      · split at found
        · split_ifs at found
          obtain rfl := Option.some.inj found
          exact ⟨by simp [LawReference.starts], .nil⟩
        · cases found

end OpenLegal.Legal
