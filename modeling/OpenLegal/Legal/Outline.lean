import OpenLegal.Legal.ArticleLocator
import OpenLegal.Legal.Record
import OpenLegal.Rust.Trim

/-! # Outlines of statute texts

The outline of a capture is its headings and articles in source order. A provider section of its own holds one
unit; a text block is cut at the lines that begin with a heading or with an article locator. Supplementary
provisions, annexes and reasons are not part of the outline.
-/

namespace OpenLegal.Legal

open Rust Rust.Str

/-! ## Articles -/

/-- An article found in a capture's provider sections. -/
structure LocatedArticle where
  sectionId : Str
  number : ArticleNumber
  title : Str
  text : Str
  deleted : Bool
  /-- Paragraph numbers in order of appearance; empty when unnumbered. -/
  paragraphs : List ℕ
deriving DecidableEq, Repr

def circledNumber (c : Char) : Option ℕ :=
  let v := c.toNat
  if 0x2460 ≤ v ∧ v ≤ 0x2473 then some (v - 0x2460 + 1)
  else if 0x3251 ≤ v ∧ v ≤ 0x325f then some (v - 0x3251 + 21)
  else if 0x32b1 ≤ v ∧ v ≤ 0x32bf then some (v - 0x32b1 + 36)
  else none

/-- The text up to a closing parenthesis on the same line, within 200 bytes, and what follows it. -/
def closeParen : ℕ → Str → Option (Str × Str)
  | _, [] => none
  | i, c :: rest =>
    if 200 ≤ i ∨ c = '\n' then none
    else if c = ')' ∨ c = '）' then some ([], rest)
    else (closeParen (i + c.utf8Size) rest).map fun (inner, after) => (c :: inner, after)

def parenthetical : Str → Option (Str × Str)
  | [] => none
  | c :: rest => if c = '(' ∨ c = '（' then closeParen 0 rest else none

def deletion : Str := ['삭', '제']

/-- The circled number that a line begins with. -/
def circledStart (line : Str) : Option ℕ := (trimStart line).head?.bind circledNumber

/-- The text behind the locator and an optional title in parentheses. -/
def afterTitle (rest : Str) : Str := (parenthetical rest).elim rest Prod.snd

/-- The first paragraph may follow the heading on the same line. -/
def inlineParagraph (rest : Str) : Option ℕ := (lines rest).head?.bind circledStart

def buildArticle (sectionId titleHint text : Str) : Option LocatedArticle := do
  let text := trim text
  let (number, rest) ← articleAt text
  let hint := trim titleHint
  let title := if hint.isEmpty then (parenthetical rest).elim hint fun (inner, _) => trim inner else hint
  let rest := afterTitle rest
  some {
    sectionId, number, title, text
    deleted := deletion.isPrefixOf (trimStart rest)
    paragraphs := (inlineParagraph rest).toList ++ ((lines text).drop 1).filterMap circledStart }

/-! ## Headings and article starts -/

/-- The Hangul level of a structural unit: 편, 장, 절 or 관. -/
def normalizedLevel (level : Char) : Option Char :=
  if level = '편' ∨ level = '編' then some '편'
  else if level = '장' ∨ level = '章' then some '장'
  else if level = '절' ∨ level = '節' then some '절'
  else if level = '관' ∨ level = '款' then some '관'
  else none

/-- A branch of a heading, when it is one. -/
def skipBranch : Str → Str
  | [] => []
  | c :: rest => if c = '의' then ((digits 3 rest).map Prod.snd).getD (c :: rest) else c :: rest

/-- Parse a leading `제{n}편|장|절|관` heading, also accepting the original-character `第` prefix and `編|章|節|款`
units. Returns the Hangul structural level. -/
def headingAt (text : Str) : Option (Char × ℕ) := do
  let rest ← locatorPrefix (trimStart text)
  let (n, rest) ← digits 4 rest
  let level ← rest.head?
  let normalized ← normalizedLevel level
  if n = 0 then none
  else if (skipBranch rest.tail).head?.all fun c => isWhitespace c || c == '<' || c == '(' then some (normalized, n)
  else none

/-- Whether a line starts a new article when articles share one text block. -/
def startsArticle (line : Str) : Bool :=
  (articleAt line).any fun (_, rest) =>
    rest.head? == some '(' || rest.head? == some '（' || rest.all isWhitespace || deletion.isPrefixOf (trimStart rest)

/-! ## The outline -/

/-- One structural unit of a legal text, in source order. -/
inductive OutlineUnit where
  | heading (level : Char) (number : ℕ) (text : Str)
  | article (article : LocatedArticle)
deriving DecidableEq, Repr

def OutlineUnit.text : OutlineUnit → Str
  | .heading _ _ text => text
  | .article located => located.text

def blockSections : List Str := ["조문내용", "조내용", "전문"].map String.toList

/-- The unit of an article that ends here: its text from its first line on. -/
def closeBlock (sectionId : Str) (block : Option Str) : List OutlineUnit :=
  ((block.bind (buildArticle sectionId [])).map OutlineUnit.article).toList

/-- The units of the lines of a text block. The open article is kept as its text so far. -/
def outlineLines (sectionId : Str) : List Str → Option Str → List OutlineUnit
  | [], block => closeBlock sectionId block
  | line :: rest, block =>
    match headingAt (trim line) with
    | some (level, number) =>
      closeBlock sectionId block ++ .heading level number (trim line) :: outlineLines sectionId rest none
    | none =>
      if startsArticle (trim line) then
        closeBlock sectionId block ++ outlineLines sectionId rest (some (trimStart line))
      else outlineLines sectionId rest (block.map (· ++ line))

/-- Provider sections whose ids begin so hold one unit. -/
def articleSection : Str := "article:".toList

def LegalSection.isBlock (s : LegalSection) : Bool :=
  s.kind == .providerText && !articleSection.isPrefixOf s.id && blockSections.contains s.title

def LegalSection.outline (s : LegalSection) : List OutlineUnit :=
  if s.kind ≠ .providerText then []
  else if articleSection.isPrefixOf s.id then
    let text := trim s.text
    match headingAt text with
    | some (level, number) => [.heading level number text]
    | none => ((buildArticle s.id s.title text).map OutlineUnit.article).toList
  else if !blockSections.contains s.title then []
  else outlineLines s.id (splitInclusive '\n' s.text) none

/-- Headings and articles of a capture. National statutes use `article:` sections; administrative rules and
ordinances may keep several articles in one provider text block. -/
def outline (sections : List LegalSection) : List OutlineUnit := sections.flatMap LegalSection.outline

theorem outline_of_isBlock {s : LegalSection} (block : s.isBlock = true) :
    s.outline = outlineLines s.id (splitInclusive '\n' s.text) none := by
  simp only [LegalSection.isBlock, Bool.and_eq_true, beq_iff_eq, Bool.not_eq_true'] at block
  obtain ⟨⟨provided, other⟩, titled⟩ := block
  rw [LegalSection.outline, if_neg (not_not_intro provided), other, titled]
  rfl

/-! ## More text behind a locator -/

theorem endsDigits_of_separates {more : Str} (separates : Separates more) : EndsDigits more := by
  intro c first
  by_contra digit
  have visible := isWhitespace_of_isAsciiDigit (by simpa using digit)
  rw [separates c first] at visible
  cases visible

theorem digits_append {more : Str} (separates : Separates more) (max : ℕ) (text : Str) :
    digits max (text ++ more) = (digits max text).map fun (n, rest) => (n, rest ++ more) := by
  obtain ⟨taken, dropped⟩ := @takeWhile_digits [] more (by simp) (endsDigits_of_separates separates)
  rw [List.nil_append] at taken dropped
  have run : (text ++ more).takeWhile isAsciiDigit = text.takeWhile isAsciiDigit := by
    rw [List.takeWhile_append, taken]
    split_ifs with whole
    · rw [List.append_nil, (List.takeWhile_prefix _).eq_of_length whole]
    · rfl
  have rest : (text ++ more).dropWhile isAsciiDigit = text.dropWhile isAsciiDigit ++ more := by
    rw [List.dropWhile_append, dropped]
    split_ifs with whole
    · rw [List.isEmpty_iff.mp whole, List.nil_append]
    · rfl
  rw [digits, digits, run, rest]
  split_ifs <;> rfl

theorem optionalNumber_append {marker : Char} {more text : Str} (separates : Separates more)
    (visible : isWhitespace marker = false) (absent : optionalNumber marker text = (none, text)) :
    optionalNumber marker (text ++ more) = (none, text ++ more) := by
  cases text with
  | nil =>
    refine optionalNumber_other fun c first same => ?_
    rw [same.symm, separates c first] at visible
    cases visible
  | cons c rest =>
    rw [optionalNumber] at absent
    rw [List.cons_append, optionalNumber, digits_append separates]
    split_ifs at absent ⊢ with marked
    · cases read : digits 3 rest with
      | none => rfl
      | some found =>
        obtain ⟨n, after⟩ := found
        simp only [read] at absent
        split_ifs at absent with positive
        · cases (Prod.mk.inj absent).1
        · exact if_neg positive
    · rfl

theorem Ends.append {a : ArticleNumber} {rest more : Str} (ends : Ends a rest) (separates : Separates more) :
    Ends a (rest ++ more) := by
  rw [Ends] at ends ⊢
  split_ifs at ends ⊢
  · cases rest with
    | nil => exact endsDigits_of_separates separates
    | cons c rest => exact endsDigits_cons (ends c rfl)
  · exact optionalNumber_append separates (by decide +kernel) ends

theorem articleAt_append {text rest more : Str} {a : ArticleNumber} (separates : Separates more)
    (read : articleAt text = some (a, rest)) : articleAt (text ++ more) = some (a, rest ++ more) := by
  obtain ⟨written, shape, rfl, ends⟩ := articleAt_eq_some.mp read
  exact articleAt_eq_some.mpr ⟨written, shape, List.append_assoc .., ends.append separates⟩

theorem articleAt_ne_nil {text rest : Str} {a : ArticleNumber} (read : articleAt text = some (a, rest)) : text ≠ [] := by
  rintro rfl
  cases read

/-! ## Units in the text -/

/-- Pieces that stand in a text in their order, without overlap. -/
inductive Spread : List Str → Str → Prop where
  | nil {rest : Str} : Spread [] rest
  | cons {gap piece rest : Str} {pieces : List Str} (more : Spread pieces rest) :
      Spread (piece :: pieces) (gap ++ (piece ++ rest))

theorem Spread.gap {pieces : List Str} {text : Str} (spread : Spread pieces text) (gap : Str) :
    Spread pieces (gap ++ text) := by
  cases spread with
  | nil => exact .nil
  | cons more =>
    rw [← List.append_assoc]
    exact .cons more

theorem Spread.append {pieces others : List Str} {text more : Str} (first : Spread pieces text) (second : Spread others more) :
    Spread (pieces ++ others) (text ++ more) := by
  induction first with
  | nil => exact second.gap _
  | cons _ ih =>
    rw [List.append_assoc, List.append_assoc]
    exact .cons ih

theorem buildArticle_text {sectionId titleHint text : Str} {article : LocatedArticle}
    (built : buildArticle sectionId titleHint text = some article) : article.text = trim text := by
  simp only [buildArticle, Option.bind_eq_bind, Option.bind_eq_some_iff] at built
  obtain ⟨_, -, built⟩ := built
  rw [← Option.some.inj built]

theorem buildArticle_eq_some {sectionId titleHint text rest : Str} {a : ArticleNumber}
    (read : articleAt (trim text) = some (a, rest)) :
    ∃ located, buildArticle sectionId titleHint text = some located ∧ located.number = a := by
  rw [buildArticle, read]
  exact ⟨_, rfl, rfl⟩

theorem closeBlock_spread (sectionId : Str) (block : Option Str) :
    Spread ((closeBlock sectionId block).map OutlineUnit.text) (block.getD []) := by
  cases block with
  | none => exact .nil
  | some block =>
    cases built : buildArticle sectionId [] block with
    | none =>
      rw [closeBlock, Option.bind_some, built]
      exact .nil
    | some article =>
      obtain ⟨gap, post, -, -, split⟩ := exists_between block
      rw [closeBlock, Option.bind_some, built]
      change Spread [article.text] block
      rw [buildArticle_text built]
      conv_rhs => rw [split]
      exact .cons .nil

theorem outlineLines_spread (sectionId : Str) (lines : List Str) (block : Option Str) :
    Spread ((outlineLines sectionId lines block).map OutlineUnit.text) (block.getD [] ++ lines.flatten) := by
  induction lines generalizing block with
  | nil =>
    rw [List.flatten_nil, List.append_nil]
    exact closeBlock_spread sectionId block
  | cons line rest ih =>
    rw [outlineLines, List.flatten_cons]
    cases heading : headingAt (trim line) with
    | some found =>
      obtain ⟨level, number⟩ := found
      obtain ⟨gap, post, -, -, split⟩ := exists_between line
      rw [List.map_append]
      refine (closeBlock_spread sectionId block).append ?_
      conv_rhs => rw [split]
      rw [List.append_assoc, List.append_assoc]
      exact .cons ((ih none).gap post)
    | none =>
      simp only []
      split_ifs with starts
      · obtain ⟨gap, -, split⟩ := exists_trimStart line
        rw [List.map_append]
        refine (closeBlock_spread sectionId block).append ?_
        conv_rhs => rw [split, List.append_assoc]
        exact (ih (some (trimStart line))).gap gap
      · cases block with
        | none => exact (ih none).gap line
        | some block =>
          have more := ih (some (block ++ line))
          rwa [Option.getD_some, List.append_assoc] at more

/-! ## Units and lines -/

/-- A line that begins a unit. -/
def isMark (line : Str) : Bool := (headingAt (trim line)).isSome || startsArticle (trim line)

/-- The lines of a text behind its first one. -/
def innerLines (text : Str) : List Str := (splitInclusive '\n' text).drop 1

/-- The unit that a marked line begins. -/
inductive Carries (line : Str) : OutlineUnit → Prop where
  | heading {level : Char} {number : ℕ} (found : headingAt (trim line) = some (level, number)) :
      Carries line (.heading level number (trim line))
  | article {located : LocatedArticle} {rest : Str} (other : headingAt (trim line) = none)
      (starts : startsArticle (trim line) = true) (locator : articleAt (trim line) = some (located.number, rest))
      (begins : trim line <+: located.text) (inner : ∀ line ∈ innerLines located.text, isMark line = false) :
      Carries line (.article located)

/-- A block that is open: its first line and the lines that followed it. -/
structure Opened (first : Str) (tail : List Str) (block : Str) : Prop where
  text : block = trimStart first ++ tail.flatten
  other : headingAt (trim first) = none
  starts : startsArticle (trim first) = true
  quiet : ∀ line ∈ tail, isMark line = false

theorem locator_of_startsArticle {line : Str} (starts : startsArticle line = true) :
    ∃ a rest, articleAt line = some (a, rest) := by
  rw [startsArticle, Option.any_eq_true] at starts
  obtain ⟨⟨a, rest⟩, found, -⟩ := starts
  exact ⟨a, rest, found⟩

/-- What follows the first line, without its own white space, is nothing or begins with white space. -/
theorem separates_tail {core post : Str} {tail : List Str} (shape : IsLines '\n' ((core ++ post) :: tail))
    (trimmed : Trimmed core) (blank : ∀ c ∈ post, isWhitespace c = true) :
    Separates (post ++ tail.flatten) := by
  intro c first
  cases post with
  | cons d post =>
    obtain rfl := Option.some.inj first
    exact blank d List.mem_cons_self
  | nil =>
    cases tail with
    | nil => cases first
    | cons next rest =>
      obtain ⟨body, -, same⟩ := shape.1
      rw [List.append_nil] at same
      have visible := trimmed.last '\n' (by rw [same, List.getLast?_concat]; rfl)
      exact absurd visible (by decide +kernel)

/-- The lines of an open block without the white space at its end. -/
theorem isMark_innerLines {first rear text : Str} {tail : List Str} (shape : IsLines '\n' (first :: tail))
    (split : first ++ tail.flatten = text ++ rear) (blank : ∀ c ∈ rear, isWhitespace c = true)
    (quiet : ∀ line ∈ tail, isMark line = false) : ∀ line ∈ innerLines text, isMark line = false := by
  intro line member
  obtain ⟨i, found⟩ := List.mem_iff_getElem?.mp member
  rw [innerLines, List.getElem?_drop] at found
  obtain ⟨more, moreBlank, continued⟩ := splitInclusive_append_blank text blank found
  have whole := splitInclusive_of_isLines shape
  rw [List.flatten_cons, split] at whole
  rw [whole, Nat.add_comm, List.getElem?_cons_succ] at continued
  have silent := quiet _ (List.mem_of_getElem? continued)
  rwa [isMark, trim_append_blank moreBlank] at silent

theorem closeBlock_opened (sectionId : Str) {first block : Str} {tail : List Str} (opened : Opened first tail block)
    (shape : IsLines '\n' (first :: tail)) :
    ∃ located, closeBlock sectionId (some block) = [.article located] ∧ Carries first (.article located) := by
  obtain ⟨a, rest, locator⟩ := locator_of_startsArticle opened.starts
  have nonempty := articleAt_ne_nil locator
  obtain ⟨gap, -, split⟩ := exists_trimStart first
  obtain ⟨post, blank, started⟩ := exists_trim first
  have startedNonempty : trimStart first ≠ [] := by
    rw [started]
    exact List.append_ne_nil_of_left_ne_nil nonempty post
  have lines : IsLines '\n' (trimStart first :: tail) := IsLines.suffix (split ▸ shape) startedNonempty
  have separates := separates_tail (started ▸ lines) (trimmed_trim first) blank
  obtain ⟨mid, rear, cut, rearBlank, text⟩ := trim_append (trimmed_trim first) nonempty (post ++ tail.flatten)
  rw [← List.append_assoc, ← started, ← opened.text] at text
  have whole : trimStart first ++ tail.flatten = trim block ++ rear := by
    rw [text, started, List.append_assoc, cut, List.append_assoc]
  -- the locator of the first line is that of the block
  have read : articleAt (trim block) = some (a, rest ++ mid) := by
    rw [text]
    refine articleAt_append (fun c first => separates c ?_) locator
    rw [cut, List.head?_append, first]
    rfl
  obtain ⟨located, built, number⟩ := @buildArticle_eq_some sectionId [] _ _ _ read
  refine ⟨located, by rw [closeBlock, Option.bind_some, built]; rfl, ?_⟩
  have shown := buildArticle_text built
  refine .article opened.other opened.starts (number ▸ locator) ?_ ?_
  · rw [shown, text]
    exact List.prefix_append ..
  · rw [shown]
    exact isMark_innerLines lines whole rearBlank opened.quiet

/-- The units are those of the marked lines, one for each, also while an article is open. -/
theorem outlineLines_carries (sectionId : Str) (rest : List Str) :
    (IsLines '\n' rest → List.Forall₂ Carries (rest.filter isMark) (outlineLines sectionId rest none)) ∧
    ∀ first tail block, Opened first tail block → IsLines '\n' (first :: tail ++ rest) →
      List.Forall₂ Carries (first :: rest.filter isMark) (outlineLines sectionId rest (some block)) := by
  induction rest with
  | nil =>
    refine ⟨fun _ => .nil, fun first tail block opened shape => ?_⟩
    rw [List.append_nil] at shape
    obtain ⟨located, closed, carries⟩ := closeBlock_opened sectionId opened shape
    rw [outlineLines, closed]
    exact .cons carries .nil
  | cons line rest ih =>
    -- what the line adds, whichever block it closes
    have adds (shape : IsLines '\n' (line :: rest)) (marked : isMark line = true) :
        ∃ units, (∀ block, outlineLines sectionId (line :: rest) block = closeBlock sectionId block ++ units) ∧
          List.Forall₂ Carries (line :: rest.filter isMark) units := by
      cases heading : headingAt (trim line) with
      | some found =>
        obtain ⟨level, number⟩ := found
        refine ⟨_, fun block => ?_, .cons (.heading heading) (ih.1 shape.tail)⟩
        rw [outlineLines, heading]
      | none =>
        have starts : startsArticle (trim line) = true := by simpa [isMark, heading] using marked
        refine ⟨_, fun block => ?_, ih.2 line [] (trimStart line) ⟨by simp, heading, starts, by simp⟩ shape⟩
        rw [outlineLines, heading]
        exact if_pos starts
    have keeps (quiet : isMark line = false) (block : Option Str) :
        outlineLines sectionId (line :: rest) block = outlineLines sectionId rest (block.map (· ++ line)) := by
      simp only [isMark, Bool.or_eq_false_iff, Option.isSome_eq_false_iff, Option.isNone_iff_eq_none] at quiet
      rw [outlineLines, quiet.1]
      exact if_neg (by simp [quiet.2])
    refine ⟨fun shape => ?_, fun first tail block opened shape => ?_⟩
    · cases marked : isMark line with
      | true =>
        obtain ⟨units, same, carries⟩ := adds shape marked
        rw [List.filter_cons_of_pos marked, same]
        exact carries
      | false =>
        rw [List.filter_cons_of_neg (by simp [marked]), keeps marked]
        exact ih.1 shape.tail
    · cases marked : isMark line with
      | true =>
        obtain ⟨units, same, carries⟩ := adds (IsLines.of_append_right shape) marked
        have before : IsLines '\n' (first :: tail) := by
          have lines := shape.take (tail.length + 1)
          rwa [show tail.length + 1 = (first :: tail).length from rfl, List.take_left] at lines
        obtain ⟨located, closed, opens⟩ := closeBlock_opened sectionId opened before
        rw [List.filter_cons_of_pos marked, same, closed]
        exact .cons opens carries
      | false =>
        rw [List.filter_cons_of_neg (by simp [marked]), keeps marked]
        refine ih.2 first (tail ++ [line]) (block ++ line) ⟨?_, opened.other, opened.starts, ?_⟩ ?_
        · rw [opened.text, List.flatten_append, List.flatten_singleton, List.append_assoc]
        · intro other member
          rcases List.mem_append.mp member with member | member
          · exact opened.quiet other member
          · rw [List.mem_singleton.mp member, marked]
        · simpa using shape

/-- The units of a text block stand in it in order without overlap, and they are the units of its marked lines, one
for each. -/
theorem outline_of_block (s : LegalSection) (block : s.isBlock = true) :
    Spread (s.outline.map OutlineUnit.text) s.text ∧
      List.Forall₂ Carries ((splitInclusive '\n' s.text).filter isMark) s.outline := by
  rw [outline_of_isBlock block]
  refine ⟨?_, (outlineLines_carries s.id _).1 (splitInclusive_isLines s.text)⟩
  have spread := outlineLines_spread s.id (splitInclusive '\n' s.text) none
  rwa [splitInclusive_flatten] at spread

/-- A text block of a rule: a chapter, an article of two lines, and a deleted one. -/
def ruleBlock : LegalSection where
  id := "source_ordinal:1".toList
  title := "조문내용".toList
  text := "제1장 총칙\n 제1-1조(목적) 이 규정은\n시험한다.\n제1-2조 삭제".toList
  kind := .providerText
  sourceDocumentSha256 := none
  page := none

theorem outline_of_ruleBlock :
    ruleBlock.outline.length = 3 ∧ Spread (ruleBlock.outline.map OutlineUnit.text) ruleBlock.text ∧
      List.Forall₂ Carries ((splitInclusive '\n' ruleBlock.text).filter isMark) ruleBlock.outline :=
  ⟨by decide +kernel, outline_of_block ruleBlock (by decide +kernel)⟩

end OpenLegal.Legal
