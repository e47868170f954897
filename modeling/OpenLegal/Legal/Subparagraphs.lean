import OpenLegal.Legal.Outline

/-! # Subparagraphs of an article

A paragraph runs from the circled number that begins it to the next line that begins with one. Building an
article and looking a subparagraph up in it both read these numbers from the lines behind the first one, but
not the number of the paragraph that is open on the first line.
-/

namespace OpenLegal.Legal

open Rust Rust.Str

/-! ## The lookup -/

/-- Whether a line begins with the number of a subparagraph, as in `1.`. -/
def startsSubparagraph (wanted : ℕ) (line : Str) : Bool :=
  (digits 3 (trimStart line)).any fun (n, rest) => n == wanted && rest.head? == some '.'

/-- The lines behind the first one, `inside` the cited paragraph or not. -/
def subparagraphLoop (paragraph : Option ℕ) (wanted : ℕ) : List Str → Bool → Bool
  | [], _ => false
  | line :: rest, inside =>
    match circledStart line with
    | some n => subparagraphLoop paragraph wanted rest (paragraph.all (· == n))
    | none => if inside && startsSubparagraph wanted line then true else subparagraphLoop paragraph wanted rest inside

/-- The first circled number anywhere on the first line. -/
def mentioned (text : Str) : Option ℕ := (lines text).head?.bind fun first => first.findSome? circledNumber

/-- Whether a numbered subparagraph (`1.`, `2.`) appears in the article, inside the cited paragraph when paragraphs
are numbered. -/
def hasSubparagraph (article : LocatedArticle) (paragraph : Option ℕ) (wanted : ℕ) : Bool :=
  let inline := mentioned article.text
  let inside := paragraph.isNone || article.paragraphs.isEmpty || (inline.isSome && inline == paragraph)
  subparagraphLoop paragraph wanted ((lines article.text).drop 1) inside

/-! ## Paragraphs -/

/-- The paragraph that is open behind these lines. -/
def openParagraph (opening : Option ℕ) (before : List Str) : Option ℕ :=
  (opening.toList ++ before.filterMap circledStart).getLast?

/-- A line within paragraph `p` begins with subparagraph `n`. -/
def Holds (opening : Option ℕ) (tail : List Str) (p n : ℕ) : Prop :=
  ∃ before line after, tail = before ++ line :: after ∧ startsSubparagraph n line = true ∧
    openParagraph opening before = some p

/-- A line before the first one that begins with a circled number begins with subparagraph `n`. -/
def Early (tail : List Str) (n : ℕ) : Prop :=
  ∃ line ∈ tail.takeWhile fun line => (circledStart line).isNone, startsSubparagraph n line = true

/-- The paragraph that the text behind the heading opens on the first line of an article. -/
def firstParagraph (text : Str) : Option ℕ := (articleAt text).bind fun (_, rest) => inlineParagraph (afterTitle rest)

/-- The lines of an article behind the first one. -/
def furtherLines (text : Str) : List Str := (lines text).drop 1

@[simp] theorem openParagraph_nil (opening : Option ℕ) : openParagraph opening [] = opening := by
  cases opening <;> rfl

theorem openParagraph_circled {line : Str} {k : ℕ} (circled : circledStart line = some k) (opening : Option ℕ)
    (before : List Str) : openParagraph opening (line :: before) = openParagraph (some k) before := by
  rw [openParagraph, List.filterMap_cons_some circled, List.getLast?_append_of_ne_nil _ (List.cons_ne_nil _ _)]
  rfl

theorem openParagraph_plain {line : Str} (plain : circledStart line = none) (opening : Option ℕ) (before : List Str) :
    openParagraph opening (line :: before) = openParagraph opening before := by
  rw [openParagraph, List.filterMap_cons_none plain]
  rfl

theorem holds_cons {opening : Option ℕ} {line : Str} {rest : List Str} {p n : ℕ} :
    Holds opening (line :: rest) p n ↔
      (startsSubparagraph n line = true ∧ opening = some p) ∨ Holds (openParagraph opening [line]) rest p n := by
  have opens (before : List Str) : openParagraph opening (line :: before) = openParagraph (openParagraph opening [line]) before := by
    cases circled : circledStart line with
    | some k => rw [openParagraph_circled circled, openParagraph_circled circled, openParagraph_nil]
    | none => rw [openParagraph_plain circled, openParagraph_plain circled, openParagraph_nil]
  constructor
  · rintro ⟨before, hit, after, split, starts, inside⟩
    cases before with
    | nil =>
      obtain ⟨rfl, rfl⟩ := List.cons.inj split
      exact .inl ⟨starts, by simpa using inside⟩
    | cons first before =>
      obtain ⟨rfl, rfl⟩ := List.cons.inj split
      exact .inr ⟨before, hit, after, rfl, starts, opens before ▸ inside⟩
  · rintro (⟨starts, inside⟩ | ⟨before, hit, after, rfl, starts, inside⟩)
    · exact ⟨[], line, rest, rfl, starts, by simpa using inside⟩
    · exact ⟨line :: before, hit, after, rfl, starts, opens before ▸ inside⟩

theorem isAsciiDigit_circled {c : Char} {k : ℕ} (circled : circledNumber c = some k) : isAsciiDigit c = false := by
  have high : 0x2460 ≤ c.toNat := by
    rw [circledNumber] at circled
    split_ifs at circled <;> omega
  rw [isAsciiDigit, Bool.and_eq_false_iff]
  right
  simp only [decide_eq_false_iff_not, UInt32.le_iff_toNat_le, Char.reduceVal, UInt32.reduceToNat]
  change ¬c.toNat ≤ 57
  omega

/-- A line that begins with a circled number does not begin with a subparagraph. -/
theorem startsSubparagraph_circled {line : Str} {k : ℕ} (circled : circledStart line = some k) (n : ℕ) :
    startsSubparagraph n line = false := by
  obtain ⟨c, first, number⟩ := Option.bind_eq_some_iff.mp circled
  cases started : trimStart line with
  | nil => rw [started] at first; cases first
  | cons d rest =>
    rw [started] at first
    obtain rfl := Option.some.inj first
    have none : (d :: rest).takeWhile isAsciiDigit = [] :=
      List.takeWhile_cons_of_neg (by simp [isAsciiDigit_circled number])
    rw [startsSubparagraph, started, digits, none]
    rfl

theorem subparagraphLoop_iff {p n : ℕ} {tail : List Str} {opening : Option ℕ} :
    subparagraphLoop (some p) n tail (opening == some p) = true ↔ Holds opening tail p n := by
  induction tail generalizing opening with
  | nil =>
    refine iff_of_false (by simp [subparagraphLoop]) ?_
    rintro ⟨before, line, after, split, -⟩
    simp at split
  | cons line rest ih =>
    rw [holds_cons, subparagraphLoop]
    cases circled : circledStart line with
    | some k =>
      rw [openParagraph_circled circled, openParagraph_nil, ← ih, startsSubparagraph_circled circled]
      simp [BEq.comm]
    | none =>
      rw [openParagraph_plain circled, openParagraph_nil, ← ih]
      cases starts : startsSubparagraph n line <;> by_cases inside : opening = some p <;> simp [inside]

/-- A line of paragraph `p` stands in the paragraph that the first line opens, or in one with a line of its own. -/
theorem holds_iff {opening : Option ℕ} {tail : List Str} {p n : ℕ} :
    Holds opening tail p n ↔ (opening = some p ∧ Early tail n) ∨ Holds none tail p n := by
  induction tail generalizing opening with
  | nil =>
    have nothing (opening : Option ℕ) : ¬Holds opening [] p n := by
      rintro ⟨before, line, after, split, -⟩
      simp at split
    simp [nothing, Early]
  | cons line rest ih =>
    rw [holds_cons, @holds_cons none]
    cases circled : circledStart line with
    | some k =>
      simp [openParagraph_circled circled, startsSubparagraph_circled circled, Early, circled]
    | none =>
      have early : Early (line :: rest) n ↔ startsSubparagraph n line = true ∨ Early rest n := by
        simp [Early, circled]
      rw [openParagraph_plain circled, openParagraph_plain circled, openParagraph_nil, openParagraph_nil, ih, early]
      simp only [reduceCtorEq, and_false, false_or]
      tauto

/-! ## The article and the lookup -/

section Article

variable {sectionId titleHint text : Str} {article : LocatedArticle}

/-- The paragraphs of an article are the one that its first line opens and those of the further lines. -/
theorem paragraphs_eq (built : buildArticle sectionId titleHint text = some article) :
    article.paragraphs = (firstParagraph article.text).toList ++ (furtherLines article.text).filterMap circledStart := by
  simp only [buildArticle, Option.bind_eq_bind, Option.bind_eq_some_iff] at built
  obtain ⟨⟨number, rest⟩, read, built⟩ := built
  rw [← Option.some.inj built, firstParagraph, read]
  rfl

theorem mem_paragraphs (built : buildArticle sectionId titleHint text = some article) {p n : ℕ}
    (holds : Holds (firstParagraph article.text) (furtherLines article.text) p n) : p ∈ article.paragraphs := by
  obtain ⟨before, line, after, split, -, inside⟩ := holds
  rw [paragraphs_eq built, split, List.filterMap_append, ← List.append_assoc]
  exact List.mem_append_left _ (List.mem_of_getLast? inside)

theorem hasSubparagraph_iff (numbered : article.paragraphs ≠ []) (p n : ℕ) :
    hasSubparagraph article (some p) n = true ↔ Holds (mentioned article.text) (furtherLines article.text) p n := by
  have inside : ((some p).isNone || article.paragraphs.isEmpty ||
      ((mentioned article.text).isSome && mentioned article.text == some p)) = (mentioned article.text == some p) := by
    cases mentioned article.text <;> simp [numbered]
  rw [hasSubparagraph, inside]
  exact subparagraphLoop_iff

/-- The first line mentions paragraph `p` first without opening it, and the subparagraph is found before the first
paragraph with a line of its own only. -/
structure Strays (text : Str) (p n : ℕ) : Prop where
  mention : mentioned text = some p
  unopened : firstParagraph text ≠ some p
  early : Early (furtherLines text) n
  elsewhere : ¬Holds none (furtherLines text) p n

/-- A subparagraph is found within a paragraph of the article exactly if the lookup does not stray. -/
theorem hasSubparagraph_within_iff (built : buildArticle sectionId titleHint text = some article)
    (numbered : article.paragraphs ≠ []) (p n : ℕ) :
    (hasSubparagraph article (some p) n = true →
      p ∈ article.paragraphs ∧ Holds (firstParagraph article.text) (furtherLines article.text) p n) ↔
    ¬Strays article.text p n := by
  rw [hasSubparagraph_iff numbered]
  constructor
  · rintro within ⟨mention, unopened, early, elsewhere⟩
    have holds := (within (holds_iff.mpr (.inl ⟨mention, early⟩))).2
    rcases holds_iff.mp holds with ⟨opened, -⟩ | own
    · exact unopened opened
    · exact elsewhere own
  · intro straight found
    suffices holds : Holds (firstParagraph article.text) (furtherLines article.text) p n from ⟨mem_paragraphs built holds, holds⟩
    rw [holds_iff]
    rcases holds_iff.mp found with ⟨mention, early⟩ | own
    · by_contra none
      rw [not_or] at none
      exact straight ⟨mention, fun opened => none.1 ⟨opened, early⟩, early, none.2⟩
    · exact .inr own

end Article

/-- An article whose first line opens a paragraph, and mentions one of another article behind it. -/
def openingArticle : Str := "제5조(정의) ① 제3조의 ②와 같다.\n1. 가\n② 나\n1. 다".toList

theorem hasSubparagraph_within_opening :
    hasSubparagraph ⟨[], ⟨5, none, none⟩, "정의".toList, openingArticle, false, [1, 2]⟩ (some 1) 1 = true ∧ 1 ∈ [1, 2] ∧
      Holds (firstParagraph openingArticle) (furtherLines openingArticle) 1 1 := by
  have built : buildArticle [] [] openingArticle =
      some ⟨[], ⟨5, none, none⟩, "정의".toList, openingArticle, false, [1, 2]⟩ := by decide +kernel
  have found : hasSubparagraph ⟨[], ⟨5, none, none⟩, "정의".toList, openingArticle, false, [1, 2]⟩ (some 1) 1 = true := by
    decide +kernel
  refine ⟨found, (hasSubparagraph_within_iff built (by simp) 1 1).mpr ?_ found⟩
  exact fun strays => strays.unopened (by decide +kernel)

/-- An article whose first line mentions a paragraph of another one. -/
def mentionArticle : Str := "제5조(정의) 제3조의 ①과 같다.\n1. 가\n② 나".toList

/-- There subparagraph 1 is found in a paragraph 1 that the article does not have. -/
theorem not_hasSubparagraph_within : ¬∀ (sectionId titleHint text : Str) (article : LocatedArticle) (p n : ℕ),
    buildArticle sectionId titleHint text = some article → article.paragraphs ≠ [] →
    hasSubparagraph article (some p) n = true →
      p ∈ article.paragraphs ∧ Holds (firstParagraph article.text) (furtherLines article.text) p n := by
  intro within
  have built : buildArticle [] [] mentionArticle =
      some ⟨[], ⟨5, none, none⟩, "정의".toList, mentionArticle, false, [2]⟩ := by decide +kernel
  have absent := (within [] [] mentionArticle _ 1 1 built (by simp) (by decide +kernel)).1
  simp at absent

end OpenLegal.Legal
