import OpenLegal.Legal.ArticleLocator
import OpenLegal.Legal.LinePattern

/-! # Searching for citations of an article

The lines that cite an article are searched with a pattern for its locator and the text behind it. The reader of locators
takes more spellings of a locator than the pattern, and one less.
-/

namespace OpenLegal.Legal

open Rust Rust.Str Theory Pattern

/-- A regular-expression fragment matching an article locator and the text after it, without matching a longer locator
such as `제5조의2` for `제5조`. -/
def articlePattern (article : ArticleNumber) : Str :=
  "[제第] ?".toList ++ (decimal article.number ++ (article.part.elim [] (fun part => '-' :: decimal part) ++
    (" ?[조條]".toList ++ match article.branch with
      | some branch => "의 ?".toList ++ (decimal branch ++ "(?:[^0-9].*)?".toList)
      | none => "(?:의[^0-9].*|[^0-9의].*)?".toList)))

/-- The branch as the pattern spells it. -/
def branchText (gap : Str) : Option ℕ → Str
  | none => []
  | some branch => '의' :: (gap ++ decimal branch)

/-- A locator without leading zeros, with what stands before the number of its branch. -/
inductive Spelled (a : ArticleNumber) (gap : Str) : Str → Prop where
  | mk {first unit : Char} {before after : Str} (marked : first = '제' ∨ first = '第') (spaced : Gap before)
      (spaced' : Gap after) (united : unit = '조' ∨ unit = '條') :
      Spelled a gap (first :: (before ++ (decimal a.number ++ (a.part.elim [] (fun part => '-' :: decimal part) ++
        (after ++ unit :: branchText gap a.branch)))))

/-- What the pattern lets follow: no digit behind a branch; behind an article no digit and no `의`, but for one that
something else than a digit follows. -/
def Follows : Option ℕ → Str → Prop
  | some _, rest => EndsDigits rest
  | none, [] => True
  | none, c :: behind => isAsciiDigit c = false ∧ (c = '의' → behind ≠ [] ∧ EndsDigits behind)

/-! ## The pattern -/

def gapItem : Regex Char := (literal ' ').optional

def oneOf (first second : Char) : Regex Char := classOf false [(second, second), (first, first)]

/-- `[^0-9의]`. -/
def noContinuation : Regex Char := classOf true [('의', '의'), ('0', '9')]

def articleTail : Option ℕ → List (Regex Char)
  | some branch =>
    [literal '의', gapItem] ++ ((decimal branch).map literal ++ [(Regex.sequence [noDigit, .star dot]).optional])
  | none =>
    [(Regex.alt (Regex.sequence [literal '의', noDigit, .star dot]) (Regex.sequence [noContinuation, .star dot])).optional]

theorem reads_decimal (n : ℕ) : Reads (decimal n) ((decimal n).map literal) := by
  have letter (c : Char) (digit : isAsciiDigit c = true) : c ∉ operators := by
    have table : operators.all (fun c => !isAsciiDigit c) = true := by decide
    intro member
    have other := List.all_eq_true.mp table c member
    rw [digit] at other
    cases other
  have all : ∀ c ∈ decimal n, isAsciiDigit c = true := fun _ member => isDigit_of_mem_decimal member
  generalize decimal n = run at all
  induction run with
  | nil => exact reads_nil
  | cons c run ih =>
    rw [List.forall_mem_cons] at all
    exact (readsItem_literal (letter c all.1)).cons (ih all.2)

theorem reads_articleTail (branch : Option ℕ) : Reads (match branch with
    | some branch => "의 ?".toList ++ (decimal branch ++ "(?:[^0-9].*)?".toList)
    | none => "(?:의[^0-9].*|[^0-9의].*)?".toList) (articleTail branch) := by
  cases branch with
  | some branch =>
    have first : Reads "의 ?".toList [literal '의', gapItem] :=
      (readsItem_literal (by decide)).cons (readsItem_literal (by decide)).optional
    have last : Reads "(?:[^0-9].*)?".toList [(Regex.sequence [noDigit, .star dot]).optional] :=
      (readsItem_group (readsItem_noDigit.reads.append reads_dotStar)).optional
    exact first.append ((reads_decimal branch).append last)
  | none =>
    have particle : Reads "의[^0-9].*".toList [literal '의', noDigit, .star dot] :=
      (readsItem_literal (by decide)).cons (readsItem_noDigit.cons reads_dotStar)
    have other : ReadsItem "[^0-9의]".toList noContinuation := fun _ _ _ => rfl
    exact (readsItem_alternatives particle (other.cons reads_dotStar)).optional

def articleItems (a : ArticleNumber) : List (Regex Char) :=
  [oneOf '제' '第', gapItem] ++ ((decimal a.number).map literal ++
    ((a.part.elim [] fun part => '-' :: decimal part).map literal ++ ([gapItem, oneOf '조' '條'] ++ articleTail a.branch)))

theorem reads_articlePattern (a : ArticleNumber) : Reads (articlePattern a) (articleItems a) := by
  have first : Reads "[제第] ?".toList [oneOf '제' '第', gapItem] := fun _ _ _ => ⟨false, rfl⟩
  have unit : Reads " ?[조條]".toList [gapItem, oneOf '조' '條'] := fun _ _ _ => ⟨true, rfl⟩
  have part : Reads (a.part.elim [] fun part => '-' :: decimal part)
      ((a.part.elim [] fun part => '-' :: decimal part).map literal) := by
    cases a.part with
    | none => exact reads_nil
    | some part => exact (readsItem_literal (by decide)).cons (reads_decimal part)
  exact first.append ((reads_decimal a.number).append (part.append (unit.append (reads_articleTail a.branch))))

theorem mem_gapItem {word : Str} : word ∈ gapItem.language ↔ Gap word := by
  rw [gapItem, Regex.mem_optional]
  constructor
  · rintro (⟨c, space, rfl⟩ | rfl)
    · obtain rfl := eq_of_beq space
      exact .space
    · exact .none
  · rintro (_ | _)
    · exact .inr rfl
    · exact .inl ⟨' ', beq_self_eq_true _, rfl⟩

theorem le_le_iff {c d : Char} : d ≤ c ∧ c ≤ d ↔ c = d := by
  constructor
  · exact fun bounds => Char.le_antisymm bounds.2 bounds.1
  · rintro rfl
    exact ⟨Char.le_refl c, Char.le_refl c⟩

theorem mem_oneOf {first second : Char} {word : Str} :
    word ∈ (oneOf first second).language ↔ ∃ c, (c = first ∨ c = second) ∧ word = [c] := by
  simp [oneOf, classOf, inRanges, le_le_iff, or_comm]

theorem mem_noContinuation {word : Str} :
    word ∈ noContinuation.language ↔ ∃ c, isAsciiDigit c = false ∧ c ≠ '의' ∧ word = [c] := by
  have class_iff (c : Char) : (!inRanges [('의', '의'), ('0', '9')] c) = true ↔ isAsciiDigit c = false ∧ c ≠ '의' := by
    have digit : (decide ('0' ≤ c) && decide (c ≤ '9')) = isAsciiDigit c := by simp [isAsciiDigit, Char.le_def]
    have own : (decide ('의' ≤ c) && decide (c ≤ '의')) = true ↔ c = '의' := by
      rw [Bool.and_eq_true, decide_eq_true_eq, decide_eq_true_eq, le_le_iff]
    rw [Bool.not_eq_true', inRanges, List.any_cons, List.any_cons, List.any_nil, Bool.or_false, Bool.or_eq_false_iff]
    dsimp only
    rw [digit, and_comm, ← Bool.not_eq_true (decide ('의' ≤ c) && _), own]
  simp only [noContinuation, classOf, Regex.mem_letter, if_true, class_iff, and_assoc]

theorem mem_articleTail {branch : Option ℕ} {tail : Str} (line : '\n' ∉ tail) :
    tail ∈ (Regex.sequence (articleTail branch)).language ↔
      ∃ gap rest, Gap gap ∧ tail = branchText gap branch ++ rest ∧ Follows branch rest := by
  cases branch with
  | some branch =>
    rw [articleTail, List.cons_append, Regex.mem_sequence_cons]
    constructor
    · rintro ⟨_, ⟨c, particle, rfl⟩, _, inner, rfl⟩
      obtain rfl := eq_of_beq particle
      obtain ⟨gap, spaced, _, numbered, rfl⟩ := Regex.mem_sequence_cons.mp inner
      obtain ⟨rest', last, rfl⟩ := mem_literals.mp numbered
      obtain ⟨rest, behind, _, empty, rfl⟩ := Regex.mem_sequence_cons.mp last
      rw [Regex.mem_sequence_nil.mp empty, List.append_nil] at line ⊢
      refine ⟨gap, rest, (mem_gapItem).mp spaced, by simp [branchText], ?_⟩
      exact (mem_behind fun member => line (by simp [member])).mp behind
    · rintro ⟨gap, rest, spaced, rfl, follows⟩
      refine ⟨['의'], ⟨'의', beq_self_eq_true _, rfl⟩, gap ++ (decimal branch ++ rest), ?_, by simp [branchText]⟩
      refine Regex.mem_sequence_cons.mpr ⟨gap, (mem_gapItem).mpr spaced, _, mem_literals.mpr ⟨rest, ?_, rfl⟩, rfl⟩
      refine Regex.mem_sequence_cons.mpr ⟨rest, (mem_behind fun member => line ?_).mpr follows, [], rfl, by simp⟩
      simp [member]
  | none =>
    rw [articleTail, Regex.mem_sequence_cons]
    constructor
    · rintro ⟨rest, behind, _, empty, rfl⟩
      rw [Regex.mem_sequence_nil.mp empty, List.append_nil]
      refine ⟨[], rest, .none, rfl, ?_⟩
      rcases Regex.mem_optional.mp behind with (particle | other) | rfl
      · obtain ⟨_, ⟨c, same, rfl⟩, _, inner, rfl⟩ := Regex.mem_sequence_cons.mp particle
        obtain rfl := eq_of_beq same
        obtain ⟨_, single, _, -, rfl⟩ := Regex.mem_sequence_cons.mp inner
        obtain ⟨d, other, rfl⟩ := mem_noDigit.mp single
        exact ⟨by decide, fun _ => ⟨by simp, endsDigits_cons other⟩⟩
      · obtain ⟨_, single, _, -, rfl⟩ := Regex.mem_sequence_cons.mp other
        obtain ⟨c, digit, different, rfl⟩ := (mem_noContinuation).mp single
        exact ⟨digit, fun same => absurd same different⟩
      · trivial
    · rintro ⟨gap, rest, -, same, follows⟩
      obtain rfl : rest = tail := same.symm
      refine ⟨rest, Regex.mem_optional.mpr ?_, [], rfl, List.append_nil rest⟩
      cases rest with
      | nil => exact .inr rfl
      | cons c behind =>
        obtain ⟨digit, particle⟩ := follows
        have plain {text : Str} (inside : text ⊆ c :: behind) :
            text ∈ (Regex.sequence [.star dot]).language :=
          Regex.mem_sequence_cons.mpr ⟨text, mem_dotStar.mpr fun member => line (inside member), [], rfl, List.append_nil text⟩
        refine .inl (Regex.mem_alt.mpr ?_)
        by_cases marked : c = '의'
        · obtain ⟨nonempty, ends⟩ := particle marked
          obtain ⟨d, tail, rfl⟩ := List.exists_cons_of_ne_nil nonempty
          refine .inl (Regex.mem_sequence_cons.mpr ⟨[c], ⟨c, by rw [marked]; rfl, rfl⟩, d :: tail, ?_, rfl⟩)
          refine Regex.mem_sequence_cons.mpr ⟨[d], mem_noDigit.mpr ⟨d, ends d rfl, rfl⟩, tail, plain ?_, rfl⟩
          exact List.Subset.trans (List.subset_cons_self _ _) (List.subset_cons_self _ _)
        · refine .inr (Regex.mem_sequence_cons.mpr ⟨[c], (mem_noContinuation).mpr ⟨c, digit, marked, rfl⟩, behind, plain ?_, rfl⟩)
          exact List.subset_cons_self _ _

/-- The pattern matches a locator without leading zeros and what may follow. -/
theorem articlePattern_iff (engine : PatternEngine) (a : ArticleNumber) {line : Str} (single : '\n' ∉ line) :
    engine.wholeLine (articlePattern a) line = true ↔
      ∃ gap written rest, Gap gap ∧ Spelled a gap written ∧ Follows a.branch rest ∧ line = written ++ rest := by
  rw [engine.documented (reads_articlePattern a).parse single, articleItems, List.cons_append, Regex.mem_sequence_cons]
  constructor
  · rintro ⟨_, mark, _, inner, rfl⟩
    obtain ⟨first, marked, rfl⟩ := (mem_oneOf).mp mark
    obtain ⟨before, spaced, _, numbered, rfl⟩ := Regex.mem_sequence_cons.mp inner
    obtain ⟨_, parted, rfl⟩ := mem_literals.mp numbered
    obtain ⟨_, behind, rfl⟩ := mem_literals.mp parted
    obtain ⟨after, spaced', _, last, rfl⟩ := Regex.mem_sequence_cons.mp behind
    obtain ⟨_, unit, tail, branched, rfl⟩ := Regex.mem_sequence_cons.mp last
    obtain ⟨c, united, rfl⟩ := (mem_oneOf).mp unit
    obtain ⟨gap, rest, gapped, rfl, follows⟩ := (mem_articleTail fun member => single (by simp [member])).mp branched
    refine ⟨gap, _, rest, gapped, .mk marked (mem_gapItem.mp spaced) (mem_gapItem.mp spaced') united, follows, ?_⟩
    simp only [List.cons_append, List.append_assoc, List.nil_append]
  · rintro ⟨gap, written, rest, gapped, spelled, follows, rfl⟩
    obtain ⟨marked, spaced, spaced', united⟩ := spelled
    rename_i first unit before after
    have tail : branchText gap a.branch ++ rest ∈ (Regex.sequence (articleTail a.branch)).language :=
      (mem_articleTail fun member => single (by
        simp only [List.mem_append, List.mem_cons] at member ⊢
        tauto)).mpr ⟨gap, rest, gapped, rfl, follows⟩
    refine ⟨[first], (mem_oneOf).mpr ⟨first, marked, rfl⟩, _, ?_, List.singleton_append⟩
    refine Regex.mem_sequence_cons.mpr ⟨before, (mem_gapItem).mpr spaced, _, ?_, (List.append_assoc _ _ _).symm⟩
    refine mem_literals.mpr ⟨_, mem_literals.mpr ⟨_, ?_, List.append_assoc _ _ _⟩, List.append_assoc _ _ _⟩
    refine Regex.mem_sequence_cons.mpr ⟨after, (mem_gapItem).mpr spaced', _, ?_, (List.append_assoc _ _ _).symm⟩
    exact Regex.mem_sequence_cons.mpr ⟨[unit], (mem_oneOf).mpr ⟨unit, united, rfl⟩, _, tail, rfl⟩

/-! ## The reader -/

/-- The lines in which the reader takes the article and the pattern does not match. -/
inductive Missed (a : ArticleNumber) : Str → Prop where
  | zeros {written rest : Str} (shape : Written a written) (padded : ¬Spelled a [] written) (ends : Ends a rest) :
      Missed a (written ++ rest)
  | digit {written rest : Str} {d : Char} (unbranched : a.branch = none) (shape : Written a written)
      (digit : isAsciiDigit d = true) : Missed a (written ++ d :: rest)
  | particle {written : Str} (unbranched : a.branch = none) (shape : Written a written) : Missed a (written ++ ['의'])
  | noBranch {written rest : Str} {d : Char} (unbranched : a.branch = none) (shape : Written a written)
      (digit : isAsciiDigit d = true) (unread : optionalNumber '의' ('의' :: d :: rest) = (none, '의' :: d :: rest)) :
      Missed a (written ++ '의' :: d :: rest)

/-- The lines that the pattern matches and in which the reader does not take the article. -/
inductive Overcounted (a : ArticleNumber) : Str → Prop where
  | range {gap written rest : Str} (gapped : Gap gap) (shape : Spelled a gap written) (follows : Follows a.branch rest)
      (outside : ¬a.InRange) : Overcounted a (written ++ rest)
  | space {written rest : Str} (branched : a.branch.isSome = true) (shape : Spelled a [' '] written)
      (follows : Follows a.branch rest) : Overcounted a (written ++ rest)

theorem OptionalText.range {marker : Char} {n : Option ℕ} {text : Str} (optional : OptionalText marker n text) :
    ∀ value ∈ n, 1 ≤ value ∧ value ≤ 999 := by
  cases optional with
  | absent => simp
  | given numeral positive =>
    rintro _ ⟨⟩
    exact ⟨positive, Nat.le_of_lt_succ numeral.lt⟩

theorem Written.inRange {a : ArticleNumber} {written : Str} (shape : Written a written) : a.InRange := by
  obtain ⟨-, -, number, positive, parted, -, -, branched⟩ := shape
  exact ⟨⟨positive, Nat.le_of_lt_succ number.lt⟩, parted.range, branched.range⟩

theorem Spelled.written {a : ArticleNumber} {written : Str} (shape : Spelled a [] written) (range : a.InRange) :
    Written a written := by
  obtain ⟨marked, spaced, spaced', united⟩ := shape
  have branched : OptionalText '의' a.branch (branchText [] a.branch) := by
    have text := @optionalText_decimal '의' _ range.branch
    cases h : a.branch with
    | none => exact .absent
    | some branch =>
      rw [h] at text
      exact text
  exact .mk marked spaced (numeral_decimal (by decide) (Nat.lt_succ_of_le range.number.2)) range.number.1
    (optionalText_decimal range.part) spaced' united branched

theorem spelled_unbranched {a : ArticleNumber} (unbranched : a.branch = none) {gap written : Str}
    (shape : Spelled a gap written) : Spelled a [] written := by
  have same : branchText gap a.branch = branchText [] a.branch := by rw [unbranched]; rfl
  obtain ⟨marked, spaced, spaced', united⟩ := shape
  rw [same]
  exact .mk marked spaced spaced' united

theorem Follows.ends {a : ArticleNumber} {rest : Str} (follows : Follows a.branch rest) : Ends a rest := by
  rw [Ends]
  cases h : a.branch with
  | some branch =>
    rw [h] at follows
    exact follows
  | none =>
    rw [h] at follows
    rw [Option.isSome_none, if_neg Bool.false_ne_true]
    cases rest with
    | nil => rfl
    | cons c behind =>
      obtain ⟨digit, particle⟩ := follows
      by_cases marked : c = '의'
      · obtain ⟨nonempty, ends⟩ := particle marked
        obtain ⟨d, tail, rfl⟩ := List.exists_cons_of_ne_nil nonempty
        have none : digits 3 (d :: tail) = none := by
          rw [digits, List.takeWhile_cons_of_neg (by rw [ends d rfl]; decide)]
          rfl
        rw [optionalNumber, if_pos marked, none]
      · exact optionalNumber_other (by rintro _ ⟨⟩; exact marked)

/-- Before a space the reader ends the locator without a branch. -/
theorem read_of_space {a : ArticleNumber} (range : a.InRange) (branched : a.branch.isSome = true) {written rest : Str}
    (shape : Spelled a [' '] written) :
    ∃ behind, articleAt (written ++ rest) = some (⟨a.number, a.part, none⟩, behind) := by
  obtain ⟨branch, same⟩ := Option.isSome_iff_exists.mp branched
  obtain ⟨marked, spaced, spaced', united⟩ := shape
  rename_i first unit before after
  have short : Spelled ⟨a.number, a.part, none⟩ [] _ := .mk marked spaced spaced' united
  have range' : ArticleNumber.InRange ⟨a.number, a.part, none⟩ := ⟨range.number, range.part, by simp⟩
  have follows : Follows none ('의' :: ' ' :: (decimal branch ++ rest)) :=
    ⟨by decide, fun _ => ⟨by simp, endsDigits_cons (by decide)⟩⟩
  refine ⟨_, Eq.trans ?_ (articleAt_of_written (short.written range') follows.ends)⟩
  rw [same]
  simp [branchText]

variable {a : ArticleNumber} {line : Str}

/-- Only a branch may have a space before it. -/
theorem spelled_cases {gap written : Str} (gapped : Gap gap) (shape : Spelled a gap written) :
    Spelled a [] written ∨ a.branch.isSome = true ∧ Spelled a [' '] written := by
  cases h : a.branch with
  | none => exact .inl (spelled_unbranched h shape)
  | some branch =>
    cases gapped with
    | none => exact .inl shape
    | space => exact .inr ⟨rfl, shape⟩

theorem inRange_of_read {rest : Str} (read : articleAt line = some (a, rest)) : a.InRange := by
  obtain ⟨written, shape, -, -⟩ := articleAt_eq_some.mp read
  exact shape.inRange

theorem unread_of_space (branched : a.branch.isSome = true) {written rest behind : Str} (shape : Spelled a [' '] written) :
    articleAt (written ++ rest) ≠ some (a, behind) := by
  intro read
  obtain ⟨behind', read'⟩ := @read_of_space a (inRange_of_read read) branched written rest shape
  rw [read] at read'
  rw [(Prod.mk.inj (Option.some.inj read')).1] at branched
  cases branched

/-- The texts that the pattern matches, for an article in range. -/
def Matches (a : ArticleNumber) (line : Str) : Prop :=
  ∃ gap written rest, Gap gap ∧ Spelled a gap written ∧ Follows a.branch rest ∧ line = written ++ rest

theorem overcounted_iff : Overcounted a line ↔ Matches a line ∧ ¬∃ rest, articleAt line = some (a, rest) := by
  constructor
  · rintro (⟨gapped, shape, follows, outside⟩ | ⟨branched, shape, follows⟩)
    · refine ⟨⟨_, _, _, gapped, shape, follows, rfl⟩, ?_⟩
      rintro ⟨rest, read⟩
      exact outside (inRange_of_read read)
    · refine ⟨⟨_, _, _, .space, shape, follows, rfl⟩, ?_⟩
      rintro ⟨rest, read⟩
      exact unread_of_space branched shape read
  · rintro ⟨⟨gap, written, rest, gapped, shape, follows, rfl⟩, unread⟩
    by_cases range : a.InRange
    · rcases spelled_cases gapped shape with shape | ⟨branched, shape⟩
      · exact absurd ⟨rest, articleAt_of_written (shape.written range) follows.ends⟩ unread
      · exact .space branched shape follows
    · exact .range gapped shape follows range

/-- A line in which the reader takes the article is matched exactly if it is spelled without leading zeros and goes on as the
pattern asks for. -/
theorem matches_of_read {written rest : Str} (shape : Written a written) (ends : Ends a rest) :
    Matches a (written ++ rest) ↔ Spelled a [] written ∧ Follows a.branch rest := by
  constructor
  · rintro ⟨gap, written', rest', gapped, shape', follows, same⟩
    have read := articleAt_of_written shape ends
    rw [same] at read
    rcases spelled_cases gapped shape' with shape' | ⟨branched, shape'⟩
    · rw [articleAt_of_written (shape'.written shape.inRange) follows.ends] at read
      obtain rfl := (Prod.mk.inj (Option.some.inj read)).2
      rw [List.append_cancel_right_eq] at same
      exact ⟨same ▸ shape', follows⟩
    · exact absurd read (unread_of_space branched shape')
  · rintro ⟨shape', follows⟩
    exact ⟨[], written, rest, .none, shape', follows, rfl⟩

theorem missed_iff : Missed a line ↔ (∃ rest, articleAt line = some (a, rest)) ∧ ¬Matches a line := by
  have unread {written rest : Str} (shape : Written a written) (ends : Ends a rest)
      (other : Spelled a [] written → ¬Follows a.branch rest) :
      (∃ rest', articleAt (written ++ rest) = some (a, rest')) ∧ ¬Matches a (written ++ rest) := by
    refine ⟨⟨rest, articleAt_of_written shape ends⟩, fun matched => ?_⟩
    obtain ⟨shape', follows⟩ := (matches_of_read shape ends).mp matched
    exact other shape' follows
  have open_ends {rest : Str} (unbranched : a.branch = none) (read : optionalNumber '의' rest = (none, rest)) : Ends a rest := by
    rw [Ends, unbranched, Option.isSome_none, if_neg Bool.false_ne_true]
    exact read
  constructor
  · rintro (⟨shape, padded, ends⟩ | ⟨unbranched, shape, digit⟩ | ⟨unbranched, shape⟩ | ⟨unbranched, shape, digit, none⟩)
    · exact unread shape ends fun shape' => absurd shape' padded
    · rename_i rest d
      refine unread shape (open_ends unbranched (optionalNumber_other ?_)) fun _ follows => ?_
      · rintro _ ⟨⟩ rfl
        exact absurd digit (by decide)
      · rw [unbranched] at follows
        rw [follows.1] at digit
        cases digit
    · refine unread shape (open_ends unbranched (by decide)) fun _ follows => ?_
      rw [unbranched] at follows
      exact (follows.2 rfl).1 rfl
    · rename_i rest d
      refine unread shape (open_ends unbranched none) fun _ follows => ?_
      rw [unbranched] at follows
      rw [(follows.2 rfl).2 d rfl] at digit
      cases digit
  · rintro ⟨⟨rest, read⟩, unmatched⟩
    obtain ⟨written, shape, rfl, ends⟩ := articleAt_eq_some.mp read
    by_cases plain : Spelled a [] written
    · have other : ¬Follows a.branch rest := fun follows => unmatched ((matches_of_read shape ends).mpr ⟨plain, follows⟩)
      rw [Ends] at ends
      cases h : a.branch with
      | some branch =>
        rw [h] at ends other
        exact absurd ends other
      | none =>
        rw [h] at ends other
        rw [Option.isSome_none, if_neg Bool.false_ne_true] at ends
        cases rest with
        | nil => exact absurd trivial other
        | cons c behind =>
          cases digit : isAsciiDigit c with
          | true => exact .digit h shape digit
          | false =>
            by_cases marked : c = '의'
            · subst marked
              cases behind with
              | nil => exact .particle h shape
              | cons d behind =>
                cases second : isAsciiDigit d with
                | true => exact .noBranch h shape second ends
                | false => exact absurd ⟨digit, fun _ => ⟨by simp, endsDigits_cons second⟩⟩ other
            · exact absurd ⟨digit, fun same => absurd same marked⟩ other
    · exact .zeros shape plain ends

/-- The pattern matches a line in which the reader takes the article, and no other one, exactly outside of these lines. -/
theorem article_search_agrees_iff (engine : PatternEngine) (a : ArticleNumber) {line : Str} (single : '\n' ∉ line) :
    (engine.wholeLine (articlePattern a) line = true ↔ ∃ rest, articleAt line = some (a, rest)) ↔
      ¬Missed a line ∧ ¬Overcounted a line := by
  rw [missed_iff, overcounted_iff]
  have matched : engine.wholeLine (articlePattern a) line = true ↔ Matches a line := articlePattern_iff engine a single
  rw [matched]
  tauto

theorem article_search_agrees_on_use :
    (PatternEngine.derivatives.wholeLine (articlePattern ⟨5, none, none⟩) "제 5조의 뜻".toList = true ↔
      ∃ rest, articleAt "제 5조의 뜻".toList = some (⟨5, none, none⟩, rest)) ↔
      ¬Missed ⟨5, none, none⟩ "제 5조의 뜻".toList ∧ ¬Overcounted ⟨5, none, none⟩ "제 5조의 뜻".toList :=
  article_search_agrees_iff .derivatives ⟨5, none, none⟩ (by decide +kernel)

/-- The particle at the end of a line is taken for the beginning of a branch. -/
theorem article_search_misses_particle : ¬∀ (a : ArticleNumber) (line : Str), '\n' ∉ line →
    (PatternEngine.derivatives.wholeLine (articlePattern a) line = true ↔ ∃ rest, articleAt line = some (a, rest)) := by
  intro agrees
  have read : articleAt "제5조의".toList = some (⟨5, none, none⟩, "의".toList) := by decide +kernel
  have missed : PatternEngine.derivatives.wholeLine (articlePattern ⟨5, none, none⟩) "제5조의".toList = false := by decide +kernel
  have found := (agrees ⟨5, none, none⟩ "제5조의".toList (by decide +kernel)).mpr ⟨_, read⟩
  rw [missed] at found
  cases found

end OpenLegal.Legal
