import OpenLegal.Legal.LawReference
import OpenLegal.Legal.Outline
import OpenLegal.Rust.Slice

/-! # Citations in running text

One pass over a text collects the statute citations and the court case numbers in it. The pass resumes behind
what it recognised; recognised citations beyond the caps are not kept but reported as truncated.
-/

namespace OpenLegal.Legal

open Rust Rust.Str

structure ExtractedStatute where
  law : LawReference
  article : ArticleNumber
  articleStart : ℕ
  byteEnd : ℕ
  paragraph : Option ℕ
  subparagraph : Option ℕ
  citedTitle : Option Str
deriving DecidableEq, Repr

structure ExtractedCase where
  byteStart : ℕ
  byteEnd : ℕ
  caseNumber : Str
deriving DecidableEq, Repr

structure Extraction where
  statutes : List ExtractedStatute
  cases : List ExtractedCase
  truncated : Bool
deriving DecidableEq, Repr

/-! ## Statutes -/

/-- Parse `제{n}{unit}` or `第{n}{unit}`, allowing single spaces around the number. -/
def unitNumber (unit : Char) (text : Str) : Option (ℕ × Str) := do
  let rest ← locatorPrefix text
  let (n, rest) ← digits 5 (skipSpace rest)
  let rest := skipSpace rest
  if n = 0 ∨ rest.head? ≠ some unit then none else some (n, rest.tail)

def skippedTitles : List Str :=
  ["이하", "구 ", "개정", "신설", "삭제", "현행", "종전", "단서", "본문"].map String.toList

def usableTitle (inner : Str) : Option Str :=
  let inner := trim inner
  if inner.isEmpty || (splitOnce "라 한다".toList inner).isSome ||
      inner.all (fun c => isAsciiDigit c || isWhitespace c || c == '.') || skippedTitles.any (·.isPrefixOf inner) then none
  else some inner

/-- A number with its unit, behind at most one space; the text stays where it is without one. -/
def optionalUnit (unit : Char) (text : Str) : Option ℕ × Str :=
  match unitNumber unit (skipSpace text) with
  | some (n, after) => (some n, after)
  | none => (none, text)

/-- A citation that begins here, if it names a law, and the text behind it. -/
def statuteAt (front rest : Str) (previousEnd : Option ℕ) : Option (Option ExtractedStatute × Str) := do
  let (article, behind) ← articleAt rest
  let (citedTitle, behind) :=
    match parenthetical behind with
    | some (inner, after) =>
      match usableTitle inner with
      | some title => (some title, after)
      | none => (none, behind)
    | none => (none, behind)
  let (paragraph, behind) := optionalUnit '항' behind
  let (subparagraph, behind) := optionalUnit '호' behind
  let statute := (lawReference front previousEnd).map fun law => {
    law, article, paragraph, subparagraph, citedTitle
    articleStart := byteLen front
    byteEnd := byteLen front + (byteLen rest - byteLen behind) }
  some (statute, behind)

/-! ## Cases -/

def caseTypes : List Str :=
  ["가합", "가단", "가소", "나", "다", "라", "마", "그", "머", "카", "타", "차", "드", "르", "므", "브", "스", "느단", "느합",
    "고합", "고단", "고정", "고약", "노", "도", "로", "모", "보", "오", "초", "감도", "구합", "구단", "구", "누", "두", "무",
    "허", "후", "헌가", "헌나", "헌다", "헌라", "헌마", "헌바", "헌사", "헌아", "재다", "재두", "재도"].map String.toList

def isHangulSyllable (c : Char) : Bool := 0xac00 ≤ c.val && c.val ≤ 0xd7a3

/-- A year of two digits, or of the last or this century. -/
def isYear (year : Str) : Bool :=
  year.length == 2 || (year.length == 4 && (['1', '9'].isPrefixOf year || ['2', '0'].isPrefixOf year))

section Scan

variable (unicode : Unicode)

/-- A case number that begins here, and the text behind it. -/
def caseAt (front rest : Str) : Option (ExtractedCase × Str) :=
  if front.getLast?.any unicode.isAlphanumeric then none
  else do
    let (_, afterYear) ← digits 4 rest
    if !isYear (rest.takeWhile isAsciiDigit) then none
    else
      let kind := (afterYear.take 3).takeWhile isHangulSyllable
      if !caseTypes.contains kind then none
      else
        let (_, behind) ← digits 7 (afterYear.drop kind.length)
        if behind.head?.any fun c => unicode.isAlphanumeric c && !isHangulSyllable c then none
        else
          some ({ byteStart := byteLen front
                  byteEnd := byteLen front + (byteLen rest - byteLen behind)
                  caseNumber := rest.take (rest.length - behind.length) }, behind)

/-! ## The pass -/

/-- The text before and behind the place reached, and what was found. -/
structure Cursor where
  front : Str
  rest : Str
  previousEnd : Option ℕ
  seenCases : List Str
  out : Extraction

/-- Resume at a later place, given by the text behind it. -/
def Cursor.resume (s : Cursor) (behind : Str) : Cursor :=
  { s with front := s.front ++ s.rest.take (s.rest.length - behind.length), rest := behind }

/-- The numbers of citations that are kept. -/
structure Caps where
  statutes : ℕ
  cases : ℕ

/-- `MAX_STATUTE_CITATIONS` and `MAX_CASE_CITATIONS`. -/
def citationCaps : Caps := ⟨50, 30⟩

variable (caps : Caps)

/-- A statute that was recognised here. -/
def keepStatute (s : Cursor) (tail : Str) (statute : ExtractedStatute) (behind : Str) : Cursor :=
  if s.out.statutes.length = caps.statutes then { s.resume tail with out := { s.out with truncated := true } }
  else
    { s.resume behind with
      previousEnd := some statute.byteEnd
      out := { s.out with statutes := s.out.statutes ++ [statute] } }

/-- A case that was recognised here. -/
def keepCase (s : Cursor) (case : ExtractedCase) (behind : Str) : Cursor :=
  if s.seenCases.contains case.caseNumber then s.resume behind
  else
    { s.resume behind with
      seenCases := case.caseNumber :: s.seenCases
      out :=
        if caps.cases < s.seenCases.length + 1 then { s.out with truncated := true }
        else { s.out with cases := s.out.cases ++ [case] } }

/-- One round of the loop; none at the end of the text. -/
def extractStep (s : Cursor) : Option Cursor :=
  match s.rest with
  | [] => none
  | c :: tail =>
    if c = '제' ∨ c = '第' then
      match statuteAt s.front s.rest s.previousEnd with
      | some (some statute, behind) => some (keepStatute caps s tail statute behind)
      | some (none, behind) => some { s.resume behind with previousEnd := none }
      | none => some (s.resume tail)
    else if isAsciiDigit c then
      match caseAt unicode s.front s.rest with
      | some (case, behind) => some (keepCase caps s case behind)
      | none => some (s.resume tail)
    -- a blank line ends a paragraph; references to the previous law do not cross it
    else if c = '\n' ∧ tail.head? = some '\n' then some { s.resume tail with previousEnd := none }
    else some (s.resume tail)

/-! ## Progress -/

/-- A later place on the same line. -/
def OneLine (text rest : Str) : Prop := ∃ consumed, text = consumed ++ rest ∧ '\n' ∉ consumed

theorem OneLine.refl (text : Str) : OneLine text text := ⟨[], rfl, by simp⟩

theorem OneLine.trans {text middle rest : Str} (first : OneLine text middle) (second : OneLine middle rest) :
    OneLine text rest := by
  obtain ⟨run, rfl, plain⟩ := first
  obtain ⟨run', rfl, plain'⟩ := second
  exact ⟨run ++ run', by simp, by simp [plain, plain']⟩

theorem oneLine_cons {c : Char} (plain : c ≠ '\n') (rest : Str) : OneLine (c :: rest) rest :=
  ⟨[c], rfl, by simpa using plain.symm⟩

theorem OneLine.suffix {text rest : Str} (line : OneLine text rest) : rest <:+ text := by
  obtain ⟨run, rfl, -⟩ := line
  exact List.suffix_append _ _

theorem Gap.line {gap : Str} (gapText : Gap gap) : '\n' ∉ gap := by cases gapText <;> simp

theorem Numeral.line {max n : ℕ} {run : Str} (numeral : Numeral max run n) : '\n' ∉ run := fun member =>
  absurd (numeral.digits _ member) (by decide)

theorem OptionalText.line {marker : Char} {n : Option ℕ} {written : Str} (optional : OptionalText marker n written)
    (plain : marker ≠ '\n') : '\n' ∉ written := by
  cases optional with
  | absent => simp
  | given numeral positive =>
    rw [List.mem_cons, not_or]
    exact ⟨plain.symm, numeral.line⟩

theorem Written.line {a : ArticleNumber} {written : Str} (shape : Written a written) : '\n' ∉ written := by
  cases shape with
  | mk marked before number positive parted after united branched =>
    have first := parted.line (by decide)
    have second := branched.line (by decide)
    simp only [List.mem_cons, List.mem_append, not_or]
    refine ⟨?_, before.line, number.line, first, after.line, ?_, second⟩
    · rcases marked with rfl | rfl <;> decide
    · rcases united with rfl | rfl <;> decide

theorem skipSpace_line (text : Str) : OneLine text (skipSpace text) := by
  obtain ⟨gap, gapText, split⟩ := gap_of_skipSpace text
  exact ⟨gap, split, gapText.line⟩

theorem locatorPrefix_line {text rest : Str} (read : locatorPrefix text = some rest) : OneLine text rest := by
  obtain ⟨first, marked, rfl⟩ := locatorPrefix_eq_some read
  exact oneLine_cons (by rcases marked with rfl | rfl <;> decide) rest

theorem digits_line {max n : ℕ} {text rest : Str} (read : digits max text = some (n, rest)) :
    OneLine text rest ∧ rest ≠ text := by
  obtain ⟨run, numeral, rfl, -⟩ := digits_eq_some.mp read
  refine ⟨⟨run, rfl, numeral.line⟩, fun same => numeral.nonempty ?_⟩
  exact List.append_left_eq_self.mp same.symm

theorem closeParen_line {i : ℕ} {text inner after : Str} (closed : closeParen i text = some (inner, after)) :
    OneLine text after := by
  induction text generalizing i inner with
  | nil => cases closed
  | cons c rest ih =>
    rw [closeParen] at closed
    split_ifs at closed with stops
    · obtain ⟨-, rfl⟩ := Prod.mk.inj (Option.some.inj closed)
      exact oneLine_cons (not_or.mp stops).2 _
    · obtain ⟨⟨inside, behind⟩, found, same⟩ := Option.map_eq_some_iff.mp closed
      obtain ⟨-, rfl⟩ := Prod.mk.inj same
      exact (oneLine_cons (not_or.mp stops).2 rest).trans (ih found)

theorem parenthetical_line {text inner after : Str} (found : parenthetical text = some (inner, after)) :
    OneLine text after := by
  cases text with
  | nil => cases found
  | cons c rest =>
    rw [parenthetical] at found
    split_ifs at found with opens
    exact (oneLine_cons (by rcases opens with rfl | rfl <;> decide) rest).trans (closeParen_line found)

theorem unitNumber_line {unit : Char} (plain : unit ≠ '\n') {text after : Str} {n : ℕ}
    (read : unitNumber unit text = some (n, after)) : OneLine text after := by
  simp only [unitNumber, Option.bind_eq_bind, Option.bind_eq_some_iff] at read
  obtain ⟨rest, first, ⟨m, behind⟩, number, read⟩ := read
  split_ifs at read with other
  obtain ⟨-, rfl⟩ := Prod.mk.inj (Option.some.inj read)
  have numbered : OneLine text behind :=
    (locatorPrefix_line first).trans ((skipSpace_line rest).trans (digits_line number).1)
  refine (numbered.trans (skipSpace_line behind)).trans ?_
  cases shape : skipSpace behind with
  | nil => exact .refl []
  | cons c more =>
    rw [shape] at other
    obtain rfl : c = unit := by simpa using (not_or.mp other).2
    exact oneLine_cons plain more

theorem optionalUnit_line {unit : Char} (plain : unit ≠ '\n') (text : Str) : OneLine text (optionalUnit unit text).2 := by
  rw [optionalUnit]
  split
  · next n after read => exact (skipSpace_line text).trans (unitNumber_line plain read)
  · exact .refl text

theorem articleAt_line {text after : Str} {a : ArticleNumber} (read : articleAt text = some (a, after)) :
    OneLine text after ∧ after ≠ text := by
  obtain ⟨written, shape, rfl, -⟩ := articleAt_eq_some.mp read
  refine ⟨⟨written, rfl, shape.line⟩, fun same => ?_⟩
  have empty : written = [] := List.append_left_eq_self.mp same.symm
  cases shape
  cases empty

/-- A nonempty part of the text that ends at the place to resume. -/
structure Consumes (rest consumed behind : Str) : Prop where
  split : rest = consumed ++ behind
  nonempty : consumed ≠ []

theorem exists_consumes {rest behind : Str} (line : OneLine rest behind) (shorter : behind ≠ rest) :
    ∃ consumed, Consumes rest consumed behind ∧ '\n' ∉ consumed := by
  obtain ⟨consumed, rfl, plain⟩ := line
  exact ⟨consumed, ⟨rfl, fun empty => shorter (by rw [empty, List.nil_append])⟩, plain⟩

/-- What a recognised statute promises about the text around it. -/
structure StatuteHere (front rest consumed : Str) (statute : ExtractedStatute) : Prop where
  start : statute.articleStart = byteLen front
  stop : statute.byteEnd = byteLen front + byteLen consumed
  law : statute.law.Sound front
  locator : ∃ after, articleAt rest = some (statute.article, after)

theorem statuteAt_eq_some {front rest behind : Str} {previousEnd : Option ℕ} {found : Option ExtractedStatute}
    (read : statuteAt front rest previousEnd = some (found, behind)) :
    ∃ consumed, Consumes rest consumed behind ∧ '\n' ∉ consumed ∧
      ∀ statute ∈ found, StatuteHere front rest consumed statute ∧ lawReference front previousEnd = some statute.law := by
  simp only [statuteAt, Option.bind_eq_bind, Option.bind_eq_some_iff] at read
  obtain ⟨⟨article, afterLocator⟩, locator, read⟩ := read
  obtain ⟨citedTitle, afterTitle, title, line⟩ : ∃ citedTitle afterTitle,
      (match parenthetical afterLocator with
        | some (inner, after) =>
          match usableTitle inner with
          | some title => (some title, after)
          | none => (none, afterLocator)
        | none => (none, afterLocator)) = (citedTitle, afterTitle) ∧ OneLine afterLocator afterTitle := by
    refine ⟨_, _, rfl, ?_⟩
    split
    · next inner after closed =>
      split
      · exact parenthetical_line closed
      · exact .refl _
    · exact .refl _
  rw [title] at read
  obtain ⟨same, rfl⟩ := Prod.mk.inj (Option.some.inj read)
  have units := line.trans
    ((@optionalUnit_line '항' (by decide) afterTitle).trans
      (@optionalUnit_line '호' (by decide) (optionalUnit '항' afterTitle).2))
  obtain ⟨article', shorter⟩ := articleAt_line locator
  obtain ⟨consumed, consumes, plain⟩ := exists_consumes (article'.trans units) fun equal =>
    shorter (article'.suffix.eq_of_length_le (equal ▸ units.suffix.length_le))
  refine ⟨consumed, consumes, plain, fun statute member => ?_⟩
  rw [← same] at member
  obtain ⟨law, named, rfl⟩ := Option.map_eq_some_iff.mp member
  refine ⟨⟨rfl, ?_, lawReference_sound named, afterLocator, locator⟩, named⟩
  have bytes := congrArg byteLen consumes.split
  rw [byteLen_append] at bytes
  dsimp only
  omega

theorem caseAt_eq_some {front rest behind : Str} {case : ExtractedCase}
    (read : caseAt unicode front rest = some (case, behind)) :
    ∃ consumed, Consumes rest consumed behind ∧ '\n' ∉ consumed ∧
      case = ⟨byteLen front, byteLen front + byteLen consumed, consumed⟩ := by
  rw [caseAt] at read
  split at read
  · cases read
  simp only [Option.bind_eq_bind, Option.bind_eq_some_iff] at read
  obtain ⟨⟨year, afterYear⟩, first, read⟩ := read
  split at read
  · cases read
  split at read
  · cases read
  obtain ⟨⟨number, after⟩, second, read⟩ := Option.bind_eq_some_iff.mp read
  split_ifs at read
  obtain ⟨rfl, rfl⟩ := Prod.mk.inj (Option.some.inj read)
  obtain ⟨year', shorter⟩ := digits_line first
  have kind : OneLine afterYear (afterYear.drop ((afterYear.take 3).takeWhile isHangulSyllable).length) := by
    refine ⟨(afterYear.take 3).takeWhile isHangulSyllable, ?_, fun member => ?_⟩
    · have begins : (afterYear.take 3).takeWhile isHangulSyllable <+: afterYear :=
        (List.takeWhile_prefix _).trans (List.take_prefix 3 afterYear)
      conv_lhs => rw [← List.take_append_drop ((afterYear.take 3).takeWhile isHangulSyllable).length afterYear]
      rw [← List.prefix_iff_eq_take.mp begins]
    · exact absurd (List.mem_takeWhile_imp member) (by decide)
  have inner := kind.trans (digits_line second).1
  obtain ⟨consumed, consumes, plain⟩ := exists_consumes (year'.trans inner) fun equal =>
    shorter (year'.suffix.eq_of_length_le (equal ▸ inner.suffix.length_le))
  refine ⟨consumed, consumes, plain, ?_⟩
  rw [consumes.split]
  have length : (consumed ++ after).length - after.length = consumed.length := by simp
  have bytes : byteLen (consumed ++ after) - byteLen after = byteLen consumed := by rw [byteLen_append]; omega
  rw [length, bytes, List.take_left]

/-- A cursor behind the text it consumed. -/
def Cursor.past (s : Cursor) (consumed behind : Str) : Cursor := { s with front := s.front ++ consumed, rest := behind }

theorem Cursor.resume_eq {s : Cursor} {consumed behind : Str} (consumes : Consumes s.rest consumed behind) :
    s.resume behind = s.past consumed behind := by
  have length : (consumed ++ behind).length - behind.length = consumed.length := by simp
  rw [Cursor.resume, Cursor.past, consumes.split, length, List.take_left]

/-- What one round of the loop can do. -/
inductive Advances (s : Cursor) : Cursor → Prop where
  | pass {consumed behind : Str} {previousEnd : Option ℕ} (consumes : Consumes s.rest consumed behind)
      (previous : previousEnd = s.previousEnd ∨ previousEnd = none) :
      Advances s { s.past consumed behind with previousEnd }
  | statute {consumed behind : Str} {statute : ExtractedStatute} (consumes : Consumes s.rest consumed behind)
      (here : StatuteHere s.front s.rest consumed statute) (room : s.out.statutes.length ≠ caps.statutes) :
      Advances s { s.past consumed behind with
        previousEnd := some statute.byteEnd
        out := { s.out with statutes := s.out.statutes ++ [statute] } }
  | statuteBeyond {consumed behind : Str} (consumes : Consumes s.rest consumed behind) :
      Advances s { s.past consumed behind with out := { s.out with truncated := true } }
  | case {consumed behind : Str} (consumes : Consumes s.rest consumed behind) (fresh : consumed ∉ s.seenCases)
      (room : s.seenCases.length + 1 ≤ caps.cases) :
      Advances s { s.past consumed behind with
        seenCases := consumed :: s.seenCases
        out := { s.out with
          cases := s.out.cases ++ [⟨byteLen s.front, byteLen s.front + byteLen consumed, consumed⟩] } }
  | caseBeyond {consumed behind : Str} (consumes : Consumes s.rest consumed behind) (fresh : consumed ∉ s.seenCases) :
      Advances s { s.past consumed behind with
        seenCases := consumed :: s.seenCases
        out := { s.out with truncated := true } }

theorem advances_keepStatute {s : Cursor} {c : Char} {tail consumed behind : Str} {statute : ExtractedStatute}
    (consumes : Consumes s.rest consumed behind) (one : Consumes s.rest [c] tail)
    (here : StatuteHere s.front s.rest consumed statute) : Advances caps s (keepStatute caps s tail statute behind) := by
  rw [keepStatute, Cursor.resume_eq consumes, Cursor.resume_eq one]
  split_ifs with full
  · exact .statuteBeyond one
  · exact .statute consumes here full

theorem advances_keepCase {s : Cursor} {consumed behind : Str} (consumes : Consumes s.rest consumed behind) :
    Advances caps s
      (keepCase caps s ⟨byteLen s.front, byteLen s.front + byteLen consumed, consumed⟩ behind) := by
  rw [keepCase, Cursor.resume_eq consumes]
  split_ifs with seen full
  · exact .pass consumes (.inl rfl)
  · exact .caseBeyond consumes (by simpa using seen)
  · exact .case consumes (by simpa using seen) (Nat.not_lt.mp full)

/-- A round advances, and only the end of the text stops the loop. -/
theorem extractStep_advances {s s' : Cursor} (step : extractStep unicode caps s = some s') : Advances caps s s' := by
  rw [extractStep] at step
  split at step
  · cases step
  · next c tail text =>
    have one : Consumes s.rest [c] tail := ⟨text, List.cons_ne_nil _ _⟩
    have passes : Advances caps s (s.resume tail) := Cursor.resume_eq one ▸ .pass one (.inl rfl)
    split_ifs at step
    · split at step
      · next statute behind read =>
        obtain ⟨consumed, consumes, -, here⟩ := statuteAt_eq_some read
        rw [← Option.some.inj step]
        exact advances_keepStatute caps consumes one (here statute rfl).1
      · next behind read =>
        obtain ⟨consumed, consumes, -, -⟩ := statuteAt_eq_some read
        rw [← Option.some.inj step, Cursor.resume_eq consumes]
        exact .pass consumes (.inr rfl)
      · exact Option.some.inj step ▸ passes
    · split at step
      · next case behind read =>
        obtain ⟨consumed, consumes, -, rfl⟩ := caseAt_eq_some unicode read
        rw [← Option.some.inj step]
        exact advances_keepCase caps consumes
      · exact Option.some.inj step ▸ passes
    · rw [← Option.some.inj step, Cursor.resume_eq one]
      exact .pass one (.inr rfl)
    · exact Option.some.inj step ▸ passes

theorem Advances.exists_past {s s' : Cursor} (advances : Advances caps s s') :
    ∃ consumed behind, Consumes s.rest consumed behind ∧ s'.front = s.front ++ consumed ∧ s'.rest = behind := by
  cases advances <;> exact ⟨_, _, ‹_›, rfl, rfl⟩

theorem extractStep_shorter {s s' : Cursor} (step : extractStep unicode caps s = some s') :
    s'.rest.length < s.rest.length := by
  obtain ⟨consumed, behind, consumes, -, rfl⟩ := (extractStep_advances unicode caps step).exists_past
  have positive := List.length_pos_iff.mpr consumes.nonempty
  rw [consumes.split, List.length_append]
  omega

/-- The loop of `extract_citations`. -/
def extract (s : Cursor) : Cursor :=
  match _step : extractStep unicode caps s with
  | none => s
  | some s' => extract s'
termination_by s.rest.length
decreasing_by exact extractStep_shorter unicode caps _step

/-- The loop from the start of a text, with caps. -/
def extractWith (text : Str) : Extraction := (extract unicode caps ⟨[], text, none, [], ⟨[], [], false⟩⟩).out

/-- Extract statute citations and court case numbers in input order. -/
def extractCitations (text : Str) : Extraction := extractWith unicode citationCaps text

theorem extract_of_none {s : Cursor} (stops : extractStep unicode caps s = none) : extract unicode caps s = s := by
  rw [extract]
  split
  · rfl
  · next step => rw [stops] at step; cases step

theorem extract_of_some {s s' : Cursor} (step : extractStep unicode caps s = some s') :
    extract unicode caps s = extract unicode caps s' := by
  rw [extract]
  split
  · next stops => rw [stops] at step; cases step
  · next next' step' => rw [step] at step'; cases step'; rfl

/-- Characters that begin no citation and end no line are passed. -/
theorem extract_plain {s : Cursor} {run behind : Str} (text : s.rest = run ++ behind)
    (plain : run.all (fun c => c ≠ '제' ∧ c ≠ '第' ∧ isAsciiDigit c = false ∧ c ≠ '\n') = true) :
    extract unicode caps s = extract unicode caps (s.past run behind) := by
  induction run generalizing s with
  | nil =>
    rw [List.nil_append] at text
    rw [Cursor.past, List.append_nil, ← text]
  | cons c run ih =>
    have one : Consumes s.rest [c] (run ++ behind) := ⟨text, List.cons_ne_nil c []⟩
    rw [List.all_cons, Bool.and_eq_true, decide_eq_true_eq] at plain
    obtain ⟨⟨first, second, digit, newline⟩, plain⟩ := plain
    have step : extractStep unicode caps s = some (s.resume (run ++ behind)) := by
      simp [extractStep, text, first, second, digit, newline]
    rw [extract_of_some unicode caps step, Cursor.resume_eq one, ih rfl plain]
    simp [Cursor.past]

/-- The round at a statute. -/
theorem extract_statute {front tail behind : Str} {c : Char} {previousEnd : Option ℕ} {seenCases : List Str}
    {out : Extraction} {statute : ExtractedStatute} (marked : c = '제' ∨ c = '第')
    (read : statuteAt front (c :: tail) previousEnd = some (some statute, behind)) :
    extract unicode caps ⟨front, c :: tail, previousEnd, seenCases, out⟩ =
      extract unicode caps (keepStatute caps ⟨front, c :: tail, previousEnd, seenCases, out⟩ tail statute behind) :=
  extract_of_some unicode caps (by simp only [extractStep, marked, if_true, read])

section Newline

variable {front tail : Str} {previousEnd : Option ℕ} {seenCases : List Str} {out : Extraction}

theorem extractStep_newline (front tail : Str) (previousEnd : Option ℕ) (seenCases : List Str) (out : Extraction) :
    extractStep unicode caps ⟨front, '\n' :: tail, previousEnd, seenCases, out⟩ =
      some ⟨front ++ ['\n'], tail, if tail.head? = some '\n' then none else previousEnd, seenCases, out⟩ := by
  have marked : ¬('\n' = '제' ∨ '\n' = '第') := by decide
  have digit : isAsciiDigit '\n' = false := by decide
  have resume : Cursor.resume ⟨front, '\n' :: tail, previousEnd, seenCases, out⟩ tail =
      ⟨front ++ ['\n'], tail, previousEnd, seenCases, out⟩ := Cursor.resume_eq ⟨rfl, List.cons_ne_nil '\n' []⟩
  simp only [extractStep, if_neg marked, digit, Bool.false_eq_true, if_false, true_and, resume]
  split_ifs <;> rfl

/-- The round at a blank line. -/
theorem extract_blank :
    extract unicode caps ⟨front, '\n' :: '\n' :: tail, previousEnd, seenCases, out⟩ =
      extract unicode caps ⟨front ++ ['\n'], '\n' :: tail, none, seenCases, out⟩ :=
  extract_of_some unicode caps (by rw [extractStep_newline]; rfl)

/-- The round at the end of a line. -/
theorem extract_newline (other : tail.head? ≠ some '\n') :
    extract unicode caps ⟨front, '\n' :: tail, previousEnd, seenCases, out⟩ =
      extract unicode caps ⟨front ++ ['\n'], tail, previousEnd, seenCases, out⟩ :=
  extract_of_some unicode caps (by rw [extractStep_newline, if_neg other])

end Newline

/-- What every round keeps holds when the loop ends. -/
theorem extract_invariant {P : Cursor → Prop} (keeps : ∀ s s', Advances caps s s' → P s → P s') {s : Cursor} (start : P s) :
    P (extract unicode caps s) := by
  induction s using extract.induct unicode caps with
  | case1 s stops => rwa [extract_of_none unicode caps stops]
  | case2 s s' step ih =>
    rw [extract_of_some unicode caps step]
    exact ih (keeps s s' (extractStep_advances unicode caps step) start)

end Scan

end OpenLegal.Legal
