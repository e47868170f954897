import OpenLegal.Rust.Slice
import OpenLegal.Rust.Unicode
import Mathlib.Data.List.TakeWhile

/-! # Article locators

A locator is `제{number}조` or `제{number}-{part}조`, either followed by `의{branch}`. One reader takes a locator
at a place of a running text, with single spaces around the number; the other takes a whole argument, with
optional markers. Readers return the rest of the text behind what they read.
-/

namespace OpenLegal.Legal

open Rust Rust.Str

structure ArticleNumber where
  number : ℕ
  part : Option ℕ
  branch : Option ℕ
deriving DecidableEq, Repr

/-- The displayed form. -/
def ArticleNumber.display (a : ArticleNumber) : Str :=
  '제' :: (decimal a.number ++ (a.part.elim [] (fun part => '-' :: decimal part) ++
    '조' :: a.branch.elim [] fun branch => '의' :: decimal branch))

/-! ## Readers -/

/-- A number of at most `max` digits that no digit follows. -/
def digits (max : ℕ) (text : Str) : Option (ℕ × Str) :=
  let run := text.takeWhile isAsciiDigit
  if run.isEmpty || max < run.length then none
  else some (Nat.ofDigitChars 10 run 0, text.dropWhile isAsciiDigit)

/-- `skip_spaces` with a bound of one space. -/
def skipSpace : Str → Str
  | [] => []
  | c :: rest => if c = ' ' then rest else c :: rest

def locatorPrefix : Str → Option Str
  | [] => none
  | c :: rest => if c = '제' ∨ c = '第' then some rest else none

/-- A marker and a positive number of at most three digits, or nothing. -/
def optionalNumber (marker : Char) : Str → Option ℕ × Str
  | [] => (none, [])
  | c :: rest =>
    if c = marker then
      match digits 3 rest with
      | some (n, after) => if 0 < n then (some n, after) else (none, c :: rest)
      | none => (none, c :: rest)
    else (none, c :: rest)

def articleUnit : Str → Option Str
  | [] => none
  | c :: rest => if c = '조' ∨ c = '條' then some rest else none

/-- Parse a leading `제{n}조`, `제{n}-{p}조` or either form followed by `의{m}`. Original-character `第` and `條`
markers may be mixed with their Hangul equivalents; numbers and `의` keep the same grammar. -/
def articleAt (text : Str) : Option (ArticleNumber × Str) := do
  let rest ← locatorPrefix text
  let (number, rest) ← digits 5 (skipSpace rest)
  let (part, rest) := optionalNumber '-' rest
  let rest ← articleUnit (skipSpace rest)
  if number = 0 then none
  else
    let (branch, rest) := optionalNumber '의' rest
    some (⟨number, part, branch⟩, rest)

/-- `article_at`: the locator at a byte offset, and the offset behind it. -/
def articleAtByte (text : Str) (start : ℕ) : Option (ArticleNumber × ℕ) := do
  let (_, rest) ← splitAt text start
  let (article, after) ← articleAt rest
  some (article, byteLen text - byteLen after)

/-- A suffix that is there in one form or another, or not at all. -/
def stripEither (first second : Char) : Str → Str
  | [] => []
  | c :: rest => if c = first ∨ c = second then rest else c :: rest

/-- The part of an argument: a hyphen has to be followed by one. -/
def argumentPart : Str → Option (Option ℕ × Str)
  | '-' :: rest => do
    let (part, after) ← digits 3 rest
    if part = 0 then none else some (some part, after)
  | rest => some (none, rest)

/-- The branch of an argument, which ends it. -/
def argumentBranch : Str → Option (Option ℕ)
  | [] => some none
  | '의' :: rest => do
    let (branch, after) ← digits 3 rest
    if !after.isEmpty || branch = 0 then none else some (some branch)
  | _ => none

/-- Accepts `제44조의2`, `44조의2`, `44의2`, `제9-5조`, `9-5` and `44`. -/
def parseArticleNumber (value : Str) : Option ArticleNumber := do
  let compact := value.filter (!isWhitespace ·)
  let (number, rest) ← digits 5 (stripEither '제' '第' compact)
  let (part, rest) ← argumentPart rest
  let branch ← argumentBranch (stripEither '조' '條' rest)
  if 0 < number then some ⟨number, part, branch⟩ else none

/-! ## Numbers -/

/-- The digits of a number of bounded length. -/
structure Numeral (max : ℕ) (run : Str) (n : ℕ) : Prop where
  nonempty : run ≠ []
  digits : ∀ c ∈ run, isAsciiDigit c = true
  short : run.length ≤ max
  value : Nat.ofDigitChars 10 run 0 = n

/-- No digit follows. -/
def EndsDigits (rest : Str) : Prop := ∀ c ∈ rest.head?, isAsciiDigit c = false

@[simp] theorem endsDigits_nil : EndsDigits [] := fun _ impossible => nomatch impossible

theorem endsDigits_cons {c : Char} {rest : Str} (other : isAsciiDigit c = false) : EndsDigits (c :: rest) := by
  rintro _ ⟨⟩
  exact other

theorem takeWhile_digits {run rest : Str} (numeral : ∀ c ∈ run, isAsciiDigit c = true) (ends : EndsDigits rest) :
    (run ++ rest).takeWhile isAsciiDigit = run ∧ (run ++ rest).dropWhile isAsciiDigit = rest := by
  have stops : rest.takeWhile isAsciiDigit = [] ∧ rest.dropWhile isAsciiDigit = rest := by
    cases rest with
    | nil => exact ⟨rfl, rfl⟩
    | cons c rest =>
      have other := ends c rfl
      exact ⟨List.takeWhile_cons_of_neg (by simp [other]), List.dropWhile_cons_of_neg (by simp [other])⟩
  exact ⟨by rw [List.takeWhile_append_of_pos numeral, stops.1, List.append_nil],
    by rw [List.dropWhile_append_of_pos numeral, stops.2]⟩

theorem digits_eq_some {max n : ℕ} {text rest : Str} :
    digits max text = some (n, rest) ↔ ∃ run, Numeral max run n ∧ text = run ++ rest ∧ EndsDigits rest := by
  constructor
  · intro read
    rw [digits] at read
    split_ifs at read with outside
    simp only [Bool.or_eq_true, List.isEmpty_iff, decide_eq_true_eq, not_or, Nat.not_lt] at outside
    simp only [Option.some.injEq, Prod.mk.injEq] at read
    obtain ⟨value, rfl⟩ := read
    refine ⟨_, ⟨outside.1, fun _ member => List.mem_takeWhile_imp member, outside.2, value⟩,
      (List.takeWhile_append_dropWhile).symm, ?_⟩
    intro c first
    have stopped := List.head?_dropWhile_not isAsciiDigit text
    rw [first] at stopped
    simpa using stopped
  · rintro ⟨run, numeral, rfl, ends⟩
    obtain ⟨taken, dropped⟩ := takeWhile_digits numeral.digits ends
    rw [digits, taken, dropped, if_neg, numeral.value]
    simp only [Bool.or_eq_true, List.isEmpty_iff, decide_eq_true_eq, not_or, Nat.not_lt]
    exact ⟨numeral.nonempty, numeral.short⟩

theorem numeral_decimal {max n : ℕ} (positive : 0 < max) (bound : n < 10 ^ max) : Numeral max (decimal n) n where
  nonempty := decimal_ne_nil n
  digits _ member := isDigit_of_mem_decimal member
  short := Nat.le_trans (length_le_byteLen _) (byteLen_decimal_le positive bound)
  value := Nat.ofDigitChars_ten_toDigits

theorem ofDigitChars_lt {run : Str} (digits : ∀ c ∈ run, isAsciiDigit c = true) (init : ℕ) :
    Nat.ofDigitChars 10 run init < (init + 1) * 10 ^ run.length := by
  induction run generalizing init with
  | nil => simp
  | cons c run ih =>
    have digit := digits c List.mem_cons_self
    simp only [isAsciiDigit, Bool.and_eq_true, decide_eq_true_eq, UInt32.le_iff_toNat_le] at digit
    have small : c.toNat - '0'.toNat ≤ 9 := by
      simp only [Char.toNat, Char.reduceVal, UInt32.reduceToNat] at digit ⊢
      omega
    have rest := ih (fun d member => digits d (List.mem_cons_of_mem _ member)) (10 * init + (c.toNat - '0'.toNat))
    rw [Nat.ofDigitChars_cons, List.length_cons, Nat.pow_succ]
    calc Nat.ofDigitChars 10 run (10 * init + (c.toNat - '0'.toNat))
        < (10 * init + (c.toNat - '0'.toNat) + 1) * 10 ^ run.length := rest
      _ ≤ (10 * (init + 1)) * 10 ^ run.length := Nat.mul_le_mul_right _ (by omega)
      _ = (init + 1) * (10 ^ run.length * 10) := by rw [Nat.mul_comm 10, Nat.mul_assoc, Nat.mul_comm 10]

theorem Numeral.lt {max n : ℕ} {run : Str} (numeral : Numeral max run n) : n < 10 ^ max := by
  have bound := ofDigitChars_lt numeral.digits 0
  rw [numeral.value, Nat.zero_add, Nat.one_mul] at bound
  exact bound.trans_le (Nat.pow_le_pow_right (by decide) numeral.short)

/-! ## Written locators -/

/-- The text of an optional number. -/
inductive OptionalText (marker : Char) : Option ℕ → Str → Prop where
  | absent : OptionalText marker none []
  | given {run : Str} {n : ℕ} (numeral : Numeral 3 run n) (positive : 0 < n) :
      OptionalText marker (some n) (marker :: run)

/-- At most one space. -/
inductive Gap : Str → Prop where
  | none : Gap []
  | space : Gap [' ']

theorem skipSpace_gap {gap rest : Str} (gapText : Gap gap) (other : ∀ c ∈ rest.head?, c ≠ ' ') :
    skipSpace (gap ++ rest) = rest := by
  cases gapText with
  | none =>
    cases rest with
    | nil => rfl
    | cons c rest => exact if_neg (other c rfl)
  | space => rfl

theorem gap_of_skipSpace (text : Str) : ∃ gap, Gap gap ∧ text = gap ++ skipSpace text := by
  cases text with
  | nil => exact ⟨[], .none, rfl⟩
  | cons c rest =>
    by_cases space : c = ' '
    · subst space
      exact ⟨[' '], .space, rfl⟩
    · exact ⟨[], .none, (if_neg space).symm⟩

theorem optionalNumber_given {marker : Char} {run rest : Str} {n : ℕ} (numeral : Numeral 3 run n) (positive : 0 < n)
    (ends : EndsDigits rest) : optionalNumber marker (marker :: run ++ rest) = (some n, rest) := by
  have read : digits 3 (run ++ rest) = some (n, rest) := (digits_eq_some).mpr ⟨run, numeral, rfl, ends⟩
  simp [optionalNumber, read, positive]

theorem optionalNumber_other {marker : Char} {rest : Str} (other : ∀ c ∈ rest.head?, c ≠ marker) :
    optionalNumber marker rest = (none, rest) := by
  cases rest with
  | nil => rfl
  | cons c rest => exact if_neg (other c rfl)

theorem optionalText_of_optionalNumber {marker : Char} {text rest : Str} {n : Option ℕ}
    (read : optionalNumber marker text = (n, rest)) :
    ∃ written, OptionalText marker n written ∧ text = written ++ rest ∧ (written ≠ [] → EndsDigits rest) := by
  have nothing (same : (none, text) = (n, rest)) :
      ∃ written, OptionalText marker n written ∧ text = written ++ rest ∧ (written ≠ [] → EndsDigits rest) := by
    obtain ⟨rfl, rfl⟩ := Prod.mk.inj same
    exact ⟨[], .absent, rfl, fun nonempty => absurd rfl nonempty⟩
  cases text with
  | nil => exact nothing read
  | cons c text =>
    rw [optionalNumber] at read
    split_ifs at read with marked
    · subst marked
      split at read
      · next value after found =>
        split_ifs at read with positive
        · obtain ⟨rfl, rfl⟩ := Prod.mk.inj read
          obtain ⟨run, numeral, rfl, ends⟩ := (digits_eq_some).mp found
          exact ⟨c :: run, .given numeral positive, rfl, fun _ => ends⟩
        · exact nothing read
      · exact nothing read
    · exact nothing read

/-- A locator as running text has it. -/
inductive Written (a : ArticleNumber) : Str → Prop where
  | mk {first unit : Char} {gap gap' run part branch : Str} (marked : first = '제' ∨ first = '第') (before : Gap gap)
      (number : Numeral 5 run a.number) (positive : 0 < a.number) (parted : OptionalText '-' a.part part)
      (after : Gap gap') (united : unit = '조' ∨ unit = '條') (branched : OptionalText '의' a.branch branch) :
      Written a (first :: (gap ++ (run ++ (part ++ (gap' ++ unit :: branch)))))

/-- What follows a locator does not continue its branch. -/
def Ends (a : ArticleNumber) (rest : Str) : Prop :=
  if a.branch.isSome then EndsDigits rest else optionalNumber '의' rest = (none, rest)

theorem endsDigits_append {written rest : Str} {marker : Char} {n : Option ℕ} (optional : OptionalText marker n written)
    (other : isAsciiDigit marker = false) (ends : EndsDigits rest) : EndsDigits (written ++ rest) := by
  cases optional with
  | absent => exact ends
  | given => exact endsDigits_cons other

theorem endsDigits_unit {gap rest : Str} {unit : Char} (gapText : Gap gap) (united : unit = '조' ∨ unit = '條') :
    EndsDigits (gap ++ unit :: rest) := by
  have other : isAsciiDigit unit = false := by rcases united with rfl | rfl <;> decide
  cases gapText with
  | none => exact endsDigits_cons other
  | space => exact endsDigits_cons (by decide)

theorem skipSpace_unit {gap rest : Str} {unit : Char} (gapText : Gap gap) (united : unit = '조' ∨ unit = '條') :
    skipSpace (gap ++ unit :: rest) = unit :: rest := by
  refine skipSpace_gap gapText ?_
  rintro _ ⟨⟩
  rcases united with rfl | rfl <;> decide

theorem Numeral.head_ne {max n : ℕ} {run rest : Str} {c : Char} (numeral : Numeral max run n)
    (other : isAsciiDigit c = false) : ∀ d ∈ (run ++ rest).head?, d ≠ c := by
  obtain ⟨d, run, rfl⟩ := List.exists_cons_of_ne_nil numeral.nonempty
  rintro _ ⟨⟩ rfl
  rw [numeral.digits _ List.mem_cons_self] at other
  cases other

theorem optionalNumber_part {part gap rest : Str} {unit : Char} {n : Option ℕ} (parted : OptionalText '-' n part)
    (gapText : Gap gap) (united : unit = '조' ∨ unit = '條') :
    optionalNumber '-' (part ++ (gap ++ unit :: rest)) = (n, gap ++ unit :: rest) := by
  cases parted with
  | given numeral positive => exact optionalNumber_given numeral positive (endsDigits_unit gapText united)
  | absent =>
    refine optionalNumber_other ?_
    rcases united with rfl | rfl <;> cases gapText <;> rintro _ ⟨⟩ <;> decide

theorem optionalNumber_branch {a : ArticleNumber} {branch rest : Str} (branched : OptionalText '의' a.branch branch)
    (ends : Ends a rest) : optionalNumber '의' (branch ++ rest) = (a.branch, rest) := by
  obtain ⟨number, part, n⟩ := a
  cases branched with
  | absent => simpa [Ends] using ends
  | given numeral positive => exact optionalNumber_given numeral positive (by simpa [Ends] using ends)

theorem articleAt_of_written {a : ArticleNumber} {text rest : Str} (written : Written a text) (ends : Ends a rest) :
    articleAt (text ++ rest) = some (a, rest) := by
  obtain ⟨marked, before, number, positive, parted, after, united, branched⟩ := written
  rename_i first unit gap gap' run part branch
  have unitRead : articleUnit (unit :: (branch ++ rest)) = some (branch ++ rest) := if_pos united
  have numberRead : digits 5 (run ++ (part ++ (gap' ++ unit :: (branch ++ rest)))) =
      some (a.number, part ++ (gap' ++ unit :: (branch ++ rest))) :=
    (digits_eq_some).mpr ⟨run, number, rfl, endsDigits_append parted (by decide) (endsDigits_unit after united)⟩
  have firstRead : locatorPrefix (first :: (gap ++ (run ++ (part ++ (gap' ++ unit :: (branch ++ rest)))))) =
      some (gap ++ (run ++ (part ++ (gap' ++ unit :: (branch ++ rest))))) := if_pos marked
  simp only [List.cons_append, List.append_assoc, articleAt, firstRead, Option.bind_eq_bind, Option.bind_some,
    skipSpace_gap before (number.head_ne (by decide)), numberRead, optionalNumber_part parted after united,
    skipSpace_unit after united, unitRead, Nat.ne_of_gt positive, if_false, optionalNumber_branch branched ends]

theorem ends_of_optionalNumber {n : Option ℕ} {text rest : Str} (read : optionalNumber '의' text = (n, rest)) :
    ∃ written, OptionalText '의' n written ∧ text = written ++ rest ∧
      ∀ number part, Ends ⟨number, part, n⟩ rest := by
  obtain ⟨written, branched, rfl, ends⟩ := optionalText_of_optionalNumber read
  refine ⟨written, branched, rfl, fun _ _ => ?_⟩
  cases branched with
  | absent => exact read
  | given => exact ends (List.cons_ne_nil _ _)

theorem locatorPrefix_eq_some {text rest : Str} (read : locatorPrefix text = some rest) :
    ∃ first, (first = '제' ∨ first = '第') ∧ text = first :: rest := by
  cases text with
  | nil => cases read
  | cons c text =>
    rw [locatorPrefix] at read
    split_ifs at read with marked
    exact ⟨c, marked, by rw [Option.some.inj read]⟩

theorem articleUnit_eq_some {text rest : Str} (read : articleUnit text = some rest) :
    ∃ unit, (unit = '조' ∨ unit = '條') ∧ text = unit :: rest := by
  cases text with
  | nil => cases read
  | cons c text =>
    rw [articleUnit] at read
    split_ifs at read with united
    exact ⟨c, united, by rw [Option.some.inj read]⟩

/-- A locator is read exactly where one is written. -/
theorem articleAt_eq_some {text rest : Str} {a : ArticleNumber} :
    articleAt text = some (a, rest) ↔ ∃ written, Written a written ∧ text = written ++ rest ∧ Ends a rest := by
  constructor
  · intro read
    simp only [articleAt, Option.bind_eq_bind, Option.bind_eq_some_iff] at read
    obtain ⟨afterFirst, firstRead, ⟨number, afterNumber⟩, numberRead, read⟩ := read
    rcases partRead : optionalNumber '-' afterNumber with ⟨part, afterPart⟩
    simp only [partRead] at read
    obtain ⟨afterUnit, unitRead, read⟩ := read
    rcases branchRead : optionalNumber '의' afterUnit with ⟨branch, afterBranch⟩
    simp only [branchRead] at read
    split_ifs at read with zero
    obtain ⟨rfl, rfl⟩ := Prod.mk.inj (Option.some.inj read)
    obtain ⟨first, marked, rfl⟩ := locatorPrefix_eq_some firstRead
    obtain ⟨gap, before, gapped⟩ := gap_of_skipSpace afterFirst
    obtain ⟨run, numeral, numbered, -⟩ := digits_eq_some.mp numberRead
    obtain ⟨partText, parted, rfl, -⟩ := optionalText_of_optionalNumber partRead
    obtain ⟨gap', after, gapped'⟩ := gap_of_skipSpace afterPart
    obtain ⟨unit, united, unitText⟩ := articleUnit_eq_some unitRead
    obtain ⟨branchText, branched, rfl, ends⟩ := ends_of_optionalNumber branchRead
    refine ⟨first :: (gap ++ (run ++ (partText ++ (gap' ++ unit :: branchText)))),
      .mk marked before numeral (Nat.pos_of_ne_zero zero) parted after united branched, ?_, ends _ _⟩
    rw [gapped, numbered, gapped', unitText]
    simp only [List.cons_append, List.append_assoc]
  · rintro ⟨written, shape, rfl, ends⟩
    exact articleAt_of_written shape ends

/-! ## Arguments -/

/-- No white space, which an argument may hold anywhere. -/
def Solid (text : Str) : Prop := text.filter (!isWhitespace ·) = text

theorem isWhitespace_of_isAsciiDigit {c : Char} (digit : isAsciiDigit c = true) : isWhitespace c = false := by
  simp only [isAsciiDigit, Bool.and_eq_true, decide_eq_true_eq, UInt32.le_iff_toNat_le, Char.reduceVal,
    UInt32.reduceToNat] at digit
  simp only [isWhitespace, Bool.or_eq_false_iff, Bool.and_eq_false_iff, decide_eq_false_iff_not,
    beq_eq_false_iff_ne, UInt32.le_iff_toNat_le, ne_eq, ← UInt32.toNat_inj, UInt32.reduceToNat]
  omega

theorem Numeral.solid {max n : ℕ} {run : Str} (numeral : Numeral max run n) : Solid run := by
  refine List.filter_eq_self.mpr fun c member => ?_
  rw [isWhitespace_of_isAsciiDigit (numeral.digits c member)]
  rfl

theorem solid_cons {c : Char} {rest : Str} (visible : isWhitespace c = false) (solid : Solid rest) : Solid (c :: rest) := by
  rw [Solid, List.filter_cons_of_pos (by simp [visible]), solid]

theorem OptionalText.solid {marker : Char} {n : Option ℕ} {text : Str} (optional : OptionalText marker n text)
    (visible : isWhitespace marker = false) : Solid text := by
  cases optional with
  | absent => rfl
  | given numeral => exact solid_cons visible numeral.solid

/-- The written locator without its gaps. -/
theorem compact_written {first unit : Char} {gap gap' run part branch : Str} {n max : ℕ} {p b : Option ℕ}
    (marked : first = '제' ∨ first = '第') (before : Gap gap) (numeral : Numeral max run n)
    (parted : OptionalText '-' p part) (after : Gap gap') (united : unit = '조' ∨ unit = '條')
    (branched : OptionalText '의' b branch) :
    (first :: (gap ++ (run ++ (part ++ (gap' ++ unit :: branch))))).filter (!isWhitespace ·) =
      first :: (run ++ (part ++ unit :: branch)) := by
  have firstVisible : isWhitespace first = false := by rcases marked with rfl | rfl <;> decide +kernel
  have unitVisible : isWhitespace unit = false := by rcases united with rfl | rfl <;> decide +kernel
  have gapless {gap : Str} (gapText : Gap gap) : gap.filter (!isWhitespace ·) = [] := by cases gapText <;> decide +kernel
  have rear : Solid (unit :: branch) := solid_cons unitVisible (branched.solid (by decide +kernel))
  rw [List.filter_cons_of_pos (by simp [firstVisible])]
  simp only [List.filter_append, gapless before, gapless after, List.nil_append]
  rw [numeral.solid, parted.solid (by decide +kernel), rear]

theorem argumentPart_written {p : Option ℕ} {part rest : Str} {unit : Char} (parted : OptionalText '-' p part)
    (united : unit = '조' ∨ unit = '條') : argumentPart (part ++ unit :: rest) = some (p, unit :: rest) := by
  cases parted with
  | absent => rcases united with rfl | rfl <;> rfl
  | given numeral positive =>
    rename_i run n
    have read : digits 3 (run ++ unit :: rest) = some (n, unit :: rest) :=
      digits_eq_some.mpr ⟨run, numeral, rfl, endsDigits_unit .none united⟩
    simp [argumentPart, read, Nat.ne_of_gt positive]

theorem argumentBranch_written {b : Option ℕ} {branch : Str} (branched : OptionalText '의' b branch) :
    argumentBranch branch = some b := by
  cases branched with
  | absent => rfl
  | given numeral positive =>
    rename_i run n
    have read : digits 3 run = some (n, []) := digits_eq_some.mpr ⟨run, numeral, (List.append_nil _).symm, endsDigits_nil⟩
    simp [argumentBranch, read, Nat.ne_of_gt positive]

/-- An argument may be any written locator. -/
theorem parseArticleNumber_of_written {a : ArticleNumber} {text : Str} (written : Written a text) :
    parseArticleNumber text = some a := by
  obtain ⟨marked, before, number, positive, parted, after, united, branched⟩ := written
  rename_i first unit gap gap' run part branch
  have numberRead : digits 5 (run ++ (part ++ unit :: branch)) = some (a.number, part ++ unit :: branch) :=
    digits_eq_some.mpr ⟨run, number, rfl, endsDigits_append parted (by decide) (endsDigits_unit .none united)⟩
  have firstRead : stripEither '제' '第' (first :: (run ++ (part ++ unit :: branch))) = run ++ (part ++ unit :: branch) :=
    if_pos marked
  have unitRead : stripEither '조' '條' (unit :: branch) = branch := if_pos united
  simp only [parseArticleNumber, compact_written marked before number parted after united branched, firstRead, numberRead,
    Option.bind_eq_bind, Option.bind_some, argumentPart_written parted united, unitRead, argumentBranch_written branched,
    if_pos positive]

/-! ## Round trips -/

/-- The numbers a displayed locator may hold. -/
structure ArticleNumber.InRange (a : ArticleNumber) : Prop where
  number : 1 ≤ a.number ∧ a.number ≤ 99999
  part : ∀ part ∈ a.part, 1 ≤ part ∧ part ≤ 999
  branch : ∀ branch ∈ a.branch, 1 ≤ branch ∧ branch ≤ 999

theorem optionalText_decimal {marker : Char} {n : Option ℕ} (range : ∀ value ∈ n, 1 ≤ value ∧ value ≤ 999) :
    OptionalText marker n (n.elim [] fun value => marker :: decimal value) := by
  cases n with
  | none => exact .absent
  | some n =>
    obtain ⟨positive, small⟩ := range n rfl
    exact .given (numeral_decimal (by decide) (Nat.lt_succ_of_le small)) positive

theorem written_display {a : ArticleNumber} (range : a.InRange) : Written a a.display :=
  .mk (.inl rfl) .none (numeral_decimal (by decide) (Nat.lt_succ_of_le range.number.2)) range.number.1
    (optionalText_decimal range.part) .none (.inl rfl) (optionalText_decimal range.branch)

theorem written_of_articleAtByte {text : Str} {a : ArticleNumber}
    (read : articleAtByte text 0 = some (a, byteLen text)) : Written a text := by
  simp only [articleAtByte, splitAt_zero, Option.bind_eq_bind, Option.bind_some, Option.bind_eq_some_iff] at read
  obtain ⟨⟨article, rest⟩, found, read⟩ := read
  obtain ⟨rfl, length⟩ := Prod.mk.inj (Option.some.inj read)
  obtain ⟨written, shape, rfl, -⟩ := (articleAt_eq_some).mp found
  have positive : 0 < byteLen written := by
    obtain ⟨⟩ := shape
    exact Nat.add_pos_left (Char.utf8Size_pos _) _
  have empty : rest.length = 0 := by
    have bound := length_le_byteLen rest
    simp only [byteLen_append] at length
    omega
  rw [List.length_eq_zero_iff.mp empty, List.append_nil]
  exact shape

/-- Both readers take back what is displayed, and the reader of arguments accepts every text that the reader of
running text takes as a whole. -/
theorem locators_round_trip :
    (∀ a : ArticleNumber, a.InRange →
      parseArticleNumber a.display = some a ∧ articleAtByte a.display 0 = some (a, byteLen a.display)) ∧
    ∀ (text : Str) (a : ArticleNumber), articleAtByte text 0 = some (a, byteLen text) → parseArticleNumber text = some a := by
  refine ⟨fun a range => ?_, fun text a read => parseArticleNumber_of_written (written_of_articleAtByte read)⟩
  have written := written_display range
  have ends : Ends a [] := by
    rw [Ends]
    split
    · exact endsDigits_nil
    · rfl
  have read : articleAt a.display = some (a, []) := articleAt_eq_some.mpr ⟨_, written, (List.append_nil _).symm, ends⟩
  refine ⟨parseArticleNumber_of_written written, ?_⟩
  simp [articleAtByte, read]

theorem locators_round_trip_branch :
    (parseArticleNumber (ArticleNumber.display ⟨44, some 2, some 3⟩) = some ⟨44, some 2, some 3⟩ ∧
      articleAtByte (ArticleNumber.display ⟨44, some 2, some 3⟩) 0 =
        some (⟨44, some 2, some 3⟩, byteLen (ArticleNumber.display ⟨44, some 2, some 3⟩))) ∧
      parseArticleNumber "第 9 條의2".toList = some ⟨9, none, some 2⟩ := by
  have range : ArticleNumber.InRange ⟨44, some 2, some 3⟩ := ⟨by decide, by simp, by simp⟩
  have read : articleAtByte "第 9 條의2".toList 0 = some (⟨9, none, some 2⟩, byteLen "第 9 條의2".toList) := by decide +kernel
  exact ⟨locators_round_trip.1 _ range, locators_round_trip.2 _ _ read⟩

end OpenLegal.Legal
