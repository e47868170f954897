import OpenLegal.Legal.Extraction
import OpenLegal.Legal.LinePattern
import OpenLegal.Rust.Occurrence
import Mathlib.Algebra.Group.Nat.Even

/-! # Searching for a case number

The corpus is searched with a pattern for lines that hold a case number, and every line that comes back is checked
again. The pattern looks at every place; the check at occurrences that do not overlap.
-/

namespace OpenLegal.Legal

open Rust Rust.Str Theory Pattern

def casePattern (number : Str) : Str :=
  "(?:.*[^0-9])?".toList ++ (number.flatMap pushEscaped ++ "(?:[^0-9].*)?".toList)

def containsCaseNumber (line number : Str) : Bool :=
  (matchIndices number 0 [] line).any fun (before, after) =>
    !before.getLast?.any isAsciiDigit && !after.head?.any isAsciiDigit

/-- The number stands between `before` and `after`, and no digit continues it. -/
structure AloneAt (line number before after : Str) : Prop where
  whole : line = before ++ (number ++ after)
  first : ∀ c ∈ before.getLast?, isAsciiDigit c = false
  last : ∀ c ∈ after.head?, isAsciiDigit c = false

/-- The number stands in the line, and no digit continues it. -/
def StandsAlone (line number : Str) : Prop := ∃ before after, AloneAt line number before after

def Occurs (line number : Str) (place : ℕ) : Prop := number <+: line.drop place

/-- Occurrences of a number, each of which begins inside the one before it: the place of an occurrence in the line and its
index in its chain. The first one of a chain begins inside no other occurrence. -/
inductive Chained (line number : Str) : ℕ → ℕ → Prop where
  | first {place : ℕ} (occurs : Occurs line number place)
      (apart : ∀ earlier, Occurs line number earlier → earlier < place → earlier + number.length ≤ place) :
      Chained line number place 0
  | next {earlier place index : ℕ} (occurs : Occurs line number place) (chained : Chained line number earlier index)
      (behind : earlier < place) (inside : place < earlier + number.length) : Chained line number place (index + 1)

/-- The number stands alone at an occurrence with an even index in its chain. -/
def AloneInTurn (line number : Str) : Prop := ∃ before after index, AloneAt line number before after ∧
  Chained line number before.length index ∧ Even index

/-! ## The pattern -/

theorem reads_casePattern (number : Str) : Reads (casePattern number)
    ([(Regex.sequence [.star dot, noDigit]).optional] ++
      (number.map literal ++ [(Regex.sequence [noDigit, .star dot]).optional])) := by
  have first := (readsItem_group (reads_dotStar.append readsItem_noDigit.reads)).optional
  have last := (readsItem_group (readsItem_noDigit.reads.append reads_dotStar)).optional
  exact first.append ((reads_escaped number).append last)

theorem mem_before {word : Str} (line : '\n' ∉ word) : word ∈ (Regex.sequence [.star dot, noDigit]).optional.language ↔
    ∀ c ∈ word.getLast?, isAsciiDigit c = false := by
  rw [Regex.mem_optional, Regex.mem_sequence_cons]
  constructor
  · rintro (⟨u, -, v, inner, rfl⟩ | rfl)
    · obtain ⟨w, single, rest, empty, rfl⟩ := Regex.mem_sequence_cons.mp inner
      obtain ⟨d, other, rfl⟩ := mem_noDigit.mp single
      rw [Regex.mem_sequence_nil.mp empty, List.append_nil]
      intro c last
      rw [List.getLast?_concat] at last
      exact Option.some.inj last ▸ other
    · intro c impossible
      cases impossible
  · intro other
    rcases List.eq_nil_or_concat word with rfl | ⟨front, last, rfl⟩
    · exact .inr rfl
    · refine .inl ⟨front, mem_dotStar.mpr fun member => line (by simp [member]), [last], ?_, by simp⟩
      refine Regex.mem_sequence_cons.mpr ⟨[last], mem_noDigit.mpr ⟨last, other last (by simp), rfl⟩, [], rfl, rfl⟩

/-- The pattern finds the number wherever it stands alone. -/
theorem casePattern_iff (engine : PatternEngine) {line : Str} (single : '\n' ∉ line) (number : Str) :
    engine.wholeLine (casePattern number) line = true ↔ StandsAlone line number := by
  rw [engine.documented (reads_casePattern number).parse single, List.singleton_append, Regex.mem_sequence_cons]
  constructor
  · rintro ⟨before, first, rest, inner, rfl⟩
    obtain ⟨after, last, rfl⟩ := mem_literals.mp inner
    obtain ⟨after', behind, tail, empty, rfl⟩ := Regex.mem_sequence_cons.mp last
    rw [Regex.mem_sequence_nil.mp empty, List.append_nil] at single ⊢
    simp only [List.mem_append, not_or] at single
    exact ⟨before, after', ⟨rfl, (mem_before single.1).mp first, (mem_behind single.2.2).mp behind⟩⟩
  · rintro ⟨before, after, rfl, first, last⟩
    simp only [List.mem_append, not_or] at single
    refine ⟨before, (mem_before single.1).mpr first, number ++ after, mem_literals.mpr ⟨after, ?_, rfl⟩, rfl⟩
    exact Regex.mem_sequence_cons.mpr ⟨after, (mem_behind single.2.2).mpr last, [], rfl, List.append_nil after⟩

/-! ## The check -/

/-- A case number and its parts. -/
structure CaseParts (number year kind serial : Str) : Prop where
  whole : number = year ++ (kind ++ serial)
  year : year ≠ [] ∧ ∀ c ∈ year, isAsciiDigit c = true
  kind : kind ≠ [] ∧ ∀ c ∈ kind, isAsciiDigit c = false ∧ c ≠ '\n'
  serial : serial ≠ [] ∧ ∀ c ∈ serial, isAsciiDigit c = true

theorem caseTypes_plain : caseTypes.all (fun kind => !kind.isEmpty && kind.all fun c => !isAsciiDigit c && c != '\n') = true := by
  decide +kernel

/-- Every number that the case grammar accepts has these parts. -/
theorem caseParts_of_caseAt {unicode : Unicode} {front rest behind : Str} {case : ExtractedCase}
    (read : caseAt unicode front rest = some (case, behind)) :
    ∃ year kind serial, CaseParts case.caseNumber year kind serial := by
  rw [caseAt] at read
  split at read
  · cases read
  simp only [Option.bind_eq_bind, Option.bind_eq_some_iff] at read
  obtain ⟨⟨value, afterYear⟩, first, read⟩ := read
  split at read
  · cases read
  split at read
  · cases read
  next known =>
    obtain ⟨⟨number, after⟩, second, read⟩ := Option.bind_eq_some_iff.mp read
    split_ifs at read
    obtain ⟨rfl, rfl⟩ := Prod.mk.inj (Option.some.inj read)
    obtain ⟨year, yearDigits, rfl, -⟩ := digits_eq_some.mp first
    obtain ⟨serial, serialDigits, dropped, -⟩ := digits_eq_some.mp second
    have begins : (afterYear.take 3).takeWhile isHangulSyllable <+: afterYear :=
      (List.takeWhile_prefix _).trans (List.take_prefix 3 afterYear)
    have kind : caseTypes.contains ((afterYear.take 3).takeWhile isHangulSyllable) = true := by simpa using known
    have plain := List.all_eq_true.mp caseTypes_plain _ (List.contains_iff_mem.mp kind)
    simp only [Bool.and_eq_true, Bool.not_eq_true', List.isEmpty_eq_false_iff, List.all_eq_true, bne_iff_ne] at plain
    refine ⟨year, _, serial, ?_, ⟨yearDigits.nonempty, yearDigits.digits⟩, plain, serialDigits.nonempty,
      serialDigits.digits⟩
    have whole : year ++ afterYear = year ++ ((afterYear.take 3).takeWhile isHangulSyllable ++ serial) ++ after := by
      conv_lhs => rw [← List.take_append_drop ((afterYear.take 3).takeWhile isHangulSyllable).length afterYear, dropped]
      rw [← List.prefix_iff_eq_take.mp begins]
      simp only [List.append_assoc]
    dsimp only
    rw [whole, List.length_append, Nat.add_sub_cancel, List.take_left]

theorem alone_iff {before after : Str} : (!before.getLast?.any isAsciiDigit && !after.head?.any isAsciiDigit) = true ↔
    (∀ c ∈ before.getLast?, isAsciiDigit c = false) ∧ ∀ c ∈ after.head?, isAsciiDigit c = false := by
  cases before.getLast? <;> cases after.head? <;> simp

/-- Whatever the check accepts stands alone. -/
theorem contains_iff {line number : Str} : containsCaseNumber line number = true ↔
    ∃ before after, AloneAt line number before after ∧ (before, after) ∈ matchIndices number 0 [] line := by
  constructor
  · intro found
    obtain ⟨⟨before, after⟩, member, alone⟩ := List.any_eq_true.mp found
    obtain ⟨first, last⟩ := (alone_iff).mp alone
    exact ⟨before, after, ⟨matchIndices_sound member, first, last⟩, member⟩
  · rintro ⟨before, after, alone, member⟩
    exact List.any_eq_true.mpr ⟨_, member, (alone_iff).mpr ⟨alone.first, alone.last⟩⟩

theorem standsAlone_of_contains {line number : Str} (found : containsCaseNumber line number = true) : StandsAlone line number := by
  obtain ⟨before, after, alone, -⟩ := (contains_iff).mp found
  exact ⟨before, after, alone⟩

/-! ## Chains of occurrences -/

section Chains

variable {line number : Str} {place index : ℕ}

theorem occurs_length {before after : Str} (whole : line = before ++ (number ++ after)) : Occurs line number before.length := by
  rw [Occurs, whole, List.drop_left]
  exact List.prefix_append number after

theorem Occurs.split (occurs : Occurs line number place) (nonempty : number ≠ []) :
    ∃ before after, line = before ++ (number ++ after) ∧ before.length = place := by
  obtain ⟨after, behind⟩ := occurs
  refine ⟨line.take place, after, by rw [behind, List.take_append_drop], List.length_take_of_le ?_⟩
  by_contra far
  rw [List.drop_eq_nil_of_le (by omega)] at behind
  exact nonempty (List.append_eq_nil_iff.mp behind).1

theorem Occurs.getElem? (occurs : Occurs line number place) {i : ℕ} (inside : i < number.length) :
    (line.drop place)[i]? = number[i]? := by
  obtain ⟨after, behind⟩ := occurs
  rw [← behind, List.getElem?_append_left inside]

theorem Chained.occurs (chained : Chained line number place index) : Occurs line number place := by
  cases chained with
  | first occurs apart => exact occurs
  | next occurs chained behind inside => exact occurs

/-- Every occurrence is in a chain. -/
theorem exists_chained (occurs : Occurs line number place) : ∃ index, Chained line number place index := by
  induction place using Nat.strong_induction_on with
  | _ place ih =>
    by_cases apart : ∀ earlier, Occurs line number earlier → earlier < place → earlier + number.length ≤ place
    · exact ⟨0, .first occurs apart⟩
    · push Not at apart
      obtain ⟨earlier, here, behind, inside⟩ := apart
      obtain ⟨index, chained⟩ := ih earlier behind here
      exact ⟨index + 1, .next occurs chained behind inside⟩

/-- What the search finds begins inside nothing else that it finds. -/
theorem found_apart {front rear front' rear' : Str} (first : (front, rear) ∈ matchIndices number 0 [] line)
    (second : (front', rear') ∈ matchIndices number 0 [] line) (behind : front.length < front'.length) :
    front.length + number.length ≤ front'.length := by
  obtain ⟨i, early, here⟩ := List.getElem_of_mem first
  obtain ⟨j, late, there⟩ := List.getElem_of_mem second
  have apart := List.pairwise_iff_getElem.mp (@matchIndices_apart number 0 [] line)
  rcases Nat.lt_trichotomy i j with before | rfl | after
  · simpa [here, there] using apart i j early late before
  · rw [here, Prod.mk.injEq] at there
    rw [there.1] at behind
    omega
  · have := apart j i late early after
    rw [here, there] at this
    dsimp only at this
    omega

/-- An occurrence is found, or begins inside one that is found. -/
theorem found_or_inside (nonempty : number ≠ []) {before after : Str} (whole : line = before ++ (number ++ after)) :
    (before, after) ∈ matchIndices number 0 [] line ∨ ∃ front rear, (front, rear) ∈ matchIndices number 0 [] line ∧
      front.length < before.length ∧ before.length < front.length + number.length := by
  subst whole
  rcases @matchIndices_complete _ nonempty 0 [] before after (Nat.zero_le _) with here | ⟨front, lead, rear, here, rfl, proper, short⟩
  · exact .inl here
  · refine .inr ⟨front, rear, here, ?_, ?_⟩
    · rw [List.length_append]
      exact Nat.lt_add_of_pos_right (List.length_pos_iff.mpr proper)
    · rw [List.length_append]
      exact Nat.add_lt_add_left short _

end Chains

section Parts

variable {line number year kind serial : Str} (parts : CaseParts number year kind serial)
include parts

theorem CaseParts.nonempty : number ≠ [] := by simp [parts.whole, parts.year.1]

theorem CaseParts.length : number.length = year.length + (kind.length + serial.length) := by simp [parts.whole]

/-- Where the digits of a number are. -/
theorem CaseParts.digit_iff {i : ℕ} (inside : i < number.length) :
    ∃ c, number[i]? = some c ∧ (isAsciiDigit c = true ↔ i < year.length ∨ year.length + kind.length ≤ i) := by
  have whole := parts.whole
  subst whole
  refine ⟨_, List.getElem?_eq_getElem inside, ?_⟩
  rw [List.getElem_append]
  split_ifs with early
  · simp [early, parts.year.2 _ (List.getElem_mem early)]
  · rw [List.getElem_append]
    split_ifs with middle
    · rw [(parts.kind.2 _ (List.getElem_mem middle)).1]
      simp only [Bool.false_eq_true, false_iff, not_or]
      omega
    · rw [parts.serial.2 _ (List.getElem_mem _)]
      simp only [true_iff]
      omega

/-- An occurrence begins inside another one only in its serial number, and its year is not inside it. -/
theorem CaseParts.inside {earlier place : ℕ} (first : Occurs line number earlier) (second : Occurs line number place)
    (behind : earlier < place) (overlaps : place < earlier + number.length) :
    earlier + (year.length + kind.length) ≤ place ∧ earlier + number.length ≤ place + year.length := by
  obtain ⟨d, rfl⟩ : ∃ d, place = earlier + d := ⟨place - earlier, by omega⟩
  -- both occurrences read the same characters
  have alike (i : ℕ) (within : d + i < number.length) :
      (d + i < year.length ∨ year.length + kind.length ≤ d + i) ↔ (i < year.length ∨ year.length + kind.length ≤ i) := by
    obtain ⟨c, here, digit⟩ := parts.digit_iff within
    obtain ⟨c', there, digit'⟩ := @CaseParts.digit_iff _ _ _ _ parts i (by omega)
    have same : number[d + i]? = number[i]? := by
      rw [← first.getElem? within, ← @Occurs.getElem? _ _ _ second i (by omega), ← List.getElem?_drop, List.drop_drop]
    rw [here, there, Option.some.injEq] at same
    rw [← digit, ← digit', same]
  have years := List.length_pos_iff.mpr parts.year.1
  have kinds := List.length_pos_iff.mpr parts.kind.1
  have length := parts.length
  have apart : year.length + kind.length ≤ d := by
    have start := (alike 0 (by omega)).mpr (.inl years)
    by_contra early
    have inYear : d < year.length := by omega
    have ended := (alike (year.length - d) (by omega)).mpr (.inl (by omega))
    omega
  refine ⟨by omega, ?_⟩
  by_contra late
  have ended := (alike year.length (by omega)).mp (.inr (by omega))
  omega

/-- An occurrence begins inside one other at most. -/
theorem CaseParts.inside_unique {first second place : ℕ} (here : Occurs line number first)
    (there : Occurs line number second) (occurs : Occurs line number place) (before : first < place) (after : second < place)
    (overlaps : place < first + number.length) (overlaps' : place < second + number.length) : first = second := by
  have kinds := List.length_pos_iff.mpr parts.kind.1
  have one := parts.inside here occurs before overlaps
  have other := parts.inside there occurs after overlaps'
  rcases Nat.lt_trichotomy first second with earlier | same | later
  · have := parts.inside here there earlier (by omega)
    omega
  · exact same
  · have := parts.inside there here later (by omega)
    omega

/-- An occurrence that no digit precedes begins inside another one only if the serial number begins the year. -/
theorem CaseParts.begins {before after : Str} {earlier : ℕ} (alone : AloneAt line number before after)
    (first : Occurs line number earlier) (behind : earlier < before.length)
    (overlaps : before.length < earlier + number.length) : serial <+: year := by
  have second := occurs_length alone.whole
  obtain ⟨late, fits⟩ := parts.inside first second behind overlaps
  have length := parts.length
  obtain ⟨i, place⟩ : ∃ i, before.length = earlier + i + 1 := ⟨before.length - 1 - earlier, by omega⟩
  obtain ⟨c, here, digit⟩ := @CaseParts.digit_iff _ _ _ _ parts i (by omega)
  -- the character in front of it is no digit, so it ends the kind
  have last : before.getLast? = some c := by
    rw [List.getLast?_eq_getElem?, place, Nat.add_sub_cancel, ← here, ← @Occurs.getElem? _ _ _ first i (by omega),
      List.getElem?_drop, alone.whole, List.getElem?_append_left (by omega)]
  have exactly : before.length = earlier + (year.length + kind.length) := by
    by_contra further
    have other := alone.first c last
    rw [digit.mpr (.inr (by omega))] at other
    cases other
  have serials : serial <+: line.drop before.length := by
    obtain ⟨rear, same⟩ := first
    have dropped := congrArg (List.drop (year.length + kind.length)) same
    rw [List.drop_drop, ← exactly, parts.whole, ← List.append_assoc, List.append_assoc (year ++ kind),
      List.drop_left' List.length_append] at dropped
    exact ⟨rear, dropped⟩
  have years : year <+: line.drop before.length := (parts.whole ▸ List.prefix_append year _).trans second
  exact List.prefix_of_prefix_length_le serials years (by omega)

/-- The search finds every other occurrence of a chain, beginning with the first one. -/
theorem CaseParts.found_iff {place index : ℕ} (chained : Chained line number place index) {before after : Str}
    (whole : line = before ++ (number ++ after)) (length : before.length = place) :
    (before, after) ∈ matchIndices number 0 [] line ↔ Even index := by
  induction chained generalizing before after with
  | first occurs apart =>
    subst length
    refine iff_of_true ?_ Even.zero
    rcases found_or_inside parts.nonempty whole with here | ⟨front, rear, here, behind, inside⟩
    · exact here
    · have := apart front.length (occurs_length (matchIndices_sound here)) behind
      omega
  | @next earlier place index occurs chained behind inside ih =>
    subst length
    obtain ⟨front, rear, split, rfl⟩ := chained.occurs.split parts.nonempty
    rw [Nat.even_add_one, ← ih split rfl]
    constructor
    · intro here there
      have := found_apart there here behind
      omega
    · intro unseen
      rcases found_or_inside parts.nonempty whole with here | ⟨other, rest, there, behind', inside'⟩
      · exact here
      · -- the one that it begins inside is the one before it in the chain
        have sound := matchIndices_sound there
        rw [List.nil_append] at sound
        have same := parts.inside_unique (occurs_length sound) chained.occurs occurs behind' behind inside' inside
        obtain ⟨rfl, tail⟩ := List.append_inj (sound.symm.trans split) same
        rw [(List.append_cancel_left tail)] at there
        exact absurd there unseen

theorem CaseParts.contains_iff : containsCaseNumber line number = true ↔ AloneInTurn line number := by
  rw [Legal.contains_iff]
  constructor
  · rintro ⟨before, after, alone, found⟩
    obtain ⟨index, chained⟩ := exists_chained (occurs_length alone.whole)
    exact ⟨before, after, index, alone, chained, (parts.found_iff chained alone.whole rfl).mp found⟩
  · rintro ⟨before, after, index, alone, chained, even⟩
    exact ⟨before, after, alone, (parts.found_iff chained alone.whole rfl).mpr even⟩

theorem CaseParts.oneLine : '\n' ∉ '1' :: (year ++ (kind ++ number)) := by
  have digit : isAsciiDigit '\n' = false := rfl
  have first : '\n' ∉ year := fun member => by rw [parts.year.2 _ member] at digit; cases digit
  have middle : '\n' ∉ kind := fun member => (parts.kind.2 _ member).2 rfl
  have last : '\n' ∉ serial := fun member => by rw [parts.serial.2 _ member] at digit; cases digit
  simp [parts.whole, first, middle, last]

/-- A line in which the check misses a number whose serial number begins the year. -/
theorem CaseParts.missed_overlap {more : Str} (begins : year = serial ++ more) :
    containsCaseNumber ('1' :: (year ++ (kind ++ number))) number = false ∧
      StandsAlone ('1' :: (year ++ (kind ++ number))) number := by
  have years := List.length_pos_iff.mpr parts.year.1
  have kinds := List.length_pos_iff.mpr parts.kind.1
  have serials := List.length_pos_iff.mpr parts.serial.1
  have length := parts.length
  constructor
  · have split : year ++ (kind ++ number) = number ++ (more ++ (kind ++ serial)) := by
      rw [parts.whole]
      conv_lhs => rhs; rhs; lhs; rw [begins]
      simp only [List.append_assoc]
    have other : ¬number <+: '1' :: (year ++ (kind ++ number)) := by
      intro here
      have next : Occurs ('1' :: (year ++ (kind ++ number))) number 1 := by
        rw [Occurs, split]
        exact List.prefix_append number _
      have := @CaseParts.inside _ _ _ _ _ parts 0 1 here next (by omega) (by omega)
      omega
    have short : (more ++ (kind ++ serial)).length < number.length := by
      rw [length, begins]
      simp only [List.length_append]
      omega
    rw [containsCaseNumber, matchIndices_other other, split, matchIndices_append parts.nonempty, matchIndices_short short]
    rfl
  · refine ⟨'1' :: (year ++ kind), [], by simp, fun c last => ?_, fun c impossible => by cases impossible⟩
    rw [← List.cons_append, List.getLast?_append_of_ne_nil _ parts.kind.1] at last
    exact (parts.kind.2 c (List.mem_of_getLast? last)).1

/-- The serial number and the year are the runs of digits at the ends of the number. -/
theorem CaseParts.runs : number.takeWhile isAsciiDigit = year ∧ number.rtakeWhile isAsciiDigit = serial := by
  rw [parts.whole]
  constructor
  · obtain ⟨c, tail, rfl⟩ := List.exists_cons_of_ne_nil parts.kind.1
    have other := (parts.kind.2 c List.mem_cons_self).1
    rw [List.takeWhile_append_of_pos parts.year.2, List.cons_append, List.takeWhile_cons_of_neg (by rw [other]; decide),
      List.append_nil]
  · rcases List.eq_nil_or_concat kind with rfl | ⟨front, c, rfl⟩
    · exact absurd rfl parts.kind.1
    · have other := (parts.kind.2 c (by simp)).1
      rw [List.rtakeWhile, List.reverse_append, List.reverse_append, List.append_assoc,
        List.takeWhile_append_of_pos fun d member => parts.serial.2 d (List.mem_reverse.mp member), List.reverse_append]
      simp [other]

/-- The check on one line. -/
theorem CaseParts.agrees_iff (engine : PatternEngine) (single : '\n' ∉ line) :
    ((engine.wholeLine (casePattern number) line = true ↔ containsCaseNumber line number = true) ∧
      (containsCaseNumber line number = true ↔ StandsAlone line number)) ↔
    (StandsAlone line number → AloneInTurn line number) := by
  rw [casePattern_iff engine single, ← parts.contains_iff]
  constructor
  · exact fun agrees => agrees.1.mp
  · intro seen
    have checked : StandsAlone line number ↔ containsCaseNumber line number = true := ⟨seen, standsAlone_of_contains⟩
    exact ⟨checked, checked.symm⟩

/-- The numbers that the check sees in every line in which they stand alone. -/
theorem CaseParts.always_iff : (∀ line, '\n' ∉ line → StandsAlone line number → AloneInTurn line number) ↔
    ¬serial <+: year := by
  constructor
  · rintro always ⟨more, begins⟩
    obtain ⟨missed, alone⟩ := parts.missed_overlap begins.symm
    have found := parts.contains_iff.mpr (always _ parts.oneLine alone)
    rw [missed] at found
    cases found
  · rintro apart line - ⟨before, after, alone⟩
    obtain ⟨index, chained⟩ := exists_chained (occurs_length alone.whole)
    refine ⟨before, after, index, alone, chained, ?_⟩
    cases chained with
    | first occurs free => exact Even.zero
    | next occurs chained behind inside => exact absurd (parts.begins alone chained.occurs behind inside) apart

end Parts

/-- On a line, the pattern of a case number and the check agree, and accept it if the number stands alone in it, exactly if
the number stands alone nowhere or at an even index of a chain of occurrences. On every line they do exactly if the digits
that end the number do not begin its year. -/
theorem case_prefilter_agrees_iff (engine : PatternEngine) {unicode : Unicode} {front rest behind : Str} {case : ExtractedCase}
    (read : caseAt unicode front rest = some (case, behind)) :
    (∀ line, '\n' ∉ line →
      (((engine.wholeLine (casePattern case.caseNumber) line = true ↔ containsCaseNumber line case.caseNumber = true) ∧
          (containsCaseNumber line case.caseNumber = true ↔ StandsAlone line case.caseNumber)) ↔
        (StandsAlone line case.caseNumber → AloneInTurn line case.caseNumber))) ∧
    ((∀ line, '\n' ∉ line → StandsAlone line case.caseNumber → AloneInTurn line case.caseNumber) ↔
      ¬case.caseNumber.rtakeWhile isAsciiDigit <+: case.caseNumber.takeWhile isAsciiDigit) := by
  obtain ⟨year, kind, serial, parts⟩ := caseParts_of_caseAt read
  rw [parts.runs.1, parts.runs.2]
  exact ⟨fun line single => parts.agrees_iff engine single, parts.always_iff⟩

/-- The serial number of `20다20` begins its year, but on this line it overlaps nothing. -/
theorem case_prefilter_agrees_plain :
    (PatternEngine.derivatives.wholeLine (casePattern "20다20".toList) "대법원 20다20 판결".toList = true ↔
      containsCaseNumber "대법원 20다20 판결".toList "20다20".toList = true) ∧
    (containsCaseNumber "대법원 20다20 판결".toList "20다20".toList = true ↔
      StandsAlone "대법원 20다20 판결".toList "20다20".toList) := by
  have agrees := @case_prefilter_agrees_iff .derivatives .korean [] "20다20 판결".toList " 판결".toList
    ⟨0, 7, "20다20".toList⟩ (by decide +kernel)
  refine (agrees.1 _ (by decide +kernel)).mpr fun _ => ?_
  obtain ⟨first, last⟩ := (@alone_iff "대법원 ".toList " 판결".toList).mp (by decide +kernel)
  have alone : AloneAt "대법원 20다20 판결".toList "20다20".toList "대법원 ".toList " 판결".toList :=
    ⟨by decide +kernel, first, last⟩
  have other : ∀ earlier < 4, ¬"20다20".toList <+: "대법원 20다20 판결".toList.drop earlier := by decide +kernel
  exact ⟨_, _, 0, alone, .first (occurs_length alone.whole) (fun earlier occurs behind => absurd occurs (other earlier behind)),
    Even.zero⟩

/-- Behind `120다20` the check resumes after the number that a digit precedes. -/
theorem case_prefilter_disagrees : ¬∀ (unicode : Unicode) (front rest behind : Str) (case : ExtractedCase),
    caseAt unicode front rest = some (case, behind) → ∀ line, '\n' ∉ line →
      (PatternEngine.derivatives.wholeLine (casePattern case.caseNumber) line = true ↔
        containsCaseNumber line case.caseNumber = true) := by
  intro agrees
  have read : caseAt .korean [] "20다20".toList = some (⟨0, 7, "20다20".toList⟩, []) := by decide +kernel
  have missed := agrees .korean [] "20다20".toList [] _ read "120다20다20".toList (by decide +kernel)
  have found : PatternEngine.derivatives.wholeLine (casePattern "20다20".toList) "120다20다20".toList = true := by decide +kernel
  have unseen : containsCaseNumber "120다20다20".toList "20다20".toList = false := by decide +kernel
  rw [missed.mp found] at unseen
  cases unseen

end OpenLegal.Legal
