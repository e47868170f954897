import OpenLegal.Legal.ChosenLaw
import OpenLegal.Legal.ExtractionRuns
import Mathlib.Data.List.Chain

/-! # Inheritance across blank lines

A continued citation stands in the paragraph of the one before: the pass forgets that citation at a blank line. A
reference to the same law is resolved later, from the law of the citation before, wherever that one stands.
-/

namespace OpenLegal.Legal

open Rust Rust.Str Theory

/-! ## Text without a blank line -/

/-- No two newlines in a row. -/
def Unbroken (text : Str) : Prop := text.IsChain fun a b => ¬(a = '\n' ∧ b = '\n')

theorem unbroken_iff {text : Str} : Unbroken text ↔ ∀ front rear, text ≠ front ++ '\n' :: '\n' :: rear := by
  rw [Unbroken, List.isChain_iff_forall_rel_of_append_cons_cons]
  constructor
  · rintro unbroken front rear rfl
    exact unbroken rfl ⟨rfl, rfl⟩
  · rintro unbroken a b front rear rfl ⟨rfl, rfl⟩
    exact unbroken front rear rfl

theorem unbroken_of_line {run : Str} (plain : '\n' ∉ run) : Unbroken run := by
  refine (unbroken_iff).mpr ?_
  rintro front rear rfl
  exact plain (by simp)

theorem unbroken_append {front rear : Str} : Unbroken (front ++ rear) ↔
    Unbroken front ∧ Unbroken rear ∧ ¬(front.getLast? = some '\n' ∧ rear.head? = some '\n') := by
  rw [Unbroken, List.isChain_append, Unbroken, Unbroken]
  refine and_congr_right fun _ => and_congr_right fun _ => ?_
  constructor
  · rintro apart ⟨last, first⟩
    exact apart _ last _ first ⟨rfl, rfl⟩
  · rintro apart x last y first ⟨rfl, rfl⟩
    exact apart ⟨last, first⟩

/-- A run that may be passed without a blank line. -/
inductive Passable (behind : Str) : Str → Prop where
  | line {run : Str} (plain : '\n' ∉ run) : Passable behind run
  | newline (other : behind.head? ≠ some '\n') : Passable behind ['\n']

theorem Unbroken.pass {gap run behind : Str} (unbroken : Unbroken (gap ++ (run ++ behind).take 1))
    (passable : Passable behind run) : Unbroken (gap ++ run ++ behind.take 1) := by
  have single : Unbroken (behind.take 1) := by
    cases behind with
    | nil => exact .nil
    | cons c behind => exact .singleton c
  rw [unbroken_append] at unbroken
  cases passable with
  | line plain =>
    cases run with
    | nil => simpa [unbroken_append] using unbroken
    | cons c run =>
      refine (unbroken_append).mpr ⟨(unbroken_append).mpr ⟨unbroken.1, unbroken_of_line plain, ?_⟩, single, ?_⟩
      · rintro ⟨-, first⟩
        exact plain (List.mem_of_head? first)
      · rintro ⟨last, -⟩
        rw [List.getLast?_append_of_ne_nil _ (List.cons_ne_nil c run)] at last
        exact plain (List.mem_of_getLast? last)
  | newline other =>
    refine (unbroken_append).mpr ⟨(unbroken_append).mpr ?_, single, ?_⟩
    · simpa using unbroken
    · rintro ⟨-, first⟩
      cases behind with
      | nil => cases first
      | cons c behind => exact other first

/-! ## The pass -/

/-- Nothing but a stretch without a blank line lies behind the previous citation. -/
structure Joined (text : Str) (s : Cursor) : Prop where
  split : text = s.front ++ s.rest
  previous : ∀ stop ∈ s.previousEnd, s.out.statutes.getLast?.map ExtractedStatute.byteEnd = some stop ∧
    ∃ before gap, s.front = before ++ gap ∧ byteLen before = stop ∧ Unbroken (gap ++ s.rest.take 1)
  lines : ∀ statute ∈ s.out.statutes, ∃ span, get text statute.articleStart statute.byteEnd = some span ∧ '\n' ∉ span
  continued : s.out.statutes.IsChain fun previous statute =>
    statute.law = .continued → ∃ gap, get text previous.byteEnd statute.articleStart = some gap ∧ Unbroken gap

section Rounds

variable {text : Str} {s : Cursor} (joined : Joined text s)
include joined

theorem Joined.pass {run behind : Str} (consumes : Consumes s.rest run behind) (passable : Passable behind run) :
    Joined text (s.past run behind) where
  split := by
    rw [joined.split, consumes.split]
    simp [Cursor.past]
  previous stop member := by
    obtain ⟨last, before, gap, front, bytes, unbroken⟩ := joined.previous stop member
    rw [consumes.split] at unbroken
    refine ⟨last, before, gap ++ run, ?_, bytes, unbroken.pass passable⟩
    rw [Cursor.past, front, List.append_assoc]
  lines := joined.lines
  continued := joined.continued

theorem Joined.forget {run behind : Str} (consumes : Consumes s.rest run behind) :
    Joined text { s.past run behind with previousEnd := none } where
  split := by
    rw [joined.split, consumes.split]
    simp [Cursor.past]
  previous _ impossible := by cases impossible
  lines := joined.lines
  continued := joined.continued

omit joined in
/-- A continued citation has a stretch of connectors behind the previous one. -/
theorem lawReference_continued {front : Str} {previousEnd : Option ℕ} (read : lawReference front previousEnd = some .continued) :
    ∃ stop before gap, previousEnd = some stop ∧ splitAt front stop = some (before, gap) := by
  cases found : previousEnd.bind (splitAt front) with
  | some cut =>
    obtain ⟨stop, known, cut⟩ := Option.bind_eq_some_iff.mp found
    exact ⟨stop, _, _, known, cut⟩
  | none =>
    -- every other reference names its law
    simp only [lawReference, found] at read
    split at read
    · cases read
    · split at read
      · cases read
      · split at read <;> cases read

theorem Joined.statute {consumed behind : Str} {statute : ExtractedStatute} (consumes : Consumes s.rest consumed behind)
    (plain : '\n' ∉ consumed) (here : StatuteHere s.front s.rest consumed statute)
    (read : lawReference s.front s.previousEnd = some statute.law) :
    Joined text { s.past consumed behind with
      previousEnd := some statute.byteEnd
      out := { s.out with statutes := s.out.statutes ++ [statute] } } where
  split := by
    rw [joined.split, consumes.split]
    simp [Cursor.past]
  previous := by
    rintro stop ⟨⟩
    refine ⟨by simp, s.front ++ consumed, [], by simp [Cursor.past], by rw [here.stop, byteLen_append], ?_⟩
    cases behind with
    | nil => exact .nil
    | cons c behind => exact .singleton c
  lines := by
    refine List.forall_mem_append.mpr ⟨joined.lines, List.forall_mem_singleton.mpr ⟨consumed, ?_, plain⟩⟩
    rw [joined.split, here.start, here.stop]
    exact get_iff.mpr ⟨s.front, behind, by rw [consumes.split], rfl, rfl⟩
  continued := by
    refine List.isChain_append.mpr ⟨joined.continued, .singleton _, fun previous last other same law => ?_⟩
    obtain rfl : statute = other := by simpa using same
    rw [law] at read
    obtain ⟨stop, before, gap, known, cut⟩ := lawReference_continued read
    obtain ⟨final, before', gap', front, bytes, unbroken⟩ := joined.previous stop known
    rw [Option.mem_def.mp last, Option.map_some, Option.some.injEq] at final
    have cut' : splitAt s.front stop = some (before', gap') := splitAt_iff.mpr ⟨front, bytes⟩
    obtain ⟨rfl, rfl⟩ := Prod.mk.inj (Option.some.inj (cut.symm.trans cut'))
    refine ⟨gap, ?_, (unbroken_append.mp unbroken).1⟩
    rw [joined.split, final, here.start]
    refine get_iff.mpr ⟨before, s.rest, by rw [front, List.append_assoc], bytes, ?_⟩
    rw [front, byteLen_append, bytes]

variable (unicode : Unicode) (caps : Caps)

theorem Joined.step {s' : Cursor} (step : extractStep unicode caps s = some s') : Joined text s' := by
  rw [extractStep] at step
  split at step
  · cases step
  · next c tail rest =>
    have one : Consumes s.rest [c] tail := ⟨rest, List.cons_ne_nil _ _⟩
    have passes (passable : Passable tail [c]) : Joined text (s.resume tail) :=
      Cursor.resume_eq one ▸ joined.pass one passable
    have line (other : c ≠ '\n') : Passable tail [c] := .line (by simpa using other.symm)
    split_ifs at step with marked digit blank
    · have other : c ≠ '\n' := by rcases marked with rfl | rfl <;> decide
      split at step
      · next statute behind read =>
        obtain ⟨consumed, consumes, plain, here⟩ := statuteAt_eq_some read
        obtain ⟨here, law⟩ := here statute rfl
        rw [← Option.some.inj step, keepStatute, Cursor.resume_eq consumes]
        split_ifs
        · have moved := passes (line other)
          exact ⟨moved.split, moved.previous, moved.lines, moved.continued⟩
        · exact joined.statute consumes plain here law
      · next behind read =>
        obtain ⟨consumed, consumes, -, -⟩ := statuteAt_eq_some read
        rw [← Option.some.inj step, Cursor.resume_eq consumes]
        exact joined.forget consumes
      · exact Option.some.inj step ▸ passes (line other)
    · have other : c ≠ '\n' := by
        rintro rfl
        revert digit
        decide
      split at step
      · next case behind read =>
        obtain ⟨consumed, consumes, plain, -⟩ := caseAt_eq_some unicode read
        have moved := joined.pass consumes (.line plain)
        rw [← Option.some.inj step, keepCase, Cursor.resume_eq consumes]
        split_ifs
        · exact moved
        · exact ⟨moved.split, moved.previous, moved.lines, moved.continued⟩
        · exact ⟨moved.split, moved.previous, moved.lines, moved.continued⟩
      · exact Option.some.inj step ▸ passes (line other)
    · rw [← Option.some.inj step, Cursor.resume_eq one]
      exact joined.forget one
    · refine Option.some.inj step ▸ passes ?_
      by_cases newline : c = '\n'
      · subst newline
        exact .newline fun same => blank ⟨rfl, same⟩
      · exact line newline

omit joined in
theorem joined_extract {s : Cursor} (joined : Joined text s) : Joined text (extract unicode caps s) := by
  induction s using extract.induct unicode caps with
  | case1 s stops => rwa [extract_of_none unicode caps stops]
  | case2 s s' step ih =>
    rw [extract_of_some unicode caps step]
    exact ih (joined.step unicode caps step)

end Rounds

/-! ## The nearest name -/

/-- The candidates of a citation that names its law, and whether they end with a generic word. -/
def LawReference.named? : LawReference → Option (List (Str × ℕ) × Bool)
  | .named candidates genericTail => some (candidates, genericTail)
  | _ => none

/-- The last citation that names its law. -/
def nearestName (citations : List ExtractedStatute) : Option (List (Str × ℕ) × Bool) :=
  (citations.filterMap (·.law.named?)).getLast?

/-- No citation names its law, or the last that does has a generic name which no title has. -/
def NothingToInherit (held : Str → Bool) (citations : List ExtractedStatute) : Prop :=
  ∀ named ∈ nearestName citations, named.2 = true ∧ ∀ candidate ∈ named.1, held (resolvedKey candidate.1) = false

section Chosen

variable {held : Str → Bool} {lookedUp : List Str} {citations : List ExtractedStatute}

theorem namedLaw_unresolved (candidates : List (Str × ℕ)) (genericTail : Bool) (articleStart : ℕ) :
    (namedLaw held candidates genericTail articleStart).unresolved = true ↔
      genericTail = true ∧ ∀ candidate ∈ candidates, held (resolvedKey candidate.1) = false := by
  rw [namedLaw]
  split
  · next name start found =>
    have titled := List.find?_some found
    change held (resolvedKey name) = true at titled
    simp only [Bool.false_eq_true, false_iff, not_and]
    intro _ none
    rw [none _ (List.mem_of_find?_eq_some found)] at titled
    cases titled
  · next missing =>
    have none : ∀ candidate ∈ candidates, held (resolvedKey candidate.1) = false := by
      simpa using List.find?_eq_none.mp missing
    exact ⟨fun generic => ⟨generic, none⟩, fun open' => open'.1⟩

theorem nearestName_take_succ {k : ℕ} {citation : ExtractedStatute} (here : citations[k]? = some citation) :
    nearestName (citations.take (k + 1)) = citation.law.named?.or (nearestName (citations.take k)) := by
  rw [nearestName, List.take_add_one, here, List.filterMap_append, nearestName]
  cases named : citation.law.named? <;> simp [named]

/-- One choice leaves a law open if its own name does, or else if the law in hand is open. -/
theorem chooseLaw_unresolved {last : Option ChosenLaw} (before : ∀ other ∈ last, other.Resolved) (citation : ExtractedStatute) :
    (chooseLaw held lookedUp last citation).1.unresolved = true ↔
      (∀ named ∈ citation.law.named?, named.2 = true ∧ ∀ candidate ∈ named.1, held (resolvedKey candidate.1) = false) ∧
        (citation.law.named? = none → ∀ other ∈ last, other.unresolved = true) := by
  have inherits := @inherits_chooseLaw held lookedUp last before citation
  cases refers : citation.law with
  | named candidates genericTail =>
    simp only [chooseLaw, refers, LawReference.named?, Option.mem_some_iff, forall_eq', reduceCtorEq, false_imp_iff, and_true]
    exact namedLaw_unresolved candidates genericTail citation.articleStart
  | same suffix start =>
    rw [refers] at inherits
    simpa [LawReference.named?] using inherits.2.1
  | continued =>
    rw [refers] at inherits
    simpa [LawReference.named?] using inherits.2.1

/-- A reference to a law that is absent is absent, and so is one to an open law that it does not continue. -/
theorem chooseLaw_absent {last : Option ChosenLaw} {citation : ExtractedStatute} (unnamed : citation.law.named? = none)
    (hand : citation.law = .continued → ∀ other ∈ last, other.unresolved = true → ∃ start, other = .absent start)
    (unresolved : (chooseLaw held lookedUp last citation).1.unresolved = true) :
    ∃ start, (chooseLaw held lookedUp last citation).1 = .absent start := by
  cases refers : citation.law with
  | named candidates genericTail =>
    rw [refers] at unnamed
    cases unnamed
  | same suffix start =>
    cases kept : last.filter (!·.unresolved) with
    | none => exact ⟨start, by simp only [chooseLaw, refers, kept]⟩
    | some previous => simp [chooseLaw, refers, kept] at unresolved
  | continued =>
    cases last with
    | none => exact ⟨citation.articleStart, by simp only [chooseLaw, refers]⟩
    | some previous =>
      simp only [chooseLaw, refers] at unresolved ⊢
      obtain ⟨start, rfl⟩ := hand refers previous rfl unresolved
      exact ⟨citation.articleStart, rfl⟩

/-- What is in hand lacks a law exactly if there is none to inherit. -/
theorem inHand_unresolved {k : ℕ} (inside : k ≤ citations.length) :
    (∀ other ∈ Carried.inHand none (chooseLaws held lookedUp citations).1 k, other.unresolved = true) ↔
      NothingToInherit held (citations.take k) := by
  induction k with
  | zero => simp [Carried.inHand, NothingToInherit, nearestName]
  | succ k ih =>
    have here := List.getElem?_eq_getElem inside
    rw [Carried.inHand, getElem?_chooseLaws, here, Option.map_some]
    simp only [Option.mem_some_iff, forall_eq']
    rw [chooseLaw_unresolved (inHand_resolved k), NothingToInherit, nearestName_take_succ here]
    cases named : citations[k].law.named? with
    | none => simpa [NothingToInherit] using ih (Nat.le_of_succ_le inside)
    | some named => simp

end Chosen

/-! ## Behind a blank line -/

/-- A blank line lies before or behind a text without newlines. -/
theorem blank_outside {text span : Str} {start stop p : ℕ} (blank : get text p (p + 2) = some ['\n', '\n'])
    (cut : get text start stop = some span) (plain : '\n' ∉ span) (forward : start < stop) : stop ≤ p ∨ p + 2 ≤ start := by
  obtain ⟨front, rear, split, rfl, -⟩ := get_iff.mp blank
  obtain ⟨before, behind, split', rfl, bytes⟩ := get_iff.mp cut
  have nonempty : span ≠ [] := by
    rintro rfl
    rw [byteLen_nil] at bytes
    omega
  obtain ⟨c, rest, rfl⟩ := List.exists_cons_of_ne_nil nonempty
  have other : c ≠ '\n' := fun same => plain (same ▸ List.mem_cons_self)
  rw [split] at split'
  rcases List.append_eq_append_iff.mp split' with ⟨gap, rfl, same⟩ | ⟨gap, rfl, same⟩
  · -- the text begins behind the first newline, or behind both
    right
    match gap, same with
    | [], same => exact absurd (List.cons.inj same).1.symm other
    | [_], same => exact absurd (List.cons.inj (List.cons.inj same).2).1.symm other
    | d :: e :: gap, _ =>
      have first := d.utf8Size_pos
      have second := e.utf8Size_pos
      simp only [byteLen_append, byteLen_cons]
      omega
  · left
    rcases List.append_eq_append_iff.mp same with ⟨more, rfl, -⟩ | ⟨more, inside, same⟩
    · simp only [byteLen_append] at bytes ⊢
      omega
    · cases more with
      | nil =>
        rw [List.append_nil] at inside
        rw [byteLen_append, ← inside]
        omega
      | cons d more =>
        have newline := (List.cons.inj same).1
        exact absurd (inside ▸ List.mem_append_right gap (newline ▸ List.mem_cons_self)) plain

/-- A stretch around a blank line is broken. -/
theorem not_unbroken_of_blank {text gap : Str} {start stop p : ℕ} (blank : get text p (p + 2) = some ['\n', '\n'])
    (cut : get text start stop = some gap) (before : start ≤ p) (after : p + 2 ≤ stop) : ¬Unbroken gap := by
  obtain ⟨front, rear, split, begins, ends⟩ := get_iff.mp cut
  have opens : isCharBoundary text start = true := isCharBoundary_iff.mpr ⟨front, gap ++ rear, split, begins⟩
  have closes : isCharBoundary text stop = true := by
    refine isCharBoundary_iff.mpr ⟨front ++ gap, rear, by rw [split, List.append_assoc], ?_⟩
    rw [byteLen_append, begins, ends]
  obtain ⟨wide, cut', -, lead, tail, inside⟩ := get_around blank opens closes before after
  obtain rfl := Option.some.inj (cut.symm.trans cut')
  intro unbroken
  exact unbroken_iff.mp unbroken lead tail (by rw [← inside]; simp)

theorem joined_extractCitations (unicode : Unicode) (text : Str) :
    Joined text (extract unicode citationCaps ⟨[], text, none, [], ⟨[], [], false⟩⟩) :=
  joined_extract unicode citationCaps ⟨rfl, by simp, by simp, .nil⟩

section Blank

variable (unicode : Unicode) {held : Str → Bool} {lookedUp : List Str} {text : Str} {p : ℕ}
  (blank : get text p (p + 2) = some ['\n', '\n'])
include blank

theorem blank_outside_citation {citation : ExtractedStatute} (member : citation ∈ (extractCitations unicode text).statutes) :
    citation.byteEnd ≤ p ∨ p + 2 ≤ citation.articleStart := by
  have joined := joined_extractCitations unicode text
  obtain ⟨span, cut, plain⟩ := joined.lines citation member
  exact blank_outside blank cut plain ((extractWith_sound unicode citationCaps text).statutes citation member).forward

/-- The first citation behind a blank line continues none before it. -/
theorem continued_behind_blank {k : ℕ} {previous citation : ExtractedStatute}
    (before : (extractCitations unicode text).statutes[k]? = some previous)
    (here : (extractCitations unicode text).statutes[k + 1]? = some citation) (continues : citation.law = .continued)
    (after : p ≤ citation.articleStart) : p + 2 ≤ previous.articleStart := by
  have joined := joined_extractCitations unicode text
  obtain ⟨inside, rfl⟩ := List.getElem?_eq_some_iff.mp here
  obtain ⟨inside', rfl⟩ := List.getElem?_eq_some_iff.mp before
  obtain ⟨gap, cut, unbroken⟩ := List.isChain_iff_getElem.mp joined.continued k inside continues
  have forward := ((extractWith_sound unicode citationCaps text).statutes _ (List.getElem_mem inside)).forward
  have apart := blank_outside_citation unicode blank (List.getElem_mem inside)
  refine (blank_outside_citation unicode blank (List.getElem_mem inside')).resolve_left fun passed => ?_
  refine not_unbroken_of_blank blank cut passed ?_ unbroken
  exact apart.resolve_left fun passed => by omega

/-- An open law behind a blank line, with no name in between, is none at all. -/
theorem absent_of_unresolved {k stop : ℕ} {citation : ExtractedStatute} {law : ChosenLaw}
    (unnamed : ∀ citation ∈ (extractCitations unicode text).statutes, p ≤ citation.articleStart →
      citation.articleStart ≤ stop → citation.law.named? = none)
    (here : (extractCitations unicode text).statutes[k]? = some citation)
    (chosen : (chooseLaws held lookedUp (extractCitations unicode text).statutes).1[k]? = some law)
    (after : p ≤ citation.articleStart) (before : citation.articleStart ≤ stop) (unresolved : law.unresolved = true) :
    ∃ start, law = .absent start := by
  induction k generalizing citation law with
  | zero =>
    rw [getElem?_chooseLaws, here, Option.map_some, Option.some.injEq] at chosen
    rw [← chosen] at unresolved ⊢
    exact chooseLaw_absent (unnamed citation (List.mem_of_getElem? here) after before) (by simp [Carried.inHand]) unresolved
  | succ k ih =>
    rw [getElem?_chooseLaws, here, Option.map_some, Option.some.injEq] at chosen
    rw [← chosen] at unresolved ⊢
    refine chooseLaw_absent (unnamed citation (List.mem_of_getElem? here) after before) (fun continues other hand open' => ?_)
      unresolved
    rw [Option.mem_def, Carried.inHand] at hand
    have known := hand
    rw [getElem?_chooseLaws] at known
    obtain ⟨previous, found, -⟩ := Option.map_eq_some_iff.mp known
    have behind := continued_behind_blank unicode blank found here continues after
    have ordered := List.pairwise_iff_getElem.mp (extractWith_sound unicode citationCaps text).statuteOrder
    have forward := ((extractWith_sound unicode citationCaps text).statutes previous (List.mem_of_getElem? found)).forward
    obtain ⟨inside, rfl⟩ := List.getElem?_eq_some_iff.mp found
    obtain ⟨inside', rfl⟩ := List.getElem?_eq_some_iff.mp here
    have between : (extractCitations unicode text).statutes[k].byteEnd ≤
      (extractCitations unicode text).statutes[k + 1].articleStart := ordered k (k + 1) inside inside' (Nat.lt_succ_self k)
    exact ih found hand (by omega) (by omega) open'

/-- Behind a blank line, with no name in between, a citation is left without a law exactly if no citation before it has
one to give: none names its law, or the last that does so has a generic name without a title. -/
theorem blank_line_inheritance_iff {j : ℕ} {citation : ExtractedStatute} {law : ChosenLaw}
    (here : (extractCitations unicode text).statutes[j]? = some citation)
    (chosen : (chooseLaws held lookedUp (extractCitations unicode text).statutes).1[j]? = some law)
    (after : p + 2 ≤ citation.articleStart)
    (unnamed : ∀ other ∈ (extractCitations unicode text).statutes, p ≤ other.articleStart →
      other.articleStart ≤ citation.articleStart → other.law.named? = none) :
    (∃ start, law = .absent start) ↔ NothingToInherit held ((extractCitations unicode text).statutes.take j) := by
  have own := unnamed citation (List.mem_of_getElem? here) (by omega) le_rfl
  obtain ⟨inside, -⟩ := List.getElem?_eq_some_iff.mp here
  have unresolved : law.unresolved = true ↔ NothingToInherit held ((extractCitations unicode text).statutes.take j) := by
    have hand := @inHand_unresolved held lookedUp (extractCitations unicode text).statutes (j + 1) inside
    rw [Carried.inHand, chosen, NothingToInherit, nearestName_take_succ here, own, Option.none_or] at hand
    simpa [NothingToInherit] using hand
  rw [← unresolved]
  constructor
  · rintro ⟨start, rfl⟩
    rfl
  · exact absent_of_unresolved unicode blank unnamed here chosen (by omega) le_rfl

end Blank

/-- A paragraph that refers to the law of the one before. -/
private def secondParagraph : Str := '\n' :: '\n' :: (['같', '은', ' ', '법', ' '] ++ ['제', '2', '조'])

private def civilCode : ExtractedStatute := ⟨.named [(['민', '법'], 0)] false, ⟨1, none, none⟩, 7, 14, none, none, none⟩

private def sameCode : ExtractedStatute := ⟨.same none 16, ⟨2, none, none⟩, 27, 34, none, none, none⟩

private theorem twoParagraphs_statutes :
    (extractCitations Unicode.korean (['민', '법', ' '] ++ '제' :: ['1', '조'] ++ secondParagraph)).statutes =
      [civilCode, sameCode] := by
  have first : statuteAt ['민', '법', ' '] ('제' :: (['1', '조'] ++ secondParagraph)) none =
      some (some civilCode, secondParagraph) := by decide +kernel
  have second : statuteAt (['민', '법', ' ', '제', '1', '조', '\n', '\n'] ++ ['같', '은', ' ', '법', ' ']) ['제', '2', '조'] none =
      some (some sameCode, []) := by decide +kernel
  have kept : keepStatute citationCaps ⟨['민', '법', ' '], '제' :: (['1', '조'] ++ secondParagraph), none, [], ⟨[], [], false⟩⟩
      (['1', '조'] ++ secondParagraph) civilCode secondParagraph =
      ⟨['민', '법', ' ', '제', '1', '조'], secondParagraph, some 14, [], ⟨[civilCode], [], false⟩⟩ := rfl
  rw [List.append_assoc, extractCitations, extractWith, @extract_plain _ _ _ ['민', '법', ' '] _ rfl (by decide +kernel),
    Cursor.past, List.nil_append, List.cons_append, extract_statute _ _ (.inl rfl) first, kept, secondParagraph, extract_blank,
    extract_newline _ _ (by decide), @extract_plain _ _ _ ['같', '은', ' ', '법', ' '] ['제', '2', '조'] rfl (by decide +kernel)]
  refine (congrArg (fun s => s.out.statutes) (extract_statute Unicode.korean citationCaps (.inl rfl) second)).trans ?_
  rw [extract_of_none _ _ (by rfl)]
  rfl

/-- A reference to the law of a name that no title has. -/
theorem chooseLaws_named_same (name : Str) {first second : ExtractedStatute} {at' start : ℕ}
    (named : first.law = .named [(name, at')] false) (same : second.law = .same none start) :
    (chooseLaws (fun _ => false) [] [first, second]).1[1]? = some ⟨name, some (resolveLawName name), start, true, [], false⟩ := by
  simp [chooseLaws, Carried.pass, chooseLaw, named, same, namedLaw, sameName, Option.filter]

/-- The reference is given the law of the paragraph before. -/
theorem blank_line_inheritance_same_law : ¬∃ start, (⟨['민', '법'], some (resolveLawName ['민', '법']), 16, true, [], false⟩ : ChosenLaw) =
    .absent start := by
  have blank : get (['민', '법', ' '] ++ '제' :: ['1', '조'] ++ secondParagraph) 14 (14 + 2) = some ['\n', '\n'] := by decide +kernel
  rw [@blank_line_inheritance_iff Unicode.korean (fun _ => false) [] _ 14 blank 1 sameCode]
  · rw [twoParagraphs_statutes]
    intro none
    have named := none ([(['민', '법'], 0)], false) rfl
    cases named.1
  · rw [twoParagraphs_statutes]
    rfl
  · rw [twoParagraphs_statutes, chooseLaws_named_same _ rfl rfl]
  · decide
  · rw [twoParagraphs_statutes]
    decide

/-- A blank line between two citations does not end inheritance. -/
theorem same_law_across_blank : ¬∀ (text : Str) (held : Str → Bool) (lookedUp : List Str) (i j p : ℕ)
    (earlier citation : ExtractedStatute) (law : ChosenLaw),
      (extractCitations Unicode.korean text).statutes[i]? = some earlier → earlier.byteEnd ≤ p →
      get text p (p + 2) = some ['\n', '\n'] → p + 2 ≤ citation.articleStart →
      (extractCitations Unicode.korean text).statutes[j]? = some citation →
      (chooseLaws held lookedUp (extractCitations Unicode.korean text).statutes).1[j]? = some law →
      (∀ other ∈ (extractCitations Unicode.korean text).statutes, p ≤ other.articleStart →
        other.articleStart ≤ citation.articleStart → other.law.named? = none) → ∃ start, law = .absent start := by
  intro ends
  obtain ⟨start, same⟩ := ends (['민', '법', ' '] ++ '제' :: ['1', '조'] ++ secondParagraph) (fun _ => false) [] 0 1 14
    civilCode sameCode ⟨['민', '법'], some (resolveLawName ['민', '법']), 16, true, [], false⟩
    (by rw [twoParagraphs_statutes]; rfl) (by decide) (by decide +kernel) (by decide)
    (by rw [twoParagraphs_statutes]; rfl) (by rw [twoParagraphs_statutes, chooseLaws_named_same _ rfl rfl])
    (by rw [twoParagraphs_statutes]; decide)
  cases congrArg ChosenLaw.unresolved same

end OpenLegal.Legal
