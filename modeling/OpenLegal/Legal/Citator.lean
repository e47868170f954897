import OpenLegal.Legal.CaseNumberSearch
import OpenLegal.Legal.CompiledQuery
import OpenLegal.Rust.Trim
import OpenLegal.Theory.FirstDistinct

/-! # Decisions that cite a case

The lines that hold a case number are collected by decision, up to three distinct ones each, and a decision is marked when
one of its lines has an overruling phrase.
-/

namespace OpenLegal.Legal

open Rust Rust.Str Theory

def maxCiting : ℕ := 50

def maxCitingLines : ℕ := 3

def lineChars : ℕ := 400

def clipChars (text : Str) (max : ℕ) : Str :=
  if max < (trim text).length then (trim text).take max ++ ['…'] else trim text

/-- The line that a text is shown as. -/
def shown (text : Str) : Str := clipChars text lineChars

def withoutSpaces (text : Str) : Str := text.filter (!isWhitespace ·)

def overrulingPhrases : List Str :=
  ["변경하기로 한다", "변경하기로 하며", "모두 변경", "견해를 변경", "더 이상 유지할 수 없", "폐기하기로"].map String.toList

/-- The first overruling phrase in `line`, ignoring spacing differences. -/
def overrulingPhrase (line : Str) : Option Str :=
  overrulingPhrases.find? fun phrase => contains (withoutSpaces line) (withoutSpaces phrase)

structure CaseRecordMatch where
  object : ObjectId
  title : Str
  revisionId : Str
  captureId : Str

structure CitingDecision where
  object : ObjectId
  title : Str
  caseNumber : Option Str
  judgmentDate : Option Str
  authority : Option Str
  enBanc : Bool
  overrulingPhrase : Option Str
  lines : List Str
  revisionId : Str
  captureId : Str

inductive CitatorSignal where
  | overrulingLanguageFound
  | noneFound
deriving DecidableEq, Repr

structure CitatorResult where
  caseNumber : Str
  /-- Retained records carrying the case number. -/
  targets : List CaseRecordMatch
  /-- Newest judgment first; undated last. -/
  citing : List CitingDecision
  signal : CitatorSignal
  truncated : Bool

def enBancWord : Str := "전원합의체".toList

namespace CitingDecision

def new (hit : SearchHit) : CitingDecision where
  object := hit.object
  title := hit.title
  caseNumber := none
  judgmentDate := none
  authority := none
  enBanc := contains (withoutSpaces hit.title) enBancWord
  overrulingPhrase := none
  lines := []
  revisionId := hit.revisionId
  captureId := hit.captureId

/-- One more line of the decision. -/
def cite (decision : CitingDecision) (text : Str) : CitingDecision :=
  let line := shown text
  if decision.lines.contains line then decision
  else
    match Legal.overrulingPhrase text, decision.overrulingPhrase with
    | some phrase, none =>
      { decision with
        overrulingPhrase := some phrase
        enBanc := decision.enBanc || contains (withoutSpaces text) enBancWord
        lines := (line :: decision.lines).take maxCitingLines }
    | _, _ => if decision.lines.length < maxCitingLines then { decision with lines := decision.lines ++ [line] } else decision

end CitingDecision

/-- The decision of an object, with one more line. -/
def citeAt (object : ObjectId) (text : Str) : List CitingDecision → List CitingDecision
  | [] => []
  | decision :: rest => if decision.object = object then decision.cite text :: rest else decision :: citeAt object text rest

section Loop

variable (number : Str) (targets : List ObjectId)

/-- A line of a decision that is not a target, with the number. -/
def cites (hit : SearchHit) : Bool := !targets.contains hit.object && containsCaseNumber hit.text number

/-- One hit: the decisions so far, and whether some were left out. -/
def citingStep : List CitingDecision × Bool → SearchHit → List CitingDecision × Bool
  | (citing, truncated), hit =>
    if !cites number targets hit then (citing, truncated)
    else if citing.any (·.object == hit.object) then (citeAt hit.object hit.text citing, truncated)
    else if citing.length = maxCiting then (citing, true)
    else (citing ++ [(CitingDecision.new hit).cite hit.text], truncated)

end Loop

/-- The records that carry the number, each once. -/
def targetRecords (number : Str) (hits : List SearchHit) : List CaseRecordMatch :=
  hits.foldl (fun targets hit =>
    if containsCaseNumber hit.text number && !targets.any (·.object == hit.object) then
      targets ++ [⟨hit.object, hit.title, hit.revisionId, hit.captureId⟩]
    else targets) []

def CitingDecision.withMetadata (decision : CitingDecision) : Option (Map Str Str) → CitingDecision
  | none => decision
  | some metadata =>
    { decision with
      caseNumber := metadata.get "case_number".toList
      judgmentDate := metadata.get "judgment_date".toList
      authority := metadata.get "authority".toList }

/-- `b.judgment_date.cmp(&a.judgment_date)` is not greater: no date is less than every date. -/
def newestFirst (a b : CitingDecision) : Bool :=
  match b.judgmentDate, a.judgmentDate with
  | none, _ => true
  | some _, none => false
  | some y, some x => decide (y ≤ x)

/-- The answer from the records found by the number, the lines found by the number, and the metadata of the decisions. -/
def citing (number : Str) (found lines : List SearchHit) (cut : Bool) (metadata : ObjectId → Option (Map Str Str)) :
    CitatorResult :=
  let targets := targetRecords number found
  let (decisions, truncated) := lines.foldl (citingStep number (targets.map CaseRecordMatch.object)) ([], cut)
  let decisions := (decisions.map fun decision => decision.withMetadata (metadata decision.object)).mergeSort newestFirst
  { caseNumber := number, targets, citing := decisions, truncated
    signal := if decisions.any (·.overrulingPhrase.isSome) then .overrulingLanguageFound else .noneFound }

/-! ## The lines of one decision -/

def speaks (text : Str) : Bool := (overrulingPhrase text).isSome

/-- The lines that are kept of texts without a phrase. -/
def keptLines (texts : List Str) : List Str := (texts.map shown).foldl (keep maxCitingLines) []

namespace CitingDecision

variable {decision : CitingDecision} {text : Str} {texts : List Str}

theorem cite_object : (decision.cite text).object = decision.object := by
  by_cases known : decision.lines.contains (shown text) = true
  · rw [cite, if_pos known]
  · rw [cite, if_neg known]
    split
    · rfl
    · split <;> rfl

/-- A new line with the first phrase is put before the others. -/
theorem cite_speaks (fresh : shown text ∉ decision.lines) (heard : speaks text = true)
    (silent : decision.overrulingPhrase = none) :
    (decision.cite text).overrulingPhrase = Legal.overrulingPhrase text ∧
      (decision.cite text).lines = prefer maxCitingLines decision.lines (shown text) := by
  obtain ⟨phrase, said⟩ := Option.isSome_iff_exists.mp heard
  rw [cite, if_neg (by rw [List.contains_iff_mem]; exact fresh), said, silent]
  exact ⟨rfl, rfl⟩

/-- Every other line is kept behind the others. -/
theorem cite_keeps (quiet : shown text ∈ decision.lines ∨ speaks text = false ∨ decision.overrulingPhrase.isSome = true) :
    (decision.cite text).overrulingPhrase = decision.overrulingPhrase ∧
      (decision.cite text).lines = keep maxCitingLines decision.lines (shown text) := by
  by_cases known : shown text ∈ decision.lines
  · rw [cite, if_pos (List.contains_iff_mem.mpr known), keep, if_pos (.inl known)]
    exact ⟨rfl, rfl⟩
  · rw [cite, if_neg (by rw [List.contains_iff_mem]; exact known), keep]
    split
    · next phrase said silent =>
      rcases quiet with impossible | mute | marked
      · exact absurd impossible known
      · rw [speaks, said] at mute
        cases mute
      · rw [silent] at marked
        cases marked
    · by_cases room : decision.lines.length < maxCitingLines
      · rw [if_pos room, if_neg (by rw [not_or]; exact ⟨known, by omega⟩)]
        exact ⟨rfl, rfl⟩
      · rw [if_neg room, if_pos (.inr (by omega))]
        exact ⟨rfl, rfl⟩

/-- A decision that is marked keeps its mark. -/
theorem foldl_cite_marked (marked : decision.overrulingPhrase.isSome = true) :
    (texts.foldl cite decision).overrulingPhrase = decision.overrulingPhrase ∧
      (texts.foldl cite decision).lines = (texts.map shown).foldl (keep maxCitingLines) decision.lines := by
  induction texts generalizing decision with
  | nil => exact ⟨rfl, rfl⟩
  | cons text texts ih =>
    obtain ⟨phrase, lines⟩ := @cite_keeps decision text (.inr (.inr marked))
    obtain ⟨phrase', lines'⟩ := @ih (decision.cite text) (by rw [phrase]; exact marked)
    rw [List.foldl_cons, List.map_cons, List.foldl_cons, phrase', lines', phrase, lines]
    exact ⟨rfl, rfl⟩

end CitingDecision

/-- Every text with a phrase is shown as a line that is kept of the texts before it. -/
def Unheard (texts : List Str) : Prop :=
  ∀ before text after, texts = before ++ text :: after → speaks text = true → shown text ∈ keptLines before

theorem keptLines_concat (texts : List Str) (text : Str) :
    keptLines (texts ++ [text]) = keep maxCitingLines (keptLines texts) (shown text) := by
  rw [keptLines, List.map_append, List.foldl_append]
  rfl

theorem Unheard.of_append {texts more : List Str} (unheard : Unheard (texts ++ more)) : Unheard texts := by
  rintro before text after rfl
  exact unheard before text (after ++ more) (by simp)

/-- Either no text is heard, or there is a first one. -/
theorem unheard_or_first (texts : List Str) : Unheard texts ∨ ∃ before text after, texts = before ++ text :: after ∧
    Unheard before ∧ speaks text = true ∧ shown text ∉ keptLines before := by
  induction texts using List.reverseRecOn with
  | nil => exact .inl fun before text after impossible => absurd impossible.symm (by simp)
  | append_singleton texts last ih =>
    rcases ih with unheard | ⟨before, text, after, rfl, first⟩
    · by_cases heard : speaks last = true ∧ shown last ∉ keptLines texts
      · exact .inr ⟨texts, last, [], rfl, unheard, heard⟩
      · refine .inl fun before text after split said => ?_
        rcases List.eq_nil_or_concat' after with rfl | ⟨after, other, rfl⟩
        · obtain ⟨rfl, same⟩ := List.append_inj' split rfl
          obtain rfl : last = text := List.cons.inj same |>.1
          by_contra fresh
          exact heard ⟨said, fresh⟩
        · rw [← List.cons_append, ← List.append_assoc] at split
          exact unheard before text after (List.append_inj' split rfl).1 said
    · exact .inr ⟨before, text, after ++ [last], by simp, first⟩

namespace CitingDecision

variable {decision : CitingDecision} {texts : List Str}

theorem foldl_cite_unheard (empty : decision.lines = []) (silent : decision.overrulingPhrase = none) (unheard : Unheard texts) :
    (texts.foldl cite decision).overrulingPhrase = none ∧ (texts.foldl cite decision).lines = keptLines texts := by
  induction texts using List.reverseRecOn with
  | nil => exact ⟨silent, empty⟩
  | append_singleton texts last ih =>
    obtain ⟨phrase, lines⟩ := ih unheard.of_append
    have quiet : shown last ∈ (texts.foldl cite decision).lines ∨ speaks last = false ∨
        (texts.foldl cite decision).overrulingPhrase.isSome = true := by
      cases said : speaks last with
      | false => exact .inr (.inl rfl)
      | true =>
        rw [lines]
        exact .inl (unheard texts last [] rfl said)
    obtain ⟨phrase', lines'⟩ := cite_keeps quiet
    rw [List.foldl_append, List.foldl_cons, List.foldl_nil, phrase', phrase, lines', lines, keptLines_concat]
    exact ⟨rfl, rfl⟩

/-- The first text that is heard marks the decision, and its line is put before the others. -/
theorem foldl_cite_heard {before after : List Str} {text : Str} (empty : decision.lines = [])
    (silent : decision.overrulingPhrase = none) (unheard : Unheard before) (said : speaks text = true)
    (fresh : shown text ∉ keptLines before) :
    ((before ++ text :: after).foldl cite decision).overrulingPhrase = Legal.overrulingPhrase text ∧
      ((before ++ text :: after).foldl cite decision).lines =
        (after.map shown).foldl (keep maxCitingLines) (prefer maxCitingLines (keptLines before) (shown text)) := by
  obtain ⟨phrase, lines⟩ := foldl_cite_unheard empty silent unheard
  obtain ⟨phrase', lines'⟩ := cite_speaks (lines.symm ▸ fresh) said phrase
  have marked : ((before.foldl cite decision).cite text).overrulingPhrase.isSome = true := by
    rw [phrase']
    exact said
  obtain ⟨phrase'', lines''⟩ := @foldl_cite_marked _ after marked
  rw [List.foldl_append, List.foldl_cons, phrase'', lines'', phrase', lines', lines]
  exact ⟨rfl, rfl⟩

end CitingDecision

/-- The texts of a decision after which its phrase and the first text with one are shown: among them is one with a phrase
whose line is not kept of the texts before it, and the first text with a phrase has not given way to it. -/
def Heard (texts : List Str) : Prop := ∀ first, texts.find? speaks = some first →
  ∃ before text after, texts = before ++ text :: after ∧ Unheard before ∧ speaks text = true ∧ shown text ∉ keptLines before ∧
    shown first ∈ prefer maxCitingLines (keptLines before) (shown text)

/-- What a decision with these texts is claimed to show. -/
structure Faithful (texts : List Str) (decision : CitingDecision) : Prop where
  phrase : decision.overrulingPhrase.isSome = true ↔ ∃ text ∈ texts, speaks text = true
  first : ∀ text, texts.find? speaks = some text → shown text ∈ decision.lines

theorem keptLines_bounded (texts : List Str) : (keptLines texts).Nodup ∧ (keptLines texts).length ≤ maxCitingLines :=
  foldl_keep_bounded List.nodup_nil (Nat.zero_le _)

theorem find_append_of_speaks {before after : List Str} {text : Str} (said : speaks text = true) :
    (before ++ text :: after).find? speaks = some ((before.find? speaks).getD text) := by
  rw [List.find?_append, List.find?_cons_of_pos said]
  cases before.find? speaks <;> rfl

theorem Unheard.shown_mem {texts : List Str} (unheard : Unheard texts) {text : Str} (member : text ∈ texts)
    (said : speaks text = true) : shown text ∈ keptLines texts := by
  obtain ⟨before, after, rfl⟩ := List.append_of_mem member
  have kept := unheard before text after rfl said
  rw [keptLines, List.map_append, List.foldl_append]
  exact prefix_foldl_keep.subset kept

/-- The first text that is heard is one place. -/
theorem heard_unique {before before' after after' : List Str} {text text' : Str}
    (same : before ++ text :: after = before' ++ text' :: after') (unheard : Unheard before) (unheard' : Unheard before')
    (said : speaks text = true) (said' : speaks text' = true) (fresh : shown text ∉ keptLines before)
    (fresh' : shown text' ∉ keptLines before') : before = before' ∧ text = text' := by
  rcases List.append_eq_append_iff.mp same with ⟨more, rfl, rest⟩ | ⟨more, rfl, rest⟩
  · cases more with
    | nil => exact ⟨(List.append_nil before).symm, (List.cons.inj rest).1⟩
    | cons other more =>
      obtain ⟨rfl, -⟩ := List.cons.inj rest
      exact absurd (unheard' before text more rfl said) fresh
  · cases more with
    | nil => exact ⟨List.append_nil before', (List.cons.inj rest).1.symm⟩
    | cons other more =>
      obtain ⟨rfl, -⟩ := List.cons.inj rest
      exact absurd (unheard before' text' more rfl said') fresh'

theorem faithful_iff {decision : CitingDecision} {texts : List Str} (empty : decision.lines = [])
    (silent : decision.overrulingPhrase = none) : Faithful texts (texts.foldl CitingDecision.cite decision) ↔ Heard texts := by
  rcases unheard_or_first texts with unheard | ⟨before, text, after, rfl, unheard, said, fresh⟩
  · obtain ⟨phrase, lines⟩ := CitingDecision.foldl_cite_unheard empty silent unheard
    constructor
    · intro faithful first found
      have marked := faithful.phrase.mpr ⟨first, List.mem_of_find?_eq_some found, List.find?_some found⟩
      rw [phrase] at marked
      cases marked
    · intro heard
      have mute (first : Str) : texts.find? speaks ≠ some first := by
        intro found
        obtain ⟨before, text, after, split, -, said, fresh, -⟩ := heard first found
        exact fresh (unheard before text after split said)
      refine ⟨?_, fun first found => absurd found (mute first)⟩
      rw [phrase]
      refine iff_of_false (by simp) ?_
      rintro ⟨text, member, said⟩
      obtain ⟨first, found⟩ := Option.isSome_iff_exists.mp (List.find?_isSome.mpr ⟨text, member, said⟩)
      exact mute first found
  · obtain ⟨phrase, lines⟩ := @CitingDecision.foldl_cite_heard decision before after text empty silent unheard said fresh
    have marked : (Legal.overrulingPhrase text).isSome = true ↔ ∃ text' ∈ before ++ text :: after, speaks text' = true :=
      iff_of_true said ⟨text, by simp, said⟩
    -- the line of the first text with a phrase stays exactly if it has not given way
    have stays (first : Str) (found : (before ++ text :: after).find? speaks = some first) :
        shown first ∈ (after.map shown).foldl (keep maxCitingLines) (prefer maxCitingLines (keptLines before) (shown text)) ↔
          shown first ∈ prefer maxCitingLines (keptLines before) (shown text) := by
      rw [find_append_of_speaks said] at found
      cases earlier : before.find? speaks with
      | none =>
        rw [earlier] at found
        obtain rfl := Option.some.inj found
        have own : shown text ∈ prefer maxCitingLines (keptLines before) (shown text) := mem_prefer_self (by decide)
        exact iff_of_true (prefix_foldl_keep.subset own) own
      | some other =>
        rw [earlier] at found
        obtain rfl := Option.some.inj found
        exact mem_foldl_prefer (unheard.shown_mem (List.mem_of_find?_eq_some earlier) (List.find?_some earlier))
    constructor
    · intro faithful first found
      have last := faithful.first first found
      rw [lines, stays first found] at last
      exact ⟨before, text, after, rfl, unheard, said, fresh, last⟩
    · intro heard
      refine ⟨by rw [phrase]; exact marked, fun first found => ?_⟩
      obtain ⟨before', text', after', split, unheard', said', fresh', here⟩ := heard first found
      obtain ⟨rfl, rfl⟩ := heard_unique split unheard unheard' said said' fresh fresh'
      rw [lines]
      exact (stays first found).mpr here

/-! ## The loop over the lines -/

section Loop

variable {number : Str} {targets : List ObjectId}

variable (number targets) in
/-- The texts of the lines of an object that count. -/
def textsOf (hits : List SearchHit) (object : ObjectId) : List Str :=
  (hits.filter fun hit => cites number targets hit && hit.object == object).map SearchHit.text

variable (number targets) in
/-- The decisions after some lines: each once, in the state that its own lines leave it in. -/
structure Collected (hits : List SearchHit) (citing : List CitingDecision) : Prop where
  once : (citing.map CitingDecision.object).Nodup
  present : ∀ object, object ∈ citing.map CitingDecision.object ↔ textsOf number targets hits object ≠ []
  lines : ∀ decision ∈ citing, ∃ fresh : CitingDecision, fresh.lines = [] ∧ fresh.overrulingPhrase = none ∧
    decision = (textsOf number targets hits decision.object).foldl CitingDecision.cite fresh

theorem map_object_citeAt (object : ObjectId) (text : Str) (citing : List CitingDecision) :
    (citeAt object text citing).map CitingDecision.object = citing.map CitingDecision.object := by
  induction citing with
  | nil => rfl
  | cons decision rest ih =>
    rw [citeAt]
    split_ifs
    · rw [List.map_cons, List.map_cons, CitingDecision.cite_object]
    · rw [List.map_cons, List.map_cons, ih]

theorem mem_citeAt {object : ObjectId} {text : Str} {citing : List CitingDecision} {decision : CitingDecision}
    (once : (citing.map CitingDecision.object).Nodup) (member : decision ∈ citeAt object text citing) :
    decision ∈ citing ∧ decision.object ≠ object ∨
      ∃ before ∈ citing, before.object = object ∧ decision = before.cite text := by
  induction citing with
  | nil => cases member
  | cons head rest ih =>
    rw [List.map_cons, List.nodup_cons] at once
    rw [citeAt] at member
    split_ifs at member with same
    · rcases List.mem_cons.mp member with rfl | behind
      · exact .inr ⟨head, List.mem_cons_self, same, rfl⟩
      · refine .inl ⟨List.mem_cons_of_mem head behind, fun own => once.1 ?_⟩
        rw [same, ← own]
        exact List.mem_map_of_mem behind
    · rcases List.mem_cons.mp member with rfl | behind
      · exact .inl ⟨List.mem_cons_self, same⟩
      · rcases ih once.2 behind with ⟨known, other⟩ | ⟨before, known, own⟩
        · exact .inl ⟨List.mem_cons_of_mem head known, other⟩
        · exact .inr ⟨before, List.mem_cons_of_mem head known, own⟩

theorem textsOf_concat (hits : List SearchHit) (hit : SearchHit) (object : ObjectId) :
    textsOf number targets (hits ++ [hit]) object =
      textsOf number targets hits object ++ if cites number targets hit ∧ hit.object = object then [hit.text] else [] := by
  rw [textsOf, List.filter_append, List.map_append, textsOf, List.append_cancel_left_eq]
  by_cases own : cites number targets hit = true ∧ hit.object = object
  · rw [if_pos own, List.filter_cons_of_pos (by simp [own])]
    rfl
  · rw [if_neg own, List.filter_cons_of_neg (by simpa using own)]
    rfl

/-- A decision has room, as long as the lines are of at most so many decisions. -/
theorem Collected.room {hits : List SearchHit} {citing : List CitingDecision} (collected : Collected number targets hits citing)
    {objects : List ObjectId} (few : objects.length ≤ maxCiting)
    (within : ∀ hit ∈ hits, hit.object ∉ targets → hit.object ∈ objects) {object : ObjectId} (new : object ∈ objects)
    (absent : object ∉ citing.map CitingDecision.object) : citing.length < maxCiting := by
  have inside : object :: citing.map CitingDecision.object ⊆ objects := by
    refine List.cons_subset.mpr ⟨new, fun other member => ?_⟩
    obtain ⟨text, here⟩ := List.exists_mem_of_ne_nil _ ((collected.present other).mp member)
    obtain ⟨hit, found, -⟩ := List.mem_map.mp here
    rw [List.mem_filter, Bool.and_eq_true, beq_iff_eq, cites, Bool.and_eq_true] at found
    obtain ⟨known, ⟨outside, -⟩, rfl⟩ := found
    exact within hit known (by simpa using outside)
  have length := (List.subperm_of_subset (List.nodup_cons.mpr ⟨absent, collected.once⟩) inside).length_le
  rw [List.length_cons, List.length_map] at length
  omega

theorem citingStep_collected {hits : List SearchHit} {citing : List CitingDecision}
    (collected : Collected number targets hits citing) (cut : Bool) (hit : SearchHit)
    (room : cites number targets hit = true → hit.object ∉ citing.map CitingDecision.object → citing.length < maxCiting) :
    Collected number targets (hits ++ [hit]) (citingStep number targets (citing, cut) hit).1 := by
  have present : citing.any (·.object == hit.object) = true ↔ hit.object ∈ citing.map CitingDecision.object := by
    simp [List.any_eq_true, List.mem_map]
  rw [citingStep]
  cases counts : cites number targets hit with
  | false =>
    have same (object : ObjectId) : textsOf number targets (hits ++ [hit]) object = textsOf number targets hits object := by
      rw [textsOf_concat, if_neg (by simp [counts]), List.append_nil]
    refine ⟨collected.once, fun object => ?_, fun decision member => ?_⟩
    · rw [same]
      exact collected.present object
    · rw [same]
      exact collected.lines decision member
  | true =>
    have own : textsOf number targets (hits ++ [hit]) hit.object = textsOf number targets hits hit.object ++ [hit.text] := by
      rw [textsOf_concat, if_pos ⟨counts, rfl⟩]
    have others {object : ObjectId} (other : object ≠ hit.object) :
        textsOf number targets (hits ++ [hit]) object = textsOf number targets hits object := by
      rw [textsOf_concat, if_neg (fun same => other same.2.symm), List.append_nil]
    rw [if_neg (by simp)]
    split_ifs with known full
    · rw [present] at known
      refine ⟨by rw [map_object_citeAt]; exact collected.once, fun object => ?_, fun decision member => ?_⟩
      · rw [map_object_citeAt]
        by_cases same : object = hit.object
        · subst same
          exact iff_of_true known (by rw [own]; simp)
        · rw [others same]
          exact collected.present object
      · rcases mem_citeAt collected.once member with ⟨before, other⟩ | ⟨before, earlier, same, rfl⟩
        · rw [others other]
          exact collected.lines decision before
        · obtain ⟨fresh, empty, silent, state⟩ := collected.lines before earlier
          refine ⟨fresh, empty, silent, ?_⟩
          rw [CitingDecision.cite_object, same, own, List.foldl_append, ← same, ← state]
          rfl
    · rw [present] at known
      exact absurd full (Nat.ne_of_lt (room counts known))
    · rw [present] at known
      have none : textsOf number targets hits hit.object = [] := by
        by_contra some
        exact known ((collected.present hit.object).mpr some)
      have object : ((CitingDecision.new hit).cite hit.text).object = hit.object := CitingDecision.cite_object
      refine ⟨?_, fun object' => ?_, fun decision member => ?_⟩
      · rw [List.map_append, List.map_singleton, object]
        exact collected.once.append (List.nodup_singleton _) (List.disjoint_singleton.mpr known)
      · rw [List.map_append, List.map_singleton, object, List.mem_append, List.mem_singleton]
        by_cases same : object' = hit.object
        · subst same
          exact iff_of_true (.inr rfl) (by rw [own]; simp)
        · rw [others same, ← collected.present object', or_iff_left same]
      · rcases List.mem_append.mp member with before | last
        · obtain ⟨fresh, state⟩ := collected.lines decision before
          refine ⟨fresh, ?_⟩
          rwa [others]
          rintro same
          exact known (same ▸ List.mem_map_of_mem before)
        · obtain rfl := List.mem_singleton.mp last
          refine ⟨CitingDecision.new hit, rfl, rfl, ?_⟩
          rw [object, own, none]
          rfl

theorem collected_run {hits : List SearchHit} {objects : List ObjectId} (few : objects.length ≤ maxCiting)
    (within : ∀ hit ∈ hits, hit.object ∉ targets → hit.object ∈ objects) (cut : Bool) :
    Collected number targets hits (hits.foldl (citingStep number targets) ([], cut)).1 := by
  induction hits using List.reverseRecOn with
  | nil => exact ⟨List.nodup_nil, fun object => by simp [textsOf], fun decision impossible => by cases impossible⟩
  | append_singleton hits hit ih =>
    rw [List.forall_mem_append, List.forall_mem_singleton] at within
    have collected := ih within.1
    rw [List.foldl_append]
    refine citingStep_collected collected _ hit fun counts absent => ?_
    rw [cites, Bool.and_eq_true] at counts
    exact collected.room few within.1 (within.2 (by simpa using counts.1)) absent

end Loop

/-! ## The answer -/

@[simp] theorem CitingDecision.withMetadata_shows (decision : CitingDecision) (metadata : Option (Map Str Str)) :
    (decision.withMetadata metadata).object = decision.object ∧ (decision.withMetadata metadata).lines = decision.lines ∧
      (decision.withMetadata metadata).overrulingPhrase = decision.overrulingPhrase := by
  cases metadata <;> exact ⟨rfl, rfl, rfl⟩

/-- What the answer is claimed to report of the lines found. -/
structure MissesNothing (number : Str) (lines : List SearchHit) (result : CitatorResult) : Prop where
  signal : result.signal = .overrulingLanguageFound ↔ ∃ hit ∈ lines,
    cites number (result.targets.map CaseRecordMatch.object) hit = true ∧ speaks hit.text = true
  decisions : ∀ decision ∈ result.citing,
    Faithful (textsOf number (result.targets.map CaseRecordMatch.object) lines decision.object) decision
  distinct : ∀ decision ∈ result.citing, decision.lines.Nodup ∧ decision.lines.length ≤ maxCitingLines
  once : (result.citing.map CitingDecision.object).Nodup
  present : ∀ object, object ∈ result.citing.map CitingDecision.object ↔
    ∃ hit ∈ lines, cites number (result.targets.map CaseRecordMatch.object) hit = true ∧ hit.object = object

theorem foldl_cite_distinct {decision : CitingDecision} (empty : decision.lines = []) (silent : decision.overrulingPhrase = none)
    (texts : List Str) : (texts.foldl CitingDecision.cite decision).lines.Nodup ∧
      (texts.foldl CitingDecision.cite decision).lines.length ≤ maxCitingLines := by
  rcases unheard_or_first texts with unheard | ⟨before, text, after, rfl, unheard, said, fresh⟩
  · rw [(CitingDecision.foldl_cite_unheard empty silent unheard).2]
    exact keptLines_bounded texts
  · rw [(CitingDecision.foldl_cite_heard empty silent unheard said fresh).2]
    exact foldl_keep_bounded (nodup_prefer (keptLines_bounded before).1 fresh) length_prefer

theorem textsOf_ne_nil {number : Str} {targets : List ObjectId} {lines : List SearchHit} {object : ObjectId} :
    textsOf number targets lines object ≠ [] ↔ ∃ hit ∈ lines, cites number targets hit = true ∧ hit.object = object := by
  rw [textsOf, Ne, List.map_eq_nil_iff, List.filter_eq_nil_iff]
  simp only [Bool.and_eq_true, beq_iff_eq, not_forall, not_not, exists_prop]

theorem mem_textsOf {number : Str} {targets : List ObjectId} {lines : List SearchHit} {object : ObjectId} {text : Str} :
    text ∈ textsOf number targets lines object ↔
      ∃ hit ∈ lines, cites number targets hit = true ∧ hit.object = object ∧ hit.text = text := by
  simp only [textsOf, List.mem_map, List.mem_filter, Bool.and_eq_true, beq_iff_eq, and_assoc]

section Answer

variable {number : Str} {found lines : List SearchHit} {objects : List ObjectId}

/-- The answer misses nothing exactly if no decision has its first line with a phrase shown already, or given way. -/
theorem citing_misses_nothing_iff (few : objects.length ≤ maxCiting)
    (within : ∀ hit ∈ lines, hit.object ∉ (targetRecords number found).map CaseRecordMatch.object → hit.object ∈ objects)
    (cut : Bool) (metadata : ObjectId → Option (Map Str Str)) :
    MissesNothing number lines (citing number found lines cut metadata) ↔
      ∀ object, Heard (textsOf number ((targetRecords number found).map CaseRecordMatch.object) lines object) := by
  have collected := @collected_run number _ _ _ few within cut
  have targets : (citing number found lines cut metadata).targets = targetRecords number found := rfl
  generalize run : (lines.foldl (citingStep number ((targetRecords number found).map CaseRecordMatch.object)) ([], cut)).1 = decisions
    at collected
  have sorted : (citing number found lines cut metadata).citing =
      (decisions.map fun decision => decision.withMetadata (metadata decision.object)).mergeSort newestFirst := by
    rw [← run]
    rfl
  have member (decision : CitingDecision) : decision ∈ (citing number found lines cut metadata).citing ↔
      ∃ other ∈ decisions, other.withMetadata (metadata other.object) = decision := by
    rw [sorted, List.mem_mergeSort, List.mem_map]
  have objects' : ((citing number found lines cut metadata).citing.map CitingDecision.object).Perm
      (decisions.map CitingDecision.object) := by
    rw [sorted]
    refine ((List.mergeSort_perm _ _).map _).trans ?_
    rw [List.map_map]
    exact List.Perm.of_eq (List.map_congr_left fun decision _ => (decision.withMetadata_shows _).1)
  -- a decision of the answer shows what its lines left
  have faithful (decision : CitingDecision) (known : decision ∈ decisions) :
      Faithful (textsOf number ((targetRecords number found).map CaseRecordMatch.object) lines decision.object)
        (decision.withMetadata (metadata decision.object)) ↔
      Heard (textsOf number ((targetRecords number found).map CaseRecordMatch.object) lines decision.object) := by
    obtain ⟨fresh, empty, silent, state⟩ := collected.lines decision known
    obtain ⟨-, shows, marks⟩ := decision.withMetadata_shows (metadata decision.object)
    rw [← faithful_iff empty silent, ← state]
    exact ⟨fun ⟨phrase, first⟩ => ⟨marks ▸ phrase, shows ▸ first⟩, fun ⟨phrase, first⟩ => ⟨marks.symm ▸ phrase, shows.symm ▸ first⟩⟩
  constructor
  · intro complete object
    by_cases present : object ∈ decisions.map CitingDecision.object
    · obtain ⟨decision, known, rfl⟩ := List.mem_map.mp present
      have shown := complete.decisions _ ((member _).mpr ⟨decision, known, rfl⟩)
      rw [(decision.withMetadata_shows _).1, targets] at shown
      exact (faithful decision known).mp shown
    · rw [collected.present, not_not] at present
      rw [present]
      intro first impossible
      cases impossible
  · intro heard
    have decisionsFaithful : ∀ decision ∈ (citing number found lines cut metadata).citing,
        Faithful (textsOf number ((targetRecords number found).map CaseRecordMatch.object) lines decision.object) decision := by
      intro decision inside
      obtain ⟨other, known, rfl⟩ := (member decision).mp inside
      rw [(other.withMetadata_shows _).1]
      exact (faithful other known).mpr (heard other.object)
    have present (object : ObjectId) : object ∈ (citing number found lines cut metadata).citing.map CitingDecision.object ↔
        ∃ hit ∈ lines, cites number ((targetRecords number found).map CaseRecordMatch.object) hit = true ∧ hit.object = object := by
      rw [objects'.mem_iff, collected.present, textsOf_ne_nil]
    refine ⟨?_, decisionsFaithful, fun decision inside => ?_, objects'.nodup_iff.mpr collected.once, present⟩
    · have signal : (citing number found lines cut metadata).signal = .overrulingLanguageFound ↔
          ∃ decision ∈ (citing number found lines cut metadata).citing, decision.overrulingPhrase.isSome = true := by
        rw [← List.any_eq_true]
        change (if (citing number found lines cut metadata).citing.any (·.overrulingPhrase.isSome) then
          CitatorSignal.overrulingLanguageFound else .noneFound) = _ ↔ _
        cases (citing number found lines cut metadata).citing.any (·.overrulingPhrase.isSome) <;> simp
      rw [signal]
      constructor
      · rintro ⟨decision, inside, marked⟩
        obtain ⟨text, own, said⟩ := (decisionsFaithful decision inside).phrase.mp marked
        obtain ⟨hit, known, counts, -, rfl⟩ := mem_textsOf.mp own
        exact ⟨hit, known, counts, said⟩
      · rintro ⟨hit, known, counts, said⟩
        obtain ⟨decision, inside, same⟩ := List.mem_map.mp ((present hit.object).mpr ⟨hit, known, counts, rfl⟩)
        refine ⟨decision, inside, (decisionsFaithful decision inside).phrase.mpr ⟨hit.text, ?_, said⟩⟩
        exact mem_textsOf.mpr ⟨hit, known, counts, same.symm, rfl⟩
    · obtain ⟨other, known, rfl⟩ := (member decision).mp inside
      obtain ⟨fresh, empty, silent, state⟩ := collected.lines other known
      rw [(other.withMetadata_shows _).2.1, state]
      exact foldl_cite_distinct empty silent _

/-- The signal does not depend on the order of the decisions. -/
theorem signal_eq (cut : Bool) (metadata : ObjectId → Option (Map Str Str)) :
    (citing number found lines cut metadata).signal =
      if (lines.foldl (citingStep number ((targetRecords number found).map CaseRecordMatch.object)) ([], cut)).1.any
          (·.overrulingPhrase.isSome) then .overrulingLanguageFound else .noneFound := by
  rw [citing]
  dsimp only
  rw [(List.mergeSort_perm _ _).any_eq, List.any_map]
  simp only [Function.comp_def, (CitingDecision.withMetadata_shows _ _).2.2]

end Answer

/-! ## Lines that are shown alike -/

theorem keptLines_subset (texts : List Str) : keptLines texts ⊆ texts.map shown := by
  induction texts using List.reverseRecOn with
  | nil => exact List.Subset.refl _
  | append_singleton texts last ih =>
    rw [keptLines_concat, List.map_append, keep]
    split_ifs
    · exact List.Subset.trans ih (List.subset_append_left _ _)
    · exact List.append_subset.mpr ⟨List.Subset.trans ih (List.subset_append_left _ _), List.subset_append_right _ _⟩

/-- Among lines that are all shown differently nothing is missed. -/
theorem heard_of_distinct {texts : List Str} (distinct : (texts.map shown).Nodup) : Heard texts := by
  intro first found
  obtain ⟨said, before, after, rfl, mute⟩ := List.find?_eq_some_iff_append.mp found
  have unheard : Unheard before := by
    rintro front text rear rfl heard
    have silent := mute text (by simp)
    rw [heard] at silent
    cases silent
  refine ⟨before, first, after, rfl, unheard, said, fun kept => ?_, mem_prefer_self (by decide)⟩
  rw [List.map_append, List.map_cons] at distinct
  exact (List.nodup_append.mp distinct).2.2 _ (keptLines_subset before kept) _ List.mem_cons_self rfl

section Example

/-- A line of one decision. -/
def citingHit (text : Str) : SearchHit where
  matchScope := []
  excerptSection := []
  includesOcr := false
  object := ⟨['k', 'r'], ['p'], .precedent, ['1']⟩
  revisionId := ['1']
  captureId := ['1']
  title := ['법']
  unit := []
  line := 1
  text := text
  byteStart := 0
  byteEnd := 0
  derivedOcr := false

/-- Two long texts that are shown alike, then a phrase, and the same line once more. -/
def citingTexts : List Str :=
  ["2007다1".toList ++ List.replicate 400 'x' ++ ['가'], "2007다1".toList ++ List.replicate 400 'x' ++ ['나'],
    "2007다1 판결을 변경하기로 한다".toList, " 2007다1 판결을 변경하기로 한다".toList]

theorem heard_citingTexts : Heard citingTexts := by
  intro first found
  have phrase : citingTexts.find? speaks = some "2007다1 판결을 변경하기로 한다".toList := by decide +kernel
  rw [phrase] at found
  cases found
  refine ⟨citingTexts.take 2, _, citingTexts.drop 3, rfl, ?_, by decide +kernel, by decide +kernel, by decide +kernel⟩
  rintro front text rear same heard
  have mute : ∀ text ∈ citingTexts.take 2, speaks text = false := by decide +kernel
  have silent := mute text (same ▸ by simp)
  rw [heard] at silent
  cases silent

theorem citing_misses_nothing_in_four_lines :
    citingTexts.map shown = [citingTexts[0], citingTexts[0], citingTexts[2], citingTexts[2]].map shown ∧
      MissesNothing "2007다1".toList (citingTexts.map citingHit)
        (citing "2007다1".toList [] (citingTexts.map citingHit) false fun _ => none) := by
  refine ⟨by decide +kernel, ?_⟩
  refine (@citing_misses_nothing_iff _ [] _ [(citingHit []).object] (by decide) ?_ false _).mpr fun object => ?_
  · intro hit member _
    obtain ⟨text, -, rfl⟩ := List.mem_map.mp member
    exact List.mem_cons_self
  · by_cases same : object = (citingHit []).object
    · subst same
      have texts : textsOf "2007다1".toList ((targetRecords "2007다1".toList []).map CaseRecordMatch.object) (citingTexts.map citingHit)
          (citingHit []).object = citingTexts := by decide +kernel
      rw [texts]
      exact heard_citingTexts
    · have none : textsOf "2007다1".toList ((targetRecords "2007다1".toList []).map CaseRecordMatch.object) (citingTexts.map citingHit)
          object = [] := by
        by_contra some
        obtain ⟨hit, member, -, other⟩ := textsOf_ne_nil.mp some
        obtain ⟨text, -, rfl⟩ := List.mem_map.mp member
        exact same other.symm
      rw [none]
      exact heard_of_distinct List.nodup_nil

/-- A line that is shown as an earlier one is not looked at: its phrase is lost. -/
theorem citing_misses_a_phrase : ¬∀ (number : Str) (found lines : List SearchHit) (cut : Bool)
    (metadata : ObjectId → Option (Map Str Str)) (objects : List ObjectId), objects.length ≤ maxCiting →
      (∀ hit ∈ lines, hit.object ∉ (targetRecords number found).map CaseRecordMatch.object → hit.object ∈ objects) →
        MissesNothing number lines (citing number found lines cut metadata) := by
  intro complete
  let plain : Str := "2007다1".toList ++ List.replicate 400 'x'
  let overruling : Str := plain ++ "견해를 변경".toList
  have missed := complete "2007다1".toList [] [citingHit plain, citingHit overruling] false (fun _ => none) [(citingHit []).object]
    (by decide) (by simp [citingHit])
  have silent : (citing "2007다1".toList [] [citingHit plain, citingHit overruling] false fun _ => none).signal = .noneFound := by
    rw [signal_eq]
    decide +kernel
  have found := missed.signal.mpr ⟨citingHit overruling, by simp, by decide +kernel, by decide +kernel⟩
  rw [silent] at found
  cases found

end Example

end OpenLegal.Legal
