import OpenLegal.Legal.CitationId
import OpenLegal.Legal.Record
import OpenLegal.Rust.Slice

/-! # Projections of a capture

A search hit is cited by a whole document, a section or a passage of at most `maxCitationTextBytes` bytes.
The projection is chosen from the hit and read back from the citation id alone; the text that is read back
contains the excerpt of the hit.
-/

namespace OpenLegal.Legal

open Rust Rust.Str

/-! ## Reading a projection -/

def sectionText (capture : Capture) (unit : Str) : Except DatabaseError Str :=
  if unit = ['b', 'o', 'd', 'y'] then .ok capture.record.body
  else if unit = ['t', 'i', 't', 'l', 'e'] then .ok capture.record.title
  else if unit = ['c', 'a', 's', 'e', '_', 'n', 'u', 'm', 'b', 'e', 'r'] then
    (capture.record.metadata.get unit).elim (.error .notFound) .ok
  else (capture.record.sections.find? (·.id == unit)).elim (.error .notFound) fun found => .ok found.text

/-- The text of a projection, before its length is checked. -/
def projectedText (capture : Capture) : CitationProjection → Except DatabaseError Str
  | .document => .ok capture.record.body
  | .metadata => .error .revisionUnavailable
  | .section' unit => sectionText capture unit
  | .passage unit start stop => do
    let text ← sectionText capture unit
    (get text start stop).elim (.error .invalidInput) .ok

def projectText (capture : Capture) (id : CitationId) : Except DatabaseError Str := do
  id.validate
  if capture.record.object ≠ id.object ∨ capture.captureId ≠ id.captureId then .error .revisionUnavailable
  else
    let text ← projectedText capture id.projection
    if byteLen text > maxCitationTextBytes then .error .capacity else .ok text

/-! ## Choosing a projection -/

/-- A complete provider article of bounded length. -/
def isArticle (unit : LegalSection) : Bool :=
  unit.kind == .providerText && ['a', 'r', 't', 'i', 'c', 'l', 'e', ':'].isPrefixOf unit.id && !unit.text.isEmpty &&
    byteLen unit.text ≤ maxCitationTextBytes

/-- The text of the unit occurs once, and the occurrence contains the excerpt. -/
def enclosesHit (text : Str) (hit : SearchHit) (unit : LegalSection) : Bool :=
  match splitOnce unit.text text with
  | none => false
  | some (before, rest) =>
    (splitOnce unit.text rest).isNone && byteLen before ≤ hit.byteStart &&
      hit.byteEnd ≤ byteLen before + byteLen unit.text

/-- An unambiguous article around the excerpt, for excerpts of the body. -/
def articleFor (capture : Capture) (text : Str) (hit : SearchHit) : Option LegalSection :=
  if hit.excerptSection = ['b', 'o', 'd', 'y'] then
    (capture.record.sections.filter isArticle).find? (enclosesHit text hit)
  else none

/-- The bounds of a passage around the excerpt, with the same room on both sides. -/
def passageBounds (text : Str) (hit : SearchHit) : ℕ × ℕ :=
  let leadingContext := (maxCitationTextBytes - (hit.byteEnd - hit.byteStart)) / 2
  let start := ceilCharBoundary text (hit.byteStart - leadingContext)
  (start, floorCharBoundary text (min (start + maxCitationTextBytes) (byteLen text)))

/-- Small primary bodies use a whole-document identity, otherwise an exact section or bounded passage. -/
def chooseProjection (capture : Capture) (text : Str) (hit : SearchHit) : Except DatabaseError CitationProjection :=
  if byteLen capture.record.body ≤ maxCitationTextBytes && !hit.includesOcr &&
      hit.excerptSection == ['b', 'o', 'd', 'y'] then .ok .document
  else if byteLen text ≤ maxCitationTextBytes then .ok (.section' hit.excerptSection)
  else match articleFor capture text hit with
    | some article => .ok (.section' article.id)
    | none =>
      if hit.byteEnd - hit.byteStart > maxCitationTextBytes then .error .capacity
      else
        let (start, stop) := passageBounds text hit
        .ok (.passage hit.excerptSection start stop)

def projectionForHit (capture : Capture) (hit : SearchHit) : Except DatabaseError CitationId :=
  if capture.record.object ≠ hit.object ∨ capture.captureId ≠ hit.captureId ∨
      capture.record.revisionId ≠ hit.revisionId then .error .revisionUnavailable
  else do
    let text ← sectionText capture hit.excerptSection
    if hit.byteStart ≥ hit.byteEnd ∨ get text hit.byteStart hit.byteEnd ≠ some hit.text then .error .invalidInput
    else
      let projection ← chooseProjection capture text hit
      let id : CitationId := ⟨hit.object, hit.captureId, projection⟩
      id.validate
      pure id

/-! ## Reading back what was chosen -/

/-- The sections of a capture are found by their ids. -/
theorem sectionText_article {capture : Capture} (distinct : (capture.record.sections.map LegalSection.id).Nodup)
    {article : LegalSection} (member : article ∈ capture.record.sections) (shape : isArticle article = true) :
    sectionText capture article.id = .ok article.text := by
  simp only [isArticle, Bool.and_eq_true] at shape
  obtain ⟨tail, named⟩ := List.isPrefixOf_iff_prefix.mp shape.1.1.2
  have other : article.id.head? = some 'a' := by rw [← named]; rfl
  rw [sectionText, if_neg (by rintro same; simp [same] at other), if_neg (by rintro same; simp [same] at other),
    if_neg (by rintro same; simp [same] at other)]
  obtain ⟨found, lookup⟩ : ∃ found, capture.record.sections.find? (·.id == article.id) = some found := by
    apply Option.isSome_iff_exists.mp
    apply List.find?_isSome.mpr
    exact ⟨article, member, beq_self_eq_true article.id⟩
  have same : found = article := by
    apply List.inj_on_of_nodup_map distinct (List.mem_of_find?_eq_some lookup) member
    have named := List.find?_some lookup
    exact eq_of_beq named
  rw [lookup, same]
  rfl

/-- An article around the excerpt contains it. -/
theorem infix_of_enclosesHit {text : Str} {hit : SearchHit} {unit : LegalSection}
    (encloses : enclosesHit text hit unit = true) (excerpt : get text hit.byteStart hit.byteEnd = some hit.text) :
    hit.text <:+: unit.text := by
  rw [enclosesHit] at encloses
  split at encloses
  · cases encloses
  · next before rest cut =>
    simp only [Bool.and_eq_true, decide_eq_true_eq] at encloses
    have whole : get text (byteLen before) (byteLen before + byteLen unit.text) = some unit.text := by
      apply get_iff.mpr
      exact ⟨before, rest, by rw [splitOnce_eq_some cut, List.append_assoc], rfl, rfl⟩
    have opens : isCharBoundary text (byteLen before) = true := by
      apply isCharBoundary_iff.mpr
      exact ⟨before, unit.text ++ rest, by rw [splitOnce_eq_some cut, List.append_assoc], rfl⟩
    have closes : isCharBoundary text (byteLen before + byteLen unit.text) = true := by
      apply isCharBoundary_iff.mpr
      exact ⟨before ++ unit.text, rest, splitOnce_eq_some cut, byteLen_append _ _⟩
    obtain ⟨wide, found, -, inside⟩ := get_around excerpt opens closes encloses.1.2 encloses.2
    rw [whole] at found
    cases found
    exact inside

/-- The passage around an excerpt of at most `maxCitationTextBytes` bytes is a slice that contains it. -/
theorem passageBounds_spec {text : Str} {hit : SearchHit}
    (excerpt : get text hit.byteStart hit.byteEnd = some hit.text)
    (short : hit.byteEnd - hit.byteStart ≤ maxCitationTextBytes) :
    ∃ passage, get text (passageBounds text hit).1 (passageBounds text hit).2 = some passage ∧
      byteLen passage ≤ maxCitationTextBytes ∧ hit.text <:+: passage := by
  obtain ⟨front, rear, shape, begins, ends⟩ := get_iff.mp excerpt
  have total : byteLen text = byteLen front + (byteLen hit.text + byteLen rear) := by
    rw [shape, byteLen_append, byteLen_append]
  have first : isCharBoundary text hit.byteStart = true := isCharBoundary_iff.mpr ⟨front, _, shape, begins⟩
  have last : isCharBoundary text hit.byteEnd = true := by
    apply isCharBoundary_iff.mpr
    exact ⟨front ++ hit.text, rear, by rw [shape, List.append_assoc], by rw [byteLen_append]; omega⟩
  simp only [passageBounds]
  -- the start is moved forward to a boundary, which the start of the excerpt is
  obtain ⟨opens, above, least⟩ := ceilCharBoundary_spec text
    (show hit.byteStart - (maxCitationTextBytes - (hit.byteEnd - hit.byteStart)) / 2 ≤ byteLen text by omega)
  have before := least hit.byteStart first (by omega)
  generalize ceilCharBoundary text
    (hit.byteStart - (maxCitationTextBytes - (hit.byteEnd - hit.byteStart)) / 2) = start at opens above before ⊢
  -- the end is moved back to a boundary, which the end of the excerpt is
  have room : hit.byteEnd ≤ min (start + maxCitationTextBytes) (byteLen text) := by omega
  have after := le_floorCharBoundary last room
  have bounded := floorCharBoundary_le text (min (start + maxCitationTextBytes) (byteLen text))
  have closes := isCharBoundary_floorCharBoundary text (min (start + maxCitationTextBytes) (byteLen text))
  obtain ⟨passage, found, length, inside⟩ := get_around excerpt opens closes before after
  exact ⟨passage, found, by omega, inside⟩

/-- Whatever projection is chosen, the text it names is bounded and contains the excerpt. -/
theorem projectedText_chooseProjection {capture : Capture} {hit : SearchHit} {text : Str}
    {projection : CitationProjection} (distinct : (capture.record.sections.map LegalSection.id).Nodup)
    (located : sectionText capture hit.excerptSection = .ok text)
    (excerpt : get text hit.byteStart hit.byteEnd = some hit.text)
    (chosen : chooseProjection capture text hit = .ok projection) :
    ∃ shown, projectedText capture projection = .ok shown ∧ byteLen shown ≤ maxCitationTextBytes ∧
      hit.text <:+: shown := by
  have inText : hit.text <:+: text := by
    obtain ⟨front, rear, shape, -, -⟩ := get_iff.mp excerpt
    exact ⟨front, rear, by rw [shape, List.append_assoc]⟩
  rw [chooseProjection] at chosen
  split at chosen
  · next whole =>
    cases chosen
    simp only [Bool.and_eq_true, decide_eq_true_eq, beq_iff_eq] at whole
    rw [whole.2, sectionText, if_pos rfl] at located
    cases located
    exact ⟨capture.record.body, rfl, whole.1.1, inText⟩
  · split at chosen
    · next small =>
      cases chosen
      exact ⟨text, located, small, inText⟩
    split at chosen
    · next article found =>
      cases chosen
      rw [articleFor] at found
      split_ifs at found
      have member := List.mem_filter.mp (List.mem_of_find?_eq_some found)
      have bounded := member.2
      simp only [isArticle, Bool.and_eq_true, decide_eq_true_eq] at bounded
      refine ⟨article.text, sectionText_article distinct member.1 member.2, bounded.2, ?_⟩
      exact infix_of_enclosesHit (List.find?_some found) excerpt
    · simp only [ite_error_eq_ok, Except.ok.injEq, gt_iff_lt, Nat.not_lt] at chosen
      obtain ⟨short, rfl⟩ := chosen
      obtain ⟨passage, found, bounded, inside⟩ := passageBounds_spec excerpt short
      refine ⟨passage, ?_, bounded, inside⟩
      rw [projectedText, located, ok_bind, found]
      rfl

/-- A cited hit belongs to the capture, and its citation reproduces the excerpt within the bound. -/
theorem projectionForHit_reproduces (parsers : Parsers) {capture : Capture} {hit : SearchHit} {id : CitationId}
    (cited : projectionForHit capture hit = .ok id) :
    (capture.record.object = hit.object ∧ capture.captureId = hit.captureId ∧
      capture.record.revisionId = hit.revisionId ∧
      ∃ text, sectionText capture hit.excerptSection = .ok text ∧
        get text hit.byteStart hit.byteEnd = some hit.text) ∧
    (capture.record.validate parsers = .ok () →
      ∃ text, projectText capture id = .ok text ∧ byteLen text ≤ maxCitationTextBytes ∧ hit.text <:+: text) := by
  simp only [projectionForHit, ite_error_eq_ok, bind_eq_ok, not_or, not_not, ge_iff_le, pure_eq_ok,
    Except.ok.injEq] at cited
  obtain ⟨⟨object, captureId, revision⟩, text, located, ⟨-, excerpt⟩, projection, chosen, _, valid, rfl⟩ := cited
  refine ⟨⟨object, captureId, revision, text, located, excerpt⟩, ?_⟩
  intro accepted
  obtain ⟨shown, read, bounded, inside⟩ :=
    projectedText_chooseProjection (LegalRecord.nodup_of_validate parsers accepted) located excerpt chosen
  refine ⟨shown, ?_, bounded, inside⟩
  rw [projectText, valid, ok_bind, if_neg (by simp [object, captureId]), read, ok_bind,
    if_neg (Nat.not_lt.mpr bounded)]


/-- A parser of the one address that the record below names. -/
def lawParsers : Parsers where
  parseUrl value :=
    if value = "https://www.law.go.kr/".toList then
      some ⟨"https".toList, some "www.law.go.kr".toList, [], none, none, []⟩
    else none
  resourcesFromStr _ := none

/-- A body of more than the bound, written in three bytes each. -/
def longCapture : Capture where
  captureId := List.replicate 64 '0'
  record :=
    { object := ⟨"kr".toList, "law_go_kr".toList, .nationalStatute, ['1']⟩
      revisionId := ['1'], title := ['법'], body := List.replicate 4000 '가', metadata := ∅
      publicationDate := none, effectiveDate := none, sourceUrl := "https://www.law.go.kr/".toList
      representation := "json".toList, sections := [] }

/-- An excerpt in the middle of the long body. -/
def middleHit : SearchHit where
  matchScope := "object".toList
  excerptSection := ['b', 'o', 'd', 'y']
  includesOcr := false
  object := longCapture.record.object
  revisionId := ['1']
  captureId := longCapture.captureId
  title := ['법']
  unit := ['b', 'o', 'd', 'y']
  line := 1
  text := List.replicate 10 '가'
  byteStart := 6000
  byteEnd := 6030
  derivedOcr := false

theorem projectionForHit_reproduces_passage :
    ∃ text, projectText longCapture ⟨longCapture.record.object, longCapture.captureId,
        .passage ['b', 'o', 'd', 'y'] 1920 10110⟩ = .ok text ∧
      byteLen text ≤ maxCitationTextBytes ∧ middleHit.text <:+: text :=
  (projectionForHit_reproduces lawParsers (by decide +kernel)).2 (by decide +kernel)

end OpenLegal.Legal
