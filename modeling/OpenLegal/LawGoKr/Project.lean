import OpenLegal.Corpus.CloneProgress
import OpenLegal.Corpus.RevisionCatalog
import OpenLegal.LawGoKr.Tree
import OpenLegal.Legal.Record

/-! # Projecting provider documents

A document of the provider becomes a record: its sections are the article units and the content fields of the pruned tree, its body
their texts. Article keys that repeat are told apart by position.
-/

namespace OpenLegal.LawGoKr

open Rust Rust.Str Legal Corpus

inductive DocumentFormat where
  | xml | html | pdf | hwp5 | hwpx
deriving DecidableEq, Repr

/-- What the projection reads of a document. -/
structure DocumentOutput where
  format : DocumentFormat
  tree : Option DocumentNode
  text : Str
  diagnostics : List Str

/-- `join("\n")`. -/
def joinLines (parts : List Str) : Str := ['\n'].intercalate parts

/-! ## Sections -/

def articleUnit : Str := "조문단위".toList

/-- The section of an article unit or a content field. -/
def sectionOf (name : Str) (attributes : List (Str × Str)) (node : DocumentNode) (parts : List Str) (position : ℕ) : LegalSection where
  id :=
    match if name = articleUnit then attributes.find? fun entry => localName entry.1 = "조문키".toList else none with
    | some key => "article:".toList ++ key.2
    | none => "source_ordinal:".toList ++ decimal (position + 1)
  title := if name = articleUnit then (first node "조문제목".toList).getD [] else name
  text := joinLines parts
  kind := .providerText
  sourceDocumentSha256 := none
  page := none

mutual

def sections (out : List LegalSection) : DocumentNode → List LegalSection
  | .text _ => out
  | .element name attributes children =>
    if localName name = articleUnit || contentField (localName name) then
      let parts := contentParts (.element name attributes children)
      if parts.isEmpty then out
      else out ++ [sectionOf (localName name) attributes (.element name attributes children) parts out.length]
    else sectionsOfAll out children

def sectionsOfAll (out : List LegalSection) : List DocumentNode → List LegalSection
  | [] => out
  | child :: children => sectionsOfAll (sections out child) children

end

/-- The metadata about repeated article keys. -/
def duplicateMetadata (metadata : Map Str Str) (projectionVersion : Str) (groups occurrences : ℕ) : Map Str Str :=
  ((((metadata.insert "projection_version".toList projectionVersion).insert "section_locator_semantics".toList
    "source_article_key_or_source_ordinal_with_duplicate_key_suffix".toList).insert "section_locator_diagnostic".toList
    "duplicate_source_article_keys".toList).insert "duplicate_article_key_groups".toList (decimal groups)).insert
    "duplicate_article_key_sections".toList (decimal occurrences)

/-- Sections whose article key repeats are numbered by position. -/
def disambiguateArticleSections (units : List LegalSection) (metadata : Map Str Str) (projectionVersion : Str) :
    List LegalSection × Map Str Str :=
  let keys := (units.map LegalSection.id).filter ("article:".toList.isPrefixOf ·)
  let repeated := keys.dedup.filter fun key => keys.count key > 1
  if repeated.isEmpty then (units, metadata)
  else
    (units.mapIdx fun position unit =>
        if keys.count unit.id > 1 then { unit with id := unit.id ++ ":source_ordinal:".toList ++ decimal (position + 1) } else unit,
      duplicateMetadata metadata projectionVersion repeated.length (repeated.map fun key => keys.count key).sum)

/-! ## Identities -/

def numericId (value : Str) : Bool := !value.isEmpty && byteLen value ≤ 128 && value.all isAsciiDigit

/-- The number of the provider's record, and the effective date of a statute. -/
def revisionParts (item : InventoryItem) : Except DatabaseError (Str × Option Str) :=
  if item.object.provider ≠ "law_go_kr".toList || item.object.jurisdiction ≠ "kr".toList || !numericId item.object.id then
    .error .invalidInput
  else if item.object.dataset = .nationalStatute then
    match splitOnce [':'] item.revisionId with
    | none => .error .invalidInput
    | some (master, effective) =>
      if !numericId master || !validDate effective || item.effectiveDate ≠ some effective then .error .invalidInput
      else .ok (master, some effective)
  else if numericId item.revisionId && (Database.hasProviderRevisions item.object.dataset || item.revisionId = item.object.id) then
    .ok (item.revisionId, none)
  else .error .invalidInput

def date (value : Option Str) : Except DatabaseError (Option Str) :=
  match value with
  | some v => if v.isEmpty then .ok none else if validDate v then .ok (some v) else .error .storageCorrupt
  | none => .ok none

mutual

/-- A hidden input names the record. -/
def htmlIdentity (id : Str) : DocumentNode → Bool
  | .text _ => false
  | .element name attributes children =>
    let valueOf (wanted : Str) := (attributes.find? fun entry => toAsciiLowercase entry.1 = wanted).map Prod.snd
    (toAsciiLowercase (localName name) = "input".toList &&
      (valueOf "name".toList).any (["ID".toList, "precSeq".toList, "precId".toList].contains ·) &&
      valueOf "value".toList = some id) || anyHtmlIdentity id children

def anyHtmlIdentity (id : Str) : List DocumentNode → Bool
  | [] => false
  | child :: children => htmlIdentity id child || anyHtmlIdentity id children

end

/-- `str::contains`. -/
def containsText (text pattern : Str) : Bool := (splitOnce pattern text).isSome

/-! ## The projection -/

/-- What differs between statutes, ordinances and precedents. -/
structure LegalFamily where
  target : Str
  idField : Str
  titleField : Str
  revisionField : Str
  parameter : Str
  representation : Str

def legalFamily : Dataset → Option LegalFamily
  | .nationalStatute => some ⟨"eflaw".toList, "법령ID".toList, "법령명_한글".toList, "법령일련번호".toList, "MST".toList,
      "provider_effective_original".toList⟩
  | .ordinance => some ⟨"ordin".toList, "자치법규ID".toList, "자치법규명".toList, "자치법규일련번호".toList, "MST".toList,
      "provider_current".toList⟩
  | .precedent => some ⟨"prec".toList, "판례정보일련번호".toList, "사건명".toList, "판례정보일련번호".toList, "ID".toList,
      "provider_record".toList⟩
  | _ => none

def markRedactedProjection (output : DocumentOutput) (metadata : Map Str Str) : Map Str Str :=
  if output.diagnostics.contains "provider_credential_redacted".toList then
    metadata.insert "transport_credentials_redacted".toList "true".toList
  else metadata

/-- The fields of the document that become metadata. -/
def metadataFields : List (Str × Str) :=
  [("소관부처", "authority"), ("지자체기관명", "authority"), ("법원명", "authority"), ("법종구분", "document_type"),
    ("자치법규종류", "document_type"), ("선고일자", "judgment_date_raw"), ("사건번호", "case_number"),
    ("조문시행일자문자열", "provision_effective_dates"), ("별표시행일자문자열", "annex_effective_dates")].map
    fun field => (field.1.toList, field.2.toList)

/-- `metadata.insert` of a value that may be there. -/
def insertSome (metadata : Map Str Str) (key : String) (value : Option Str) : Map Str Str :=
  match value with
  | some value => metadata.insert key.toList value
  | none => metadata

/-- `metadata.entry(key).or_insert(value)`. -/
def orInsert (metadata : Map Str Str) (key : String) (value : Option Str) : Map Str Str :=
  if (metadata.get key.toList).isSome then metadata else insertSome metadata key value

def projectMetadata (item : InventoryItem) (tree : DocumentNode) (master : Str) (effective : Option Str) (metadata : Map Str Str) :
    Map Str Str :=
  let metadata := metadataFields.foldl (fun metadata field =>
    match first tree field.1 with
    | some value => metadata.insert field.2 value
    | none => metadata) metadata
  let metadata := insertSome metadata "judgment_date" ((metadata.get "judgment_date_raw".toList).filter validDate)
  let metadata := insertSome metadata "data_source" item.dataSource
  let metadata := insertSome metadata "amendment_type" item.amendmentType
  let metadata := orInsert metadata "case_number" item.caseNumber
  let metadata := metadata.insert "projection_version".toList "law_go_kr_text_v2".toList
  let metadata := metadata.insert "provider_record_number".toList master
  let metadata := metadata.insert "section_locator_semantics".toList "source_article_key_or_source_ordinal".toList
  let metadata := insertSome metadata "requested_efYd" effective
  insertSome metadata "character_view" (effective.map fun _ => "010201".toList)

/-- The public address of the document. Its parameters are letters and digits, which a query does not escape. -/
def sourceUrl (family : LegalFamily) (html : Bool) (master : Str) (effective : Option Str) : Str :=
  "https://www.law.go.kr/DRF/lawService.do?target=".toList ++ family.target ++ "&type=".toList ++
    (if html then "HTML".toList else "XML".toList) ++ ['&'] ++ family.parameter ++ ['='] ++ master ++
    match effective with
    | some value => "&efYd=".toList ++ value ++ "&chrClsCd=010201".toList
    | none => []

/-- The title and the sections of an HTML document, whose text is flattened. -/
def htmlSections (item : InventoryItem) (output : DocumentOutput) (tree : DocumentNode) :
    Except DatabaseError (Str × List LegalSection) :=
  if item.object.dataset ≠ .precedent || !htmlIdentity item.object.id tree || item.title.isEmpty ||
    !containsText output.text item.title || item.caseNumber.any (!containsText output.text ·) then .error .storageCorrupt
  else .ok (item.title, [⟨"html_document".toList, item.title, output.text, .providerText, none, none⟩])

/-- The title and the sections of an XML document that identifies itself as the item. -/
def xmlSections (item : InventoryItem) (family : LegalFamily) (master : Str) (tree : DocumentNode) :
    Except DatabaseError (Str × List LegalSection) :=
  let precedent := item.object.dataset == .precedent
  match (first tree family.idField).or (if precedent then first tree "판례일련번호".toList else none) with
  | none => .error .storageCorrupt
  | some id =>
    if id ≠ item.object.id then .error .storageCorrupt
    else if precedent && item.caseNumber.any (first tree "사건번호".toList ≠ some ·) then .error .storageCorrupt
    else if (first tree family.revisionField).any (· ≠ master) then .error .storageCorrupt
    else
      match (first tree family.titleField).filter (!·.isEmpty) with
      | none => .error .storageCorrupt
      | some title => .ok (title, sections [] tree)

def sourceSections (item : InventoryItem) (family : LegalFamily) (master : Str) (output : DocumentOutput) (tree : DocumentNode) :
    Except DatabaseError (Str × List LegalSection) :=
  if output.format = .html then htmlSections item output tree else xmlSections item family master tree

/-- A date of the document; a flattened document has none. -/
def returnedDate (output : DocumentOutput) (tree : DocumentNode) (name : Str) : Except DatabaseError (Option Str) :=
  if output.format = .html then .ok none else date (first tree name)

def sourceMetadata (output : DocumentOutput) : Map Str Str :=
  let metadata := markRedactedProjection output ∅
  if output.format = .html then
    metadata.insert "html_identity_rule".toList "explicit_hidden_record_id_and_inventory_title_v1".toList
  else metadata

/-- The projection of a statute, an ordinance or a precedent from its pruned tree. -/
def projectLegal (parsers : Parsers) (item : InventoryItem) (family : LegalFamily) (output : DocumentOutput) :
    Except DatabaseError LegalRecord :=
  match output.tree with
  | none => .error .storageCorrupt
  | some tree => do
    let (master, effective) ← revisionParts item
    let (title, units) ← sourceSections item family master output tree
    if units.isEmpty then .error .storageCorrupt
    else do
      let body := joinLines (units.map LegalSection.text)
      let metadata := projectMetadata item tree master effective (sourceMetadata output)
      let returnedEffective ← returnedDate output tree "시행일자".toList
      if effective.isSome && returnedEffective ≠ effective then .error .storageCorrupt
      else do
        let (units, metadata) := disambiguateArticleSections units metadata "law_go_kr_text_v3".toList
        let publicationDate ← returnedDate output tree "공포일자".toList
        let record : LegalRecord :=
          { object := item.object, revisionId := item.revisionId, title, body, metadata, publicationDate,
            effectiveDate := returnedEffective, sourceUrl := sourceUrl family (output.format == .html) master effective,
            representation := family.representation, sections := units }
        match record.validate parsers with
        | .error _ => .error .storageCorrupt
        | .ok () => .ok record

/-- The projection of a document. The datasets other than statutes, ordinances and precedents have a projection of their own. -/
def project (parsers : Parsers) (projectAdditional : InventoryItem → DocumentOutput → Except DatabaseError LegalRecord)
    (item : InventoryItem) (output : DocumentOutput) : Except DatabaseError LegalRecord :=
  if output.format = .html && output.tree.any containsSupplementarySubtree then .error .sourceDataInvalid
  else
    let output := { output with tree := output.tree.map stripSupplementarySubtrees }
    match legalFamily item.object.dataset with
    | none => projectAdditional item output
    | some family => projectLegal parsers item family output

/-! ## What sections are made of -/

/-- The sections are made of these texts, in order and each once. -/
def MadeOf (units : List LegalSection) (texts : List Str) : Prop :=
  ∃ parts : List (List Str), units.map LegalSection.text = parts.map joinLines ∧ parts.flatten = texts ∧ ∀ part ∈ parts, part ≠ []

theorem MadeOf.append {front back : List LegalSection} {texts more : List Str} (first : MadeOf front texts) (second : MadeOf back more) :
    MadeOf (front ++ back) (texts ++ more) := by
  obtain ⟨parts, texts, rfl, filled⟩ := first
  obtain ⟨others, others_texts, rfl, others_filled⟩ := second
  refine ⟨parts ++ others, ?_, List.flatten_append, List.forall_mem_append.mpr ⟨filled, others_filled⟩⟩
  rw [List.map_append, List.map_append, texts, others_texts]

/-- The sections of a node follow those before it and are made of its content. -/
theorem sections_spec (node : DocumentNode) (out : List LegalSection) :
    ∃ added, sections out node = out ++ added ∧ MadeOf added (contentParts node) := by
  induction node using DocumentNode.induct generalizing out with
  | text value => exact ⟨[], (List.append_nil out).symm, [], rfl, rfl, List.forall_mem_nil _⟩
  | element name attributes children ih =>
    rw [sections]
    split
    · dsimp only
      split
      · next empty =>
        rw [List.isEmpty_iff] at empty
        exact ⟨[], (List.append_nil out).symm, [], rfl, by rw [empty]; rfl, List.forall_mem_nil _⟩
      · next filled =>
        refine ⟨_, rfl, [contentParts (.element name attributes children)], rfl, List.append_nil _, List.forall_mem_singleton.mpr ?_⟩
        simpa using filled
    · next other =>
      have inner : contentField (localName name) = false := by
        rw [Bool.not_eq_true, Bool.or_eq_false_iff] at other
        exact other.2
      rw [contentParts, if_neg (by rw [inner]; decide)]
      clear other inner
      induction children generalizing out with
      | nil => exact ⟨[], (List.append_nil out).symm, [], rfl, rfl, List.forall_mem_nil _⟩
      | cons child children rest =>
        obtain ⟨head, tail⟩ := List.forall_mem_cons.mp ih
        obtain ⟨added, same, made⟩ := head out
        obtain ⟨more, others, remade⟩ := rest tail (out ++ added)
        refine ⟨added ++ more, ?_, made.append remade⟩
        rw [sectionsOfAll, same, others, List.append_assoc]

theorem disambiguate_texts (units : List LegalSection) (metadata : Map Str Str) (projectionVersion : Str) :
    (disambiguateArticleSections units metadata projectionVersion).1.map LegalSection.text = units.map LegalSection.text := by
  rw [disambiguateArticleSections]
  split
  · rfl
  · apply List.ext_getElem?
    intro i
    rw [List.getElem?_map, List.getElem?_mapIdx, List.getElem?_map, Option.map_map]
    congr 1
    funext unit
    rw [Function.comp_apply]
    split <;> rfl

/-! ## Records -/

/-- A record holds the legal text of a tree: its sections are made of the outermost content fields outside annexes, its body is
their join, and no two of them share an id. -/
structure Holds (tree : DocumentNode) (record : LegalRecord) : Prop where
  texts : MadeOf record.sections (fieldTexts tree)
  body : record.body = joinLines (record.sections.map LegalSection.text)
  ids : (record.sections.map LegalSection.id).Nodup

variable {parsers : Parsers} {projectAdditional : InventoryItem → DocumentOutput → Except DatabaseError LegalRecord}
  {item : InventoryItem} {family : LegalFamily} {output : DocumentOutput} {record : LegalRecord}

theorem xmlSections_units {master title : Str} {tree : DocumentNode} {units : List LegalSection}
    (read : xmlSections item family master tree = .ok (title, units)) : units = sections [] tree := by
  rw [xmlSections] at read
  split at read
  · cases read
  · split_ifs at read
    split at read
    · cases read
    · cases read
      rfl

theorem projectLegal_holds {tree : DocumentNode} (xml : output.format = .xml)
    (pruned : output.tree = some (stripSupplementarySubtrees tree)) (projected : projectLegal parsers item family output = .ok record) :
    Holds tree record := by
  rw [projectLegal, pruned] at projected
  simp only [bind_eq_ok, ite_error_eq_ok] at projected
  obtain ⟨⟨master, effective⟩, -, ⟨title, units⟩, read, -, returned, -, -, publication, -, projected⟩ := projected
  rw [sourceSections, if_neg (by rw [xml]; decide)] at read
  obtain ⟨added, same, made⟩ := sections_spec (stripSupplementarySubtrees tree) []
  rw [contentParts_strip] at made
  have units_eq : units = added := (xmlSections_units read).trans same
  split at projected
  · cases projected
  next accepted =>
    cases projected
    have texts := disambiguate_texts units (projectMetadata item (stripSupplementarySubtrees tree) master effective (sourceMetadata output))
      "law_go_kr_text_v3".toList
    constructor
    · obtain ⟨parts, joined, whole, filled⟩ := made
      rw [← units_eq, ← texts] at joined
      exact ⟨parts, joined, whole, filled⟩
    · exact congrArg joinLines texts.symm
    · exact LegalRecord.nodup_of_validate parsers accepted

/-- Two XML documents that differ at most inside annexes and in the flattened text. -/
structure AlikeOutputs (left right : DocumentOutput) : Prop where
  left_xml : left.format = .xml
  right_xml : right.format = .xml
  tree : Option.Rel Alike left.tree right.tree
  diagnostics : left.diagnostics = right.diagnostics

/-- An XML document is not read from its flattened text. -/
theorem projectLegal_congr {left right : DocumentOutput} (left_xml : left.format = .xml) (right_xml : right.format = .xml)
    (tree : left.tree = right.tree) (diagnostics : left.diagnostics = right.diagnostics) :
    projectLegal parsers item family left = projectLegal parsers item family right := by
  obtain ⟨format, tree, text, diagnostics⟩ := left
  obtain ⟨_, _, other, _⟩ := right
  cases left_xml
  cases right_xml
  cases tree
  cases diagnostics
  rfl

theorem AlikeOutputs.strip_eq {left right : DocumentOutput} (alike : AlikeOutputs left right) :
    left.tree.map stripSupplementarySubtrees = right.tree.map stripSupplementarySubtrees := by
  have related := alike.tree
  generalize left.tree = one at related
  generalize right.tree = other at related
  cases related with
  | none => rfl
  | some same => rw [Option.map_some, Option.map_some, same.strip_eq]

/-- The projection neither loses nor repeats legal text, and what is inside an annex does not change it. -/
theorem project_exact (legal : item.object.dataset ∈ [Dataset.nationalStatute, .ordinance, .precedent]) :
    (∀ output tree record, output.format = .xml → output.tree = some tree →
      project parsers projectAdditional item output = .ok record → Holds tree record) ∧
    ∀ left right, AlikeOutputs left right →
      project parsers projectAdditional item left = project parsers projectAdditional item right := by
  obtain ⟨family, known⟩ : ∃ family, legalFamily item.object.dataset = some family := by
    simp only [List.mem_cons, List.not_mem_nil, or_false] at legal
    rcases legal with same | same | same <;> rw [same] <;> exact ⟨_, rfl⟩
  have xml_project {output : DocumentOutput} (xml : output.format = .xml) : project parsers projectAdditional item output =
      projectLegal parsers item family { output with tree := output.tree.map stripSupplementarySubtrees } := by
    rw [project, if_neg (by rw [xml]; simp), known]
  constructor
  · intro output tree record xml parsed projected
    rw [xml_project xml, parsed] at projected
    exact @projectLegal_holds parsers item family { output with tree := some (stripSupplementarySubtrees tree) } record tree xml rfl
      projected
  · intro left right alike
    rw [xml_project alike.left_xml, xml_project alike.right_xml]
    exact projectLegal_congr alike.left_xml alike.right_xml alike.strip_eq alike.diagnostics

/-- Parsers that take every address and have no list of resources. -/
def sampleParsers : Parsers where
  parseUrl _ := some ⟨"https".toList, some "www.law.go.kr".toList, [], none, none, []⟩
  resourcesFromStr _ := none

def sampleItem : InventoryItem where
  object := ⟨"kr".toList, "law_go_kr".toList, .ordinance, "7".toList⟩
  revisionId := "9".toList
  effectiveDate := none
  publicationDate := none
  title := "t".toList
  dataSource := none
  caseNumber := none
  treatyClassCode := none
  amendmentType := none
  short := by decide

/-- An ordinance with a repeated article key and an annex. -/
def sampleOutput (annex : List DocumentNode) (text : Str) : DocumentOutput :=
  let unit (body : String) : DocumentNode :=
    .element articleUnit [("조문키".toList, "1".toList)] [.element "조문내용".toList [] [.text body.toList]]
  ⟨.xml, some (.element "자치법규".toList [] [.element "자치법규ID".toList [] [.text "7".toList],
    .element "자치법규명".toList [] [.text "t".toList], unit "a", .element "별표".toList [] annex, unit "b"]), text, []⟩

theorem project_exact_sample : ∃ tree record, (sampleOutput [.text "x".toList] []).tree = some tree ∧
    project sampleParsers (fun _ _ => .error .invalidInput) sampleItem (sampleOutput [] "x".toList) = .ok record ∧
    record.sections.map LegalSection.id = ["article:1:source_ordinal:1".toList, "article:1:source_ordinal:2".toList] ∧
    Holds tree record := by
  have ids : ((project sampleParsers (fun _ _ => .error .invalidInput) sampleItem (sampleOutput [.text "x".toList] [])).toOption.map
      fun record => record.sections.map LegalSection.id) =
        some ["article:1:source_ordinal:1".toList, "article:1:source_ordinal:2".toList] := by decide +kernel
  obtain ⟨record, projected, sections⟩ := Option.map_eq_some_iff.mp ids
  have accepted : project sampleParsers (fun _ _ => .error .invalidInput) sampleItem (sampleOutput [.text "x".toList] []) = .ok record := by
    cases known : project sampleParsers (fun _ _ => .error .invalidInput) sampleItem (sampleOutput [.text "x".toList] []) with
    | error _ =>
      rw [known] at projected
      cases projected
    | ok other =>
      rw [known] at projected
      cases projected
      rfl
  obtain ⟨holds, same⟩ := @project_exact sampleParsers (fun _ _ => .error .invalidInput) sampleItem (by decide)
  have alike : AlikeOutputs (sampleOutput [] "x".toList) (sampleOutput [.text "x".toList] []) :=
    ⟨rfl, rfl, .some (.element _ _ (.cons (.refl _) (.cons (.refl _) (.cons (.refl _) (.left rfl (.right rfl (.cons (.refl _) .nil))))))),
      rfl⟩
  exact ⟨_, record, rfl, (same _ _ alike).trans accepted, sections, holds _ _ record rfl rfl accepted⟩

end OpenLegal.LawGoKr
