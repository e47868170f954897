import OpenLegal.LawGoKr.Project

/-! # Projecting the other documents

The datasets beside statutes, ordinances and precedents share one projection, which a table of source families drives. Whatever a
projection says about a record, it says nothing about attachments: those keys are left to the retrieval of the attachments.
-/

namespace OpenLegal.LawGoKr

open Rust Rust.Str Legal Corpus

inductive DetailMode where
  | revisionId | termName | listOnly
deriving DecidableEq, Repr

/-- What is read of an entry of the source registry. -/
structure SourceFamily where
  target : Str
  listGuide : Str
  detailGuide : Option Str
  revisionFields : List Str
  titleFields : List Str
  bodyFields : List Str
  detailMode : DetailMode
  metadataOnly : Bool

namespace SourceFamily

def guideUrl (family : SourceFamily) : Str :=
  "https://open.law.go.kr/LSO/openApi/guideResult.do?htmlName=".toList ++ family.listGuide

def detailParameter (family : SourceFamily) (dataset : Dataset) : Str :=
  if family.detailMode = .termName then "query".toList
  else if dataset = .nationalStatute || dataset = .englishStatute then "MST".toList
  else "ID".toList

end SourceFamily

/-! ## Sections -/

mutual

/-- The texts of the outermost nonempty fields among those of the family. -/
def catalogContentParts (fields : List Str) : DocumentNode → List Str
  | .text _ => []
  | .element name attributes children =>
    if fields.contains (localName name) then
      let value := textOf (.element name attributes children)
      if value.isEmpty then [] else [value]
    else catalogContentPartsOfAll fields children

def catalogContentPartsOfAll (fields : List Str) : List DocumentNode → List Str
  | [] => []
  | child :: children => catalogContentParts fields child ++ catalogContentPartsOfAll fields children

end

mutual

def catalogSections (fields : List Str) (out : List LegalSection) : DocumentNode → List LegalSection
  | .text _ => out
  | .element name attributes children =>
    if localName name = articleUnit || fields.contains (localName name) then
      let parts := catalogContentParts fields (.element name attributes children)
      if parts.isEmpty then out
      else out ++ [sectionOf (localName name) attributes (.element name attributes children) parts out.length]
    else catalogSectionsOfAll fields out children

def catalogSectionsOfAll (fields : List Str) (out : List LegalSection) : List DocumentNode → List LegalSection
  | [] => out
  | child :: children => catalogSectionsOfAll fields (catalogSections fields out child) children

end

/-! ## The projection -/

def firstOf (node : DocumentNode) (fields : List Str) : Option Str := fields.findSome? (first node)

/-- The tree has one element of a name, and this is its text. -/
def onlyText (tree : DocumentNode) (field value : Str) : Bool :=
  (elements field tree).length == 1 && first tree field == some value

def numberField (family : SourceFamily) : Dataset → Option Str
  | .administrativeAppeal => some "행정심판례일련번호".toList
  | .legalTerm => some "법령용어일련번호".toList
  | _ => family.revisionFields.head?

def titleFields (family : SourceFamily) : Dataset → List Str
  | .treaty => ["조약명_한글".toList]
  | .legalTerm => ["법령용어명_한글".toList]
  | _ => family.titleFields

/-- Rules of administrations, schools and public bodies. -/
def isRule (dataset : Dataset) : Bool :=
  [.administrativeRule, .schoolRule, .localPublicCorporationRule, .publicInstitutionRule].contains dataset

/-- The title of a document that identifies itself as the item. -/
def additionalTitle (item : InventoryItem) (family : SourceFamily) (number : Str) (tree : DocumentNode) : Except DatabaseError Str :=
  match numberField family item.object.dataset with
  | none => .error .storageCorrupt
  | some field =>
    if !onlyText tree field number then .error .storageCorrupt
    else if isRule item.object.dataset && !onlyText tree "행정규칙ID".toList item.object.id then .error .storageCorrupt
    else
      match (firstOf tree (titleFields family item.object.dataset)).filter (!·.isEmpty) with
      | none => .error .storageCorrupt
      | some title =>
        if item.object.dataset = .legalTerm && title ≠ item.title then .error .storageCorrupt else .ok title

def additionalSections (dataset : Dataset) (family : SourceFamily) (tree : DocumentNode) : List LegalSection :=
  if [Dataset.administrativeRule, .treaty, .constitutionalDecision, .legalInterpretation, .administrativeAppeal].contains dataset then
    sections [] tree
  else catalogSections family.bodyFields [] tree

/-- The fields of the document that become metadata when they are not empty. -/
def additionalFields : List (Str × Str) :=
  [("행정규칙종류", "document_type"), ("소관부처명", "authority"), ("조약구분코드", "document_type_code"), ("사건번호", "case_number"),
    ("해석기관명", "authority"), ("재결청", "authority")].map fun field => (field.1.toList, field.2.toList)

/-- The dates of the document: the field, the key of its text, and the key of the text if it is a date. -/
def additionalDates : List (Str × Str × Str) :=
  [("해석일자", "interpretation_date_raw", "interpretation_date"), ("의결일자", "decision_date_raw", "decision_date"),
    ("발령일자", "issuance_date_raw", "issuance_date")].map fun field => (field.1.toList, field.2.1.toList, field.2.2.toList)

def insertField (tree : DocumentNode) (metadata : Map Str Str) (field : Str × Str) : Map Str Str :=
  match (first tree field.1).filter (!·.isEmpty) with
  | some value => metadata.insert field.2 value
  | none => metadata

def insertDate (tree : DocumentNode) (metadata : Map Str Str) (field : Str × Str × Str) : Map Str Str :=
  match (first tree field.1).filter (!·.isEmpty) with
  | some raw =>
    let metadata := metadata.insert field.2.1 raw
    if validDate raw then metadata.insert field.2.2 raw else metadata
  | none => metadata

def treatyKind (code : Option Str) : Except DatabaseError Str :=
  if code = some "440101".toList then .ok "bilateral_treaty".toList
  else if code = some "440102".toList then .ok "multilateral_treaty".toList
  else .error .storageCorrupt

/-- A treaty says what kind it is, and as the inventory does. -/
def treatyMetadata (item : InventoryItem) (metadata : Map Str Str) : Except DatabaseError (Map Str Str) :=
  if item.object.dataset ≠ .treaty then .ok metadata
  else
    let code := metadata.get "document_type_code".toList
    if item.treatyClassCode.any (code ≠ some ·) then .error .storageCorrupt
    else do
      let kind ← treatyKind code
      .ok ((metadata.insert "document_type".toList kind).insert "character_view".toList "010202".toList)

/-- The metadata up to the kind of a treaty. -/
def additionalHead (item : InventoryItem) (number : Str) (tree : DocumentNode) (metadata : Map Str Str) : Map Str Str :=
  let metadata := metadata.insert "projection_version".toList "law_go_kr_additional_v1".toList
  let metadata := metadata.insert "provider_record_number".toList number
  let metadata := metadata.insert "section_locator_semantics".toList "source_ordinal".toList
  let metadata := insertSome metadata "amendment_type" item.amendmentType
  additionalFields.foldl (insertField tree) metadata

/-- The dates that go into the metadata. -/
def additionalTail (item : InventoryItem) (tree : DocumentNode) (metadata : Map Str Str) : Map Str Str :=
  let metadata :=
    if item.object.dataset = .constitutionalDecision then
      insertDate tree metadata
        ("종국일자".toList, "final_disposition_date_raw".toList, "final_disposition_date".toList)
    else metadata
  additionalDates.foldl (insertDate tree) metadata

def additionalEffective (dataset : Dataset) (tree : DocumentNode) : Except DatabaseError (Option Str) :=
  if isRule dataset then date (first tree "시행일자".toList)
  else if dataset = .treaty then date (first tree "발효일자".toList)
  else .ok none

/-- The public address of the document, with the value escaped as a query wants it. -/
def additionalUrl (formEncode : Str → Str) (item : InventoryItem) (family : SourceFamily) (number : Str) : Str :=
  "https://www.law.go.kr/DRF/lawService.do?target=".toList ++ family.target ++ "&type=XML&".toList ++
    family.detailParameter item.object.dataset ++ ['='] ++
    formEncode (if family.detailMode = .termName then item.title else number) ++
    if item.object.dataset = .treaty then "&chrClsCd=010202".toList else []

/-- The projection that the other datasets share. -/
def projectAdditional (parsers : Parsers) (sourceFamily : Dataset → SourceFamily) (formEncode : Str → Str) (item : InventoryItem)
    (output : DocumentOutput) : Except DatabaseError LegalRecord :=
  if output.format ≠ .xml then .error .storageCorrupt
  else
    match output.tree with
    | none => .error .storageCorrupt
    | some tree => do
      let (number, _) ← revisionParts item
      let family := sourceFamily item.object.dataset
      if item.object.dataset = .englishStatute || family.detailMode = .listOnly then .error .sourceDataInvalid
      else do
        let title ← additionalTitle item family number tree
        let units := additionalSections item.object.dataset family tree
        if units.isEmpty then .error .storageCorrupt
        else do
          let metadata ← treatyMetadata item (additionalHead item number tree (markRedactedProjection output ∅))
          let effectiveDate ← additionalEffective item.object.dataset tree
          if item.effectiveDate.isSome && effectiveDate ≠ item.effectiveDate then .error .storageCorrupt
          else
            let (units, metadata) := disambiguateArticleSections units (additionalTail item tree metadata) "law_go_kr_additional_v2".toList
            let record : LegalRecord :=
              { object := item.object, revisionId := item.revisionId, title, body := joinLines (units.map LegalSection.text), metadata
                publicationDate := none, effectiveDate, sourceUrl := additionalUrl formEncode item family number
                representation := "provider_record".toList, sections := units }
            match record.validate parsers with
            | .error _ => .error .storageCorrupt
            | .ok () => .ok record

/-! ## Keys about attachments -/

def attachmentProcessorsKey : Str := "attachment_processors".toList

def attachmentFailuresKey : Str := "attachment_failures".toList

/-- Nothing is said about attachments. -/
def Unattached (metadata : Map Str Str) : Prop :=
  ∀ key ∈ [attachmentProcessorsKey, attachmentFailuresKey], metadata.get key = none

variable {metadata : Map Str Str}

theorem unattached_empty : Unattached ∅ := fun key _ => Map.get_empty key

namespace Unattached

theorem insert (unattached : Unattached metadata) {key : Str} (other : key ∉ [attachmentProcessorsKey, attachmentFailuresKey])
    (value : Str) : Unattached (metadata.insert key value) := by
  intro wanted listed
  have different : wanted ≠ key := by
    rintro rfl
    exact other listed
  rw [Map.get_insert_of_ne _ different]
  exact unattached wanted listed

theorem insertSome (unattached : Unattached metadata) {key : String}
    (other : key.toList ∉ [attachmentProcessorsKey, attachmentFailuresKey]) (value : Option Str) :
    Unattached (LawGoKr.insertSome metadata key value) := by
  cases value with
  | none => exact unattached
  | some value => exact unattached.insert other value

theorem orInsert (unattached : Unattached metadata) {key : String}
    (other : key.toList ∉ [attachmentProcessorsKey, attachmentFailuresKey]) (value : Option Str) :
    Unattached (LawGoKr.orInsert metadata key value) := by
  rw [LawGoKr.orInsert]
  split
  · exact unattached
  · exact unattached.insertSome other value

/-- Inserting under keys of a table. -/
theorem foldl {α : Type} (unattached : Unattached metadata) {table : List α} {step : Map Str Str → α → Map Str Str}
    (keeps : ∀ entry ∈ table, ∀ metadata, Unattached metadata → Unattached (step metadata entry)) :
    Unattached (table.foldl step metadata) := by
  induction table generalizing metadata with
  | nil => exact unattached
  | cons entry table ih =>
    rw [List.forall_mem_cons] at keeps
    exact ih (keeps.1 metadata unattached) keeps.2

theorem disambiguate (unattached : Unattached metadata) (units : List LegalSection) (projectionVersion : Str) :
    Unattached (disambiguateArticleSections units metadata projectionVersion).2 := by
  rw [disambiguateArticleSections]
  split
  · exact unattached
  · exact ((((unattached.insert (by decide) _).insert (by decide) _).insert (by decide) _).insert (by decide) _).insert (by decide) _

theorem markRedacted (unattached : Unattached metadata) (output : DocumentOutput) :
    Unattached (markRedactedProjection output metadata) := by
  rw [markRedactedProjection]
  split
  · exact unattached.insert (by decide) _
  · exact unattached

end Unattached

theorem sourceMetadata_unattached (output : DocumentOutput) : Unattached (sourceMetadata output) := by
  have marked := (unattached_empty).markRedacted output
  rw [sourceMetadata]
  split
  · exact marked.insert (by decide) _
  · exact marked

theorem projectMetadata_unattached (unattached : Unattached metadata) (item : InventoryItem) (tree : DocumentNode) (master : Str)
    (effective : Option Str) : Unattached (projectMetadata item tree master effective metadata) := by
  have keys : ∀ field ∈ metadataFields, field.2 ∉ [attachmentProcessorsKey, attachmentFailuresKey] := by decide
  have fields : Unattached (metadataFields.foldl (fun metadata field =>
      match first tree field.1 with
      | some value => metadata.insert field.2 value
      | none => metadata) metadata) := by
    apply unattached.foldl
    intro field listed metadata unattached
    split
    · exact unattached.insert (keys field listed) _
    · exact unattached
  exact ((((((((fields.insertSome (by decide) _).insertSome (by decide) _).insertSome (by decide) _).orInsert (by decide) _).insert
    (by decide) _).insert (by decide) _).insert (by decide) _).insertSome (by decide) _).insertSome (by decide) _

variable {parsers : Parsers} {sourceFamily : Dataset → SourceFamily} {formEncode : Str → Str} {item : InventoryItem}
  {family : LegalFamily} {output : DocumentOutput} {record : LegalRecord} {tree : DocumentNode}

theorem projectLegal_unattached (projected : projectLegal parsers item family output = .ok record) : Unattached record.metadata := by
  rw [projectLegal] at projected
  split at projected
  · cases projected
  next tree parsed =>
    simp only [bind_eq_ok, ite_error_eq_ok] at projected
    obtain ⟨⟨master, effective⟩, -, ⟨title, units⟩, -, -, returned, -, -, publication, -, projected⟩ := projected
    split at projected
    · cases projected
    · cases projected
      exact (projectMetadata_unattached (sourceMetadata_unattached output) item tree master effective).disambiguate units _

theorem insertField_unattached (unattached : Unattached metadata) {field : Str × Str}
    (other : field.2 ∉ [attachmentProcessorsKey, attachmentFailuresKey]) : Unattached (insertField tree metadata field) := by
  rw [insertField]
  split
  · exact unattached.insert other _
  · exact unattached

theorem insertDate_unattached (unattached : Unattached metadata) {field : Str × Str × Str}
    (other : field.2.1 ∉ [attachmentProcessorsKey, attachmentFailuresKey] ∧ field.2.2 ∉ [attachmentProcessorsKey, attachmentFailuresKey]) :
    Unattached (insertDate tree metadata field) := by
  rw [insertDate]
  split
  · dsimp only
    split
    · exact (unattached.insert other.1 _).insert other.2 _
    · exact unattached.insert other.1 _
  · exact unattached

theorem additionalHead_unattached (unattached : Unattached metadata) (number : Str) :
    Unattached (additionalHead item number tree metadata) := by
  have keys : ∀ field ∈ additionalFields, field.2 ∉ [attachmentProcessorsKey, attachmentFailuresKey] := by decide
  apply Unattached.foldl
  · exact (((unattached.insert (by decide) _).insert (by decide) _).insert (by decide) _).insertSome (by decide) _
  · intro field listed metadata unattached
    exact insertField_unattached unattached (keys field listed)

theorem additionalTail_unattached (unattached : Unattached metadata) : Unattached (additionalTail item tree metadata) := by
  have keys : ∀ field ∈ additionalDates, field.2.1 ∉ [attachmentProcessorsKey, attachmentFailuresKey] ∧
      field.2.2 ∉ [attachmentProcessorsKey, attachmentFailuresKey] := by decide
  apply Unattached.foldl
  · split
    · exact insertDate_unattached unattached (by decide)
    · exact unattached
  · intro field listed metadata unattached
    exact insertDate_unattached unattached (keys field listed)

theorem treatyMetadata_unattached {result : Map Str Str} (unattached : Unattached metadata)
    (read : treatyMetadata item metadata = .ok result) : Unattached result := by
  rw [treatyMetadata] at read
  split at read
  · cases read
    exact unattached
  · simp only [bind_eq_ok, ite_error_eq_ok] at read
    obtain ⟨-, kind, -, read⟩ := read
    cases read
    exact (unattached.insert (by decide) _).insert (by decide) _

theorem projectAdditional_unattached (projected : projectAdditional parsers sourceFamily formEncode item output = .ok record) :
    Unattached record.metadata := by
  rw [projectAdditional, ite_error_eq_ok] at projected
  obtain ⟨-, projected⟩ := projected
  split at projected
  · cases projected
  next tree parsed =>
    simp only [bind_eq_ok, ite_error_eq_ok] at projected
    obtain ⟨⟨number, _⟩, -, -, title, -, -, metadata, kind, effectiveDate, -, -, projected⟩ := projected
    split at projected
    · cases projected
    · cases projected
      have head : Unattached (additionalHead item number tree (markRedactedProjection output ∅)) :=
        additionalHead_unattached (unattached_empty.markRedacted output) number
      exact (additionalTail_unattached (treatyMetadata_unattached head kind)).disambiguate _ _

/-- A projected record says nothing about attachments. -/
theorem project_unattached (projected : project parsers (projectAdditional parsers sourceFamily formEncode) item output = .ok record) :
    Unattached record.metadata := by
  rw [project, ite_error_eq_ok] at projected
  obtain ⟨-, projected⟩ := projected
  dsimp only at projected
  split at projected
  · exact projectAdditional_unattached projected
  · exact projectLegal_unattached projected

end OpenLegal.LawGoKr
