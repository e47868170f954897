import OpenLegal.LawGoKr.Contributions

/-! # Details of records

The detail of a record is its projection with what its attachments contribute, and metadata that says which of them are listed,
missing and retained. Datasets whose rights are unknown only have metadata.
-/

namespace OpenLegal.LawGoKr

open Rust Rust.Str Legal Corpus

structure SourceObservationInput where
  sourceKey : Str
  raw : Option Bytes
  mediaType : Str
  rights : SourceRights
  metadata : Map Str Str
  observedAt : ℕ

structure ProviderDetail where
  sourceObservations : List SourceObservationInput
  retrievedAt : ℕ
  record : LegalRecord
  raw : Bytes
  additionalEvidence : List Bytes
  processorVersion : Str

/-- What a retrieval meets: the clock, whether source observations are archived, the answers to the request for the record, and
those to each request for an attachment. -/
structure Session where
  now : ℕ
  archives : Bool
  primary : Exchange
  attempts : ℕ → ℕ → Exchange

namespace Rights

def legalInformation : SourceRights where
  basis := "LAW OPEN DATA legal-information reuse policy".toList
  evidenceUrl := "https://open.law.go.kr/LSO/information/guide.do".toList
  attribution := "법제처 국가법령정보센터 / 원 제공기관".toList
  commercialUse := some true
  derivatives := some true
  redistribution := some true

def unknown : SourceRights := ⟨[], [], [], none, none, none⟩

def warnings (parsers : Parsers) (rights : SourceRights) : List Str :=
  (if rights.canStore parsers then [] else ["rights_unverified".toList]) ++
    (if rights.commercialUse = some false then ["noncommercial_only".toList] else []) ++
    (if rights.derivatives = some false then ["no_derivatives_original_only".toList] else [])

/-- The warnings of all resources, in alphabetical order. -/
def recordWarnings (parsers : Parsers) (metadata : Map Str Str) : List Str :=
  let resources := ((metadata.get LegalRecord.originalResourcesKey).bind parsers.resourcesFromStr).getD []
  ["no_derivatives_original_only".toList, "noncommercial_only".toList, "rights_unverified".toList].filter fun warning =>
    resources.any fun resource => (warnings parsers resource.rights).contains warning

end Rights

/-- `map_err(|_| StorageCorrupt)`. -/
def orCorrupt {α : Type} : Option α → Except DatabaseError α
  | some value => .ok value
  | none => .error .storageCorrupt

/-! ## Metadata only -/

def validateForDetail (item : InventoryItem) : Except DatabaseError Unit := do
  item.object.validate
  let _ ← revisionParts item
  if item.effectiveDate.any (!validDate ·) || item.publicationDate.any (!validDate ·) || byteLen item.title > 512 ||
    item.dataSource.any (byteLen · > 512) || item.caseNumber.any (byteLen · > 512) || item.amendmentType.any (byteLen · > 64) then
    .error .invalidInput
  else .ok ()

/-- The body of the provider, or the item itself. -/
def metadataRaw (codec : Codec) (item : InventoryItem) (raw : Bytes) (retained : Bool) : Except DatabaseError Bytes :=
  if retained then .ok raw else orCorrupt (codec.itemToVec item)

def metadataDetail (client : Client) (item : InventoryItem) (raw : Bytes) (retrievedAt : ℕ) (retained : Bool) :
    Except DatabaseError ProviderDetail := do
  validateForDetail item
  let family := client.sourceFamily item.object.dataset
  let resource : ListedResource :=
    { ordinal := 0, title := item.title, mediaType := "application/xml".toList, sourceUrl := family.guideUrl, retained
      rights := if retained then Rights.legalInformation else Rights.unknown }
  let resources ← orCorrupt (client.codec.resourcesToString [resource])
  let metadata := (∅ : Map Str Str).insert LegalRecord.originalResourcesKey resources
  let metadata := metadata.insert "body_status".toList
    (if retained then "provider_original_only".toList else "rights_unverified_metadata_only".toList)
  let metadata :=
    if retained then
      metadata.insert "identity_verification".toList "verified request identity; response fields undocumented".toList
    else metadata
  let record : LegalRecord :=
    { object := item.object, revisionId := item.revisionId, title := item.title, body := [], metadata
      publicationDate := item.publicationDate, effectiveDate := item.effectiveDate, sourceUrl := family.guideUrl
      representation := if retained then "provider-original".toList else "metadata-only".toList, sections := [] }
  record.validate client.parsers
  let raw ← metadataRaw client.codec item raw retained
  .ok { sourceObservations := [], retrievedAt, record, raw, additionalEvidence := [], processorVersion := "law-original-v1".toList }

/-- What is checked before a detail route is built. -/
def detailUrl (client : Client) (item : InventoryItem) : Except DatabaseError Unit := do
  item.object.validate
  let _ ← revisionParts item
  let family := client.sourceFamily item.object.dataset
  if family.detailMode = .listOnly then .error .sourceUnavailable
  else if family.detailMode = .termName && (item.title.isEmpty || byteLen item.title > 512 || item.title.any isControl) then
    .error .invalidInput
  else .ok ()

/-- The response of the transport, unless the archive has it already. -/
def englishObservation (session : Session) (item : InventoryItem) (guide : Option Str) (raw : Bytes) (retrievedAt : ℕ) :
    Except DatabaseError (List SourceObservationInput) :=
  if session.archives then .ok []
  else
    match guide with
    | none => .error .sourceDataInvalid
    | some guide =>
      let metadata := ((∅ : Map Str Str).insert "status".toList "response_identity_unverified".toList).insert
        "requested_revision".toList item.revisionId
      .ok [{ sourceKey := "law_go_kr:".toList ++ guide ++ [':'] ++ item.revisionId, raw := some raw
             mediaType := "application/xml".toList, rights := Rights.legalInformation, observedAt := retrievedAt
             metadata := if hasCredentialRedaction raw then metadata.insert "credentials_redacted".toList "true".toList else metadata }]

/-- The translations come without an identity, so that only metadata is kept of them. -/
def englishDetail (client : Client) (session : Session) (item : InventoryItem) : Except DatabaseError ProviderDetail := do
  detailUrl client item
  let (raw, retrievedAt) ← fetchOriginal client.scanners session.primary .xml none
  let detail ← metadataDetail client item [] retrievedAt false
  let sourceObservations ← englishObservation session item (client.sourceFamily item.object.dataset).detailGuide raw retrievedAt
  let metadata :=
    if hasCredentialRedaction raw then
      detail.record.metadata.insert "transport_credentials_redacted".toList "true".toList
    else detail.record.metadata
  let metadata := metadata.insert "body_status".toList "response_identity_unverified_metadata_only".toList
  .ok { detail with sourceObservations, record := { detail.record with metadata } }

/-! ## Records with attachments -/

def precedentHtml (item : InventoryItem) : Bool :=
  item.object.dataset == .precedent && item.dataSource.any fun source => source = "국세법령정보시스템".toList || source = "국세청".toList

def supplementaryKey : Str := "supplementary_projection".toList

/-- The provision numbers of a statute go into the metadata. -/
def insertProvisions (client : Client) (item : InventoryItem) (tree : Option DocumentNode) (metadata : Map Str Str) :
    Except DatabaseError (Map Str Str) :=
  if item.object.dataset ≠ .nationalStatute then .ok metadata
  else do
    let tree ← orCorrupt tree
    let provisions ← client.provisionNumbersChecked tree
    let encoded ← orCorrupt (client.codec.textsToString provisions)
    .ok (metadata.insert "provider_provisions_json".toList encoded)

/-- The record that a document is projected to, and the links of its attachments. -/
structure Primary where
  record : LegalRecord
  links : List AttachmentLink
  raw : Bytes
  retrievedAt : ℕ
  processorVersion : Str

/-- The check of the document of a record. -/
def projectDetail (client : Client) (item : InventoryItem) (output : ProcessedDocument) (raw : Bytes) (retrievedAt : ℕ) :
    Except DatabaseError Primary := do
  let record ← project client.parsers (projectAdditional client.parsers client.sourceFamily client.formEncode) item output.toDocumentOutput
  let metadata ← insertProvisions client item output.tree record.metadata
  let metadata :=
    if output.tree.any containsSupplementarySubtree then
      metadata.insert supplementaryKey "separate_rights_required".toList
    else metadata
  let record := { record with metadata }
  match record.validate client.parsers with
  | .error _ => .error .storageCorrupt
  | .ok () => do
    let tree ← orCorrupt output.tree
    let links ← client.attachmentLinks tree
    .ok { record, links, raw, retrievedAt, processorVersion := output.processorVersion }

def primaryResource (html : Bool) (record : LegalRecord) : ListedResource where
  ordinal := 0
  title := record.title
  mediaType := if html then "text/html".toList else "application/xml".toList
  sourceUrl := record.sourceUrl
  retained := (record.metadata.get supplementaryKey).isNone
  rights := Rights.legalInformation

/-- What the loop over the attachments starts with. -/
def Primary.collected (primary : Primary) (html : Bool) : Collected where
  record := primary.record
  total := primary.raw.length
  extracted := 0
  resources := [primaryResource html primary.record]
  additionalEvidence := []
  evidenceOrdinals := []
  missing := []

def evidenceOrdinalsKey : Str := "attachment_evidence_ordinals".toList

/-- Missing attachments are reported. -/
def reportMissing (codec : Codec) (expectedCount : ℕ) (collected : Collected) : Except DatabaseError (Map Str Str) :=
  if collected.missing.isEmpty then .ok collected.record.metadata
  else do
    let metadata := collected.record.metadata.insert "attachment_status".toList "incomplete".toList
    let metadata := metadata.insert "attachment_expected_count".toList (decimal expectedCount)
    let metadata := metadata.insert "attachment_available_count".toList (decimal (expectedCount - collected.missing.length))
    let failures ← orCorrupt (codec.failuresToString collected.missing)
    let metadata := metadata.insert attachmentFailuresKey failures
    let ordinals ← orCorrupt (codec.ordinalsToString collected.evidenceOrdinals)
    .ok (metadata.insert evidenceOrdinalsKey ordinals)

/-- What is said about the attachments as a whole. -/
def finishMetadata (client : Client) (expectedCount : ℕ) (collected : Collected) : Except DatabaseError (Map Str Str) := do
  let metadata ← reportMissing client.codec expectedCount collected
  let ordinals ← orCorrupt (client.codec.ordinalsToString collected.evidenceOrdinals)
  let metadata := metadata.insert evidenceOrdinalsKey ordinals
  let resources ← orCorrupt (client.codec.resourcesToString collected.resources)
  let metadata := metadata.insert LegalRecord.originalResourcesKey resources
  let warnings ← orCorrupt (client.codec.textsToString (Rights.recordWarnings client.parsers metadata))
  .ok (metadata.insert "rights_warnings".toList warnings)

/-- The detail of a record that its document and its attachments are retrieved for. -/
def recordDetail (client : Client) (session : Session) (item : InventoryItem) : Except DatabaseError ProviderDetail := do
  detailUrl client item
  let html := precedentHtml item
  let primary ← fetchParseTimedChecked client.scanners session.primary (bif html then .html else .xml) (projectDetail client item)
  let collected ← collectAttachments client session.attempts 1 primary.links (primary.collected html)
  let metadata ← finishMetadata client primary.links.length collected
  let record := { collected.record with metadata }
  match record.validate client.parsers with
  | .error _ => .error .sourceDataInvalid
  | .ok () =>
    .ok { sourceObservations := [], retrievedAt := primary.retrievedAt, record, raw := primary.raw
          additionalEvidence := collected.additionalEvidence, processorVersion := primary.processorVersion }

/-- Unknown rights never authorize a download. -/
def detail (client : Client) (session : Session) (item : InventoryItem) : Except DatabaseError ProviderDetail :=
  let family := client.sourceFamily item.object.dataset
  if family.metadataOnly || family.detailMode = .listOnly then metadataDetail client item [] session.now false
  else if item.object.dataset = .englishStatute then englishDetail client session item
  else recordDetail client session item

/-! ## What a detail says about its attachments -/

variable {client : Client} {session : Session} {item : InventoryItem} {result : ProviderDetail}

theorem orCorrupt_eq_ok {α : Type} {value : Option α} {a : α} : orCorrupt value = .ok a ↔ value = some a := by
  cases value with
  | none => exact ⟨nofun, nofun⟩
  | some b => exact ⟨fun same => by cases same; rfl, fun same => by cases same; rfl⟩

/-- Datasets whose rights or whose identities are unknown, or that come without a detail. -/
def Unverified (client : Client) (item : InventoryItem) : Prop :=
  (client.sourceFamily item.object.dataset).metadataOnly = true ∨ (client.sourceFamily item.object.dataset).detailMode = .listOnly ∨
    item.object.dataset = .englishStatute

/-- A detail of which only metadata is kept. -/
structure MetadataOnly (client : Client) (item : InventoryItem) (result : ProviderDetail) : Prop where
  dataset : Unverified client item
  sections : result.record.sections = []
  evidence : result.additionalEvidence = []
  unattached : Unattached result.record.metadata
  unlisted : result.record.metadata.get evidenceOrdinalsKey = none

/-- The record is the projection of this document, whose tree has these links. -/
structure ProjectedFrom (client : Client) (item : InventoryItem) (document : ProcessedDocument) (projected : LegalRecord)
    (links : List AttachmentLink) : Prop where
  record : project client.parsers (projectAdditional client.parsers client.sourceFamily client.formEncode) item
    document.toDocumentOutput = .ok projected
  links : ∃ tree, document.tree = some tree ∧ client.attachmentLinks tree = .ok links

/-- The request for a record brought the bytes of the result, and what the processor made of them was projected. -/
structure Projected (client : Client) (session : Session) (item : InventoryItem) (result : ProviderDetail) (projected : LegalRecord)
    (links : List AttachmentLink) : Prop where
  dataset : ¬ Unverified client item
  source : ∃ body output,
    fetchBody client.scanners session.primary (bif precedentHtml item then .html else .xml) none = .ok body ∧
      session.primary.processed = .ok output ∧ result.raw = body.raw ∧
        ProjectedFrom client item (markDiagnostics body.credentialsRedacted output) projected links

/-- A key of the metadata holds an encoded list. -/
def Encodes {α : Type} (encode : List α → Option Str) (metadata : Map Str Str) (key : Str) (values : List α) : Prop :=
  ∃ encoded, encode values = some encoded ∧ metadata.get key = some encoded

/-- What is in a detail is what its attachments contributed: the pages of the listed ones, and the evidence of the retained ones. -/
structure Accounted (client : Client) (session : Session) (projected : LegalRecord) (links : List AttachmentLink) (result : ProviderDetail)
    (contributions : List Contribution) (processors : List AttachmentProcessor) (failures : List MissingAttachment)
    (ordinals : List ℕ) (resources : List ListedResource) : Prop where
  contributed : Contributed client.scanners session.attempts 1 links contributions
  sections : result.record.sections = projected.sections ++ contributions.flatMap Contribution.sections
  listed : storedProcessors client.codec result.record.metadata = some processors
  exactly_listed : processors = contributions.filterMap Contribution.processor
  listed_ascending : (processors.map AttachmentProcessor.ordinal).Pairwise (· < ·)
  reported : if failures = [] then result.record.metadata.get attachmentFailuresKey = none
    else Encodes client.codec.failuresToString result.record.metadata attachmentFailuresKey failures
  apart : ∀ processor ∈ processors, ∀ failure ∈ failures, processor.ordinal ≠ failure.ordinal
  evidence_ordinals : Encodes client.codec.ordinalsToString result.record.metadata evidenceOrdinalsKey ordinals
  evidence_ascending : ordinals.Pairwise (· < ·)
  evidence : List.Forall₂ (fun ordinal bytes => ∃ link, (link, ordinal) ∈ links.zipIdx 1 ∧
    Brought client.scanners (session.attempts ordinal) link.format bytes) ordinals result.additionalEvidence
  original_resources : Encodes client.codec.resourcesToString result.record.metadata LegalRecord.originalResourcesKey resources
  each_resource : resources.map (·.ordinal) = List.range (links.length + 1)
  retained : ∀ resource ∈ resources, 0 < resource.ordinal →
    (resource.retained = true ↔ resource.ordinal ∈ ordinals ∧ ∀ failure ∈ failures, failure.ordinal ≠ resource.ordinal)
  bytes : result.raw.length + (result.additionalEvidence.map List.length).sum ≤ 100 * 1024 * 1024
  text : ((contributions.flatMap Contribution.sections).map fun unit => byteLen unit.text).sum ≤ 16 * 1024 * 1024

theorem insert_get_of_ne {metadata : Map Str Str} {key other value : Str} {found : Option Str} (different : other ≠ key)
    (get : metadata.get other = found) : (metadata.insert key value).get other = found :=
  (Map.get_insert_of_ne metadata different value).trans get

theorem reportMissing_ok {codec : Codec} {expectedCount : ℕ} {collected : Collected} {metadata : Map Str Str}
    (unreported : collected.record.metadata.get attachmentFailuresKey = none)
    (reported : reportMissing codec expectedCount collected = .ok metadata) :
    metadata.get attachmentProcessorsKey = collected.record.metadata.get attachmentProcessorsKey ∧
      if collected.missing = [] then metadata.get attachmentFailuresKey = none
      else Encodes codec.failuresToString metadata attachmentFailuresKey collected.missing := by
  rw [reportMissing] at reported
  split at reported
  · next empty =>
    cases reported
    rw [if_pos (List.isEmpty_iff.mp empty)]
    exact ⟨rfl, unreported⟩
  · next filled =>
    simp only [bind_eq_ok, orCorrupt_eq_ok] at reported
    obtain ⟨failures, encoded, ordinals, -, same⟩ := reported
    cases same
    rw [if_neg (by rwa [List.isEmpty_iff] at filled)]
    constructor
    · iterate 5 refine insert_get_of_ne (by decide) ?_
      rfl
    · exact ⟨failures, encoded, insert_get_of_ne (by decide) (Map.get_insert _ _ _)⟩

theorem finishMetadata_ok {expectedCount : ℕ} {collected : Collected} {metadata : Map Str Str}
    (unreported : collected.record.metadata.get attachmentFailuresKey = none)
    (finished : finishMetadata client expectedCount collected = .ok metadata) :
    metadata.get attachmentProcessorsKey = collected.record.metadata.get attachmentProcessorsKey ∧
      (if collected.missing = [] then metadata.get attachmentFailuresKey = none
        else Encodes client.codec.failuresToString metadata attachmentFailuresKey collected.missing) ∧
      Encodes client.codec.ordinalsToString metadata evidenceOrdinalsKey collected.evidenceOrdinals ∧
      Encodes client.codec.resourcesToString metadata LegalRecord.originalResourcesKey collected.resources := by
  simp only [finishMetadata, bind_eq_ok, orCorrupt_eq_ok] at finished
  obtain ⟨reported, report, ordinals, listed, resources, known, warnings, -, same⟩ := finished
  cases same
  obtain ⟨processors, failures⟩ := reportMissing_ok unreported report
  refine ⟨?_, ?_, ⟨ordinals, listed, ?_⟩, ⟨resources, known, ?_⟩⟩
  · iterate 3 refine insert_get_of_ne (by decide) ?_
    exact processors
  · split at failures
    · next empty =>
      rw [if_pos empty]
      iterate 3 refine insert_get_of_ne (by decide) ?_
      exact failures
    · next filled =>
      rw [if_neg filled]
      obtain ⟨encoded, same, found⟩ := failures
      refine ⟨encoded, same, ?_⟩
      iterate 3 refine insert_get_of_ne (by decide) ?_
      exact found
  · iterate 2 refine insert_get_of_ne (by decide) ?_
    exact Map.get_insert _ _ _
  · refine insert_get_of_ne (by decide) ?_
    exact Map.get_insert _ _ _

/-- The account of a record whose attachments are still to come. -/
theorem projectDetail_ok {output : ProcessedDocument} {raw : Bytes} {retrievedAt : ℕ} {primary : Primary}
    (accepted : projectDetail client item output raw retrievedAt = .ok primary) :
    primary.raw = raw ∧ Unattached primary.record.metadata ∧
      ∃ projected, ProjectedFrom client item output projected primary.links ∧ primary.record.sections = projected.sections := by
  simp only [projectDetail, bind_eq_ok] at accepted
  obtain ⟨projected, known, metadata, provisions, accepted⟩ := accepted
  have unattached := project_unattached known
  have numbered : Unattached metadata := by
    rw [insertProvisions] at provisions
    split at provisions
    · cases provisions
      exact unattached
    · simp only [bind_eq_ok] at provisions
      obtain ⟨tree, -, numbers, -, encoded, -, same⟩ := provisions
      cases same
      exact unattached.insert (by decide) _
  have marked : Unattached (if output.tree.any containsSupplementarySubtree then
      metadata.insert supplementaryKey "separate_rights_required".toList else metadata) := by
    split
    · exact numbered.insert (by decide) _
    · exact numbered
  split at accepted
  · cases accepted
  · simp only [bind_eq_ok, orCorrupt_eq_ok] at accepted
    obtain ⟨tree, parsed, links, found, same⟩ := accepted
    cases same
    exact ⟨rfl, marked, projected, ⟨known, tree, parsed, found⟩, rfl⟩

theorem Account.start {primary : Primary} (html : Bool) (unattached : Unattached primary.record.metadata)
    (small : primary.raw.length ≤ maxDocumentBytes) :
    Account client.codec (primary.collected html).toTally [primaryResource html primary.record] [] (primary.collected html) where
  sections := (List.append_nil _).symm
  processors := by
    rw [storedProcessors, show (primary.collected html).record.metadata.get attachmentProcessorsKey = none from
      unattached _ (by decide)]
    rfl
  failures := unattached _ (by decide)
  total := rfl
  fits := small
  extracted := rfl
  bounded := Nat.zero_le _
  resources := rfl
  evidence := rfl
  ordinals := rfl
  missing := rfl

theorem recordDetail_accounted (verified : ¬ Unverified client item) (fetched : recordDetail client session item = .ok result) :
    ∃ projected links contributions processors failures ordinals resources, Projected client session item result projected links ∧
      Accounted client session projected links result contributions processors failures ordinals resources := by
  simp only [recordDetail, bind_eq_ok] at fetched
  obtain ⟨_, -, primary, accepted, collected, ran, metadata, finished, fetched⟩ := fetched
  obtain ⟨body, output, received, answered, accepted⟩ := fetchParseTimedChecked_ok accepted
  obtain ⟨same, unattached, projected, source, sections⟩ := projectDetail_ok accepted
  have small : primary.raw.length ≤ maxDocumentBytes := by
    rw [same]
    exact fetchBody_length received
  obtain ⟨contributions, contributed, account⟩ :=
    collectAttachments_account (Account.start (precedentHtml item) unattached small) nofun ran
  rw [List.nil_append] at account
  obtain ⟨processors, failures, ordinals, resources⟩ := finishMetadata_ok account.failures finished
  split at fetched
  · cases fetched
  cases fetched
  refine ⟨projected, primary.links, contributions, contributions.filterMap Contribution.processor, collected.missing,
    collected.evidenceOrdinals, collected.resources, ⟨verified, body, output, received, answered, same, source⟩, ?_⟩
  exact
    { contributed
      sections := by
        rw [← sections]
        exact account.sections
      listed := (storedProcessors_congr processors).trans account.processors
      exactly_listed := rfl
      listed_ascending := contributed.processors_ascending
      reported := failures
      apart := by
        rw [account.missing]
        exact contributed.apart
      evidence_ordinals := ordinals
      evidence_ascending := by
        rw [account.ordinals]
        exact contributed.evidence_ascending
      evidence := by
        rw [account.ordinals]
        refine account.evidence ▸ evidence_forall₂ ?_
        intro contribution member bytes kept
        exact ⟨contribution.link, contributed.mem_zipIdx member, (contributed.valid contribution member).brought bytes kept⟩
      original_resources := resources
      each_resource := by
        rw [account.resources, List.map_append, List.map_map]
        change 0 :: contributions.map Contribution.ordinal = _
        rw [contributed.ordinals, List.range_eq_range', List.range'_succ]
      retained := by
        intro resource member positive
        rw [account.resources, List.mem_append, List.mem_singleton, List.mem_map] at member
        rw [account.ordinals, account.missing]
        rcases member with rfl | ⟨contribution, member, rfl⟩
        · cases positive
        · exact contributed.retained member
      bytes := by
        have total := account.total
        rw [← size_filterMap, ← account.evidence] at total
        exact total ▸ account.fits
      text := by
        have bounded := account.bounded
        rw [account.extracted] at bounded
        exact bounded }

theorem metadataDetail_only {raw : Bytes} {retrievedAt : ℕ} (unverified : Unverified client item)
    (known : metadataDetail client item raw retrievedAt false = .ok result) : MetadataOnly client item result := by
  simp only [metadataDetail, bind_eq_ok] at known
  obtain ⟨_, -, resources, -, _, -, body, -, same⟩ := known
  cases same
  refine ⟨unverified, rfl, rfl, (unattached_empty.insert (by decide) _).insert (by decide) _, ?_⟩
  exact insert_get_of_ne (by decide) (insert_get_of_ne (by decide) (Map.get_empty _))

theorem englishDetail_only (unverified : Unverified client item) (known : englishDetail client session item = .ok result) :
    MetadataOnly client item result := by
  simp only [englishDetail, bind_eq_ok] at known
  obtain ⟨_, -, ⟨raw, retrievedAt⟩, -, plain, described, observations, -, same⟩ := known
  cases same
  have only := metadataDetail_only unverified described
  refine ⟨unverified, only.sections, only.evidence, ?_, ?_⟩
  · refine Unattached.insert ?_ (by decide) _
    split
    · exact only.unattached.insert (by decide) _
    · exact only.unattached
  · refine insert_get_of_ne (by decide) ?_
    split
    · exact insert_get_of_ne (by decide) only.unlisted
    · exact only.unlisted

/-- A failed attachment leaves nothing behind. Whatever the requests meet, a detail either is metadata only, which depends on the
dataset alone, or has the projected sections and what the attachments contributed, each accounted for once. -/
theorem detail_accounted (fetched : detail client session item = .ok result) :
    MetadataOnly client item result ∨ ∃ projected links contributions processors failures ordinals resources,
      Projected client session item result projected links ∧
        Accounted client session projected links result contributions processors failures ordinals resources := by
  rw [detail] at fetched
  split at fetched
  · next unknown =>
    rw [Bool.or_eq_true, decide_eq_true_eq] at unknown
    exact .inl (metadataDetail_only (unknown.imp_right .inl) fetched)
  next known =>
  rw [Bool.or_eq_true, decide_eq_true_eq, not_or] at known
  split at fetched
  · next english => exact .inl (englishDetail_only (.inr (.inr english)) fetched)
  · next other => exact .inr (recordDetail_accounted (not_or.mpr ⟨known.1, not_or.mpr ⟨known.2, other⟩⟩) fetched)

namespace Sample

def digest : Str := "468b145bbc44c6e9436af27c6aa4378a76b0e1c52829f59abd537da87572f240".toList

def link : AttachmentLink := ⟨"https://www.law.go.kr/LSW/flDownload.do".toList, .pdf, "별표서식PDF파일링크".toList, Rights.legalInformation⟩

def parsers : Parsers where
  parseUrl := sampleParsers.parseUrl
  resourcesFromStr _ := some
    [⟨0, "https://www.law.go.kr/DRF/lawService.do?target=ordin&type=XML&MST=9".toList, Rights.legalInformation⟩,
      ⟨1, link.url, Rights.legalInformation⟩, ⟨2, link.url, Rights.legalInformation⟩]

def processors : List AttachmentProcessor := [⟨2, digest, "v".toList⟩]

def encodedProcessors : Str :=
  "[\x7b\"ordinal\":2,\"source_sha256\":\"".toList ++ digest ++ "\",\"processor_version\":\"v\"\x7d]".toList

/-- A resource whose use is allowed. -/
def encodedResource (resource : ListedResource) : Str :=
  "\x7b\"ordinal\":".toList ++ decimal resource.ordinal ++ ",\"title\":\"".toList ++ resource.title ++ "\",\"media_type\":\"".toList ++
    resource.mediaType ++ "\",\"source_url\":\"".toList ++ resource.sourceUrl ++ "\",\"retained\":".toList ++
    (if resource.retained then "true".toList else "false".toList) ++ ",\"rights\":\x7b\"basis\":\"".toList ++ resource.rights.basis ++
    "\",\"evidence_url\":\"".toList ++ resource.rights.evidenceUrl ++ "\",\"attribution\":\"".toList ++ resource.rights.attribution ++
    "\",\"commercial_use\":true,\"derivatives\":true,\"redistribution\":true\x7d\x7d".toList

/-- The JSON texts of the sample. -/
def codec : Codec where
  processorsToString list := if list = processors then some encodedProcessors else none
  processorsFromStr text := if text = encodedProcessors then some processors else none
  failuresToString list := some (['['] ++ [','].intercalate (list.map fun failure =>
    "\x7b\"ordinal\":".toList ++ decimal failure.ordinal ++ ",\"expected_format\":\"pdf\",\"response_sha256\":\"".toList ++
      failure.responseSha256.getD [] ++ "\",\"reason\":\"".toList ++ failure.reason ++ "\"\x7d".toList) ++ [']'])
  ordinalsToString list := some (['['] ++ [','].intercalate (list.map decimal) ++ [']'])
  resourcesToString list := some (['['] ++ [','].intercalate (list.map encodedResource) ++ [']'])
  textsToString list := if list = [] then some "[]".toList else none
  itemToVec _ := none
  processors_roundTrip := by
    intro list encoded same
    split at same
    · next listed =>
      cases same
      rw [if_pos rfl, listed]
    · cases same

def ordinanceClient : Client where
  parsers := parsers
  sourceFamily _ := ⟨"ordin".toList, "ordinListGuide".toList, none, [], [], [], .revisionId, false⟩
  formEncode value := value
  scanners := ⟨fun _ => "21af8e71c8703196df7fe1ff901869a88fe64c07bbaa83d838efb45a52b4f303".toList, fun _ => none, fun _ => .ok [], fun _ => false, id⟩
  codec := codec
  provisionNumbersChecked _ := .ok []
  attachmentLinks _ := .ok [link, link]

def answer (body : String) (html : Bool) (pages : List DocumentPage) (output : DocumentOutput) : Exchange where
  response := .ok ⟨false, html, none, [.ok (Str.asBytes body.toList)]⟩
  settlement := .ok ()
  archived := .ok ()
  processed := .ok { output with sourceSha256 := digest, processorVersion := "v".toList, pages, ocrPages := [] }
  suspended := .ok ()
  retrievedAt := 0

/-- The first attachment comes as HTML, then with two pages of one number; the second one is in order. -/
def ordinanceSession : Session where
  now := 0
  archives := false
  primary := answer "<ordin/>" false [] (sampleOutput [] [])
  attempts ordinal attempt :=
    if ordinal = 2 then answer "%PDF-2" false [⟨1, ['c']⟩] ⟨.pdf, none, [], []⟩
    else if attempt = 0 then answer "<html>" true [] ⟨.pdf, none, [], []⟩
    else answer "%PDF-1" false [⟨1, ['a']⟩, ⟨1, ['b']⟩] ⟨.pdf, none, [], []⟩

end Sample

theorem detail_accounted_sample : ∃ result, detail Sample.ordinanceClient Sample.ordinanceSession sampleItem = .ok result ∧
    result.record.sections.map LegalSection.id =
      ["article:1:source_ordinal:1".toList, "article:1:source_ordinal:2".toList, "attachment:2:extracted:1".toList] ∧
    (MetadataOnly Sample.ordinanceClient sampleItem result ∨
      ∃ projected links contributions processors failures ordinals resources,
        Projected Sample.ordinanceClient Sample.ordinanceSession sampleItem result projected links ∧
        Accounted Sample.ordinanceClient Sample.ordinanceSession projected links result contributions processors failures ordinals resources) := by
  have ids : ((detail Sample.ordinanceClient Sample.ordinanceSession sampleItem).toOption.map fun result => result.record.sections.map LegalSection.id) =
      some ["article:1:source_ordinal:1".toList, "article:1:source_ordinal:2".toList, "attachment:2:extracted:1".toList] := by
    decide +kernel
  cases known : detail Sample.ordinanceClient Sample.ordinanceSession sampleItem with
  | error error =>
    rw [known] at ids
    cases ids
  | ok result =>
    rw [known] at ids
    exact ⟨result, rfl, Option.some.inj ids, detail_accounted known⟩

end OpenLegal.LawGoKr
