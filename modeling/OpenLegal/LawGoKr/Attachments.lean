import OpenLegal.LawGoKr.Additional
import OpenLegal.LawGoKr.Fetch
import OpenLegal.Theory.Effects

/-! # Collecting attachments

The attachments of a record are fetched one after another. An attachment whose pages pass the checks adds them to the record; one
that fails, even halfway through its pages, is reported missing, and what it had added is taken back.
-/

namespace OpenLegal.LawGoKr

open Rust Rust.Str Legal Corpus

structure AttachmentLink where
  url : Str
  format : DocumentFormat
  title : Str
  rights : SourceRights

structure MissingAttachment where
  ordinal : ℕ
  expectedFormat : DocumentFormat
  responseSha256 : Option Str
  reason : Str

structure AttachmentProcessor where
  ordinal : ℕ
  sourceSha256 : Str
  processorVersion : Str
deriving DecidableEq, Repr

/-- An original resource as the provider's record lists it. -/
structure ListedResource extends OriginalResource where
  title : Str
  mediaType : Str
  retained : Bool

/-- The JSON library. What it writes about processors it reads back. -/
structure Codec where
  processorsToString : List AttachmentProcessor → Option Str
  processorsFromStr : Str → Option (List AttachmentProcessor)
  failuresToString : List MissingAttachment → Option Str
  ordinalsToString : List ℕ → Option Str
  resourcesToString : List ListedResource → Option Str
  textsToString : List Str → Option Str
  itemToVec : InventoryItem → Option Bytes
  processors_roundTrip : ∀ processors encoded, processorsToString processors = some encoded → processorsFromStr encoded = some processors

def mediaType : DocumentFormat → Str
  | .pdf => "application/pdf".toList
  | .hwp5 => "application/x-hwp".toList
  | .hwpx => "application/vnd.hancom.hwpx".toList
  | .xml => "application/xml".toList
  | .html => "text/html".toList

/-! ## Sections of a page -/

/-- The section of a page. -/
def pageSection (ordinal : ℕ) (title digest : Str) (kind : SectionKind) (page : DocumentPage) : LegalSection where
  id := "attachment:".toList ++ decimal ordinal ++ [':'] ++ (if kind = .ocr then "ocr".toList else "extracted".toList) ++ [':'] ++
    decimal page.page
  title := title
  text := page.text
  kind := kind
  sourceDocumentSha256 := some digest
  page := some page.page

/-- A document without pages is a page. -/
def extractedPages (document : ProcessedDocument) : List DocumentPage :=
  if document.pages.isEmpty then [⟨1, document.text⟩] else document.pages

/-! ## Checking a processed attachment -/

def maxExtractedBytes : ℕ := 16 * 1024 * 1024

/-- What the check of an attachment changes: the record, and the sizes of what is retained and of the text of pages. -/
structure Tally where
  record : LegalRecord
  total : ℕ
  extracted : ℕ

def storedProcessors (codec : Codec) (metadata : Map Str Str) : Option (List AttachmentProcessor) :=
  match metadata.get attachmentProcessorsKey with
  | some encoded => codec.processorsFromStr encoded
  | none => some []

/-- The previous value under a key, put back. -/
def putBack (metadata : Map Str Str) (key : Str) : Option Str → Map Str Str
  | some previous => metadata.insert key previous
  | none => metadata.remove key

section Check

variable (parsers : Parsers) (codec : Codec)

/-- Provenance is committed only after the sections of the attachment validate, and is taken back when the record becomes invalid. -/
def retainAttachmentProcessor (ordinal : ℕ) (sourceSha256 processorVersion : Str) : EStateM DatabaseError LegalRecord Unit := fun record =>
  if ordinal < 1 || ordinal > 64 || !validSnapshotId sourceSha256 || processorVersion.isEmpty || byteLen processorVersion > 256 then
    .error .sourceDataInvalid record
  else
    match record.validate parsers with
    | .error _ => .error .sourceDataInvalid record
    | .ok () =>
      match storedProcessors codec record.metadata with
      | none => .error .storageCorrupt record
      | some processors =>
        if processors.length ≥ 64 || processors.any (·.ordinal ≥ ordinal) then .error .sourceDataInvalid record
        else
          match codec.processorsToString (processors ++ [{ ordinal, sourceSha256, processorVersion }]) with
          | none => .error .storageCorrupt record
          | some value =>
            let changed := { record with metadata := record.metadata.insert attachmentProcessorsKey value }
            match changed.validate parsers with
            | .ok () => .ok () changed
            | .error _ =>
              .error .sourceDataInvalid
                { changed with
                  metadata := putBack changed.metadata attachmentProcessorsKey (record.metadata.get attachmentProcessorsKey) }

/-- The bytes of an attachment count towards what is retained. -/
def countBytes (size : ℕ) : EStateM DatabaseError Tally Unit := fun tally =>
  if tally.total + size ≥ 2 ^ 64 then .error .sourceDataInvalid tally
  else
    let counted := { tally with total := tally.total + size }
    if counted.total > maxDocumentBytes then .error .sourceDataInvalid counted else .ok () counted

/-- A page becomes a section, unless there is too much text or its number is too large. -/
def addPage (unitOf : DocumentPage → LegalSection) (page : DocumentPage) : EStateM DatabaseError Tally PUnit := fun tally =>
  if tally.extracted + byteLen page.text ≥ 2 ^ 64 then .error .sourceDataInvalid tally
  else
    let counted := { tally with extracted := tally.extracted + byteLen page.text }
    if counted.extracted > maxExtractedBytes || page.page ≥ 2 ^ 32 then .error .sourceDataInvalid counted
    else .ok () { counted with record.sections := tally.record.sections ++ [unitOf page] }

/-- The record is valid with the pages of the attachment. -/
def validateRecord : EStateM DatabaseError Tally Unit := fun tally =>
  match tally.record.validate parsers with
  | .ok () => .ok () tally
  | .error _ => .error .sourceDataInvalid tally

def retainProcessor (ordinal : ℕ) (document : ProcessedDocument) : EStateM DatabaseError Tally Unit := fun tally =>
  match retainAttachmentProcessor parsers codec ordinal document.sourceSha256 document.processorVersion tally.record with
  | .ok () record => .ok () { tally with record }
  | .error error record => .error error { tally with record }

/-- The bytes are counted and the pages added. -/
def addAttachment (ordinal : ℕ) (title : Str) (attachment : ProcessedDocument) (size : ℕ) : EStateM DatabaseError Tally Unit := do
  countBytes size
  (extractedPages attachment).forM (addPage (pageSection ordinal title attachment.sourceSha256 .extracted))
  attachment.ocrPages.forM (addPage (pageSection ordinal title attachment.sourceSha256 .ocr))
  validateRecord parsers

/-- The check of a processed attachment. -/
def checkAttachment (ordinal : ℕ) (link : AttachmentLink) (attachment : ProcessedDocument) (bytes : Bytes) (_retrievedAt : ℕ) :
    EStateM DatabaseError Tally Bytes := do
  addAttachment parsers ordinal link.title attachment bytes.length
  retainProcessor parsers codec ordinal attachment
  pure bytes

end Check

/-! ## The loop over the attachments -/

/-- What the loop over the attachments changes. -/
structure Collected extends Tally where
  resources : List ListedResource
  additionalEvidence : List Bytes
  evidenceOrdinals : List ℕ
  missing : List MissingAttachment

/-- What the client is used with: the URL and JSON libraries in `parsers`, `formEncode` and `codec`, the table `sourceFamily` of the
catalog, and functions of the repository whose answers any value may stand for here, `scanners` over a transport's bytes,
`provisionNumbersChecked` and `attachmentLinks` over a document. -/
structure Client where
  parsers : Parsers
  sourceFamily : Dataset → SourceFamily
  formEncode : Str → Str
  scanners : Scanners
  codec : Codec
  provisionNumbersChecked : DocumentNode → Except DatabaseError (List Str)
  attachmentLinks : DocumentNode → Except DatabaseError (List AttachmentLink)

/-- `sections.truncate`, and the counters as they were. -/
def Tally.rollback (checkpoint tally : Tally) : Tally where
  record := { tally.record with sections := tally.record.sections.take checkpoint.record.sections.length }
  total := checkpoint.total
  extracted := checkpoint.extracted

/-- Why an attachment whose fetch failed is missing. Other errors end the whole retrieval. -/
def fetchFailure : DatabaseError → Option Str
  | .sourceUnavailable => some "source_unavailable".toList
  | .sourceDownloadFailed => some "download_failed".toList
  | .sourceDataInvalid => some "download_invalid".toList
  | _ => none

/-- Originals that cannot be retrieved are missing. -/
def isOriginalFailure (error : DatabaseError) : Bool :=
  [DatabaseError.sourceDataInvalid, .sourceUnavailable, .sourceDownloadFailed].contains error

def isMissing (missing : List MissingAttachment) (ordinal : ℕ) : Bool := missing.any (·.ordinal == ordinal)

section Loop

variable (client : Client) (attempts : ℕ → Exchange) (ordinal : ℕ) (link : AttachmentLink)

def listedResource : ListedResource where
  ordinal := ordinal
  sourceUrl := link.url
  rights := link.rights
  title := link.title
  mediaType := mediaType link.format
  retained := false

/-- The bytes of an attachment go into the evidence. -/
def keepEvidence (resourceIndex : ℕ) (bytes : Bytes) (collected : Collected) : Collected :=
  { collected with
    resources := collected.resources.modify resourceIndex fun resource =>
      { resource with retained := !isMissing collected.missing ordinal }
    record.metadata :=
      if hasCredentialRedaction bytes then
        collected.record.metadata.insert "transport_credentials_redacted".toList "true".toList
      else collected.record.metadata
    additionalEvidence := collected.additionalEvidence ++ [bytes]
    evidenceOrdinals := collected.evidenceOrdinals ++ [ordinal] }

/-- An attachment that may be stored but not processed. -/
def collectOriginal (resourceIndex : ℕ) (collected : Collected) : Except DatabaseError Collected :=
  match fetchOriginal client.scanners (attempts 0) link.format (some (maxDocumentBytes - collected.total)) with
  | .error error =>
    if isOriginalFailure error then
      .ok { collected with missing := collected.missing ++ [⟨ordinal, link.format, none, "original_download_invalid".toList⟩] }
    else .error error
  | .ok (bytes, _) =>
    if collected.total + bytes.length ≥ 2 ^ 64 || collected.total + bytes.length > maxDocumentBytes then .error .sourceDataInvalid
    else .ok (keepEvidence ordinal resourceIndex bytes { collected with total := collected.total + bytes.length })

/-- An attachment that cannot be used is rolled back and reported, and its bytes stay evidence. -/
def abandon (checkpoint tally : Tally) (raw : Bytes) (reason : Str) (collected : Collected) : Except DatabaseError (Bytes × Collected) :=
  let tally := checkpoint.rollback tally
  if tally.total + raw.length ≥ 2 ^ 64 || tally.total + raw.length > maxDocumentBytes then .error .sourceDataInvalid
  else
    .ok (raw, { collected with
      toTally := { tally with total := tally.total + raw.length }
      missing := collected.missing ++ [⟨ordinal, link.format, some (client.scanners.sha256 raw), reason⟩] })

/-- Fetching an attachment, at most `left` times again when HTML came back. -/
def fetchAttachment (checkpoint : Tally) (left : ℕ) (collected : Collected) : Except DatabaseError (Bytes × Collected) :=
  match fetchAttachmentTimedChecked client.scanners (attempts (2 - left)) link.format (maxDocumentBytes - collected.total)
    (checkAttachment client.parsers client.codec ordinal link) collected.toTally with
  | .error error tally =>
    match fetchFailure error with
    | some reason =>
      .ok ([], { collected with
        toTally := checkpoint.rollback tally
        missing := collected.missing ++ [⟨ordinal, link.format, none, reason⟩] })
    | none => .error error
  | .ok (.processed bytes) tally => .ok (bytes, { collected with toTally := tally })
  | .ok (.original _ _) _ => .error .storageCorrupt
  | .ok (.unexpectedAttachment raw html reason) tally =>
    match html, left with
    | true, left + 1 => fetchAttachment checkpoint left { collected with toTally := tally }
    | _, _ => abandon client ordinal link checkpoint tally raw reason collected

/-- One attachment: it is listed, fetched as far as its rights allow, and kept if there are bytes. -/
def collectAttachment (collected : Collected) : Except DatabaseError Collected :=
  let resourceIndex := collected.resources.length
  let collected := { collected with resources := collected.resources ++ [listedResource ordinal link] }
  if !link.rights.canStore client.parsers then .ok collected
  else if !link.rights.canProcess client.parsers then collectOriginal client attempts ordinal link resourceIndex collected
  else
    match fetchAttachment client attempts ordinal link collected.toTally 2 collected with
    | .error error => .error error
    | .ok (bytes, collected) => if bytes.isEmpty then .ok collected else .ok (keepEvidence ordinal resourceIndex bytes collected)

end Loop

/-- The loop, with the ordinal of the next attachment. There are at most 64 links, so that ordinals fit `u32`. -/
def collectAttachments (client : Client) (attempts : ℕ → ℕ → Exchange) : ℕ → List AttachmentLink → Collected → Except DatabaseError Collected
  | _, [], collected => .ok collected
  | ordinal, link :: links, collected => do
    let collected ← collectAttachment client (attempts ordinal) ordinal link collected
    collectAttachments client attempts (ordinal + 1) links collected

/-! ## What a check leaves behind -/

/-- Sections may have been added, and the metadata says what it said. -/
structure Extends (before after : Tally) : Prop where
  sections : before.record.sections <+: after.record.sections
  metadata : ∀ key, after.record.metadata.get key = before.record.metadata.get key

instance : Std.Refl Extends := ⟨fun _ => ⟨List.prefix_rfl, fun _ => rfl⟩⟩

instance : IsTrans Tally Extends where
  trans _ _ _ first second :=
    ⟨first.sections.trans second.sections, fun key => (second.metadata key).trans (first.metadata key)⟩

/-- The record and the counters say what they said. -/
structure Same (before after : Tally) : Prop where
  sections : after.record.sections = before.record.sections
  metadata : ∀ key, after.record.metadata.get key = before.record.metadata.get key
  total : after.total = before.total
  extracted : after.extracted = before.extracted

/-- Rolling back undoes what a failed check has done. -/
theorem Extends.rollback {before after : Tally} (changed : Extends before after) : Same before (before.rollback after) where
  sections := List.prefix_iff_eq_take.mp changed.sections |>.symm
  metadata := changed.metadata
  total := rfl
  extracted := rfl

section Specifications

open Theory.Effect

variable {parsers : Parsers} {codec : Codec} {ordinal : ℕ} {sourceSha256 processorVersion : Str} {record next : LegalRecord}
  {tally final : Tally} {title : Str} {document : ProcessedDocument}

theorem get_putBack (metadata : Map Str Str) (key value other : Str) :
    (putBack (metadata.insert key value) key (metadata.get key)).get other = metadata.get other := by
  by_cases same : other = key
  · subst same
    cases before : metadata.get other with
    | none => exact Map.get_remove _ _
    | some previous => exact Map.get_insert _ _ _
  · cases metadata.get key with
    | none => exact (Map.get_remove_of_ne _ same).trans (Map.get_insert_of_ne _ same _)
    | some previous => exact (Map.get_insert_of_ne _ same _).trans (Map.get_insert_of_ne _ same _)

/-- A failed commitment of provenance leaves the sections, and the metadata says what it said. -/
theorem retainAttachmentProcessor_error {error : DatabaseError}
    (ran : retainAttachmentProcessor parsers codec ordinal sourceSha256 processorVersion record = .error error next) :
    next.sections = record.sections ∧ ∀ key, next.metadata.get key = record.metadata.get key := by
  have unchanged : record.sections = record.sections ∧ ∀ key, record.metadata.get key = record.metadata.get key := ⟨rfl, fun _ => rfl⟩
  rw [retainAttachmentProcessor] at ran
  split at ran
  · cases ran
    exact unchanged
  split at ran
  · cases ran
    exact unchanged
  split at ran
  · cases ran
    exact unchanged
  split at ran
  · cases ran
    exact unchanged
  split at ran
  · cases ran
    exact unchanged
  dsimp only at ran
  split at ran
  · cases ran
  · cases ran
    exact ⟨rfl, get_putBack record.metadata _ _⟩

/-- Provenance is appended to the list of processors, and nothing else changes. -/
theorem retainAttachmentProcessor_ok
    (ran : retainAttachmentProcessor parsers codec ordinal sourceSha256 processorVersion record = .ok () next) :
    next.sections = record.sections ∧ (∀ key ≠ attachmentProcessorsKey, next.metadata.get key = record.metadata.get key) ∧
      ∃ processors, storedProcessors codec record.metadata = some processors ∧
        storedProcessors codec next.metadata = some (processors ++ [⟨ordinal, sourceSha256, processorVersion⟩]) := by
  rw [retainAttachmentProcessor] at ran
  split at ran
  · cases ran
  split at ran
  · cases ran
  split at ran
  · cases ran
  next processors stored =>
    split at ran
    · cases ran
    split at ran
    · cases ran
    next value encoded =>
      dsimp only at ran
      split at ran
      · cases ran
        refine ⟨rfl, fun key different => Map.get_insert_of_ne _ different _, processors, stored, ?_⟩
        rw [storedProcessors, Map.get_insert]
        exact codec.processors_roundTrip _ _ encoded
      · cases ran

theorem retainProcessor_error {error : DatabaseError}
    (ran : retainProcessor parsers codec ordinal document tally = .error error final) : Extends tally final := by
  rw [retainProcessor] at ran
  split at ran
  · cases ran
  next cause record failed =>
    cases ran
    obtain ⟨sections, metadata⟩ := retainAttachmentProcessor_error failed
    exact ⟨by rw [sections], metadata⟩

theorem countBytes_leaves (size : ℕ) : Leaves Extends (countBytes size) := by
  intro tally
  rw [countBytes]
  split
  · exact Std.Refl.refl tally
  · dsimp only
    split <;> exact ⟨List.prefix_rfl, fun _ => rfl⟩

theorem addPage_leaves (unitOf : DocumentPage → LegalSection) (page : DocumentPage) : Leaves Extends (addPage unitOf page) := by
  intro tally
  rw [addPage]
  split
  · exact Std.Refl.refl tally
  · dsimp only
    split
    · exact ⟨List.prefix_rfl, fun _ => rfl⟩
    · exact ⟨List.prefix_append _ _, fun _ => rfl⟩

theorem validateRecord_leaves : Leaves Extends (validateRecord parsers) := by
  intro tally
  rw [validateRecord]
  split <;> exact Std.Refl.refl tally

theorem addAttachment_leaves (size : ℕ) : Leaves Extends (addAttachment parsers ordinal title document size) := by
  refine (countBytes_leaves size).bind fun _ => ?_
  refine Leaves.bind (.forM fun page _ => addPage_leaves _ page) fun _ => ?_
  exact Leaves.bind (.forM fun page _ => addPage_leaves _ page) fun _ => validateRecord_leaves

/-- A check that rejects an attachment leaves at most some of its sections, which a rollback removes. -/
theorem checkAttachment_error {link : AttachmentLink} {bytes : Bytes} {retrievedAt : ℕ} {error : DatabaseError}
    (ran : checkAttachment parsers codec ordinal link document bytes retrievedAt tally = .error error final) : Extends tally final := by
  rcases bind_eq_error.mp ran with added | ⟨_, middle, added, ran⟩
  · have left := @addAttachment_leaves parsers ordinal link.title document bytes.length tally
    rwa [added] at left
  · have left := @addAttachment_leaves parsers ordinal link.title document bytes.length tally
    rw [added] at left
    rcases bind_eq_error.mp ran with refused | ⟨_, _, -, impossible⟩
    · exact IsTrans.trans _ _ _ left (retainProcessor_error refused)
    · cases impossible

/-- The sections of an attachment. -/
def attachmentSections (ordinal : ℕ) (title : Str) (document : ProcessedDocument) : List LegalSection :=
  (extractedPages document).map (pageSection ordinal title document.sourceSha256 .extracted) ++
    document.ocrPages.map (pageSection ordinal title document.sourceSha256 .ocr)

def textBytes (units : List LegalSection) : ℕ := (units.map fun unit => byteLen unit.text).sum

@[simp] theorem textBytes_nil : textBytes [] = 0 := rfl

@[simp] theorem textBytes_append (front back : List LegalSection) : textBytes (front ++ back) = textBytes front + textBytes back := by
  simp [textBytes]

/-- Sections were added to a record, and their text was counted. -/
structure Added (before after : Tally) (units : List LegalSection) : Prop where
  sections : after.record.sections = before.record.sections ++ units
  metadata : after.record.metadata = before.record.metadata
  total : after.total = before.total
  extracted : after.extracted = before.extracted + textBytes units
  bounded : before.extracted ≤ maxExtractedBytes → after.extracted ≤ maxExtractedBytes

theorem Added.trans {first second third : Tally} {front back : List LegalSection} (one : Added first second front)
    (other : Added second third back) : Added first third (front ++ back) where
  sections := by rw [other.sections, one.sections, List.append_assoc]
  metadata := other.metadata.trans one.metadata
  total := other.total.trans one.total
  extracted := by rw [other.extracted, one.extracted, textBytes_append, Nat.add_assoc]
  bounded := fun fits => other.bounded (one.bounded fits)

theorem addPage_ok {unitOf : DocumentPage → LegalSection} (texts : ∀ page, (unitOf page).text = page.text) {page : DocumentPage}
    (ran : addPage unitOf page tally = .ok .unit final) : Added tally final [unitOf page] := by
  rw [addPage] at ran
  split at ran
  · cases ran
  dsimp only at ran
  split at ran
  · cases ran
  next fits =>
    cases ran
    simp only [ge_iff_le, Bool.or_eq_true, decide_eq_true_eq, not_or, not_lt] at fits
    exact ⟨rfl, rfl, rfl, by rw [textBytes, List.map_singleton, List.sum_singleton, texts], fun _ => fits.1⟩

theorem addPages_ok {unitOf : DocumentPage → LegalSection} (texts : ∀ page, (unitOf page).text = page.text) {pages : List DocumentPage}
    (ran : pages.forM (addPage unitOf) tally = .ok .unit final) : Added tally final (pages.map unitOf) := by
  apply forM_invariant (fun done state => Added tally state (done.map unitOf)) _ _ ran
  · exact ⟨(List.append_nil _).symm, rfl, rfl, rfl, id⟩
  · intro done page state next added round
    rw [List.map_append]
    exact added.trans (addPage_ok texts round)

theorem countBytes_ok {size : ℕ} (ran : countBytes size tally = .ok () final) :
    final = { tally with total := tally.total + size } ∧ final.total ≤ maxDocumentBytes := by
  rw [countBytes] at ran
  split at ran
  · cases ran
  dsimp only at ran
  split at ran
  · cases ran
  next fits =>
    cases ran
    exact ⟨rfl, not_lt.mp fits⟩

/-- An attachment that passes its check. -/
structure Passed (codec : Codec) (ordinal : ℕ) (title : Str) (document : ProcessedDocument) (size : ℕ) (before after : Tally) : Prop where
  sections : after.record.sections = before.record.sections ++ attachmentSections ordinal title document
  others : ∀ key ≠ attachmentProcessorsKey, after.record.metadata.get key = before.record.metadata.get key
  processors : ∃ processors, storedProcessors codec before.record.metadata = some processors ∧
    storedProcessors codec after.record.metadata = some (processors ++ [⟨ordinal, document.sourceSha256, document.processorVersion⟩])
  total : after.total = before.total + size
  fits : after.total ≤ maxDocumentBytes
  extracted : after.extracted = before.extracted + textBytes (attachmentSections ordinal title document)
  bounded : before.extracted ≤ maxExtractedBytes → after.extracted ≤ maxExtractedBytes

theorem checkAttachment_ok {link : AttachmentLink} {bytes value : Bytes} {retrievedAt : ℕ}
    (ran : checkAttachment parsers codec ordinal link document bytes retrievedAt tally = .ok value final) :
    value = bytes ∧ Passed codec ordinal link.title document bytes.length tally final := by
  obtain ⟨_, admitted, added, ran⟩ := bind_eq_ok.mp ran
  obtain ⟨_, retained, committed, ran⟩ := bind_eq_ok.mp ran
  cases ran
  obtain ⟨_, counted, count, added⟩ := bind_eq_ok.mp added
  obtain ⟨_, read, extracted, added⟩ := bind_eq_ok.mp added
  obtain ⟨_, scanned, ocr, validated⟩ := bind_eq_ok.mp added
  obtain ⟨rfl, fits⟩ := countBytes_ok count
  have units := (addPages_ok (fun _ => rfl) extracted).trans (addPages_ok (fun _ => rfl) ocr)
  have same : admitted = scanned := by
    rw [validateRecord] at validated
    split at validated
    · cases validated
      rfl
    · cases validated
  subst same
  rw [retainProcessor] at committed
  split at committed
  · next record accepted =>
    cases committed
    obtain ⟨sections, others, processors⟩ := retainAttachmentProcessor_ok accepted
    rw [units.metadata] at others processors
    exact ⟨rfl, sections.trans units.sections, others, processors, units.total, by rw [units.total]; exact fits, units.extracted,
      units.bounded⟩
  · cases committed

end Specifications

end OpenLegal.LawGoKr
