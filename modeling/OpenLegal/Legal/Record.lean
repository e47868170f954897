import OpenLegal.Legal.Domain
import OpenLegal.Rust.Map
import OpenLegal.Rust.Result

/-! # Retained records and search hits

A record is the named text projection of one object revision, a capture is a retained record, and a search
hit names the capture and the section that its excerpt comes from.
-/

namespace OpenLegal.Legal

open Rust Rust.Str

/-! ## Source rights -/

/-- The parts of a URL that are checked. -/
structure Url where
  scheme : Str
  host : Option Str
  username : Str
  password : Option Str
  fragment : Option Str
  queryKeys : List Str
deriving DecidableEq, Repr

structure SourceRights where
  basis : Str
  evidenceUrl : Str
  attribution : Str
  commercialUse : Option Bool
  derivatives : Option Bool
  redistribution : Option Bool
deriving DecidableEq, Repr

/-- Exact original material: ordinal zero is the provider response, positive ones are attachments. -/
structure OriginalResource where
  ordinal : ℕ
  sourceUrl : Str
  rights : SourceRights
deriving DecidableEq, Repr

/-- The third-party parsers: of URLs, and of the JSON list of original resources. -/
structure Parsers where
  parseUrl : Str → Option Url
  resourcesFromStr : Str → Option (List OriginalResource)

def toAsciiLowercase (value : Str) : Str :=
  value.map fun c => if 'A'.val ≤ c.val && c.val ≤ 'Z'.val then Char.ofNat (c.toNat + 32) else c

/-- Query keys that carry credentials. -/
def credentialKeys : List Str :=
  ["oc", "key", "apikey", "api_key", "token", "servicekey", "password"].map String.toList

/-- A secure URL without userinfo and credentials. -/
def Url.isPublic (url : Url) : Bool :=
  url.scheme == ['h', 't', 't', 'p', 's'] && url.host.isSome && url.username.isEmpty && url.password.isNone &&
    !url.queryKeys.any fun key => credentialKeys.contains (toAsciiLowercase key)

section Rights

variable (parsers : Parsers)

/-- Public provenance never carries API credentials, userinfo or fragments. -/
def publicSourceUrl (value : Str) : Bool :=
  (parsers.parseUrl value).any fun url => url.isPublic && url.fragment.isNone

namespace SourceRights

/-- `value.trim().is_empty()`. -/
def isBlank (value : Str) : Bool := value.all isWhitespace

def canStore (rights : SourceRights) : Bool :=
  rights.redistribution == some true && !isBlank rights.basis && !isBlank rights.attribution &&
    publicSourceUrl parsers rights.evidenceUrl && rights.commercialUse.isSome && rights.derivatives.isSome

def canProcess (rights : SourceRights) : Bool := rights.canStore parsers && rights.derivatives == some true

end SourceRights

end Rights

/-! ## Records -/

inductive SectionKind where
  | providerText
  | extracted
  | ocr
deriving DecidableEq, Repr

structure LegalSection where
  id : Str
  title : Str
  text : Str
  kind : SectionKind
  sourceDocumentSha256 : Option Str
  page : Option ℕ
deriving DecidableEq, Repr

structure LegalRecord where
  object : ObjectId
  revisionId : Str
  title : Str
  body : Str
  metadata : Map Str Str
  publicationDate : Option Str
  effectiveDate : Option Str
  sourceUrl : Str
  representation : Str
  sections : List LegalSection

structure Capture where
  captureId : Str
  record : LegalRecord

def isLeapYear (year : ℕ) : Bool := year % 4 == 0 && (year % 100 != 0 || year % 400 == 0)

/-- Exact Gregorian date only; no date-only value is converted to an instant. -/
def validDate (value : Str) : Bool :=
  if byteLen value ≠ 8 || !value.all isAsciiDigit then false
  else
    let year := Nat.ofDigitChars 10 (value.take 4) 0
    let month := Nat.ofDigitChars 10 ((value.drop 4).take 2) 0
    let day := Nat.ofDigitChars 10 (value.drop 6) 0
    let max :=
      if month ∈ [1, 3, 5, 7, 8, 10, 12] then 31
      else if month ∈ [4, 6, 9, 11] then 30
      else if month = 2 then if isLeapYear year then 29 else 28
      else 0
    decide (year > 0 && day > 0 && day ≤ max)

/-- `RevisionSelector::Revision` accepts a nonempty short id without control characters. -/
def validRevision (id : Str) : Bool := !id.isEmpty && byteLen id ≤ 256 && !id.any isControl

namespace LegalRecord

variable (parsers : Parsers)

def originalResourcesKey : Str := "original_resources".toList

/-- The section ids of an attachment begin with its ordinal. -/
def attachmentName (ordinal : ℕ) : Str := "attachment:".toList ++ decimal ordinal ++ [':']

/-- One original resource against the text that was kept. -/
def validResource (record : LegalRecord) (resource : OriginalResource) : Bool :=
  publicSourceUrl parsers resource.sourceUrl &&
    (resource.rights.evidenceUrl.isEmpty || publicSourceUrl parsers resource.rights.evidenceUrl) &&
    (resource.rights.canProcess parsers ||
      (!(resource.ordinal == 0 && (!record.body.isEmpty || !record.sections.isEmpty)) &&
        !(resource.ordinal > 0 &&
          record.sections.any fun unit => (attachmentName resource.ordinal).isPrefixOf unit.id)))

/-- Original resources need distinct ordinals, public URLs, and no text that their rights do not allow. -/
def validateResources (record : LegalRecord) : Except DatabaseError Unit :=
  match record.metadata.get originalResourcesKey with
  | none => .ok ()
  | some encoded =>
    match parsers.resourcesFromStr encoded with
    | none => .error .invalidInput
    | some resources =>
      if resources.length > 65 || !(resources.map OriginalResource.ordinal).Nodup then .error .invalidInput
      else if resources.all (record.validResource parsers) then .ok ()
      else .error .invalidInput

def metadataBytes (record : LegalRecord) : ℕ :=
  (record.metadata.entries.map fun entry => byteLen entry.1 + byteLen entry.2).sum

/-- The complete decoded record, including repeated titles. -/
def aggregate (record : LegalRecord) : ℕ :=
  byteLen record.title + byteLen record.body + record.metadataBytes +
    (record.sections.map fun unit => byteLen unit.id + byteLen unit.title + byteLen unit.text).sum

def validUnit (unit : LegalSection) : Bool :=
  !(unit.id == "body".toList || unit.id == "title".toList || unit.id.isEmpty || byteLen unit.id > 256 ||
    byteLen unit.title > 16384 || byteLen unit.text > 16 * 1024 * 1024 ||
    unit.sourceDocumentSha256.any fun digest => !validSnapshotId digest)

/-- Section ids are distinct, and sections are bounded one by one and together. -/
def validSections (record : LegalRecord) : Bool :=
  (record.sections.map LegalSection.id).Nodup && record.sections.length ≤ 10000 && record.sections.all validUnit &&
    (record.sections.map fun unit => byteLen unit.text).sum ≤ 64 * 1024 * 1024

def validFields (record : LegalRecord) : Bool :=
  byteLen record.title ≤ 16384 && byteLen record.body ≤ 16 * 1024 * 1024 && byteLen record.sourceUrl ≤ 2048 &&
    "https://".toList.isPrefixOf record.sourceUrl && !record.representation.isEmpty &&
    byteLen record.representation ≤ 128 && record.metadata.len ≤ 128 &&
    (record.metadata.entries.all fun entry => byteLen entry.1 ≤ 128 && byteLen entry.2 ≤ 65536) &&
    record.metadataBytes ≤ 65536 && record.publicationDate.all validDate && record.effectiveDate.all validDate

def validate (record : LegalRecord) : Except DatabaseError Unit := do
  record.object.validate
  if !validRevision record.revisionId then .error .invalidInput
  else
    record.validateResources parsers
    if record.aggregate > 64 * 1024 * 1024 then .error .invalidInput
    else
      match parsers.parseUrl record.sourceUrl with
      | none => .error .invalidInput
      | some url =>
        if !url.isPublic || !record.validSections then .error .invalidInput
        else if !record.validFields then .error .invalidInput
        else .ok ()

/-- The checks that an accepted record has passed. -/
theorem checks_of_validate {record : LegalRecord} (accepted : record.validate parsers = .ok ()) :
    record.object.validate = .ok () ∧ record.validSections = true ∧ record.validFields = true := by
  simp only [validate, bind_eq_ok, ite_error_eq_ok] at accepted
  obtain ⟨_, object, -, _, -, -, accepted⟩ := accepted
  split at accepted
  · cases accepted
  · simp only [ite_error_eq_ok, Bool.or_eq_true, not_or, Bool.not_eq_true', Bool.not_eq_false] at accepted
    exact ⟨object, accepted.1.2, accepted.2.1⟩

/-- The section ids of an accepted record are distinct. -/
theorem nodup_of_validate {record : LegalRecord} (accepted : record.validate parsers = .ok ()) :
    (record.sections.map LegalSection.id).Nodup := by
  have sections := (checks_of_validate parsers accepted).2.1
  simp only [validSections, Bool.and_eq_true, decide_eq_true_eq] at sections
  exact sections.1.1.1

end LegalRecord

/-! ## Hits -/

structure SearchHit where
  matchScope : Str
  excerptSection : Str
  includesOcr : Bool
  object : ObjectId
  revisionId : Str
  captureId : Str
  title : Str
  unit : Str
  line : ℕ
  text : Str
  /-- Original-section byte offsets: excerpt bounds for object hits, bounds of the match for line hits. -/
  byteStart : ℕ
  byteEnd : ℕ
  derivedOcr : Bool
deriving DecidableEq, Repr

end OpenLegal.Legal
