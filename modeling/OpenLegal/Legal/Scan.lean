import OpenLegal.Legal.Excerpt

/-! # Scanning an index snapshot

A scan reads the documents of a snapshot in key order, one at a time, from a position on. It stops with the
position of the rest when it has enough hits, when it has read enough bytes or when its deadline is seen; a
document whose inspection is interrupted is read again from its position.
-/

namespace OpenLegal.Legal

open Rust Rust.Str Theory Polled

/-! ## Requests -/

inductive DateKind where
  | publication
  | effective
  | judgment
deriving DecidableEq, Repr

structure Filters where
  datasets : List Dataset
  authority : Option Str
  objectId : Option Str
  documentType : Option Str
  dateKind : Option DateKind
  dateFrom : Option Str
  dateTo : Option Str
deriving Repr

structure SearchRequest where
  filters : Filters
  includeHistory : Bool
  includeOcr : Bool
  sections : List Str
  limit : ℕ
  contextLines : ℕ
deriving Repr

/-- The date that the filters are about. -/
def Filters.date (filters : Filters) (record : LegalRecord) : Option Str :=
  match filters.dateKind with
  | some .publication => record.publicationDate
  | some .effective => record.effectiveDate
  | some .judgment => record.metadata.get "judgment_date".toList
  | none => none

def filtersMatch (filters : Filters) (capture : Capture) : Bool :=
  let record := capture.record
  (filters.datasets.isEmpty || filters.datasets.contains record.object.dataset) &&
    filters.objectId.all (· == record.object.id) &&
    filters.authority.all (fun value => record.metadata.get "authority".toList == some value) &&
    filters.documentType.all (fun value => record.metadata.get "document_type".toList == some value) &&
    filters.dateFrom.all (fun least => (filters.date record).any fun date => !decide (date < least)) &&
    filters.dateTo.all (fun greatest => (filters.date record).any fun date => !decide (greatest < date))

/-- The sections that a request searches, in order. A section that is called like the case number of the
metadata is not searched beside it. -/
def searchedSections (request : SearchRequest) (record : LegalRecord) : List Searched :=
  let caseNumber := record.metadata.get CompiledQuery.caseNumberKey
  let shadowed (unit : LegalSection) : Bool := unit.id == CompiledQuery.caseNumberKey && caseNumber.isSome
  let sections := [⟨"title".toList, record.title, false⟩, ⟨"body".toList, record.body, false⟩] ++
    caseNumber.toList.map (⟨CompiledQuery.caseNumberKey, ·, false⟩) ++
    (record.sections.filter fun unit => unit.kind != .providerText && (unit.kind != .ocr || request.includeOcr) &&
      !shadowed unit).map fun unit => ⟨unit.id, unit.text, unit.kind == .ocr⟩
  if request.sections.isEmpty then sections
  else
    sections.filter (fun unit => request.sections.contains unit.name) ++
      (record.sections.filter fun unit => request.sections.contains unit.id && unit.kind == .providerText &&
        !shadowed unit).map fun unit => ⟨unit.id, unit.text, false⟩

/-! ## Query mode -/

/-- The texts that the body field of a query is about. -/
def selectedBody (sections : List Searched) (hasMetadataCase : Bool) : Str :=
  List.intercalate ['\n'] ((sections.filter fun unit => unit.name != "title".toList &&
    (unit.name != CompiledQuery.caseNumberKey || !hasMetadataCase)).map Searched.text)

section Query

variable (analyzer : KoreanAnalyzer) (expression : CompiledQuery)

/-- The body that is matched, with its tokens; neither is needed if only titles are matched. -/
def selectBody (selected body : Str) (bodyTokens : AnalyzedText) : Polled DatabaseError (Str × AnalyzedText) :=
  if expression.onlyTitle then pure ([], .none)
  else if expression.needsTokens && selected != body then do
    let tokens ← analyzer.analyze selected
    pure (selected, tokens)
  else pure (selected, bodyTokens)

/-- The document as it is matched: what the request does not search and what the query does not need is left out. -/
def selectDocument (sections : List Searched) (doc : IndexedCapture AnalyzedText) :
    Polled DatabaseError (IndexedCapture AnalyzedText) := do
  let record := doc.capture.record
  let hasMetadataCase := (record.metadata.get CompiledQuery.caseNumberKey).isSome
  let (body, bodyTokens) ← selectBody analyzer expression (selectedBody sections hasMetadataCase) record.body doc.bodyTokens
  let titled := sections.any (·.name == "title".toList)
  let selected : LegalRecord :=
    { record with
      title := if titled then record.title else []
      body
      metadata :=
        if sections.any (·.name == CompiledQuery.caseNumberKey) then record.metadata
        else record.metadata.remove CompiledQuery.caseNumberKey }
  pure
    { doc with
      capture := { doc.capture with record := selected }
      titleTokens := if expression.needsTokens && titled then doc.titleTokens else .none
      bodyTokens := if expression.needsTokens then bodyTokens else .none }

/-- Without evidence, the beginning of the first section with text. -/
def fallbackExcerpt (sections : List Searched) : Searched × Cut :=
  match sections.find? (!·.text.isEmpty) with
  | some unit => (unit, ⟨[], unit.text.take 512, unit.text.drop 512⟩)
  | none => (⟨[], [], false⟩, ⟨[], [], []⟩)

/-- The excerpt for a document that matches. -/
def queryExcerpt (sections : List Searched) (doc : IndexedCapture AnalyzedText) :
    Polled DatabaseError (Option (Searched × Cut)) := do
  let selected ← selectDocument analyzer expression sections doc
  let found ← expression.matchesDocument analyzer selected
  if found then do
    let hasMetadataCase := (doc.capture.record.metadata.get CompiledQuery.caseNumberKey).isSome
    let anchor ← positiveExcerpt analyzer selected expression sections hasMetadataCase
    pure (some (anchor.getD (fallbackExcerpt sections)))
  else pure none

end Query

/-! ## Literal mode -/

/-- A third-party matcher: the byte range of its first match in a text, or a failure. -/
abbrev Find := Str → Option (Option (ℕ × ℕ))

/-- The first section with a match, and the excerpt around it. -/
def literalSearch (find : Find) : List Searched → Except DatabaseError (Option (Searched × Cut))
  | [] => .ok none
  | unit :: rest =>
    match find unit.text with
    | none => .error .invalidInput
    | some none => literalSearch find rest
    | some (some (start, stop)) => do
      let excerpt ← literalExcerptAt unit.text start stop
      pure (some (unit, excerpt))

/-! ## Hits -/

def hit (doc : IndexedCapture AnalyzedText) (unit : Str) (line start stop : ℕ) (text : Str) (ocr : Bool) : SearchHit where
  matchScope := "line".toList
  excerptSection := unit
  includesOcr := ocr
  object := doc.capture.record.object
  revisionId := doc.capture.record.revisionId
  captureId := doc.capture.captureId
  title := doc.capture.record.title
  unit
  line
  text
  byteStart := start
  byteEnd := stop
  derivedOcr := ocr

/-- The hit for a whole document with its excerpt. -/
def objectHit (doc : IndexedCapture AnalyzedText) (sections : List Searched) (excerpt : Searched × Cut) : SearchHit :=
  { hit doc "object".toList 0 excerpt.2.start excerpt.2.stop excerpt.2.middle excerpt.1.ocr with
    matchScope := "object".toList
    excerptSection := excerpt.1.name
    includesOcr := sections.any Searched.ocr }

/-! ## Lines -/

/-- One line of a searched section. -/
structure SectionLine where
  unit : Str
  ocr : Bool
  lines : List Str
  index : ℕ
  text : Str

namespace SectionLine

/-- The byte offset of the line in its section. -/
def offset (line : SectionLine) : ℕ := byteLen (line.lines.take line.index).flatten

/-- The line with the lines around it. -/
def snippet (line : SectionLine) (contextLines : ℕ) : Str :=
  ((line.lines.take (min (line.index + contextLines + 1) line.lines.length)).drop (line.index - contextLines)).flatten

end SectionLine

def sectionLines (unit : Searched) : List SectionLine :=
  let lines := splitInclusive '\n' unit.text
  lines.mapIdx fun index text => ⟨unit.name, unit.ocr, lines, index, text⟩

def lineHit (find : Find) (request : SearchRequest) (doc : IndexedCapture AnalyzedText) (line : SectionLine) :
    Except DatabaseError (Option SearchHit) :=
  match find line.text with
  | none => .error .invalidInput
  | some none => .ok none
  | some (some (start, stop)) =>
    let snippet := line.snippet request.contextLines
    if byteLen snippet > maxExcerptBytes then .error .capacity
    else
      .ok (some (hit doc line.unit (line.index + 1) (line.offset + start) (line.offset + stop) snippet line.ocr))

/-- Where the loop over lines ended: at a line to resume from, or past the last one. -/
inductive LineStop where
  | resume (line : ℕ)
  | finished (clock : Clock DatabaseError)

/-- The loop over the lines of a document; lines before the first one are only counted. -/
def lineLoop (find : Find) (request : SearchRequest) (doc : IndexedCapture AnalyzedText) (first : ℕ) :
    ℕ → List SectionLine → List SearchHit → Clock DatabaseError → Except DatabaseError (List SearchHit × LineStop)
  | _, [], hits, clock => .ok (hits, .finished clock)
  | index, line :: rest, hits, clock =>
    match poll clock with
    | .error .budgetExhausted => .ok (hits, .resume index)
    | .error e => .error e
    | .ok (_, later) =>
      if index < first then lineLoop find request doc first (index + 1) rest hits later
      else do
        match ← lineHit find request doc line with
        | none => lineLoop find request doc first (index + 1) rest hits later
        | some found =>
          if hits.length + 1 ≥ request.limit then pure (hits ++ [found], .resume (index + 1))
          else lineLoop find request doc first (index + 1) rest (hits ++ [found]) later

/-! ## The scan -/

/-- The snapshot of an index generation: its documents, and the polls of a lookup after a key. -/
structure IndexSnapshot where
  docs : List (IndexedCapture AnalyzedText)
  lookupPolls : Str → ℕ

/-- `batch(after, 1)`: the document with the next key. -/
def IndexSnapshot.batch (snapshot : IndexSnapshot) (after : Str) :
    Polled DatabaseError (Option (IndexedCapture AnalyzedText)) := do
  polls (snapshot.lookupPolls after)
  pure (nextAfter IndexedCapture.key snapshot.docs after)

structure Position where
  after : Str
  line : ℕ
deriving DecidableEq, Repr

def Position.start : Position := ⟨[], 0⟩

inductive Matcher where
  | query (expression : CompiledQuery)
  | literal (find : Find)
  | regex (find : Find)

structure Session where
  snapshot : IndexSnapshot
  matcher : Matcher

structure ScanState where
  hits : List SearchHit
  position : Position
  scanned : ℕ

/-- The hits of a scan, where to resume it, and the bytes it read. -/
abbrev ScanResult := List SearchHit × Option Position × ℕ

/-- One round of the loop stops it or leads to the next round. -/
inductive Round where
  | done (result : ScanResult)
  | more (state : ScanState) (clock : Clock DatabaseError)

namespace ScanState

/-- The scan stops where it is. -/
def stop (state : ScanState) : Round := .done (state.hits, some state.position, state.scanned)

/-- The document is done; the scan stops if it has enough hits. -/
def advance (request : SearchRequest) (state : ScanState) (key : Str) (hits : List SearchHit) (scanned : ℕ)
    (clock : Clock DatabaseError) : Round :=
  let next : ScanState := ⟨state.hits ++ hits, ⟨key, 0⟩, scanned⟩
  if next.hits.length ≥ request.limit then next.stop else .more next clock

end ScanState

section Scan

variable (analyzer : KoreanAnalyzer) (session : Session) (request : SearchRequest) (bytes : ℕ)

/-- The inspection of a document that the request does not filter out. -/
def inspect (state : ScanState) (doc : IndexedCapture AnalyzedText) (clock : Clock DatabaseError) :
    Except DatabaseError Round :=
  let sections := searchedSections request doc.capture.record
  let size := (sections.map fun unit => byteLen unit.text).sum
  if size > bytes then .error .capacity
  else if state.scanned + size > bytes then .ok state.stop
  else
    match session.matcher with
    | .query expression =>
      match queryExcerpt analyzer expression sections doc clock with
      | .error .budgetExhausted => .ok state.stop
      | .error e => .error e
      | .ok (excerpt, later) =>
        .ok (state.advance request doc.key (excerpt.toList.map (objectHit doc sections)) (state.scanned + size) later)
    | .literal find => do
      let excerpt ← literalSearch find sections
      pure (state.advance request doc.key (excerpt.toList.map (objectHit doc sections)) (state.scanned + size) clock)
    | .regex find => do
      match ← lineLoop find request doc state.position.line 0 (sections.flatMap sectionLines) state.hits clock with
      | (hits, .resume line) => pure (.done (hits, some ⟨state.position.after, line⟩, state.scanned + size))
      | (hits, .finished later) =>
        let next : ScanState := ⟨hits, ⟨doc.key, 0⟩, state.scanned + size⟩
        pure (if hits.length ≥ request.limit then next.stop else .more next later)

def skips (doc : IndexedCapture AnalyzedText) : Bool :=
  (!request.includeHistory && !doc.current) || !filtersMatch request.filters doc.capture

def round (state : ScanState) (clock : Clock DatabaseError) : Except DatabaseError Round :=
  match poll clock with
  | .error .budgetExhausted => .ok state.stop
  | .error e => .error e
  | .ok (_, later) =>
    if state.scanned ≥ bytes then .ok state.stop
    else
      match session.snapshot.batch state.position.after later with
      | .error .budgetExhausted => .ok state.stop
      | .error e => .error e
      | .ok (none, _) => .ok (.done (state.hits, none, state.scanned))
      | .ok (some doc, later) =>
        if skips request doc then .ok (.more { state with position := ⟨doc.key, 0⟩ } later)
        else inspect analyzer session request bytes state doc later

end Scan

end OpenLegal.Legal
