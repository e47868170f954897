import OpenLegal.LawGoKr.Project
import OpenLegal.Rust.Reader

/-! # Fetching documents

A fetch reads the body of a response, withholds credentials, and hands the rest to the document processor and to a check of the
caller. The check may change what the caller keeps even when it rejects the document in the end.
-/

namespace OpenLegal.LawGoKr

open Rust Rust.Str Legal

def maxDocumentBytes : ℕ := 100 * 1024 * 1024

structure DocumentPage where
  page : ℕ
  text : Str
deriving DecidableEq, Repr

/-- The answer of the document processor. -/
structure ProcessedDocument extends DocumentOutput where
  sourceSha256 : Str
  processorVersion : Str
  pages : List DocumentPage
  ocrPages : List DocumentPage

inductive DocumentError where
  | invalidInput | invalidDocument | resourceLimit | unsupportedFormat | processingFailed | sandboxUnavailable | cancelled | timedOut
deriving DecidableEq, Repr

def documentError : DocumentError → DatabaseError
  | .cancelled => .cancelled
  | .sandboxUnavailable | .timedOut => .processingPending
  | .invalidDocument | .unsupportedFormat | .resourceLimit => .sourceDataInvalid
  | .invalidInput | .processingFailed => .sourceRejected

/-! ## Looking at bytes -/

def expectedDocumentMagic (raw : Bytes) : DocumentFormat → Bool
  | .pdf => (Str.asBytes "%PDF-".toList).isPrefixOf raw
  | .hwp5 => [0xd0, 0xcf, 0x11, 0xe0, 0xa1, 0xb1, 0x1a, 0xe1].isPrefixOf raw
  | .hwpx => [0x50, 0x4b, 0x03, 0x04].isPrefixOf raw
  | .xml | .html => false

def isBlankByte (byte : UInt8) : Bool := byte == 0x20 || byte == 0x09 || byte == 0x0a || byte == 0x0c || byte == 0x0d

def toLowerByte (byte : UInt8) : UInt8 := if 0x41 ≤ byte && byte ≤ 0x5a then byte + 0x20 else byte

def byteOrderMark : Bytes := [0xef, 0xbb, 0xbf]

def looksLikeHtml (raw : Bytes) : Bool :=
  let rest := if byteOrderMark.isPrefixOf raw then raw.drop 3 else raw
  let lower := ((rest.dropWhile isBlankByte).take 16).map toLowerByte
  (Str.asBytes "<!doctype html".toList).isPrefixOf lower || (Str.asBytes "<html".toList).isPrefixOf lower

def credentialRedactionMarker : Bytes := Str.asBytes "[openlegal-credential-redacted]".toList

def hasCredentialRedaction (raw : Bytes) : Bool := decide (credentialRedactionMarker <:+: raw)

/-! ## Withholding credentials -/

/-- Digests, and the scanners of the client for error envelopes and credentials. -/
structure Scanners where
  sha256 : Bytes → Str
  providerResponseError : Bytes → Option DatabaseError
  credentialLinkRanges : Str → Except DatabaseError (List (ℕ × ℕ))
  reflectedCredential : Bytes → Bool
  credentialPrivacyView : Str → Str

section Redaction

variable (scanners : Scanners) (raw : Bytes)

def htmlAuthQuery : Bool :=
  (fromUtf8 raw).any fun text =>
    let inspected := toAsciiLowercase (scanners.credentialPrivacyView text)
    ["oc=", "%4f%43=", "o%43=", "%4fc="].any fun key => containsText inspected key.toList

/-- The bytes with the ranges replaced, and where the last range ends. -/
def redactRanges : List (ℕ × ℕ) → Bytes → ℕ → Except DatabaseError (Bytes × ℕ)
  | [], output, cursor => .ok (output, cursor)
  | (start, stop) :: ranges, output, cursor =>
    if output.length + (start - cursor) + credentialRedactionMarker.length > maxDocumentBytes then .error .sourceDataInvalid
    else redactRanges ranges (output ++ (raw.drop cursor).take (start - cursor) ++ credentialRedactionMarker) stop

/-- The rest after the last range is kept, and no credential may remain. -/
def redactRest (ranges : List (ℕ × ℕ)) (output : Bytes) (cursor : ℕ) : Except DatabaseError (Bytes × Bool) :=
  if output.length + (raw.length - cursor) > maxDocumentBytes then .error .sourceDataInvalid
  else
    let output := output ++ raw.drop cursor
    if scanners.reflectedCredential output then .error .sourceDataInvalid
    else if (fromUtf8 output).any fun text => scanners.reflectedCredential (scanners.credentialPrivacyView text).asBytes then
      .error .sourceDataInvalid
    else .ok (output, !ranges.isEmpty)

/-- Only links in XML are rewritten. -/
def redactTransportCredentials (format : DocumentFormat) : Except DatabaseError (Bytes × Bool) :=
  if format ≠ .xml then
    if scanners.reflectedCredential raw || (format = .html && htmlAuthQuery scanners raw) then .error .sourceDataInvalid
    else .ok (raw, false)
  else
    match fromUtf8 raw with
    | none => .error .sourceDataInvalid
    | some text => do
      let ranges ← scanners.credentialLinkRanges text
      let (output, cursor) ← redactRanges raw ranges [] 0
      redactRest scanners raw ranges output cursor

end Redaction

/-! ## Requests -/

/-- A response whose status is a success. Reading a chunk may fail, be cancelled or run out of time. -/
structure Response where
  contentEncoded : Bool
  htmlContentType : Bool
  contentLength : Option ℕ
  chunks : List (Except DatabaseError Bytes)

/-- What one request meets, from its admission on: the response, the settlement of the reservation, the archive of source
observations, the document processor, and the suspension of an owned response. -/
structure Exchange where
  response : Except DatabaseError Response
  settlement : Except DatabaseError Unit
  archived : Except DatabaseError Unit
  processed : Except DocumentError ProcessedDocument
  suspended : Except DatabaseError Unit
  retrievedAt : ℕ

/-- The largest body that is read. Attachments share what remains of the budget. -/
def maxBody (format : DocumentFormat) (remaining : Option ℕ) (htmlContentType : Bool) : ℕ :=
  let max := if format = .xml || format = .html || (remaining.isSome && htmlContentType) then 16 * 1024 * 1024 else 100 * 1024 * 1024
  min max (remaining.getD max)

def receive (max : ℕ) (raw : Bytes) : List (Except DatabaseError Bytes) → Except DatabaseError Bytes
  | [] => .ok raw
  | .error error :: _ => .error error
  | .ok chunk :: chunks => if raw.length + chunk.length > max then .error .sourceDataInvalid else receive max (raw ++ chunk) chunks

def readBody (format : DocumentFormat) (remaining : Option ℕ) (response : Response) : Except DatabaseError (Bytes × Bool) :=
  if response.contentEncoded then .error .sourceDataInvalid
  else
    let max := maxBody format remaining response.htmlContentType
    if response.contentLength.any (· > max) then .error .sourceDataInvalid
    else do
      let raw ← receive max [] response.chunks
      .ok (raw, response.htmlContentType)

/-- Settling the reservation may itself fail; after a cancellation or without storage it is left alone. -/
def settleFetch {α : Type} (settlement : Except DatabaseError Unit) (fetched : Except DatabaseError α) : Except DatabaseError α :=
  match fetched with
  | .error .cancelled => .error .cancelled
  | .error .storageUnavailable => .error .storageUnavailable
  | other => settlement >>= fun _ => other

/-- The bytes that may be kept. -/
structure Body where
  raw : Bytes
  htmlContentType : Bool
  credentialsRedacted : Bool

/-- API errors commonly come with status 200. They never become evidence. -/
def refuseProviderError (scanners : Scanners) (exchange : Exchange) (raw : Bytes) : Except DatabaseError Unit :=
  match scanners.providerResponseError raw with
  | some .sourceUnauthorized => exchange.suspended >>= fun _ => .error .sourceUnauthorized
  | some error => .error error
  | none => .ok ()

def fetchBody (scanners : Scanners) (exchange : Exchange) (format : DocumentFormat) (remaining : Option ℕ) :
    Except DatabaseError Body := do
  let (raw, htmlContentType) ← settleFetch exchange.settlement (exchange.response >>= readBody format remaining)
  refuseProviderError scanners exchange raw
  let (raw, credentialsRedacted) ←
    redactTransportCredentials scanners raw (bif htmlContentType || looksLikeHtml raw then .html else format)
  bif remaining.isNone then exchange.archived else .ok ()
  .ok { raw, htmlContentType, credentialsRedacted }

/-- How a fetch ends. -/
inductive FetchedDocument (τ : Type) where
  | processed (value : τ)
  | original (raw : Bytes) (retrievedAt : ℕ)
  | unexpectedAttachment (raw : Bytes) (html : Bool) (reason : Str)

section Fetch

variable {σ τ : Type} (scanners : Scanners) (exchange : Exchange) (format : DocumentFormat) (remaining : Option ℕ)

/-- A document that says where credentials were removed. -/
def markDiagnostics (credentialsRedacted : Bool) (output : ProcessedDocument) : ProcessedDocument :=
  if credentialsRedacted then
    { output with diagnostics := output.diagnostics.take 63 ++ ["provider_credential_redacted".toList] }
  else output

/-- A result that leaves the state of the caller as it is. -/
def settle {α : Type} (result : Except DatabaseError α) : EStateM DatabaseError σ α := fun state =>
  match result with
  | .ok value => .ok value state
  | .error error => .error error state

/-- An attachment that is invalid is kept as it came. -/
def conclude (raw : Bytes) (output : Except DatabaseError τ) : Except DatabaseError (FetchedDocument τ) :=
  match output with
  | .ok value => .ok (.processed value)
  | .error .sourceDataInvalid =>
    if remaining.isSome then .ok (.unexpectedAttachment raw false "document_invalid".toList) else .error .sourceDataInvalid
  | .error .sourceRejected => exchange.suspended >>= fun _ => .error .sourceRejected
  | .error .sourceUnauthorized => exchange.suspended >>= fun _ => .error .sourceUnauthorized
  | .error error => .error error

/-- A check that finds its own data corrupt has rejected the document. -/
def rejection : DatabaseError → DatabaseError
  | .storageCorrupt => .sourceDataInvalid
  | error => error

/-- The processor's answer is checked; the check leaves its state behind whether it accepts or not. -/
def processBody (body : Body) (check : ProcessedDocument → Bytes → ℕ → EStateM DatabaseError σ τ) :
    EStateM DatabaseError σ (FetchedDocument τ) := fun state =>
  match exchange.processed with
  | .error error => settle (conclude exchange remaining body.raw (.error (documentError error))) state
  | .ok output =>
    match check (markDiagnostics body.credentialsRedacted output) body.raw exchange.retrievedAt state with
    | .ok value state => settle (conclude exchange remaining body.raw (.ok value)) state
    | .error error state => settle (conclude exchange remaining body.raw (.error (rejection error))) state

/-- One fetch. Attachments, which share a budget, must look like what they are said to be. -/
def fetchParseTimedCheckedInner (process : Bool) (check : ProcessedDocument → Bytes → ℕ → EStateM DatabaseError σ τ) :
    EStateM DatabaseError σ (FetchedDocument τ) :=
  match fetchBody scanners exchange format remaining with
  | .error error => settle (.error error)
  | .ok body =>
    let unexpected := remaining.isSome && !expectedDocumentMagic body.raw format
    if !process then settle (if unexpected then .error .sourceDataInvalid else .ok (.original body.raw exchange.retrievedAt))
    else if unexpected then
      settle (.ok (.unexpectedAttachment body.raw (body.htmlContentType || looksLikeHtml body.raw) "unexpected_attachment_format".toList))
    else processBody exchange remaining body check

/-- The unmodified bytes and when they were retrieved. -/
def fetchOriginal : Except DatabaseError (Bytes × ℕ) :=
  match fetchParseTimedCheckedInner scanners exchange format remaining false (fun _ _ _ => pure ()) () with
  | .error error () => .error error
  | .ok (.original raw retrievedAt) () => .ok (raw, retrievedAt)
  | .ok _ () => .error .storageCorrupt

/-- A document that is no attachment, and what its check makes of it. -/
def fetchParseTimedChecked (check : ProcessedDocument → Bytes → ℕ → Except DatabaseError τ) : Except DatabaseError τ :=
  match fetchParseTimedCheckedInner scanners exchange format none true
    (fun output raw retrievedAt => settle (check output raw retrievedAt)) () with
  | .error error () => .error error
  | .ok (.processed value) () => .ok value
  | .ok _ () => .error .storageCorrupt

def fetchAttachmentTimedChecked (remaining : ℕ) (check : ProcessedDocument → Bytes → ℕ → EStateM DatabaseError σ τ) :
    EStateM DatabaseError σ (FetchedDocument τ) :=
  fetchParseTimedCheckedInner scanners exchange format (some remaining) true check

end Fetch

/-! ## Sizes -/

theorem receive_length {max : ℕ} {raw out : Bytes} {chunks : List (Except DatabaseError Bytes)} (fits : raw.length ≤ max)
    (received : receive max raw chunks = .ok out) : out.length ≤ max := by
  induction chunks generalizing raw with
  | nil =>
    cases received
    exact fits
  | cons chunk chunks ih =>
    cases chunk with
    | error error => cases received
    | ok chunk =>
      rw [receive, ite_error_eq_ok, not_lt, ← List.length_append] at received
      exact ih received.1 received.2

theorem maxBody_le (format : DocumentFormat) (remaining : Option ℕ) (htmlContentType : Bool) :
    maxBody format remaining htmlContentType ≤ maxDocumentBytes := by
  refine (min_le_left _ _).trans ?_
  split_ifs <;> decide

theorem readBody_length {format : DocumentFormat} {remaining : Option ℕ} {response : Response} {raw : Bytes} {html : Bool}
    (received : readBody format remaining response = .ok (raw, html)) : raw.length ≤ maxDocumentBytes := by
  simp only [readBody, ite_error_eq_ok, bind_eq_ok] at received
  obtain ⟨-, -, out, received, same⟩ := received
  cases same
  exact (receive_length (Nat.zero_le _) received).trans (maxBody_le ..)

theorem settleFetch_eq_ok {α : Type} {settlement : Except DatabaseError Unit} {fetched : Except DatabaseError α} {value : α}
    (settled : settleFetch settlement fetched = .ok value) : fetched = .ok value := by
  unfold settleFetch at settled
  split at settled
  · cases settled
  · cases settled
  · obtain ⟨_, -, same⟩ := bind_eq_ok.mp settled
    exact same

/-- What is rewritten is bounded, and what is not keeps its length. -/
theorem redact_length {scanners : Scanners} {raw out : Bytes} {format : DocumentFormat} {changed : Bool}
    (fits : raw.length ≤ maxDocumentBytes) (redacted : redactTransportCredentials scanners raw format = .ok (out, changed)) :
    out.length ≤ maxDocumentBytes := by
  rw [redactTransportCredentials] at redacted
  split_ifs at redacted
  · cases redacted
    exact fits
  · split at redacted
    · cases redacted
    · simp only [bind_eq_ok] at redacted
      obtain ⟨ranges, -, ⟨output, cursor⟩, -, redacted⟩ := redacted
      simp only [redactRest, ite_error_eq_ok, not_lt] at redacted
      obtain ⟨small, -, -, same⟩ := redacted
      cases same
      rwa [List.length_append, List.length_drop]

theorem fetchBody_length {scanners : Scanners} {exchange : Exchange} {format : DocumentFormat} {remaining : Option ℕ} {body : Body}
    (fetched : fetchBody scanners exchange format remaining = .ok body) : body.raw.length ≤ maxDocumentBytes := by
  simp only [fetchBody, bind_eq_ok] at fetched
  obtain ⟨⟨raw, html⟩, settled, _, -, ⟨out, changed⟩, redacted, _, -, same⟩ := fetched
  cases same
  obtain ⟨response, -, received⟩ := bind_eq_ok.mp (settleFetch_eq_ok settled)
  exact redact_length (readBody_length received) redacted

/-! ## How a fetch ends -/

section Outcome

variable {σ τ : Type} {scanners : Scanners} {exchange : Exchange} {format : DocumentFormat}

theorem fetchOriginal_fetched {remaining : Option ℕ} {raw : Bytes} {retrievedAt : ℕ}
    (fetched : fetchOriginal scanners exchange format remaining = .ok (raw, retrievedAt)) :
    ∃ body, fetchBody scanners exchange format remaining = .ok body ∧ body.raw = raw := by
  rw [fetchOriginal, fetchParseTimedCheckedInner] at fetched
  cases known : fetchBody scanners exchange format remaining with
  | error error =>
    rw [known] at fetched
    cases fetched
  | ok body =>
    rw [known] at fetched
    refine ⟨body, rfl, ?_⟩
    dsimp only at fetched
    rw [if_pos (Bool.not_false)] at fetched
    cases unexpected : remaining.isSome && !expectedDocumentMagic body.raw format with
    | true =>
      rw [unexpected] at fetched
      cases fetched
    | false =>
      rw [unexpected] at fetched
      cases fetched
      rfl

variable {remaining : ℕ} {check : ProcessedDocument → Bytes → ℕ → EStateM DatabaseError σ τ} {state final : σ}

/-- The answers of an attachment's fetch, with the state that each leaves behind. Only a document that reached the check can have
changed it. -/
inductive Outcome (scanners : Scanners) (exchange : Exchange) (format : DocumentFormat) (remaining : ℕ)
    (check : ProcessedDocument → Bytes → ℕ → EStateM DatabaseError σ τ) (state : σ) : EStateM.Result DatabaseError σ (FetchedDocument τ) → Prop
  | failed (error : DatabaseError) : Outcome scanners exchange format remaining check state (.error error state)
  | refused {output : ProcessedDocument} {raw : Bytes} {cause : DatabaseError} {final : σ}
      (ran : check output raw exchange.retrievedAt state = .error cause final) (error : DatabaseError) :
      Outcome scanners exchange format remaining check state (.error error final)
  | processed {body : Body} {output : ProcessedDocument} {value : τ} {final : σ}
      (fetched : fetchBody scanners exchange format (some remaining) = .ok body) (answered : exchange.processed = .ok output)
      (ran : check (markDiagnostics body.credentialsRedacted output) body.raw exchange.retrievedAt state = .ok value final) :
      Outcome scanners exchange format remaining check state (.ok (.processed value) final)
  | unexpected {body : Body} (fetched : fetchBody scanners exchange format (some remaining) = .ok body) (html : Bool) (reason : Str) :
      Outcome scanners exchange format remaining check state (.ok (.unexpectedAttachment body.raw html reason) state)
  | invalid {body : Body} {output : ProcessedDocument} {cause : DatabaseError} {final : σ}
      (fetched : fetchBody scanners exchange format (some remaining) = .ok body)
      (ran : check output body.raw exchange.retrievedAt state = .error cause final) (reason : Str) :
      Outcome scanners exchange format remaining check state (.ok (.unexpectedAttachment body.raw false reason) final)

theorem conclude_error (remaining : Option ℕ) (raw : Bytes) (error : DatabaseError) :
    (∃ cause, @conclude τ exchange remaining raw (.error error) = .error cause) ∨
      ∃ reason, @conclude τ exchange remaining raw (.error error) = .ok (.unexpectedAttachment raw false reason) := by
  unfold conclude
  split
  · next impossible => cases impossible
  · split_ifs
    · exact .inr ⟨_, rfl⟩
    · exact .inl ⟨_, rfl⟩
  · cases exchange.suspended <;> exact .inl ⟨_, rfl⟩
  · cases exchange.suspended <;> exact .inl ⟨_, rfl⟩
  · exact .inl ⟨_, rfl⟩

theorem settle_eq_ok {α : Type} {result : Except DatabaseError α} {value : α} (settled : settle result state = .ok value final) :
    result = .ok value := by
  cases result with
  | error error => cases settled
  | ok other =>
    cases settled
    rfl

theorem conclude_processed {remaining : Option ℕ} {raw : Bytes} {output : Except DatabaseError τ} {value : τ}
    (concluded : conclude exchange remaining raw output = .ok (.processed value)) : output = .ok value := by
  cases output with
  | ok other =>
    cases concluded
    rfl
  | error error =>
    rcases @conclude_error τ exchange remaining raw error with ⟨cause, same⟩ | ⟨reason, same⟩
    · rw [same] at concluded
      cases concluded
    · rw [same] at concluded
      cases concluded

/-- A document that passes its check was fetched, processed and accepted. -/
theorem fetchParseTimedChecked_ok {check : ProcessedDocument → Bytes → ℕ → Except DatabaseError τ} {value : τ}
    (fetched : fetchParseTimedChecked scanners exchange format check = .ok value) :
    ∃ body output, fetchBody scanners exchange format none = .ok body ∧ exchange.processed = .ok output ∧
      check (markDiagnostics body.credentialsRedacted output) body.raw exchange.retrievedAt = .ok value := by
  rw [fetchParseTimedChecked, fetchParseTimedCheckedInner] at fetched
  cases received : fetchBody scanners exchange format none with
  | error error =>
    rw [received] at fetched
    cases fetched
  | ok body =>
    rw [received] at fetched
    dsimp only [Option.isSome_none] at fetched
    rw [Bool.false_and, if_neg (by decide), if_neg (by decide)] at fetched
    refine ⟨body, ?_⟩
    split at fetched
    · cases fetched
    · next accepted ran =>
      cases fetched
      unfold processBody at ran
      split at ran
      · cases conclude_processed (settle_eq_ok ran)
      · next output answered =>
        refine ⟨output, rfl, answered, ?_⟩
        split at ran
        · next other final checked =>
          cases conclude_processed (settle_eq_ok ran)
          exact settle_eq_ok checked
        · cases conclude_processed (settle_eq_ok ran)
    · cases fetched

theorem fetchAttachment_outcome (state : σ) : Outcome scanners exchange format remaining check state
    (fetchAttachmentTimedChecked scanners exchange format remaining check state) := by
  rw [fetchAttachmentTimedChecked, fetchParseTimedCheckedInner]
  cases fetched : fetchBody scanners exchange format (some remaining) with
  | error error => exact .failed error
  | ok body =>
    dsimp only
    rw [if_neg (by decide)]
    split
    · exact .unexpected fetched _ _
    · unfold processBody
      split
      · next error _ =>
        rcases @conclude_error τ exchange (some remaining) body.raw (documentError error) with ⟨cause, same⟩ | ⟨reason, same⟩
        · rw [same]
          exact .failed cause
        · rw [same]
          exact .unexpected fetched false reason
      · next output answered =>
        split
        · next value final ran => exact .processed fetched answered ran
        · next error final ran =>
          rcases @conclude_error τ exchange (some remaining) body.raw (rejection error) with ⟨cause, same⟩ | ⟨reason, same⟩
          · rw [same]
            exact .refused ran cause
          · rw [same]
            exact .invalid fetched ran reason

end Outcome

end OpenLegal.LawGoKr
