import OpenLegal.Rust.Reader
import OpenLegal.TextDiff.Domain

/-! # The protocol of the diff worker

Private version-one framing: a magic value with the version, big-endian status and lengths, raw payloads.
The service writes requests and reads responses; the worker reads requests and writes responses.
-/

namespace OpenLegal.TextDiff.Protocol

open Rust Rust.Str Reader

def requestMagic : Bytes := asBytes ['O', 'L', 'D', 'I', 'F', 'F', '0', '1']
def patchMagic : Bytes := asBytes ['O', 'L', 'P', 'A', 'T', 'C', '0', '1']
def responseMagic : Bytes := asBytes ['O', 'L', 'D', 'I', 'F', 'R', '0', '1']
def maxMetadataBytes : ℕ := 8 * 1024 * 1024

/-! ## Requests -/

/-- A magic value and two lengths within their limits. -/
def headerWith (magic : Bytes) (firstLimit secondLimit first second : ℕ) : Except TextDiffError Bytes :=
  if first > firstLimit || second > secondLimit then .error .invalidInput
  else .ok (magic ++ (toBeBytes first ++ toBeBytes second))

def requestHeader (before after : ℕ) : Except TextDiffError Bytes :=
  headerWith requestMagic maxTextBytes maxTextBytes before after

def patchRequestHeader (target patch : ℕ) : Except TextDiffError Bytes :=
  headerWith patchMagic maxTextBytes maxPatchBytes target patch

/-- What the service writes to the worker: the header and the two texts. -/
def requestFrame (patch : Bool) (before after : Str) : Except TextDiffError Bytes := do
  let header ← if patch then patchRequestHeader (byteLen before) (byteLen after)
    else requestHeader (byteLen before) (byteLen after)
  pure (header ++ (asBytes before ++ asBytes after))

def readU32 : Reader TextDiffError ℕ := do
  let bytes ← readExact .invalidInput 4
  pure (fromBeBytes bytes)

/-- The magic value and the two payloads of a request. -/
def requestFields : Reader TextDiffError (Bytes × Bytes × Bytes) := do
  let magic ← readExact .invalidInput 8
  if magic ≠ requestMagic ∧ magic ≠ patchMagic then throw .invalidInput
  else
    let beforeLen ← readU32
    let afterLen ← readU32
    if beforeLen > maxTextBytes ∨ afterLen > (if magic = patchMagic then maxPatchBytes else maxTextBytes) then
      throw .invalidInput
    else
      let before ← readExact .invalidInput beforeLen
      let after ← readExact .invalidInput afterLen
      pure (magic, before, after)

def request (stream : Bytes) : Except TextDiffError (Bool × Str × Str) := do
  let (magic, before, after) ← complete .invalidInput requestFields stream
  let before ← (fromUtf8 before).elim (.error .invalidInput) .ok
  let after ← (fromUtf8 after).elim (.error .invalidInput) .ok
  pure (magic == patchMagic, before, after)

/-! ## Responses -/

/-- The third-party JSON encoder, which writes in pieces, and its decoder. -/
structure MetadataJson where
  pieces : List SourceLineHighlights → List Bytes
  fromSlice : Bytes → Option (List SourceLineHighlights)

namespace MetadataJson

variable (json : MetadataJson)

def encoded (changes : List SourceLineHighlights) : Bytes := (json.pieces changes).flatten

/-- `CappedMetadata::write`: a piece beyond the limit fails and leaves nothing. -/
def cappedWrite (written piece : Bytes) : Option Bytes :=
  if written.length + piece.length > maxMetadataBytes then none else some (written ++ piece)

/-- `serde_json::to_writer` into capped metadata. -/
def toWriter (changes : List SourceLineHighlights) : Option Bytes := (json.pieces changes).foldlM cappedWrite []

/-- Decoding undoes encoding. -/
def RoundTrips (changes : List SourceLineHighlights) : Prop := json.fromSlice (json.encoded changes) = some changes

end MetadataJson

section Responses

variable (json : MetadataJson)

/-- The status of an error; only three errors are told apart. -/
def statusOf : TextDiffError → ℕ
  | .invalidInput => 1
  | .resourceLimit => 2
  | .patchConflict => 4
  | _ => 3

/-- The parts of a response: its status, patch and metadata. -/
def responseParts (result : Except TextDiffError ComputedDiff) : ℕ × Bytes × Bytes :=
  match result with
  | .error error => (statusOf error, [], [])
  | .ok diff =>
    match json.toWriter diff.inlineChanges with
    | none => (statusOf .resourceLimit, [], [])
    | some metadata => (0, asBytes diff.patch, metadata)

def writeResponse (result : Except TextDiffError ComputedDiff) : Bytes :=
  let (status, patch, metadata) := responseParts json result
  responseMagic ++ (toBeBytes status ++ (toBeBytes patch.length ++ toBeBytes metadata.length)) ++ (patch ++ metadata)

/-- The status and the two payloads of a response. -/
def responseFields : Reader TextDiffError (ℕ × Bytes × Bytes) := do
  let header ← readExact .unavailable 20
  if header.take 8 ≠ responseMagic then throw .unavailable
  else
    let status := fromBeBytes ((header.drop 8).take 4)
    let patchLen := fromBeBytes ((header.drop 12).take 4)
    let metadataLen := fromBeBytes ((header.drop 16).take 4)
    if patchLen > maxPatchBytes ∨ metadataLen > maxMetadataBytes then throw .resourceLimit
    else if status > 4 ∨ (status ≠ 0 ∧ (patchLen ≠ 0 ∨ metadataLen ≠ 0)) then throw .unavailable
    else
      let patch ← readExact .unavailable patchLen
      let metadata ← readExact .unavailable metadataLen
      pure (status, patch, metadata)

def readResponse (stream : Bytes) : Except TextDiffError ComputedDiff := do
  let (status, patch, metadata) ← complete .unavailable responseFields stream
  match status with
  | 0 =>
    let patch ← (fromUtf8 patch).elim (.error .unavailable) .ok
    let inlineChanges ← (json.fromSlice metadata).elim (.error .unavailable) .ok
    pure ⟨patch, inlineChanges⟩
  | 1 => .error .invalidInput
  | 2 => .error .resourceLimit
  | 4 => .error .patchConflict
  | _ => .error .internal

end Responses

/-! ## Frames are read as a whole -/

theorem readU32_determined : Determined readU32 .invalidInput :=
  (readExact_determined _ _).bind fun _ => pure_determined _ _

theorem requestFields_determined : Determined requestFields .invalidInput := by
  refine (readExact_determined _ _).bind fun magic => .ite (throw_determined _ _) ?_
  refine (readU32_determined).bind fun beforeLen => (readU32_determined).bind fun afterLen => .ite (throw_determined _ _) ?_
  exact (readExact_determined _ _).bind fun before => (readExact_determined _ _).bind fun after => pure_determined _ _

theorem responseFields_determined : Determined responseFields .unavailable := by
  refine (readExact_determined _ _).bind fun header => .ite (throw_determined _ _) ?_
  refine .ite (throw_determined _ _) (.ite (throw_determined _ _) ?_)
  exact (readExact_determined _ _).bind fun patch => (readExact_determined _ _).bind fun metadata => pure_determined _ _

theorem readU32_toBeBytes {n : ℕ} (bound : n < 2 ^ 32) (rest : Bytes) : readU32 (toBeBytes n ++ rest) = .ok (n, rest) := by
  rw [readU32, bind_of_ok (readExact_append _ (toBeBytes_length n) rest), fromBeBytes_toBeBytes bound]
  rfl

/-- The magic value of an operation. -/
def magicOf (patch : Bool) : Bytes := if patch then patchMagic else requestMagic

/-- The limit on the second text of an operation. -/
def secondLimit (patch : Bool) : ℕ := if patch then maxPatchBytes else maxTextBytes

theorem requestFrame_eq {patch : Bool} {before after : Str} (first : byteLen before ≤ maxTextBytes)
    (second : byteLen after ≤ secondLimit patch) :
    requestFrame patch before after = .ok (magicOf patch ++ (toBeBytes (byteLen before) ++ toBeBytes (byteLen after)) ++
      (asBytes before ++ asBytes after)) := by
  cases patch with
  | false =>
    have short : byteLen after ≤ maxTextBytes := second
    simp [requestFrame, requestHeader, headerWith, magicOf, Nat.not_lt.mpr first, Nat.not_lt.mpr short]
  | true =>
    have short : byteLen after ≤ maxPatchBytes := second
    simp [requestFrame, patchRequestHeader, headerWith, magicOf, Nat.not_lt.mpr first, Nat.not_lt.mpr short]

/-- The worker reads the fields that the service wrote. -/
theorem requestFields_frame {patch : Bool} {before after : Str} (first : byteLen before ≤ maxTextBytes)
    (second : byteLen after ≤ secondLimit patch) :
    requestFields (magicOf patch ++ (toBeBytes (byteLen before) ++ toBeBytes (byteLen after)) ++
      (asBytes before ++ asBytes after)) = .ok ((magicOf patch, asBytes before, asBytes after), []) := by
  have magic : (magicOf patch).length = 8 ∧ ¬ (magicOf patch ≠ requestMagic ∧ magicOf patch ≠ patchMagic) ∧
      (if magicOf patch = patchMagic then maxPatchBytes else maxTextBytes) = secondLimit patch := by
    cases patch <;> decide
  have limits : maxTextBytes < 2 ^ 32 ∧ secondLimit patch < 2 ^ 32 := by
    cases patch <;> decide
  have frame : asBytes before ++ asBytes after = asBytes before ++ (asBytes after ++ []) := by rw [List.append_nil]
  simp only [List.append_assoc]
  rw [requestFields, bind_of_ok (readExact_append _ magic.1 _), if_neg magic.2.1,
    bind_of_ok (readU32_toBeBytes (by omega) _), bind_of_ok (readU32_toBeBytes (by omega) _),
    if_neg (by rw [magic.2.2]; omega), frame, bind_of_ok (readExact_append _ (asBytes_length before) _),
    bind_of_ok (readExact_append _ (asBytes_length after) _)]
  rfl

theorem request_frame {patch : Bool} {before after : Str} (first : byteLen before ≤ maxTextBytes)
    (second : byteLen after ≤ secondLimit patch) :
    ∃ frame, requestFrame patch before after = .ok frame ∧ request frame = .ok (patch, before, after) := by
  refine ⟨_, requestFrame_eq first second, ?_⟩
  have operation : (magicOf patch == patchMagic) = patch := by cases patch <;> decide
  rw [request, complete_eq_ok.mpr (requestFields_frame first second), ok_bind]
  simp [operation]

theorem request_rejects {stream : Bytes} {result : Bool × Str × Str} (accepted : request stream = .ok result) :
    (∀ part, part <+: stream → part ≠ stream → request part = .error .invalidInput) ∧
      ∀ extra, extra ≠ [] → request (stream ++ extra) = .error .invalidInput := by
  obtain ⟨fields, read, -⟩ := bind_eq_ok.mp accepted
  obtain ⟨shorter, longer⟩ := (requestFields_determined).complete_rejects read
  constructor
  · intro part inside other
    rw [request, shorter part inside other, error_bind]
  · intro extra nonempty
    rw [request, longer extra nonempty, error_bind]

/-! ## Responses are read back -/

section Responses

variable {json : MetadataJson}

theorem toWriter_eq {changes : List SourceLineHighlights} (short : (json.encoded changes).length ≤ maxMetadataBytes) :
    json.toWriter changes = some (json.encoded changes) := by
  have fits (written piece : Bytes) (room : written.length + piece.length ≤ maxMetadataBytes) :
      MetadataJson.cappedWrite written piece = some (written ++ piece) := if_neg (Nat.not_lt.mpr room)
  have wrote := @foldlM_capped _ _ fits (json.pieces changes) [] (by simpa [MetadataJson.encoded] using short)
  rw [List.nil_append] at wrote
  exact wrote

/-- The parts of a written response are read back from it. -/
theorem responseFields_parts {status : ℕ} {patch metadata : Bytes} (known : status ≤ 4)
    (first : patch.length ≤ maxPatchBytes) (second : metadata.length ≤ maxMetadataBytes)
    (empty : status ≠ 0 → patch = [] ∧ metadata = []) :
    responseFields (responseMagic ++ (toBeBytes status ++ (toBeBytes patch.length ++ toBeBytes metadata.length)) ++
      (patch ++ metadata)) = .ok ((status, patch, metadata), []) := by
  have limits : maxPatchBytes < 2 ^ 32 ∧ maxMetadataBytes < 2 ^ 32 := by decide
  have magic : responseMagic.length = 8 := by decide
  have total : (responseMagic ++ (toBeBytes status ++ (toBeBytes patch.length ++ toBeBytes metadata.length))).length = 20 := by
    simp [magic]
  -- the header is cut into its four fields
  have skip8 : (responseMagic ++ (toBeBytes status ++ (toBeBytes patch.length ++ toBeBytes metadata.length))).drop 8 =
      toBeBytes status ++ (toBeBytes patch.length ++ toBeBytes metadata.length) := List.drop_left' magic
  have skip12 : (responseMagic ++ (toBeBytes status ++ (toBeBytes patch.length ++ toBeBytes metadata.length))).drop 12 =
      toBeBytes patch.length ++ toBeBytes metadata.length := by
    rw [show 12 = 8 + 4 from rfl, ← List.drop_drop, skip8, List.drop_left' (toBeBytes_length _)]
  have skip16 : (responseMagic ++ (toBeBytes status ++ (toBeBytes patch.length ++ toBeBytes metadata.length))).drop 16 =
      toBeBytes metadata.length := by
    rw [show 16 = 12 + 4 from rfl, ← List.drop_drop, skip12, List.drop_left' (toBeBytes_length _)]
  have ended : patch ++ metadata = patch ++ (metadata ++ []) := by rw [List.append_nil]
  rw [responseFields, bind_of_ok (readExact_append _ total _), List.take_left' magic, if_neg (by simp)]
  rw [skip8, skip12, skip16, List.take_left' (toBeBytes_length _), List.take_left' (toBeBytes_length _),
    List.take_of_length_le (toBeBytes_length _).le, fromBeBytes_toBeBytes (by omega), fromBeBytes_toBeBytes (by omega),
    fromBeBytes_toBeBytes (by omega), if_neg (by omega), if_neg ?known, ended, bind_of_ok (readExact_append _ rfl _),
    bind_of_ok (readExact_append _ rfl _)]
  · rfl
  case known =>
    rintro (unknown | ⟨failed, payload⟩)
    · omega
    · obtain ⟨rfl, rfl⟩ := empty failed
      simp at payload

/-- Parts that are written together are read together, and nothing shorter or longer is. -/
theorem complete_parts {status : ℕ} {patch metadata : Bytes} (known : status ≤ 4)
    (first : patch.length ≤ maxPatchBytes) (second : metadata.length ≤ maxMetadataBytes)
    (empty : status ≠ 0 → patch = [] ∧ metadata = []) :
    complete .unavailable responseFields
      (responseMagic ++ (toBeBytes status ++ (toBeBytes patch.length ++ toBeBytes metadata.length)) ++
        (patch ++ metadata)) = .ok (status, patch, metadata) :=
  complete_eq_ok.mpr (responseFields_parts known first second empty)

theorem readResponse_rejects {stream : Bytes} {fields : ℕ × Bytes × Bytes}
    (read : complete .unavailable responseFields stream = .ok fields) :
    (∀ part, part <+: stream → part ≠ stream → readResponse json part = .error .unavailable) ∧
      ∀ extra, extra ≠ [] → readResponse json (stream ++ extra) = .error .unavailable := by
  obtain ⟨shorter, longer⟩ := (responseFields_determined).complete_rejects read
  constructor
  · intro part inside other
    rw [readResponse, shorter part inside other, error_bind]
  · intro extra nonempty
    rw [readResponse, longer extra nonempty, error_bind]

theorem complete_writeResponse_ok {diff : ComputedDiff} (first : byteLen diff.patch ≤ maxPatchBytes)
    (second : (json.encoded diff.inlineChanges).length ≤ maxMetadataBytes) :
    complete .unavailable responseFields (writeResponse json (.ok diff)) =
      .ok (0, asBytes diff.patch, json.encoded diff.inlineChanges) := by
  rw [writeResponse, responseParts, toWriter_eq second]
  exact complete_parts (Nat.zero_le _) (by rw [asBytes_length]; exact first) second (by simp)

theorem complete_writeResponse_error (error : TextDiffError) :
    complete .unavailable responseFields (writeResponse json (.error error)) = .ok (statusOf error, [], []) := by
  have known : statusOf error ≤ 4 := by cases error <;> simp [statusOf]
  exact complete_parts known (Nat.zero_le _) (Nat.zero_le _) (by simp)

end Responses

/-- What the service learns of an error of the worker. -/
def reported : TextDiffError → TextDiffError
  | .invalidInput => .invalidInput
  | .resourceLimit => .resourceLimit
  | .patchConflict => .patchConflict
  | _ => .internal

/-- Requests and responses within the limits are read back as they were written, and no proper beginning or
continuation of an accepted frame is accepted. -/
theorem protocol_roundTrip (json : MetadataJson) :
    (∀ patch before after, byteLen before ≤ maxTextBytes → byteLen after ≤ secondLimit patch →
      ∃ frame, requestFrame patch before after = .ok frame ∧ request frame = .ok (patch, before, after)) ∧
    (∀ stream result, request stream = .ok result →
      (∀ part, part <+: stream → part ≠ stream → request part = .error .invalidInput) ∧
        ∀ extra, extra ≠ [] → request (stream ++ extra) = .error .invalidInput) ∧
    (∀ diff, byteLen diff.patch ≤ maxPatchBytes → (json.encoded diff.inlineChanges).length ≤ maxMetadataBytes →
      json.RoundTrips diff.inlineChanges → readResponse json (writeResponse json (.ok diff)) = .ok diff) ∧
    (∀ error, readResponse json (writeResponse json (.error error)) = .error (reported error)) ∧
    (∀ stream, ((∃ diff, readResponse json stream = .ok diff) ∨ ∃ error, stream = writeResponse json (.error error)) →
      (∀ part, part <+: stream → part ≠ stream → readResponse json part = .error .unavailable) ∧
        ∀ extra, extra ≠ [] → readResponse json (stream ++ extra) = .error .unavailable) := by
  refine ⟨?_, ?_, ?_, ?_, ?_⟩
  · intro patch before after first second
    exact request_frame first second
  · intro stream result accepted
    exact request_rejects accepted
  · intro diff first second decodes
    rw [readResponse, complete_writeResponse_ok first second, ok_bind]
    dsimp only
    rw [fromUtf8_asBytes, show json.fromSlice (json.encoded diff.inlineChanges) = some diff.inlineChanges from decodes]
    rfl
  · intro error
    rw [readResponse, complete_writeResponse_error, ok_bind]
    cases error <;> rfl
  · rintro stream (⟨diff, accepted⟩ | ⟨error, rfl⟩)
    · obtain ⟨fields, read, -⟩ := bind_eq_ok.mp accepted
      exact readResponse_rejects read
    · exact readResponse_rejects (complete_writeResponse_error error)

/-- The JSON object of the highlights of one line. -/
def highlightsText (change : SourceLineHighlights) : Str :=
  "\x7b\"side\":\"".toList ++ (if change.side = .before then "before".toList else "after".toList) ++
    "\",\"line_index\":".toList ++ decimal change.lineIndex ++ ",\"ranges\":[".toList ++
    [','].intercalate (change.ranges.map fun range => ['['] ++ decimal range.1 ++ [','] ++ decimal range.2 ++ [']']) ++
    "]\x7d".toList

/-- One line on each side, the second one with two highlights. -/
def sampleHighlights : List SourceLineHighlights := [⟨.before, 0, [(0, 1)]⟩, ⟨.after, 0, [(0, 1), (3, 12)]⟩]

def samplePieces (changes : List SourceLineHighlights) : List Bytes :=
  [asBytes ['['], asBytes ([','].intercalate (changes.map highlightsText)), asBytes [']']]

/-- An encoder, with a decoder that reads the text of the sample. -/
def sampleJson : MetadataJson where
  pieces := samplePieces
  fromSlice bytes := if bytes = (samplePieces sampleHighlights).flatten then some sampleHighlights else none

theorem protocol_roundTrip_highlights :
    readResponse sampleJson (writeResponse sampleJson (.ok ⟨['@', '가'], sampleHighlights⟩)) = .ok ⟨['@', '가'], sampleHighlights⟩ := by
  have decodes : sampleJson.RoundTrips sampleHighlights := by
    change (if (samplePieces sampleHighlights).flatten = (samplePieces sampleHighlights).flatten then some sampleHighlights else none) = _
    exact if_pos rfl
  exact (protocol_roundTrip sampleJson).2.2.1 ⟨['@', '가'], sampleHighlights⟩ (by decide) (by decide +kernel) decodes

end OpenLegal.TextDiff.Protocol
