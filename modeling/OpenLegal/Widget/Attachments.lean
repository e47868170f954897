import OpenLegal.TextDiff.OpenUpload
import OpenLegal.Widget.JsValue

/-! # Transferring attachments between the widget and the server

The widget cuts a text into chunks by counting the UTF-8 bytes of the scalars it iterates over, sends
them one by one, and reads a stored text back page by page. The server checks the chunks against byte
offsets of its own copy. Both sides agree for every text that a comparison accepts.
-/

namespace OpenLegal.Widget

open Rust Rust.Str TextDiff TextDiff.Service

variable {json : Paging.SerdeJson}

/-! ## Cutting a text into chunks -/

/-- What the generator yields. -/
structure AttachmentPart where
  offset : ℕ
  chunk : JsString
  final : Bool
deriving DecidableEq, Repr

/-- The generator's loop over the remaining scalars: what it still yields, and the error that ends it. -/
def chunkLoop : List (JsString × ℕ) → JsString → ℕ → ℕ → List AttachmentPart × Option String
  | [], chunk, _, offset => ([⟨offset, chunk, true⟩], none)
  | (scalar, point) :: rest, chunk, bytes, offset =>
    if isSurrogate point then ([], some "Text must contain valid Unicode.")
    else if bytes + pointSize point > 32 * 1024 then
      let (parts, error) := chunkLoop rest scalar (pointSize point) (offset + bytes)
      (⟨offset, chunk, false⟩ :: parts, error)
    else chunkLoop rest (chunk ++ scalar) (bytes + pointSize point) offset

def attachmentChunks (text : JsString) : List AttachmentPart × Option String := chunkLoop (codePoints text) [] 0 0

/-- The parts of a text that is cut into pieces: they follow each other, and the last one is final. -/
def partsOf : ℕ → List Str → List AttachmentPart
  | _, [] => []
  | offset, [piece] => [⟨offset, encode piece, true⟩]
  | offset, piece :: next :: pieces => ⟨offset, encode piece, false⟩ :: partsOf (offset + byteLen piece) (next :: pieces)

/-- Pieces that a server takes as chunks: small, and not empty unless the text is. -/
structure Pieces (text : Str) (pieces : List Str) : Prop where
  inhabited : pieces ≠ []
  whole : pieces.flatten = text
  small : ∀ piece ∈ pieces, byteLen piece ≤ maxAttachmentChunkBytes
  progress : ∀ piece ∈ pieces.dropLast, piece ≠ []

theorem chunkLoop_spec (rest held : Str) (offset : ℕ) (small : byteLen held ≤ maxAttachmentChunkBytes) :
    ∃ pieces, Pieces (held ++ rest) pieces ∧
      chunkLoop (rest.map fun c => (encodeChar c, c.toNat)) (encode held) (byteLen held) offset =
        (partsOf offset pieces, none) := by
  have limit : maxAttachmentChunkBytes = 32 * 1024 := rfl
  induction rest generalizing held offset with
  | nil =>
    refine ⟨[held], ⟨by simp, by simp, by simpa using small, by simp⟩, rfl⟩
  | cons c rest ih =>
    have size := c.utf8Size_le_four
    have single : byteLen [c] = c.utf8Size := by rw [byteLen_cons, byteLen_nil, Nat.add_zero]
    have unit : encode [c] = encodeChar c := by rw [encode, List.flatMap_singleton]
    rw [List.map_cons, chunkLoop, toNat_not_surrogate, pointSize_toNat]
    simp only [Bool.false_eq_true, if_false]
    by_cases full : byteLen held + c.utf8Size > 32 * 1024
    · obtain ⟨pieces, cut, same⟩ := ih [c] (offset + byteLen held) (by omega)
      rw [single, unit] at same
      obtain ⟨next, pieces, rfl⟩ := List.exists_cons_of_ne_nil cut.inhabited
      refine ⟨held :: next :: pieces, ⟨by simp, ?_, ?_, ?_⟩, ?_⟩
      · rw [List.flatten_cons, cut.whole, List.singleton_append]
      · intro piece member
        rcases List.mem_cons.mp member with rfl | member
        · exact small
        · exact cut.small piece member
      · rw [List.dropLast_cons_cons]
        intro piece member
        rcases List.mem_cons.mp member with rfl | member
        · rintro rfl
          rw [byteLen_nil] at full
          omega
        · exact cut.progress piece member
      · rw [if_pos full, same, partsOf]
    · obtain ⟨pieces, cut, same⟩ := ih (held ++ [c]) offset (by rw [byteLen_append, single]; omega)
      rw [encode_append, byteLen_append, single, unit] at same
      rw [List.append_assoc, List.singleton_append] at cut
      exact ⟨pieces, cut, by rw [if_neg full, same]⟩

/-- The chunks of a text are its pieces in order, at their byte offsets. -/
theorem attachmentChunks_encode (text : Str) :
    ∃ pieces, Pieces text pieces ∧ attachmentChunks (encode text) = (partsOf 0 pieces, none) := by
  rw [attachmentChunks, codePoints_encode]
  exact chunkLoop_spec text [] 0 (Nat.zero_le _)

/-! ## Reading the server's answers -/

structure Attachment where
  attachmentId : JsString
  kind : AttachmentKind
  totalBytes : ℕ
  committedBytes : ℕ
  sealed : Bool
  expiresAt : ℕ
deriving DecidableEq, Repr

def kindName : AttachmentKind → Str
  | .text => ['t', 'e', 'x', 't']
  | .patch => ['p', 'a', 't', 'c', 'h']

/-- The comparison of `item.kind` with the two names. -/
def kindOf (value : JsValue) : Except String AttachmentKind :=
  match value with
  | .string name =>
    if name = encode (kindName .text) then .ok .text
    else if name = encode (kindName .patch) then .ok .patch
    else .error "The server returned an invalid attachment."
  | _ => .error "The server returned an invalid attachment."

def kindLimit : AttachmentKind → ℕ
  | .text => 1024 * 1024
  | .patch => 8 * (1024 * 1024)

def parseAttachment (value : JsValue) : Except String Attachment := do
  let item ← object value
  check (!isCount 1 (item.get "schema_version")) "The server returned an invalid attachment."
  let kind ← kindOf (item.get "kind")
  let totalBytes ← integer (item.get "total_bytes") (kindLimit kind)
  let committedBytes ← integer (item.get "committed_bytes") totalBytes
  let sealed ← boolean (item.get "sealed")
  check (sealed && committedBytes ≠ totalBytes) "The server returned an incomplete attachment."
  let attachmentId ← identity (item.get "attachment_id")
  let expiresAt ← integer (item.get "expires_at") maxSafeInteger
  pure { attachmentId, kind, totalBytes, committedBytes, sealed, expiresAt }

def parseAttachmentUpload (result : JsValue) : Except String Attachment := do
  let fields ← data result
  parseAttachment (.object fields)

structure AttachmentChunk where
  text : JsString
  nextOffset : ℕ
  complete : Bool
deriving DecidableEq, Repr

def parseAttachmentChunk (result : JsValue) (expected : Attachment) (offset : ℕ) : Except String AttachmentChunk := do
  let value ← data result
  let attachment ← parseAttachment (value.get "attachment")
  check (!isCount 1 (value.get "schema_version") || attachment.attachmentId ≠ expected.attachmentId ||
    attachment.kind ≠ expected.kind || attachment.totalBytes ≠ expected.totalBytes ||
    attachment.expiresAt ≠ expected.expiresAt || !attachment.sealed || !isCount offset (value.get "offset"))
    "The server returned inconsistent attachment data."
  let text ← string (value.get "text") (32 * 1024)
  let next ← integer (value.get "next_offset") attachment.totalBytes
  let complete ← boolean (value.get "complete")
  check (next ≠ offset + utf8Length text || complete ≠ decide (next = attachment.totalBytes) || (!complete && next ≤ offset))
    "The server returned an invalid attachment chunk."
  pure { text, nextOffset := next, complete }

/-! ## What the server sends -/

/-- The JSON of a summary. -/
def summaryFields (summary : AttachmentSummary) : Fields :=
  [("schema_version", .count summary.schemaVersion), ("attachment_id", .text summary.attachmentId),
    ("kind", .text (kindName summary.kind)), ("total_bytes", .count summary.totalBytes),
    ("committed_bytes", .count summary.committedBytes), ("sealed", .boolean summary.sealed),
    ("expires_at", .count summary.expiresAt)]

/-- The JSON of an attachment page. -/
def pageFields (page : AttachmentPage) : Fields :=
  [("schema_version", .count page.schemaVersion), ("attachment", .object (summaryFields page.attachment)),
    ("offset", .count page.offset), ("next_offset", .count page.nextOffset), ("complete", .boolean page.complete),
    ("text", .text page.text)]

/-- The widget's copy of a summary. -/
def attachmentOf (summary : AttachmentSummary) : Attachment :=
  ⟨encode summary.attachmentId, summary.kind, summary.totalBytes, summary.committedBytes, summary.sealed, summary.expiresAt⟩

/-- A summary as the service stores it, with an expiry that JavaScript can represent. -/
structure Presentable (summary : AttachmentSummary) : Prop where
  version : summary.schemaVersion = 1
  handle : validHandle summary.attachmentId = true
  total : summary.totalBytes ≤ maximum summary.kind
  committed : summary.committedBytes ≤ summary.totalBytes
  complete : summary.sealed = true → summary.committedBytes = summary.totalBytes
  expires : summary.expiresAt ≤ maxSafeInteger

/-- A handle is an identity: its scalars are single units. -/
theorem identity_handle {id : Str} (handle : validHandle id = true) : identity (.text id) = .ok (encode id) := by
  rw [validHandle, Bool.and_eq_true, decide_eq_true_eq, List.all_eq_true] at handle
  obtain ⟨bytes, digits⟩ := handle
  have each : ∀ c ∈ id, (0x30 ≤ c.toNat ∧ c.toNat ≤ 0x39) ∨ (0x61 ≤ c.toNat ∧ c.toNat ≤ 0x66) := by
    intro c member
    have digit := digits c member
    simp only [Bool.or_eq_true, Bool.and_eq_true, decide_eq_true_eq, Char.isDigit, ge_iff_le, UInt32.le_iff_toNat_le] at digit
    exact digit
  have units : encode id = id.map fun c => UInt16.ofNat c.toNat := by
    rw [encode, List.map_eq_flatMap]
    apply List.flatMap_congr
    intro c member
    have range := each c member
    rw [encodeChar, if_pos (by omega)]
  have sizes : byteLen id = id.length := by
    clear digits bytes units
    induction id with
    | nil => rfl
    | cons c id ih =>
      obtain ⟨first, others⟩ := List.forall_mem_cons.mp each
      have size : c.utf8Size = 1 := by
        rw [← pointSize_toNat, pointSize, if_pos (by omega)]
      rw [byteLen_cons, size, ih others, List.length_cons, Nat.add_comm]
  have length : (encode id).length = 64 := by rw [units, List.length_map, ← sizes, bytes]
  have all : (encode id).all (fun unit => (0x30 ≤ unit.toNat && unit.toNat ≤ 0x39) || (0x61 ≤ unit.toNat && unit.toNat ≤ 0x66)) =
      true := by
    rw [units, List.all_map, List.all_eq_true]
    intro c member
    have range := each c member
    have unit : (UInt16.ofNat c.toNat).toNat = c.toNat := UInt16.toNat_ofNat_of_lt' (by show _ < 65536; omega)
    simp only [Function.comp_apply, unit, Bool.or_eq_true, Bool.and_eq_true, decide_eq_true_eq]
    exact range
  simp only [JsValue.text, identity, length, all, decide_true, Bool.and_self, if_true]

theorem kindOf_text (kind : AttachmentKind) : kindOf (.text (kindName kind)) = .ok kind := by
  cases kind with
  | text => rfl
  | patch => rfl

theorem maximum_le_safe (kind : AttachmentKind) : maximum kind ≤ maxSafeInteger ∧ kindLimit kind = maximum kind := by
  cases kind <;> decide

/-- The widget accepts every summary. -/
theorem parseAttachment_summary {summary : AttachmentSummary} (presentable : Presentable summary) :
    parseAttachment (.object (summaryFields summary)) = .ok (attachmentOf summary) := by
  obtain ⟨safe, limit⟩ := maximum_le_safe summary.kind
  have total := presentable.total
  have committed := presentable.committed
  have version : isCount 1 (.count summary.schemaVersion) = true := by rw [presentable.version]; rfl
  have complete : (summary.sealed && decide (summary.committedBytes ≠ summary.totalBytes)) = false := by
    cases sealed : summary.sealed with
    | false => rfl
    | true => simp [presentable.complete sealed]
  have fields : (summaryFields summary).get "schema_version" = .count summary.schemaVersion ∧
      (summaryFields summary).get "attachment_id" = .text summary.attachmentId ∧
      (summaryFields summary).get "kind" = .text (kindName summary.kind) ∧
      (summaryFields summary).get "total_bytes" = .count summary.totalBytes ∧
      (summaryFields summary).get "committed_bytes" = .count summary.committedBytes ∧
      (summaryFields summary).get "sealed" = .boolean summary.sealed ∧
      (summaryFields summary).get "expires_at" = .count summary.expiresAt := ⟨rfl, rfl, rfl, rfl, rfl, rfl, rfl⟩
  obtain ⟨versionField, idField, kindField, totalField, committedField, sealedField, expiresField⟩ := fields
  rw [parseAttachment]
  simp only [object_object, ok_bind, versionField, version, Bool.not_true, check, Bool.false_eq_true, if_false, kindField,
    kindOf_text, totalField, integer_count (limit ▸ total) (total.trans safe), committedField,
    integer_count committed (committed.trans (total.trans safe)), sealedField, boolean_boolean, complete, idField,
    identity_handle presentable.handle, expiresField, integer_count presentable.expires presentable.expires]
  rfl

/-! ## Uploading -/

/-- The arguments of the call for one part, as the server reads them. -/
def uploadRequest (kind : AttachmentKind) (totalBytes : ℕ) (previous : Option Attachment) (part : AttachmentPart) :
    Option AttachmentUpload := do
  let chunk ← decode part.chunk
  match previous with
  | some previous => do
    let id ← decode previous.attachmentId
    pure ⟨some id, none, none, part.offset, chunk, part.final⟩
  | none => pure ⟨none, some kind, some totalBytes, part.offset, chunk, part.final⟩

/-- The widget's check of the answer to one part. -/
def consistentUpload (kind : AttachmentKind) (totalBytes : ℕ) (previous : Option Attachment) (part : AttachmentPart)
    (current : Attachment) : Bool :=
  current.kind = kind && current.totalBytes = totalBytes &&
    current.committedBytes = part.offset + utf8Length part.chunk && current.sealed = part.final &&
    previous.all fun previous => current.attachmentId = previous.attachmentId && current.expiresAt = previous.expiresAt

/-- Before a call the service runs other sections. -/
abbrev UploadRound := List Event × Publication

/-- Send one part and check the answer; `none` when either side refuses. -/
def sendPart (json : Paging.SerdeJson) (kind : AttachmentKind) (totalBytes : ℕ) (previous : Option Attachment)
    (part : AttachmentPart) (round : UploadRound) (world : World) : Option (Attachment × World) := do
  let request ← uploadRequest kind totalBytes previous part
  match uploadAttachment round.2 request none (run json world round.1).state with
  | (.ok summary, state) =>
    match parseAttachmentUpload (toolResult (.object (summaryFields summary))) with
    | .ok current =>
      if consistentUpload kind totalBytes previous part current then some (current, { run json world round.1 with state })
      else none
    | .error _ => none
  | (.error _, _) => none

/-- Send the parts one by one. -/
def sendParts (json : Paging.SerdeJson) (kind : AttachmentKind) (totalBytes : ℕ) :
    List AttachmentPart → List UploadRound → Option Attachment → World → Option (Option Attachment × World)
  | [], _, previous, world => some (previous, world)
  | _ :: _, [], _, _ => none
  | part :: parts, round :: rounds, previous, world => do
    let (current, world) ← sendPart json kind totalBytes previous part round world
    sendParts json kind totalBytes parts rounds (some current) world

/-- The service runs and has room when the first part arrives, and finds the attachment as the last part left
it when another one arrives. -/
def Undisturbed (json : Paging.SerdeJson) (kind : AttachmentKind) (totalBytes : ℕ) :
    List AttachmentPart → List UploadRound → Option Attachment → World → Prop
  | [], _, _, _ => True
  | _ :: _, [], _, _ => False
  | part :: parts, round :: rounds, previous, world =>
    let swept := expire round.2.sweep (run json world round.1).state
    swept.stopping = false ∧
      (match previous with
        | none => Room round.2 totalBytes swept ∧ expiresAt round.2.clock ≤ maxSafeInteger
        | some previous => ∃ id entry, encode id = previous.attachmentId ∧ world.state.attachments.get id = some entry ∧
          swept.attachments.get id = some entry) ∧
      ∀ current next, sendPart json kind totalBytes previous part round world = some (current, next) →
        Undisturbed json kind totalBytes parts rounds (some current) next

/-- The attachment holds the front of the text, and the widget has a copy of its summary. -/
structure Stands (world : World) (kind : AttachmentKind) (total : ℕ) (front : Str) (sealed : Bool)
    (current : Attachment) (id : Str) (entry : StoredAttachment) : Prop where
  present : world.state.attachments.get id = some entry
  text : entry.data.text = front
  summary : ∃ expiresAt ≤ maxSafeInteger, entry.summary = ⟨1, id, kind, total, byteLen front, sealed, expiresAt⟩
  copy : current = attachmentOf entry.summary

/-- An answer with the summary of a well-formed attachment is accepted. -/
theorem sendPart_of_upload {kind : AttachmentKind} {total : ℕ} {previous : Option Attachment} {part : AttachmentPart}
    {round : UploadRound} {world : World} (steady : Steady world) {request : AttachmentUpload} {summary : AttachmentSummary}
    {state : State} (asked : uploadRequest kind total previous part = some request)
    (answered : uploadAttachment round.2 request none (run json world round.1).state = (.ok summary, state))
    (presentable : Presentable summary) (consistent : consistentUpload kind total previous part (attachmentOf summary) = true) :
    ∃ next, sendPart json kind total previous part round world = some (attachmentOf summary, next) ∧ Steady next ∧
      next.state = state := by
  have parsed : parseAttachmentUpload (toolResult (.object (summaryFields summary))) = .ok (attachmentOf summary) := by
    rw [parseAttachmentUpload, data_toolResult, ok_bind, parseAttachment_summary presentable]
  have advanced := step_steady json (run_steady json steady round.1) (.upload round.2 request none)
  rw [step, answered] at advanced
  refine ⟨_, ?_, advanced, rfl⟩
  rw [sendPart, asked]
  simp only [Option.bind_eq_bind, Option.bind_some, answered, parsed, consistent, if_true]

theorem smallChunk_of_piece {text : Str} {pieces : List Str} (clean : '\x00' ∉ text) {front : Str}
    (cut : front ++ pieces.flatten = text) (small : ∀ piece ∈ pieces, byteLen piece ≤ maxAttachmentChunkBytes) {piece : Str}
    (member : piece ∈ pieces) : SmallChunk piece where
  bytes := small piece member
  noNul := fun nul => clean (cut ▸ List.mem_append_right _ (List.mem_flatten.mpr ⟨piece, member, nul⟩))

/-- The first part creates the attachment. -/
theorem sendPart_first {kind : AttachmentKind} {text piece : Str} {round : UploadRound} {world : World}
    (steady : Steady world) (sealed : Bool) (valid : validate kind text = .ok ()) (limit : byteLen text ≤ maximum kind)
    (running : (expire round.2.sweep (run json world round.1).state).stopping = false)
    (room : Room round.2 (byteLen text) (expire round.2.sweep (run json world round.1).state))
    (safe : expiresAt round.2.clock ≤ maxSafeInteger) (small : SmallChunk piece) (within : byteLen piece ≤ byteLen text)
    (final : sealed = true → piece = text) (progress : sealed = false → piece ≠ []) :
    ∃ current next id entry,
      sendPart json kind (byteLen text) none ⟨0, encode piece, sealed⟩ round world = some (current, next) ∧
        Steady next ∧ Stands next kind (byteLen text) piece sealed current id entry ∧
        next.state.stopping = false ∧ entry.expires = round.2.instant + retention := by
  obtain ⟨id, charge, answered⟩ := uploadAttachment_first running room small limit within
    (fun last => ⟨by rw [final last], by rw [final last]; exact valid⟩) progress
  have handle : validHandle id = true := by
    have advanced := (step_steady json (run_steady json steady round.1)
      (.upload round.2 ⟨none, some kind, some (byteLen text), 0, piece, sealed⟩ none)).ready.sound.wellFormed id
    rw [step, answered] at advanced
    exact (advanced _ (Map.get_insert _ _ _)).handle
  have presentable : Presentable ⟨1, id, kind, byteLen text, byteLen piece, sealed, expiresAt round.2.clock⟩ := {
    version := rfl
    handle
    total := limit
    committed := within
    complete := fun last => by dsimp only; rw [final last]
    expires := safe }
  have asked : uploadRequest kind (byteLen text) none ⟨0, encode piece, sealed⟩ =
      some ⟨none, some kind, some (byteLen text), 0, piece, sealed⟩ := by
    simp [uploadRequest]
  obtain ⟨next, sent, advanced, same⟩ := sendPart_of_upload steady asked answered presentable
    (by simp [consistentUpload, attachmentOf])
  have present := (congrArg (fun state : State => state.attachments.get id) same).trans (Map.get_insert _ _ _)
  exact ⟨_, next, id, _, sent, advanced, ⟨present, rfl, ⟨_, safe, rfl⟩, rfl⟩, (congrArg State.stopping same).trans running, rfl⟩

/-- Another part is appended to the attachment. -/
theorem sendPart_next {kind : AttachmentKind} {text front piece : Str} {round : UploadRound} {world : World}
    (steady : Steady world) (sealed : Bool) {previous : Attachment} {id : Str} {entry : StoredAttachment}
    (stands : Stands world kind (byteLen text) front false previous id entry) (valid : validate kind text = .ok ())
    (limit : byteLen text ≤ maximum kind)
    (running : (expire round.2.sweep (run json world round.1).state).stopping = false)
    (kept : (expire round.2.sweep (run json world round.1).state).attachments.get id = some entry)
    (small : SmallChunk piece) (within : byteLen front + byteLen piece ≤ byteLen text)
    (final : sealed = true → front ++ piece = text) (progress : sealed = false → piece ≠ []) :
    ∃ current next id later,
      sendPart json kind (byteLen text) (some previous) ⟨byteLen front, encode piece, sealed⟩ round world =
          some (current, next) ∧
        Steady next ∧ Stands next kind (byteLen text) (front ++ piece) sealed current id later ∧
        next.state.stopping = false ∧ later.expires = entry.expires := by
  obtain ⟨present, rfl, ⟨expires, safe, summary⟩, rfl⟩ := stands
  have swept := run_steady json steady round.1
  have handle := (steady.ready.sound.wellFormed id entry present).handle
  have answered := uploadAttachment_next (expire_held swept.held round.2.sweep)
    (expire_accounted swept.fits.accounted round.2.sweep) running handle kept (by rw [summary]) small
    (by rw [summary]; exact limit.trans_lt (maximum_lt kind)) (by rw [summary]; exact within)
    (fun last => by
      rw [summary]
      exact ⟨by rw [← byteLen_append, final last], by rw [final last]; exact valid⟩) progress
  rw [summary] at answered
  have presentable : Presentable ⟨1, id, kind, byteLen text, byteLen entry.data.text + byteLen piece, sealed, expires⟩ := {
    version := rfl
    handle
    total := limit
    committed := within
    complete := fun last => by dsimp only; rw [← byteLen_append, final last]
    expires := safe }
  have asked : uploadRequest kind (byteLen text) (some (attachmentOf entry.summary))
      ⟨byteLen entry.data.text, encode piece, sealed⟩ = some ⟨some id, none, none, byteLen entry.data.text, piece, sealed⟩ := by
    simp [uploadRequest, attachmentOf, summary]
  obtain ⟨next, sent, advanced, same⟩ := sendPart_of_upload steady asked answered presentable
    (by simp [consistentUpload, attachmentOf, summary])
  have present := (congrArg (fun state : State => state.attachments.get id) same).trans (Map.get_update kept _)
  exact ⟨_, next, id, _, sent, advanced, ⟨present, rfl, ⟨expires, safe, by rw [byteLen_append]⟩, rfl⟩,
    (congrArg State.stopping same).trans running, rfl⟩

/-- What is stored under the name that the widget knows is the attachment itself. -/
theorem Stands.unique {world : World} {kind : AttachmentKind} {total : ℕ} {front : Str} {sealed : Bool} {current : Attachment}
    {id other : Str} {entry here : StoredAttachment} (stands : Stands world kind total front sealed current id entry)
    (named : encode other = current.attachmentId) (found : world.state.attachments.get other = some here) :
    other = id ∧ here = entry := by
  obtain ⟨present, -, ⟨expires, -, summary⟩, copy⟩ := stands
  obtain rfl : other = id := by
    apply encode_injective
    rw [named, copy, summary, attachmentOf]
  exact ⟨rfl, Option.some.inj (found.symm.trans present)⟩

/-- An undisturbed continuation finds it. -/
theorem Stands.kept {world : World} {kind : AttachmentKind} {total : ℕ} {front : Str} {sealed : Bool} {current : Attachment}
    {id : Str} {entry : StoredAttachment} (stands : Stands world kind total front sealed current id entry) {swept : State}
    (found : ∃ id entry, encode id = current.attachmentId ∧ world.state.attachments.get id = some entry ∧
      swept.attachments.get id = some entry) : swept.attachments.get id = some entry := by
  obtain ⟨other, here, named, before, after⟩ := found
  obtain ⟨rfl, rfl⟩ := stands.unique named before
  exact after

/-- The remaining parts are accepted one by one, and the last one seals the text. -/
theorem sendParts_next {kind : AttachmentKind} {text : Str} (valid : validate kind text = .ok ())
    (limit : byteLen text ≤ maximum kind) (clean : '\x00' ∉ text) {pieces : List Str} (inhabited : pieces ≠ [])
    {front : Str} (cut : front ++ pieces.flatten = text) (small : ∀ piece ∈ pieces, byteLen piece ≤ maxAttachmentChunkBytes)
    (progress : ∀ piece ∈ pieces.dropLast, piece ≠ []) {rounds : List UploadRound} {world : World} {previous : Attachment}
    {id : Str} {entry : StoredAttachment} (steady : Steady world)
    (stands : Stands world kind (byteLen text) front false previous id entry)
    (undisturbed : Undisturbed json kind (byteLen text) (partsOf (byteLen front) pieces) rounds (some previous) world) :
    ∃ current next id entry,
      sendParts json kind (byteLen text) (partsOf (byteLen front) pieces) rounds (some previous) world =
          some (some current, next) ∧
        Steady next ∧ Stands next kind (byteLen text) text true current id entry := by
  induction pieces generalizing front rounds world previous id entry with
  | nil => exact absurd rfl inhabited
  | cons piece pieces ih =>
    have chunk := smallChunk_of_piece clean cut small List.mem_cons_self
    have bytes := congrArg byteLen cut
    rw [List.flatten_cons, byteLen_append, byteLen_append] at bytes
    cases pieces with
    | nil =>
      rw [partsOf] at undisturbed ⊢
      cases rounds with
      | nil => exact undisturbed.elim
      | cons round rounds =>
        obtain ⟨running, found, -⟩ := undisturbed
        have whole : front ++ piece = text := by simpa using cut
        obtain ⟨current, next, id, entry, sent, advanced, sealed, -⟩ := sendPart_next steady true stands valid limit
          running (stands.kept found) chunk (by omega) (fun _ => whole) (by simp)
        rw [whole] at sealed
        refine ⟨current, next, id, entry, ?_, advanced, sealed⟩
        rw [sendParts, sent]
        rfl
    | cons other pieces =>
      rw [partsOf] at undisturbed ⊢
      cases rounds with
      | nil => exact undisturbed.elim
      | cons round rounds =>
        obtain ⟨running, found, others⟩ := undisturbed
        obtain ⟨current, next, id, entry, sent, advanced, stands, -⟩ := sendPart_next steady false stands valid
          limit running (stands.kept found) chunk (by omega) (by simp)
          (fun _ => progress piece List.mem_cons_self)
        have rest := others current next sent
        rw [← byteLen_append] at rest ⊢
        obtain ⟨last, final, id, entry, finished, outcome⟩ := ih (by simp) (by simpa using cut)
          (fun piece member => small piece (List.mem_cons_of_mem _ member))
          (fun piece member => progress piece (List.mem_cons_of_mem _ member)) advanced stands rest
        refine ⟨last, final, id, entry, ?_, outcome⟩
        rw [sendParts, sent]
        exact finished

/-- All parts of a text are accepted one by one, and the last one seals the text. -/
theorem sendParts_ok {kind : AttachmentKind} {text : Str} (valid : validate kind text = .ok ())
    (limit : byteLen text ≤ maximum kind) (clean : '\x00' ∉ text) {pieces : List Str} (cut : Pieces text pieces)
    {rounds : List UploadRound} {world : World} (steady : Steady world)
    (undisturbed : Undisturbed json kind (byteLen text) (partsOf 0 pieces) rounds none world) :
    ∃ current next id entry, sendParts json kind (byteLen text) (partsOf 0 pieces) rounds none world = some (some current, next) ∧
      Steady next ∧ Stands next kind (byteLen text) text true current id entry := by
  obtain ⟨inhabited, whole, small, progress⟩ := cut
  cases pieces with
  | nil => exact absurd rfl inhabited
  | cons piece pieces =>
    have chunk := @smallChunk_of_piece text (piece :: pieces) clean [] whole small piece List.mem_cons_self
    have bytes := congrArg byteLen whole
    rw [List.flatten_cons, byteLen_append] at bytes
    cases pieces with
    | nil =>
      rw [partsOf] at undisturbed ⊢
      cases rounds with
      | nil => exact undisturbed.elim
      | cons round rounds =>
        obtain ⟨running, ⟨room, safe⟩, -⟩ := undisturbed
        obtain rfl : piece = text := by simpa using whole
        obtain ⟨current, next, id, entry, sent, advanced, sealed, -⟩ := sendPart_first steady true valid limit running
          room safe chunk le_rfl (fun _ => rfl) (by simp)
        refine ⟨current, next, id, entry, ?_, advanced, sealed⟩
        rw [sendParts, sent]
        rfl
    | cons other pieces =>
      rw [partsOf] at undisturbed ⊢
      cases rounds with
      | nil => exact undisturbed.elim
      | cons round rounds =>
        obtain ⟨running, ⟨room, safe⟩, others⟩ := undisturbed
        obtain ⟨current, next, id, entry, sent, advanced, stands, -⟩ := sendPart_first steady false valid limit running
          room safe chunk (by omega) (by simp) (fun _ => progress piece List.mem_cons_self)
        have rest := others current next sent
        rw [Nat.zero_add] at rest ⊢
        obtain ⟨last, final, id, entry, finished, outcome⟩ := sendParts_next valid limit clean (by simp) whole
          (fun piece member => small piece (List.mem_cons_of_mem _ member))
          (fun piece member => progress piece (List.mem_cons_of_mem _ member)) advanced stands rest
        refine ⟨last, final, id, entry, ?_, outcome⟩
        rw [sendParts, sent]
        exact finished

/-! ## Reading back -/

/-- A page of the service that the widget asked for. -/
structure PageOf (summary : AttachmentSummary) (offset : ℕ) (page : AttachmentPage) : Prop where
  version : page.schemaVersion = 1
  attachment : page.attachment = summary
  position : page.offset = offset
  small : byteLen page.text ≤ 32 * 1024
  next : page.nextOffset = offset + byteLen page.text
  within : page.nextOffset ≤ summary.totalBytes
  complete : page.complete = decide (page.nextOffset = summary.totalBytes)
  progress : page.complete = false → offset < page.nextOffset

/-- The widget accepts every page of a sealed attachment whose summary it has. -/
theorem parseAttachmentChunk_page {summary : AttachmentSummary} (presentable : Presentable summary)
    (sealed : summary.sealed = true) (expected : Attachment) (id : expected.attachmentId = encode summary.attachmentId)
    (kind : expected.kind = summary.kind) (total : expected.totalBytes = summary.totalBytes)
    (expires : expected.expiresAt = summary.expiresAt) {offset : ℕ} {page : AttachmentPage} (shown : PageOf summary offset page) :
    parseAttachmentChunk (toolResult (.object (pageFields page))) expected offset =
      .ok ⟨encode page.text, page.nextOffset, page.complete⟩ := by
  have fields : (pageFields page).get "schema_version" = .count page.schemaVersion ∧
      (pageFields page).get "attachment" = .object (summaryFields page.attachment) ∧
      (pageFields page).get "offset" = .count page.offset ∧ (pageFields page).get "next_offset" = .count page.nextOffset ∧
      (pageFields page).get "complete" = .boolean page.complete ∧ (pageFields page).get "text" = .text page.text :=
    ⟨rfl, rfl, rfl, rfl, rfl, rfl⟩
  obtain ⟨versionField, attachmentField, offsetField, nextField, completeField, textField⟩ := fields
  have version : isCount 1 (.count page.schemaVersion) = true := by rw [shown.version]; rfl
  have here : isCount offset (.count page.offset) = true := by
    rw [shown.position]
    simp [isCount, JsValue.count]
  obtain ⟨safe, -⟩ := maximum_le_safe summary.kind
  have next : integer (.count page.nextOffset) summary.totalBytes = .ok page.nextOffset :=
    integer_count shown.within (shown.within.trans (presentable.total.trans safe))
  have sound : (decide (page.nextOffset ≠ offset + utf8Length (encode page.text)) ||
      decide (page.complete ≠ decide (page.nextOffset = summary.totalBytes)) ||
      (!page.complete && decide (page.nextOffset ≤ offset))) = false := by
    have progress := shown.progress
    rw [utf8Length_encode, ← shown.next, ← shown.complete]
    cases complete : page.complete with
    | true => simp
    | false => simpa using progress complete
  rw [parseAttachmentChunk, data_toolResult, ok_bind, attachmentField, shown.attachment,
    parseAttachment_summary presentable, ok_bind]
  simp only [attachmentOf, versionField, version, id, kind, total, expires, sealed, offsetField, here, check, ne_eq,
    not_true_eq_false, decide_false, Bool.not_true, Bool.or_self, Bool.false_eq_true, if_false, ok_bind, textField,
    string_text shown.small, nextField, next, completeField, boolean_boolean]
  simp only [ne_eq] at sound
  rw [sound]
  rfl

theorem readPage_small {entry : StoredAttachment} {offset : ℕ} {page : AttachmentPage}
    (read : readPage entry offset = .ok page) : page.schemaVersion = 1 ∧ page.nextOffset ≤ offset + 32 * 1024 := by
  rw [readPage] at read
  dsimp only at read
  split_ifs at read
  cases read
  refine ⟨rfl, ?_⟩
  have below := floorCharBoundary_le entry.data.text
    (min (offset + maxAttachmentChunkBytes) (byteLen entry.data.text))
  have limit : maxAttachmentChunkBytes = 32 * 1024 := rfl
  dsimp only
  omega

/-- Before a call the service runs other sections. -/
abbrev ReadRound := List Event × Sweep

/-- Read the pages one by one from `offset` on; `none` when either side refuses or the rounds are used up. -/
def readPages (json : Paging.SerdeJson) (expected : Attachment) : List ReadRound → ℕ → JsString → World → Option JsString
  | [], _, _, _ => none
  | round :: rounds, offset, text, world => do
    let id ← decode expected.attachmentId
    match readAttachment round.2 ⟨id, offset⟩ none (run json world round.1).state with
    | (.ok page, state) =>
      match parseAttachmentChunk (toolResult (.object (pageFields page))) expected offset with
      | .ok chunk =>
        if chunk.nextOffset > expected.totalBytes then none
        else if chunk.complete then some (text ++ chunk.text)
        else readPages json expected rounds chunk.nextOffset (text ++ chunk.text) { run json world round.1 with state }
      | .error _ => none
    | (.error _, _) => none

/-- A sealed text is read back to its end, whatever else happens. -/
theorem readPages_reads {kind : AttachmentKind} {text : Str} {expected : Attachment} {id : Str} {first : StoredAttachment}
    (copy : expected = attachmentOf first.summary) (expires : first.summary.expiresAt ≤ maxSafeInteger)
    {world : World} (steady : Steady world) {entry : StoredAttachment} (same : Extends first entry)
    (present : world.state.attachments.get id = some entry) (sealed : entry.summary.sealed = true)
    (shape : first.summary.attachmentId = id ∧ first.summary.kind = kind) (valid : byteLen text ≤ maximum kind)
    {rounds : List ReadRound} (survives : Survives json id entry.data.allocation world rounds) {front rear : Str}
    (whole : entry.data.text = text) (cut : text = front ++ rear) (enough : byteLen rear < rounds.length) :
    readPages json expected rounds (byteLen front) (encode front) world = some (encode text) := by
  induction rounds generalizing world entry front rear with
  | nil => cases enough
  | cons round rounds ih =>
    obtain ⟨events, sweep⟩ := round
    obtain ⟨⟨later, found, allocation⟩, survives⟩ := survives
    have ran := run_steady json steady events
    obtain ⟨-, evolves⟩ := @run_ready json _ steady.ready events
    obtain ⟨sound, swept⟩ := expire_advances sweep (run json world events).state ran.ready.sound
    have grown := (evolves.trans swept).extends steady.ready.sound present found allocation
    obtain ⟨laterSealed, laterText⟩ := grown.sealed sealed
    have formed := sound.wellFormed id later found
    have lineage := same.trans grown
    obtain ⟨middle, rest, split, progress, page⟩ := readPage_ok laterSealed ((laterText.trans whole).trans cut)
    have bytes := congrArg byteLen split
    rw [byteLen_append] at bytes
    have size : byteLen later.data.text = later.summary.totalBytes := formed.complete laterSealed
    rw [laterText, whole] at size
    have total := congrArg byteLen cut
    rw [byteLen_append] at total
    have presentable : Presentable later.summary := {
      version := (expire_held ran.held sweep).version id later found
      handle := by rw [formed.named]; exact formed.handle
      total := by rw [← size, lineage.kind, shape.2]; exact valid
      committed := by rw [formed.committed]; exact formed.bounded
      complete := fun sealed => by rw [formed.committed]; exact formed.complete sealed
      expires := by rw [lineage.expiresAt]; exact expires }
    have last : rest.isEmpty = decide (byteLen (front ++ middle) = later.summary.totalBytes) := by
      rw [← size, total, byteLen_append, bytes]
      cases rest with
      | nil => simp
      | cons c rest =>
        have positive := c.utf8Size_pos
        simp
        omega
    obtain ⟨version, small⟩ := readPage_small page
    dsimp only at version small
    have shown : PageOf later.summary (byteLen front) {
        attachment := later.summary
        offset := byteLen front
        nextOffset := byteLen (front ++ middle)
        complete := rest.isEmpty
        text := middle } := {
      version
      attachment := rfl
      position := rfl
      small := by rw [byteLen_append] at small; dsimp only; omega
      next := byteLen_append _ _
      within := by dsimp only; rw [← size, total, byteLen_append]; omega
      complete := last
      progress := by
        intro more
        have nonempty := progress (by simpa using more)
        have positive := List.length_pos_of_ne_nil nonempty
        have bound := length_le_byteLen middle
        dsimp only
        rw [byteLen_append]
        omega }
    have accepted := parseAttachmentChunk_page presentable laterSealed expected
      (by rw [copy, attachmentOf, lineage.attachmentId]) (by rw [copy, attachmentOf, lineage.kind])
      (by rw [copy, attachmentOf, lineage.totalBytes]) (by rw [copy, attachmentOf, lineage.expiresAt]) shown
    have declared : checkDeclaredKind none later.summary.kind = .ok () := rfl
    have result : readAttachment sweep ⟨id, byteLen front⟩ none (run json world events).state =
        (readPage later (byteLen front), expire sweep (run json world events).state) := by
      simp [readAttachment, formed.handle, found, declared]
    have named : decode expected.attachmentId = some id := by rw [copy, attachmentOf, shape.1, decode_encode]
    have inside : ¬byteLen (front ++ middle) > expected.totalBytes := by
      have within := shown.within
      rw [copy, attachmentOf, ← lineage.totalBytes]
      exact Nat.not_lt.mpr within
    rw [readPages]
    simp only [named, Option.bind_eq_bind, Option.bind_some, result, page, accepted, inside, if_false, ← encode_append]
    cases rest with
    | nil =>
      rw [List.append_nil] at split
      simp only [List.isEmpty_nil, if_true, cut, split]
    | cons c rest =>
      simp only [List.isEmpty_cons, Bool.false_eq_true, if_false]
      have nonempty := progress (List.cons_ne_nil c rest)
      have positive := List.length_pos_of_ne_nil nonempty
      have bound := length_le_byteLen middle
      rw [List.length_cons] at enough
      have next := step_steady json ran (.sweep sweep)
      have further : Survives json id later.data.allocation (step json (run json world events) (.sweep sweep)) rounds := by
        rw [allocation]
        exact survives
      have onward : text = front ++ middle ++ c :: rest := by rw [cut, split, List.append_assoc]
      exact ih next lineage found laterSealed further (laterText.trans whole) onward (by omega)

/-! ## The transfer -/

/-- A text that a comparison accepts can be an attachment. -/
theorem validate_of_textInfo {text label : Str} {info : TextInfo} (accepted : textInfo text label = .ok info) :
    validate .text text = .ok () ∧ byteLen text ≤ maximum .text ∧ '\x00' ∉ text := by
  have valid := validText_of_textInfo accepted
  have limit : byteLen text ≤ maximum .text := valid.bytes
  have outer : (decide (byteLen text > maxTextBytes) || text.contains '\x00' || (['T', 'e', 'x', 't'] : Str).isEmpty ||
      decide (byteLen ['T', 'e', 'x', 't'] > 128) || (['T', 'e', 'x', 't'] : Str).any isControl) = false := by
    have label : ((['T', 'e', 'x', 't'] : Str).isEmpty || decide (byteLen ['T', 'e', 'x', 't'] > 128) ||
        (['T', 'e', 'x', 't'] : Str).any isControl) = false := by decide
    simp only [Bool.or_eq_false_iff] at label ⊢
    refine ⟨⟨⟨⟨?_, ?_⟩, label.1.1⟩, label.1.2⟩, label.2⟩
    · exact decide_eq_false (Nat.not_lt.mpr valid.bytes)
    · rw [Bool.eq_false_iff, ne_eq, List.contains_iff_mem]
      exact valid.noNul
  have inner : (decide ((linesOf text).length > maxLines) || (linesOf text).any lineTooLong) = false := by
    rw [Bool.or_eq_false_iff]
    refine ⟨decide_eq_false (Nat.not_lt.mpr valid.lines), ?_⟩
    rw [List.any_eq_false]
    intro line member
    rw [valid.shortLines line member]
    exact Bool.false_ne_true
  have bounds : (decide (byteLen text > maximum .text) || text.contains '\x00') = false := by
    simp only [Bool.or_eq_false_iff] at outer
    rw [Bool.or_eq_false_iff]
    exact ⟨decide_eq_false (Nat.not_lt.mpr limit), outer.1.1.1.2⟩
  refine ⟨?_, limit, valid.noNul⟩
  rw [validate, bounds]
  simp only [Bool.false_eq_true, if_false, if_true, textInfo, outer, inner]
  rfl

/-- The widget and the server agree on the transfer of a text: it is cut into contiguous chunks within the
server's limit, of which only the last is final; sent in order while the service has room and nobody else
touches the attachment, every chunk is accepted and the last one seals the text; and as long as the
attachment stays, reading it page by page accepts every page, ends, and gives the text again. -/
theorem attachment_transfer (json : Paging.SerdeJson) (text label : Str) (info : TextInfo)
    (accepted : textInfo text label = .ok info) :
    ∃ pieces, Pieces text pieces ∧ attachmentChunks (encode text) = (partsOf 0 pieces, none) ∧
      ∀ events rounds,
        Undisturbed json .text (utf8Length (encode text)) (partsOf 0 pieces) rounds none (run json start events) →
        ∃ attachment world id entry,
          sendParts json .text (utf8Length (encode text)) (partsOf 0 pieces) rounds none (run json start events) =
              some (some attachment, world) ∧
            world.state.attachments.get id = some entry ∧ entry.summary.sealed = true ∧ entry.data.text = text ∧
            attachment = attachmentOf entry.summary ∧
            ∀ reads, Survives json id entry.data.allocation world reads → byteLen text < reads.length →
              readPages json attachment reads 0 [] world = some (encode text) := by
  obtain ⟨valid, limit, clean⟩ := validate_of_textInfo accepted
  obtain ⟨pieces, cut, chunked⟩ := attachmentChunks_encode text
  refine ⟨pieces, cut, chunked, ?_⟩
  intro events rounds undisturbed
  rw [utf8Length_encode] at undisturbed ⊢
  obtain ⟨attachment, world, id, entry, sent, steady, stands⟩ :=
    sendParts_ok valid limit clean cut (run_steady json steady_start events) undisturbed
  obtain ⟨present, whole, ⟨expires, safe, summary⟩, copy⟩ := stands
  have sealed : entry.summary.sealed = true := by rw [summary]
  refine ⟨attachment, world, id, entry, sent, present, sealed, whole, copy, ?_⟩
  intro reads survives enough
  exact readPages_reads copy (by rw [summary]; exact safe) steady (.refl entry) present sealed
    ⟨by rw [summary], by rw [summary]⟩ limit survives whole (List.nil_append text).symm enough

/-- When nothing expires and nobody else acts, an attachment stays. -/
theorem survives_quiet {id : Str} {entry : StoredAttachment} (unexpired : 0 < entry.expires) (n : ℕ) {world : World}
    (present : world.state.attachments.get id = some entry) :
    Survives json id entry.data.allocation world (List.replicate n ([], quiet)) := by
  induction n generalizing world with
  | zero => trivial
  | succ n ih =>
    have kept := @Delivery.expire_keeps_attachment quiet _ id entry present unexpired
    exact ⟨⟨entry, kept, rfl⟩, ih kept⟩

/-- What still fits into the chunk is put into it. -/
theorem chunkLoop_append {held front : Str} (rest : Str) (offset : ℕ) (fits : byteLen held + byteLen front ≤ 32 * 1024) :
    chunkLoop ((front ++ rest).map fun c => (encodeChar c, c.toNat)) (encode held) (byteLen held) offset =
      chunkLoop (rest.map fun c => (encodeChar c, c.toNat)) (encode (held ++ front)) (byteLen (held ++ front)) offset := by
  induction front generalizing held with
  | nil => rw [List.nil_append, List.append_nil]
  | cons c front ih =>
    rw [byteLen_cons] at fits
    have single : byteLen (held ++ [c]) = byteLen held + c.utf8Size := by
      rw [byteLen_append, byteLen_cons, byteLen_nil, Nat.add_zero]
    have unit : encode (held ++ [c]) = encode held ++ encodeChar c := by rw [encode_append, encode, encode, List.flatMap_singleton]
    rw [List.cons_append, List.map_cons, chunkLoop, toNat_not_surrogate, pointSize_toNat, if_neg Bool.false_ne_true,
      if_neg (by omega), ← single, ← unit, ih (by omega), List.append_assoc, List.singleton_append]

/-- Four lines that fill a chunk, and two scalars behind them, one of which is a surrogate pair on the widget's side. -/
def longLine : Str := List.replicate 8191 'x' ++ ['\n']

def longFront : Str := longLine ++ (longLine ++ (longLine ++ longLine))

def longText : Str := longFront ++ ['한', '😀']

theorem byteLen_longLine : byteLen longLine = 8192 := by
  have run (n : ℕ) : byteLen (List.replicate n 'x') = n := by
    induction n with
    | zero => rfl
    | succ n ih =>
      rw [List.replicate_succ, byteLen_cons, ih, Nat.add_comm]
      rfl
  rw [longLine, byteLen_append, run]
  rfl

theorem byteLen_longFront : byteLen longFront = 32768 := by
  simp only [longFront, byteLen_append, byteLen_longLine]

theorem byteLen_longText : byteLen longText = 32775 := by
  rw [longText, byteLen_append, byteLen_longFront]
  rfl

theorem not_mem_longText {c : Char} (other : c ∉ ['x', '\n', '한', '😀']) : c ∉ longText := by
  intro member
  simp only [longText, longFront, longLine, List.mem_append, List.mem_replicate, List.mem_cons, List.not_mem_nil, or_false] at member
  simp only [List.mem_cons, List.not_mem_nil, or_false] at other
  tauto

theorem textInfo_longText : ∃ info, textInfo longText ['A'] = .ok info := by
  have whole : Terminated '\n' longLine := ⟨List.replicate 8191 'x', fun member => absurd (List.eq_of_mem_replicate member) (by decide), rfl⟩
  have lines : linesOf longText = [longLine, longLine, longLine, longLine, ['한', '😀']] := by
    have cut : longText = [longLine, longLine, longLine, longLine, ['한', '😀']].flatten := by
      simp only [longText, longFront, List.flatten_cons, List.flatten_nil, List.append_assoc, List.append_nil]
    rw [cut]
    exact splitInclusive_of_isLines ⟨whole, whole, whole, whole, .inr ⟨by decide, by decide⟩⟩
  have short : lineTooLong longLine = false := by
    have stripped : stripSuffix '\n' longLine = some (List.replicate 8191 'x') := stripSuffix_concat _ _
    have bytes := byteLen_longLine
    rw [longLine, byteLen_append] at bytes
    rw [lineTooLong, stripped, Option.getD_some, decide_eq_false_iff_not, Nat.not_lt]
    change byteLen (List.replicate 8191 'x') ≤ 16 * 1024
    omega
  have clean : longText.contains '\x00' = false := by
    rw [Bool.eq_false_iff, ne_eq, List.contains_iff_mem]
    exact not_mem_longText (by decide)
  have shown : lineTooLong ['한', '😀'] = false := by decide
  simp only [textInfo, byteLen_longText, clean, lines, List.any_cons, short, shown]
  exact ⟨_, rfl⟩

theorem attachmentChunks_longText :
    attachmentChunks (encode longText) = ([⟨0, encode longFront, false⟩, ⟨32768, encode ['한', '😀'], true⟩], none) := by
  have filled := @chunkLoop_append [] longFront ['한', '😀'] 0 (by rw [byteLen_longFront, byteLen_nil])
  rw [List.nil_append, byteLen_longFront] at filled
  rw [attachmentChunks, codePoints_encode, longText]
  refine filled.trans ?_
  rw [List.map_cons, List.map_cons, List.map_nil, chunkLoop, if_neg (by decide), if_pos (by decide)]
  rfl

/-- A call that meets nobody else, at the first instant. -/
def quietRound : UploadRound := ([], ⟨quiet, repeating 7, 0, 0, some 0⟩)

/-- The two chunks of the text are sent, and the text is read again. -/
theorem attachment_transfer_longText :
    ∃ attachment world,
      sendParts .compact .text 32775 [⟨0, encode longFront, false⟩, ⟨32768, encode ['한', '😀'], true⟩] [quietRound, quietRound] none
          start = some (some attachment, world) ∧
        readPages .compact attachment (List.replicate 32776 ([], quiet)) 0 [] world = some (encode longText) := by
  obtain ⟨info, accepted⟩ := textInfo_longText
  obtain ⟨valid, limit, clean⟩ := validate_of_textInfo accepted
  have size : utf8Length (encode longText) = byteLen longText := utf8Length_encode longText
  obtain ⟨pieces, -, chunked, transfer⟩ := attachment_transfer .compact longText ['A'] info accepted
  have parts : partsOf 0 pieces = [⟨0, encode longFront, false⟩, ⟨32768, encode ['한', '😀'], true⟩] := by
    have same := attachmentChunks_longText
    rw [chunked] at same
    exact (Prod.mk.inj same).1
  have future : 0 < quietRound.2.instant + retention := by decide
  -- the first chunk creates the attachment, and the second call finds it
  have room : Room quietRound.2 (byteLen longText) (expire quietRound.2.sweep (run .compact start quietRound.1).state) := by
    rw [byteLen_longText]
    exact ⟨by decide +kernel, ⟨handleOf (Vector.replicate 32 7), by decide +kernel⟩, ⟨0, rfl, by decide +kernel⟩⟩
  have small : SmallChunk longFront :=
    ⟨byteLen_longFront.le, fun nul => not_mem_longText (by decide) (List.mem_append_left _ nul)⟩
  have nonempty : longFront ≠ [] := by
    intro empty
    have bytes := byteLen_longFront
    rw [empty] at bytes
    cases bytes
  obtain ⟨first, middle, id, entry, sent, advanced, stands, running, expires⟩ :=
    @sendPart_first .compact .text longText longFront quietRound start steady_start false valid limit (by decide) room (by decide) small
      (by rw [byteLen_longFront, byteLen_longText]; decide) nofun (fun _ => nonempty)
  have kept := @Delivery.expire_keeps_attachment quiet _ id entry stands.present (by rw [expires]; exact future)
  have stays : (expire quietRound.2.sweep (run .compact middle quietRound.1).state).stopping = false :=
    (expire_stopping quiet middle.state).trans running
  obtain ⟨second, final, other, later, followed, steady, completed, -, lasts⟩ :=
    @sendPart_next .compact .text longText longFront ['한', '😀'] quietRound middle advanced true first id entry stands valid limit stays kept
      ⟨by decide, by decide⟩ (by rw [byteLen_longFront, byteLen_longText]; decide) (fun _ => rfl) nofun
  rw [byteLen_longFront] at followed
  have undisturbed : Undisturbed .compact .text (byteLen longText)
      [⟨0, encode longFront, false⟩, ⟨32768, encode ['한', '😀'], true⟩] [quietRound, quietRound] none start := by
    refine ⟨by decide, ⟨room, by decide⟩, ?_⟩
    intro current next same
    rw [sent] at same
    cases same
    obtain ⟨present, -, ⟨time, -, summary⟩, copy⟩ := stands
    exact ⟨stays, ⟨id, entry, by rw [copy, summary, attachmentOf], present, kept⟩, fun _ _ _ => trivial⟩
  rw [parts, size] at transfer
  obtain ⟨attachment, world, key, found, through, present, -, -, copy, read⟩ := transfer [] [quietRound, quietRound] undisturbed
  have same : sendParts .compact .text (byteLen longText) [⟨0, encode longFront, false⟩, ⟨32768, encode ['한', '😀'], true⟩]
      [quietRound, quietRound] none start = some (some second, final) := by
    rw [sendParts, sent]
    change (sendPart _ _ _ _ _ _ _ >>= _) = _
    rw [followed]
    rfl
  change sendParts .compact .text (byteLen longText) _ _ none start = _ at through
  rw [same] at through
  cases through
  have named : encode key = second.attachmentId := by
    rw [copy, attachmentOf, (steady.ready.sound.wellFormed key found present).named]
  obtain ⟨rfl, rfl⟩ := completed.unique named present
  rw [byteLen_longText] at same read
  refine ⟨second, final, same, read _ (survives_quiet ?_ _ present) ?_⟩
  · rw [lasts, expires]
    exact future
  · rw [List.length_replicate]
    decide

end OpenLegal.Widget
