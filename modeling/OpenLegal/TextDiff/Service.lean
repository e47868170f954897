import OpenLegal.Rust.Map
import OpenLegal.Rust.Slice
import OpenLegal.TextDiff.Paging

/-! # The text-diff service

The state behind the service's mutex and every critical section on it: attachment upload, reading and
deletion, input leases, job admission, publication, expiry and shutdown. A critical section is one
function from state to state; what it reads from clocks, allocator, handle generator and cancellation
tokens is an argument, so a run is a list of events.
-/

namespace OpenLegal.TextDiff.Service

open Rust Rust.Str

def maxAttachments : ℕ := 64
def entryOverhead : ℕ := 1024
def maxEntries : ℕ := 32
def maxStoreBytes : ℕ := 128 * 1024 * 1024
def jobReservation : ℕ := 32 * 1024 * 1024
/-- `RETENTION` in nanoseconds. -/
def retention : ℕ := 600 * 1000000000

inductive AttachmentKind where
  | text
  | patch
deriving DecidableEq, Repr

structure AttachmentUpload where
  attachmentId : Option Str
  kind : Option AttachmentKind
  totalBytes : Option ℕ
  offset : ℕ
  chunk : Str
  complete : Bool
deriving DecidableEq, Repr

structure AttachmentSummary where
  schemaVersion : ℕ := 1
  attachmentId : Str
  kind : AttachmentKind
  totalBytes : ℕ
  committedBytes : ℕ
  sealed : Bool
  expiresAt : ℕ
deriving DecidableEq, Repr

structure AttachmentRead where
  attachmentId : Str
  offset : ℕ
deriving DecidableEq, Repr

structure AttachmentPage where
  schemaVersion : ℕ := 1
  attachment : AttachmentSummary
  offset : ℕ
  nextOffset : ℕ
  complete : Bool
  text : Str
deriving DecidableEq, Repr

/-- A shared text. `allocation` tells one `Arc` allocation from another. -/
structure AttachmentData where
  allocation : ℕ
  text : Str
  charge : ℕ
deriving DecidableEq, Repr

structure StoredAttachment where
  data : AttachmentData
  summary : AttachmentSummary
  expires : ℕ
deriving DecidableEq, Repr

structure ComparisonSummary where
  schemaVersion : ℕ := 1
  comparisonId : Str
  expiresAt : ℕ
  before : TextInfo
  after : TextInfo
  additions : ℕ
  deletions : ℕ
  equal : Bool
  changePages : ℕ
deriving DecidableEq, Repr

/-- A published comparison; `caller` names the completion lease of the job that made it. -/
structure Stored where
  patch : Str
  summary : ComparisonSummary
  before : Str
  after : Str
  changes : List (List DiffFragment)
  expires : ℕ
  caller : ℕ
  bytes : ℕ
deriving DecidableEq, Repr

/-- The mutex state, together with the strong references to attachment data that are held outside of
it. `allocations` counts the values created so far, and `underflow` records whether any counter was
ever decremented below zero. -/
structure State where
  attachments : Map Str StoredAttachment := ∅
  attachmentBytes : ℕ := 0
  entries : Map Str Stored := ∅
  reserved : ℕ := 0
  reservedSlots : ℕ := 0
  stopping : Bool := false
  leases : List AttachmentData := []
  allocations : ℕ := 0
  underflow : Bool := false

/-! ## Shared data -/

namespace State

/-- The values held by the map and by leases, one for each strong reference. -/
def holders (state : State) : List AttachmentData := state.attachments.values.map (·.data) ++ state.leases

/-- Whether a strong reference to the allocation is left. -/
def holds (state : State) (data : AttachmentData) : Bool := state.holders.any (·.allocation = data.allocation)

/-- `AtomicUsize::fetch_sub`, which wraps. -/
def fetchSub (state : State) (charge : ℕ) : State :=
  { state with
    attachmentBytes := if charge ≤ state.attachmentBytes then state.attachmentBytes - charge
      else state.attachmentBytes + 2 ^ 64 - charge
    underflow := state.underflow || state.attachmentBytes < charge }

/-- Drop a strong reference that was just removed: the last one runs `AttachmentData::drop`. -/
def dropData (state : State) (data : AttachmentData) : State :=
  if state.holds data then state else state.fetchSub data.charge

/-- `HashMap::retain` on the attachments, with the drops of what it removes. -/
def retainAttachments (state : State) (keep : Str → StoredAttachment → Bool) : State :=
  (state.attachments.retain fun id entry => !keep id entry).values.foldl (fun state entry => state.dropData entry.data)
    { state with attachments := state.attachments.retain keep }

end State

/-- What a sweep reads: the instant for each entry it looks at, and the cancelled completion leases. -/
structure Sweep where
  attachmentNow : Str → ℕ
  entryNow : Str → ℕ
  cancelled : ℕ → Bool

def expire (sweep : Sweep) (state : State) : State :=
  let state := state.retainAttachments fun id entry => entry.expires > sweep.attachmentNow id
  { state with
    entries := state.entries.retain fun id entry => entry.expires > sweep.entryNow id && !sweep.cancelled entry.caller }

def used (state : State) : ℕ :=
  (state.entries.values.map (·.bytes)).sum + state.reserved + state.attachmentBytes

def maximum : AttachmentKind → ℕ
  | .text => maxTextBytes
  | .patch => maxPatchInputBytes

def validate (kind : AttachmentKind) (text : Str) : Except TextDiffError Unit :=
  if byteLen text > maximum kind || text.contains '\x00' then .error .invalidInput
  else if kind = .text then do
    let _ ← textInfo text ['T', 'e', 'x', 't']
    pure ()
  else .ok ()

def checkDeclaredKind (declared : Option AttachmentKind) (actual : AttachmentKind) : Except TextDiffError Unit :=
  if declared.any (· ≠ actual) then .error .attachmentKindMismatch else .ok ()

/-- Bearer handles are 64 lower-case hexadecimal digits. -/
def validHandle (id : Str) : Bool :=
  byteLen id = 64 && id.all fun c => c.isDigit || ('a'.val ≤ c.val && c.val ≤ 'f'.val)

/-- The two digits of `{byte:02x}`. -/
def hexByte (byte : UInt8) : Str := [Nat.digitChar (byte.toNat / 16), Nat.digitChar (byte.toNat % 16)]

/-- The handle made of 32 random bytes. -/
def handleOf (bytes : Vector UInt8 32) : Str := bytes.toList.flatMap hexByte

/-- Four results of the handle generator. -/
abbrev Generated := Vector (Except TextDiffError (Vector UInt8 32)) 4

/-- The first generated handle that is not taken; a failing generator ends the loop. -/
def firstFresh (taken : Str → Bool) : List (Except TextDiffError (Vector UInt8 32)) → Except TextDiffError Str
  | [] => .error .internal
  | generated :: rest => do
    let bytes ← generated
    if taken (handleOf bytes) then firstFresh taken rest else pure (handleOf bytes)

def freshAttachmentId (generated : Generated) (state : State) : Except TextDiffError Str :=
  firstFresh (fun id => (state.attachments.get id).isSome || (state.entries.get id).isSome) generated.toList

/-! ## Uploading -/

/-- A chunk for a stored attachment: a replay of committed bytes, or an append that may seal. A failed
seal removes the appended bytes again. `unique` is the success of `Arc::get_mut`. -/
def uploadExisting (unique : Bool) (request : AttachmentUpload) (declaredKind : Option AttachmentKind)
    (entry : StoredAttachment) : Except TextDiffError AttachmentSummary × StoredAttachment :=
  match checkDeclaredKind declaredKind entry.summary.kind with
  | .error error => (.error error, entry)
  | .ok () =>
    let text := entry.data.text
    let stop := request.offset + byteLen request.chunk
    if request.offset < byteLen text && !isCharBoundary text request.offset then
      (.error (.invalidUtf8Boundary request.offset), entry)
    else if stop ≥ 2 ^ 64 then (.error .invalidInput, entry)
    else if stop > entry.summary.totalBytes || (request.complete && stop ≠ entry.summary.totalBytes) then
      (.error .invalidInput, entry)
    else if request.offset < byteLen text || entry.summary.sealed then
      if get text request.offset stop ≠ some request.chunk || (request.complete && !entry.summary.sealed) then
        (.error .invalidInput, entry)
      else (.ok entry.summary, entry)
    else if request.offset ≠ byteLen text || (request.chunk.isEmpty && !request.complete) then
      (.error .invalidInput, entry)
    else if !unique then (.error .internal, entry)
    else
      let pushed := text ++ request.chunk
      let summary := { entry.summary with committedBytes := stop, sealed := request.complete }
      if request.complete then
        match validate entry.summary.kind pushed with
        | .error error =>
          (.error error, { entry with data := { entry.data with text := truncate pushed request.offset } })
        | .ok () => (.ok summary, { entry with data := { entry.data with text := pushed }, summary })
      else (.ok summary, { entry with data := { entry.data with text := pushed }, summary })

/-- What publishing an attachment reads: handles, both clocks, and the capacity that the allocator gives
beyond the requested one (`none` when it fails). -/
structure Publication where
  sweep : Sweep
  generated : Generated
  clock : ℕ
  instant : ℕ
  spare : Option ℕ

/-- Store a new attachment and charge it. -/
def insertAttachment (state : State) (id text : Str) (charge : ℕ) (summary : AttachmentSummary) (expires : ℕ) : State :=
  { state with
    attachmentBytes := state.attachmentBytes + charge
    attachments := state.attachments.insert id ⟨⟨state.allocations, text, charge⟩, summary, expires⟩
    allocations := state.allocations + 1 }

/-- `u64::saturating_add(600)`. -/
def expiresAt (clock : ℕ) : ℕ := min (clock + 600) (2 ^ 64 - 1)

/-- The first chunk: capacity for the declared length is charged before anything is stored. -/
def createAttachment (publication : Publication) (request : AttachmentUpload)
    (declaredKind : Option AttachmentKind) (state : State) : Except TextDiffError (AttachmentSummary × State) :=
  if declaredKind.isSome then .error .invalidInput
  else do
    let kind ← request.kind.elim (.error .invalidInput) .ok
    let total ← request.totalBytes.elim (.error .invalidInput) .ok
    if request.offset ≠ 0 || total > maximum kind || byteLen request.chunk > total ||
        (request.complete && byteLen request.chunk ≠ total) || (!request.complete && request.chunk.isEmpty) then
      .error .invalidInput
    else do
      let _ ← (if request.complete then validate kind request.chunk else .ok ())
      if state.attachments.len ≥ maxAttachments || used state + (total + entryOverhead) > maxStoreBytes then
        .error .busy
      else do
        let id ← freshAttachmentId publication.generated state
        let spare ← publication.spare.elim (.error .resourceLimit) .ok
        let charge := total + spare + entryOverhead
        if used state + charge > maxStoreBytes then .error .busy
        else
          let summary := {
            attachmentId := id
            kind
            totalBytes := total
            committedBytes := byteLen request.chunk
            sealed := request.complete
            expiresAt := expiresAt publication.clock }
          pure (summary, insertAttachment state id request.chunk charge summary (publication.instant + retention))

def uploadAttachment (publication : Publication) (request : AttachmentUpload) (declaredKind : Option AttachmentKind)
    (state : State) : Except TextDiffError AttachmentSummary × State :=
  if byteLen request.chunk > maxAttachmentChunkBytes || request.chunk.contains '\x00' then (.error .invalidInput, state)
  else
    let state := expire publication.sweep state
    if state.stopping then (.error .unavailable, state)
    else match request.attachmentId with
    | some id =>
      if !validHandle id then (.error .invalidInput, state)
      else if request.kind.isSome || request.totalBytes.isSome then (.error .invalidInput, state)
      else match state.attachments.get id with
      | none => (.error .notFound, state)
      | some entry =>
        let unique := (state.holders.countP (·.allocation = entry.data.allocation)) = 1
        let (result, entry) := uploadExisting unique request declaredKind entry
        (result, { state with attachments := state.attachments.update id entry })
    | none =>
      match createAttachment publication request declaredKind state with
      | .ok (summary, state) => (.ok summary, state)
      | .error error => (.error error, state)

/-! ## Reading and deleting -/

/-- One page of a stored attachment: at most 32 KiB, cut at a scalar boundary. -/
def readPage (entry : StoredAttachment) (offset : ℕ) : Except TextDiffError AttachmentPage :=
  let text := entry.data.text
  if !entry.summary.sealed || offset > byteLen text then .error .invalidInput
  else if !isCharBoundary text offset then .error (.invalidUtf8Boundary offset)
  else
    let stop := floorCharBoundary text (min (offset + maxAttachmentChunkBytes) (byteLen text))
    .ok {
      attachment := entry.summary
      offset
      nextOffset := stop
      complete := stop = byteLen text
      text := (get text offset stop).getD [] }

def readAttachment (sweep : Sweep) (request : AttachmentRead) (declaredKind : Option AttachmentKind) (state : State) :
    Except TextDiffError AttachmentPage × State :=
  if !validHandle request.attachmentId then (.error .invalidInput, state)
  else
    let state := expire sweep state
    match state.attachments.get request.attachmentId with
    | none => (.error .notFound, state)
    | some entry => (do checkDeclaredKind declaredKind entry.summary.kind; readPage entry request.offset, state)

/-- Remove an attachment from the map; a lease keeps its data alive. -/
def removeAttachment (id : Str) (state : State) : State :=
  match state.attachments.get id with
  | some entry => { state with attachments := state.attachments.remove id }.dropData entry.data
  | none => state

def deleteAttachment (sweep : Sweep) (id : Str) (declaredKind : Option AttachmentKind) (state : State) :
    Except TextDiffError Unit × State :=
  if !validHandle id then (.error .invalidInput, state)
  else
    let state := expire sweep state
    match state.attachments.get id with
    | some entry =>
      match checkDeclaredKind declaredKind entry.summary.kind with
      | .error error => (.error error, state)
      | .ok () => (.ok (), removeAttachment id state)
    | none => (.ok (), state)

/-! ## Input leases -/

/-- The attachment branch of `resolve`: clone the data of a sealed attachment of the right kind. -/
def resolve (sweep : Sweep) (id : Str) (declaredKind : Option AttachmentKind) (kind : AttachmentKind) (state : State) :
    Except TextDiffError AttachmentData × State :=
  if !validHandle id then (.error .invalidInput, state)
  else
    let state := expire sweep state
    match state.attachments.get id with
    | none => (.error .notFound, state)
    | some entry =>
      match (do
        checkDeclaredKind declaredKind entry.summary.kind
        if entry.summary.kind ≠ kind then .error .attachmentKindMismatch
        else if !entry.summary.sealed then .error .invalidInput
        else validate kind entry.data.text) with
      | .error error => (.error error, state)
      | .ok () => (.ok entry.data, { state with leases := entry.data :: state.leases })

/-- A call or a job lets go of one of its inputs. -/
def dropLease (index : ℕ) (state : State) : State :=
  match state.leases[index]? with
  | some data => { state with leases := state.leases.eraseIdx index }.dropData data
  | none => state

/-! ## Publishing -/

/-- The result of applying a patch becomes a sealed attachment; its capacity may exceed its length. -/
def publishAttachment (publication : Publication) (text : Str) (kind : AttachmentKind) (state : State) :
    Except TextDiffError AttachmentSummary × State :=
  match validate kind text with
  | .error error => (.error error, state)
  | .ok () =>
    let state := expire publication.sweep state
    let charge := byteLen text + publication.spare.getD 0 + entryOverhead
    if state.stopping then (.error .unavailable, state)
    else if state.attachments.len ≥ maxAttachments || used state + charge > maxStoreBytes then (.error .busy, state)
    else match freshAttachmentId publication.generated state with
    | .error error => (.error error, state)
    | .ok id =>
      let summary := {
        attachmentId := id
        kind
        totalBytes := byteLen text
        committedBytes := byteLen text
        sealed := true
        expiresAt := expiresAt publication.clock }
      (.ok summary, insertAttachment state id text charge summary (publication.instant + retention))

/-- The exported patch of a comparison shares the comparison's expiry. -/
def exportPatch (publication : Publication) (comparison : ComparisonSummary) (state : State) :
    Except TextDiffError AttachmentSummary × State :=
  let state := expire publication.sweep state
  match state.entries.get comparison.comparisonId with
  | none => (.error .notFound, state)
  | some stored =>
    let charge := byteLen stored.patch + entryOverhead
    if state.attachments.len ≥ maxAttachments || used state + charge > maxStoreBytes then (.error .busy, state)
    else match freshAttachmentId publication.generated state with
    | .error error => (.error error, state)
    | .ok id =>
      let summary := {
        attachmentId := id
        kind := .patch
        totalBytes := byteLen stored.patch
        committedBytes := byteLen stored.patch
        sealed := true
        expiresAt := comparison.expiresAt }
      (.ok summary, insertAttachment state id stored.patch charge summary stored.expires)

/-! ## What a section can change

Drops change the ledger only, sweeps remove entries, and a fresh handle is one that nothing uses. -/

theorem dropData_eq (state : State) (data : AttachmentData) :
    ∃ attachmentBytes underflow, state.dropData data = { state with attachmentBytes, underflow } := by
  rw [State.dropData]
  split_ifs
  · exact ⟨state.attachmentBytes, state.underflow, rfl⟩
  · exact ⟨_, _, rfl⟩

theorem foldl_dropData_eq (removed : List StoredAttachment) (state : State) :
    ∃ attachmentBytes underflow, removed.foldl (fun state entry => state.dropData entry.data) state =
      { state with attachmentBytes, underflow } := by
  induction removed generalizing state with
  | nil => exact ⟨state.attachmentBytes, state.underflow, rfl⟩
  | cons entry removed ih =>
    obtain ⟨bytes, underflow, dropped⟩ := dropData_eq state entry.data
    obtain ⟨bytes', underflow', rest⟩ := ih (state.dropData entry.data)
    exact ⟨bytes', underflow', by rw [List.foldl_cons, rest, dropped]⟩

theorem retainAttachments_eq (state : State) (keep : Str → StoredAttachment → Bool) :
    ∃ attachmentBytes underflow, state.retainAttachments keep =
      { state with attachments := state.attachments.retain keep, attachmentBytes, underflow } :=
  foldl_dropData_eq _ { state with attachments := state.attachments.retain keep }

/-- A sweep keeps what is unexpired and changes nothing else but the ledger. -/
theorem expire_eq (sweep : Sweep) (state : State) :
    ∃ keep keepEntry attachmentBytes underflow, expire sweep state =
      { state with
        attachments := state.attachments.retain keep
        entries := state.entries.retain keepEntry
        attachmentBytes
        underflow } := by
  obtain ⟨bytes, underflow, retained⟩ :=
    retainAttachments_eq state fun id entry => entry.expires > sweep.attachmentNow id
  exact ⟨_, _, bytes, underflow, by rw [expire, retained]⟩

theorem removeAttachment_eq (id : Str) (state : State) :
    ∃ attachmentBytes underflow, removeAttachment id state =
      { state with attachments := state.attachments.remove id, attachmentBytes, underflow } := by
  rw [removeAttachment]
  split
  · next entry found => exact dropData_eq _ entry.data
  · next absent => exact ⟨state.attachmentBytes, state.underflow, by rw [Map.remove_of_absent absent]⟩

theorem firstFresh_ok {taken : Str → Bool} {generated : List (Except TextDiffError (Vector UInt8 32))} {id : Str}
    (success : firstFresh taken generated = .ok id) : taken id = false ∧ ∃ bytes, id = handleOf bytes := by
  induction generated with
  | nil => cases success
  | cons first generated ih =>
    obtain ⟨bytes, -, success⟩ := bind_eq_ok.mp success
    split_ifs at success with used
    · exact ih success
    · cases success
      exact ⟨Bool.eq_false_iff.mpr used, bytes, rfl⟩

private theorem hexDigit_ok : ∀ n < 16, (Nat.digitChar n).utf8Size = 1 ∧
    ((Nat.digitChar n).isDigit || ('a'.val ≤ (Nat.digitChar n).val && (Nat.digitChar n).val ≤ 'f'.val)) = true := by
  decide

private theorem hexByte_ok (byte : UInt8) : byteLen (hexByte byte) = 2 ∧
    (hexByte byte).all (fun c => c.isDigit || ('a'.val ≤ c.val && c.val ≤ 'f'.val)) = true := by
  have bound := byte.toNat_lt
  obtain ⟨firstSize, first⟩ := hexDigit_ok (byte.toNat / 16) (by omega)
  obtain ⟨secondSize, second⟩ := hexDigit_ok (byte.toNat % 16) (by omega)
  constructor
  · simp [hexByte, firstSize, secondSize]
  · rw [hexByte, List.all_cons, List.all_cons, first, second]
    rfl

/-- Every generated handle is well formed. -/
theorem validHandle_handleOf (bytes : Vector UInt8 32) : validHandle (handleOf bytes) = true := by
  have length : ∀ list : List UInt8, byteLen (list.flatMap hexByte) = 2 * list.length := by
    intro list
    induction list with
    | nil => rfl
    | cons byte list ih =>
      rw [List.flatMap_cons, byteLen_append, (hexByte_ok byte).1, ih, List.length_cons]
      omega
  rw [validHandle, handleOf, length, Vector.length_toList, Bool.and_eq_true, List.all_flatMap, List.all_eq_true]
  exact ⟨rfl, fun byte _ => (hexByte_ok byte).2⟩

theorem freshAttachmentId_ok {generated : Generated} {state : State} {id : Str}
    (success : freshAttachmentId generated state = .ok id) :
    state.attachments.get id = none ∧ state.entries.get id = none ∧ validHandle id = true := by
  obtain ⟨free, bytes, rfl⟩ := firstFresh_ok success
  rw [Bool.or_eq_false_iff, Option.isSome_eq_false_iff, Option.isSome_eq_false_iff, Option.isNone_iff_eq_none,
    Option.isNone_iff_eq_none] at free
  exact ⟨free.1, free.2, validHandle_handleOf bytes⟩

end OpenLegal.TextDiff.Service
