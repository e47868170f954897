import OpenLegal.TextDiff.NoOrphan

/-! # Uploads in progress

A lease is taken of a sealed attachment only, so the data of an open one has a single strong reference
and the service can always append to it. The next chunk of a text is therefore accepted as long as the
attachment is stored as the previous chunk left it, and the first one as long as there is room.
-/

namespace OpenLegal.TextDiff.Service

open Rust Rust.Str

/-! ## Open attachments are not shared -/

/-- Summaries have version 1, and leased data belongs to no open attachment. -/
structure Held (state : State) : Prop where
  version : ∀ id entry, state.attachments.get id = some entry → entry.summary.schemaVersion = 1
  leased : ∀ data ∈ state.leases, ∀ id entry, state.attachments.get id = some entry →
    entry.data.allocation = data.allocation → entry.summary.sealed = true

/-- Two entries with one allocation are one entry. -/
theorem Accounted.same_id {state : State} (accounted : Accounted state) {id other : Str}
    {entry found : StoredAttachment} (present : state.attachments.get id = some entry)
    (there : state.attachments.get other = some found) (same : found.data.allocation = entry.data.allocation) :
    other = id := by
  by_contra different
  have nodup := ((Map.values_remove_perm present).map (·.data.allocation)).nodup_iff.mp accounted.distinct
  rw [List.map_cons, List.nodup_cons] at nodup
  apply nodup.1
  apply List.mem_map.mpr
  exact ⟨found, Map.mem_values_iff.mpr ⟨other, by rw [Map.get_remove_of_ne _ different]; exact there⟩, same⟩

/-- An open attachment has one strong reference. -/
theorem Held.unique {state : State} (held : Held state) (accounted : Accounted state) {id : Str}
    {entry : StoredAttachment} (present : state.attachments.get id = some entry) (isOpen : entry.summary.sealed = false) :
    state.holders.countP (·.allocation = entry.data.allocation) = 1 := by
  have values := Map.values_remove_perm present
  have nodup := (values.map (·.data.allocation)).nodup_iff.mp accounted.distinct
  rw [List.map_cons, List.nodup_cons] at nodup
  have holders : state.holders.Perm (entry.data :: ((state.attachments.remove id).values.map (·.data) ++ state.leases)) := by
    rw [State.holders]
    exact (values.map _).append_right _
  rw [holders.countP_eq, List.countP_cons_of_pos (by simp), Nat.add_eq_right, List.countP_eq_zero]
  intro data member same
  rw [decide_eq_true_eq] at same
  rcases List.mem_append.mp member with member | member
  · obtain ⟨other, there, rfl⟩ := List.mem_map.mp member
    exact nodup.1 (List.mem_map.mpr ⟨other, there, same⟩)
  · rw [held.leased data member id entry present same.symm] at isOpen
    cases isOpen

/-! ## Every section keeps this -/

theorem Held.of_subset {state after : State} (held : Held state)
    (attachments : ∀ id entry, after.attachments.get id = some entry → state.attachments.get id = some entry)
    (leases : after.leases ⊆ state.leases) : Held after where
  version := fun id entry found => held.version id entry (attachments id entry found)
  leased := fun data member id entry found => held.leased data (leases member) id entry (attachments id entry found)

theorem expire_held {state : State} (held : Held state) (sweep : Sweep) : Held (expire sweep state) := by
  obtain ⟨keep, keepEntry, bytes, underflow, same⟩ := expire_eq sweep state
  rw [same]
  exact held.of_subset (fun _ _ => Map.get_of_get_retain) (List.Subset.refl _)

theorem insertAttachment_held {state : State} (held : Held state) (accounted : Accounted state) {id text : Str}
    {charge expires : ℕ} {summary : AttachmentSummary} (version : summary.schemaVersion = 1) :
    Held (insertAttachment state id text charge summary expires) where
  version := by
    intro other entry found
    rcases Map.get_of_get_insert found with ⟨-, rfl⟩ | ⟨-, found⟩
    · exact version
    · exact held.version other entry found
  leased := by
    intro data member other entry found same
    rcases Map.get_of_get_insert found with ⟨-, rfl⟩ | ⟨-, found⟩
    · -- a fresh allocation is none of those that are held
      have earlier := accounted.allocated data (List.mem_append_right _ member)
      dsimp only at same
      omega
    · exact held.leased data member other entry found same

/-- The summary of a created attachment has version 1. -/
private theorem createAttachment_version {publication : Publication} {request : AttachmentUpload}
    {declaredKind : Option AttachmentKind} {state after : State} {summary : AttachmentSummary}
    (success : createAttachment publication request declaredKind state = .ok (summary, after)) :
    summary.schemaVersion = 1 := by
  simp only [createAttachment, ite_error_eq_ok, bind_eq_ok] at success
  obtain ⟨-, kind, -, total, -, -, _, -, -, id, -, spare, -, -, success⟩ := success
  cases success
  rfl

theorem uploadAttachment_version {publication : Publication} {request : AttachmentUpload}
    {declaredKind : Option AttachmentKind} {state after : State} {summary : AttachmentSummary}
    (ran : uploadAttachment publication request declaredKind state = (.ok summary, after))
    (unnamed : request.attachmentId = none) : summary.schemaVersion = 1 := by
  rw [uploadAttachment, unnamed] at ran
  dsimp only at ran
  split_ifs at ran
  · cases ran
  · cases ran
  · split at ran
    · next success =>
      cases ran
      exact createAttachment_version success
    · cases ran

theorem uploadAttachment_held {state : State} (held : Held state) (accounted : Accounted state) (publication : Publication)
    (request : AttachmentUpload) (declaredKind : Option AttachmentKind) :
    Held (uploadAttachment publication request declaredKind state).2 := by
  generalize outcome : uploadAttachment publication request declaredKind state = pair
  obtain ⟨result, after⟩ := pair
  have swept := expire_held held publication.sweep
  have sweptAccounted := expire_accounted accounted publication.sweep
  rcases uploadAttachment_cases outcome with ⟨-, rfl | rfl⟩ | ⟨id, entry, later, -, present, -, -, rfl, effect⟩ |
    ⟨summary, unnamed, -, rfl, created⟩
  · exact held
  · exact swept
  · have version : later.summary.schemaVersion = 1 := by
      rcases effect with ⟨rfl, -⟩ | appends
      · exact swept.version id _ present
      · rw [appends.result]
        exact swept.version id entry present
    constructor
    · intro other found there
      rcases Map.get_of_get_update present there with ⟨-, rfl⟩ | ⟨-, there⟩
      · exact version
      · exact swept.version other found there
    · intro data member other found there same
      rcases Map.get_of_get_update present there with ⟨-, rfl⟩ | ⟨-, there⟩
      · rcases effect with ⟨rfl, -⟩ | appends
        · exact swept.leased data member id _ present same
        · have allocation := appends.extends.allocation
          have sealed := swept.leased data member id entry present (by rw [← allocation]; exact same)
          rw [appends.open'] at sealed
          cases sealed
      · exact swept.leased data member other found there same
  · have version := uploadAttachment_version outcome unnamed
    obtain ⟨charge, expires, -, rfl⟩ := created.result
    exact insertAttachment_held swept sweptAccounted version

theorem publishAttachment_held {state : State} (held : Held state) (accounted : Accounted state)
    (publication : Publication) (text : Str) (kind : AttachmentKind) :
    Held (publishAttachment publication text kind state).2 := by
  have swept := expire_held held publication.sweep
  have sweptAccounted := expire_accounted accounted publication.sweep
  rw [publishAttachment]
  split
  · exact held
  dsimp only
  split_ifs
  · exact swept
  · exact swept
  split
  · exact swept
  · exact insertAttachment_held swept sweptAccounted rfl

theorem exportPatch_held {state : State} (held : Held state) (accounted : Accounted state) (publication : Publication)
    (comparison : ComparisonSummary) : Held (exportPatch publication comparison state).2 := by
  have swept := expire_held held publication.sweep
  have sweptAccounted := expire_accounted accounted publication.sweep
  rw [exportPatch]
  dsimp only
  split
  · exact swept
  split_ifs
  · exact swept
  split
  · exact swept
  · exact insertAttachment_held swept sweptAccounted rfl

/-- A lease is taken of a sealed attachment. -/
theorem resolve_held {state : State} (held : Held state) (accounted : Accounted state) (sweep : Sweep) (id : Str)
    (declaredKind : Option AttachmentKind) (kind : AttachmentKind) : Held (resolve sweep id declaredKind kind state).2 := by
  have swept := expire_held held sweep
  have sweptAccounted := expire_accounted accounted sweep
  rw [resolve]
  split_ifs
  · exact held
  dsimp only
  split
  · exact swept
  next entry present =>
  split
  · exact swept
  next checked =>
  obtain ⟨_, -, checked⟩ := bind_eq_ok.mp checked
  split_ifs at checked with other isOpen
  refine ⟨swept.version, ?_⟩
  intro data member other found there same
  rcases List.mem_cons.mp member with rfl | member
  · obtain rfl := sweptAccounted.same_id present there same
    rw [present] at there
    cases there
    simpa using isOpen
  · exact swept.leased data member other found there same

theorem dropLease_held {state : State} (held : Held state) (index : ℕ) : Held (dropLease index state) := by
  rw [dropLease]
  split
  · next data found =>
    obtain ⟨bytes, underflow, same⟩ := dropData_eq { state with leases := state.leases.eraseIdx index } data
    rw [same]
    exact held.of_subset (fun _ _ found => found) List.eraseIdx_subset
  · exact held

theorem admitJob_held {world : World} (held : Held world.state) (admission : Admission) (full : State → Bool)
    (input : JobInput) : Held (admitJob admission full input world).2.state := by
  have swept := expire_held held admission.sweep
  rcases admitJob_cases admission full input world with ⟨shutdown, same⟩ | same | ⟨-, same⟩
  · rw [same]; exact held
  · rw [same]; exact swept
  · rw [same]; exact swept.of_subset (fun _ _ found => found) (List.Subset.refl _)

theorem releaseReservation_leases (index : ℕ) (world : World) :
    (releaseReservation index world).state.leases = world.state.leases := by
  unfold releaseReservation
  cases world.jobs[index]? with
  | none => rfl
  | some job =>
    dsimp only
    by_cases released : job.phase = .released
    · simp only [released, if_true]
    · simp only [released, if_false]

theorem step_held {json : Paging.SerdeJson} {world : World} (held : Held world.state) (accounted : Accounted world.state)
    (event : Event) : Held (step json world event).state := by
  cases event with
  | upload publication request declaredKind => exact uploadAttachment_held held accounted publication request declaredKind
  | read sweep request declaredKind =>
    rcases readAttachment_snd sweep request declaredKind world.state with same | same
    · rw [step, same]; exact held
    · rw [step, same]; exact expire_held held sweep
  | deleteAttachment sweep id declaredKind =>
    rcases deleteAttachment_snd sweep id declaredKind world.state with same | same | ⟨-, same⟩
    · rw [step, same]; exact held
    · rw [step, same]; exact expire_held held sweep
    · obtain ⟨bytes, underflow, removed⟩ := removeAttachment_eq id (expire sweep world.state)
      rw [step, same, removed]
      exact (expire_held held sweep).of_subset (fun _ _ found => (Map.get_of_get_remove found).2) (List.Subset.refl _)
  | sweep sweep => exact expire_held held sweep
  | resolve sweep id declaredKind kind => exact resolve_held held accounted sweep id declaredKind kind
  | dropLease index => exact dropLease_held held index
  | admitCompare admission before after beforeLabel afterLabel originBytes =>
    rw [step, admitCompare]
    split
    · exact held
    · exact admitJob_held held admission compareFull _
  | admitApplyPatch admission target patch => exact admitJob_held held admission applyPatchFull _
  | finishCompare index completion engine =>
    rw [step, finishCompare]
    split
    · dsimp only
      split
      · next success =>
        obtain ⟨_, _, -, -, -, -, -, -, -, rfl⟩ := publishComparison_ok success
        exact held.of_subset (fun _ _ found => found) (List.Subset.refl _)
      · exact held
    · exact held
  | finishApplyPatch index publication late engine =>
    rw [step, finishApplyPatch]
    split
    · dsimp only
      split
      · exact held
      · exact publishAttachment_held held accounted publication _ .text
    · exact held
  | exportPatch publication comparison => exact exportPatch_held held accounted publication comparison
  | release index =>
    apply held.of_subset
    · intro id entry found
      rw [step, (Delivery.releaseReservation_maps index world).1] at found
      exact found
    · rw [step, releaseReservation_leases]
      exact List.Subset.refl _
  | endJob index =>
    rw [step, endJob]
    split
    · split_ifs
      · exact held
      · exact held
    · exact held
  | shutdown => exact held
  | stop => exact held.of_subset (fun _ _ found => found) (List.Subset.refl _)
  | deleteComparison id =>
    rw [step]
    split_ifs
    · exact held.of_subset (fun _ _ found => found) (List.Subset.refl _)
    · exact held
  | clearEntries =>
    rw [step]
    split_ifs
    · exact held.of_subset (fun _ _ found => found) (List.Subset.refl _)
    · exact held
  | clearAttachments =>
    rw [step]
    split_ifs
    · obtain ⟨bytes, underflow, same⟩ := retainAttachments_eq world.state fun _ _ => false
      rw [same]
      exact held.of_subset (fun _ _ => Map.get_of_get_retain) (List.Subset.refl _)
    · exact held

/-- What an uploading client relies on, in every reachable state. -/
structure Steady (world : World) : Prop where
  ready : Ready world
  fits : world.Fits
  held : Held world.state

theorem steady_start : Steady start where
  ready := ready_start
  fits := start_fits
  held := ⟨fun _ _ found => (by cases found), fun _ member => by cases member⟩

theorem step_steady (json : Paging.SerdeJson) {world : World} (steady : Steady world) (event : Event) :
    Steady (step json world event) where
  ready := (step_ready steady.ready event).1
  fits := step_fits json world event steady.fits
  held := step_held steady.held steady.fits.accounted event

theorem run_steady (json : Paging.SerdeJson) {world : World} (steady : Steady world) (events : List Event) :
    Steady (run json world events) :=
  @run_invariant json Steady (fun _ event steady => step_steady json steady event) world steady events

/-! ## Accepted chunks -/

/-- A swept state has room for an attachment of `total` bytes. -/
structure Room (publication : Publication) (total : ℕ) (state : State) : Prop where
  slots : state.attachments.len < maxAttachments
  handle : ∃ id, freshAttachmentId publication.generated state = .ok id
  memory : ∃ spare, publication.spare = some spare ∧ used state + (total + spare + entryOverhead) ≤ maxStoreBytes

/-- A chunk that any request may carry. -/
structure SmallChunk (chunk : Str) : Prop where
  bytes : byteLen chunk ≤ maxAttachmentChunkBytes
  noNul : '\x00' ∉ chunk

theorem SmallChunk.sendable {request : AttachmentUpload} (small : SmallChunk request.chunk) : Sendable request := by
  rw [Sendable, Bool.or_eq_false_iff, decide_eq_false_iff_not, Bool.eq_false_iff, ne_eq, List.contains_iff_mem]
  exact ⟨Nat.not_lt.mpr small.bytes, small.noNul⟩

/-- The first chunk is accepted when there is room. -/
theorem uploadAttachment_first {publication : Publication} {state : State} {kind : AttachmentKind} {total : ℕ} {chunk : Str}
    {complete : Bool} (running : (expire publication.sweep state).stopping = false)
    (room : Room publication total (expire publication.sweep state)) (small : SmallChunk chunk)
    (limit : total ≤ maximum kind) (within : byteLen chunk ≤ total)
    (final : complete = true → byteLen chunk = total ∧ validate kind chunk = .ok ()) (progress : complete = false → chunk ≠ []) :
    ∃ id charge, uploadAttachment publication ⟨none, some kind, some total, 0, chunk, complete⟩ none state =
      (.ok ⟨1, id, kind, total, byteLen chunk, complete, expiresAt publication.clock⟩,
        insertAttachment (expire publication.sweep state) id chunk charge
          ⟨1, id, kind, total, byteLen chunk, complete, expiresAt publication.clock⟩ (publication.instant + retention)) := by
  obtain ⟨id, fresh⟩ := room.handle
  obtain ⟨spare, allocated, fits⟩ := room.memory
  have sendable := @SmallChunk.sendable ⟨none, some kind, some total, 0, chunk, complete⟩ small
  have shape : (decide ((0 : ℕ) ≠ 0) || decide (total > maximum kind) || decide (byteLen chunk > total) ||
      (complete && decide (byteLen chunk ≠ total)) || (!complete && chunk.isEmpty)) = false := by
    have limit := Nat.not_lt.mpr limit
    have within := Nat.not_lt.mpr within
    cases complete with
    | false => simp [limit, within, progress rfl]
    | true => simp [limit, (final rfl).1]
  have checked : (if complete = true then validate kind chunk else .ok ()) = .ok () := by
    split_ifs with last
    · exact (final last).2
    · rfl
  have space : (decide ((expire publication.sweep state).attachments.len ≥ maxAttachments) ||
      decide (used (expire publication.sweep state) + (total + entryOverhead) > maxStoreBytes)) = false := by
    have slots := room.slots
    rw [Bool.or_eq_false_iff, decide_eq_false_iff_not, decide_eq_false_iff_not]
    constructor
    · omega
    · omega
  have fits : ¬used (expire publication.sweep state) + (total + spare + entryOverhead) > maxStoreBytes := Nat.not_lt.mpr fits
  refine ⟨id, total + spare + entryOverhead, ?_⟩
  rw [uploadAttachment, sendable]
  simp only [Bool.false_eq_true, if_false, running, createAttachment, Option.isSome_none, Option.elim_some, ok_bind, shape,
    checked, space, fresh, allocated, fits]
  rfl

/-- The next chunk is appended to an open attachment. -/
theorem uploadAttachment_next {publication : Publication} {state : State} (held : Held (expire publication.sweep state))
    (accounted : Accounted (expire publication.sweep state)) {id : Str} {entry : StoredAttachment}
    (running : (expire publication.sweep state).stopping = false) (handle : validHandle id = true)
    (present : (expire publication.sweep state).attachments.get id = some entry) (isOpen : entry.summary.sealed = false)
    {chunk : Str} {complete : Bool} (small : SmallChunk chunk) (limit : entry.summary.totalBytes < 2 ^ 64)
    (within : byteLen entry.data.text + byteLen chunk ≤ entry.summary.totalBytes)
    (final : complete = true → byteLen entry.data.text + byteLen chunk = entry.summary.totalBytes ∧
      validate entry.summary.kind (entry.data.text ++ chunk) = .ok ())
    (progress : complete = false → chunk ≠ []) :
    uploadAttachment publication ⟨some id, none, none, byteLen entry.data.text, chunk, complete⟩ none state =
      (.ok { entry.summary with committedBytes := byteLen entry.data.text + byteLen chunk, sealed := complete },
        { expire publication.sweep state with
          attachments := (expire publication.sweep state).attachments.update id { entry with
            data := { entry.data with text := entry.data.text ++ chunk }
            summary := { entry.summary with
              committedBytes := byteLen entry.data.text + byteLen chunk
              sealed := complete } } }) := by
  have sendable := @SmallChunk.sendable ⟨some id, none, none, byteLen entry.data.text, chunk, complete⟩ small
  have unique := held.unique accounted present isOpen
  have declared : checkDeclaredKind none entry.summary.kind = .ok () := rfl
  have bounded : ¬byteLen entry.data.text + byteLen chunk ≥ 2 ^ 64 := by omega
  have inside : (decide (byteLen entry.data.text + byteLen chunk > entry.summary.totalBytes) ||
      (complete && decide (byteLen entry.data.text + byteLen chunk ≠ entry.summary.totalBytes))) = false := by
    have within := Nat.not_lt.mpr within
    cases complete with
    | false => simp [within]
    | true => simp [(final rfl).1]
  have advance : (decide (byteLen entry.data.text ≠ byteLen entry.data.text) || (chunk.isEmpty && !complete)) = false := by
    cases complete with
    | false => simp [progress rfl]
    | true => simp
  rw [uploadAttachment, sendable]
  simp only [Bool.false_eq_true, if_false, running, handle, Bool.not_true, Option.isSome_none, Bool.or_self, present,
    uploadExisting, declared, Nat.lt_irrefl, decide_false, Bool.false_and, bounded, inside, isOpen, advance, unique,
    decide_true]
  cases complete with
  | false => simp only [Bool.false_eq_true, if_false]
  | true => simp only [if_true, (final rfl).2]

end OpenLegal.TextDiff.Service
