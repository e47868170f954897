import OpenLegal.TextDiff.Jobs
import OpenLegal.TextDiff.PagingSound

/-! # The attachment upload protocol

Every stored attachment is well formed in every reachable state, and from one state to the next it only
grows at its end until it is sealed. Acknowledged chunks therefore stay where they are, replays stay
accepted, and a sealed text can be read back in pages while the service does anything else.
-/

namespace OpenLegal.TextDiff.Service

open Rust Rust.Str

/-! ## One upload -/

/-- A stored attachment between uploads. -/
structure WellFormed (id : Str) (entry : StoredAttachment) : Prop where
  handle : validHandle id = true
  named : entry.summary.attachmentId = id
  committed : entry.summary.committedBytes = byteLen entry.data.text
  bounded : byteLen entry.data.text ≤ entry.summary.totalBytes
  complete : entry.summary.sealed = true → byteLen entry.data.text = entry.summary.totalBytes
  valid : entry.summary.sealed = true → validate entry.summary.kind entry.data.text = .ok ()

/-- The same attachment later: the text grows at its end, a sealed one does not change, and identity,
declared length and expiry are fixed. -/
structure Extends (entry later : StoredAttachment) : Prop where
  allocation : later.data.allocation = entry.data.allocation
  attachmentId : later.summary.attachmentId = entry.summary.attachmentId
  kind : later.summary.kind = entry.summary.kind
  totalBytes : later.summary.totalBytes = entry.summary.totalBytes
  expiresAt : later.summary.expiresAt = entry.summary.expiresAt
  expires : later.expires = entry.expires
  text : entry.data.text <+: later.data.text
  sealed : entry.summary.sealed = true → later.summary.sealed = true ∧ later.data.text = entry.data.text

theorem Extends.refl (entry : StoredAttachment) : Extends entry entry :=
  ⟨rfl, rfl, rfl, rfl, rfl, rfl, List.prefix_rfl, fun sealed => ⟨sealed, rfl⟩⟩

theorem Extends.trans {first second third : StoredAttachment} (left : Extends first second)
    (right : Extends second third) : Extends first third where
  allocation := right.allocation.trans left.allocation
  attachmentId := right.attachmentId.trans left.attachmentId
  kind := right.kind.trans left.kind
  totalBytes := right.totalBytes.trans left.totalBytes
  expiresAt := right.expiresAt.trans left.expiresAt
  expires := right.expires.trans left.expires
  text := left.text.trans right.text
  sealed := fun sealed => by
    obtain ⟨still, same⟩ := left.sealed sealed
    obtain ⟨final, equal⟩ := right.sealed still
    exact ⟨final, equal.trans same⟩

/-- The request repeats committed bytes: its chunk stands at its offset, and it is final only for a
sealed attachment. -/
structure Replays (request : AttachmentUpload) (entry : StoredAttachment) : Prop where
  small : request.offset + byteLen request.chunk < 2 ^ 64
  within : request.offset + byteLen request.chunk ≤ entry.summary.totalBytes
  final : request.complete = true → request.offset + byteLen request.chunk = entry.summary.totalBytes
  past : request.offset < byteLen entry.data.text ∨ entry.summary.sealed = true
  stands : get entry.data.text request.offset (request.offset + byteLen request.chunk) = some request.chunk
  sealed : request.complete = true → entry.summary.sealed = true

/-- A replay stays one while the attachment grows. -/
theorem Replays.extend {request : AttachmentUpload} {entry later : StoredAttachment} (replays : Replays request entry)
    (grown : Extends entry later) : Replays request later where
  small := replays.small
  within := grown.totalBytes ▸ replays.within
  final := grown.totalBytes ▸ replays.final
  past := by
    rcases replays.past with past | sealed
    · obtain ⟨more, text⟩ := grown.text
      rw [← text, byteLen_append]
      exact .inl (by omega)
    · exact .inr (grown.sealed sealed).1
  stands := by
    obtain ⟨more, text⟩ := grown.text
    rw [← text]
    exact get_append replays.stands more
  sealed := fun complete => (grown.sealed (replays.sealed complete)).1

/-- A replay succeeds and changes nothing. -/
theorem uploadExisting_of_replays {unique : Bool} {request : AttachmentUpload} {declaredKind : Option AttachmentKind}
    {entry : StoredAttachment} (declared : checkDeclaredKind declaredKind entry.summary.kind = .ok ())
    (replays : Replays request entry) :
    uploadExisting unique request declaredKind entry = (.ok entry.summary, entry) := by
  obtain ⟨front, rear, text, begins, -⟩ := get_iff.mp replays.stands
  have boundary : isCharBoundary entry.data.text request.offset = true := isCharBoundary_iff.mpr ⟨front, _, text, begins⟩
  have small := Nat.not_le.mpr replays.small
  have within := Nat.not_lt.mpr replays.within
  have final := replays.final
  have sealed := replays.sealed
  have past : (decide (request.offset < byteLen entry.data.text) || entry.summary.sealed) = true := by
    simpa using replays.past
  rw [uploadExisting, declared]
  simp only [boundary, Bool.not_true, Bool.and_false, Bool.false_eq_true, ↓reduceIte, ge_iff_le, gt_iff_lt, small,
    within, past, replays.stands]
  cases complete : request.complete with
  | false => simp
  | true => simp [final complete, sealed complete]

/-- What an accepted append does. -/
structure Appends (request : AttachmentUpload) (entry later : StoredAttachment) : Prop where
  open' : entry.summary.sealed = false
  offset : request.offset = byteLen entry.data.text
  progress : request.chunk ≠ [] ∨ request.complete = true
  small : request.offset + byteLen request.chunk < 2 ^ 64
  within : request.offset + byteLen request.chunk ≤ entry.summary.totalBytes
  final : request.complete = true → request.offset + byteLen request.chunk = entry.summary.totalBytes
  valid : request.complete = true → validate entry.summary.kind (entry.data.text ++ request.chunk) = .ok ()
  result : later = { entry with
    data := { entry.data with text := entry.data.text ++ request.chunk }
    summary := { entry.summary with
      committedBytes := request.offset + byteLen request.chunk
      sealed := request.complete } }

/-- Every outcome of a chunk for a stored attachment: an error or a replay changes nothing, also when
appended bytes were rolled back; everything else is an append. -/
theorem uploadExisting_cases {unique : Bool} {request : AttachmentUpload} {declaredKind : Option AttachmentKind}
    {entry later : StoredAttachment} {result : Except TextDiffError AttachmentSummary}
    (ran : uploadExisting unique request declaredKind entry = (result, later)) :
    ((∃ error, result = .error error) ∧ later = entry) ∨
      (checkDeclaredKind declaredKind entry.summary.kind = .ok () ∧ result = .ok later.summary ∧
        (later = entry ∧ Replays request entry ∨ Appends request entry later)) := by
  rw [uploadExisting] at ran
  split at ran
  · cases ran
    exact .inl ⟨⟨_, rfl⟩, rfl⟩
  next declared =>
  dsimp only at ran
  split_ifs at ran with boundary overflow outside past mismatch gap shared complete
  · cases ran; exact .inl ⟨⟨_, rfl⟩, rfl⟩
  · cases ran; exact .inl ⟨⟨_, rfl⟩, rfl⟩
  · cases ran; exact .inl ⟨⟨_, rfl⟩, rfl⟩
  · cases ran; exact .inl ⟨⟨_, rfl⟩, rfl⟩
  · cases ran
    simp only [Bool.or_eq_true, decide_eq_true_eq, Bool.and_eq_true, not_or, ne_eq, not_not, not_and, gt_iff_lt,
      Nat.not_lt, ge_iff_le, Nat.not_le, Bool.not_eq_true', Bool.not_eq_false] at overflow outside past mismatch
    exact .inr ⟨declared, rfl, .inl ⟨rfl, overflow, outside.1, outside.2, past, mismatch.1, mismatch.2⟩⟩
  · cases ran; exact .inl ⟨⟨_, rfl⟩, rfl⟩
  · cases ran; exact .inl ⟨⟨_, rfl⟩, rfl⟩
  all_goals
    simp only [Bool.or_eq_true, decide_eq_true_eq, Bool.and_eq_true, not_or, ne_eq, not_not, not_and, gt_iff_lt,
      Nat.not_lt, ge_iff_le, Nat.not_le, Bool.not_eq_true', Bool.not_eq_false, Bool.not_eq_true,
      List.isEmpty_iff] at overflow outside past gap
  · split at ran
    · cases ran
      refine .inl ⟨⟨_, rfl⟩, ?_⟩
      rw [gap.1, truncate_append]
    · next valid =>
      cases ran
      exact .inr ⟨declared, rfl, .inr ⟨past.2, gap.1, .inr complete, overflow, outside.1, outside.2, fun _ => valid,
        by rw [complete]⟩⟩
  · cases ran
    refine .inr ⟨declared, rfl, .inr ⟨past.2, gap.1, .inl fun empty => complete (gap.2 empty), overflow, outside.1,
      outside.2, fun impossible => absurd impossible complete, ?_⟩⟩
    rw [Bool.eq_false_iff.mpr complete]

theorem Appends.extends {request : AttachmentUpload} {entry later : StoredAttachment}
    (appends : Appends request entry later) : Extends entry later := by
  obtain ⟨unsealed, -, -, -, -, -, -, rfl⟩ := appends
  refine ⟨rfl, rfl, rfl, rfl, rfl, rfl, List.prefix_append _ _, fun sealed => ?_⟩
  rw [unsealed] at sealed
  cases sealed

theorem Appends.wellFormed {request : AttachmentUpload} {id : Str} {entry later : StoredAttachment}
    (appends : Appends request entry later) (formed : WellFormed id entry) : WellFormed id later := by
  obtain ⟨-, offset, -, -, within, final, valid, rfl⟩ := appends
  exact {
    handle := formed.handle
    named := formed.named
    committed := by rw [offset, byteLen_append]
    bounded := by rw [byteLen_append, ← offset]; exact within
    complete := fun complete => by rw [byteLen_append, ← offset]; exact final complete
    valid := valid }

/-- An accepted append has the form of a replay from then on. -/
theorem Appends.replays {request : AttachmentUpload} {entry later : StoredAttachment}
    (appends : Appends request entry later) : Replays request later := by
  obtain ⟨-, offset, progress, small, within, final, -, rfl⟩ := appends
  refine ⟨small, within, final, ?_, ?_, fun complete => complete⟩
  · rcases progress with nonempty | complete
    · left
      obtain ⟨c, rest, chunk⟩ := List.exists_cons_of_ne_nil nonempty
      have := c.utf8Size_pos
      rw [byteLen_append, chunk, byteLen_cons]
      omega
    · exact .inr complete
  · rw [offset]
    exact get_right entry.data.text request.chunk

/-! ## One critical section -/

/-- What holds of every reachable state: attachments are well formed, and stored patches can be exported. -/
structure Sound (state : State) : Prop where
  wellFormed : ∀ id entry, state.attachments.get id = some entry → WellFormed id entry
  allocated : ∀ id entry, state.attachments.get id = some entry → entry.data.allocation < state.allocations
  patches : ∀ id stored, state.entries.get id = some stored → '\x00' ∉ stored.patch ∧ byteLen stored.patch ≤ maxPatchBytes

/-- From one state to a later one an attachment extends, goes, or is a new allocation. -/
structure Evolves (before after : State) : Prop where
  allocations : before.allocations ≤ after.allocations
  attachments : ∀ id later, after.attachments.get id = some later →
    (∃ entry, before.attachments.get id = some entry ∧ Extends entry later) ∨
      before.allocations ≤ later.data.allocation

/-- A section keeps soundness and lets attachments evolve. -/
def Advances (before after : State) : Prop := Sound before → Sound after ∧ Evolves before after

theorem Evolves.refl (state : State) : Evolves state state :=
  ⟨Nat.le_refl _, fun _ later found => .inl ⟨later, found, .refl later⟩⟩

theorem Evolves.trans {first second third : State} (left : Evolves first second) (right : Evolves second third) :
    Evolves first third where
  allocations := left.allocations.trans right.allocations
  attachments := by
    intro id later found
    rcases right.attachments id later found with ⟨middle, present, grown⟩ | fresh
    · rcases left.attachments id middle present with ⟨entry, present, first⟩ | fresh
      · exact .inl ⟨entry, present, first.trans grown⟩
      · exact .inr (grown.allocation ▸ fresh)
    · exact .inr (left.allocations.trans fresh)

theorem Advances.refl (state : State) : Advances state state := fun sound => ⟨sound, .refl state⟩

theorem Advances.trans {first second third : State} (left : Advances first second) (right : Advances second third) :
    Advances first third := by
  intro sound
  obtain ⟨middle, one⟩ := left sound
  obtain ⟨final, two⟩ := right middle
  exact ⟨final, one.trans two⟩

/-- Removing entries, and anything that is not an entry, keeps soundness. -/
theorem advances_of_subset {before after : State} (allocations : after.allocations = before.allocations)
    (attachments : ∀ id entry, after.attachments.get id = some entry → before.attachments.get id = some entry)
    (entries : ∀ id stored, after.entries.get id = some stored → before.entries.get id = some stored) :
    Advances before after := by
  intro sound
  refine ⟨⟨?_, ?_, ?_⟩, ⟨allocations.ge, ?_⟩⟩
  · exact fun id entry found => sound.wellFormed id entry (attachments id entry found)
  · exact fun id entry found => allocations ▸ sound.allocated id entry (attachments id entry found)
  · exact fun id stored found => sound.patches id stored (entries id stored found)
  · exact fun id later found => .inl ⟨later, attachments id later found, .refl later⟩

theorem expire_advances (sweep : Sweep) (state : State) : Advances state (expire sweep state) := by
  obtain ⟨keep, keepEntry, bytes, underflow, same⟩ := expire_eq sweep state
  rw [same]
  exact advances_of_subset rfl (fun _ _ => Map.get_of_get_retain) (fun _ _ => Map.get_of_get_retain)

theorem removeAttachment_advances (id : Str) (state : State) : Advances state (removeAttachment id state) := by
  obtain ⟨bytes, underflow, same⟩ := removeAttachment_eq id state
  rw [same]
  exact advances_of_subset rfl (fun _ _ found => (Map.get_of_get_remove found).2) (fun _ _ found => found)

theorem dropLease_advances (index : ℕ) (state : State) : Advances state (dropLease index state) := by
  rw [dropLease]
  split
  · next data found =>
    obtain ⟨bytes, underflow, same⟩ := dropData_eq { state with leases := state.leases.eraseIdx index } data
    rw [same]
    exact advances_of_subset rfl (fun _ _ found => found) (fun _ _ found => found)
  · exact .refl state

/-- A new attachment has a new allocation and disturbs no other. -/
theorem insertAttachment_advances {state : State} {id text : Str} {charge expires : ℕ} {summary : AttachmentSummary}
    (formed : WellFormed id ⟨⟨state.allocations, text, charge⟩, summary, expires⟩) :
    Advances state (insertAttachment state id text charge summary expires) := by
  intro sound
  have inserted (other : Str) (entry : StoredAttachment)
      (found : (insertAttachment state id text charge summary expires).attachments.get other = some entry) :
      (other = id ∧ entry = ⟨⟨state.allocations, text, charge⟩, summary, expires⟩) ∨
        state.attachments.get other = some entry := by
    simp only [insertAttachment] at found
    by_cases same : other = id
    · rw [same, Map.get_insert] at found
      exact .inl ⟨same, (Option.some.inj found).symm⟩
    · rw [Map.get_insert_of_ne _ same] at found
      exact .inr found
  refine ⟨⟨?_, ?_, sound.patches⟩, ⟨Nat.le_succ _, ?_⟩⟩
  · intro other entry found
    rcases inserted other entry found with ⟨rfl, rfl⟩ | old
    · exact formed
    · exact sound.wellFormed other entry old
  · intro other entry found
    rcases inserted other entry found with ⟨rfl, rfl⟩ | old
    · exact Nat.lt_succ_self _
    · exact Nat.lt_succ_of_lt (sound.allocated other entry old)
  · intro other entry found
    rcases inserted other entry found with ⟨rfl, rfl⟩ | old
    · exact .inr (Nat.le_refl _)
    · exact .inl ⟨entry, old, .refl entry⟩

theorem update_advances {state : State} {id : Str} {entry later : StoredAttachment}
    (present : state.attachments.get id = some entry) (grown : Extends entry later)
    (formed : WellFormed id entry → WellFormed id later) :
    Advances state { state with attachments := state.attachments.update id later } := by
  intro sound
  have updated (other : Str) (found : StoredAttachment)
      (here : (state.attachments.update id later).get other = some found) :
      (other = id ∧ found = later) ∨ state.attachments.get other = some found := by
    by_cases same : other = id
    · rw [same, Map.get_update present] at here
      exact .inl ⟨same, (Option.some.inj here).symm⟩
    · rw [Map.get_update_of_ne present same] at here
      exact .inr here
  refine ⟨⟨?_, ?_, sound.patches⟩, ⟨Nat.le_refl _, ?_⟩⟩
  · intro other found here
    rcases updated other found here with ⟨rfl, rfl⟩ | old
    · exact formed (sound.wellFormed other entry present)
    · exact sound.wellFormed other found old
  · intro other found here
    rcases updated other found here with ⟨rfl, rfl⟩ | old
    · exact grown.allocation ▸ sound.allocated other entry present
    · exact sound.allocated other found old
  · intro other found here
    rcases updated other found here with ⟨rfl, rfl⟩ | old
    · exact .inl ⟨entry, present, grown⟩
    · exact .inl ⟨found, old, .refl found⟩

/-- What an accepted first chunk stores. -/
structure Creates (request : AttachmentUpload) (state : State) (summary : AttachmentSummary) (after : State) : Prop where
  offset : request.offset = 0
  progress : request.chunk ≠ [] ∨ request.complete = true
  within : byteLen request.chunk ≤ summary.totalBytes
  small : summary.totalBytes < 2 ^ 64
  final : request.complete = true → byteLen request.chunk = summary.totalBytes
  sealed : summary.sealed = request.complete
  formed : ∀ charge expires, WellFormed summary.attachmentId ⟨⟨state.allocations, request.chunk, charge⟩, summary, expires⟩
  absent : state.attachments.get summary.attachmentId = none
  room : state.attachments.len < maxAttachments
  result : ∃ charge expires, used state + charge ≤ maxStoreBytes ∧
    after = insertAttachment state summary.attachmentId request.chunk charge summary expires

theorem maximum_lt (kind : AttachmentKind) : maximum kind < 2 ^ 64 := by
  cases kind <;> decide

theorem createAttachment_ok {publication : Publication} {request : AttachmentUpload}
    {declaredKind : Option AttachmentKind} {state after : State} {summary : AttachmentSummary}
    (success : createAttachment publication request declaredKind state = .ok (summary, after)) :
    declaredKind = none ∧ Creates request state summary after := by
  simp only [createAttachment, ite_error_eq_ok, bind_eq_ok] at success
  obtain ⟨undeclared, kind, -, total, -, shape, _, checked, space, id, fresh, spare, -, fits, success⟩ := success
  cases success
  obtain ⟨absent, -, handle⟩ := freshAttachmentId_ok fresh
  simp only [Bool.or_eq_true, decide_eq_true_eq, Bool.and_eq_true, not_or, ne_eq, not_not, not_and, gt_iff_lt,
    Nat.not_lt, Bool.not_eq_true', List.isEmpty_iff] at shape
  obtain ⟨⟨⟨⟨offset, small⟩, within⟩, final⟩, progress⟩ := shape
  have progress : request.chunk ≠ [] ∨ request.complete = true := by
    cases complete : request.complete with
    | true => exact .inr rfl
    | false => exact .inl (progress complete)
  refine ⟨Option.not_isSome_iff_eq_none.mp undeclared, offset, progress, within, small.trans_lt (maximum_lt kind), final,
    rfl, fun charge expires => ?_, absent, ?_, ?_⟩
  · refine ⟨handle, rfl, rfl, within, final, fun complete => ?_⟩
    have complete : request.complete = true := complete
    rw [complete, if_pos rfl] at checked
    exact checked
  · rw [Bool.or_eq_true, not_or, decide_eq_true_eq, Nat.not_le] at space
    exact space.1
  · exact ⟨_, _, Nat.not_lt.mp fits, rfl⟩

/-- Every outcome of an upload: an error changes nothing but what the sweep removed; success is a replay,
an append or a creation in the swept state. -/
theorem uploadAttachment_cases {publication : Publication} {request : AttachmentUpload}
    {declaredKind : Option AttachmentKind} {state after : State} {result : Except TextDiffError AttachmentSummary}
    (ran : uploadAttachment publication request declaredKind state = (result, after)) :
    ((∃ error, result = .error error) ∧ (after = state ∨ after = expire publication.sweep state)) ∨
      (∃ id entry later, request.attachmentId = some id ∧
        (expire publication.sweep state).attachments.get id = some entry ∧
        checkDeclaredKind declaredKind entry.summary.kind = .ok () ∧ result = .ok later.summary ∧
        after = { expire publication.sweep state with
          attachments := (expire publication.sweep state).attachments.update id later } ∧
        (later = entry ∧ Replays request entry ∨ Appends request entry later)) ∨
      (∃ summary, request.attachmentId = none ∧ declaredKind = none ∧ result = .ok summary ∧
        Creates request (expire publication.sweep state) summary after) := by
  rw [uploadAttachment] at ran
  dsimp only at ran
  generalize expire publication.sweep state = swept at ran ⊢
  split at ran
  · cases ran; exact .inl ⟨⟨_, rfl⟩, .inl rfl⟩
  split at ran
  · cases ran; exact .inl ⟨⟨_, rfl⟩, .inr rfl⟩
  split at ran
  · next id named =>
    split at ran
    · cases ran; exact .inl ⟨⟨_, rfl⟩, .inr rfl⟩
    split at ran
    · cases ran; exact .inl ⟨⟨_, rfl⟩, .inr rfl⟩
    split at ran
    · cases ran; exact .inl ⟨⟨_, rfl⟩, .inr rfl⟩
    next entry present =>
    generalize outcome : uploadExisting _ request declaredKind entry = pair at ran
    obtain ⟨found, later⟩ := pair
    cases ran
    rcases uploadExisting_cases outcome with ⟨⟨error, failed⟩, same⟩ | ⟨declared, accepted, effect⟩
    · refine .inl ⟨⟨error, failed⟩, .inr ?_⟩
      rw [same, Map.update_self present]
    · exact .inr (.inl ⟨id, entry, later, named, present, declared, accepted, rfl, effect⟩)
  · next unnamed =>
    split at ran
    · next summary created success =>
      cases ran
      obtain ⟨undeclared, creates⟩ := createAttachment_ok success
      exact .inr (.inr ⟨summary, unnamed, undeclared, rfl, creates⟩)
    · cases ran; exact .inl ⟨⟨_, rfl⟩, .inr rfl⟩

theorem uploadAttachment_advances (publication : Publication) (request : AttachmentUpload)
    (declaredKind : Option AttachmentKind) (state : State) :
    Advances state (uploadAttachment publication request declaredKind state).2 := by
  generalize outcome : uploadAttachment publication request declaredKind state = pair
  obtain ⟨result, after⟩ := pair
  have swept := expire_advances publication.sweep state
  rcases uploadAttachment_cases outcome with ⟨-, rfl | rfl⟩ | ⟨id, entry, later, -, present, -, -, rfl, effect⟩ |
    ⟨summary, -, -, -, created⟩
  · exact .refl _
  · exact swept
  · refine swept.trans ?_
    rcases effect with ⟨rfl, -⟩ | appends
    · exact update_advances present (.refl _) fun formed => formed
    · exact update_advances present appends.extends appends.wellFormed
  · obtain ⟨charge, expires, -, rfl⟩ := created.result
    exact swept.trans (insertAttachment_advances (created.formed charge expires))

theorem readAttachment_snd (sweep : Sweep) (request : AttachmentRead) (declaredKind : Option AttachmentKind)
    (state : State) : (readAttachment sweep request declaredKind state).2 = state ∨
      (readAttachment sweep request declaredKind state).2 = expire sweep state := by
  rw [readAttachment]
  split_ifs
  · exact .inl rfl
  · dsimp only
    split
    · exact .inr rfl
    · exact .inr rfl

theorem deleteAttachment_snd (sweep : Sweep) (id : Str) (declaredKind : Option AttachmentKind) (state : State) :
    (deleteAttachment sweep id declaredKind state).2 = state ∨
      (deleteAttachment sweep id declaredKind state).2 = expire sweep state ∨
      ((deleteAttachment sweep id declaredKind state).1 = .ok () ∧
        (deleteAttachment sweep id declaredKind state).2 = removeAttachment id (expire sweep state)) := by
  rw [deleteAttachment]
  split_ifs
  · exact .inl rfl
  · dsimp only
    split
    · split
      · exact .inr (.inl rfl)
      · exact .inr (.inr ⟨rfl, rfl⟩)
    · exact .inr (.inl rfl)

theorem resolve_advances (sweep : Sweep) (id : Str) (declaredKind : Option AttachmentKind) (kind : AttachmentKind)
    (state : State) : Advances state (resolve sweep id declaredKind kind state).2 := by
  have swept := expire_advances sweep state
  rw [resolve]
  split_ifs
  · exact .refl state
  · dsimp only
    split
    · exact swept
    · split
      · exact swept
      · exact swept.trans (advances_of_subset rfl (fun _ _ found => found) fun _ _ found => found)

theorem publishAttachment_advances (publication : Publication) (text : Str) (kind : AttachmentKind) (state : State) :
    Advances state (publishAttachment publication text kind state).2 := by
  have swept := expire_advances publication.sweep state
  rw [publishAttachment]
  split
  · exact .refl state
  next valid =>
  dsimp only
  split_ifs
  · exact swept
  · exact swept
  split
  · exact swept
  · next id fresh =>
    exact swept.trans (insertAttachment_advances
      ⟨(freshAttachmentId_ok fresh).2.2, rfl, rfl, Nat.le_refl _, fun _ => rfl, fun _ => valid⟩)

theorem exportPatch_advances (publication : Publication) (comparison : ComparisonSummary) (state : State) :
    Advances state (exportPatch publication comparison state).2 := by
  have swept := expire_advances publication.sweep state
  rw [exportPatch]
  dsimp only
  split
  · exact swept
  next stored found =>
  split_ifs
  · exact swept
  split
  · exact swept
  · next id fresh =>
    intro sound
    obtain ⟨clean, short⟩ := (swept sound).1.patches _ stored found
    have valid : validate .patch stored.patch = .ok () := by
      have bound : ¬byteLen stored.patch > maximum .patch := Nat.not_lt.mpr short
      simp [validate, bound, clean]
    exact swept.trans (insertAttachment_advances
      ⟨(freshAttachmentId_ok fresh).2.2, rfl, rfl, Nat.le_refl _, fun _ => rfl, fun _ => valid⟩) sound

/-! ## Runs -/

/-- Compared texts have no NUL. -/
def CleanInput : JobInput → Prop
  | .compare before after _ _ _ => '\x00' ∉ before ∧ '\x00' ∉ after
  | .applyPatch _ _ => True

/-- A reachable service. -/
structure Ready (world : World) : Prop where
  sound : Sound world.state
  inputs : ∀ job ∈ world.jobs, CleanInput job.input

theorem ready_start : Ready start where
  sound := ⟨fun _ _ found => (by cases found), fun _ _ found => (by cases found), fun _ _ found => (by cases found)⟩
  inputs := fun _ member => by cases member

/-- The outcome of a step that changes only the state. -/
private theorem ready_of_advances {world : World} (ready : Ready world) {state : State}
    (advances : Advances world.state state) :
    Ready { world with state } ∧ Evolves world.state state :=
  ⟨⟨(advances ready.sound).1, ready.inputs⟩, (advances ready.sound).2⟩

/-- A job that changes its phase keeps its input. -/
private theorem inputs_set {P : JobInput → Prop} {jobs : List Job} (all : ∀ job ∈ jobs, P job.input) {index : ℕ}
    {old : Job} (present : jobs[index]? = some old) (phase : JobPhase) :
    ∀ other ∈ jobs.set index { old with phase }, P other.input := by
  intro other member
  rcases List.mem_or_eq_of_mem_set member with member | rfl
  · exact all other member
  · exact all old (List.mem_of_getElem? present)

private theorem admitJob_ready {world : World} (ready : Ready world) (admission : Admission) (full : State → Bool)
    {input : JobInput} (clean : CleanInput input) :
    Ready (admitJob admission full input world).2 ∧ Evolves world.state (admitJob admission full input world).2.state := by
  have swept := expire_advances admission.sweep world.state
  rcases admitJob_cases admission full input world with ⟨shutdown, same⟩ | same | ⟨-, same⟩
  · rw [same]
    exact ⟨⟨ready.sound, ready.inputs⟩, .refl _⟩
  · rw [same]
    exact ready_of_advances ready swept
  · rw [same]
    have reserved : Advances (expire admission.sweep world.state) { expire admission.sweep world.state with
        reserved := (expire admission.sweep world.state).reserved + jobReservation
        reservedSlots := (expire admission.sweep world.state).reservedSlots + 1 } :=
      advances_of_subset rfl (fun _ _ found => found) fun _ _ found => found
    obtain ⟨sound, evolves⟩ := swept.trans reserved ready.sound
    refine ⟨⟨sound, ?_⟩, evolves⟩
    intro job member
    rcases List.mem_append.mp member with member | member
    · exact ready.inputs job member
    · obtain rfl := List.mem_singleton.mp member
      exact clean

variable {json : Paging.SerdeJson}

private theorem finishCompare_ready {world : World} (ready : Ready world) (index : ℕ) (completion : Completion)
    (engine : Except TextDiffError ComputedDiff) :
    Ready (finishCompare json index completion engine world) ∧
      Evolves world.state (finishCompare json index completion engine world).state := by
  rw [finishCompare]
  split
  · next before after beforeInfo afterInfo originBytes token present =>
    have inputs (result : Except TextDiffError Str) := inputs_set ready.inputs present (.finished result)
    dsimp only
    split
    · next summary final success =>
      obtain ⟨computed, stored, -, short, checked, patch, -, -, absent, rfl⟩ := publishComparison_ok success
      obtain ⟨beforeClean, afterClean⟩ := ready.inputs _ (List.mem_of_getElem? present)
      have clean := Paging.changes_noNul beforeClean afterClean checked
      refine ⟨⟨⟨ready.sound.wellFormed, ready.sound.allocated, ?_⟩, inputs _⟩, ⟨Nat.le_refl _, ?_⟩⟩
      · intro id found here
        by_cases same : id = summary.comparisonId
        · rw [same, Map.get_insert] at here
          cases here
          rw [patch]
          exact ⟨clean, short⟩
        · rw [Map.get_insert_of_ne _ same] at here
          exact ready.sound.patches id found here
      · exact (Evolves.refl world.state).attachments
    · exact ⟨⟨ready.sound, inputs _⟩, .refl _⟩
  · exact ⟨ready, .refl _⟩

private theorem finishApplyPatch_ready {world : World} (ready : Ready world) (index : ℕ) (publication : Publication)
    (late : Bool) (engine : Except TextDiffError Str) :
    Ready (finishApplyPatch index publication late engine world) ∧
      Evolves world.state (finishApplyPatch index publication late engine world).state := by
  rw [finishApplyPatch]
  split
  · next target patch token present =>
    have inputs (result : Except TextDiffError Str) := inputs_set ready.inputs present (.finished result)
    dsimp only
    split
    · exact ⟨⟨ready.sound, inputs _⟩, .refl _⟩
    · next text checked =>
      obtain ⟨sound, evolves⟩ := publishAttachment_advances publication text .text world.state ready.sound
      exact ⟨⟨sound, inputs _⟩, evolves⟩
  · exact ⟨ready, .refl _⟩

/-- Every event keeps the service ready and lets attachments evolve. -/
theorem step_ready {world : World} (ready : Ready world) (event : Event) :
    Ready (step json world event) ∧ Evolves world.state (step json world event).state := by
  have same {state : State} (allocations : state.allocations = world.state.allocations)
      (attachments : ∀ id entry, state.attachments.get id = some entry → world.state.attachments.get id = some entry)
      (entries : ∀ id stored, state.entries.get id = some stored → world.state.entries.get id = some stored) :=
    ready_of_advances ready (advances_of_subset allocations attachments entries)
  cases event with
  | upload publication request declaredKind =>
    exact ready_of_advances ready (uploadAttachment_advances publication request declaredKind world.state)
  | read sweep request declaredKind =>
    refine ready_of_advances ready ?_
    rcases readAttachment_snd sweep request declaredKind world.state with same | same
    · rw [same]; exact .refl _
    · rw [same]; exact expire_advances sweep world.state
  | deleteAttachment sweep id declaredKind =>
    refine ready_of_advances ready ?_
    rcases deleteAttachment_snd sweep id declaredKind world.state with same | same | ⟨-, same⟩
    · rw [same]; exact .refl _
    · rw [same]; exact expire_advances sweep world.state
    · rw [same]; exact (expire_advances sweep world.state).trans (removeAttachment_advances id _)
  | sweep sweep => exact ready_of_advances ready (expire_advances sweep world.state)
  | deleteComparison id =>
    rw [step]
    split_ifs
    · exact same rfl (fun _ _ found => found) fun _ _ found => (Map.get_of_get_remove found).2
    · exact ⟨ready, .refl _⟩
  | resolve sweep id declaredKind kind =>
    exact ready_of_advances ready (resolve_advances sweep id declaredKind kind world.state)
  | dropLease index => exact ready_of_advances ready (dropLease_advances index world.state)
  | admitCompare admission before after beforeLabel afterLabel originBytes =>
    rw [step, admitCompare]
    split
    · exact ⟨ready, .refl _⟩
    · next beforeInfo afterInfo checked =>
      simp only [bind_eq_ok] at checked
      obtain ⟨_, beforeOk, _, afterOk, -⟩ := checked
      exact admitJob_ready ready admission compareFull
        ⟨(validText_of_textInfo beforeOk).noNul, (validText_of_textInfo afterOk).noNul⟩
  | admitApplyPatch admission target patch => exact admitJob_ready ready admission applyPatchFull trivial
  | finishCompare index completion engine => exact finishCompare_ready ready index completion engine
  | finishApplyPatch index publication late engine => exact finishApplyPatch_ready ready index publication late engine
  | exportPatch publication comparison =>
    exact ready_of_advances ready (exportPatch_advances publication comparison world.state)
  | release index =>
    rw [step, releaseReservation]
    split
    · next job present =>
      split_ifs
      · exact ⟨ready, .refl _⟩
      · have advances := @same { world.state with
          reserved := world.state.reserved - jobReservation
          reservedSlots := world.state.reservedSlots - 1
          underflow := world.state.underflow || world.state.reserved < jobReservation ||
            world.state.reservedSlots < 1 } rfl (fun _ _ found => found) fun _ _ found => found
        exact ⟨⟨advances.1.sound, inputs_set ready.inputs present .released⟩, advances.2⟩
    · exact ⟨ready, .refl _⟩
  | endJob index =>
    rw [step, endJob]
    split
    · split_ifs
      · exact ⟨⟨ready.sound, fun job member => ready.inputs job (List.mem_of_mem_eraseIdx member)⟩, .refl _⟩
      · exact ⟨ready, .refl _⟩
    · exact ⟨ready, .refl _⟩
  | shutdown => exact ⟨⟨ready.sound, ready.inputs⟩, .refl _⟩
  | stop =>
    obtain ⟨kept, evolves⟩ := @same { world.state with stopping := true } rfl (fun _ _ found => found)
      fun _ _ found => found
    exact ⟨⟨kept.sound, ready.inputs⟩, evolves⟩
  | clearEntries =>
    rw [step]
    split_ifs
    · exact same rfl (fun _ _ found => found) fun _ _ found => by cases found
    · exact ⟨ready, .refl _⟩
  | clearAttachments =>
    rw [step]
    split_ifs
    · obtain ⟨bytes, underflow, retained⟩ := retainAttachments_eq world.state fun _ _ => false
      rw [retained]
      exact same rfl (fun _ _ => Map.get_of_get_retain) fun _ _ found => found
    · exact ⟨ready, .refl _⟩

/-- What a whole run does to attachments. -/
theorem run_ready {world : World} (ready : Ready world) (events : List Event) :
    Ready (run json world events) ∧ Evolves world.state (run json world events).state := by
  induction events generalizing world with
  | nil => exact ⟨ready, .refl _⟩
  | cons event events ih =>
    obtain ⟨next, first⟩ := step_ready ready event
    obtain ⟨final, rest⟩ := ih next
    exact ⟨final, first.trans rest⟩

/-- An attachment that is still the same allocation has only grown. -/
theorem Evolves.extends {before after : State} (evolves : Evolves before after) (sound : Sound before) {id : Str}
    {entry later : StoredAttachment} (present : before.attachments.get id = some entry)
    (found : after.attachments.get id = some later) (same : later.data.allocation = entry.data.allocation) :
    Extends entry later := by
  rcases evolves.attachments id later found with ⟨old, here, grown⟩ | fresh
  · rw [present] at here
    cases here
    exact grown
  · have := sound.allocated id entry present
    omega

/-! ## Acknowledged and repeated requests -/

/-- The request as it is sent again, to the attachment that it created or continued. -/
def resume (summary : AttachmentSummary) (request : AttachmentUpload) : AttachmentUpload :=
  { request with attachmentId := some summary.attachmentId, kind := none, totalBytes := none }

theorem Creates.replays {request : AttachmentUpload} {state after : State} {summary : AttachmentSummary}
    (creates : Creates request state summary after) (charge expires : ℕ) :
    Replays request ⟨⟨state.allocations, request.chunk, charge⟩, summary, expires⟩ where
  small := by rw [creates.offset, Nat.zero_add]; exact creates.within.trans_lt creates.small
  within := by rw [creates.offset, Nat.zero_add]; exact creates.within
  final := by rw [creates.offset, Nat.zero_add]; exact creates.final
  past := by
    rcases creates.progress with nonempty | complete
    · left
      obtain ⟨c, rest, chunk⟩ := List.exists_cons_of_ne_nil nonempty
      have := c.utf8Size_pos
      rw [creates.offset, chunk, byteLen_cons]
      omega
    · exact .inr (creates.sealed.trans complete)
  stands := by
    rw [creates.offset]
    exact get_right [] request.chunk
  sealed := fun complete => creates.sealed.trans complete

/-- An acknowledged request names a stored attachment that contains its chunk. -/
theorem uploadAttachment_ok {publication : Publication} {request : AttachmentUpload}
    {declaredKind : Option AttachmentKind} {state after : State} {summary : AttachmentSummary} (sound : Sound state)
    (ran : uploadAttachment publication request declaredKind state = (.ok summary, after)) :
    ∃ entry, after.attachments.get summary.attachmentId = some entry ∧ entry.summary = summary ∧
      Replays request entry ∧ checkDeclaredKind declaredKind entry.summary.kind = .ok () ∧
      ∀ id, request.attachmentId = some id → summary.attachmentId = id := by
  have advances := uploadAttachment_advances publication request declaredKind state sound
  rw [ran] at advances
  have formed := advances.1.wellFormed
  rcases uploadAttachment_cases ran with ⟨⟨error, impossible⟩, -⟩ |
    ⟨id, entry, later, named, present, declared, accepted, rfl, effect⟩ |
    ⟨found, unnamed, undeclared, accepted, created⟩
  · cases impossible
  · cases accepted
    have here := Map.get_update present later
    have same : later.summary.attachmentId = id := (formed id later here).named
    rw [same]
    refine ⟨later, here, rfl, ?_, ?_, fun other equal => by rw [named] at equal; exact Option.some.inj equal⟩
    · rcases effect with ⟨rfl, replays⟩ | appends
      · exact replays
      · exact appends.replays
    · rcases effect with ⟨rfl, -⟩ | appends
      · exact declared
      · rw [appends.extends.kind]
        exact declared
  · cases accepted
    obtain ⟨charge, expires, -, rfl⟩ := created.result
    refine ⟨_, Map.get_insert _ _ _, rfl, created.replays charge expires, by rw [undeclared]; rfl, fun id named => ?_⟩
    rw [unnamed] at named
    cases named

/-- The conditions on a request that do not depend on the state. -/
def Sendable (request : AttachmentUpload) : Prop :=
  (decide (byteLen request.chunk > maxAttachmentChunkBytes) || request.chunk.contains '\x00') = false

/-- Accepted requests are sendable, and name either an attachment or its kind and length. -/
theorem uploadAttachment_sendable {publication : Publication} {request : AttachmentUpload}
    {declaredKind : Option AttachmentKind} {state after : State} {summary : AttachmentSummary}
    (ran : uploadAttachment publication request declaredKind state = (.ok summary, after)) :
    Sendable request ∧ (request.attachmentId.isSome = true → request.kind = none ∧ request.totalBytes = none) := by
  rw [uploadAttachment] at ran
  split at ran
  · cases ran
  next sendable =>
  refine ⟨Bool.eq_false_iff.mpr sendable, fun named => ?_⟩
  dsimp only at ran
  split at ran
  · cases ran
  split at ran
  · split at ran
    · cases ran
    split at ran
    · cases ran
    next plain =>
    rw [Bool.or_eq_true, not_or, Option.not_isSome_iff_eq_none, Option.not_isSome_iff_eq_none] at plain
    exact plain
  · next unnamed =>
    rw [unnamed] at named
    cases named

/-- Sending committed bytes again succeeds and does nothing beyond the sweep. -/
theorem uploadAttachment_replay {publication : Publication} {request : AttachmentUpload}
    {declaredKind : Option AttachmentKind} {state : State} {id : Str} {entry : StoredAttachment}
    (sendable : Sendable request) (named : request.attachmentId = some id) (handle : validHandle id = true)
    (plain : request.kind = none ∧ request.totalBytes = none) (running : (expire publication.sweep state).stopping = false)
    (present : (expire publication.sweep state).attachments.get id = some entry)
    (declared : checkDeclaredKind declaredKind entry.summary.kind = .ok ()) (replays : Replays request entry) :
    uploadAttachment publication request declaredKind state = (.ok entry.summary, expire publication.sweep state) := by
  rw [uploadAttachment, sendable]
  simp only [Bool.false_eq_true, if_false, running, named, handle, Bool.not_true, plain.1, plain.2, Option.isSome_none,
    Bool.or_self, present, uploadExisting_of_replays declared replays, Map.update_self present]
  rw [← running]

theorem expire_stopping (sweep : Sweep) (state : State) : (expire sweep state).stopping = state.stopping := by
  obtain ⟨keep, keepEntry, bytes, underflow, same⟩ := expire_eq sweep state
  rw [same]

theorem get_of_get_expire {sweep : Sweep} {state : State} {id : Str} {entry : StoredAttachment}
    (found : (expire sweep state).attachments.get id = some entry) : state.attachments.get id = some entry := by
  obtain ⟨keep, keepEntry, bytes, underflow, same⟩ := expire_eq sweep state
  rw [same] at found
  exact Map.get_of_get_retain found

/-! ## Reading back -/

/-- One page of a sealed text, at a boundary: it starts there and is nonempty unless it is the last. -/
theorem readPage_ok {entry : StoredAttachment} (sealed : entry.summary.sealed = true) {front rear : Str}
    (text : entry.data.text = front ++ rear) :
    ∃ middle rest, rear = middle ++ rest ∧ (rest ≠ [] → middle ≠ []) ∧
      readPage entry (byteLen front) = .ok {
        attachment := entry.summary
        offset := byteLen front
        nextOffset := byteLen (front ++ middle)
        complete := rest.isEmpty
        text := middle } := by
  have boundary : isCharBoundary entry.data.text (byteLen front) = true := isCharBoundary_iff.mpr ⟨front, rear, text, rfl⟩
  have inside := isCharBoundary_le boundary
  generalize limit : min (byteLen front + maxAttachmentChunkBytes) (byteLen entry.data.text) = bound
  have below : bound ≤ byteLen entry.data.text := by omega
  have forward : byteLen front ≤ floorCharBoundary entry.data.text bound := le_floorCharBoundary boundary (by omega)
  have near := lt_floorCharBoundary_add below
  obtain ⟨shown, rest, cut, length⟩ := isCharBoundary_iff.mp (isCharBoundary_floorCharBoundary entry.data.text bound)
  -- the page ends at a boundary at or behind its start, so it is a middle part of the text
  obtain ⟨middle, rfl⟩ : front <+: shown := by
    refine List.prefix_of_prefix_length_le ⟨rear, text.symm⟩ ⟨rest, cut.symm⟩ ?_
    by_contra longer
    obtain ⟨more, extended⟩ : shown <+: front :=
      List.prefix_of_prefix_length_le ⟨rest, cut.symm⟩ ⟨rear, text.symm⟩ (by omega)
    have size : byteLen front = byteLen shown + byteLen more := by rw [← extended, byteLen_append]
    have empty : more.length ≤ 0 := by
      have := length_le_byteLen more
      omega
    rw [← extended, List.length_append] at longer
    omega
  have split : rear = middle ++ rest := by
    rw [text, List.append_assoc] at cut
    exact List.append_cancel_left cut
  refine ⟨middle, rest, split, ?_, ?_⟩
  · rintro more rfl
    obtain ⟨c, others, rfl⟩ := List.exists_cons_of_ne_nil more
    have positive := c.utf8Size_pos
    have total : byteLen entry.data.text = byteLen front + (c.utf8Size + byteLen others) := by
      rw [text, split]; simp
    rw [List.append_nil] at length
    have large : 4 ≤ maxAttachmentChunkBytes := by decide
    -- a page cut by its size limit ends at most three bytes early; one cut by the end is complete
    by_cases last : byteLen entry.data.text ≤ byteLen front + maxAttachmentChunkBytes
    · have full : bound = byteLen entry.data.text := by omega
      have := le_floorCharBoundary (isCharBoundary_byteLen entry.data.text) (Nat.le_of_eq full.symm)
      omega
    · omega
  · have page : get entry.data.text (byteLen front) (byteLen (front ++ middle)) = some middle :=
      get_iff.mpr ⟨front, rest, by rw [text, split], rfl, by rw [byteLen_append]⟩
    have done : decide (byteLen (front ++ middle) = byteLen entry.data.text) = rest.isEmpty := by
      rw [text, split]
      cases rest with
      | nil => simp
      | cons c rest =>
        have := c.utf8Size_pos
        simp
        omega
    rw [readPage]
    simp only [sealed, Bool.not_true, Bool.false_or, gt_iff_lt, decide_eq_true_eq, Nat.not_lt.mpr inside, boundary,
      Bool.false_eq_true, if_false, limit, ← length, page, Option.getD_some, done]

/-- A client reads page after page from `next_offset` until a page is complete; before each page the
service runs other events. `none` when a read fails or the rounds are used up. -/
def readLoop (json : Paging.SerdeJson) (id : Str) : World → List (List Event × Sweep) → ℕ → Str → Option Str
  | _, [], _, _ => none
  | world, (events, sweep) :: rounds, offset, read =>
    let world := run json world events
    match readAttachment sweep ⟨id, offset⟩ none world.state with
    | (.ok page, state) =>
      if page.complete then some (read ++ page.text)
      else readLoop json id { world with state } rounds page.nextOffset (read ++ page.text)
    | (.error _, _) => none

/-- In every round the attachment is neither deleted nor expired. -/
def Survives (json : Paging.SerdeJson) (id : Str) (allocation : ℕ) : World → List (List Event × Sweep) → Prop
  | _, [] => True
  | world, (events, sweep) :: rounds =>
    let world := run json world events
    (∃ entry, (expire sweep world.state).attachments.get id = some entry ∧ entry.data.allocation = allocation) ∧
      Survives json id allocation { world with state := expire sweep world.state } rounds

/-- Whatever else happens, a sealed text is read back to its end. -/
theorem readLoop_reads {world : World} (ready : Ready world) {id : Str} {entry : StoredAttachment}
    (present : world.state.attachments.get id = some entry) (sealed : entry.summary.sealed = true)
    {rounds : List (List Event × Sweep)} (survives : Survives json id entry.data.allocation world rounds)
    {front rear : Str} (text : entry.data.text = front ++ rear) (enough : byteLen rear < rounds.length) :
    readLoop json id world rounds (byteLen front) front = some entry.data.text := by
  induction rounds generalizing world entry front rear with
  | nil => cases enough
  | cons round rounds ih =>
    obtain ⟨events, sweep⟩ := round
    obtain ⟨⟨later, found, same⟩, survives⟩ := survives
    obtain ⟨ran, evolves⟩ := run_ready ready events
    obtain ⟨sound, swept⟩ := expire_advances sweep (run json world events).state ran.sound
    have grown := (evolves.trans swept).extends ready.sound present found same
    obtain ⟨laterSealed, laterText⟩ := grown.sealed sealed
    obtain ⟨middle, rest, split, progress, page⟩ := readPage_ok laterSealed (laterText.trans text)
    have declared : checkDeclaredKind none later.summary.kind = .ok () := rfl
    have handle := (sound.wellFormed id later found).handle
    have result : readAttachment sweep ⟨id, byteLen front⟩ none (run json world events).state =
        (readPage later (byteLen front), expire sweep (run json world events).state) := by
      simp [readAttachment, handle, found, declared]
    rw [readLoop]
    simp only [result, page]
    cases rest with
    | nil =>
      rw [List.append_nil] at split
      simp [text, split]
    | cons c rest =>
      have nonempty := length_le_byteLen middle
      have positive := List.length_pos_of_ne_nil (progress (List.cons_ne_nil c rest))
      have shorter : byteLen (c :: rest) < rounds.length := by
        rw [split, byteLen_append, List.length_cons] at enough
        omega
      have next := @ih { run json world events with state := expire sweep (run json world events).state } ⟨sound, ran.inputs⟩
        later found laterSealed (by rw [same]; exact survives) (front ++ middle) (c :: rest)
        (by rw [laterText, text, split, List.append_assoc]) shorter
      rw [laterText] at next
      simpa using next

/-! ## The protocol -/

/-- What holds at a reachable point of a run, and after every continuation of it. -/
structure Protocol (json : Paging.SerdeJson) (world : World) : Prop where
  committed : ∀ id entry, world.state.attachments.get id = some entry →
    entry.summary.committedBytes = byteLen entry.data.text ∧ byteLen entry.data.text ≤ entry.summary.totalBytes
  sealed : ∀ id entry, world.state.attachments.get id = some entry → entry.summary.sealed = true →
    byteLen entry.data.text = entry.summary.totalBytes ∧ validate entry.summary.kind entry.data.text = .ok ()
  /-- Identity and expiry are fixed, the text grows at its end, and a sealed text stays. -/
  later : ∀ events id entry later, world.state.attachments.get id = some entry →
    (run json world events).state.attachments.get id = some later →
    later.data.allocation = entry.data.allocation → Extends entry later
  /-- An acknowledged chunk is in the text, and stays there. -/
  acknowledged : ∀ publication request declaredKind summary after,
    uploadAttachment publication request declaredKind world.state = (.ok summary, after) →
    ∃ entry, after.attachments.get summary.attachmentId = some entry ∧ entry.summary = summary ∧
      ∀ events later,
        (run json { world with state := after } events).state.attachments.get summary.attachmentId = some later →
        later.data.allocation = entry.data.allocation →
        get later.data.text request.offset (request.offset + byteLen request.chunk) = some request.chunk
  /-- A request that names its attachment is its own replay. -/
  resumed : ∀ publication request declaredKind summary after,
    uploadAttachment publication request declaredKind world.state = (.ok summary, after) →
    request.attachmentId.isSome = true → resume summary request = request
  /-- Sending an accepted request again, at any later point, succeeds without effect. -/
  replayed : ∀ publication request declaredKind summary after,
    uploadAttachment publication request declaredKind world.state = (.ok summary, after) →
    ∃ entry, after.attachments.get summary.attachmentId = some entry ∧
      ∀ events again later, (run json { world with state := after } events).state.stopping = false →
        (expire again.sweep (run json { world with state := after } events).state).attachments.get
          summary.attachmentId = some later →
        later.data.allocation = entry.data.allocation →
        uploadAttachment again (resume summary request) declaredKind
            (run json { world with state := after } events).state =
          (.ok later.summary, expire again.sweep (run json { world with state := after } events).state)
  /-- A failed operation does nothing beyond the sweep. -/
  failedUpload : ∀ publication request declaredKind error after,
    uploadAttachment publication request declaredKind world.state = (.error error, after) →
    after = world.state ∨ after = expire publication.sweep world.state
  failedRead : ∀ sweep request declaredKind error after,
    readAttachment sweep request declaredKind world.state = (.error error, after) →
    after = world.state ∨ after = expire sweep world.state
  failedDelete : ∀ sweep id declaredKind error after,
    deleteAttachment sweep id declaredKind world.state = (.error error, after) →
    after = world.state ∨ after = expire sweep world.state
  /-- A sweep changes no attachment that it keeps. -/
  swept : ∀ sweep id entry, (expire sweep world.state).attachments.get id = some entry →
    world.state.attachments.get id = some entry
  /-- Following `next_offset` from 0 ends and gives the stored text. -/
  read : ∀ id entry rounds, world.state.attachments.get id = some entry → entry.summary.sealed = true →
    Survives json id entry.data.allocation world rounds → byteLen entry.data.text < rounds.length →
    readLoop json id world rounds 0 [] = some entry.data.text

theorem protocol_of_ready {world : World} (ready : Ready world) : Protocol json world where
  committed := fun id entry present =>
    ⟨(ready.sound.wellFormed id entry present).committed, (ready.sound.wellFormed id entry present).bounded⟩
  sealed := fun id entry present sealed =>
    ⟨(ready.sound.wellFormed id entry present).complete sealed, (ready.sound.wellFormed id entry present).valid sealed⟩
  later := fun events id entry later present found same =>
    (run_ready ready events).2.extends ready.sound present found same
  acknowledged := by
    intro publication request declaredKind summary after ran
    obtain ⟨entry, present, named, replays, -⟩ := uploadAttachment_ok ready.sound ran
    refine ⟨entry, present, named, fun events later found same => ?_⟩
    have next := (@step_ready json _ ready (.upload publication request declaredKind)).1
    rw [step, ran] at next
    have grown := (run_ready next events).2.extends next.sound present found same
    exact (replays.extend grown).stands
  resumed := by
    intro publication request declaredKind summary after ran named
    obtain ⟨entry, -, -, -, -, same⟩ := uploadAttachment_ok ready.sound ran
    obtain ⟨-, plain⟩ := uploadAttachment_sendable ran
    obtain ⟨id, target⟩ := Option.isSome_iff_exists.mp named
    obtain ⟨kind, total⟩ := plain named
    rw [resume, same id target, ← target, ← kind, ← total]
  replayed := by
    intro publication request declaredKind summary after ran
    obtain ⟨entry, present, named, replays, declared, -⟩ := uploadAttachment_ok ready.sound ran
    obtain ⟨sendable, -⟩ := uploadAttachment_sendable ran
    refine ⟨entry, present, fun events again later running found same => ?_⟩
    have next := (@step_ready json _ ready (.upload publication request declaredKind)).1
    rw [step, ran] at next
    obtain ⟨final, evolves⟩ := @run_ready json _ next events
    have grown := evolves.extends next.sound present (get_of_get_expire found) same
    have handle := (final.sound.wellFormed _ later (get_of_get_expire found)).handle
    have repeats : Replays (resume summary request) later :=
      ⟨(replays.extend grown).small, (replays.extend grown).within, (replays.extend grown).final,
        (replays.extend grown).past, (replays.extend grown).stands, (replays.extend grown).sealed⟩
    exact uploadAttachment_replay sendable rfl handle ⟨rfl, rfl⟩ ((expire_stopping _ _).trans running) found
      (grown.kind ▸ declared) repeats
  failedUpload := by
    intro publication request declaredKind error after ran
    rcases uploadAttachment_cases ran with ⟨-, kept⟩ | ⟨_, _, _, _, _, _, impossible, _⟩ | ⟨_, _, _, impossible, _⟩
    · exact kept
    · cases impossible
    · cases impossible
  failedRead := by
    intro sweep request declaredKind error after ran
    have kept := readAttachment_snd sweep request declaredKind world.state
    rw [ran] at kept
    exact kept
  failedDelete := by
    intro sweep id declaredKind error after ran
    have kept := deleteAttachment_snd sweep id declaredKind world.state
    rw [ran] at kept
    rcases kept with kept | kept | ⟨impossible, -⟩
    · exact .inl kept
    · exact .inr kept
    · cases impossible
  swept := fun _ _ _ found => get_of_get_expire found
  read := fun id entry rounds present sealed survives enough =>
    readLoop_reads ready present sealed survives (List.nil_append _).symm enough

/-- The upload protocol holds at every point of every run of the service. -/
theorem attachment_protocol (json : Paging.SerdeJson) (events : List Event) : Protocol json (run json start events) :=
  protocol_of_ready (run_ready ready_start events).1

end OpenLegal.TextDiff.Service
