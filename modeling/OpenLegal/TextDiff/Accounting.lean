import OpenLegal.TextDiff.AttachmentProtocol
import OpenLegal.Theory.SharedLedger

/-! # Memory accounting of the text-diff service

Published comparisons, attachments and the reservations of jobs share one allowance. The recorded
attachment bytes are the charges of the live values, including those a lease keeps after deletion, and
a comparison is published inside the reservation of its own job.
-/

namespace OpenLegal.TextDiff.Service

open Rust Rust.Str Theory

/-! ## The ledger of attachment data -/

/-- Identity and charge of a shared value. -/
def AttachmentData.share (data : AttachmentData) : ℕ × ℕ := (data.allocation, data.charge)

/-- Every strong reference, as a holder of the ledger. -/
def State.shares (state : State) : List (ℕ × ℕ) := state.holders.map (·.share)

/-- The recorded bytes are the live charges, each map entry has its own value, and nothing underflowed. -/
structure Accounted (state : State) : Prop where
  balanced : Balanced state.shares state.attachmentBytes
  distinct : (state.attachments.values.map (·.data.allocation)).Nodup
  allocated : ∀ data ∈ state.holders, data.allocation < state.allocations
  noUnderflow : state.underflow = false

theorem holds_iff {state : State} {data : AttachmentData} :
    state.holds data = true ↔ ∃ share ∈ state.shares, share.1 = data.allocation := by
  simp [State.holds, State.shares, AttachmentData.share]

/-- Dropping a removed reference balances the ledger again. -/
theorem dropData_balanced {state : State} {data : AttachmentData} {pending : List (ℕ × ℕ)}
    (balanced : Balanced (data.share :: (pending ++ state.shares)) state.attachmentBytes)
    (other : ∀ share ∈ pending, share.1 ≠ data.allocation) (noUnderflow : state.underflow = false) :
    Balanced (pending ++ state.shares) (state.dropData data).attachmentBytes ∧
      (state.dropData data).underflow = false := by
  rw [State.dropData]
  split_ifs with shared
  · obtain ⟨share, member, same⟩ := (holds_iff).mp shared
    exact ⟨balanced.drop_shared ⟨share, List.mem_append_right _ member, same⟩, noUnderflow⟩
  · have last : ∀ share ∈ pending ++ state.shares, share.1 ≠ data.share.1 := by
      intro share member same
      rcases List.mem_append.mp member with member | member
      · exact other share member same
      · exact shared (holds_iff.mpr ⟨share, member, same⟩)
    obtain ⟨covered, rest⟩ := balanced.drop_last last
    have covered : data.charge ≤ state.attachmentBytes := covered
    refine ⟨?_, ?_⟩
    · rw [State.fetchSub]
      simp only [if_pos covered]
      exact rest
    · simp [State.fetchSub, noUnderflow, covered]

theorem foldl_dropData_balanced {removed : List StoredAttachment} {state : State}
    (balanced : Balanced (removed.map (·.data.share) ++ state.shares) state.attachmentBytes)
    (distinct : (removed.map (·.data.allocation)).Nodup) (noUnderflow : state.underflow = false) :
    Balanced state.shares (removed.foldl (fun state entry => state.dropData entry.data) state).attachmentBytes ∧
      (removed.foldl (fun state entry => state.dropData entry.data) state).underflow = false := by
  induction removed generalizing state with
  | nil => exact ⟨balanced, noUnderflow⟩
  | cons entry removed ih =>
    rw [List.map_cons, List.nodup_cons] at distinct
    obtain ⟨bytes, underflow, dropped⟩ := dropData_eq state entry.data
    have other : ∀ share ∈ removed.map (·.data.share), share.1 ≠ entry.data.allocation := by
      intro share member same
      obtain ⟨found, here, rfl⟩ := List.mem_map.mp member
      exact distinct.1 (List.mem_map.mpr ⟨found, here, same⟩)
    obtain ⟨rest, still⟩ := dropData_balanced balanced other noUnderflow
    rw [List.foldl_cons]
    have shares : (state.dropData entry.data).shares = state.shares := by rw [dropped]; rfl
    rw [← shares] at rest ⊢
    exact ih rest distinct.2 still

/-- A sweep of the attachments keeps the ledger balanced. -/
theorem retainAttachments_accounted {state : State} (accounted : Accounted state)
    (keep : Str → StoredAttachment → Bool) : Accounted (state.retainAttachments keep) := by
  have values := Map.values_retain_perm state.attachments keep
  generalize kept : ({ state with attachments := state.attachments.retain keep } : State) = after
  have attachments : after.attachments = state.attachments.retain keep := by rw [← kept]
  have leases : after.leases = state.leases := by rw [← kept]
  have bytes : after.attachmentBytes = state.attachmentBytes := by rw [← kept]
  have holders : state.holders.Perm
      ((state.attachments.retain fun id entry => !keep id entry).values.map (·.data) ++ after.holders) := by
    rw [State.holders, State.holders, attachments, leases, ← List.append_assoc, ← List.map_append]
    exact (values.map _).append_right _
  have nodup := (values.map (·.data.allocation)).nodup_iff.mp accounted.distinct
  rw [List.map_append] at nodup
  have balanced := accounted.balanced.perm (holders.map AttachmentData.share)
  rw [List.map_append, List.map_map, ← bytes] at balanced
  obtain ⟨rest, noUnderflow⟩ := @foldl_dropData_balanced _ after balanced (List.nodup_append.mp nodup).1
    (by rw [← kept]; exact accounted.noUnderflow)
  obtain ⟨_, _, same⟩ := foldl_dropData_eq (state.attachments.retain fun id entry => !keep id entry).values after
  rw [State.retainAttachments, kept]
  rw [same] at rest noUnderflow ⊢
  refine ⟨rest, ?_, ?_, noUnderflow⟩
  · rw [attachments]
    exact (List.nodup_append.mp nodup).2.1
  · intro data member
    rw [← kept]
    exact accounted.allocated data (holders.mem_iff.mpr (List.mem_append_right _ member))

/-- Sections that touch neither references nor the ledger. -/
theorem Accounted.of_eq {state after : State} (accounted : Accounted state)
    (attachments : after.attachments = state.attachments) (leases : after.leases = state.leases)
    (bytes : after.attachmentBytes = state.attachmentBytes) (allocations : after.allocations = state.allocations)
    (underflow : after.underflow = state.underflow) : Accounted after := by
  have holders : after.holders = state.holders := by rw [State.holders, attachments, leases, State.holders]
  refine ⟨?_, ?_, ?_, ?_⟩
  · rw [State.shares, holders, bytes]
    exact accounted.balanced
  · rw [attachments]
    exact accounted.distinct
  · rw [holders, allocations]
    exact accounted.allocated
  · rw [underflow]
    exact accounted.noUnderflow

theorem expire_accounted {state : State} (accounted : Accounted state) (sweep : Sweep) :
    Accounted (expire sweep state) :=
  (retainAttachments_accounted accounted _).of_eq rfl rfl rfl rfl rfl

theorem removeAttachment_accounted {state : State} (accounted : Accounted state) (id : Str) :
    Accounted (removeAttachment id state) := by
  rw [removeAttachment]
  split
  · next entry present =>
    have values := Map.values_remove_perm present
    have holders : state.holders.Perm
        (entry.data :: ({ state with attachments := state.attachments.remove id } : State).holders) := by
      rw [State.holders, State.holders]
      exact (values.map _).append_right _
    have nodup := (values.map (·.data.allocation)).nodup_iff.mp accounted.distinct
    rw [List.map_cons, List.nodup_cons] at nodup
    obtain ⟨balanced, noUnderflow⟩ := @dropData_balanced { state with attachments := state.attachments.remove id }
      entry.data [] (accounted.balanced.perm (holders.map AttachmentData.share)) (by simp) accounted.noUnderflow
    obtain ⟨_, _, same⟩ := dropData_eq { state with attachments := state.attachments.remove id } entry.data
    rw [same] at balanced noUnderflow ⊢
    refine ⟨balanced, nodup.2, ?_, noUnderflow⟩
    intro data member
    exact accounted.allocated data (holders.mem_iff.mpr (List.mem_cons_of_mem _ member))
  · exact accounted

theorem dropLease_accounted {state : State} (accounted : Accounted state) (index : ℕ) :
    Accounted (dropLease index state) := by
  rw [dropLease]
  split
  · next data present =>
    obtain ⟨bound, here⟩ := List.getElem?_eq_some_iff.mp present
    have leases : state.leases.Perm (data :: state.leases.eraseIdx index) := by
      rw [← here]
      exact (List.getElem_cons_eraseIdx_perm bound).symm
    have holders : state.holders.Perm
        (data :: ({ state with leases := state.leases.eraseIdx index } : State).holders) := by
      rw [State.holders, State.holders]
      exact (leases.append_left _).trans List.perm_middle
    obtain ⟨balanced, noUnderflow⟩ := @dropData_balanced { state with leases := state.leases.eraseIdx index }
      data [] (accounted.balanced.perm (holders.map AttachmentData.share)) (by simp) accounted.noUnderflow
    obtain ⟨_, _, same⟩ := dropData_eq { state with leases := state.leases.eraseIdx index } data
    rw [same] at balanced noUnderflow ⊢
    refine ⟨balanced, accounted.distinct, ?_, noUnderflow⟩
    intro data member
    exact accounted.allocated data (holders.mem_iff.mpr (List.mem_cons_of_mem _ member))
  · exact accounted

/-- A new attachment is a new allocation, charged at once. -/
theorem insertAttachment_accounted {state : State} (accounted : Accounted state) {id text : Str} {charge expires : ℕ}
    {summary : AttachmentSummary} (absent : state.attachments.get id = none) :
    Accounted (insertAttachment state id text charge summary expires) := by
  have values : (insertAttachment state id text charge summary expires).attachments.values =
      ⟨⟨state.allocations, text, charge⟩, summary, expires⟩ :: state.attachments.values := by
    rw [insertAttachment, Map.values_insert, Map.remove_of_absent absent]
  have holders : (insertAttachment state id text charge summary expires).holders =
      ⟨state.allocations, text, charge⟩ :: state.holders := by
    rw [State.holders, values]
    rfl
  refine ⟨?_, ?_, ?_, accounted.noUnderflow⟩
  · rw [State.shares, holders]
    refine accounted.balanced.alloc ?_
    intro share member
    obtain ⟨data, found, rfl⟩ := List.mem_map.mp member
    exact (accounted.allocated data found).ne
  · rw [values, List.map_cons, List.nodup_cons]
    refine ⟨?_, accounted.distinct⟩
    intro member
    obtain ⟨entry, found, same⟩ := List.mem_map.mp member
    have bound := accounted.allocated entry.data
      (List.mem_append_left _ (List.mem_map.mpr ⟨entry, found, rfl⟩))
    dsimp only at same
    omega
  · rw [holders]
    intro data member
    rcases List.mem_cons.mp member with rfl | member
    · exact Nat.lt_succ_self _
    · exact Nat.lt_succ_of_lt (accounted.allocated data member)

/-- An upload to a stored attachment keeps its value and charge. -/
theorem update_accounted {state : State} (accounted : Accounted state) {id : Str} {entry later : StoredAttachment}
    (present : state.attachments.get id = some entry) (share : later.data.share = entry.data.share) :
    Accounted { state with attachments := state.attachments.update id later } := by
  have allocation : later.data.allocation = entry.data.allocation := congrArg Prod.fst share
  have old := Map.values_remove_perm present
  have new := Map.values_update_perm present later
  have shares : state.shares.Perm
      ({ state with attachments := state.attachments.update id later } : State).shares := by
    rw [State.shares, State.shares, State.holders, State.holders, List.map_append, List.map_append]
    refine List.Perm.append_right _ ?_
    rw [List.map_map, List.map_map]
    refine (old.map _).trans (((new.map _).trans ?_).symm)
    rw [List.map_cons, List.map_cons, Function.comp_apply, Function.comp_apply, share]
  refine ⟨accounted.balanced.perm shares, ?_, ?_, accounted.noUnderflow⟩
  · refine (new.map (·.data.allocation)).nodup_iff.mpr ?_
    rw [List.map_cons, allocation, ← List.map_cons (f := fun entry : StoredAttachment => entry.data.allocation)]
    exact (old.map _).nodup_iff.mp accounted.distinct
  · intro data member
    have : data.share ∈ state.shares := shares.mem_iff.mpr (List.mem_map.mpr ⟨data, member, rfl⟩)
    obtain ⟨other, found, same⟩ := List.mem_map.mp this
    have equal : other.allocation = data.allocation := congrArg Prod.fst same
    exact equal ▸ accounted.allocated other found

/-! ## The allowance -/

def entryBytes (state : State) : ℕ := (state.entries.values.map (·.bytes)).sum

/-- The state fits the allowance next to `held` reservations, `pending` of which have no entry yet. -/
structure Fits (held pending : ℕ) (state : State) : Prop where
  accounted : Accounted state
  reserved : state.reserved = jobReservation * held
  slots : state.reservedSlots = held
  entries : state.entries.len + pending ≤ maxEntries
  bytes : entryBytes state + jobReservation * pending + state.attachmentBytes ≤ maxStoreBytes
  attachments : state.attachments.len ≤ maxAttachments

section Sections

variable {held pending : ℕ} {state : State}

private theorem sum_le_of_sublist {some' all : List Stored} (part : some'.Sublist all) :
    (some'.map (·.bytes)).sum ≤ (all.map (·.bytes)).sum :=
  (part.map _).sum_le_sum fun _ _ => Nat.zero_le _

/-- Sections that only remove. -/
theorem Fits.shed (fits : Fits held pending state) {after : State} (accounted : Accounted after)
    (holders : after.holders ⊆ state.holders) (attachments : after.attachments.values.Sublist state.attachments.values)
    (entries : after.entries.values.Sublist state.entries.values) (reserved : after.reserved = state.reserved)
    (slots : after.reservedSlots = state.reservedSlots) : Fits held pending after where
  accounted := accounted
  reserved := reserved.trans fits.reserved
  slots := slots.trans fits.slots
  entries := by
    have fewer := entries.length_le
    have bound := fits.entries
    rw [Map.values_length, Map.values_length] at fewer
    omega
  bytes := by
    have fewer := sum_le_of_sublist entries
    have bound := fits.bytes
    have live : after.attachmentBytes ≤ state.attachmentBytes := by
      rw [accounted.balanced.sum, fits.accounted.balanced.sum]
      exact liveCharge_mono (List.map_subset _ holders)
    rw [entryBytes] at bound ⊢
    omega
  attachments := by
    have fewer := attachments.length_le
    have bound := fits.attachments
    rw [Map.values_length, Map.values_length] at fewer
    omega

theorem expire_fits (fits : Fits held pending state) (sweep : Sweep) : Fits held pending (expire sweep state) := by
  have accounted := expire_accounted fits.accounted sweep
  obtain ⟨keep, keepEntry, bytes, underflow, same⟩ := expire_eq sweep state
  rw [same] at accounted ⊢
  refine fits.shed accounted ?_ (Map.values_retain_sublist _ _) (Map.values_retain_sublist _ _) rfl rfl
  intro data member
  rcases List.mem_append.mp member with member | member
  · exact List.mem_append_left _ (((Map.values_retain_sublist _ _).map _).subset member)
  · exact List.mem_append_right _ member

theorem removeAttachment_fits (fits : Fits held pending state) (id : Str) :
    Fits held pending (removeAttachment id state) := by
  have accounted := removeAttachment_accounted fits.accounted id
  obtain ⟨bytes, underflow, same⟩ := removeAttachment_eq id state
  rw [same] at accounted ⊢
  refine fits.shed accounted ?_ (Map.values_remove_sublist _ _) (List.Sublist.refl _) rfl rfl
  intro data member
  rcases List.mem_append.mp member with member | member
  · exact List.mem_append_left _ (((Map.values_remove_sublist _ _).map _).subset member)
  · exact List.mem_append_right _ member

theorem dropLease_fits (fits : Fits held pending state) (index : ℕ) : Fits held pending (dropLease index state) := by
  have accounted := dropLease_accounted fits.accounted index
  rw [dropLease] at accounted ⊢
  split at accounted
  · next data present =>
    obtain ⟨bytes, underflow, same⟩ := dropData_eq { state with leases := state.leases.eraseIdx index } data
    rw [same] at accounted ⊢
    refine fits.shed accounted ?_ (List.Sublist.refl _) (List.Sublist.refl _) rfl rfl
    intro data member
    rcases List.mem_append.mp member with member | member
    · exact List.mem_append_left _ member
    · exact List.mem_append_right _ ((List.eraseIdx_sublist _ _).subset member)
  · exact fits

/-- A checked insertion fits: reservations count in full. -/
theorem insertAttachment_fits (fits : Fits held pending state) (counted : pending ≤ held) {id text : Str}
    {charge expires : ℕ} {summary : AttachmentSummary} (absent : state.attachments.get id = none)
    (room : state.attachments.len < maxAttachments) (space : used state + charge ≤ maxStoreBytes) :
    Fits held pending (insertAttachment state id text charge summary expires) where
  accounted := insertAttachment_accounted fits.accounted absent
  reserved := fits.reserved
  slots := fits.slots
  entries := fits.entries
  bytes := by
    have covered : jobReservation * pending ≤ state.reserved := by
      rw [fits.reserved]
      exact Nat.mul_le_mul_left _ counted
    rw [used] at space
    simp only [insertAttachment, entryBytes]
    omega
  attachments := by
    rw [← Map.values_length] at room ⊢
    rw [insertAttachment, Map.values_insert, Map.remove_of_absent absent]
    exact room

theorem update_fits (fits : Fits held pending state) {id : Str} {entry later : StoredAttachment}
    (present : state.attachments.get id = some entry) (share : later.data.share = entry.data.share) :
    Fits held pending { state with attachments := state.attachments.update id later } where
  accounted := update_accounted fits.accounted present share
  reserved := fits.reserved
  slots := fits.slots
  entries := fits.entries
  bytes := fits.bytes
  attachments := by
    have old := (Map.values_remove_perm present).length_eq
    have new := (Map.values_update_perm present later).length_eq
    have bound := fits.attachments
    rw [Map.values_length] at old new
    rw [List.length_cons] at old new
    dsimp only
    omega

theorem uploadAttachment_fits (fits : Fits held pending state) (counted : pending ≤ held) (publication : Publication)
    (request : AttachmentUpload) (declaredKind : Option AttachmentKind) :
    Fits held pending (uploadAttachment publication request declaredKind state).2 := by
  generalize outcome : uploadAttachment publication request declaredKind state = pair
  obtain ⟨result, after⟩ := pair
  have swept := expire_fits fits publication.sweep
  rcases uploadAttachment_cases outcome with ⟨-, rfl | rfl⟩ | ⟨id, entry, later, -, present, -, -, rfl, effect⟩ |
    ⟨summary, -, -, -, created⟩
  · exact fits
  · exact swept
  · refine update_fits swept present ?_
    rcases effect with ⟨rfl, -⟩ | appends
    · rfl
    · obtain ⟨-, -, -, -, -, -, -, rfl⟩ := appends
      rfl
  · obtain ⟨charge, expires, space, rfl⟩ := created.result
    exact insertAttachment_fits swept counted created.absent created.room space

theorem resolve_fits (fits : Fits held pending state) (sweep : Sweep) (id : Str) (declaredKind : Option AttachmentKind)
    (kind : AttachmentKind) : Fits held pending (resolve sweep id declaredKind kind state).2 := by
  have swept := expire_fits fits sweep
  rw [resolve]
  split_ifs
  · exact fits
  dsimp only
  split
  · exact swept
  next entry present =>
  split
  · exact swept
  -- the lease refers to a value that the map holds
  have member : entry.data ∈ (expire sweep state).holders :=
    List.mem_append_left _ (List.mem_map.mpr ⟨entry, Map.mem_values_iff.mpr ⟨id, present⟩, rfl⟩)
  have holders : (entry.data :: (expire sweep state).holders).Perm
      ({ expire sweep state with leases := entry.data :: (expire sweep state).leases } : State).holders :=
    List.perm_middle.symm
  have share : entry.data.share ∈ (expire sweep state).shares := List.mem_map.mpr ⟨entry.data, member, rfl⟩
  refine ⟨⟨(swept.accounted.balanced.clone share).perm (holders.map AttachmentData.share), swept.accounted.distinct, ?_,
    swept.accounted.noUnderflow⟩, swept.reserved, swept.slots, swept.entries, swept.bytes, swept.attachments⟩
  intro data found
  rcases List.mem_cons.mp (holders.mem_iff.mpr found) with rfl | found
  · exact swept.accounted.allocated _ member
  · exact swept.accounted.allocated data found

theorem publishAttachment_fits (fits : Fits held pending state) (counted : pending ≤ held) (publication : Publication)
    (text : Str) (kind : AttachmentKind) : Fits held pending (publishAttachment publication text kind state).2 := by
  have swept := expire_fits fits publication.sweep
  rw [publishAttachment]
  split
  · exact fits
  dsimp only
  split_ifs with stopping full
  · exact swept
  · exact swept
  split
  · exact swept
  · next id fresh =>
    rw [Bool.or_eq_true, not_or, decide_eq_true_eq, decide_eq_true_eq, Nat.not_le, Nat.not_lt] at full
    exact insertAttachment_fits swept counted (freshAttachmentId_ok fresh).1 full.1 full.2

theorem exportPatch_fits (fits : Fits held pending state) (counted : pending ≤ held) (publication : Publication)
    (comparison : ComparisonSummary) : Fits held pending (exportPatch publication comparison state).2 := by
  have swept := expire_fits fits publication.sweep
  rw [exportPatch]
  dsimp only
  split
  · exact swept
  split_ifs with full
  · exact swept
  split
  · exact swept
  · next id fresh =>
    rw [Bool.or_eq_true, not_or, decide_eq_true_eq, decide_eq_true_eq, Nat.not_le, Nat.not_lt] at full
    exact insertAttachment_fits swept counted (freshAttachmentId_ok fresh).1 full.1 full.2

/-- Dropping a reservation takes off exactly what was added for it. -/
theorem Fits.release (fits : Fits (held + 1) pending state) {rest : ℕ} (fewer : rest ≤ pending) :
    Fits held rest { state with
      reserved := state.reserved - jobReservation
      reservedSlots := state.reservedSlots - 1
      underflow := state.underflow || state.reserved < jobReservation || state.reservedSlots < 1 } := by
  have reserved := fits.reserved
  have slots := fits.slots
  have entries := fits.entries
  have bytes := fits.bytes
  have smaller := Nat.mul_le_mul_left jobReservation fewer
  rw [Nat.mul_add_one] at reserved
  have enough : ¬state.reserved < jobReservation := by rw [reserved]; exact Nat.not_lt.mpr (Nat.le_add_left _ _)
  have counted : ¬state.reservedSlots < 1 := by omega
  refine ⟨fits.accounted.of_eq rfl rfl rfl rfl (by simp [enough, counted]), ?_, ?_, ?_, ?_, fits.attachments⟩
  · dsimp only
    rw [reserved, Nat.add_sub_cancel]
  · dsimp only
    rw [slots, Nat.add_sub_cancel]
  · dsimp only
    omega
  · simp only [entryBytes] at bytes ⊢
    omega

end Sections

/-! ## Runs -/

/-- The job's reservation is outstanding. -/
def Job.reserves (job : Job) : Bool := job.phase ≠ .released

/-- The reservation is outstanding and no entry was published from it. -/
def Job.unpublished (job : Job) : Bool :=
  match job.input, job.phase with
  | _, .released => false
  | .compare .., .finished (.ok _) => false
  | _, _ => true

def World.outstanding (world : World) : ℕ := world.jobs.countP Job.reserves

def World.unpublished (world : World) : ℕ := world.jobs.countP Job.unpublished

def World.Fits (world : World) : Prop := Service.Fits world.outstanding world.unpublished world.state

theorem World.unpublished_le (world : World) : world.unpublished ≤ world.outstanding := by
  refine List.countP_mono_left fun job _ unpublished => ?_
  rcases job with ⟨input, token, phase⟩
  cases phase with
  | released => cases input <;> cases unpublished
  | working => rfl
  | finished result => rfl

/-- How the counts change when one job changes. -/
private theorem countP_set {jobs : List Job} {index : ℕ} {old : Job} (present : jobs[index]? = some old) (p : Job → Bool)
    (new : Job) : (jobs.set index new).countP p + (if p old then 1 else 0) = jobs.countP p + if p new then 1 else 0 := by
  obtain ⟨bound, rfl⟩ := List.getElem?_eq_some_iff.mp present
  rw [List.countP_set bound]
  have : (if p jobs[index] then 1 else 0) ≤ jobs.countP p := by
    split_ifs with here
    · exact List.countP_pos_iff.mpr ⟨_, List.getElem_mem bound, here⟩
    · exact Nat.zero_le _
  omega

theorem admitJob_fits {world : World} (fits : world.Fits) (admission : Admission) {full : State → Bool} (input : JobInput)
    (checked : ∀ state, full state = false → state.entries.len + state.reservedSlots < maxEntries ∧
      entryBytes state + state.attachmentBytes + state.reserved + jobReservation ≤ maxStoreBytes) :
    (admitJob admission full input world).2.Fits := by
  have swept := expire_fits fits admission.sweep
  rcases admitJob_cases admission full input world with ⟨shutdown, same⟩ | same | ⟨space, same⟩
  · rw [same]; exact fits
  · rw [same]; exact swept
  · obtain ⟨slots, bytes⟩ := checked _ space
    have counted := world.unpublished_le
    have reserved := swept.reserved
    have held := swept.slots
    have reserves : (⟨input, world.tokens, .working⟩ : Job).reserves = true := rfl
    have unpublished : (⟨input, world.tokens, .working⟩ : Job).unpublished = true := by cases input <;> rfl
    rw [same, World.Fits, World.outstanding, World.unpublished, List.countP_append, List.countP_append,
      List.countP_singleton, List.countP_singleton, if_pos reserves, if_pos unpublished]
    simp only [World.outstanding, World.unpublished] at counted reserved held
    have covered := Nat.mul_le_mul_left jobReservation counted
    refine ⟨swept.accounted.of_eq rfl rfl rfl rfl rfl, ?_, ?_, ?_, ?_, swept.attachments⟩
    · dsimp only
      rw [reserved, Nat.mul_add_one]
    · dsimp only
      omega
    · dsimp only
      omega
    · simp only [entryBytes] at bytes ⊢
      rw [Nat.mul_add_one]
      omega

theorem finishCompare_fits {json : Paging.SerdeJson} {world : World} (fits : world.Fits) (index : ℕ)
    (completion : Completion) (engine : Except TextDiffError ComputedDiff) :
    (finishCompare json index completion engine world).Fits := by
  rw [finishCompare]
  split
  · next before after beforeInfo afterInfo originBytes token present =>
    dsimp only
    split
    · next summary final success =>
      obtain ⟨computed, stored, -, -, -, -, -, small, absent, rfl⟩ := publishComparison_ok success
      -- the published entry takes over the reservation of its own job
      have held := countP_set present Job.reserves ⟨.compare before after beforeInfo afterInfo originBytes, token,
        .finished (.ok summary.comparisonId)⟩
      have pending := countP_set present Job.unpublished ⟨.compare before after beforeInfo afterInfo originBytes, token,
        .finished (.ok summary.comparisonId)⟩
      simp only [Job.reserves, Job.unpublished, ne_eq, reduceCtorEq, not_false_eq_true, decide_true, if_true,
        Bool.false_eq_true, if_false] at held pending
      have entries := fits.entries
      have bytes := fits.bytes
      simp only [World.unpublished] at entries bytes
      rw [World.Fits, World.outstanding, World.unpublished]
      refine ⟨fits.accounted.of_eq rfl rfl rfl rfl rfl, ?_, ?_, ?_, ?_, fits.attachments⟩
      · rw [show List.countP Job.reserves _ = world.outstanding by simp only [World.outstanding]; omega]
        exact fits.reserved
      · rw [show List.countP Job.reserves _ = world.outstanding by simp only [World.outstanding]; omega]
        exact fits.slots
      · rw [← Map.values_length] at entries ⊢
        dsimp only
        rw [Map.values_insert, Map.remove_of_absent absent, List.length_cons]
        omega
      · simp only [entryBytes] at bytes ⊢
        rw [Map.values_insert, Map.remove_of_absent absent, List.map_cons, List.sum_cons]
        have product := congrArg (jobReservation * ·) pending
        simp only [Nat.mul_add, Nat.mul_one, Nat.add_zero] at product
        omega
    · next error failed =>
      have held := countP_set present Job.reserves ⟨.compare before after beforeInfo afterInfo originBytes, token,
        .finished (.error error)⟩
      have pending := countP_set present Job.unpublished ⟨.compare before after beforeInfo afterInfo originBytes, token,
        .finished (.error error)⟩
      simp only [Job.reserves, Job.unpublished, ne_eq, reduceCtorEq, not_false_eq_true, decide_true, if_true,
        Nat.add_right_cancel_iff] at held pending
      rw [World.Fits, World.outstanding, World.unpublished, held, pending]
      exact fits
  · exact fits

theorem finishApplyPatch_fits {world : World} (fits : world.Fits) (index : ℕ) (publication : Publication) (late : Bool)
    (engine : Except TextDiffError Str) : (finishApplyPatch index publication late engine world).Fits := by
  rw [finishApplyPatch]
  split
  · next target patch token present =>
    have held (result : Except TextDiffError Str) :=
      countP_set present Job.reserves ⟨.applyPatch target patch, token, .finished result⟩
    have pending (result : Except TextDiffError Str) :=
      countP_set present Job.unpublished ⟨.applyPatch target patch, token, .finished result⟩
    simp only [Job.reserves, Job.unpublished, ne_eq, reduceCtorEq, not_false_eq_true, decide_true, if_true,
      Nat.add_right_cancel_iff] at held pending
    dsimp only
    split
    · rw [World.Fits, World.outstanding, World.unpublished, held, pending]
      exact fits
    · rw [World.Fits, World.outstanding, World.unpublished, held, pending]
      exact publishAttachment_fits fits world.unpublished_le publication _ _
  · exact fits

theorem releaseReservation_fits {world : World} (fits : world.Fits) (index : ℕ) :
    (releaseReservation index world).Fits := by
  rw [releaseReservation]
  split
  · next job present =>
    split_ifs with released
    · exact fits
    · have held := countP_set present Job.reserves { job with phase := .released }
      have pending := countP_set present Job.unpublished { job with phase := .released }
      have none : ({ job with phase := .released } : Job).unpublished = false := by cases job.input <;> rfl
      simp only [Job.reserves, ne_eq, released, not_false_eq_true, decide_true, if_true, not_true_eq_false, decide_false,
        Bool.false_eq_true, if_false, Nat.add_zero] at held
      simp only [none, Bool.false_eq_true, if_false, Nat.add_zero] at pending
      have fewer : (world.jobs.set index { job with phase := .released }).countP Job.unpublished ≤ world.unpublished := by
        rw [World.unpublished]
        omega
      rw [World.Fits, World.outstanding, ← held] at fits
      rw [World.Fits, World.outstanding, World.unpublished]
      exact fits.release fewer
  · exact fits

theorem endJob_fits {world : World} (fits : world.Fits) (index : ℕ) : (endJob index world).Fits := by
  rw [endJob]
  split
  · next job present =>
    split_ifs with released
    · obtain ⟨bound, rfl⟩ := List.getElem?_eq_some_iff.mp present
      have jobs := (List.getElem_cons_eraseIdx_perm bound).symm
      have held := jobs.countP_eq Job.reserves
      have pending := jobs.countP_eq Job.unpublished
      have idle : world.jobs[index].reserves = false := by simp [Job.reserves, released]
      have none : world.jobs[index].unpublished = false := by
        rw [Job.unpublished, released]
      rw [List.countP_cons_of_neg (by simp [idle])] at held
      rw [List.countP_cons_of_neg (by simp [none])] at pending
      rw [World.Fits, World.outstanding, World.unpublished, ← held, ← pending]
      exact fits
    · exact fits
  · exact fits

theorem compareFull_checked (state : State) (space : compareFull state = false) :
    state.entries.len + state.reservedSlots < maxEntries ∧
      entryBytes state + state.attachmentBytes + state.reserved + jobReservation ≤ maxStoreBytes := by
  rw [compareFull, Bool.or_eq_false_iff, decide_eq_false_iff_not, decide_eq_false_iff_not, Nat.not_le, Nat.not_lt] at space
  exact space

theorem applyPatchFull_checked (state : State) (space : applyPatchFull state = false) :
    state.entries.len + state.reservedSlots < maxEntries ∧
      entryBytes state + state.attachmentBytes + state.reserved + jobReservation ≤ maxStoreBytes := by
  simp only [applyPatchFull, Bool.or_eq_false_iff, decide_eq_false_iff_not, Nat.not_le, Nat.not_lt, ge_iff_le,
    gt_iff_lt, used] at space
  rw [entryBytes]
  omega

/-- Every event keeps the service inside its allowance. -/
theorem step_fits (json : Paging.SerdeJson) (world : World) (event : Event) (fits : world.Fits) :
    (step json world event).Fits := by
  have counted := world.unpublished_le
  cases event with
  | upload publication request declaredKind => exact uploadAttachment_fits fits counted publication request declaredKind
  | read sweep request declaredKind =>
    rcases readAttachment_snd sweep request declaredKind world.state with same | same
    · rw [step, same]; exact fits
    · rw [step, same]; exact expire_fits fits sweep
  | deleteAttachment sweep id declaredKind =>
    rcases deleteAttachment_snd sweep id declaredKind world.state with same | same | ⟨-, same⟩
    · rw [step, same]; exact fits
    · rw [step, same]; exact expire_fits fits sweep
    · rw [step, same]; exact removeAttachment_fits (expire_fits fits sweep) id
  | sweep sweep => exact expire_fits fits sweep
  | deleteComparison id =>
    rw [step]
    split_ifs
    · exact Service.Fits.shed fits (fits.accounted.of_eq rfl rfl rfl rfl rfl) (List.Subset.refl _) (List.Sublist.refl _)
        (Map.values_remove_sublist _ _) rfl rfl
    · exact fits
  | resolve sweep id declaredKind kind => exact resolve_fits fits sweep id declaredKind kind
  | dropLease index => exact dropLease_fits fits index
  | admitCompare admission before after beforeLabel afterLabel originBytes =>
    rw [step, admitCompare]
    split
    · exact fits
    · exact admitJob_fits fits admission _ compareFull_checked
  | admitApplyPatch admission target patch => exact admitJob_fits fits admission _ applyPatchFull_checked
  | finishCompare index completion engine => exact finishCompare_fits fits index completion engine
  | finishApplyPatch index publication late engine => exact finishApplyPatch_fits fits index publication late engine
  | exportPatch publication comparison => exact exportPatch_fits fits counted publication comparison
  | release index => exact releaseReservation_fits fits index
  | endJob index => exact endJob_fits fits index
  | shutdown => exact fits
  | stop =>
    exact ⟨fits.accounted.of_eq rfl rfl rfl rfl rfl, fits.reserved, fits.slots, fits.entries, fits.bytes, fits.attachments⟩
  | clearEntries =>
    rw [step]
    split_ifs
    · exact Service.Fits.shed fits (fits.accounted.of_eq rfl rfl rfl rfl rfl) (List.Subset.refl _) (List.Sublist.refl _)
        (List.nil_sublist _) rfl rfl
    · exact fits
  | clearAttachments =>
    rw [step]
    split_ifs
    · have accounted := retainAttachments_accounted fits.accounted fun _ _ => false
      obtain ⟨bytes, underflow, same⟩ := retainAttachments_eq world.state fun _ _ => false
      rw [same] at accounted ⊢
      refine Service.Fits.shed fits accounted ?_ (Map.values_retain_sublist _ _) (List.Sublist.refl _) rfl rfl
      intro data member
      rcases List.mem_append.mp member with member | member
      · exact List.mem_append_left _ (((Map.values_retain_sublist _ _).map _).subset member)
      · exact List.mem_append_right _ member
    · exact fits

theorem start_fits : start.Fits where
  accounted := ⟨Balanced.nil, List.nodup_nil, fun _ member => (by cases member), rfl⟩
  reserved := rfl
  slots := rfl
  entries := by decide
  bytes := by decide
  attachments := by decide

/-- In every reachable state the allowance holds for published entries, attachments and the reservations
that have no entry yet, hence for the plain sum whenever no job is between publishing and dropping its
reservation; the recorded attachment bytes are the charges of the live values; and no counter ever went
below zero. -/
theorem memory_accounting (json : Paging.SerdeJson) (events : List Event) :
    let world := run json start events
    entryBytes world.state + jobReservation * world.unpublished + world.state.attachmentBytes ≤ maxStoreBytes ∧
      (world.unpublished = world.outstanding → used world.state ≤ maxStoreBytes) ∧
      world.state.reserved = jobReservation * world.outstanding ∧
      world.state.reservedSlots = world.outstanding ∧
      world.state.entries.len ≤ maxEntries ∧ world.state.attachments.len ≤ maxAttachments ∧
      world.state.attachmentBytes = liveCharge world.state.shares ∧ world.state.underflow = false := by
  have fits : (run json start events).Fits := run_invariant json (step_fits json) start_fits events
  have entries := fits.entries
  have bytes := fits.bytes
  refine ⟨bytes, fun none => ?_, fits.reserved, fits.slots, by omega, fits.attachments, fits.accounted.balanced.sum,
    fits.accounted.noUnderflow⟩
  rw [none, ← fits.reserved] at bytes
  exact bytes

/-! ## The transient double count -/

/-- Nothing expires and no completion lease is cancelled. -/
def quiet : Sweep := ⟨fun _ => 0, fun _ => 0, fun _ => false⟩

/-- The handle generator returns 32 bytes of `n`. -/
def repeating (n : UInt8) : Generated := Vector.replicate 4 (.ok (Vector.replicate 32 n))

/-- The first chunk of a patch whose charge is 8 MiB. -/
def reserveEightMiB (n : UInt8) : Event :=
  .upload ⟨quiet, repeating n, 0, 0, some 0⟩
    { attachmentId := none, kind := some .patch, totalBytes := some (8 * 1024 * 1024 - 1024), offset := 0, chunk := ['-'],
      complete := false } none

/-- Twelve open uploads, and a comparison of two empty texts that has just published. -/
def doubleCounted : List Event :=
  ((List.range 12).map fun n => reserveEightMiB (UInt8.ofNat n)) ++
    [.admitCompare ⟨quiet, false, false⟩ [] [] none none 4,
      .finishCompare 0 ⟨false, false, repeating 200, 0, 0, fun _ => 0, 0⟩ (.ok ⟨[], []⟩)]

/-- Before the reservation is dropped, the plain sum of entries, reservations and attachments exceeds
the allowance. -/
theorem used_exceeds_after_publication :
    used (run .compact start doubleCounted).state = 128 * 1024 * 1024 + 4100 ∧
      maxStoreBytes < used (run .compact start doubleCounted).state := by
  decide +kernel

end OpenLegal.TextDiff.Service
