import OpenLegal.TextDiff.Accounting
import OpenLegal.TextDiff.Ownership
import OpenLegal.TextDiff.Patch

/-! # No orphan bearer handles

A comparison whose call failed is hidden from the moment its lease is cancelled. An attachment whose
call failed is gone once its job has handed over its result. What a call returned stays readable until
it is deleted, expires or the service is shut down. These facts hold for every interleaving of jobs and
calls with all other operations of the service.
-/

namespace OpenLegal.TextDiff.Delivery

open Rust Rust.Str Service

variable {json : Paging.SerdeJson}

/-! ## What stays -/

/-- What a section that sweeps and deletes nothing does to both maps. -/
inductive Effect (sweep : Sweep) (state after : State) : Prop where
  | none (attachments : after.attachments = state.attachments) (entries : after.entries = state.entries)
  | swept (attachments : after.attachments = (expire sweep state).attachments)
      (entries : after.entries = (expire sweep state).entries)
  | inserted (id : Str) (entry : StoredAttachment) (absent : (expire sweep state).attachments.get id = none)
      (attachments : after.attachments = (expire sweep state).attachments.insert id entry)
      (entries : after.entries = (expire sweep state).entries)
  | updated (id : Str) (entry later : StoredAttachment) (present : (expire sweep state).attachments.get id = some entry)
      (fixed : entry.summary.sealed = true → later = entry)
      (attachments : after.attachments = (expire sweep state).attachments.update id later)
      (entries : after.entries = (expire sweep state).entries)

theorem upload_effect (publication : Publication) (request : AttachmentUpload) (declaredKind : Option AttachmentKind)
    (state : State) : Effect publication.sweep state (uploadAttachment publication request declaredKind state).2 := by
  generalize outcome : uploadAttachment publication request declaredKind state = pair
  obtain ⟨result, after⟩ := pair
  rcases uploadAttachment_cases outcome with ⟨-, rfl | rfl⟩ | ⟨id, entry, later, -, present, -, -, rfl, effect⟩ |
    ⟨summary, -, -, -, created⟩
  · exact .none rfl rfl
  · exact .swept rfl rfl
  · refine .updated id entry later present (fun sealed => ?_) rfl rfl
    rcases effect with ⟨same, -⟩ | appends
    · exact same
    · rw [appends.open'] at sealed
      cases sealed
  · obtain ⟨charge, expires, -, rfl⟩ := created.result
    exact .inserted _ _ created.absent rfl rfl

theorem read_effect (sweep : Sweep) (request : AttachmentRead) (declaredKind : Option AttachmentKind) (state : State) :
    Effect sweep state (readAttachment sweep request declaredKind state).2 := by
  rcases readAttachment_snd sweep request declaredKind state with same | same
  · rw [same]; exact .none rfl rfl
  · rw [same]; exact .swept rfl rfl

theorem resolve_effect (sweep : Sweep) (id : Str) (declaredKind : Option AttachmentKind) (kind : AttachmentKind)
    (state : State) : Effect sweep state (resolve sweep id declaredKind kind state).2 := by
  rw [resolve]
  split_ifs
  · exact .none rfl rfl
  dsimp only
  split
  · exact .swept rfl rfl
  split
  · exact .swept rfl rfl
  · exact .swept rfl rfl

theorem admitJob_effect (admission : Admission) (full : State → Bool) (input : JobInput) (world : World) :
    Effect admission.sweep world.state (admitJob admission full input world).2.state := by
  rcases admitJob_cases admission full input world with ⟨shutdown, same⟩ | same | ⟨-, same⟩
  · rw [same]; exact .none rfl rfl
  · rw [same]; exact .swept rfl rfl
  · rw [same]; exact .swept rfl rfl

theorem publish_effect (publication : Publication) (text : Str) (kind : AttachmentKind) (state : State) :
    Effect publication.sweep state (publishAttachment publication text kind state).2 := by
  rw [publishAttachment]
  split
  · exact .none rfl rfl
  dsimp only
  split_ifs
  · exact .swept rfl rfl
  · exact .swept rfl rfl
  split
  · exact .swept rfl rfl
  · next id fresh => exact .inserted id _ (freshAttachmentId_ok fresh).1 rfl rfl

theorem finishApplyPatch_effect (index : ℕ) (publication : Publication) (late : Bool) (engine : Except TextDiffError Str)
    (world : World) : Effect publication.sweep world.state (finishApplyPatch index publication late engine world).state := by
  rw [finishApplyPatch]
  split
  · dsimp only
    split
    · exact .none rfl rfl
    · exact publish_effect publication _ .text world.state
  · exact .none rfl rfl

theorem export_effect (publication : Publication) (comparison : ComparisonSummary) (state : State) :
    Effect publication.sweep state (exportPatch publication comparison state).2 := by
  rw [exportPatch]
  dsimp only
  split
  · exact .swept rfl rfl
  split_ifs
  · exact .swept rfl rfl
  split
  · exact .swept rfl rfl
  · next id fresh => exact .inserted id _ (freshAttachmentId_ok fresh).1 rfl rfl

theorem expire_keeps_comparison {sweep : Sweep} {state : State} {id : Str} {stored : Stored}
    (present : state.entries.get id = some stored) (early : sweep.entryNow id < stored.expires)
    (alive : sweep.cancelled stored.caller = false) : (expire sweep state).entries.get id = some stored := by
  obtain ⟨bytes, underflow, retained⟩ := retainAttachments_eq state fun id entry => entry.expires > sweep.attachmentNow id
  rw [expire, retained]
  dsimp only
  rw [Map.get_retain, present, Option.filter_some]
  simp [early, alive]

theorem expire_keeps_attachment {sweep : Sweep} {state : State} {id : Str} {entry : StoredAttachment}
    (present : state.attachments.get id = some entry) (early : sweep.attachmentNow id < entry.expires) :
    (expire sweep state).attachments.get id = some entry := by
  obtain ⟨bytes, underflow, retained⟩ := retainAttachments_eq state fun id entry => entry.expires > sweep.attachmentNow id
  rw [expire, retained]
  dsimp only
  rw [Map.get_retain, present, Option.filter_some]
  simp [early]

theorem Effect.keeps_comparison {sweep : Sweep} {state after : State} (effect : Effect sweep state after) {id : Str}
    {stored : Stored} (present : state.entries.get id = some stored) (early : sweep.entryNow id < stored.expires)
    (alive : sweep.cancelled stored.caller = false) : after.entries.get id = some stored := by
  have kept := expire_keeps_comparison present early alive
  cases effect with
  | none attachments entries => rw [entries]; exact present
  | swept attachments entries => rw [entries]; exact kept
  | inserted other entry absent attachments entries => rw [entries]; exact kept
  | updated other entry later found fixed attachments entries => rw [entries]; exact kept

theorem Effect.keeps_attachment {sweep : Sweep} {state after : State} (effect : Effect sweep state after) {id : Str}
    {entry : StoredAttachment} (present : state.attachments.get id = some entry) (sealed : entry.summary.sealed = true)
    (early : sweep.attachmentNow id < entry.expires) : after.attachments.get id = some entry := by
  have kept := expire_keeps_attachment present early
  cases effect with
  | none attachments entries => rw [attachments]; exact present
  | swept attachments entries => rw [attachments]; exact kept
  | inserted other new absent attachments entries =>
    have different : id ≠ other := by
      rintro rfl
      rw [kept] at absent
      cases absent
    rw [attachments, Map.get_insert_of_ne _ different]
    exact kept
  | updated other old later found fixed attachments entries =>
    rw [attachments]
    by_cases same : id = other
    · subst same
      rw [kept] at found
      cases found
      rw [Map.get_update kept, fixed sealed]
    · rw [Map.get_update_of_ne found same]
      exact kept

theorem releaseReservation_maps (index : ℕ) (world : World) :
    (releaseReservation index world).state.attachments = world.state.attachments ∧
      (releaseReservation index world).state.entries = world.state.entries := by
  unfold releaseReservation
  cases world.jobs[index]? with
  | none => exact ⟨rfl, rfl⟩
  | some job =>
    dsimp only
    by_cases released : job.phase = .released
    · simp only [released, if_true, and_self]
    · simp only [released, if_false, and_self]

/-- A section neither deletes nor clears a comparison, and looks at it before it expires. -/
structure SparesComparison (id : Str) (expires : ℕ) (event : Service.Event) : Prop where
  early : ∀ sweep, sweepOf event = some sweep → sweep.entryNow id < expires
  undeleted : event ≠ .deleteComparison id
  uncleared : event ≠ .clearEntries

/-- A section neither deletes nor clears an attachment, and looks at it before it expires. -/
structure SparesAttachment (id : Str) (expires : ℕ) (event : Service.Event) : Prop where
  early : ∀ sweep, sweepOf event = some sweep → sweep.attachmentNow id < expires
  undeleted : ∀ sweep declaredKind, event ≠ .deleteAttachment sweep id declaredKind
  uncleared : event ≠ .clearAttachments

/-- What any section does to both maps. -/
inductive Changes (state : State) (event : Service.Event) (after : State) : Prop where
  | same (attachments : after.attachments = state.attachments) (entries : after.entries = state.entries)
  | effect (sweep : Sweep) (made : sweepOf event = some sweep) (effect : Effect sweep state after)
  | deletedAttachment (sweep : Sweep) (id : Str) (declaredKind : Option AttachmentKind)
      (deletes : event = .deleteAttachment sweep id declaredKind)
      (attachments : after.attachments = (expire sweep state).attachments.remove id)
      (entries : after.entries = (expire sweep state).entries)
  | deletedComparison (id : Str) (deletes : event = .deleteComparison id) (attachments : after.attachments = state.attachments)
      (entries : after.entries = state.entries.remove id)
  | compared (id : Str) (stored : Stored) (absent : state.entries.get id = none)
      (attachments : after.attachments = state.attachments) (entries : after.entries = state.entries.insert id stored)
  | clearedEntries (clears : event = .clearEntries) (attachments : after.attachments = state.attachments)
  | clearedAttachments (clears : event = .clearAttachments) (entries : after.entries = state.entries)

theorem step_changes (json : Paging.SerdeJson) (world : World) (event : Service.Event) :
    Changes world.state event (Service.step json world event).state := by
  cases event with
  | upload publication request declaredKind =>
    exact .effect _ rfl (upload_effect publication request declaredKind world.state)
  | read sweep request declaredKind => exact .effect _ rfl (read_effect sweep request declaredKind world.state)
  | deleteAttachment sweep id declaredKind =>
    rw [Service.step]
    dsimp only
    rcases deleteAttachment_snd sweep id declaredKind world.state with same | same | ⟨-, same⟩
    · rw [same]; exact .same rfl rfl
    · rw [same]; exact .effect sweep rfl (.swept rfl rfl)
    · obtain ⟨bytes, underflow, removed⟩ := removeAttachment_eq id (expire sweep world.state)
      rw [same, removed]
      exact .deletedAttachment sweep id declaredKind rfl rfl rfl
  | sweep sweep => exact .effect sweep rfl (.swept rfl rfl)
  | deleteComparison id =>
    rw [Service.step]
    split_ifs
    · exact .deletedComparison id rfl rfl rfl
    · exact .same rfl rfl
  | resolve sweep id declaredKind kind => exact .effect sweep rfl (resolve_effect sweep id declaredKind kind world.state)
  | dropLease index =>
    rw [Service.step, dropLease]
    split
    · next data found =>
      obtain ⟨bytes, underflow, same⟩ := dropData_eq { world.state with leases := world.state.leases.eraseIdx index } data
      rw [same]
      exact .same rfl rfl
    · exact .same rfl rfl
  | admitCompare admission before after beforeLabel afterLabel originBytes =>
    rw [Service.step, admitCompare]
    split
    · exact .same rfl rfl
    · exact .effect _ rfl (admitJob_effect admission compareFull _ world)
  | admitApplyPatch admission target patch => exact .effect _ rfl (admitJob_effect admission applyPatchFull _ world)
  | finishCompare index completion engine =>
    rw [Service.step, finishCompare]
    split
    · dsimp only
      split
      · next summary after success =>
        obtain ⟨computed, stored, -, -, -, -, -, -, absent, rfl⟩ := publishComparison_ok success
        exact .compared _ _ absent rfl rfl
      · exact .same rfl rfl
    · exact .same rfl rfl
  | finishApplyPatch index publication late engine =>
    exact .effect _ rfl (finishApplyPatch_effect index publication late engine world)
  | exportPatch publication comparison => exact .effect _ rfl (export_effect publication comparison world.state)
  | release index =>
    obtain ⟨attachments, entries⟩ := releaseReservation_maps index world
    exact .same attachments entries
  | endJob index =>
    rw [Service.step, endJob]
    split
    · split_ifs <;> exact .same rfl rfl
    · exact .same rfl rfl
  | shutdown => exact .same rfl rfl
  | stop => exact .same rfl rfl
  | clearEntries =>
    rw [Service.step]
    split_ifs <;> exact .clearedEntries rfl rfl
  | clearAttachments =>
    rw [Service.step]
    split_ifs
    · obtain ⟨bytes, underflow, retained⟩ := retainAttachments_eq world.state fun _ _ => false
      rw [retained]
      exact .clearedAttachments rfl rfl
    · exact .clearedAttachments rfl rfl

theorem step_keeps_comparison {world : World} {event : Service.Event} {id : Str} {stored : Stored}
    (present : world.state.entries.get id = some stored) (spares : SparesComparison id stored.expires event)
    (alive : ∀ sweep, sweepOf event = some sweep → sweep.cancelled stored.caller = false) :
    (Service.step json world event).state.entries.get id = some stored := by
  cases step_changes json world event with
  | same attachments entries => rw [entries]; exact present
  | effect sweep made effect => exact effect.keeps_comparison present (spares.early sweep made) (alive sweep made)
  | deletedAttachment sweep other declaredKind deletes attachments entries =>
    have made : sweepOf event = some sweep := by rw [deletes]; rfl
    rw [entries]
    exact expire_keeps_comparison present (spares.early sweep made) (alive sweep made)
  | deletedComparison other deletes attachments entries =>
    have different : id ≠ other := by
      rintro rfl
      exact spares.undeleted deletes
    rw [entries, Map.get_remove_of_ne _ different]
    exact present
  | compared other new absent attachments entries =>
    have different : id ≠ other := by
      rintro rfl
      rw [present] at absent
      cases absent
    rw [entries, Map.get_insert_of_ne _ different]
    exact present
  | clearedEntries clears attachments => exact absurd clears spares.uncleared
  | clearedAttachments clears entries => rw [entries]; exact present

theorem step_keeps_attachment {world : World} {event : Service.Event} {id : Str} {entry : StoredAttachment}
    (present : world.state.attachments.get id = some entry) (sealed : entry.summary.sealed = true)
    (spares : SparesAttachment id entry.expires event) :
    (Service.step json world event).state.attachments.get id = some entry := by
  cases step_changes json world event with
  | same attachments entries => rw [attachments]; exact present
  | effect sweep made effect => exact effect.keeps_attachment present sealed (spares.early sweep made)
  | deletedAttachment sweep other declaredKind deletes attachments entries =>
    have made : sweepOf event = some sweep := by rw [deletes]; rfl
    have different : id ≠ other := by
      rintro rfl
      exact spares.undeleted sweep declaredKind deletes
    rw [attachments, Map.get_remove_of_ne _ different]
    exact expire_keeps_attachment present (spares.early sweep made)
  | deletedComparison other deletes attachments entries => rw [attachments]; exact present
  | compared other new absent attachments entries => rw [attachments]; exact present
  | clearedEntries clears attachments => rw [attachments]; exact present
  | clearedAttachments clears entries => exact absurd clears spares.uncleared

/-! ## Runs -/

/-- The events in which the job or the call of a lease gives its own result up. -/
def givesUp (token : ℕ) : Event → Bool
  | .deliver other _ | .close other _ => other = token
  | _ => false

/-- In every event of a run, the sections spare something; what job and call of `token` do with their
own result is not restricted. -/
def Spared (json : Paging.SerdeJson) (spares : Service.Event → Prop) (token : ℕ) : System → List Event → Prop
  | _, [] => True
  | system, event :: events =>
    (givesUp token event = false → ∀ part ∈ sections system event, spares part) ∧
      Spared json spares token (step json system event) events

theorem sections_cancelled {system : System} {event : Event} {part : Service.Event} (member : part ∈ sections system event)
    {sweep : Sweep} (made : sweepOf part = some sweep) : sweep.cancelled = system.cancelled := by
  have back (sweep' : Sweep) (bearer : Bearer) (made : sweepOf (takeBack system.cancelled sweep' bearer) = some sweep) :
      sweep.cancelled = system.cancelled := by
    cases bearer with
    | comparison id => cases made
    | attachment id allocation => cases made; rfl
  cases event with
  | service event =>
    rw [sections] at member
    split_ifs at member
    · cases member
    · obtain rfl := List.mem_singleton.mp member
      cases event <;> cases made <;> rfl
  | finishCompare token completion engine =>
    rw [sections] at member
    split at member
    · obtain rfl := List.mem_singleton.mp member
      cases made
    · cases member
  | finishApplyPatch token publication engine =>
    rw [sections] at member
    split at member
    · obtain rfl := List.mem_singleton.mp member
      cases made
      rfl
    · cases member
  | deliver token other =>
    rw [sections] at member
    split at member
    · split_ifs at member
      · cases member
      · obtain rfl := List.mem_singleton.mp member
        exact back _ _ made
    · cases member
  | close token other =>
    rw [sections] at member
    split at member
    · obtain rfl := List.mem_singleton.mp member
      exact back _ _ made
    · cases member
  | check token deadline => cases member
  | receive token => cases member
  | fail token => cases member

/-- A call that goes on keeps its own result. -/
theorem sections_of_givesUp {system : System} (owned : Owned system) {event : Event} {token : ℕ}
    (own : givesUp token event = true) {next : Call} (after : (step json system event).calls[token]? = some next)
    (alive : next.Alive) : sections system event = [] := by
  cases event with
  | deliver other sweep =>
    obtain rfl : other = token := of_decide_eq_true own
    rw [sections]
    split
    · next phase bearer sent created found =>
      split_ifs with waiting
      · rfl
      · exfalso
        obtain ⟨call, here, ⟨-, rfl⟩ | ⟨different, -⟩⟩ := modify_inv after
        · rw [found] at here
          cases here
          have sound := owned.calls _ _ found
          cases phase with
          | waiting => exact waiting rfl
          | closing => exact alive.1 rfl
          | failed => exact alive.2 rfl
          | returned other =>
            have filled := sound.returned other rfl
            cases sound.sent (by rw [filled]; simp)
        · exact different rfl
    · rfl
  | close other sweep =>
    obtain rfl : other = token := of_decide_eq_true own
    rw [sections]
    split
    · next found =>
      obtain ⟨call, here, ⟨-, rfl⟩ | ⟨different, -⟩⟩ := modify_inv after
      · rw [found] at here
        cases here
        exact absurd rfl alive.1
      · exact absurd rfl different
    · rfl
  | _ => cases own

/-- A call that goes on at the end of a run has gone on all the time. -/
theorem run_alive {system : System} {events : List Event} {token : ℕ} {call last : Call}
    (here : system.calls[token]? = some call) (final : (run json system events).calls[token]? = some last)
    (alive : last.Alive) : call.Alive := by
  induction events generalizing system call with
  | nil =>
    rw [show run json system [] = system from rfl, here] at final
    cases final
    exact alive
  | cons event events ih =>
    obtain ⟨next, there, moves⟩ := step_calls json system event here
    exact moves.alive (ih there final)

/-- What spared sections keep under a lease that is not cancelled is kept by a run. -/
theorem run_spared (kept : World → Prop) {spares : Service.Event → Prop} {token : ℕ}
    (keeps : ∀ world part, kept world → spares part →
      (∀ sweep, sweepOf part = some sweep → sweep.cancelled token = false) → kept (Service.step json world part))
    {system : System} (owned : Owned system) (holds : kept system.world) {events : List Event}
    (spared : Spared json spares token system events) {call last : Call} (here : system.calls[token]? = some call)
    (final : (run json system events).calls[token]? = some last) (alive : last.Alive) :
    kept (run json system events).world := by
  induction events generalizing system call with
  | nil => exact holds
  | cons event events ih =>
    obtain ⟨next, there, -⟩ := step_calls json system event here
    have going := run_alive here final alive
    have nextAlive := run_alive there final alive
    have open' : system.cancelled token = false := by
      rw [System.cancelled, here]
      simpa using going.2
    have parts : ∀ part ∈ sections system event, spares part := by
      cases own : givesUp token event with
      | true =>
        rw [sections_of_givesUp owned own there nextAlive]
        simp
      | false => exact spared.1 own
    have all : kept (Service.run json system.world (sections system event)) :=
      List.foldlRecOn _ _ holds fun world holds part member =>
        keeps world part holds (parts part member) fun sweep made => by rw [sections_cancelled member made]; exact open'
    exact ih (step_owned system event owned) all spared.2 there final

theorem run_failed {system : System} {token : ℕ} (failed : system.cancelled token = true) (events : List Event) :
    (run json system events).cancelled token = true := by
  induction events generalizing system with
  | nil => exact failed
  | cons event events ih =>
    apply ih
    rw [System.cancelled, Option.any_eq_true] at failed ⊢
    obtain ⟨call, here, phase⟩ := failed
    obtain ⟨next, there, moves⟩ := step_calls json system event here
    exact ⟨next, there, by simpa using moves.failed (by simpa using phase)⟩

/-- The job of a call publishes its result in this event. -/
structure Publishes (json : Paging.SerdeJson) (system : System) (event : Event) (token : ℕ) (bearer : Bearer) : Prop where
  before : ∃ call, system.calls[token]? = some call ∧ call.created = none
  after : ∃ call, (step json system event).calls[token]? = some call ∧ call.created = some bearer

/-- Only the publication of the right job publishes. -/
theorem Publishes.cases {system : System} {event : Event} {token : ℕ} {bearer : Bearer}
    (publishes : Publishes json system event token bearer) :
    (∃ completion engine id, event = .finishCompare token completion engine ∧ (system.ready token).isSome = true ∧
        bearer = .comparison id ∧
        phaseAt (step json system event).world (system.indexOf token) = some (.finished (.ok id))) ∨
      ∃ publication engine id, event = .finishApplyPatch token publication engine ∧ (system.ready token).isSome = true ∧
        bearer = .attachment id system.world.state.allocations ∧
        phaseAt (step json system event).world (system.indexOf token) = some (.finished (.ok id)) := by
  obtain ⟨call, here, none⟩ := publishes.before
  obtain ⟨next, there, made⟩ := publishes.after
  have finished {bearerOf : Str → Bearer} {phase : Option JobPhase}
      (made : (call.finish bearerOf phase).created = some bearer) :
      ∃ id, bearer = bearerOf id ∧ phase = some (.finished (.ok id)) := by
    rw [Call.finish.eq_def] at made
    split at made
    · next result =>
      cases result with
      | error => cases made
      | ok id => cases made; exact ⟨id, rfl, rfl⟩
    · rw [none] at made
      cases made
  have same {other : Call} (found : system.calls[token]? = some other) : other = call := by
    rw [here] at found
    exact (Option.some.inj found).symm
  have unchanged {other : Call} (found : system.calls[token]? = some other)
      (made : other.created = some bearer) : False := by
    rw [same found, none] at made
    cases made
  cases event with
  | service event =>
    exfalso
    simp only [step, updateCalls] at there
    split_ifs at there
    · exact unchanged there made
    · rw [List.getElem?_append_left (List.getElem?_eq_some_iff.mp here).1] at there
      exact unchanged there made
  | finishCompare other completion engine =>
    simp only [step, updateCalls] at there
    split_ifs at there with can
    · obtain ⟨old, found, ⟨rfl, rfl⟩ | ⟨-, rfl⟩⟩ := modify_inv there
      · rw [same found] at made
        obtain ⟨id, rfl, phase⟩ := finished made
        exact .inl ⟨completion, engine, id, rfl, can, rfl, phase⟩
      · exact (unchanged found made).elim
    · exact (unchanged there made).elim
  | finishApplyPatch other publication engine =>
    simp only [step, updateCalls] at there
    split_ifs at there with can
    · obtain ⟨old, found, ⟨rfl, rfl⟩ | ⟨-, rfl⟩⟩ := modify_inv there
      · rw [same found] at made
        obtain ⟨id, rfl, phase⟩ := finished made
        exact .inr ⟨publication, engine, id, rfl, can, rfl, phase⟩
      · exact (unchanged found made).elim
    · exact (unchanged there made).elim
  | _ =>
    exfalso
    obtain ⟨old, found, ⟨-, rfl⟩ | ⟨-, rfl⟩⟩ := modify_inv there
    · exact unchanged found (by simpa using made)
    · exact unchanged found made

theorem run_evolves {system : System} (owned : Owned system) (events : List Event) :
    Evolves system.world.state (run json system events).world.state := by
  induction events generalizing system with
  | nil => exact .refl _
  | cons event events ih =>
    exact (run_ready owned.ready (sections system event)).2.trans (ih (step_owned system event owned))

/-- The call of a lease has returned this handle. -/
def Returned (system : System) (token : ℕ) (bearer : Bearer) : Prop :=
  ∃ call, system.calls[token]? = some call ∧ call.phase = .returned bearer

theorem Returned.alive {system : System} {token : ℕ} {bearer : Bearer} (returned : Returned system token bearer) :
    ∃ call, system.calls[token]? = some call ∧ call.Alive := by
  obtain ⟨call, here, phase⟩ := returned
  refine ⟨call, here, ?_, ?_⟩
  · rw [phase]
    simp
  · rw [phase]
    simp

theorem Returned.cancelled {system : System} {token : ℕ} {bearer : Bearer} (returned : Returned system token bearer) :
    system.cancelled token = false := by
  obtain ⟨call, here, phase⟩ := returned
  rw [System.cancelled, here, Option.any_some, phase]
  rfl

/-- A published comparison stands under its handle and remembers its lease. -/
theorem Publishes.comparison {system : System} {event : Event} {token : ℕ} {id : Str}
    (publishes : Publishes json system event token (.comparison id)) :
    ∃ stored, stored.caller = token ∧ validHandle id = true ∧
      (step json system event).world.state.entries.get id = some stored := by
  rcases publishes.cases with ⟨completion, engine, other, rfl, can, same, success⟩ | ⟨_, _, _, -, -, impossible, -⟩
  · cases same
    obtain ⟨late, job, now, found, working, named⟩ := working_of_ready can
    have part : sections system (.finishCompare token completion engine) = [.finishCompare (system.indexOf token)
        { completion with late, lateLocked := completion.lateLocked || system.cancelled token } engine] := by
      rw [sections, now]
    simp only [step, part, run_singleton, Service.step] at success ⊢
    obtain ⟨stored, caller, handle, after⟩ := finishCompare_ok found working success
    rw [after]
    exact ⟨stored, caller.trans named, handle, Map.get_insert ..⟩
  · cases impossible

/-- A published attachment is sealed and stands under its handle. -/
theorem Publishes.attachment {system : System} {event : Event} {token : ℕ} {id : Str} {allocation : ℕ}
    (publishes : Publishes json system event token (.attachment id allocation)) :
    ∃ entry, entry.data.allocation = allocation ∧ entry.summary.sealed = true ∧ entry.summary.attachmentId = id ∧
      validHandle id = true ∧ (step json system event).world.state.attachments.get id = some entry := by
  rcases publishes.cases with ⟨_, _, _, -, -, impossible, -⟩ | ⟨publication, engine, other, rfl, can, same, success⟩
  · cases impossible
  · cases same
    obtain ⟨late, job, now, found, working, -⟩ := working_of_ready can
    have part : sections system (.finishApplyPatch token publication engine) = [.finishApplyPatch (system.indexOf token)
        { publication with sweep := under system.cancelled publication.sweep } late engine] := by
      rw [sections, now]
    simp only [step, part, run_singleton, Service.step] at success ⊢
    obtain ⟨text, charge, summary, named, sealed, handle, -, after⟩ := finishApplyPatch_ok found working success
    rw [after, insertAttachment]
    exact ⟨_, expire_allocations _ _, sealed, named, handle, Map.get_insert ..⟩

/-- What holds of bearer handles from a state on. -/
structure BearerSafe (json : Paging.SerdeJson) (system : System) : Prop where
  /-- A comparison whose call failed cannot be looked up any more. -/
  comparison_hidden : ∀ token, system.cancelled token = true → ∀ more sweep id stored,
    let later := run json system more
    (comparison (under later.cancelled sweep) id later.world.state).1 = .ok stored → stored.caller ≠ token
  /-- Until its job has handed over the result, or taken it back, a handle is with the job alone: nothing was sent to the
  call, and the call has returned none. -/
  undisclosed : ∀ (token : ℕ) (call : Call), system.calls[token]? = some call → call.task ≠ .delivered →
    call.sent = none ∧ ∀ bearer, call.phase ≠ .returned bearer
  /-- An attachment whose call failed and whose job is done is not stored any more. -/
  attachment_gone : ∀ (token : ℕ) (call : Call) id allocation, system.calls[token]? = some call → call.phase = .failed →
    call.task = .delivered → call.created = some (.attachment id allocation) → ∀ more other entry,
    (run json system more).world.state.attachments.get other = some entry → entry.data.allocation ≠ allocation
  /-- A comparison that its call returned can be looked up until it is deleted, expires or is cleared. -/
  comparison_readable : ∀ event token id, Publishes json system event token (.comparison id) →
    ∃ stored : Stored, stored.caller = token ∧ ∀ more,
      let later := run json (step json system event) more
      Spared json (SparesComparison id stored.expires) token (step json system event) more →
        Returned later token (.comparison id) → ∀ sweep, sweep.entryNow id < stored.expires →
          (summary (under later.cancelled sweep) id later.world.state).1 = .ok stored.summary
  /-- An attachment that its call returned can be read until it is deleted, expires or is cleared. -/
  attachment_readable : ∀ event token id allocation, Publishes json system event token (.attachment id allocation) →
    ∃ entry : StoredAttachment, entry.data.allocation = allocation ∧ entry.summary.attachmentId = id ∧ ∀ more,
      let later := run json (step json system event) more
      Spared json (SparesAttachment id entry.expires) token (step json system event) more →
        Returned later token (.attachment id allocation) → ∀ sweep, sweep.attachmentNow id < entry.expires →
          ∃ page, (readAttachment (under later.cancelled sweep) ⟨id, 0⟩ none later.world.state).1 = .ok page ∧
            page.attachment = entry.summary

theorem comparison_ok {sweep : Sweep} {id : Str} {state : State} {stored : Stored}
    (found : (comparison sweep id state).1 = .ok stored) : (expire sweep state).entries.get id = some stored := by
  rw [comparison] at found
  by_cases handle : (!validHandle id) = true
  · rw [if_pos handle] at found
    cases found
  · rw [if_neg handle] at found
    cases present : (expire sweep state).entries.get id with
    | none =>
      simp only [present] at found
      cases found
    | some other =>
      simp only [present] at found
      cases found
      rfl

theorem expire_entries {sweep : Sweep} {state : State} {id : Str} {stored : Stored}
    (found : (expire sweep state).entries.get id = some stored) : sweep.cancelled stored.caller = false := by
  obtain ⟨bytes, underflow, retained⟩ := retainAttachments_eq state fun id entry => entry.expires > sweep.attachmentNow id
  rw [expire, retained] at found
  dsimp only at found
  rw [Map.get_retain] at found
  obtain ⟨-, kept⟩ := Option.filter_eq_some_iff.mp found
  rw [Bool.and_eq_true, Bool.not_eq_true'] at kept
  exact kept.2

theorem bearerSafe_of_owned {system : System} (owned : Owned system) : BearerSafe json system where
  comparison_hidden := by
    intro token failed more sweep id stored later found same
    have open' := expire_entries (comparison_ok found)
    rw [same] at open'
    have closed : later.cancelled token = true := run_failed failed more
    have seen : (under later.cancelled sweep).cancelled token = later.cancelled token := rfl
    rw [seen, closed] at open'
    cases open'
  undisclosed := by
    intro token call here undelivered
    have sound := owned.calls token call here
    have unsent : call.sent = none := by
      by_contra filled
      exact undelivered (sound.sent filled)
    refine ⟨unsent, fun bearer back => ?_⟩
    rw [sound.returned bearer back] at unsent
    cases unsent
  attachment_gone := by
    intro token call id allocation here failed delivered created more other entry found same
    have attached := owned.attached token call id allocation here created
    rcases (run_evolves owned more).attachments other entry found with ⟨old, present, grown⟩ | fresh
    · rcases attached.held other old present (grown.allocation.symm.trans same) with finished | ⟨waiting, -⟩ | ⟨_, returned⟩
      · rw [delivered] at finished
        cases finished
      · rw [failed] at waiting
        cases waiting
      · rw [failed] at returned
        cases returned
    · have := attached.allocated
      omega
  comparison_readable := by
    intro event token id publishes
    obtain ⟨stored, caller, handle, present⟩ := publishes.comparison
    obtain ⟨call, there, -⟩ := publishes.after
    refine ⟨stored, caller, ?_⟩
    intro more later spared returned sweep early
    obtain ⟨last, final, alive⟩ := returned.alive
    have kept : later.world.state.entries.get id = some stored :=
      run_spared (fun world => world.state.entries.get id = some stored)
        (fun world part holds spares open' => step_keeps_comparison holds spares (caller ▸ open'))
        (step_owned system event owned) present spared there final alive
    have open' : (under later.cancelled sweep).cancelled stored.caller = false := by
      rw [caller]
      exact returned.cancelled
    have found : (expire (under later.cancelled sweep) later.world.state).entries.get id = some stored :=
      expire_keeps_comparison kept early open'
    rw [summary, comparison, handle]
    simp only [Bool.not_true, Bool.false_eq_true, if_false, found]
    rfl
  attachment_readable := by
    intro event token id allocation publishes
    obtain ⟨entry, same, sealed, named, handle, present⟩ := publishes.attachment
    obtain ⟨call, there, -⟩ := publishes.after
    refine ⟨entry, same, named, ?_⟩
    intro more later spared returned sweep early
    obtain ⟨last, final, alive⟩ := returned.alive
    have kept : later.world.state.attachments.get id = some entry :=
      run_spared (fun world => world.state.attachments.get id = some entry)
        (fun world part holds spares _ => step_keeps_attachment holds sealed spares)
        (step_owned system event owned) present spared there final alive
    have found : (expire (under later.cancelled sweep) later.world.state).attachments.get id = some entry :=
      expire_keeps_attachment kept early
    obtain ⟨middle, rest, -, -, read⟩ := readPage_ok sealed (List.nil_append entry.data.text).symm
    have result : (readAttachment (under later.cancelled sweep) ⟨id, 0⟩ none later.world.state).1 = readPage entry 0 := by
      rw [readAttachment, handle]
      simp only [Bool.not_true, Bool.false_eq_true, if_false, found]
      rfl
    rw [result]
    exact ⟨_, read, rfl⟩

/-- Bearer handles are safe in every reachable state of service, jobs and calls. -/
theorem bearer_safe (json : Paging.SerdeJson) (events : List Event) : BearerSafe json (run json {} events) :=
  bearerSafe_of_owned (run_owned start_owned events)

/-! ## Before the delivery -/

/-- A call is given up between the check of its job and the publication. -/
def givenUp : List Event :=
  let target := ['a', '\n']
  let patch := "--- before\n+++ after\n@@ -1 +1 @@\n-a\n+b\n\\ No newline at end of file\n".toList
  [.service (.admitApplyPatch ⟨quiet, false, false⟩ target patch), .check 0 false, .close 0 quiet, .fail 0,
    .finishApplyPatch 0 ⟨quiet, repeating 1, 0, 0, some 0⟩ (Patch.applyPatch target patch)]

/-- Until the job notices that nobody waits, the attachment of a failed call is stored under a handle
that only the job knows. -/
theorem undelivered_attachment_readable :
    let system := run .compact {} givenUp
    system.calls.map (·.phase) = [.failed] ∧
      (readAttachment (under system.cancelled quiet) ⟨handleOf (Vector.replicate 32 1), 0⟩ none
        system.world.state).1.toOption.map (·.text) = some ['b'] := by
  decide +kernel

end OpenLegal.TextDiff.Delivery
