import OpenLegal.TextDiff.Delivery

/-! # Who owns a published attachment

Between its publication and the return of its handle, an attachment belongs to the job, to the channel
or to the call that takes the handle out of the channel. An owner that goes away without passing the
handle on deletes the attachment, so an attachment without owner is not stored.
-/

namespace OpenLegal.TextDiff.Delivery

open Rust Rust.Str Service

variable {json : Paging.SerdeJson}

/-! ## Calls -/

/-- The channel is filled by the last act of a job, and a returned handle came out of it. -/
structure Call.Sound (call : Call) : Prop where
  sent : call.sent ≠ none → call.task = .delivered
  returned : ∀ bearer, call.phase = .returned bearer → call.sent = some (.ok bearer)

/-- The call has not given up. -/
def Call.Alive (call : Call) : Prop := call.phase ≠ .closing ∧ call.phase ≠ .failed

/-- What an event does to one call: nothing, or one of the six transitions. -/
inductive Call.Moves (call : Call) : Call → Prop where
  | stay : call.Moves call
  | check (late : Bool) : call.Moves (call.check late)
  | finish (bearer : Str → Bearer) (phase : Option JobPhase) (checked : ∃ late, call.task = .checked late) :
      call.Moves (call.finish bearer phase)
  | deliver : call.Moves call.deliver
  | receive : call.Moves call.receive
  | close : call.Moves call.close
  | fail : call.Moves call.fail

theorem Call.Moves.sound {call next : Call} (moves : call.Moves next) (sound : call.Sound) : next.Sound := by
  obtain ⟨sent, returned⟩ := sound
  cases moves with
  | stay => exact ⟨sent, returned⟩
  | check late =>
    rw [Call.check]
    split_ifs with working
    · refine ⟨fun filled => ?_, returned⟩
      rw [sent filled] at working
      cases working
    · exact ⟨sent, returned⟩
  | finish bearer phase checked =>
    obtain ⟨late, checked⟩ := checked
    rw [Call.finish.eq_def]
    split
    · refine ⟨fun filled => ?_, returned⟩
      rw [sent filled] at checked
      cases checked
    · exact ⟨sent, returned⟩
  | deliver =>
    rw [Call.deliver]
    split
    · next result finished =>
      refine ⟨fun _ => rfl, fun id back => ?_⟩
      have delivered := sent (by rw [returned id back]; simp)
      rw [delivered] at finished
      cases finished
    · exact ⟨sent, returned⟩
  | receive =>
    rw [Call.receive]
    split
    · next id waiting filled =>
      exact ⟨sent, by rintro other ⟨⟩; exact filled⟩
    · exact ⟨sent, by rintro other ⟨⟩⟩
    · exact ⟨sent, returned⟩
  | close =>
    rw [Call.close]
    split_ifs
    · exact ⟨sent, by rintro other ⟨⟩⟩
    · exact ⟨sent, returned⟩
  | fail =>
    rw [Call.fail]
    split_ifs
    · exact ⟨sent, by rintro other ⟨⟩⟩
    · exact ⟨sent, returned⟩

/-- A call that has given up stays so. -/
theorem Call.Moves.alive {call next : Call} (moves : call.Moves next) (alive : next.Alive) : call.Alive := by
  cases moves with
  | stay => exact alive
  | check late =>
    rw [Call.check] at alive
    split_ifs at alive <;> exact alive
  | finish bearer phase checked =>
    rw [Call.finish.eq_def] at alive
    split at alive <;> exact alive
  | deliver =>
    rw [Call.deliver] at alive
    split at alive <;> exact alive
  | receive =>
    rw [Call.receive] at alive
    split at alive
    · next waiting _ => exact ⟨by rw [waiting]; simp, by rw [waiting]; simp⟩
    · exact absurd rfl alive.2
    · exact alive
  | close =>
    rw [Call.close] at alive
    split_ifs at alive
    · exact absurd rfl alive.1
    · exact alive
  | fail =>
    rw [Call.fail] at alive
    split_ifs at alive
    · exact absurd rfl alive.2
    · exact alive

/-- A lease that is cancelled stays cancelled. -/
theorem Call.Moves.failed {call next : Call} (moves : call.Moves next) (failed : call.phase = .failed) :
    next.phase = .failed := by
  cases moves with
  | stay => exact failed
  | check late =>
    rw [Call.check]
    split_ifs <;> exact failed
  | finish bearer phase checked =>
    rw [Call.finish.eq_def]
    split <;> exact failed
  | deliver =>
    rw [Call.deliver]
    split <;> exact failed
  | receive =>
    rw [Call.receive]
    split
    · next waiting _ => rw [failed] at waiting; cases waiting
    · rfl
    · exact failed
  | close =>
    rw [Call.close, if_neg (by rw [failed]; simp)]
    exact failed
  | fail =>
    rw [Call.fail, if_neg (by rw [failed]; simp)]
    exact failed

theorem checked_of_ready {system : System} {token : ℕ} {call : Call} (here : system.calls[token]? = some call)
    (ready : (system.ready token).isSome = true) : ∃ late, call.task = .checked late := by
  rw [System.ready, here] at ready
  split at ready
  · next late _ _ same _ =>
    cases same
    exact ⟨_, rfl⟩
  · cases ready

/-- Every event moves every call. -/
theorem step_calls (json : Paging.SerdeJson) (system : System) (event : Event) {token : ℕ} {call : Call}
    (here : system.calls[token]? = some call) :
    ∃ next, (step json system event).calls[token]? = some next ∧ call.Moves next := by
  have moved (other : ℕ) (f : Call → Call) (moves : token = other → call.Moves (f call)) :
      ∃ next, (system.calls.modify other f)[token]? = some next ∧ call.Moves next := by
    rw [List.getElem?_modify, here]
    by_cases same : other = token
    · exact ⟨f call, by simp [same], moves same.symm⟩
    · exact ⟨call, by simp [same], .stay⟩
  cases event with
  | service event =>
    refine ⟨call, ?_, .stay⟩
    simp only [step, updateCalls]
    split_ifs
    · exact here
    · rw [List.getElem?_append_left (List.getElem?_eq_some_iff.mp here).1]
      exact here
  | check other deadline => exact moved other _ fun _ => .check _
  | finishCompare other completion engine =>
    simp only [step, updateCalls]
    split_ifs with ready
    · exact moved other _ fun same => .finish _ _ (checked_of_ready here (same ▸ ready))
    · exact ⟨call, here, .stay⟩
  | finishApplyPatch other publication engine =>
    simp only [step, updateCalls]
    split_ifs with ready
    · exact moved other _ fun same => .finish _ _ (checked_of_ready here (same ▸ ready))
    · exact ⟨call, here, .stay⟩
  | deliver other sweep => exact moved other _ fun _ => .deliver
  | receive other => exact moved other _ fun _ => .receive
  | close other sweep => exact moved other _ fun _ => .close
  | fail other => exact moved other _ fun _ => .fail

/-- Every call after an event was there before, or is new. -/
theorem step_calls_inv {system : System} {event : Event} {token : ℕ} {next : Call}
    (here : (step json system event).calls[token]? = some next) :
    (∃ call, system.calls[token]? = some call ∧ call.Moves next) ∨ (system.calls[token]? = none ∧ next = {}) := by
  cases found : system.calls[token]? with
  | some call =>
    obtain ⟨other, there, moves⟩ := step_calls json system event found
    rw [here] at there
    cases there
    exact .inl ⟨call, rfl, moves⟩
  | none =>
    refine .inr ⟨rfl, ?_⟩
    have outside := List.getElem?_eq_none_iff.mp found
    have absent (other : ℕ) (f : Call → Call) : (system.calls.modify other f)[token]? = none := by
      rw [List.getElem?_modify, found]
      rfl
    cases event with
    | service event =>
      simp only [step, updateCalls] at here
      split_ifs at here
      · rw [found] at here
        cases here
      · rw [List.getElem?_append_right outside] at here
        exact (List.mem_singleton.mp (List.mem_of_getElem? here))
    | finishCompare other completion engine =>
      simp only [step, updateCalls] at here
      split_ifs at here
      · rw [absent] at here
        cases here
      · rw [found] at here
        cases here
    | finishApplyPatch other publication engine =>
      simp only [step, updateCalls] at here
      split_ifs at here
      · rw [absent] at here
        cases here
      · rw [found] at here
        cases here
    | _ =>
      simp only [step, updateCalls] at here
      rw [absent] at here
      cases here

/-! ## Publications -/

theorem publishAttachment_ok {publication : Publication} {text : Str} {kind : AttachmentKind} {state after : State}
    {summary : AttachmentSummary} (success : publishAttachment publication text kind state = (.ok summary, after)) :
    (expire publication.sweep state).attachments.get summary.attachmentId = none ∧
      validHandle summary.attachmentId = true ∧ summary.sealed = true ∧
      ∃ charge, after = insertAttachment (expire publication.sweep state) summary.attachmentId text charge summary
        (publication.instant + retention) := by
  rw [publishAttachment] at success
  split at success
  · cases success
  dsimp only at success
  split_ifs at success
  · cases success
  · cases success
  split at success
  · cases success
  · next id fresh =>
    cases success
    obtain ⟨absent, -, handle⟩ := freshAttachmentId_ok fresh
    exact ⟨absent, handle, rfl, _, rfl⟩

theorem expire_allocations (sweep : Sweep) (state : State) : (expire sweep state).allocations = state.allocations := by
  obtain ⟨keep, keepEntry, bytes, underflow, same⟩ := expire_eq sweep state
  rw [same]

/-- A job of the second kind that succeeds has stored a sealed attachment under a fresh handle. -/
theorem finishApplyPatch_ok {index : ℕ} {publication : Publication} {late : Bool} {engine : Except TextDiffError Str}
    {world : World} {job : Job} (here : world.jobs[index]? = some job) (working : job.phase = .working) {id : Str}
    (success : phaseAt (finishApplyPatch index publication late engine world) index = some (.finished (.ok id))) :
    ∃ text charge summary, summary.attachmentId = id ∧ summary.sealed = true ∧ validHandle id = true ∧
      (expire publication.sweep world.state).attachments.get id = none ∧
      (finishApplyPatch index publication late engine world).state =
        insertAttachment (expire publication.sweep world.state) id text charge summary
          (publication.instant + retention) := by
  obtain ⟨inside, -⟩ := List.getElem?_eq_some_iff.mp here
  obtain ⟨input, token, phase⟩ := job
  obtain rfl : phase = .working := working
  rw [finishApplyPatch, here] at success ⊢
  cases input with
  | compare before after beforeInfo afterInfo originBytes =>
    rw [phaseAt, here] at success
    cases success
  | applyPatch target patch =>
    dsimp only at success ⊢
    split at success
    · rw [phaseAt, List.getElem?_set_self inside] at success
      cases success
    · next text checked =>
      cases outcome : publishAttachment publication text .text world.state with
      | mk result after =>
        rw [outcome, phaseAt, List.getElem?_set_self inside] at success
        cases result with
        | error error => cases success
        | ok summary =>
          cases success
          obtain ⟨absent, handle, sealed, charge, rfl⟩ := publishAttachment_ok outcome
          exact ⟨text, charge, summary, rfl, sealed, handle, absent, rfl⟩

theorem publishComparison_handle {completion : Completion} {engine : Except TextDiffError ComputedDiff}
    {before after : Str} {beforeInfo afterInfo : TextInfo} {originBytes token : ℕ} {state final : State}
    {summary : ComparisonSummary}
    (success : publishComparison json completion engine before after beforeInfo afterInfo originBytes token state =
      .ok (summary, final)) : validHandle summary.comparisonId = true := by
  simp only [publishComparison, bind_eq_ok, ite_error_eq_ok] at success
  obtain ⟨computed, ran, -, short, ⟨changes, additions, deletions⟩, checked, -, id, fresh, -, retained, -, fits,
    success⟩ := success
  cases success
  obtain ⟨-, bytes, rfl⟩ := firstFresh_ok fresh
  exact validHandle_handleOf bytes

/-- A job of the first kind that succeeds has stored a comparison under its own lease. -/
theorem finishCompare_ok {index : ℕ} {completion : Completion} {engine : Except TextDiffError ComputedDiff}
    {world : World} {job : Job} (here : world.jobs[index]? = some job) (working : job.phase = .working) {id : Str}
    (success : phaseAt (finishCompare json index completion engine world) index = some (.finished (.ok id))) :
    ∃ stored, stored.caller = job.token ∧ validHandle id = true ∧
      (finishCompare json index completion engine world).state =
        { world.state with entries := world.state.entries.insert id stored } := by
  obtain ⟨inside, -⟩ := List.getElem?_eq_some_iff.mp here
  obtain ⟨input, token, phase⟩ := job
  obtain rfl : phase = .working := working
  rw [finishCompare, here] at success ⊢
  cases input with
  | applyPatch target patch =>
    rw [phaseAt, here] at success
    cases success
  | compare before after beforeInfo afterInfo originBytes =>
    dsimp only at success ⊢
    split at success
    · next summary after published =>
      rw [phaseAt, List.getElem?_set_self inside] at success
      cases success
      obtain ⟨computed, stored, -, -, -, -, caller, -, -, same⟩ := publishComparison_ok published
      exact ⟨stored, caller, publishComparison_handle published, same⟩
    · rw [phaseAt, List.getElem?_set_self inside] at success
      cases success

/-! ## Attachments -/

/-- The attachment that a job published stands under its own handle only, and only as long as the job
holds the result, the channel holds it for a waiting call, or the call has returned it. -/
structure Attached (call : Call) (id : Str) (allocation : ℕ) (state : State) : Prop where
  handle : validHandle id = true
  allocated : allocation < state.allocations
  settled : call.task = .finished (.ok (.attachment id allocation)) ∨ call.task = .delivered
  sent : ∀ result, call.sent = some result → result = .ok (.attachment id allocation)
  key : ∀ other entry, state.attachments.get other = some entry → entry.data.allocation = allocation → other = id
  held : ∀ other entry, state.attachments.get other = some entry → entry.data.allocation = allocation →
    call.task = .finished (.ok (.attachment id allocation)) ∨ (call.phase = .waiting ∧ call.sent ≠ none) ∨
      ∃ bearer, call.phase = .returned bearer

/-- Other sections do not bring the attachment back. -/
theorem Attached.evolve {call : Call} {id : Str} {allocation : ℕ} {before after : State}
    (attached : Attached call id allocation before) (evolves : Evolves before after) :
    Attached call id allocation after := by
  have back (other : Str) (later : StoredAttachment) (found : after.attachments.get other = some later)
      (same : later.data.allocation = allocation) :
      ∃ entry, before.attachments.get other = some entry ∧ entry.data.allocation = allocation := by
    rcases evolves.attachments other later found with ⟨entry, present, grown⟩ | fresh
    · exact ⟨entry, present, grown.allocation.symm.trans same⟩
    · have := attached.allocated
      omega
  refine { attached with allocated := attached.allocated.trans_le evolves.allocations, key := ?_, held := ?_ }
  · intro other later found same
    obtain ⟨entry, present, same⟩ := back other later found same
    exact attached.key other entry present same
  · intro other later found same
    obtain ⟨entry, present, same⟩ := back other later found same
    exact attached.held other entry present same

theorem get_deleteAttachment (sweep : Sweep) {id : Str} (handle : validHandle id = true) (state : State) :
    (deleteAttachment sweep id none state).2.attachments.get id = none := by
  have declared (kind : AttachmentKind) : checkDeclaredKind none kind = .ok () := rfl
  rw [deleteAttachment, handle]
  dsimp only
  cases found : (expire sweep state).attachments.get id with
  | none => exact found
  | some entry =>
    obtain ⟨bytes, underflow, removed⟩ := removeAttachment_eq id (expire sweep state)
    simp only [declared, Bool.not_true, Bool.false_eq_true, if_false, removed, Map.get_remove]

/-- A call that gives up, or a job whose call has given up, deletes what it holds. -/
theorem Attached.gone {call next : Call} {id : Str} {allocation : ℕ} {state : State}
    (attached : Attached call id allocation state) (settled : next.task = .delivered ∨ next.task = call.task)
    (sent : next.sent = call.sent) (deleted : state.attachments.get id = none) : Attached next id allocation state := by
  have none (other : Str) (entry : StoredAttachment) (found : state.attachments.get other = some entry)
      (same : entry.data.allocation = allocation) : False := by
    rw [attached.key other entry found same, deleted] at found
    cases found
  refine { attached with settled := ?_, sent := ?_, held := fun other entry found same => (none other entry found same).elim }
  · rcases settled with settled | settled
    · exact .inr settled
    · rw [settled]
      exact attached.settled
  · rw [sent]
    exact attached.sent

theorem Attached.check {call : Call} {id : Str} {allocation : ℕ} {state : State}
    (attached : Attached call id allocation state) (late : Bool) : Attached (call.check late) id allocation state := by
  rw [Call.check, if_neg]
  · exact attached
  · intro working
    rcases attached.settled with settled | settled
    · rw [working] at settled
      cases settled
    · rw [working] at settled
      cases settled

theorem Attached.not_checked {call : Call} {id : Str} {allocation : ℕ} {state : State}
    (attached : Attached call id allocation state) : ¬∃ late, call.task = .checked late := by
  rintro ⟨late, checked⟩
  rcases attached.settled with settled | settled
  · rw [checked] at settled
    cases settled
  · rw [checked] at settled
    cases settled

theorem Attached.deliver {call : Call} {id : Str} {allocation : ℕ} {state : State}
    (attached : Attached call id allocation state)
    (deleted : call.task = .finished (.ok (.attachment id allocation)) → call.phase ≠ .waiting →
      state.attachments.get id = none) : Attached call.deliver id allocation state := by
  rcases attached.settled with finished | done
  · by_cases waiting : call.phase = .waiting
    · rw [Call.deliver, finished]
      dsimp only
      rw [if_pos waiting]
      refine { attached with settled := .inr rfl, sent := ?_, held := fun _ _ _ _ => .inr (.inl ⟨waiting, ?_⟩) }
      · rintro result ⟨⟩
        rfl
      · simp
    · refine attached.gone (.inl ?_) ?_ (deleted finished waiting)
      · rw [Call.deliver, finished]
      · rw [Call.deliver, finished]
        dsimp only
        rw [if_neg waiting]
  · rw [Call.deliver, done]
    exact attached

theorem Attached.receive {call : Call} {id : Str} {allocation : ℕ} {state : State}
    (attached : Attached call id allocation state) : Attached call.receive id allocation state := by
  rw [Call.receive]
  split
  · next bearer waiting filled => exact { attached with held := fun _ _ _ _ => .inr (.inr ⟨bearer, rfl⟩) }
  · next error waiting filled => cases attached.sent _ filled
  · exact attached

theorem Attached.close {call : Call} {id : Str} {allocation : ℕ} {state : State}
    (attached : Attached call id allocation state)
    (deleted : call.phase = .waiting → call.sent = some (.ok (.attachment id allocation)) →
      state.attachments.get id = none) : Attached call.close id allocation state := by
  rw [Call.close]
  split_ifs with waiting
  · rcases Option.eq_none_or_eq_some call.sent with empty | ⟨result, filled⟩
    · refine { attached with held := fun other entry found same => ?_ }
      rcases attached.held other entry found same with finished | ⟨-, sent⟩ | ⟨bearer, returned⟩
      · exact .inl finished
      · exact absurd empty sent
      · rw [waiting] at returned
        cases returned
    · rw [attached.sent result filled] at filled
      exact attached.gone (.inr rfl) rfl (deleted waiting filled)
  · exact attached

theorem Attached.fail {call : Call} {id : Str} {allocation : ℕ} {state : State}
    (attached : Attached call id allocation state) : Attached call.fail id allocation state := by
  rw [Call.fail]
  split_ifs with closing
  · refine { attached with held := fun other entry found same => ?_ }
    rcases attached.held other entry found same with finished | ⟨waiting, -⟩ | ⟨bearer, returned⟩
    · exact .inl finished
    · rw [closing] at waiting
      cases waiting
    · rw [closing] at returned
      cases returned
  · exact attached

/-- A reachable system: calls are sound, and what they published is held by exactly one owner. -/
structure Owned (system : System) : Prop where
  ready : Ready system.world
  calls : ∀ (token : ℕ) (call : Call), system.calls[token]? = some call → call.Sound
  attached : ∀ (token : ℕ) (call : Call) (id : Str) (allocation : ℕ), system.calls[token]? = some call →
    call.created = some (.attachment id allocation) → Attached call id allocation system.world.state

theorem run_singleton (world : World) (event : Service.Event) :
    Service.run json world [event] = Service.step json world event := rfl

theorem modify_inv {calls : List Call} {other token : ℕ} {f : Call → Call} {next : Call}
    (here : (calls.modify other f)[token]? = some next) :
    ∃ call, calls[token]? = some call ∧ ((other = token ∧ next = f call) ∨ (other ≠ token ∧ next = call)) := by
  rw [List.getElem?_modify] at here
  obtain ⟨call, found, same⟩ := Option.map_eq_some_iff.mp here
  refine ⟨call, found, ?_⟩
  split_ifs at same with equal
  · exact .inl ⟨equal, same.symm⟩
  · exact .inr ⟨equal, same.symm⟩

theorem working_of_ready {system : System} {token : ℕ} (ready : (system.ready token).isSome = true) :
    ∃ late job, system.ready token = some late ∧ system.world.jobs[system.indexOf token]? = some job ∧
      job.phase = .working ∧ job.token = token := by
  cases found : system.world.jobs[system.indexOf token]? with
  | none =>
    rw [System.ready, found] at ready
    split at ready
    · next impossible => cases impossible
    · cases ready
  | some job =>
    obtain ⟨late, now⟩ := Option.isSome_iff_exists.mp ready
    refine ⟨late, job, now, rfl, ?_, ?_⟩
    · rw [System.ready, found] at now
      split at now
      · next same => cases same; rfl
      · cases now
    · obtain ⟨inside, same⟩ := List.getElem?_eq_some_iff.mp found
      have named : decide (system.world.jobs[system.indexOf token].token = token) = true :=
        List.findIdx_getElem (p := fun job : Job => decide (job.token = token)) (w := inside)
      rw [same] at named
      exact of_decide_eq_true named

/-- What a finished job published is the attachment that it just stored. -/
theorem attached_of_finish {system : System} (ready : Ready system.world) {token : ℕ} {call : Call}
    {publication : Publication} {engine : Except TextDiffError Str} (sound : call.Sound)
    (here : system.calls[token]? = some call) (can : (system.ready token).isSome = true) {id : Str} {allocation : ℕ}
    (created : (call.finish (.attachment · system.world.state.allocations) (phaseAt
      (Service.run json system.world (sections system (.finishApplyPatch token publication engine)))
        (system.indexOf token))).created = some (.attachment id allocation))
    (fresh : call.created ≠ some (.attachment id allocation)) :
    Attached (call.finish (.attachment · system.world.state.allocations) (phaseAt
      (Service.run json system.world (sections system (.finishApplyPatch token publication engine)))
        (system.indexOf token))) id allocation
      (Service.run json system.world (sections system (.finishApplyPatch token publication engine))).state := by
  obtain ⟨late, job, now, found, working, -⟩ := working_of_ready can
  obtain ⟨passed, checked⟩ := checked_of_ready here can
  have empty : call.sent = none := by
    by_contra filled
    rw [sound.sent filled] at checked
    cases checked
  have section_eq : sections system (.finishApplyPatch token publication engine) = [.finishApplyPatch (system.indexOf token)
      { publication with sweep := under system.cancelled publication.sweep } late engine] := by
    rw [sections, now]
  rw [section_eq, run_singleton, Service.step] at created ⊢
  generalize outcome : phaseAt (finishApplyPatch (system.indexOf token)
    { publication with sweep := under system.cancelled publication.sweep } late engine system.world)
      (system.indexOf token) = phase at created ⊢
  cases phase with
  | none => exact absurd created fresh
  | some phase =>
    cases phase with
    | working => exact absurd created fresh
    | released => exact absurd created fresh
    | finished result =>
      cases result with
      | error error => cases created
      | ok handle =>
        cases created
        obtain ⟨text, charge, summary, named, -, valid, absent, stored⟩ := finishApplyPatch_ok found working outcome
        have old (other : Str) (entry : StoredAttachment)
            (present : (expire (under system.cancelled publication.sweep) system.world.state).attachments.get other =
              some entry) : entry.data.allocation ≠ system.world.state.allocations :=
          (ready.sound.allocated other entry (get_of_get_expire present)).ne
        rw [stored]
        refine ⟨valid, ?_, .inl rfl, ?_, ?_, fun _ _ _ _ => .inl rfl⟩
        · rw [insertAttachment]
          dsimp only
          rw [expire_allocations]
          exact Nat.lt_succ_self _
        · intro result filled
          rw [Call.finish, empty] at filled
          cases filled
        · intro other entry present same
          by_contra different
          rw [insertAttachment] at present
          dsimp only at present
          rw [Map.get_insert_of_ne _ different] at present
          exact old other entry present same

@[simp] theorem Call.created_check (call : Call) (late : Bool) : (call.check late).created = call.created := by
  rw [Call.check]
  split_ifs <;> rfl

@[simp] theorem Call.created_deliver (call : Call) : call.deliver.created = call.created := by
  rw [Call.deliver]
  split <;> rfl

@[simp] theorem Call.created_receive (call : Call) : call.receive.created = call.created := by
  rw [Call.receive]
  split <;> rfl

@[simp] theorem Call.created_close (call : Call) : call.close.created = call.created := by
  rw [Call.close]
  split_ifs <;> rfl

@[simp] theorem Call.created_fail (call : Call) : call.fail.created = call.created := by
  rw [Call.fail]
  split_ifs <;> rfl

theorem Call.finish_created {call : Call} {bearer : Str → Bearer} {phase : Option JobPhase} {result : Bearer}
    (created : (call.finish bearer phase).created = some result) :
    (∃ id, result = bearer id) ∨ call.finish bearer phase = call := by
  rw [Call.finish.eq_def] at created ⊢
  split at created
  · next outcome =>
    cases outcome with
    | error => cases created
    | ok id =>
      cases created
      exact .inl ⟨id, rfl⟩
  · exact .inr rfl

/-- Every event keeps one owner for each published attachment. -/
theorem step_attached {system : System} (owned : Owned system) {event : Event} {token : ℕ} {next : Call} {id : Str}
    {allocation : ℕ} (here : (step json system event).calls[token]? = some next)
    (created : next.created = some (.attachment id allocation)) :
    Attached next id allocation (step json system event).world.state := by
  have evolves : Evolves system.world.state (step json system event).world.state :=
    (run_ready owned.ready (sections system event)).2
  have later {call : Call} (found : system.calls[token]? = some call)
      (created : call.created = some (.attachment id allocation)) :
      Attached call id allocation (step json system event).world.state :=
    (owned.attached token call id allocation found created).evolve evolves
  cases event with
  | service event =>
    simp only [step, updateCalls] at here
    split_ifs at here
    · exact later here created
    · by_cases inside : token < system.calls.length
      · rw [List.getElem?_append_left inside] at here
        exact later here created
      · rw [List.getElem?_append_right (by omega)] at here
        rw [List.mem_singleton.mp (List.mem_of_getElem? here)] at created
        cases created
  | check other deadline =>
    obtain ⟨call, found, ⟨rfl, rfl⟩ | ⟨-, rfl⟩⟩ := modify_inv here
    · rw [Call.created_check] at created
      exact (later found created).check _
    · exact later found created
  | finishCompare other completion engine =>
    simp only [step, updateCalls] at here
    split_ifs at here with can
    · obtain ⟨call, found, ⟨rfl, rfl⟩ | ⟨-, rfl⟩⟩ := modify_inv here
      · rcases Call.finish_created created with ⟨id, impossible⟩ | same
        · cases impossible
        · rw [same] at created ⊢
          exact later found created
      · exact later found created
    · exact later here created
  | finishApplyPatch other publication engine =>
    simp only [step, updateCalls] at here
    split_ifs at here with can
    · obtain ⟨call, found, ⟨rfl, rfl⟩ | ⟨-, rfl⟩⟩ := modify_inv here
      · refine attached_of_finish owned.ready (owned.calls _ _ found) found can created fun already => ?_
        exact (owned.attached _ _ _ _ found already).not_checked (checked_of_ready found can)
      · exact later found created
    · exact later here created
  | deliver other sweep =>
    obtain ⟨call, found, ⟨rfl, rfl⟩ | ⟨-, rfl⟩⟩ := modify_inv here
    · rw [Call.created_deliver] at created
      have before := later found created
      refine before.deliver fun finished gone => ?_
      rcases call with ⟨phase, task, sent, made⟩
      dsimp only at finished gone
      subst finished
      simp only [step, sections, found, if_neg gone, takeBack, run_singleton, Service.step]
      exact get_deleteAttachment _ before.handle _
    · exact later found created
  | receive other =>
    obtain ⟨call, found, ⟨rfl, rfl⟩ | ⟨-, rfl⟩⟩ := modify_inv here
    · rw [Call.created_receive] at created
      exact (later found created).receive
    · exact later found created
  | close other sweep =>
    obtain ⟨call, found, ⟨rfl, rfl⟩ | ⟨-, rfl⟩⟩ := modify_inv here
    · rw [Call.created_close] at created
      have before := later found created
      refine before.close fun waiting filled => ?_
      rcases call with ⟨phase, task, sent, made⟩
      dsimp only at waiting filled
      subst waiting filled
      simp only [step, sections, found, takeBack, run_singleton, Service.step]
      exact get_deleteAttachment _ before.handle _
    · exact later found created
  | fail other =>
    obtain ⟨call, found, ⟨rfl, rfl⟩ | ⟨-, rfl⟩⟩ := modify_inv here
    · rw [Call.created_fail] at created
      exact (later found created).fail
    · exact later found created

theorem step_owned (system : System) (event : Event) (owned : Owned system) : Owned (step json system event) := by
  refine ⟨(run_ready owned.ready (sections system event)).1, ?_, ?_⟩
  · intro token next here
    rcases step_calls_inv here with ⟨call, found, moves⟩ | ⟨-, rfl⟩
    · exact moves.sound (owned.calls token call found)
    · exact ⟨by simp, by rintro _ ⟨⟩⟩
  · exact fun token next id allocation here created => step_attached owned here created

theorem run_owned {system : System} (owned : Owned system) (events : List Event) : Owned (run json system events) := by
  induction events generalizing system with
  | nil => exact owned
  | cons event events ih => exact ih (step_owned system event owned)

theorem start_owned : Owned {} where
  ready := ready_start
  calls := fun _ _ found => by cases found
  attached := fun _ _ _ _ found => by cases found

end OpenLegal.TextDiff.Delivery
