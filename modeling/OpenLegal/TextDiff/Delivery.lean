import OpenLegal.TextDiff.AttachmentProtocol

/-! # Delivering the handle of a published result

A job publishes its result before the waiting call knows the handle. The call holds a completion
lease: it is disarmed when the call returns the handle, and cancelled when the call returns an error or
is dropped. A published comparison remembers the lease, and every lookup sweeps out comparisons whose
lease is cancelled. A published attachment is owned by its delivery, which deletes the attachment when
it is dropped before the call has taken the handle out of it.
-/

namespace OpenLegal.TextDiff.Delivery

open Rust Rust.Str Service

/-- What a job published: a comparison, or an attachment with its allocation. -/
inductive Bearer where
  | comparison (id : Str)
  | attachment (id : Str) (allocation : ℕ)
deriving DecidableEq, Repr

/-- A call waits for its result, has dropped its receiver, has dropped its completion lease as well
(it returned an error or is gone), or has returned a handle. -/
inductive CallPhase where
  | waiting
  | closing
  | failed
  | returned (bearer : Bearer)
deriving DecidableEq, Repr

/-- A job works, has made the check before publication, has a result that it will send, or has sent it
or taken it back. -/
inductive TaskPhase where
  | working
  | checked (late : Bool)
  | finished (result : Except TextDiffError Bearer)
  | delivered
deriving DecidableEq

/-- A call together with its job. `sent` is the content of the channel between them; `created` records
what the job published. -/
structure Call where
  phase : CallPhase := .waiting
  task : TaskPhase := .working
  sent : Option (Except TextDiffError Bearer) := none
  created : Option Bearer := none
deriving DecidableEq

/-- The service and the calls of all admitted jobs, by the number of their lease. -/
structure System where
  world : World := {}
  calls : List Call := []

namespace System

/-- `CancellationToken::is_cancelled` for a completion lease. -/
def cancelled (system : System) (token : ℕ) : Bool := system.calls[token]?.any (·.phase = .failed)

def indexOf (system : System) (token : ℕ) : ℕ := system.world.jobs.findIdx (·.token = token)

/-- The outcome of the first check of a job that can publish now. -/
def ready (system : System) (token : ℕ) : Option Bool :=
  match system.calls[token]?, system.world.jobs[system.indexOf token]? with
  | some ⟨_, .checked late, _, _⟩, some ⟨_, _, .working⟩ => some late
  | _, _ => none

end System

/-- A sweep sees the leases that are cancelled. -/
def under (cancelled : ℕ → Bool) (sweep : Sweep) : Sweep := { sweep with cancelled }

/-- The sweep that a section makes. -/
def sweepOf : Service.Event → Option Sweep
  | .upload publication _ _ | .finishApplyPatch _ publication _ _ | .exportPatch publication _ => some publication.sweep
  | .read sweep _ _ | .deleteAttachment sweep _ _ | .sweep sweep | .resolve sweep _ _ _ => some sweep
  | .admitCompare admission _ _ _ _ _ | .admitApplyPatch admission _ _ => some admission.sweep
  | .deleteComparison _ | .dropLease _ | .finishCompare .. | .release _ | .endJob _ | .shutdown | .stop | .clearEntries
  | .clearAttachments => none

def eventUnder (cancelled : ℕ → Bool) : Service.Event → Service.Event
  | .upload publication request declaredKind =>
    .upload { publication with sweep := under cancelled publication.sweep } request declaredKind
  | .read sweep request declaredKind => .read (under cancelled sweep) request declaredKind
  | .deleteAttachment sweep id declaredKind => .deleteAttachment (under cancelled sweep) id declaredKind
  | .sweep sweep => .sweep (under cancelled sweep)
  | .resolve sweep id declaredKind kind => .resolve (under cancelled sweep) id declaredKind kind
  | .admitCompare admission before after beforeLabel afterLabel originBytes =>
    .admitCompare { admission with sweep := under cancelled admission.sweep } before after beforeLabel afterLabel originBytes
  | .admitApplyPatch admission target patch =>
    .admitApplyPatch { admission with sweep := under cancelled admission.sweep } target patch
  | .finishApplyPatch index publication late engine =>
    .finishApplyPatch index { publication with sweep := under cancelled publication.sweep } late engine
  | .exportPatch publication comparison =>
    .exportPatch { publication with sweep := under cancelled publication.sweep } comparison
  | event => event

/-- Jobs publish through events of their own. -/
def publishes : Service.Event → Bool
  | .finishCompare .. | .finishApplyPatch .. => true
  | _ => false

/-- What can happen next. `check` is the check that a job makes before it publishes, `deliver` its
`send`, `receive` the arm of the waiting call that takes the result. `close` and `fail` end a call that
is cancelled, past its deadline, shut down or dropped: first the receiver goes, then the lease. -/
inductive Event where
  | service (event : Service.Event)
  | check (token : ℕ) (deadline : Bool)
  | finishCompare (token : ℕ) (completion : Completion) (engine : Except TextDiffError ComputedDiff)
  | finishApplyPatch (token : ℕ) (publication : Publication) (engine : Except TextDiffError Str)
  | deliver (token : ℕ) (sweep : Sweep)
  | receive (token : ℕ)
  | close (token : ℕ) (sweep : Sweep)
  | fail (token : ℕ)

/-- The deletion of a result that cannot be delivered. -/
def takeBack (cancelled : ℕ → Bool) (sweep : Sweep) : Bearer → Service.Event
  | .comparison id => .deleteComparison id
  | .attachment id _ => .deleteAttachment (under cancelled sweep) id none

/-- The critical sections of the service that an event runs. -/
def sections (system : System) : Event → List Service.Event
  | .service event => if publishes event then [] else [eventUnder system.cancelled event]
  | .finishCompare token completion engine =>
    match system.ready token with
    | some late => [.finishCompare (system.indexOf token)
        { completion with late, lateLocked := completion.lateLocked || system.cancelled token } engine]
    | none => []
  | .finishApplyPatch token publication engine =>
    match system.ready token with
    | some late => [.finishApplyPatch (system.indexOf token)
        { publication with sweep := under system.cancelled publication.sweep } late engine]
    | none => []
  | .deliver token sweep =>
    match system.calls[token]? with
    | some ⟨phase, .finished (.ok bearer), _, _⟩ =>
      -- a channel without receiver gives the result back
      if phase = .waiting then [] else [takeBack system.cancelled sweep bearer]
    | _ => []
  | .close token sweep =>
    match system.calls[token]? with
    -- a delivery that was not taken deletes its attachment
    | some ⟨.waiting, _, some (.ok (.attachment id allocation)), _⟩ =>
      [takeBack system.cancelled sweep (.attachment id allocation)]
    | _ => []
  | .check .. | .receive _ | .fail _ => []

namespace Call

/-- The result that a finished job will send. -/
def finish (call : Call) (bearer : Str → Bearer) : Option JobPhase → Call
  | some (.finished result) =>
    { call with task := .finished (result.map bearer), created := (result.map bearer).toOption }
  | _ => call

def deliver (call : Call) : Call :=
  match call.task with
  | .finished result =>
    { call with task := .delivered, sent := if call.phase = .waiting then some result else call.sent }
  | _ => call

def receive (call : Call) : Call :=
  match call.phase, call.sent with
  | .waiting, some (.ok bearer) => { call with phase := .returned bearer }
  | .waiting, some (.error _) => { call with phase := .failed }
  | _, _ => call

def close (call : Call) : Call := if call.phase = .waiting then { call with phase := .closing } else call

def fail (call : Call) : Call := if call.phase = .closing then { call with phase := .failed } else call

def check (call : Call) (late : Bool) : Call := if call.task = .working then { call with task := .checked late } else call

end Call

/-- The phase of a job after a section. -/
def phaseAt (world : World) (index : ℕ) : Option JobPhase := world.jobs[index]?.map (·.phase)

/-- The calls after an event whose sections led to `world`. -/
def updateCalls (system : System) (world : World) : Event → List Call
  | .service _ =>
    if world.tokens = system.world.tokens then system.calls
    else system.calls ++ [{}]
  | .check token deadline =>
    system.calls.modify token fun call => call.check (system.cancelled token || system.world.shutdown || deadline)
  | .finishCompare token _ _ =>
    if (system.ready token).isSome then
      system.calls.modify token fun call => call.finish .comparison (phaseAt world (system.indexOf token))
    else system.calls
  | .finishApplyPatch token _ _ =>
    if (system.ready token).isSome then
      system.calls.modify token fun call =>
        call.finish (.attachment · system.world.state.allocations) (phaseAt world (system.indexOf token))
    else system.calls
  | .deliver token _ => system.calls.modify token Call.deliver
  | .receive token => system.calls.modify token Call.receive
  | .close token _ => system.calls.modify token Call.close
  | .fail token => system.calls.modify token Call.fail

section

variable (json : Paging.SerdeJson)

def step (system : System) (event : Event) : System :=
  let world := Service.run json system.world (sections system event)
  ⟨world, updateCalls system world event⟩

def run (system : System) (events : List Event) : System := events.foldl (step json) system

end

/-- The lookup of `summary` and `page`. -/
def comparison (sweep : Sweep) (id : Str) (state : State) : Except TextDiffError Stored × State :=
  if !validHandle id then (.error .invalidInput, state)
  else
    let state := expire sweep state
    ((state.entries.get id).elim (.error .notFound) .ok, state)

def summary (sweep : Sweep) (id : Str) (state : State) : Except TextDiffError ComparisonSummary × State :=
  let (found, state) := comparison sweep id state
  (found.map (·.summary), state)

end OpenLegal.TextDiff.Delivery
