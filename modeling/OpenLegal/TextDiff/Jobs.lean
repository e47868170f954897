import OpenLegal.TextDiff.Service

/-! # Jobs and runs of the text-diff service

A comparison or patch application is admitted under a reservation of 32 MiB, works outside the lock,
publishes in one critical section and drops its reservation in another. A run interleaves these
sections with every other operation of the service.
-/

namespace OpenLegal.TextDiff.Service

open Rust Rust.Str

inductive JobInput where
  | compare (before after : Str) (beforeInfo afterInfo : TextInfo) (originBytes : ℕ)
  | applyPatch (target patch : Str)
deriving DecidableEq

/-- A job holds its reservation until it is released, with or without a published result. -/
inductive JobPhase where
  | working
  | finished (result : Except TextDiffError Str)
  | released
deriving DecidableEq

/-- `token` is the completion lease that the waiting call cancels when it goes away. -/
structure Job where
  input : JobInput
  token : ℕ
  phase : JobPhase
deriving DecidableEq

structure World where
  state : State := {}
  jobs : List Job := []
  tokens : ℕ := 0
  permits : ℕ := 2
  shutdown : Bool := false

/-! ## Admission -/

/-- What an admission reads: whether the request is cancelled or past its deadline, and whether a
finished job is found to have panicked. -/
structure Admission where
  sweep : Sweep
  late : Bool
  joinFailed : Bool

/-- The reservation is taken before the job is spawned. -/
def admitJob (admission : Admission) (full : State → Bool) (input : JobInput) (world : World) :
    Except TextDiffError Unit × World :=
  if admission.late then (.error .cancelled, world)
  else if world.permits = 0 then (.error .busy, world)
  else if admission.joinFailed then (.error .internal, { world with shutdown := true })
  else
    let state := expire admission.sweep world.state
    if state.stopping || world.shutdown then (.error .unavailable, { world with state })
    else if full state then (.error .busy, { world with state })
    else (.ok (), { world with
      state := { state with
        reserved := state.reserved + jobReservation
        reservedSlots := state.reservedSlots + 1 }
      jobs := world.jobs ++ [⟨input, world.tokens, .working⟩]
      tokens := world.tokens + 1
      permits := world.permits - 1 })

def compareFull (state : State) : Bool :=
  state.entries.len + state.reservedSlots ≥ maxEntries ||
    (state.entries.values.map (·.bytes)).sum + state.attachmentBytes + state.reserved + jobReservation > maxStoreBytes

def applyPatchFull (state : State) : Bool :=
  state.entries.len + state.reservedSlots ≥ maxEntries || state.attachments.len ≥ maxAttachments ||
    used state + jobReservation > maxStoreBytes

def admitCompare (admission : Admission) (before after : Str) (beforeLabel afterLabel : Option Str) (originBytes : ℕ)
    (world : World) : Except TextDiffError Unit × World :=
  match (do
    let beforeInfo ← textInfo before (beforeLabel.getD ['B', 'e', 'f', 'o', 'r', 'e'])
    let afterInfo ← textInfo after (afterLabel.getD ['A', 'f', 't', 'e', 'r'])
    pure (beforeInfo, afterInfo)) with
  | .error error => (.error error, world)
  | .ok (beforeInfo, afterInfo) =>
    admitJob admission compareFull (.compare before after beforeInfo afterInfo originBytes) world

def admitApplyPatch (admission : Admission) (target patch : Str) (world : World) : Except TextDiffError Unit × World :=
  admitJob admission applyPatchFull (.applyPatch target patch) world

/-! ## Publication -/

/-- One checked addition of `retained_bytes`. -/
def addBytes (bytes : ℕ) (item : ℕ × ℕ) : Except TextDiffError ℕ :=
  if item.1 * item.2 ≥ 2 ^ 64 || bytes + item.1 * item.2 ≥ 2 ^ 64 then .error .resourceLimit
  else .ok (bytes + item.1 * item.2)

/-- Lengths and element sizes of the vectors of a page list, in the order they are counted. -/
def pageVectors (pages : List (List DiffFragment)) : List (ℕ × ℕ) :=
  pages.flatMap fun page => (page.length, 80) :: page.flatMap fun fragment =>
    (byteLen fragment.patch, 1) :: (fragment.inlineChanges.length, 32) ::
      fragment.inlineChanges.map fun change => (change.ranges.length, 8)

/-- `spare` is the capacity of each vector beyond its length. -/
def retainedBytes (before after : Str) (pages : List (List DiffFragment)) (spare : ℕ → ℕ) : Except TextDiffError ℕ :=
  ([(byteLen before, 1), (byteLen after, 1)] ++
    ((pages.length, 24) :: pageVectors pages).mapIdx fun index (vector : ℕ × ℕ) =>
      (vector.1 + spare index, vector.2)).foldlM addBytes 4096

/-- What publishing a comparison reads, before and under the lock. -/
structure Completion where
  late : Bool
  lateLocked : Bool
  generated : Generated
  clock : ℕ
  instant : ℕ
  spare : ℕ → ℕ
  patchSpare : ℕ

def freshComparisonId (generated : Generated) (state : State) : Except TextDiffError Str :=
  firstFresh (fun id => (state.entries.get id).isSome) generated.toList

/-- Check the engine's output against both texts and publish it, within the job's own reservation. -/
def publishComparison (json : Paging.SerdeJson) (completion : Completion) (engine : Except TextDiffError ComputedDiff)
    (before after : Str) (beforeInfo afterInfo : TextInfo) (originBytes token : ℕ) (state : State) :
    Except TextDiffError (ComparisonSummary × State) := do
  let computed ← engine
  if completion.late then .error .cancelled
  else if byteLen computed.patch > maxPatchBytes then .error .resourceLimit
  else do
    let (changes, additions, deletions) ← Paging.changes json computed before after
    if state.stopping || completion.lateLocked then .error .cancelled
    else do
      let id ← freshComparisonId completion.generated state
      let equal := before = after
      if decide equal ≠ (additions == 0 && deletions == 0) then .error .internal
      else do
        let summary := {
          comparisonId := id
          expiresAt := expiresAt completion.clock
          before := beforeInfo
          after := afterInfo
          additions
          deletions
          equal
          changePages := changes.length }
        let retained ← retainedBytes before after changes completion.spare
        let bytes := retained + originBytes + (byteLen computed.patch + completion.patchSpare)
        if bytes > jobReservation then .error .resourceLimit
        else pure (summary, { state with
          entries := state.entries.insert id {
            patch := computed.patch
            summary
            before
            after
            changes
            expires := completion.instant + retention
            caller := token
            bytes } })

/-- The engine returned: publish its result or keep its error. -/
def finishCompare (json : Paging.SerdeJson) (index : ℕ) (completion : Completion)
    (engine : Except TextDiffError ComputedDiff) (world : World) : World :=
  match world.jobs[index]? with
  | some ⟨.compare before after beforeInfo afterInfo originBytes, token, .working⟩ =>
    let done (result : Except TextDiffError Str) : List Job :=
      world.jobs.set index ⟨.compare before after beforeInfo afterInfo originBytes, token, .finished result⟩
    match publishComparison json completion engine before after beforeInfo afterInfo originBytes token world.state with
    | .ok (summary, state) => { world with state, jobs := done (.ok summary.comparisonId) }
    | .error error => { world with jobs := done (.error error) }
  | _ => world

def finishApplyPatch (index : ℕ) (publication : Publication) (late : Bool) (engine : Except TextDiffError Str)
    (world : World) : World :=
  match world.jobs[index]? with
  | some ⟨.applyPatch target patch, token, .working⟩ =>
    let done (result : Except TextDiffError Str) : List Job :=
      world.jobs.set index ⟨.applyPatch target patch, token, .finished result⟩
    match (do
      let text ← engine
      if late then .error .cancelled
      else do
        let _ ← textInfo text ['P', 'a', 't', 'c', 'h', 'e', 'd', ' ', 't', 'e', 'x', 't']
        pure text) with
    | .error error => { world with jobs := done (.error error) }
    | .ok text =>
      let (result, state) := publishAttachment publication text .text world.state
      { world with state, jobs := done (result.map (·.attachmentId)) }
  | _ => world

/-- `Reservation::drop`, at the end of a job or when it unwinds. -/
def releaseReservation (index : ℕ) (world : World) : World :=
  match world.jobs[index]? with
  | some job =>
    if job.phase = .released then world
    else { world with
      state := { world.state with
        reserved := world.state.reserved - jobReservation
        reservedSlots := world.state.reservedSlots - 1
        underflow := world.state.underflow || world.state.reserved < jobReservation || world.state.reservedSlots < 1 }
      jobs := world.jobs.set index { job with phase := .released } }
  | none => world

/-- A task ends and returns its permit. -/
def endJob (index : ℕ) (world : World) : World :=
  match world.jobs[index]? with
  | some job =>
    if job.phase = .released then { world with jobs := world.jobs.eraseIdx index, permits := world.permits + 1 }
    else world
  | none => world

/-- What a publication stores: the checked output of the engine, within one reservation. -/
theorem publishComparison_ok {json : Paging.SerdeJson} {completion : Completion}
    {engine : Except TextDiffError ComputedDiff} {before after : Str} {beforeInfo afterInfo : TextInfo}
    {originBytes token : ℕ} {state final : State} {summary : ComparisonSummary}
    (success : publishComparison json completion engine before after beforeInfo afterInfo originBytes token state =
      .ok (summary, final)) :
    ∃ computed stored, engine = .ok computed ∧ byteLen computed.patch ≤ maxPatchBytes ∧
      Paging.changes json computed before after = .ok (stored.changes, summary.additions, summary.deletions) ∧
      stored.patch = computed.patch ∧ stored.caller = token ∧ stored.bytes ≤ jobReservation ∧
      state.entries.get summary.comparisonId = none ∧
      final = { state with entries := state.entries.insert summary.comparisonId stored } := by
  simp only [publishComparison, bind_eq_ok, ite_error_eq_ok] at success
  obtain ⟨computed, ran, -, short, ⟨changes, additions, deletions⟩, checked, -, id, fresh, -, retained, -, fits,
    success⟩ := success
  cases success
  obtain ⟨free, -⟩ := firstFresh_ok fresh
  rw [Option.isSome_eq_false_iff, Option.isNone_iff_eq_none] at free
  exact ⟨computed, _, ran, Nat.not_lt.mp short, checked, rfl, rfl, Nat.not_lt.mp fits, free, rfl⟩

/-- Admission sweeps, and a job is added only together with its reservation. -/
theorem admitJob_cases (admission : Admission) (full : State → Bool) (input : JobInput) (world : World) :
    (∃ shutdown, (admitJob admission full input world).2 = { world with shutdown }) ∨
      (admitJob admission full input world).2 = { world with state := expire admission.sweep world.state } ∨
      (full (expire admission.sweep world.state) = false ∧ (admitJob admission full input world).2 = { world with
        state := { expire admission.sweep world.state with
          reserved := (expire admission.sweep world.state).reserved + jobReservation
          reservedSlots := (expire admission.sweep world.state).reservedSlots + 1 }
        jobs := world.jobs ++ [⟨input, world.tokens, .working⟩]
        tokens := world.tokens + 1
        permits := world.permits - 1 }) := by
  rw [admitJob]
  dsimp only
  split_ifs with late permits failed stopping space
  · exact .inl ⟨world.shutdown, rfl⟩
  · exact .inl ⟨world.shutdown, rfl⟩
  · exact .inl ⟨true, rfl⟩
  · exact .inr (.inl rfl)
  · exact .inr (.inl rfl)
  · exact .inr (.inr ⟨Bool.eq_false_iff.mpr space, rfl⟩)

/-! ## Runs -/

/-- One critical section of the service. `sweep` stands for the operations whose only effect is the
sweep (summaries, pages, metrics, the ticker). An undeliverable result is deleted by `deleteComparison`
or `deleteAttachment`. -/
inductive Event where
  | upload (publication : Publication) (request : AttachmentUpload) (declaredKind : Option AttachmentKind)
  | read (sweep : Sweep) (request : AttachmentRead) (declaredKind : Option AttachmentKind)
  | deleteAttachment (sweep : Sweep) (id : Str) (declaredKind : Option AttachmentKind)
  | sweep (sweep : Sweep)
  | deleteComparison (id : Str)
  | resolve (sweep : Sweep) (id : Str) (declaredKind : Option AttachmentKind) (kind : AttachmentKind)
  | dropLease (index : ℕ)
  | admitCompare (admission : Admission) (before after : Str) (beforeLabel afterLabel : Option Str) (originBytes : ℕ)
  | admitApplyPatch (admission : Admission) (target patch : Str)
  | finishCompare (index : ℕ) (completion : Completion) (engine : Except TextDiffError ComputedDiff)
  | finishApplyPatch (index : ℕ) (publication : Publication) (late : Bool) (engine : Except TextDiffError Str)
  | exportPatch (publication : Publication) (comparison : ComparisonSummary)
  | release (index : ℕ)
  | endJob (index : ℕ)
  | shutdown
  | stop
  | clearEntries
  | clearAttachments

variable (json : Paging.SerdeJson)

def step (world : World) : Event → World
  | .upload publication request declaredKind =>
    { world with state := (uploadAttachment publication request declaredKind world.state).2 }
  | .read sweep request declaredKind => { world with state := (readAttachment sweep request declaredKind world.state).2 }
  | .deleteAttachment sweep id declaredKind =>
    { world with state := (deleteAttachment sweep id declaredKind world.state).2 }
  | .sweep sweep => { world with state := expire sweep world.state }
  | .deleteComparison id =>
    if validHandle id then
      { world with state := { world.state with entries := world.state.entries.remove id } }
    else world
  | .resolve sweep id declaredKind kind => { world with state := (resolve sweep id declaredKind kind world.state).2 }
  | .dropLease index => { world with state := dropLease index world.state }
  | .admitCompare admission before after beforeLabel afterLabel originBytes =>
    (admitCompare admission before after beforeLabel afterLabel originBytes world).2
  | .admitApplyPatch admission target patch => (admitApplyPatch admission target patch world).2
  | .finishCompare index completion engine => finishCompare json index completion engine world
  | .finishApplyPatch index publication late engine => finishApplyPatch index publication late engine world
  | .exportPatch publication comparison =>
    { world with state := (exportPatch publication comparison world.state).2 }
  | .release index => releaseReservation index world
  | .endJob index => endJob index world
  | .shutdown => { world with shutdown := true }
  | .stop => { world with shutdown := true, state := { world.state with stopping := true } }
  | .clearEntries =>
    if world.state.stopping && world.jobs.isEmpty then
      { world with state := { world.state with entries := ∅ } }
    else world
  | .clearAttachments =>
    if world.state.stopping && world.jobs.isEmpty then
      { world with state := world.state.retainAttachments fun _ _ => false }
    else world

def run (world : World) (events : List Event) : World := events.foldl (step json) world

/-- The service as created. -/
def start : World := {}

theorem run_append (world : World) (first second : List Event) :
    run json world (first ++ second) = run json (run json world first) second :=
  List.foldl_append

/-- What every step keeps holds after every run. -/
theorem run_invariant {invariant : World → Prop} (keeps : ∀ world event, invariant world → invariant (step json world event))
    {world : World} (holds : invariant world) (events : List Event) : invariant (run json world events) := by
  induction events generalizing world with
  | nil => exact holds
  | cons event events ih => exact ih (keeps world event holds)

end OpenLegal.TextDiff.Service
