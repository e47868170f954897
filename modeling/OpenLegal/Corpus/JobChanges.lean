import OpenLegal.Corpus.Publish
import OpenLegal.Rust.Result
import Mathlib.Logic.Relation

/-! # What a step does to objects and jobs

Every step changes the objects, the jobs and the history of the jobs in a few ways: time passes, objects move on to
later versions, an object receives a capture, jobs are settled, bound to a request, queued again, claimed or published.
`Steady` is the condition under which the exclusion of concurrent executions survives a settlement.
-/

namespace OpenLegal.Corpus.Database

open Rust Rust.Str Legal Theory

namespace Entry

def id : Entry → ℕ
  | .enqueued id | .superseded id | .adopted id | .settled id | .published id | .retired id => id
  | .claimed job => job.id

/-- What takes a job away from an earlier claim. -/
def fences : Entry → Bool
  | .enqueued _ | .claimed _ | .adopted _ => true
  | .superseded _ | .settled _ | .published _ | .retired _ => false

/-- An enqueue, or a publication under it. -/
def turns : Entry → Bool
  | .enqueued _ | .published _ => true
  | .claimed _ | .adopted _ | .superseded _ | .settled _ | .retired _ => false

end Entry

/-- What the fencing of jobs is about. -/
structure Queue where
  now : ℕ
  objects : List ObjectRow
  jobs : List JobRow
  history : List Entry
  issued : List ℕ
  captures : List CaptureRow

def World.queue (world : World) : Queue :=
  ⟨world.now, world.objects, world.jobs, world.history, world.issued, world.captures⟩

/-- Objects move on: none is lost, no version falls, and a withdrawal stands. -/
structure ObjectsMove (old new : List ObjectRow) : Prop where
  keyed : Keyed ObjectRow.object old → Keyed ObjectRow.object new
  moves : ∀ row ∈ old, ∃ next ∈ new, next.object = row.object ∧ row.version ≤ next.version ∧
    (row.withdrawn = true → next.withdrawn = true)

namespace Queue

/-- Another job of the object is running under an unexpired lease. -/
def HasOtherLive (queue : Queue) (row : JobRow) : Prop :=
  ∃ other ∈ queue.jobs, other.object = row.object ∧ other.id ≠ row.id ∧ other.isLive queue.now = true

end Queue

/-- The end of an execution, or its deferral. A job that stays running shows an error. -/
structure JobRow.Settles (old new : JobRow) : Prop where
  id : new.id = old.id
  object : new.object = old.object
  unfinished : old.status ≠ .done
  attempts : 0 ≤ old.attempts → 0 ≤ new.attempts
  running : new.status = .running →
    old.status = .running ∧ new.expectedVersion = old.expectedVersion ∧ new.errorCategory ≠ none

/-- A change of what the request of a job is. -/
structure JobRow.Rebinds (old new : JobRow) : Prop where
  id : new.id = old.id
  object : new.object = old.object
  status : new.status = old.status
  expectedVersion : new.expectedVersion = old.expectedVersion
  attempts : new.attempts = old.attempts
  errorCategory : new.errorCategory = old.errorCategory
  leaseUntil : new.leaseUntil = old.leaseUntil

/-- A job is queued again, by an enqueue or for another request. -/
structure JobRow.Resets (old new : JobRow) (entry : Entry) : Prop where
  id : new.id = old.id
  object : new.object = old.object
  status : new.status = .pending
  attempts : 0 ≤ old.attempts → 0 ≤ new.attempts
  entry : entry = .enqueued old.id ∨ (entry = .adopted old.id ∧ old.status ≠ .done)

/-- The settlement of jobs, which `kind` records, and the jobs that are live after it. -/
structure Queue.Settlement (steady : Prop) (queue : Queue) (meets : JobRow → Bool) (change : JobRow → JobRow)
    (kind : ℕ → Entry) : Prop where
  settles : ∀ row ∈ queue.jobs, meets row = true → row.Settles (change row)
  kind : kind = .settled ∨ kind = .superseded ∨ kind = .retired
  live : steady → ∀ row ∈ queue.jobs, meets row = true → (change row).isLive queue.now = true →
    row.isLive queue.now = true ∨ ¬ queue.HasOtherLive row
  single : ∀ row ∈ queue.jobs, ∀ other ∈ queue.jobs, meets row = true → meets other = true →
    (change row).isLive queue.now = true → (change other).isLive queue.now = true → row.id = other.id

inductive Queue.Change (steady : Prop) (queue : Queue) : Queue → Prop where
  | pass (seconds : ℕ) : Change steady queue { queue with now := queue.now + seconds }
  | objects (objects : List ObjectRow) (moves : ObjectsMove queue.objects objects) :
      Change steady queue { queue with objects }
  | capture (capture : CaptureRow)
      (unwithdrawn : ∀ row ∈ queue.objects, row.object = capture.object → row.withdrawn = false) :
      Change steady queue { queue with captures := queue.captures ++ [capture] }
  | issue (ids : List ℕ) : Change steady queue { queue with issued := ids ++ queue.issued }
  | settle (meets : JobRow → Bool) (change : JobRow → JobRow) (kind : ℕ → Entry)
      (settlement : queue.Settlement steady meets change kind) :
      Change steady queue { queue with
        jobs := updateWhere meets change queue.jobs
        history := queue.history ++ (queue.jobs.filter meets).map fun row => kind row.id }
  | rebind (meets : JobRow → Bool) (change : JobRow → JobRow)
      (rebinds : ∀ row ∈ queue.jobs, meets row = true → row.Rebinds (change row)) :
      Change steady queue { queue with jobs := updateWhere meets change queue.jobs }
  | reset (row : JobRow) (change : JobRow → JobRow) (entry : Entry) (member : row ∈ queue.jobs)
      (resets : row.Resets (change row) entry) :
      Change steady queue { queue with
        jobs := updateWhere (fun other => other.id == row.id) change queue.jobs
        history := queue.history ++ [entry] }
  | insert (row : JobRow) (fresh : row.id ∉ queue.issued) (status : row.status = .pending) (attempts : row.attempts = 0) :
      Change steady queue { queue with
        jobs := queue.jobs ++ [row]
        issued := row.id :: queue.issued
        history := queue.history ++ [.enqueued row.id] }
  | claim (row : JobRow) (object : ObjectRow) (change : JobRow → JobRow) (job : Job) (objects : List ObjectRow)
      (member : row ∈ queue.jobs) (present : object ∈ queue.objects) (owned : object.object = row.object)
      (id : (change row).id = row.id) (sameObject : (change row).object = row.object)
      (jobId : job.id = row.id) (jobObject : job.object = row.object)
      (unfinished : row.status ≠ .done) (running : (change row).status = .running)
      (version : job.expectedVersion = object.version + 1) (held : (change row).expectedVersion = job.expectedVersion)
      (attempts : (change row).attempts = row.attempts + 1) (alone : ¬ queue.HasOtherLive row)
      (moves : ObjectsMove queue.objects objects)
      (raised : ∃ next ∈ objects, next.object = row.object ∧ next.version = object.version + 1) :
      Change steady queue { queue with
        objects
        jobs := updateWhere (fun other => other.id == row.id) change queue.jobs
        history := queue.history ++ [.claimed job] }
  | publish (row : JobRow) (meets : JobRow → Bool) (change : JobRow → JobRow) (member : row ∈ queue.jobs)
      (met : meets row = true) (only : ∀ other, meets other = true → other.id = row.id)
      (running : row.status = .running) (valid : row.errorCategory = none)
      (id : (change row).id = row.id) (object : (change row).object = row.object) (done : (change row).status = .done)
      (attempts : (change row).attempts = row.attempts) :
      Change steady queue { queue with
        jobs := updateWhere meets change queue.jobs
        history := queue.history ++ [.published row.id] }

/-- The changes of a step, one after another. -/
def Queue.Changes (steady : Prop) (queue next : Queue) : Prop := Relation.ReflTransGen (Queue.Change steady) queue next

/-! ## Objects -/

namespace ObjectsMove

variable {objects : List ObjectRow}

theorem refl : ObjectsMove objects objects :=
  ⟨fun keyed => keyed, fun row member => ⟨row, member, rfl, Nat.le_refl _, fun withdrawn => withdrawn⟩⟩

theorem trans {middle last : List ObjectRow} (first : ObjectsMove objects middle) (second : ObjectsMove middle last) :
    ObjectsMove objects last where
  keyed keyed := second.keyed (first.keyed keyed)
  moves := by
    intro row member
    obtain ⟨next, found, object, version, withdrawn⟩ := first.moves row member
    obtain ⟨final, reached, sameObject, later, stays⟩ := second.moves next found
    exact ⟨final, reached, sameObject.trans object, version.trans later, fun held => stays (withdrawn held)⟩

theorem update {meets : ObjectRow → Bool} {change : ObjectRow → ObjectRow}
    (object : ∀ row ∈ objects, meets row = true → (change row).object = row.object)
    (version : ∀ row ∈ objects, meets row = true → row.version ≤ (change row).version)
    (withdrawn : ∀ row ∈ objects, meets row = true → row.withdrawn = true → (change row).withdrawn = true) :
    ObjectsMove objects (updateWhere meets change objects) where
  keyed keyed := keyed.update object
  moves := by
    intro row member
    refine ⟨_, mem_updateWhere.mpr ⟨row, member, rfl⟩, ?_⟩
    cases met : meets row with
    | false => exact ⟨rfl, Nat.le_refl _, fun held => held⟩
    | true => exact ⟨object row member met, version row member met, withdrawn row member met⟩

theorem insert {row : ObjectRow} (absent : ∀ old ∈ objects, old.object ≠ row.object) :
    ObjectsMove objects (objects ++ [row]) where
  keyed keyed := keyed.insert absent
  moves old member := ⟨old, List.mem_append_left _ member, rfl, Nat.le_refl _, fun withdrawn => withdrawn⟩

end ObjectsMove

namespace World

theorem object?_mem {world : World} {object : ObjectId} {row : ObjectRow} (found : world.object? object = some row) :
    row ∈ world.objects ∧ row.object = object :=
  ⟨List.mem_of_find?_eq_some found, by simpa using List.find?_some found⟩

theorem object?_none {world : World} {object : ObjectId} (none : world.object? object = none) :
    ∀ row ∈ world.objects, row.object ≠ object := by
  intro row member
  simpa using List.find?_eq_none.mp none row member

/-- What `ensureObject` leaves: the row is there, and every other table is as it was. -/
theorem ensureObject_spec (world : World) (object : ObjectId) :
    ∃ objects, (world.ensureObject object).1 = { world with objects } ∧ ObjectsMove world.objects objects ∧
      (world.ensureObject object).2 ∈ objects ∧ (world.ensureObject object).2.object = object := by
  unfold ensureObject
  cases found : world.object? object with
  | some row => exact ⟨world.objects, rfl, .refl, object?_mem found⟩
  | none =>
    refine ⟨world.objects ++ [.new object], rfl, .insert ?_, by simp, rfl⟩
    exact object?_none found

end World

/-! ## Jobs -/

section Operations

variable {steady : Prop} {world next : World}

/-- A settlement by the holder of a claim. -/
theorem changes_settleJobs {meets : JobRow → Bool} {change : JobRow → JobRow}
    (settlement : world.queue.Settlement steady meets change .settled) :
    Queue.Changes steady world.queue (world.settleJobs meets change).queue :=
  .single (.settle meets change .settled settlement)

theorem of_heldBy {job : Job} {row : JobRow} (held : World.heldBy job row = true) :
    row.id = job.id ∧ row.expectedVersion = job.expectedVersion ∧ row.attempts = asI32 job.attempts ∧
      row.status = .running := by
  simpa [World.heldBy, and_assoc] using held

theorem changes_failClaim {job : Job} {retry : Bool} (failed : world.failClaim job retry = .ok next) :
    Queue.Changes steady world.queue next.queue := by
  simp only [World.failClaim, ite_error_eq_ok] at failed
  obtain ⟨-, failed⟩ := failed
  cases failed
  -- whether it is retried or not, the job does not run afterwards
  have stopped : ∀ again : Bool, (if again = true then JobStatus.pending else .failed) ≠ .running := by
    intro again
    cases again <;> simp
  apply changes_settleJobs
  constructor
  · intro row member met
    exact ⟨rfl, rfl, by simp [(of_heldBy met).2.2.2], fun counted => counted, fun running => absurd running (stopped _)⟩
  · exact .inl rfl
  · intro _ row member met live
    simp [JobRow.isLive] at live
  · intro row _ other _ _ _ live
    simp [JobRow.isLive] at live

theorem one_le_of_asI32 {value : UInt32} (nonzero : value ≠ 0) (counted : 0 ≤ asI32 value) : 1 ≤ asI32 value := by
  have positive : value.toNat ≠ 0 := by
    intro zero
    exact nonzero (UInt32.toNat_inj.mp (by simpa using zero))
  rw [asI32] at counted ⊢
  split at counted
  · next small =>
    rw [if_pos small]
    omega
  · have bound : value.toNat < 2 ^ 32 := value.toNat_lt
    omega

theorem changes_releaseAdmissionWait {job : Job} (released : world.releaseAdmissionWait job = .ok next) :
    Queue.Changes steady world.queue next.queue := by
  simp only [World.releaseAdmissionWait, ite_error_eq_ok] at released
  obtain ⟨nonzero, -, -, released⟩ := released
  cases released
  apply changes_settleJobs
  constructor
  · intro row member met
    obtain ⟨-, -, attempts, running⟩ := of_heldBy met
    refine ⟨rfl, rfl, by simp [running], ?_, by simp⟩
    intro counted
    have charged := one_le_of_asI32 nonzero (attempts ▸ counted)
    simp only
    omega
  · exact .inl rfl
  · intro _ row member met live
    simp [JobRow.isLive] at live
  · intro row _ other _ _ _ live
    simp [JobRow.isLive] at live

theorem status_of_isLive {now : ℕ} {row : JobRow} (live : row.isLive now = true) : row.status = .running := by
  simp only [JobRow.isLive, Bool.and_eq_true, beq_iff_eq] at live
  exact live.1

theorem of_executes {job : Job} {row : JobRow} (executes : world.executes job row = true) :
    row.id = job.id ∧ row.isLive world.now = true := by
  simp only [World.executes, Bool.and_eq_true, beq_iff_eq] at executes
  exact ⟨executes.1.1.1.1.1, executes.1.1.2⟩

theorem changes_deferStorageClaim {job : Job} (deferred : world.deferStorageClaim job = .ok next) :
    Queue.Changes steady world.queue next.queue := by
  simp only [World.deferStorageClaim, ite_error_eq_ok] at deferred
  obtain ⟨-, -, -, deferred⟩ := deferred
  cases deferred
  apply changes_settleJobs
  constructor
  · intro row member met
    have running := status_of_isLive (of_executes met).2
    exact ⟨rfl, rfl, by simp [running], fun counted => counted, fun _ => ⟨running, rfl, by simp⟩⟩
  · exact .inl rfl
  · intro _ row member met _
    exact .inl (of_executes met).2
  · intro row _ other _ met met' _ _
    rw [(of_executes met).1, (of_executes met').1]

/-- A budget deferral of an expired execution, while another job of the object runs, would revive the execution. -/
def World.Steady (world : World) : Event → Prop
  | .deferBudgetClaim job resumeAt refund => ∀ row ∈ world.jobs, World.heldBy job row = true → resumeAt > world.now →
      (refund = true ∨ row.attempts < world.maxJobAttempts) → row.isLive world.now = true ∨ world.hasOtherLive row = false
  | _ => True

theorem hasOtherLive_iff {row : JobRow} : world.hasOtherLive row = true ↔ world.queue.HasOtherLive row := by
  simp [World.hasOtherLive, Queue.HasOtherLive, World.queue, and_assoc]

theorem changes_deferBudgetClaim {job : Job} {resumeAt : ℕ} {refund : Bool}
    (deferred : world.deferBudgetClaim job resumeAt refund = .ok next) :
    Queue.Changes (world.Steady (.deferBudgetClaim job resumeAt refund)) world.queue next.queue := by
  simp only [World.deferBudgetClaim, ite_error_eq_ok] at deferred
  obtain ⟨nonzero, -, -, deferred⟩ := deferred
  cases deferred
  simp only [Bool.or_eq_true, decide_eq_true_eq, not_or] at nonzero
  apply changes_settleJobs
  constructor
  · intro row member met
    obtain ⟨-, -, attempts, running⟩ := of_heldBy met
    refine ⟨rfl, rfl, by simp [running], ?_, ?_⟩
    · intro counted
      have charged := one_le_of_asI32 nonzero.1 (attempts ▸ counted)
      simp only
      split <;> omega
    · intro _
      refine ⟨running, rfl, ?_⟩
      simp only
      split <;> simp
  · exact .inl rfl
  · intro steady row member met live
    cases exhausted : !refund && decide (row.attempts ≥ world.maxJobAttempts) with
    | true => simp [JobRow.isLive, exhausted] at live
    | false =>
      -- the job runs on, until a later time
      simp only [JobRow.isLive, exhausted, Bool.false_eq_true, ↓reduceIte, beq_self_eq_true, Bool.true_and,
        Option.any_some, decide_eq_true_eq] at live
      have charged : refund = true ∨ row.attempts < world.maxJobAttempts := by
        cases refund with
        | true => exact .inl rfl
        | false => exact .inr (by simpa using exhausted)
      refine (steady row member met live charged).imp_right ?_
      intro free other
      rw [(hasOtherLive_iff).mpr other] at free
      cases free
  · intro row _ other _ met met' _ _
    rw [(of_heldBy met).1, (of_heldBy met').1]

theorem changes_adoptExplicitJob {id requestId recoveryAt : ℕ} {owners : List Owner}
    (adopted : world.adoptExplicitJob id requestId recoveryAt owners = .ok next) :
    Queue.Changes steady world.queue next.queue := by
  simp only [World.adoptExplicitJob, ite_error_eq_ok] at adopted
  obtain ⟨-, adopted⟩ := adopted
  cases adopted
  apply Relation.ReflTransGen.single
  apply Queue.Change.rebind
  intro row member met
  exact ⟨rfl, rfl, rfl, rfl, rfl, rfl, rfl⟩

/-- A later version of one object. -/
theorem objectsMove_raise {object : ObjectId} {version : ℕ} (bound : ∀ row ∈ world.objects, row.object = object → row.version ≤ version) :
    ObjectsMove world.objects (world.updateObject object fun old => { old with version }).objects := by
  apply ObjectsMove.update
  · intro row _ _
    rfl
  · intro row member met
    exact bound row member (beq_iff_eq.mp met)
  · intro row _ _ withdrawn
    exact withdrawn

theorem changes_adoptBackgroundBudgetWait {object : ObjectId} {revisionId : Str} {effectiveDate : Option Str}
    {observedVersion : ℕ} {sourceMetadata : Map Str Str} {launch : Collection.CollectionLaunch} {owners : List Owner}
    (keyed : Keyed ObjectRow.object world.objects)
    (adopted : world.adoptBackgroundBudgetWait object revisionId effectiveDate observedVersion sourceMetadata launch owners =
      .ok next) : Queue.Changes steady world.queue next.queue := by
  simp only [World.adoptBackgroundBudgetWait, ite_error_eq_ok] at adopted
  obtain ⟨-, -, adopted⟩ := adopted
  split at adopted
  · cases adopted
  simp only [ite_error_eq_ok] at adopted
  obtain ⟨-, -, -, adopted⟩ := adopted
  split at adopted
  · cases adopted
    exact .refl
  next row found =>
  split at adopted
  · cases adopted
    exact .refl
  next current =>
  split at adopted
  · cases adopted
    exact .refl
  split at adopted
  · cases adopted
    exact .refl
  next job candidate =>
  cases adopted
  simp only [Bool.not_eq_true', Bool.not_eq_false, Bool.and_eq_true, beq_iff_eq] at current
  obtain ⟨member, owned⟩ := World.object?_mem found
  have running : job.status = .running := by
    have adoptable := List.find?_some candidate
    simp only [World.adoptable, Bool.and_eq_true, beq_iff_eq] at adoptable
    exact adoptable.1.1.1.1.1.1.2
  have raised : ObjectsMove world.objects (world.updateObject object fun old => { old with version := observedVersion + 1 }).objects := by
    apply objectsMove_raise
    intro other present same
    rw [keyed.eq_of_key present member (same.trans owned.symm), current.2]
    omega
  refine Relation.ReflTransGen.tail (.single (.objects _ raised)) (.reset job _ (.adopted job.id) ?_ ?_)
  · exact List.mem_of_find?_eq_some candidate
  · exact ⟨rfl, rfl, rfl, fun counted => counted, .inr ⟨rfl, by simp [running]⟩⟩

theorem of_nextJob {claim : World.Claim} {row : JobRow} (found : world.nextJob claim = some row) :
    row ∈ world.jobs ∧ row.status ≠ .done ∧ ¬ world.queue.HasOtherLive row := by
  have candidate := firstBy_mem found
  simp only [List.mem_filter, Option.any_eq_true] at candidate
  obtain ⟨member, object, -, claimable⟩ := candidate
  simp only [World.claimable, Bool.and_eq_true, Bool.or_eq_true, beq_iff_eq] at claimable
  refine ⟨member, ?_, ?_⟩
  · rcases claimable.2 with pending | ⟨running, -⟩
    · simp [pending]
    · simp [running]
  · rw [← hasOtherLive_iff]
    simpa using claimable.1.1.2

theorem changes_claimJobInner {claim : World.Claim}
    (claimed : world.claimJobInner claim = .ok next) : Queue.Changes steady world.queue next.queue := by
  simp only [World.claimJobInner, ite_error_eq_ok] at claimed
  obtain ⟨-, claimed⟩ := claimed
  split at claimed
  · cases claimed
    exact .refl
  split at claimed
  · cases claimed
    exact .refl
  next row candidate =>
  split at claimed
  · cases claimed
  next object found =>
  cases claimed
  obtain ⟨member, unfinished, alone⟩ := of_nextJob candidate
  obtain ⟨present, owned⟩ := World.object?_mem found
  apply Relation.ReflTransGen.single
  refine .claim row object _ _ _ member present owned rfl rfl rfl rfl unfinished rfl rfl rfl rfl alone ?_ ?_
  · apply ObjectsMove.update
    · intro other _ _
      rfl
    · intro other _ _
      exact Nat.le_succ _
    · intro other _ _ withdrawn
      exact withdrawn
  · refine ⟨{ object with version := object.version + 1 }, ?_, owned, rfl⟩
    apply mem_updateWhere.mpr
    refine ⟨object, present, ?_⟩
    rw [if_pos (by simpa using owned)]

/-- The jobs of another HEAD revision give way. -/
theorem settlement_superseded {request : Enqueue} :
    world.queue.Settlement steady request.supersedes (JobRow.superseded world.now) .superseded where
  settles := by
    intro row member met
    simp only [Enqueue.supersedes, JobRow.isOpen, Bool.and_eq_true, Bool.or_eq_true, beq_iff_eq] at met
    refine ⟨rfl, rfl, ?_, fun counted => counted, by simp [JobRow.superseded]⟩
    rcases met.2 with status | status <;> simp [status]
  kind := .inr (.inl rfl)
  live := by
    intro _ row member met live
    simp [JobRow.isLive, JobRow.superseded] at live
  single := by
    intro row _ other _ _ _ live
    simp [JobRow.isLive, JobRow.superseded] at live

theorem changes_observeHead {request : Enqueue} {row : ObjectRow} (keyed : Keyed ObjectRow.object world.objects)
    (member : row ∈ world.objects) (owned : row.object = request.object) :
    Queue.Changes steady world.queue (world.observeHead request row).queue := by
  unfold World.observeHead
  split
  · have raised : ObjectsMove world.objects (world.updateObject request.object fun old => { old with
        desiredHeadRevision := some request.revisionId
        pending := old.pending || request.markHeadPending
        version := request.version row }).objects := by
      apply ObjectsMove.update
      · intro other _ _
        rfl
      · intro other present met
        rw [keyed.eq_of_key present member ((beq_iff_eq.mp met).trans owned.symm)]
        exact Nat.le_add_right _ _
      · intro other _ _ withdrawn
        exact withdrawn
    exact Relation.ReflTransGen.tail (.single (.settle _ _ _ settlement_superseded)) (.objects _ raised)
  · exact .refl

theorem changes_placeJob {request : Enqueue} {version : ℕ} :
    Queue.Changes steady world.queue (world.placeJob request version).1.queue := by
  unfold World.placeJob
  split
  · next row found =>
    split
    · apply Relation.ReflTransGen.single
      apply Queue.Change.reset row _ (.enqueued row.id) (List.mem_of_find?_eq_some found)
      exact ⟨rfl, rfl, rfl, fun _ => Int.le_refl _, .inl rfl⟩
    · apply Relation.ReflTransGen.single
      apply Queue.Change.objects
      apply ObjectsMove.update
      · intro other _ _
        rfl
      · intro other _ _
        exact Nat.le_refl _
      · intro other _ _ withdrawn
        exact withdrawn
  · split
    · exact .refl
    · split
      · next row found =>
        have names := List.find?_some found
        simp only [Enqueue.names, Bool.and_eq_true, beq_iff_eq] at names
        apply Relation.ReflTransGen.single
        apply Queue.Change.reset row _ (.enqueued row.id) (List.mem_of_find?_eq_some found)
        exact ⟨rfl, names.1.1.symm, rfl, fun _ => Int.le_refl _, .inl rfl⟩
      · split
        · exact .refl
        · next fresh =>
          apply Relation.ReflTransGen.single
          exact .insert (request.newRow world.now version) (by simpa [Enqueue.newRow, World.queue] using fresh) rfl rfl

theorem changes_ensureObject (object : ObjectId) :
    Queue.Changes steady world.queue (world.ensureObject object).1.queue := by
  obtain ⟨objects, equal, moves, -, -⟩ := world.ensureObject_spec object
  rw [equal]
  exact .single (.objects _ moves)

theorem changes_enqueue {request : Enqueue} (keyed : Keyed ObjectRow.object world.objects) :
    Queue.Changes steady world.queue (world.enqueueJobWithOwner request).1.queue := by
  unfold World.enqueueJobWithOwner
  obtain ⟨objects, equal, moves, member, owned⟩ := world.ensureObject_spec request.object
  have present : Queue.Changes steady world.queue (world.ensureObject request.object).1.queue := changes_ensureObject _
  generalize world.ensureObject request.object = ensured at equal member owned present ⊢
  obtain ⟨ensured, row⟩ := ensured
  subst equal
  split
  · exact .refl
  dsimp only
  split
  · exact .refl
  split
  · exact .refl
  split
  · exact .refl
  have placed : Queue.Changes steady world.queue
      ((({ world with objects } : World).observeHead request row).placeJob request (request.version row)).1.queue :=
    (present.trans (changes_observeHead (moves.keyed keyed) member owned)).trans changes_placeJob
  split
  · next result => rwa [result] at placed
  · next result => rwa [result] at placed
  · exact .refl

/-! ## Publication and maintenance -/

theorem queue_setPublisher (index : ℕ) (publisher : Publisher) : (world.setPublisher index publisher).queue = world.queue := rfl

/-- The job that an authorized publication settles. -/
theorem changes_finishJob {commit : World.Committing} {queue : Queue}
    (before : Queue.Changes steady queue world.queue) (authorized : world.authorized commit = true) :
    Queue.Changes steady queue (world.finishJob commit).queue := by
  unfold World.finishJob
  split
  · exact before
  · next id claimed =>
    simp only [World.authorized, claimed, Option.all_some, List.any_eq_true, Bool.and_eq_true, beq_iff_eq] at authorized
    obtain ⟨row, member, ⟨⟨⟨⟨⟨rfl, owned⟩, -⟩, version⟩, live⟩, valid⟩, -⟩ := authorized
    refine Relation.ReflTransGen.tail before (.publish row _ _ member ?_ ?_ (status_of_isLive live) ?_ rfl rfl rfl rfl)
    · simp [owned, version]
    · intro other met
      simp only [Bool.and_eq_true, beq_iff_eq] at met
      exact met.1.1
    · simpa using valid

theorem authorized_of_jobs {other : World} {commit : World.Committing} (jobs : other.jobs = world.jobs)
    (authorized : world.authorized commit = true) : other.authorized commit = true := by
  rw [World.authorized, jobs]
  exact authorized

/-- A step of the object of a publication that keeps its withdrawal. -/
theorem objectsMove_publish {object : ObjectId} {change : ObjectRow → ObjectRow}
    (same : ∀ row, (change row).object = row.object) (version : ∀ row, row.version ≤ (change row).version)
    (withdrawn : ∀ row, (change row).withdrawn = row.withdrawn) :
    ObjectsMove world.objects (world.updateObject object change).objects := by
  apply ObjectsMove.update
  · intro row _ _
    exact same row
  · intro row _ _
    exact version row
  · intro row _ _ held
    rw [withdrawn, held]

theorem changes_commitDuplicate {commit : World.Committing} {old : CaptureRow} (authorized : world.authorized commit = true) :
    Queue.Changes steady world.queue (world.commitDuplicate commit old).queue := by
  unfold World.commitDuplicate
  extract_lets publication incomplete validated seen
  have moved : Queue.Changes steady world.queue validated.queue := by
    dsimp only [validated]
    split
    · apply Relation.ReflTransGen.single
      apply Queue.Change.objects
      apply objectsMove_publish
      · intro row
        rfl
      · intro row
        exact Nat.le_succ _
      · intro row
        rfl
    · exact .refl
  have jobs : validated.jobs = world.jobs := by
    dsimp only [validated]
    split <;> rfl
  have seenQueue : seen.queue = validated.queue := by
    dsimp only [seen]
    split <;> rfl
  apply changes_finishJob
  · change Queue.Changes steady world.queue seen.queue
    rw [seenQueue]
    exact moved
  · apply authorized_of_jobs _ authorized
    change seen.jobs = _
    rw [← jobs]
    exact congrArg Queue.jobs seenQueue

theorem queue_recordRevision {commit : World.Committing} {capture : CaptureRow} :
    (world.recordRevision commit capture).queue = world.queue := by
  unfold World.recordRevision
  dsimp only
  split
  · rfl
  · split <;> rfl

theorem changes_commitCapture {commit : World.Committing} {source : Blob}
    (unwithdrawn : ∀ row ∈ world.objects, row.object = commit.publication.record.object → row.withdrawn = false)
    (authorized : world.authorized commit = true) :
    Queue.Changes steady world.queue (world.commitCapture commit source).queue := by
  unfold World.commitCapture
  extract_lets publication capture recorded headed
  have queue : recorded.queue = { world.queue with captures := world.queue.captures ++ [capture] } := queue_recordRevision
  have jobs : recorded.jobs = world.jobs := congrArg Queue.jobs queue
  have added : Queue.Changes steady world.queue recorded.queue := by
    rw [queue]
    exact .single (.capture capture unwithdrawn)
  have moved : Queue.Changes steady world.queue headed.queue := by
    refine added.tail (.objects _ (objectsMove_publish ?_ ?_ ?_))
    · intro row
      rfl
    · intro row
      exact Nat.le_succ _
    · intro row
      rfl
  apply changes_finishJob
  · exact moved
  · exact authorized_of_jobs jobs authorized

/-- What a publication that commits has found. -/
structure Commits (sha256 : Bytes → Bytes) (world : World) (publisher : Publisher) (present : World)
    (commit : World.Committing) (source : Blob) : Prop where
  objects : ∃ objects, present = { world with objects } ∧ ObjectsMove world.objects objects ∧ commit.object ∈ objects
  publication : commit.publication = publisher.publication
  previous : commit.previous = publisher.previous
  staged : commit.staged = publisher.staged
  object : commit.object.object = publisher.publication.record.object
  now : commit.now = max publisher.publication.now world.now
  unwithdrawn : commit.object.withdrawn = false
  authorized : present.authorized commit = true
  version : commit.object.version = publisher.publication.expectedVersion
  reserved : ∀ blob ∈ publisher.staged, ∃ row ∈ world.staging, row.blob.storageKey = blob.storageKey
  source : ∃ rest, publisher.staged = source :: rest
  ensured : present = (world.ensureObject publisher.publication.record.object).1
  row : commit.object = (world.ensureObject publisher.publication.record.object).2

theorem commitPublication_ok {sha256 : Bytes → Bytes} {publisher : Publisher}
    (committed : world.commitPublication sha256 publisher = .ok next) :
    ∃ present commit source, Commits sha256 world publisher present commit source ∧
      ((∃ old, publisher.previous = some old ∧ commit.duplicates present sha256 old = true ∧
          next = present.commitDuplicate commit old) ∨
        ((∀ old, publisher.previous = some old → commit.duplicates present sha256 old = false) ∧
          next = present.commitCapture commit source)) := by
  obtain ⟨objects, equal, moves, member, owned⟩ := world.ensureObject_spec publisher.publication.record.object
  simp only [World.commitPublication, ite_error_eq_ok] at committed
  obtain ⟨unwithdrawn, -, -, authorized, version, reserved, committed⟩ := committed
  simp only [Bool.not_eq_true', Bool.not_eq_false, List.all_eq_true, List.any_eq_true, beq_iff_eq, Decidable.not_not,
    Bool.not_eq_true] at unwithdrawn authorized version reserved
  split at committed
  · cases committed
  next source rest staged =>
  refine ⟨_, ⟨publisher.publication, publisher.previous, publisher.staged,
    (world.ensureObject publisher.publication.record.object).2, max publisher.publication.now world.now⟩, source,
    ⟨⟨objects, equal, moves, member⟩, rfl, rfl, rfl, owned, rfl, unwithdrawn, authorized, version, reserved, ⟨rest, staged⟩,
      rfl, rfl⟩, ?_⟩
  split at committed
  · next old previous =>
    split at committed
    · next duplicates =>
      cases committed
      exact .inl ⟨old, previous, duplicates, rfl⟩
    · next duplicates =>
      cases committed
      refine .inr ⟨?_, rfl⟩
      intro other same
      rw [previous] at same
      cases same
      simpa using duplicates
  · next previous =>
    cases committed
    refine .inr ⟨?_, rfl⟩
    intro other same
    rw [previous] at same
    cases same

theorem changes_commitPublication {sha256 : Bytes → Bytes} {publisher : Publisher}
    (keyed : Keyed ObjectRow.object world.objects)
    (committed : world.commitPublication sha256 publisher = .ok next) : Queue.Changes steady world.queue next.queue := by
  obtain ⟨present, commit, source, facts, outcome⟩ := commitPublication_ok committed
  obtain ⟨objects, rfl, moves, member⟩ := facts.objects
  have ensured : Queue.Changes steady world.queue ({ world with objects } : World).queue := .single (.objects _ moves)
  rcases outcome with ⟨old, -, -, rfl⟩ | ⟨-, rfl⟩
  · exact ensured.trans (changes_commitDuplicate facts.authorized)
  · refine ensured.trans (changes_commitCapture ?_ facts.authorized)
    intro row found same
    rw [facts.publication, ← facts.object] at same
    rw [(moves.keyed keyed).eq_of_key found member same]
    exact facts.unwithdrawn

theorem changes_revalidate {object : ObjectId} {captureId expectedVersion : ℕ}
    (revalidated : world.revalidate object captureId expectedVersion = .ok next) :
    Queue.Changes steady world.queue next.queue := by
  simp only [World.revalidate, bind_eq_ok, ite_error_eq_ok] at revalidated
  obtain ⟨-, -, -, -, revalidated⟩ := revalidated
  cases revalidated
  apply Relation.ReflTransGen.single
  apply Queue.Change.objects
  apply ObjectsMove.update
  · intro row _ _
    rfl
  · intro row _ _
    exact Nat.le_succ _
  · intro row _ _ withdrawn
    exact withdrawn

theorem changes_withdraw {object : ObjectId} {expectedVersion : ℕ}
    (withdrawn : world.withdraw object expectedVersion = .ok next) : Queue.Changes steady world.queue next.queue := by
  simp only [World.withdraw, bind_eq_ok, ite_error_eq_ok] at withdrawn
  obtain ⟨-, -, -, -, withdrawn⟩ := withdrawn
  cases withdrawn
  apply Relation.ReflTransGen.single
  apply Queue.Change.objects
  apply ObjectsMove.update
  · intro row _ _
    rfl
  · intro row _ _
    exact Nat.le_succ _
  · intro row _ _ _
    rfl

theorem changes_cleanup {intents jobs stages : List ℕ} {held : Bool} :
    Queue.Changes steady world.queue (world.cleanup intents jobs stages held).queue := by
  apply Relation.ReflTransGen.single
  apply Queue.Change.settle _ _ .retired
  constructor
  · intro row member met
    simp only [Bool.and_eq_true, Bool.or_eq_true, beq_iff_eq] at met
    refine ⟨rfl, rfl, ?_, fun counted => counted, by simp⟩
    rcases met.2 with pending | ⟨running, -⟩
    · simp [pending]
    · simp [running]
  · exact .inr (.inr rfl)
  · intro _ row member met live
    simp [JobRow.isLive] at live
  · intro row _ other _ _ _ live
    simp [JobRow.isLive] at live

theorem changes_reserve {sha256 : Bytes → Bytes} {index : ℕ} {publisher : Publisher} {generations : List ℕ}
    (reserved : world.reserve sha256 index publisher generations = .ok next) :
    Queue.Changes steady world.queue next.queue := by
  simp only [World.reserve, ite_error_eq_ok] at reserved
  obtain ⟨-, -, -, -, reserved⟩ := reserved
  cases reserved
  exact .single (.issue generations)

theorem queue_beginPublish {parsers : Parsers} {sha256 : Bytes → Bytes} {publication : Publication}
    (begun : world.beginPublish parsers sha256 publication = .ok next) : next.queue = world.queue := by
  simp only [World.beginPublish, bind_eq_ok] at begun
  obtain ⟨-, -, previous, -, begun⟩ := begun
  cases begun
  rfl

theorem changes_publishStep {sha256 : Bytes → Bytes} {index : ℕ} {publisher : Publisher} {event : Event}
    (keyed : Keyed ObjectRow.object world.objects) :
    Queue.Changes steady world.queue (world.publishStep sha256 index publisher event).queue := by
  unfold World.publishStep
  split
  · split
    · next generations _ _ =>
      cases reserved : world.reserve sha256 index publisher generations with
      | ok next => exact changes_reserve reserved
      | error error => exact .refl
    · exact .refl
  · split
    · split
      · exact .refl
      · exact .refl
    · exact .refl
  · split
    · split
      · rw [queue_setPublisher]
        cases committed : world.commitPublication sha256 publisher with
        | ok next => exact changes_commitPublication keyed committed
        | error error => exact .refl
      · exact .refl
    · exact .refl
  · exact .refl
  · exact .refl

theorem queue_maintainStep {index : ℕ} {maintainer : Maintainer} {event : Event} :
    (world.maintainStep index maintainer event).queue = world.queue := by
  unfold World.maintainStep
  split
  · split <;> rfl
  · split <;> rfl
  · rfl

/-- Every step is a chain of changes, and a steady one keeps the exclusion. -/
theorem changes_step (parsers : Parsers) (sha256 : Bytes → Bytes) (keyed : Keyed ObjectRow.object world.objects)
    (event : Event) :
    Queue.Changes (world.Steady event) world.queue (world.step parsers sha256 event).queue := by
  cases event with
  | tick seconds => exact .single (.pass seconds)
  | configure maxJobAttempts => exact .refl
  | enqueue request => exact changes_enqueue keyed
  | adoptBackgroundBudgetWait object revisionId effectiveDate observedVersion sourceMetadata launch owners =>
    simp only [World.step]
    cases adopted : world.adoptBackgroundBudgetWait object revisionId effectiveDate observedVersion sourceMetadata launch
      owners with
    | ok next => exact changes_adoptBackgroundBudgetWait keyed adopted
    | error error => exact .refl
  | adoptExplicitJob id requestId recoveryAt owners =>
    simp only [World.step]
    cases adopted : world.adoptExplicitJob id requestId recoveryAt owners with
    | ok next => exact changes_adoptExplicitJob adopted
    | error error => exact .refl
  | claim claim =>
    simp only [World.step]
    cases claimed : world.claimJobInner claim with
    | ok next => exact changes_claimJobInner claimed
    | error error => exact .refl
  | failClaim job retry =>
    simp only [World.step]
    cases failed : world.failClaim job retry with
    | ok next => exact changes_failClaim failed
    | error error => exact .refl
  | releaseAdmissionWait job =>
    simp only [World.step]
    cases released : world.releaseAdmissionWait job with
    | ok next => exact changes_releaseAdmissionWait released
    | error error => exact .refl
  | deferStorageClaim job =>
    simp only [World.step]
    cases deferred : world.deferStorageClaim job with
    | ok next => exact changes_deferStorageClaim deferred
    | error error => exact .refl
  | deferBudgetClaim job resumeAt refund =>
    simp only [World.step]
    cases deferred : world.deferBudgetClaim job resumeAt refund with
    | ok next => exact changes_deferBudgetClaim deferred
    | error error => exact .refl
  | beginPublish publication =>
    simp only [World.step]
    cases begun : world.beginPublish parsers sha256 publication with
    | ok next =>
      change Queue.Changes _ _ next.queue
      rw [queue_beginPublish begun]
      exact .refl
    | error error => exact .refl
  | reserve index generations | write index stored failed | commit index | abandon index =>
    simp only [World.step]
    split
    · exact changes_publishStep keyed
    · exact .refl
  | revalidate object captureId expectedVersion =>
    simp only [World.step]
    cases revalidated : world.revalidate object captureId expectedVersion with
    | ok next => exact changes_revalidate revalidated
    | error error => exact .refl
  | withdraw object expectedVersion =>
    simp only [World.step]
    cases withdrawn : world.withdraw object expectedVersion with
    | ok next => exact changes_withdraw withdrawn
    | error error => exact .refl
  | cleanup intents jobs stages held => exact changes_cleanup
  | readQueue batch => exact .refl
  | deleteBlob index removed failed | removeDeletion index removed failed =>
    simp only [World.step]
    split
    · rw [queue_maintainStep]
      exact .refl
    · exact .refl

end Operations

end OpenLegal.Corpus.Database
