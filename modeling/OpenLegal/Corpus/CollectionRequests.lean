import OpenLegal.Legal.Collection
import OpenLegal.Legal.SearchIndex
import OpenLegal.Admission.Ledger
import OpenLegal.Theory.Table
import Mathlib

/-! # Collection requests in the database

The table `collection_request` queues explicit and on-demand requests for collection. A scheduler claims a row,
launches a Job for it and acknowledges the launch; the Job settles the row, or the scheduler finds the Job finished
or its lease run out. The epoch of a launch is its `launched_at`.

Every call is one serialized transaction. A call that fails or is cancelled leaves no trace. Identifiers are UUIDs of
version 7, which the database generates and never repeats; they are numbers here. The column
`provider_deferral_fingerprint`, which none of these calls reads, is left out.
-/

namespace OpenLegal.Corpus.Collection

open Rust Rust.Str Legal Theory
open Admission (RequestLimit)

inductive Status where
  | queued
  | launching
  | running
  | done
  | skipped
  | deferred
  | failed
deriving DecidableEq, Repr

namespace Status

/-- `status IN ('launching','running')`. -/
def isLaunched : Status → Bool
  | .launching | .running => true
  | .queued | .done | .skipped | .deferred | .failed => false

/-- `status IN ('queued','launching','running','deferred')`. -/
def isActive : Status → Bool
  | .queued | .launching | .running | .deferred => true
  | .done | .skipped | .failed => false

/-- `status IN ('done','skipped','failed')`. -/
def isTerminal : Status → Bool
  | .done | .skipped | .failed => true
  | .queued | .launching | .running | .deferred => false

end Status

/-- The key a row is found under: the canonical one, or the digest that replaces it when the row is retired. -/
inductive RequestKey (κ : Type) where
  | canonical (key : κ)
  | retired (key : κ) (id : ℕ)
deriving DecidableEq

/-- A row of `collection_request`. The payload `{}` of a settled row is `none`. -/
structure Row (κ : Type) where
  id : ℕ
  requestKey : RequestKey κ
  canonicalKey : κ
  payload : Option CollectionRequest
  status : Status
  reason : Option Str
  createdAt : ℕ
  expiresAt : ℕ
  leaseUntil : Option ℕ
  jobName : Option Str
  operationTimeoutSecs : ℕ
  operationAttemptLimit : Option ℕ
  launchedAt : Option ℕ
  completedAt : Option ℕ
  explicitUntil : Option ℕ
deriving DecidableEq

/-- Private launch policy: never included in public request identity or payload. -/
structure CollectionLaunch where
  id : ℕ
  request : CollectionRequest
  timeoutSecs : ℕ
  attemptLimit : RequestLimit
  launchedAt : ℕ
  observedAt : ℕ
deriving DecidableEq

structure CollectionReceipt where
  requestId : ℕ
  status : Status
  retryAfterSeconds : ℕ
  reason : Option Str
deriving DecidableEq

inductive DemandCollectionState where
  | disabled
  | fresh
  | unsupported
  | pending
  | unavailable
deriving DecidableEq, Repr

structure DemandCollectionStatus where
  status : DemandCollectionState
  receipt : Option CollectionReceipt
  reason : Option Str
deriving DecidableEq

/-- What `corpus_object` says about the object of a request. -/
structure Head where
  withdrawn : Bool
  fresh : Option Bool
deriving DecidableEq, Repr

/-- Lower case, and the digest of a serialized request. -/
structure Texts (κ : Type) where
  unicode : Unicode
  lowercase : Str → Str
  digest : CollectionRequest → κ

/-- `CollectionRequest::normalized`. -/
def Texts.normalized {κ : Type} (texts : Texts κ) (request : CollectionRequest) : CollectionRequest :=
  match request.target with
  | .search mode term datasets =>
    let datasets :=
      if datasets.isEmpty then
        [.nationalStatute, .administrativeRule, .ordinance, .treaty, .precedent, .constitutionalDecision,
          .legalInterpretation, .administrativeAppeal]
      else datasets
    ⟨.search mode (texts.lowercase term)
      (datasets.insertionSort fun a b => a.debugName ≤ b.debugName)⟩
  | .object _ | .precedentCase _ _ => request

/-- The table, the clock of the database and the time of the scheduler's last heartbeat. `issued` are the identifiers
generated so far, `launches` the launches that claims have returned, the latest last. -/
structure World (κ : Type) where
  now : ℕ
  schedulerSeenAt : ℕ
  rows : List (Row κ)
  issued : List ℕ
  launches : List CollectionLaunch
deriving DecidableEq

def World.initial (κ : Type) (now : ℕ) : World κ :=
  { now, schedulerSeenAt := 0, rows := [], issued := [], launches := [] }

section

variable {κ : Type} [DecidableEq κ]

/-- The trigger `collection_change`. -/
def Row.stamped (now : ℕ) (old new : Row κ) : Row κ :=
  if old.status ≠ new.status ∧ new.status.isTerminal = true then { new with completedAt := some now } else new

/-- `UPDATE openlegal.collection_request SET change WHERE meets`. -/
def World.update (world : World κ) (meets : Row κ → Bool) (change : Row κ → Row κ) : World κ :=
  { world with rows := updateWhere meets (fun row => row.stamped world.now (change row)) world.rows }

/-- Whether some row meets a condition, so that an update changes it. -/
def World.has (world : World κ) (meets : Row κ → Bool) : Bool := world.rows.any meets

/-- An active row that is unexpired, launching or running. -/
def Row.isLive (now : ℕ) (row : Row κ) : Bool :=
  row.status.isActive && (decide (row.expiresAt > now) || row.status.isLaunched)

/-- `ORDER BY created_at DESC,id DESC`. -/
def Row.later (a b : Row κ) : Bool := b.createdAt < a.createdAt || (b.createdAt == a.createdAt && b.id < a.id)

/-- `ORDER BY created_at,id`. -/
def Row.earlier (a b : Row κ) : Bool := b.later a

/-- `ORDER BY completed_at DESC NULLS LAST,created_at DESC,id DESC`. -/
def Row.completedLater (a b : Row κ) : Bool :=
  match a.completedAt, b.completedAt with
  | some _, none => true
  | none, some _ => false
  | none, none => a.later b
  | some completed, some other => other < completed || (other == completed && a.later b)

def receiptRetryAfter (status : Status) (leaseUntil : Option ℕ) (observedAt : ℕ) : Except DatabaseError ℕ :=
  match status with
  | .deferred =>
    match leaseUntil with
    | none => .error .storageCorrupt
    | some deadline => .ok (min (deadline - observedAt) (2 ^ 32 - 1))
  | .queued | .launching | .running => .ok 10
  | .done | .skipped | .failed => .ok 0

def receiptFromRow (row : Row κ) (observedAt : ℕ) : Except DatabaseError CollectionReceipt := do
  let retryAfterSeconds ← receiptRetryAfter row.status row.leaseUntil observedAt
  pure { requestId := row.id, status := row.status, retryAfterSeconds, reason := row.reason }

def settlementReasons : List Str :=
  ["ambiguous", "source_inventory_incomplete", "not_found", "source_data_invalid", "source_unavailable",
    "download_failed", "identity_conflict", "worker_failed", "worker_lost", "collection_pending", "already_fresh",
    "collection_already_in_progress", "head_observation_superseded", "publication_superseded", "no_matches",
    "multiple_skip_reasons", "provider_daily_limit", "provider_suspended", "provider_response_uncertain",
    "provider_retry_after", "operation_attempt_limit", "provider_admission_wait", "capacity_wait",
    "provider_recovery_hold", "index_input_limit"].map String.toList

def validateSettlementReason (reason : Option Str) : Except DatabaseError Unit :=
  if reason.any fun value => !settlementReasons.contains value then .error .invalidInput else .ok ()

def validJobName (jobName : Str) : Bool :=
  !jobName.isEmpty && byteLen jobName ≤ 63 && jobName.all fun c => isAsciiLowercase c || isAsciiDigit c || c == '-'

/-- What a finished row is turned into: its payload is cleared. -/
def Row.failedFor (reason : Str) (row : Row κ) : Row κ :=
  { row with status := .failed, payload := none, leaseUntil := none, reason := some reason }

namespace World

def heartbeatCollectionScheduler (world : World κ) : World κ := { world with schedulerSeenAt := world.now }

/-- The row of the query in `claim_collection_request_with_policy`. -/
def claimable (world : World κ) : Option (Row κ) :=
  firstBy Row.earlier (world.rows.filter fun row =>
    decide (row.expiresAt > world.now) &&
      (row.status == .queued || (row.status == .deferred && row.leaseUntil.any (· ≤ world.now))))

/-- The epoch of the next launch of a row. -/
def nextEpoch (now : ℕ) (row : Row κ) : ℕ := max now (row.launchedAt.getD 0 + 1)

/-- The update of a claim, `elapsed` seconds after its query. -/
def launch (world : World κ) (row : Row κ) (request : CollectionRequest) (timeoutSecs : ℕ) (attemptLimit : RequestLimit)
    (elapsed : ℕ) : World κ :=
  let epoch := nextEpoch (world.now + elapsed) row
  let claimed := { world with now := world.now + elapsed }.update (fun other => other.id == row.id) fun other =>
    { other with
      status := .launching
      jobName := none
      launchedAt := some epoch
      operationTimeoutSecs := timeoutSecs
      operationAttemptLimit := attemptLimit.asOption
      leaseUntil := some (epoch + timeoutSecs + 900) }
  { claimed with
    launches := world.launches ++
      [{ id := row.id, request, timeoutSecs, attemptLimit, launchedAt := epoch, observedAt := world.now + elapsed }] }

/-- `held` is what `openlegal_admin.provider_held()` returns. -/
def claimCollectionRequestWithPolicy (texts : Texts κ) (world : World κ) (timeoutSecs : ℕ) (attemptLimit : RequestLimit)
    (held : Bool) (elapsed : ℕ) : Except DatabaseError (World κ) :=
  if ¬ (60 ≤ timeoutSecs ∧ timeoutSecs ≤ 86400) then .error .invalidInput
  else if !attemptLimit.valid then .error .invalidInput
  else if held then .ok world
  else if world.rows.countP (·.status.isLaunched) ≥ 16 then .ok world
  else
    match world.claimable with
    | none => .ok world
    | some row =>
      match row.payload with
      | none => .error .storageCorrupt
      | some request => do
        request.validate texts.unicode
        -- the new epoch and lease have to fit their columns
        if nextEpoch (world.now + elapsed) row + timeoutSecs + 900 ≥ 2 ^ 63 then .error .storageUnavailable
        else pure (world.launch row request timeoutSecs attemptLimit elapsed)

def markCollectionLaunchRunning (world : World κ) (launch : CollectionLaunch) (jobName : Str) :
    Except DatabaseError (World κ) :=
  let meets := fun row : Row κ => row.id == launch.id && row.status == .launching &&
    row.launchedAt == some launch.launchedAt && row.leaseUntil.any (· > world.now)
  if !validJobName jobName then .error .invalidInput
  else if launch.launchedAt ≥ 2 ^ 63 then .error .invalidInput
  else if world.has meets then
    .ok (world.update meets fun row => { row with status := .running, jobName := some jobName })
  else
    -- a fast Pod can finish before the acknowledgement, and a repeated acknowledgement changes nothing
    match world.rows.find? fun row => row.id == launch.id && row.launchedAt == some launch.launchedAt with
    | none => .error .conflict
    | some row =>
      if row.status.isTerminal || row.status == .deferred || (row.status == .running && row.jobName == some jobName) then
        .ok world
      else .error .conflict

def settleCollectionLaunch (world : World κ) (launch : CollectionLaunch) (status : Status) (reason : Option Str)
    (deferredUntil : Option ℕ) : Except DatabaseError (World κ) :=
  let meets := fun row : Row κ => row.id == launch.id && row.status.isLaunched &&
    row.launchedAt == some launch.launchedAt && row.leaseUntil.any (· > world.now)
  if !(status.isTerminal || status == .deferred) || (status == .deferred) ≠ deferredUntil.isSome then
    .error .invalidInput
  else
    match validateSettlementReason reason with
    | .error error => .error error
    | .ok () =>
      if deferredUntil.any (· ≥ 2 ^ 63) then .error .invalidInput
      -- the epoch is sent as text and does not fit the column
      else if launch.launchedAt ≥ 2 ^ 63 then .error .storageUnavailable
      else if world.has meets then
        .ok (world.update meets fun row =>
          { row with
            status
            payload := if status = .deferred then row.payload else none
            leaseUntil := deferredUntil
            reason })
      else .error .conflict

def failFinishedCollectionLaunch (world : World κ) (id : ℕ) (jobName : Str) (epoch : ℕ) :
    Except DatabaseError (World κ) :=
  if epoch ≥ 2 ^ 63 then .error .invalidInput
  else
    .ok (world.update
      (fun row => row.id == id && row.launchedAt == some epoch &&
        ((row.status == .running && row.jobName == some jobName) || (row.status == .launching && row.jobName.isNone)))
      (Row.failedFor "worker_failed".toList))

def pruneCollectionRequests (world : World κ) : World κ :=
  { world with rows := world.rows.filter fun row => !(decide (row.expiresAt < world.now) && !row.status.isLaunched) }

def reapStaleCollectionRequests (world : World κ) : World κ :=
  world.update (fun row => row.status.isLaunched && row.leaseUntil.any (· < world.now))
    (Row.failedFor "worker_lost".toList)

/-- The active request that a new one of the same key shares. -/
def activeRequest (world : World κ) (canonical : κ) : Option (Row κ) :=
  firstBy Row.later (world.rows.filter fun row => row.canonicalKey == canonical && row.isLive world.now)

/-- The settled request whose outcome may still answer a new one. -/
def latestRequest (world : World κ) (canonical : κ) (demand : Bool) : Option (Row κ) :=
  if demand then
    firstBy Row.completedLater (world.rows.filter fun row =>
      row.canonicalKey == canonical && row.status.isTerminal && decide (row.expiresAt > world.now))
  else
    firstBy Row.later (world.rows.filter fun row =>
      row.canonicalKey == canonical && row.explicitUntil.any (· > world.now) && row.status.isTerminal)

/-- The answer that a settled request still gives. -/
def retained (now : ℕ) (row : Row κ) (receipt : CollectionReceipt) (target : CollectionTarget) (demand : Bool) :
    Option DemandCollectionStatus :=
  let completed := row.completedAt.getD row.createdAt
  let plain := receipt.status = .done ∧ receipt.reason = none
  let successful := plain ∨ receipt.status = .skipped ∧
    (receipt.reason = some "no_matches".toList ∨ receipt.reason = some "already_fresh".toList)
  let isObject := match target with | .object _ => true | _ => false
  let isSearch := match target with | .search _ _ _ => true | _ => false
  let retain := if demand then completed + 3600 > now ∧ ¬ (successful ∧ isObject = true) else plain ∨ completed + 3600 > now
  if retain then
    some
      { status := if demand = true ∧ successful ∧ isSearch = true then .fresh else .unavailable
        receipt := some receipt
        reason := receipt.reason }
  else none

def settledAnswer (world : World κ) (target : CollectionTarget) (canonical : κ) (demand : Bool) (elapsed : ℕ) :
    Except DatabaseError (Option DemandCollectionStatus) :=
  match world.latestRequest canonical demand with
  | some row => do
    let receipt ← receiptFromRow row (world.now + elapsed)
    pure (retained world.now row receipt target demand)
  | none => .ok none

/-- The explicit interest in a request that is already active. -/
def renew (world : World κ) (id : ℕ) : World κ :=
  world.update (fun row => row.id == id) fun row =>
    { row with
      explicitUntil := some (row.explicitUntil.getD (world.now + 86400))
      expiresAt := max row.expiresAt (row.explicitUntil.getD (world.now + 86400)) }

/-- The row that holds a canonical key gives it up. -/
def retire (world : World κ) (canonical : κ) : World κ :=
  world.update (fun row => row.requestKey == .canonical canonical) fun row =>
    { row with requestKey := .retired canonical row.id }

/-- The row of a new request, with the defaults of the columns. -/
def queuedRow (now id : ℕ) (canonical : κ) (request : CollectionRequest) (demand : Bool) : Row κ :=
  { id, requestKey := .canonical canonical, canonicalKey := canonical, payload := some request, status := .queued
    reason := none, createdAt := now, expiresAt := now + 86400, leaseUntil := none, jobName := none
    operationTimeoutSecs := 7200, operationAttemptLimit := some 32, launchedAt := none, completedAt := none
    explicitUntil := if demand then none else some (now + 86400) }

/-- `id` is the identifier that the database generates for a new row. -/
def insertRequest (world : World κ) (id : ℕ) (canonical : κ) (request : CollectionRequest) (demand : Bool) : World κ :=
  let retired := world.retire canonical
  { retired with
    rows := retired.rows ++ [queuedRow world.now id canonical request demand]
    issued := id :: world.issued }

/-- The part of `request_collection_shared` after the check of HEAD. -/
def shareOrQueue (world : World κ) (request : CollectionRequest) (canonical : κ) (demand : Bool) (id elapsed : ℕ) :
    Except DatabaseError (DemandCollectionStatus × World κ) :=
  match world.activeRequest canonical with
  | some row => do
    let receipt ← receiptFromRow row (world.now + elapsed)
    pure ({ status := .pending, receipt := some receipt, reason := none }, if demand then world else world.renew row.id)
  | none => do
    let settled ← world.settledAnswer request.target canonical demand elapsed
    match settled with
    | some status => pure (status, world)
    | none =>
      if world.schedulerSeenAt < world.now - 30 then .error .capacity
      -- deferred work counts toward the bound
      else if world.rows.countP (·.status.isActive) ≥ 128 then .error .capacity
      else if world.issued.contains id then .error .storageUnavailable
      else
        pure ({ status := .pending, reason := none
                receipt := some { requestId := id, status := .queued, retryAfterSeconds := 10, reason := none } },
          world.insertRequest id canonical request demand)

/-- What HEAD answers to a demand for an object. -/
def headAnswer (target : CollectionTarget) (demand : Bool) (head : Option Head) : Option DemandCollectionStatus :=
  match demand, target, head with
  | true, .object _, some head =>
    if head.withdrawn then some { status := .unavailable, receipt := none, reason := some "withdrawn".toList }
    else if head.fresh = some true then some { status := .fresh, receipt := none, reason := none }
    else none
  | _, _, _ => none

/-- `request_collection_shared`. `head` is the row of `corpus_object` for the object of the request, if there is one;
receipts are read `elapsed` seconds after the clock. -/
def requestCollectionShared (texts : Texts κ) (world : World κ) (request : CollectionRequest) (demand : Bool)
    (head : Option Head) (id elapsed : ℕ) : Except DatabaseError (DemandCollectionStatus × World κ) := do
  request.validate texts.unicode
  let request := texts.normalized request
  let canonical := texts.digest request
  match headAnswer request.target demand head with
  | some status => pure (status, world)
  | none => world.shareOrQueue request canonical demand id elapsed

end World

/-- One transaction, or the passing of time. -/
inductive Event where
  | tick (seconds : ℕ)
  | heartbeat
  | request (request : CollectionRequest) (demand : Bool) (head : Option Head) (id elapsed : ℕ)
  | claim (timeoutSecs : ℕ) (attemptLimit : RequestLimit) (held : Bool) (elapsed : ℕ)
  | markRunning (launch : CollectionLaunch) (jobName : Str)
  | settle (launch : CollectionLaunch) (status : Status) (reason : Option Str) (deferredUntil : Option ℕ)
  | failFinished (id : ℕ) (jobName : Str) (epoch : ℕ)
  | reap
  | prune
deriving DecidableEq

/-- A failed transaction is rolled back. -/
def World.step (texts : Texts κ) (world : World κ) : Event → World κ
  | .tick seconds => { world with now := world.now + seconds }
  | .heartbeat => world.heartbeatCollectionScheduler
  | .request request demand head id elapsed =>
    match world.requestCollectionShared texts request demand head id elapsed with
    | .ok (_, next) => { next with now := world.now + elapsed }
    | .error _ => world
  | .claim timeoutSecs attemptLimit held elapsed =>
    (world.claimCollectionRequestWithPolicy texts timeoutSecs attemptLimit held elapsed).toOption.getD world
  | .markRunning launch jobName => (world.markCollectionLaunchRunning launch jobName).toOption.getD world
  | .settle launch status reason deferredUntil =>
    (world.settleCollectionLaunch launch status reason deferredUntil).toOption.getD world
  | .failFinished id jobName epoch => (world.failFinishedCollectionLaunch id jobName epoch).toOption.getD world
  | .reap => world.reapStaleCollectionRequests
  | .prune => world.pruneCollectionRequests

def World.run (texts : Texts κ) (world : World κ) (events : List Event) : World κ := events.foldl (World.step texts) world

end

end OpenLegal.Corpus.Collection
