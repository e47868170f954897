import OpenLegal.Legal.Domain
import OpenLegal.Rust.Map

/-! # Data of the retrieval service

Queries, records and payloads of the synthetic retrieval demonstration, its errors, and the policies
that decide how old a payload may be.
-/

namespace OpenLegal.Retrieval

open Rust Rust.Str Legal

inductive RetrievalError where
  | storageUnavailable
  | storageCorrupt
  | storageCapacity
  | snapshotUnavailable
  | invalidInput
  | unknownSource
  | notFound
  | ambiguous
  | busy
  | unavailable
  | freshnessUnavailable
  | normalizationFailed
  | invalidPayload
  | resourceLimit
  | cancelled
  | shutdown
  | internal
  | throttled (retryAfterSecs : Option ℕ)
deriving DecidableEq, Repr

def RetrievalError.isTransient : RetrievalError → Bool
  | .unavailable | .throttled _ => true
  | _ => false

inductive Query where
  | search (source query : Str) (page pageSize : ℕ)
  | get (source id : Str)
deriving DecidableEq, Repr

namespace Query

def source : Query → Str
  | .search source _ _ _ | .get source _ => source

def validate (query : Query) : Except RetrievalError Unit :=
  if !validIdentifier query.source 64 then .error .invalidInput
  else
    match query with
    | .search _ query page pageSize =>
      if byteLen query > 256 || query.any isControl || page > 1000 || !(1 ≤ pageSize && pageSize ≤ 20) then
        .error .invalidInput
      else .ok ()
    | .get _ id => if !validIdentifier id 128 then .error .invalidInput else .ok ()

end Query

inductive FreshnessRequirement where
  | allowStale
  | freshOnly
deriving DecidableEq, Repr

structure Record where
  source : Str
  id : Str
  title : Str
  body : Str
  synthetic : Bool
deriving DecidableEq, Repr

structure SearchPage where
  records : List Record
  page : ℕ
  pageSize : ℕ
  total : ℕ
deriving DecidableEq, Repr

inductive RetrievalData where
  | search (page : SearchPage)
  | get (record : Record)
deriving DecidableEq, Repr

structure Provenance where
  provider : Str
  dataset : Str
  sourceReference : Str
  payloadSha256 : Str
  processorVersion : Str
  retrievedAt : ℕ
  validatedAt : ℕ
deriving DecidableEq, Repr

structure SnapshotReference where
  snapshotId : Str
  capturedAt : ℕ
deriving DecidableEq, Repr

inductive FreshnessState where
  | fresh
  | stale
deriving DecidableEq, Repr

structure Freshness where
  state : FreshnessState
  ageSeconds : ℕ
deriving DecidableEq, Repr

structure RetrievalEnvelope where
  data : RetrievalData
  provenance : Provenance
  freshness : Freshness
  synthetic : Bool
  snapshot : Option SnapshotReference
deriving DecidableEq, Repr

structure StoredPayload where
  data : RetrievalData
  provenance : Provenance
  raw : List UInt8
  bytes : ℕ
  snapshot : Option SnapshotReference
deriving DecidableEq, Repr

/-- What an upstream adapter returns. -/
structure FetchedPayload where
  raw : List UInt8
  data : RetrievalData
  sourceReference : Str
deriving DecidableEq, Repr

structure Source where
  id : Str
  provider : Str
  dataset : Str
  processorVersion : Str
deriving DecidableEq, Repr

structure CacheKey where
  provider : Str
  dataset : Str
  processorVersion : Str
  schemaVersion : ℕ
  query : Query
deriving DecidableEq, Repr

def CacheKey.forSource (source : Source) (query : Query) : Except RetrievalError CacheKey := do
  query.validate
  if query.source ≠ source.id then .error .invalidInput
  else pure ⟨source.provider, source.dataset, source.processorVersion, 1, query⟩

inductive StorageStatus where
  | ready
  | recovering
  | commitUncertain
  | integrityBlocked
  | maintaining
  | closed
deriving DecidableEq, Repr

def StorageStatus.error : StorageStatus → Option RetrievalError
  | .ready => none
  | .maintaining => some .busy
  | .integrityBlocked => some .storageCorrupt
  | .recovering | .commitUncertain | .closed => some .storageUnavailable

/-- The retention policy of the persistent store; only `retention_days` decides about ages. -/
structure RetentionPolicy where
  retentionDays : ℕ
deriving DecidableEq, Repr

/-- `u64::checked_sub`. -/
def checkedSub (a b : ℕ) : Option ℕ := if b ≤ a then some (a - b) else none

def RetentionPolicy.retains (policy : RetentionPolicy) (captured now : ℕ) : Bool :=
  (checkedSub now captured).all (· < min (policy.retentionDays * 86400) (2 ^ 64 - 1))

def freshSeconds : ℕ := 60

def retentionSeconds : ℕ := 300

def maxRawBytes : ℕ := 1024 * 1024

def maxProcessedBytes : ℕ := 64 * 1024

end OpenLegal.Retrieval
