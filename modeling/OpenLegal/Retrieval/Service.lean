import OpenLegal.Retrieval.Domain

/-! # The retrieval service

Callers of one key share a flight: the first starts a job, the others wait for its outcome. Everything
that the service knows is under one lock, and a run interleaves the critical sections of callers, jobs,
maintenance and shutdown. Mutexes are not poisoned: no section panics. What a section reads from clocks
and from the persistent store is an argument, so it can change between any two readings.
-/

namespace OpenLegal.Retrieval

open Rust Rust.Str

/-- `CacheStore`: the storage behind the service. -/
structure CacheStore (σ : Type) where
  get : CacheKey → σ → Option StoredPayload × σ
  publish : CacheKey → StoredPayload → σ → σ
  expireBefore : ℕ → σ → σ
  clear : σ → σ

/-- What a service is built with; `persistence` is the policy of the persistent store, if there is one. -/
structure Config (σ : Type) where
  sources : Map Str Source
  cache : CacheStore σ
  persistence : Option RetentionPolicy

abbrev Outcome := Except RetrievalError StoredPayload

/-- The outcome of a flight; a payload of the persistent store carries the epoch it was read in. -/
abbrev PublishedOutcome := Except RetrievalError (StoredPayload × Option ℕ)

def maxInFlight : ℕ := 32

def maxWaitersPerKey : ℕ := 16

def maxWaiters : ℕ := 64

/-- The objects that a flight shares with its job and its waiters: the cancellation token and the watch
channel of its outcome. `result` records what the job came to. -/
structure Channel where
  key : CacheKey
  cancelled : Bool := false
  outcome : Option PublishedOutcome := none
  result : Option PublishedOutcome := none
deriving DecidableEq

/-- `channel` is the number of the channel that was made with the flight. -/
structure Flight where
  generation : ℕ
  waiters : ℕ
  channel : ℕ
deriving DecidableEq, Repr

/-- What the lock protects. `underflow` records a subtraction below zero. -/
structure State (σ : Type) where
  cache : σ
  flights : Map CacheKey Flight := ∅
  waiters : ℕ := 0
  generation : ℕ := 0
  stopping : Bool := false
  storageEpoch : ℕ := 0
  storageRecoveryEpoch : ℕ := 0
  underflow : Bool := false

structure Job where
  key : CacheKey
  generation : ℕ
  channel : ℕ
deriving DecidableEq

/-- A call that holds a `Waiter`. It waits, or has taken an outcome and knows its answer. -/
structure Waiter where
  key : CacheKey
  generation : ℕ
  channel : ℕ
  freshness : FreshnessRequirement
  taken : Option (PublishedOutcome × Except RetrievalError RetrievalEnvelope) := none
deriving DecidableEq

/-- A write to the cache by a job: the job's channel, the channel registered for the key at that moment,
and whether the job's token was cancelled. -/
structure Write where
  channel : ℕ
  registered : Option ℕ
  cancelled : Bool
deriving DecidableEq, Repr

structure World (σ : Type) where
  state : State σ
  channels : List Channel := []
  jobs : List Job := []
  waiters : List Waiter := []
  shutdown : Bool := false
  writes : List Write := []

variable {σ : Type}

namespace World

/-- A child token is cancelled by itself or by the shutdown of the service. -/
def isCancelled (world : World σ) (channel : ℕ) : Bool :=
  world.shutdown || world.channels[channel]?.any (·.cancelled)

def setCache (cache : σ) (world : World σ) : World σ := { world with state := { world.state with cache } }

def cancel (channel : ℕ) (world : World σ) : World σ :=
  { world with channels := world.channels.modify channel fun found => { found with cancelled := true } }

/-- Cancel the token of every flight. -/
def cancelFlights (world : World σ) : World σ :=
  { world with
    channels := world.channels.mapIdx fun index channel =>
      { channel with cancelled := channel.cancelled || world.state.flights.values.any (·.channel = index) } }

/-- `watch::Sender::send_replace`. -/
def send (channel : ℕ) (outcome : PublishedOutcome) (world : World σ) : World σ :=
  { world with channels := world.channels.modify channel fun found => { found with outcome := some outcome } }

end World

/-! ## The persistent store -/

/-- The readings of `storage_error`. -/
structure Health where
  status : StorageStatus
  healthy : Bool
deriving DecidableEq, Repr

/-- The readings of `sync_epoch`; the status is read twice. -/
structure Storage where
  epoch : ℕ
  recoveryEpoch : ℕ
  healthy : Bool
  status : StorageStatus
  statusAgain : StorageStatus
deriving DecidableEq, Repr

section

variable (config : Config σ)

def storageError (health : Health) : Option RetrievalError :=
  config.persistence.bind fun _ =>
    health.status.error <|> if health.healthy then none else some .storageUnavailable

def storageHealthy (health : Health) : Bool := (storageError config health).isNone

def clearCache (world : World σ) : World σ := world.setCache (config.cache.clear world.state.cache)

def syncRecovery (storage : Storage) (world : World σ) : World σ :=
  if storage.recoveryEpoch = world.state.storageRecoveryEpoch then world
  else
    (clearCache config
      { world with state := { world.state with storageRecoveryEpoch := storage.recoveryEpoch } }).cancelFlights

def syncStorage (storage : Storage) (world : World σ) : World σ :=
  if world.state.storageEpoch = storage.epoch then world
  else clearCache config { world with state := { world.state with storageEpoch := storage.epoch } }

def syncHealth (storage : Storage) (world : World σ) : World σ :=
  if storage.healthy && storage.status = .ready then world
  else if storage.statusAgain = .maintaining then clearCache config world
  else (clearCache config world).cancelFlights

def syncEpoch (storage : Storage) (world : World σ) : World σ :=
  match config.persistence with
  | none => world
  | some _ => syncHealth config storage (syncStorage config storage (syncRecovery config storage world))

def expire (now : ℕ) (world : World σ) : World σ :=
  world.setCache (config.cache.expireBefore (now - retentionSeconds) world.state.cache)

/-- `CacheStore::get` may reorder the cache. -/
def cacheGet (key : CacheKey) (world : World σ) : Option StoredPayload × World σ :=
  let (found, cache) := config.cache.get key world.state.cache
  (found, world.setCache cache)

def usableAge (now : ℕ) (value : StoredPayload) : Option ℕ :=
  if value.provenance.retrievedAt > now then none
  else
    match config.persistence with
    | none => checkedSub now value.provenance.validatedAt
    | some policy =>
      value.snapshot.bind fun snapshot =>
        if snapshot.capturedAt > now || !policy.retains snapshot.capturedAt now then none
        else checkedSub now value.provenance.validatedAt

def envelope (now : ℕ) (value : StoredPayload) (state : FreshnessState) : RetrievalEnvelope where
  data := value.data
  provenance := value.provenance
  snapshot := value.snapshot
  synthetic := true
  freshness := ⟨state, now - value.provenance.validatedAt⟩

/-! ## Calls -/

/-- What the first section of a call reads. `permit` is the lookup of the provider and, without a
persistent store, of one of its permits; `joinFailed` says that a finished job is found to have
panicked. -/
structure Admission where
  storage : Storage
  health : Health
  expireNow : ℕ
  ageNow : ℕ
  envelopeNow : ℕ
  permit : Except RetrievalError Unit
  joinFailed : Bool

/-- Wait for a flight. -/
def join (key : CacheKey) (freshness : FreshnessRequirement) (flight : Flight) (world : World σ) : World σ :=
  { world with
    state := { world.state with
      flights := world.state.flights.update key { flight with waiters := flight.waiters + 1 }
      waiters := world.state.waiters + 1 }
    waiters := world.waiters ++ [{ key, generation := flight.generation, channel := flight.channel, freshness }] }

/-- Register a new flight. Its generation is the counter after a wrapping increment. -/
def register (key : CacheKey) (world : World σ) : World σ :=
  let generation := (world.state.generation + 1) % 2 ^ 64
  { world with
    state := { world.state with
      generation
      flights := world.state.flights.insert key ⟨generation, 1, world.channels.length⟩ }
    channels := world.channels ++ [{ key }] }

/-- Spawn the job of the flight that has just been registered, and wait for it. -/
def spawn (key : CacheKey) (freshness : FreshnessRequirement) (world : World σ) : World σ :=
  let channel := world.channels.length - 1
  { world with
    state := { world.state with waiters := world.state.waiters + 1 }
    jobs := world.jobs ++ [⟨key, world.state.generation, channel⟩]
    waiters := world.waiters ++ [{ key, generation := world.state.generation, channel, freshness }] }

/-- The part of the first section after a cache miss; `none` means that the call waits. -/
def enter (key : CacheKey) (freshness : FreshnessRequirement) (admission : Admission) (world : World σ) :
    Option (Except RetrievalError RetrievalEnvelope) × World σ :=
  if world.state.waiters ≥ maxWaiters then (some (.error .busy), world)
  else
    match world.state.flights.get key with
    | some flight =>
      if world.isCancelled flight.channel then (some (.error .busy), world)
      else if flight.waiters ≥ maxWaitersPerKey then (some (.error .busy), world)
      else (none, join key freshness flight world)
    | none =>
      if world.state.flights.len ≥ maxInFlight then (some (.error .busy), world)
      else
        match admission.permit with
        | .error error => (some (.error error), world)
        | .ok () =>
          let world := register key world
          if admission.joinFailed then
            (some (.error .internal), { world with state := { world.state with stopping := true }, shutdown := true })
          else (none, spawn key freshness world)

def lookupOrJoin (key : CacheKey) (freshness : FreshnessRequirement) (admission : Admission) (world : World σ) :
    Option (Except RetrievalError RetrievalEnvelope) × World σ :=
  if world.state.stopping || world.shutdown then (some (.error .shutdown), world)
  else
    let world := syncEpoch config admission.storage world
    match storageError config admission.health with
    | some error => (some (.error error), world)
    | none =>
      let (cached, world) := cacheGet config key (expire config admission.expireNow world)
      match cached.filter fun value => (usableAge config admission.ageNow value).any (· < freshSeconds) with
      | some value => (some (.ok (envelope admission.envelopeNow value .fresh)), world)
      | none => enter key freshness admission world

/-- The beginning of `retrieve`, up to the first await. -/
def retrieve (query : Query) (freshness : FreshnessRequirement) (cancelled : Bool) (admission : Admission)
    (world : World σ) : Option (Except RetrievalError RetrievalEnvelope) × World σ :=
  match (do
    query.validate
    if cancelled then .error .cancelled
    else do
      let source ← (config.sources.get query.source).elim (.error .unknownSource) .ok
      CacheKey.forSource source query) with
  | .error error => (some (.error error), world)
  | .ok key => lookupOrJoin config key freshness admission world

/-- What a call reads after it has taken the outcome of its flight. -/
structure Settlement where
  health : Health
  storage : Storage
  healthLocked : Health
  expireNow : ℕ
  ageNow : ℕ
  labelNow : ℕ
  envelopeNow : ℕ

/-- Answer from the cache after a transient error of the refresh. -/
def fallBack (key : CacheKey) (error : RetrievalError) (settlement : Settlement) (world : World σ) :
    Except RetrievalError RetrievalEnvelope × World σ :=
  let world := syncEpoch config settlement.storage world
  match storageError config settlement.healthLocked with
  | some error => (.error error, world)
  | none =>
    let (stale, world) := cacheGet config key (expire config settlement.expireNow world)
    match stale.filter fun value => (usableAge config settlement.ageNow value).any (· ≤ retentionSeconds) with
    | none => (.error error, world)
    | some value =>
      let state := if settlement.labelNow - value.provenance.validatedAt < freshSeconds then .fresh else .stale
      (.ok (envelope settlement.envelopeNow value state), world)

/-- The end of `retrieve`: what a call makes of the outcome of its flight. -/
def settle (key : CacheKey) (freshness : FreshnessRequirement) (outcome : PublishedOutcome) (settlement : Settlement)
    (world : World σ) : Except RetrievalError RetrievalEnvelope × World σ :=
  match storageError config settlement.health, outcome with
  | some error, _ => (.error error, world)
  | none, .ok (value, epoch) =>
    let world := if epoch.isSome then syncEpoch config settlement.storage world else world
    if epoch.any (fun expected => world.state.storageEpoch ≠ expected || !storageHealthy config settlement.healthLocked) then
      (.error .storageUnavailable, world)
    else if (usableAge config settlement.ageNow value).any (· < freshSeconds) then
      (.ok (envelope settlement.envelopeNow value .fresh), world)
    else (.error .freshnessUnavailable, world)
  | none, .error error =>
    if error.isTransient then
      match freshness with
      | .allowStale => fallBack config key error settlement world
      | .freshOnly => (.error .freshnessUnavailable, world)
    else (.error error, world)

/-- A waiting call takes the outcome that its channel shows. -/
def receive (index : ℕ) (settlement : Settlement) (world : World σ) : World σ :=
  match world.waiters[index]? with
  | some waiter =>
    match waiter.taken, world.channels[waiter.channel]?.bind (·.outcome) with
    | none, some outcome =>
      let (answer, world) := settle config waiter.key waiter.freshness outcome settlement world
      { world with waiters := world.waiters.set index { waiter with taken := some (outcome, answer) } }
    | _, _ => world
  | none => world

/-- Take one waiter off a flight. -/
def leave (key : CacheKey) (flight : Flight) (world : World σ) : World σ :=
  { world with
    state := { world.state with
      flights := world.state.flights.update key { flight with waiters := flight.waiters - 1 }
      waiters := world.state.waiters - 1
      underflow := world.state.underflow || flight.waiters = 0 || world.state.waiters = 0 } }

/-- `Waiter::drop`, when a call returns or is dropped. -/
def dropWaiter (index : ℕ) (world : World σ) : World σ :=
  match world.waiters[index]? with
  | some waiter =>
    let world := { world with waiters := world.waiters.eraseIdx index }
    match world.state.flights.get waiter.key with
    | some flight =>
      if flight.generation = waiter.generation then
        let world := leave waiter.key flight world
        if flight.waiters - 1 = 0 then
          if config.persistence.isSome then world.cancel flight.channel
          else
            { world with state := { world.state with flights := world.state.flights.remove waiter.key } }.cancel
              flight.channel
        else world
      else world
    | none => world
  | none => world

/-! ## Jobs -/

/-- What `publish` and `promote_persistent` read. -/
structure Publication where
  storage : Storage
  health : Health
  expireNow : ℕ

def write (job : Job) (value : StoredPayload) (world : World σ) : World σ :=
  { world.setCache (config.cache.publish job.key value world.state.cache) with
    writes := world.writes ++
      [⟨job.channel, (world.state.flights.get job.key).map (·.channel), world.isCancelled job.channel⟩] }

/-- Remove a flight and hand the outcome to its waiters. -/
def finishFlight (key : CacheKey) (flight : Flight) (outcome : PublishedOutcome) (world : World σ) : World σ :=
  { world with
    state := { world.state with
      flights := world.state.flights.remove key
      waiters := world.state.waiters - flight.waiters
      underflow := world.state.underflow || world.state.waiters < flight.waiters } }.send flight.channel outcome

/-- The error that the waiters of a cancelled flight get. -/
def cancelledError (health : Health) : PublishedOutcome → RetrievalError
  | .error .storageUnavailable => .storageUnavailable
  | .error .storageCorrupt => .storageCorrupt
  | .error .storageCapacity => .storageCapacity
  | _ => (storageError config health).getD .cancelled

/-- A payload of another storage epoch is not published. -/
def currentOutcome (health : Health) (storageEpoch : ℕ) : PublishedOutcome → PublishedOutcome
  | .ok (value, some epoch) =>
    if epoch ≠ storageEpoch || !storageHealthy config health then .error .storageUnavailable
    else .ok (value, some epoch)
  | outcome => outcome

def publish (job : Job) (outcome : PublishedOutcome) (publication : Publication) (world : World σ) : World σ :=
  let world := syncEpoch config publication.storage world
  match world.state.flights.get job.key with
  | none => world
  | some flight =>
    if flight.generation ≠ job.generation then world
    else if world.isCancelled flight.channel || world.state.stopping then
      finishFlight job.key flight (.error (cancelledError config publication.health outcome)) world
    else
      let outcome := currentOutcome config publication.health world.state.storageEpoch outcome
      match outcome with
      | .ok (value, _) =>
        finishFlight job.key flight outcome (write config job value (expire config publication.expireNow world))
      | .error _ => finishFlight job.key flight outcome world

/-- A job that has come to its result publishes it and ends. -/
def finishJob (index : ℕ) (outcome : PublishedOutcome) (publication : Publication) (world : World σ) : World σ :=
  match world.jobs[index]? with
  | some job =>
    publish config job outcome publication
      { world with
        jobs := world.jobs.eraseIdx index
        channels := world.channels.modify job.channel fun channel => { channel with result := some outcome } }
  | none => world

/-- The flight of a job still stands, somebody waits for it and it is not cancelled. -/
def authorized (job : Job) (world : World σ) : Bool :=
  (world.state.flights.get job.key).any fun flight =>
    flight.generation = job.generation && flight.waiters > 0 && !world.isCancelled flight.channel

/-- `promote_persistent`: a payload found in the persistent store goes into the cache before the refresh. -/
def promotePersistent (index : ℕ) (found : StoredPayload) (epoch : ℕ) (publication : Publication) (world : World σ) :
    World σ :=
  match world.jobs[index]?, config.persistence with
  | some job, some _ =>
    let world := syncEpoch config publication.storage world
    if !storageHealthy config publication.health || world.state.storageEpoch ≠ epoch then world
    else if world.state.stopping || !authorized job world then world
    else write config job found world
  | _, _ => world

/-- A job cancels its own token when its time is up. -/
def cancelJob (index : ℕ) (world : World σ) : World σ :=
  match world.jobs[index]? with
  | some job => world.cancel job.channel
  | none => world

/-- The critical section of `shutdown`. -/
def stop (world : World σ) : World σ :=
  let world := clearCache config world.cancelFlights
  { world with
    state := { world.state with stopping := true, flights := ∅, waiters := 0 }
    channels := world.channels.mapIdx fun index channel =>
      if world.state.flights.values.any (·.channel = index) then { channel with outcome := some (.error .shutdown) }
      else channel
    shutdown := true }

/-! ## Runs -/

/-- What can happen next. A `lost` job panicked or was aborted; `cancelAll` is the cancellation of the
shutdown token outside the lock. -/
inductive Event where
  | retrieve (query : Query) (freshness : FreshnessRequirement) (cancelled : Bool) (admission : Admission)
  | receive (index : ℕ) (settlement : Settlement)
  | dropWaiter (index : ℕ)
  | promotePersistent (index : ℕ) (found : StoredPayload) (epoch : ℕ) (publication : Publication)
  | cancelJob (index : ℕ)
  | finishJob (index : ℕ) (outcome : PublishedOutcome) (publication : Publication)
  | lost (index : ℕ)
  | sync (storage : Storage)
  | expire (now : ℕ)
  | cancelAll
  | stop

def step (world : World σ) : Event → World σ
  | .retrieve query freshness cancelled admission => (retrieve config query freshness cancelled admission world).2
  | .receive index settlement => receive config index settlement world
  | .dropWaiter index => dropWaiter config index world
  | .promotePersistent index found epoch publication => promotePersistent config index found epoch publication world
  | .cancelJob index => cancelJob index world
  | .finishJob index outcome publication => finishJob config index outcome publication world
  | .lost index => { world with jobs := world.jobs.eraseIdx index }
  | .sync storage => syncEpoch config storage world
  | .expire now => expire config now world
  | .cancelAll => { world with shutdown := true }
  | .stop => stop config world

def run (world : World σ) (events : List Event) : World σ := events.foldl (step config) world

end

/-- A new service over a cache, with the epochs of its store. -/
def start (cache : σ) (storageEpoch storageRecoveryEpoch : ℕ) : World σ where
  state := { cache, storageEpoch, storageRecoveryEpoch }

end OpenLegal.Retrieval
