import OpenLegal.Retrieval.Service

/-! # Accounting of flights and waiters

A flight, its job and its waiters refer to one channel. As long as the generation counter has not
wrapped, equal generations mean equal channels, so a section that compares generations finds the flight
it means: it takes off what it has put on, and it publishes where it belongs.
-/

namespace OpenLegal.Retrieval

open Rust Rust.Str

variable {σ : Type}

/-- The generation of the flight that a channel was made with. -/
def generationOf (channel : ℕ) : ℕ := (channel + 1) % 2 ^ 64

theorem generationOf_inj {first second : ℕ} (small : first < 2 ^ 64) (small' : second < 2 ^ 64)
    (same : generationOf first = generationOf second) : first = second := by
  simp only [generationOf] at same
  omega

/-- The channel was made with the flight of this key and generation. -/
def World.Made (world : World σ) (key : CacheKey) (generation channel : ℕ) : Prop :=
  ∃ found, world.channels[channel]? = some found ∧ found.key = key ∧ generation = generationOf channel

namespace World.Made

variable {world : World σ} {key other : CacheKey} {generation generation' channel channel' : ℕ}

theorem lt (made : world.Made key generation channel) : channel < world.channels.length := by
  obtain ⟨found, here, -⟩ := made
  exact (List.getElem?_eq_some_iff.mp here).1

theorem key_eq (made : world.Made key generation channel) (made' : world.Made other generation' channel) : key = other := by
  obtain ⟨found, here, rfl, -⟩ := made
  obtain ⟨found', here', rfl, -⟩ := made'
  rw [here] at here'
  cases here'
  rfl

/-- Before the counter wraps, a generation has one channel. -/
theorem channel_eq (few : world.channels.length ≤ 2 ^ 64) (made : world.Made key generation channel)
    (made' : world.Made other generation channel') : channel = channel' := by
  have bound := made.lt
  have bound' := made'.lt
  obtain ⟨-, -, -, rfl⟩ := made
  obtain ⟨-, -, -, same⟩ := made'
  exact generationOf_inj (by omega) (by omega) same

end World.Made

/-- The number of waiters on a channel. -/
def attached (waiters : List Waiter) (channel : ℕ) : ℕ := waiters.countP (·.channel = channel)

/-- The outcome that a channel shows comes from its own job, or from the shutdown of the service. -/
def Delivered (config : Config σ) (stopping : Bool) (channel : Channel) (outcome : PublishedOutcome) : Prop :=
  (stopping = true ∧ outcome = .error .shutdown) ∨
    ∃ result health storageEpoch, channel.result = some result ∧
      (outcome = currentOutcome config health storageEpoch result ∨
        outcome = .error (cancelledError config health result))

theorem Delivered.stopped {config : Config σ} {stopping : Bool} {channel : Channel} {outcome : PublishedOutcome}
    (delivered : Delivered config stopping channel outcome) : Delivered config true channel outcome := by
  rcases delivered with ⟨-, shutdown⟩ | own
  · exact .inl ⟨rfl, shutdown⟩
  · exact .inr own

/-- Flights, jobs and waiters fit together, and the counters are what they count. -/
structure Accounted (config : Config σ) (world : World σ) : Prop where
  generation : world.state.generation = world.channels.length % 2 ^ 64
  flights : ∀ key flight, world.state.flights.get key = some flight → world.Made key flight.generation flight.channel
  jobs : ∀ job ∈ world.jobs, world.Made job.key job.generation job.channel
  waiters : ∀ waiter ∈ world.waiters, world.Made waiter.key waiter.generation waiter.channel
  distinct : (world.jobs.map (·.channel)).Nodup
  /-- A job that is still there has no result yet. -/
  pending : ∀ job ∈ world.jobs, ∀ found, world.channels[job.channel]? = some found → found.result = none
  /-- The flight of a job stands until the job is cancelled. -/
  registered : ∀ job ∈ world.jobs, ∀ found, world.channels[job.channel]? = some found → found.cancelled = false →
    ∃ flight, world.state.flights.get job.key = some flight ∧ flight.channel = job.channel
  /-- A flight counts its waiters; only a flight that was registered when the service failed does not,
  and nobody refers to it. -/
  tallied : ∀ key flight, world.state.flights.get key = some flight →
    flight.waiters = attached world.waiters flight.channel ∨
      (world.state.stopping = true ∧ attached world.waiters flight.channel = 0 ∧
        ∀ job ∈ world.jobs, job.channel ≠ flight.channel)
  total : world.state.waiters = (world.state.flights.values.map fun flight => attached world.waiters flight.channel).sum
  /-- A waiter has a flight or an outcome. -/
  held : ∀ waiter ∈ world.waiters, ∀ found, world.channels[waiter.channel]? = some found →
    (∃ flight, world.state.flights.get waiter.key = some flight ∧ flight.channel = waiter.channel) ∨ found.outcome ≠ none
  fewWaiters : world.state.waiters ≤ maxWaiters
  fewPerKey : ∀ key flight, world.state.flights.get key = some flight → flight.waiters ≤ maxWaitersPerKey
  fewFlights : world.state.flights.len ≤ maxInFlight
  noUnderflow : world.state.underflow = false
  outcomes : ∀ (channel : ℕ) found outcome, world.channels[channel]? = some found → found.outcome = some outcome →
    Delivered config world.state.stopping found outcome
  taken : ∀ waiter ∈ world.waiters, ∀ outcome answer, waiter.taken = some (outcome, answer) →
    ∀ found, world.channels[waiter.channel]? = some found → Delivered config world.state.stopping found outcome
  writes : ∀ write ∈ world.writes, write.registered = some write.channel ∧ write.cancelled = false

/-! ## Sections that only touch cache and tokens -/

/-- The cache and the storage epochs may have changed, and tokens may have been cancelled. -/
structure Touches (world after : World σ) : Prop where
  flights : after.state.flights = world.state.flights
  total : after.state.waiters = world.state.waiters
  generation : after.state.generation = world.state.generation
  stopping : after.state.stopping = world.state.stopping
  underflow : after.state.underflow = world.state.underflow
  jobs : after.jobs = world.jobs
  waiters : after.waiters = world.waiters
  shutdown : after.shutdown = world.shutdown
  writes : after.writes = world.writes
  channels : ∀ index : ℕ, ∃ cancel : Bool, after.channels[index]? =
    world.channels[index]?.map fun channel => { channel with cancelled := channel.cancelled || cancel }

namespace Touches

variable {world middle after : World σ}

theorem refl (world : World σ) : Touches world world where
  flights := rfl
  total := rfl
  generation := rfl
  stopping := rfl
  underflow := rfl
  jobs := rfl
  waiters := rfl
  shutdown := rfl
  writes := rfl
  channels := fun index => ⟨false, by simp⟩

theorem trans (first : Touches world middle) (second : Touches middle after) : Touches world after where
  flights := second.flights.trans first.flights
  total := second.total.trans first.total
  generation := second.generation.trans first.generation
  stopping := second.stopping.trans first.stopping
  underflow := second.underflow.trans first.underflow
  jobs := second.jobs.trans first.jobs
  waiters := second.waiters.trans first.waiters
  shutdown := second.shutdown.trans first.shutdown
  writes := second.writes.trans first.writes
  channels := by
    intro index
    obtain ⟨cancel, here⟩ := first.channels index
    obtain ⟨cancel', there⟩ := second.channels index
    refine ⟨cancel || cancel', ?_⟩
    rw [there, here, Option.map_map]
    congr 1
    funext channel
    simp [Bool.or_assoc]

theorem setCache (world : World σ) (cache : σ) : Touches world (world.setCache cache) := { refl world with }

theorem cancel (world : World σ) (channel : ℕ) : Touches world (world.cancel channel) :=
  { refl world with
    channels := by
      intro index
      refine ⟨decide (channel = index), ?_⟩
      rw [World.cancel, List.getElem?_modify]
      congr 1
      funext found
      by_cases same : channel = index <;> simp [same] }

theorem cancelFlights (world : World σ) : Touches world world.cancelFlights :=
  { refl world with
    channels := by
      intro index
      refine ⟨world.state.flights.values.any (·.channel = index), ?_⟩
      rw [World.cancelFlights, List.getElem?_mapIdx] }

/-- A channel after the section was there before, and only its token may have changed. -/
theorem channel {index : ℕ} {found : Channel} (touches : Touches world after) (here : after.channels[index]? = some found) :
    ∃ old, world.channels[index]? = some old ∧ found.key = old.key ∧ found.outcome = old.outcome ∧
      found.result = old.result ∧ (found.cancelled = false → old.cancelled = false) := by
  obtain ⟨cancel, same⟩ := touches.channels index
  rw [same] at here
  obtain ⟨old, before, rfl⟩ := Option.map_eq_some_iff.mp here
  refine ⟨old, before, rfl, rfl, rfl, ?_⟩
  intro open'
  rw [Bool.or_eq_false_iff] at open'
  exact open'.1

theorem length (touches : Touches world after) : after.channels.length = world.channels.length := by
  apply Nat.le_antisymm
  · by_contra longer
    obtain ⟨cancel, same⟩ := touches.channels world.channels.length
    rw [List.getElem?_eq_none le_rfl, Option.map_none, List.getElem?_eq_none_iff] at same
    omega
  · by_contra shorter
    obtain ⟨cancel, same⟩ := touches.channels after.channels.length
    rw [List.getElem?_eq_none le_rfl, eq_comm, Option.map_eq_none_iff, List.getElem?_eq_none_iff] at same
    omega

theorem made {key : CacheKey} {generation index : ℕ} (touches : Touches world after)
    (made : world.Made key generation index) : after.Made key generation index := by
  obtain ⟨found, here, named, number⟩ := made
  obtain ⟨cancel, same⟩ := touches.channels index
  rw [here] at same
  exact ⟨_, same, named, number⟩

theorem accounted {config : Config σ} (touches : Touches world after) (accounted : Accounted config world) :
    Accounted config after where
  generation := by rw [touches.generation, touches.length]; exact accounted.generation
  flights := by
    rw [touches.flights]
    exact fun key flight found => touches.made (accounted.flights key flight found)
  jobs := by
    rw [touches.jobs]
    exact fun job member => touches.made (accounted.jobs job member)
  waiters := by
    rw [touches.waiters]
    exact fun waiter member => touches.made (accounted.waiters waiter member)
  distinct := by rw [touches.jobs]; exact accounted.distinct
  pending := by
    rw [touches.jobs]
    intro job member found here
    obtain ⟨old, before, -, -, result, -⟩ := touches.channel here
    rw [result]
    exact accounted.pending job member old before
  registered := by
    rw [touches.jobs, touches.flights]
    intro job member found here open'
    obtain ⟨old, before, -, -, -, cancelled⟩ := touches.channel here
    exact accounted.registered job member old before (cancelled open')
  tallied := by
    rw [touches.jobs, touches.flights, touches.waiters, touches.stopping]
    exact accounted.tallied
  total := by
    rw [touches.flights, touches.waiters, touches.total]
    exact accounted.total
  held := by
    rw [touches.flights, touches.waiters]
    intro waiter member found here
    obtain ⟨old, before, -, outcome, -, -⟩ := touches.channel here
    rw [outcome]
    exact accounted.held waiter member old before
  fewWaiters := by rw [touches.total]; exact accounted.fewWaiters
  fewPerKey := by rw [touches.flights]; exact accounted.fewPerKey
  fewFlights := by rw [touches.flights]; exact accounted.fewFlights
  noUnderflow := by rw [touches.underflow]; exact accounted.noUnderflow
  outcomes := by
    rw [touches.stopping]
    intro channel found outcome here shown
    obtain ⟨old, before, -, same, result, -⟩ := touches.channel here
    have delivered := accounted.outcomes channel old outcome before (same ▸ shown)
    rw [Delivered, result]
    exact delivered
  taken := by
    rw [touches.stopping, touches.waiters]
    intro waiter member outcome answer took found here
    obtain ⟨old, before, -, -, result, -⟩ := touches.channel here
    rw [Delivered, result]
    exact accounted.taken waiter member outcome answer took old before
  writes := by rw [touches.writes]; exact accounted.writes

end Touches

section

variable (config : Config σ)

theorem touches_clearCache (world : World σ) : Touches world (clearCache config world) := .setCache world _

theorem touches_syncRecovery (storage : Storage) (world : World σ) : Touches world (syncRecovery config storage world) := by
  rw [syncRecovery]
  split_ifs
  · exact .refl world
  · refine Touches.trans ?_ (.cancelFlights _)
    exact { Touches.refl world with }

theorem touches_syncStorage (storage : Storage) (world : World σ) : Touches world (syncStorage config storage world) := by
  rw [syncStorage]
  split_ifs
  · exact .refl world
  · exact { Touches.refl world with }

theorem touches_syncHealth (storage : Storage) (world : World σ) : Touches world (syncHealth config storage world) := by
  rw [syncHealth]
  split_ifs
  · exact .refl world
  · exact touches_clearCache config world
  · exact (touches_clearCache config world).trans (.cancelFlights _)

theorem touches_syncEpoch (storage : Storage) (world : World σ) : Touches world (syncEpoch config storage world) := by
  rw [syncEpoch]
  split
  · exact .refl world
  · apply Touches.trans _ (touches_syncHealth config storage _)
    exact (touches_syncRecovery config storage world).trans (touches_syncStorage config storage _)

theorem touches_expire (now : ℕ) (world : World σ) : Touches world (expire config now world) := .setCache world _

theorem touches_cacheGet (key : CacheKey) (world : World σ) : Touches world (cacheGet config key world).2 := .setCache world _

theorem touches_fallBack (key : CacheKey) (error : RetrievalError) (settlement : Settlement) (world : World σ) :
    Touches world (fallBack config key error settlement world).2 := by
  have synced := touches_syncEpoch config settlement.storage world
  rw [fallBack]
  dsimp only
  split
  · exact synced
  · have read := (synced.trans (touches_expire config settlement.expireNow _)).trans (touches_cacheGet config key _)
    split
    · exact read
    · exact read

theorem touches_settle (key : CacheKey) (freshness : FreshnessRequirement) (outcome : PublishedOutcome)
    (settlement : Settlement) (world : World σ) : Touches world (settle config key freshness outcome settlement world).2 := by
  rw [settle.eq_def]
  split
  · exact .refl world
  · next value epoch healthy =>
    have synced : Touches world (if epoch.isSome then syncEpoch config settlement.storage world else world) := by
      split_ifs
      · exact touches_syncEpoch config settlement.storage world
      · exact .refl world
    dsimp only
    generalize (if epoch.isSome = true then syncEpoch config settlement.storage world else world) = middle at synced ⊢
    split_ifs
    · exact synced
    · exact synced
    · exact synced
  · next error healthy =>
    split_ifs
    · cases freshness with
      | allowStale => exact touches_fallBack config key error settlement world
      | freshOnly => exact .refl world
    · exact .refl world

end

end OpenLegal.Retrieval
