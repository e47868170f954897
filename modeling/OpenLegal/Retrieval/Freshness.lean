import OpenLegal.Retrieval.Refresh
import OpenLegal.Retrieval.SingleFlight

/-! # The freshness contract

The age of a payload is judged with one reading of the clock, and the age that is reported with the
answer is taken from a later one. The contract holds of the reported age exactly if the clock does not
reach the limit in between.
-/

namespace OpenLegal.Retrieval

open Rust Rust.Str

variable {σ : Type}

/-- A call is answered from the cache when it arrives, or from the outcome of the flight it waited for. -/
inductive Answering where
  | lookup (key : CacheKey) (admission : Admission)
  | outcome (key : CacheKey) (outcome : PublishedOutcome) (settlement : Settlement)

section

variable (config : Config σ) (world : World σ)

def answer (freshness : FreshnessRequirement) : Answering → Option (Except RetrievalError RetrievalEnvelope)
  | .lookup key admission => (lookupOrJoin config key freshness admission world).1
  | .outcome key outcome settlement => some (settle config key freshness outcome settlement world).1

/-- The cached payload that a section finds, after it has followed the storage epochs and the retention. -/
def cachedAt (storage : Storage) (expireNow : ℕ) (key : CacheKey) : Option StoredPayload :=
  (cacheGet config key (expire config expireNow (syncEpoch config storage world))).1

end

/-- What the contract says about an answer. -/
structure Contract (config : Config σ) (world : World σ) (freshness : FreshnessRequirement) (answering : Answering) : Prop where
  freshOnly : ∀ envelope, answer config world freshness answering = some (.ok envelope) → freshness = .freshOnly →
    envelope.freshness.ageSeconds < freshSeconds
  fresh : ∀ envelope, answer config world freshness answering = some (.ok envelope) →
    envelope.freshness.state = .fresh → envelope.freshness.ageSeconds < freshSeconds
  stale : ∀ envelope, answer config world freshness answering = some (.ok envelope) →
    envelope.freshness.state = .stale → freshness = .allowStale ∧
      (∃ key error settlement, answering = .outcome key (.error error) settlement ∧ error.isTransient = true) ∧
      envelope.freshness.ageSeconds ≤ retentionSeconds
  /-- An error that is not transient is answered as an error. -/
  failed : ∀ key error settlement, answering = .outcome key (.error error) settlement → error.isTransient = false →
    ∀ envelope, answer config world freshness answering ≠ some (.ok envelope)
  /-- An error writes nothing into the cache; following the storage epochs can only clear it. -/
  kept : ∀ index error publication,
    (finishJob config index (.error error) publication world).writes = world.writes ∧
      ((finishJob config index (.error error) publication world).state.cache = world.state.cache ∨
        (finishJob config index (.error error) publication world).state.cache =
          (syncEpoch config publication.storage world).state.cache)
  /-- A refresh brings only payloads that are valid, and what makes a payload invalid is not transient. -/
  valid : ∀ encoding source query attempts value, refresh encoding source query attempts = .ok value →
    ∃ attempt ∈ attempts, ∃ payload, attempt.fetched = .ok payload ∧
      validate encoding source query attempt.now payload = .ok value
  invalid : ∀ encoding source query now payload error, validate encoding source query now payload = .error error →
    error.isTransient = false

/-- Between two readings, the clock does not reach the limit of a payload's age. -/
def Within (limit first second : ℕ) (value : StoredPayload) : Prop :=
  first - value.provenance.validatedAt < limit → second - value.provenance.validatedAt < limit

/-- The clock does not reach the limit of the payload that an answer serves between the reading that
judges its age and the reading that is reported. -/
def Steady (config : Config σ) (world : World σ) (freshness : FreshnessRequirement) : Answering → Prop
  | .lookup key admission =>
    (world.state.stopping || world.shutdown) = false → storageError config admission.health = none →
      ∀ value, cachedAt config world admission.storage admission.expireNow key = some value →
        (usableAge config admission.ageNow value).any (· < freshSeconds) = true →
          Within freshSeconds admission.ageNow admission.envelopeNow value
  | .outcome _ (.ok (value, epoch)) settlement =>
    storageError config settlement.health = none →
      (∀ expected, epoch = some expected → (syncEpoch config settlement.storage world).state.storageEpoch = expected ∧
        storageHealthy config settlement.healthLocked = true) →
        (usableAge config settlement.ageNow value).any (· < freshSeconds) = true →
          Within freshSeconds settlement.ageNow settlement.envelopeNow value
  | .outcome key (.error error) settlement =>
    freshness = .allowStale → error.isTransient = true → storageError config settlement.health = none →
      storageError config settlement.healthLocked = none →
        ∀ value, cachedAt config world settlement.storage settlement.expireNow key = some value →
          (usableAge config settlement.ageNow value).any (· ≤ retentionSeconds) = true →
            Within freshSeconds settlement.labelNow settlement.envelopeNow value ∧
              (freshSeconds ≤ settlement.labelNow - value.provenance.validatedAt →
                Within (retentionSeconds + 1) settlement.ageNow settlement.envelopeNow value)

/-! ## Which answers there are -/

variable {config : Config σ} {world : World σ}

/-- A usable age is the difference of the reading and the validation. -/
theorem usableAge_eq {now age : ℕ} {value : StoredPayload} (usable : usableAge config now value = some age) :
    age = now - value.provenance.validatedAt := by
  have sub {a b : ℕ} (result : checkedSub a b = some age) : age = a - b := by
    rw [checkedSub] at result
    split_ifs at result
    exact (Option.some.inj result).symm
  rw [usableAge] at usable
  split_ifs at usable
  split at usable
  · exact sub usable
  · obtain ⟨snapshot, -, rest⟩ := Option.bind_eq_some_iff.mp usable
    split_ifs at rest
    exact sub rest

theorem age_lt {limit now : ℕ} {value : StoredPayload} (usable : (usableAge config now value).any (· < limit) = true) :
    now - value.provenance.validatedAt < limit := by
  obtain ⟨age, known, below⟩ := (Option.any_eq_true _ _).mp usable
  rw [← usableAge_eq known]
  exact of_decide_eq_true below

theorem enter_ne_ok (key : CacheKey) (freshness : FreshnessRequirement) (admission : Admission)
    (envelope : RetrievalEnvelope) : (enter key freshness admission world).1 ≠ some (.ok envelope) := by
  rw [enter]
  by_cases full : world.state.waiters ≥ maxWaiters
  · rw [if_pos full]
    simp
  rw [if_neg full]
  split
  · split_ifs <;> simp
  · by_cases busy : world.state.flights.len ≥ maxInFlight
    · rw [if_pos busy]
      simp
    rw [if_neg busy]
    split
    · simp
    · dsimp only
      split_ifs <;> simp

/-- A lookup answers with a fresh payload of the cache. -/
theorem lookupOrJoin_eq_ok {key : CacheKey} {freshness : FreshnessRequirement} {admission : Admission} {envelope : RetrievalEnvelope} :
    (lookupOrJoin config key freshness admission world).1 = some (.ok envelope) ↔
      (world.state.stopping || world.shutdown) = false ∧ storageError config admission.health = none ∧
        ∃ value, cachedAt config world admission.storage admission.expireNow key = some value ∧
          (usableAge config admission.ageNow value).any (· < freshSeconds) = true ∧
          envelope = Retrieval.envelope admission.envelopeNow value .fresh := by
  rw [lookupOrJoin, cachedAt]
  by_cases stopped : (world.state.stopping || world.shutdown) = true
  · rw [if_pos stopped, stopped]
    simp
  rw [if_neg stopped]
  rw [Bool.not_eq_true] at stopped
  dsimp only
  cases healthy : storageError config admission.health with
  | some error => simp
  | none =>
    dsimp only
    generalize cacheGet config key (expire config admission.expireNow (syncEpoch config admission.storage world)) = read
    cases usable : read.1.filter fun value => (usableAge config admission.ageNow value).any (· < freshSeconds) with
    | none =>
      simp only [stopped, enter_ne_ok, true_and, false_iff, not_exists, not_and]
      intro value found fresh
      rw [found, Option.filter_some, if_pos fresh] at usable
      cases usable
    | some value =>
      obtain ⟨found, fresh⟩ := Option.filter_eq_some_iff.mp usable
      simp only [stopped, true_and, Option.some.injEq, Except.ok.injEq]
      constructor
      · rintro rfl
        exact ⟨value, found, fresh, rfl⟩
      · rintro ⟨other, found', -, rfl⟩
        rw [found] at found'
        cases found'
        rfl

/-- An outcome with a payload answers with the payload if it is fresh. -/
theorem settle_ok_eq_ok {key : CacheKey} {freshness : FreshnessRequirement} {value : StoredPayload} {epoch : Option ℕ}
    {settlement : Settlement} {envelope : RetrievalEnvelope} :
    (settle config key freshness (.ok (value, epoch)) settlement world).1 = .ok envelope ↔
      storageError config settlement.health = none ∧
        (∀ expected, epoch = some expected → (syncEpoch config settlement.storage world).state.storageEpoch = expected ∧
          storageHealthy config settlement.healthLocked = true) ∧
        (usableAge config settlement.ageNow value).any (· < freshSeconds) = true ∧
        envelope = Retrieval.envelope settlement.envelopeNow value .fresh := by
  rw [settle.eq_def]
  cases healthy : storageError config settlement.health with
  | some error => simp
  | none =>
    dsimp only
    by_cases fresh : (usableAge config settlement.ageNow value).any (· < freshSeconds) = true
    · cases epoch with
      | none =>
        simp only [Option.any_none, Bool.false_eq_true, if_false, fresh, if_true, reduceCtorEq, false_implies, implies_true,
          true_and, Except.ok.injEq]
        exact eq_comm
      | some expected =>
        simp only [Option.any_some, Option.isSome_some, if_true, fresh, true_and, Option.some.injEq, forall_eq']
        split_ifs with other
        · simp only [false_iff, not_and]
          intro same
          simp only [Bool.or_eq_true, decide_eq_true_eq, Bool.not_eq_true'] at other
          rcases other with different | unhealthy
          · exact absurd same.1 different
          · rw [unhealthy] at same
            cases same.2
        · simp only [Bool.or_eq_true, decide_eq_true_eq, Bool.not_eq_true', not_or, not_not, Bool.not_eq_false] at other
          simp only [other, and_self, true_and, Except.ok.injEq]
          exact eq_comm
    · simp only [fresh, Bool.false_eq_true, if_false, false_and, and_false, iff_false]
      split_ifs <;> simp

/-- An error answers only after it was transient, and only from the cache. -/
theorem settle_error_eq_ok {key : CacheKey} {freshness : FreshnessRequirement} {error : RetrievalError}
    {settlement : Settlement} {envelope : RetrievalEnvelope} :
    (settle config key freshness (.error error) settlement world).1 = .ok envelope ↔
      freshness = .allowStale ∧ error.isTransient = true ∧ storageError config settlement.health = none ∧
        storageError config settlement.healthLocked = none ∧
        ∃ value, cachedAt config world settlement.storage settlement.expireNow key = some value ∧
          (usableAge config settlement.ageNow value).any (· ≤ retentionSeconds) = true ∧
          envelope = Retrieval.envelope settlement.envelopeNow value
            (if settlement.labelNow - value.provenance.validatedAt < freshSeconds then .fresh else .stale) := by
  rw [settle.eq_def]
  cases healthy : storageError config settlement.health with
  | some error => simp
  | none =>
    dsimp only
    by_cases transient : error.isTransient = true
    swap
    · rw [if_neg transient]
      simp [transient]
    rw [if_pos transient]
    cases freshness with
    | freshOnly => simp
    | allowStale =>
      rw [fallBack, cachedAt]
      dsimp only
      cases locked : storageError config settlement.healthLocked with
      | some error => simp
      | none =>
        dsimp only
        generalize cacheGet config key (expire config settlement.expireNow (syncEpoch config settlement.storage world)) =
          read
        cases usable : read.1.filter fun value =>
            (usableAge config settlement.ageNow value).any (· ≤ retentionSeconds) with
        | none =>
          simp only [transient, true_and, false_iff, not_exists, not_and, reduceCtorEq]
          intro value found kept
          rw [found, Option.filter_some, if_pos kept] at usable
          cases usable
        | some value =>
          obtain ⟨found, kept⟩ := Option.filter_eq_some_iff.mp usable
          simp only [transient, true_and, Except.ok.injEq]
          constructor
          · rintro rfl
            exact ⟨value, found, kept, rfl⟩
          · rintro ⟨other, found', -, rfl⟩
            rw [found] at found'
            cases found'
            rfl

/-! ## Errors write nothing -/

theorem syncRecovery_state {other : World σ} (storage : Storage) (same : other.state = world.state) :
    (syncRecovery config storage other).state = (syncRecovery config storage world).state := by
  simp only [syncRecovery, same]
  split_ifs
  · exact same
  · simp only [World.cancelFlights, clearCache, World.setCache]

theorem syncStorage_state {other : World σ} (storage : Storage) (same : other.state = world.state) :
    (syncStorage config storage other).state = (syncStorage config storage world).state := by
  simp only [syncStorage, same]
  split_ifs
  · exact same
  · simp only [clearCache, World.setCache]

theorem syncHealth_state {other : World σ} (storage : Storage) (same : other.state = world.state) :
    (syncHealth config storage other).state = (syncHealth config storage world).state := by
  simp only [syncHealth]
  split_ifs
  · exact same
  · simp only [clearCache, World.setCache, same]
  · simp only [World.cancelFlights, clearCache, World.setCache, same]

/-- What the lock protects follows the storage epochs by itself. -/
theorem syncEpoch_state {other : World σ} (storage : Storage) (same : other.state = world.state) :
    (syncEpoch config storage other).state = (syncEpoch config storage world).state := by
  rw [syncEpoch, syncEpoch]
  split
  · exact same
  · exact syncHealth_state storage (syncStorage_state storage (syncRecovery_state storage same))

theorem currentOutcome_error (health : Health) (storageEpoch : ℕ) (error : RetrievalError) :
    currentOutcome config health storageEpoch (.error error) = .error error := rfl

theorem publish_error (job : Job) (error : RetrievalError) (publication : Publication) (world : World σ) :
    (publish config job (.error error) publication world).writes = world.writes ∧
      (publish config job (.error error) publication world).state.cache =
        (syncEpoch config publication.storage world).state.cache := by
  have writes := (touches_syncEpoch config publication.storage world).writes
  rw [publish]
  dsimp only
  generalize syncEpoch config publication.storage world = synced at writes
  split
  · exact ⟨writes, rfl⟩
  · rw [currentOutcome_error]
    split_ifs
    · exact ⟨writes, rfl⟩
    · exact ⟨writes, rfl⟩
    · exact ⟨writes, rfl⟩

theorem finishJob_error (index : ℕ) (error : RetrievalError) (publication : Publication) :
    (finishJob config index (.error error) publication world).writes = world.writes ∧
      ((finishJob config index (.error error) publication world).state.cache = world.state.cache ∨
        (finishJob config index (.error error) publication world).state.cache =
          (syncEpoch config publication.storage world).state.cache) := by
  rw [finishJob]
  split
  · next job here =>
    obtain ⟨writes, cache⟩ := publish_error job error publication { world with
      jobs := world.jobs.eraseIdx index
      channels := world.channels.modify job.channel fun channel => { channel with result := some (.error error) } }
    exact ⟨writes, .inr (cache.trans (congrArg State.cache (syncEpoch_state publication.storage rfl)))⟩
  · exact ⟨rfl, .inl rfl⟩

/-! ## The contract -/

/-- The freshness contract holds of an answer exactly if the clock does not reach the limit between
judging and reporting. -/
theorem contract_iff_steady (config : Config σ) (world : World σ) (freshness : FreshnessRequirement)
    (answering : Answering) : Contract config world freshness answering ↔ Steady config world freshness answering := by
  constructor
  · intro contract
    match answering with
    | .lookup key admission =>
      intro running healthy value found usable _
      exact contract.fresh _ (lookupOrJoin_eq_ok.mpr ⟨running, healthy, value, found, usable, rfl⟩) rfl
    | .outcome key (.ok (value, epoch)) settlement =>
      intro healthy current usable _
      exact contract.fresh _ (congrArg some (settle_ok_eq_ok.mpr ⟨healthy, current, usable, rfl⟩)) rfl
    | .outcome key (.error error) settlement =>
      intro allowed transient healthy locked value found usable
      have answered := congrArg some
        (settle_error_eq_ok.mpr ⟨allowed, transient, healthy, locked, value, found, usable, rfl⟩)
      constructor
      · intro young
        exact contract.fresh _ answered (by rw [if_pos young]; rfl)
      · intro old _
        have state : (envelope settlement.envelopeNow value
            (if settlement.labelNow - value.provenance.validatedAt < freshSeconds then .fresh
              else .stale)).freshness.state = .stale := by
          rw [if_neg (by omega)]
          rfl
        exact Nat.lt_succ_of_le (contract.stale _ answered state).2.2
  · intro steady
    have kept := fun index error publication => @finishJob_error σ config world index error publication
    match answering with
    | .lookup key admission =>
      have young {envelope : RetrievalEnvelope}
          (answered : answer config world freshness (.lookup key admission) = some (.ok envelope)) :
          envelope.freshness.state = .fresh ∧ envelope.freshness.ageSeconds < freshSeconds := by
        obtain ⟨running, healthy, value, found, usable, rfl⟩ := lookupOrJoin_eq_ok.mp answered
        exact ⟨rfl, steady running healthy value found usable (age_lt usable)⟩
      refine ⟨fun envelope answered _ => (young answered).2, fun envelope answered _ => (young answered).2,
        fun envelope answered old => ?_, fun _ _ _ same => (by cases same), kept, fun _ _ _ _ _ => refresh_ok,
        fun _ _ _ _ _ _ => validate_error⟩
      rw [(young answered).1] at old
      cases old
    | .outcome key (.ok (value, epoch)) settlement =>
      have young {envelope : RetrievalEnvelope}
          (answered : answer config world freshness (.outcome key (.ok (value, epoch)) settlement) = some (.ok envelope)) :
          envelope.freshness.state = .fresh ∧ envelope.freshness.ageSeconds < freshSeconds := by
        obtain ⟨healthy, current, usable, rfl⟩ := settle_ok_eq_ok.mp (Option.some.inj answered)
        exact ⟨rfl, steady healthy current usable (age_lt usable)⟩
      refine ⟨fun envelope answered _ => (young answered).2, fun envelope answered _ => (young answered).2,
        fun envelope answered old => ?_, fun _ _ _ same => (by cases same), kept, fun _ _ _ _ _ => refresh_ok,
        fun _ _ _ _ _ _ => validate_error⟩
      rw [(young answered).1] at old
      cases old
    | .outcome key (.error error) settlement =>
      refine ⟨fun envelope answered only => ?_, fun envelope answered young => ?_, fun envelope answered old => ?_,
        fun _ other _ same failed envelope answered => ?_, kept, fun _ _ _ _ _ => refresh_ok,
        fun _ _ _ _ _ _ => validate_error⟩
      · obtain ⟨allowed, -⟩ := settle_error_eq_ok.mp (Option.some.inj answered)
        rw [allowed] at only
        cases only
      · obtain ⟨allowed, transient, healthy, locked, value, found, usable, rfl⟩ :=
          settle_error_eq_ok.mp (Option.some.inj answered)
        have limit := (steady allowed transient healthy locked value found usable).1
        by_cases label : settlement.labelNow - value.provenance.validatedAt < freshSeconds
        · exact limit label
        · rw [if_neg label] at young
          cases young
      · obtain ⟨allowed, transient, healthy, locked, value, found, usable, rfl⟩ :=
          settle_error_eq_ok.mp (Option.some.inj answered)
        have limit := (steady allowed transient healthy locked value found usable).2
        by_cases label : settlement.labelNow - value.provenance.validatedAt < freshSeconds
        · rw [if_pos label] at old
          cases old
        · refine ⟨allowed, ⟨key, error, settlement, rfl, transient⟩, ?_⟩
          obtain ⟨age, known, below⟩ := (Option.any_eq_true _ _).mp usable
          have judged := of_decide_eq_true below
          rw [usableAge_eq known] at judged
          exact Nat.le_of_lt_succ (limit (by omega) (Nat.lt_succ_of_le judged))
      · obtain ⟨-, transient, -⟩ := settle_error_eq_ok.mp (Option.some.inj answered)
        cases same
        rw [failed] at transient
        cases transient

open Wrapping in
/-- The clock ticks between judging and reporting: a caller that wants only fresh data gets a payload
that is labelled fresh and reported to be 60 seconds old. -/
theorem fresh_reported_at_limit :
    let world := run single (start ∅ 0 0) [call, .finishJob 0 (.ok (value, none)) ⟨calm.storage, calm.health, 0⟩]
    (answer single world .freshOnly (.lookup key { calm with expireNow := 59, ageNow := 59, envelopeNow := 60 })).map
        (·.map (·.freshness)) = some (.ok ⟨.fresh, 60⟩) := by
  decide +kernel

end OpenLegal.Retrieval
