import OpenLegal.Retrieval.Flights

/-! # One flight for each key

Every section keeps the accounts of flights and waiters, so they hold in every state of every run in
which the generation counter does not wrap.
-/

namespace OpenLegal.Retrieval

open Rust Rust.Str

variable {σ : Type} {config : Config σ} {world : World σ}

/-! ## Counting waiters -/

theorem attached_append (waiters : List Waiter) (waiter : Waiter) (channel : ℕ) :
    attached (waiters ++ [waiter]) channel = attached waiters channel + if waiter.channel = channel then 1 else 0 := by
  simp [attached, List.countP_append, List.countP_cons]

theorem attached_eraseIdx {waiters : List Waiter} {index : ℕ} {waiter : Waiter} (here : waiters[index]? = some waiter)
    (channel : ℕ) :
    attached waiters channel = attached (waiters.eraseIdx index) channel + if waiter.channel = channel then 1 else 0 := by
  obtain ⟨inside, rfl⟩ := List.getElem?_eq_some_iff.mp here
  have perm := (List.getElem_cons_eraseIdx_perm inside).countP_eq (fun waiter : Waiter => decide (waiter.channel = channel))
  rw [List.countP_cons] at perm
  rw [attached, attached, ← perm]
  simp

theorem attached_pos {waiters : List Waiter} {waiter : Waiter} (member : waiter ∈ waiters) :
    0 < attached waiters waiter.channel :=
  List.countP_pos_iff.mpr ⟨waiter, member, decide_eq_true rfl⟩

/-- Nobody waits on a channel that has not been made. -/
theorem Accounted.attached_eq_zero (accounted : Accounted config world) {channel : ℕ}
    (beyond : world.channels.length ≤ channel) : attached world.waiters channel = 0 := by
  rw [attached, List.countP_eq_zero]
  intro waiter member same
  have inside := (accounted.waiters waiter member).lt
  rw [of_decide_eq_true same] at inside
  omega

/-- The flights of two keys have different channels. -/
theorem Accounted.channel_ne (accounted : Accounted config world) {key other : CacheKey} {flight flight' : Flight}
    (here : world.state.flights.get key = some flight) (there : world.state.flights.get other = some flight')
    (different : other ≠ key) : flight'.channel ≠ flight.channel := by
  intro same
  have made := accounted.flights other flight' there
  rw [same] at made
  exact different (made.key_eq (accounted.flights key flight here))

/-- The waiters of the other flights, when only those on one channel change. -/
theorem Accounted.sum_others (accounted : Accounted config world) {key : CacheKey} {flight : Flight}
    (here : world.state.flights.get key = some flight) (waiters : List Waiter)
    (same : ∀ channel, channel ≠ flight.channel → attached waiters channel = attached world.waiters channel) :
    ((world.state.flights.remove key).values.map fun other => attached waiters other.channel).sum =
      ((world.state.flights.remove key).values.map fun other => attached world.waiters other.channel).sum := by
  apply Map.sum_values_congr
  intro other flight' found
  obtain ⟨different, there⟩ := Map.get_of_get_remove found
  exact same _ (accounted.channel_ne here there different)

/-- The waiters of one flight, and of all others. -/
theorem Accounted.total_split (accounted : Accounted config world) {key : CacheKey} {flight : Flight}
    (here : world.state.flights.get key = some flight) :
    world.state.waiters = attached world.waiters flight.channel +
      ((world.state.flights.remove key).values.map fun other => attached world.waiters other.channel).sum := by
  rw [accounted.total, Map.sum_values here]

/-! ## Calls -/

theorem Accounted.join (accounted : Accounted config world) {key : CacheKey} {flight : Flight}
    (freshness : FreshnessRequirement) (here : world.state.flights.get key = some flight)
    (running : world.state.stopping = false) (room : world.state.waiters < maxWaiters)
    (space : flight.waiters < maxWaitersPerKey) : Accounted config (Retrieval.join key freshness flight world) := by
  have made := accounted.flights key flight here
  have tally : flight.waiters = attached world.waiters flight.channel := by
    rcases accounted.tallied key flight here with tally | ⟨stopping, -⟩
    · exact tally
    · rw [running] at stopping
      cases stopping
  have stands {other : CacheKey} {channel : ℕ}
      (found : ∃ flight, world.state.flights.get other = some flight ∧ flight.channel = channel) :
      ∃ next, (world.state.flights.update key { flight with waiters := flight.waiters + 1 }).get other = some next ∧
        next.channel = channel := by
    obtain ⟨old, there, rfl⟩ := found
    by_cases same : other = key
    · rw [same, here] at there
      cases there
      rw [same, Map.get_update here]
      exact ⟨_, rfl, rfl⟩
    · rw [Map.get_update_of_ne here same]
      exact ⟨old, there, rfl⟩
  exact { accounted with
    flights := by
      intro other next found
      rcases Map.get_of_get_update here found with ⟨rfl, rfl⟩ | ⟨-, old⟩
      · exact made
      · exact accounted.flights other next old
    waiters := by
      intro waiter member
      rcases List.mem_append.mp member with old | new
      · exact accounted.waiters waiter old
      · rw [List.mem_singleton.mp new]
        exact made
    registered := fun job member found there open' => stands (accounted.registered job member found there open')
    tallied := by
      intro other next found
      left
      rw [Retrieval.join, attached_append]
      rcases Map.get_of_get_update here found with ⟨rfl, rfl⟩ | ⟨different, old⟩
      · rw [if_pos rfl, tally]
      · rw [if_neg (accounted.channel_ne here old different).symm]
        rcases accounted.tallied other next old with same | ⟨stopping, -⟩
        · exact same
        · rw [running] at stopping
          cases stopping
    total := by
      rw [Retrieval.join]
      dsimp only
      generalize new : ({ key, generation := flight.generation, channel := flight.channel, freshness } : Waiter) = waiter
      have own : waiter.channel = flight.channel := by rw [← new]
      have others := accounted.sum_others here (world.waiters ++ [waiter]) fun channel different => by
        rw [attached_append, own, if_neg different.symm, Nat.add_zero]
      have perm := (Map.values_update_perm here { flight with waiters := flight.waiters + 1 }).map fun other =>
        attached (world.waiters ++ [waiter]) other.channel
      rw [perm.sum_nat, List.map_cons, List.sum_cons, others, attached_append, if_pos own, accounted.total_split here]
      dsimp only
      omega
    held := by
      intro waiter member found there
      rcases List.mem_append.mp member with old | new
      · rcases accounted.held waiter old found there with standing | shown
        · exact .inl (stands standing)
        · exact .inr shown
      · rw [List.mem_singleton.mp new]
        exact .inl (stands ⟨flight, here, rfl⟩)
    fewWaiters := room
    fewPerKey := by
      intro other next found
      rcases Map.get_of_get_update here found with ⟨rfl, rfl⟩ | ⟨-, old⟩
      · exact space
      · exact accounted.fewPerKey other next old
    fewFlights := by
      rw [Retrieval.join, Map.len_update here]
      exact accounted.fewFlights
    taken := by
      intro waiter member outcome answer took found there
      rcases List.mem_append.mp member with old | new
      · exact accounted.taken waiter old outcome answer took found there
      · rw [List.mem_singleton.mp new] at took
        cases took }

/-! ## New flights -/

theorem register_channel {key : CacheKey} {index : ℕ} {found : Channel}
    (here : (register key world).channels[index]? = some found) :
    world.channels[index]? = some found ∨ (index = world.channels.length ∧ found = { key }) := by
  simp only [register] at here
  by_cases inside : index < world.channels.length
  · rw [List.getElem?_append_left inside] at here
    exact .inl here
  · rw [List.getElem?_append_right (by omega), List.getElem?_singleton] at here
    split_ifs at here with last
    · cases here
      exact .inr ⟨by omega, rfl⟩

theorem World.Made.register {key other : CacheKey} {generation channel : ℕ} (made : world.Made other generation channel) :
    (Retrieval.register key world).Made other generation channel := by
  have inside := made.lt
  obtain ⟨found, here, named, number⟩ := made
  refine ⟨found, ?_, named, number⟩
  simp only [Retrieval.register]
  rw [List.getElem?_append_left inside]
  exact here

theorem Accounted.made_new (accounted : Accounted config world) (key : CacheKey) :
    (register key world).Made key ((world.state.generation + 1) % 2 ^ 64) world.channels.length := by
  refine ⟨{ key }, ?_, rfl, ?_⟩
  · simp only [register]
    rw [List.getElem?_append_right le_rfl, Nat.sub_self]
    rfl
  · rw [accounted.generation, generationOf]
    omega

theorem old_channel {key : CacheKey} {index : ℕ} {found : Channel}
    (here : (register key world).channels[index]? = some found) (inside : index < world.channels.length) :
    world.channels[index]? = some found := by
  rcases register_channel here with old | ⟨last, -⟩
  · exact old
  · omega

/-- What registering a flight keeps, apart from the waiters that it counts. -/
structure Registered (config : Config σ) (key : CacheKey) (world : World σ) : Prop where
  generation : (register key world).state.generation = (register key world).channels.length % 2 ^ 64
  flights : ∀ other flight, (register key world).state.flights.get other = some flight →
    (register key world).Made other flight.generation flight.channel
  jobs : ∀ job ∈ world.jobs, (register key world).Made job.key job.generation job.channel
  waiters : ∀ waiter ∈ world.waiters, (register key world).Made waiter.key waiter.generation waiter.channel
  pending : ∀ job ∈ world.jobs, ∀ found, (register key world).channels[job.channel]? = some found → found.result = none
  stands : ∀ other channel, (∃ flight, world.state.flights.get other = some flight ∧ flight.channel = channel) →
    ∃ flight, (register key world).state.flights.get other = some flight ∧ flight.channel = channel
  total : ((register key world).state.flights.values.map fun flight => attached world.waiters flight.channel).sum =
    world.state.waiters
  fewPerKey : ∀ other flight, (register key world).state.flights.get other = some flight →
    flight.waiters ≤ maxWaitersPerKey
  fewFlights : (register key world).state.flights.len ≤ maxInFlight
  outcomes : ∀ (channel : ℕ) found outcome, (register key world).channels[channel]? = some found →
    found.outcome = some outcome → Delivered config world.state.stopping found outcome

theorem Accounted.registering (accounted : Accounted config world) {key : CacheKey}
    (absent : world.state.flights.get key = none) (space : world.state.flights.len < maxInFlight) :
    Registered config key world where
  generation := by
    simp only [Retrieval.register, List.length_append, List.length_singleton]
    rw [accounted.generation]
    omega
  flights := by
    intro other flight found
    rcases Map.get_of_get_insert found with ⟨rfl, rfl⟩ | ⟨-, old⟩
    · exact accounted.made_new other
    · exact (accounted.flights other flight old).register
  jobs := fun job member => (accounted.jobs job member).register
  waiters := fun waiter member => (accounted.waiters waiter member).register
  pending := fun job member found here =>
    accounted.pending job member found (old_channel here (accounted.jobs job member).lt)
  stands := by
    rintro other channel ⟨flight, here, named⟩
    have different : other ≠ key := by
      rintro rfl
      rw [absent] at here
      cases here
    exact ⟨flight, (Map.get_insert_of_ne _ different _).trans here, named⟩
  total := by
    simp only [Retrieval.register]
    rw [Map.values_insert, Map.remove_of_absent absent, List.map_cons, List.sum_cons,
      accounted.attached_eq_zero le_rfl, Nat.zero_add, ← accounted.total]
  fewPerKey := by
    intro other flight found
    rcases Map.get_of_get_insert found with ⟨rfl, rfl⟩ | ⟨-, old⟩
    · exact (by decide : 1 ≤ maxWaitersPerKey)
    · exact accounted.fewPerKey other flight old
  fewFlights := by
    simp only [Retrieval.register]
    rw [Map.len_insert_of_absent absent]
    exact space
  outcomes := by
    intro channel found outcome here shown
    rcases register_channel here with old | ⟨-, rfl⟩
    · exact accounted.outcomes channel found outcome old shown
    · cases shown

/-- The service fails while a flight is being registered: the flight stays without job and waiter. -/
theorem Accounted.abandon (accounted : Accounted config world) {key : CacheKey}
    (absent : world.state.flights.get key = none) (space : world.state.flights.len < maxInFlight)
    (running : world.state.stopping = false) :
    Accounted config { register key world with
      state := { (register key world).state with stopping := true }, shutdown := true } := by
  obtain ⟨generation, flights, jobs, waiters, pending, stands, total, fewPerKey, fewFlights, outcomes⟩ :=
    accounted.registering absent space
  exact { accounted with
    generation, flights, jobs, waiters, pending, fewPerKey, fewFlights
    registered := fun job member found here open' =>
      stands _ _ (accounted.registered job member found (old_channel here (accounted.jobs job member).lt) open')
    tallied := by
      intro other flight found
      rcases Map.get_of_get_insert found with ⟨rfl, rfl⟩ | ⟨-, old⟩
      · refine .inr ⟨rfl, accounted.attached_eq_zero le_rfl, fun job member same => ?_⟩
        have inside := (accounted.jobs job member).lt
        rw [same] at inside
        exact Nat.lt_irrefl _ inside
      · rcases accounted.tallied other flight old with tally | ⟨stopping, -⟩
        · exact .inl tally
        · rw [running] at stopping
          cases stopping
    total := total.symm
    held := by
      intro waiter member found here
      rcases accounted.held waiter member found (old_channel here (accounted.waiters waiter member).lt) with
        standing | shown
      · exact .inl (stands _ _ standing)
      · exact .inr shown
    outcomes := fun channel found outcome here shown => (outcomes channel found outcome here shown).stopped
    taken := fun waiter member outcome answer took found here =>
      (accounted.taken waiter member outcome answer took found
        (old_channel here (accounted.waiters waiter member).lt)).stopped }

/-- A new flight with its job and its first waiter. -/
theorem Accounted.spawn (accounted : Accounted config world) {key : CacheKey} (freshness : FreshnessRequirement)
    (absent : world.state.flights.get key = none) (space : world.state.flights.len < maxInFlight)
    (running : world.state.stopping = false) (room : world.state.waiters < maxWaiters) :
    Accounted config (Retrieval.spawn key freshness (register key world)) := by
  obtain ⟨generation, flights, jobs, waiters, pending, stands, total, fewPerKey, fewFlights, outcomes⟩ :=
    accounted.registering absent space
  have last : (register key world).channels.length - 1 = world.channels.length := by simp [register]
  have new : (register key world).state.flights.get key =
      some ⟨(world.state.generation + 1) % 2 ^ 64, 1, world.channels.length⟩ := Map.get_insert ..
  rw [Retrieval.spawn, last]
  exact { accounted with
    generation, flights, fewPerKey, fewFlights, outcomes
    jobs := by
      intro job member
      rcases List.mem_append.mp member with old | fresh
      · exact jobs job old
      · rw [List.mem_singleton.mp fresh]
        exact accounted.made_new key
    waiters := by
      intro waiter member
      rcases List.mem_append.mp member with old | fresh
      · exact waiters waiter old
      · rw [List.mem_singleton.mp fresh]
        exact accounted.made_new key
    distinct := by
      rw [List.map_append, List.nodup_append]
      refine ⟨accounted.distinct, List.nodup_singleton _, ?_⟩
      rintro channel member other fresh rfl
      obtain ⟨job, old, rfl⟩ := List.mem_map.mp member
      have inside := (accounted.jobs job old).lt
      rw [List.map_singleton, List.mem_singleton] at fresh
      dsimp only at fresh
      omega
    pending := by
      intro job member found here
      rcases List.mem_append.mp member with old | fresh
      · exact pending job old found here
      · rw [List.mem_singleton.mp fresh] at here
        rcases register_channel here with old | ⟨-, rfl⟩
        · exact absurd (List.getElem?_eq_some_iff.mp old).1 (Nat.lt_irrefl _)
        · rfl
    registered := by
      intro job member found here open'
      rcases List.mem_append.mp member with old | fresh
      · exact stands _ _ (accounted.registered job old found (old_channel here (accounted.jobs job old).lt) open')
      · rw [List.mem_singleton.mp fresh]
        exact ⟨_, new, rfl⟩
    tallied := by
      intro other flight found
      left
      dsimp only
      rw [attached_append]
      rcases Map.get_of_get_insert found with ⟨rfl, rfl⟩ | ⟨-, old⟩
      · rw [if_pos rfl]
        exact congrArg (· + 1) (accounted.attached_eq_zero le_rfl).symm
      · have inside := (accounted.flights other flight old).lt
        rw [if_neg (by dsimp only; omega)]
        rcases accounted.tallied other flight old with tally | ⟨stopping, -⟩
        · exact tally
        · rw [running] at stopping
          cases stopping
    total := by
      dsimp only
      generalize new : Waiter.mk key (register key world).state.generation world.channels.length freshness none = waiter
      have own : waiter.channel = world.channels.length := by rw [← new]
      have others (other : CacheKey) (flight : Flight) (found : world.state.flights.get other = some flight) :
          attached (world.waiters ++ [waiter]) flight.channel = attached world.waiters flight.channel := by
        have inside := (accounted.flights other flight found).lt
        rw [attached_append, if_neg (by omega), Nat.add_zero]
      simp only [register]
      rw [Map.values_insert, Map.remove_of_absent absent, List.map_cons, List.sum_cons, attached_append, if_pos own,
        accounted.attached_eq_zero le_rfl, Map.sum_values_congr others, accounted.total]
      omega
    held := by
      intro waiter member found here
      rcases List.mem_append.mp member with old | fresh
      · rcases accounted.held waiter old found (old_channel here (accounted.waiters waiter old).lt) with
          standing | shown
        · exact .inl (stands _ _ standing)
        · exact .inr shown
      · rw [List.mem_singleton.mp fresh]
        exact .inl ⟨_, new, rfl⟩
    fewWaiters := room
    taken := by
      intro waiter member outcome answer took found here
      rcases List.mem_append.mp member with old | fresh
      · exact accounted.taken waiter old outcome answer took found
          (old_channel here (accounted.waiters waiter old).lt)
      · rw [List.mem_singleton.mp fresh] at took
        cases took }

theorem enter_accounted (accounted : Accounted config world) (key : CacheKey) (freshness : FreshnessRequirement)
    (admission : Admission) (running : world.state.stopping = false) :
    Accounted config (enter key freshness admission world).2 := by
  rw [enter]
  by_cases full : world.state.waiters ≥ maxWaiters
  · rw [if_pos full]
    exact accounted
  rw [if_neg full]
  split
  · next flight here =>
    split_ifs with cancelled crowded
    · exact accounted
    · exact accounted
    · exact accounted.join freshness here running (by omega) (by omega)
  · next absent =>
    by_cases busy : world.state.flights.len ≥ maxInFlight
    · rw [if_pos busy]
      exact accounted
    rw [if_neg busy]
    split
    · exact accounted
    · dsimp only
      split_ifs
      · exact accounted.abandon absent (by omega) running
      · exact accounted.spawn freshness absent (by omega) running (by omega)

theorem retrieve_accounted (accounted : Accounted config world) (query : Query) (freshness : FreshnessRequirement)
    (cancelled : Bool) (admission : Admission) :
    Accounted config (retrieve config query freshness cancelled admission world).2 := by
  rw [retrieve]
  split
  · exact accounted
  · next key _ =>
    rw [lookupOrJoin]
    split_ifs with stopped
    · exact accounted
    have synced := touches_syncEpoch config admission.storage world
    dsimp only
    split
    · exact synced.accounted accounted
    · have read := (synced.trans (touches_expire config admission.expireNow _)).trans (touches_cacheGet config key _)
      split
      · exact read.accounted accounted
      · apply enter_accounted (read.accounted accounted)
        rw [read.stopping]
        simp only [Bool.or_eq_true, not_or, Bool.not_eq_true] at stopped
        exact stopped.1

theorem attached_set {waiters : List Waiter} {index : ℕ} {waiter next : Waiter} (here : waiters[index]? = some waiter)
    (same : next.channel = waiter.channel) (channel : ℕ) : attached (waiters.set index next) channel = attached waiters channel := by
  obtain ⟨inside, rfl⟩ := List.getElem?_eq_some_iff.mp here
  have positive := List.countP_set (p := fun waiter : Waiter => decide (waiter.channel = channel)) (a := next) inside
  have counted : (if waiters[index].channel = channel then 1 else 0) ≤ attached waiters channel := by
    split_ifs with own
    · exact own ▸ attached_pos (List.getElem_mem inside)
    · exact Nat.zero_le _
  rw [attached, positive]
  simp only [decide_eq_true_eq, same]
  rw [attached] at counted ⊢
  omega

/-- A waiter has taken an outcome that its channel shows. -/
theorem Accounted.take (accounted : Accounted config world) {index : ℕ} {waiter : Waiter}
    (here : world.waiters[index]? = some waiter) {outcome : PublishedOutcome}
    (answer : Except RetrievalError RetrievalEnvelope)
    (shown : world.channels[waiter.channel]?.bind (·.outcome) = some outcome) :
    Accounted config { world with waiters := world.waiters.set index { waiter with taken := some (outcome, answer) } } := by
  have member := List.mem_of_getElem? here
  have counts := attached_set here (show ({ waiter with taken := some (outcome, answer) } : Waiter).channel = _ from rfl)
  have cases' {other : Waiter} (found : other ∈ world.waiters.set index { waiter with taken := some (outcome, answer) }) :
      other ∈ world.waiters ∨ other = { waiter with taken := some (outcome, answer) } := List.mem_or_eq_of_mem_set found
  exact { accounted with
    waiters := by
      intro other found
      rcases cases' found with old | rfl
      · exact accounted.waiters other old
      · exact accounted.waiters waiter member
    tallied := by
      intro key flight found
      dsimp only
      rw [counts]
      exact accounted.tallied key flight found
    total := by
      simp only [counts]
      exact accounted.total
    held := by
      intro other found
      rcases cases' found with old | rfl
      · exact accounted.held other old
      · exact accounted.held waiter member
    taken := by
      intro other found outcome' answer' took channel there
      rcases cases' found with old | rfl
      · exact accounted.taken other old outcome' answer' took channel there
      · cases took
        obtain ⟨channel', there', shown'⟩ := Option.bind_eq_some_iff.mp shown
        rw [there'] at there
        cases there
        exact accounted.outcomes _ channel _ there' shown' }

theorem receive_accounted (accounted : Accounted config world) (index : ℕ) (settlement : Settlement) :
    Accounted config (receive config index settlement world) := by
  rw [receive]
  split
  · next waiter here =>
    split
    · next outcome _ shown =>
      have touches := touches_settle config waiter.key waiter.freshness outcome settlement world
      dsimp only
      apply (touches.accounted accounted).take
      · rw [touches.waiters]
        exact here
      · obtain ⟨channel, there, shown⟩ := Option.bind_eq_some_iff.mp shown
        obtain ⟨cancel, same⟩ := touches.channels waiter.channel
        rw [same, there]
        exact shown
    · exact accounted
  · exact accounted

/-! ## Waiters that go -/

/-- A waiter goes whose flight has already gone. -/
theorem Accounted.forget (accounted : Accounted config world) {index : ℕ} {waiter : Waiter}
    (here : world.waiters[index]? = some waiter)
    (gone : ∀ key flight, world.state.flights.get key = some flight → waiter.channel ≠ flight.channel) :
    Accounted config { world with waiters := world.waiters.eraseIdx index } := by
  have members {other : Waiter} (member : other ∈ world.waiters.eraseIdx index) : other ∈ world.waiters :=
    List.mem_of_mem_eraseIdx member
  have counts (key : CacheKey) (flight : Flight) (found : world.state.flights.get key = some flight) :
      attached (world.waiters.eraseIdx index) flight.channel = attached world.waiters flight.channel := by
    rw [attached_eraseIdx here, if_neg (gone key flight found), Nat.add_zero]
  exact { accounted with
    waiters := fun other member => accounted.waiters other (members member)
    tallied := by
      intro key flight found
      dsimp only
      rw [counts key flight found]
      exact accounted.tallied key flight found
    total := by
      dsimp only
      rw [Map.sum_values_congr counts]
      exact accounted.total
    held := fun other member => accounted.held other (members member)
    taken := fun other member => accounted.taken other (members member) }

/-- A waiter goes and is taken off its flight. -/
theorem Accounted.leave (accounted : Accounted config world) {index : ℕ} {waiter : Waiter} {flight : Flight}
    (here : world.waiters[index]? = some waiter) (found : world.state.flights.get waiter.key = some flight)
    (own : flight.channel = waiter.channel) :
    flight.waiters = attached (world.waiters.eraseIdx index) flight.channel + 1 ∧
      Accounted config (Retrieval.leave waiter.key flight { world with waiters := world.waiters.eraseIdx index }) := by
  have members {other : Waiter} (member : other ∈ world.waiters.eraseIdx index) : other ∈ world.waiters :=
    List.mem_of_mem_eraseIdx member
  have count := attached_eraseIdx here flight.channel
  rw [if_pos own.symm] at count
  have tally : flight.waiters = attached world.waiters flight.channel := by
    rcases accounted.tallied waiter.key flight found with tally | ⟨-, none, -⟩
    · exact tally
    · omega
  have others := accounted.sum_others found (world.waiters.eraseIdx index) fun channel different => by
    rw [attached_eraseIdx here channel, if_neg (own ▸ different.symm), Nat.add_zero]
  have split := accounted.total_split found
  have stands {other : CacheKey} {channel : ℕ}
      (standing : ∃ flight, world.state.flights.get other = some flight ∧ flight.channel = channel) :
      ∃ next, (world.state.flights.update waiter.key { flight with waiters := flight.waiters - 1 }).get other = some next ∧
        next.channel = channel := by
    obtain ⟨old, there, rfl⟩ := standing
    by_cases same : other = waiter.key
    · rw [same, found] at there
      cases there
      rw [same, Map.get_update found]
      exact ⟨_, rfl, rfl⟩
    · rw [Map.get_update_of_ne found same]
      exact ⟨old, there, rfl⟩
  refine ⟨tally.trans count, { accounted with
    flights := ?_, waiters := ?_, registered := ?_, tallied := ?_, total := ?_, held := ?_, fewWaiters := ?_,
    fewPerKey := ?_, fewFlights := ?_, noUnderflow := ?_, taken := ?_ }⟩
  · intro other next there
    rcases Map.get_of_get_update found there with ⟨rfl, rfl⟩ | ⟨-, old⟩
    · exact accounted.flights _ flight found
    · exact accounted.flights other next old
  · exact fun other member => accounted.waiters other (members member)
  · exact fun job member channel there open' => stands (accounted.registered job member channel there open')
  · intro other next there
    rw [Retrieval.leave]
    dsimp only
    rcases Map.get_of_get_update found there with ⟨rfl, rfl⟩ | ⟨different, old⟩
    · left
      dsimp only
      omega
    · rw [show attached (world.waiters.eraseIdx index) next.channel = attached world.waiters next.channel by
        rw [attached_eraseIdx here next.channel, if_neg (own ▸ (accounted.channel_ne found old different).symm),
          Nat.add_zero]]
      exact accounted.tallied other next old
  · have perm := (Map.values_update_perm found { flight with waiters := flight.waiters - 1 }).map fun other =>
      attached (world.waiters.eraseIdx index) other.channel
    rw [Retrieval.leave]
    dsimp only
    rw [perm.sum_nat, List.map_cons, List.sum_cons, others]
    dsimp only
    omega
  · intro other member channel there
    rcases accounted.held other (members member) channel there with standing | shown
    · exact .inl (stands standing)
    · exact .inr shown
  · exact (Nat.sub_le _ _).trans accounted.fewWaiters
  · intro other next there
    rcases Map.get_of_get_update found there with ⟨rfl, rfl⟩ | ⟨-, old⟩
    · exact (Nat.sub_le _ _).trans (accounted.fewPerKey _ flight found)
    · exact accounted.fewPerKey other next old
  · rw [Retrieval.leave]
    dsimp only
    rw [Map.len_update found]
    exact accounted.fewFlights
  · rw [Retrieval.leave]
    dsimp only
    rw [accounted.noUnderflow, decide_eq_false (by omega), decide_eq_false (by omega)]
    rfl
  · exact fun other member => accounted.taken other (members member)

/-- A flight is removed. Its job is cancelled or over, and its waiters have an outcome. -/
theorem Accounted.remove (accounted : Accounted config world) {key : CacheKey} {flight : Flight}
    (found : world.state.flights.get key = some flight)
    (closed : ∀ job ∈ world.jobs, job.channel = flight.channel →
      ∀ channel, world.channels[job.channel]? = some channel → channel.cancelled = true)
    (shown : attached world.waiters flight.channel = 0 ∨
      ∀ channel, world.channels[flight.channel]? = some channel → channel.outcome ≠ none)
    {waiters : ℕ} (count : world.state.waiters = attached world.waiters flight.channel + waiters) {underflow : Bool}
    (clean : underflow = false) :
    Accounted config { world with
      state := { world.state with flights := world.state.flights.remove key, waiters, underflow } } := by
  have kept {other : CacheKey} {channel : ℕ} (different : channel ≠ flight.channel)
      (standing : ∃ flight, world.state.flights.get other = some flight ∧ flight.channel = channel) :
      ∃ next, (world.state.flights.remove key).get other = some next ∧ next.channel = channel := by
    obtain ⟨old, there, rfl⟩ := standing
    have apart : other ≠ key := by
      rintro rfl
      rw [found] at there
      cases there
      exact different rfl
    exact ⟨old, (Map.get_remove_of_ne _ apart).trans there, rfl⟩
  exact { accounted with
    flights := fun other next there => accounted.flights other next (Map.get_of_get_remove there).2
    registered := by
      intro job member channel there open'
      apply kept _ (accounted.registered job member channel there open')
      intro same
      rw [closed job member same channel there] at open'
      cases open'
    tallied := fun other next there => accounted.tallied other next (Map.get_of_get_remove there).2
    total := by
      have split := accounted.total_split found
      dsimp only
      omega
    held := by
      intro waiter member channel there
      rcases accounted.held waiter member channel there with standing | outcome
      · by_cases same : waiter.channel = flight.channel
        · right
          rcases shown with none | shown
          · have positive : 0 < attached world.waiters waiter.channel := attached_pos member
            rw [same] at positive
            omega
          · rw [same] at there
            exact shown channel there
        · exact .inl (kept same standing)
      · exact .inr outcome
    fewWaiters := by
      have few := accounted.fewWaiters
      dsimp only
      omega
    fewPerKey := fun other next there => accounted.fewPerKey other next (Map.get_of_get_remove there).2
    fewFlights := (Map.len_remove_le _ _).trans accounted.fewFlights
    noUnderflow := clean }

theorem cancelled_of_cancel {channel : ℕ} {found : Channel} (here : (world.cancel channel).channels[channel]? = some found) :
    found.cancelled = true := by
  rw [World.cancel, List.getElem?_modify_eq] at here
  obtain ⟨old, -, rfl⟩ := Option.map_eq_some_iff.mp here
  rfl

theorem dropWaiter_accounted (few : world.channels.length ≤ 2 ^ 64) (accounted : Accounted config world) (index : ℕ) :
    Accounted config (dropWaiter config index world) := by
  rw [dropWaiter]
  split
  swap
  · exact accounted
  next waiter here =>
  have made := accounted.waiters waiter (List.mem_of_getElem? here)
  have forgotten (gone : ∀ flight, world.state.flights.get waiter.key = some flight →
      flight.generation ≠ waiter.generation) :
      Accounted config { world with waiters := world.waiters.eraseIdx index } := by
    apply accounted.forget here
    intro key flight found same
    have other := accounted.flights key flight found
    have number := other
    rw [← same] at other
    obtain rfl := made.key_eq other
    apply gone flight found
    obtain ⟨-, -, -, generation⟩ := made
    obtain ⟨-, -, -, generation'⟩ := number
    rw [generation, generation', same]
  dsimp only
  split
  swap
  · next absent =>
    apply forgotten
    intro flight found
    rw [absent] at found
    cases found
  next flight found =>
  by_cases same : flight.generation = waiter.generation
  swap
  · rw [if_neg same]
    apply forgotten
    intro other found'
    rw [found] at found'
    cases found'
    exact same
  rw [if_pos same]
  have own : flight.channel = waiter.channel :=
    (accounted.flights _ flight found).channel_eq few (same ▸ made)
  obtain ⟨count, left⟩ := accounted.leave here found own
  split_ifs with last persistent
  · exact (Touches.cancel _ _).accounted left
  · -- the removed flight is cancelled first, so that its job no longer needs it
    have cancelled := (Touches.cancel _ flight.channel).accounted left
    have present : (leave waiter.key flight { world with waiters := world.waiters.eraseIdx index }).state.flights.get
        waiter.key = some { flight with waiters := flight.waiters - 1 } := Map.get_update found _
    have none : attached (world.waiters.eraseIdx index) flight.channel = 0 := by omega
    refine cancelled.remove present ?_ (.inl none) ?_ cancelled.noUnderflow
    · intro job member named channel there
      rw [named] at there
      exact cancelled_of_cancel there
    · exact (none ▸ (Nat.zero_add _).symm)
  · exact left

/-! ## Jobs that end -/

/-- A job has come to its result and is about to publish it. -/
structure Concluded (config : Config σ) (world : World σ) (job : Job) (result : PublishedOutcome) : Prop where
  accounted : Accounted config world
  few : world.channels.length ≤ 2 ^ 64
  made : world.Made job.key job.generation job.channel
  ended : ∀ other ∈ world.jobs, other.channel ≠ job.channel
  result : ∀ found, world.channels[job.channel]? = some found → found.result = some result
  tally : ∀ flight, world.state.flights.get job.key = some flight → flight.channel = job.channel →
    flight.waiters = attached world.waiters flight.channel

theorem Accounted.conclude (accounted : Accounted config world) (few : world.channels.length ≤ 2 ^ 64) {index : ℕ} {job : Job}
    (here : world.jobs[index]? = some job) (result : PublishedOutcome) :
    Concluded config { world with
      jobs := world.jobs.eraseIdx index
      channels := world.channels.modify job.channel fun channel => { channel with result := some result } } job result := by
  have member := List.mem_of_getElem? here
  have members {other : Job} (found : other ∈ world.jobs.eraseIdx index) : other ∈ world.jobs :=
    List.mem_of_mem_eraseIdx found
  have ended (other : Job) (found : other ∈ world.jobs.eraseIdx index) : other.channel ≠ job.channel := by
    obtain ⟨inside, rfl⟩ := List.getElem?_eq_some_iff.mp here
    have perm := (List.getElem_cons_eraseIdx_perm inside).map (·.channel)
    have distinct := perm.nodup_iff.mpr accounted.distinct
    rw [List.map_cons, List.nodup_cons] at distinct
    intro same
    exact distinct.1 (List.mem_map.mpr ⟨other, found, same⟩)
  have changed {number : ℕ} {found : Channel}
      (there : (world.channels.modify job.channel fun channel => { channel with result := some result })[number]? = some found) :
      ∃ old, world.channels[number]? = some old ∧
        found = if job.channel = number then { old with result := some result } else old := by
    rw [List.getElem?_modify] at there
    obtain ⟨old, before, rfl⟩ := Option.map_eq_some_iff.mp there
    refine ⟨old, before, ?_⟩
    split_ifs <;> rfl
  have made {key : CacheKey} {generation number : ℕ} (made : world.Made key generation number) :
      ({ world with
        jobs := world.jobs.eraseIdx index
        channels := world.channels.modify job.channel fun channel => { channel with result := some result } } :
          World σ).Made key generation number := by
    obtain ⟨found, there, named, numbered⟩ := made
    refine ⟨if job.channel = number then { found with result := some result } else found, ?_, ?_, numbered⟩
    · dsimp only
      rw [List.getElem?_modify, there]
      split_ifs <;> rfl
    · split_ifs <;> exact named
  -- a result is recorded once, so what was delivered before stays delivered
  have delivered {number : ℕ} {old : Channel} {outcome : PublishedOutcome} (before : world.channels[number]? = some old)
      (delivered : Delivered config world.state.stopping old outcome) :
      Delivered config world.state.stopping (if job.channel = number then { old with result := some result } else old)
        outcome := by
    split_ifs with same
    · rcases delivered with stopped | ⟨earlier, health, epoch, known, -⟩
      · exact .inl stopped
      · subst same
        rw [accounted.pending job member old before] at known
        cases known
    · exact delivered
  refine ⟨{ accounted with
    generation := ?_, flights := ?_, jobs := ?_, waiters := ?_, distinct := ?_, pending := ?_, registered := ?_,
    tallied := ?_, held := ?_, outcomes := ?_, taken := ?_ }, ?_, ?_, ended, ?_, ?_⟩
  · rw [List.length_modify]
    exact accounted.generation
  · exact fun key flight found => made (accounted.flights key flight found)
  · exact fun other found => made (accounted.jobs other (members found))
  · exact fun waiter found => made (accounted.waiters waiter found)
  · exact accounted.distinct.sublist ((List.eraseIdx_sublist _ _).map _)
  · intro other found channel there
    obtain ⟨old, before, rfl⟩ := changed there
    rw [if_neg (ended other found).symm]
    exact accounted.pending other (members found) old before
  · intro other found channel there open'
    obtain ⟨old, before, rfl⟩ := changed there
    rw [if_neg (ended other found).symm] at open'
    exact accounted.registered other (members found) old before open'
  · intro key flight found
    rcases accounted.tallied key flight found with tally | ⟨stopping, none, idle⟩
    · exact .inl tally
    · exact .inr ⟨stopping, none, fun other member => idle other (members member)⟩
  · intro waiter found channel there
    obtain ⟨old, before, rfl⟩ := changed there
    rcases accounted.held waiter found old before with standing | shown
    · exact .inl standing
    · right
      split_ifs <;> exact shown
  · intro number channel outcome there shown
    obtain ⟨old, before, rfl⟩ := changed there
    apply delivered before
    apply accounted.outcomes number old outcome before
    split_ifs at shown <;> exact shown
  · intro waiter found outcome answer took channel there
    obtain ⟨old, before, rfl⟩ := changed there
    exact delivered before (accounted.taken waiter found outcome answer took old before)
  · rw [List.length_modify]
    exact few
  · exact made (accounted.jobs job member)
  · intro found there
    obtain ⟨old, before, rfl⟩ := changed there
    rw [if_pos rfl]
  · intro flight found own
    rcases accounted.tallied job.key flight found with tally | ⟨-, -, idle⟩
    · exact tally
    · exact absurd own.symm (idle job member)

theorem Touches.concluded {after : World σ} {job : Job} {result : PublishedOutcome} (touches : Touches world after)
    (concluded : Concluded config world job result) : Concluded config after job result where
  accounted := touches.accounted concluded.accounted
  few := by rw [touches.length]; exact concluded.few
  made := touches.made concluded.made
  ended := by rw [touches.jobs]; exact concluded.ended
  result := by
    intro found here
    obtain ⟨old, before, -, -, same, -⟩ := touches.channel here
    rw [same]
    exact concluded.result old before
  tally := by
    rw [touches.flights, touches.waiters]
    exact concluded.tally

theorem Accounted.send (accounted : Accounted config world) {channel : ℕ} {outcome : PublishedOutcome}
    (delivered : ∀ found, world.channels[channel]? = some found → Delivered config world.state.stopping found outcome) :
    Accounted config (world.send channel outcome) := by
  have changed {number : ℕ} {found : Channel} (there : (world.send channel outcome).channels[number]? = some found) :
      ∃ old, world.channels[number]? = some old ∧
        found = if channel = number then { old with outcome := some outcome } else old := by
    rw [World.send, List.getElem?_modify] at there
    obtain ⟨old, before, rfl⟩ := Option.map_eq_some_iff.mp there
    refine ⟨old, before, ?_⟩
    split_ifs <;> rfl
  have made {key : CacheKey} {generation number : ℕ} (made : world.Made key generation number) :
      (world.send channel outcome).Made key generation number := by
    obtain ⟨found, there, named, numbered⟩ := made
    refine ⟨if channel = number then { found with outcome := some outcome } else found, ?_, ?_, numbered⟩
    · rw [World.send, List.getElem?_modify, there]
      split_ifs <;> rfl
    · split_ifs <;> exact named
  exact { accounted with
    generation := by
      rw [World.send, List.length_modify]
      exact accounted.generation
    flights := fun key flight found => made (accounted.flights key flight found)
    jobs := fun job found => made (accounted.jobs job found)
    waiters := fun waiter found => made (accounted.waiters waiter found)
    pending := by
      intro job found channel' there
      obtain ⟨old, before, rfl⟩ := changed there
      have none := accounted.pending job found old before
      split_ifs <;> exact none
    registered := by
      intro job found channel' there open'
      obtain ⟨old, before, rfl⟩ := changed there
      apply accounted.registered job found old before
      split_ifs at open' <;> exact open'
    held := by
      intro waiter found channel' there
      obtain ⟨old, before, rfl⟩ := changed there
      rcases accounted.held waiter found old before with standing | shown
      · exact .inl standing
      · right
        split_ifs
        · simp
        · exact shown
    outcomes := by
      intro number channel' outcome' there shown
      obtain ⟨old, before, rfl⟩ := changed there
      split_ifs at shown ⊢ with same
      · subst same
        cases shown
        exact delivered old before
      · exact accounted.outcomes number old outcome' before shown
    taken := by
      intro waiter found outcome' answer took channel' there
      obtain ⟨old, before, rfl⟩ := changed there
      have known := accounted.taken waiter found outcome' answer took old before
      split_ifs <;> exact known }

theorem Concluded.finishFlight {job : Job} {result : PublishedOutcome} (concluded : Concluded config world job result)
    {flight : Flight} (found : world.state.flights.get job.key = some flight) (own : flight.channel = job.channel)
    {outcome : PublishedOutcome}
    (delivered : ∃ health storageEpoch, outcome = currentOutcome config health storageEpoch result ∨
      outcome = .error (cancelledError config health result)) :
    Accounted config (finishFlight job.key flight outcome world) := by
  have accounted := concluded.accounted
  have tally := concluded.tally flight found own
  have split := accounted.total_split found
  have sent : Accounted config (world.send flight.channel outcome) := by
    apply accounted.send
    intro channel there
    rw [own] at there
    obtain ⟨health, epoch, origin⟩ := delivered
    exact .inr ⟨result, health, epoch, concluded.result channel there, origin⟩
  refine sent.remove found ?_ (.inr ?_) ?_ ?_
  · intro other member same
    exact absurd (same.trans own) (concluded.ended other member)
  · intro channel there
    rw [World.send, List.getElem?_modify_eq] at there
    obtain ⟨old, -, rfl⟩ := Option.map_eq_some_iff.mp there
    simp
  · rw [World.send]
    dsimp only
    omega
  · rw [accounted.noUnderflow, decide_eq_false (by omega)]
    rfl

theorem Accounted.write (accounted : Accounted config world) {job : Job} (value : StoredPayload)
    (registered : (world.state.flights.get job.key).map (·.channel) = some job.channel)
    (open' : world.isCancelled job.channel = false) : Accounted config (Retrieval.write config job value world) :=
  { (Touches.setCache world _).accounted accounted with
    writes := by
      intro write member
      rcases List.mem_append.mp member with old | new
      · exact accounted.writes write old
      · rw [List.mem_singleton.mp new]
        exact ⟨registered, open'⟩ }

theorem Concluded.write {job : Job} {result : PublishedOutcome} (concluded : Concluded config world job result)
    (value : StoredPayload) {flight : Flight} (found : world.state.flights.get job.key = some flight)
    (own : flight.channel = job.channel) (open' : world.isCancelled flight.channel = false) :
    Concluded config (Retrieval.write config job value world) job result :=
  { concluded with
    accounted := concluded.accounted.write value (by rw [found, ← own]; rfl) (own ▸ open') }

theorem publish_accounted {job : Job} {result : PublishedOutcome} (concluded : Concluded config world job result)
    (publication : Publication) : Accounted config (publish config job result publication world) := by
  have synced := (touches_syncEpoch config publication.storage world).concluded concluded
  rw [publish]
  dsimp only
  generalize syncEpoch config publication.storage world = world at synced
  split
  · exact synced.accounted
  next flight found =>
  by_cases same : flight.generation = job.generation
  swap
  · rw [if_pos same]
    exact synced.accounted
  rw [if_neg (not_not.mpr same)]
  have own : flight.channel = job.channel :=
    (synced.accounted.flights _ flight found).channel_eq synced.few (same ▸ synced.made)
  by_cases closed : (world.isCancelled flight.channel || world.state.stopping) = true
  · rw [if_pos closed]
    exact synced.finishFlight found own ⟨publication.health, 0, .inr rfl⟩
  rw [if_neg closed]
  rw [Bool.not_eq_true, Bool.or_eq_false_iff] at closed
  generalize shown : currentOutcome config publication.health world.state.storageEpoch result = outcome
  have origin : ∃ health storageEpoch, outcome = currentOutcome config health storageEpoch result ∨
      outcome = .error (cancelledError config health result) :=
    ⟨publication.health, world.state.storageEpoch, .inl shown.symm⟩
  cases outcome with
  | error error => exact synced.finishFlight found own origin
  | ok value =>
    have expired := (touches_expire config publication.expireNow world).concluded synced
    exact (expired.write value.1 found own closed.1).finishFlight found own origin

theorem finishJob_accounted (few : world.channels.length ≤ 2 ^ 64) (accounted : Accounted config world) (index : ℕ)
    (result : PublishedOutcome) (publication : Publication) :
    Accounted config (finishJob config index result publication world) := by
  rw [finishJob]
  split
  · next job here => exact publish_accounted (accounted.conclude few here result) publication
  · exact accounted

theorem promotePersistent_accounted (few : world.channels.length ≤ 2 ^ 64) (accounted : Accounted config world) (index : ℕ)
    (value : StoredPayload) (epoch : ℕ) (publication : Publication) :
    Accounted config (promotePersistent config index value epoch publication world) := by
  rw [promotePersistent.eq_def]
  split
  swap
  · exact accounted
  next job _ here _ =>
  have touches := touches_syncEpoch config publication.storage world
  have synced := touches.accounted accounted
  have member : job ∈ (syncEpoch config publication.storage world).jobs := by
    rw [touches.jobs]
    exact List.mem_of_getElem? here
  rw [← touches.length] at few
  dsimp only
  generalize syncEpoch config publication.storage world = world at synced member few
  split_ifs with unhealthy stopped
  · exact synced
  · exact synced
  · simp only [Bool.or_eq_true, Bool.not_eq_true', not_or, Bool.not_eq_true, Bool.not_eq_false] at stopped
    obtain ⟨flight, found, allowed⟩ := (Option.any_eq_true _ _).mp stopped.2
    simp only [Bool.and_eq_true, decide_eq_true_eq, Bool.not_eq_true'] at allowed
    have own : flight.channel = job.channel :=
      (synced.flights _ flight found).channel_eq few (allowed.1.1 ▸ synced.jobs job member)
    exact synced.write value (by rw [found, ← own]; rfl) (own ▸ allowed.2)

theorem lost_accounted (accounted : Accounted config world) (index : ℕ) :
    Accounted config { world with jobs := world.jobs.eraseIdx index } := by
  have members {other : Job} (found : other ∈ world.jobs.eraseIdx index) : other ∈ world.jobs :=
    List.mem_of_mem_eraseIdx found
  exact { accounted with
    jobs := fun job found => accounted.jobs job (members found)
    distinct := accounted.distinct.sublist ((List.eraseIdx_sublist _ _).map _)
    pending := fun job found => accounted.pending job (members found)
    registered := fun job found => accounted.registered job (members found)
    tallied := by
      intro key flight found
      rcases accounted.tallied key flight found with tally | ⟨stopping, none, idle⟩
      · exact .inl tally
      · exact .inr ⟨stopping, none, fun job member => idle job (members member)⟩ }

/-- The shutdown answers every flight and removes it. -/
theorem stop_accounted (accounted : Accounted config world) : Accounted config (stop config world) := by
  have touches := (Touches.cancelFlights world).trans (touches_clearCache config world.cancelFlights)
  have cleared := touches.accounted accounted
  -- every standing flight is cancelled
  have cancelled {key : CacheKey} {flight : Flight} (found : world.state.flights.get key = some flight) {channel : Channel}
      (here : (clearCache config world.cancelFlights).channels[flight.channel]? = some channel) : channel.cancelled = true := by
    have there : world.cancelFlights.channels[flight.channel]? = some channel := here
    rw [World.cancelFlights, List.getElem?_mapIdx] at there
    obtain ⟨old, -, rfl⟩ := Option.map_eq_some_iff.mp there
    have standing : world.state.flights.values.any (·.channel = flight.channel) = true :=
      List.any_eq_true.mpr ⟨flight, Map.mem_values_iff.mpr ⟨key, found⟩, decide_eq_true rfl⟩
    rw [standing, Bool.or_true]
  have same : (clearCache config world.cancelFlights).state.flights = world.state.flights := touches.flights
  rw [stop]
  dsimp only
  generalize clearCache config world.cancelFlights = world' at cleared cancelled same
  have changed {number : ℕ} {found : Channel}
      (there : (world'.channels.mapIdx fun index channel =>
        if world'.state.flights.values.any (·.channel = index) then { channel with outcome := some (.error .shutdown) }
        else channel)[number]? = some found) :
      ∃ old, world'.channels[number]? = some old ∧ found =
        if world'.state.flights.values.any (·.channel = number) then { old with outcome := some (.error .shutdown) }
        else old := by
    rw [List.getElem?_mapIdx] at there
    obtain ⟨old, before, rfl⟩ := Option.map_eq_some_iff.mp there
    exact ⟨old, before, rfl⟩
  have made {key : CacheKey} {generation number : ℕ} (made : world'.Made key generation number) :
      ∃ found, (world'.channels.mapIdx fun index channel =>
        if world'.state.flights.values.any (·.channel = index) then { channel with outcome := some (.error .shutdown) }
        else channel)[number]? = some found ∧ found.key = key ∧ generation = generationOf number := by
    obtain ⟨found, there, named, numbered⟩ := made
    refine ⟨_, by rw [List.getElem?_mapIdx, there]; rfl, ?_, numbered⟩
    split_ifs <;> exact named
  exact { cleared with
    generation := by
      rw [List.length_mapIdx]
      exact cleared.generation
    flights := fun key flight found => by cases found
    jobs := fun job member => made (cleared.jobs job member)
    waiters := fun waiter member => made (cleared.waiters waiter member)
    pending := by
      intro job member found there
      obtain ⟨old, before, rfl⟩ := changed there
      have none := cleared.pending job member old before
      split_ifs <;> exact none
    registered := by
      intro job member found there open'
      obtain ⟨old, before, rfl⟩ := changed there
      have open'' : old.cancelled = false := by split_ifs at open' <;> exact open'
      obtain ⟨flight, standing, own⟩ := cleared.registered job member old before open''
      rw [same] at standing
      rw [← own] at before
      rw [cancelled standing before] at open''
      cases open''
    tallied := fun key flight found => by cases found
    total := rfl
    held := by
      intro waiter member found there
      right
      obtain ⟨old, before, rfl⟩ := changed there
      rcases cleared.held waiter member old before with ⟨flight, standing, own⟩ | shown
      · have answered : world'.state.flights.values.any (·.channel = waiter.channel) = true :=
          List.any_eq_true.mpr ⟨flight, Map.mem_values_iff.mpr ⟨_, standing⟩, decide_eq_true own⟩
        rw [if_pos answered]
        simp
      · split_ifs
        · simp
        · exact shown
    fewWaiters := Nat.zero_le _
    fewPerKey := fun key flight found => by cases found
    fewFlights := Nat.zero_le _
    outcomes := by
      intro number found outcome there shown
      obtain ⟨old, before, rfl⟩ := changed there
      split_ifs at shown ⊢
      · cases shown
        exact .inl ⟨rfl, rfl⟩
      · exact (cleared.outcomes number old outcome before shown).stopped
    taken := by
      intro waiter member outcome answer took found there
      obtain ⟨old, before, rfl⟩ := changed there
      have known := (cleared.taken waiter member outcome answer took old before).stopped
      split_ifs <;> exact known }

/-! ## Runs -/

theorem step_accounted (few : world.channels.length ≤ 2 ^ 64) (accounted : Accounted config world) (event : Event) :
    Accounted config (step config world event) := by
  cases event with
  | retrieve query freshness cancelled admission => exact retrieve_accounted accounted query freshness cancelled admission
  | receive index settlement => exact receive_accounted accounted index settlement
  | dropWaiter index => exact dropWaiter_accounted few accounted index
  | promotePersistent index found epoch publication =>
    exact promotePersistent_accounted few accounted index found epoch publication
  | cancelJob index =>
    rw [step, cancelJob]
    split
    · exact (Touches.cancel world _).accounted accounted
    · exact accounted
  | finishJob index outcome publication => exact finishJob_accounted few accounted index outcome publication
  | lost index => exact lost_accounted accounted index
  | sync storage => exact (touches_syncEpoch config storage world).accounted accounted
  | expire now => exact (touches_expire config now world).accounted accounted
  | cancelAll => exact { accounted with }
  | stop => exact stop_accounted accounted

theorem length_finishFlight (key : CacheKey) (flight : Flight) (outcome : PublishedOutcome) (world : World σ) :
    (finishFlight key flight outcome world).channels.length = world.channels.length := by
  rw [finishFlight, World.send, List.length_modify]

theorem length_publish (job : Job) (outcome : PublishedOutcome) (publication : Publication) :
    (publish config job outcome publication world).channels.length = world.channels.length := by
  have synced := (touches_syncEpoch config publication.storage world).length
  rw [publish]
  dsimp only
  generalize syncEpoch config publication.storage world = world' at synced
  split
  · exact synced
  next flight found =>
  split_ifs
  · exact synced
  · rw [length_finishFlight]
    exact synced
  · split
    · rw [length_finishFlight]
      exact synced
    · rw [length_finishFlight]
      exact synced

theorem length_enter (key : CacheKey) (freshness : FreshnessRequirement) (admission : Admission) :
    world.channels.length ≤ (enter key freshness admission world).2.channels.length := by
  have registered : world.channels.length ≤ (register key world).channels.length := by
    rw [register, List.length_append]
    exact Nat.le_add_right _ _
  rw [enter]
  by_cases full : world.state.waiters ≥ maxWaiters
  · rw [if_pos full]
  rw [if_neg full]
  split
  · split_ifs <;> exact le_rfl
  · by_cases busy : world.state.flights.len ≥ maxInFlight
    · rw [if_pos busy]
    rw [if_neg busy]
    split
    · exact le_rfl
    · dsimp only
      split_ifs <;> exact registered

/-- Channels are never given back. -/
theorem step_length (event : Event) : world.channels.length ≤ (step config world event).channels.length := by
  cases event with
  | retrieve query freshness cancelled admission =>
    rw [step, retrieve]
    split
    · exact le_rfl
    · next key _ =>
      rw [lookupOrJoin]
      split_ifs
      · exact le_rfl
      have synced := touches_syncEpoch config admission.storage world
      dsimp only
      split
      · exact synced.length.ge
      · have read := (synced.trans (touches_expire config admission.expireNow _)).trans (touches_cacheGet config key _)
        split
        · exact read.length.ge
        · exact read.length.ge.trans (length_enter key freshness admission)
  | receive index settlement =>
    rw [step, receive]
    split
    · split
      · exact (touches_settle config _ _ _ settlement world).length.ge
      · exact le_rfl
    · exact le_rfl
  | dropWaiter index =>
    rw [step, dropWaiter]
    split
    · dsimp only
      split
      · split_ifs
        · rw [World.cancel, List.length_modify, leave]
        · rw [World.cancel, List.length_modify, leave]
        · rw [leave]
        · exact le_rfl
      · exact le_rfl
    · exact le_rfl
  | promotePersistent index found epoch publication =>
    rw [step, promotePersistent.eq_def]
    split
    · dsimp only
      split_ifs
      · exact (touches_syncEpoch config publication.storage world).length.ge
      · exact (touches_syncEpoch config publication.storage world).length.ge
      · exact (touches_syncEpoch config publication.storage world).length.ge
    · exact le_rfl
  | cancelJob index =>
    rw [step, cancelJob]
    split
    · exact (Touches.cancel world _).length.ge
    · exact le_rfl
  | finishJob index outcome publication =>
    rw [step, finishJob]
    split
    · rw [length_publish, List.length_modify]
    · exact le_rfl
  | lost index => exact le_rfl
  | sync storage => exact (touches_syncEpoch config storage world).length.ge
  | expire now => exact le_rfl
  | cancelAll => exact le_rfl
  | stop =>
    rw [step, stop]
    dsimp only
    rw [List.length_mapIdx]
    exact ((Touches.cancelFlights world).trans (touches_clearCache config world.cancelFlights)).length.ge

theorem run_length (events : List Event) : world.channels.length ≤ (run config world events).channels.length := by
  induction events generalizing world with
  | nil => exact le_rfl
  | cons event events ih => exact (step_length event).trans ih

theorem run_append (first second : List Event) :
    run config world (first ++ second) = run config (run config world first) second := List.foldl_append

theorem run_accounted (events : List Event) (few : (run config world events).channels.length ≤ 2 ^ 64)
    (accounted : Accounted config world) : Accounted config (run config world events) := by
  induction events generalizing world with
  | nil => exact accounted
  | cons event events ih =>
    have bound : world.channels.length ≤ 2 ^ 64 :=
      (step_length event).trans ((run_length events).trans few)
    exact ih few (step_accounted bound accounted event)

theorem start_accounted (config : Config σ) (cache : σ) (storageEpoch storageRecoveryEpoch : ℕ) :
    Accounted config (start cache storageEpoch storageRecoveryEpoch) where
  generation := rfl
  flights := fun _ _ found => by cases found
  jobs := fun _ member => by cases member
  waiters := fun _ member => by cases member
  distinct := List.nodup_nil
  pending := fun _ member => by cases member
  registered := fun _ member => by cases member
  tallied := fun _ _ found => by cases found
  total := rfl
  held := fun _ member => by cases member
  fewWaiters := Nat.zero_le _
  fewPerKey := fun _ _ found => by cases found
  fewFlights := Nat.zero_le _
  noUnderflow := rfl
  outcomes := fun _ _ _ here => by cases here
  taken := fun _ member => by cases member
  writes := fun _ member => by cases member

/-- What holds of flights, waiters and jobs in a state of the service. -/
structure SingleFlight (config : Config σ) (world : World σ) : Prop where
  /-- A job whose token is not cancelled works for the flight of its key. -/
  live : ∀ job ∈ world.jobs, world.isCancelled job.channel = false →
    (world.state.flights.get job.key).map (·.channel) = some job.channel
  /-- No two such jobs work for one key. -/
  single : ∀ job ∈ world.jobs, ∀ other ∈ world.jobs, world.isCancelled job.channel = false →
    world.isCancelled other.channel = false → job.key = other.key → job = other
  balanced : world.state.stopping = false → world.state.waiters = (world.state.flights.values.map (·.waiters)).sum
  fewWaiters : world.state.waiters ≤ maxWaiters
  fewPerKey : ∀ flight ∈ world.state.flights.values, flight.waiters ≤ maxWaitersPerKey
  fewFlights : world.state.flights.len ≤ maxInFlight
  noUnderflow : world.state.underflow = false
  /-- What a waiter takes is what the job of its own flight came to, or the shutdown of the service. -/
  received : ∀ waiter ∈ world.waiters, ∀ outcome answer, waiter.taken = some (outcome, answer) →
    ∃ channel, world.channels[waiter.channel]? = some channel ∧ channel.key = waiter.key ∧
      Delivered config world.state.stopping channel outcome
  /-- A waiter without a flight has an outcome to take. -/
  answered : ∀ waiter ∈ world.waiters, (world.state.flights.get waiter.key).map (·.channel) ≠ some waiter.channel →
    (world.channels[waiter.channel]?.bind (·.outcome)).isSome = true
  /-- The cache is written for the flight that stands, and not after its cancellation. -/
  writes : ∀ write ∈ world.writes, write.registered = some write.channel ∧ write.cancelled = false

theorem Accounted.live (accounted : Accounted config world) {job : Job} (member : job ∈ world.jobs)
    (open' : world.isCancelled job.channel = false) :
    (world.state.flights.get job.key).map (·.channel) = some job.channel := by
  obtain ⟨channel, here, -⟩ := accounted.jobs job member
  rw [World.isCancelled, here, Option.any_some, Bool.or_eq_false_iff] at open'
  obtain ⟨flight, found, own⟩ := accounted.registered job member channel here open'.2
  rw [found, Option.map_some, own]

theorem Accounted.singleFlight (accounted : Accounted config world) : SingleFlight config world where
  live := fun job member open' => accounted.live member open'
  single := by
    intro job member other member' open' open'' same
    have first := accounted.live member open'
    rw [same, accounted.live member' open''] at first
    exact List.inj_on_of_nodup_map accounted.distinct member member' (Option.some.inj first).symm
  balanced := by
    intro running
    rw [accounted.total]
    apply Map.sum_values_congr
    intro key flight found
    rcases accounted.tallied key flight found with tally | ⟨stopping, -⟩
    · exact tally.symm
    · rw [running] at stopping
      cases stopping
  fewWaiters := accounted.fewWaiters
  fewPerKey := by
    intro flight member
    obtain ⟨key, found⟩ := Map.mem_values_iff.mp member
    exact accounted.fewPerKey key flight found
  fewFlights := accounted.fewFlights
  noUnderflow := accounted.noUnderflow
  received := by
    intro waiter member outcome answer took
    obtain ⟨channel, here, named, -⟩ := accounted.waiters waiter member
    exact ⟨channel, here, named, accounted.taken waiter member outcome answer took channel here⟩
  answered := by
    intro waiter member gone
    obtain ⟨channel, here, -⟩ := accounted.waiters waiter member
    rw [here, Option.bind_some, Option.isSome_iff_ne_none]
    rcases accounted.held waiter member channel here with ⟨flight, found, own⟩ | shown
    · rw [found, Option.map_some, own] at gone
      exact absurd rfl gone
    · exact shown
  writes := accounted.writes

/-- Flights are single and accounted for in every state that is reached by starting at most `2 ^ 64`
flights. -/
theorem single_flight (config : Config σ) (cache : σ) (storageEpoch storageRecoveryEpoch : ℕ) (events : List Event)
    (few : (run config (start cache storageEpoch storageRecoveryEpoch) events).channels.length ≤ 2 ^ 64) :
    SingleFlight config (run config (start cache storageEpoch storageRecoveryEpoch) events) :=
  (run_accounted events few (start_accounted config cache storageEpoch storageRecoveryEpoch)).singleFlight

/-! ## When the counter wraps -/

namespace Wrapping

/-- A cache that keeps everything. -/
def memory : CacheStore (Map CacheKey StoredPayload) where
  get := fun key map => (map.get key, map)
  publish := fun key value map => map.insert key value
  expireBefore := fun before map => map.retain fun _ value => value.provenance.validatedAt ≥ before
  clear := fun _ => ∅

/-- One source and no persistent store. -/
def single : Config (Map CacheKey StoredPayload) where
  sources := (∅ : Map Str Source).insert ['s'] ⟨['s'], ['p'], ['d'], ['v']⟩
  cache := memory
  persistence := none

def query : Query := .get ['s'] ['a']

def key : CacheKey := ⟨['p'], ['d'], ['v'], 1, query⟩

def calm : Admission := ⟨⟨0, 0, true, .ready, .ready⟩, ⟨.ready, true⟩, 0, 0, 0, .ok (), false⟩

def value : StoredPayload where
  data := .get ⟨['s'], ['a'], ['t'], [], true⟩
  provenance := ⟨['p'], ['d'], ['r'], [], ['v'], 0, 0⟩
  raw := []
  bytes := 1025
  snapshot := none

/-- A call starts a flight. -/
def call : Event := .retrieve query .allowStale false calm

/-- A flight whose only waiter leaves and whose job then ends. -/
def cycle : List Event := [call, .dropWaiter 0, .finishJob 1 (.error .cancelled) ⟨calm.storage, calm.health, 0⟩]

/-- The first flight has lost its waiter, but its job goes on. Nothing else is left of the other flights
than their channels. -/
def idle (channels : List Channel) : World (Map CacheKey StoredPayload) where
  state := { cache := ∅, generation := channels.length % 2 ^ 64 }
  channels
  jobs := [⟨key, 1, 0⟩]

/-- The channel of a flight that was cancelled. -/
def closed (result : Option PublishedOutcome) : Channel := { key, cancelled := true, result }

theorem call_idle (channels : List Channel) :
    step single (idle channels) call =
      { idle channels with
        state := {
          cache := ∅
          flights := (∅ : Map CacheKey Flight).insert key ⟨(channels.length % 2 ^ 64 + 1) % 2 ^ 64, 1, channels.length⟩
          waiters := 1
          generation := (channels.length % 2 ^ 64 + 1) % 2 ^ 64 }
        channels := channels ++ [{ key }]
        jobs := [⟨key, 1, 0⟩, ⟨key, (channels.length % 2 ^ 64 + 1) % 2 ^ 64, channels.length⟩]
        waiters := [⟨key, (channels.length % 2 ^ 64 + 1) % 2 ^ 64, channels.length, .allowStale, none⟩] } := by
  have last : (channels ++ [({ key } : Channel)]).length - 1 = channels.length := by simp
  have admitted : step single (idle channels) call = spawn key .allowStale (register key (idle channels)) := rfl
  rw [admitted, spawn, register]
  simp only [idle, last]
  rfl

theorem modify_last (channels : List Channel) (channel : Channel) (f : Channel → Channel) :
    (channels ++ [channel]).modify channels.length f = channels ++ [f channel] := by
  apply List.ext_getElem?
  intro index
  rw [List.getElem?_modify]
  rcases Nat.lt_trichotomy index channels.length with before | rfl | after
  · rw [List.getElem?_append_left before, List.getElem?_append_left before]
    simp [Nat.ne_of_gt before]
  · simp
  · rw [List.getElem?_eq_none (by simp; omega), List.getElem?_eq_none (by simp; omega)]
    rfl

theorem drop_idle (channels : List Channel) :
    dropWaiter single 0 (step single (idle channels) call) =
      { idle channels with
        state := { cache := ∅, generation := (channels.length % 2 ^ 64 + 1) % 2 ^ 64 }
        channels := channels ++ [closed none]
        jobs := [⟨key, 1, 0⟩, ⟨key, (channels.length % 2 ^ 64 + 1) % 2 ^ 64, channels.length⟩] } := by
  have removed (flight flight' : Flight) :
      (((∅ : Map CacheKey Flight).insert key flight).update key flight').remove key = ∅ := rfl
  rw [call_idle, dropWaiter]
  simp [leave, World.cancel, single, closed, modify_last, removed, idle]

theorem cycle_idle (channels : List Channel) :
    run single (idle channels) cycle = idle (channels ++ [closed (some (.error .cancelled))]) := by
  have ran : run single (idle channels) cycle = finishJob single 1 (.error .cancelled) ⟨calm.storage, calm.health, 0⟩
      (dropWaiter single 0 (step single (idle channels) call)) := rfl
  rw [ran, drop_idle, finishJob]
  simp [publish, syncEpoch, single, closed, modify_last, idle]

theorem cycles_idle (n : ℕ) (channels : List Channel) :
    run single (idle channels) (List.replicate n cycle).flatten =
      idle (channels ++ List.replicate n (closed (some (.error .cancelled)))) := by
  induction n generalizing channels with
  | zero => simp [run]
  | succ n ih =>
    have split : run single (idle channels) (List.replicate (n + 1) cycle).flatten =
        run single (run single (idle channels) cycle) (List.replicate n cycle).flatten := by
      rw [List.replicate_succ, List.flatten_cons, run, List.foldl_append]
      rfl
    rw [split, cycle_idle, ih, List.append_assoc, List.replicate_succ]
    rfl

/-- The job of the first flight is late by `2 ^ 64` flights. -/
def late : List Event :=
  [call, .dropWaiter 0] ++ (List.replicate (2 ^ 64 - 1) cycle).flatten ++
    [call, .finishJob 0 (.ok (value, none)) ⟨calm.storage, calm.health, 0⟩]

theorem finish_idle {rest : List Channel} {n : ℕ} (length : rest.length + 1 = n) (round : n % 2 ^ 64 = 0) :
    let world := run single (idle (closed none :: rest))
      [call, .finishJob 0 (.ok (value, none)) ⟨calm.storage, calm.health, 0⟩]
    world.writes = [⟨0, some n, true⟩] ∧ world.waiters.map (·.channel) = [n] ∧
      world.channels[n]? = some { key, outcome := some (.ok (value, none)) } := by
  have ran : run single (idle (closed none :: rest))
      [call, .finishJob 0 (.ok (value, none)) ⟨calm.storage, calm.health, 0⟩] =
    finishJob single 0 (.ok (value, none)) ⟨calm.storage, calm.health, 0⟩
      (step single (idle (closed none :: rest)) call) := rfl
  subst length
  rw [ran, call_idle, List.length_cons, round]
  simp [finishJob, publish, syncEpoch, single, idle, World.isCancelled, closed, finishFlight, write, World.send,
    World.setCache, expire, currentOutcome]

/-- A generation that was cancelled writes the cache, and the waiter of a later flight gets its outcome,
when the counter has come round. -/
theorem cancelled_generation_writes :
    let world := run single (start ∅ 0 0) late
    world.writes = [⟨0, some (2 ^ 64), true⟩] ∧ world.waiters.map (·.channel) = [2 ^ 64] ∧
      world.channels[2 ^ 64]? = some { key, outcome := some (.ok (value, none)) } := by
  have begun : run single (start ∅ 0 0) [call, .dropWaiter 0] = idle [closed none] := rfl
  rw [late, run_append, run_append, begun, cycles_idle, List.singleton_append]
  have length : (List.replicate (2 ^ 64 - 1) (closed (some (.error .cancelled)))).length + 1 = 2 ^ 64 := by
    rw [List.length_replicate]
    omega
  generalize List.replicate (2 ^ 64 - 1) (closed (some (.error .cancelled))) = rest at length ⊢
  -- a literal of this size must not be unfolded
  generalize top : 2 ^ 64 = n at length ⊢
  exact finish_idle length (top ▸ Nat.mod_self n)
/-- A flight that is joined and answered. -/
theorem single_flight_joined :
    (run single (start ∅ 0 0) [call, call, .finishJob 0 (.ok (value, none)) ⟨calm.storage, calm.health, 0⟩]).channels.length ≤
        2 ^ 64 ∧
      SingleFlight single
        (run single (start ∅ 0 0) [call, call, .finishJob 0 (.ok (value, none)) ⟨calm.storage, calm.health, 0⟩]) :=
  have few : (run single (start ∅ 0 0)
      [call, call, .finishJob 0 (.ok (value, none)) ⟨calm.storage, calm.health, 0⟩]).channels.length ≤ 2 ^ 64 := by
    decide +kernel
  ⟨few, single_flight single ∅ 0 0 _ few⟩

end Wrapping

end OpenLegal.Retrieval
