import Mathlib.Data.List.Basic
import Mathlib.Data.Nat.Basic
import OpenLegal.Blob.Store
import OpenLegal.Theory.Runs

/-! # Recovery of a blob store

Each step is calm for the gate of the store or begins a new epoch. A probe that passed its check holds a
certificate of its epoch, and only such a probe restores health. It does so by the value of a counter that wraps.
-/

namespace OpenLegal.Blob

open Theory

/-- The probe got past its check. -/
def HealthFlight.checked (flight : HealthFlight) : Bool :=
  flight.phase = .running true || flight.phase = .succeeded

theorem mem_modify {α : Type} {items : List α} {index : ℕ} {change : α → α} {item : α}
    (member : item ∈ items.modify index change) : item ∈ items ∨ ∃ old, items[index]? = some old ∧ item = change old := by
  obtain ⟨place, found⟩ := List.mem_iff_getElem?.mp member
  by_cases same : index = place
  · rw [← same, List.getElem?_modify_eq] at found
    obtain ⟨old, present, rfl⟩ := Option.map_eq_some_iff.mp found
    exact .inr ⟨old, present, rfl⟩
  · rw [List.getElem?_modify_ne _ _ same] at found
    exact .inl (List.mem_of_getElem? found)

/-- What is not at the index stays. -/
theorem mem_modify_of_ne {α : Type} {items : List α} {index : ℕ} {change : α → α} {item : α} (member : item ∈ items)
    (other : items[index]? ≠ some item) : item ∈ items.modify index change := by
  obtain ⟨place, found⟩ := List.mem_iff_getElem?.mp member
  have different : index ≠ place := by
    rintro rfl
    exact other found
  exact List.mem_of_getElem? ((List.getElem?_modify_ne _ _ different).trans found)

namespace FsBlobStore

variable {α : Type} {label : α} {store : FsBlobStore α}

/-! ## What a step does -/

/-- How the probes of a store move on. A probe passes its check in its own epoch, and while the store is not
healthy only if no ordinary job is active. -/
structure FlightsMove (store next : FsBlobStore α) : Prop where
  known : ∀ flight ∈ next.flights, flight ∈ store.flights ∨
    flight = ⟨store.failureEpoch, store.failures, !store.healthy, .queued⟩ ∨
    ∃ old ∈ store.flights, flight.generation = old.generation ∧ flight.failures = old.failures ∧
      flight.recovering = old.recovering ∧ (flight.checked = true → old.checked = true ∨
        (next.gate = store.gate ∧ (old.recovering = true → store.healthy = true ∨ store.jobs = [])))
  kept : ∀ flight ∈ store.flights, flight.phase = .succeeded → flight ∈ next.flights

theorem FlightsMove.of_eq {next : FsBlobStore α} (same : next.flights = store.flights) : store.FlightsMove next := by
  constructor
  · intro flight member
    exact .inl (same ▸ member)
  · intro flight member _
    exact same ▸ member

/-- A probe changes its phase. -/
theorem setPhase_flightsMove {flight : ℕ} {probe : HealthFlight} {phase : FlightPhase}
    (found : store.flights[flight]? = some probe) (running : probe.phase ≠ .succeeded)
    (checked : HealthFlight.checked { probe with phase } = true → probe.checked = true ∨
      (probe.recovering = true → store.healthy = true ∨ store.jobs = [])) :
    store.FlightsMove (store.setPhase flight phase) := by
  constructor
  · intro other member
    rcases mem_modify member with old | ⟨old, present, rfl⟩
    · exact .inl old
    · rw [found] at present
      cases present
      refine .inr (.inr ⟨probe, List.mem_of_getElem? found, rfl, rfl, rfl, ?_⟩)
      intro past
      exact (checked past).imp_right fun facts => ⟨rfl, facts⟩
  · intro other member done
    apply mem_modify_of_ne member
    rw [found]
    intro same
    cases same
    exact running done

/-- A failure after a change of phase that gives no certificate. -/
theorem FlightsMove.failed {next : FsBlobStore α} (move : store.FlightsMove next) (error : BlobError)
    (uncertified : ∀ flight ∈ next.flights, flight ∈ store.flights ∨ flight.checked = false) :
    store.FlightsMove (next.failed error) := by
  have same : (next.failed error).flights = next.flights := by
    rw [FsBlobStore.failed]
    split_ifs <;> rfl
  constructor
  · intro flight member
    rw [same] at member
    rcases uncertified flight member with old | unchecked
    · exact .inl old
    · rcases move.known flight member with old | new | ⟨old, present, generation, failures, recovering, -⟩
      · exact .inl old
      · exact .inr (.inl new)
      · refine .inr (.inr ⟨old, present, generation, failures, recovering, ?_⟩)
        rw [unchecked]
        intro absurd
        cases absurd
  · intro flight member done
    rw [same]
    exact move.kept flight member done

/-- If the probe's own job is the only active one, no ordinary job is. -/
theorem jobs_eq_nil {probe : HealthFlight} (member : probe ∈ store.flights) (active : probe.active = true)
    (alone : store.activeJobs = 1) : store.jobs = [] := by
  have counted : 0 < store.flights.countP HealthFlight.active := List.countP_pos_iff.mpr ⟨probe, member, active⟩
  rw [activeJobs] at alone
  apply List.eq_nil_of_length_eq_zero
  omega

theorem checked_eq_false {probe : HealthFlight} {phase : FlightPhase} (first : phase ≠ .running true)
    (second : phase ≠ .succeeded) : HealthFlight.checked { probe with phase } = false := by
  simp [HealthFlight.checked, first, second]

/-- A probe that gives up, after which a failure may be reported. -/
theorem giveUp_flightsMove {flight : ℕ} {probe : HealthFlight} (found : store.flights[flight]? = some probe)
    (running : probe.phase ≠ .succeeded) {phase : FlightPhase} (first : phase ≠ .running true) (second : phase ≠ .succeeded) :
    store.FlightsMove (store.setPhase flight phase) ∧
      ∀ error, store.FlightsMove ((store.setPhase flight phase).failed error) := by
  have unchecked : HealthFlight.checked { probe with phase } = false := checked_eq_false first second
  have move : store.FlightsMove (store.setPhase flight phase) := by
    apply setPhase_flightsMove found running
    rw [unchecked]
    intro past
    cases past
  refine ⟨move, fun error => move.failed error ?_⟩
  intro other member
  rcases mem_modify member with old | ⟨old, present, rfl⟩
  · exact .inl old
  · rw [found] at present
    cases present
    exact .inr unchecked

theorem probeStep_flightsMove {flight : ℕ} {probe : HealthFlight} (found : store.flights[flight]? = some probe)
    (action : Action) : store.FlightsMove (store.probeStep flight probe action) := by
  have stays : store.FlightsMove store := .of_eq rfl
  cases action with
  | admitProbe _ =>
    rw [probeStep]
    split_ifs with queued closed
    · exact (giveUp_flightsMove found (by simp [queued]) (by simp) (by simp)).1
    · exact (giveUp_flightsMove found (by simp [queued]) (by simp) (by simp)).1
    · exact stays
  | checkProbe _ =>
    rw [probeStep]
    split_ifs with running
    · rw [checkProbe]
      split_ifs with stale busy
      · exact (giveUp_flightsMove found (by simp [running]) (by simp) (by simp)).2 _
      · exact (giveUp_flightsMove found (by simp [running]) (by simp) (by simp)).1
      · apply setPhase_flightsMove found (by simp [running])
        intro _
        right
        intro recovering
        by_cases healthy : store.healthy = true
        · exact .inl healthy
        · right
          apply jobs_eq_nil (List.mem_of_getElem? found) (by simp [HealthFlight.active, running])
          simpa [recovering, healthy] using busy
    · exact stays
  | probeOk _ =>
    rw [probeStep]
    split_ifs with running
    · apply setPhase_flightsMove found (by simp [running])
      intro _
      exact .inl (by simp [HealthFlight.checked, running])
    · exact stays
  | probeError _ error =>
    rw [probeStep]
    cases phase : probe.phase with
    | queued => exact (giveUp_flightsMove found (by simp [phase]) (by simp) (by simp)).1
    | running checked => exact (giveUp_flightsMove found (by simp [phase]) (by simp) (by simp)).2 _
    | lingering => exact stays
    | succeeded => exact stays
    | failed => exact stays
  | endProbe _ =>
    rw [probeStep]
    split_ifs with lingering
    · exact (giveUp_flightsMove found (by simp [lingering]) (by simp) (by simp)).1
    · exact stays
  | _ => exact stays

/-- What an action does, by its kind. -/
theorem step_probe {action : Action} {flight : ℕ} (about : action.flight = some flight) :
    step label store action = store ∨
      ∃ probe, store.flights[flight]? = some probe ∧ step label store action = store.probeStep flight probe action := by
  cases found : store.flights[flight]? with
  | none =>
    left
    cases action <;> cases about <;> simp only [step, Action.flight, found]
  | some probe =>
    right
    refine ⟨probe, rfl, ?_⟩
    cases action <;> cases about <;> simp only [step, Action.flight, found]

theorem of_settle {next : FsBlobStore α} {flight : ℕ} (ran : store.settle flight = .ok next) :
    ∃ probe, store.flights[flight]? = some probe ∧ probe.phase = .succeeded ∧ store.closed = false ∧
      store.failureEpoch = probe.generation ∧ next = { store with healthy := store.healthy || probe.recovering } := by
  rw [settle] at ran
  split at ran
  · cases ran
  · next probe found =>
    split_ifs at ran with running closed stale
    cases ran
    exact ⟨probe, found, not_not.mp running, by simpa using closed, not_not.mp stale, rfl⟩

/-- A failure closes the gate and advances the counter. -/
structure Fails (store next : FsBlobStore α) : Prop where
  gate : store.gate.Fails next.gate
  counter : next.failureEpoch = (store.failureEpoch + 1) % 2 ^ 64

/-- Neither the gate nor the counter has changed. -/
structure Stays (store next : FsBlobStore α) : Prop where
  gate : next.gate = store.gate
  counter : next.failureEpoch = store.failureEpoch

theorem failed_gate (store : FsBlobStore α) (error : BlobError) :
    store.Stays (store.failed error) ∨ store.Fails (store.failed error) := by
  rw [failed]
  split_ifs
  · exact .inr ⟨⟨rfl, rfl, rfl⟩, rfl⟩
  · exact .inl ⟨rfl, rfl⟩

theorem probeStep_gate (store : FsBlobStore α) (flight : ℕ) (probe : HealthFlight) (action : Action) :
    store.Stays (store.probeStep flight probe action) ∨ store.Fails (store.probeStep flight probe action) := by
  have reported (phase : FlightPhase) (error : BlobError) :
      store.Stays ((store.setPhase flight phase).failed error) ∨ store.Fails ((store.setPhase flight phase).failed error) :=
    ((store.setPhase flight phase).failed_gate error).imp (fun stays => ⟨stays.gate, stays.counter⟩)
      fun fails => ⟨fails.gate, fails.counter⟩
  cases action with
  | admitProbe _ =>
    rw [probeStep]
    split_ifs <;> exact .inl ⟨rfl, rfl⟩
  | checkProbe _ =>
    rw [probeStep, checkProbe]
    split_ifs
    · exact reported _ _
    · exact .inl ⟨rfl, rfl⟩
    · exact .inl ⟨rfl, rfl⟩
    · exact .inl ⟨rfl, rfl⟩
  | probeOk _ =>
    rw [probeStep]
    split_ifs <;> exact .inl ⟨rfl, rfl⟩
  | probeError _ error =>
    rw [probeStep]
    cases probe.phase with
    | running checked => exact reported _ _
    | _ => exact .inl ⟨rfl, rfl⟩
  | endProbe _ =>
    rw [probeStep]
    split_ifs <;> exact .inl ⟨rfl, rfl⟩
  | _ => exact .inl ⟨rfl, rfl⟩

/-- A succeeded probe of the current epoch restores health. -/
structure Restores (store : FsBlobStore α) (action : Action) (next : FsBlobStore α) : Prop where
  opened : store.closed = false
  jobs : next.jobs = store.jobs
  failures : next.failures = store.failures
  probe : ∃ flight probe, action = .settle flight ∧ store.flights[flight]? = some probe ∧ probe.phase = .succeeded ∧
    probe.recovering = true ∧ store.failureEpoch = probe.generation

/-- Every step is calm or a failure, and health comes back in one way only. -/
structure Steps (store : FsBlobStore α) (action : Action) (next : FsBlobStore α) : Prop where
  flights : store.FlightsMove next
  gate : (store.gate.Calm next.gate ∧ next.failureEpoch = store.failureEpoch) ∨ store.Fails next
  restored : next.healthy = true → store.healthy = true ∨ store.Restores action next
  closed : store.closed = true → next.closed = true
  shuts : next.closed = true → store.closed = true ∨ next.healthy = false

theorem Steps.refl (store : FsBlobStore α) (action : Action) : store.Steps action store :=
  ⟨.of_eq rfl, .inl ⟨.refl _, rfl⟩, .inl, id, .inl⟩

theorem failed_steps (store : FsBlobStore α) (action : Action) (error : BlobError) :
    store.Steps action (store.failed error) := by
  rw [failed]
  split_ifs
  · refine ⟨.of_eq rfl, .inr ⟨⟨rfl, rfl, rfl⟩, rfl⟩, ?_, id, .inl⟩
    intro healthy
    cases healthy
  · exact .refl store action

theorem admitJob_steps {next : FsBlobStore α} (action : Action) (ran : store.admitJob label = .ok next) :
    store.Steps action next := by
  rw [admitJob] at ran
  split_ifs at ran
  cases ran
  refine ⟨.of_eq rfl, .inl ⟨⟨rfl, id, fun _ => id, ?_⟩, rfl⟩, .inl, id, .inl⟩
  intro stamp member
  simp only [gate, List.map_append, List.mem_append, List.map_cons, List.map_nil, List.mem_singleton] at member
  exact member

theorem startHealth_steps {next : FsBlobStore α} (action : Action) (ran : store.startHealth = .ok next) :
    store.Steps action next := by
  rw [startHealth] at ran
  split_ifs at ran
  cases ran
  refine ⟨⟨?_, ?_⟩, .inl ⟨.refl _, rfl⟩, .inl, id, .inl⟩
  · intro flight member
    rcases List.mem_append.mp member with old | new
    · exact .inl old
    · exact .inr (.inl (List.mem_singleton.mp new))
  · intro flight member _
    exact List.mem_append_left _ member

theorem settle_steps {next : FsBlobStore α} {flight : ℕ} (ran : store.settle flight = .ok next) :
    store.Steps (.settle flight) next := by
  obtain ⟨probe, found, succeeded, opened, current, rfl⟩ := of_settle ran
  refine ⟨.of_eq rfl, .inl ⟨⟨rfl, id, ?_, fun _ => .inl⟩, rfl⟩, ?_, id, .inl⟩
  · intro _ unhealthy
    exact (Bool.or_eq_false_iff.mp unhealthy).1
  · intro healthy
    rcases (Bool.or_eq_true _ _).mp healthy with before | recovering
    · exact .inl before
    · exact .inr ⟨opened, rfl, rfl, flight, probe, rfl, found, succeeded, recovering, current⟩

theorem probeStep_steps {flight : ℕ} {probe : HealthFlight} (found : store.flights[flight]? = some probe)
    (action : Action) : store.Steps action (store.probeStep flight probe action) := by
  have move := probeStep_flightsMove found action
  rcases store.probeStep_gate flight probe action with ⟨same, counter⟩ | fails
  · have healthy : (store.probeStep flight probe action).healthy = store.healthy := congrArg EpochGate.healthy same
    have closed : (store.probeStep flight probe action).closed = store.closed := congrArg EpochGate.closed same
    refine ⟨move, .inl ⟨?_, counter⟩, ?_, ?_, ?_⟩
    · rw [same]
      exact .refl _
    · rw [healthy]
      exact .inl
    · rw [closed]
      exact id
    · rw [closed]
      exact .inl
  · refine ⟨move, .inr fails, ?_, ?_, fun _ => .inr fails.gate.healthy⟩
    · intro healthy
      have fallen : (store.probeStep flight probe action).healthy = false := fails.gate.healthy
      rw [fallen] at healthy
      cases healthy
    · intro closed
      exact fails.gate.closed.trans closed

theorem step_steps (label : α) (store : FsBlobStore α) (action : Action) :
    store.Steps action (step label store action) := by
  have about {flight : ℕ} (named : action.flight = some flight) : store.Steps action (step label store action) := by
    rcases step_probe named with same | ⟨probe, found, moved⟩
    · rw [same]
      exact .refl store action
    · rw [moved]
      exact probeStep_steps found action
  cases action with
  | admitJob =>
    rw [step]
    cases ran : store.admitJob label with
    | error error => exact .refl store _
    | ok next => exact admitJob_steps _ ran
  | finish job =>
    rw [step]
    refine ⟨.of_eq rfl, .inl ⟨?_, rfl⟩, .inl, id, .inl⟩
    apply EpochGate.Calm.of_subset
    exact List.map_subset _ List.eraseIdx_subset
  | fail error => exact store.failed_steps _ error
  | startHealth =>
    rw [step]
    cases ran : store.startHealth with
    | error error => exact .refl store _
    | ok next => exact startHealth_steps _ ran
  | settle flight =>
    rw [step]
    cases ran : store.settle flight with
    | error error => exact .refl store _
    | ok next => exact settle_steps ran
  | close =>
    rw [step]
    refine ⟨.of_eq rfl, .inl ⟨⟨rfl, ?_, ?_, fun _ => .inl⟩, rfl⟩, ?_, fun _ => rfl, fun _ => .inr rfl⟩
    · intro opened
      cases opened
    · intro opened
      cases opened
    · intro healthy
      cases healthy
  | admitProbe flight => exact about rfl
  | checkProbe flight => exact about rfl
  | probeOk flight => exact about rfl
  | probeError flight error => exact about rfl
  | endProbe flight => exact about rfl

/-! ## The invariant -/

/-- The epoch has not come round to the value that a probe has read when its outcome is applied. -/
def Recent (store : FsBlobStore α) : Action → Prop
  | .settle flight => ∀ probe, store.flights[flight]? = some probe → ¬ComeRound (2 ^ 64) probe.failures store.failures
  | _ => True

/-- Probes are of past or current epochs, what passed its check holds a certificate, and a healthy store had no
failure since a probe succeeded. -/
structure Sound (store : FsBlobStore α) : Prop where
  counter : store.failureEpoch = store.failures % 2 ^ 64
  dated : ∀ flight ∈ store.flights, flight.failures ≤ store.failures ∧ flight.generation = flight.failures % 2 ^ 64
  certified : ∀ flight ∈ store.flights, flight.checked = true → flight.recovering = true →
    store.gate.Drained flight.failures
  vouched : store.healthy = true → store.failures = 0 ∨
    ∃ flight ∈ store.flights, flight.phase = .succeeded ∧ flight.failures = store.failures
  shut : store.closed = true → store.healthy = false

theorem opened_sound : (opened : FsBlobStore α).Sound := by
  constructor <;> simp [opened]

variable {action : Action} {next : FsBlobStore α}

/-- A probe whose epoch is current was started after the last failure. -/
theorem Sound.current (sound : store.Sound) {probe : HealthFlight} (member : probe ∈ store.flights)
    (recent : ¬ComeRound (2 ^ 64) probe.failures store.failures) (same : store.failureEpoch = probe.generation) :
    probe.failures = store.failures := by
  obtain ⟨bound, generation⟩ := sound.dated probe member
  rw [sound.counter, generation] at same
  exact eq_of_mod_eq bound recent same

theorem Steps.failures_le (steps : store.Steps action next) : store.failures ≤ next.failures := by
  rcases steps.gate with ⟨calm, -⟩ | fails
  · exact calm.epoch.ge
  · exact (Nat.le_succ _).trans fails.gate.epoch.ge

theorem Steps.counter (steps : store.Steps action next) (counter : store.failureEpoch = store.failures % 2 ^ 64) :
    next.failureEpoch = next.failures % 2 ^ 64 := by
  rcases steps.gate with ⟨calm, same⟩ | fails
  · have failures : next.failures = store.failures := calm.epoch
    rw [same, failures, counter]
  · have failures : next.failures = store.failures + 1 := fails.gate.epoch
    rw [fails.counter, failures, counter, Nat.mod_add_mod]

/-- A certificate survives every step. -/
theorem Steps.drained (steps : store.Steps action next) {epoch : ℕ} (bound : epoch ≤ store.failures)
    (drained : store.gate.Drained epoch) : next.gate.Drained epoch := by
  rcases steps.gate with ⟨calm, -⟩ | fails
  · exact drained.calm calm
  · exact .fails bound fails.gate

theorem Steps.certified (steps : store.Steps action next) (sound : store.Sound) :
    ∀ flight ∈ next.flights, flight.checked = true → flight.recovering = true → next.gate.Drained flight.failures := by
  intro flight member checked recovering
  rcases steps.flights.known flight member with old | rfl | ⟨old, present, -, failures, flag, earlier⟩
  · exact steps.drained (sound.dated flight old).1 (sound.certified flight old checked recovering)
  · cases checked
  · rw [failures]
    rw [flag] at recovering
    rcases earlier checked with past | ⟨same, alone⟩
    · exact steps.drained (sound.dated old present).1 (sound.certified old present past recovering)
    · rw [same]
      rcases alone recovering with healthy | idle
      · exact .of_healthy healthy
      · intro _ _ _ stamp active
        rw [FsBlobStore.gate, idle] at active
        cases active

/-- What is closed does not recover. -/
theorem Steps.unhealthy (steps : store.Steps action next) (closed : store.closed = true) (unhealthy : store.healthy = false) :
    next.healthy = false := by
  by_contra healthy
  rw [Bool.not_eq_false] at healthy
  rcases steps.restored healthy with before | restores
  · rw [unhealthy] at before
    cases before
  · rw [restores.opened] at closed
    cases closed

theorem Steps.sound (steps : store.Steps action next) (sound : store.Sound) (recent : store.Recent action) : next.Sound := by
  refine ⟨steps.counter sound.counter, ?_, steps.certified sound, ?_, ?_⟩
  · intro flight member
    rcases steps.flights.known flight member with old | rfl | ⟨old, present, generation, failures, -, -⟩
    · exact (sound.dated flight old).imp_left fun bound => bound.trans steps.failures_le
    · exact ⟨steps.failures_le, sound.counter⟩
    · rw [generation, failures]
      exact (sound.dated old present).imp_left fun bound => bound.trans steps.failures_le
  · intro healthy
    rcases steps.restored healthy with before | ⟨-, -, failures, flight, probe, rfl, found, succeeded, -, same⟩
    · rcases steps.gate with ⟨calm, -⟩ | fails
      · have failures : next.failures = store.failures := calm.epoch
        rw [failures]
        refine (sound.vouched before).imp_right ?_
        rintro ⟨probe, member, succeeded, current⟩
        exact ⟨probe, steps.flights.kept probe member succeeded, succeeded, current⟩
      · have fallen : next.healthy = false := fails.gate.healthy
        rw [fallen] at healthy
        cases healthy
    · have member := List.mem_of_getElem? found
      rw [failures]
      exact .inr ⟨probe, steps.flights.kept probe member succeeded, succeeded,
        sound.current member (recent probe found) same⟩
  · intro closed
    rcases steps.shuts closed with before | unhealthy
    · exact steps.unhealthy before (sound.shut before)
    · exact unhealthy

theorem run_sound (label : α) {store : FsBlobStore α} (sound : store.Sound) {actions : List Action}
    (recent : Along (step label) Recent store actions) : (run label store actions).Sound :=
  recent.invariant Sound (fun store action sound recent => (step_steps label store action).sound sound recent) sound

/-- What is closed stays closed and unhealthy. -/
theorem run_closed (label : α) {store : FsBlobStore α} (shut : store.closed = true ∧ store.healthy = false)
    (actions : List Action) : (run label store actions).closed = true ∧ (run label store actions).healthy = false := by
  apply foldl_invariant (fun store : FsBlobStore α => store.closed = true ∧ store.healthy = false) _ actions shut
  rintro store action ⟨closed, unhealthy⟩
  have steps := step_steps label store action
  exact ⟨steps.closed closed, steps.unhealthy closed unhealthy⟩

/-- What is active when health comes back was admitted after the last failure. -/
theorem Steps.restored_drained (steps : store.Steps action next) (sound : store.Sound) (recent : store.Recent action)
    (unhealthy : store.healthy = false) (healthy : next.healthy = true) : ∀ job ∈ next.jobs, job.failures = store.failures := by
  rcases steps.restored healthy with before | ⟨opened, jobs, -, flight, probe, rfl, found, succeeded, recovering, same⟩
  · rw [unhealthy] at before
    cases before
  · intro job active
    rw [jobs] at active
    have member := List.mem_of_getElem? found
    have checked : probe.checked = true := by simp [HealthFlight.checked, succeeded]
    have current := sound.current member (recent probe found) same
    exact sound.certified probe member checked recovering current opened unhealthy _ (List.mem_map_of_mem active)

/-- What holds after a run of the store: health is vouched for by a probe started after the last failure; when it
comes back, no older job is active; an older probe does not bring it back; and after close nothing does. -/
structure HealthContract (label : α) (store : FsBlobStore α) : Prop where
  vouched : store.healthy = true → store.closed = false → store.failures = 0 ∨
    ∃ flight ∈ store.flights, flight.phase = .succeeded ∧ flight.failures = store.failures
  drained : ∀ action, store.Recent action → store.healthy = false → (step label store action).healthy = true →
    ∀ job ∈ (step label store action).jobs, job.failures = store.failures
  stale : ∀ flight probe, store.Recent (.settle flight) → store.flights[flight]? = some probe →
    probe.failures < store.failures → (step label store (.settle flight)).healthy = store.healthy
  shut : ∀ later, store.closed = true → (run label store later).healthy = false

theorem healthContract (label : α) {actions : List Action} (recent : Along (step label) Recent opened actions) :
    HealthContract label (run label opened actions) := by
  have sound := run_sound label opened_sound recent
  constructor
  · exact fun healthy _ => sound.vouched healthy
  · intro action recent unhealthy healthy
    exact (step_steps label _ action).restored_drained sound recent unhealthy healthy
  · intro flight probe recent found older
    have stale : (run label opened actions).failureEpoch ≠ probe.generation := by
      intro same
      have current := sound.current (List.mem_of_getElem? found) (recent probe found) same
      omega
    rw [step, settle, found]
    simp only [if_pos stale]
    split_ifs <;> rfl
  · intro later closed
    exact (run_closed label ⟨closed, sound.shut closed⟩ later).2

end FsBlobStore

end OpenLegal.Blob
