import OpenLegal.Blob.Health
import OpenLegal.Blob.Mirrored

/-! # Recovery of the mirrored blob store

A probe of the aggregate gathers its certificate in three reads. It is lost if the new generation and the old health
are read between the two writes of a failure: nothing is drained then. A probe starts with its reading of the generation.
-/

namespace OpenLegal.Blob

open Theory

/-! ## Jobs of a member -/

namespace FsBlobStore

variable {α : Type} {label : α} {store : FsBlobStore α}

theorem probeStep_jobs (store : FsBlobStore α) (flight : ℕ) (probe : HealthFlight) (action : Action) :
    (store.probeStep flight probe action).jobs = store.jobs := by
  have reported (phase : FlightPhase) (error : BlobError) : ((store.setPhase flight phase).failed error).jobs = store.jobs := by
    rw [failed]
    split_ifs <;> rfl
  cases action with
  | admitProbe _ =>
    rw [probeStep]
    split_ifs <;> rfl
  | checkProbe _ =>
    rw [probeStep, checkProbe]
    split_ifs
    · exact reported _ _
    · rfl
    · rfl
    · rfl
  | probeOk _ =>
    rw [probeStep]
    split_ifs <;> rfl
  | probeError _ error =>
    rw [probeStep]
    cases probe.phase with
    | running checked => exact reported _ _
    | _ => rfl
  | endProbe _ =>
    rw [probeStep]
    split_ifs <;> rfl
  | _ => rfl

theorem settle_jobs {next : FsBlobStore α} {flight : ℕ} (ran : store.settle flight = .ok next) : next.jobs = store.jobs := by
  obtain ⟨-, -, -, -, -, rfl⟩ := of_settle ran
  rfl

/-- A step admits jobs under its label only. -/
theorem step_jobs (label : α) (store : FsBlobStore α) (action : Action) :
    ∀ job ∈ (step label store action).jobs, job ∈ store.jobs ∨ job.label = label := by
  have about {flight : ℕ} (named : action.flight = some flight) : (step label store action).jobs = store.jobs := by
    rcases step_probe named with same | ⟨probe, -, moved⟩
    · rw [same]
    · rw [moved, probeStep_jobs]
  have stay (same : (step label store action).jobs = store.jobs) :
      ∀ job ∈ (step label store action).jobs, job ∈ store.jobs ∨ job.label = label := by
    intro job member
    exact .inl (same ▸ member)
  cases action with
  | admitJob =>
    rw [step]
    cases ran : store.admitJob label with
    | error error => exact fun _ => .inl
    | ok next =>
      rw [admitJob] at ran
      split_ifs at ran
      cases ran
      intro job member
      rcases List.mem_append.mp member with old | new
      · exact .inl old
      · rw [List.mem_singleton.mp new]
        exact .inr rfl
  | finish job =>
    intro other member
    exact .inl (List.eraseIdx_subset member)
  | fail error =>
    apply stay
    rw [step, failed]
    split_ifs <;> rfl
  | startHealth =>
    apply stay
    rw [step, startHealth]
    split_ifs <;> rfl
  | settle flight =>
    apply stay
    rw [step]
    cases ran : store.settle flight with
    | error error => rfl
    | ok next => exact settle_jobs ran
  | close => exact stay rfl
  | admitProbe flight => exact stay (about rfl)
  | checkProbe flight => exact stay (about rfl)
  | probeOk flight => exact stay (about rfl)
  | probeError flight error => exact stay (about rfl)
  | endProbe flight => exact stay (about rfl)

end FsBlobStore

/-- The failures of the aggregate before the jobs of a member were admitted. -/
def labels (store : FsBlobStore ℕ) : List ℕ := store.jobs.map Job.label

/-- What a probe has read. -/
def MirrorPhase.reading : MirrorPhase → Option Reading
  | .loaded reading | .draining reading _ | .probing reading _ _ | .succeeded reading => some reading
  | .admitted | .stopping | .failed => none

/-- What a probe has read that has also read the health. -/
def MirrorPhase.judged : MirrorPhase → Option Reading
  | .draining reading _ | .probing reading _ _ | .succeeded reading => some reading
  | .admitted | .loaded _ | .stopping | .failed => none

namespace MirroredBlobStore

variable {store next : MirroredBlobStore}

/-- The gate of the aggregate, with some of what is active. -/
def gate (store : MirroredBlobStore) (active : List ℕ) : EpochGate := ⟨store.failures, store.healthy, store.closed, active⟩

/-- What a probe has certified by its reads so far. -/
def Certified (store : MirroredBlobStore) : MirrorPhase → Prop
  | .draining reading passed =>
    (1 ≤ passed → (store.gate store.operations).Drained reading.failures) ∧
      (2 ≤ passed → (store.gate (labels store.primary)).Drained reading.failures)
  | .probing reading _ _ | .succeeded reading =>
    (store.gate store.operations).Drained reading.failures ∧ (store.gate (labels store.primary)).Drained reading.failures ∧
      (store.gate (labels store.mirror)).Drained reading.failures
  | _ => True

/-- A generation that was read, and not together with a health that is about to be lost. -/
def Past (store : MirroredBlobStore) (failures : ℕ) : Prop :=
  failures ≤ store.failures ∧ (store.publishing = true → store.healthy = true → failures < store.failures)

/-- The number of failures that are recorded in full. -/
def recorded (store : MirroredBlobStore) : ℕ := if store.publishing then store.failures - 1 else store.failures

/-- What is known of a probe. -/
structure Traced (store : MirroredBlobStore) (phase : MirrorPhase) : Prop where
  dated : ∀ reading ∈ phase.reading, reading.failures ≤ store.failures ∧ reading.generation = reading.failures % 2 ^ 64
  past : ∀ reading ∈ phase.judged, store.Past reading.failures
  certified : store.Certified phase

structure Sound (store : MirroredBlobStore) : Prop where
  counter : store.generation = store.failures % 2 ^ 64
  probes : ∀ phase ∈ store.probes, store.Traced phase
  vouched : store.healthy = true → store.recorded = 0 ∨
    ∃ reading, MirrorPhase.succeeded reading ∈ store.probes ∧ reading.failures = store.recorded
  shut : store.closed = true → store.healthy = false

theorem traced_of_unread {phase : MirrorPhase} (unread : phase.reading = none) : store.Traced phase := by
  cases phase with
  | admitted | stopping | failed => exact ⟨by rintro reading ⟨⟩, by rintro reading ⟨⟩, trivial⟩
  | _ => cases unread

theorem opened_sound : opened.Sound := by
  constructor <;> simp [opened, recorded]

/-- A probe whose generation is current was started after the last failure. -/
theorem Sound.current (sound : store.Sound) {reading : Reading} (member : MirrorPhase.succeeded reading ∈ store.probes)
    (recent : ¬ComeRound (2 ^ 64) reading.failures store.failures) (same : store.generation = reading.generation) :
    reading.failures = store.failures := by
  obtain ⟨bound, generation⟩ := (sound.probes _ member).dated reading rfl
  rw [sound.counter, generation] at same
  exact eq_of_mod_eq bound recent same

/-! ## What steps do to certificates -/

/-- Certificates of past generations survive, and the generation counts the failures. -/
structure Keeps (store next : MirroredBlobStore) : Prop where
  counter : store.generation = store.failures % 2 ^ 64 → next.generation = next.failures % 2 ^ 64
  grows : store.failures ≤ next.failures
  past : ∀ failures, store.Past failures → next.Past failures
  operations : ∀ failures, store.Past failures → (store.gate store.operations).Drained failures →
    (next.gate next.operations).Drained failures
  primary : ∀ failures, store.Past failures → (store.gate (labels store.primary)).Drained failures →
    (next.gate (labels next.primary)).Drained failures
  mirror : ∀ failures, store.Past failures → (store.gate (labels store.mirror)).Drained failures →
    (next.gate (labels next.mirror)).Drained failures

theorem Keeps.traced (keeps : store.Keeps next) {phase : MirrorPhase} (traced : store.Traced phase) : next.Traced phase where
  dated := fun reading read => (traced.dated reading read).imp_left fun bound => bound.trans keeps.grows
  past := fun reading read => keeps.past reading.failures (traced.past reading read)
  certified := by
    obtain ⟨-, past, certified⟩ := traced
    cases phase with
    | draining reading passed =>
      have old := past reading rfl
      exact ⟨fun bound => keeps.operations _ old (certified.1 bound), fun bound => keeps.primary _ old (certified.2 bound)⟩
    | probing reading _ _ | succeeded reading =>
      have old := past reading rfl
      exact ⟨keeps.operations _ old certified.1, keeps.primary _ old certified.2.1, keeps.mirror _ old certified.2.2⟩
    | _ => trivial

/-- Steps without a failure. -/
theorem Keeps.of_calm (generation : next.generation = store.generation) (failures : next.failures = store.failures)
    (publishing : next.publishing = true → next.healthy = true → store.publishing = true ∧ store.healthy = true)
    (operations : (store.gate store.operations).Calm (next.gate next.operations))
    (primary : (store.gate (labels store.primary)).Calm (next.gate (labels next.primary)))
    (mirror : (store.gate (labels store.mirror)).Calm (next.gate (labels next.mirror))) : store.Keeps next := by
  constructor
  · rw [generation, failures]
    exact id
  · exact failures.ge
  · intro read past
    rw [Past, failures]
    exact ⟨past.1, fun publishes healthy => past.2 (publishing publishes healthy).1 (publishing publishes healthy).2⟩
  · exact fun _ _ drained => drained.calm operations
  · exact fun _ _ drained => drained.calm primary
  · exact fun _ _ drained => drained.calm mirror

/-- Steps after which no generation that was read is current. -/
theorem Keeps.of_newer (counter : store.generation = store.failures % 2 ^ 64 → next.generation = next.failures % 2 ^ 64)
    (grows : store.failures ≤ next.failures) (newer : ∀ failures, store.Past failures → failures < next.failures) :
    store.Keeps next := by
  refine ⟨counter, grows, ?_, ?_, ?_, ?_⟩
  · intro failures past
    have less := newer failures past
    exact ⟨less.le, fun _ _ => less⟩
  · exact fun failures past _ => .of_ne (newer failures past).ne
  · exact fun failures past _ => .of_ne (newer failures past).ne
  · exact fun failures past _ => .of_ne (newer failures past).ne

/-- A step that leaves the probes keeps the invariant if it does not make the store healthy. -/
theorem Keeps.sound (keeps : store.Keeps next) (sound : store.Sound) (probes : next.probes = store.probes)
    (vouched : next.healthy = true → next.recorded = 0 ∨
      ∃ reading, MirrorPhase.succeeded reading ∈ store.probes ∧ reading.failures = next.recorded)
    (shut : next.closed = true → next.healthy = false) : next.Sound := by
  refine ⟨keeps.counter sound.counter, ?_, ?_, shut⟩
  · rw [probes]
    exact fun phase member => keeps.traced (sound.probes phase member)
  · rw [probes]
    exact vouched

/-- A probe changes its phase. -/
theorem setPhase_sound (sound : store.Sound) {probe : ℕ} {old phase : MirrorPhase} (found : store.probes[probe]? = some old)
    (running : ∀ reading, old ≠ .succeeded reading) (traced : store.Traced phase) : (store.setPhase probe phase).Sound := by
  refine ⟨sound.counter, ?_, ?_, sound.shut⟩
  · intro other member
    have known : store.Traced other := by
      rcases mem_modify member with before | ⟨_, -, rfl⟩
      · exact sound.probes other before
      · exact traced
    exact ⟨known.dated, known.past, known.certified⟩
  · intro healthy
    refine (sound.vouched healthy).imp_right ?_
    rintro ⟨reading, member, current⟩
    refine ⟨reading, mem_modify_of_ne member ?_, current⟩
    rw [found]
    intro same
    cases same
    exact running _ rfl

/-- A probe goes on with what it has read. -/
theorem advance_sound (sound : store.Sound) {probe : ℕ} {old : MirrorPhase} (found : store.probes[probe]? = some old)
    (running : ∀ reading, old ≠ .succeeded reading) (phase : MirrorPhase) (reading : phase.reading = old.reading)
    (judged : phase.judged = old.judged) (certified : store.Certified phase) : (store.setPhase probe phase).Sound := by
  have traced := sound.probes old (List.mem_of_getElem? found)
  exact setPhase_sound sound found running ⟨by rw [reading]; exact traced.dated, by rw [judged]; exact traced.past, certified⟩

theorem stop_sound (sound : store.Sound) {probe : ℕ} {old : MirrorPhase} (found : store.probes[probe]? = some old)
    (running : ∀ reading, old ≠ .succeeded reading) : (store.setPhase probe .stopping).Sound :=
  setPhase_sound sound found running (traced_of_unread rfl)

/-! ## Steps of members -/

theorem labels_calm {which : FsBlobStore ℕ} (store : MirroredBlobStore) (action : FsBlobStore.Action) :
    (store.gate (labels which)).Calm (store.gate (labels (FsBlobStore.step store.failures which action))) := by
  refine ⟨rfl, id, fun _ => id, ?_⟩
  intro stamp member
  obtain ⟨job, active, rfl⟩ := List.mem_map.mp member
  rcases FsBlobStore.step_jobs store.failures which action job active with old | new
  · exact .inl (List.mem_map_of_mem old)
  · exact .inr new

theorem member_keeps (store : MirroredBlobStore) (which : Member) (action : FsBlobStore.Action) :
    store.Keeps (store.setMember which (FsBlobStore.step store.failures (store.member which) action)) := by
  cases which with
  | primary => exact .of_calm rfl rfl .intro (.refl _) (store.labels_calm action) (.refl _)
  | mirror => exact .of_calm rfl rfl .intro (.refl _) (.refl _) (store.labels_calm action)

theorem setMember_keeps (store : MirroredBlobStore) {which : Member} {member : FsBlobStore ℕ}
    (jobs : member.jobs = (store.member which).jobs) : store.Keeps (store.setMember which member) := by
  have same : labels member = labels (store.member which) := by rw [labels, jobs, labels]
  cases which with
  | primary =>
    refine .of_calm rfl rfl .intro (.refl _) ?_ (.refl _)
    exact EpochGate.Calm.of_subset fun _ inside => same ▸ inside
  | mirror =>
    refine .of_calm rfl rfl .intro (.refl _) (.refl _) ?_
    exact EpochGate.Calm.of_subset fun _ inside => same ▸ inside

theorem setMember_sound (sound : store.Sound) {which : Member} {member : FsBlobStore ℕ}
    (keeps : store.Keeps (store.setMember which member)) : (store.setMember which member).Sound := by
  cases which with
  | primary => exact keeps.sound sound rfl sound.vouched sound.shut
  | mirror => exact keeps.sound sound rfl sound.vouched sound.shut

/-! ## Steps of probes -/

/-- If the probe's own operation is the only one, no ordinary operation is active. -/
theorem operations_eq_nil {phase : MirrorPhase} (member : phase ∈ store.probes) (running : phase.active = true)
    (alone : store.active = 1) : store.operations = [] := by
  have counted : 0 < store.probes.countP MirrorPhase.active := List.countP_pos_iff.mpr ⟨phase, member, running⟩
  rw [active] at alone
  apply List.eq_nil_of_length_eq_zero
  omega

theorem labels_eq_nil {which : FsBlobStore ℕ} (idle : which.activeJobs = 0) : labels which = [] := by
  have none : which.jobs = [] := by
    apply List.eq_nil_of_length_eq_zero
    rw [FsBlobStore.activeJobs] at idle
    omega
  rw [labels, none]
  rfl

theorem drained_of_nil {active : List ℕ} (none : active = []) (failures : ℕ) : (store.gate active).Drained failures := by
  intro _ _ _ stamp member
  rw [gate, none] at member
  cases member

/-- No probe that has read the generation of a failure reads the good health that the failure is about to take; and the
generation has not come round to the value that a probe has read when its outcome is applied. -/
def Unraced (store : MirroredBlobStore) : Action → Prop
  | .loadHealth probe => ∀ reading, store.probes[probe]? = some (.loaded reading) →
      store.publishing = true → store.healthy = true → reading.failures ≠ store.failures
  | .settle probe => ∀ reading, store.probes[probe]? = some (.succeeded reading) →
      ¬ComeRound (2 ^ 64) reading.failures store.failures
  | _ => True

theorem settle_sound (sound : store.Sound) (quiet : store.publishing = false) {reading : Reading}
    (member : MirrorPhase.succeeded reading ∈ store.probes) (recent : ¬ComeRound (2 ^ 64) reading.failures store.failures)
    (ran : store.settle reading.generation = .ok next) : next.Sound := by
  rw [settle] at ran
  split_ifs at ran with closed stale
  cases ran
  have current : reading.failures = store.failures := by
    simp only [Bool.or_eq_true, decide_eq_true_eq, not_or, not_not] at stale
    exact sound.current member recent stale.1.1
  have calm (active : List ℕ) : (store.gate active).Calm ({ store with healthy := true }.gate active) := by
    refine ⟨rfl, id, ?_, fun _ => .inl⟩
    intro _ unhealthy
    cases unhealthy
  have keeps : store.Keeps { store with healthy := true } := by
    refine .of_calm rfl rfl ?_ (calm _) (calm _) (calm _)
    intro publishing
    rw [quiet] at publishing
    cases publishing
  apply keeps.sound sound rfl
  · intro _
    rw [recorded, quiet, if_neg (by decide)]
    exact .inr ⟨reading, member, current⟩
  · intro shut
    exact absurd shut closed

theorem leg_sound (sound : store.Sound) {probe : ℕ} {reading : Reading} {primary mirror : Bool}
    (found : store.probes[probe]? = some (.probing reading primary mirror)) (which : Member) (flight : ℕ) :
    (store.leg probe reading primary mirror which flight).Sound := by
  have running : ∀ other, MirrorPhase.probing reading primary mirror ≠ .succeeded other := by simp
  rw [leg]
  cases ran : (store.member which).settle flight with
  | error error => exact stop_sound sound found running
  | ok next =>
    have keeps := store.setMember_keeps (FsBlobStore.settle_jobs ran)
    have member := List.mem_of_getElem? found
    have present : (store.setMember which next).probes[probe]? = some (.probing reading primary mirror) := by
      cases which <;> exact found
    have kept := keeps.traced (sound.probes _ member)
    exact advance_sound (setMember_sound sound keeps) present running _ rfl rfl kept.certified

theorem probeStep_sound (sound : store.Sound) {probe : ℕ} {phase : MirrorPhase} (found : store.probes[probe]? = some phase)
    {action : Action} (about : action.probe = some probe) (unraced : store.Unraced action) :
    (store.probeStep probe phase action).Sound := by
  have member := List.mem_of_getElem? found
  have certified := (sound.probes phase member).certified
  rw [probeStep.eq_def]
  split
  · refine setPhase_sound sound found (by simp) ⟨?_, by rintro reading ⟨⟩, trivial⟩
    rintro reading ⟨⟩
    exact ⟨le_rfl, sound.counter⟩
  · next reading _ =>
    cases about
    have dated := (sound.probes _ member).dated reading rfl
    have past : store.Past reading.failures :=
      ⟨dated.1, fun publishing healthy => lt_of_le_of_ne dated.1 (unraced reading found publishing healthy)⟩
    split_ifs with healthy
    · refine setPhase_sound sound found (by simp) ⟨by rintro _ ⟨⟩; exact dated, by rintro _ ⟨⟩; exact past, ?_⟩
      exact ⟨.of_healthy healthy, .of_healthy healthy, .of_healthy healthy⟩
    · refine setPhase_sound sound found (by simp) ⟨by rintro _ ⟨⟩; exact dated, by rintro _ ⟨⟩; exact past, ?_⟩
      refine ⟨?_, ?_⟩ <;> intro bound <;> omega
  · next reading _ =>
    split_ifs with alone
    · apply advance_sound sound found (by simp) (.draining reading 1) rfl rfl
      refine ⟨fun _ => drained_of_nil (operations_eq_nil member rfl alone) _, ?_⟩
      intro bound
      omega
    · exact stop_sound sound found (by simp)
  · next reading _ =>
    split_ifs with idle
    · apply advance_sound sound found (by simp) (.draining reading 2) rfl rfl
      exact ⟨fun _ => certified.1 le_rfl, fun _ => drained_of_nil (labels_eq_nil idle) _⟩
    · exact stop_sound sound found (by simp)
  · next reading _ =>
    split_ifs with idle
    · apply advance_sound sound found (by simp) (.probing reading false false) rfl rfl
      exact ⟨certified.1 (by omega), certified.2 le_rfl, drained_of_nil (labels_eq_nil idle) _⟩
    · exact stop_sound sound found (by simp)
  · exact leg_sound sound found _ _
  · exact advance_sound sound found (by simp) _ rfl rfl certified
  · exact setPhase_sound sound found (by simp) (traced_of_unread rfl)
  · next reading _ =>
    cases about
    split_ifs with publishing
    · exact sound
    · cases ran : store.settle reading.generation with
      | error error => exact sound
      | ok next => exact settle_sound sound (by simpa using publishing) member (unraced reading found) ran
  · split_ifs with running
    · apply stop_sound sound found
      rintro reading rfl
      cases running
    · exact sound
  · exact sound

theorem step_probe {action : Action} {probe : ℕ} (about : action.probe = some probe) :
    step store action = store ∨
      ∃ phase, store.probes[probe]? = some phase ∧ step store action = store.probeStep probe phase action := by
  cases found : store.probes[probe]? with
  | none =>
    left
    cases action <;> cases about <;> simp only [step, Action.probe, found]
  | some phase =>
    right
    refine ⟨phase, rfl, ?_⟩
    cases action <;> cases about <;> simp only [step, Action.probe, found]

theorem admitOperation_sound (sound : store.Sound) (ran : store.admitOperation = .ok next) : next.Sound := by
  rw [admitOperation] at ran
  split_ifs at ran
  cases ran
  have keeps : store.Keeps { store with operations := store.operations ++ [store.failures] } := by
    refine .of_calm rfl rfl .intro ⟨rfl, id, fun _ => id, ?_⟩ (.refl _) (.refl _)
    intro stamp member
    rcases List.mem_append.mp member with old | new
    · exact .inl old
    · exact .inr (List.mem_singleton.mp new)
  exact keeps.sound sound rfl sound.vouched sound.shut

theorem step_sound (sound : store.Sound) {action : Action} (unraced : store.Unraced action) : (step store action).Sound := by
  have about {probe : ℕ} (named : action.probe = some probe) : (step store action).Sound := by
    rcases step_probe named with same | ⟨phase, found, moved⟩
    · rw [same]
      exact sound
    · rw [moved]
      exact probeStep_sound sound found named unraced
  cases action with
  | member which action => exact setMember_sound sound (store.member_keeps which action)
  | admitOperation =>
    rw [step]
    split_ifs
    · exact sound
    · cases ran : store.admitOperation with
      | error error => exact sound
      | ok next => exact admitOperation_sound sound ran
  | finish operation =>
    have keeps : store.Keeps { store with operations := store.operations.eraseIdx operation } :=
      .of_calm rfl rfl .intro (EpochGate.Calm.of_subset List.eraseIdx_subset) (.refl _) (.refl _)
    exact keeps.sound sound rfl sound.vouched sound.shut
  | beginFailure error =>
    rw [step]
    split_ifs with blocked
    · exact sound
    · have keeps : store.Keeps { store with
          generation := (store.generation + 1) % 2 ^ 64
          failures := store.failures + 1
          publishing := true } := by
        refine .of_newer ?_ (Nat.le_succ _) fun failures past => Nat.lt_succ_of_le past.1
        intro counter
        dsimp only
        rw [counter, Nat.mod_add_mod]
      apply keeps.sound sound rfl _ sound.shut
      intro healthy
      have quiet : store.publishing = false := by
        simp only [Bool.or_eq_true, not_or, Bool.not_eq_true] at blocked
        exact blocked.1
      have vouched := sound.vouched healthy
      rw [recorded, quiet, if_neg (by decide)] at vouched
      exact vouched
  | endFailure =>
    rw [step]
    split_ifs with publishing
    · have keeps : store.Keeps { store with healthy := false, publishing := false } := by
        cases healthy : store.healthy with
        | true => exact .of_newer id le_rfl fun failures past => past.2 publishing healthy
        | false =>
          -- the health was lost before
          have same (active : List ℕ) : ({ store with healthy := false, publishing := false } : MirroredBlobStore).gate active =
              store.gate active := by
            rw [gate, gate, healthy]
          refine .of_calm rfl rfl (fun publishes => by cases publishes) ?_ ?_ ?_ <;> rw [same] <;> exact .refl _
      apply keeps.sound sound rfl
      · intro healthy
        cases healthy
      · exact fun _ => rfl
    · exact sound
  | admitProbe =>
    rw [step]
    split_ifs
    · exact sound
    · refine ⟨sound.counter, ?_, ?_, sound.shut⟩
      · intro phase member
        rcases List.mem_append.mp member with old | new
        · obtain ⟨dated, past, certified⟩ := sound.probes phase old
          exact ⟨dated, past, certified⟩
        · rw [List.mem_singleton.mp new]
          exact traced_of_unread rfl
      · intro healthy
        refine (sound.vouched healthy).imp_right ?_
        rintro ⟨reading, member, current⟩
        exact ⟨reading, List.mem_append_left _ member, current⟩
  | close =>
    rw [step]
    split_ifs
    · exact sound
    · have calm (active : List ℕ) : (store.gate active).Calm ({ store with closed := true, healthy := false }.gate active) := by
        refine ⟨rfl, ?_, ?_, fun _ => .inl⟩
        · intro opened
          cases opened
        · intro opened
          cases opened
      have keeps : store.Keeps { store with closed := true, healthy := false } :=
        .of_calm rfl rfl (fun _ healthy => by cases healthy) (calm _) (calm _) (calm _)
      apply keeps.sound sound rfl
      · intro healthy
        cases healthy
      · exact fun _ => rfl
  | loadGeneration probe => exact about rfl
  | loadHealth probe => exact about rfl
  | loadActive probe => exact about rfl
  | loadPrimary probe => exact about rfl
  | loadMirror probe => exact about rfl
  | leg probe which flight => exact about rfl
  | probeError probe => exact about rfl
  | endProbe probe => exact about rfl
  | settle probe => exact about rfl

/-! ## Runs -/

theorem setMember_healthy (store : MirroredBlobStore) (which : Member) (member : FsBlobStore ℕ) :
    (store.setMember which member).healthy = store.healthy ∧ (store.setMember which member).closed = store.closed := by
  cases which <;> exact ⟨rfl, rfl⟩

/-- A succeeded probe of the current generation restores health. -/
structure Restores (store : MirroredBlobStore) (action : Action) (next : MirroredBlobStore) : Prop where
  opened : store.closed = false
  next : next = { store with healthy := true }
  probe : ∃ probe reading, action = .settle probe ∧ store.probes[probe]? = some (.succeeded reading) ∧
    store.generation = reading.generation

theorem probeStep_healthy {probe : ℕ} {phase : MirrorPhase} (found : store.probes[probe]? = some phase) {action : Action}
    (about : action.probe = some probe) : ((store.probeStep probe phase action).healthy = store.healthy ∧
      (store.probeStep probe phase action).closed = store.closed) ∨
        store.Restores action (store.probeStep probe phase action) := by
  rw [probeStep.eq_def]
  split
  · exact .inl ⟨rfl, rfl⟩
  · exact .inl ⟨rfl, rfl⟩
  · exact .inl ⟨rfl, rfl⟩
  · exact .inl ⟨rfl, rfl⟩
  · exact .inl ⟨rfl, rfl⟩
  · next which flight =>
    left
    rw [leg]
    cases (store.member which).settle flight with
    | error error => exact ⟨rfl, rfl⟩
    | ok next => exact store.setMember_healthy which next
  · exact .inl ⟨rfl, rfl⟩
  · exact .inl ⟨rfl, rfl⟩
  · next reading _ =>
    cases about
    split_ifs
    · exact .inl ⟨rfl, rfl⟩
    · cases ran : store.settle reading.generation with
      | error error => exact .inl ⟨rfl, rfl⟩
      | ok next =>
        right
        rw [settle] at ran
        split_ifs at ran with closed stale
        cases ran
        simp only [Bool.or_eq_true, decide_eq_true_eq, not_or, not_not] at stale
        exact ⟨by simpa using closed, rfl, probe, reading, rfl, found, stale.1.1⟩
  · split_ifs <;> exact .inl ⟨rfl, rfl⟩
  · exact .inl ⟨rfl, rfl⟩

/-- Health comes back in one way only, and what is closed stays closed. -/
theorem step_healthy (store : MirroredBlobStore) (action : Action) :
    ((step store action).healthy = true → store.healthy = true ∨ store.Restores action (step store action)) ∧
      (store.closed = true → (step store action).closed = true) := by
  have about {probe : ℕ} (named : action.probe = some probe) :
      ((step store action).healthy = true → store.healthy = true ∨ store.Restores action (step store action)) ∧
        (store.closed = true → (step store action).closed = true) := by
    rcases step_probe named with same | ⟨phase, found, moved⟩
    · rw [same]
      exact ⟨.inl, id⟩
    · rw [moved]
      rcases probeStep_healthy found named with ⟨healthy, closed⟩ | restores
      · rw [healthy, closed]
        exact ⟨.inl, id⟩
      · refine ⟨fun _ => .inr restores, ?_⟩
        rw [restores.opened]
        intro closed
        cases closed
  cases action with
  | member which action =>
    have same := store.setMember_healthy which (FsBlobStore.step store.failures (store.member which) action)
    rw [step, same.1, same.2]
    exact ⟨.inl, id⟩
  | admitOperation =>
    rw [step, admitOperation]
    split_ifs <;> exact ⟨.inl, id⟩
  | finish operation => exact ⟨.inl, id⟩
  | beginFailure error =>
    rw [step]
    split_ifs <;> exact ⟨.inl, id⟩
  | endFailure =>
    rw [step]
    split_ifs
    · refine ⟨?_, id⟩
      intro healthy
      cases healthy
    · exact ⟨.inl, id⟩
  | admitProbe =>
    rw [step]
    split_ifs <;> exact ⟨.inl, id⟩
  | close =>
    rw [step]
    split_ifs
    · exact ⟨.inl, id⟩
    · refine ⟨?_, fun _ => rfl⟩
      intro healthy
      cases healthy
  | loadGeneration probe => exact about rfl
  | loadHealth probe => exact about rfl
  | loadActive probe => exact about rfl
  | loadPrimary probe => exact about rfl
  | loadMirror probe => exact about rfl
  | leg probe which flight => exact about rfl
  | probeError probe => exact about rfl
  | endProbe probe => exact about rfl
  | settle probe => exact about rfl

theorem run_sound (sound : store.Sound) {actions : List Action} (unraced : Along step Unraced store actions) :
    (run store actions).Sound :=
  unraced.invariant Sound (fun _ _ sound unraced => step_sound sound unraced) sound

theorem run_shut (closed : store.closed = true) (unhealthy : store.healthy = false) (actions : List Action) :
    (run store actions).healthy = false := by
  induction actions generalizing store with
  | nil => exact unhealthy
  | cons action actions ih =>
    obtain ⟨restored, stays⟩ := store.step_healthy action
    apply ih (stays closed)
    by_contra healthy
    rw [Bool.not_eq_false] at healthy
    rcases restored healthy with before | restores
    · rw [unhealthy] at before
      cases before
    · have opened := restores.opened
      rw [closed] at opened
      cases opened

/-- What holds after a run of the aggregate; jobs are its operations and the jobs of both members, and a probe starts with
its reading of the generation. -/
structure HealthContract (store : MirroredBlobStore) : Prop where
  vouched : store.healthy = true → store.closed = false → store.recorded = 0 ∨
    ∃ reading, MirrorPhase.succeeded reading ∈ store.probes ∧ reading.failures = store.recorded
  drained : ∀ action, store.Unraced action → store.healthy = false → (step store action).healthy = true →
    ∀ stamp ∈ (step store action).operations ++ labels (step store action).primary ++ labels (step store action).mirror,
      stamp = store.failures
  stale : ∀ probe reading, store.Unraced (.settle probe) → store.probes[probe]? = some (.succeeded reading) →
    reading.failures < store.failures → (step store (.settle probe)).healthy = store.healthy
  shut : ∀ later, store.closed = true → (run store later).healthy = false

theorem Sound.restored_drained (sound : store.Sound) {action : Action} (unraced : store.Unraced action)
    (unhealthy : store.healthy = false) (healthy : (step store action).healthy = true) :
    ∀ stamp ∈ (step store action).operations ++ labels (step store action).primary ++ labels (step store action).mirror,
      stamp = store.failures := by
  rcases (store.step_healthy action).1 healthy with before | ⟨opened, next, probe, reading, rfl, found, same⟩
  · rw [unhealthy] at before
    cases before
  · have member := List.mem_of_getElem? found
    have current := sound.current member (unraced reading found) same
    obtain ⟨operations, primary, mirror⟩ := (sound.probes _ member).certified
    rw [next]
    intro stamp inside
    rcases List.mem_append.mp inside with inside | third
    · rcases List.mem_append.mp inside with first | second
      · exact operations current opened unhealthy stamp first
      · exact primary current opened unhealthy stamp second
    · exact mirror current opened unhealthy stamp third

/-- The contract of both stores: in every run in which no probe of the mirrored store reads the new generation and the old
health of one failure, and no counter comes round to what a probe has read before its outcome is applied. -/
theorem blob_health {α : Type} (label : α) (single : List FsBlobStore.Action) (actions : List Action)
    (recent : Along (FsBlobStore.step label) FsBlobStore.Recent .opened single) (unraced : Along step Unraced opened actions) :
    FsBlobStore.HealthContract label (FsBlobStore.run label .opened single) ∧ HealthContract (run opened actions) := by
  refine ⟨FsBlobStore.healthContract label recent, ?_⟩
  have sound := run_sound opened_sound unraced
  constructor
  · exact fun healthy _ => sound.vouched healthy
  · intro action unraced unhealthy healthy
    exact sound.restored_drained unraced unhealthy healthy
  · intro probe reading unraced found older
    have stale : (run opened actions).generation ≠ reading.generation := by
      intro same
      have current := sound.current (List.mem_of_getElem? found) (unraced reading found) same
      omega
    have kept : ((run opened actions).settle reading.generation).toOption.getD (run opened actions) = run opened actions := by
      rw [settle]
      split_ifs with closed wrong
      · rfl
      · rfl
      · simp [stale] at wrong
    simp only [step, Action.probe, found, probeStep]
    split_ifs
    · rfl
    · rw [kept]
  · intro later closed
    exact run_shut closed (sound.shut closed) later

/-- One healthy leg of a probe: a flight of the member that finds nothing wrong. -/
def healthyLeg (which : Member) : List Action :=
  [.member which .startHealth, .member which (.admitProbe 0), .member which (.checkProbe 0), .member which (.probeOk 0)]

/-- An operation is active in both members when its supervisor records a failure. The probe reads the new
generation and the old health. -/
def racedRecovery : List Action :=
  [.admitOperation, .member .primary .admitJob, .member .mirror .admitJob, .admitProbe, .beginFailure .storageUnavailable,
    .loadGeneration 0, .loadHealth 0, .endFailure] ++ healthyLeg .primary ++ healthyLeg .mirror ++
    [.leg 0 .primary 0, .leg 0 .mirror 0, .endProbe 0]

/-- The same after the failure is recorded, the operation has ended and both members are drained. -/
def cleanRecovery : List Action :=
  [.admitOperation, .member .primary .admitJob, .member .mirror .admitJob, .beginFailure .storageUnavailable, .endFailure,
    .member .primary (.finish 0), .member .mirror (.finish 0), .finish 0, .admitProbe, .loadGeneration 0, .loadHealth 0,
    .loadActive 0, .loadPrimary 0, .loadMirror 0] ++ healthyLeg .primary ++ healthyLeg .mirror ++
    [.leg 0 .primary 0, .leg 0 .mirror 0, .endProbe 0, .settle 0]

/-- A job of the filesystem store fails and ends, and a probe brings the health back. -/
def singleRecovery : List FsBlobStore.Action :=
  [.admitJob, .fail .storageUnavailable, .finish 0, .startHealth, .admitProbe 0, .checkProbe 0, .probeOk 0, .settle 0]

theorem blob_health_cleanRecovery :
    (FsBlobStore.run () .opened singleRecovery).failures = 1 ∧ (run opened cleanRecovery).failures = 1 ∧
      (run opened cleanRecovery).healthy = true ∧
      FsBlobStore.HealthContract () (FsBlobStore.run () .opened singleRecovery) ∧
        HealthContract (run opened cleanRecovery) := by
  refine ⟨by decide, by decide, by decide, blob_health () singleRecovery cleanRecovery ?_ ?_⟩
  · refine ⟨trivial, trivial, trivial, trivial, trivial, trivial, trivial, ?_, trivial⟩
    intro probe _
    exact not_comeRound_of_lt (Nat.lt_of_le_of_lt (by decide : _ ≤ 1) (by omega))
  · simp only [cleanRecovery, healthyLeg, List.cons_append, List.nil_append, Along, Unraced, true_and, and_true]
    constructor
    · intro _ _ publishing
      cases publishing
    · intro reading _
      exact not_comeRound_of_lt (Nat.lt_of_le_of_lt (by decide : _ ≤ 1) (by omega))

/-- Health comes back while an operation from before the failure is active in both members. -/
theorem raced_recovery_restores :
    ¬ ∀ actions action, (run opened actions).healthy = false → (step (run opened actions) action).healthy = true →
      ∀ stamp ∈ (step (run opened actions) action).operations, stamp = (run opened actions).failures := by
  intro always
  have drained := always racedRecovery (.settle 0) (by decide) (by decide) 0 (by decide)
  revert drained
  decide

end MirroredBlobStore

end OpenLegal.Blob
