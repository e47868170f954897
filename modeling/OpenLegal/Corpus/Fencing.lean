import OpenLegal.Corpus.JobChanges
import OpenLegal.Theory.Runs
import Mathlib.Data.List.Chain

/-! # Fencing of jobs

The history of a job says who holds it: the last claim, unless the job has been queued again or taken over since. A row
stands in the table as its history says, the versions that the claims of an object carry increase, and so a worker
whose claim has been superseded finds no row that is held by its version.
-/

namespace OpenLegal.Corpus.Database

open Rust Rust.Str Legal Theory

namespace Queue

/-- What has happened to one job. -/
def own (queue : Queue) (id : ℕ) : List Entry := queue.history.filter (·.id == id)

end Queue

/-- How a row stands to its history. -/
structure JobRow.Stands (row : JobRow) (own : List Entry) : Prop where
  attempts : 0 ≤ row.attempts
  running : row.status = .running →
    ∃ job, (own.filter Entry.fences).getLast? = some (.claimed job) ∧ job.expectedVersion = row.expectedVersion
  held : row.status = .running → row.errorCategory = none →
    ∃ job, own.getLast? = some (.claimed job) ∧ job.expectedVersion = row.expectedVersion
  done : ∀ id, (own.filter Entry.turns).getLast? = some (.published id) → row.status = .done

/-- Claims of one object carry increasing versions. -/
def Entry.Precedes (earlier later : Entry) : Prop :=
  ∀ first second, earlier = .claimed first → later = .claimed second → first.object = second.object →
    first.expectedVersion < second.expectedVersion

/-- No two publications in a row. -/
def Entry.Alternates (earlier later : Entry) : Prop :=
  ∀ first second, earlier = .published first → later ≠ .published second

structure Queue.Fenced (queue : Queue) : Prop where
  keyedObjects : Keyed ObjectRow.object queue.objects
  keyedJobs : Keyed JobRow.id queue.jobs
  issued : ∀ row ∈ queue.jobs, row.id ∈ queue.issued
  stands : ∀ row ∈ queue.jobs, row.Stands (queue.own row.id)
  known : ∀ entry ∈ queue.history, ∃ row ∈ queue.jobs, row.id = entry.id
  owner : ∀ job, .claimed job ∈ queue.history → ∀ row ∈ queue.jobs, row.id = job.id → row.object = job.object
  bound : ∀ job, .claimed job ∈ queue.history →
    ∃ row ∈ queue.objects, row.object = job.object ∧ job.expectedVersion ≤ row.version
  increasing : queue.history.Pairwise Entry.Precedes
  once : ∀ id, ((queue.own id).filter Entry.turns).IsChain Entry.Alternates

/-! ## Histories -/

section History

variable {own : List Entry} {entry : Entry} {row old : JobRow}

theorem own_append (queue : Queue) (id : ℕ) (entries : List Entry) :
    ({ queue with history := queue.history ++ entries } : Queue).own id =
      queue.own id ++ entries.filter (·.id == id) :=
  List.filter_append _ _

/-- The records of a settlement of several jobs: one for each job it reaches. -/
theorem filter_kind {jobs : List JobRow} {meets : JobRow → Bool} {kind : ℕ → Entry} (kindId : ∀ id, (kind id).id = id)
    (keyed : Keyed JobRow.id jobs) (member : row ∈ jobs) :
    ((jobs.filter meets).map fun row => kind row.id).filter (·.id == row.id) = if meets row then [kind row.id] else [] := by
  induction jobs with
  | nil => cases member
  | cons head jobs ih =>
    have tail : ∀ other ∈ jobs, other.id ≠ head.id := by
      intro other inside same
      apply (List.nodup_cons.mp keyed).1
      rw [← same]
      exact List.mem_map_of_mem inside
    rcases List.mem_cons.mp member with rfl | inside
    · -- the later rows have other identifiers
      have rest : ((jobs.filter meets).map fun other => kind other.id).filter (·.id == row.id) = [] := by
        rw [List.filter_eq_nil_iff]
        intro entry recorded
        obtain ⟨other, found, rfl⟩ := List.mem_map.mp recorded
        simpa [kindId] using tail other (List.mem_of_mem_filter found)
      cases met : meets row with
      | true => simp [met, kindId, rest]
      | false => simp [met, rest]
    · have different : head.id ≠ row.id := (tail row inside).symm
      have skipped : ((if meets head then [head] else []).map fun other => kind other.id).filter (·.id == row.id) = [] := by
        cases meets head <;> simp [kindId, different]
      have split : (head :: jobs).filter meets = (if meets head then [head] else []) ++ jobs.filter meets := by
        cases met : meets head <;> simp [met]
      rw [split, List.map_append, List.filter_append, skipped, List.nil_append]
      exact ih (List.nodup_cons.mp keyed).2 inside

theorem isChain_of_short {entries : List Entry} {relation : Entry → Entry → Prop} (short : entries.length ≤ 1) :
    entries.IsChain relation := by
  match entries with
  | [] => exact .nil
  | [entry] => exact .singleton entry
  | _ :: _ :: _ => simp at short

namespace JobRow.Stands

theorem settled (stands : old.Stands own) (settles : old.Settles row) (fences : entry.fences = false)
    (turns : entry.turns = false) : row.Stands (own ++ [entry]) where
  attempts := settles.attempts stands.attempts
  running := by
    intro running
    obtain ⟨before, version, -⟩ := settles.running running
    obtain ⟨job, last, same⟩ := stands.running before
    exact ⟨job, by simpa [List.filter_append, fences] using last, by rw [version, same]⟩
  held := by
    intro running valid
    exact absurd valid (settles.running running).2.2
  done := by
    intro id last
    rw [List.filter_append, List.filter_singleton, turns] at last
    exact absurd (stands.done id (by simpa using last)) settles.unfinished

theorem rebound (stands : old.Stands own) (rebinds : old.Rebinds row) : row.Stands own where
  attempts := by
    rw [rebinds.attempts]
    exact stands.attempts
  running := by
    rw [rebinds.status, rebinds.expectedVersion]
    exact stands.running
  held := by
    rw [rebinds.status, rebinds.errorCategory, rebinds.expectedVersion]
    exact stands.held
  done := by
    rw [rebinds.status]
    exact stands.done

theorem reset (stands : old.Stands own) (resets : old.Resets row entry) : row.Stands (own ++ [entry]) where
  attempts := resets.attempts stands.attempts
  running := by
    rw [resets.status]
    intro running
    cases running
  held := by
    rw [resets.status]
    intro running
    cases running
  done := by
    intro id last
    rcases resets.entry with rfl | ⟨rfl, unfinished⟩
    · simp [List.filter_append, Entry.turns] at last
    · exact absurd (stands.done id (by simpa [List.filter_append, Entry.turns] using last)) unfinished

theorem inserted (status : row.status = .pending) (attempts : row.attempts = 0) : row.Stands [.enqueued row.id] where
  attempts := by omega
  running := by
    rw [status]
    intro running
    cases running
  held := by
    rw [status]
    intro running
    cases running
  done := by
    intro id last
    simp [Entry.turns] at last

theorem claimed {job : Job} (stands : old.Stands own) (unfinished : old.status ≠ .done)
    (version : row.expectedVersion = job.expectedVersion) (attempts : row.attempts = old.attempts + 1) :
    row.Stands (own ++ [.claimed job]) where
  attempts := by
    have counted := stands.attempts
    omega
  running _ := ⟨job, by simp [List.filter_append, Entry.fences], version.symm⟩
  held _ _ := ⟨job, by simp, version.symm⟩
  done := by
    intro id last
    exact absurd (stands.done id (by simpa [List.filter_append, Entry.turns] using last)) unfinished

theorem published {id : ℕ} (stands : old.Stands own) (done : row.status = .done) (attempts : row.attempts = old.attempts) :
    row.Stands (own ++ [.published id]) where
  attempts := by
    rw [attempts]
    exact stands.attempts
  running := by
    rw [done]
    intro running
    cases running
  held := by
    rw [done]
    intro running
    cases running
  done _ _ := done

end JobRow.Stands

end History

/-! ## The invariant -/

namespace Queue.Fenced

variable {queue : Queue}

/-- Nothing but objects, captures, identifiers and the clock changes. -/
theorem outside (fenced : queue.Fenced) {now : ℕ} {objects : List ObjectRow} {issued : List ℕ} {captures : List CaptureRow}
    (moves : ObjectsMove queue.objects objects) (grows : ∀ id ∈ queue.issued, id ∈ issued) :
    Queue.Fenced { queue with now, objects, issued, captures } where
  keyedObjects := moves.keyed fenced.keyedObjects
  keyedJobs := fenced.keyedJobs
  issued row member := grows row.id (fenced.issued row member)
  stands := fenced.stands
  known := fenced.known
  owner := fenced.owner
  bound := by
    intro job member
    obtain ⟨row, present, owned, le⟩ := fenced.bound job member
    obtain ⟨next, found, same, later, -⟩ := moves.moves row present
    exact ⟨next, found, same.trans owned, le.trans later⟩
  increasing := fenced.increasing
  once := fenced.once

/-- Jobs change, and the history records it. -/
theorem record (fenced : queue.Fenced) {objects : List ObjectRow} {jobs : List JobRow} {entries : List Entry}
    (moves : ObjectsMove queue.objects objects) (ids : jobs.map JobRow.id = queue.jobs.map JobRow.id)
    (stands : ∀ row ∈ jobs, row.Stands (queue.own row.id ++ entries.filter (·.id == row.id)) ∧
      ∃ old ∈ queue.jobs, old.id = row.id ∧ old.object = row.object)
    (known : ∀ entry ∈ entries, ∃ row ∈ queue.jobs, row.id = entry.id)
    (claims : ∀ job, .claimed job ∈ entries → (∃ row ∈ queue.jobs, row.id = job.id ∧ row.object = job.object) ∧
      (∃ row ∈ objects, row.object = job.object ∧ job.expectedVersion ≤ row.version) ∧
      ∀ earlier, .claimed earlier ∈ queue.history → earlier.object = job.object →
        earlier.expectedVersion < job.expectedVersion)
    (ordered : entries.Pairwise Entry.Precedes)
    (once : ∀ id, ((queue.own id ++ entries.filter (·.id == id)).filter Entry.turns).IsChain Entry.Alternates) :
    Queue.Fenced { queue with objects, jobs, history := queue.history ++ entries } := by
  have keyed : Keyed JobRow.id jobs := by
    rw [Keyed, ids]
    exact fenced.keyedJobs
  -- every job of the old table has its row in the new one
  have kept : ∀ row ∈ queue.jobs, ∃ next ∈ jobs, next.id = row.id := by
    intro row member
    have inside : row.id ∈ jobs.map JobRow.id := by
      rw [ids]
      exact List.mem_map_of_mem member
    exact List.mem_map.mp inside
  exact {
    keyedObjects := moves.keyed fenced.keyedObjects
    keyedJobs := keyed
    issued := by
      intro row member
      obtain ⟨-, old, present, same, -⟩ := stands row member
      rw [← same]
      exact fenced.issued old present
    stands := by
      intro row member
      rw [own_append { queue with objects, jobs }]
      exact (stands row member).1
    known := by
      intro entry member
      have before : ∃ row ∈ queue.jobs, row.id = entry.id := by
        rcases List.mem_append.mp member with past | new
        · exact fenced.known entry past
        · exact known entry new
      obtain ⟨row, present, same⟩ := before
      obtain ⟨next, found, equal⟩ := kept row present
      exact ⟨next, found, equal.trans same⟩
    owner := by
      intro job member row found same
      obtain ⟨-, old, present, sameId, sameObject⟩ := stands row found
      rw [← sameObject]
      rcases List.mem_append.mp member with past | new
      · exact fenced.owner job past old present (sameId.trans same)
      · obtain ⟨⟨claimed, inside, claimedId, claimedObject⟩, -, -⟩ := claims job new
        rw [fenced.keyedJobs.eq_of_key present inside (sameId.trans (same.trans claimedId.symm)), claimedObject]
    bound := by
      intro job member
      rcases List.mem_append.mp member with past | new
      · obtain ⟨row, present, owned, le⟩ := fenced.bound job past
        obtain ⟨next, found, same, later, -⟩ := moves.moves row present
        exact ⟨next, found, same.trans owned, le.trans later⟩
      · exact (claims job new).2.1
    increasing := by
      apply List.pairwise_append.mpr
      refine ⟨fenced.increasing, ordered, ?_⟩
      rintro earlier past later new first second rfl rfl same
      exact (claims second new).2.2 first past same
    once := by
      intro id
      rw [own_append { queue with objects, jobs }]
      exact once id }

/-- The same, when no claim is recorded and the publications are those of before. -/
theorem record_quiet (fenced : queue.Fenced) {jobs : List JobRow} {entries : List Entry}
    (ids : jobs.map JobRow.id = queue.jobs.map JobRow.id)
    (stands : ∀ row ∈ jobs, row.Stands (queue.own row.id ++ entries.filter (·.id == row.id)) ∧
      ∃ old ∈ queue.jobs, old.id = row.id ∧ old.object = row.object)
    (known : ∀ entry ∈ entries, ∃ row ∈ queue.jobs, row.id = entry.id)
    (quiet : ∀ entry ∈ entries, (∀ job, entry ≠ .claimed job) ∧ ∀ id, entry ≠ .published id)
    (single : (entries.filter Entry.turns).length ≤ 1) :
    Queue.Fenced { queue with jobs, history := queue.history ++ entries } := by
  apply fenced.record .refl ids stands known
  · intro job member
    exact absurd rfl ((quiet _ member).1 job)
  · apply List.pairwise_of_forall_mem_list
    rintro earlier member later - first second rfl
    exact absurd rfl ((quiet _ member).1 first)
  · intro id
    rw [List.filter_append]
    apply (fenced.once id).append
    · apply isChain_of_short
      refine Nat.le_trans (List.Sublist.length_le ?_) single
      exact List.Sublist.filter _ List.filter_sublist
    · intro last _ first member one second _ same
      have inside := List.mem_of_mem_filter (List.mem_of_mem_filter (List.mem_of_mem_head? member))
      exact (quiet first inside).2 second same

theorem settle {steady : Prop} (fenced : queue.Fenced) {meets : JobRow → Bool} {change : JobRow → JobRow} {kind : ℕ → Entry}
    (settlement : queue.Settlement steady meets change kind) :
    Queue.Fenced { queue with
      jobs := updateWhere meets change queue.jobs
      history := queue.history ++ (queue.jobs.filter meets).map fun row => kind row.id } := by
  have kinds : ∀ id, (kind id).id = id ∧ (kind id).fences = false ∧ (kind id).turns = false ∧
      (∀ job, kind id ≠ .claimed job) ∧ ∀ other, kind id ≠ .published other := by
    intro id
    rcases settlement.kind with rfl | rfl | rfl <;>
      exact ⟨rfl, rfl, rfl, by simp, by simp⟩
  apply fenced.record_quiet
  · exact map_key_updateWhere fun row member met => (settlement.settles row member met).id
  · intro row member
    rcases mem_updateWhere_cases member with ⟨old, present, met, rfl⟩ | ⟨present, unmet⟩
    · have settles := settlement.settles old present met
      refine ⟨?_, old, present, settles.id.symm, settles.object.symm⟩
      rw [settles.id, filter_kind (fun id => (kinds id).1) fenced.keyedJobs present, if_pos met]
      exact (fenced.stands old present).settled settles (kinds old.id).2.1 (kinds old.id).2.2.1
    · refine ⟨?_, row, present, rfl, rfl⟩
      rw [filter_kind (fun id => (kinds id).1) fenced.keyedJobs present, unmet, if_neg (by simp), List.append_nil]
      exact fenced.stands row present
  · intro entry member
    obtain ⟨row, found, rfl⟩ := List.mem_map.mp member
    exact ⟨row, List.mem_of_mem_filter found, (kinds row.id).1.symm⟩
  · intro entry member
    obtain ⟨row, -, rfl⟩ := List.mem_map.mp member
    exact (kinds row.id).2.2.2
  · have none : ((queue.jobs.filter meets).map fun row => kind row.id).filter Entry.turns = [] := by
      rw [List.filter_eq_nil_iff]
      intro entry member
      obtain ⟨row, -, rfl⟩ := List.mem_map.mp member
      simp [(kinds row.id).2.2.1]
    rw [none]
    exact Nat.zero_le 1

theorem rebind (fenced : queue.Fenced) {meets : JobRow → Bool} {change : JobRow → JobRow}
    (rebinds : ∀ row ∈ queue.jobs, meets row = true → row.Rebinds (change row)) :
    Queue.Fenced { queue with jobs := updateWhere meets change queue.jobs } := by
  suffices Queue.Fenced { queue with jobs := updateWhere meets change queue.jobs, history := queue.history ++ [] } by
    simpa using this
  apply fenced.record_quiet (map_key_updateWhere fun row member met => (rebinds row member met).id)
  · intro row member
    rw [List.filter_nil, List.append_nil]
    rcases mem_updateWhere_cases member with ⟨old, present, met, rfl⟩ | ⟨present, -⟩
    · have rebound := rebinds old present met
      refine ⟨?_, old, present, rebound.id.symm, rebound.object.symm⟩
      rw [rebound.id]
      exact (fenced.stands old present).rebound rebound
    · exact ⟨fenced.stands row present, row, present, rfl, rfl⟩
  · simp
  · simp
  · simp

/-- One job changes, and one entry records it. -/
theorem stands_one (fenced : queue.Fenced) {row : JobRow} {change : JobRow → JobRow} {entry : Entry}
    (member : row ∈ queue.jobs) (own : entry.id = row.id) (id : (change row).id = row.id)
    (object : (change row).object = row.object) (stands : (change row).Stands (queue.own row.id ++ [entry])) :
    ∀ next ∈ updateWhere (fun other => other.id == row.id) change queue.jobs,
      next.Stands (queue.own next.id ++ [entry].filter (·.id == next.id)) ∧
        ∃ old ∈ queue.jobs, old.id = next.id ∧ old.object = next.object := by
  intro next found
  rcases fenced.keyedJobs.mem_updateWhere_key member found with rfl | ⟨present, different⟩
  · refine ⟨?_, row, member, id.symm, object.symm⟩
    rw [id, List.filter_singleton, own, beq_self_eq_true, cond_true]
    exact stands
  · refine ⟨?_, next, present, rfl, rfl⟩
    have unseen : (entry.id == next.id) = false := by
      rw [own]
      simpa using Ne.symm different
    rw [List.filter_singleton, unseen, cond_false, List.append_nil]
    exact fenced.stands next present

/-- The identifiers stay when one row changes. -/
theorem ids_one (fenced : queue.Fenced) {row : JobRow} {change : JobRow → JobRow} (member : row ∈ queue.jobs)
    (id : (change row).id = row.id) :
    (updateWhere (fun other => other.id == row.id) change queue.jobs).map JobRow.id = queue.jobs.map JobRow.id := by
  apply map_key_updateWhere
  intro other present met
  rw [fenced.keyedJobs.eq_of_key present member (beq_iff_eq.mp met), id]

theorem reset (fenced : queue.Fenced) {row : JobRow} {change : JobRow → JobRow} {entry : Entry} (member : row ∈ queue.jobs)
    (resets : row.Resets (change row) entry) :
    Queue.Fenced { queue with
      jobs := updateWhere (fun other => other.id == row.id) change queue.jobs
      history := queue.history ++ [entry] } := by
  have own : entry.id = row.id := by
    rcases resets.entry with rfl | ⟨rfl, -⟩ <;> rfl
  apply fenced.record_quiet (fenced.ids_one member resets.id)
  · exact fenced.stands_one member own resets.id resets.object ((fenced.stands row member).reset resets)
  · intro recorded inside
    rw [List.mem_singleton.mp inside]
    exact ⟨row, member, own.symm⟩
  · intro recorded inside
    rw [List.mem_singleton.mp inside]
    rcases resets.entry with rfl | ⟨rfl, -⟩ <;> exact ⟨by simp, by simp⟩
  · exact List.length_filter_le _ _

theorem claim (fenced : queue.Fenced) {row : JobRow} {object : ObjectRow} {change : JobRow → JobRow} {job : Job}
    {objects : List ObjectRow} (member : row ∈ queue.jobs) (present : object ∈ queue.objects)
    (owned : object.object = row.object) (id : (change row).id = row.id)
    (sameObject : (change row).object = row.object) (jobId : job.id = row.id) (jobObject : job.object = row.object)
    (unfinished : row.status ≠ .done) (version : job.expectedVersion = object.version + 1)
    (held : (change row).expectedVersion = job.expectedVersion) (attempts : (change row).attempts = row.attempts + 1)
    (moves : ObjectsMove queue.objects objects)
    (raised : ∃ next ∈ objects, next.object = row.object ∧ next.version = object.version + 1) :
    Queue.Fenced { queue with
      objects
      jobs := updateWhere (fun other => other.id == row.id) change queue.jobs
      history := queue.history ++ [.claimed job] } := by
  apply fenced.record moves (fenced.ids_one member id)
  · exact fenced.stands_one member jobId id sameObject ((fenced.stands row member).claimed unfinished held attempts)
  · intro entry inside
    rw [List.mem_singleton.mp inside]
    exact ⟨row, member, jobId.symm⟩
  · intro other inside
    cases List.mem_singleton.mp inside
    refine ⟨⟨row, member, jobId.symm, jobObject.symm⟩, ?_, ?_⟩
    · obtain ⟨next, found, same, later⟩ := raised
      exact ⟨next, found, same.trans jobObject.symm, by rw [version, later]⟩
    · -- earlier claims of the object are bound by the version that this one passes
      intro earlier past same
      obtain ⟨bounding, found, ofObject, le⟩ := fenced.bound earlier past
      have equal : bounding = object :=
        fenced.keyedObjects.eq_of_key found present (ofObject.trans (same.trans (jobObject.trans owned.symm)))
      rw [equal] at le
      omega
  · exact List.pairwise_singleton _ _
  · intro other
    have none : ([Entry.claimed job].filter (·.id == other)).filter Entry.turns = [] := by
      rw [List.filter_filter]
      simp [Entry.turns]
    rw [List.filter_append, none, List.append_nil]
    exact fenced.once other

theorem publish (fenced : queue.Fenced) {row : JobRow} {meets : JobRow → Bool} {change : JobRow → JobRow}
    (member : row ∈ queue.jobs) (met : meets row = true) (only : ∀ other, meets other = true → other.id = row.id)
    (running : row.status = .running) (id : (change row).id = row.id) (object : (change row).object = row.object)
    (done : (change row).status = .done) (attempts : (change row).attempts = row.attempts) :
    Queue.Fenced { queue with
      jobs := updateWhere meets change queue.jobs
      history := queue.history ++ [.published row.id] } := by
  rw [fenced.keyedJobs.updateWhere_eq_key member met only]
  apply fenced.record .refl (fenced.ids_one member id)
  · exact fenced.stands_one member rfl id object ((fenced.stands row member).published done attempts)
  · intro entry inside
    rw [List.mem_singleton.mp inside]
    exact ⟨row, member, rfl⟩
  · intro job inside
    cases List.mem_singleton.mp inside
  · exact List.pairwise_singleton _ _
  · intro other
    rw [List.filter_append]
    apply (fenced.once other).append
    · apply isChain_of_short
      exact (List.length_filter_le _ _).trans (List.length_filter_le _ _)
    · -- a running job was not published since it was enqueued
      intro last before first member' one second rfl
      by_cases same : row.id = other
      · subst same
        have finished := (fenced.stands row member).done one before
        rw [running] at finished
        cases finished
      · simp [Entry.id, same] at member'

theorem insert (fenced : queue.Fenced) {row : JobRow} (fresh : row.id ∉ queue.issued) (status : row.status = .pending)
    (attempts : row.attempts = 0) :
    Queue.Fenced { queue with
      jobs := queue.jobs ++ [row]
      issued := row.id :: queue.issued
      history := queue.history ++ [.enqueued row.id] } := by
  have other : ∀ old ∈ queue.jobs, old.id ≠ row.id := by
    intro old member same
    apply fresh
    rw [← same]
    exact fenced.issued old member
  have unseen : ∀ entry ∈ queue.history, entry.id ≠ row.id := by
    intro entry member same
    obtain ⟨old, present, equal⟩ := fenced.known entry member
    exact other old present (equal.trans same)
  have own : queue.own row.id = [] := by
    rw [Queue.own, List.filter_eq_nil_iff]
    intro entry member
    simpa using unseen entry member
  exact {
    keyedObjects := fenced.keyedObjects
    keyedJobs := fenced.keyedJobs.insert other
    issued := by
      intro old member
      rcases List.mem_append.mp member with present | new
      · exact List.mem_cons_of_mem _ (fenced.issued old present)
      · rw [List.mem_singleton.mp new]
        exact List.mem_cons_self
    stands := by
      intro old member
      rw [own_append { queue with jobs := queue.jobs ++ [row], issued := row.id :: queue.issued }]
      rcases List.mem_append.mp member with present | new
      · have different : (Entry.id (.enqueued row.id) == old.id) = false := by
          simpa [Entry.id] using (other old present).symm
        rw [List.filter_singleton, different, cond_false, List.append_nil]
        exact fenced.stands old present
      · rw [List.mem_singleton.mp new]
        change row.Stands (queue.own row.id ++ _)
        rw [own]
        simpa [Entry.id] using JobRow.Stands.inserted status attempts
    known := by
      intro entry member
      rcases List.mem_append.mp member with past | new
      · obtain ⟨old, present, equal⟩ := fenced.known entry past
        exact ⟨old, List.mem_append_left _ present, equal⟩
      · rw [List.mem_singleton.mp new]
        exact ⟨row, by simp, rfl⟩
    owner := by
      intro job member old found same
      rcases List.mem_append.mp member with past | new
      · rcases List.mem_append.mp found with present | inserted
        · exact fenced.owner job past old present same
        · rw [List.mem_singleton.mp inserted] at same
          exact absurd same.symm (unseen _ past)
      · cases List.mem_singleton.mp new
    bound := by
      intro job member
      rcases List.mem_append.mp member with past | new
      · exact fenced.bound job past
      · cases List.mem_singleton.mp new
    increasing := by
      apply List.pairwise_append.mpr
      refine ⟨fenced.increasing, List.pairwise_singleton _ _, ?_⟩
      rintro earlier - later new first second - rfl
      cases List.mem_singleton.mp new
    once := by
      intro id
      rw [own_append { queue with jobs := queue.jobs ++ [row], issued := row.id :: queue.issued }, List.filter_append]
      apply (fenced.once id).append
      · apply isChain_of_short
        exact (List.length_filter_le _ _).trans (List.length_filter_le _ _)
      · intro last _ first member one second _ same
        have inside := List.mem_of_mem_filter (List.mem_of_mem_filter (List.mem_of_mem_head? member))
        rw [List.mem_singleton.mp inside] at same
        cases same }

end Queue.Fenced

theorem Queue.Change.fenced {steady : Prop} {queue next : Queue} (change : Queue.Change steady queue next)
    (fenced : queue.Fenced) : next.Fenced := by
  cases change with
  | pass seconds => exact fenced.outside .refl fun _ issued => issued
  | objects objects moves => exact fenced.outside moves fun _ issued => issued
  | capture capture unwithdrawn => exact fenced.outside .refl fun _ issued => issued
  | issue ids => exact fenced.outside .refl fun _ issued => List.mem_append_right _ issued
  | settle meets change kind settlement => exact fenced.settle settlement
  | rebind meets change rebinds => exact fenced.rebind rebinds
  | reset row change entry member resets => exact fenced.reset member resets
  | insert row fresh status attempts => exact fenced.insert fresh status attempts
  | claim row object change job objects member present owned id sameObject jobId jobObject unfinished running version held
      attempts alone moves raised =>
    exact fenced.claim member present owned id sameObject jobId jobObject unfinished version held attempts moves raised
  | publish row meets change member met only running valid id object done attempts =>
    exact fenced.publish member met only running id object done attempts

theorem Queue.Changes.fenced {steady : Prop} {queue next : Queue} (changes : Queue.Changes steady queue next)
    (fenced : queue.Fenced) : next.Fenced := by
  induction changes with
  | refl => exact fenced
  | tail _ change ih => exact change.fenced ih

theorem fenced_initial (now maxJobAttempts : ℕ) (maxRawBytes : Option ℕ) :
    (World.initial now maxJobAttempts maxRawBytes).queue.Fenced where
  keyedObjects := List.nodup_nil
  keyedJobs := List.nodup_nil
  issued _ member := absurd member List.not_mem_nil
  stands _ member := absurd member List.not_mem_nil
  known _ member := absurd member List.not_mem_nil
  owner _ member := absurd member List.not_mem_nil
  bound _ member := absurd member List.not_mem_nil
  increasing := .nil
  once _ := .nil

theorem fenced_step (parsers : Parsers) (sha256 : Bytes → Bytes) {world : World} (event : Event) (fenced : world.queue.Fenced) :
    (world.step parsers sha256 event).queue.Fenced :=
  (changes_step parsers sha256 fenced.keyedObjects event).fenced fenced

theorem fenced_run (parsers : Parsers) (sha256 : Bytes → Bytes) {world : World} (fenced : world.queue.Fenced)
    (events : List Event) : (world.run parsers sha256 events).queue.Fenced :=
  foldl_invariant (fun world : World => world.queue.Fenced) (fun _ event held => fenced_step parsers sha256 event held) events
    fenced

/-! ## Objects and captures -/

theorem Queue.Change.objectsMove {steady : Prop} {queue next : Queue} (change : Queue.Change steady queue next) :
    ObjectsMove queue.objects next.objects := by
  cases change with
  | objects objects moves => exact moves
  | claim row object change job objects member present owned id sameObject jobId jobObject unfinished running version held
      attempts alone moves raised => exact moves
  | _ => exact .refl

theorem Queue.Changes.objectsMove {steady : Prop} {queue next : Queue} (changes : Queue.Changes steady queue next) :
    ObjectsMove queue.objects next.objects := by
  induction changes with
  | refl => exact .refl
  | tail _ change ih => exact ih.trans change.objectsMove

/-- The object is withdrawn, and these are its captures. -/
def Queue.Withdrawn (queue : Queue) (object : ObjectId) (captures : List CaptureRow) : Prop :=
  (∃ row ∈ queue.objects, row.object = object ∧ row.withdrawn = true) ∧
    queue.captures.filter (·.object = object) = captures

theorem Queue.Change.withdrawn {steady : Prop} {queue next : Queue} (change : Queue.Change steady queue next)
    {object : ObjectId} {captures : List CaptureRow} (withdrawn : queue.Withdrawn object captures) :
    next.Withdrawn object captures := by
  obtain ⟨⟨row, member, owned, held⟩, same⟩ := withdrawn
  constructor
  · obtain ⟨later, found, ofObject, -, stays⟩ := change.objectsMove.moves row member
    exact ⟨later, found, ofObject.trans owned, stays held⟩
  · cases change with
    | capture capture unwithdrawn =>
      have other : capture.object ≠ object := by
        intro equal
        rw [unwithdrawn row member (owned.trans equal.symm)] at held
        cases held
      rw [← same]
      simp [List.filter_append, other]
    | _ => exact same

theorem Queue.Changes.withdrawn {steady : Prop} {queue next : Queue} (changes : Queue.Changes steady queue next)
    {object : ObjectId} {captures : List CaptureRow} (withdrawn : queue.Withdrawn object captures) :
    next.Withdrawn object captures := by
  induction changes with
  | refl => exact withdrawn
  | tail _ change ih => exact change.withdrawn ih

/-- A withdrawn object keeps its captures. -/
theorem withdrawn_run (parsers : Parsers) (sha256 : Bytes → Bytes) {world : World} {object : ObjectId}
    {captures : List CaptureRow} (fenced : world.queue.Fenced) (withdrawn : world.queue.Withdrawn object captures)
    (events : List Event) : (world.run parsers sha256 events).queue.Withdrawn object captures := by
  have both := foldl_invariant (fun world : World => world.queue.Fenced ∧ world.queue.Withdrawn object captures)
    (fun world event held => ⟨fenced_step parsers sha256 event held.1,
      (changes_step parsers sha256 held.1.keyedObjects event).withdrawn held.2⟩) events ⟨fenced, withdrawn⟩
  exact both.2

/-! ## Claims that are over -/

section Contract

variable {world : World}

/-- A job that was taken away from a claim is not held by it. -/
theorem not_held_of_superseded (fenced : world.queue.Fenced) {before after : List Entry} {job : Job} {entry : Entry}
    (history : world.history = before ++ .claimed job :: after) (member : entry ∈ after) (own : entry.id = job.id)
    (fences : entry.fences = true) {row : JobRow} (present : row ∈ world.jobs) (id : row.id = job.id)
    (running : row.status = .running) : row.expectedVersion ≠ job.expectedVersion := by
  obtain ⟨current, last, version⟩ := (fenced.stands row present).running running
  -- the last claim of the job comes after this one
  have later : .claimed current ∈ after := by
    have split : (world.queue.own row.id).filter Entry.fences =
        ((before ++ [Entry.claimed job]).filter fun entry => entry.id == row.id).filter Entry.fences ++
          (after.filter (·.id == row.id)).filter Entry.fences := by
      change (world.history.filter _).filter _ = _
      rw [history, ← List.filter_append, ← List.filter_append, List.append_assoc]
      rfl
    have inside : entry ∈ (after.filter (·.id == row.id)).filter Entry.fences :=
      List.mem_filter.mpr ⟨List.mem_filter.mpr ⟨member, by simp [own, id]⟩, fences⟩
    rw [split, List.getLast?_append_of_ne_nil _ (List.ne_nil_of_mem inside)] at last
    exact List.mem_of_mem_filter (List.mem_of_mem_filter (List.mem_of_getLast? last))
  have claimed : ∀ other, .claimed other ∈ world.history → other.id = row.id → row.object = other.object :=
    fun other recorded same => fenced.owner other recorded row present same.symm
  have ordered := fenced.increasing
  change world.history.Pairwise _ at ordered
  rw [history] at ordered
  have less := (List.pairwise_cons.mp (List.pairwise_append.mp ordered).2.1).1 _ later job current rfl rfl (by
    rw [← claimed job (by simp [history]) id.symm]
    have currentId : current.id = row.id := by
      have inOwn := List.mem_of_mem_filter (List.mem_of_getLast? last)
      simpa [Entry.id] using (List.mem_filter.mp inOwn).2
    exact claimed current (by simp [history, later]) currentId)
  omega

/-- The settlement of a claim. -/
def Event.settles : Event → Option Job
  | .failClaim job _ | .releaseAdmissionWait job | .deferStorageClaim job | .deferBudgetClaim job _ _ => some job
  | _ => none

/-- Nothing changes if a settlement reaches no job. -/
theorem settleJobs_of_none {meets : JobRow → Bool} {change : JobRow → JobRow}
    (none : ∀ row ∈ world.jobs, meets row = false) : world.settleJobs meets change = world := by
  have unmet : world.jobs.filter meets = [] := by
    rw [List.filter_eq_nil_iff]
    intro row member
    simp [none row member]
  rw [World.settleJobs, World.updateJobs, updateWhere_of_none none, unmet, World.note, List.map_nil, List.append_nil]

theorem step_of_not_held (parsers : Parsers) (sha256 : Bytes → Bytes) {event : Event} {job : Job}
    (settles : event.settles = some job)
    (none : ∀ row ∈ world.jobs, row.id = job.id → row.status = .running → row.expectedVersion ≠ job.expectedVersion) :
    world.step parsers sha256 event = world := by
  have unheld : ∀ row ∈ world.jobs, World.heldBy job row = false := by
    intro row member
    by_contra held
    obtain ⟨id, version, -, running⟩ := of_heldBy (by simpa using held)
    exact none row member id running version
  have idle : ∀ row ∈ world.jobs, world.executes job row = false := by
    intro row member
    by_contra executes
    have active : world.executes job row = true := by simpa using executes
    refine none row member (of_executes active).1 (status_of_isLive (of_executes active).2) ?_
    simp only [World.executes, Bool.and_eq_true, beq_iff_eq] at active
    exact active.1.1.1.1.2
  have unheldAny : world.jobs.any (World.heldBy job) = false := by simpa [List.any_eq_false] using unheld
  have idleAny : world.jobs.any (world.executes job) = false := by simpa [List.any_eq_false] using idle
  cases event with
  | failClaim other retry =>
    cases settles
    simp only [World.step, World.failClaim, settleJobs_of_none unheld]
    split <;> rfl
  | releaseAdmissionWait other =>
    cases settles
    simp only [World.step, World.releaseAdmissionWait, unheldAny, Bool.not_false, ↓reduceIte]
    repeat' split
    all_goals rfl
  | deferStorageClaim other =>
    cases settles
    simp only [World.step, World.deferStorageClaim, idleAny, Bool.not_false, ↓reduceIte]
    repeat' split
    all_goals rfl
  | deferBudgetClaim other resumeAt refund =>
    cases settles
    simp only [World.step, World.deferBudgetClaim, unheldAny, Bool.not_false, ↓reduceIte]
    repeat' split
    all_goals rfl
  | _ => cases settles

/-- Between two publications under a job there is an enqueue. -/
theorem enqueued_between (fenced : world.queue.Fenced) {id : ℕ} {before between after : List Entry}
    (history : world.history = before ++ .published id :: (between ++ .published id :: after)) :
    .enqueued id ∈ between := by
  by_contra absent
  have chain := fenced.once id
  have split : (world.queue.own id).filter Entry.turns =
      ((before.filter fun entry => entry.id == id).filter Entry.turns) ++ .published id ::
        ((between.filter fun entry => entry.id == id).filter Entry.turns ++ .published id ::
          (after.filter fun entry => entry.id == id).filter Entry.turns) := by
    change (world.history.filter fun entry => entry.id == id).filter Entry.turns = _
    have own : ((Entry.published id).id == id) = true := by simp [Entry.id]
    have turns : (Entry.published id).turns = true := rfl
    rw [history]
    simp only [List.filter_append, List.filter_cons, own, turns, ↓reduceIte]
  rw [split] at chain
  have tail := chain.right_of_append
  -- the next turn after the first publication is a publication again
  cases turns : (between.filter fun entry => entry.id == id).filter Entry.turns with
  | nil =>
    rw [turns, List.nil_append] at tail
    exact (List.isChain_cons_cons.mp tail).1 id id rfl rfl
  | cons entry rest =>
    rw [turns, List.cons_append] at tail
    have first := (List.isChain_cons_cons.mp tail).1
    have member : entry ∈ (between.filter fun entry => entry.id == id).filter Entry.turns := by simp [turns]
    obtain ⟨inside, turning⟩ := List.mem_filter.mp member
    obtain ⟨inside, own⟩ := List.mem_filter.mp inside
    cases entry with
    | enqueued other =>
      rw [← beq_iff_eq.mp own] at absent
      exact absent inside
    | published other => exact first id other rfl rfl
    | _ => cases turning

theorem history_recordRevision {commit : World.Committing} {capture : CaptureRow} :
    (world.recordRevision commit capture).history = world.history :=
  congrArg Queue.history queue_recordRevision

theorem history_finishJob {commit : World.Committing} {id : ℕ} (job : commit.publication.jobId = some id) :
    (world.finishJob commit).history = world.history ++ [.published id] := by
  rw [World.finishJob, job]
  rfl

/-- A publication that commits under a job records it. -/
theorem history_commitPublication {sha256 : Bytes → Bytes} {publisher : Publisher} {next : World} {id : ℕ}
    (job : publisher.publication.jobId = some id) (committed : world.commitPublication sha256 publisher = .ok next) :
    next.history = world.history ++ [.published id] := by
  obtain ⟨present, commit, source, facts, outcome⟩ := commitPublication_ok committed
  obtain ⟨objects, rfl, -, -⟩ := facts.objects
  have named : commit.publication.jobId = some id := by rw [facts.publication, job]
  rcases outcome with ⟨old, -, -, rfl⟩ | ⟨-, rfl⟩
  · rw [World.commitDuplicate, history_finishJob named]
    simp only [World.unstage]
    split <;> split <;> rfl
  · rw [World.commitCapture, history_finishJob named]
    change World.history (World.recordRevision _ _ _) ++ _ = _
    rw [history_recordRevision]

/-- The publication of a job is that of its last claim, which is under its lease and not settled. -/
theorem holder_of_commit (fenced : world.queue.Fenced) {sha256 : Bytes → Bytes} {publisher : Publisher} {next : World}
    {id : ℕ} (job : publisher.publication.jobId = some id)
    (committed : world.commitPublication sha256 publisher = .ok next) :
    ∃ row ∈ world.jobs, row.id = id ∧ row.isLive world.now = true ∧ ∃ job, (world.queue.own id).getLast? = some (.claimed job) ∧
      job.expectedVersion = publisher.publication.expectedVersion := by
  obtain ⟨present, commit, source, facts, -⟩ := commitPublication_ok committed
  obtain ⟨objects, rfl, -, -⟩ := facts.objects
  have authorized := facts.authorized
  simp only [World.authorized, facts.publication, job, Option.all_some, List.any_eq_true, Bool.and_eq_true, beq_iff_eq]
    at authorized
  obtain ⟨row, member, ⟨⟨⟨⟨⟨rfl, -⟩, -⟩, version⟩, live⟩, valid⟩, -⟩ := authorized
  obtain ⟨claimed, last, same⟩ := (fenced.stands row member).held (status_of_isLive live) (by simpa using valid)
  refine ⟨row, member, rfl, ?_, claimed, last, ?_⟩
  · -- the clock of the publication is not behind the clock of the world
    simp only [JobRow.isLive, Bool.and_eq_true, Option.any_eq_true, decide_eq_true_eq] at live ⊢
    obtain ⟨running, deadline, lease, later⟩ := live
    rw [facts.now] at later
    exact ⟨running, deadline, lease, by omega⟩
  · rw [same, version, facts.version]

theorem claim_raises {claim : World.Claim} {next : World} (claimed : world.claimJobInner claim = .ok next)
    {job : Job} (history : next.history = world.history ++ [.claimed job]) {row : ObjectRow} (present : row ∈ world.objects)
    (owned : row.object = job.object) :
    ∃ after ∈ next.objects, after.object = row.object ∧ after.version = row.version + 1 := by
  have changed : next.history ≠ world.history := by
    rw [history]
    simp
  simp only [World.claimJobInner, ite_error_eq_ok] at claimed
  obtain ⟨-, claimed⟩ := claimed
  split at claimed
  · cases claimed
    exact absurd rfl changed
  split at claimed
  · cases claimed
    exact absurd rfl changed
  next taken candidate =>
  split at claimed
  · cases claimed
  next object found =>
  cases claimed
  have same : [Entry.claimed (World.claimedRow world.now (object.version + 1) claim.leaseSeconds taken).toJob] = [.claimed job] :=
    List.append_cancel_left history
  have ofJob : taken.object = job.object := by
    cases same
    rfl
  refine ⟨{ row with version := row.version + 1 }, ?_, rfl, rfl⟩
  apply mem_updateWhere.mpr
  refine ⟨row, present, ?_⟩
  rw [if_pos (by simp [owned, ofJob])]

end Contract

/-- The contract of the fencing of jobs. -/
structure JobContract (parsers : Parsers) (sha256 : Bytes → Bytes) (world : World) : Prop where
  versions : ∀ (event : Event), ∀ row ∈ world.objects,
    ∃ next ∈ (world.step parsers sha256 event).objects, next.object = row.object ∧ row.version ≤ next.version
  claims : ∀ (claim : World.Claim) (job : Job),
    (world.step parsers sha256 (.claim claim)).history = world.history ++ [.claimed job] →
      ∀ row ∈ world.objects, row.object = job.object →
        ∃ next ∈ (world.step parsers sha256 (.claim claim)).objects, next.object = row.object ∧ row.version < next.version
  /-- Whoever publishes under a job holds its last claim, under its lease, with nothing after it. -/
  publishes : ∀ (publisher : Publisher) (next : World) (id : ℕ), publisher.publication.jobId = some id →
    world.commitPublication sha256 publisher = .ok next →
      next.history = world.history ++ [.published id] ∧ ∃ row ∈ world.jobs, row.id = id ∧ row.isLive world.now = true ∧
        ∃ job, (world.queue.own id).getLast? = some (.claimed job) ∧
          job.expectedVersion = publisher.publication.expectedVersion
  once : ∀ (id : ℕ) (before between after : List Entry),
    world.history = before ++ .published id :: (between ++ .published id :: after) → .enqueued id ∈ between
  /-- A settlement by a claim that has been superseded changes nothing. -/
  stale : ∀ (event : Event) (job : Job) (before after : List Entry) (entry : Entry), event.settles = some job →
    world.history = before ++ .claimed job :: after → entry ∈ after → entry.id = job.id → entry.fences = true →
      world.step parsers sha256 event = world
  attempts : ∀ row ∈ world.jobs, 0 ≤ row.attempts
  withdrawn : ∀ row ∈ world.objects, row.withdrawn = true → ∀ later : List Event,
    (world.run parsers sha256 later).captures.filter (·.object = row.object) =
      world.captures.filter (·.object = row.object)

/-- Over every run from an empty corpus. -/
theorem job_fencing (parsers : Parsers) (sha256 : Bytes → Bytes) (now maxJobAttempts : ℕ) (maxRawBytes : Option ℕ)
    (events : List Event) :
    JobContract parsers sha256 ((World.initial now maxJobAttempts maxRawBytes).run parsers sha256 events) := by
  have fenced := fenced_run parsers sha256 (fenced_initial now maxJobAttempts maxRawBytes) events
  generalize (World.initial now maxJobAttempts maxRawBytes).run parsers sha256 events = world at fenced
  have changes := fun event => changes_step parsers sha256 fenced.keyedObjects event
  constructor
  · intro event row member
    obtain ⟨next, found, object, version, -⟩ := (changes event).objectsMove.moves row member
    exact ⟨next, found, object, version⟩
  · intro claim job history row member owned
    cases claimed : world.claimJobInner claim with
    | error error =>
      simp [World.step, claimed, Except.toOption] at history
    | ok next =>
      have stepped : world.step parsers sha256 (.claim claim) = next := by simp [World.step, claimed, Except.toOption]
      rw [stepped] at history ⊢
      obtain ⟨after, found, object, version⟩ := claim_raises claimed history member owned
      exact ⟨after, found, object, by omega⟩
  · intro publisher next id job committed
    exact ⟨history_commitPublication job committed, holder_of_commit fenced job committed⟩
  · intro id before between after history
    exact enqueued_between fenced history
  · intro event job before after entry settles history member own fences
    apply step_of_not_held parsers sha256 settles
    intro row present id running
    exact not_held_of_superseded fenced history member own fences present id running
  · intro row member
    exact (fenced.stands row member).attempts
  · intro row member withdrawn later
    exact (withdrawn_run parsers sha256 fenced ⟨⟨row, member, rfl, withdrawn⟩, rfl⟩ later).2

end OpenLegal.Corpus.Database
