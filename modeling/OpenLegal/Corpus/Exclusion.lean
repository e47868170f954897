import OpenLegal.Corpus.Fencing
import OpenLegal.Legal.Projection

/-! # One execution for an object

A claim is refused while another job of the object is running under an unexpired lease. The other updates of a lease
keep this exclusion, but for one: the deferral of a claim for budget checks neither the lease of the claim nor the
version of the object, so a worker whose lease has run out can bring its job back to life after another job of the
object was claimed.
-/

namespace OpenLegal.Corpus.Database

open Rust Rust.Str Legal Theory

/-- No object has two jobs that are running under unexpired leases. -/
def Queue.Exclusive (queue : Queue) : Prop :=
  ∀ a ∈ queue.jobs, ∀ b ∈ queue.jobs, a.object = b.object → a.isLive queue.now = true → b.isLive queue.now = true → a = b

theorem JobRow.isLive_mono {row : JobRow} {now later : ℕ} (le : now ≤ later) (live : row.isLive later = true) :
    row.isLive now = true := by
  simp only [JobRow.isLive, Bool.and_eq_true, Option.any_eq_true, decide_eq_true_eq] at live ⊢
  obtain ⟨running, deadline, lease, after⟩ := live
  exact ⟨running, deadline, lease, by omega⟩

namespace Queue.Exclusive

variable {queue : Queue}

/-- Every live job was live before, or it is the one job that was revived, and no other job of its object was live. -/
theorem revive (exclusive : queue.Exclusive) {jobs : List JobRow} {now : ℕ} (keyed : Keyed JobRow.id jobs) (id : ℕ)
    (origin : ∀ row ∈ jobs, row.isLive now = true → ∃ old ∈ queue.jobs, old.id = row.id ∧ old.object = row.object ∧
      (old.isLive queue.now = true ∨ (row.id = id ∧ ¬ queue.HasOtherLive old))) :
    ∀ a ∈ jobs, ∀ b ∈ jobs, a.object = b.object → a.isLive now = true → b.isLive now = true → a = b := by
  intro a memberA b memberB same liveA liveB
  apply keyed.eq_of_key memberA memberB
  obtain ⟨oldA, presentA, idA, objectA, originA⟩ := origin a memberA liveA
  obtain ⟨oldB, presentB, idB, objectB, originB⟩ := origin b memberB liveB
  rcases originA with wasLiveA | ⟨revivedA, aloneA⟩ <;> rcases originB with wasLiveB | ⟨revivedB, aloneB⟩
  · rw [← idA, ← idB, exclusive oldA presentA oldB presentB (by rw [objectA, objectB, same]) wasLiveA wasLiveB]
  · by_contra different
    exact aloneB ⟨oldA, presentA, by rw [objectA, objectB, same], by rw [idA, idB]; exact different, wasLiveA⟩
  · by_contra different
    exact aloneA ⟨oldB, presentB, by rw [objectA, objectB, same], by rw [idA, idB]; exact Ne.symm different, wasLiveB⟩
  · rw [revivedA, revivedB]

/-- Every live job was live before. -/
theorem shrink (exclusive : queue.Exclusive) {jobs : List JobRow} {now : ℕ} (keyed : Keyed JobRow.id jobs)
    (origin : ∀ row ∈ jobs, row.isLive now = true → ∃ old ∈ queue.jobs, old.id = row.id ∧ old.object = row.object ∧
      old.isLive queue.now = true) :
    ∀ a ∈ jobs, ∀ b ∈ jobs, a.object = b.object → a.isLive now = true → b.isLive now = true → a = b := by
  apply exclusive.revive keyed 0
  intro row member live
  obtain ⟨old, present, id, object, wasLive⟩ := origin row member live
  exact ⟨old, present, id, object, .inl wasLive⟩

theorem settle {steady : Prop} (held : steady) (exclusive : queue.Exclusive) {meets : JobRow → Bool} {change : JobRow → JobRow}
    {kind : ℕ → Entry} (settlement : queue.Settlement steady meets change kind)
    (keyed : Keyed JobRow.id (updateWhere meets change queue.jobs)) :
    ∀ a ∈ updateWhere meets change queue.jobs, ∀ b ∈ updateWhere meets change queue.jobs, a.object = b.object →
      a.isLive queue.now = true → b.isLive queue.now = true → a = b := by
  -- the one job that the settlement may leave running
  by_cases revived : ∃ row ∈ queue.jobs, meets row = true ∧ (change row).isLive queue.now = true
  · obtain ⟨kept, member, met, live⟩ := revived
    apply exclusive.revive keyed kept.id
    intro row found liveRow
    rcases mem_updateWhere_cases found with ⟨old, present, metOld, rfl⟩ | ⟨present, -⟩
    · have settles := settlement.settles old present metOld
      refine ⟨old, present, settles.id.symm, settles.object.symm, ?_⟩
      refine (settlement.live held old present metOld liveRow).imp_right fun alone => ⟨?_, alone⟩
      rw [settles.id]
      exact settlement.single old present kept member metOld met liveRow live
    · exact ⟨row, present, rfl, rfl, .inl liveRow⟩
  · apply exclusive.shrink keyed
    intro row found live
    rcases mem_updateWhere_cases found with ⟨old, present, met, rfl⟩ | ⟨present, -⟩
    · exact absurd ⟨old, present, met, live⟩ revived
    · exact ⟨row, present, rfl, rfl, live⟩

end Queue.Exclusive

theorem Queue.Change.exclusive {steady : Prop} {queue next : Queue} (change : Queue.Change steady queue next) (held : steady)
    (fenced : queue.Fenced) (exclusive : queue.Exclusive) : next.Exclusive := by
  have keyed := (change.fenced fenced).keyedJobs
  cases change with
  | pass seconds =>
    intro a memberA b memberB same liveA liveB
    exact exclusive a memberA b memberB same (JobRow.isLive_mono (Nat.le_add_right _ _) liveA)
      (JobRow.isLive_mono (Nat.le_add_right _ _) liveB)
  | objects objects moves => exact exclusive
  | capture capture unwithdrawn => exact exclusive
  | issue ids => exact exclusive
  | settle meets change kind settlement => exact exclusive.settle held settlement keyed
  | rebind meets change rebinds =>
    apply exclusive.shrink keyed
    intro row found live
    rcases mem_updateWhere_cases found with ⟨old, present, met, rfl⟩ | ⟨present, -⟩
    · have rebound := rebinds old present met
      refine ⟨old, present, rebound.id.symm, rebound.object.symm, ?_⟩
      rw [JobRow.isLive, rebound.status, rebound.leaseUntil] at live
      exact live
    · exact ⟨row, present, rfl, rfl, live⟩
  | reset row change entry member resets =>
    apply exclusive.shrink keyed
    intro other found live
    rcases fenced.keyedJobs.mem_updateWhere_key member found with rfl | ⟨present, -⟩
    · have running := status_of_isLive live
      rw [resets.status] at running
      cases running
    · exact ⟨other, present, rfl, rfl, live⟩
  | insert row fresh status attempts =>
    apply exclusive.shrink keyed
    intro other found live
    rcases List.mem_append.mp found with present | new
    · exact ⟨other, present, rfl, rfl, live⟩
    · have running := status_of_isLive live
      rw [List.mem_singleton.mp new, status] at running
      cases running
  | claim row object change job objects member present owned id sameObject jobId jobObject unfinished running version held'
      attempts alone moves raised =>
    apply exclusive.revive keyed row.id
    intro other found live
    rcases fenced.keyedJobs.mem_updateWhere_key member found with rfl | ⟨inside, -⟩
    · exact ⟨row, member, id.symm, sameObject.symm, .inr ⟨id, alone⟩⟩
    · exact ⟨other, inside, rfl, rfl, .inl live⟩
  | publish row meets change member met only running valid id object done attempts =>
    apply exclusive.shrink keyed
    intro other found live
    rw [fenced.keyedJobs.updateWhere_eq_key member met only] at found
    rcases fenced.keyedJobs.mem_updateWhere_key member found with rfl | ⟨inside, -⟩
    · have runs := status_of_isLive live
      rw [done] at runs
      cases runs
    · exact ⟨other, inside, rfl, rfl, live⟩

theorem Queue.Changes.exclusive {steady : Prop} {queue next : Queue} (changes : Queue.Changes steady queue next)
    (held : steady) (fenced : queue.Fenced) (exclusive : queue.Exclusive) : next.Exclusive := by
  induction changes with
  | refl => exact exclusive
  | tail before change ih => exact change.exclusive held (Queue.Changes.fenced before fenced) ih

/-- In every run of steady steps the exclusion holds, in every state. -/
theorem steady_exclusion (parsers : Parsers) (sha256 : Bytes → Bytes) (now maxJobAttempts : ℕ) (maxRawBytes : Option ℕ)
    (events : List Event)
    (steady : Along (World.step parsers sha256) World.Steady (World.initial now maxJobAttempts maxRawBytes) events) :
    ((World.initial now maxJobAttempts maxRawBytes).run parsers sha256 events).queue.Exclusive := by
  have both := steady.invariant (fun world : World => world.queue.Fenced ∧ world.queue.Exclusive)
    (fun world event held allowed => ⟨fenced_step parsers sha256 event held.1,
      (changes_step parsers sha256 held.1.keyedObjects event).exclusive allowed held.1 held.2⟩)
    ⟨fenced_initial now maxJobAttempts maxRawBytes, fun _ member => absurd member List.not_mem_nil⟩
  exact both.2

namespace Sample

def statute : ObjectId := ⟨['k', 'r'], "law_go_kr".toList, .nationalStatute, "001".toList⟩

/-- A historical revision of the statute. -/
def historical (id : ℕ) (revision : Char) : Enqueue :=
  { object := statute, revisionId := [revision], effectiveDate := none, installHead := false, markHeadPending := false
    sourceMetadata := ∅, observedVersion := none, launch := none, id, owners := [] }

def background : World.Claim :=
  { leaseSeconds := 600, explicitId := none, preferredDataset := none, explicitOwner := none, held := false, owners := [] }

def firstClaim : Job :=
  { id := 7, object := statute, revisionId := ['1'], effectiveDate := none, installHead := false, sourceMetadata := ∅
    expectedVersion := 1, attempts := 1 }

/-- The lease of the first claim runs out, the other job of the statute is claimed, and then the first worker asks to
wait for budget. -/
def lateDeferral : List Event :=
  [.enqueue (historical 7 '1'), .enqueue (historical 8 '2'), .claim background, .tick 601, .claim background,
    .deferBudgetClaim firstClaim 5000 true]

theorem two_live_jobs : ¬ ((World.initial 1000 1 none).run lawParsers id lateDeferral).queue.Exclusive := by
  intro exclusive
  have live : ((World.initial 1000 1 none).run lawParsers id lateDeferral).queue.jobs.map
      (fun row => (row.object, row.isLive 1601)) = [(statute, true), (statute, true)] := by decide +kernel
  have clock : ((World.initial 1000 1 none).run lawParsers id lateDeferral).queue.now = 1601 := by decide +kernel
  have ids : ((World.initial 1000 1 none).run lawParsers id lateDeferral).queue.jobs.map (·.id) = [7, 8] := by
    decide +kernel
  generalize ((World.initial 1000 1 none).run lawParsers id lateDeferral).queue = queue at *
  match jobs : queue.jobs with
  | [a, b] =>
    simp only [jobs, List.map_cons, List.map_nil, List.cons.injEq, Prod.mk.injEq, and_true] at live ids
    have same := exclusive a (by simp [jobs]) b (by simp [jobs]) (live.1.1.trans live.2.1.symm) (clock ▸ live.1.2)
      (clock ▸ live.2.2)
    rw [same] at ids
    omega
  | [] => simp [jobs] at ids
  | [_] => simp [jobs] at ids
  | _ :: _ :: _ :: _ => simp [jobs] at ids

/-- The worker asks in time, and the claim of the other job waits for the deferral. -/
def timelyDeferral : List Event :=
  [.enqueue (historical 7 '1'), .enqueue (historical 8 '2'), .claim background, .tick 500,
    .deferBudgetClaim firstClaim 5000 true, .tick 200, .claim background, .tick 4000, .claim background]

theorem steady_exclusion_timely :
    ((World.initial 1000 1 none).run lawParsers id timelyDeferral).queue.Exclusive := by
  apply steady_exclusion
  refine ⟨trivial, trivial, trivial, trivial, ?_, trivial, trivial, trivial, trivial, trivial⟩
  intro row member held _ _
  apply Or.inl
  revert row
  decide +kernel

end Sample

end OpenLegal.Corpus.Database
