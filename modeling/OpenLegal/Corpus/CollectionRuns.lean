import OpenLegal.Corpus.CollectionRequests
import OpenLegal.Rust.Result
import OpenLegal.Theory.Runs
import Mathlib.Logic.Relation

/-! # The life cycle of a collection request

A transaction changes the table in a few ways: time passes, rows are settled, one row is launched, one is queued, old
ones are deleted. What each of these keeps carries over to the transactions, and from them to every run.
-/

namespace OpenLegal.Corpus.Collection

open Rust Legal Theory
open Admission (RequestLimit)

variable {κ : Type}

theorem Status.isActive_of_isLaunched {status : Status} (launched : status.isLaunched = true) : status.isActive = true := by
  cases status <;> first | rfl | cases launched

theorem Status.isTerminal_eq (status : Status) : status.isTerminal = !status.isActive := by
  cases status <;> rfl

/-- A live row was live before. -/
theorem Row.isLive_mono {row : Row κ} {now later : ℕ} (le : now ≤ later) (live : row.isLive later = true) :
    row.isLive now = true := by
  simp only [Row.isLive, Bool.and_eq_true, Bool.or_eq_true, decide_eq_true_eq] at live ⊢
  refine ⟨live.1, live.2.imp_left ?_⟩
  omega

/-- A change that takes no row into flight: the identity and the epoch stay, a row that is live, active or launched
afterwards was so before, and a settled row stays settled. -/
structure Row.Settles (now : ℕ) (old new : Row κ) : Prop where
  id : new.id = old.id
  canonicalKey : new.canonicalKey = old.canonicalKey
  launchedAt : new.launchedAt = old.launchedAt
  live : new.isLive now = true → old.isLive now = true
  active : new.status.isActive = true → old.status.isActive = true
  launched : new.status.isLaunched = true → old.status.isLaunched = true
  final : (new.status = old.status ∧ new.payload = old.payload) ∨
    (old.status.isActive = true ∧ (new.status.isTerminal = true → new.payload = none))

/-- What a transaction does, step by step. -/
inductive Change (world : World κ) : World κ → Prop where
  | pass (now seen : ℕ) (later : world.now ≤ now) : Change world { world with now, schedulerSeenAt := seen }
  | settle (meets : Row κ → Bool) (change : Row κ → Row κ)
      (settles : ∀ row ∈ world.rows, meets row = true → row.Settles world.now (change row)) :
      Change world { world with rows := updateWhere meets change world.rows }
  | launch (row : Row κ) (launched : CollectionLaunch) (change : Row κ → Row κ) (elapsed : ℕ)
      (member : row ∈ world.rows) (live : row.isLive world.now = true)
      (room : world.rows.countP (·.status.isLaunched) < 16)
      (same : launched.id = row.id) (later : row.launchedAt.getD 0 < launched.launchedAt)
      (id : ∀ old, (change old).id = old.id) (key : ∀ old, (change old).canonicalKey = old.canonicalKey)
      (status : ∀ old, (change old).status = .launching)
      (epoch : ∀ old, (change old).launchedAt = some launched.launchedAt) :
      Change world { world with
        now := world.now + elapsed
        rows := updateWhere (fun other => other.id == row.id) change world.rows
        launches := world.launches ++ [launched] }
  | queue (row : Row κ) (fresh : row.id ∉ world.issued) (status : row.status = .queued) (epoch : row.launchedAt = none)
      (room : world.rows.countP (·.status.isActive) < 128)
      (free : ∀ old ∈ world.rows, old.canonicalKey = row.canonicalKey → old.isLive world.now = false) :
      Change world { world with rows := world.rows ++ [row], issued := row.id :: world.issued }
  | delete (keep : Row κ → Bool) : Change world { world with rows := world.rows.filter keep }

/-- The epoch of the last launch of a row. -/
def World.lastEpoch (world : World κ) (id : ℕ) : Option ℕ :=
  (world.launches.filter (·.id == id)).getLast?.map (·.launchedAt)

/-- What the table promises at every time. -/
structure World.Sound (world : World κ) : Prop where
  single : ∀ a ∈ world.rows, ∀ b ∈ world.rows, a.canonicalKey = b.canonicalKey →
    a.isLive world.now = true → b.isLive world.now = true → a = b
  launched : world.rows.countP (·.status.isLaunched) ≤ 16
  active : world.rows.countP (·.status.isActive) ≤ 128
  cleared : ∀ row ∈ world.rows, row.status.isTerminal = true → row.payload = none
  current : ∀ row ∈ world.rows, row.launchedAt = world.lastEpoch row.id
  increasing : world.launches.Pairwise fun earlier later => earlier.id = later.id → earlier.launchedAt < later.launchedAt

/-- With what the identifiers say about each other. -/
structure Invariant (world : World κ) : Prop extends world.Sound where
  keyed : Keyed Row.id world.rows
  issued : ∀ row ∈ world.rows, row.id ∈ world.issued
  known : ∀ launch ∈ world.launches, launch.id ∈ world.issued

namespace Row.Settles

variable {now : ℕ} {row : Row κ}

theorem refl : row.Settles now row :=
  ⟨rfl, rfl, rfl, fun live => live, fun active => active, fun launched => launched, .inl ⟨rfl, rfl⟩⟩

theorem stamped {old new : Row κ} (settles : old.Settles now new) :
    old.Settles now (old.stamped now new) := by
  rw [Row.stamped]
  split
  · exact { settles with }
  · exact settles

/-- A launched row is given up. -/
theorem of_launched {old new : Row κ} (launched : old.status.isLaunched = true)
    (id : new.id = old.id) (key : new.canonicalKey = old.canonicalKey) (epoch : new.launchedAt = old.launchedAt)
    (clear : new.status.isTerminal = true → new.payload = none) : old.Settles now new where
  id := id
  canonicalKey := key
  launchedAt := epoch
  live _ := by
    simp [Row.isLive, launched, Status.isActive_of_isLaunched launched]
  active _ := Status.isActive_of_isLaunched launched
  launched _ := launched
  final := .inr ⟨Status.isActive_of_isLaunched launched, clear⟩

end Row.Settles

section Changes

variable {world next : World κ}

theorem lastEpoch_mem {launch : CollectionLaunch} (inv : Invariant world) (member : launch ∈ world.launches) :
    ∃ epoch, world.lastEpoch launch.id = some epoch ∧ launch.launchedAt ≤ epoch := by
  have own : launch ∈ world.launches.filter (·.id == launch.id) := List.mem_filter.mpr ⟨member, by simp⟩
  obtain ⟨before, last, split⟩ := List.eq_nil_or_concat _ |>.resolve_left (List.ne_nil_of_mem own)
  refine ⟨last.launchedAt, ?_, ?_⟩
  · rw [World.lastEpoch, split]
    simp
  · have ordered := inv.increasing.filter (·.id == launch.id)
    have inside : last ∈ world.launches.filter (·.id == launch.id) := by simp [split]
    have sameId : last.id = launch.id := by simpa using (List.mem_filter.mp inside).2
    rw [split, List.concat_eq_append] at ordered own
    rcases List.mem_append.mp own with earlier | final
    · exact (List.pairwise_append.mp ordered).2.2 launch earlier last (by simp) sameId.symm |>.le
    · rw [List.mem_singleton.mp final]

/-- Settling keeps what a row says of its identity and epoch. -/
theorem mem_settled {meets : Row κ → Bool} {change : Row κ → Row κ}
    (settles : ∀ row ∈ world.rows, meets row = true → row.Settles world.now (change row)) {row : Row κ}
    (member : row ∈ updateWhere meets change world.rows) : ∃ old ∈ world.rows, old.Settles world.now row := by
  rcases mem_updateWhere_cases member with ⟨old, present, met, rfl⟩ | ⟨present, -⟩
  · exact ⟨old, present, settles old present met⟩
  · exact ⟨row, present, .refl⟩

theorem Invariant.pass (inv : Invariant world) {now seen : ℕ} (later : world.now ≤ now) :
    Invariant { world with now, schedulerSeenAt := seen } where
  single := by
    intro a memberA b memberB same liveA liveB
    exact inv.single a memberA b memberB same (Row.isLive_mono later liveA) (Row.isLive_mono later liveB)
  launched := inv.launched
  active := inv.active
  cleared := inv.cleared
  current := inv.current
  increasing := inv.increasing
  keyed := inv.keyed
  issued := inv.issued
  known := inv.known

theorem Invariant.settle (inv : Invariant world) {meets : Row κ → Bool} {change : Row κ → Row κ}
    (settles : ∀ row ∈ world.rows, meets row = true → row.Settles world.now (change row)) :
    Invariant { world with rows := updateWhere meets change world.rows } := by
  have keyed : Keyed Row.id (updateWhere meets change world.rows) :=
    inv.keyed.update fun row member met => (settles row member met).id
  exact {
    single := by
      intro a memberA b memberB same liveA liveB
      obtain ⟨oldA, presentA, settledA⟩ := mem_settled settles memberA
      obtain ⟨oldB, presentB, settledB⟩ := mem_settled settles memberB
      have sameOld : oldA = oldB := by
        apply inv.single oldA presentA oldB presentB
        · rw [← settledA.canonicalKey, ← settledB.canonicalKey, same]
        · exact settledA.live liveA
        · exact settledB.live liveB
      apply keyed.eq_of_key memberA memberB
      rw [settledA.id, settledB.id, sameOld]
    launched := by
      refine (countP_updateWhere_le ?_).trans inv.launched
      intro row member met
      exact (settles row member met).launched
    active := by
      refine (countP_updateWhere_le ?_).trans inv.active
      intro row member met
      exact (settles row member met).active
    cleared := by
      intro row member terminal
      obtain ⟨old, present, settled⟩ := mem_settled settles member
      rcases settled.final with ⟨status, payload⟩ | ⟨-, clear⟩
      · rw [payload]
        apply inv.cleared old present
        rw [← status, terminal]
      · exact clear terminal
    current := by
      intro row member
      obtain ⟨old, present, settled⟩ := mem_settled settles member
      rw [settled.launchedAt, settled.id]
      exact inv.current old present
    increasing := inv.increasing
    keyed
    issued := by
      intro row member
      obtain ⟨old, present, settled⟩ := mem_settled settles member
      rw [settled.id]
      exact inv.issued old present
    known := inv.known }

theorem Invariant.queue (inv : Invariant world) {row : Row κ} (fresh : row.id ∉ world.issued)
    (status : row.status = .queued) (epoch : row.launchedAt = none)
    (room : world.rows.countP (·.status.isActive) < 128)
    (free : ∀ old ∈ world.rows, old.canonicalKey = row.canonicalKey → old.isLive world.now = false) :
    Invariant { world with rows := world.rows ++ [row], issued := row.id :: world.issued } where
  single := by
    intro a memberA b memberB same liveA liveB
    rcases List.mem_append.mp memberA with oldA | newA <;> rcases List.mem_append.mp memberB with oldB | newB
    · exact inv.single a oldA b oldB same liveA liveB
    · rw [List.mem_singleton.mp newB] at same
      rw [free a oldA same] at liveA
      cases liveA
    · rw [List.mem_singleton.mp newA] at same
      rw [free b oldB same.symm] at liveB
      cases liveB
    · rw [List.mem_singleton.mp newA, List.mem_singleton.mp newB]
  launched := by
    simpa [List.countP_append, status, Status.isLaunched] using inv.launched
  active := by
    have counted : row.status.isActive = true := by rw [status]; rfl
    simp only [List.countP_append, List.countP_singleton, counted, ↓reduceIte]
    omega
  cleared := by
    intro old member terminal
    rcases List.mem_append.mp member with present | new
    · exact inv.cleared old present terminal
    · rw [List.mem_singleton.mp new, status] at terminal
      cases terminal
  current := by
    intro old member
    rcases List.mem_append.mp member with present | new
    · exact inv.current old present
    · -- no launch has the new identifier
      have none : world.launches.filter (·.id == row.id) = [] := by
        rw [List.filter_eq_nil_iff]
        intro launch launched same
        apply fresh
        rw [← beq_iff_eq.mp same]
        exact inv.known launch launched
      rw [List.mem_singleton.mp new, epoch, World.lastEpoch, none]
      rfl
  increasing := inv.increasing
  keyed := by
    apply inv.keyed.insert
    intro old member same
    apply fresh
    rw [← same]
    exact inv.issued old member
  issued := by
    intro old member
    rcases List.mem_append.mp member with present | new
    · exact List.mem_cons_of_mem _ (inv.issued old present)
    · rw [List.mem_singleton.mp new]
      exact List.mem_cons_self
  known := by
    intro launch member
    exact List.mem_cons_of_mem _ (inv.known launch member)

theorem Invariant.delete (inv : Invariant world) (keep : Row κ → Bool) :
    Invariant { world with rows := world.rows.filter keep } where
  single a memberA b memberB := inv.single a (List.mem_of_mem_filter memberA) b (List.mem_of_mem_filter memberB)
  launched := (List.Sublist.countP_le List.filter_sublist).trans inv.launched
  active := (List.Sublist.countP_le List.filter_sublist).trans inv.active
  cleared row member := inv.cleared row (List.mem_of_mem_filter member)
  current row member := inv.current row (List.mem_of_mem_filter member)
  increasing := inv.increasing
  keyed := inv.keyed.filter keep
  issued row member := inv.issued row (List.mem_of_mem_filter member)
  known := inv.known

theorem Invariant.launch (inv : Invariant world) {row : Row κ} {launched : CollectionLaunch} {change : Row κ → Row κ}
    {elapsed : ℕ} (member : row ∈ world.rows) (live : row.isLive world.now = true)
    (room : world.rows.countP (·.status.isLaunched) < 16)
    (same : launched.id = row.id) (later : row.launchedAt.getD 0 < launched.launchedAt)
    (id : ∀ old, (change old).id = old.id) (key : ∀ old, (change old).canonicalKey = old.canonicalKey)
    (status : ∀ old, (change old).status = .launching)
    (epoch : ∀ old, (change old).launchedAt = some launched.launchedAt) :
    Invariant { world with
      now := world.now + elapsed
      rows := updateWhere (fun other => other.id == row.id) change world.rows
      launches := world.launches ++ [launched] } := by
  have passed : world.now ≤ world.now + elapsed := Nat.le_add_right _ _
  have found : ∀ other ∈ updateWhere (fun other => other.id == row.id) change world.rows,
      other = change row ∨ (other ∈ world.rows ∧ other.id ≠ row.id) :=
    fun _ => inv.keyed.mem_updateWhere_key member
  exact {
    single := by
      intro a memberA b memberB equal liveA liveB
      rcases found a memberA with rfl | ⟨oldA, otherA⟩ <;> rcases found b memberB with rfl | ⟨oldB, otherB⟩
      · rfl
      · -- the claimed row was live, so no other row of its key is
        rw [key] at equal
        exact absurd (congrArg Row.id (inv.single row member b oldB equal live (Row.isLive_mono passed liveB))).symm otherB
      · rw [key] at equal
        exact absurd (congrArg Row.id (inv.single a oldA row member equal (Row.isLive_mono passed liveA) live)) otherA
      · exact inv.single a oldA b oldB equal (Row.isLive_mono passed liveA) (Row.isLive_mono passed liveB)
    launched := by
      refine (countP_updateWhere_le_succ inv.keyed row.id ?_).trans room
      intro other _ met
      exact beq_iff_eq.mp met
    active := by
      refine (countP_updateWhere_le ?_).trans inv.active
      intro other present met _
      rw [inv.keyed.eq_of_key present member (beq_iff_eq.mp met)]
      simp only [Row.isLive, Bool.and_eq_true] at live
      exact live.1
    cleared := by
      intro other present terminal
      rcases found other present with rfl | ⟨old, -⟩
      · rw [status] at terminal
        cases terminal
      · exact inv.cleared other old terminal
    current := by
      intro other present
      rcases found other present with rfl | ⟨old, different⟩
      · rw [epoch, id]
        simp [World.lastEpoch, List.filter_append, same]
      · have unseen : (launched.id == other.id) = false := by
          rw [same]
          simpa using Ne.symm different
        rw [inv.current other old]
        simp [World.lastEpoch, List.filter_append, unseen]
    increasing := by
      apply List.pairwise_append.mpr
      refine ⟨inv.increasing, List.pairwise_singleton _ _, ?_⟩
      intro earlier past final new equal
      rw [List.mem_singleton.mp new] at equal ⊢
      obtain ⟨last, lastEpoch, le⟩ := lastEpoch_mem inv past
      rw [equal, same, ← inv.current row member] at lastEpoch
      rw [lastEpoch, Option.getD_some] at later
      omega
    keyed := inv.keyed.update fun old _ _ => id old
    issued := by
      intro other present
      rcases found other present with rfl | ⟨old, -⟩
      · rw [id]
        exact inv.issued row member
      · exact inv.issued other old
    known := by
      intro launch present
      rcases List.mem_append.mp present with past | new
      · exact inv.known launch past
      · rw [List.mem_singleton.mp new, same]
        exact inv.issued row member }

theorem Change.invariant (change : Change world next) (inv : Invariant world) : Invariant next := by
  cases change with
  | pass now seen later => exact inv.pass later
  | settle meets change settles => exact inv.settle settles
  | launch row launched change elapsed member live room same later id key status epoch =>
    exact inv.launch member live room same later id key status epoch
  | queue row fresh status epoch room free => exact inv.queue fresh status epoch room free
  | delete keep => exact inv.delete keep

/-- A row that was settled is as it was, or gone. -/
def World.Settled (world : World κ) (id : ℕ) (status : Status) : Prop :=
  id ∈ world.issued ∧ ∀ row ∈ world.rows, row.id = id → row.status = status ∧ row.payload = none

theorem Change.settled (change : Change world next) (inv : Invariant world) {id : ℕ} {status : Status}
    (terminal : status.isTerminal = true) (settled : world.Settled id status) : next.Settled id status := by
  refine ⟨?_, ?_⟩
  · cases change with
    | queue row fresh status epoch room free => exact List.mem_cons_of_mem _ settled.1
    | _ => exact settled.1
  intro row member equal
  cases change with
  | pass now seen later => exact settled.2 row member equal
  | settle meets change settles =>
    obtain ⟨old, present, changed⟩ := mem_settled settles member
    obtain ⟨oldStatus, oldPayload⟩ := settled.2 old present (by rw [← changed.id, equal])
    rcases changed.final with ⟨sameStatus, samePayload⟩ | ⟨active, -⟩
    · rw [sameStatus, samePayload]
      exact ⟨oldStatus, oldPayload⟩
    · rw [oldStatus] at active
      rw [Status.isTerminal_eq, active] at terminal
      cases terminal
  | launch claimed launched change elapsed present live room same later sameId key launching epoch =>
    rcases inv.keyed.mem_updateWhere_key present member with rfl | ⟨old, -⟩
    · -- a settled row is not live
      obtain ⟨oldStatus, -⟩ := settled.2 claimed present (by rw [← sameId, equal])
      simp only [Row.isLive, Bool.and_eq_true, oldStatus] at live
      rw [Status.isTerminal_eq, live.1] at terminal
      cases terminal
    · exact settled.2 row old equal
  | queue queued fresh status epoch room free =>
    rcases List.mem_append.mp member with old | new
    · exact settled.2 row old equal
    · rw [List.mem_singleton.mp new] at equal
      rw [equal] at fresh
      exact absurd settled.1 fresh
  | delete keep => exact settled.2 row (List.mem_of_mem_filter member) equal

end Changes

theorem invariant_initial (now : ℕ) : Invariant (World.initial κ now) where
  single _ member := absurd member List.not_mem_nil
  launched := Nat.zero_le _
  active := Nat.zero_le _
  cleared _ member := absurd member List.not_mem_nil
  current _ member := absurd member List.not_mem_nil
  increasing := .nil
  keyed := List.nodup_nil
  issued _ member := absurd member List.not_mem_nil
  known _ member := absurd member List.not_mem_nil

/-- The changes of a transaction, one after another. -/
def Changes (world next : World κ) : Prop := Relation.ReflTransGen Change world next

theorem Changes.invariant {world next : World κ} (changes : Changes world next) (inv : Invariant world) :
    Invariant next := by
  induction changes with
  | refl => exact inv
  | tail _ change ih => exact change.invariant ih

theorem Changes.settled {world next : World κ} (changes : Changes world next) (inv : Invariant world) {id : ℕ}
    {status : Status} (terminal : status.isTerminal = true) (settled : world.Settled id status) :
    next.Settled id status := by
  induction changes with
  | refl => exact settled
  | tail before change ih => exact change.settled (Changes.invariant before inv) terminal ih

/-! ## Transactions -/

section Transactions

variable {world next : World κ}

theorem Changes.of_update {meets : Row κ → Bool} {change : Row κ → Row κ}
    (settles : ∀ row ∈ world.rows, meets row = true → row.Settles world.now (change row)) :
    Changes world (world.update meets change) := by
  apply Relation.ReflTransGen.single
  apply Change.settle
  intro row member met
  exact (settles row member met).stamped

theorem Row.settles_failedFor {now : ℕ} {row : Row κ} {reason : Str} (launched : row.status.isLaunched = true) :
    row.Settles now (row.failedFor reason) :=
  .of_launched launched rfl rfl rfl fun _ => rfl

theorem mem_of_claimable {row : Row κ} (found : world.claimable = some row) :
    row ∈ world.rows ∧ row.isLive world.now = true := by
  have candidate := firstBy_mem found
  simp only [List.mem_filter, Bool.and_eq_true, decide_eq_true_eq, Bool.or_eq_true, beq_iff_eq] at candidate
  obtain ⟨member, unexpired, ready⟩ := candidate
  refine ⟨member, ?_⟩
  have active : row.status.isActive = true := by
    rcases ready with queued | ⟨deferred, -⟩
    · rw [queued]
      rfl
    · rw [deferred]
      rfl
  simp [Row.isLive, active, unexpired]

theorem changes_markRunning {launch : CollectionLaunch} {jobName : Str}
    (marked : world.markCollectionLaunchRunning launch jobName = .ok next) : Changes world next := by
  simp only [World.markCollectionLaunchRunning, ite_error_eq_ok] at marked
  obtain ⟨-, -, marked⟩ := marked
  split at marked
  · cases marked
    apply Changes.of_update
    intro row member met
    simp only [Bool.and_eq_true, beq_iff_eq] at met
    apply Row.Settles.of_launched
    · rw [met.1.1.2]
      rfl
    · rfl
    · rfl
    · rfl
    · intro terminal
      cases terminal
  · split at marked
    · cases marked
    · split at marked
      · cases marked
        exact .refl
      · cases marked

theorem changes_settle {launch : CollectionLaunch} {status : Status} {reason : Option Str} {deferredUntil : Option ℕ}
    (settled : world.settleCollectionLaunch launch status reason deferredUntil = .ok next) : Changes world next := by
  simp only [World.settleCollectionLaunch, ite_error_eq_ok] at settled
  obtain ⟨accepted, settled⟩ := settled
  split at settled
  · cases settled
  simp only [ite_error_eq_ok] at settled
  obtain ⟨-, -, settled⟩ := settled
  split at settled
  · cases settled
    apply Changes.of_update
    intro row member met
    simp only [Bool.and_eq_true, beq_iff_eq] at met
    apply Row.Settles.of_launched
    · exact met.1.1.2
    · rfl
    · rfl
    · rfl
    · intro terminal
      change (if status = .deferred then row.payload else none) = none
      rw [if_neg]
      rintro rfl
      cases terminal
  · cases settled

theorem changes_failFinished {id epoch : ℕ} {jobName : Str}
    (failed : world.failFinishedCollectionLaunch id jobName epoch = .ok next) : Changes world next := by
  simp only [World.failFinishedCollectionLaunch, ite_error_eq_ok] at failed
  obtain ⟨-, failed⟩ := failed
  cases failed
  apply Changes.of_update
  intro row member met
  apply Row.settles_failedFor
  simp only [Bool.and_eq_true, Bool.or_eq_true, beq_iff_eq] at met
  rcases met.2 with ⟨status, -⟩ | ⟨status, -⟩ <;> rw [status] <;> rfl

theorem changes_reap : Changes world world.reapStaleCollectionRequests := by
  apply Changes.of_update
  intro row member met
  apply Row.settles_failedFor
  simp only [Bool.and_eq_true] at met
  exact met.1

theorem changes_claim {texts : Texts κ} {timeoutSecs elapsed : ℕ} {attemptLimit : RequestLimit} {held : Bool}
    (claimed : world.claimCollectionRequestWithPolicy texts timeoutSecs attemptLimit held elapsed = .ok next) :
    Changes world next := by
  simp only [World.claimCollectionRequestWithPolicy, ite_error_eq_ok] at claimed
  obtain ⟨-, -, claimed⟩ := claimed
  split at claimed
  · cases claimed
    exact .refl
  split at claimed
  · cases claimed
    exact .refl
  next room =>
  split at claimed
  · cases claimed
    exact .refl
  next row found =>
  split at claimed
  · cases claimed
  next request payload =>
  simp only [bind_eq_ok, ite_error_eq_ok] at claimed
  obtain ⟨-, -, -, claimed⟩ := claimed
  cases claimed
  obtain ⟨member, live⟩ := mem_of_claimable found
  apply Relation.ReflTransGen.single
  apply Change.launch row
  · exact member
  · exact live
  · exact Nat.lt_of_not_ge room
  · rfl
  · change _ < max _ (_ + 1)
    omega
  all_goals
    intro old
    simp [Row.stamped, Status.isTerminal]

theorem changes_renew {row : Row κ} (inv : Invariant world) (member : row ∈ world.rows)
    (live : row.isLive world.now = true) : Changes world (world.renew row.id) := by
  apply Changes.of_update
  intro other present met
  rw [inv.keyed.eq_of_key present member (beq_iff_eq.mp met)]
  exact ⟨rfl, rfl, rfl, fun _ => live, fun active => active, fun launched => launched, .inl ⟨rfl, rfl⟩⟩

variable [DecidableEq κ]

theorem changes_retire {canonical : κ} : Changes world (world.retire canonical) := by
  apply Changes.of_update
  intro row member met
  exact ⟨rfl, rfl, rfl, fun live => live, fun active => active, fun launched => launched, .inl ⟨rfl, rfl⟩⟩

/-- A retired row is the row as it was, under another key. -/
theorem mem_retire {canonical : κ} {row : Row κ} (member : row ∈ (world.retire canonical).rows) :
    ∃ old ∈ world.rows, row.canonicalKey = old.canonicalKey ∧ row.status = old.status ∧ row.expiresAt = old.expiresAt := by
  rcases mem_updateWhere_cases member with ⟨old, present, -, rfl⟩ | ⟨present, -⟩
  · refine ⟨old, present, ?_⟩
    simp [Row.stamped]
  · exact ⟨row, present, rfl, rfl, rfl⟩

theorem changes_insertRequest {id : ℕ} {canonical : κ} {request : CollectionRequest} {demand : Bool}
    (free : world.activeRequest canonical = none) (room : world.rows.countP (·.status.isActive) < 128)
    (fresh : id ∉ world.issued) : Changes world (world.insertRequest id canonical request demand) := by
  refine (changes_retire).tail (Change.queue (World.queuedRow world.now id canonical request demand) fresh rfl rfl ?_ ?_)
  · refine Nat.lt_of_le_of_lt (countP_updateWhere_le ?_) room
    intro row member met active
    simpa [Row.stamped] using active
  · intro row member key
    obtain ⟨old, present, sameKey, status, expiresAt⟩ := mem_retire member
    have none := List.filter_eq_nil_iff.mp (firstBy_eq_none.mp free) old present
    have owned : old.canonicalKey = canonical := by rw [← sameKey, key]; rfl
    change row.isLive world.now = false
    rw [Row.isLive, status, expiresAt]
    simpa [owned, Row.isLive] using none

theorem changes_shareOrQueue {request : CollectionRequest} {canonical : κ} {demand : Bool} {id elapsed : ℕ}
    {status : DemandCollectionStatus} (inv : Invariant world)
    (shared : world.shareOrQueue request canonical demand id elapsed = .ok (status, next)) :
    Changes world next ∧ next.now = world.now := by
  unfold World.shareOrQueue at shared
  split at shared
  · next row active =>
    simp only [bind_eq_ok] at shared
    obtain ⟨receipt, -, shared⟩ := shared
    cases shared
    have candidate := firstBy_mem active
    simp only [List.mem_filter, Bool.and_eq_true] at candidate
    cases demand with
    | true => exact ⟨.refl, rfl⟩
    | false => exact ⟨changes_renew inv candidate.1 candidate.2.2, rfl⟩
  · next free =>
    simp only [bind_eq_ok] at shared
    obtain ⟨settled, -, shared⟩ := shared
    split at shared
    · cases shared
      exact ⟨.refl, rfl⟩
    · simp only [ite_error_eq_ok] at shared
      obtain ⟨-, room, fresh, shared⟩ := shared
      cases shared
      exact ⟨changes_insertRequest free (Nat.lt_of_not_ge room) (by simpa using fresh), rfl⟩

theorem changes_request {texts : Texts κ} {request : CollectionRequest} {demand : Bool} {head : Option Head}
    {id elapsed : ℕ} {status : DemandCollectionStatus} (inv : Invariant world)
    (requested : world.requestCollectionShared texts request demand head id elapsed = .ok (status, next)) :
    Changes world next ∧ next.now = world.now := by
  simp only [World.requestCollectionShared, bind_eq_ok] at requested
  obtain ⟨-, -, requested⟩ := requested
  split at requested
  · cases requested
    exact ⟨.refl, rfl⟩
  · exact changes_shareOrQueue inv requested

theorem changes_step (texts : Texts κ) (inv : Invariant world) (event : Event) : Changes world (world.step texts event) := by
  cases event with
  | tick seconds => exact .single (.pass _ _ (Nat.le_add_right _ _))
  | heartbeat => exact .single (.pass _ _ (Nat.le_refl _))
  | request request demand head id elapsed =>
    simp only [World.step]
    split
    · next status next requested =>
      obtain ⟨changes, now⟩ := changes_request inv requested
      refine changes.tail (.pass _ next.schedulerSeenAt ?_)
      rw [now]
      exact Nat.le_add_right _ _
    · exact .refl
  | claim timeoutSecs attemptLimit held elapsed =>
    simp only [World.step]
    cases claimed : world.claimCollectionRequestWithPolicy texts timeoutSecs attemptLimit held elapsed with
    | ok next => exact changes_claim claimed
    | error error => exact .refl
  | markRunning launch jobName =>
    simp only [World.step]
    cases marked : world.markCollectionLaunchRunning launch jobName with
    | ok next => exact changes_markRunning marked
    | error error => exact .refl
  | settle launch status reason deferredUntil =>
    simp only [World.step]
    cases settled : world.settleCollectionLaunch launch status reason deferredUntil with
    | ok next => exact changes_settle settled
    | error error => exact .refl
  | failFinished id jobName epoch =>
    simp only [World.step]
    cases failed : world.failFinishedCollectionLaunch id jobName epoch with
    | ok next => exact changes_failFinished failed
    | error error => exact .refl
  | reap => exact changes_reap
  | prune => exact .single (.delete _)

theorem invariant_run (texts : Texts κ) (inv : Invariant world) (events : List Event) :
    Invariant (world.run texts events) :=
  foldl_invariant Invariant (fun _ event held => (changes_step texts held event).invariant held) events inv

/-- A settled row stays settled. -/
theorem settled_run (texts : Texts κ) {id : ℕ} {status : Status} (terminal : status.isTerminal = true)
    (inv : Invariant world) (settled : world.Settled id status) (events : List Event) :
    (world.run texts events).Settled id status := by
  have both := foldl_invariant (fun world : World κ => Invariant world ∧ world.Settled id status)
    (fun world event held => ⟨(changes_step texts held.1 event).invariant held.1,
      (changes_step texts held.1 event).settled held.1 terminal held.2⟩) events ⟨inv, settled⟩
  exact both.2

end Transactions

/-! ## Messages of an earlier launch -/

/-- The launch that an acknowledgement, a settlement or a failure speaks of. -/
def Event.launch : Event → Option (ℕ × ℕ)
  | .markRunning launch _ => some (launch.id, launch.launchedAt)
  | .settle launch _ _ _ => some (launch.id, launch.launchedAt)
  | .failFinished id _ epoch => some (id, epoch)
  | .tick _ | .heartbeat | .request _ _ _ _ _ | .claim _ _ _ _ | .reap | .prune => none

section Stale

variable {world next : World κ}

/-- No row of a later launch has the epoch of an earlier one. -/
theorem epoch_of_stale {launch : CollectionLaunch} {epoch : ℕ} (inv : Invariant world) (member : launch ∈ world.launches)
    (older : epoch < launch.launchedAt) {row : Row κ} (present : row ∈ world.rows) (same : row.id = launch.id) :
    row.launchedAt ≠ some epoch := by
  obtain ⟨last, lastEpoch, le⟩ := lastEpoch_mem inv member
  rw [inv.current row present, same, lastEpoch]
  intro equal
  cases equal
  omega

theorem markRunning_stale {launch : CollectionLaunch} {jobName : Str}
    (stale : ∀ row ∈ world.rows, row.id = launch.id → row.launchedAt ≠ some launch.launchedAt)
    (marked : world.markCollectionLaunchRunning launch jobName = .ok next) : next = world := by
  simp only [World.markCollectionLaunchRunning, ite_error_eq_ok] at marked
  obtain ⟨-, -, marked⟩ := marked
  split at marked
  · next met =>
    obtain ⟨row, present, met⟩ := List.any_eq_true.mp met
    simp only [Bool.and_eq_true, beq_iff_eq] at met
    exact absurd met.1.2 (stale row present met.1.1.1)
  · split at marked
    · cases marked
    · split at marked
      · cases marked
        rfl
      · cases marked

theorem settle_stale {launch : CollectionLaunch} {status : Status} {reason : Option Str} {deferredUntil : Option ℕ}
    (stale : ∀ row ∈ world.rows, row.id = launch.id → row.launchedAt ≠ some launch.launchedAt)
    (settled : world.settleCollectionLaunch launch status reason deferredUntil = .ok next) : next = world := by
  simp only [World.settleCollectionLaunch, ite_error_eq_ok] at settled
  obtain ⟨-, settled⟩ := settled
  split at settled
  · cases settled
  simp only [ite_error_eq_ok] at settled
  obtain ⟨-, -, settled⟩ := settled
  split at settled
  · next met =>
    obtain ⟨row, present, met⟩ := List.any_eq_true.mp met
    simp only [Bool.and_eq_true, beq_iff_eq] at met
    exact absurd met.1.2 (stale row present met.1.1.1)
  · cases settled

theorem failFinished_stale {id epoch : ℕ} {jobName : Str}
    (stale : ∀ row ∈ world.rows, row.id = id → row.launchedAt ≠ some epoch)
    (failed : world.failFinishedCollectionLaunch id jobName epoch = .ok next) : next = world := by
  simp only [World.failFinishedCollectionLaunch, ite_error_eq_ok] at failed
  obtain ⟨-, failed⟩ := failed
  cases failed
  rw [World.update, updateWhere_of_none]
  intro row present
  by_contra met
  simp only [Bool.not_eq_false, Bool.and_eq_true, beq_iff_eq] at met
  exact stale row present met.1.1 met.1.2

theorem step_stale [DecidableEq κ] (texts : Texts κ) (inv : Invariant world) {event : Event} {launch : CollectionLaunch}
    {epoch : ℕ} (carried : event.launch = some (launch.id, epoch)) (member : launch ∈ world.launches)
    (older : epoch < launch.launchedAt) : world.step texts event = world := by
  have stale : ∀ row ∈ world.rows, row.id = launch.id → row.launchedAt ≠ some epoch :=
    fun row present => epoch_of_stale inv member older present
  cases event with
  | markRunning message jobName =>
    obtain ⟨same, rfl⟩ := Prod.mk.inj (Option.some.inj carried)
    rw [← same] at stale
    simp only [World.step]
    cases marked : world.markCollectionLaunchRunning message jobName with
    | ok next => exact markRunning_stale stale marked
    | error error => rfl
  | settle message status reason deferredUntil =>
    obtain ⟨same, rfl⟩ := Prod.mk.inj (Option.some.inj carried)
    rw [← same] at stale
    simp only [World.step]
    cases settled : world.settleCollectionLaunch message status reason deferredUntil with
    | ok next => exact settle_stale stale settled
    | error error => rfl
  | failFinished id jobName failedEpoch =>
    cases carried
    simp only [World.step]
    cases failed : world.failFinishedCollectionLaunch launch.id jobName epoch with
    | ok next => exact failFinished_stale stale failed
    | error error => rfl
  | tick | heartbeat | request | claim | reap | prune => cases carried

end Stale

/-- Over every run from an empty table: the table is sound at every time, a message about an earlier launch of a row
changes nothing, and what has settled stays settled, without payload, as long as the row is there. -/
theorem collection_life_cycle [DecidableEq κ] (texts : Texts κ) (now : ℕ) (events : List Event) :
    let world := (World.initial κ now).run texts events
    world.Sound ∧
      (∀ launch ∈ world.launches, ∀ (event : Event) (epoch : ℕ), event.launch = some (launch.id, epoch) →
        epoch < launch.launchedAt → world.step texts event = world) ∧
      ∀ row ∈ world.rows, row.status.isTerminal = true → ∀ later : List Event, ∀ after ∈ (world.run texts later).rows,
        after.id = row.id → after.status = row.status ∧ after.payload = none := by
  intro world
  have inv : Invariant world := invariant_run texts (invariant_initial now) events
  refine ⟨inv.toSound, ?_, ?_⟩
  · intro launch member event epoch carried older
    exact step_stale texts inv carried member older
  · intro row member terminal later
    apply (settled_run texts terminal inv ⟨inv.issued row member, ?_⟩ later).2
    intro other present same
    rw [inv.keyed.eq_of_key present member same]
    exact ⟨rfl, inv.cleared row member terminal⟩

namespace Sample

def texts : Texts CollectionRequest :=
  { unicode := .korean, lowercase := fun text => text, digest := fun request => request }

def statute : CollectionRequest := ⟨.object ⟨['k', 'r'], "law_go_kr".toList, .nationalStatute, "001".toList⟩⟩

/-- A request is launched, deferred and launched again, and then renewed by an explicit request. -/
def relaunched : List Event :=
  let first : CollectionLaunch := ⟨7, statute, 7200, .limited 32, 100, 100⟩
  [.heartbeat, .request statute true none 7 0, .claim 7200 (.limited 32) false 0, .markRunning first ['j'],
    .settle first .deferred (some "capacity_wait".toList) (some 150), .tick 60, .claim 600 .unlimited false 1,
    .request statute false none 8 1]

/-- The late settlement of the first launch does not touch the second. -/
theorem collection_life_cycle_relaunched :
    let world := (World.initial CollectionRequest 100).run texts relaunched
    let first : CollectionLaunch := ⟨7, statute, 7200, .limited 32, 100, 100⟩
    (world.launches.map fun launch => (launch.id, launch.launchedAt)) = [(7, 100), (7, 161)] ∧ world.Sound ∧
      world.step texts (.settle first .done none none) = world := by
  intro world first
  have launches : world.launches = [first, ⟨7, statute, 600, .unlimited, 161, 161⟩] := by decide +kernel
  obtain ⟨sound, stale, -⟩ := collection_life_cycle texts 100 relaunched
  refine ⟨?_, sound, ?_⟩
  · rw [launches]
    rfl
  · apply stale ⟨7, statute, 600, .unlimited, 161, 161⟩ _ _ 100 rfl (by decide)
    change _ ∈ world.launches
    rw [launches]
    exact List.mem_cons_of_mem _ List.mem_cons_self

end Sample

end OpenLegal.Corpus.Collection
