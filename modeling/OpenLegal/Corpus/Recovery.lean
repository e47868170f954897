import OpenLegal.Corpus.Availability
import OpenLegal.Theory.Indexed
import OpenLegal.Theory.Runs
import Mathlib.Data.Nat.ModEq

/-! # Recovery and shutdown of the corpus store

A failed store becomes healthy by a proof that no failure postdates and while no work is pending, and a drained
store has confirmed every commit. Both rest on the same bookkeeping: the counts are counts of the work not yet
given back, and an armed guard is dropped before its work is.
-/

namespace OpenLegal.Corpus

open Legal Theory

namespace World

/-- A failure has raised the generation and not yet stored its flag. -/
def midFailure (world : World) : Bool := world.transition.any fun failing => failing.progress = .storing

/-- When `complete` does not read the flag of a failure that its probe already counted, and the generation does
not come round to the value a probe has read. -/
def Steady (world : World) : Event → Prop
  | .completeHealth id =>
    ∀ probe, world.probes[id]? = some probe → world.work.pending ≠ 0 → world.failed = false →
      world.uncertain = false → world.midFailure = true → probe.generation ≠ world.generation
  | .reopen _ => ∀ proof, world.completing = some proof → world.recorded < proof.recorded + 2 ^ 64
  | _ => True

end World

/-- The counts of `WorkState`. -/
structure Counted (world : World) : Prop where
  pending : world.work.pending = world.works.countP (·.stage ≠ .released)
  commits : world.work.commits = world.works.countP fun work => work.kind.isCommit && work.stage ≠ .released
  bounded : world.work.commits ≤ world.lastLimit

/-- An armed guard that is gone has left its mark. -/
structure Guarded (world : World) : Prop where
  owner : ∀ failing id, world.transition = some failing → failing.owner = some id →
    ∃ work, world.works[id]? = some work ∧ work.stage = .unguarding
  marked : ∀ failing id, world.transition = some failing → failing.owner = some id → failing.progress ≠ .marking →
    world.uncertain = true
  gone : ∀ (id : ℕ) (work : Work), world.works[id]? = some work → work.kind = .commit true →
    work.stage = .unguarded ∨ work.stage = .released → world.uncertain = true
  armed : world.tracksFailures = true → ∀ (id : ℕ) (work : Work) (armed : Bool), world.works[id]? = some work →
    work.kind = .commit armed → armed = !work.confirmed

/-- What a probe has read is the generation of its moment. -/
def Dated (world : World) (probe : Probe) : Prop :=
  probe.recorded ≤ world.recorded ∧ probe.generation = probe.recorded % 2 ^ 64

/-- The lock `work` is held by a `complete` that found the store open, and idle if it was failed. -/
structure Proved (world : World) : Prop where
  generation : world.generation = world.recorded % 2 ^ 64
  probes : ∀ (id : ℕ) (probe : Probe), world.probes[id]? = some probe → Dated world probe
  completing : ∀ proof, world.completing = some proof → Dated world proof
  opened : ∀ proof, world.completing = some proof → world.work.closing = false
  idle : ∀ proof, world.completing = some proof →
    world.work.pending = 0 ∨ proof.recorded < world.recorded ∨ world.uncertain = true ∨
      (world.failed = false ∧ world.midFailure = false)

structure Drained (world : World) : Prop where
  closed : ∀ (id : ℕ) (drain : Drain), world.drains[id]? = some drain → drain ≠ .waiting →
    world.work.closing = true ∧ world.work.pending = 0
  confirmed : ∀ id : ℕ, world.drains[id]? = some (.returned (.ok ())) → world.tracksFailures = true →
    ∀ (other : ℕ) (work : Work), world.works[other]? = some work → work.kind.isCommit = true → work.confirmed = true

structure Invariant (world : World) : Prop extends Counted world, Guarded world, Proved world, Drained world

namespace Invariant

variable {world : World} {id : ℕ}

/-- No drain has passed a store that is still open. -/
theorem undrained (invariant : Invariant world) (opened : world.work.closing = false) {drain : Drain}
    (found : world.drains[id]? = some drain) : drain = .waiting := by
  by_contra late
  have := (invariant.closed id drain found late).1
  rw [opened] at this
  cases this

theorem enterWork_ok {work entered : WorkState} {limit : Option ℕ} (ok : work.enterWork limit = .ok entered) :
    work.closing = false ∧ entered.closing = false ∧ entered.pending = work.pending + 1 ∧
      entered.commits = work.commits + limit.isSome.toNat ∧ ∀ bound, limit = some bound → entered.commits ≤ bound := by
  unfold WorkState.enterWork at ok
  by_cases closing : work.closing = true
  · rw [if_pos closing] at ok
    cases ok
  · by_cases full : limit.any (work.commits ≥ ·) = true
    · rw [if_neg closing, if_pos full] at ok
      cases ok
    · rw [if_neg closing, if_neg full] at ok
      cases ok
      refine ⟨by simpa using closing, by simpa using closing, rfl, ?_, ?_⟩
      · cases limit <;> rfl
      · rintro bound rfl
        simp only [Option.any_some, decide_eq_true_eq] at full
        change work.commits + 1 ≤ bound
        omega

/-- Admission of fresh work. -/
theorem admission {work : WorkState} {owned : Work} {limit : Option ℕ} {lastLimit : ℕ} (invariant : Invariant world)
    (free : world.completing = none) (ok : world.work.enterWork limit = .ok work) (held : owned.stage = .held)
    (kind : owned.kind.isCommit = limit.isSome) (last : lastLimit = limit.getD world.lastLimit)
    (armed : world.tracksFailures = true → ∀ armed, owned.kind = .commit armed → armed = !owned.confirmed) :
    Invariant { world with work, works := world.works ++ [owned], lastLimit } := by
  obtain ⟨opened, stays, pending, commits, bound⟩ := enterWork_ok ok
  constructor
  · constructor
    · simp [pending, invariant.pending, held]
    · simp only [commits, invariant.commits, List.countP_append, List.countP_singleton, kind, held]
      cases limit <;> simp
    · cases limit with
      | none =>
        have := invariant.bounded
        simp only [last, commits, Option.isSome_none, Bool.toNat_false, Nat.add_zero, Option.getD_none]
        exact this
      | some limit =>
        rw [last]
        exact bound limit rfl
  · constructor
    · intro failing id holds owner
      obtain ⟨work, found, stage⟩ := invariant.owner failing id holds owner
      exact ⟨work, (List.getElem?_append_left (lt_length_of_getElem? found)).trans found, stage⟩
    · exact invariant.marked
    · intro id work found kind stage
      rcases getElem?_concat_cases found with ⟨-, rfl⟩ | old
      · rw [held] at stage
        rcases stage with stage | stage <;> cases stage
      · exact invariant.gone id work old kind stage
    · intro tracks id work flag found commit
      rcases getElem?_concat_cases found with ⟨-, rfl⟩ | old
      · exact armed tracks flag commit
      · exact invariant.armed tracks id work flag old commit
  · constructor
    · exact invariant.generation
    · exact invariant.probes
    · exact invariant.completing
    · intro proof holds
      rw [free] at holds
      cases holds
    · intro proof holds
      rw [free] at holds
      cases holds
  · constructor
    · intro id drain found late
      exact absurd (invariant.undrained opened found) late
    · intro id found
      cases invariant.undrained opened found

theorem enter (invariant : Invariant world) : Invariant world.enter := by
  unfold World.enter
  split_ifs with locked
  · exact invariant
  · split
    · exact invariant
    · next work ok =>
      apply invariant.admission (by simpa using locked) ok rfl rfl rfl
      intro _ armed commit
      cases commit

theorem ownedCommit (invariant : Invariant world) (limit : ℕ) : Invariant (world.ownedCommit limit) := by
  unfold World.ownedCommit
  split_ifs with locked
  · exact invariant
  · split
    · exact invariant
    · next work ok =>
      apply invariant.admission (by simpa using locked) ok rfl rfl rfl
      intro tracks armed commit
      cases commit
      exact tracks

/-- Work changes its stage or its guard without being given back. -/
theorem replace {old new : Work} {transition : Option Failing} (invariant : Invariant world)
    (found : world.works[id]? = some old) (out : old.stage ≠ .released) (stays : new.stage ≠ .released)
    (kind : new.kind.isCommit = old.kind.isCommit)
    (owner : ∀ failing other, transition = some failing → failing.owner = some other →
      (other = id ∧ new.stage = .unguarding ∧ failing.progress = .marking) ∨
        (other ≠ id ∧ world.transition = some failing))
    (same : transition = world.transition ∨ world.transition = none ∧ transition.all (·.progress = .marking) = true)
    (gone : new.kind = .commit true → new.stage = .unguarded → world.uncertain = true)
    (armed : world.tracksFailures = true → ∀ armed, new.kind = .commit armed → armed = !new.confirmed)
    (keeps : old.confirmed = true → new.confirmed = true) :
    Invariant { world with transition, works := world.works.set id new } := by
  have counts (p : Work → Bool) (equal : p new = p old) :
      (world.works.set id new).countP p = world.works.countP p := by
    have := countP_set_add found new p
    rw [equal] at this
    omega
  constructor
  · constructor
    · rw [counts _ (by simp [out, stays])]
      exact invariant.pending
    · rw [counts _ (by simp [out, stays, kind])]
      exact invariant.commits
    · exact invariant.bounded
  · constructor
    · intro failing other holds owns
      rcases owner failing other holds owns with ⟨rfl, stage, -⟩ | ⟨different, before⟩
      · exact ⟨new, List.getElem?_set_self (lt_length_of_getElem? found), stage⟩
      · obtain ⟨work, present, stage⟩ := invariant.owner failing other before owns
        exact ⟨work, (List.getElem?_set_ne (Ne.symm different)).trans present, stage⟩
    · intro failing other holds owns progress
      rcases owner failing other holds owns with ⟨-, -, marking⟩ | ⟨-, before⟩
      · exact absurd marking progress
      · exact invariant.marked failing other before owns progress
    · intro other work present commit stage
      rcases getElem?_set_cases present with ⟨-, rfl⟩ | ⟨-, before⟩
      · exact gone commit (stage.resolve_right stays)
      · exact invariant.gone other work before commit stage
    · intro tracks other work flag present commit
      rcases getElem?_set_cases present with ⟨-, rfl⟩ | ⟨-, before⟩
      · exact armed tracks flag commit
      · exact invariant.armed tracks other work flag before commit
  · constructor
    · exact invariant.generation
    · exact invariant.probes
    · exact invariant.completing
    · exact invariant.opened
    · intro proof holds
      rcases invariant.idle proof holds with idle | later | uncertain | ⟨sound, quiet⟩
      · exact .inl idle
      · exact .inr (.inl later)
      · exact .inr (.inr (.inl uncertain))
      · refine .inr (.inr (.inr ⟨sound, ?_⟩))
        rcases same with rfl | ⟨-, marking⟩
        · exact quiet
        · simp only [World.midFailure, Option.any_eq_false]
          intro failing present
          have := (Option.all_eq_true _ _).mp marking failing present
          simp_all
  · constructor
    · exact invariant.closed
    · intro drain returned tracks other work present commit
      rcases getElem?_set_cases present with ⟨-, rfl⟩ | ⟨-, before⟩
      · exact keeps (invariant.confirmed drain returned tracks id old found (kind ▸ commit))
      · exact invariant.confirmed drain returned tracks other work before commit

/-- The owner of a recorded failure is in the midst of its drop. -/
theorem not_owner (invariant : Invariant world) {work : Work} (found : world.works[id]? = some work)
    (stage : work.stage ≠ .unguarding) {failing : Failing} {other : ℕ} (holds : world.transition = some failing)
    (owns : failing.owner = some other) : other ≠ id := by
  rintro rfl
  obtain ⟨owned, present, unguarding⟩ := invariant.owner failing other holds owns
  rw [found, Option.some.injEq] at present
  exact stage (present ▸ unguarding)

theorem confirm (invariant : Invariant world) (id : ℕ) : Invariant (world.confirm id) := by
  unfold World.confirm
  split
  · next armed confirmed found =>
    apply invariant.replace found (by simp) (by simp) (by rfl)
    · intro failing other holds owns
      exact .inr ⟨invariant.not_owner found (by simp) holds owns, holds⟩
    · exact .inl rfl
    · intro commit
      cases commit
    · intro _ armed commit
      cases commit
      rfl
    · intro _
      rfl
  · exact invariant

theorem release {work : Work} (invariant : Invariant world) (found : world.works[id]? = some work)
    (stage : work.stage = .unguarded ∨ (work.stage = .held ∧ work.kind = .mutation)) :
    Invariant (world.release id work) := by
  unfold World.release
  by_cases locked : world.completing.isSome = true
  · rw [if_pos locked]
    exact invariant
  rw [if_neg locked]
  have free : world.completing = none := by simpa using locked
  have out : work.stage ≠ .released := by
    rcases stage with stage | ⟨stage, -⟩ <;> simp [stage]
  have calm : work.stage ≠ .unguarding := by
    rcases stage with stage | ⟨stage, -⟩ <;> simp [stage]
  have pending := countP_set_add found { work with stage := .released } (·.stage ≠ .released)
  have commits := countP_set_add found { work with stage := .released }
    fun work => work.kind.isCommit && work.stage ≠ .released
  simp only [ne_eq, out, not_false_eq_true, decide_true, Bool.toNat_true, not_true_eq_false, decide_false,
    Bool.toNat_false, Bool.and_true, Bool.and_false] at pending commits
  constructor
  · constructor
    · simp only [ne_eq, invariant.pending]
      omega
    · cases commit : work.kind.isCommit
      · simp only [commit, Bool.toNat_false, Bool.false_eq_true, ↓reduceIte, invariant.commits, ne_eq] at commits ⊢
        omega
      · simp only [commit, Bool.toNat_true, ↓reduceIte, invariant.commits, ne_eq] at commits ⊢
        omega
    · have := invariant.bounded
      dsimp only
      split_ifs <;> omega
  · constructor
    · intro failing other holds owns
      obtain ⟨owned, present, unguarding⟩ := invariant.owner failing other holds owns
      have different := invariant.not_owner found calm holds owns
      exact ⟨owned, (List.getElem?_set_ne (Ne.symm different)).trans present, unguarding⟩
    · exact invariant.marked
    · intro other changed present commit _
      rcases getElem?_set_cases present with ⟨-, rfl⟩ | ⟨-, before⟩
      · rcases stage with stage | ⟨-, mutation⟩
        · exact invariant.gone id work found commit (.inl stage)
        · rw [mutation] at commit
          cases commit
      · exact invariant.gone other changed before commit ‹_›
    · intro tracks other changed flag present commit
      rcases getElem?_set_cases present with ⟨-, rfl⟩ | ⟨-, before⟩
      · exact invariant.armed tracks id work flag found commit
      · exact invariant.armed tracks other changed flag before commit
  · constructor
    · exact invariant.generation
    · exact invariant.probes
    · exact invariant.completing
    · exact invariant.opened
    · intro proof holds
      rw [free] at holds
      cases holds
  · constructor
    · intro other drain present late
      obtain ⟨closed, none⟩ := invariant.closed other drain present late
      refine ⟨closed, ?_⟩
      simp [none]
    · intro drain returned tracks other changed present commit
      rcases getElem?_set_cases present with ⟨-, rfl⟩ | ⟨-, before⟩
      · exact invariant.confirmed drain returned tracks id work found commit
      · exact invariant.confirmed drain returned tracks other changed before commit

theorem dropWork (invariant : Invariant world) (id : ℕ) : Invariant (world.dropWork id) := by
  unfold World.dropWork
  split
  · exact invariant
  · next work found =>
    split
    · next held =>
      split
      · next mutation => exact invariant.release found (.inr ⟨held, mutation⟩)
      · next commit =>
        split_ifs with locked
        · exact invariant
        · have free : world.transition = none := by simpa using locked
          apply invariant.replace found (by simp [held]) (by simp) (by rfl)
          · rintro failing other ⟨⟩ ⟨⟩
            exact .inl ⟨rfl, rfl, rfl⟩
          · exact .inr ⟨free, by simp⟩
          · intro _ stage
            cases stage
          · intro tracks armed same
            exact invariant.armed tracks id work armed found same
          · exact fun confirmed => confirmed
      · next commit =>
        apply invariant.replace found (by simp [held]) (by simp) (by rfl)
        · intro failing other holds owns
          exact .inr ⟨invariant.not_owner found (by simp [held]) holds owns, holds⟩
        · exact .inl rfl
        · intro armed
          rw [commit] at armed
          cases armed
        · intro tracks armed same
          exact invariant.armed tracks id work armed found same
        · exact fun confirmed => confirmed
    · exact invariant
    · next unguarded => exact invariant.release found (.inl unguarded)
    · exact invariant

theorem lock {progress : Progress} (invariant : Invariant world) (begins : progress ≠ .storing) :
    Invariant (world.lock progress) := by
  unfold World.lock
  split_ifs
  · constructor
    · exact { invariant.toCounted with }
    · constructor
      · rintro failing id ⟨⟩ owns
        cases owns
      · rintro failing id ⟨⟩ owns
        cases owns
      · exact invariant.gone
      · exact invariant.armed
    · constructor
      · exact invariant.generation
      · exact invariant.probes
      · exact invariant.completing
      · exact invariant.opened
      · intro proof holds
        rcases invariant.idle proof holds with idle | later | uncertain | ⟨sound, -⟩
        · exact .inl idle
        · exact .inr (.inl later)
        · exact .inr (.inr (.inl uncertain))
        · exact .inr (.inr (.inr ⟨sound, by simp [World.midFailure, begins]⟩))
    · exact { invariant.toDrained with }
  · exact invariant

/-- The last access of a failure: the flag is stored, and the drop it is part of goes on. -/
theorem store {failing : Failing} (invariant : Invariant world) (holds : world.transition = some failing)
    (storing : failing.progress = .storing) : Invariant world.advance := by
  have flagged : Invariant { world with failed := true, transition := none } := by
    constructor
    · exact { invariant.toCounted with }
    · constructor
      · intro failing id holds
        cases holds
      · intro failing id holds
        cases holds
      · exact invariant.gone
      · exact invariant.armed
    · constructor
      · exact invariant.generation
      · exact invariant.probes
      · exact invariant.completing
      · exact invariant.opened
      · intro proof completes
        rcases invariant.idle proof completes with idle | later | uncertain | ⟨-, quiet⟩
        · exact .inl idle
        · exact .inr (.inl later)
        · exact .inr (.inr (.inl uncertain))
        · simp [World.midFailure, holds, storing] at quiet
    · exact { invariant.toDrained with }
  cases owner : failing.owner with
  | none =>
    simp only [World.advance, holds, storing, owner]
    exact flagged
  | some id =>
    obtain ⟨work, found, unguarding⟩ := invariant.owner failing id holds owner
    have uncertain := invariant.marked failing id holds owner (by simp [storing])
    have set : (world.works.modify id fun work => { work with stage := .unguarded }) =
        world.works.set id { work with stage := .unguarded } := by
      rw [List.modify_eq_set_getElem?, found]
      rfl
    simp only [World.advance, holds, storing, owner, set]
    apply flagged.replace found (by simp [unguarding]) (by simp) (by rfl)
    · intro other id nobody
      cases nobody
    · exact .inl rfl
    · intro _ _
      exact uncertain
    · intro tracks armed commit
      exact invariant.armed tracks id work armed found commit
    · exact fun confirmed => confirmed

theorem Dated.later {probe : Probe} (dated : Dated world probe) {later : World} (more : world.recorded ≤ later.recorded) :
    Dated later probe :=
  ⟨dated.1.trans more, dated.2⟩

theorem advance (invariant : Invariant world) : Invariant world.advance := by
  cases holds : world.transition with
  | none =>
    simp only [World.advance, holds]
    exact invariant
  | some failing =>
    cases progress : failing.progress with
    | marking =>
      simp only [World.advance, holds, progress]
      constructor
      · exact { invariant.toCounted with }
      · constructor
        · rintro next id ⟨⟩ owns
          exact invariant.owner failing id holds owns
        · intro _ _ _ _ _
          rfl
        · intro _ _ _ _ _
          rfl
        · exact invariant.armed
      · constructor
        · exact invariant.generation
        · exact invariant.probes
        · exact invariant.completing
        · exact invariant.opened
        · intro proof _
          exact .inr (.inr (.inl rfl))
      · exact { invariant.toDrained with }
    | counting =>
      simp only [World.advance, holds, progress]
      constructor
      · exact { invariant.toCounted with }
      · constructor
        · rintro next id ⟨⟩ owns
          exact invariant.owner failing id holds owns
        · rintro next id ⟨⟩ owns _
          exact invariant.marked failing id holds owns (by simp [progress])
        · exact invariant.gone
        · exact invariant.armed
      · constructor
        · simp only [invariant.generation, Nat.mod_add_mod]
        · intro id probe found
          exact Dated.later (invariant.probes id probe found) (Nat.le_succ _)
        · intro proof completes
          exact Dated.later (invariant.completing proof completes) (Nat.le_succ _)
        · exact invariant.opened
        · intro proof completes
          exact .inr (.inl (Nat.lt_succ_of_le (invariant.completing proof completes).1))
      · exact { invariant.toDrained with }
    | storing => exact invariant.store holds progress

/-- Probes come and go. -/
theorem probe {probes : List Probe} (invariant : Invariant world)
    (dated : ∀ (id : ℕ) (probe : Probe), probes[id]? = some probe → Dated world probe) :
    Invariant { world with probes } := by
  constructor
  · exact { invariant.toCounted with }
  · exact { invariant.toGuarded with }
  · exact { invariant.toProved with probes := dated }
  · exact { invariant.toDrained with }

theorem set_probe {new : Probe} (invariant : Invariant world) (dated : Dated world new) :
    Invariant { world with probes := world.probes.set id new } := by
  apply invariant.probe
  intro other probe found
  rcases getElem?_set_cases found with ⟨-, rfl⟩ | ⟨-, before⟩
  · exact dated
  · exact invariant.probes other probe before

theorem probeHealth (invariant : Invariant world) : Invariant world.probeHealth := by
  unfold World.probeHealth
  split_ifs
  · exact invariant
  · apply invariant.probe
    intro id probe found
    rcases getElem?_concat_cases found with ⟨-, rfl⟩ | before
    · exact ⟨Nat.zero_le _, rfl⟩
    · exact invariant.probes id probe before

theorem probeReads (invariant : Invariant world) (id : ℕ) : Invariant (world.probeReads id) := by
  unfold World.probeReads
  split
  · apply invariant.set_probe
    exact ⟨le_rfl, invariant.generation⟩
  · exact invariant

theorem probeEnds (invariant : Invariant world) (id : ℕ) (proved : Bool) :
    Invariant (world.probeEnds id proved) := by
  unfold World.probeEnds
  split
  · next generation recorded found =>
    have dated := invariant.probes id _ found
    exact invariant.set_probe dated
  · exact invariant

theorem completeHealth (invariant : Invariant world) (id : ℕ) (steady : world.Steady (.completeHealth id)) :
    Invariant (world.completeHealth id) := by
  unfold World.completeHealth
  split
  · next generation recorded found =>
    have dated := invariant.probes id _ found
    have spent : Invariant { world with probes := world.probes.set id { generation, recorded, state := .spent } } :=
      invariant.set_probe dated
    dsimp only
    split_ifs with locked blocked refused
    · exact invariant
    · exact spent
    · exact spent
    · simp only [Bool.or_eq_true, Bool.and_eq_true, not_or, not_and, Bool.not_eq_true] at refused
      constructor
      · exact { spent.toCounted with }
      · exact { spent.toGuarded with }
      · constructor
        · exact spent.generation
        · exact spent.probes
        · rintro proof ⟨⟩
          exact dated
        · rintro proof ⟨⟩
          exact refused.1
        · rintro proof ⟨⟩
          by_cases pending : world.work.pending = 0
          · exact .inl pending
          have sound : world.failed = false := by
            by_contra failed
            have idle := refused.2 (by simpa using failed)
            simp [pending] at idle
          cases uncertain : world.uncertain with
          | true => exact .inr (.inr (.inl rfl))
          | false =>
            cases quiet : world.midFailure with
            | false => exact .inr (.inr (.inr ⟨sound, quiet⟩))
            | true =>
              have other := steady _ found pending sound uncertain quiet
              rw [dated.2, invariant.generation] at other
              exact .inr (.inl (lt_of_le_of_ne dated.1 fun same => other (congrArg (· % 2 ^ 64) same)))
      · exact { spent.toDrained with }
  · exact invariant

/-- `complete` gives the lock of the work back. -/
theorem unlock {failed : Bool} {recoveries : ℕ} (invariant : Invariant world) :
    Invariant { world with completing := none, failed, recoveries } := by
  constructor
  · exact { invariant.toCounted with }
  · exact { invariant.toGuarded with }
  · constructor
    · exact invariant.generation
    · exact invariant.probes
    · intro proof nobody
      cases nobody
    · intro proof nobody
      cases nobody
    · intro proof nobody
      cases nobody
  · exact { invariant.toDrained with }

theorem reopen (invariant : Invariant world) (cancelled : Bool) : Invariant (world.reopen cancelled) := by
  unfold World.reopen
  split
  · exact invariant
  · by_cases locked : world.transition.isSome = true
    · rw [if_pos locked]
      exact invariant
    · rw [if_neg locked]
      split
      · exact invariant.unlock
      · split
        · exact invariant.unlock
        · exact invariant.unlock

theorem close (invariant : Invariant world) (free : world.completing = none) :
    Invariant { world with work := { world.work with closing := true } } := by
  constructor
  · exact { invariant.toCounted with }
  · exact { invariant.toGuarded with }
  · constructor
    · exact invariant.generation
    · exact invariant.probes
    · exact invariant.completing
    · intro proof holds
      rw [free] at holds
      cases holds
    · exact invariant.idle
  · constructor
    · intro other drain present late
      exact ⟨rfl, (invariant.closed other drain present late).2⟩
    · exact invariant.confirmed

theorem closeAndDrain (invariant : Invariant world) (id : ℕ) : Invariant (world.closeAndDrain id) := by
  unfold World.closeAndDrain
  split
  · next found =>
    split_ifs with locked empty
    · exact invariant
    · have closed := invariant.close (by simpa using locked)
      constructor
      · exact { closed.toCounted with }
      · exact { closed.toGuarded with }
      · exact { closed.toProved with }
      · constructor
        · intro _ _ _ _
          exact ⟨rfl, empty⟩
        · intro other returned
          rcases getElem?_set_cases returned with ⟨-, impossible⟩ | ⟨-, before⟩
          · cases impossible
          · exact invariant.confirmed other before
    · exact invariant.close (by simpa using locked)
  · exact invariant

/-- With no work pending and no uncertainty, every guard was disarmed before its work was given back. -/
theorem all_confirmed (invariant : Invariant world) (tracks : world.tracksFailures = true)
    (empty : world.work.pending = 0) (certain : world.uncertain = false) (other : ℕ) (work : Work)
    (found : world.works[other]? = some work) (commit : work.kind.isCommit = true) : work.confirmed = true := by
  have released : work.stage = .released := by
    rw [invariant.pending, List.countP_eq_zero] at empty
    simpa using empty work (List.mem_of_getElem? found)
  cases kind : work.kind with
  | mutation =>
    rw [kind] at commit
    cases commit
  | commit armed =>
    cases armed with
    | true =>
      have := invariant.gone other work found kind (.inr released)
      rw [certain] at this
      cases this
    | false =>
      have := invariant.armed tracks other work false found kind
      simpa using this

theorem drainReads (invariant : Invariant world) (id : ℕ) : Invariant (world.drainReads id) := by
  unfold World.drainReads
  split
  · next found =>
    obtain ⟨closed, empty⟩ := invariant.closed id .drained found (by simp)
    constructor
    · exact { invariant.toCounted with }
    · exact { invariant.toGuarded with }
    · exact { invariant.toProved with }
    · constructor
      · intro _ _ _ _
        exact ⟨closed, empty⟩
      · intro other returned tracks
        rcases getElem?_set_cases returned with ⟨-, result⟩ | ⟨-, before⟩
        · apply invariant.all_confirmed tracks empty
          by_contra uncertain
          simp only [Bool.not_eq_false] at uncertain
          simp [uncertain] at result
        · exact invariant.confirmed other before tracks
  · exact invariant

theorem step {event : Event} (invariant : Invariant world) (steady : world.Steady event) :
    Invariant (world.step event) := by
  cases event with
  | enter => exact invariant.enter
  | ownedCommit limit => exact invariant.ownedCommit limit
  | confirm id => exact invariant.confirm id
  | dropWork id => exact invariant.dropWork id
  | fail => exact invariant.lock (by simp)
  | failUncertain => exact invariant.lock (by simp)
  | advance => exact invariant.advance
  | corrupt =>
    exact { invariant.toCounted, invariant.toGuarded, invariant.toProved, invariant.toDrained with }
  | probeHealth => exact invariant.probeHealth
  | probeReads id => exact invariant.probeReads id
  | probeEnds id proved => exact invariant.probeEnds id proved
  | completeHealth id => exact invariant.completeHealth id steady
  | reopen cancelled => exact invariant.reopen cancelled
  | drainStorageWork =>
    constructor
    · exact { invariant.toCounted with }
    · exact { invariant.toGuarded with }
    · exact { invariant.toProved with }
    · constructor
      · intro id drain found late
        rcases getElem?_concat_cases found with ⟨-, rfl⟩ | before
        · exact absurd rfl late
        · exact invariant.closed id drain before late
      · intro id found
        rcases getElem?_concat_cases found with ⟨-, impossible⟩ | before
        · cases impossible
        · exact invariant.confirmed id before
  | closeAndDrain id => exact invariant.closeAndDrain id
  | drainReads id => exact invariant.drainReads id

end Invariant

namespace World

variable {world : World} {event : Event}

theorem initial_invariant (tracksFailures : Bool) : Invariant (initial tracksFailures) := by
  constructor
  · exact ⟨rfl, rfl, le_rfl⟩
  · constructor
    · intro failing id nobody
      cases nobody
    · intro failing id nobody
      cases nobody
    · intro id work nothing
      cases nothing
    · intro _ id work armed nothing
      cases nothing
  · constructor
    · rfl
    · intro id probe nothing
      cases nothing
    · intro proof nobody
      cases nobody
    · intro proof nobody
      cases nobody
    · intro proof nobody
      cases nobody
  · constructor
    · intro id drain nothing
      cases nothing
    · intro id nothing
      cases nothing

theorem release_frame (world : World) (id : ℕ) (work : Work) :
    (world.release id work).uncertain = world.uncertain ∧ (world.release id work).failed = world.failed ∧
      (world.release id work).work.closing = world.work.closing ∧
      (world.release id work).works.length = world.works.length := by
  by_cases locked : world.completing.isSome = true
  · rw [release, if_pos locked]
    exact ⟨rfl, rfl, rfl, rfl⟩
  · rw [release, if_neg locked]
    exact ⟨rfl, rfl, rfl, List.length_set⟩

theorem step_uncertain (uncertain : world.uncertain = true) (event : Event) :
    (world.step event).uncertain = true := by
  cases event with
  | dropWork id =>
    simp only [step, dropWork]
    repeat' split
    all_goals simp [release_frame, uncertain]
  | advance =>
    simp only [step, advance]
    repeat' split
    all_goals simp [uncertain]
  | _ =>
    simp only [step, enter, ownedCommit, confirm, fail, failUncertain, lock, probeHealth, probeReads, probeEnds,
      completeHealth, reopen, closeAndDrain, drainReads]
    repeat' split
    all_goals exact uncertain

/-- A closed store stays closed and takes no new work. -/
theorem step_closing (closing : world.work.closing = true) (event : Event) :
    (world.step event).work.closing = true ∧ (world.step event).works.length = world.works.length := by
  have refused (limit : Option ℕ) : world.work.enterWork limit = .error .storageUnavailable := by
    rw [WorkState.enterWork, if_pos closing]
  cases event with
  | enter => simp [step, enter, refused, closing]
  | ownedCommit limit => simp [step, ownedCommit, refused, closing]
  | dropWork id =>
    simp only [step, dropWork]
    repeat' split
    all_goals simp [release_frame, closing]
  | advance =>
    simp only [step, advance]
    repeat' split
    all_goals simp [closing]
  | _ =>
    simp only [step, confirm, fail, failUncertain, lock, probeHealth, probeReads, probeEnds, completeHealth, reopen,
      closeAndDrain, drainReads]
    repeat' split
    all_goals simp [closing]

/-- The flag is cleared in one place. -/
theorem failed_step (failed : world.failed = true) (clears : (world.step event).failed = false) :
    ∃ proof, event = .reopen false ∧ world.completing = some proof ∧ world.uncertain = false ∧
      world.generation = proof.generation := by
  cases event with
  | reopen cancelled =>
    simp only [step, reopen] at clears
    cases completing : world.completing with
    | none => simp [completing, failed] at clears
    | some proof =>
      simp only [completing] at clears
      by_cases locked : world.transition.isSome = true
      · simp [if_pos locked, failed] at clears
      · rw [if_neg locked] at clears
        split at clears
        · simp [failed] at clears
        · next goes =>
          split at clears
          · simp [failed] at clears
          · next holds =>
            simp only [ne_eq, Bool.or_eq_true, decide_eq_true_eq, not_or, Bool.not_eq_true, not_not] at holds goes
            exact ⟨proof, by rw [goes], rfl, holds⟩
  | dropWork id =>
    simp only [step, dropWork] at clears
    repeat' split at clears
    all_goals simp [release_frame, failed] at clears
  | advance =>
    simp only [step, advance] at clears
    repeat' split at clears
    all_goals simp [failed] at clears
  | _ =>
    simp only [step, enter, ownedCommit, confirm, fail, failUncertain, lock, probeHealth, probeReads, probeEnds,
      completeHealth, closeAndDrain, drainReads] at clears
    repeat' split at clears
    all_goals simp [failed] at clears

end World

/-- What holds in a reached state, and of everything that can follow it. -/
structure AvailabilityContract (world : World) : Prop where
  sticky : world.uncertain = true → ∀ later, (world.run later).storeHealthy = false
  /-- no counter is lowered below zero: work that can still be given back is counted -/
  counted : ∀ (id : ℕ) (work : Work), world.works[id]? = some work → work.stage ≠ .released →
    0 < world.work.pending ∧ (work.kind.isCommit = true → 0 < world.work.commits)
  bounded : world.work.commits ≤ world.lastLimit
  drained : ∀ id : ℕ, world.drains[id]? = some (.returned (.ok ())) → world.tracksFailures = true →
    (∀ work ∈ world.works, work.stage = .released) ∧
      (∀ later, (world.run later).works.length = world.works.length) ∧
      ∀ work ∈ world.works, work.kind.isCommit = true → work.confirmed = true

/-- A failed store becomes healthy in `complete` only, by a proof of the current generation that no failure
postdates, with no work pending and before the store closes. -/
def RecoversByProof (world : World) (event : Event) : Prop :=
  world.failed = true → (world.step event).healthy = true →
    ∃ proof, event = .reopen false ∧ world.completing = some proof ∧ proof.generation = world.generation ∧
      proof.recorded = world.recorded ∧ world.work.pending = 0 ∧ world.work.closing = false

namespace Invariant

variable {world : World}

theorem contract (invariant : Invariant world) : AvailabilityContract world := by
  constructor
  · intro uncertain later
    have stays : (world.run later).uncertain = true :=
      foldl_invariant (World.uncertain · = true) (fun _ event holds => World.step_uncertain holds event) later uncertain
    simp [World.storeHealthy, World.healthy, stays]
  · intro id work found out
    have member := List.mem_of_getElem? found
    constructor
    · rw [invariant.pending]
      exact List.countP_pos_iff.mpr ⟨work, member, by simpa using out⟩
    · intro commit
      rw [invariant.commits]
      exact List.countP_pos_iff.mpr ⟨work, member, by simp [commit, out]⟩
  · exact invariant.bounded
  · intro id returned tracks
    obtain ⟨closed, empty⟩ := invariant.closed id _ returned (by simp)
    refine ⟨?_, ?_, ?_⟩
    · intro work member
      rw [invariant.pending, List.countP_eq_zero] at empty
      simpa using empty work member
    · intro later
      have stays : (world.run later).work.closing = true ∧ (world.run later).works.length = world.works.length := by
        apply foldl_invariant fun state : World =>
          state.work.closing = true ∧ state.works.length = world.works.length
        · rintro state event ⟨closing, same⟩
          obtain ⟨closes, keeps⟩ := World.step_closing closing event
          exact ⟨closes, keeps.trans same⟩
        · exact ⟨closed, rfl⟩
      exact stays.2
    · intro work member commit
      obtain ⟨other, found⟩ := List.mem_iff_getElem?.mp member
      exact invariant.confirmed id returned tracks other work found commit

theorem recoversByProof {event : Event} (invariant : Invariant world) (steady : world.Steady event) :
    RecoversByProof world event := by
  intro failed healthy
  have clears : (world.step event).failed = false := by
    simp only [World.healthy, Bool.and_eq_true, Bool.not_eq_true'] at healthy
    exact healthy.1
  obtain ⟨proof, rfl, completing, certain, current⟩ := World.failed_step failed clears
  obtain ⟨past, dated⟩ := invariant.completing proof completing
  have recent := steady proof completing
  have same : proof.recorded = world.recorded := by
    rw [invariant.generation, dated] at current
    generalize 2 ^ 64 = width at recent current
    obtain ⟨rounds, spent⟩ := (Nat.modEq_iff_dvd' past).mp current.symm
    have none : rounds = 0 := by
      by_contra some
      have := Nat.le_mul_of_pos_right width (Nat.pos_of_ne_zero some)
      omega
    rw [none, Nat.mul_zero] at spent
    omega
  refine ⟨proof, rfl, completing, current.symm, same, ?_, invariant.opened proof completing⟩
  rcases invariant.idle proof completing with idle | later | uncertain | ⟨sound, -⟩
  · exact idle
  · omega
  · rw [certain] at uncertain
    cases uncertain
  · rw [failed] at sound
    cases sound

end Invariant

/-- Over every steady run. -/
theorem steady_availability (tracksFailures : Bool) (events : List Event)
    (steady : Along World.step World.Steady (World.initial tracksFailures) events) :
    AvailabilityContract ((World.initial tracksFailures).run events) ∧
      ∀ event, ((World.initial tracksFailures).run events).Steady event →
        RecoversByProof ((World.initial tracksFailures).run events) event := by
  have invariant : Invariant ((World.initial tracksFailures).run events) :=
    steady.invariant Invariant (fun _ _ holds allowed => holds.step allowed) (World.initial_invariant tracksFailures)
  exact ⟨invariant.contract, fun _ allowed => invariant.recoversByProof allowed⟩

namespace Schedule

/-- A failure, a probe that postdates it, and a commit and a mutation given back before the store is drained. -/
def recovery : List Event :=
  [.enter, .ownedCommit 8, .fail, .advance, .advance, .probeHealth, .probeReads 0, .probeEnds 0 true, .confirm 1,
    .dropWork 1, .dropWork 1, .dropWork 0, .completeHealth 0]

theorem steady_availability_recovery :
    ((World.initial true).run recovery).failed = true ∧
      (((World.initial true).run recovery).step (.reopen false)).healthy = true ∧
      AvailabilityContract ((World.initial true).run recovery) ∧
      RecoversByProof ((World.initial true).run recovery) (.reopen false) := by
  have steady : Along World.step World.Steady (World.initial true) recovery := by
    refine ⟨trivial, trivial, trivial, trivial, trivial, trivial, trivial, trivial, trivial, trivial, trivial, trivial,
      ?_, trivial⟩
    intro probe _ pending
    exact absurd (by decide +kernel) pending
  obtain ⟨contract, recovers⟩ := steady_availability true recovery steady
  refine ⟨by decide +kernel, by decide +kernel, contract, recovers _ ?_⟩
  rintro proof ⟨⟩
  decide +kernel

/-- A failure stops between its generation and its flag. A probe reads the new generation, `complete` finds the
flag unset and does not ask for pending work, and then waits for the lock while the flag is set. -/
def overtaken : List Event :=
  [.enter, .fail, .advance, .probeHealth, .probeReads 0, .probeEnds 0 true, .completeHealth 0, .advance]

theorem recovers_with_pending_work :
    ¬ ∀ (tracksFailures : Bool) (events : List Event),
      AvailabilityContract ((World.initial tracksFailures).run events) ∧
        ∀ event, RecoversByProof ((World.initial tracksFailures).run events) event := by
  intro claim
  have failed : ((World.initial true).run overtaken).failed = true := by decide +kernel
  have healthy : (((World.initial true).run overtaken).step (.reopen false)).healthy = true := by decide +kernel
  obtain ⟨-, -, -, -, -, idle, -⟩ := (claim true overtaken).2 (.reopen false) failed healthy
  exact absurd idle (by decide +kernel)

end Schedule

end OpenLegal.Corpus
