import OpenLegal.Corpus.CloneProgress
import OpenLegal.Legal.IndexHead
import OpenLegal.Theory.Runs
import OpenLegal.Rust.Result
import Mathlib.Data.Finset.Card
import Mathlib.Data.Char
import Mathlib.Data.List.Lex
import Mathlib.Data.Prod.Lex

/-! # Complete and stable cycles

A cycle that leaves a digest has completed its pages one after another up to the last one, every one with the same total,
and has seen as many members as this total says. The digest stands for the set of the members seen, so that consecutive equal
digests count consecutive cycles with equal sets.
-/

namespace OpenLegal.Corpus

open Rust Rust.Str Legal Retrieval Theory

/-- The call recorded the whole page. -/
def Scheduled.completes (call : Scheduled) : Bool := call.offset = call.result.items.length

def membersOf (items : List InventoryItem) : List (ObjectId × Str) :=
  items.map fun item => (item.object, item.revisionId)

/-- The members seen by the calls of a cycle. -/
def seenBy (calls : List Scheduled) : Finset (ObjectId × Str) :=
  (calls.flatMap fun call => membersOf call.result.items).toFinset

/-- The call recorded the whole of a last page. -/
def Scheduled.ends (call : Scheduled) : Bool := call.completes && call.result.done

/-- The pages from the first to the last one in order, with one total, and as many members as it says. The last call is the
only one that records the whole of a last page, and no call is for a later page. -/
structure CompleteCycle (calls : List Scheduled) (total : ℕ) : Prop where
  pages : ((calls.filter Scheduled.completes).map Scheduled.page) =
    List.range' 1 (calls.filter Scheduled.completes).length
  ending : ∃ earlier last, calls = earlier ++ [last] ∧ last.ends = true ∧ (∀ call ∈ earlier, call.ends = false) ∧
    last.page = (calls.filter Scheduled.completes).length
  within : ∀ call ∈ calls, 1 ≤ call.page ∧ call.page ≤ (calls.filter Scheduled.completes).length
  sound : ∀ call ∈ calls.filter Scheduled.completes, call.result.incomplete = false ∧ call.result.rejectedRows = 0 ∧
    call.result.total = some total
  members : (seenBy calls).card = total

/-- How many complete cycles with equal members end a list of cycles, which runs from the last to the first. -/
def stableRun {δ : Type} : List (Cycle δ) → ℕ
  | [] => 0
  | cycle :: earlier =>
    if cycle.digest.isNone then 0
    else 1 + (earlier.takeWhile fun other => other.digest.isSome && seenBy other.calls = seenBy cycle.calls).length

section Digest

variable {δ : Type} (externals : Externals δ)

/-- Members that the database can hold. -/
def Storable (members : Finset (ObjectId × Str)) : Prop :=
  ∀ member ∈ members, member.1.validate = .ok () ∧ byteLen member.2 < 2 ^ 64

/-- The key of a member. -/
def memberKey (member : ObjectId × Str) : Str × Str := (externals.objectKey member.1, member.2)

/-- The keys of a set of members, in the order of the database. -/
structure Lists (members : Finset (ObjectId × Str)) (keys : List (Str × Str)) : Prop where
  sorted : keys.Pairwise fun a b => externals.collates a b = true
  nodup : keys.Nodup
  mem : ∀ key, key ∈ keys ↔ ∃ member ∈ members, memberKey externals member = key

variable {externals} {members members' : Finset (ObjectId × Str)} {keys keys' : List (Str × Str)}

theorem memberKey_inj (storable : Storable members) (storable' : Storable members') {a b : ObjectId × Str}
    (memberA : a ∈ members) (memberB : b ∈ members') (same : memberKey externals a = memberKey externals b) : a = b := by
  obtain ⟨object, revision⟩ := a
  obtain ⟨object', revision'⟩ := b
  simp only [memberKey, Prod.mk.injEq] at same
  have objects := externals.objectKey_injective object object' (storable _ memberA).1 (storable' _ memberB).1 same.1
  rw [objects, same.2]

theorem Lists.unique (first : Lists externals members keys) (second : Lists externals members keys') : keys = keys' := by
  apply List.Perm.eq_of_pairwise _ first.sorted second.sorted
  · apply (List.perm_ext_iff_of_nodup first.nodup second.nodup).mpr
    intro key
    rw [first.mem, second.mem]
  · intro a b _ _
    exact externals.collates_antisymm a b

theorem Lists.length (lists : Lists externals members keys) (storable : Storable members) :
    keys.length = members.card := by
  have image : keys.toFinset = members.image (memberKey externals) := by
    ext key
    rw [List.mem_toFinset, lists.mem, Finset.mem_image]
  rw [← List.toFinset_card_of_nodup lists.nodup, image]
  apply Finset.card_image_of_injOn
  intro a memberA b memberB same
  exact memberKey_inj storable storable memberA memberB same

/-- The keys determine the members. -/
theorem Lists.members_eq (lists : Lists externals members keys) (lists' : Lists externals members' keys)
    (storable : Storable members) (storable' : Storable members') : members = members' := by
  ext member
  constructor
  · intro present
    obtain ⟨other, present', same⟩ := (lists'.mem _).mp ((lists.mem _).mpr ⟨member, present, rfl⟩)
    rw [memberKey_inj storable storable' present present' same.symm]
    exact present'
  · intro present
    obtain ⟨other, present', same⟩ := (lists.mem _).mp ((lists'.mem _).mpr ⟨member, present, rfl⟩)
    rw [memberKey_inj storable' storable present present' same.symm]
    exact present'

theorem memberBytes_injective (short : ∀ key ∈ keys, byteLen key.1 < 2 ^ 64 ∧ byteLen key.2 < 2 ^ 64)
    (short' : ∀ key ∈ keys', byteLen key.1 < 2 ^ 64 ∧ byteLen key.2 < 2 ^ 64)
    (same : memberBytes keys = memberBytes keys') : keys = keys' := by
  have code := field_delimiting.append field_delimiting
  apply code.flatMap_injective _ short short' same
  rintro ⟨object, revision⟩ _ empty
  have size := congrArg List.length empty
  simp [field, toBeBytes8] at size

theorem Lists.short (lists : Lists externals members keys) (storable : Storable members) :
    ∀ key ∈ keys, byteLen key.1 < 2 ^ 64 ∧ byteLen key.2 < 2 ^ 64 := by
  intro key present
  obtain ⟨member, inside, rfl⟩ := (lists.mem key).mp present
  obtain ⟨valid, small⟩ := storable member inside
  exact ⟨externals.objectKey_short member.1 valid, small⟩

/-- Digests are equal exactly if the sets of members are. -/
theorem Lists.digest_eq_iff (lists : Lists externals members keys) (lists' : Lists externals members' keys')
    (storable : Storable members) (storable' : Storable members') :
    externals.sha256 (memberBytes keys) = externals.sha256 (memberBytes keys') ↔ members = members' := by
  constructor
  · intro same
    have equal := memberBytes_injective (lists.short storable) (lists'.short storable') (externals.sha256_injective same)
    subst equal
    exact lists.members_eq lists' storable storable'
  · rintro rfl
    rw [lists.unique lists']

end Digest

section Marks

variable {δ : Type} {externals : Externals δ} {cycle : ℕ} {members marked : Map (Str × Str) ℕ} {items : List InventoryItem}

theorem key_eq_ok {object : ObjectId} {text : Str} :
    key externals object = .ok text ↔ object.validate = .ok () ∧ externals.objectKey object = text := by
  simp only [key, bind_eq_ok, pure_eq_ok, Except.ok.injEq]
  constructor
  · rintro ⟨_, valid, same⟩
    exact ⟨valid, same⟩
  · rintro ⟨valid, same⟩
    exact ⟨(), valid, same⟩

/-- After the marks: the items are of this cycle, everything else is as before. -/
theorem markMembers_spec (ok : markMembers externals cycle members items = .ok marked) :
    (∀ item ∈ items, item.object.validate = .ok ()) ∧
      (∀ member ∈ membersOf items, marked.get (memberKey externals member) = some cycle) ∧
      ∀ key, (∀ member ∈ membersOf items, memberKey externals member ≠ key) → marked.get key = members.get key := by
  induction items generalizing members with
  | nil =>
    cases ok
    simp [membersOf]
  | cons item items ih =>
    rw [markMembers, List.foldlM_cons] at ok
    obtain ⟨next, first, rest⟩ := bind_eq_ok.mp ok
    simp only [bind_eq_ok, key_eq_ok, pure_eq_ok, Except.ok.injEq] at first
    obtain ⟨_, ⟨valid, rfl⟩, rfl⟩ := first
    obtain ⟨objects, new, old⟩ := ih rest
    refine ⟨?_, ?_, ?_⟩
    · intro other present
      rcases List.mem_cons.mp present with rfl | present
      · exact valid
      · exact objects other present
    · intro member present
      by_cases again : ∃ other ∈ membersOf items, memberKey externals other = memberKey externals member
      · obtain ⟨other, inside, same⟩ := again
        rw [← same]
        exact new other inside
      · rw [old _ fun other inside same => again ⟨other, inside, same⟩]
        rcases List.mem_cons.mp present with rfl | present
        · exact Map.get_insert members _ cycle
        · exact absurd ⟨member, present, rfl⟩ again
    · intro key fresh
      rw [old key fun member present => fresh member (List.mem_cons_of_mem _ present)]
      apply Map.get_insert_of_ne
      exact fun same => fresh _ List.mem_cons_self same.symm

theorem seenMembers_lists {seen : Finset (ObjectId × Str)}
    (marks : ∀ key, marked.get key = some cycle ↔ ∃ member ∈ seen, memberKey externals member = key) :
    Lists externals seen (seenMembers externals cycle marked) := by
  have total : Std.Total fun a b => externals.collates a b = true := ⟨externals.collates_total⟩
  have trans : IsTrans _ fun a b => externals.collates a b = true := ⟨externals.collates_trans⟩
  constructor
  · exact List.pairwise_insertionSort _ _
  · apply (List.perm_insertionSort _ _).nodup_iff.mpr
    apply List.Nodup.map_on _ (marked.nodupKeys.nodup.filter _)
    rintro ⟨key, value⟩ present ⟨other, value'⟩ present' rfl
    simp only [List.mem_filter, decide_eq_true_eq] at present present'
    rw [present.2, present'.2]
  · intro key
    rw [seenMembers, List.mem_insertionSort, ← marks, ← Map.mem_entries_iff]
    simp

end Marks

/-- What a row says about the calls of its cycle. -/
structure Traversal {δ : Type} (externals : Externals δ) (row : CloneRow δ) (calls : List Scheduled) : Prop where
  first : 1 ≤ row.nextPage
  unended : ∀ call ∈ calls, call.ends = false
  within : ∀ call ∈ calls, 1 ≤ call.page ∧ call.page ≤ row.nextPage
  pages : ((calls.filter Scheduled.completes).map Scheduled.page) = List.range' 1 (row.nextPage - 1)
  sound : row.cycleInvalid = false → ∀ call ∈ calls.filter Scheduled.completes,
    call.result.incomplete = false ∧ call.result.rejectedRows = 0 ∧ call.result.total = row.expectedTotal
  marks : ∀ key, row.members.get key = some row.cycle ↔ ∃ member ∈ seenBy calls, memberKey externals member = key
  past : ∀ key cycle, row.members.get key = some cycle → cycle ≤ row.cycle
  storable : Storable (seenBy calls)

/-- The saved offset of a page is that of a call for the items of its digest, and a digest is that of the last
offset call. -/
structure Resumable {δ : Type} (externals : Externals δ) (world : CloneWorld δ) : Prop where
  offset : world.row.itemOffset = 0 ∨ world.row.pageDigest = none ∨ ∃ call ∈ world.calls,
    call.page = world.row.nextPage ∧ world.row.pageDigest = some (externals.itemsDigest call.result.items) ∧
      call.offset = world.row.itemOffset
  asked : ∀ page result, world.asked = some (page, result) → page = world.row.nextPage →
    world.row.pageDigest = none ∨ world.row.pageDigest = some (externals.itemsDigest result.items)

/-- A digest stands for a complete cycle and its members. -/
def Faithful {δ : Type} (externals : Externals δ) (cycle : Cycle δ) : Prop :=
  ∀ digest, cycle.digest = some digest →
    (∃ total, CompleteCycle cycle.calls total) ∧ Storable (seenBy cycle.calls) ∧
      ∃ keys, Lists externals (seenBy cycle.calls) keys ∧ digest = externals.sha256 (memberBytes keys)

structure Recorded {δ : Type} (externals : Externals δ) (row : CloneRow δ) (ended : List (Cycle δ)) : Prop where
  faithful : ∀ cycle ∈ ended, Faithful externals cycle
  last : row.lastDigest = ended.head?.bind Cycle.digest
  stable : row.stableCycles = min (stableRun ended) i32Max

section Steps

variable {δ : Type} {externals : Externals δ} {row next : CloneRow δ} {calls : List Scheduled} {call : Scheduled}
  {members : Map (Str × Str) ℕ} {ended : List (Cycle δ)}

theorem seenBy_concat (calls : List Scheduled) (call : Scheduled) (member : ObjectId × Str) :
    member ∈ seenBy (calls ++ [call]) ↔ member ∈ seenBy calls ∨ member ∈ membersOf call.result.items := by
  simp [seenBy]

theorem completes_concat (calls : List Scheduled) (call : Scheduled) :
    (calls ++ [call]).filter Scheduled.completes =
      calls.filter Scheduled.completes ++ if call.completes then [call] else [] := by
  rw [List.filter_append, List.filter_singleton]
  cases call.completes <;> rfl

/-- The marks after one more call. -/
theorem Traversal.mark (traversal : Traversal externals row calls)
    (ok : markMembers externals row.cycle row.members call.result.items = .ok members) :
    (∀ key, members.get key = some row.cycle ↔
        ∃ member ∈ seenBy (calls ++ [call]), memberKey externals member = key) ∧
      (∀ key cycle, members.get key = some cycle → cycle ≤ row.cycle) ∧ Storable (seenBy (calls ++ [call])) := by
  obtain ⟨valid, new, old⟩ := markMembers_spec ok
  refine ⟨?_, ?_, ?_⟩
  · intro key
    by_cases marked : ∃ member ∈ membersOf call.result.items, memberKey externals member = key
    · obtain ⟨member, present, rfl⟩ := marked
      constructor
      · intro _
        exact ⟨member, (seenBy_concat calls call member).mpr (.inr present), rfl⟩
      · intro _
        exact new member present
    · rw [old key fun member present same => marked ⟨member, present, same⟩, traversal.marks]
      constructor
      · rintro ⟨member, present, same⟩
        exact ⟨member, (seenBy_concat calls call member).mpr (.inl present), same⟩
      · rintro ⟨member, present, same⟩
        rcases (seenBy_concat calls call member).mp present with before | now
        · exact ⟨member, before, same⟩
        · exact absurd ⟨member, now, same⟩ marked
  · intro key cycle found
    by_cases marked : ∃ member ∈ membersOf call.result.items, memberKey externals member = key
    · obtain ⟨member, present, rfl⟩ := marked
      rw [new member present, Option.some.injEq] at found
      exact found.ge
    · rw [old key fun member present same => marked ⟨member, present, same⟩] at found
      exact traversal.past key cycle found
  · intro member present
    rcases (seenBy_concat calls call member).mp present with before | now
    · exact traversal.storable member before
    · obtain ⟨item, inside, rfl⟩ := List.mem_map.mp now
      exact ⟨valid item inside, item.short.trans (by decide)⟩

theorem Traversal.page_concat (traversal : Traversal externals row calls) (page : call.page = row.nextPage) :
    (((calls ++ [call]).filter Scheduled.completes).map Scheduled.page) =
      List.range' 1 (if call.completes then row.nextPage else row.nextPage - 1) := by
  rw [completes_concat, List.map_append, traversal.pages]
  split
  · have := traversal.first
    obtain ⟨before, same⟩ : ∃ before, row.nextPage = before + 1 := ⟨row.nextPage - 1, by omega⟩
    rw [same, Nat.add_sub_cancel, List.range'_1_concat, List.map_singleton, page, same, Nat.add_comm]
  · simp

/-- No page precedes the first one. -/
theorem Traversal.none_completed (traversal : Traversal externals row calls) (first : row.nextPage = 1) :
    calls.filter Scheduled.completes = [] := by
  have pages := traversal.pages
  rw [first] at pages
  exact List.map_eq_nil_iff.mp pages

/-- While the cycle is valid, the completed pages agree with the call at hand. -/
theorem Traversal.sound_concat (traversal : Traversal externals row calls) (page : call.page = row.nextPage)
    (valid : row.invalidBy call.page call.result = false) :
    ∀ other ∈ (calls ++ [call]).filter Scheduled.completes,
      other.result.incomplete = false ∧ other.result.rejectedRows = 0 ∧ other.result.total = call.result.total := by
  simp only [CloneRow.invalidBy, Bool.or_eq_false_iff, Bool.and_eq_false_iff, decide_eq_false_iff_not, not_lt, ne_eq,
    not_not] at valid
  obtain ⟨⟨⟨⟨sticky, complete⟩, rejected⟩, -⟩, totals⟩ := valid
  intro other present
  rw [completes_concat, List.mem_append] at present
  rcases present with before | now
  · obtain ⟨complete', rejected', total⟩ := traversal.sound sticky other before
    refine ⟨complete', rejected', ?_⟩
    rcases totals with first | same
    · have := traversal.first
      rw [traversal.none_completed (by omega)] at before
      cases before
    · rw [total, same]
  · split at now
    · rw [List.eq_of_mem_singleton now]
      exact ⟨complete, by omega, rfl⟩
    · cases now

theorem Traversal.within_concat (traversal : Traversal externals row calls) (page : call.page = row.nextPage) :
    ∀ other ∈ calls ++ [call], 1 ≤ other.page ∧ other.page ≤ row.nextPage := by
  intro other present
  rcases List.mem_append.mp present with before | now
  · exact traversal.within other before
  · rw [List.mem_singleton.mp now, page]
    exact ⟨traversal.first, le_rfl⟩

theorem Traversal.goOn (traversal : Traversal externals row calls) (call : Scheduled) (page : call.page = row.nextPage)
    (unended : call.ends = false) (ok : markMembers externals row.cycle row.members call.result.items = .ok members) :
    Traversal externals (row.goOn call.page call.offset call.result members) (calls ++ [call]) := by
  obtain ⟨marks, past, storable⟩ := traversal.mark ok
  have first := traversal.first
  constructor
  · simp only [CloneRow.goOn]
    split <;> omega
  · intro other present
    rcases List.mem_append.mp present with before | now
    · exact traversal.unended other before
    · rw [List.mem_singleton.mp now, unended]
  · intro other present
    obtain ⟨positive, bound⟩ := traversal.within_concat page other present
    refine ⟨positive, bound.trans ?_⟩
    simp only [CloneRow.goOn]
    split <;> omega
  · rw [traversal.page_concat page]
    simp only [CloneRow.goOn, Scheduled.completes, decide_eq_true_eq, page]
    split <;> rfl
  · intro valid other present
    obtain ⟨complete, rejected, total⟩ := traversal.sound_concat page valid other present
    refine ⟨complete, rejected, ?_⟩
    simp only [CloneRow.goOn]
    split_ifs with atFirst
    · exact total
    · change row.invalidBy call.page call.result = false at valid
      simp only [CloneRow.invalidBy, Bool.or_eq_false_iff, Bool.and_eq_false_iff, decide_eq_false_iff_not, not_lt, ne_eq,
        not_not] at valid
      rcases valid.2 with early | same
      · omega
      · rw [total, same]
  · exact marks
  · exact past
  · exact storable

/-- The next cycle begins without calls, and nothing is marked with its number. -/
theorem Traversal.endCycle [DecidableEq δ] (traversal : Traversal externals row calls) (call : Scheduled) (invalid : Bool)
    (total : Option ℕ) (ok : markMembers externals row.cycle row.members call.result.items = .ok members) :
    Traversal externals (row.endCycle externals members invalid total) [] := by
  obtain ⟨-, past, -⟩ := traversal.mark ok
  constructor
  · exact le_rfl
  · intro other present
    cases present
  · intro other present
    cases present
  · rfl
  · intro _ other present
    cases present
  · intro key
    constructor
    · intro found
      have := past key _ found
      simp only [CloneRow.endCycle] at this
      omega
    · rintro ⟨member, present, -⟩
      cases present
  · intro key cycle found
    exact (past key cycle found).trans (Nat.le_succ _)
  · intro member present
    cases present

theorem Traversal.ended_faithful [DecidableEq δ] (traversal : Traversal externals row calls) (page : call.page = row.nextPage)
    (ends : call.ends = true) (ok : markMembers externals row.cycle row.members call.result.items = .ok members) :
    Faithful externals
      { calls := calls ++ [call]
        digest := (row.endCycle externals members (row.invalidBy call.page call.result) call.result.total).lastDigest } := by
  obtain ⟨marks, -, storable⟩ := traversal.mark ok
  have lists := seenMembers_lists marks
  intro digest set
  simp only [CloneRow.endCycle, Option.ite_none_right_eq_some, Option.some.injEq, Bool.and_eq_true,
    Bool.not_eq_true', beq_iff_eq] at set
  obtain ⟨⟨valid, counted⟩, rfl⟩ := set
  refine ⟨⟨(seenBy (calls ++ [call])).card, ?_⟩, storable, _, lists, rfl⟩
  have completes : call.completes = true := (Bool.and_eq_true_iff.mp ends).1
  have pages := traversal.page_concat page
  rw [if_pos completes] at pages
  have length := congrArg List.length pages
  rw [List.length_map, List.length_range'] at length
  constructor
  · rw [pages, length]
  · exact ⟨calls, call, rfl, ends, traversal.unended, page.trans length.symm⟩
  · rw [length]
    exact traversal.within_concat page
  · intro other present
    obtain ⟨complete, rejected, total⟩ := traversal.sound_concat page valid other present
    refine ⟨complete, rejected, ?_⟩
    rw [total, counted, lists.length storable]
  · rfl

/-- One more cycle extends the run of equal ones or begins a new run. -/
theorem stableRun_cons [DecidableEq δ] {cycle : Cycle δ} {digest : δ} (set : cycle.digest = some digest)
    (faithful : Faithful externals cycle) (past : ∀ other ∈ ended, Faithful externals other) :
    stableRun (cycle :: ended) =
      if ended.head?.bind Cycle.digest = some digest then stableRun ended + 1 else 1 := by
  obtain ⟨-, storable, keys, lists, rfl⟩ := faithful digest set
  cases ended with
  | nil => simp [stableRun, set]
  | cons other earlier =>
    cases before : other.digest with
    | none => simp [stableRun, set, before]
    | some digest' =>
      obtain ⟨-, storable', keys', lists', rfl⟩ := past other List.mem_cons_self digest' before
      have same := lists'.digest_eq_iff lists storable' storable
      by_cases equal : seenBy other.calls = seenBy cycle.calls
      · rw [if_pos (by simp [before, same.mpr equal])]
        simp [stableRun, set, before, equal]
        omega
      · rw [if_neg (by simpa [before] using fun digests => equal (same.mp digests))]
        simp [stableRun, set, before, equal]

theorem Recorded.endCycle [DecidableEq δ] (recorded : Recorded externals row ended) (traversal : Traversal externals row calls)
    (page : call.page = row.nextPage) (ends : call.ends = true)
    (ok : markMembers externals row.cycle row.members call.result.items = .ok members)
    (same : next = row.endCycle externals members (row.invalidBy call.page call.result) call.result.total) :
    Recorded externals next ({ calls := calls ++ [call], digest := next.lastDigest } :: ended) := by
  subst same
  have faithful := traversal.ended_faithful page ends ok
  constructor
  · intro cycle present
    rcases List.mem_cons.mp present with rfl | before
    · exact faithful
    · exact recorded.faithful cycle before
  · rfl
  · cases set : (row.endCycle externals members (row.invalidBy call.page call.result) call.result.total).lastDigest with
    | none =>
      simp only [CloneRow.endCycle, ite_eq_right_iff, reduceCtorEq, imp_false, Bool.not_eq_true] at set
      simp [CloneRow.endCycle, set, stableRun]
    | some digest =>
      rw [← set, stableRun_cons set faithful recorded.faithful, ← recorded.last]
      simp only [CloneRow.endCycle, Option.ite_none_right_eq_some, Option.some.injEq] at set
      obtain ⟨complete, rfl⟩ := set
      simp only [CloneRow.endCycle, complete, Bool.not_true, Bool.false_eq_true, ↓reduceIte, recorded.stable]
      split_ifs
      · omega
      · rfl

end Steps

section Runs

variable {δ : Type} [DecidableEq δ] {externals : Externals δ} {dataset : Dataset} {row next : CloneRow δ}
  {page offset : ℕ} {result : InventoryPage} {world : CloneWorld δ}

/-- All that a scheduling call can do. -/
theorem clonePageScheduled_ok (ok : clonePageScheduled externals dataset row page offset result = .ok next) :
    page = row.nextPage ∧ ∃ members, markMembers externals row.cycle row.members result.items = .ok members ∧
      ((Scheduled.ends ⟨page, offset, result⟩ = true ∧
          next = row.endCycle externals members (row.invalidBy page result) result.total) ∨
        (Scheduled.ends ⟨page, offset, result⟩ = false ∧ next = row.goOn page offset result members)) := by
  simp only [clonePageScheduled, ite_error_eq_ok] at ok
  obtain ⟨-, current, -, -, ok⟩ := ok
  refine ⟨(not_not.mp current).symm, ?_⟩
  split at ok
  · cases ok
  · next members marked =>
    refine ⟨members, marked, ?_⟩
    by_cases ends : offset = result.items.length ∧ result.done = true
    · rw [if_pos ends] at ok
      simp only [ite_error_eq_ok, Except.ok.injEq] at ok
      exact .inl ⟨by simpa [Scheduled.ends, Scheduled.completes] using ends, ok.2.2.symm⟩
    · rw [if_neg ends] at ok
      simp only [ite_error_eq_ok, Except.ok.injEq] at ok
      exact .inr ⟨by simpa [Scheduled.ends, Scheduled.completes] using ends, ok.2.2.symm⟩

/-- Each scheduling call follows the offset call for its page result. -/
def CloneWorld.Asked (world : CloneWorld δ) : CloneCall → Prop
  | .offset _ _ => True
  | .scheduled page _ result => world.asked = some (page, result)

structure CloneInvariant (externals : Externals δ) (world : CloneWorld δ) : Prop where
  traversal : Traversal externals world.row world.calls
  resumable : Resumable externals world
  recorded : Recorded externals world.row world.ended

omit [DecidableEq δ] in
theorem CloneInvariant.initial (externals : Externals δ) : CloneInvariant externals (.initial δ) := by
  constructor
  · constructor
    · exact le_rfl
    · intro call present
      cases present
    · intro call present
      cases present
    · rfl
    · intro _ call present
      cases present
    · intro key
      constructor
      · intro found
        cases found
      · rintro ⟨member, present, -⟩
        cases present
    · intro key cycle found
      cases found
    · intro member present
      cases present
  · constructor
    · exact .inl rfl
    · intro page result nothing
      cases nothing
  · constructor
    · intro cycle present
      cases present
    · rfl
    · rfl

theorem CloneInvariant.step_offset (invariant : CloneInvariant externals world) (page : ℕ) (result : InventoryPage) :
    CloneInvariant externals (world.step externals dataset (.offset page result)) := by
  by_cases elsewhere : world.row.nextPage ≠ page
  · simp only [CloneWorld.step, clonePageOffset, if_pos elsewhere]
    refine ⟨invariant.traversal, ?_, invariant.recorded⟩
    constructor
    · exact invariant.resumable.offset
    · rintro page result ⟨⟩ current
      exact absurd current.symm elsewhere
  · simp only [CloneWorld.step, clonePageOffset, if_neg elsewhere]
    refine ⟨{ invariant.traversal with }, ?_, { invariant.recorded with }⟩
    constructor
    · dsimp only
      split_ifs with same
      · rcases invariant.resumable.offset with zero | none | ⟨call, present, current, digest, saved⟩
        · exact .inl zero
        · rw [none] at same
          cases same
        · exact .inr (.inr ⟨call, present, current, same.symm.trans digest, saved⟩)
      · exact .inl rfl
    · rintro page result ⟨⟩ _
      exact .inr rfl

theorem CloneInvariant.step_scheduled (invariant : CloneInvariant externals world) (page offset : ℕ) (result : InventoryPage)
    (asked : world.asked = some (page, result)) :
    CloneInvariant externals (world.step externals dataset (.scheduled page offset result)) := by
  simp only [CloneWorld.step]
  split
  · exact invariant
  · next next ok =>
    obtain ⟨current, members, marked, ⟨ends, rfl⟩ | ⟨unended, rfl⟩⟩ := clonePageScheduled_ok ok
    · rw [if_neg (by simp [CloneRow.endCycle])]
      refine ⟨invariant.traversal.endCycle { page, offset, result } _ _ marked, ?_,
        invariant.recorded.endCycle invariant.traversal current ends marked rfl⟩
      constructor
      · exact .inl rfl
      · intro _ _ _ _
        exact .inl rfl
    · have same : (world.row.goOn page offset result members).cycle = world.row.cycle := rfl
      rw [if_pos same]
      refine ⟨invariant.traversal.goOn { page, offset, result } current unended marked, ?_, { invariant.recorded with }⟩
      constructor
      · by_cases whole : offset = result.items.length
        · exact .inl (by simp [CloneRow.goOn, whole])
        · -- the page stays, with the digest of the last offset call
          rcases invariant.resumable.asked page result asked current with none | digest
          · exact .inr (.inl (by simp [CloneRow.goOn, none]))
          · refine .inr (.inr ⟨{ page, offset, result }, by simp, ?_, ?_, ?_⟩)
            · simp [CloneRow.goOn, whole]
            · simp [CloneRow.goOn, whole, current, digest]
            · simp [CloneRow.goOn, whole]
      · intro other result' same stays
        rw [asked] at same
        cases same
        by_cases whole : offset = result.items.length
        · exact .inl (by simp [CloneRow.goOn, whole, current])
        · rcases invariant.resumable.asked page result asked current with none | digest
          · exact .inl (by simp [CloneRow.goOn, none])
          · exact .inr (by simp [CloneRow.goOn, whole, current, digest])

theorem CloneInvariant.step {call : CloneCall} (invariant : CloneInvariant externals world) (asked : world.Asked call) :
    CloneInvariant externals (world.step externals dataset call) := by
  cases call with
  | offset page result => exact invariant.step_offset page result
  | scheduled page offset result => exact invariant.step_scheduled page offset result asked

/-- What the progress of a view says. -/
structure CloneContract (externals : Externals δ) (count : List (Cycle δ) → ℕ) (world : CloneWorld δ) : Prop where
  complete : ∀ cycle ∈ world.ended, cycle.digest.isSome = true → ∃ total, CompleteCycle cycle.calls total
  last : world.row.lastDigest = world.ended.head?.bind Cycle.digest
  stable : world.row.stableCycles = count world.ended
  resumes : ∀ page result offset row, clonePageOffset externals world.row page result = .ok (offset, row) →
    offset = 0 ∨ ∃ call ∈ world.calls, call.page = page ∧ call.result.items = result.items ∧ call.offset = offset

theorem CloneInvariant.contract (invariant : CloneInvariant externals world) :
    CloneContract externals (fun ended => min (stableRun ended) i32Max) world := by
  constructor
  · intro cycle present set
    obtain ⟨digest, set⟩ := Option.isSome_iff_exists.mp set
    exact (invariant.recorded.faithful cycle present digest set).1
  · exact invariant.recorded.last
  · exact invariant.recorded.stable
  · intro page result offset row ok
    simp only [clonePageOffset, ite_error_eq_ok, Except.ok.injEq, Prod.mk.injEq] at ok
    obtain ⟨current, rfl, -⟩ := ok
    split_ifs with same
    · rcases invariant.resumable.offset with zero | none | ⟨call, present, page', digest, saved⟩
      · exact .inl zero
      · rw [none] at same
        cases same
      · have items := externals.itemsDigest_injective (Option.some.inj (digest.symm.trans same))
        exact .inr ⟨call, present, page'.trans (not_not.mp current), items, saved⟩
    · exact .inl rfl

/-- Over every sequence of calls in which each scheduling call follows the offset call for its page result. -/
theorem clone_cycles (externals : Externals δ) (dataset : Dataset) (calls : List CloneCall)
    (asked : Along (CloneWorld.step externals dataset) CloneWorld.Asked (.initial δ) calls) :
    CloneContract externals (fun ended => min (stableRun ended) i32Max)
      ((CloneWorld.initial δ).run externals dataset calls) := by
  have invariant : CloneInvariant externals ((CloneWorld.initial δ).run externals dataset calls) :=
    asked.invariant (CloneInvariant externals) (fun _ _ holds allowed => holds.step allowed) (.initial externals)
  exact invariant.contract

end Runs

namespace Traversals

/-- Digests that are what they are digests of. -/
abbrev Plain := List InventoryItem ⊕ Bytes

def plainKey (object : ObjectId) : Str :=
  object.jurisdiction ++ '/' :: (object.provider ++ '/' :: (object.dataset.asStr.toList ++ '/' :: object.id))

theorem plainKey_injective {a b : ObjectId} (validA : a.validate = .ok ()) (validB : b.validate = .ok ())
    (same : plainKey a = plainKey b) : a = b := by
  have freeA := ObjectId.slashFree_of_validate validA
  have freeB := ObjectId.slashFree_of_validate validB
  obtain ⟨jurisdiction, same⟩ := append_separator_inj freeA.jurisdiction freeB.jurisdiction same
  obtain ⟨provider, same⟩ := append_separator_inj freeA.provider freeB.provider same
  obtain ⟨dataset, id⟩ := append_separator_inj (Dataset.asStr_segment _).1 (Dataset.asStr_segment _).1 same
  have datasets : a.dataset = b.dataset := by
    apply Option.some.inj
    rw [← Dataset.fromName_asStr a.dataset, dataset, Dataset.fromName_asStr]
  cases a
  cases b
  simp_all

theorem plainKey_short {object : ObjectId} (valid : object.validate = .ok ()) : byteLen (plainKey object) < 2 ^ 64 := by
  simp only [ObjectId.validate, validIdentifier, ite_error_eq_ok, Bool.or_eq_true, Bool.not_eq_true', not_or,
    Bool.not_eq_false, Bool.and_eq_true, decide_eq_true_eq] at valid
  have named := (Dataset.asStr_segment object.dataset).2
  have separator : '/'.utf8Size = 1 := by decide
  simp only [plainKey, byteLen_append, byteLen_cons, separator]
  omega

def plain : Externals Plain where
  itemsDigest := .inl
  objectKey := plainKey
  sha256 := .inr
  collates a b := decide (toLex a ≤ toLex b)
  itemsDigest_injective := Sum.inl_injective
  objectKey_injective a b validA validB same := plainKey_injective validA validB same
  objectKey_short object valid := plainKey_short valid
  sha256_injective := Sum.inr_injective
  collates_total a b := by
    simp only [decide_eq_true_eq]
    exact le_total _ _
  collates_trans a b c first second := by
    simp only [decide_eq_true_eq] at first second ⊢
    exact first.trans second
  collates_antisymm a b first second := by
    simp only [decide_eq_true_eq] at first second
    exact toLex.injective (first.antisymm second)

def item (id revision : String) (short : byteLen revision.toList < 2 ^ 63) : InventoryItem :=
  { object :=
      { jurisdiction := "kr".toList, provider := "law_go_kr".toList, dataset := .nationalStatute, id := id.toList }
    revisionId := revision.toList, effectiveDate := none, publicationDate := none, title := "Fictional".toList
    dataSource := none, caseNumber := none, treatyClassCode := none, amendmentType := none, short }

/-- Two items, the first of which was scheduled before a restart. -/
def twoItems : InventoryPage :=
  { items := [item "b" "r2" (by decide), item "a" "r1" (by decide)]
    done := false, total := some 3, rejectedRows := 0, incomplete := false }

/-- The last page. -/
def oneItem : InventoryPage :=
  { items := [item "c" "r1" (by decide)], done := true, total := some 3, rejectedRows := 0, incomplete := false }

def resumed : List CloneCall :=
  [.offset 1 twoItems, .scheduled 1 1 twoItems, .offset 1 twoItems, .scheduled 1 2 twoItems, .offset 2 oneItem,
    .scheduled 2 1 oneItem]

theorem clone_cycles_resumed :
    ((CloneWorld.initial Plain).run plain .nationalStatute resumed).row.stableCycles = 1 ∧
      CloneContract plain (fun ended => min (stableRun ended) i32Max)
        ((CloneWorld.initial Plain).run plain .nationalStatute resumed) := by
  have asked : Along (CloneWorld.step plain .nationalStatute) CloneWorld.Asked (.initial Plain) resumed := by
    refine ⟨trivial, ?_, trivial, ?_, trivial, ?_, trivial⟩
    · change CloneWorld.asked _ = some (1, twoItems)
      decide +kernel
    · change CloneWorld.asked _ = some (1, twoItems)
      decide +kernel
    · change CloneWorld.asked _ = some (2, oneItem)
      decide +kernel
  exact ⟨by decide +kernel, clone_cycles plain .nationalStatute resumed asked⟩

/-! An empty inventory, traversed more often than `stable_cycles` can count. -/

def noItems : InventoryPage := { items := [], done := true, total := some 0, rejectedRows := 0, incomplete := false }

def emptyCycle : Cycle Plain := { calls := [{ page := 1, offset := 0, result := noItems }], digest := some (.inr []) }

def traverse : List CloneCall := [.offset 1 noItems, .scheduled 1 0 noItems]

/-- The view after some traversals. -/
def afterCycles (cycles : ℕ) : CloneWorld Plain :=
  { row :=
      { nextPage := 1, itemOffset := 0, pageDigest := none, cycle := cycles + 1, expectedTotal := none
        cycleInvalid := false, lastDigest := if cycles = 0 then none else some (.inr [])
        stableCycles := min cycles i32Max, members := ∅ }
    calls := []
    ended := List.replicate cycles emptyCycle
    asked := if cycles = 0 then none else some (1, noItems) }

theorem traverse_afterCycles {cycles : ℕ} (room : cycles + 2 ≤ i64Max) :
    (afterCycles cycles).run plain .nationalStatute traverse = afterCycles (cycles + 1) := by
  have more : ¬ cycles + 1 + 1 > i64Max := by omega
  have asked : (afterCycles cycles).step plain .nationalStatute (.offset 1 noItems) =
      { afterCycles cycles with
        row := { (afterCycles cycles).row with pageDigest := some (.inl []) }, asked := some (1, noItems) } := rfl
  have seen : seenMembers plain (cycles + 1) ∅ = [] := rfl
  have fits : ¬ ([] : List (Str × Str)).length > i64Max := by simp
  have scheduled : clonePageScheduled plain .nationalStatute
      { (afterCycles cycles).row with pageDigest := some (.inl []) } 1 0 noItems =
      .ok ((afterCycles cycles).row.endCycle plain ∅ false (some 0)) := by
    change (if (seenMembers plain (cycles + 1) ∅).length > i64Max then Except.error DatabaseError.capacity
      else if cycles + 1 + 1 > i64Max then .error .storageUnavailable else .ok _) = _
    rw [seen, if_neg fits, if_neg more]
    rfl
  have ended : (afterCycles cycles).row.endCycle plain ∅ false (some 0) = (afterCycles (cycles + 1)).row := by
    cases cycles with
    | zero => rfl
    | succ cycles =>
      have count : min (min (cycles + 1) i32Max + 1) i32Max = min (cycles + 1 + 1) i32Max := by omega
      rw [afterCycles, afterCycles, ← count]
      rfl
  change (((afterCycles cycles).step plain .nationalStatute (.offset 1 noItems)).step plain .nationalStatute
    (.scheduled 1 0 noItems)) = _
  rw [asked, CloneWorld.step]
  dsimp only
  rw [scheduled, ended]
  dsimp only
  rw [if_neg (by simp [afterCycles])]
  rfl

theorem stableRun_replicate (cycles : ℕ) : stableRun (List.replicate cycles emptyCycle) = cycles := by
  cases cycles with
  | zero => rfl
  | succ cycles =>
    rw [List.replicate_succ]
    simp [stableRun, emptyCycle, Nat.add_comm]

theorem asked_traverse (cycles : ℕ) :
    Along (CloneWorld.step plain .nationalStatute) CloneWorld.Asked (afterCycles cycles) traverse :=
  ⟨trivial, rfl, trivial⟩

theorem run_traversals (cycles : ℕ) (room : cycles + 1 ≤ i64Max) :
    Along (CloneWorld.step plain .nationalStatute) CloneWorld.Asked (.initial Plain) (List.replicate cycles traverse).flatten ∧
      (CloneWorld.initial Plain).run plain .nationalStatute (List.replicate cycles traverse).flatten =
        afterCycles cycles := by
  induction cycles with
  | zero => exact ⟨trivial, rfl⟩
  | succ cycles ih =>
    obtain ⟨asked, reached⟩ := ih (by omega)
    rw [List.replicate_succ', List.flatten_append, List.flatten_singleton]
    constructor
    · apply asked.append
      change Along _ _ ((CloneWorld.initial Plain).run plain .nationalStatute _) _
      rw [reached]
      exact asked_traverse cycles
    · rw [CloneWorld.run, List.foldl_append]
      change ((CloneWorld.initial Plain).run plain .nationalStatute _).run plain .nationalStatute traverse = _
      rw [reached]
      exact traverse_afterCycles (by omega)

theorem stable_cycles_saturate :
    ¬ ∀ (externals : Externals Plain) (dataset : Dataset) (calls : List CloneCall),
      Along (CloneWorld.step externals dataset) CloneWorld.Asked (.initial Plain) calls →
        CloneContract externals stableRun ((CloneWorld.initial Plain).run externals dataset calls) := by
  intro claim
  obtain ⟨asked, reached⟩ := run_traversals (2 ^ 31) (by decide)
  have stable := (claim plain .nationalStatute _ asked).stable
  rw [reached] at stable
  change min (2 ^ 31) i32Max = stableRun (List.replicate (2 ^ 31) emptyCycle) at stable
  rw [stableRun_replicate] at stable
  exact absurd stable (by decide)

end Traversals

end OpenLegal.Corpus
