import Mathlib.Data.List.Induction
import OpenLegal.Retrieval.Service
import OpenLegal.Theory.KeyedOrder
import OpenLegal.Theory.Lru

/-! # The process-local cache

A `MemoryCache` counts the bytes of its entries and stamps each with the access that touched it last. The order in which
the map is walked means nothing, so every operation is given one.
-/

namespace OpenLegal.Retrieval

open Rust Rust.Str Theory

def maxCacheEntries : ℕ := 256

def maxCacheBytes : ℕ := 32 * 1024 * 1024

structure Entry where
  value : StoredPayload
  touched : ℕ
deriving DecidableEq

/-- How a map is walked: through all of its entries. -/
structure Iteration where
  visit : Map CacheKey Entry → List (Σ _ : CacheKey, Entry)
  perm : ∀ map, (visit map).Perm map.entries

/-- The order of the model's own lists. -/
def Iteration.listed : Iteration := ⟨fun map => map.entries, fun _ => .refl _⟩

structure MemoryCache where
  entries : Map CacheKey Entry
  bytes : ℕ
  access : ℕ
deriving DecidableEq

namespace MemoryCache

def new : MemoryCache := ⟨∅, 0, 0⟩

def get (key : CacheKey) (cache : MemoryCache) : Option StoredPayload × MemoryCache :=
  let access := (cache.access + 1) % 2 ^ 64
  match cache.entries.get key with
  | some entry => (some entry.value, ⟨cache.entries.update key ⟨entry.value, access⟩, cache.bytes, access⟩)
  | none => (none, ⟨cache.entries, cache.bytes, access⟩)

/-- An entry leaves, and its bytes with it. There is no result where the count would become negative. -/
def evict (key : CacheKey) (cache : MemoryCache) : Option MemoryCache :=
  match cache.entries.get key with
  | some entry => do
    let bytes ← checkedSub cache.bytes entry.value.bytes
    some ⟨cache.entries.remove key, bytes, cache.access⟩
  | none => some cache

/-- The loop of `publish`, which takes at most one turn for each entry. -/
def makeRoom (order : Iteration) (incoming : ℕ) : ℕ → MemoryCache → Option MemoryCache
  | 0, cache => some cache
  | turns + 1, cache =>
    if cache.entries.len ≥ maxCacheEntries || cache.bytes + incoming > maxCacheBytes then
      match minByKey (fun entry : (Σ _ : CacheKey, Entry) => entry.2.touched) (order.visit cache.entries) with
      | none => some cache
      | some oldest => do makeRoom order incoming turns (← cache.evict oldest.1)
    else some cache

def publish (order : Iteration) (key : CacheKey) (value : StoredPayload) (cache : MemoryCache) : Option MemoryCache :=
  if value.bytes > maxCacheBytes then some cache
  else do
    let rest ← cache.evict key
    let room ← rest.makeRoom order value.bytes rest.entries.len
    let access := (room.access + 1) % 2 ^ 64
    some ⟨room.entries.insert key ⟨value, access⟩, room.bytes + value.bytes, access⟩

/-- The part of `expire_before` that runs for each entry: whether it goes, and what is counted after it. -/
def uncount (validatedBefore : ℕ) (bytes : ℕ) (entry : Σ _ : CacheKey, Entry) : Option ℕ :=
  if entry.2.value.provenance.validatedAt < validatedBefore then checkedSub bytes entry.2.value.bytes else some bytes

def expireBefore (order : Iteration) (validatedBefore : ℕ) (cache : MemoryCache) : Option MemoryCache := do
  let bytes ← (order.visit cache.entries).foldlM (uncount validatedBefore) cache.bytes
  some ⟨cache.entries.retain fun _ entry => !decide (entry.value.provenance.validatedAt < validatedBefore), bytes, cache.access⟩

def clear (cache : MemoryCache) : MemoryCache := ⟨∅, 0, cache.access⟩

def stats (cache : MemoryCache) : ℕ × ℕ := (cache.entries.len, cache.bytes)

end MemoryCache

/-! ## Runs -/

inductive CacheOp where
  | get (key : CacheKey)
  | publish (key : CacheKey) (value : StoredPayload)
  | expireBefore (validatedBefore : ℕ)
  | clear

/-- The operations that count an access. -/
def CacheOp.touches : CacheOp → Bool
  | .get _ => true
  | .publish _ _ => true
  | .expireBefore _ => false
  | .clear => false

namespace MemoryCache

def step (cache : MemoryCache) : CacheOp × Iteration → Option MemoryCache
  | (.get key, _) => some (cache.get key).2
  | (.publish key value, order) => cache.publish order key value
  | (.expireBefore validatedBefore, order) => cache.expireBefore order validatedBefore
  | (.clear, _) => some cache.clear

def run (ops : List (CacheOp × Iteration)) : Option MemoryCache := ops.foldlM step new

/-- Entries without their stamps. -/
def shown (entries : List (Σ _ : CacheKey, Entry)) : List (CacheKey × StoredPayload) :=
  entries.map fun entry => (entry.1, entry.2.value)

/-- What the cache holds. -/
def contents (cache : MemoryCache) : List (CacheKey × StoredPayload) := shown cache.entries.entries

/-- The count is that of the entries. -/
def Counted (cache : MemoryCache) : Prop := cache.bytes = Lru.total StoredPayload.bytes cache.contents

/-- The count is right, and both limits are kept. -/
structure Accounted (cache : MemoryCache) : Prop where
  counted : cache.Counted
  bytes_le : cache.bytes ≤ maxCacheBytes
  len_le : cache.entries.len ≤ maxCacheEntries

end MemoryCache

/-- What one operation leaves of the entries, listed by when they were touched, the latest first. -/
def recencyStep (recent : List (CacheKey × StoredPayload)) : CacheOp → List (CacheKey × StoredPayload)
  | .get key => Lru.touch key recent
  | .publish key value =>
    if value.bytes > maxCacheBytes then recent
    else Lru.put StoredPayload.bytes (maxCacheEntries - 1) (maxCacheBytes - value.bytes) key value recent
  | .expireBefore validatedBefore => recent.filter fun entry => !decide (entry.2.provenance.validatedAt < validatedBefore)
  | .clear => []

/-- The entries after some operations, the most recently touched first. -/
def recency (ops : List (CacheOp × Iteration)) : List (CacheKey × StoredPayload) :=
  ops.foldl (fun recent op => recencyStep recent op.1) []

namespace MemoryCache

variable {cache after : MemoryCache} {order : Iteration} {key : CacheKey} {incoming turns : ℕ}
  {recent : List (Σ _ : CacheKey, Entry)}

/-! ## Entries by their stamps -/

/-- The entries by when they were touched, the latest first. -/
structure Ordered (cache : MemoryCache) (recent : List (Σ _ : CacheKey, Entry)) : Prop where
  perm : recent.Perm cache.entries.entries
  latest : recent.Pairwise fun a b => b.2.touched < a.2.touched
  stamped : ∀ entry ∈ recent, entry.2.touched ≤ cache.access

theorem Ordered.contents (ordered : Ordered cache recent) : (shown recent).Perm cache.contents := ordered.perm.map _

theorem Ordered.length (ordered : Ordered cache recent) : recent.length = cache.entries.len := ordered.perm.length_eq

theorem Ordered.filter (ordered : Ordered cache recent) (keep : (Σ _ : CacheKey, Entry) → Bool)
    (entries : after.entries.entries = cache.entries.entries.filter keep) (access : after.access = cache.access) :
    Ordered after (recent.filter keep) where
  perm := by
    rw [entries]
    exact ordered.perm.filter keep
  latest := ordered.latest.sublist List.filter_sublist
  stamped := by
    rw [access]
    exact fun entry member => ordered.stamped entry (List.mem_filter.mp member).1

/-- The entry with the least stamp is the last one, and the only one under its key. -/
theorem Ordered.oldest (ordered : Ordered cache recent) {oldest : Σ _ : CacheKey, Entry}
    (found : minByKey (fun entry : (Σ _ : CacheKey, Entry) => entry.2.touched) (order.visit cache.entries) = some oldest) :
    ∃ front, recent = front ++ [oldest] ∧ recent.filter (·.1 ≠ oldest.1) = front := by
  obtain ⟨member, least⟩ := minByKey_spec found
  have same := ordered.perm.trans (order.perm cache.entries).symm
  rcases List.eq_nil_or_concat' recent with rfl | ⟨front, last, rfl⟩
  · rw [← same.mem_iff] at member
    cases member
  · have below := least last (same.subset (by simp))
    have final : oldest = last := by
      rcases List.mem_append.mp (same.mem_iff.mpr member) with inside | inside
      · have above := (List.pairwise_append.mp ordered.latest).2.2 oldest inside last List.mem_cons_self
        omega
      · exact List.mem_singleton.mp inside
    subst final
    have keyed : (front ++ [oldest]).NodupKeys := (List.perm_nodupKeys ordered.perm).mpr cache.entries.nodupKeys
    refine ⟨front, rfl, ?_⟩
    rw [List.filter_append, List.filter_cons_of_neg (by simp), List.filter_nil, List.append_nil, List.filter_eq_self]
    intro entry inside
    rw [List.NodupKeys, List.keys, List.map_append, List.nodup_append] at keyed
    simpa using keyed.2.2 entry.1 (List.mem_map_of_mem inside) oldest.1 (by simp)

/-! ## One operation -/

theorem total_remove {entry : Entry} (counted : cache.Counted) (present : cache.entries.get key = some entry) :
    cache.bytes = entry.value.bytes + Lru.total StoredPayload.bytes (shown (cache.entries.remove key).entries) := by
  have split := (Map.entries_remove_perm present).map fun entry => (entry.1, entry.2.value)
  rw [counted, contents, shown, Lru.total_perm _ split]
  rfl

theorem evict_spec (counted : cache.Counted) (key : CacheKey) : ∃ after, cache.evict key = some after ∧ after.Counted ∧
    after.bytes ≤ cache.bytes ∧ after.access = cache.access ∧ after.entries = cache.entries.remove key := by
  cases present : cache.entries.get key with
  | none => exact ⟨cache, by rw [evict, present], counted, le_rfl, rfl, (Map.remove_of_absent present).symm⟩
  | some entry =>
    have split := total_remove counted present
    refine ⟨⟨cache.entries.remove key, cache.bytes - entry.value.bytes, cache.access⟩, ?_, ?_, Nat.sub_le _ _, rfl, rfl⟩
    · simp only [evict, present, checkedSub, Option.bind_eq_bind]
      rw [if_pos (by omega)]
      rfl
    · exact Nat.sub_eq_of_eq_add' split

/-- The entries that stay beside a new one. -/
def keptBeside (incoming : ℕ) (recent : List (CacheKey × StoredPayload)) : List (CacheKey × StoredPayload) :=
  Lru.fitting StoredPayload.bytes (maxCacheEntries - 1) (maxCacheBytes - incoming) recent

/-- There is room for a new entry. -/
def Roomy (incoming : ℕ) (cache : MemoryCache) : Prop :=
  cache.entries.len < maxCacheEntries ∧ cache.bytes + incoming ≤ maxCacheBytes

instance : Decidable (Roomy incoming cache) := inferInstanceAs (Decidable (_ ∧ _))

theorem Ordered.fits_iff (ordered : Ordered cache recent) (counted : cache.Counted) (small : incoming ≤ maxCacheBytes) :
    Lru.Fits StoredPayload.bytes (maxCacheEntries - 1) (maxCacheBytes - incoming) (shown recent) ↔ cache.Roomy incoming := by
  rw [Lru.Fits, Lru.total_perm _ ordered.contents, ← counted, shown, List.length_map, ordered.length]
  have some_slots : 0 < maxCacheEntries := by decide
  simp only [Roomy]
  omega

theorem makeRoom_succ : cache.makeRoom order incoming (turns + 1) = if cache.Roomy incoming then some cache else
    match minByKey (fun entry : (Σ _ : CacheKey, Entry) => entry.2.touched) (order.visit cache.entries) with
    | none => some cache
    | some oldest => (cache.evict oldest.1).bind (makeRoom order incoming turns) := by
  rw [makeRoom]
  by_cases roomy : cache.Roomy incoming
  · rw [if_pos roomy, if_neg]
    simp only [Roomy] at roomy
    simp only [Bool.or_eq_true, decide_eq_true_eq]
    omega
  · rw [if_neg roomy, if_pos]
    · rfl
    · simp only [Roomy] at roomy
      simp only [Bool.or_eq_true, decide_eq_true_eq]
      omega

theorem roomy_of_empty (small : incoming ≤ maxCacheBytes) (counted : cache.Counted) (empty : cache.entries.entries = []) :
    cache.Roomy incoming := by
  have none : cache.bytes = 0 := by rw [counted, contents, empty]; rfl
  exact ⟨by rw [Map.len, empty]; decide, by omega⟩

/-- Where there is room, everything is kept. -/
theorem Ordered.kept (ordered : Ordered cache recent) (counted : cache.Counted) (small : incoming ≤ maxCacheBytes)
    (roomy : cache.Roomy incoming) : ∃ kept, Ordered cache kept ∧ shown kept = keptBeside incoming (shown recent) :=
  ⟨recent, ordered, (Lru.fitting_of_fits ((ordered.fits_iff counted small).mpr roomy)).symm⟩

/-- The entries that make room are those touched longest ago. -/
theorem makeRoom_spec (order : Iteration) (small : incoming ≤ maxCacheBytes) (counted : cache.Counted) (enough : cache.entries.len ≤ turns) :
    ∃ after, cache.makeRoom order incoming turns = some after ∧ after.Counted ∧ after.Roomy incoming ∧
      after.access = cache.access ∧ (∀ key, cache.entries.get key = none → after.entries.get key = none) ∧
      ∀ recent, Ordered cache recent → ∃ kept, Ordered after kept ∧ shown kept = keptBeside incoming (shown recent) := by
  induction turns generalizing cache with
  | zero =>
    have roomy := roomy_of_empty small counted (List.length_eq_zero_iff.mp (Nat.le_zero.mp enough))
    exact ⟨cache, rfl, counted, roomy, rfl, fun _ absent => absent, fun recent ordered => ordered.kept counted small roomy⟩
  | succ turns ih =>
    rw [makeRoom_succ]
    by_cases roomy : cache.Roomy incoming
    · exact ⟨cache, if_pos roomy, counted, roomy, rfl, fun _ absent => absent, fun recent ordered => ordered.kept counted small roomy⟩
    · rw [if_neg roomy]
      cases found : minByKey (fun entry : (Σ _ : CacheKey, Entry) => entry.2.touched) (order.visit cache.entries) with
      | none =>
        -- an empty cache is roomy
        rw [minByKey_eq_none] at found
        have empty := order.perm cache.entries
        rw [found] at empty
        exact absurd (roomy_of_empty small counted empty.nil_eq.symm) roomy
      | some oldest =>
        obtain ⟨rest, evicted, restCounted, -, access, entries⟩ := evict_spec counted oldest.1
        have fewer : rest.entries.len ≤ turns := by
          obtain ⟨member, -⟩ := minByKey_spec found
          have present := Map.mem_entries_iff.mp ((order.perm cache.entries).subset member)
          have length := (Map.entries_remove_perm present).length_eq
          rw [← entries] at length
          simp only [Map.len, List.length_cons] at enough length ⊢
          omega
        obtain ⟨after, made, afterCounted, afterRoomy, afterAccess, absent, kept⟩ := ih restCounted fewer
        have result : (cache.evict oldest.1).bind (makeRoom order incoming turns) = some after := by
          rw [evicted]
          exact made
        refine ⟨after, result, afterCounted, afterRoomy, afterAccess.trans access, ?_, ?_⟩
        · intro key none
          apply absent
          rw [entries, Option.eq_none_iff_forall_ne_some]
          intro entry present
          rw [(Map.get_of_get_remove present).2] at none
          cases none
        intro recent ordered
        obtain ⟨front, rfl, filtered⟩ := ordered.oldest found
        have next := ordered.filter (·.1 ≠ oldest.1) (by rw [entries, Map.entries_remove]) access
        rw [filtered] at next
        obtain ⟨stamped, afterOrdered, same⟩ := kept front next
        refine ⟨stamped, afterOrdered, same.trans ?_⟩
        have full : ¬ Lru.Fits StoredPayload.bytes (maxCacheEntries - 1) (maxCacheBytes - incoming) (shown (front ++ [oldest])) :=
          fun fits => roomy ((ordered.fits_iff counted small).mp fits)
        rw [shown, List.map_append] at full
        rw [keptBeside, keptBeside, shown, shown, List.map_append]
        exact (Lru.fitting_concat full).symm

theorem shown_filter (key : CacheKey) (recent : List (Σ _ : CacheKey, Entry)) :
    shown (recent.filter (·.1 ≠ key)) = Lru.without key (shown recent) := by
  rw [shown, shown, Lru.without, List.filter_map]
  rfl

theorem Ordered.distinct (ordered : Ordered cache recent) : ((shown recent).map Prod.fst).Nodup := by
  have keyed : recent.NodupKeys := (List.perm_nodupKeys ordered.perm).mpr cache.entries.nodupKeys
  rw [shown, List.map_map]
  exact keyed

/-- A new entry with the latest stamp, before what is left of the others. -/
theorem Ordered.cons (ordered : Ordered cache recent) {entry : Entry} (stamp : entry.touched = cache.access + 1)
    (entries : after.entries.entries.Perm (⟨key, entry⟩ :: cache.entries.entries)) (access : after.access = cache.access + 1) :
    Ordered after (⟨key, entry⟩ :: recent) where
  perm := (ordered.perm.cons _).trans entries.symm
  latest := by
    refine List.pairwise_cons.mpr ⟨?_, ordered.latest⟩
    intro other member
    have before := ordered.stamped other member
    simp only [stamp]
    omega
  stamped := by
    intro other member
    rw [access]
    rcases List.mem_cons.mp member with rfl | member
    · exact stamp.le
    · have before := ordered.stamped other member
      omega

theorem publish_spec (order : Iteration) (key : CacheKey) {value : StoredPayload} (small : value.bytes ≤ maxCacheBytes) (counted : cache.Counted) :
    ∃ after, cache.publish order key value = some after ∧ after.Accounted ∧ after.access = (cache.access + 1) % 2 ^ 64 ∧
      (cache.access + 1 < 2 ^ 64 → ∀ recent, Ordered cache recent → ∃ next, Ordered after next ∧
        shown next = Lru.put StoredPayload.bytes (maxCacheEntries - 1) (maxCacheBytes - value.bytes) key value (shown recent)) := by
  obtain ⟨rest, evicted, restCounted, -, restAccess, entries⟩ := evict_spec counted key
  obtain ⟨room, made, roomCounted, ⟨fewer, lighter⟩, roomAccess, absent, kept⟩ :=
    makeRoom_spec order small restCounted (le_refl rest.entries.len)
  have fresh : room.entries.get key = none := absent key (by rw [entries, Map.get_remove])
  have access := roomAccess.trans restAccess
  have inserted : ∀ entry : Entry, (room.entries.insert key entry).entries = ⟨key, entry⟩ :: room.entries.entries := by
    intro entry
    rw [show (room.entries.insert key entry).entries = ⟨key, entry⟩ :: (room.entries.remove key).entries from rfl,
      Map.remove_of_absent fresh]
  refine ⟨⟨room.entries.insert key ⟨value, (cache.access + 1) % 2 ^ 64⟩, room.bytes + value.bytes, (cache.access + 1) % 2 ^ 64⟩,
    ?_, ⟨?_, lighter, ?_⟩, rfl, ?_⟩
  · rw [publish, if_neg (by omega), evicted]
    simp only [Option.bind_eq_bind, Option.bind_some, made, access]
  · have total : room.bytes + value.bytes =
        Lru.total StoredPayload.bytes (shown (room.entries.insert key ⟨value, (cache.access + 1) % 2 ^ 64⟩).entries) := by
      rw [inserted, roomCounted, Nat.add_comm]
      rfl
    exact total
  · rw [Map.len_insert_of_absent fresh]
    exact fewer
  · intro below recent ordered
    obtain ⟨stamped, roomOrdered, same⟩ := kept _ (ordered.filter (·.1 ≠ key) (by rw [entries, Map.entries_remove]) restAccess)
    rw [Nat.mod_eq_of_lt below]
    refine ⟨_, roomOrdered.cons (by rw [access]) (.of_eq (inserted _)) (by rw [access]), ?_⟩
    rw [Lru.put, ← shown_filter]
    exact congrArg (List.cons (key, value)) same

theorem get_absent (absent : cache.entries.get key = none) :
    cache.get key = (none, ⟨cache.entries, cache.bytes, (cache.access + 1) % 2 ^ 64⟩) := by
  rw [get, absent]

theorem get_present {entry : Entry} (present : cache.entries.get key = some entry) : cache.get key =
    (some entry.value, ⟨cache.entries.update key ⟨entry.value, (cache.access + 1) % 2 ^ 64⟩, cache.bytes, (cache.access + 1) % 2 ^ 64⟩) := by
  rw [get, present]

theorem get_spec (accounted : cache.Accounted) : (cache.get key).2.Accounted ∧
    (cache.get key).2.access = (cache.access + 1) % 2 ^ 64 ∧
    (cache.access + 1 < 2 ^ 64 → ∀ recent, Ordered cache recent →
      ∃ next, Ordered (cache.get key).2 next ∧ shown next = Lru.touch key (shown recent)) := by
  cases present : cache.entries.get key with
  | none =>
    rw [get_absent present]
    refine ⟨⟨accounted.counted, accounted.bytes_le, accounted.len_le⟩, rfl, ?_⟩
    intro below recent ordered
    refine ⟨recent, ⟨ordered.perm, ordered.latest, ?_⟩, ?_⟩
    · intro entry member
      have before := ordered.stamped entry member
      simp only [Nat.mod_eq_of_lt below]
      omega
    · refine (Lru.touch_of_absent ?_).symm
      rintro ⟨other, value⟩ member rfl
      obtain ⟨⟨key, entry⟩, listed, same⟩ := List.mem_map.mp member
      cases same
      rw [Map.mem_entries_iff.mp (ordered.perm.subset listed)] at present
      cases present
  | some entry =>
    rw [get_present present]
    have moved := Map.update_perm_insert present ⟨entry.value, (cache.access + 1) % 2 ^ 64⟩
    refine ⟨⟨?_, accounted.bytes_le, ?_⟩, rfl, ?_⟩
    · have total := Lru.total_perm StoredPayload.bytes (moved.map fun entry => (entry.1, entry.2.value))
      exact (total_remove accounted.counted present).trans total.symm
    · rw [Map.len_update present]
      exact accounted.len_le
    · intro below recent ordered
      have removed : Ordered ⟨cache.entries.remove key, cache.bytes, cache.access⟩ (recent.filter (·.1 ≠ key)) :=
        ordered.filter _ (Map.entries_remove cache.entries key) rfl
      rw [Nat.mod_eq_of_lt below] at moved ⊢
      refine ⟨_, removed.cons rfl moved rfl, ?_⟩
      have listed : (key, entry.value) ∈ shown recent :=
        List.mem_map.mpr ⟨⟨key, entry⟩, ordered.perm.symm.subset (Map.mem_entries_iff.mpr present), rfl⟩
      rw [Lru.touch_of_mem ordered.distinct listed, ← shown_filter]
      rfl

/-- The value was validated too long ago. -/
def expired (validatedBefore : ℕ) (entry : CacheKey × StoredPayload) : Bool :=
  decide (entry.2.provenance.validatedAt < validatedBefore)

theorem foldlM_uncount (validatedBefore : ℕ) (entries : List (Σ _ : CacheKey, Entry)) {bytes : ℕ}
    (enough : Lru.total StoredPayload.bytes ((shown entries).filter (expired validatedBefore)) ≤ bytes) :
    entries.foldlM (uncount validatedBefore) bytes =
      some (bytes - Lru.total StoredPayload.bytes ((shown entries).filter (expired validatedBefore))) := by
  induction entries generalizing bytes with
  | nil => rfl
  | cons entry entries ih =>
    rw [shown, List.map_cons, ← shown] at enough ⊢
    rw [List.foldlM_cons, uncount]
    by_cases old : entry.2.value.provenance.validatedAt < validatedBefore
    · rw [List.filter_cons_of_pos (by simpa [expired] using old), Lru.total_cons] at enough ⊢
      dsimp only at enough ⊢
      rw [if_pos old, checkedSub, if_pos (by omega)]
      simp only [Option.bind_eq_bind, Option.bind_some]
      rw [ih (by omega), Nat.sub_sub]
    · rw [List.filter_cons_of_neg (by simpa [expired] using old)] at enough ⊢
      rw [if_neg old]
      exact ih enough

theorem shown_retain (validatedBefore : ℕ) (recent : List (Σ _ : CacheKey, Entry)) :
    shown (recent.filter fun entry => !decide (entry.2.value.provenance.validatedAt < validatedBefore)) =
      (shown recent).filter (!expired validatedBefore ·) := by
  rw [shown, shown, List.filter_map]
  rfl

theorem expireBefore_spec (order : Iteration) (accounted : cache.Accounted) (validatedBefore : ℕ) :
    ∃ after, cache.expireBefore order validatedBefore = some after ∧ after.Accounted ∧ after.access = cache.access ∧
      ∀ recent, Ordered cache recent → ∃ next, Ordered after next ∧ shown next = (shown recent).filter (!expired validatedBefore ·) := by
  have walked : Lru.total StoredPayload.bytes ((shown (order.visit cache.entries)).filter (expired validatedBefore)) =
      Lru.total StoredPayload.bytes (cache.contents.filter (expired validatedBefore)) :=
    Lru.total_perm _ (((order.perm cache.entries).map _).filter _)
  have split := Lru.total_filter StoredPayload.bytes (expired validatedBefore) cache.contents
  rw [← accounted.counted] at split
  have subtracted := @foldlM_uncount validatedBefore (order.visit cache.entries) cache.bytes (by omega)
  refine ⟨⟨cache.entries.retain fun _ entry => !decide (entry.value.provenance.validatedAt < validatedBefore),
    cache.bytes - Lru.total StoredPayload.bytes (cache.contents.filter (expired validatedBefore)), cache.access⟩, ?_, ⟨?_, ?_, ?_⟩, rfl, ?_⟩
  · rw [expireBefore, subtracted, walked]
    rfl
  · have left : (shown (cache.entries.retain fun _ entry => !decide (entry.value.provenance.validatedAt < validatedBefore)).entries) =
        cache.contents.filter (!expired validatedBefore ·) := shown_retain validatedBefore cache.entries.entries
    have total : cache.bytes - Lru.total StoredPayload.bytes (cache.contents.filter (expired validatedBefore)) =
        Lru.total StoredPayload.bytes (cache.contents.filter (!expired validatedBefore ·)) := Nat.sub_eq_of_eq_add' split
    exact total.trans (congrArg _ left.symm)
  · exact (Nat.sub_le _ _).trans accounted.bytes_le
  · exact List.filter_sublist.length_le.trans accounted.len_le
  · intro recent ordered
    exact ⟨_, ordered.filter _ rfl rfl, shown_retain validatedBefore recent⟩

/-! ## Runs -/

/-- What one operation does to the accounting, and to the order as long as the access count does not wrap. -/
theorem step_spec (accounted : cache.Accounted) (op : CacheOp × Iteration) : ∃ after, cache.step op = some after ∧ after.Accounted ∧
    after.access ≤ cache.access + op.1.touches.toNat ∧
    (cache.access + op.1.touches.toNat < 2 ^ 64 → ∀ recent, Ordered cache recent →
      ∃ next, Ordered after next ∧ shown next = recencyStep (shown recent) op.1) := by
  obtain ⟨op, order⟩ := op
  cases op with
  | get key =>
    obtain ⟨accountedAfter, access, ordered⟩ := @get_spec _ key accounted
    refine ⟨_, rfl, accountedAfter, ?_, ordered⟩
    rw [access]
    exact Nat.mod_le _ _
  | publish key value =>
    by_cases large : value.bytes > maxCacheBytes
    · refine ⟨cache, if_pos large, accounted, Nat.le_add_right _ _, fun _ recent ordered => ⟨recent, ordered, ?_⟩⟩
      exact (if_pos large).symm
    · obtain ⟨after, published, accountedAfter, access, ordered⟩ :=
        publish_spec order key (Nat.not_lt.mp large) accounted.counted
      refine ⟨after, published, accountedAfter, ?_, ?_⟩
      · rw [access]
        exact Nat.mod_le _ _
      · intro below recent before
        rw [recencyStep, if_neg large]
        exact ordered below recent before
  | expireBefore validatedBefore =>
    obtain ⟨after, done, accountedAfter, access, ordered⟩ := expireBefore_spec order accounted validatedBefore
    exact ⟨after, done, accountedAfter, access.le, fun _ => ordered⟩
  | clear =>
    refine ⟨cache.clear, rfl, ⟨rfl, Nat.zero_le _, Nat.zero_le _⟩, le_rfl, fun _ recent _ => ⟨[], ⟨.nil, .nil, ?_⟩, rfl⟩⟩
    intro entry impossible
    cases impossible

/-- How many accesses some operations count. -/
def touches (ops : List (CacheOp × Iteration)) : ℕ := (ops.map fun op => op.1.touches.toNat).sum

/-- What a whole run comes to. -/
theorem run_spec (ops : List (CacheOp × Iteration)) : ∃ cache, run ops = some cache ∧ cache.Accounted ∧
    cache.access ≤ touches ops ∧
    (touches ops < 2 ^ 64 → ∃ recent, Ordered cache recent ∧ shown recent = recency ops) := by
  induction ops using List.reverseRecOn with
  | nil =>
    refine ⟨new, rfl, ⟨rfl, Nat.zero_le _, Nat.zero_le _⟩, le_rfl, fun _ => ⟨[], ⟨.nil, .nil, ?_⟩, rfl⟩⟩
    intro entry impossible
    cases impossible
  | append_singleton ops op ih =>
    obtain ⟨cache, ran, accounted, access, ordered⟩ := ih
    obtain ⟨after, stepped, accountedAfter, accessAfter, orderedAfter⟩ := step_spec accounted op
    have total : touches (ops ++ [op]) = touches ops + op.1.touches.toNat := by simp [touches]
    refine ⟨after, ?_, accountedAfter, by omega, ?_⟩
    · rw [run, List.foldlM_append, show ops.foldlM step new = some cache from ran]
      simpa using stepped
    · intro below
      obtain ⟨recent, before, same⟩ := ordered (by omega)
      obtain ⟨next, afterwards, shownNext⟩ := orderedAfter (by omega) recent before
      refine ⟨next, afterwards, ?_⟩
      rw [shownNext, same, recency, recency, List.foldl_append]
      rfl

/-- What is reported after a run is the number of entries and the sum of their bytes, within both limits. -/
theorem run_stats (ops : List (CacheOp × Iteration)) : ∃ cache, run ops = some cache ∧
    cache.stats = (cache.contents.length, Lru.total StoredPayload.bytes cache.contents) ∧
    cache.stats.1 ≤ maxCacheEntries ∧ cache.stats.2 ≤ maxCacheBytes := by
  obtain ⟨cache, ran, accounted, -⟩ := run_spec ops
  refine ⟨cache, ran, ?_, accounted.len_le, accounted.bytes_le⟩
  rw [stats, accounted.counted, contents, shown, List.length_map]
  rfl

/-- No subtraction fails, the count is right and the limits are kept in every run. A value that is too large changes nothing;
any other one displaces, as long as the access count does not wrap, exactly the entries under other keys that were touched
longest ago and leave it no room. -/
theorem run_publish_exact (ops : List (CacheOp × Iteration)) (order : Iteration) (key : CacheKey) (value : StoredPayload) :
    ∃ cache after, run ops = some cache ∧ cache.Accounted ∧ cache.publish order key value = some after ∧ after.Accounted ∧
      (maxCacheBytes < value.bytes → after = cache) ∧
      (value.bytes ≤ maxCacheBytes → touches ops + 1 < 2 ^ 64 → (recency ops).Perm cache.contents ∧
        ∃ kept evicted, Lru.without key (recency ops) = kept ++ evicted ∧ after.contents.Perm ((key, value) :: kept) ∧
          Lru.Fits StoredPayload.bytes (maxCacheEntries - 1) (maxCacheBytes - value.bytes) kept ∧
          (∀ front, front <+: kept ++ evicted →
            Lru.Fits StoredPayload.bytes (maxCacheEntries - 1) (maxCacheBytes - value.bytes) front → front <+: kept) ∧
          (Lru.Fits StoredPayload.bytes (maxCacheEntries - 1) (maxCacheBytes - value.bytes) (kept ++ evicted) → evicted = [])) := by
  obtain ⟨cache, ran, accounted, access, ordered⟩ := run_spec ops
  rcases Nat.lt_or_ge maxCacheBytes value.bytes with large | small
  · exact ⟨cache, cache, ran, accounted, if_pos large, accounted, fun _ => rfl, fun small => absurd large small.not_gt⟩
  · obtain ⟨after, published, accountedAfter, -, orderedAfter⟩ := publish_spec order key small accounted.counted
    refine ⟨cache, after, ran, accounted, published, accountedAfter, fun large => absurd large small.not_gt, fun _ below => ?_⟩
    obtain ⟨recent, before, same⟩ := ordered (by omega)
    obtain ⟨next, afterwards, shownNext⟩ := orderedAfter (by omega) recent before
    rw [same] at shownNext
    obtain ⟨evicted, split⟩ := @Lru.fitting_isPrefix _ _ StoredPayload.bytes (maxCacheEntries - 1)
      (maxCacheBytes - value.bytes) (Lru.without key (recency ops))
    refine ⟨same ▸ before.contents, _, evicted, split.symm, ?_, Lru.fits_fitting _ _ _, ?_, ?_⟩
    · rw [← Lru.put, ← shownNext]
      exact afterwards.contents.symm
    · rw [split]
      exact fun front begins fits => Lru.isPrefix_fitting begins fits
    · intro fits
      rw [split] at fits
      rw [Lru.fitting_of_fits fits] at split
      exact List.append_right_eq_self.mp split

/-! ## What is read -/

/-- What is under a key after an operation, if nothing is displaced: the value last published under it that is not too
large, unless it expired or was cleared. -/
def heldStep (key : CacheKey) (held : Option StoredPayload) : CacheOp → Option StoredPayload
  | .get _ => held
  | .publish other value => if other = key ∧ value.bytes ≤ maxCacheBytes then some value else held
  | .expireBefore validatedBefore => held.filter fun value => !decide (value.provenance.validatedAt < validatedBefore)
  | .clear => none

def held (key : CacheKey) (ops : List (CacheOp × Iteration)) : Option StoredPayload :=
  ops.foldl (fun held op => heldStep key held op.1) none

/-- The entry under a key, if there is one, has the value that is told. -/
def Tells (cache : MemoryCache) (key : CacheKey) (told : Option StoredPayload) : Prop :=
  ∀ entry, cache.entries.get key = some entry → told = some entry.value

section Reads

variable {other : CacheKey} {entry : Entry} {value : StoredPayload} {told : Option StoredPayload}

theorem get_of_evict (evicted : cache.evict key = some after) (present : after.entries.get other = some entry) :
    other ≠ key ∧ cache.entries.get other = some entry := by
  rw [evict] at evicted
  cases found : cache.entries.get key with
  | none =>
    simp only [found, Option.some.injEq] at evicted
    subst evicted
    refine ⟨?_, present⟩
    rintro rfl
    rw [found] at present
    cases present
  | some old =>
    simp only [found, Option.bind_eq_bind, Option.bind_eq_some_iff, Option.some.injEq] at evicted
    obtain ⟨_, -, rfl⟩ := evicted
    exact Map.get_of_get_remove present

/-- Making room only takes entries away. -/
theorem get_of_makeRoom (made : cache.makeRoom order incoming turns = some after)
    (present : after.entries.get other = some entry) : cache.entries.get other = some entry := by
  induction turns generalizing cache with
  | zero =>
    cases made
    exact present
  | succ turns ih =>
    rw [makeRoom_succ] at made
    by_cases roomy : cache.Roomy incoming
    · rw [if_pos roomy] at made
      cases made
      exact present
    · rw [if_neg roomy] at made
      split at made
      · cases made
        exact present
      · obtain ⟨rest, evicted, made⟩ := Option.bind_eq_some_iff.mp made
        exact (get_of_evict evicted (ih made)).2

theorem tells_publish (tells : cache.Tells key told) (published : cache.publish order other value = some after) :
    after.Tells key (heldStep key told (.publish other value)) := by
  intro entry present
  rw [publish] at published
  rw [heldStep]
  by_cases large : value.bytes > maxCacheBytes
  · rw [if_pos large] at published
    cases published
    rw [if_neg fun small => absurd small.2 (Nat.not_le.mpr large)]
    exact tells entry present
  · simp only [if_neg large, Option.bind_eq_bind, Option.bind_eq_some_iff, Option.some.injEq] at published
    obtain ⟨rest, evicted, room, made, rfl⟩ := published
    rcases Map.get_of_get_insert present with ⟨rfl, rfl⟩ | ⟨different, present⟩
    · rw [if_pos ⟨rfl, Nat.not_lt.mp large⟩]
    · rw [if_neg fun same => different same.1.symm]
      exact tells entry (get_of_evict evicted (get_of_makeRoom made present)).2

/-- What one operation leaves under a key was told, or is what the operation publishes. -/
theorem tells_step (tells : cache.Tells key told) {op : CacheOp × Iteration} (stepped : cache.step op = some after) :
    after.Tells key (heldStep key told op.1) := by
  obtain ⟨op, order⟩ := op
  cases op with
  | get other =>
    cases stepped
    intro entry present
    rw [get] at present
    cases found : cache.entries.get other with
    | none =>
      simp only [found] at present
      exact tells entry present
    | some old =>
      simp only [found] at present
      rcases Map.get_of_get_update found present with ⟨rfl, rfl⟩ | ⟨-, present⟩
      · exact tells old found
      · exact tells entry present
  | publish other value => exact tells_publish tells stepped
  | expireBefore validatedBefore =>
    simp only [step, expireBefore, Option.bind_eq_bind, Option.bind_eq_some_iff, Option.some.injEq] at stepped
    obtain ⟨_, -, rfl⟩ := stepped
    intro entry present
    simp only [Map.get_retain, Option.filter_eq_some_iff] at present
    rw [heldStep, tells entry present.1]
    exact Option.filter_eq_some_iff.mpr ⟨rfl, present.2⟩
  | clear =>
    cases stepped
    intro entry impossible
    cases impossible

end Reads

/-- In every run a read answers with the value that was last published under its key and neither expired nor was cleared
since: never with an older one or with that of another key. -/
theorem run_get_last_published (ops : List (CacheOp × Iteration)) : ∃ cache, run ops = some cache ∧
    ∀ key value, (cache.get key).1 = some value → held key ops = some value := by
  obtain ⟨cache, ran, -⟩ := run_spec ops
  have tells (key : CacheKey) : ∀ cache, run ops = some cache → cache.Tells key (held key ops) := by
    clear ran
    induction ops using List.reverseRecOn with
    | nil =>
      rintro _ ⟨⟩ entry impossible
      cases impossible
    | append_singleton ops op ih =>
      intro after ran
      rw [run, List.foldlM_append, Option.bind_eq_bind, Option.bind_eq_some_iff] at ran
      obtain ⟨before, ran, stepped⟩ := ran
      rw [held, List.foldl_append]
      exact tells_step (ih before ran) (by simpa using stepped)
  refine ⟨cache, ran, fun key value hit => ?_⟩
  rw [get] at hit
  cases found : cache.entries.get key with
  | none => simp [found] at hit
  | some entry =>
    simp only [found, Option.some.injEq] at hit
    rw [← hit]
    exact tells key cache ran entry found

/-! ## A larger value, and a wrapped count -/

/-- Accesses to a key that is not there. -/
theorem foldlM_get_absent (cache : MemoryCache) (absent : cache.entries.get key = none) (bound : cache.access < 2 ^ 64) (n : ℕ) :
    (List.replicate n (CacheOp.get key, order)).foldlM step cache =
      some ⟨cache.entries, cache.bytes, (cache.access + n) % 2 ^ 64⟩ := by
  induction n generalizing cache with
  | zero => rw [Nat.add_zero, Nat.mod_eq_of_lt bound]; rfl
  | succ n ih =>
    have first : step cache (CacheOp.get key, order) = some ⟨cache.entries, cache.bytes, (cache.access + 1) % 2 ^ 64⟩ := by
      rw [step, get_absent absent]
    rw [List.replicate_succ, List.foldlM_cons, first]
    refine (ih ⟨cache.entries, cache.bytes, (cache.access + 1) % 2 ^ 64⟩ absent (Nat.mod_lt _ (by decide))).trans ?_
    rw [show (cache.access + 1) % 2 ^ 64 + n = n + (cache.access + 1) % 2 ^ 64 from Nat.add_comm _ _, Nat.add_mod_mod]
    congr 3
    omega

def sampleKey (id : Char) : CacheKey := ⟨['p'], ['d'], ['v'], 1, .get ['s'] [id]⟩

def samplePayload (bytes : ℕ) : StoredPayload where
  data := .get ⟨['s'], ['a'], ['t'], [], true⟩
  provenance := ⟨['p'], ['d'], ['r'], [], ['v'], 0, 0⟩
  raw := []
  bytes := bytes
  snapshot := none

def samplePut (id : Char) (bytes : ℕ) : CacheOp × Iteration := (.publish (sampleKey id) (samplePayload bytes), .listed)

theorem recency_get_absent {op : CacheOp × Iteration} (gets : op.1 = .get key) {held : List (CacheKey × StoredPayload)}
    (absent : ∀ entry ∈ held, entry.1 ≠ key) (n : ℕ) :
    (List.replicate n op).foldl (fun recent op => recencyStep recent op.1) held = held := by
  induction n with
  | zero => rfl
  | succ n ih =>
    rw [List.replicate_succ, List.foldl_cons, gets, recencyStep, Lru.touch_of_absent absent]
    exact ih

/-- Two values of half the size, then some accesses to a third key, then one to the second. -/
def wrappingOps (n : ℕ) : List (CacheOp × Iteration) :=
  [samplePut 'a' (16 * 1024 * 1024), samplePut 'b' (16 * 1024 * 1024)] ++
    (List.replicate n (.get (sampleKey 'x'), .listed) ++ [(.get (sampleKey 'b'), .listed)])

def wrappedCache (stamp : ℕ) : MemoryCache :=
  ⟨((∅ : Map CacheKey Entry).insert (sampleKey 'a') ⟨samplePayload (16 * 1024 * 1024), 1⟩).insert (sampleKey 'b')
    ⟨samplePayload (16 * 1024 * 1024), stamp⟩, 32 * 1024 * 1024, stamp⟩

theorem puts_wrapping : [samplePut 'a' (16 * 1024 * 1024), samplePut 'b' (16 * 1024 * 1024)].foldlM step new = some (wrappedCache 2) := by
  rfl

theorem run_wrappingOps (n : ℕ) : run (wrappingOps n) = some (wrappedCache (((2 + n) % 2 ^ 64 + 1) % 2 ^ 64)) := by
  have absent : (wrappedCache 2).entries.get (sampleKey 'x') = none := by decide +kernel
  have gets := @foldlM_get_absent .listed (sampleKey 'x') (wrappedCache 2) absent (by decide) n
  rw [run, wrappingOps, List.foldlM_append, puts_wrapping]
  simp only [Option.bind_eq_bind, Option.bind_some]
  rw [List.foldlM_append, gets]
  rfl

theorem recency_wrappingOps (n : ℕ) : recency (wrappingOps n) =
    [(sampleKey 'b', samplePayload (16 * 1024 * 1024)), (sampleKey 'a', samplePayload (16 * 1024 * 1024))] := by
  rw [recency, wrappingOps, List.foldl_append, List.foldl_append, recency_get_absent rfl]
  · decide +kernel
  · decide +kernel

/-- A larger value under its key displaces others, and after a wrapped count an entry touched later may go first. -/
theorem eviction_not_always_recent :
    ¬ (∀ ops order key value cache after, run ops = some cache → cache.publish order key value = some after →
      (cache.entries.get key).isSome → ∀ other, (cache.entries.get other).isSome → (after.entries.get other).isSome) ∧
    ¬ (∀ ops order key value cache after, run ops = some cache → cache.publish order key value = some after →
      value.bytes ≤ maxCacheBytes →
      after.contents.Perm ((key, value) :: keptBeside value.bytes (Lru.without key (recency ops)))) := by
  constructor
  · intro keeps
    have gone := keeps [samplePut 'a' 1, samplePut 'b' 1] .listed (sampleKey 'a') (samplePayload maxCacheBytes)
      ⟨((∅ : Map CacheKey Entry).insert (sampleKey 'a') ⟨samplePayload 1, 1⟩).insert (sampleKey 'b') ⟨samplePayload 1, 2⟩, 2, 2⟩
      ⟨(∅ : Map CacheKey Entry).insert (sampleKey 'a') ⟨samplePayload maxCacheBytes, 3⟩, maxCacheBytes, 3⟩
      rfl rfl (by decide +kernel) (sampleKey 'b') (by decide +kernel)
    revert gone
    decide +kernel
  · intro exactly
    have wrapped : ((2 + (2 ^ 64 - 3)) % 2 ^ 64 + 1) % 2 ^ 64 = 0 := by decide
    have ran := run_wrappingOps (2 ^ 64 - 3)
    rw [wrapped] at ran
    have held := exactly (wrappingOps (2 ^ 64 - 3)) .listed (sampleKey 'c') (samplePayload (16 * 1024 * 1024)) (wrappedCache 0)
      ⟨((∅ : Map CacheKey Entry).insert (sampleKey 'a') ⟨samplePayload (16 * 1024 * 1024), 1⟩).insert (sampleKey 'c')
        ⟨samplePayload (16 * 1024 * 1024), 1⟩, 32 * 1024 * 1024, 1⟩
      ran rfl (by decide +kernel)
    rw [recency_wrappingOps] at held
    revert held
    decide +kernel

end MemoryCache
end OpenLegal.Retrieval
