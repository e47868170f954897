import Mathlib.Data.List.AList
import Mathlib.Algebra.GroupWithZero.Nat

/-! # Hash maps

A `HashMap` is a list of entries with distinct keys. Its iteration order means nothing: results about
all values are stated up to permutation.
-/

namespace OpenLegal.Rust

/-- `HashMap<κ, υ>`. -/
abbrev Map (κ υ : Type) := AList fun _ : κ => υ

namespace Map

variable {κ υ : Type} [DecidableEq κ]

/-- `HashMap::get`. -/
def get (map : Map κ υ) (key : κ) : Option υ := AList.lookup key map

/-- `HashMap::insert`. -/
def insert (map : Map κ υ) (key : κ) (value : υ) : Map κ υ := AList.insert key value map

/-- A value changed in place through `HashMap::get_mut`. -/
def update (map : Map κ υ) (key : κ) (value : υ) : Map κ υ := AList.replace key value map

/-- `HashMap::remove`. -/
def remove (map : Map κ υ) (key : κ) : Map κ υ := AList.erase key map

/-- `HashMap::len`. -/
def len (map : Map κ υ) : ℕ := map.entries.length

/-- `HashMap::values`. -/
def values (map : Map κ υ) : List υ := map.entries.map Sigma.snd

/-- `HashMap::retain`. -/
def retain (map : Map κ υ) (keep : κ → υ → Bool) : Map κ υ :=
  ⟨map.entries.filter fun entry => keep entry.1 entry.2, map.nodupKeys.sublist List.filter_sublist⟩

@[simp] theorem get_empty (key : κ) : get (∅ : Map κ υ) key = none := rfl

@[simp] theorem get_insert (map : Map κ υ) (key : κ) (value : υ) : (map.insert key value).get key = some value :=
  AList.lookup_insert map

theorem get_insert_of_ne (map : Map κ υ) {key other : κ} (different : other ≠ key) (value : υ) :
    (map.insert key value).get other = map.get other :=
  AList.lookup_insert_ne different

@[simp] theorem get_remove (map : Map κ υ) (key : κ) : (map.remove key).get key = none := AList.lookup_erase key map

theorem get_remove_of_ne (map : Map κ υ) {key other : κ} (different : other ≠ key) :
    (map.remove key).get other = map.get other :=
  AList.lookup_erase_ne different

theorem mem_entries_iff {map : Map κ υ} {key : κ} {value : υ} :
    (⟨key, value⟩ : Σ _ : κ, υ) ∈ map.entries ↔ map.get key = some value :=
  (List.mem_dlookup_iff map.nodupKeys).symm

theorem get_retain (map : Map κ υ) (keep : κ → υ → Bool) (key : κ) :
    (map.retain keep).get key = (map.get key).filter (keep key) := by
  apply Option.ext
  intro value
  rw [Option.filter_eq_some_iff, ← mem_entries_iff, ← mem_entries_iff, retain]
  simp

omit [DecidableEq κ] in
@[simp] theorem values_empty : values (∅ : Map κ υ) = [] := rfl

omit [DecidableEq κ] in
theorem values_length (map : Map κ υ) : map.values.length = map.len := by
  simp [values, len]

theorem mem_values_iff {map : Map κ υ} {value : υ} : value ∈ map.values ↔ ∃ key, map.get key = some value := by
  simp only [values, List.mem_map, ← mem_entries_iff]
  constructor
  · rintro ⟨⟨key, value⟩, member, rfl⟩
    exact ⟨key, member⟩
  · rintro ⟨key, member⟩
    exact ⟨⟨key, value⟩, member, rfl⟩

omit [DecidableEq κ] in
/-- The values that go and those that stay. -/
theorem values_retain_perm (map : Map κ υ) (keep : κ → υ → Bool) :
    map.values.Perm ((map.retain fun key value => !keep key value).values ++ (map.retain keep).values) := by
  simp only [values, retain, ← List.map_append]
  refine List.Perm.map _ ?_
  exact ((List.filter_append_perm (fun entry : Σ _ : κ, υ => keep entry.1 entry.2) map.entries).symm).trans
    List.perm_append_comm

omit [DecidableEq κ] in
theorem values_retain_sublist (map : Map κ υ) (keep : κ → υ → Bool) : (map.retain keep).values.Sublist map.values :=
  List.filter_sublist.map _

theorem values_remove_sublist (map : Map κ υ) (key : κ) : (map.remove key).values.Sublist map.values :=
  (List.kerase_sublist key map.entries).map _

theorem values_insert (map : Map κ υ) (key : κ) (value : υ) :
    (map.insert key value).values = value :: (map.remove key).values := rfl

theorem remove_of_absent {map : Map κ υ} {key : κ} (absent : map.get key = none) : map.remove key = map :=
  AList.ext (List.kerase_of_notMem_keys (AList.lookup_eq_none.mp absent))

/-- A map is the entry under a present key and the rest. -/
theorem entries_remove_perm {map : Map κ υ} {key : κ} {value : υ} (present : map.get key = some value) :
    map.entries.Perm (⟨key, value⟩ :: (map.remove key).entries) := by
  have member : key ∈ map.entries.keys := AList.lookup_isSome.mp (by rw [show AList.lookup key map = _ from present]; rfl)
  obtain ⟨found, front, rear, -, entries, erased⟩ := List.exists_of_kerase member
  have same : found = value := by
    have inside : (⟨key, found⟩ : Σ _ : κ, υ) ∈ map.entries := by rw [entries]; simp
    rw [mem_entries_iff, present] at inside
    exact (Option.some.inj inside).symm
  subst same
  rw [show (map.remove key).entries = front ++ rear from erased, entries]
  exact List.perm_middle

/-- Removing an entry removes its value. -/
theorem values_remove_perm {map : Map κ υ} {key : κ} {value : υ} (present : map.get key = some value) :
    map.values.Perm (value :: (map.remove key).values) := by
  have entries := (entries_remove_perm present).map Sigma.snd
  rwa [List.map_cons] at entries

/-- Changing a present value is inserting over it, up to the order of entries. -/
theorem update_perm_insert {map : Map κ υ} {key : κ} {old : υ} (present : map.get key = some old) (value : υ) :
    (map.update key value).entries.Perm (map.insert key value).entries := by
  refine (List.Perm.kreplace map.nodupKeys (entries_remove_perm present)).trans ?_
  rw [show (map.insert key value).entries = ⟨key, value⟩ :: (map.remove key).entries from rfl]
  simp [List.kreplace, List.lookmap, List.lookmap.go]

theorem get_update {map : Map κ υ} {key : κ} {old : υ} (present : map.get key = some old) (value : υ) :
    (map.update key value).get key = some value :=
  (AList.perm_lookup (update_perm_insert present value)).trans (get_insert map key value)

theorem get_update_of_ne {map : Map κ υ} {key other : κ} {old : υ} (present : map.get key = some old)
    (different : other ≠ key) (value : υ) : (map.update key value).get other = map.get other :=
  (AList.perm_lookup (update_perm_insert present value)).trans (get_insert_of_ne map different value)

theorem update_self {map : Map κ υ} {key : κ} {value : υ} (present : map.get key = some value) :
    map.update key value = map :=
  AList.ext (List.kreplace_self map.nodupKeys (mem_entries_iff.mpr present))

theorem values_update_perm {map : Map κ υ} {key : κ} {old : υ} (present : map.get key = some old) (value : υ) :
    (map.update key value).values.Perm (value :: (map.remove key).values) := by
  rw [← values_insert]
  exact (update_perm_insert present value).map _

/-- A sum over all values, with one entry taken out. -/
theorem sum_values {map : Map κ υ} {key : κ} {value : υ} (present : map.get key = some value) (f : υ → ℕ) :
    (map.values.map f).sum = f value + ((map.remove key).values.map f).sum := by
  rw [((values_remove_perm present).map f).sum_nat, List.map_cons, List.sum_cons]

theorem sum_values_congr {map : Map κ υ} {f g : υ → ℕ} (same : ∀ key value, map.get key = some value → f value = g value) :
    (map.values.map f).sum = (map.values.map g).sum := by
  congr 1
  apply List.map_congr_left
  intro value member
  obtain ⟨key, present⟩ := (mem_values_iff).mp member
  exact same key value present

theorem get_of_get_retain {map : Map κ υ} {keep : κ → υ → Bool} {key : κ} {value : υ}
    (present : (map.retain keep).get key = some value) : map.get key = some value := by
  rw [get_retain] at present
  exact (Option.filter_eq_some_iff.mp present).1

theorem get_of_get_remove {map : Map κ υ} {key other : κ} {value : υ} (present : (map.remove key).get other = some value) :
    other ≠ key ∧ map.get other = some value := by
  by_cases same : other = key
  · rw [same, get_remove] at present
    cases present
  · rw [get_remove_of_ne _ same] at present
    exact ⟨same, present⟩

theorem get_of_get_insert {map : Map κ υ} {key other : κ} {new value : υ}
    (present : (map.insert key new).get other = some value) :
    (other = key ∧ value = new) ∨ (other ≠ key ∧ map.get other = some value) := by
  by_cases same : other = key
  · rw [same, get_insert] at present
    exact .inl ⟨same, (Option.some.inj present).symm⟩
  · rw [get_insert_of_ne _ same] at present
    exact .inr ⟨same, present⟩

theorem get_of_get_update {map : Map κ υ} {key other : κ} {old new value : υ} (before : map.get key = some old)
    (present : (map.update key new).get other = some value) :
    (other = key ∧ value = new) ∨ (other ≠ key ∧ map.get other = some value) := by
  by_cases same : other = key
  · rw [same, get_update before] at present
    exact .inl ⟨same, (Option.some.inj present).symm⟩
  · rw [get_update_of_ne before same] at present
    exact .inr ⟨same, present⟩

theorem len_update {map : Map κ υ} {key : κ} {old : υ} (before : map.get key = some old) (new : υ) :
    (map.update key new).len = map.len := by
  rw [← values_length, ← values_length, (values_update_perm before new).length_eq, (values_remove_perm before).length_eq,
    List.length_cons, List.length_cons]

/-- Removing a key keeps the entries under all others. -/
theorem entries_remove (map : Map κ υ) (key : κ) : (map.remove key).entries = map.entries.filter (·.1 ≠ key) := by
  have keyed := map.nodupKeys
  rw [show (map.remove key).entries = List.kerase key map.entries from rfl]
  generalize map.entries = entries at keyed ⊢
  induction entries with
  | nil => rfl
  | cons entry entries ih =>
    obtain ⟨absent, keyed⟩ := List.nodupKeys_cons.mp keyed
    by_cases same : key = entry.1
    · rw [List.kerase_cons_eq same, List.filter_cons_of_neg (by simp [same]), eq_comm, List.filter_eq_self]
      intro other member
      have different : other.1 ≠ key := fun equal => absent (by rw [← same, ← equal]; exact List.mem_map_of_mem member)
      simpa using different
    · rw [List.kerase_cons_ne same, List.filter_cons_of_pos (by simpa using Ne.symm same), ih keyed]

theorem len_remove_le (map : Map κ υ) (key : κ) : (map.remove key).len ≤ map.len := by
  rw [← values_length, ← values_length]
  exact (values_remove_sublist map key).length_le

theorem len_insert_of_absent {map : Map κ υ} {key : κ} (absent : map.get key = none) (value : υ) :
    (map.insert key value).len = map.len + 1 := by
  rw [← values_length, values_insert, remove_of_absent absent, List.length_cons, values_length]

end Map

end OpenLegal.Rust
