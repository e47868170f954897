import Mathlib.Data.List.Basic
import Mathlib.Data.List.Nodup
import Mathlib.Algebra.BigOperators.Group.List.Basic
import Mathlib.Algebra.GroupWithZero.Nat

/-! # Least recently used

A cache is a list of entries, the most recently touched one first. An insertion keeps the longest beginning of it
that leaves enough room, so that what goes is what was touched longest ago.
-/

namespace OpenLegal.Theory.Lru

variable {κ υ : Type} (weight : υ → ℕ)

/-- The weight of all entries together. -/
def total (entries : List (κ × υ)) : ℕ := (entries.map fun entry => weight entry.2).sum

@[simp] theorem total_nil : total weight ([] : List (κ × υ)) = 0 := rfl

@[simp] theorem total_cons (entry : κ × υ) (entries : List (κ × υ)) :
    total weight (entry :: entries) = weight entry.2 + total weight entries := rfl

theorem total_perm {entries others : List (κ × υ)} (perm : entries.Perm others) : total weight entries = total weight others :=
  (perm.map fun entry : κ × υ => weight entry.2).sum_eq

/-- The weight of what goes and of what stays. -/
theorem total_filter (goes : κ × υ → Bool) (entries : List (κ × υ)) :
    total weight entries = total weight (entries.filter goes) + total weight (entries.filter (!goes ·)) := by
  rw [← total_perm weight (List.filter_append_perm goes entries), total, List.map_append, List.sum_append]
  rfl

/-- At most so many entries of at most so much weight. -/
def Fits (slots room : ℕ) (entries : List (κ × υ)) : Prop := entries.length ≤ slots ∧ total weight entries ≤ room

/-- The longest beginning that fits. -/
def fitting : ℕ → ℕ → List (κ × υ) → List (κ × υ)
  | 0, _, _ => []
  | _ + 1, _, [] => []
  | slots + 1, room, entry :: entries =>
    if weight entry.2 ≤ room then entry :: fitting slots (room - weight entry.2) entries else []

variable {weight} {slots room : ℕ} {entries : List (κ × υ)}

theorem fits_cons {entry : κ × υ} : Fits weight (slots + 1) room (entry :: entries) ↔
    weight entry.2 ≤ room ∧ Fits weight slots (room - weight entry.2) entries := by
  simp only [Fits, List.length_cons, total_cons]
  omega

theorem fits_fitting (slots room : ℕ) (entries : List (κ × υ)) : Fits weight slots room (fitting weight slots room entries) := by
  induction entries generalizing slots room with
  | nil => cases slots <;> exact ⟨Nat.zero_le _, Nat.zero_le _⟩
  | cons entry entries ih =>
    cases slots with
    | zero => exact ⟨Nat.zero_le _, Nat.zero_le _⟩
    | succ slots =>
      rw [fitting]
      split
      · next fit => exact (fits_cons).mpr ⟨fit, ih slots _⟩
      · exact ⟨Nat.zero_le _, Nat.zero_le _⟩

theorem fitting_isPrefix (slots room : ℕ) (entries : List (κ × υ)) : fitting weight slots room entries <+: entries := by
  induction entries generalizing slots room with
  | nil => cases slots <;> exact List.prefix_rfl
  | cons entry entries ih =>
    cases slots with
    | zero => exact List.nil_prefix
    | succ slots =>
      rw [fitting]
      split
      · exact List.prefix_cons_inj entry |>.mpr (ih slots _)
      · exact List.nil_prefix

/-- No longer beginning fits. -/
theorem isPrefix_fitting {front : List (κ × υ)} (begins : front <+: entries) (fits : Fits weight slots room front) :
    front <+: fitting weight slots room entries := by
  induction front generalizing slots room entries with
  | nil => exact List.nil_prefix
  | cons entry front ih =>
    obtain ⟨rear, rfl⟩ := begins
    cases slots with
    | zero => exact absurd fits.1 (by simp)
    | succ slots =>
      obtain ⟨light, fits⟩ := (fits_cons).mp fits
      rw [List.cons_append, fitting, if_pos light]
      exact (List.prefix_cons_inj entry).mpr (ih (List.prefix_append front rear) fits)

theorem fitting_of_fits (fits : Fits weight slots room entries) : fitting weight slots room entries = entries :=
  (fitting_isPrefix slots room entries).eq_of_length_le (isPrefix_fitting List.prefix_rfl fits).length_le

/-- Where not everything fits, the last entry goes. -/
theorem fitting_concat {entry : κ × υ} (full : ¬ Fits weight slots room (entries ++ [entry])) :
    fitting weight slots room (entries ++ [entry]) = fitting weight slots room entries := by
  have shorter : fitting weight slots room (entries ++ [entry]) <+: entries := by
    rcases List.prefix_concat_iff.mp (fitting_isPrefix slots room (entries ++ [entry])) with whole | inside
    · have fits := @fits_fitting κ υ weight slots room (entries ++ [entry])
      rw [whole] at fits
      exact absurd fits full
    · exact inside
  apply List.IsPrefix.eq_of_length_le
  · exact isPrefix_fitting shorter (fits_fitting slots room _)
  · have longer := isPrefix_fitting ((fitting_isPrefix slots room entries).trans (List.prefix_append entries [entry]))
      (@fits_fitting κ υ weight slots room entries)
    exact longer.length_le

section Keys

variable [DecidableEq κ]

/-- The entries under other keys. -/
def without (key : κ) (entries : List (κ × υ)) : List (κ × υ) := entries.filter (·.1 ≠ key)

/-- The entry under a key comes to the front. -/
def touch (key : κ) (entries : List (κ × υ)) : List (κ × υ) :=
  match entries.find? (·.1 = key) with
  | some entry => entry :: without key entries
  | none => entries

variable (weight) in
/-- A new entry comes to the front; the others stay as long as there is room for them. -/
def put (slots room : ℕ) (key : κ) (value : υ) (entries : List (κ × υ)) : List (κ × υ) :=
  (key, value) :: fitting weight slots room (without key entries)

theorem touch_of_mem {entries : List (κ × υ)} (distinct : (entries.map Prod.fst).Nodup) {key : κ} {value : υ}
    (member : (key, value) ∈ entries) : touch key entries = (key, value) :: without key entries := by
  rw [touch]
  cases found : entries.find? (·.1 = key) with
  | none => simpa using List.find?_eq_none.mp found _ member
  | some entry =>
    have same : entry.1 = key := by simpa using List.find?_some found
    rw [List.inj_on_of_nodup_map distinct (List.mem_of_find?_eq_some found) member same]

theorem touch_of_absent {entries : List (κ × υ)} {key : κ} (absent : ∀ entry ∈ entries, entry.1 ≠ key) :
    touch key entries = entries := by
  rw [touch, List.find?_eq_none.mpr (by simpa using absent)]

end Keys

end OpenLegal.Theory.Lru
