import Mathlib.Algebra.BigOperators.Group.List.Basic
import Mathlib.Data.List.Nodup
import Mathlib.Tactic.Abel
import Mathlib.Algebra.GroupWithZero.Nat

/-! # Tables

A table is a list of rows with a key. An `UPDATE … SET … WHERE …` replaces the rows that meet its condition and
keeps their keys, an `INSERT` adds a row, a `DELETE` keeps the rows that do not meet its condition. The lemmas say
what is known of the rows afterwards from what was known of them before.
-/

namespace OpenLegal.Theory

variable {α κ : Type*}

/-- `UPDATE … SET change WHERE meets`. -/
def updateWhere (meets : α → Bool) (change : α → α) (rows : List α) : List α :=
  rows.map fun row => if meets row then change row else row

/-- The first of the candidates in an order: `ORDER BY … LIMIT 1`. -/
def firstBy (before : α → α → Bool) : List α → Option α
  | [] => none
  | row :: rows =>
    match firstBy before rows with
    | none => some row
    | some other => if before other row then some other else some row

/-- No two rows have one key. -/
def Keyed (key : α → κ) (rows : List α) : Prop := (rows.map key).Nodup

section

variable {meets : α → Bool} {change : α → α} {rows : List α} {row : α} {key : α → κ}

theorem mem_updateWhere :
    row ∈ updateWhere meets change rows ↔ ∃ old ∈ rows, row = if meets old then change old else old := by
  simp only [updateWhere, List.mem_map]
  constructor
  · rintro ⟨old, member, rfl⟩
    exact ⟨old, member, rfl⟩
  · rintro ⟨old, member, rfl⟩
    exact ⟨old, member, rfl⟩

/-- A row afterwards is a changed row or an untouched one. -/
theorem mem_updateWhere_cases (member : row ∈ updateWhere meets change rows) :
    (∃ old ∈ rows, meets old = true ∧ row = change old) ∨ (row ∈ rows ∧ meets row = false) := by
  obtain ⟨old, present, rfl⟩ := (mem_updateWhere).mp member
  cases met : meets old with
  | true => exact .inl ⟨old, present, met, by simp⟩
  | false => exact .inr ⟨by simpa using present, by simpa using met⟩

theorem updateWhere_of_none (none : ∀ row ∈ rows, meets row = false) : updateWhere meets change rows = rows := by
  conv_rhs => rw [← List.map_id rows]
  apply List.map_congr_left
  intro row member
  simp [none row member]

/-- An update that does not change what is looked for changes the row that is found. -/
theorem find?_updateWhere {wanted : α → Bool} (keeps : ∀ row, meets row = true → wanted (change row) = wanted row) :
    (updateWhere meets change rows).find? wanted =
      (rows.find? wanted).map fun row => if meets row then change row else row := by
  rw [updateWhere, List.find?_map]
  congr 1
  apply congrArg (List.find? · rows)
  funext row
  simp only [Function.comp_apply]
  split
  · next met => exact keeps row met
  · rfl

theorem firstBy_mem {before : α → α → Bool} (found : firstBy before rows = some row) : row ∈ rows := by
  induction rows generalizing row with
  | nil => cases found
  | cons head rows ih =>
    rw [firstBy] at found
    split at found
    · cases found
      exact List.mem_cons_self
    · next other first =>
      split at found
      · cases found
        exact List.mem_cons_of_mem _ (ih first)
      · cases found
        exact List.mem_cons_self

theorem firstBy_eq_none {before : α → α → Bool} : firstBy before rows = none ↔ rows = [] := by
  cases rows with
  | nil => exact ⟨fun _ => rfl, fun _ => rfl⟩
  | cons head rows =>
    simp only [firstBy, reduceCtorEq, iff_false]
    split
    · simp
    · split <;> simp

theorem map_key_updateWhere (keeps : ∀ row ∈ rows, meets row = true → key (change row) = key row) :
    (updateWhere meets change rows).map key = rows.map key := by
  rw [updateWhere, List.map_map]
  apply List.map_congr_left
  intro row member
  simp only [Function.comp_apply]
  split
  · next met => exact keeps row member met
  · rfl

theorem Keyed.update (keyed : Keyed key rows) (keeps : ∀ row ∈ rows, meets row = true → key (change row) = key row) :
    Keyed key (updateWhere meets change rows) := by
  rw [Keyed, map_key_updateWhere keeps]
  exact keyed

theorem Keyed.insert (keyed : Keyed key rows) (fresh : ∀ old ∈ rows, key old ≠ key row) : Keyed key (rows ++ [row]) := by
  rw [Keyed, List.map_append, List.map_singleton]
  apply keyed.append (List.nodup_singleton _)
  intro found member
  simp only [List.mem_singleton]
  rintro rfl
  obtain ⟨old, present, same⟩ := List.mem_map.mp member
  exact fresh old present same

theorem Keyed.filter (keyed : Keyed key rows) (keep : α → Bool) : Keyed key (rows.filter keep) :=
  keyed.sublist (List.filter_sublist.map key)

theorem Keyed.eq_of_key (keyed : Keyed key rows) {other : α} (member : row ∈ rows) (member' : other ∈ rows)
    (same : key row = key other) : row = other :=
  List.inj_on_of_nodup_map keyed member member' same

/-- The row with a key is the one that is found under it. -/
theorem Keyed.find?_eq_some [DecidableEq κ] (keyed : Keyed key rows) (member : row ∈ rows) :
    rows.find? (fun other => key other = key row) = some row := by
  cases found : rows.find? (fun other => key other = key row) with
  | none =>
    have absent := List.find?_eq_none.mp found row member
    simp at absent
  | some other =>
    have same : key other = key row := by simpa using List.find?_some found
    rw [keyed.eq_of_key (List.mem_of_find?_eq_some found) member same]

/-- An update of the row with one key. -/
theorem Keyed.mem_updateWhere_key [DecidableEq κ] (keyed : Keyed key rows) {other : α} (member : row ∈ rows)
    (found : other ∈ updateWhere (fun candidate => key candidate == key row) change rows) :
    other = change row ∨ (other ∈ rows ∧ key other ≠ key row) := by
  rcases mem_updateWhere_cases found with ⟨old, present, met, rfl⟩ | ⟨present, unmet⟩
  · rw [keyed.eq_of_key present member (beq_iff_eq.mp met)]
    exact .inl rfl
  · exact .inr ⟨present, by simpa using unmet⟩

/-- A condition that singles out one row is a condition on its key. -/
theorem Keyed.updateWhere_eq_key [DecidableEq κ] (keyed : Keyed key rows) (member : row ∈ rows) (met : meets row = true)
    (only : ∀ other, meets other = true → key other = key row) :
    updateWhere meets change rows = updateWhere (fun other => key other == key row) change rows := by
  apply List.map_congr_left
  intro other present
  by_cases same : key other = key row
  · rw [keyed.eq_of_key present member same, if_pos met, if_pos (by simp)]
  · rw [if_neg fun also => same (only other also), if_neg (by simpa using same)]

/-- A count does not grow if only counted rows become counted ones. -/
theorem countP_updateWhere_le {counted : α → Bool}
    (kept : ∀ row ∈ rows, meets row = true → counted (change row) = true → counted row = true) :
    (updateWhere meets change rows).countP counted ≤ rows.countP counted := by
  rw [updateWhere, List.countP_map]
  apply List.countP_mono_left
  intro row member holds
  simp only [Function.comp_apply] at holds
  split at holds
  · next met => exact kept row member met holds
  · exact holds

/-- An update of one row raises a count by one at most. -/
theorem countP_updateWhere_le_succ [DecidableEq κ] {counted : α → Bool} (keyed : Keyed key rows) (id : κ)
    (one : ∀ row ∈ rows, meets row = true → key row = id) :
    (updateWhere meets change rows).countP counted ≤ rows.countP counted + 1 := by
  induction rows with
  | nil => simp [updateWhere]
  | cons head rows ih =>
    have tail := ih (List.nodup_cons.mp keyed).2 fun row member => one row (List.mem_cons_of_mem _ member)
    rw [updateWhere, List.map_cons, List.countP_cons, List.countP_cons]
    cases met : meets head with
    | false =>
      simp only [Bool.false_eq_true, ↓reduceIte]
      change (updateWhere meets change rows).countP counted + _ ≤ _
      omega
    | true =>
      -- no later row has the key of this one
      have rest : updateWhere meets change rows = rows := by
        apply updateWhere_of_none
        intro row member
        by_contra also
        have same := (one head List.mem_cons_self met).trans
          (one row (List.mem_cons_of_mem _ member) (by simpa using also)).symm
        apply (List.nodup_cons.mp keyed).1
        rw [same]
        exact List.mem_map_of_mem member
      change (updateWhere meets change rows).countP counted + _ ≤ _
      rw [rest]
      split_ifs <;> omega

/-- A sum over some of the rows. -/
theorem sum_map_filter {M : Type*} [AddMonoid M] (keep : α → Bool) (amount : α → M) (rows : List α) :
    ((rows.filter keep).map amount).sum = (rows.map fun row => if keep row then amount row else 0).sum := by
  induction rows with
  | nil => rfl
  | cons head rows ih =>
    rw [List.map_cons, List.sum_cons, ← ih]
    cases kept : keep head <;> simp [kept]

/-- Two sums that differ at one row. -/
theorem Keyed.sum_map_eq_add {M : Type*} [AddCommGroup M] (keyed : Keyed key rows) (before after : α → M)
    (member : row ∈ rows) (same : ∀ other ∈ rows, key other ≠ key row → after other = before other) :
    (rows.map after).sum = (rows.map before).sum + (after row - before row) := by
  induction rows with
  | nil => cases member
  | cons head rows ih =>
    obtain ⟨fresh, keyed⟩ := List.nodup_cons.mp keyed
    rw [List.map_cons, List.map_cons, List.sum_cons, List.sum_cons]
    rcases List.mem_cons.mp member with rfl | within
    · have rest : rows.map after = rows.map before := by
        apply List.map_congr_left
        intro other present
        apply same other (List.mem_cons_of_mem _ present)
        intro equal
        exact fresh (equal ▸ List.mem_map_of_mem present)
      rw [rest]
      abel
    · have first : after head = before head := by
        apply same head List.mem_cons_self
        intro equal
        exact fresh (equal ▸ List.mem_map_of_mem within)
      rw [first, ih keyed within fun other present => same other (List.mem_cons_of_mem _ present)]
      abel

end

end OpenLegal.Theory
