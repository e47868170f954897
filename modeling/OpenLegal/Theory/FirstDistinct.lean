import Mathlib.Data.List.Nodup

/-! # The first distinct items

Items are kept in the order in which they come, each once and up to a limit. An item of note is put first, for which the
last of a full list gives way.
-/

namespace OpenLegal.Theory

variable {α : Type*} [DecidableEq α] {limit : ℕ} {kept items : List α} {item x : α}

/-- One more item, if it is new and there is room. -/
def keep (limit : ℕ) (kept : List α) (item : α) : List α :=
  if item ∈ kept ∨ limit ≤ kept.length then kept else kept ++ [item]

/-- One more item before the others. -/
def prefer (limit : ℕ) (kept : List α) (item : α) : List α := (item :: kept).take limit

theorem prefix_keep : kept <+: keep limit kept item := by
  rw [keep]
  split_ifs
  · exact List.prefix_rfl
  · exact List.prefix_append kept [item]

theorem prefix_foldl_keep : kept <+: items.foldl (keep limit) kept := by
  induction items generalizing kept with
  | nil => exact List.prefix_rfl
  | cons item items ih => exact (prefix_keep).trans ih

theorem nodup_keep (nodup : kept.Nodup) : (keep limit kept item).Nodup := by
  rw [keep]
  split_ifs with stays
  · exact nodup
  · rw [not_or] at stays
    exact List.Nodup.append nodup (List.nodup_singleton item) (List.disjoint_singleton.mpr stays.1)

theorem length_keep (short : kept.length ≤ limit) : (keep limit kept item).length ≤ limit := by
  rw [keep]
  split_ifs with stays
  · exact short
  · rw [not_or, Nat.not_le] at stays
    rw [List.length_append, List.length_singleton]
    exact stays.2

theorem keep_of_full (full : limit ≤ kept.length) : keep limit kept item = kept := if_pos (.inr full)

theorem foldl_keep_of_full (full : limit ≤ kept.length) : items.foldl (keep limit) kept = kept := by
  induction items with
  | nil => rfl
  | cons item items ih => rw [List.foldl_cons, keep_of_full full, ih]

theorem foldl_keep_bounded (nodup : kept.Nodup) (short : kept.length ≤ limit) :
    (items.foldl (keep limit) kept).Nodup ∧ (items.foldl (keep limit) kept).length ≤ limit := by
  induction items generalizing kept with
  | nil => exact ⟨nodup, short⟩
  | cons item items ih => exact ih (nodup_keep nodup) (length_keep short)

omit [DecidableEq α] in
theorem nodup_prefer (nodup : kept.Nodup) (fresh : item ∉ kept) : (prefer limit kept item).Nodup :=
  (List.nodup_cons.mpr ⟨fresh, nodup⟩).sublist (List.take_sublist _ _)

omit [DecidableEq α] in
theorem length_prefer : (prefer limit kept item).length ≤ limit := List.length_take_le _ _

omit [DecidableEq α] in
theorem mem_prefer_self (positive : 0 < limit) : item ∈ prefer limit kept item := by
  obtain ⟨n, rfl⟩ := Nat.exists_eq_succ_of_ne_zero (Nat.ne_of_gt positive)
  exact List.mem_cons_self

/-- What was kept before a preferred item is among the items at last exactly if it did not give way. -/
theorem mem_foldl_prefer (member : x ∈ kept) :
    x ∈ items.foldl (keep limit) (prefer limit kept item) ↔ x ∈ prefer limit kept item := by
  constructor
  · intro last
    by_cases room : kept.length < limit
    · rw [prefer, List.take_of_length_le (by rw [List.length_cons]; exact room)]
      exact List.mem_cons_of_mem item member
    · rwa [foldl_keep_of_full] at last
      rw [prefer, List.length_take, List.length_cons]
      omega
  · exact fun first => (prefix_foldl_keep).subset first

end OpenLegal.Theory
