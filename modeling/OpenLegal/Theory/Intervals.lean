import Mathlib.Data.List.Basic
import Mathlib.Data.List.Pairwise
import Mathlib.Order.Lattice
import Mathlib.Order.Defs.LinearOrder

/-! # Lists of half-open intervals

Intervals that arrive in order are joined from left to right: one that starts where the last one ends
continues it. The result is the only list of separate intervals with the same points.
-/

namespace OpenLegal.Theory.Intervals

variable {α : Type*} [LinearOrder α] {intervals others : List (α × α)} {a b x : α}

/-- The points of the intervals. -/
def Covers (intervals : List (α × α)) (x : α) : Prop :=
  ∃ interval ∈ intervals, interval.1 ≤ x ∧ x < interval.2

/-- Nonempty intervals in order, with a gap between any two. -/
structure Apart (intervals : List (α × α)) : Prop where
  nonempty : ∀ interval ∈ intervals, interval.1 < interval.2
  gaps : intervals.Pairwise fun first second => first.2 < second.1

/-- Puts an interval behind the others, as the continuation of the last one if they touch. -/
def extend (intervals : List (α × α)) (interval : α × α) : List (α × α) :=
  match intervals.getLast?.filter (·.2 == interval.1) with
  | some last => intervals.dropLast ++ [(last.1, interval.2)]
  | none => intervals ++ [interval]

/-- The intervals, joined where they touch. -/
def joined (intervals : List (α × α)) : List (α × α) := intervals.foldl extend []

theorem covers_nil : ¬ Covers ([] : List (α × α)) x := by
  simp [Covers]

theorem covers_append : Covers (intervals ++ others) x ↔ Covers intervals x ∨ Covers others x := by
  simp only [Covers, List.mem_append, or_and_right, exists_or]

theorem covers_cons {interval : α × α} :
    Covers (interval :: intervals) x ↔ (interval.1 ≤ x ∧ x < interval.2) ∨ Covers intervals x := by
  simp only [Covers, List.mem_cons, exists_eq_or_imp]

theorem covers_singleton {interval : α × α} : Covers [interval] x ↔ interval.1 ≤ x ∧ x < interval.2 := by
  simp only [Covers, List.mem_singleton, exists_eq_left]

theorem apart_nil : Apart ([] : List (α × α)) := ⟨by simp, .nil⟩

theorem apart_cons {interval : α × α} :
    Apart (interval :: intervals) ↔
      interval.1 < interval.2 ∧ (∀ other ∈ intervals, interval.2 < other.1) ∧ Apart intervals := by
  constructor
  · intro apart
    obtain ⟨behind, gaps⟩ := List.pairwise_cons.mp apart.gaps
    exact ⟨apart.nonempty _ List.mem_cons_self, behind, fun _ member => apart.nonempty _ (.tail _ member), gaps⟩
  · rintro ⟨nonempty, behind, apart⟩
    exact ⟨List.forall_mem_cons.mpr ⟨nonempty, apart.nonempty⟩, List.pairwise_cons.mpr ⟨behind, apart.gaps⟩⟩

theorem apart_concat {interval : α × α} :
    Apart (intervals ++ [interval]) ↔
      Apart intervals ∧ (∀ other ∈ intervals, other.2 < interval.1) ∧ interval.1 < interval.2 := by
  constructor
  · intro apart
    obtain ⟨gaps, -, behind⟩ := List.pairwise_append.mp apart.gaps
    refine ⟨⟨fun other member => apart.nonempty other (List.mem_append_left _ member), gaps⟩, ?_, ?_⟩
    · intro other member
      exact behind other member interval (List.mem_singleton_self _)
    · exact apart.nonempty interval (List.mem_append_right _ (List.mem_singleton_self _))
  · rintro ⟨apart, behind, nonempty⟩
    refine ⟨?_, List.pairwise_append.mpr ⟨apart.gaps, List.pairwise_singleton _ _, ?_⟩⟩
    · rw [List.forall_mem_append]
      exact ⟨apart.nonempty, by simpa using nonempty⟩
    · simpa using behind

theorem extend_nil (interval : α × α) : extend [] interval = [interval] := rfl

theorem extend_concat (intervals : List (α × α)) (last interval : α × α) :
    extend (intervals ++ [last]) interval =
      if last.2 = interval.1 then intervals ++ [(last.1, interval.2)] else intervals ++ [last] ++ [interval] := by
  by_cases touches : last.2 = interval.1
  · simp [extend, touches, Option.filter]
  · simp [extend, touches, Option.filter]

theorem length_le_length_extend (intervals : List (α × α)) (interval : α × α) :
    intervals.length ≤ (extend intervals interval).length := by
  obtain rfl | ⟨init, last, rfl⟩ := List.eq_nil_or_concat' intervals
  · exact Nat.zero_le _
  · rw [extend_concat]
    split <;> simp

theorem length_le_length_foldl (intervals shown : List (α × α)) :
    shown.length ≤ (intervals.foldl extend shown).length := by
  induction intervals generalizing shown with
  | nil => exact le_rfl
  | cons interval intervals ih => exact (length_le_length_extend shown interval).trans (ih _)

/-- An interval behind the others keeps them separate and adds exactly its points. -/
theorem extend_spec {shown : List (α × α)} {interval : α × α} (apart : Apart shown)
    (behind : ∀ other ∈ shown, other.2 ≤ interval.1) (nonempty : interval.1 < interval.2) :
    Apart (extend shown interval) ∧ (∀ other ∈ extend shown interval, other.2 ≤ interval.2) ∧
      ∀ x, Covers (extend shown interval) x ↔ Covers shown x ∨ (interval.1 ≤ x ∧ x < interval.2) := by
  obtain rfl | ⟨init, last, rfl⟩ := List.eq_nil_or_concat' shown
  · rw [extend_nil]
    refine ⟨(apart_cons).mpr ⟨nonempty, by simp, apart_nil⟩, by simp, fun x => ?_⟩
    rw [covers_singleton, iff_false_intro covers_nil, false_or]
  obtain ⟨initApart, initBehind, lastNonempty⟩ := (apart_concat).mp apart
  have early : ∀ other ∈ init, other.2 ≤ interval.2 := fun other member =>
    (behind other (List.mem_append_left _ member)).trans nonempty.le
  have lastEnd : last.2 ≤ interval.1 := behind last (by simp)
  rw [extend_concat]
  split
  · next touches =>
    refine ⟨(apart_concat).mpr ⟨initApart, initBehind, ?_⟩, ?_, fun x => ?_⟩
    · exact lastNonempty.trans (touches ▸ nonempty)
    · simp only [List.forall_mem_append, List.forall_mem_singleton]
      exact ⟨early, le_rfl⟩
    · rw [covers_append, covers_append, covers_singleton, covers_singleton, or_assoc]
      refine or_congr_right ⟨fun inside => ?_, ?_⟩
      · rcases lt_or_ge x last.2 with before | after
        · exact .inl ⟨inside.1, before⟩
        · exact .inr ⟨touches ▸ after, inside.2⟩
      · rintro (inside | inside)
        · exact ⟨inside.1, inside.2.trans (touches ▸ nonempty)⟩
        · exact ⟨lastNonempty.le.trans (lastEnd.trans inside.1), inside.2⟩
  · next separate =>
    refine ⟨(apart_concat).mpr ⟨apart, fun other member => ?_, nonempty⟩, ?_, fun x => ?_⟩
    · have gap : last.2 < interval.1 := lt_of_le_of_ne lastEnd separate
      rcases List.mem_append.mp member with member | member
      · exact (initBehind other member).trans (lastNonempty.trans gap)
      · rwa [List.mem_singleton.mp member]
    · simp only [List.forall_mem_append, List.forall_mem_singleton]
      exact ⟨⟨early, lastEnd.trans nonempty.le⟩, le_rfl⟩
    · rw [covers_append, covers_singleton]

/-- Joining keeps the points of nonempty intervals in order and leaves a gap between any two. -/
theorem foldl_extend_spec {shown : List (α × α)} (apart : Apart shown)
    (sorted : intervals.Pairwise fun first second => first.2 ≤ second.1)
    (nonempty : ∀ interval ∈ intervals, interval.1 < interval.2)
    (behind : ∀ other ∈ shown, ∀ interval ∈ intervals, other.2 ≤ interval.1) :
    Apart (intervals.foldl extend shown) ∧
      ∀ x, Covers (intervals.foldl extend shown) x ↔ Covers shown x ∨ Covers intervals x := by
  induction intervals generalizing shown with
  | nil =>
    refine ⟨apart, fun x => ?_⟩
    rw [List.foldl_nil, or_iff_left covers_nil]
  | cons interval intervals ih =>
    obtain ⟨later, sorted⟩ := List.pairwise_cons.mp sorted
    obtain ⟨first, nonempty⟩ := List.forall_mem_cons.mp nonempty
    obtain ⟨extended, ends, points⟩ :=
      extend_spec apart (fun other member => behind other member interval List.mem_cons_self) first
    obtain ⟨result, covered⟩ := ih extended sorted nonempty fun other member next inside =>
      (ends other member).trans (later next inside)
    refine ⟨result, fun x => ?_⟩
    rw [List.foldl_cons, covered, points, covers_cons, or_assoc]

theorem joined_apart (sorted : intervals.Pairwise fun first second => first.2 ≤ second.1)
    (nonempty : ∀ interval ∈ intervals, interval.1 < interval.2) : Apart (joined intervals) :=
  (foldl_extend_spec apart_nil sorted nonempty (by simp)).1

theorem covers_joined (sorted : intervals.Pairwise fun first second => first.2 ≤ second.1)
    (nonempty : ∀ interval ∈ intervals, interval.1 < interval.2) :
    Covers (joined intervals) x ↔ Covers intervals x := by
  rw [joined, (foldl_extend_spec apart_nil sorted nonempty (by simp)).2, or_iff_right covers_nil]

/-! ## Separate intervals are determined by their points -/

/-- No point before the first interval is covered. -/
theorem Apart.le_of_covers {interval : α × α} (apart : Apart (interval :: intervals))
    (covers : Covers (interval :: intervals) x) : interval.1 ≤ x := by
  obtain ⟨nonempty, behind, -⟩ := (apart_cons).mp apart
  rcases (covers_cons).mp covers with inside | ⟨other, member, inside⟩
  · exact inside.1
  · exact (nonempty.trans (behind other member)).le.trans inside.1

/-- The end of an interval is not covered. -/
theorem Apart.not_covers_end {interval : α × α} (apart : Apart (interval :: intervals)) :
    ¬ Covers (interval :: intervals) interval.2 := by
  obtain ⟨-, behind, -⟩ := (apart_cons).mp apart
  intro covers
  rcases (covers_cons).mp covers with inside | ⟨other, member, inside⟩
  · exact lt_irrefl _ inside.2
  · exact not_lt_of_ge inside.1 (behind other member)

theorem Apart.covers_tail_iff {interval : α × α} (apart : Apart (interval :: intervals)) :
    Covers intervals x ↔ Covers (interval :: intervals) x ∧ interval.2 ≤ x := by
  obtain ⟨-, behind, -⟩ := (apart_cons).mp apart
  rw [covers_cons]
  constructor
  · rintro ⟨other, member, inside⟩
    exact ⟨.inr ⟨other, member, inside⟩, (behind other member).le.trans inside.1⟩
  · rintro ⟨inside | covered, after⟩
    · exact absurd inside.2 (not_lt_of_ge after)
    · exact covered

theorem Apart.head_le {first second : α × α} (apart : Apart (first :: intervals)) (other : Apart (second :: others))
    (same : ∀ x, Covers (first :: intervals) x ↔ Covers (second :: others) x) : first.1 ≤ second.1 := by
  apply apart.le_of_covers
  rw [same, covers_cons]
  exact .inl ⟨le_rfl, (apart_cons.mp other).1⟩

/-- If the first intervals start together, the first one does not end earlier. -/
theorem Apart.end_le {first second : α × α} (apart : Apart (first :: intervals))
    (same : ∀ x, Covers (first :: intervals) x ↔ Covers (second :: others) x) (start : second.1 ≤ first.1) :
    second.2 ≤ first.2 := by
  by_contra longer
  apply apart.not_covers_end
  rw [same, covers_cons]
  exact .inl ⟨start.trans (apart_cons.mp apart).1.le, lt_of_not_ge longer⟩

/-- Two lists of separate intervals with the same points are the same list. -/
theorem Apart.eq_of_covers (apart : Apart intervals) (other : Apart others)
    (same : ∀ x, Covers intervals x ↔ Covers others x) : intervals = others := by
  induction intervals generalizing others with
  | nil =>
    cases others with
    | nil => rfl
    | cons second others =>
      exact absurd ((same second.1).mpr (covers_cons.mpr (.inl ⟨le_rfl, (apart_cons.mp other).1⟩))) covers_nil
  | cons first intervals ih =>
    cases others with
    | nil => exact absurd ((same first.1).mp (covers_cons.mpr (.inl ⟨le_rfl, (apart_cons.mp apart).1⟩))) covers_nil
    | cons second others =>
      have reverse := fun x => (same x).symm
      have start : first.1 = second.1 := le_antisymm (apart.head_le other same) (other.head_le apart reverse)
      have stop : first.2 = second.2 := le_antisymm (other.end_le reverse start.le) (apart.end_le same start.ge)
      have tails : intervals = others := by
        apply ih (apart_cons.mp apart).2.2 (apart_cons.mp other).2.2
        intro x
        rw [apart.covers_tail_iff, other.covers_tail_iff, same, stop]
      rw [Prod.ext start stop, tails]

end OpenLegal.Theory.Intervals
