import Mathlib.Algebra.Order.Field.Basic
import Mathlib.Tactic.Linarith
import Mathlib.Tactic.Ring

/-! # Token buckets

A bucket fills at a steady rate up to its capacity, and every admitted call takes one token. What it holds at a time is
determined by the calls that took a token, so that it does not matter how often it was looked at in between.
-/

namespace OpenLegal.Theory

/-- What a bucket held at some time. -/
structure TokenBucket (K : Type) where
  level : K
  time : K

namespace TokenBucket

section Definitions

variable {K τ : Type} [Field K] [LinearOrder K] (capacity rate : K) (time : τ → K)

/-- What the bucket holds at a later time. -/
def levelAt (bucket : TokenBucket K) (now : K) : K := min capacity (bucket.level + rate * (now - bucket.time))

/-- One token is taken. -/
def take (bucket : TokenBucket K) (now : K) : TokenBucket K := ⟨bucket.levelAt capacity rate now - 1, now⟩

/-- What is left after some calls have taken their tokens. -/
def drained (bucket : TokenBucket K) (taken : List τ) : TokenBucket K :=
  taken.foldl (fun bucket call => bucket.take capacity rate (time call)) bucket

/-- Calls with their outcomes: a call is admitted if there is a whole token for it. -/
def run (bucket : TokenBucket K) : List τ → List (τ × Bool)
  | [] => []
  | call :: calls =>
    if 1 ≤ bucket.levelAt capacity rate (time call) then
      (call, true) :: run (bucket.take capacity rate (time call)) calls
    else (call, false) :: run bucket calls

end Definitions

/-- The calls that were admitted. -/
def admitted {τ : Type} (results : List (τ × Bool)) : List τ := (results.filter (·.2)).map Prod.fst

section Outcomes

variable {K τ : Type} [Field K] [LinearOrder K] {capacity rate : K} {time : τ → K} {bucket : TokenBucket K}

theorem run_fst (calls : List τ) : (bucket.run capacity rate time calls).map Prod.fst = calls := by
  induction calls generalizing bucket with
  | nil => rfl
  | cons call calls ih =>
    rw [run]
    split <;> rw [List.map_cons, ih]

/-- A call is refused exactly if the bucket that the admitted calls before it have left holds less than a token. -/
theorem refused_iff {calls : List τ} {before after : List (τ × Bool)} {call : τ × Bool}
    (split : bucket.run capacity rate time calls = before ++ call :: after) :
    call.2 = false ↔ (bucket.drained capacity rate time (admitted before)).levelAt capacity rate (time call.1) < 1 := by
  induction before generalizing bucket calls with
  | nil =>
    cases calls with
    | nil => cases split
    | cons first calls =>
      rw [run] at split
      split at split
      · next whole =>
        cases split
        simpa [drained, admitted] using whole
      · next partly =>
        cases split
        simpa [drained, admitted] using partly
  | cons earlier before ih =>
    cases calls with
    | nil => cases split
    | cons first calls =>
      rw [run] at split
      split at split
      · obtain ⟨rfl, rest⟩ := List.cons.inj split
        exact ih rest
      · obtain ⟨rfl, rest⟩ := List.cons.inj split
        exact ih rest

/-- The outcomes stay the same when refused calls are left out. -/
theorem run_of_sublist {calls : List τ} {kept : List (τ × Bool)} (inside : kept.Sublist (bucket.run capacity rate time calls))
    (same : admitted kept = admitted (bucket.run capacity rate time calls)) :
    bucket.run capacity rate time (kept.map Prod.fst) = kept := by
  induction calls generalizing bucket kept with
  | nil => rw [List.sublist_nil.mp inside]; rfl
  | cons call calls ih =>
    rw [run] at inside same
    split at inside
    · next whole =>
      rw [if_pos whole] at same
      cases inside with
      | cons _ inside =>
        -- an admitted call is not left out
        have fewer := ((inside.filter (·.2)).map Prod.fst).length_le
        have equal := congrArg List.length same
        simp only [admitted, List.filter_cons_of_pos, List.map_cons, List.length_cons] at equal fewer
        omega
      | @cons_cons kept _ _ inside =>
        simp only [admitted, List.filter_cons_of_pos, List.map_cons, List.cons.injEq, true_and] at same
        rw [List.map_cons, run, if_pos whole, ih inside same]
    · next partly =>
      rw [if_neg partly] at same
      cases inside with
      | cons _ inside => exact ih inside same
      | @cons_cons kept _ _ inside => rw [List.map_cons, run, if_neg partly, ih inside same]

end Outcomes

/-! ## Windows -/

section Windows

variable {K τ : Type} [LinearOrder K] {time : τ → K}

/-- The admitted calls of a time window. -/
def inWindow (time : τ → K) (first last : K) (results : List (τ × Bool)) : List (τ × Bool) :=
  results.filter fun result => result.2 && decide (first ≤ time result.1) && decide (time result.1 ≤ last)

theorem inWindow_eq_nil {first last : K} {results : List (τ × Bool)} (later : ∀ call ∈ results.map Prod.fst, last < time call) :
    inWindow time first last results = [] := by
  rw [inWindow, List.filter_eq_nil_iff]
  intro result member
  simp [later result.1 (List.mem_map_of_mem member)]

theorem length_inWindow_cons_le (first last : K) (call : τ × Bool) (results : List (τ × Bool)) :
    (inWindow time first last (call :: results)).length ≤ (inWindow time first last results).length + 1 := by
  rw [inWindow, List.filter_cons]
  split
  · exact le_rfl
  · exact Nat.le_succ _

theorem inWindow_cons_of_neg {first last : K} {call : τ × Bool} (results : List (τ × Bool))
    (outside : ¬ (call.2 = true ∧ first ≤ time call.1 ∧ time call.1 ≤ last)) :
    inWindow time first last (call :: results) = inWindow time first last results := by
  apply List.filter_cons_of_neg
  simpa [and_assoc] using outside

end Windows

variable {K τ : Type} [Field K] [LinearOrder K] [IsStrictOrderedRing K] {capacity rate : K} {time : τ → K}
  {bucket : TokenBucket K}

/-- Looking at the bucket changes nothing. -/
theorem levelAt_levelAt (nonneg : 0 ≤ rate) {seen now : K} (later : seen ≤ now) :
    (⟨bucket.levelAt capacity rate seen, seen⟩ : TokenBucket K).levelAt capacity rate now = bucket.levelAt capacity rate now := by
  have gained : 0 ≤ rate * (now - seen) := mul_nonneg nonneg (sub_nonneg.mpr later)
  simp only [levelAt]
  rw [min_add, ← min_assoc, min_eq_left (le_add_of_nonneg_right gained)]
  congr 1
  ring

/-- From a level that is not negative, no more is taken than the bucket holds and gains. -/
theorem length_inWindow_le_level (bucket : TokenBucket K) (nonneg : 0 ≤ rate) (first : K) {last : K} {calls : List τ}
    (ordered : calls.Pairwise fun a b => time a ≤ time b) (held : 0 ≤ bucket.level) (before : bucket.time ≤ last) :
    ((inWindow time first last (bucket.run capacity rate time calls)).length : K) ≤ bucket.level + rate * (last - bucket.time) := by
  have some_left : 0 ≤ bucket.level + rate * (last - bucket.time) := add_nonneg held (mul_nonneg nonneg (sub_nonneg.mpr before))
  induction calls generalizing bucket with
  | nil => simpa [run, inWindow] using some_left
  | cons call calls ih =>
    obtain ⟨later, following⟩ := List.pairwise_cons.mp ordered
    rcases lt_or_ge last (time call) with beyond | inside
    · rw [inWindow_eq_nil]
      · simpa using some_left
      · rw [run_fst]
        intro other member
        rcases List.mem_cons.mp member with rfl | member
        · exact beyond
        · exact beyond.trans_le (later other member)
    · rw [run]
      split
      · next whole =>
        have left : 0 ≤ bucket.levelAt capacity rate (time call) - 1 := sub_nonneg.mpr whole
        have rest := ih (bucket.take capacity rate (time call)) following left inside
          (add_nonneg left (mul_nonneg nonneg (sub_nonneg.mpr inside)))
        have taken : bucket.levelAt capacity rate (time call) ≤ bucket.level + rate * (time call - bucket.time) := min_le_right _ _
        have counted : ((inWindow time first last ((call, true) :: (bucket.take capacity rate (time call)).run capacity rate time calls)).length : K) ≤
            (inWindow time first last ((bucket.take capacity rate (time call)).run capacity rate time calls)).length + 1 := by
          exact_mod_cast length_inWindow_cons_le first last (call, true) _
        calc _ ≤ _ := counted
          _ ≤ bucket.levelAt capacity rate (time call) - 1 + rate * (last - time call) + 1 := by gcongr; exact rest
          _ ≤ bucket.level + rate * (time call - bucket.time) - 1 + rate * (last - time call) + 1 := by gcongr
          _ = bucket.level + rate * (last - bucket.time) := by ring
      · rw [inWindow_cons_of_neg _ (by simp)]
        exact ih bucket following held before some_left

/-- In a window no more calls are admitted than the capacity and what the rate brings. -/
theorem length_inWindow_le (bucket : TokenBucket K) (positive : 0 ≤ capacity) (nonneg : 0 ≤ rate) {first last : K}
    (window : first ≤ last) {calls : List τ} (ordered : calls.Pairwise fun a b => time a ≤ time b) :
    ((inWindow time first last (bucket.run capacity rate time calls)).length : K) ≤ capacity + rate * (last - first) := by
  induction calls generalizing bucket with
  | nil => simpa [run, inWindow] using add_nonneg positive (mul_nonneg nonneg (sub_nonneg.mpr window))
  | cons call calls ih =>
    obtain ⟨later, following⟩ := List.pairwise_cons.mp ordered
    rw [run]
    split
    · next whole =>
      by_cases counts : first ≤ time call ∧ time call ≤ last
      · -- from the first admitted call on, the bucket holds at most its capacity less one
        have left : 0 ≤ bucket.levelAt capacity rate (time call) - 1 := sub_nonneg.mpr whole
        have rest := @length_inWindow_le_level _ _ _ _ _ capacity _ _ (bucket.take capacity rate (time call)) nonneg first _ _
          following left counts.2
        have capped : bucket.levelAt capacity rate (time call) ≤ capacity := min_le_left _ _
        have counted : ((inWindow time first last ((call, true) :: (bucket.take capacity rate (time call)).run capacity rate time calls)).length : K) ≤
            (inWindow time first last ((bucket.take capacity rate (time call)).run capacity rate time calls)).length + 1 := by
          exact_mod_cast length_inWindow_cons_le first last (call, true) _
        calc _ ≤ _ := counted
          _ ≤ bucket.levelAt capacity rate (time call) - 1 + rate * (last - time call) + 1 := by gcongr; exact rest
          _ ≤ capacity - 1 + rate * (last - first) + 1 := by gcongr; exact counts.1
          _ = capacity + rate * (last - first) := by ring
      · rw [inWindow_cons_of_neg _ (by simpa using counts)]
        exact ih _ following
    · rw [inWindow_cons_of_neg _ (by simp)]
      exact ih bucket following

end TokenBucket

end OpenLegal.Theory
