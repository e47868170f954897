import OpenLegal.Rust.Str

/-! # Occurrences of a text

`str::match_indices` goes from the start of a text to its end and resumes behind every occurrence, so an occurrence that
overlaps an earlier one is not among its results.
-/

namespace OpenLegal.Rust.Str

/-- `str::match_indices`, behind `before` and with characters to skip: the texts before and behind every occurrence. -/
def matchIndices (pattern : Str) : ℕ → Str → Str → List (Str × Str)
  | skip, before, [] => if skip = 0 ∧ pattern.isEmpty then [(before, [])] else []
  | skip, before, c :: rest =>
    if skip = 0 ∧ pattern.isPrefixOf (c :: rest) then
      (before, (c :: rest).drop pattern.length) :: matchIndices pattern (pattern.length - 1) (before ++ [c]) rest
    else matchIndices pattern (skip - 1) (before ++ [c]) rest

attribute [grind =] matchIndices

variable {pattern : Str}

theorem matchIndices_skip (run before rest : Str) :
    matchIndices pattern run.length before (run ++ rest) = matchIndices pattern 0 (before ++ run) rest := by
  induction run generalizing before with
  | nil => rw [List.append_nil]; rfl
  | cons c run ih =>
    rw [List.cons_append, matchIndices, if_neg (by simp), List.length_cons, Nat.add_sub_cancel, ih]
    simp

/-- Behind an occurrence the search goes on where it ends. -/
theorem matchIndices_append (nonempty : pattern ≠ []) (before rest : Str) :
    matchIndices pattern 0 before (pattern ++ rest) = (before, rest) :: matchIndices pattern 0 (before ++ pattern) rest := by
  obtain ⟨c, run, rfl⟩ := List.exists_cons_of_ne_nil nonempty
  have here : (c :: run).isPrefixOf (c :: (run ++ rest)) = true :=
    List.isPrefixOf_iff_prefix.mpr (List.prefix_append (c :: run) rest)
  rw [List.cons_append, matchIndices, if_pos ⟨rfl, here⟩, List.length_cons, Nat.add_sub_cancel, matchIndices_skip]
  simp

theorem matchIndices_other {c : Char} {rest : Str} (other : ¬pattern <+: c :: rest) (before : Str) :
    matchIndices pattern 0 before (c :: rest) = matchIndices pattern 0 (before ++ [c]) rest := by
  rw [matchIndices, if_neg]
  rw [List.isPrefixOf_iff_prefix]
  exact fun here => other here.2

theorem matchIndices_short {rest : Str} (short : rest.length < pattern.length) (skip : ℕ) (before : Str) :
    matchIndices pattern skip before rest = [] := by
  induction rest generalizing skip before with
  | nil =>
    rw [matchIndices, if_neg]
    rintro ⟨-, empty⟩
    rw [List.isEmpty_iff.mp empty] at short
    cases short
  | cons c rest ih =>
    rw [matchIndices, if_neg, ih (Nat.lt_of_succ_lt short)]
    rintro ⟨-, here⟩
    exact absurd (List.isPrefixOf_iff_prefix.mp here).length_le (Nat.not_le.mpr short)

/-- Every result is an occurrence. -/
theorem matchIndices_sound {skip : ℕ} {before rest front rear : Str}
    (found : (front, rear) ∈ matchIndices pattern skip before rest) : before ++ rest = front ++ (pattern ++ rear) := by
  induction rest generalizing skip before with
  | nil =>
    rw [matchIndices] at found
    split_ifs at found with empty
    · obtain ⟨rfl, rfl⟩ := Prod.mk.inj (List.mem_singleton.mp found)
      rw [List.isEmpty_iff.mp empty.2]
      rfl
    · cases found
  | cons c rest ih =>
    rw [matchIndices] at found
    split_ifs at found with here
    · rcases List.mem_cons.mp found with same | later
      · obtain ⟨rfl, rfl⟩ := Prod.mk.inj same
        obtain ⟨tail, split⟩ := List.isPrefixOf_iff_prefix.mp here.2
        rw [← split, List.drop_left]
      · rw [← ih later, List.append_assoc]
        rfl
    · rw [← ih found, List.append_assoc]
      rfl

/-- An occurrence is found, or overlaps one that begins before it and is found. -/
theorem matchIndices_complete (nonempty : pattern ≠ []) {skip : ℕ} {before mid rear : Str} (beyond : skip ≤ mid.length) :
    (before ++ mid, rear) ∈ matchIndices pattern skip before (mid ++ (pattern ++ rear)) ∨
      ∃ front lead rear', (before ++ front, rear') ∈ matchIndices pattern skip before (mid ++ (pattern ++ rear)) ∧
        mid = front ++ lead ∧ lead ≠ [] ∧ lead.length < pattern.length := by
  induction mid generalizing skip before with
  | nil =>
    obtain rfl : skip = 0 := Nat.le_zero.mp beyond
    left
    rw [List.append_nil, List.nil_append, matchIndices_append nonempty]
    exact List.mem_cons_self
  | cons c mid ih =>
    -- what is found behind the first character
    have behind {skip' : ℕ} (beyond : skip' ≤ mid.length) {found : List (Str × Str)}
        (more : matchIndices pattern skip' (before ++ [c]) (mid ++ (pattern ++ rear)) ⊆ found) :
        (before ++ c :: mid, rear) ∈ found ∨
          ∃ front lead rear', (before ++ front, rear') ∈ found ∧ c :: mid = front ++ lead ∧ lead ≠ [] ∧
            lead.length < pattern.length := by
      rcases @ih skip' (before ++ [c]) beyond with here | ⟨front, lead, rear', here, split, proper⟩
      · exact .inl (by simpa using more here)
      · exact .inr ⟨c :: front, lead, rear', by simpa using more here, by rw [split]; rfl, proper⟩
    rw [List.length_cons] at beyond
    rw [List.cons_append, matchIndices]
    split_ifs with here
    · by_cases overlaps : mid.length + 1 < pattern.length
      · refine .inr ⟨[], c :: mid, (c :: (mid ++ (pattern ++ rear))).drop pattern.length, ?_, rfl, List.cons_ne_nil _ _, overlaps⟩
        rw [List.append_nil]
        exact List.mem_cons_self
      · exact behind (by omega) (List.subset_cons_self _ _)
    · exact behind (by omega) (List.Subset.refl _)

/-- The search goes forward, and past what it skips. -/
theorem matchIndices_beyond {skip : ℕ} {before rest front rear : Str}
    (found : (front, rear) ∈ matchIndices pattern skip before rest) : before.length + skip ≤ front.length := by
  induction rest generalizing skip before with
  | nil =>
    rw [matchIndices] at found
    split_ifs at found with empty
    · obtain ⟨rfl, rfl⟩ := Prod.mk.inj (List.mem_singleton.mp found)
      omega
    · cases found
  | cons c rest ih =>
    rw [matchIndices] at found
    split_ifs at found with here
    · rcases List.mem_cons.mp found with same | later
      · obtain ⟨rfl, rfl⟩ := Prod.mk.inj same
        omega
      · have := ih later
        rw [List.length_append, List.length_singleton] at this
        omega
    · have := ih found
      rw [List.length_append, List.length_singleton] at this
      omega

/-- The occurrences that are found do not overlap. -/
theorem matchIndices_apart (skip : ℕ) (before rest : Str) : (matchIndices pattern skip before rest).Pairwise fun a b =>
    a.1.length + pattern.length ≤ b.1.length := by
  induction rest generalizing skip before with
  | nil =>
    rw [matchIndices]
    split_ifs
    · exact List.pairwise_singleton _ _
    · exact List.Pairwise.nil
  | cons c rest ih =>
    rw [matchIndices]
    split_ifs
    · refine List.pairwise_cons.mpr ⟨fun later member => ?_, ih _ _⟩
      have := matchIndices_beyond member
      rw [List.length_append, List.length_singleton] at this
      dsimp only
      omega
    · exact ih _ _

end OpenLegal.Rust.Str
