import OpenLegal.Rust.Words
import Mathlib.Data.List.TakeWhile

/-! # Trimmed texts and lines

A text is a trimmed one between white space, and its lines are those of the trimmed text, up to the white
space that they end with.
-/

namespace OpenLegal.Rust.Str

/-- `str::trim_start`. -/
def trimStart (s : Str) : Str := s.dropWhile isWhitespace

/-- A line of `str::lines`: without its terminator `\n` or `\r\n`. -/
def lineBody (line : Str) : Str :=
  match stripSuffix '\n' line with
  | some body => (stripSuffix '\r' body).getD body
  | none => line

/-- `str::lines`. -/
def lines (s : Str) : List Str := (splitInclusive '\n' s).map lineBody

/-- No white space at either end. -/
structure Trimmed (s : Str) : Prop where
  first : ∀ c ∈ s.head?, isWhitespace c = false
  last : ∀ c ∈ s.getLast?, isWhitespace c = false

theorem dropWhile_blank {s : Str} (blank : ∀ c ∈ s, isWhitespace c = true) : s.dropWhile isWhitespace = [] :=
  List.dropWhile_eq_nil_iff.mpr blank

theorem dropWhile_visible {s : Str} (visible : ∀ c ∈ s.head?, isWhitespace c = false) :
    s.dropWhile isWhitespace = s := by
  cases s with
  | nil => rfl
  | cons c s => exact List.dropWhile_cons_of_neg (by simp [visible c rfl])

theorem head_dropWhile (s : Str) : ∀ c ∈ (s.dropWhile isWhitespace).head?, isWhitespace c = false := by
  intro c first
  have stops := List.head?_dropWhile_not isWhitespace s
  rw [Option.mem_def.mp first] at stops
  simpa using stops

/-- The white space at the start of a text, and its rest. -/
theorem exists_trimStart (s : Str) : ∃ gap, (∀ c ∈ gap, isWhitespace c = true) ∧ s = gap ++ trimStart s :=
  ⟨s.takeWhile isWhitespace, List.all_eq_true.mp List.all_takeWhile, List.takeWhile_append_dropWhile.symm⟩

/-- A text is its trimmed form between white space. -/
theorem exists_trim (s : Str) : ∃ post, (∀ c ∈ post, isWhitespace c = true) ∧ trimStart s = trim s ++ post := by
  obtain ⟨gap, blank, reversed⟩ := exists_trimStart (trimStart s).reverse
  refine ⟨gap.reverse, fun c member => blank c (List.mem_reverse.mp member), ?_⟩
  rw [← List.reverse_reverse (trimStart s), reversed, List.reverse_append]
  rfl

theorem exists_between (s : Str) : ∃ gap post, (∀ c ∈ gap, isWhitespace c = true) ∧ (∀ c ∈ post, isWhitespace c = true) ∧
    s = gap ++ (trim s ++ post) := by
  obtain ⟨gap, before, split⟩ := exists_trimStart s
  obtain ⟨post, after, started⟩ := exists_trim s
  exact ⟨gap, post, before, after, by rw [← started, ← split]⟩

theorem trim_eq {gap core post : Str} (before : ∀ c ∈ gap, isWhitespace c = true)
    (after : ∀ c ∈ post, isWhitespace c = true) (trimmed : Trimmed core) : trim (gap ++ (core ++ post)) = core := by
  have started : (gap ++ (core ++ post)).dropWhile isWhitespace = if core = [] then [] else core ++ post := by
    rw [List.dropWhile_append_of_pos before]
    split_ifs with empty
    · rw [empty, List.nil_append, dropWhile_blank after]
    · refine dropWhile_visible fun c first => trimmed.first c ?_
      rwa [List.head?_append_of_ne_nil _ empty] at first
  rw [trim, started]
  split_ifs with empty
  · rw [empty]
    rfl
  · rw [List.reverse_append, List.dropWhile_append_of_pos (by simpa using after), dropWhile_visible, List.reverse_reverse]
    rw [List.head?_reverse]
    exact trimmed.last

theorem trimmed_trim (s : Str) : Trimmed (trim s) where
  first := by
    obtain ⟨post, after, started⟩ := exists_trim s
    intro c first
    refine head_dropWhile s c ?_
    have nonempty : trim s ≠ [] := by
      intro empty
      rw [empty] at first
      cases first
    rw [show s.dropWhile isWhitespace = trim s ++ post from started, List.head?_append_of_ne_nil _ nonempty]
    exact first
  last := by
    intro c last
    rw [trim, List.getLast?_reverse] at last
    exact head_dropWhile _ c last

theorem Trimmed.trim_eq_self {s : Str} (trimmed : Trimmed s) : trim s = s := by
  have whole := @trim_eq [] s [] (by simp) (by simp) trimmed
  rwa [List.nil_append, List.append_nil] at whole

@[simp] theorem trim_trim (s : Str) : trim (trim s) = trim s := (trimmed_trim s).trim_eq_self

theorem trim_append_blank {s post : Str} (after : ∀ c ∈ post, isWhitespace c = true) : trim (s ++ post) = trim s := by
  obtain ⟨gap, rear, before, blank, split⟩ := exists_between s
  have whole : s ++ post = gap ++ (trim s ++ (rear ++ post)) := by
    conv_lhs => rw [split]
    simp only [List.append_assoc]
  rw [whole]
  exact trim_eq before (List.forall_mem_append.mpr ⟨blank, after⟩) (trimmed_trim s)

/-- What follows a trimmed text, up to the last character that is no white space. -/
theorem trim_append {core : Str} (trimmed : Trimmed core) (nonempty : core ≠ []) (more : Str) :
    ∃ mid rear, more = mid ++ rear ∧ (∀ c ∈ rear, isWhitespace c = true) ∧ trim (core ++ more) = core ++ mid := by
  obtain ⟨gap, blank, reversed⟩ := exists_trimStart more.reverse
  have split : more = (trimStart more.reverse).reverse ++ gap.reverse := by
    rw [← List.reverse_append, ← reversed, List.reverse_reverse]
  refine ⟨_, gap.reverse, split, fun c member => blank c (List.mem_reverse.mp member), ?_⟩
  have ends : Trimmed (core ++ (trimStart more.reverse).reverse) := by
    refine ⟨?_, ?_⟩
    · rw [List.head?_append_of_ne_nil _ nonempty]
      exact trimmed.first
    · intro c last
      rw [List.getLast?_append, List.getLast?_reverse] at last
      cases first : (trimStart more.reverse).head? with
      | none => exact trimmed.last c (by simpa [first] using last)
      | some d =>
        obtain rfl : d = c := by simpa [first] using last
        exact head_dropWhile _ d first
  conv_lhs => rw [split, ← List.append_assoc]
  rw [trim_append_blank fun c member => blank c (List.mem_reverse.mp member), ends.trim_eq_self]

/-- White space at the end of a text continues its last line and adds lines of white space. -/
theorem splitInclusive_append_blank (s : Str) {post : Str} (after : ∀ c ∈ post, isWhitespace c = true) {i : ℕ} {line : Str}
    (found : (splitInclusive '\n' s)[i]? = some line) :
    ∃ rear, (∀ c ∈ rear, isWhitespace c = true) ∧ (splitInclusive '\n' (s ++ post))[i]? = some (line ++ rear) := by
  induction s generalizing i line with
  | nil => cases found
  | cons c s ih =>
    rw [List.cons_append]
    by_cases separator : c = '\n'
    · rw [splitInclusive, if_pos separator] at found ⊢
      cases i with
      | zero =>
        obtain rfl := Option.some.inj found
        exact ⟨[], by simp, rfl⟩
      | succ i => exact ih found
    · rw [splitInclusive, if_neg separator] at found ⊢
      cases first : splitInclusive '\n' s with
      | nil =>
        -- the line is the last character of the text, and the white space continues it
        have empty : s = [] := by simpa [first] using (splitInclusive_flatten '\n' s).symm
        rw [first] at found
        obtain ⟨rfl, rfl⟩ : i = 0 ∧ [c] = line := by
          cases i with
          | zero => exact ⟨rfl, Option.some.inj found⟩
          | succ i => cases found
        rw [empty, List.nil_append]
        cases pieces : splitInclusive '\n' post with
        | nil => exact ⟨[], by simp, rfl⟩
        | cons piece rest =>
          refine ⟨piece, fun d member => after d ?_, rfl⟩
          rw [← splitInclusive_flatten '\n' post, pieces]
          exact List.mem_append_left _ member
      | cons piece rest =>
        rw [first] at found ih
        cases i with
        | zero =>
          obtain rfl := Option.some.inj found
          obtain ⟨rear, blank, continued⟩ := @ih 0 piece rfl
          refine ⟨rear, blank, ?_⟩
          cases longer : splitInclusive '\n' (s ++ post) with
          | nil => rw [longer] at continued; cases continued
          | cons head tail =>
            rw [longer] at continued
            rw [Option.some.inj continued]
            rfl
        | succ i =>
          obtain ⟨rear, blank, continued⟩ := @ih (i + 1) line found
          refine ⟨rear, blank, ?_⟩
          cases longer : splitInclusive '\n' (s ++ post) with
          | nil => rw [longer] at continued; cases continued
          | cons head tail =>
            rw [longer] at continued
            exact continued

theorem Terminated.suffix {sep : Char} {gap line : Str} (terminated : Terminated sep (gap ++ line)) (nonempty : line ≠ []) :
    Terminated sep line := by
  obtain ⟨body, absent, same⟩ := terminated
  rcases List.eq_nil_or_concat line with rfl | ⟨init, c, rfl⟩
  · exact absurd rfl nonempty
  · rw [List.concat_eq_append, ← List.append_assoc] at same
    obtain ⟨rfl, last⟩ := List.append_inj' same rfl
    exact ⟨init, fun member => absent (List.mem_append_right _ member), by rw [List.concat_eq_append, last]⟩

/-- The lines of a text from a character of the first one on. -/
theorem IsLines.suffix {sep : Char} {gap line : Str} {tail : List Str} (shape : IsLines sep ((gap ++ line) :: tail))
    (nonempty : line ≠ []) : IsLines sep (line :: tail) := by
  cases tail with
  | nil =>
    rcases shape with terminated | ⟨-, absent⟩
    · exact .inl (terminated.suffix nonempty)
    · exact .inr ⟨nonempty, fun member => absent (List.mem_append_right _ member)⟩
  | cons next rest => exact ⟨shape.1.suffix nonempty, shape.2⟩

end OpenLegal.Rust.Str
