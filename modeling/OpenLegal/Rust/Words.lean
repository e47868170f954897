import OpenLegal.Rust.Result
import OpenLegal.Rust.Unicode

/-! # Words of a text

`str::split_whitespace` and `str::trim`. A trimmed text is words with gaps between them, and these words are
what the split returns.
-/

namespace OpenLegal.Rust.Str

/-- `str::split_whitespace`: the maximal runs of other characters. -/
def splitWhitespace (s : Str) : List Str := (s.splitOnP isWhitespace).filter (!·.isEmpty)

/-- `str::trim`. -/
def trim (s : Str) : Str := ((s.dropWhile isWhitespace).reverse.dropWhile isWhitespace).reverse

/-- `str::to_ascii_uppercase`. -/
def toAsciiUppercase (s : Str) : Str := s.map fun c => if isAsciiLowercase c then Char.ofNat (c.toNat - 32) else c

/-- A nonempty run without white space. -/
def IsWord (word : Str) : Prop := word ≠ [] ∧ ∀ c ∈ word, isWhitespace c = false

/-- Nothing, or white space first. -/
def Separates (tail : Str) : Prop := ∀ c, tail.head? = some c → isWhitespace c = true

/-- Words, each after a nonempty gap, up to the end of the last one. -/
inductive Spaced : Str → List Str → Prop where
  | nil : Spaced [] []
  | cons {gap word tail : Str} {words : List Str} (blank : ∀ c ∈ gap, isWhitespace c = true) (nonempty : gap ≠ [])
      (shape : IsWord word) (more : Spaced tail words) : Spaced (gap ++ (word ++ tail)) (word :: words)

theorem Spaced.separates {tail : Str} {words : List Str} (spaced : Spaced tail words) : Separates tail := by
  cases spaced with
  | nil => intro c impossible; cases impossible
  | @cons gap _ _ _ blank nonempty =>
    intro c first
    cases gap with
    | nil => exact absurd rfl nonempty
    | cons d gap =>
      cases first
      exact blank c List.mem_cons_self

theorem splitWhitespace_cons {c : Char} (blank : isWhitespace c = true) (s : Str) :
    splitWhitespace (c :: s) = splitWhitespace s := by
  rw [splitWhitespace, List.splitOnP_cons_eq_if_modifyHead, if_pos blank]
  rfl

theorem splitWhitespace_append_blank {c : Char} (blank : isWhitespace c = true) (a b : Str) :
    splitWhitespace (a ++ c :: b) = splitWhitespace a ++ splitWhitespace b := by
  rw [splitWhitespace, List.splitOnP_append_cons a b blank, List.filter_append]
  rfl

theorem splitWhitespace_gap {gap : Str} (blank : ∀ c ∈ gap, isWhitespace c = true) (s : Str) :
    splitWhitespace (gap ++ s) = splitWhitespace s := by
  induction gap with
  | nil => rfl
  | cons c gap ih =>
    rw [List.forall_mem_cons] at blank
    rw [List.cons_append, splitWhitespace_cons blank.1, ih blank.2]

theorem splitWhitespace_word {word tail : Str} (shape : IsWord word) (ends : Separates tail) :
    splitWhitespace (word ++ tail) = word :: splitWhitespace tail := by
  have keeps : (!word.isEmpty) = true := by simpa using shape.1
  rw [splitWhitespace, splitOnP_append_left shape.2]
  cases tail with
  | nil => simp [splitWhitespace, List.splitOnP_nil, keeps]
  | cons c tail =>
    rw [splitWhitespace_cons (ends c rfl), List.splitOnP_cons_eq_if_modifyHead, if_pos (ends c rfl), List.modifyHead_cons,
      List.append_nil]
    exact List.filter_cons_of_pos keeps

theorem Spaced.split {tail : Str} {words : List Str} (spaced : Spaced tail words) : splitWhitespace tail = words := by
  induction spaced with
  | nil => rfl
  | cons blank _ shape more ih => rw [splitWhitespace_gap blank, splitWhitespace_word shape more.separates, ih]

/-- Every word takes at least one character. -/
theorem Spaced.length_le {tail : Str} {words : List Str} (spaced : Spaced tail words) : words.length ≤ tail.length := by
  induction spaced with
  | nil => exact Nat.le_refl 0
  | cons blank _ shape more ih =>
    have positive := List.length_pos_iff.mpr shape.1
    simp only [List.length_cons, List.length_append]
    omega

theorem Spaced.words {tail : Str} {words : List Str} (spaced : Spaced tail words) :
    ∀ word ∈ words, IsWord word ∧ word ⊆ tail := by
  induction spaced with
  | nil =>
    intro word impossible
    cases impossible
  | @cons gap word tail words blank nonempty shape more ih =>
    rw [List.forall_mem_cons]
    refine ⟨⟨shape, ?_⟩, ?_⟩
    · exact List.Subset.trans (List.subset_append_left word tail) (List.subset_append_right gap _)
    · intro other member
      obtain ⟨shape, inside⟩ := ih other member
      have outer := List.Subset.trans (List.subset_append_right word tail) (List.subset_append_right gap _)
      exact ⟨shape, List.Subset.trans inside outer⟩

/-- The first run of one class of characters. -/
private theorem exists_run (accepts : Char → Bool) (s : Str) :
    ∃ run tail, s = run ++ tail ∧ (∀ c ∈ run, accepts c = true) ∧ ∀ c, tail.head? = some c → accepts c = false := by
  refine ⟨s.takeWhile accepts, s.dropWhile accepts, List.takeWhile_append_dropWhile.symm, ?_, ?_⟩
  · intro c member
    exact List.all_eq_true.mp List.all_takeWhile c member
  · intro c first
    have stops := List.head?_dropWhile_not accepts s
    rw [first] at stops
    simpa using stops

/-- A text without white space at its end, from a separator on, is words after gaps. -/
theorem exists_spaced (s : Str) (begins : Separates s) (ends : ∀ c, s.getLast? = some c → isWhitespace c = false) :
    ∃ words, Spaced s words := by
  induction length : s.length using Nat.strongRecOn generalizing s with
  | ind n ih =>
    cases s with
    | nil => exact ⟨[], .nil⟩
    | cons first s =>
      obtain ⟨gap, rest, shape, blank, visible⟩ := exists_run isWhitespace (first :: s)
      obtain ⟨word, tail, rfl, plain, stops⟩ := exists_run (fun c => !isWhitespace c) rest
      have gapped : gap ≠ [] := by
        rintro rfl
        have same : (word ++ tail).head? = some first := by rw [← List.nil_append (word ++ tail), ← shape]; rfl
        have open' := visible first same
        rw [begins first rfl] at open'
        cases open'
      have worded : word ≠ [] := by
        rintro rfl
        cases tail with
        | nil =>
          -- a text of gaps only would end with white space
          obtain ⟨last, final⟩ : ∃ c, gap.getLast? = some c := ⟨_, List.getLast?_eq_some_getLast gapped⟩
          have sound := ends last (by rw [shape]; simpa using final)
          rw [blank last (List.mem_of_getLast? final)] at sound
          cases sound
        | cons c tail =>
          have open' := visible c rfl
          have closed := stops c rfl
          rw [open'] at closed
          cases closed
      obtain ⟨words, spaced⟩ := ih tail.length (by
          have total := congrArg List.length shape
          have positive := List.length_pos_iff.mpr gapped
          simp only [List.length_append] at total
          omega) tail
        (by intro c found; simpa using stops c found)
        (by
          intro c final
          apply ends c
          rw [shape, List.getLast?_append, List.getLast?_append, final]
          rfl) rfl
      rw [shape]
      exact ⟨word :: words, .cons blank gapped ⟨worded, by simpa using plain⟩ spaced⟩

/-- A nonempty trimmed text is a word and further ones after gaps. -/
theorem exists_words {s : Str} (trimmed : trim s = s) (nonempty : s ≠ []) :
    ∃ word tail words, s = word ++ tail ∧ IsWord word ∧ Spaced tail words := by
  have first : s.dropWhile isWhitespace = s := by
    have shorter : (trim s).length ≤ (s.dropWhile isWhitespace).length := by
      rw [trim, List.length_reverse, ← @List.length_reverse _ (s.dropWhile isWhitespace)]
      exact (List.dropWhile_suffix _).length_le
    rw [trimmed] at shorter
    exact (List.dropWhile_suffix _).eq_of_length_le shorter
  have last : s.reverse.dropWhile isWhitespace = s.reverse := by
    rw [trim, first] at trimmed
    exact List.reverse_eq_iff.mp trimmed
  have ends : ∀ c, s.getLast? = some c → isWhitespace c = false := by
    intro c final
    have stops := List.head?_dropWhile_not isWhitespace s.reverse
    rw [last, List.head?_reverse, final] at stops
    simpa using stops
  obtain ⟨word, tail, rfl, plain, stops⟩ := exists_run (fun c => !isWhitespace c) s
  have worded : word ≠ [] := by
    rintro rfl
    cases tail with
    | nil => exact nonempty rfl
    | cons c tail =>
      have opens := List.head?_dropWhile_not isWhitespace (c :: tail)
      rw [List.nil_append] at first
      rw [first] at opens
      have closed := stops c rfl
      simp_all
  obtain ⟨words, spaced⟩ := exists_spaced tail (by intro c found; simpa using stops c found) (by
    intro c final
    apply ends c
    rw [List.getLast?_append, final]
    rfl)
  exact ⟨word, tail, words, rfl, ⟨worded, by simpa using plain⟩, spaced⟩

/-- The words of a trimmed text are nonempty runs of its characters. -/
theorem mem_splitWhitespace {s word : Str} (trimmed : trim s = s) (member : word ∈ splitWhitespace s) :
    IsWord word ∧ word ⊆ s := by
  rcases eq_or_ne s [] with rfl | nonempty
  · cases member
  · obtain ⟨first, tail, words, rfl, shape, spaced⟩ := exists_words trimmed nonempty
    rw [splitWhitespace_word shape spaced.separates, spaced.split] at member
    rcases List.mem_cons.mp member with rfl | member
    · exact ⟨shape, List.subset_append_left _ _⟩
    · obtain ⟨shape, inside⟩ := spaced.words word member
      exact ⟨shape, List.Subset.trans inside (List.subset_append_right _ _)⟩

end OpenLegal.Rust.Str
