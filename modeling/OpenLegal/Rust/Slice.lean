import OpenLegal.Rust.Str

/-! # Byte offsets in strings

Rust indexes strings by bytes and cuts them at scalar boundaries only. A boundary is given by the two
parts it separates: `splitAt s i` is the cut at byte `i`, and every other operation is stated with it.
-/

namespace OpenLegal.Rust.Str

/-- The two parts of a string at byte offset `i`, if that is a scalar boundary. -/
def splitAt : Str → ℕ → Option (Str × Str)
  | s, 0 => some ([], s)
  | [], _ + 1 => none
  | c :: s, i + 1 =>
    if i + 1 < c.utf8Size then none else (splitAt s (i + 1 - c.utf8Size)).map fun (front, rear) => (c :: front, rear)

attribute [grind =] splitAt

def isCharBoundary (s : Str) (i : ℕ) : Bool := (splitAt s i).isSome

/-- `str::get(start..stop)`. -/
def get (s : Str) (start stop : ℕ) : Option Str :=
  if start ≤ stop then do
    let (_, rest) ← splitAt s start
    let (middle, _) ← splitAt rest (stop - start)
    pure middle
  else none

/-- `String::truncate` at a boundary; a length beyond the end has no effect. -/
def truncate (s : Str) (i : ℕ) : Str := ((splitAt s i).map Prod.fst).getD s

/-- The loop `while !s.is_char_boundary(i) { i -= 1 }`. -/
def floorCharBoundary (s : Str) : ℕ → ℕ
  | 0 => 0
  | i + 1 => if isCharBoundary s (i + 1) then i + 1 else floorCharBoundary s i

attribute [grind =] floorCharBoundary

/-- The loop `while !s.is_char_boundary(i) { i += 1 }`, of at most `fuel` rounds. -/
def ceilLoop (s : Str) : ℕ → ℕ → ℕ
  | 0, i => i
  | fuel + 1, i => if isCharBoundary s i then i else ceilLoop s fuel (i + 1)

attribute [grind =] ceilLoop

/-- The loop from inside the string: the end is a boundary. -/
def ceilCharBoundary (s : Str) (i : ℕ) : ℕ := ceilLoop s (byteLen s - i) i

@[simp] theorem splitAt_zero (s : Str) : splitAt s 0 = some ([], s) := by
  cases s <;> rfl

theorem splitAt_append (front rear : Str) : splitAt (front ++ rear) (byteLen front) = some (front, rear) := by
  induction front with
  | nil => exact splitAt_zero rear
  | cons c front ih =>
    have positive := c.utf8Size_pos
    obtain ⟨size, shape⟩ : ∃ size, byteLen (c :: front) = size + 1 := ⟨byteLen (c :: front) - 1, by
      rw [byteLen_cons]; omega⟩
    have rest : size + 1 - c.utf8Size = byteLen front := by
      rw [byteLen_cons] at shape; omega
    rw [shape, List.cons_append, splitAt, if_neg (by rw [← shape, byteLen_cons]; omega), rest, ih]
    rfl

theorem splitAt_eq_some {s front rear : Str} {i : ℕ} (found : splitAt s i = some (front, rear)) :
    s = front ++ rear ∧ byteLen front = i := by
  induction s generalizing i front with
  | nil =>
    cases i with
    | zero => cases found; exact ⟨rfl, rfl⟩
    | succ i => cases found
  | cons c s ih =>
    cases i with
    | zero => cases found; exact ⟨rfl, rfl⟩
    | succ i =>
      rw [splitAt] at found
      split_ifs at found with inside
      obtain ⟨⟨inner, rest⟩, cut, same⟩ := Option.map_eq_some_iff.mp found
      cases same
      obtain ⟨rfl, length⟩ := ih cut
      exact ⟨rfl, by rw [byteLen_cons]; omega⟩

theorem splitAt_iff {s front rear : Str} {i : ℕ} :
    splitAt s i = some (front, rear) ↔ s = front ++ rear ∧ byteLen front = i := by
  constructor
  · exact splitAt_eq_some
  · rintro ⟨rfl, rfl⟩
    exact splitAt_append front rear

/-- A prefix is determined by its number of bytes. -/
theorem append_inj_of_byteLen {front front' rear rear' : Str} (same : front ++ rear = front' ++ rear')
    (length : byteLen front = byteLen front') : front = front' ∧ rear = rear' := by
  have first := splitAt_append front rear
  rw [same, length, splitAt_append] at first
  cases first
  exact ⟨rfl, rfl⟩

theorem isCharBoundary_iff {s : Str} {i : ℕ} :
    isCharBoundary s i = true ↔ ∃ front rear, s = front ++ rear ∧ byteLen front = i := by
  rw [isCharBoundary, Option.isSome_iff_exists]
  constructor
  · rintro ⟨⟨front, rear⟩, found⟩
    exact ⟨front, rear, (splitAt_iff).mp found⟩
  · rintro ⟨front, rear, shape⟩
    exact ⟨(front, rear), (splitAt_iff).mpr shape⟩

@[simp] theorem isCharBoundary_zero (s : Str) : isCharBoundary s 0 = true := by
  simp [isCharBoundary]

@[simp] theorem isCharBoundary_byteLen (s : Str) : isCharBoundary s (byteLen s) = true :=
  (isCharBoundary_iff).mpr ⟨s, [], by simp⟩

theorem isCharBoundary_le {s : Str} {i : ℕ} (boundary : isCharBoundary s i = true) : i ≤ byteLen s := by
  obtain ⟨front, rear, rfl, rfl⟩ := (isCharBoundary_iff).mp boundary
  simp

theorem get_iff {s middle : Str} {start stop : ℕ} : get s start stop = some middle ↔
    ∃ front rear, s = front ++ (middle ++ rear) ∧ byteLen front = start ∧ start + byteLen middle = stop := by
  constructor
  · intro found
    rw [get] at found
    split_ifs at found with forward
    simp only [Option.bind_eq_bind, Option.bind_eq_some_iff] at found
    obtain ⟨⟨front, rest⟩, first, ⟨inner, rear⟩, second, same⟩ := found
    cases same
    obtain ⟨rfl, length⟩ := splitAt_eq_some first
    obtain ⟨rfl, size⟩ := splitAt_eq_some second
    dsimp only at size ⊢
    exact ⟨front, rear, rfl, length, by omega⟩
  · rintro ⟨front, rear, rfl, rfl, rfl⟩
    have size : byteLen front + byteLen middle - byteLen front = byteLen middle := by omega
    rw [get, if_pos (Nat.le_add_right _ _), splitAt_append]
    simp only [Option.bind_eq_bind, Option.bind_some]
    rw [size, splitAt_append]
    rfl

/-- A slice stays where it is when the string grows at its end. -/
theorem get_append {s middle : Str} {start stop : ℕ} (found : get s start stop = some middle) (more : Str) :
    get (s ++ more) start stop = some middle := by
  obtain ⟨front, rear, rfl, begins, ends⟩ := (get_iff).mp found
  exact (get_iff).mpr ⟨front, rear ++ more, by simp, begins, ends⟩

theorem get_right (front rear : Str) :
    get (front ++ rear) (byteLen front) (byteLen front + byteLen rear) = some rear :=
  (get_iff).mpr ⟨front, [], by simp, rfl, rfl⟩

@[simp] theorem truncate_append (front rear : Str) : truncate (front ++ rear) (byteLen front) = front := by
  rw [truncate, splitAt_append]
  rfl

theorem floorCharBoundary_le (s : Str) (i : ℕ) : floorCharBoundary s i ≤ i := by
  induction i with
  | zero => exact Nat.le_refl 0
  | succ i ih =>
    rw [floorCharBoundary]
    split_ifs
    · exact Nat.le_refl _
    · omega

theorem isCharBoundary_floorCharBoundary (s : Str) (i : ℕ) : isCharBoundary s (floorCharBoundary s i) = true := by
  induction i with
  | zero => exact isCharBoundary_zero s
  | succ i ih =>
    rw [floorCharBoundary]
    split_ifs with here
    · exact here
    · exact ih

/-- No boundary below `i` is skipped. -/
theorem le_floorCharBoundary {s : Str} {i j : ℕ} (boundary : isCharBoundary s j = true) (below : j ≤ i) :
    j ≤ floorCharBoundary s i := by
  induction i with
  | zero => omega
  | succ i ih =>
    rw [floorCharBoundary]
    split_ifs with here
    · exact below
    · have other : j ≠ i + 1 := by rintro rfl; exact here boundary
      exact ih (by omega)

/-- A scalar has at most four bytes, so a boundary is at most three bytes away. -/
theorem exists_isCharBoundary (s : Str) {i : ℕ} (inside : i ≤ byteLen s) :
    ∃ j, isCharBoundary s j = true ∧ j ≤ i ∧ i < j + 4 := by
  induction s generalizing i with
  | nil => exact ⟨0, rfl, Nat.zero_le _, by rw [byteLen_nil] at inside; omega⟩
  | cons c s ih =>
    have small := c.utf8Size_le_four
    by_cases first : i < c.utf8Size
    · exact ⟨0, isCharBoundary_zero _, Nat.zero_le _, by omega⟩
    · rw [byteLen_cons] at inside
      obtain ⟨j, boundary, below, near⟩ := @ih (i - c.utf8Size) (by omega)
      obtain ⟨front, rear, rfl, rfl⟩ := (isCharBoundary_iff).mp boundary
      refine ⟨c.utf8Size + byteLen front, (isCharBoundary_iff).mpr ⟨c :: front, rear, rfl, rfl⟩, ?_, ?_⟩
      all_goals omega

theorem lt_floorCharBoundary_add {s : Str} {i : ℕ} (inside : i ≤ byteLen s) : i < floorCharBoundary s i + 4 := by
  obtain ⟨j, boundary, below, near⟩ := exists_isCharBoundary s inside
  have := le_floorCharBoundary boundary below
  omega

theorem ceilLoop_spec (s : Str) {fuel i : ℕ} (enough : i + fuel = byteLen s) :
    isCharBoundary s (ceilLoop s fuel i) = true ∧ i ≤ ceilLoop s fuel i ∧
      ∀ j, isCharBoundary s j = true → i ≤ j → ceilLoop s fuel i ≤ j := by
  induction fuel generalizing i with
  | zero =>
    obtain rfl : i = byteLen s := by omega
    refine ⟨isCharBoundary_byteLen s, Nat.le_refl _, ?_⟩
    intro j _ above
    exact above
  | succ fuel ih =>
    rw [ceilLoop]
    split_ifs with here
    · refine ⟨here, Nat.le_refl _, ?_⟩
      intro j _ above
      exact above
    · obtain ⟨boundary, reached, least⟩ := @ih (i + 1) (by omega)
      refine ⟨boundary, by omega, ?_⟩
      intro j found above
      have other : i ≠ j := by rintro rfl; exact here found
      exact least j found (by omega)

/-- The first boundary from `i` on. -/
theorem ceilCharBoundary_spec (s : Str) {i : ℕ} (inside : i ≤ byteLen s) :
    isCharBoundary s (ceilCharBoundary s i) = true ∧ i ≤ ceilCharBoundary s i ∧
      ∀ j, isCharBoundary s j = true → i ≤ j → ceilCharBoundary s i ≤ j :=
  ceilLoop_spec s (by omega)

/-- Of two cuts of one string the first is inside the front of the second. -/
theorem append_eq_append_of_byteLen_le {front rear front' rear' : Str} (same : front ++ rear = front' ++ rear')
    (below : byteLen front ≤ byteLen front') : ∃ middle, front' = front ++ middle ∧ rear = middle ++ rear' := by
  rcases List.append_eq_append_iff.mp same with ⟨middle, rfl, rfl⟩ | ⟨middle, rfl, rfl⟩
  · exact ⟨middle, rfl, rfl⟩
  · have empty : middle.length ≤ 0 := by
      have bounded := length_le_byteLen middle
      rw [byteLen_append] at below
      omega
    obtain rfl := List.length_eq_zero_iff.mp (Nat.le_zero.mp empty)
    exact ⟨[], by simp, by simp⟩

/-- A slice between two boundaries around another slice exists and contains it. -/
theorem get_around {s middle : Str} {start stop first last : ℕ} (found : get s start stop = some middle)
    (opens : isCharBoundary s first = true) (closes : isCharBoundary s last = true) (before : first ≤ start)
    (after : stop ≤ last) :
    ∃ wide, get s first last = some wide ∧ byteLen wide = last - first ∧ middle <:+: wide := by
  obtain ⟨front, rear, rfl, rfl, rfl⟩ := (get_iff).mp found
  obtain ⟨outer, inner, cut, rfl⟩ := (isCharBoundary_iff).mp opens
  obtain ⟨near, far, cut', rfl⟩ := (isCharBoundary_iff).mp closes
  obtain ⟨lead, rfl, -⟩ := append_eq_append_of_byteLen_le cut.symm before
  rw [← List.append_assoc] at cut'
  obtain ⟨tail, rfl, rfl⟩ := append_eq_append_of_byteLen_le cut' (by rw [byteLen_append]; exact after)
  refine ⟨lead ++ middle ++ tail, ?_, ?_, lead, tail, rfl⟩
  · apply (get_iff).mpr
    refine ⟨outer, far, by simp only [List.append_assoc], rfl, ?_⟩
    simp only [byteLen_append]
    omega
  · simp only [byteLen_append]
    omega

end OpenLegal.Rust.Str
