import OpenLegal.TextDiff.Highlights
import OpenLegal.Theory.Intervals

/-! # What the annotation of a block shows

The changes of a block are ranges of scalars of its whole text. Each line gets the part of them that
lies in it, counted from the start of the line and joined where two changes touch. This is the only way
to write the changed scalars of a line as separate nonempty ranges, so the number of ranges a block
needs is determined by its changes; the producer fails exactly when the diff cannot afford that number.
-/

namespace OpenLegal.TextDiff

open Theory.Intervals

namespace Compute

/-- The ranges of a line of `length` scalars at `offset`: separate ranges of exactly its changed scalars. -/
structure CutsLine (changes : List (ℕ × ℕ)) (offset length : ℕ) (ranges : List ScalarRange) : Prop where
  apart : Apart ranges
  within : ∀ range ∈ ranges, range.2 ≤ length
  exact : ∀ x < length, (Covers ranges x ↔ Covers changes (offset + x))

/-- One list of ranges for each line of a text that starts at an offset of its block. -/
def Cuts (changes : List (ℕ × ℕ)) : ℕ → List Rust.Str → List (List ScalarRange) → Prop
  | _, [], [] => True
  | offset, line :: lines, ranges :: shown =>
    CutsLine changes offset line.length ranges ∧ Cuts changes (offset + line.length) lines shown
  | _, _, _ => False

theorem CutsLine.lt_of_covers {changes : List (ℕ × ℕ)} {offset length x : ℕ} {ranges : List ScalarRange}
    (cuts : CutsLine changes offset length ranges) (covers : Covers ranges x) : x < length := by
  obtain ⟨range, member, inside⟩ := covers
  exact inside.2.trans_le (cuts.within range member)

theorem CutsLine.unique {changes : List (ℕ × ℕ)} {offset length : ℕ} {ranges others : List ScalarRange}
    (cuts : CutsLine changes offset length ranges) (other : CutsLine changes offset length others) :
    ranges = others := by
  apply cuts.apart.eq_of_covers other.apart
  intro x
  by_cases inside : x < length
  · rw [cuts.exact x inside, other.exact x inside]
  · exact iff_of_false (inside ∘ cuts.lt_of_covers) (inside ∘ other.lt_of_covers)

theorem Cuts.unique {changes : List (ℕ × ℕ)} {offset : ℕ} {lines : List Rust.Str}
    {shown others : List (List ScalarRange)} (cuts : Cuts changes offset lines shown)
    (other : Cuts changes offset lines others) : shown = others := by
  induction lines generalizing offset shown others with
  | nil =>
    cases shown with
    | nil =>
      cases others with
      | nil => rfl
      | cons => exact other.elim
    | cons => exact cuts.elim
  | cons line lines ih =>
    cases shown with
    | nil => exact cuts.elim
    | cons ranges shown =>
      cases others with
      | nil => exact other.elim
      | cons second others => rw [cuts.1.unique other.1, ih cuts.2 other.2]

/-! ## The part of the changes that lies in a line -/

/-- The changes as ranges of the line from `offset` to `stop`, less those that are empty there. -/
def clips (offset stop : ℕ) (changes : List (ℕ × ℕ)) : List ScalarRange :=
  (changes.map fun change => (max change.1 offset - offset, min change.2 stop - offset)).filter
    fun range => range.1 < range.2

/-- The ranges of all lines. -/
def cutLines (changes : List (ℕ × ℕ)) : ℕ → List Rust.Str → List (List ScalarRange)
  | _, [] => []
  | offset, line :: lines =>
    joined (clips offset (offset + line.length) changes) :: cutLines changes (offset + line.length) lines

variable {changes : List (ℕ × ℕ)} {change : ℕ × ℕ} {offset stop : ℕ}

theorem clips_cons :
    clips offset stop (change :: changes) =
      if max change.1 offset - offset < min change.2 stop - offset then
        (max change.1 offset - offset, min change.2 stop - offset) :: clips offset stop changes
      else clips offset stop changes := by
  simp only [clips, List.map_cons, List.filter_cons, decide_eq_true_eq]

/-- Behind a change that starts beyond the line nothing else reaches into it. -/
theorem clips_eq_nil (beyond : ∀ change ∈ changes, stop ≤ change.1) : clips offset stop changes = [] := by
  rw [clips, List.filter_eq_nil_iff]
  intro range member
  obtain ⟨change, present, rfl⟩ := List.mem_map.mp member
  have := beyond change present
  rw [decide_eq_true_eq]
  omega

/-- The changes that end before the line can be skipped. -/
theorem clips_dropWhile {earlier : ℕ} (before : earlier ≤ offset) :
    clips offset stop (changes.dropWhile (·.2 ≤ earlier)) = clips offset stop changes := by
  induction changes with
  | nil => rfl
  | cons change changes ih =>
    by_cases passed : change.2 ≤ earlier
    · rw [List.dropWhile_cons_of_pos (by simpa using passed), ih, clips_cons, if_neg (by omega)]
    · rw [List.dropWhile_cons_of_neg (by simpa using passed)]

theorem clips_nonempty : ∀ range ∈ clips offset stop changes, range.1 < range.2 := by
  intro range member
  simpa using (List.mem_filter.mp member).2

theorem clips_within : ∀ range ∈ clips offset stop changes, range.2 ≤ stop - offset := by
  intro range member
  obtain ⟨change, -, rfl⟩ := List.mem_map.mp (List.mem_filter.mp member).1
  dsimp only
  omega

theorem clips_sorted (forward : Forward changes) : Forward (clips offset stop changes) := by
  apply List.Pairwise.filter
  apply List.Pairwise.map _ _ forward
  intro first second behind
  dsimp only
  omega

theorem covers_clips {x : ℕ} (inside : offset + x < stop) :
    Covers (clips offset stop changes) x ↔ Covers changes (offset + x) := by
  constructor
  · rintro ⟨range, member, covered⟩
    obtain ⟨change, present, rfl⟩ := List.mem_map.mp (List.mem_filter.mp member).1
    dsimp only at covered
    exact ⟨change, present, by omega, by omega⟩
  · rintro ⟨change, present, covered⟩
    refine ⟨_, List.mem_filter.mpr ⟨List.mem_map_of_mem present, ?_⟩, ?_⟩
    · rw [decide_eq_true_eq]
      omega
    · dsimp only
      omega

theorem changedRanges_ordered (range : DiffOp → ℕ × ℕ) (ops : List DiffOp) :
    ∀ change ∈ changedRanges range ops, change.1 ≤ change.2 := by
  intro change member
  obtain ⟨op, present, rfl⟩ := List.mem_map.mp member
  have nonempty := (List.mem_filter.mp present).2
  simp only [Bool.and_eq_true, decide_eq_true_eq] at nonempty
  exact nonempty.2.le

theorem joined_clips_cut (forward : Forward changes) (length : ℕ) :
    CutsLine changes offset length (joined (clips offset (offset + length) changes)) := by
  have apart : Apart (joined (clips offset (offset + length) changes)) :=
    joined_apart (clips_sorted forward) clips_nonempty
  refine ⟨apart, fun range member => ?_, fun x inside => ?_⟩
  · -- the last scalar of a range is one of the line
    have nonempty := apart.nonempty range member
    have covered : Covers (joined (clips offset (offset + length) changes)) (range.2 - 1) :=
      ⟨range, member, by omega, by omega⟩
    rw [covers_joined (clips_sorted forward) clips_nonempty] at covered
    obtain ⟨clip, present, inside⟩ := covered
    have := clips_within clip present
    omega
  · rw [covers_joined (clips_sorted forward) clips_nonempty, covers_clips (by omega)]

theorem cutLines_cut (forward : Forward changes) (offset : ℕ) (lines : List Rust.Str) :
    Cuts changes offset lines (cutLines changes offset lines) := by
  induction lines generalizing offset with
  | nil => trivial
  | cons line lines ih => exact ⟨joined_clips_cut forward line.length, ih _⟩

theorem cutLines_dropWhile {earlier : ℕ} (before : earlier ≤ offset) (lines : List Rust.Str) :
    cutLines (changes.dropWhile (·.2 ≤ earlier)) offset lines = cutLines changes offset lines := by
  induction lines generalizing offset with
  | nil => rfl
  | cons line lines ih => rw [cutLines, cutLines, clips_dropWhile before, ih (by omega)]

/-! ## What the producer writes -/

/-- The loop over the changes of a line joins its clips, and fails as soon as the diff has too many ranges;
`base` counts the ranges of the lines in front of it. -/
theorem lineRanges_eq {base : ℕ} (ranges : List ScalarRange) (forward : Forward changes)
    (ordered : ∀ change ∈ changes, change.1 ≤ change.2) (within : base + ranges.length ≤ maxInlineRanges) :
    lineRanges offset stop changes (base + ranges.length) ranges =
      if base + ((clips offset stop changes).foldl extend ranges).length ≤ maxInlineRanges then
        .ok ((clips offset stop changes).foldl extend ranges,
          base + ((clips offset stop changes).foldl extend ranges).length)
      else .error .resourceLimit := by
  induction changes generalizing ranges with
  | nil => exact (if_pos within).symm
  | cons change changes ih =>
    obtain ⟨ahead, forward'⟩ := List.pairwise_cons.mp forward
    obtain ⟨first, others⟩ := List.forall_mem_cons.mp ordered
    rcases change with ⟨changeStart, changeEnd⟩
    dsimp only at ahead first
    simp only [lineRanges]
    by_cases beyond : changeStart ≥ stop
    · rw [if_pos beyond, clips_eq_nil, List.foldl_nil, if_pos within]
      rw [List.forall_mem_cons]
      exact ⟨beyond, fun other later => by have := ahead other later; omega⟩
    rw [if_neg beyond, clips_cons]
    dsimp only
    by_cases reaches : max changeStart offset - offset < min changeEnd stop - offset
    · rw [if_pos reaches, if_pos reaches, List.foldl_cons]
      cases touching : ranges.getLast?.filter (·.2 == max changeStart offset - offset) with
      | some last =>
        -- the change continues the range in front of it
        have continued : extend ranges (max changeStart offset - offset, min changeEnd stop - offset) =
            ranges.dropLast ++ [(last.1, min changeEnd stop - offset)] := by
          rw [extend, touching]
        have some_range : ranges ≠ [] := by
          rintro rfl
          cases touching
        have same : (ranges.dropLast ++ [(last.1, min changeEnd stop - offset)]).length = ranges.length := by
          rw [List.length_append, List.length_dropLast, List.length_singleton]
          have := List.length_pos_of_ne_nil some_range
          omega
        rw [continued, ← same]
        exact ih _ forward' others (by omega)
      | none =>
        have added : extend ranges (max changeStart offset - offset, min changeEnd stop - offset) =
            ranges ++ [(max changeStart offset - offset, min changeEnd stop - offset)] := by
          rw [extend, touching]
        have grows := length_le_length_foldl (clips offset stop changes)
          (ranges ++ [(max changeStart offset - offset, min changeEnd stop - offset)])
        rw [List.length_append, List.length_singleton] at grows
        rw [added]
        by_cases many : base + ranges.length + 1 > maxInlineRanges
        · rw [if_pos many, if_neg (by omega)]
        · rw [if_neg many]
          have step := ih (ranges ++ [(max changeStart offset - offset, min changeEnd stop - offset)]) forward' others
          rw [List.length_append, List.length_singleton, ← Nat.add_assoc] at step
          exact step (by omega)
    · rw [if_neg reaches, if_neg reaches]
      exact ih ranges forward' others within

/-- The annotations of lines from one index on. -/
def highlightsOf (side : DiffSide) (start : ℕ) (shown : List (List ScalarRange)) : List SourceLineHighlights :=
  shown.mapIdx fun i ranges => ⟨side, start + i, ranges⟩

theorem highlightsOf_cons (side : DiffSide) (start : ℕ) (ranges : List ScalarRange) (shown : List (List ScalarRange)) :
    highlightsOf side start (ranges :: shown) = ⟨side, start, ranges⟩ :: highlightsOf side (start + 1) shown := by
  simp only [highlightsOf, List.mapIdx_cons, Nat.add_zero, Nat.add_right_comm _ 1, Nat.add_assoc]

/-- How many ranges a diff needs for these lines. -/
def rangesNeeded (shown : List (List ScalarRange)) : ℕ := (shown.map List.length).sum

theorem rangesNeeded_cons (ranges : List ScalarRange) (shown : List (List ScalarRange)) :
    rangesNeeded (ranges :: shown) = ranges.length + rangesNeeded shown := List.sum_cons

/-- The loop over the lines writes the ranges of all of them if the diff can afford them. -/
theorem annotateLines_eq {side : DiffSide} {start count : ℕ} {lines : List Rust.Str}
    {output : List SourceLineHighlights} (forward : Forward changes)
    (ordered : ∀ change ∈ changes, change.1 ≤ change.2) (within : count ≤ maxInlineRanges) :
    annotateLines side start offset lines changes count output =
      if count + rangesNeeded (cutLines changes offset lines) ≤ maxInlineRanges then
        .ok (output ++ highlightsOf side start (cutLines changes offset lines),
          count + rangesNeeded (cutLines changes offset lines))
      else .error .resourceLimit := by
  induction lines generalizing start offset changes count output with
  | nil => simp [annotateLines, cutLines, highlightsOf, rangesNeeded, within]
  | cons line lines ih =>
    have remaining : Forward (changes.dropWhile (·.2 ≤ offset)) := forward.sublist (List.dropWhile_sublist _)
    have stays : ∀ change ∈ changes.dropWhile (·.2 ≤ offset), change.1 ≤ change.2 := fun change member =>
      ordered change ((List.dropWhile_sublist _).mem member)
    have here : lineRanges offset (offset + line.length) (changes.dropWhile (·.2 ≤ offset)) count [] = _ :=
      lineRanges_eq [] remaining stays within
    rw [clips_dropWhile le_rfl, ← joined] at here
    simp only [annotateLines, here, cutLines, rangesNeeded_cons]
    by_cases fits : count + (joined (clips offset (offset + line.length) changes)).length ≤ maxInlineRanges
    · rw [if_pos fits]
      have rest : annotateLines side (start + 1) (offset + line.length) lines (changes.dropWhile (·.2 ≤ offset))
          (count + (joined (clips offset (offset + line.length) changes)).length)
          (output ++ [⟨side, start, joined (clips offset (offset + line.length) changes)⟩]) = _ :=
        ih remaining stays fits
      rw [cutLines_dropWhile (Nat.le_add_right _ _)] at rest
      rw [highlightsOf_cons, ← Nat.add_assoc]
      simpa [bind, Except.bind] using rest
    · rw [if_neg fits, if_neg (by omega)]
      rfl

/-- The annotation of a text writes, line by line, the only separate ranges of its changed scalars and counts
them, unless the diff then has too many ranges. -/
theorem annotate_exact {side : DiffSide} {start count : ℕ} {lines : List Rust.Str}
    {output : List SourceLineHighlights} (forward : Forward changes)
    (ordered : ∀ change ∈ changes, change.1 ≤ change.2) (within : count ≤ maxInlineRanges) :
    ∃ shown, Cuts changes 0 lines shown ∧ (∀ other, Cuts changes 0 lines other → other = shown) ∧
      annotate output side start lines changes count =
        if count + rangesNeeded shown ≤ maxInlineRanges then
          .ok (output ++ highlightsOf side start shown, count + rangesNeeded shown)
        else .error .resourceLimit := by
  have cut := cutLines_cut forward 0 lines
  exact ⟨_, cut, fun other same => same.unique cut, annotateLines_eq forward ordered within⟩

/-- A change over two lines, continued by a second one, in a diff that already has three ranges. -/
theorem annotate_exact_two_lines :
    ∃ shown, Cuts [(1, 4), (4, 6)] 0 [['a', 'b', '\n'], ['c', 'd', 'e', 'f']] shown ∧
      annotate [] .after 7 [['a', 'b', '\n'], ['c', 'd', 'e', 'f']] [(1, 4), (4, 6)] 3 =
        if 3 + rangesNeeded shown ≤ maxInlineRanges then
          .ok ([] ++ highlightsOf .after 7 shown, 3 + rangesNeeded shown)
        else .error .resourceLimit := by
  have forward : Forward [(1, 4), (4, 6)] := by simp [Forward]
  have within : 3 ≤ maxInlineRanges := by decide
  obtain ⟨shown, cut, -, written⟩ := annotate_exact forward (by simp) within
  exact ⟨shown, cut, written⟩

example : annotate [] .after 7 [['a', 'b', '\n'], ['c', 'd', 'e', 'f']] [(1, 4), (4, 6)] 3 =
    .ok ([⟨.after, 7, [(1, 3)]⟩, ⟨.after, 8, [(0, 3)]⟩], 5) := by rfl

/-- The numbers stored for a line of an accepted text fit the 32 bits that the source keeps of them. -/
theorem CutsLine.fits {text line : Rust.Str} (valid : ValidText text) (member : line ∈ linesOf text)
    {ranges : List ScalarRange} (cuts : CutsLine changes offset line.length ranges) :
    ∀ range ∈ ranges, range.1 < 2 ^ 32 ∧ range.2 < 2 ^ 32 := by
  intro range present
  have part : line.length ≤ text.length := by
    rw [← Rust.Str.splitInclusive_flatten '\n' text]
    exact (List.sublist_flatten_of_mem member).length_le
  have bytes := (part.trans (Rust.Str.length_le_byteLen text)).trans valid.bytes
  have nonempty := cuts.apart.nonempty range present
  have inside := cuts.within range present
  rw [maxTextBytes] at bytes
  omega

/-- A replacement block writes the changed scalars of both sides as its character diff reports them. -/
theorem annotateBlock_exact {similar : Similar} (lawful : similar.LawfulChars) {oldLines newLines : List Rust.Str}
    {first last : DiffOp} {output : List SourceLineHighlights} {count : ℕ} (within : count ≤ maxInlineRanges) :
    let old := (oldLines.take last.oldRange.2).drop first.oldRange.1
    let new := (newLines.take last.newRange.2).drop first.newRange.1
    let chars := similar.diffChars old.flatten new.flatten
    ∃ oldShown newShown, Cuts (changedRanges DiffOp.oldRange chars) 0 old oldShown ∧
      Cuts (changedRanges DiffOp.newRange chars) 0 new newShown ∧
      annotateBlock similar oldLines newLines first last output count =
        if count + rangesNeeded oldShown + rangesNeeded newShown ≤ maxInlineRanges then
          .ok (output ++ highlightsOf .before first.oldRange.1 oldShown ++
            highlightsOf .after first.newRange.1 newShown,
            count + rangesNeeded oldShown + rangesNeeded newShown)
        else .error .resourceLimit := by
  intro old new chars
  have tiled := (lawful.tiles old.flatten new.flatten).forward
  have oldForward := forward_changedRanges tiled.1.1
  have newForward := forward_changedRanges tiled.2.1
  refine ⟨_, _, cutLines_cut oldForward 0 old, cutLines_cut newForward 0 new, ?_⟩
  have both : annotateBlock similar oldLines newLines first last output count =
      annotateLines .before first.oldRange.1 0 old (changedRanges DiffOp.oldRange chars) count output >>= fun written =>
        annotateLines .after first.newRange.1 0 new (changedRanges DiffOp.newRange chars) written.2 written.1 := rfl
  rw [both, annotateLines_eq oldForward (changedRanges_ordered _ _) within]
  by_cases fits : count + rangesNeeded (cutLines (changedRanges DiffOp.oldRange chars) 0 old) ≤ maxInlineRanges
  · rw [if_pos fits]
    exact annotateLines_eq newForward (changedRanges_ordered _ _) fits
  · rw [if_neg fits, if_neg fun affordable => fits ((Nat.le_add_right _ _).trans affordable)]
    rfl

/-- A line that loses its newline is replaced by another one. -/
theorem annotateBlock_exact_replacement :
    ∃ oldShown newShown,
      Cuts (changedRanges DiffOp.oldRange (Similar.whole.diffChars ['a', '\n'] ['b'])) 0 [['a', '\n']] oldShown ∧
      Cuts (changedRanges DiffOp.newRange (Similar.whole.diffChars ['a', '\n'] ['b'])) 0 [['b']] newShown ∧
      annotateBlock Similar.whole [['a', '\n']] [['b']] (.replace 0 1 0 1) (.replace 0 1 0 1) [] 0 =
        if 0 + rangesNeeded oldShown + rangesNeeded newShown ≤ maxInlineRanges then
          .ok ([] ++ highlightsOf .before 0 oldShown ++ highlightsOf .after 0 newShown,
            0 + rangesNeeded oldShown + rangesNeeded newShown)
        else .error .resourceLimit :=
  @annotateBlock_exact Similar.whole Similar.whole_lawfulChars [['a', '\n']] [['b']] (.replace 0 1 0 1) (.replace 0 1 0 1) [] 0
    (Nat.zero_le _)

end Compute

end OpenLegal.TextDiff
