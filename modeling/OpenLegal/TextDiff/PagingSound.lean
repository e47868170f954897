import OpenLegal.TextDiff.Paging
import OpenLegal.TextDiff.Written

/-! # What an accepted worker output shows

The fragments published by the checker are read back as rows of their patch text. Together with equal
gaps they cover both originals: a fragment shows exactly the lines at its coordinates, and replacing
them gives the new text. The loop invariant keeps the finished fragments, the part under construction
and the common lines before it as hunks of one script between both texts.
-/

namespace OpenLegal.TextDiff.Paging

open Rust Rust.Str Theory Theory.Script Written

/-! ## Reading a fragment -/

/-- The tag of a row sign. -/
def tagOf? (sign : Char) : Option ChangeTag :=
  if sign = ' ' then some .equal else if sign = '-' then some .delete else if sign = '+' then some .insert else none

/-- The rows of patch lines; a marker line removes the newline of the row before it. -/
def readRows (lines : List Str) : Option (Script Str) :=
  match lines with
  | [] => some []
  | line :: rest => do
    let tag ← line.head?.bind tagOf?
    if rest.head? = some marker then do
      let rows ← readRows rest.tail
      pure ((tag, line.tail.dropLast) :: rows)
    else do
      let rows ← readRows rest
      pure ((tag, line.tail) :: rows)
termination_by lines.length
decreasing_by all_goals grind

/-- The rows a fragment shows, below its two file headers and its hunk header. -/
def fragmentRows (fragment : DiffFragment) : Option (Script Str) := readRows ((linesOf fragment.patch).drop 3)

theorem tagOf?_rowSign (tag : ChangeTag) : tagOf? (Compute.rowSign tag) = some tag := by
  cases tag <;> rfl

theorem readRows_rowLines {rows : Script Str} (lines : ∀ row ∈ rows, IsLine row.2) :
    readRows (rows.flatMap rowLines) = some rows := by
  induction rows with
  | nil => rw [List.flatMap_nil, readRows.eq_def]
  | cons row rows ih =>
    have tail := ih fun other member => lines other (List.mem_cons_of_mem _ member)
    have noMarker : (rows.flatMap rowLines).head? ≠ some marker := by
      have := @rowLines_head_ne_marker rows [] (by simp)
      rwa [List.append_nil] at this
    rw [List.flatMap_cons, rowLines]
    by_cases ends : endsWith row.2 '\n' = true
    · rw [if_pos ends, List.singleton_append, readRows.eq_def]
      simp [tagOf?_rowSign, noMarker, tail]
    · rw [if_neg ends]
      simp only [List.cons_append, List.nil_append]
      rw [readRows.eq_def]
      simp [tagOf?_rowSign, tail, show Patch.marker = marker from rfl]

/-! ## Coordinates and annotations -/

/-- The number of old lines before a fragment; the start of an empty side is the preceding line. -/
def beforeOffset (fragment : DiffFragment) : ℕ :=
  if fragment.beforeCount = 0 then fragment.beforeStart else fragment.beforeStart - 1

/-- The number of new lines before a fragment. -/
def afterOffset (fragment : DiffFragment) : ℕ :=
  if fragment.afterCount = 0 then fragment.afterStart else fragment.afterStart - 1

/-- Nonempty ranges in order, without overlap and inside a line of `count` scalars. -/
def OrderedRanges (count : ℕ) (ranges : List ScalarRange) : Prop :=
  ranges.Pairwise (fun first second => first.2 ≤ second.1) ∧ ∀ range ∈ ranges, range.1 < range.2 ∧ range.2 ≤ count

theorem orderedRanges_of_checkRanges {count stop : ℕ} {ranges : List ScalarRange}
    (checked : checkRanges count stop ranges = true) :
    OrderedRanges count ranges ∧ ∀ range ∈ ranges, stop ≤ range.1 := by
  induction ranges generalizing stop with
  | nil => simp [OrderedRanges]
  | cons range ranges ih =>
    rcases range with ⟨start, next⟩
    simp only [checkRanges, Bool.and_eq_true, Bool.not_eq_true', Bool.or_eq_false_iff, decide_eq_false_iff_not] at checked
    obtain ⟨⟨⟨first, second⟩, third⟩, rest⟩ := checked
    obtain ⟨⟨ordered, inside⟩, behind⟩ := ih rest
    refine ⟨⟨List.pairwise_cons.mpr ⟨behind, ordered⟩, ?_⟩, ?_⟩
    · intro range member
      rcases List.mem_cons.mp member with rfl | member
      · dsimp only; omega
      · exact inside range member
    · intro range member
      rcases List.mem_cons.mp member with rfl | member
      · dsimp only; omega
      · have := behind range member; omega

/-- The indices of the rows that change something. -/
def changedRows (rows : Script Str) : List ℕ :=
  (List.range rows.length).filter fun k => (rows[k]?).any (·.1 ≠ .equal)

/-- Every changed row has exactly one annotation, in row order, and context rows have none. -/
def Annotated (changes : List InlineChange) (rows : Script Str) : Prop :=
  changes.map (·.rowIndex) = changedRows rows ∧
    ∀ change ∈ changes, ∃ row, rows[change.rowIndex]? = some row ∧ OrderedRanges row.2.length change.ranges

theorem changedRows_concat (rows : Script Str) (row : ChangeTag × Str) :
    changedRows (rows ++ [row]) = changedRows rows ++ if row.1 = .equal then [] else [rows.length] := by
  have front : (List.range rows.length).filter (fun k => ((rows ++ [row])[k]?).any (·.1 ≠ .equal)) =
      changedRows rows := by
    refine List.filter_congr fun k member => ?_
    rw [List.getElem?_append_left (List.mem_range.mp member)]
  rw [changedRows, List.length_append, List.length_singleton, List.range_succ, List.filter_append, front]
  by_cases kept : row.1 = .equal <;> simp [kept]

theorem Annotated.concat {changes : List InlineChange} {rows : Script Str} (annotated : Annotated changes rows)
    {row : ChangeTag × Str} {ranges : Option (List ScalarRange)} (kept : ranges = none ↔ row.1 = .equal)
    (ordered : ∀ found, ranges = some found → OrderedRanges row.2.length found) :
    Annotated (changes ++ (ranges.map fun ranges => ⟨rows.length, ranges⟩).toList) (rows ++ [row]) := by
  have old : ∀ change ∈ changes, ∃ other, (rows ++ [row])[change.rowIndex]? = some other ∧
      OrderedRanges other.2.length change.ranges := by
    intro change member
    obtain ⟨other, found, inside⟩ := annotated.2 change member
    have bound : change.rowIndex < rows.length := (List.getElem?_eq_some_iff.mp found).1
    exact ⟨other, by rw [List.getElem?_append_left bound, found], inside⟩
  cases ranges with
  | none =>
    refine ⟨?_, by simpa using old⟩
    rw [changedRows_concat, if_pos (kept.mp rfl)]
    simpa using annotated.1
  | some found =>
    have changed : row.1 ≠ .equal := fun same => by cases kept.mpr same
    refine ⟨?_, ?_⟩
    · rw [changedRows_concat, if_neg changed, List.map_append, annotated.1]
      rfl
    · intro change member
      rcases List.mem_append.mp member with member | member
      · exact old change member
      · obtain rfl : change = ⟨rows.length, found⟩ := by simpa using member
        exact ⟨row, by simp, ordered found rfl⟩

/-! ## Fragments as hunks -/

/-- A fragment shows a hunk whose gap starts after `i` old and `j` new lines. -/
structure Describes (i j : ℕ) (fragment : DiffFragment) (hunk : Hunk Str) : Prop where
  rows : fragmentRows fragment = some hunk.rows
  beforeStart : fragment.beforeStart = Paging.beforeOffset fragment + if fragment.beforeCount = 0 then 0 else 1
  beforeOffset : beforeOffset fragment = i + hunk.gap.length
  beforeCount : fragment.beforeCount = (source hunk.rows).length
  afterStart : fragment.afterStart = Paging.afterOffset fragment + if fragment.afterCount = 0 then 0 else 1
  afterOffset : afterOffset fragment = j + hunk.gap.length
  afterCount : fragment.afterCount = (target hunk.rows).length
  annotated : Annotated fragment.inlineChanges hunk.rows

/-- Fragments show hunks one after the other. -/
def DescribesAll : ℕ → ℕ → List DiffFragment → List (Hunk Str) → Prop
  | _, _, [], [] => True
  | i, j, fragment :: fragments, hunk :: hunks =>
    Describes i j fragment hunk ∧
      DescribesAll (i + hunk.gap.length + (source hunk.rows).length)
        (j + hunk.gap.length + (target hunk.rows).length) fragments hunks
  | _, _, _, _ => False

theorem DescribesAll.concat {i j : ℕ} {fragments : List DiffFragment} {hunks : List (Hunk Str)}
    (all : DescribesAll i j fragments hunks) {fragment : DiffFragment} {hunk : Hunk Str}
    (next : Describes (i + (Hunk.sourceOf hunks []).length) (j + (Hunk.targetOf hunks []).length) fragment hunk) :
    DescribesAll i j (fragments ++ [fragment]) (hunks ++ [hunk]) := by
  induction fragments generalizing i j hunks with
  | nil =>
    cases hunks with
    | nil => exact ⟨next, trivial⟩
    | cons => exact all.elim
  | cons first fragments ih =>
    cases hunks with
    | nil => exact all.elim
    | cons head hunks =>
      refine ⟨all.1, ih all.2 ?_⟩
      simpa only [Hunk.sourceOf_cons, Hunk.targetOf_cons, List.length_append, Nat.add_assoc] using next

theorem sourceOf_concat (hunks : List (Hunk Str)) (hunk : Hunk Str) :
    Hunk.sourceOf (hunks ++ [hunk]) [] = Hunk.sourceOf hunks [] ++ hunk.gap ++ source hunk.rows := by
  simp [Hunk.sourceOf]

theorem targetOf_concat (hunks : List (Hunk Str)) (hunk : Hunk Str) :
    Hunk.targetOf (hunks ++ [hunk]) [] = Hunk.targetOf hunks [] ++ hunk.gap ++ target hunk.rows := by
  simp [Hunk.targetOf]

/-- The part under construction shows rows after a gap. -/
structure PartShows (i j : ℕ) (part : Part) (hunk : Hunk Str) : Prop where
  before : part.before = i + hunk.gap.length + 1
  after : part.after = j + hunk.gap.length + 1
  beforeCount : part.beforeCount = (source hunk.rows).length
  afterCount : part.afterCount = (target hunk.rows).length
  body : part.body = (hunk.rows.flatMap rowLines).flatten
  rows : part.rows = hunk.rows.length
  lines : ∀ row ∈ hunk.rows, IsLine row.2
  annotated : Annotated part.inlineChanges hunk.rows

theorem partHeader_terminated (a b c d : ℕ) : Terminated '\n' (Part.header a b c d) := by
  refine ⟨['@', '@', ' ', '-'] ++ decimal a ++ ',' :: decimal b ++ [' ', '+'] ++ decimal c ++
    ',' :: decimal d ++ [' ', '@', '@'], ?_, by simp [Part.header]⟩
  have absent (n : ℕ) : '\n' ∉ decimal n := not_mem_decimal (by decide)
  simp [absent]

/-- The text of a finished part is read back as its rows. -/
theorem fragmentRows_finish {i j : ℕ} {part : Part} {hunk : Hunk Str} (shows : PartShows i j part hunk) :
    fragmentRows part.finish = some hunk.rows := by
  have rowsTerminated : ∀ line ∈ hunk.rows.flatMap rowLines, Terminated '\n' line := by
    intro line member
    obtain ⟨row, present, member⟩ := List.mem_flatMap.mp member
    exact rowLines_terminated (shows.lines row present) line member
  have third := partHeader_terminated (if part.beforeCount = 0 then part.before - 1 else part.before)
    part.beforeCount (if part.afterCount = 0 then part.after - 1 else part.after) part.afterCount
  have text : linesOf part.finish.patch = beforeHeader :: afterHeader ::
      Part.header (if part.beforeCount = 0 then part.before - 1 else part.before) part.beforeCount
        (if part.afterCount = 0 then part.after - 1 else part.after) part.afterCount ::
      hunk.rows.flatMap rowLines := by
    rw [Part.finish, shows.body]
    dsimp only
    rw [linesOf, List.append_assoc, List.append_assoc, splitInclusive_terminated_append beforeHeader_terminated,
      splitInclusive_terminated_append afterHeader_terminated, splitInclusive_terminated_append third,
      splitInclusive_of_isLines (isLines_of_terminated rowsTerminated)]
  rw [fragmentRows, text]
  exact readRows_rowLines shows.lines

theorem PartShows.describes {i j : ℕ} {part : Part} {hunk : Hunk Str} (shows : PartShows i j part hunk) :
    Describes i j part.finish hunk where
  rows := fragmentRows_finish shows
  beforeStart := by
    have := shows.before
    simp only [Paging.beforeOffset, Part.finish]
    by_cases empty : part.beforeCount = 0
    · simp [empty]
    · simp only [empty, ↓reduceIte]; omega
  beforeOffset := by
    have := shows.before
    simp only [Paging.beforeOffset, Part.finish]
    split_ifs <;> omega
  beforeCount := shows.beforeCount
  afterStart := by
    have := shows.after
    simp only [Paging.afterOffset, Part.finish]
    by_cases empty : part.afterCount = 0
    · simp [empty]
    · simp only [empty, ↓reduceIte]; omega
  afterOffset := by
    have := shows.after
    simp only [Paging.afterOffset, Part.finish]
    split_ifs <;> omega
  afterCount := shows.afterCount
  annotated := shows.annotated

/-! ## The loop invariant -/

/-- Pending annotations are ordered ranges of existing lines. -/
def ValidAnnotations (oldLines newLines : List Str) (annotations : Annotations) : Prop :=
  ∀ entry ∈ annotations, ∃ line,
    (match entry.1.1 with
      | .before => oldLines
      | .after => newLines)[entry.1.2]? = some line ∧ OrderedRanges line.length entry.2

/-- How many rows of the hunks carry a tag. -/
def tagCount (tag : ChangeTag) (hunks : List (Hunk Str)) : ℕ :=
  (hunks.map fun hunk => hunk.rows.countP (·.1 = tag)).sum

/-- Finished fragments, the part under construction and the cursors agree on one sequence of hunks:
`hunks` are finished and `current` is under construction. -/
structure Progress (oldLines newLines : List Str) (state : State) (hunks : List (Hunk Str)) (current : Hunk Str) :
    Prop where
  finished : DescribesAll 0 0 (state.pages.flatten ++ state.page) hunks
  old : oldLines = Hunk.sourceOf (hunks ++ [current]) [] ++ oldLines.drop state.oldCursor
  oldCursor : state.oldCursor = (Hunk.sourceOf (hunks ++ [current]) []).length
  new : newLines = Hunk.targetOf (hunks ++ [current]) [] ++ newLines.drop state.newCursor
  newCursor : state.newCursor = (Hunk.targetOf (hunks ++ [current]) []).length
  unopened : state.part = none → hunks = [] ∧ current = ⟨[], []⟩
  opened : ∀ part, state.part = some part →
    PartShows (Hunk.sourceOf hunks []).length (Hunk.targetOf hunks []).length part current ∧
      state.before = state.oldCursor + 1 ∧ state.after = state.newCursor + 1
  additions : state.additions = tagCount .insert (hunks ++ [current])
  deletions : state.deletions = tagCount .delete (hunks ++ [current])
  annotations : ValidAnnotations oldLines newLines state.annotations

theorem internal_eq_ok {condition : Bool} (success : internal condition = .ok ()) : condition = false := by
  cases condition with
  | false => rfl
  | true => cases success

theorem requireInternal_eq_ok {α : Type} {value : Option α} {result : α}
    (success : requireInternal value = .ok result) : value = some result := by
  cases value with
  | none => cases success
  | some value => cases success; rfl

/-- Finishing a part appends its fragment to the pages and changes nothing else. -/
theorem finishPart_ok {json : SerdeJson} {state final : State} {part : Part}
    (success : finishPart json state part = .ok final) :
    ∃ pages page pageRows pageBytes pageRanges,
      final = { state with pages, page, pageRows, pageBytes, pageRanges } ∧
      pages.flatten ++ page = state.pages.flatten ++ state.page ++ [part.finish] := by
  simp only [finishPart, bind_eq_ok] at success
  obtain ⟨_, -, success⟩ := success
  split_ifs at success
  · cases success
    exact ⟨_, _, _, _, _, rfl, by simp⟩
  · cases success
    exact ⟨_, _, _, _, _, rfl, by simp⟩

theorem tagCount_concat (tag : ChangeTag) (hunks : List (Hunk Str)) (hunk : Hunk Str) :
    tagCount tag (hunks ++ [hunk]) = tagCount tag hunks + hunk.rows.countP (·.1 = tag) := by
  simp [tagCount]

/-- The shared part of closing a part: its fragment joins the finished ones, and an empty hunk follows. -/
theorem Progress.close {oldLines newLines : List Str} {state final : State} {hunks : List (Hunk Str)}
    {current : Hunk Str} (progress : Progress oldLines newLines state hunks current) {part : Part}
    (opened : state.part = some part) (fragments : final.pages.flatten ++ final.page =
      state.pages.flatten ++ state.page ++ [part.finish]) :
    DescribesAll 0 0 (final.pages.flatten ++ final.page) (hunks ++ [current]) := by
  rw [fragments]
  refine progress.finished.concat ?_
  rw [Nat.zero_add, Nat.zero_add]
  exact (progress.opened part opened).1.describes

private theorem empty_hunk_source (hunks : List (Hunk Str)) (gap : List Str) :
    Hunk.sourceOf (hunks ++ [⟨gap, []⟩]) [] = Hunk.sourceOf hunks [] ++ gap := by simp [Hunk.sourceOf]

private theorem empty_hunk_target (hunks : List (Hunk Str)) (gap : List Str) :
    Hunk.targetOf (hunks ++ [⟨gap, []⟩]) [] = Hunk.targetOf hunks [] ++ gap := by simp [Hunk.targetOf]

theorem partShows_empty (i j : ℕ) (gap : List Str) (part : Part) (before : part.before = i + gap.length + 1)
    (after : part.after = j + gap.length + 1)
    (fresh : part = { before := part.before, after := part.after }) : PartShows i j part ⟨gap, []⟩ where
  before := before
  after := after
  beforeCount := by rw [fresh]; rfl
  afterCount := by rw [fresh]; rfl
  body := by rw [fresh]; rfl
  rows := by rw [fresh]; rfl
  lines := by simp
  annotated := by rw [fresh]; exact ⟨rfl, by simp⟩

/-- A side that continues with an equal gap. -/
private theorem side_gap {lines side gap : List Str} {cursor stop : ℕ} (split : lines = side ++ lines.drop cursor)
    (position : cursor = side.length) (found : getRange lines cursor stop = some gap) :
    lines = side ++ gap ++ lines.drop stop ∧ stop = (side ++ gap).length := by
  obtain ⟨forward, inside, rfl⟩ := getRange_eq_some found
  have front : (lines.take stop).take cursor = side := by
    rw [List.take_take, Nat.min_eq_left forward, split, position, List.take_left]
  have cut : lines.take stop = side ++ (lines.take stop).drop cursor := by
    rw [← front, List.take_append_drop]
  refine ⟨?_, ?_⟩
  · rw [← cut, List.take_append_drop]
  · rw [← cut, List.length_take, Nat.min_eq_left inside]

/-- The pending part, if any, becomes the last finished hunk. -/
theorem Progress.finishPending {json : SerdeJson} {oldLines newLines : List Str} {state final : State}
    {hunks : List (Hunk Str)} {current : Hunk Str} (progress : Progress oldLines newLines state hunks current)
    (success : finishPending json state = .ok final) :
    ∃ hunks' : List (Hunk Str), DescribesAll 0 0 (final.pages.flatten ++ final.page) hunks' ∧
      (final.oldCursor = state.oldCursor ∧ final.newCursor = state.newCursor ∧
        final.annotations = state.annotations ∧ final.additions = state.additions ∧
        final.deletions = state.deletions) ∧
      (tagCount .insert hunks' = tagCount .insert (hunks ++ [current]) ∧
        tagCount .delete hunks' = tagCount .delete (hunks ++ [current])) ∧
      Hunk.sourceOf hunks' [] = Hunk.sourceOf (hunks ++ [current]) [] ∧
        Hunk.targetOf hunks' [] = Hunk.targetOf (hunks ++ [current]) [] := by
  cases opened : state.part with
  | none =>
    rw [Paging.finishPending, opened] at success
    cases success
    obtain ⟨rfl, rfl⟩ := progress.unopened opened
    exact ⟨[], progress.finished, ⟨rfl, rfl, rfl, rfl, rfl⟩, ⟨rfl, rfl⟩, rfl, rfl⟩
  | some part =>
    rw [Paging.finishPending, opened] at success
    obtain ⟨pages, page, _, _, _, rfl, fragments⟩ := finishPart_ok success
    exact ⟨hunks ++ [current], progress.close opened fragments, ⟨rfl, rfl, rfl, rfl, rfl⟩, ⟨rfl, rfl⟩, rfl, rfl⟩

/-- A hunk header keeps the invariant and opens a hunk without rows. -/
theorem Progress.openHunk {json : SerdeJson} {oldLines newLines : List Str} {line : Str} {state final : State}
    {hunks : List (Hunk Str)} {current : Hunk Str} (progress : Progress oldLines newLines state hunks current)
    (success : openHunk json oldLines newLines line state = .ok final) :
    ∃ hunks' current', Progress oldLines newLines final hunks' current' := by
  simp only [Paging.openHunk, bind_eq_ok] at success
  obtain ⟨_, -, middle, pending, ⟨⟨old, oldCount⟩, ⟨new, newCount⟩⟩, -, _, oldPositive, _, newPositive, oldGap,
    oldFound, newGap, newFound, _, sameGap, success⟩ := success
  have oldPositive := internal_eq_ok oldPositive
  have newPositive := internal_eq_ok newPositive
  have oldFound := requireInternal_eq_ok oldFound
  have newFound := requireInternal_eq_ok newFound
  have sameGap := internal_eq_ok sameGap
  simp only [beq_eq_false_iff_ne, ne_eq, decide_eq_false_iff_not, not_not] at oldPositive newPositive sameGap
  dsimp only at oldPositive newPositive oldFound newFound
  subst sameGap
  cases success
  obtain ⟨hunks', finished, fields, counts, sides⟩ := progress.finishPending pending
  rw [fields.1] at oldFound
  rw [fields.2.1] at newFound
  obtain ⟨oldSplit, oldStop⟩ := side_gap progress.old progress.oldCursor oldFound
  obtain ⟨newSplit, newStop⟩ := side_gap progress.new progress.newCursor newFound
  rw [← sides.1] at oldSplit oldStop
  rw [← sides.2] at newSplit newStop
  refine ⟨hunks', ⟨oldGap, []⟩, ?_⟩
  exact {
    finished
    old := by rw [empty_hunk_source]; exact oldSplit
    oldCursor := by rw [empty_hunk_source]; exact oldStop
    new := by rw [empty_hunk_target]; exact newSplit
    newCursor := by rw [empty_hunk_target]; exact newStop
    unopened := fun impossible => by cases impossible
    opened := by
      rintro part ⟨⟩
      rw [List.length_append] at oldStop newStop
      refine ⟨partShows_empty _ _ _ _ ?_ ?_ rfl, ?_, ?_⟩
      all_goals dsimp only; omega
    additions := by rw [tagCount_concat, counts.1, ← progress.additions]; exact fields.2.2.2.1
    deletions := by rw [tagCount_concat, counts.2, ← progress.deletions]; exact fields.2.2.2.2
    annotations := by
      have := progress.annotations
      rw [← fields.2.2.1] at this
      exact this }

theorem takeHighlight_eq_some {key : DiffSide × ℕ} {annotations rest : Annotations} {ranges : List ScalarRange}
    (taken : takeHighlight key annotations = some (ranges, rest)) :
    (key, ranges) ∈ annotations ∧ rest ⊆ annotations := by
  induction annotations generalizing rest with
  | nil => cases taken
  | cons entry annotations ih =>
    simp only [takeHighlight] at taken
    split_ifs at taken with same
    · cases taken
      exact ⟨by simp [← same], List.subset_cons_self ..⟩
    · obtain ⟨⟨found, others⟩, inner, same⟩ := Option.map_eq_some_iff.mp taken
      cases same
      obtain ⟨member, part⟩ := ih inner
      exact ⟨List.mem_cons_of_mem _ member, List.cons_subset_cons _ part⟩

/-- The text of an accepted row, as the line of the originals it was compared with. -/
structure RowMatch (oldLines newLines : List Str) (state : State) (tag : ChangeTag) (text : Str) : Prop where
  old : tag ≠ .insert → oldLines[state.oldCursor]? = some text
  new : tag ≠ .delete → newLines[state.newCursor]? = some text

/-- A consumed annotation belongs to the row's line. -/
theorem consumeHighlight_ok {oldLines newLines : List Str} {state : State} {tag : ChangeTag} {text : Str}
    {ranges : Option (List ScalarRange)} {rest : Annotations}
    (valid : ValidAnnotations oldLines newLines state.annotations)
    (matched : RowMatch oldLines newLines state tag text)
    (success : consumeHighlight (Compute.rowSign tag) state = .ok (ranges, rest)) :
    (ranges = none ↔ tag = .equal) ∧ (∀ found, ranges = some found → OrderedRanges text.length found) ∧
      rest ⊆ state.annotations := by
  cases tag with
  | equal =>
    cases success
    exact ⟨by simp, by simp, List.Subset.refl _⟩
  | delete =>
    obtain ⟨⟨found, others⟩, taken, same⟩ := bind_eq_ok.mp success
    cases same
    obtain ⟨member, part⟩ := takeHighlight_eq_some (requireInternal_eq_ok taken)
    obtain ⟨line, atLine, ordered⟩ := valid _ member
    have same := matched.old (by simp)
    dsimp only at atLine
    rw [same] at atLine
    cases atLine
    exact ⟨by simp, by rintro _ ⟨⟩; exact ordered, part⟩
  | insert =>
    obtain ⟨⟨found, others⟩, taken, same⟩ := bind_eq_ok.mp success
    cases same
    obtain ⟨member, part⟩ := takeHighlight_eq_some (requireInternal_eq_ok taken)
    obtain ⟨line, atLine, ordered⟩ := valid _ member
    have same := matched.new (by simp)
    dsimp only at atLine
    rw [same] at atLine
    cases atLine
    exact ⟨by simp, by rintro _ ⟨⟩; exact ordered, part⟩

theorem Progress.dropAnnotations {oldLines newLines : List Str} {state : State} {hunks : List (Hunk Str)}
    {current : Hunk Str} (progress : Progress oldLines newLines state hunks current) {rest : Annotations}
    (part : rest ⊆ state.annotations) :
    Progress oldLines newLines { state with annotations := rest } hunks current :=
  { progress with annotations := fun entry member => progress.annotations entry (part member) }

/-- Cutting a hunk closes the part and continues with an empty one at the same position. -/
theorem Progress.fitPart {json : SerdeJson} {encoded rangeCount : ℕ} {oldLines newLines : List Str}
    {state final : State} {part next : Part} {hunks : List (Hunk Str)} {current : Hunk Str}
    (progress : Progress oldLines newLines state hunks current) (opened : state.part = some part)
    (success : fitPart json encoded rangeCount part state = .ok (next, final)) :
    ∃ hunks' current', Progress oldLines newLines { final with part := some next } hunks' current' ∧
      final.oldCursor = state.oldCursor ∧ final.newCursor = state.newCursor := by
  simp only [Paging.fitPart] at success
  split_ifs at success with full
  · obtain ⟨closed, ran, same⟩ := bind_eq_ok.mp success
    cases same
    obtain ⟨pages, page, _, _, _, rfl, fragments⟩ := finishPart_ok ran
    obtain ⟨-, before, after⟩ := progress.opened part opened
    refine ⟨hunks ++ [current], ⟨[], []⟩, ?_, rfl, rfl⟩
    exact {
      finished := progress.close opened fragments
      old := by rw [empty_hunk_source, List.append_nil]; exact progress.old
      oldCursor := by rw [empty_hunk_source, List.append_nil]; exact progress.oldCursor
      new := by rw [empty_hunk_target, List.append_nil]; exact progress.new
      newCursor := by rw [empty_hunk_target, List.append_nil]; exact progress.newCursor
      unopened := fun impossible => by cases impossible
      opened := by
        rintro part ⟨⟩
        have oldCursor := progress.oldCursor
        have newCursor := progress.newCursor
        refine ⟨partShows_empty _ _ _ _ ?_ ?_ rfl, before, after⟩
        · dsimp only [List.length_nil]; omega
        · dsimp only [List.length_nil]; omega
      additions := by rw [tagCount_concat]; exact progress.additions
      deletions := by rw [tagCount_concat]; exact progress.deletions
      annotations := progress.annotations }
  · cases success
    have same : { state with part := some part } = state := by rw [← opened]
    exact ⟨hunks, current, by rw [same]; exact progress, rfl, rfl⟩

/-- The state after an accepted row. -/
def pushed (state : State) (sign : Char) (part : Part) : State :=
  { state with
    part := some part
    before := if sign = '+' then state.before else state.before + 1
    after := if sign = '-' then state.after else state.after + 1
    oldRemaining := if sign = '+' then state.oldRemaining else state.oldRemaining - 1
    newRemaining := if sign = '-' then state.newRemaining else state.newRemaining - 1
    oldCursor := if sign = '+' then state.oldCursor else state.oldCursor + 1
    newCursor := if sign = '-' then state.newCursor else state.newCursor + 1
    additions := state.additions + if sign = '+' then 1 else 0
    deletions := state.deletions + if sign = '-' then 1 else 0
    hunkChanged := state.hunkChanged || sign ≠ ' ' }

/-- A side that continues with one line. -/
private theorem side_line {lines side : List Str} {cursor : ℕ} {line : Str}
    (split : lines = side ++ lines.drop cursor) (position : cursor = side.length)
    (found : lines[cursor]? = some line) :
    lines = side ++ [line] ++ lines.drop (cursor + 1) ∧ cursor + 1 = (side ++ [line]).length := by
  obtain ⟨inside, rfl⟩ := List.getElem?_eq_some_iff.mp found
  refine ⟨?_, by simp [position]⟩
  rw [List.append_assoc, List.singleton_append, ← List.drop_eq_getElem_cons inside]
  exact split

theorem PartShows.push {i j : ℕ} {part : Part} {hunk : Hunk Str} (shows : PartShows i j part hunk)
    {tag : ChangeTag} {text line : Str} {noNewline : Bool} {ranges : Option (List ScalarRange)}
    {encoded rangeCount : ℕ} (isLine : IsLine text)
    (written : (rowLines (tag, text)).flatten = line ++ if noNewline then marker else [])
    (kept : ranges = none ↔ tag = .equal) (ordered : ∀ found, ranges = some found → OrderedRanges text.length found) :
    PartShows i j (part.push (Compute.rowSign tag) line noNewline ranges encoded rangeCount)
      ⟨hunk.gap, hunk.rows ++ [(tag, text)]⟩ where
  before := shows.before
  after := shows.after
  beforeCount := by
    have := shows.beforeCount
    cases tag <;> simp [Part.push, Compute.rowSign, this]
  afterCount := by
    have := shows.afterCount
    cases tag <;> simp [Part.push, Compute.rowSign, this]
  body := by
    simp only [Part.push, shows.body, List.flatMap_append, List.flatten_append, List.flatMap_singleton, written,
      List.append_assoc]
  rows := by simp [Part.push, shows.rows]
  lines := by
    intro row member
    rcases List.mem_append.mp member with member | member
    · exact shows.lines row member
    · obtain rfl := List.mem_singleton.mp member
      exact isLine
  annotated := by
    simp only [Part.push, shows.rows]
    exact shows.annotated.concat kept ordered

/-- An accepted row keeps the invariant: it extends the hunk under construction. -/
theorem Progress.push {oldLines newLines : List Str} {state : State} {hunks : List (Hunk Str)} {current : Hunk Str}
    (progress : Progress oldLines newLines state hunks current) {part next : Part} (opened : state.part = some part)
    {tag : ChangeTag} {text : Str} (matched : RowMatch oldLines newLines state tag text)
    (shows : PartShows (Hunk.sourceOf hunks []).length (Hunk.targetOf hunks []).length next
      ⟨current.gap, current.rows ++ [(tag, text)]⟩) :
    Progress oldLines newLines (pushed state (Compute.rowSign tag) next) hunks
      ⟨current.gap, current.rows ++ [(tag, text)]⟩ := by
  obtain ⟨-, before, after⟩ := progress.opened part opened
  have sourceSide : Hunk.sourceOf (hunks ++ [⟨current.gap, current.rows ++ [(tag, text)]⟩]) [] =
      Hunk.sourceOf (hunks ++ [current]) [] ++ source [(tag, text)] := by simp [sourceOf_concat]
  have targetSide : Hunk.targetOf (hunks ++ [⟨current.gap, current.rows ++ [(tag, text)]⟩]) [] =
      Hunk.targetOf (hunks ++ [current]) [] ++ target [(tag, text)] := by simp [targetOf_concat]
  have oldStep : (pushed state (Compute.rowSign tag) next).oldCursor = state.oldCursor + (source [(tag, text)]).length ∧
      oldLines = Hunk.sourceOf (hunks ++ [current]) [] ++ source [(tag, text)] ++
        oldLines.drop (pushed state (Compute.rowSign tag) next).oldCursor := by
    cases tag with
    | insert => exact ⟨rfl, by rw [source_insert, source_nil, List.append_nil]; exact progress.old⟩
    | delete => exact ⟨rfl, (side_line progress.old progress.oldCursor (matched.old (by simp))).1⟩
    | equal => exact ⟨rfl, (side_line progress.old progress.oldCursor (matched.old (by simp))).1⟩
  have newStep : (pushed state (Compute.rowSign tag) next).newCursor = state.newCursor + (target [(tag, text)]).length ∧
      newLines = Hunk.targetOf (hunks ++ [current]) [] ++ target [(tag, text)] ++
        newLines.drop (pushed state (Compute.rowSign tag) next).newCursor := by
    cases tag with
    | insert => exact ⟨rfl, (side_line progress.new progress.newCursor (matched.new (by simp))).1⟩
    | delete => exact ⟨rfl, by rw [target_delete, target_nil, List.append_nil]; exact progress.new⟩
    | equal => exact ⟨rfl, (side_line progress.new progress.newCursor (matched.new (by simp))).1⟩
  exact {
    finished := progress.finished
    old := by rw [sourceSide]; exact oldStep.2
    oldCursor := by rw [sourceSide, List.length_append, ← progress.oldCursor]; exact oldStep.1
    new := by rw [targetSide]; exact newStep.2
    newCursor := by rw [targetSide, List.length_append, ← progress.newCursor]; exact newStep.1
    unopened := fun impossible => by cases impossible
    opened := by
      rintro part ⟨⟩
      refine ⟨shows, ?_, ?_⟩
      · cases tag <;> simp [pushed, Compute.rowSign, before]
      · cases tag <;> simp [pushed, Compute.rowSign, after]
    additions := by
      have := progress.additions
      rw [tagCount_concat] at this ⊢
      cases tag <;> simp only [pushed, Compute.rowSign, this] <;> simp
      omega
    deletions := by
      have := progress.deletions
      rw [tagCount_concat] at this ⊢
      cases tag <;> simp only [pushed, Compute.rowSign, this] <;> simp
      omega
    annotations := progress.annotations }

/-- An accepted patch line is its row written back. -/
private theorem rowLines_eq_line {sign : Char} {line : Str} {tag : ChangeTag} (signed : Compute.rowSign tag = sign)
    (head : line.head? = some sign) (isLine : IsLine line) (ends : endsWith line '\n' = true) (noNewline : Bool) :
    (rowLines (tag, if noNewline then line.tail.dropLast else line.tail)).flatten =
      line ++ if noNewline then marker else [] := by
  obtain ⟨body, absent, rfl⟩ : Terminated '\n' line := by
    rcases isLine with terminated | ⟨-, absent⟩
    · exact terminated
    · exact absurd (List.mem_of_getLast? (beq_iff_eq.mp ends)) absent
  cases body with
  | nil =>
    obtain rfl : '\n' = sign := by simpa using head
    cases tag <;> cases signed
  | cons first inner =>
    obtain rfl : first = sign := by simpa using head
    have plain : endsWith inner '\n' = false := by
      refine Bool.eq_false_iff.mpr fun found => absent (List.mem_cons_of_mem _ ?_)
      exact List.mem_of_getLast? (beq_iff_eq.mp found)
    cases noNewline
    · simp [rowLines, signed]
    · simp [rowLines, signed, plain, show Patch.marker = marker from rfl]

/-- The size that the pager estimates for a row. -/
def encodedRow (json : SerdeJson) (line : Str) (ranges : Option (List ScalarRange)) (noNewline : Bool) : ℕ :=
  json.stringLen line + (ranges.map serializedHighlightSize).getD 0 + if noNewline then 40 else 0

/-- An accepted data row has a sign and matches the originals; it extends the current part or a fresh one. -/
theorem dataRow_ok {json : SerdeJson} {oldLines newLines : List Str} {line : Str} {noNewline : Bool} {state final : State}
    (success : dataRow json oldLines newLines line noNewline state = .ok final) :
    ∃ part tag ranges rest next middle, state.part = some part ∧ line.head? = some (Compute.rowSign tag) ∧
      endsWith line '\n' = true ∧
      RowMatch oldLines newLines state tag (if noNewline then line.tail.dropLast else line.tail) ∧
      consumeHighlight (Compute.rowSign tag) state = .ok (ranges, rest) ∧
      fitPart json (encodedRow json line ranges noNewline) ((ranges.map List.length).getD 0) part
        { state with annotations := rest } = .ok (next, middle) ∧
      final = pushed middle (Compute.rowSign tag) (next.push (Compute.rowSign tag) line noNewline ranges
        (encodedRow json line ranges noNewline) ((ranges.map List.length).getD 0)) := by
  simp only [Paging.dataRow, bind_eq_ok] at success
  obtain ⟨part, opened, sign, head, _, shape, _, oldMatch, _, newMatch, ⟨ranges, rest⟩, consumed, ⟨next, middle⟩,
    fitted, _, -, _, -, success⟩ := success
  have shape := internal_eq_ok shape
  have oldMatch := internal_eq_ok oldMatch
  have newMatch := internal_eq_ok newMatch
  simp only [Bool.or_eq_false_iff, Bool.not_eq_false', Bool.or_eq_true, beq_iff_eq] at shape
  obtain ⟨tag, rfl⟩ : ∃ tag, Compute.rowSign tag = sign := by
    obtain ⟨(rfl | rfl) | rfl, -⟩ := shape
    · exact ⟨.equal, rfl⟩
    · exact ⟨.insert, rfl⟩
    · exact ⟨.delete, rfl⟩
  have matched : RowMatch oldLines newLines state tag (if noNewline then line.tail.dropLast else line.tail) := by
    constructor
    · intro kept
      cases tag <;> simp_all [Compute.rowSign]
    · intro kept
      cases tag <;> simp_all [Compute.rowSign]
  cases success
  exact ⟨part, tag, ranges, rest, next, middle, requireInternal_eq_ok opened, requireInternal_eq_ok head, shape.2, matched,
    consumed, fitted, rfl⟩

/-- A data row keeps the invariant: it continues the hunk under construction or the next part of it. -/
theorem Progress.dataRow {json : SerdeJson} {oldLines newLines : List Str} (oldShape : ∀ line ∈ oldLines, IsLine line)
    (newShape : ∀ line ∈ newLines, IsLine line) {line : Str} (isLine : IsLine line) {noNewline : Bool}
    {state final : State} {hunks : List (Hunk Str)} {current : Hunk Str}
    (progress : Progress oldLines newLines state hunks current)
    (success : dataRow json oldLines newLines line noNewline state = .ok final) :
    ∃ hunks' current', Progress oldLines newLines final hunks' current' := by
  obtain ⟨part, tag, ranges, rest, next, middle, opened, head, ends, matched, consumed, fitted, rfl⟩ := dataRow_ok success
  have written := rowLines_eq_line rfl head isLine ends noNewline
  generalize (if noNewline then line.tail.dropLast else line.tail) = text at matched written
  have textLine : IsLine text := by
    cases tag with
    | insert => exact newShape _ (List.mem_of_getElem? (matched.new (by simp)))
    | delete => exact oldShape _ (List.mem_of_getElem? (matched.old (by simp)))
    | equal => exact oldShape _ (List.mem_of_getElem? (matched.old (by simp)))
  obtain ⟨kept, ordered, fewer⟩ := consumeHighlight_ok progress.annotations matched consumed
  obtain ⟨hunks', current', progress, oldCursor, newCursor⟩ :=
    (progress.dropAnnotations fewer).fitPart opened fitted
  have matched : RowMatch oldLines newLines { middle with part := some next } tag text := by
    constructor
    · rw [oldCursor]; exact matched.old
    · rw [newCursor]; exact matched.new
  exact ⟨hunks', _, progress.push rfl matched ((progress.opened next rfl).1.push textLine written kept ordered)⟩

/-- The whole loop keeps the invariant. -/
theorem Progress.readLines {json : SerdeJson} {oldLines newLines : List Str}
    (oldShape : ∀ line ∈ oldLines, IsLine line) (newShape : ∀ line ∈ newLines, IsLine line) {lines : List Str}
    {state final : State} (shape : ∀ line ∈ lines, IsLine line) {hunks : List (Hunk Str)} {current : Hunk Str}
    (progress : Progress oldLines newLines state hunks current)
    (success : readLines json oldLines newLines lines state = .ok final) :
    ∃ hunks' current', Progress oldLines newLines final hunks' current' := by
  fun_induction Paging.readLines json oldLines newLines lines state generalizing hunks current with
  | case1 state =>
    cases success
    exact ⟨hunks, current, progress⟩
  | case2 state line rest header ih =>
    obtain ⟨next, ran, success⟩ := bind_eq_ok.mp success
    obtain ⟨hunks', current', progress⟩ := progress.openHunk ran
    exact ih next (fun other member => shape other (List.mem_cons_of_mem _ member)) progress success
  | case3 state line rest header last ih =>
    obtain ⟨next, ran, success⟩ := bind_eq_ok.mp success
    obtain ⟨hunks', current', progress⟩ := progress.dataRow oldShape newShape (shape line List.mem_cons_self) ran
    refine ih next (fun other member => shape other ?_) progress success
    exact List.mem_cons_of_mem _ (List.mem_of_mem_tail member)
  | case4 state line rest header last ih =>
    obtain ⟨next, ran, success⟩ := bind_eq_ok.mp success
    obtain ⟨hunks', current', progress⟩ := progress.dataRow oldShape newShape (shape line List.mem_cons_self) ran
    exact ih next (fun other member => shape other (List.mem_cons_of_mem _ member)) progress success

theorem validAnnotations_of_checkHighlight {oldLines newLines : List Str} {state final : Annotations × ℕ}
    {change : SourceLineHighlights} (valid : ValidAnnotations oldLines newLines state.1)
    (success : checkHighlight oldLines newLines state change = .ok final) :
    ValidAnnotations oldLines newLines final.1 := by
  rw [checkHighlight] at success
  dsimp only at success
  split_ifs at success
  simp only [bind_eq_ok] at success
  obtain ⟨line, found, _, ranges, _, -, success⟩ := success
  cases success
  intro entry member
  rcases List.mem_cons.mp member with rfl | member
  · have checked := internal_eq_ok ranges
    rw [Bool.not_eq_false'] at checked
    exact ⟨line, requireInternal_eq_ok found, (orderedRanges_of_checkRanges checked).1⟩
  · exact valid entry member

/-- The map that the annotation loop builds is valid. -/
theorem validAnnotations_of_checked {oldLines newLines : List Str} {highlights : List SourceLineHighlights}
    {final : Annotations × ℕ} (checked : highlights.foldlM (checkHighlight oldLines newLines) ([], 0) = .ok final) :
    ValidAnnotations oldLines newLines final.1 :=
  foldlM_invariant (fun state => ValidAnnotations oldLines newLines state.1) checked (fun _ member => by cases member)
    fun _ _ _ _ step valid => validAnnotations_of_checkHighlight valid step

theorem progress_start {oldLines newLines : List Str} {annotations : Annotations}
    (valid : ValidAnnotations oldLines newLines annotations) :
    Progress oldLines newLines { annotations } [] ⟨[], []⟩ where
  finished := trivial
  old := rfl
  oldCursor := rfl
  new := rfl
  newCursor := rfl
  unopened := fun _ => ⟨rfl, rfl⟩
  opened := by rintro _ ⟨⟩
  additions := rfl
  deletions := rfl
  annotations := valid

/-! ## Published fragments -/

/-- A fragment shows exactly the lines at its coordinates, and annotates its changed rows. -/
structure Shown (oldLines newLines : List Str) (fragment : DiffFragment) (rows : Script Str) : Prop where
  read : fragmentRows fragment = some rows
  beforeStart : fragment.beforeStart = beforeOffset fragment + if fragment.beforeCount = 0 then 0 else 1
  before : getRange oldLines (beforeOffset fragment) (beforeOffset fragment + fragment.beforeCount) =
    some (source rows)
  afterStart : fragment.afterStart = afterOffset fragment + if fragment.afterCount = 0 then 0 else 1
  after : getRange newLines (afterOffset fragment) (afterOffset fragment + fragment.afterCount) = some (target rows)
  annotated : Annotated fragment.inlineChanges rows

/-- Fragments are ordered and disjoint on both sides, and the lines outside them are equal: before the
first one, between two, and after the last. -/
def EqualGaps (oldLines newLines : List Str) : ℕ → ℕ → List DiffFragment → Prop
  | i, j, [] => oldLines.drop i = newLines.drop j
  | i, j, fragment :: fragments =>
    (∃ gap, getRange oldLines i (beforeOffset fragment) = some gap ∧
        getRange newLines j (afterOffset fragment) = some gap) ∧
      EqualGaps oldLines newLines (beforeOffset fragment + fragment.beforeCount)
        (afterOffset fragment + fragment.afterCount) fragments

/-- The old lines from line `i` on with every fragment replaced by its new side. -/
def splice (oldLines : List Str) : ℕ → List DiffFragment → Option (List Str)
  | i, [] => some (oldLines.drop i)
  | i, fragment :: fragments => do
    let gap ← getRange oldLines i (beforeOffset fragment)
    let rows ← fragmentRows fragment
    let rest ← splice oldLines (beforeOffset fragment + fragment.beforeCount) fragments
    pure (gap ++ target rows ++ rest)

/-- How many rows of the fragments carry a tag. -/
def rowCount (tag : ChangeTag) (fragments : List DiffFragment) : ℕ :=
  ((fragments.filterMap fragmentRows).flatten).countP (·.1 = tag)

/-- The published fragments and counts are an exact diff of both texts. -/
structure ExactDiff (oldLines newLines : List Str) (fragments : List DiffFragment) (additions deletions : ℕ) :
    Prop where
  shown : ∀ fragment ∈ fragments, ∃ rows, Shown oldLines newLines fragment rows
  ordered : fragments.Pairwise fun first second =>
    beforeOffset first + first.beforeCount ≤ beforeOffset second ∧
      afterOffset first + first.afterCount ≤ afterOffset second
  gaps : EqualGaps oldLines newLines 0 0 fragments
  splice : splice oldLines 0 fragments = some newLines
  additions : additions = rowCount .insert fragments
  deletions : deletions = rowCount .delete fragments

theorem getRange_of_lengths (front middle rear : List Str) {start count : ℕ} (begins : start = front.length)
    (counted : count = middle.length) : getRange (front ++ (middle ++ rear)) start (start + count) = some middle := by
  subst begins counted
  rw [← List.append_assoc]
  exact getRange_append front middle rear

theorem Describes.shown {oldFront newFront : List Str} {fragment : DiffFragment} {hunk : Hunk Str}
    (describes : Describes oldFront.length newFront.length fragment hunk) (oldRear newRear : List Str) :
    Shown (oldFront ++ (hunk.gap ++ (source hunk.rows ++ oldRear)))
      (newFront ++ (hunk.gap ++ (target hunk.rows ++ newRear))) fragment hunk.rows where
  read := describes.rows
  beforeStart := describes.beforeStart
  before := by
    have begins : Paging.beforeOffset fragment = (oldFront ++ hunk.gap).length := by
      rw [describes.beforeOffset, List.length_append]
    rw [← List.append_assoc]
    exact getRange_of_lengths _ _ _ begins describes.beforeCount
  afterStart := describes.afterStart
  after := by
    have begins : Paging.afterOffset fragment = (newFront ++ hunk.gap).length := by
      rw [describes.afterOffset, List.length_append]
    rw [← List.append_assoc]
    exact getRange_of_lengths _ _ _ begins describes.afterCount
  annotated := describes.annotated

/-- Both texts, cut at a hunk. -/
private theorem cut_hunk (front : List Str) (gap side rear : List Str) :
    front ++ (gap ++ (side ++ rear)) = (front ++ gap ++ side) ++ rear := by simp

theorem DescribesAll.shown {oldFront newFront : List Str} {fragments : List DiffFragment} {hunks : List (Hunk Str)}
    (all : DescribesAll oldFront.length newFront.length fragments hunks) (tail : List Str) :
    ∀ fragment ∈ fragments, ∃ rows,
      Shown (oldFront ++ Hunk.sourceOf hunks tail) (newFront ++ Hunk.targetOf hunks tail) fragment rows := by
  induction hunks generalizing oldFront newFront fragments with
  | nil =>
    cases fragments with
    | nil => simp
    | cons => exact all.elim
  | cons hunk hunks ih =>
    cases fragments with
    | nil => exact all.elim
    | cons fragment fragments =>
      simp only [Hunk.sourceOf_cons, Hunk.targetOf_cons, List.append_assoc]
      intro other member
      rcases List.mem_cons.mp member with rfl | member
      · exact ⟨hunk.rows, all.1.shown _ _⟩
      · rw [cut_hunk oldFront, cut_hunk newFront]
        exact ih (by simpa only [List.length_append] using all.2) other member

theorem DescribesAll.equalGaps {oldFront newFront : List Str} {fragments : List DiffFragment}
    {hunks : List (Hunk Str)} (all : DescribesAll oldFront.length newFront.length fragments hunks)
    (tail : List Str) :
    EqualGaps (oldFront ++ Hunk.sourceOf hunks tail) (newFront ++ Hunk.targetOf hunks tail) oldFront.length
      newFront.length fragments := by
  induction hunks generalizing oldFront newFront fragments with
  | nil =>
    cases fragments with
    | nil => simp [EqualGaps]
    | cons => exact all.elim
  | cons hunk hunks ih =>
    cases fragments with
    | nil => exact all.elim
    | cons fragment fragments =>
      simp only [Hunk.sourceOf_cons, Hunk.targetOf_cons, List.append_assoc]
      refine ⟨⟨hunk.gap, ?_, ?_⟩, ?_⟩
      · rw [all.1.beforeOffset]
        exact getRange_of_lengths _ _ _ rfl rfl
      · rw [all.1.afterOffset]
        exact getRange_of_lengths _ _ _ rfl rfl
      · rw [cut_hunk oldFront, cut_hunk newFront, all.1.beforeOffset, all.1.afterOffset, all.1.beforeCount,
          all.1.afterCount]
        have rest := all.2
        simp only [← List.length_append] at rest ⊢
        exact ih rest

theorem DescribesAll.splice {oldFront newFront : List Str} {fragments : List DiffFragment} {hunks : List (Hunk Str)}
    (all : DescribesAll oldFront.length newFront.length fragments hunks) (tail : List Str) :
    Paging.splice (oldFront ++ Hunk.sourceOf hunks tail) oldFront.length fragments =
      some (Hunk.targetOf hunks tail) := by
  induction hunks generalizing oldFront newFront fragments with
  | nil =>
    cases fragments with
    | nil => simp [Paging.splice]
    | cons => exact all.elim
  | cons hunk hunks ih =>
    cases fragments with
    | nil => exact all.elim
    | cons fragment fragments =>
      have rest := all.2
      simp only [← List.length_append] at rest
      have spliced := ih rest
      simp only [Hunk.sourceOf_cons, Hunk.targetOf_cons, List.append_assoc] at spliced ⊢
      have gap := getRange_of_lengths oldFront hunk.gap (source hunk.rows ++ Hunk.sourceOf hunks tail) rfl rfl
      simp only [Paging.splice, all.1.beforeOffset, all.1.beforeCount, all.1.rows, gap, Option.bind_eq_bind,
        Option.bind_some]
      simp only [← List.length_append, List.append_assoc, spliced]
      rfl

theorem DescribesAll.rowCount {i j : ℕ} {fragments : List DiffFragment} {hunks : List (Hunk Str)}
    (all : DescribesAll i j fragments hunks) (tag : ChangeTag) :
    Paging.rowCount tag fragments = tagCount tag hunks := by
  induction hunks generalizing i j fragments with
  | nil =>
    cases fragments with
    | nil => rfl
    | cons => exact all.elim
  | cons hunk hunks ih =>
    cases fragments with
    | nil => exact all.elim
    | cons fragment fragments =>
      have rest := ih all.2
      simp only [Paging.rowCount, tagCount] at rest
      simp [Paging.rowCount, tagCount, all.1.rows, ← rest]

/-- Fragments behind a position stay behind it. -/
theorem EqualGaps.behind {oldLines newLines : List Str} {i j : ℕ} {fragments : List DiffFragment}
    (gaps : EqualGaps oldLines newLines i j fragments) :
    ∀ fragment ∈ fragments, i ≤ beforeOffset fragment ∧ j ≤ afterOffset fragment := by
  induction fragments generalizing i j with
  | nil => simp
  | cons first fragments ih =>
    obtain ⟨⟨gap, oldGap, newGap⟩, rest⟩ := gaps
    have oldForward := (getRange_eq_some oldGap).1
    have newForward := (getRange_eq_some newGap).1
    intro fragment member
    rcases List.mem_cons.mp member with rfl | member
    · exact ⟨oldForward, newForward⟩
    · have := ih rest fragment member
      omega

theorem EqualGaps.ordered {oldLines newLines : List Str} {i j : ℕ} {fragments : List DiffFragment}
    (gaps : EqualGaps oldLines newLines i j fragments) :
    fragments.Pairwise fun first second =>
      beforeOffset first + first.beforeCount ≤ beforeOffset second ∧
        afterOffset first + first.afterCount ≤ afterOffset second := by
  induction fragments generalizing i j with
  | nil => exact .nil
  | cons first fragments ih =>
    refine List.pairwise_cons.mpr ⟨?_, ih gaps.2⟩
    exact EqualGaps.behind gaps.2

/-- Accepted worker output is an exact diff of the two texts. -/
theorem changes_sound (json : SerdeJson) (computed : ComputedDiff) (oldText newText : Str)
    (pages : List (List DiffFragment)) (additions deletions : ℕ) (different : oldText ≠ newText)
    (success : changes json computed oldText newText = .ok (pages, additions, deletions)) :
    ExactDiff (linesOf oldText) (linesOf newText) pages.flatten additions deletions := by
  have oldShape := isLine_of_mem (@splitInclusive_isLines '\n' oldText)
  have newShape := isLine_of_mem (@splitInclusive_isLines '\n' newText)
  have patchShape := isLine_of_mem (@splitInclusive_isLines '\n' computed.patch)
  rw [changes, if_neg different] at success
  dsimp only at success
  split_ifs at success
  simp only [bind_eq_ok] at success
  obtain ⟨⟨annotations, _⟩, checked, _, -, state, ran, oldTail, oldFound, newTail, newFound, _, accepted, final,
    closed, success⟩ := success
  have valid := validAnnotations_of_checked checked
  obtain ⟨hunks, current, progress⟩ := (progress_start valid).readLines oldShape newShape
    (fun line member => patchShape line (List.mem_of_mem_drop member)) ran
  obtain ⟨hunks', finished, fields, counts, sides⟩ := progress.finishPending closed
  -- the rest of both texts is the last gap
  have sameTail : oldTail = newTail := by
    have accepted := internal_eq_ok accepted
    simp only [Bool.or_eq_false_iff, decide_eq_false_iff_not, not_not] at accepted
    exact accepted.2
  obtain ⟨-, -, rfl⟩ := getRange_eq_some (requireInternal_eq_ok oldFound)
  obtain ⟨-, -, rfl⟩ := getRange_eq_some (requireInternal_eq_ok newFound)
  simp only [List.take_length] at sameTail
  have oldSide : linesOf oldText = Hunk.sourceOf hunks' ((linesOf oldText).drop state.oldCursor) := by
    rw [Hunk.sourceOf_eq_append, sides.1]
    exact progress.old
  have newSide : linesOf newText = Hunk.targetOf hunks' ((linesOf oldText).drop state.oldCursor) := by
    rw [Hunk.targetOf_eq_append, sides.2, sameTail]
    exact progress.new
  have flat : pages.flatten = final.pages.flatten ++ final.page ∧ additions = final.additions ∧
      deletions = final.deletions := by
    cases success
    refine ⟨?_, rfl, rfl⟩
    split_ifs with empty
    · simp [List.isEmpty_iff.mp empty]
    · simp
  generalize (linesOf oldText).drop state.oldCursor = rear at oldSide newSide
  rw [flat.1, flat.2.1, flat.2.2, oldSide, newSide]
  have finished : DescribesAll ([] : List Str).length ([] : List Str).length _ hunks' := finished
  have gaps := finished.equalGaps rear
  exact {
    shown := finished.shown rear
    ordered := gaps.ordered
    gaps
    splice := finished.splice rear
    additions := by rw [finished.rowCount, counts.1, fields.2.2.2.1, progress.additions]
    deletions := by rw [finished.rowCount, counts.2, fields.2.2.2.2, progress.deletions] }

/-- A replaced line between two equal ones. -/
theorem changes_sound_replacement :
    ExactDiff (linesOf "x\na\ny".toList) (linesOf "x\nb\ny".toList)
      [{ patch := "--- before\n+++ after\n@@ -2,1 +2,1 @@\n-a\n+b\n".toList
         beforeStart := 2, beforeCount := 1, afterStart := 2, afterCount := 1
         inlineChanges := [⟨0, [(0, 1)]⟩, ⟨1, [(0, 1)]⟩] }] 1 1 :=
  changes_sound .compact
    { patch := "--- before\n+++ after\n@@ -2 +2 @@\n-a\n+b\n".toList
      inlineChanges := [⟨.before, 1, [(0, 1)]⟩, ⟨.after, 1, [(0, 1)]⟩] }
    "x\na\ny".toList "x\nb\ny".toList
    [[{ patch := "--- before\n+++ after\n@@ -2,1 +2,1 @@\n-a\n+b\n".toList
        beforeStart := 2, beforeCount := 1, afterStart := 2, afterCount := 1
        inlineChanges := [⟨0, [(0, 1)]⟩, ⟨1, [(0, 1)]⟩] }]] 1 1 (by decide) (by decide +kernel)

/-! ## Accepted patches have no NUL -/

/-- A coordinate token is made of its sign, digits, plus signs and a comma. -/
private theorem range_noNul {token : Option Str} {sign : Char} {result : ℕ × ℕ} (visible : sign ≠ '\x00')
    (success : range token sign = .ok result) : ∃ text, token = some text ∧ '\x00' ∉ text := by
  simp only [range, bind_eq_ok] at success
  obtain ⟨rest, stripped, start, startRan, count, countRan, _⟩ := success
  obtain ⟨text, present, stripped⟩ := Option.bind_eq_some_iff.mp (requireInternal_eq_ok stripped)
  have shape := stripPrefix_eq_some stripped
  have number {s : Str} {n : ℕ} (parsed : parseUsize s = some n) : '\x00' ∉ s := by
    intro member
    rcases mem_of_parseUsize parsed member with impossible | impossible
    · exact absurd impossible (by decide)
    · exact absurd impossible (by decide)
  have first := number (requireInternal_eq_ok startRan)
  have second := number (requireInternal_eq_ok countRan)
  have clean : '\x00' ∉ rest := by
    cases cut : splitOnce [','] rest with
    | none =>
      rw [cut] at first
      exact first
    | some parts =>
      rw [cut] at first second
      rw [splitOnce_eq_some cut]
      simp only [Option.getD_some] at first second
      simp [first, second]
  refine ⟨text, present, ?_⟩
  rw [shape]
  simp [clean, visible.symm]

private theorem headerRanges_noNul {line : Str} {result : (ℕ × ℕ) × (ℕ × ℕ)}
    (success : headerRanges line = .ok result) : '\x00' ∉ line := by
  simp only [headerRanges, bind_eq_ok] at success
  obtain ⟨_, first, old, oldRan, new, newRan, _, last, -⟩ := success
  have first := internal_eq_ok first
  have last := internal_eq_ok last
  obtain ⟨oldText, oldToken, oldClean⟩ := range_noNul (by decide) oldRan
  obtain ⟨newText, newToken, newClean⟩ := range_noNul (by decide) newRan
  simp only [ne_eq, decide_eq_false_iff_not, not_not, Bool.or_eq_false_iff, Option.isSome_eq_false_iff,
    Option.isNone_iff_eq_none] at first last
  intro member
  obtain ⟨token, found, inside⟩ := mem_splitAsciiWhitespace member (by decide)
  obtain ⟨index, bound, here⟩ := List.getElem_of_mem found
  have few : (splitAsciiWhitespace line).length ≤ 4 := List.getElem?_eq_none_iff.mp last.2
  have at' : (splitAsciiWhitespace line)[index]? = some token := by rw [List.getElem?_eq_getElem bound, here]
  obtain rfl | rfl | rfl | rfl : index = 0 ∨ index = 1 ∨ index = 2 ∨ index = 3 := by omega
  · rw [first] at at'; cases at'; revert inside; decide
  · rw [oldToken] at at'; cases at'; exact oldClean inside
  · rw [newToken] at at'; cases at'; exact newClean inside
  · rw [last.1] at at'; cases at'; revert inside; decide

/-- A row shows a line of one of the texts behind its sign. -/
private theorem dataRow_noNul {json : SerdeJson} {oldLines newLines : List Str} {line : Str} {noNewline : Bool}
    {state final : State} (oldClean : ∀ line ∈ oldLines, '\x00' ∉ line) (newClean : ∀ line ∈ newLines, '\x00' ∉ line)
    (isLine : IsLine line) (success : dataRow json oldLines newLines line noNewline state = .ok final) :
    '\x00' ∉ line := by
  obtain ⟨part, tag, ranges, rest, next, middle, -, head, ends, matched, -⟩ := dataRow_ok success
  have written := rowLines_eq_line rfl head isLine ends noNewline
  generalize (if noNewline then line.tail.dropLast else line.tail) = text at matched written
  have clean : '\x00' ∉ text := by
    cases tag with
    | insert => exact newClean text (List.mem_of_getElem? (matched.new (by simp)))
    | delete => exact oldClean text (List.mem_of_getElem? (matched.old (by simp)))
    | equal => exact oldClean text (List.mem_of_getElem? (matched.old (by simp)))
  have rowClean : '\x00' ∉ (rowLines (tag, text)).flatten := by
    have sign : '\x00' ≠ Compute.rowSign tag := by cases tag <;> decide
    have marker : '\x00' ∉ Patch.marker := by decide
    rw [rowLines]
    split_ifs
    · simp [clean, sign]
    · simp [clean, sign, marker]
  rw [written] at rowClean
  exact fun member => rowClean (List.mem_append_left _ member)

private theorem readLines_noNul {json : SerdeJson} {oldLines newLines : List Str}
    (oldClean : ∀ line ∈ oldLines, '\x00' ∉ line) (newClean : ∀ line ∈ newLines, '\x00' ∉ line) {lines : List Str}
    {state final : State} (shape : ∀ line ∈ lines, IsLine line)
    (success : readLines json oldLines newLines lines state = .ok final) : ∀ line ∈ lines, '\x00' ∉ line := by
  fun_induction Paging.readLines json oldLines newLines lines state with
  | case1 state => simp
  | case2 state line rest header ih =>
    obtain ⟨next, ran, success⟩ := bind_eq_ok.mp success
    simp only [openHunk, bind_eq_ok] at ran
    obtain ⟨_, -, _, -, _, ranges, -⟩ := ran
    have tail := ih next (fun other member => shape other (List.mem_cons_of_mem _ member)) success
    exact List.forall_mem_cons.mpr ⟨headerRanges_noNul ranges, tail⟩
  | case3 state line rest header last ih =>
    obtain ⟨next, ran, success⟩ := bind_eq_ok.mp success
    have tail := ih next (fun other member => shape other (List.mem_cons_of_mem _ (List.mem_of_mem_tail member))) success
    obtain ⟨more, rfl⟩ : ∃ more, rest = marker :: more := List.head?_eq_some_iff.mp last
    have row := dataRow_noNul oldClean newClean (shape line List.mem_cons_self) ran
    exact List.forall_mem_cons.mpr ⟨row, List.forall_mem_cons.mpr ⟨by decide, tail⟩⟩
  | case4 state line rest header last ih =>
    obtain ⟨next, ran, success⟩ := bind_eq_ok.mp success
    have tail := ih next (fun other member => shape other (List.mem_cons_of_mem _ member)) success
    exact List.forall_mem_cons.mpr ⟨dataRow_noNul oldClean newClean (shape line List.mem_cons_self) ran, tail⟩

private theorem linesOf_noNul {text : Str} (clean : '\x00' ∉ text) : ∀ line ∈ linesOf text, '\x00' ∉ line :=
  fun line member nul => clean (splitInclusive_flatten '\n' text ▸ List.mem_flatten.mpr ⟨line, member, nul⟩)

/-- An accepted patch has no NUL, so it can be exported as a patch attachment. -/
theorem changes_noNul {json : SerdeJson} {computed : ComputedDiff} {oldText newText : Str}
    {result : List (List DiffFragment) × ℕ × ℕ} (oldClean : '\x00' ∉ oldText) (newClean : '\x00' ∉ newText)
    (success : changes json computed oldText newText = .ok result) : '\x00' ∉ computed.patch := by
  rw [changes] at success
  split_ifs at success with same empty
  · rw [Bool.and_eq_true, List.isEmpty_iff] at empty
    rw [empty.1]
    exact List.not_mem_nil
  · simp only [bind_eq_ok] at success
    obtain ⟨_, -, _, headers, state, ran, -⟩ := success
    have headers := internal_eq_ok headers
    simp only [ne_eq, decide_eq_false_iff_not, not_not, Bool.or_eq_false_iff] at headers
    have shape := isLine_of_mem (@splitInclusive_isLines '\n' computed.patch)
    have rows := readLines_noNul (linesOf_noNul oldClean) (linesOf_noNul newClean)
      (fun line member => shape line (List.mem_of_mem_drop member)) ran
    intro nul
    rw [← splitInclusive_flatten '\n' computed.patch] at nul
    obtain ⟨line, member, inside⟩ := List.mem_flatten.mp nul
    obtain ⟨first, second, rest, lines⟩ : ∃ first second rest, linesOf computed.patch = first :: second :: rest := by
      cases found : linesOf computed.patch with
      | nil => simp [found] at headers
      | cons first others =>
        cases others with
        | nil => simp [found] at headers
        | cons second rest => exact ⟨first, second, rest, rfl⟩
    rw [lines] at headers
    rw [show splitInclusive '\n' computed.patch = _ from lines] at member rows
    obtain ⟨first', second'⟩ := headers
    cases first'
    cases second'
    rcases List.mem_cons.mp member with rfl | member
    · revert inside; decide
    · rcases List.mem_cons.mp member with rfl | member
      · revert inside; decide
      · exact rows line member inside

end OpenLegal.TextDiff.Paging
