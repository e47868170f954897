import Mathlib.Data.List.Perm.Basic
import Mathlib.Data.List.TakeWhile
import OpenLegal.TextDiff.PagingSound

/-! # The highlights of a produced diff

A character diff of each replacement block becomes scalar ranges of the lines of the block. The
producer annotates every deleted and every inserted line once, and the ranges of a line are nonempty,
in order and inside the line, whatever the character diff reports as long as it tiles both blocks.
-/

namespace OpenLegal.TextDiff

open Rust Rust.Str Theory Theory.Script

/-- What the producer relies on when it turns a character diff into ranges. -/
structure Similar.LawfulChars (similar : Similar) : Prop where
  tiles : ∀ old new, Tiles 0 0 (similar.diffChars old new) old.length new.length

theorem tiles_append {i j n m : ℕ} {front rear : List DiffOp} :
    Tiles i j (front ++ rear) n m ↔ ∃ a b, Tiles i j front a b ∧ Tiles a b rear n m := by
  induction front generalizing i j with
  | nil => simp [Tiles]
  | cons op front ih =>
    simp only [List.cons_append, Tiles, ih]
    constructor
    · rintro ⟨old, new, a, b, walk, rest⟩
      exact ⟨a, b, ⟨old, new, walk⟩, rest⟩
    · rintro ⟨a, b, ⟨old, new, walk⟩, rest⟩
      exact ⟨old, new, a, b, walk, rest⟩

theorem Tiles.last {i j n m : ℕ} {ops : List DiffOp} (tiles : Tiles i j ops n m) {op : DiffOp}
    (last : ops.getLast? = some op) : op.oldRange.2 = n ∧ op.newRange.2 = m := by
  obtain ⟨init, rfl⟩ := List.getLast?_eq_some_iff.mp last
  obtain ⟨_, _, -, -, -, old, new⟩ := (tiles_append).mp tiles
  exact ⟨old, new⟩

/-- Ranges none of which starts before the one in front of it ends. -/
def Forward (ranges : List (ℕ × ℕ)) : Prop := ranges.Pairwise fun first second => first.2 ≤ second.1

theorem Tiles.forward {i j n m : ℕ} {ops : List DiffOp} (tiles : Tiles i j ops n m) :
    (Forward (ops.map DiffOp.oldRange) ∧ ∀ op ∈ ops, i ≤ op.oldRange.1) ∧
      (Forward (ops.map DiffOp.newRange) ∧ ∀ op ∈ ops, j ≤ op.newRange.1) := by
  induction ops generalizing i j with
  | nil => simp [Forward]
  | cons op ops ih =>
    obtain ⟨rfl, rfl, rest⟩ := tiles
    obtain ⟨⟨oldForward, oldBehind⟩, newForward, newBehind⟩ := ih rest
    have step := op.edits_walk.le
    refine ⟨⟨List.pairwise_cons.mpr ⟨?_, oldForward⟩, ?_⟩, List.pairwise_cons.mpr ⟨?_, newForward⟩, ?_⟩
    · simpa using oldBehind
    · rw [List.forall_mem_cons]
      exact ⟨le_rfl, fun other member => step.1.trans (oldBehind other member)⟩
    · simpa using newBehind
    · rw [List.forall_mem_cons]
      exact ⟨le_rfl, fun other member => step.2.trans (newBehind other member)⟩

theorem forward_changedRanges {range : DiffOp → ℕ × ℕ} {ops : List DiffOp} (forward : Forward (ops.map range)) :
    Forward (Compute.changedRanges range ops) :=
  forward.sublist (List.filter_sublist.map range)

/-! ## The lines that changes annotate -/

/-- The line that an edit annotates. -/
def Edit.key (edit : Edit) : Option (DiffSide × ℕ) :=
  match edit.tag with
  | .equal => none
  | .delete => some (.before, edit.old)
  | .insert => some (.after, edit.new)

def SourceLineHighlights.key (highlights : SourceLineHighlights) : DiffSide × ℕ := (highlights.side, highlights.lineIndex)

/-- The lines of one side. -/
def sideLines (oldLines newLines : List Str) : DiffSide → List Str
  | .before => oldLines
  | .after => newLines

def changeKeys (edits : List Edit) : List (DiffSide × ℕ) := edits.filterMap Edit.key

@[simp] theorem changeKeys_append (front rear : List Edit) :
    changeKeys (front ++ rear) = changeKeys front ++ changeKeys rear := List.filterMap_append

theorem changeKeys_of_equal {edits : List Edit} (unchanged : ∀ edit ∈ edits, edit.tag = .equal) :
    changeKeys edits = [] := by
  apply List.filterMap_eq_nil_iff.mpr
  intro edit member
  rw [Edit.key, unchanged edit member]

theorem DiffOp.equal_of_mem_edits (op : DiffOp) (kept : op.tag = .equal) : ∀ edit ∈ op.edits, edit.tag = .equal := by
  cases op with
  | equal i j len => simp [DiffOp.edits]
  | _ => cases kept

theorem DiffOp.tag_of_mem_edits (op : DiffOp) (change : op.tag ≠ .equal) : ∀ edit ∈ op.edits, edit.tag ≠ .equal := by
  intro edit member
  cases op with
  | equal i j len => exact absurd rfl change
  | delete i len j =>
    obtain ⟨k, -, rfl⟩ := List.mem_map.mp member
    simp
  | insert i j len =>
    obtain ⟨k, -, rfl⟩ := List.mem_map.mp member
    simp
  | replace i oldLen j newLen =>
    rcases List.mem_append.mp member with member | member
    all_goals
      obtain ⟨k, -, rfl⟩ := List.mem_map.mp member
      simp

/-- The lines of one side from a position on. -/
def sideKeys (side : DiffSide) (start count : ℕ) : List (DiffSide × ℕ) :=
  (List.range' start count).map fun k => (side, k)

/-- Edits none of which keeps its element annotate all lines that they pass. -/
theorem EditWalk.changeKeys_perm {i j n m : ℕ} {edits : List Edit} (walk : EditWalk i j edits n m)
    (changed : ∀ edit ∈ edits, edit.tag ≠ .equal) :
    (changeKeys edits).Perm (sideKeys .before i (n - i) ++ sideKeys .after j (m - j)) := by
  induction edits generalizing i j with
  | nil =>
    obtain ⟨rfl, rfl⟩ := walk
    simp [changeKeys, sideKeys]
  | cons edit edits ih =>
    rcases edit with ⟨tag, old, new⟩
    obtain ⟨change, others⟩ := List.forall_mem_cons.mp changed
    obtain ⟨rfl, rfl, walk⟩ := walk
    cases tag with
    | equal => exact absurd rfl change
    | delete =>
      have rest := ih walk others
      have count : n - old = n - (old + 1) + 1 := by have := walk.le; omega
      have front : sideKeys .before old (n - old) = (.before, old) :: sideKeys .before (old + 1) (n - (old + 1)) := by
        rw [count, sideKeys, List.range'_succ]
        rfl
      rw [front]
      exact rest.cons (DiffSide.before, old)
    | insert =>
      have rest := ih walk others
      have count : m - new = m - (new + 1) + 1 := by have := walk.le; omega
      have front : sideKeys .after new (m - new) = (.after, new) :: sideKeys .after (new + 1) (m - (new + 1)) := by
        rw [count, sideKeys, List.range'_succ]
        rfl
      rw [front]
      exact (rest.cons (DiffSide.after, new)).trans List.perm_middle.symm

/-- No line is annotated twice, and every annotated line is one that the walk passes. -/
theorem EditWalk.changeKeys_nodup {i j n m : ℕ} {edits : List Edit} (walk : EditWalk i j edits n m) :
    (changeKeys edits).Nodup ∧ (∀ k, (.before, k) ∈ changeKeys edits → i ≤ k ∧ k < n) ∧
      ∀ k, (.after, k) ∈ changeKeys edits → j ≤ k ∧ k < m := by
  induction edits generalizing i j with
  | nil => simp [changeKeys]
  | cons edit edits ih =>
    rcases edit with ⟨tag, old, new⟩
    obtain ⟨rfl, rfl, walk⟩ := walk
    cases tag with
    | equal =>
      obtain ⟨distinct, before, after⟩ := ih walk
      have same : changeKeys (⟨.equal, old, new⟩ :: edits) = changeKeys edits := rfl
      rw [same]
      exact ⟨distinct, fun k member => by have := before k member; omega, fun k member => by have := after k member; omega⟩
    | delete =>
      obtain ⟨distinct, before, after⟩ := ih walk
      have forward := EditWalk.le walk
      have same : changeKeys (⟨.delete, old, new⟩ :: edits) = (.before, old) :: changeKeys edits := rfl
      rw [same]
      refine ⟨List.nodup_cons.mpr ⟨fun again => ?_, distinct⟩, fun k member => ?_, fun k member => ?_⟩
      · have := before old again
        omega
      · rcases List.mem_cons.mp member with here | member
        · cases here
          omega
        · have := before k member
          omega
      · rcases List.mem_cons.mp member with here | member
        · cases here
        · exact after k member
    | insert =>
      obtain ⟨distinct, before, after⟩ := ih walk
      have forward := EditWalk.le walk
      have same : changeKeys (⟨.insert, old, new⟩ :: edits) = (.after, new) :: changeKeys edits := rfl
      rw [same]
      refine ⟨List.nodup_cons.mpr ⟨fun again => ?_, distinct⟩, fun k member => ?_, fun k member => ?_⟩
      · have := after new again
        omega
      · rcases List.mem_cons.mp member with here | member
        · cases here
        · exact before k member
      · rcases List.mem_cons.mp member with here | member
        · cases here
          omega
        · have := after k member
          omega

theorem EditWalk.changeKeys_length {i j n m : ℕ} {edits : List Edit} (walk : EditWalk i j edits n m) :
    (changeKeys edits).length + i + j ≤ n + m := by
  induction edits generalizing i j with
  | nil =>
    obtain ⟨rfl, rfl⟩ := walk
    simp [changeKeys]
  | cons edit edits ih =>
    rcases edit with ⟨tag, old, new⟩
    obtain ⟨rfl, rfl, walk⟩ := walk
    cases tag with
    | equal =>
      have same : changeKeys (⟨.equal, old, new⟩ :: edits) = changeKeys edits := rfl
      have := ih walk
      rw [same]
      omega
    | delete =>
      have same : changeKeys (⟨.delete, old, new⟩ :: edits) = (.before, old) :: changeKeys edits := rfl
      have := ih walk
      rw [same, List.length_cons]
      omega
    | insert =>
      have same : changeKeys (⟨.insert, old, new⟩ :: edits) = (.after, new) :: changeKeys edits := rfl
      have := ih walk
      rw [same, List.length_cons]
      omega

/-- The lines that the changed rows of a script annotate when it starts after `i` old and `j` new lines. -/
def scriptKeys : ℕ → ℕ → Script Str → List (DiffSide × ℕ)
  | _, _, [] => []
  | i, j, (.equal, _) :: rows => scriptKeys (i + 1) (j + 1) rows
  | i, j, (.delete, _) :: rows => (.before, i) :: scriptKeys (i + 1) j rows
  | i, j, (.insert, _) :: rows => (.after, j) :: scriptKeys i (j + 1) rows

/-- The lines that hunks annotate. -/
def hunksKeys : ℕ → ℕ → List (Hunk Str) → List (DiffSide × ℕ)
  | _, _, [] => []
  | i, j, hunk :: hunks =>
    scriptKeys (i + hunk.gap.length) (j + hunk.gap.length) hunk.rows ++
      hunksKeys (i + hunk.gap.length + (source hunk.rows).length) (j + hunk.gap.length + (target hunk.rows).length) hunks

theorem EditWalk.changeKeys_eq {old new : List Str} {i j n m : ℕ} {edits : List Edit} (walk : EditWalk i j edits n m)
    (oldBound : n ≤ old.length) (newBound : m ≤ new.length) :
    changeKeys edits = scriptKeys i j (rowsOf old new edits) := by
  induction edits generalizing i j with
  | nil => rfl
  | cons edit edits ih =>
    rcases edit with ⟨tag, a, b⟩
    obtain ⟨rfl, rfl, walk⟩ := walk
    cases tag with
    | equal =>
      have inside : a < old.length := by have := EditWalk.le walk; omega
      have shown : rowsOf old new (⟨.equal, a, b⟩ :: edits) = (.equal, old[a]) :: rowsOf old new edits := by
        simp [rowsOf, Edit.value, inside]
      rw [shown, scriptKeys, ← ih walk]
      rfl
    | delete =>
      have inside : a < old.length := by have := EditWalk.le walk; omega
      have shown : rowsOf old new (⟨.delete, a, b⟩ :: edits) = (.delete, old[a]) :: rowsOf old new edits := by
        simp [rowsOf, Edit.value, inside]
      rw [shown, scriptKeys, ← ih walk]
      rfl
    | insert =>
      have inside : b < new.length := by have := EditWalk.le walk; omega
      have shown : rowsOf old new (⟨.insert, a, b⟩ :: edits) = (.insert, new[b]) :: rowsOf old new edits := by
        simp [rowsOf, Edit.value, inside]
      rw [shown, scriptKeys, ← ih walk]
      rfl

/-- The changes that a grouping shows are all changes. -/
theorem Isolated.changeKeys_eq {old new : List Str} {lead : ℕ} {edits : List Edit} {groups : List (List DiffOp)}
    (isolated : Isolated lead edits groups) {i j : ℕ} (walk : EditWalk i j edits old.length new.length)
    {hunks : List (Hunk Str)} (shows : ShowsAll (fun op => rowsOf old new op.edits) i j groups hunks) :
    changeKeys edits = hunksKeys i j hunks := by
  induction isolated generalizing i j hunks with
  | done unchanged =>
    cases hunks with
    | nil => exact changeKeys_of_equal unchanged
    | cons => exact shows.elim
  | @group lead gap rest group groups unchanged separated inhabited changed _ ih =>
    cases hunks with
    | nil => exact shows.elim
    | cons hunk hunks =>
      obtain ⟨n, m, walk, restWalk⟩ := editWalk_append.mp walk
      obtain ⟨a, b, gapWalk, groupWalk⟩ := editWalk_append.mp walk
      have behind := restWalk.le
      obtain ⟨first, head, firstOld, firstNew⟩ := shows.1.first
      obtain ⟨last, final, lastOld, lastNew⟩ := shows.1.last
      have starts := first_start head (inhabited first (List.mem_of_head? head)) groupWalk
      have ends := last_end final (inhabited last (List.mem_of_getLast? final)) groupWalk
      have shown : changeKeys (group.flatMap DiffOp.edits) =
          scriptKeys (i + hunk.gap.length) (j + hunk.gap.length) hunk.rows := by
        rw [groupWalk.changeKeys_eq behind.1 behind.2, ← flatMap_rowsOf, shows.1.rows, ← starts.1, ← starts.2,
          firstOld, firstNew]
      rw [← ends.1, ← ends.2, lastOld, lastNew] at restWalk
      rw [changeKeys_append, changeKeys_append, changeKeys_of_equal unchanged, List.nil_append, shown,
        ih restWalk shows.2, hunksKeys]

/-! ## The ranges of a line -/

namespace Compute

open Paging

theorem orderedRanges_concat {count : ℕ} {ranges : List ScalarRange} {range : ScalarRange} :
    OrderedRanges count (ranges ++ [range]) ↔
      OrderedRanges count ranges ∧ (∀ earlier ∈ ranges, earlier.2 ≤ range.1) ∧ range.1 < range.2 ∧ range.2 ≤ count := by
  simp only [OrderedRanges, List.pairwise_append, List.pairwise_singleton, List.mem_singleton, forall_eq, true_and,
    List.forall_mem_append]
  tauto

/-- The ranges written so far stay ordered, every new one is counted, and the count stays in its limit. -/
theorem lineRanges_ok {offset stop count total : ℕ} {changes : List (ℕ × ℕ)} (ranges : List ScalarRange)
    {result : List ScalarRange} (forward : Forward changes) (ordered : OrderedRanges (stop - offset) ranges)
    (behind : ∀ range ∈ ranges, ∀ change ∈ changes, range.2 ≤ change.1 - offset)
    (success : lineRanges offset stop changes count ranges = .ok (result, total)) :
    OrderedRanges (stop - offset) result ∧ total + ranges.length = count + result.length ∧
      (count ≤ maxInlineRanges → total ≤ maxInlineRanges) := by
  induction changes generalizing count ranges with
  | nil =>
    rw [lineRanges] at success
    cases success
    exact ⟨ordered, rfl, id⟩
  | cons change changes ih =>
    rcases change with ⟨changeStart, changeEnd⟩
    obtain ⟨ahead, forward⟩ := List.pairwise_cons.mp forward
    have others : ∀ range ∈ ranges, ∀ change ∈ changes, range.2 ≤ change.1 - offset :=
      fun range member change later => behind range member change (List.mem_cons_of_mem _ later)
    have first : ∀ range ∈ ranges, range.2 ≤ changeStart - offset :=
      fun range member => behind range member (changeStart, changeEnd) List.mem_cons_self
    have last : ∀ change ∈ changes, min changeEnd stop - offset ≤ change.1 - offset := by
      intro change later
      have := ahead change later
      dsimp only at this
      omega
    simp only [lineRanges] at success
    by_cases beyond : changeStart ≥ stop
    · rw [if_pos beyond] at success
      cases success
      exact ⟨ordered, rfl, id⟩
    rw [if_neg beyond] at success
    by_cases shown : max changeStart offset - offset < min changeEnd stop - offset
    · rw [if_pos shown] at success
      split at success
      · next previous touching =>
        -- the change continues the range in front of it
        obtain ⟨found, touches⟩ := Option.filter_eq_some_iff.mp touching
        obtain ⟨init, rfl⟩ := List.getLast?_eq_some_iff.mp found
        rw [beq_iff_eq] at touches
        rw [List.dropLast_concat] at success
        obtain ⟨initOrdered, initBehind, nonempty, -⟩ := (orderedRanges_concat).mp ordered
        have merged : OrderedRanges (stop - offset) (init ++ [(previous.1, min changeEnd stop - offset)]) := by
          apply (orderedRanges_concat).mpr
          exact ⟨initOrdered, initBehind, by dsimp only; omega, by dsimp only; omega⟩
        obtain ⟨result, counted, limit⟩ := ih _ forward merged (by
          intro range member change later
          rcases List.mem_append.mp member with member | member
          · exact others range (List.mem_append_left _ member) change later
          · obtain rfl := List.mem_singleton.mp member
            exact last change later) success
        refine ⟨result, ?_, limit⟩
        simpa using counted
      · split_ifs at success with many
        have added : OrderedRanges (stop - offset)
            (ranges ++ [(max changeStart offset - offset, min changeEnd stop - offset)]) := by
          apply (orderedRanges_concat).mpr
          refine ⟨ordered, fun earlier member => ?_, shown, by dsimp only; omega⟩
          have := first earlier member
          dsimp only
          omega
        obtain ⟨result, counted, limit⟩ := ih _ forward added (by
          intro range member change later
          rcases List.mem_append.mp member with member | member
          · exact others range member change later
          · obtain rfl := List.mem_singleton.mp member
            exact last change later) success
        refine ⟨result, ?_, fun _ => limit (by omega)⟩
        simp only [List.length_append, List.length_singleton] at counted
        omega
    · rw [if_neg shown] at success
      exact ih _ forward ordered others success

/-! ## The annotations of a diff -/

/-- How many ranges a list of annotations carries. -/
def rangeTotal (output : List SourceLineHighlights) : ℕ := (output.map fun highlights => highlights.ranges.length).sum

/-- Annotations stand for exactly the lines of `keys`, with ordered ranges inside these lines. -/
structure Highlights (oldLines newLines : List Str) (keys : List (DiffSide × ℕ)) (output : List SourceLineHighlights) :
    Prop where
  keys : (output.map SourceLineHighlights.key).Perm keys
  ordered : ∀ highlights ∈ output, ∃ line,
    (sideLines oldLines newLines highlights.side)[highlights.lineIndex]? = some line ∧
      OrderedRanges line.length highlights.ranges

theorem Highlights.append {oldLines newLines : List Str} {keys others : List (DiffSide × ℕ)}
    {output added : List SourceLineHighlights} (front : Highlights oldLines newLines keys output)
    (rear : Highlights oldLines newLines others added) :
    Highlights oldLines newLines (keys ++ others) (output ++ added) where
  keys := by
    rw [List.map_append]
    exact front.keys.append rear.keys
  ordered := by
    rw [List.forall_mem_append]
    exact ⟨front.ordered, rear.ordered⟩

theorem Highlights.perm {oldLines newLines : List Str} {keys others : List (DiffSide × ℕ)}
    {output : List SourceLineHighlights} (highlights : Highlights oldLines newLines keys output)
    (same : keys.Perm others) : Highlights oldLines newLines others output :=
  { highlights with keys := highlights.keys.trans same }

/-- A step of the producer appends the annotations of some lines and counts their ranges. -/
structure Annotates (oldLines newLines : List Str) (keys : List (DiffSide × ℕ)) (output result : List SourceLineHighlights)
    (count total : ℕ) : Prop where
  added : ∃ added, result = output ++ added ∧ Highlights oldLines newLines keys added ∧ total = count + rangeTotal added
  limit : count ≤ maxInlineRanges → total ≤ maxInlineRanges

theorem annotates_nil (oldLines newLines : List Str) (output : List SourceLineHighlights) (count : ℕ) :
    Annotates oldLines newLines [] output output count count :=
  ⟨⟨[], by simp, ⟨.nil, by simp⟩, rfl⟩, id⟩

theorem Annotates.trans {oldLines newLines : List Str} {keys others : List (DiffSide × ℕ)}
    {output middle result : List SourceLineHighlights} {count between total : ℕ}
    (front : Annotates oldLines newLines keys output middle count between)
    (rear : Annotates oldLines newLines others middle result between total) :
    Annotates oldLines newLines (keys ++ others) output result count total := by
  obtain ⟨⟨first, rfl, firstLines, rfl⟩, firstLimit⟩ := front
  obtain ⟨⟨second, rfl, secondLines, rfl⟩, secondLimit⟩ := rear
  refine ⟨⟨first ++ second, List.append_assoc .., firstLines.append secondLines, ?_⟩, secondLimit ∘ firstLimit⟩
  simp only [rangeTotal, List.map_append, List.sum_append, Nat.add_assoc]

theorem annotateLines_ok (oldLines newLines : List Str) {side : DiffSide} {start offset count total : ℕ}
    {lines rest : List Str} {changes : List (ℕ × ℕ)} {output result : List SourceLineHighlights}
    (forward : Forward changes) (stand : (sideLines oldLines newLines side).drop start = lines ++ rest)
    (success : annotateLines side start offset lines changes count output = .ok (result, total)) :
    Annotates oldLines newLines (sideKeys side start lines.length) output result count total := by
  induction lines generalizing start offset changes count output with
  | nil =>
    rw [annotateLines] at success
    cases success
    exact annotates_nil ..
  | cons line lines ih =>
    rw [annotateLines] at success
    simp only [bind_eq_ok] at success
    obtain ⟨⟨ranges, between⟩, ran, success⟩ := success
    have remaining : Forward (changes.dropWhile (·.2 ≤ offset)) := forward.sublist (List.dropWhile_sublist _)
    obtain ⟨ordered, counted, limit⟩ :=
      lineRanges_ok [] remaining ⟨List.Pairwise.nil, by simp⟩ (by simp) ran
    rw [Nat.add_sub_cancel_left] at ordered
    have here : (sideLines oldLines newLines side)[start]? = some line := by
      rw [← List.head?_drop, stand]
      rfl
    have behind : (sideLines oldLines newLines side).drop (start + 1) = lines ++ rest := by
      rw [← List.tail_drop, stand]
      rfl
    have one : Annotates oldLines newLines [(side, start)] output (output ++ [⟨side, start, ranges⟩]) count between := by
      refine ⟨⟨[⟨side, start, ranges⟩], rfl, ⟨.refl _, by simpa using ⟨line, here, ordered⟩⟩, ?_⟩, limit⟩
      simpa [rangeTotal] using counted
    have keys : sideKeys side start (line :: lines).length = [(side, start)] ++ sideKeys side (start + 1) lines.length := by
      rw [List.length_cons, sideKeys, List.range'_succ]
      rfl
    rw [keys]
    exact one.trans (ih remaining behind success)

private theorem drop_slice (lines : List Str) {start stop : ℕ} (forward : start ≤ stop) :
    lines.drop start = (lines.take stop).drop start ++ lines.drop stop := by
  conv_lhs => rw [← List.take_append_drop stop lines]
  by_cases inside : stop ≤ lines.length
  · rw [List.drop_append_of_le_length (by rw [List.length_take]; omega)]
  · rw [List.drop_eq_nil_of_le (by omega : lines.length ≤ stop), List.append_nil, List.append_nil]

/-- A replacement block annotates the lines that its edits change. -/
theorem annotateBlock_ok {similar : Similar} (lawful : similar.LawfulChars) {oldLines newLines : List Str}
    {i j n m count total : ℕ} {op : DiffOp} {block : List DiffOp} {output result : List SourceLineHighlights}
    (tiles : Tiles i j (op :: block) n m) (changed : ∀ other ∈ op :: block, other.tag ≠ .equal)
    (oldBound : n ≤ oldLines.length) (newBound : m ≤ newLines.length)
    (success : annotateBlock similar oldLines newLines op (block.getLast?.getD op) output count = .ok (result, total)) :
    Annotates oldLines newLines (changeKeys ((op :: block).flatMap DiffOp.edits)) output result count total := by
  have final : (op :: block).getLast? = some (block.getLast?.getD op) := List.getLast?_cons
  obtain ⟨oldEnd, newEnd⟩ := tiles.last final
  have oldStart := tiles.1
  have newStart := tiles.2.1
  have forward := tiles.walk.le
  simp only [annotateBlock, annotate, oldStart, newStart, oldEnd, newEnd, bind_eq_ok] at success
  obtain ⟨⟨middle, between⟩, before, after⟩ := success
  have chars := (lawful.tiles ((oldLines.take n).drop i).flatten ((newLines.take m).drop j).flatten).forward
  have old := annotateLines_ok oldLines newLines (forward_changedRanges chars.1.1)
    (drop_slice oldLines forward.1) before
  have new := annotateLines_ok oldLines newLines (forward_changedRanges chars.2.1)
    (drop_slice newLines forward.2) after
  have oldLength : ((oldLines.take n).drop i).length = n - i := by
    rw [List.length_drop, List.length_take]
    omega
  have newLength : ((newLines.take m).drop j).length = m - j := by
    rw [List.length_drop, List.length_take]
    omega
  rw [oldLength] at old
  rw [newLength] at new
  have edits : ∀ edit ∈ (op :: block).flatMap DiffOp.edits, edit.tag ≠ .equal := by
    intro edit member
    obtain ⟨other, present, member⟩ := List.mem_flatMap.mp member
    exact other.tag_of_mem_edits (changed other present) edit member
  obtain ⟨⟨added, same, lines, counted⟩, limit⟩ := old.trans new
  exact ⟨⟨added, same, lines.perm (tiles.walk.changeKeys_perm edits).symm, counted⟩, limit⟩

/-- The annotations of all operations stand for the lines that their edits change. -/
theorem annotateOps_ok {similar : Similar} (lawful : similar.LawfulChars) {oldLines newLines : List Str}
    {i j n m count total : ℕ} {ops : List DiffOp} {output result : List SourceLineHighlights}
    (tiles : Tiles i j ops n m) (oldBound : n ≤ oldLines.length) (newBound : m ≤ newLines.length)
    (success : annotateOps similar oldLines newLines ops output count = .ok (result, total)) :
    Annotates oldLines newLines (changeKeys (ops.flatMap DiffOp.edits)) output result count total := by
  fun_induction annotateOps similar oldLines newLines ops output count generalizing i j with
  | case1 output count =>
    cases success
    exact annotates_nil ..
  | case2 output count op rest kept ih =>
    have none : changeKeys op.edits = [] := by
      apply changeKeys_of_equal
      intro edit member
      exact op.equal_of_mem_edits kept edit member
    rw [List.flatMap_cons, changeKeys_append, none, List.nil_append]
    exact ih tiles.2.2 success
  | case3 output count op rest change block =>
    rename_i ih
    simp only [bind_eq_ok] at success
    obtain ⟨⟨middle, between⟩, ran, success⟩ := success
    have split : op :: rest = (op :: block) ++ rest.dropWhile (·.tag ≠ .equal) := by
      rw [List.cons_append, List.takeWhile_append_dropWhile]
    rw [split] at tiles ⊢
    obtain ⟨a, b, front, rear⟩ := tiles_append.mp tiles
    have changed : ∀ other ∈ op :: block, other.tag ≠ .equal := by
      rw [List.forall_mem_cons]
      refine ⟨change, fun other member => ?_⟩
      simpa using List.mem_takeWhile_imp member
    have behind := rear.walk.le
    rw [List.flatMap_append, changeKeys_append]
    exact (annotateBlock_ok lawful front changed (by omega) (by omega) ran).trans (ih _ _ rear success)

end Compute

/-- The coarsest differ tiles characters too. -/
theorem Similar.whole_lawfulChars : Similar.whole.LawfulChars where
  tiles old new := by
    by_cases same : old = new
    · simp [whole, wholeOps, same, Tiles, DiffOp.oldRange, DiffOp.newRange]
    · simp [whole, wholeOps, same, Tiles, DiffOp.oldRange, DiffOp.newRange]

end OpenLegal.TextDiff
