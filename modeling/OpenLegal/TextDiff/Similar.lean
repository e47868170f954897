import OpenLegal.Rust.Str
import OpenLegal.Theory.EditScript

/-! # The third-party differ

The `similar` crate is not part of the repository. Its results enter the model as a parameter, and
`Similar.Lawful` names what the producer relies on: operations tile both sequences in order, `Equal`
operations pair equal elements, and grouping keeps every change in contiguous groups that are
separated by unchanged elements. `Lawful.hunks` turns these facts about positions into hunks of a
script over the lines themselves.
-/

namespace OpenLegal.TextDiff

open Rust Theory Theory.Script

inductive DiffTag where
  | equal
  | delete
  | insert
  | replace
deriving DecidableEq, Repr

inductive DiffOp where
  | equal (oldIndex newIndex len : ℕ)
  | delete (oldIndex oldLen newIndex : ℕ)
  | insert (oldIndex newIndex newLen : ℕ)
  | replace (oldIndex oldLen newIndex newLen : ℕ)
deriving DecidableEq, Repr

namespace DiffOp

def tag : DiffOp → DiffTag
  | equal .. => .equal
  | delete .. => .delete
  | insert .. => .insert
  | replace .. => .replace

/-- Start and end of the half-open range of old elements. -/
def oldRange : DiffOp → ℕ × ℕ
  | equal oldIndex _ len => (oldIndex, oldIndex + len)
  | delete oldIndex oldLen _ => (oldIndex, oldIndex + oldLen)
  | insert oldIndex _ _ => (oldIndex, oldIndex)
  | replace oldIndex oldLen _ _ => (oldIndex, oldIndex + oldLen)

/-- Start and end of the half-open range of new elements. -/
def newRange : DiffOp → ℕ × ℕ
  | equal _ newIndex len => (newIndex, newIndex + len)
  | delete _ _ newIndex => (newIndex, newIndex)
  | insert _ newIndex newLen => (newIndex, newIndex + newLen)
  | replace _ _ newIndex newLen => (newIndex, newIndex + newLen)

end DiffOp

/-- One element of an operation, with the positions on both sides at which it stands. -/
structure Edit where
  tag : ChangeTag
  old : ℕ
  new : ℕ
deriving DecidableEq, Repr

/-- The elements of an operation: a replacement deletes before it inserts. -/
def DiffOp.edits : DiffOp → List Edit
  | .equal i j len => (List.range len).map fun k => ⟨.equal, i + k, j + k⟩
  | .delete i len j => (List.range len).map fun k => ⟨.delete, i + k, j⟩
  | .insert i j len => (List.range len).map fun k => ⟨.insert, i, j + k⟩
  | .replace i oldLen j newLen =>
    (List.range oldLen).map (fun k => ⟨.delete, i + k, j⟩) ++
      (List.range newLen).map fun k => ⟨.insert, i + oldLen, j + k⟩

section Values

variable {α : Type*}

/-- The element an edit shows; the old side speaks for kept elements. -/
def Edit.value (old new : List α) (edit : Edit) : Option α :=
  match edit.tag with
  | .equal | .delete => old[edit.old]?
  | .insert => new[edit.new]?

/-- The tagged elements of a sequence of edits. -/
def rowsOf (old new : List α) (edits : List Edit) : Script α :=
  edits.filterMap fun edit => (edit.value old new).map fun value => (edit.tag, value)

theorem rowsOf_append (old new : List α) (front rear : List Edit) :
    rowsOf old new (front ++ rear) = rowsOf old new front ++ rowsOf old new rear := by
  simp [rowsOf]

end Values

/-- Operations cover both sequences contiguously, from one pair of positions to another. -/
def Tiles : ℕ → ℕ → List DiffOp → ℕ → ℕ → Prop
  | i, j, [], n, m => i = n ∧ j = m
  | i, j, op :: ops, n, m =>
    op.oldRange.1 = i ∧ op.newRange.1 = j ∧ Tiles op.oldRange.2 op.newRange.2 ops n m

attribute [grind =] Tiles

/-- Groups are contiguous, nonempty stretches of the edits in order. Everything they leave out is
unchanged, each contains a change, and at least one unchanged element lies between two of them. -/
inductive Isolated : ℕ → List Edit → List (List DiffOp) → Prop where
  | done {lead : ℕ} {rest : List Edit} (unchanged : ∀ edit ∈ rest, edit.tag = .equal) : Isolated lead rest []
  | group {lead : ℕ} {gap rest : List Edit} {group : List DiffOp} {groups : List (List DiffOp)}
      (unchanged : ∀ edit ∈ gap, edit.tag = .equal) (separated : lead ≤ gap.length)
      (inhabited : ∀ op ∈ group, op.edits ≠ [])
      (changed : ∃ edit ∈ group.flatMap DiffOp.edits, edit.tag ≠ .equal)
      (others : Isolated 1 rest groups) :
      Isolated lead (gap ++ group.flatMap DiffOp.edits ++ rest) (group :: groups)

/-- The entry points of the crate that the producer calls, with the Myers algorithm. -/
structure Similar where
  diffSlices : List Str → List Str → List DiffOp
  diffChars : Str → Str → List DiffOp
  groupedOps : List DiffOp → ℕ → List (List DiffOp)
  iterChanges : List Str → List Str → DiffOp → Script Str

/-- What the producer relies on when it writes a patch. -/
structure Similar.Lawful (similar : Similar) : Prop where
  tiles : ∀ old new, Tiles 0 0 (similar.diffSlices old new) old.length new.length
  equal : ∀ old new i j len, .equal i j len ∈ similar.diffSlices old new →
    (old.drop i).take len = (new.drop j).take len
  iterChanges : ∀ old new op, similar.iterChanges old new op = rowsOf old new op.edits
  groupedOps : ∀ old new n, 0 < n →
    Isolated 0 ((similar.diffSlices old new).flatMap DiffOp.edits)
      (similar.groupedOps (similar.diffSlices old new) n)

/-! ## Walks over both sequences -/

/-- Every edit stands at the positions that the edits before it have reached. -/
def EditWalk : ℕ → ℕ → List Edit → ℕ → ℕ → Prop
  | i, j, [], n, m => i = n ∧ j = m
  | i, j, ⟨tag, old, new⟩ :: edits, n, m =>
    old = i ∧ new = j ∧
      match tag with
      | .equal => EditWalk (i + 1) (j + 1) edits n m
      | .delete => EditWalk (i + 1) j edits n m
      | .insert => EditWalk i (j + 1) edits n m

attribute [grind =] EditWalk

theorem editWalk_append {i j n m : ℕ} {front rear : List Edit} :
    EditWalk i j (front ++ rear) n m ↔ ∃ a b, EditWalk i j front a b ∧ EditWalk a b rear n m := by
  induction front generalizing i j with
  | nil => simp [EditWalk]
  | cons edit front ih =>
    rcases edit with ⟨tag, old, new⟩
    cases tag <;> simp only [List.cons_append, EditWalk, ih] <;> constructor
    all_goals
      first
      | rintro ⟨rfl, rfl, a, b, walk, rest⟩
        exact ⟨a, b, ⟨rfl, rfl, walk⟩, rest⟩
      | rintro ⟨a, b, ⟨rfl, rfl, walk⟩, rest⟩
        exact ⟨rfl, rfl, a, b, walk, rest⟩

private theorem walk_equal (i j len : ℕ) :
    EditWalk i j ((List.range len).map fun k => ⟨.equal, i + k, j + k⟩) (i + len) (j + len) := by
  induction len with
  | zero => exact ⟨rfl, rfl⟩
  | succ len ih =>
    rw [List.range_succ, List.map_append, editWalk_append]
    exact ⟨_, _, ih, rfl, rfl, rfl, rfl⟩

private theorem walk_delete (i j len : ℕ) :
    EditWalk i j ((List.range len).map fun k => ⟨.delete, i + k, j⟩) (i + len) j := by
  induction len with
  | zero => exact ⟨rfl, rfl⟩
  | succ len ih =>
    rw [List.range_succ, List.map_append, editWalk_append]
    exact ⟨_, _, ih, rfl, rfl, rfl, rfl⟩

private theorem walk_insert (i j len : ℕ) :
    EditWalk i j ((List.range len).map fun k => ⟨.insert, i, j + k⟩) i (j + len) := by
  induction len with
  | zero => exact ⟨rfl, rfl⟩
  | succ len ih =>
    rw [List.range_succ, List.map_append, editWalk_append]
    exact ⟨_, _, ih, rfl, rfl, rfl, rfl⟩

/-- The edits of an operation walk from the start of its ranges to their end. -/
theorem DiffOp.edits_walk (op : DiffOp) :
    EditWalk op.oldRange.1 op.newRange.1 op.edits op.oldRange.2 op.newRange.2 := by
  cases op with
  | equal i j len => exact walk_equal i j len
  | delete i len j => exact walk_delete i j len
  | insert i j len => exact walk_insert i j len
  | replace i oldLen j newLen =>
    exact (editWalk_append).mpr ⟨_, _, walk_delete i j oldLen, walk_insert (i + oldLen) j newLen⟩

theorem Tiles.walk {i j n m : ℕ} {ops : List DiffOp} (tiles : Tiles i j ops n m) :
    EditWalk i j (ops.flatMap DiffOp.edits) n m := by
  induction ops generalizing i j with
  | nil => exact tiles
  | cons op ops ih =>
    obtain ⟨rfl, rfl, rest⟩ := tiles
    exact (editWalk_append).mpr ⟨_, _, op.edits_walk, ih rest⟩

/-- A nonempty walk determines where it starts. -/
theorem EditWalk.start_unique {i j n m i' j' n' m' : ℕ} {edits : List Edit} (nonempty : edits ≠ [])
    (walk : EditWalk i j edits n m) (other : EditWalk i' j' edits n' m') : i = i' ∧ j = j' := by
  cases edits with
  | nil => exact absurd rfl nonempty
  | cons edit edits => exact ⟨walk.1.symm.trans other.1, walk.2.1.symm.trans other.2.1⟩

/-- A walk determines where it ends. -/
theorem EditWalk.end_unique {i j n m n' m' : ℕ} {edits : List Edit}
    (walk : EditWalk i j edits n m) (other : EditWalk i j edits n' m') : n = n' ∧ m = m' := by
  induction edits generalizing i j with
  | nil => exact ⟨walk.1.symm.trans other.1, walk.2.symm.trans other.2⟩
  | cons edit edits ih =>
    rcases edit with ⟨tag, old, new⟩
    cases tag <;> exact ih walk.2.2 other.2.2

/-! ## The rows of a walk -/

section Rows

variable {α : Type*} {old new : List α}

/-- Kept edits pair equal elements of both sides. -/
def Paired (old new : List α) (edits : List Edit) : Prop :=
  ∀ edit ∈ edits, edit.tag = .equal → old[edit.old]? = new[edit.new]?

theorem Paired.mono {edits some : List Edit} (paired : Paired old new edits) (part : some ⊆ edits) :
    Paired old new some := fun edit member => paired edit (part member)

/-- A walk inside both sequences shows the elements it passes on either side. -/
theorem EditWalk.sides {i j n m : ℕ} {edits : List Edit} (walk : EditWalk i j edits n m)
    (paired : Paired old new edits) (oldBound : n ≤ old.length) (newBound : m ≤ new.length) :
    i ≤ n ∧ j ≤ m ∧ old.drop i = source (rowsOf old new edits) ++ old.drop n ∧
      new.drop j = target (rowsOf old new edits) ++ new.drop m := by
  induction edits generalizing i j with
  | nil =>
    obtain ⟨rfl, rfl⟩ := walk
    simp [rowsOf]
  | cons edit edits ih =>
    rcases edit with ⟨tag, a, b⟩
    have others : Paired old new edits := fun edit member => paired edit (List.mem_cons_of_mem _ member)
    obtain ⟨rfl, rfl, walk⟩ := walk
    cases tag with
    | equal =>
      obtain ⟨oldStep, newStep, oldSide, newSide⟩ := ih walk others
      have oldIn : a < old.length := by omega
      have newIn : b < new.length := by omega
      have same : old[a] = new[b] := by simpa [oldIn, newIn] using paired ⟨.equal, a, b⟩ (by simp) rfl
      refine ⟨by omega, by omega, ?_, ?_⟩
      · rw [List.drop_eq_getElem_cons oldIn, oldSide]
        simp [rowsOf, Edit.value, oldIn]
      · rw [List.drop_eq_getElem_cons newIn, newSide, ← same]
        simp [rowsOf, Edit.value, oldIn]
    | delete =>
      obtain ⟨oldStep, newStep, oldSide, newSide⟩ := ih walk others
      have oldIn : a < old.length := by omega
      refine ⟨by omega, by omega, ?_, ?_⟩
      · rw [List.drop_eq_getElem_cons oldIn, oldSide]
        simp [rowsOf, Edit.value, oldIn]
      · rw [newSide]
        simp [rowsOf, Edit.value, oldIn]
    | insert =>
      obtain ⟨oldStep, newStep, oldSide, newSide⟩ := ih walk others
      have newIn : b < new.length := by omega
      refine ⟨by omega, by omega, ?_, ?_⟩
      · rw [oldSide]
        simp [rowsOf, Edit.value, newIn]
      · rw [List.drop_eq_getElem_cons newIn, newSide]
        simp [rowsOf, Edit.value, newIn]

/-- Kept edits are shown as kept rows. -/
theorem rowsOf_equal {edits : List Edit} (unchanged : ∀ edit ∈ edits, edit.tag = .equal) :
    ∀ row ∈ rowsOf old new edits, row.1 = .equal := by
  intro row member
  obtain ⟨edit, present, shown⟩ := List.mem_filterMap.mp member
  obtain ⟨value, -, rfl⟩ := Option.map_eq_some_iff.mp shown
  exact unchanged edit present

theorem EditWalk.old_end_of_equal {i j n m : ℕ} {edits : List Edit} (walk : EditWalk i j edits n m)
    (unchanged : ∀ edit ∈ edits, edit.tag = .equal) : n = i + edits.length := by
  induction edits generalizing i j with
  | nil => exact walk.1.symm
  | cons edit edits ih =>
    rcases edit with ⟨tag, a, b⟩
    obtain rfl : tag = .equal := unchanged ⟨tag, a, b⟩ (by simp)
    have := ih walk.2.2 (fun edit member => unchanged edit (List.mem_cons_of_mem _ member))
    simp only [List.length_cons]
    omega

theorem EditWalk.le {i j n m : ℕ} {edits : List Edit} (walk : EditWalk i j edits n m) : i ≤ n ∧ j ≤ m := by
  induction edits generalizing i j with
  | nil => exact ⟨walk.1.le, walk.2.le⟩
  | cons edit edits ih =>
    rcases edit with ⟨tag, a, b⟩
    cases tag with
    | equal => have := ih walk.2.2; omega
    | delete => have := ih walk.2.2; omega
    | insert => have := ih walk.2.2; omega

/-- Every edit of a walk inside both sequences shows an element. -/
theorem EditWalk.changes_rowsOf {i j n m : ℕ} {edits : List Edit} (walk : EditWalk i j edits n m)
    (oldBound : n ≤ old.length) (newBound : m ≤ new.length) (changed : ∃ edit ∈ edits, edit.tag ≠ .equal) :
    Changes (rowsOf old new edits) := by
  obtain ⟨edit, member, change⟩ := changed
  obtain ⟨front, rear, rfl⟩ := List.append_of_mem member
  obtain ⟨a, b, -, walk⟩ := (editWalk_append).mp walk
  rcases edit with ⟨tag, x, y⟩
  obtain ⟨rfl, rfl, walk⟩ := walk
  cases tag with
  | equal => exact absurd rfl change
  | delete =>
    have inside : x < old.length := by have := walk.le; omega
    exact ⟨(.delete, old[x]), List.mem_filterMap.mpr ⟨_, member, by simp [Edit.value, inside]⟩, by simp⟩
  | insert =>
    have inside : y < new.length := by have := walk.le; omega
    exact ⟨(.insert, new[y]), List.mem_filterMap.mpr ⟨_, member, by simp [Edit.value, inside]⟩, by simp⟩

end Rows

/-! ## Groups as hunks -/

/-- A group shows a hunk whose gap starts after `i` old and `j` new elements. -/
structure Shows (changes : DiffOp → Script Str) (i j : ℕ) (group : List DiffOp) (hunk : Hunk Str) : Prop where
  first : ∃ op, group.head? = some op ∧
    op.oldRange.1 = i + hunk.gap.length ∧ op.newRange.1 = j + hunk.gap.length
  last : ∃ op, group.getLast? = some op ∧
    op.oldRange.2 = i + hunk.gap.length + (source hunk.rows).length ∧
    op.newRange.2 = j + hunk.gap.length + (target hunk.rows).length
  rows : group.flatMap changes = hunk.rows
  changes : Changes hunk.rows

/-- Groups show hunks one after the other. -/
def ShowsAll (changes : DiffOp → Script Str) : ℕ → ℕ → List (List DiffOp) → List (Hunk Str) → Prop
  | _, _, [], [] => True
  | i, j, group :: groups, hunk :: hunks =>
    Shows changes i j group hunk ∧
      ShowsAll changes (i + hunk.gap.length + (source hunk.rows).length)
        (j + hunk.gap.length + (target hunk.rows).length) groups hunks
  | _, _, _, _ => False

attribute [grind =] ShowsAll

/-- A group starts where its first operation does. -/
theorem first_start {a b n m : ℕ} {group : List DiffOp} {op : DiffOp} (head : group.head? = some op)
    (inhabited : op.edits ≠ []) (walk : EditWalk a b (group.flatMap DiffOp.edits) n m) :
    op.oldRange.1 = a ∧ op.newRange.1 = b := by
  obtain ⟨rest, rfl⟩ := List.head?_eq_some_iff.mp head
  rw [List.flatMap_cons, editWalk_append] at walk
  obtain ⟨_, _, walk, -⟩ := walk
  exact EditWalk.start_unique inhabited op.edits_walk walk

theorem last_end {a b n m : ℕ} {group : List DiffOp} {op : DiffOp} (last : group.getLast? = some op)
    (inhabited : op.edits ≠ []) (walk : EditWalk a b (group.flatMap DiffOp.edits) n m) :
    op.oldRange.2 = n ∧ op.newRange.2 = m := by
  obtain ⟨init, rfl⟩ := List.getLast?_eq_some_iff.mp last
  rw [List.flatMap_append, editWalk_append] at walk
  obtain ⟨c, d, -, walk⟩ := walk
  rw [List.flatMap_singleton] at walk
  obtain ⟨rfl, rfl⟩ := EditWalk.start_unique inhabited op.edits_walk walk
  exact op.edits_walk.end_unique walk

theorem flatMap_rowsOf (old new : List Str) (group : List DiffOp) :
    (group.flatMap fun op => rowsOf old new op.edits) = rowsOf old new (group.flatMap DiffOp.edits) := by
  induction group with
  | nil => rfl
  | cons op group ih => simp only [List.flatMap_cons, ih, rowsOf_append]

/-- A walk that a grouping isolates is a sequence of hunks. -/
theorem Isolated.hunks {old new : List Str} {lead : ℕ} {edits : List Edit} {groups : List (List DiffOp)}
    (isolated : Isolated lead edits groups) {i j : ℕ} (walk : EditWalk i j edits old.length new.length)
    (paired : Paired old new edits) :
    ∃ hunks tail, old.drop i = Hunk.sourceOf hunks tail ∧ new.drop j = Hunk.targetOf hunks tail ∧
      ShowsAll (fun op => rowsOf old new op.edits) i j groups hunks ∧
      (∀ hunk, hunks.head? = some hunk → lead ≤ hunk.gap.length) ∧ ∀ hunk ∈ hunks.tail, hunk.gap ≠ [] := by
  induction isolated generalizing i j with
  | @done lead rest unchanged =>
    obtain ⟨-, -, oldSide, newSide⟩ := walk.sides paired le_rfl le_rfl
    refine ⟨[], source (rowsOf old new rest), ?_, ?_, trivial, by simp, by simp⟩
    · simpa using oldSide
    · simpa [source_eq_target (rowsOf_equal unchanged)] using newSide
  | @group lead gap rest group groups unchanged separated inhabited changed _ ih =>
    obtain ⟨n, m, walk, restWalk⟩ := editWalk_append.mp walk
    obtain ⟨a, b, gapWalk, groupWalk⟩ := editWalk_append.mp walk
    obtain ⟨hunks, tail, oldRest, newRest, shows, lead', separated'⟩ :=
      ih restWalk (paired.mono (by simp))
    have restLe := restWalk.le
    have groupLe := groupWalk.le
    obtain ⟨gapOld, gapNew, oldGap, newGap⟩ :=
      gapWalk.sides (paired.mono (by simp)) (by omega) (by omega)
    obtain ⟨-, -, oldGroup, newGroup⟩ :=
      groupWalk.sides (paired.mono (by simp)) restLe.1 restLe.2
    have sameGap : source (rowsOf old new gap) = target (rowsOf old new gap) :=
      source_eq_target (rowsOf_equal unchanged)
    have gapLength : (source (rowsOf old new gap)).length = a - i := by
      have := congrArg List.length oldGap
      simp only [List.length_append, List.length_drop] at this
      omega
    have gapLength' : (target (rowsOf old new gap)).length = b - j := by
      have := congrArg List.length newGap
      simp only [List.length_append, List.length_drop] at this
      omega
    have oldLength : (source (rowsOf old new (group.flatMap DiffOp.edits))).length = n - a := by
      have := congrArg List.length oldGroup
      simp only [List.length_append, List.length_drop] at this
      omega
    have newLength : (target (rowsOf old new (group.flatMap DiffOp.edits))).length = m - b := by
      have := congrArg List.length newGroup
      simp only [List.length_append, List.length_drop] at this
      omega
    have gapEnd := gapWalk.old_end_of_equal unchanged
    have newGapLength : (source (rowsOf old new gap)).length = b - j := by rw [sameGap, gapLength']
    have nonempty : group ≠ [] := by
      rintro rfl
      simp at changed
    obtain ⟨first, head⟩ := Option.isSome_iff_exists.mp (List.isSome_head?.mpr nonempty)
    obtain ⟨last, final⟩ := Option.isSome_iff_exists.mp (List.getLast?_isSome.mpr nonempty)
    have starts := first_start head (inhabited first (List.mem_of_head? head)) groupWalk
    have ends := last_end final (inhabited last (List.mem_of_getLast? final)) groupWalk
    refine ⟨⟨source (rowsOf old new gap), rowsOf old new (group.flatMap DiffOp.edits)⟩ :: hunks, tail,
      ?_, ?_, ⟨⟨⟨first, head, ?_, ?_⟩, ⟨last, final, ?_, ?_⟩, flatMap_rowsOf old new group, ?_⟩, ?_⟩, ?_, ?_⟩
    · rw [Hunk.sourceOf_cons, ← oldRest, oldGap, oldGroup, List.append_assoc]
    · rw [Hunk.targetOf_cons, ← newRest, newGap, newGroup, sameGap, List.append_assoc]
    · dsimp only; omega
    · dsimp only; omega
    · dsimp only; omega
    · dsimp only; omega
    · exact groupWalk.changes_rowsOf restLe.1 restLe.2 changed
    · have oldPosition : i + (a - i) + (n - a) = n := by omega
      have newPosition : j + (b - j) + (m - b) = m := by omega
      dsimp only
      rw [oldLength, newLength, gapLength, oldPosition, ← gapLength, newGapLength, newPosition]
      exact shows
    · intro hunk same
      obtain rfl := Option.some.inj same
      dsimp only
      omega
    · intro hunk member
      cases hunks with
      | nil => cases member
      | cons next hunks =>
        rcases List.mem_cons.mp member with rfl | member
        · exact List.ne_nil_of_length_pos (lead' _ rfl)
        · exact separated' hunk member

private theorem paired_of_equal {old new : List Str} {ops : List DiffOp}
    (equal : ∀ i j len, .equal i j len ∈ ops → (old.drop i).take len = (new.drop j).take len) :
    Paired old new (ops.flatMap DiffOp.edits) := by
  intro edit member kept
  obtain ⟨op, present, member⟩ := List.mem_flatMap.mp member
  cases op with
  | equal i j len =>
    obtain ⟨k, inside, rfl⟩ := List.mem_map.mp member
    have same := congrArg (fun run => run[k]?) (equal i j len present)
    simpa [List.getElem?_take, List.mem_range.mp inside] using same
  | delete i len j =>
    obtain ⟨k, -, rfl⟩ := List.mem_map.mp member
    cases kept
  | insert i j len =>
    obtain ⟨k, -, rfl⟩ := List.mem_map.mp member
    cases kept
  | replace i oldLen j newLen =>
    rcases List.mem_append.mp member with member | member
    all_goals
      obtain ⟨k, -, rfl⟩ := List.mem_map.mp member
      cases kept

/-- The groups the producer writes are hunks of a script between both sequences of lines. -/
theorem Similar.Lawful.hunks {similar : Similar} (lawful : similar.Lawful) (old new : List Str) :
    ∃ hunks tail, old = Hunk.sourceOf hunks tail ∧ new = Hunk.targetOf hunks tail ∧
      ShowsAll (similar.iterChanges old new) 0 0 (similar.groupedOps (similar.diffSlices old new) 3) hunks ∧
      ∀ hunk ∈ hunks.tail, hunk.gap ≠ [] := by
  have changes : similar.iterChanges old new = fun op => rowsOf old new op.edits :=
    funext (lawful.iterChanges old new)
  obtain ⟨hunks, tail, oldSide, newSide, shows, -, separated⟩ :=
    (lawful.groupedOps old new 3 (by decide)).hunks (lawful.tiles old new).walk
      (paired_of_equal (lawful.equal old new))
  exact ⟨hunks, tail, oldSide, newSide, changes ▸ shows, separated⟩

/-! ## A differ that satisfies the laws -/

namespace Similar

/-- Equal sequences are kept and all others replaced as a whole. -/
def wholeOps {α : Type} [DecidableEq α] (old new : List α) : List DiffOp :=
  if old = new then [.equal 0 0 old.length] else [.replace 0 old.length 0 new.length]

/-- The coarsest differ: at most one group, which shows everything. -/
def whole : Similar where
  diffSlices := wholeOps
  diffChars := wholeOps
  groupedOps ops _ := if ops.all (·.tag = .equal) then [] else [ops]
  iterChanges old new op := rowsOf old new op.edits

private theorem whole_isolated (old new : List Str) :
    Isolated 0 ((wholeOps old new).flatMap DiffOp.edits) (whole.groupedOps (wholeOps old new) 3) := by
  by_cases same : old = new
  · rw [wholeOps, if_pos same]
    refine .done ?_
    simp [DiffOp.edits]
  · rw [wholeOps, if_neg same]
    have nonempty : (DiffOp.replace 0 old.length 0 new.length).edits ≠ [] := by
      intro empty
      simp only [DiffOp.edits, List.append_eq_nil_iff, List.map_eq_nil_iff, List.range_eq_nil,
        List.length_eq_zero_iff] at empty
      exact same (empty.1.trans empty.2.symm)
    obtain ⟨edit, member⟩ := List.exists_mem_of_ne_nil _ nonempty
    have changed : edit.tag ≠ .equal := by
      rcases List.mem_append.mp member with member | member
      all_goals
        obtain ⟨k, -, rfl⟩ := List.mem_map.mp member
        simp
    have isolated : Isolated 0 ([] ++ [DiffOp.replace 0 old.length 0 new.length].flatMap DiffOp.edits ++ [])
        [[.replace 0 old.length 0 new.length]] :=
      .group (by simp) (by simp) (by simpa using nonempty) ⟨edit, by simpa using member, changed⟩ (.done (by simp))
    simpa [whole, DiffOp.tag] using isolated

theorem whole_lawful : whole.Lawful where
  tiles old new := by
    by_cases same : old = new
    · simp [whole, wholeOps, same, Tiles, DiffOp.oldRange, DiffOp.newRange]
    · simp [whole, wholeOps, same, Tiles, DiffOp.oldRange, DiffOp.newRange]
  equal old new i j len member := by
    by_cases same : old = new
    · simp only [whole, wholeOps, if_pos same, List.mem_singleton, DiffOp.equal.injEq] at member
      obtain ⟨rfl, rfl, rfl⟩ := member
      rw [same]
    · simp [whole, wholeOps, same] at member
  iterChanges _ _ _ := rfl
  groupedOps old new _ _ := whole_isolated old new

end Similar

end OpenLegal.TextDiff
