import OpenLegal.TextDiff.Compute
import OpenLegal.TextDiff.Patch

/-! # The text of a written patch and its reading

The producer writes the lines of `hunksLines` under two fixed file headers. The strict reader accepts
exactly these lines as the same hunks: coordinates of an empty side, missing-newline markers and the
positions carried from hunk to hunk are read as they were written.
-/

namespace OpenLegal.TextDiff.Written

open Rust Rust.Str Theory Theory.Script Patch

/-- A line of a text: terminated, or the unterminated last line. -/
def IsLine (line : Str) : Prop := Terminated '\n' line ∨ (line ≠ [] ∧ '\n' ∉ line)

theorem isLine_of_mem {lines : List Str} (shape : IsLines '\n' lines) : ∀ line ∈ lines, IsLine line := by
  induction lines with
  | nil => simp
  | cons line lines ih =>
    intro other member
    rcases List.mem_cons.mp member with rfl | member
    · cases lines with
      | nil => exact shape
      | cons next rest => exact .inl shape.1
    · exact ih shape.tail other member

/-! ## The lines of a written patch -/

/-- The patch lines of one row. -/
def rowLines (row : ChangeTag × Str) : List Str :=
  if endsWith row.2 '\n' then [Compute.rowSign row.1 :: row.2]
  else [Compute.rowSign row.1 :: row.2 ++ ['\n'], marker]

/-- The patch lines of a hunk whose gap starts after `i` old and `j` new lines. -/
def hunkLines (i j : ℕ) (hunk : Hunk Str) : List Str :=
  Compute.hunkHeader (i + hunk.gap.length) (source hunk.rows).length (j + hunk.gap.length)
    (target hunk.rows).length :: hunk.rows.flatMap rowLines

def hunksLines : ℕ → ℕ → List (Hunk Str) → List Str
  | _, _, [] => []
  | i, j, hunk :: hunks =>
    hunkLines i j hunk ++ hunksLines (i + hunk.gap.length + (source hunk.rows).length)
      (j + hunk.gap.length + (target hunk.rows).length) hunks

def patchLines (hunks : List (Hunk Str)) : List Str :=
  beforeHeader :: afterHeader :: hunksLines 0 0 hunks

/-- Both sides use the same marker row. -/
theorem marker_eq : Compute.noNewlineMarker = marker := rfl

theorem compute_append_ok {out value result : Str} (success : Compute.append out value = .ok result) :
    result = out ++ value ∧ byteLen result ≤ maxPatchBytes := by
  simp only [Compute.append] at success
  split_ifs at success with tooLong
  cases success
  exact ⟨rfl, by rw [byteLen_append]; omega⟩

theorem appendChange_ok {patch result : Str} {change : ChangeTag × Str}
    (success : Compute.appendChange patch change = .ok result) :
    result = patch ++ (rowLines change).flatten ∧ byteLen result ≤ maxPatchBytes := by
  simp only [Compute.appendChange, bind_eq_ok] at success
  obtain ⟨signed, signRan, written, textRan, success⟩ := success
  obtain ⟨rfl, -⟩ := compute_append_ok signRan
  obtain ⟨rfl, bound⟩ := compute_append_ok textRan
  split_ifs at success with terminated
  · cases success
    exact ⟨by simp [rowLines, terminated], bound⟩
  · obtain ⟨same, bound⟩ := compute_append_ok success
    refine ⟨?_, bound⟩
    rw [same, marker_eq]
    simp [rowLines, terminated]

/-- A written group is the text of the hunk it shows. -/
theorem appendGroup_ok {changes : DiffOp → Script Str} {patch result : Str} {group : List DiffOp}
    {i j : ℕ} {hunk : Hunk Str} (shows : Shows changes i j group hunk)
    (success : Compute.appendGroup changes patch group = .ok result) :
    result = patch ++ (hunkLines i j hunk).flatten ∧ byteLen result ≤ maxPatchBytes := by
  obtain ⟨first, head, firstOld, firstNew⟩ := shows.first
  obtain ⟨last, final, lastOld, lastNew⟩ := shows.last
  simp only [Compute.appendGroup, head, final, Option.elim_some, ok_bind, bind_eq_ok] at success
  obtain ⟨headed, ran, success⟩ := success
  obtain ⟨rfl, bound⟩ := compute_append_ok ran
  have oldLength : last.oldRange.2 - first.oldRange.1 = (source hunk.rows).length := by omega
  have newLength : last.newRange.2 - first.newRange.1 = (target hunk.rows).length := by omega
  have ops {state : Str} {op : DiffOp} {next : Str}
      (written : (changes op).foldlM Compute.appendChange state = .ok next) :
      next = state ++ (changes op).flatMap (fun change => (rowLines change).flatten) :=
    foldlM_append written fun _ _ _ _ step => (appendChange_ok step).1
  constructor
  · rw [foldlM_append success fun state op next _ step => ops step, oldLength, newLength, firstOld, firstNew,
      ← List.flatMap_assoc, shows.rows]
    simp [hunkLines, List.flatMap_def, List.flatten_flatten, Function.comp_def]
  · refine foldlM_invariant (fun patch => byteLen patch ≤ maxPatchBytes) success bound ?_
    intro state op next _ written holds
    exact foldlM_invariant (fun patch => byteLen patch ≤ maxPatchBytes) written holds
      fun _ _ _ _ step _ => (appendChange_ok step).2

theorem appendGroups_ok {changes : DiffOp → Script Str} {patch result : Str} {groups : List (List DiffOp)}
    {i j : ℕ} {hunks : List (Hunk Str)} (shows : ShowsAll changes i j groups hunks)
    (bound : byteLen patch ≤ maxPatchBytes)
    (success : groups.foldlM (Compute.appendGroup changes) patch = .ok result) :
    result = patch ++ (hunksLines i j hunks).flatten ∧ byteLen result ≤ maxPatchBytes := by
  induction groups generalizing i j hunks patch with
  | nil =>
    cases hunks with
    | nil =>
      cases success
      exact ⟨by simp [hunksLines], bound⟩
    | cons hunk hunks => exact shows.elim
  | cons group groups ih =>
    cases hunks with
    | nil => exact shows.elim
    | cons hunk hunks =>
      rw [List.foldlM_cons] at success
      obtain ⟨next, ran, success⟩ := bind_eq_ok.mp success
      obtain ⟨rfl, bound⟩ := appendGroup_ok shows.1 ran
      obtain ⟨rfl, bound⟩ := ih shows.2 bound success
      exact ⟨by simp [hunksLines], bound⟩

theorem showsAll_length {changes : DiffOp → Script Str} {groups : List (List DiffOp)} {i j : ℕ}
    {hunks : List (Hunk Str)} (shows : ShowsAll changes i j groups hunks) : groups.length = hunks.length := by
  induction groups generalizing i j hunks with
  | nil => cases hunks with
    | nil => rfl
    | cons => exact shows.elim
  | cons group groups ih => cases hunks with
    | nil => exact shows.elim
    | cons hunk hunks => simp [ih shows.2]

theorem showsAll_changes {changes : DiffOp → Script Str} {groups : List (List DiffOp)} {i j : ℕ}
    {hunks : List (Hunk Str)} (shows : ShowsAll changes i j groups hunks) :
    ∀ hunk ∈ hunks, Changes hunk.rows := by
  induction groups generalizing i j hunks with
  | nil => cases hunks with
    | nil => simp
    | cons => exact shows.elim
  | cons group groups ih => cases hunks with
    | nil => exact shows.elim
    | cons hunk hunks =>
      intro other member
      rcases List.mem_cons.mp member with rfl | member
      · exact shows.1.changes
      · exact ih shows.2 other member

/-! ## Reading the lines back -/

theorem mem_coordinates {start len : ℕ} {c : Char} (member : c ∈ Compute.coordinates start len) :
    c.isDigit = true ∨ c = ',' := by
  simp only [Compute.coordinates] at member
  by_cases one : len = 1
  · rw [if_pos one] at member
    exact .inl (isDigit_of_mem_decimal member)
  · rw [if_neg one] at member
    rcases List.mem_append.mp member with member | member
    · exact .inl (isDigit_of_mem_decimal member)
    · exact (List.mem_cons.mp member).symm.imp isDigit_of_mem_decimal id

theorem not_mem_coordinates {start len : ℕ} {c : Char} (digit : c.isDigit = false) (comma : c ≠ ',') :
    c ∉ Compute.coordinates start len := by
  intro member
  rcases mem_coordinates member with isDigit | same
  · rw [isDigit] at digit
    cases digit
  · exact comma same

/-- Both numbers of written coordinates; a count of one is left out. -/
theorem splitOnce_coordinates (start len : ℕ) :
    (splitOnce [','] (Compute.coordinates start len)).getD (Compute.coordinates start len, ['1']) =
      (decimal (if len = 0 then start else start + 1), decimal len) := by
  simp only [Compute.coordinates]
  by_cases one : len = 1
  · rw [if_pos one, splitOnce_absent ',' [] _ (not_mem_decimal (by decide)), one]
    rfl
  · have comma := splitOnce_append ',' [] (decimal (if len = 0 then start else start + 1)) (decimal len)
      (not_mem_decimal (by decide))
    rw [List.append_assoc, List.singleton_append] at comma
    rw [if_neg one, comma]
    rfl

/-- Written coordinates are read as the zero-based start and the count. -/
theorem coordinate_coordinates (sign : Char) {start len : ℕ} (bound : start + len ≤ maxLines) :
    coordinate (sign :: Compute.coordinates start len) sign = .ok (start, len) := by
  have strip : stripPrefix [sign] (sign :: Compute.coordinates start len) =
      some (Compute.coordinates start len) := stripPrefix_append [sign] _
  have limit : maxLines < 2 ^ 64 := by decide
  have split := splitOnce_coordinates start len
  have startBound : (if len = 0 then start else start + 1) ≤ maxLines := by split_ifs <;> omega
  have digits : ((decimal (if len = 0 then start else start + 1)).isEmpty || (decimal len).isEmpty ||
      !(decimal (if len = 0 then start else start + 1)).all Char.isDigit || !(decimal len).all Char.isDigit) =
        false := by
    simp only [decimal_all_isDigit, Bool.not_true, Bool.or_false, List.isEmpty_eq_false_iff.mpr (decimal_ne_nil _)]
  have inside : (decide (len > maxLines) || decide ((if len = 0 then start else start + 1) > maxLines) ||
      (decide (len ≠ 0) && (if len = 0 then start else start + 1) == 0)) = false := by
    by_cases zero : len = 0
    · simp [zero]; omega
    · simp [zero]; omega
  simp only [coordinate, strip, require_some, ok_bind, split, digits, reject_false,
    parseUsize_decimal (lt_of_le_of_lt startBound limit), parseUsize_decimal (show len < 2 ^ 64 by omega),
    inside, pure_eq_ok]
  by_cases zero : len = 0 <;> simp [zero]

/-- A written header is read as the coordinates it was written from. -/
theorem parseHeader_hunkHeader {oldStart oldLen newStart newLen : ℕ} (oldBound : oldStart + oldLen ≤ maxLines)
    (newBound : newStart + newLen ≤ maxLines) :
    parseHeader (Compute.hunkHeader oldStart oldLen newStart newLen) =
      .ok ((oldStart, oldLen), (newStart, newLen)) := by
  have header : Compute.hunkHeader oldStart oldLen newStart newLen = "@@ ".toList ++
      ('-' :: Compute.coordinates oldStart oldLen ++
        (' ' :: ('+' :: Compute.coordinates newStart newLen ++ " @@".toList ++ ['\n']))) := by
    simp [Compute.hunkHeader]
  have oldSpace : ' ' ∉ '-' :: Compute.coordinates oldStart oldLen := by
    simp [not_mem_coordinates (c := ' ') (by decide) (by decide)]
  have newSpace : ' ' ∉ '+' :: Compute.coordinates newStart newLen := by
    simp [not_mem_coordinates (c := ' ') (by decide) (by decide)]
  have closing := splitOnce_append ' ' ['@', '@'] ('+' :: Compute.coordinates newStart newLen) ['\n'] newSpace
  have outer : splitOnce " @@".toList ('-' :: Compute.coordinates oldStart oldLen ++
      (' ' :: ('+' :: Compute.coordinates newStart newLen ++ " @@".toList ++ ['\n']))) =
        some ('-' :: Compute.coordinates oldStart oldLen ++ [' '] ++ '+' :: Compute.coordinates newStart newLen,
          ['\n']) := by
    -- the blank between the coordinates is followed by a plus sign and does not close the header
    change splitOnce [' ', '@', '@'] _ = _
    rw [splitOnce_skip ' ' ['@', '@'] _ _ oldSpace, splitOnce]
    change Option.map _ (Option.map _ (splitOnce [' ', '@', '@']
      ('+' :: Compute.coordinates newStart newLen ++ [' ', '@', '@'] ++ ['\n']))) = _
    rw [closing]
    simp only [Option.map_some, List.append_assoc, List.cons_append, List.nil_append]
  have inner := splitOnce_append ' ' [] ('-' :: Compute.coordinates oldStart oldLen)
    ('+' :: Compute.coordinates newStart newLen) oldSpace
  rw [header, parseHeader, stripPrefix_append, require_some, ok_bind, outer, require_some, ok_bind]
  have plain : (decide (['\n'] ≠ ['\n']) && decide (List.head? ['\n'] ≠ some ' ')) = false := rfl
  dsimp only
  rw [plain, reject_false, ok_bind, inner, require_some, ok_bind]
  dsimp only
  rw [coordinate_coordinates _ oldBound, ok_bind, coordinate_coordinates _ newBound, ok_bind, pure_eq_ok]

/-- A written header is one line of the patch. -/
theorem hunkHeader_terminated (oldStart oldLen newStart newLen : ℕ) :
    Terminated '\n' (Compute.hunkHeader oldStart oldLen newStart newLen) := by
  refine ⟨"@@ -".toList ++ Compute.coordinates oldStart oldLen ++ " +".toList ++
    Compute.coordinates newStart newLen ++ " @@".toList, ?_, by simp [Compute.hunkHeader]⟩
  simp [not_mem_coordinates (c := '\n') (by decide) (by decide)]

theorem marker_terminated : Terminated '\n' marker :=
  ⟨"\\ No newline at end of file".toList, by decide, rfl⟩

theorem rowSign_ne_newline (tag : ChangeTag) : '\n' ≠ Compute.rowSign tag := by
  cases tag <;> decide

theorem rowLines_terminated {row : ChangeTag × Str} (isLine : IsLine row.2) :
    ∀ line ∈ rowLines row, Terminated '\n' line := by
  intro line member
  simp only [rowLines] at member
  rcases isLine with ⟨body, absent, same⟩ | ⟨-, absent⟩
  · rw [same, endsWith_concat, beq_self_eq_true, if_pos rfl, List.mem_singleton] at member
    exact ⟨Compute.rowSign row.1 :: body, by simp [absent, rowSign_ne_newline], member⟩
  · split_ifs at member with ends
    · obtain ⟨init, same⟩ := List.getLast?_eq_some_iff.mp (beq_iff_eq.mp ends)
      exact absurd (by simp [same]) absent
    · rcases List.mem_cons.mp member with rfl | member
      · exact ⟨Compute.rowSign row.1 :: row.2, by simp [absent, rowSign_ne_newline], rfl⟩
      · rw [List.mem_singleton.mp member]
        exact marker_terminated

/-- The parsed form of a row. -/
def toPatchRow (row : ChangeTag × Str) : PatchRow := ⟨Compute.rowSign row.1, row.2⟩

theorem rowSign_of_written (tag : ChangeTag) {text : Str} (ends : endsWith (Compute.rowSign tag :: text) '\n' = true) :
    rowSign (Compute.rowSign tag :: text) = .ok (Compute.rowSign tag) := by
  have known : (!(Compute.rowSign tag == ' ' || Compute.rowSign tag == '-' || Compute.rowSign tag == '+') ||
      !endsWith (Compute.rowSign tag :: text) '\n') = false := by
    rw [ends]
    cases tag <;> rfl
  rw [rowSign, List.head?_cons, require_some, ok_bind, known]
  rfl

/-- One written row is read back with its marker. -/
theorem nextRow_rowLines {row : ChangeTag × Str} (isLine : IsLine row.2) {rest : List Str}
    (noMarker : rest.head? ≠ some marker) :
    ∃ first more, rowLines row = first :: more ∧
      nextRow first (more ++ rest) = .ok (Compute.rowSign row.1, row.2, rest) := by
  rcases isLine with ⟨body, absent, same⟩ | ⟨nonempty, absent⟩
  · have ends : endsWith row.2 '\n' = true := by rw [same, endsWith_concat]; rfl
    have written : endsWith (Compute.rowSign row.1 :: row.2) '\n' = true := by
      rw [same, ← List.cons_append, endsWith_concat]
      rfl
    refine ⟨Compute.rowSign row.1 :: row.2, [], by rw [rowLines, if_pos ends], ?_⟩
    rw [nextRow, rowSign_of_written _ written, ok_bind, List.nil_append, if_neg noMarker]
    rfl
  · have ends : ¬endsWith row.2 '\n' = true := by
      intro ends
      obtain ⟨init, same⟩ := List.getLast?_eq_some_iff.mp (beq_iff_eq.mp ends)
      exact absent (by simp [same])
    have written : endsWith (Compute.rowSign row.1 :: (row.2 ++ ['\n'])) '\n' = true := by
      rw [← List.cons_append, endsWith_concat]
      rfl
    refine ⟨Compute.rowSign row.1 :: (row.2 ++ ['\n']), [marker], by rw [rowLines, if_neg ends]; rfl, ?_⟩
    rw [nextRow, rowSign_of_written _ written, ok_bind, List.singleton_append, List.head?_cons, if_pos rfl,
      unterminatedText, List.tail_cons, stripSuffix_concat, require_some, ok_bind,
      List.isEmpty_eq_false_iff.mpr nonempty]
    rfl

theorem rowLines_head_ne_marker (rows : Script Str) {rest : List Str} (noMarker : rest.head? ≠ some marker) :
    (rows.flatMap rowLines ++ rest).head? ≠ some marker := by
  cases rows with
  | nil => simpa using noMarker
  | cons row rows =>
    have sign : ∀ text, Compute.rowSign row.1 :: text ≠ marker := by
      intro text same
      have first : some (Compute.rowSign row.1) = marker.head? := by rw [← same]; rfl
      revert first
      cases row.1 <;> decide
    simp only [List.flatMap_cons, rowLines]
    split_ifs
    · simpa using sign row.2
    · simpa using sign (row.2 ++ ['\n'])

/-- The state after a written row. -/
def nextState (state : RowState) (row : ChangeTag × Str) : RowState where
  consumed := state.consumed + (source [row]).length
  produced := state.produced + (target [row]).length
  changed := state.changed || row.1 ≠ .equal
  rows := state.rows ++ [toPatchRow row]
  unterminated := if row.1 = .delete then state.unterminated else !endsWith row.2 '\n'
  totalRows := state.totalRows + 1

theorem acceptRow_written (oldCount newCount : ℕ) (state : RowState) (row : ChangeTag × Str)
    (old : row.1 ≠ .insert → state.consumed < oldCount)
    (new : row.1 ≠ .delete → state.produced < newCount ∧ state.unterminated = false) :
    acceptRow oldCount newCount (Compute.rowSign row.1) row.2 state = .ok (nextState state row) := by
  rcases row with ⟨tag, text⟩
  cases tag with
  | equal =>
    have oldRoom := old (by simp)
    obtain ⟨newRoom, terminated⟩ := new (by simp)
    simp [acceptRow, reject, nextState, toPatchRow, Compute.rowSign, Nat.not_le.mpr oldRoom,
      Nat.not_le.mpr newRoom, terminated]
  | delete =>
    have oldRoom := old (by simp)
    simp [acceptRow, reject, nextState, toPatchRow, Compute.rowSign, Nat.not_le.mpr oldRoom]
  | insert =>
    obtain ⟨newRoom, terminated⟩ := new (by simp)
    simp [acceptRow, reject, nextState, toPatchRow, Compute.rowSign, Nat.not_le.mpr newRoom, terminated]

/-- Only the last line of a text lacks its newline. -/
theorem last_of_not_endsWith {line : Str} {more : List Str} (shape : IsLines '\n' (line :: more))
    (ends : (!endsWith line '\n') = true) : more = [] := by
  cases more with
  | nil => rfl
  | cons next rest =>
    rw [shape.1.endsWith] at ends
    cases ends

theorem parseRows_step {oldCount newCount : ℕ} {row : ChangeTag × Str} {rest : List Str} {state next : RowState}
    (isLine : IsLine row.2) (noMarker : rest.head? ≠ some marker)
    (pending : state.consumed < oldCount ∨ state.produced < newCount) (room : state.totalRows < maxPatchRows)
    (accepted : acceptRow oldCount newCount (Compute.rowSign row.1) row.2 state = .ok next) :
    parseRows oldCount newCount (rowLines row ++ rest) state = parseRows oldCount newCount rest next := by
  obtain ⟨first, more, same, read⟩ := nextRow_rowLines isLine noMarker
  have unfinished : (decide (state.consumed < oldCount) || decide (state.produced < newCount)) = true := by
    simpa using pending
  rw [same, List.cons_append, parseRows, if_pos unfinished, if_neg (Nat.not_le.mpr room)]
  split
  · next error failed =>
    rw [read] at failed
    cases failed
  · next sign text remaining found =>
    rw [read] at found
    cases found
    rw [accepted, ok_bind]

/-- The rows of a written hunk are read back, and the flag says whether the last new line was reached. -/
theorem parseRows_rowLines {oldCount newCount : ℕ} {rows : Script Str} {more rest : List Str} (state : RowState)
    (old : state.consumed + (source rows).length = oldCount) (new : state.produced + (target rows).length = newCount)
    (room : state.totalRows + rows.length ≤ maxPatchRows) (lines : ∀ row ∈ rows, IsLine row.2)
    (shape : IsLines '\n' (target rows ++ more)) (flag : state.unterminated = true → target rows ++ more = [])
    (noMarker : rest.head? ≠ some marker) :
    ∃ unterminated, (unterminated = true → more = []) ∧
      parseRows oldCount newCount (rows.flatMap rowLines ++ rest) state = .ok ({
        consumed := oldCount
        produced := newCount
        changed := state.changed || rows.any (·.1 ≠ .equal)
        rows := state.rows ++ rows.map toPatchRow
        unterminated
        totalRows := state.totalRows + rows.length }, rest) := by
  induction rows generalizing state with
  | nil =>
    refine ⟨state.unterminated, by simpa using flag, ?_⟩
    simp only [source_nil, target_nil, List.length_nil, Nat.add_zero] at old new
    have finished : ¬(decide (state.consumed < oldCount) || decide (state.produced < newCount)) = true := by
      simp [old, new]
    rw [List.flatMap_nil, List.nil_append, parseRows.eq_def, if_neg finished]
    simp [← old, ← new]
  | cons row rows ih =>
    have isLine := lines row (by simp)
    have oldSide : source (row :: rows) = source [row] ++ source rows := source_append [row] rows
    have newSide : target (row :: rows) = target [row] ++ target rows := target_append [row] rows
    rw [oldSide, List.length_append] at old
    rw [newSide] at shape flag new
    rw [List.length_append] at new
    rw [List.length_cons] at room
    have oldRoom : row.1 ≠ .insert → 0 < (source [row]).length := by
      rcases row with ⟨tag, text⟩
      cases tag <;> simp
    have newRoom : row.1 ≠ .delete → target [row] = [row.2] := by
      rcases row with ⟨tag, text⟩
      cases tag <;> simp
    have shown := length_le [row]
    have accepted := acceptRow_written oldCount newCount state row
      (fun kept => by have := oldRoom kept; omega)
      (fun kept => by
        rw [newRoom kept] at new flag
        refine ⟨by simp only [List.length_singleton] at new; omega, ?_⟩
        cases terminated : state.unterminated with
        | false => rfl
        | true => simp [terminated] at flag)
    have rest' : IsLines '\n' (target rows ++ more) ∧
        ((nextState state row).unterminated = true → target rows ++ more = []) := by
      by_cases deleted : row.1 = .delete
      · have empty : target [row] = [] := by
          rcases row with ⟨tag, text⟩
          obtain rfl : tag = .delete := deleted
          rfl
        rw [empty, List.nil_append] at shape flag
        exact ⟨shape, by simpa [nextState, deleted] using flag⟩
      · rw [newRoom deleted, List.append_assoc, List.singleton_append] at shape
        refine ⟨shape.tail, ?_⟩
        simp only [nextState, if_neg deleted]
        exact last_of_not_endsWith shape
    obtain ⟨unterminated, final, parsed⟩ := ih (nextState state row)
      (by simp only [nextState]; omega) (by simp only [nextState]; omega) (by simp only [nextState]; omega)
      (fun other member => lines other (List.mem_cons_of_mem _ member)) rest'.1 rest'.2
    refine ⟨unterminated, final, ?_⟩
    rw [List.flatMap_cons, List.append_assoc, parseRows_step isLine (rowLines_head_ne_marker rows noMarker)
      (by simp only [List.length_singleton] at shown; omega) (by omega) accepted, parsed]
    simp [nextState, Bool.or_assoc, Nat.add_comm, Nat.add_left_comm]

/-- The parsed form of written hunks. -/
def toPatchHunks : ℕ → List (Hunk Str) → List PatchHunk
  | _, [] => []
  | i, hunk :: hunks =>
    ⟨i + hunk.gap.length, hunk.rows.map toPatchRow⟩ ::
      toPatchHunks (i + hunk.gap.length + (source hunk.rows).length) hunks

theorem any_changed {rows : Script Str} (changes : Changes rows) : rows.any (·.1 ≠ .equal) = true := by
  obtain ⟨row, member, changed⟩ := changes
  exact List.any_eq_true.mpr ⟨row, member, by simpa using changed⟩

theorem parseHunk_hunkLines {hunk : Hunk Str} {more rest : List Str} (state : HunkState)
    (changes : Changes hunk.rows) (lines : ∀ row ∈ hunk.rows, IsLine row.2)
    (oldBound : state.oldCursor + hunk.gap.length + (source hunk.rows).length ≤ maxLines)
    (newBound : state.newCursor + hunk.gap.length + (target hunk.rows).length ≤ maxLines)
    (count : state.hunks.length < maxLines) (room : state.totalRows + hunk.rows.length ≤ maxPatchRows)
    (shape : IsLines '\n' (hunk.gap ++ target hunk.rows ++ more))
    (flag : state.unterminated = true → hunk.gap ++ target hunk.rows ++ more = [])
    (noMarker : rest.head? ≠ some marker) :
    ∃ unterminated, (unterminated = true → more = []) ∧
      parseHunk (Compute.hunkHeader (state.oldCursor + hunk.gap.length) (source hunk.rows).length
        (state.newCursor + hunk.gap.length) (target hunk.rows).length) (hunk.rows.flatMap rowLines ++ rest) state =
      .ok ({
        hunks := state.hunks ++ [⟨state.oldCursor + hunk.gap.length, hunk.rows.map toPatchRow⟩]
        oldCursor := state.oldCursor + hunk.gap.length + (source hunk.rows).length
        newCursor := state.newCursor + hunk.gap.length + (target hunk.rows).length
        unterminated
        totalRows := state.totalRows + hunk.rows.length }, rest) := by
  have behindGap : IsLines '\n' (target hunk.rows ++ more) := by
    rw [List.append_assoc] at shape
    exact shape.of_append_right
  obtain ⟨unterminated, final, parsed⟩ := parseRows_rowLines
    { unterminated := state.unterminated, totalRows := state.totalRows }
    (Nat.zero_add (source hunk.rows).length) (Nat.zero_add (target hunk.rows).length) room lines behindGap
    (fun set => by have := flag set; simp only [List.append_eq_nil_iff] at this ⊢; exact ⟨this.1.2, this.2⟩) noMarker
  have accepted : (decide (state.hunks.length ≥ maxLines) || !endsWith (Compute.hunkHeader
      (state.oldCursor + hunk.gap.length) (source hunk.rows).length (state.newCursor + hunk.gap.length)
      (target hunk.rows).length) '\n') = false := by
    rw [(hunkHeader_terminated ..).endsWith]
    simpa using count
  have forward : decide (state.oldCursor + hunk.gap.length < state.oldCursor) = false := by simp
  have aligned : (decide (state.newCursor + (state.oldCursor + hunk.gap.length - state.oldCursor) ≠
      state.newCursor + hunk.gap.length) ||
        (decide (state.oldCursor + hunk.gap.length - state.oldCursor > 0) && state.unterminated)) = false := by
    rw [Nat.add_sub_cancel_left]
    cases set : state.unterminated with
    | false => simp
    | true =>
      have empty := flag set
      simp only [List.append_eq_nil_iff] at empty
      simp [empty.1.1]
  refine ⟨unterminated, final, ?_⟩
  rw [parseHunk, accepted, reject_false, ok_bind, parseHeader_hunkHeader oldBound newBound, ok_bind]
  dsimp only
  rw [forward, reject_false, ok_bind, aligned, reject_false, ok_bind, parsed, ok_bind]
  dsimp only
  rw [any_changed changes]
  simp

theorem hunksLines_head_ne_marker (i j : ℕ) (hunks : List (Hunk Str)) :
    (hunksLines i j hunks).head? ≠ some marker := by
  cases hunks with
  | nil => simp [hunksLines]
  | cons hunk hunks =>
    intro same
    have header : Compute.hunkHeader (i + hunk.gap.length) (source hunk.rows).length (j + hunk.gap.length)
      (target hunk.rows).length = marker := Option.some.inj same
    have first : some '@' = marker.head? := by rw [← header]; rfl
    revert first
    decide

/-- Reading written hunks gives their positions and rows. -/
theorem parseHunks_hunksLines {hunks : List (Hunk Str)} (tail : List Str) (state : HunkState)
    (changes : ∀ hunk ∈ hunks, Changes hunk.rows) (lines : ∀ hunk ∈ hunks, ∀ row ∈ hunk.rows, IsLine row.2)
    (oldBound : state.oldCursor + (Hunk.sourceOf hunks tail).length ≤ maxLines)
    (newBound : state.newCursor + (Hunk.targetOf hunks tail).length ≤ maxLines)
    (count : state.hunks.length + hunks.length ≤ maxLines)
    (room : state.totalRows + (hunks.map fun hunk => hunk.rows.length).sum ≤ maxPatchRows)
    (shape : IsLines '\n' (Hunk.targetOf hunks tail))
    (flag : state.unterminated = true → Hunk.targetOf hunks tail = []) :
    ∃ final, parseHunks (hunksLines state.oldCursor state.newCursor hunks) state = .ok final ∧
      final.hunks = state.hunks ++ toPatchHunks state.oldCursor hunks := by
  induction hunks generalizing state with
  | nil => exact ⟨state, by rw [hunksLines, parseHunks.eq_def], by simp [toPatchHunks]⟩
  | cons hunk hunks ih =>
    simp only [Hunk.sourceOf_cons, Hunk.targetOf_cons, List.length_append, List.length_cons, List.map_cons,
      List.sum_cons] at oldBound newBound count room shape flag
    obtain ⟨unterminated, last, parsed⟩ := parseHunk_hunkLines state (changes hunk (by simp))
      (lines hunk (by simp)) (by omega) (by omega) (by omega) (by omega) shape flag
      (hunksLines_head_ne_marker (state.oldCursor + hunk.gap.length + (source hunk.rows).length)
        (state.newCursor + hunk.gap.length + (target hunk.rows).length) hunks)
    obtain ⟨final, parsedRest, same⟩ := ih
      { hunks := state.hunks ++ [⟨state.oldCursor + hunk.gap.length, hunk.rows.map toPatchRow⟩]
        oldCursor := state.oldCursor + hunk.gap.length + (source hunk.rows).length
        newCursor := state.newCursor + hunk.gap.length + (target hunk.rows).length
        unterminated
        totalRows := state.totalRows + hunk.rows.length }
      (fun other member => changes other (List.mem_cons_of_mem _ member))
      (fun other member => lines other (List.mem_cons_of_mem _ member))
      (by dsimp only; omega) (by dsimp only; omega)
      (by simp only [List.length_append, List.length_singleton]; omega) (by dsimp only; omega)
      shape.of_append_right last
    refine ⟨final, ?_, ?_⟩
    · rw [hunksLines, hunkLines, List.cons_append, parseHunks.eq_def]
      dsimp only
      split
      · next failed =>
        rw [parsed] at failed
        cases failed
      · next read =>
        rw [parsed] at read
        cases read
        exact parsedRest
    · rw [same, toPatchHunks, List.append_assoc, List.singleton_append]

end OpenLegal.TextDiff.Written
