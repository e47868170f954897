import OpenLegal.TextDiff.Written

/-! # What applying a patch means

A patch declares hunks: where the old and the new rows of each begin, how many there are, and the rows. Applied to the
lines of a text it replaces the old rows, which must stand at their declared place, by the new rows and keeps every
other line. A line without its newline is the last of the result, so no two lines run together.
-/

namespace OpenLegal.TextDiff.Splice

open Rust Rust.Str Patch Written

/-- A hunk as its header and its rows declare it, with starts counted from zero. -/
structure DeclaredHunk where
  oldStart : ℕ
  oldCount : ℕ
  newStart : ℕ
  newCount : ℕ
  rows : List PatchRow
deriving DecidableEq, Repr

/-- The context and deleted rows. -/
def oldRows (rows : List PatchRow) : List Str := (rows.filter (·.sign ≠ '+')).map (·.text)

/-- The context and inserted rows. -/
def newRows (rows : List PatchRow) : List Str := (rows.filter (·.sign ≠ '-')).map (·.text)

/-- Rows at the head of the lines of a patch, and the lines after them. -/
inductive ReadsRows : List Str → List PatchRow → List Str → Prop
  | nil (lines : List Str) : ReadsRows lines [] lines
  | cons {row text : Str} {sign : Char} {lines rest last : List Str} {rows : List PatchRow}
      (read : nextRow row lines = .ok (sign, text, rest)) (more : ReadsRows rest rows last) :
      ReadsRows (row :: lines) (⟨sign, text⟩ :: rows) last

/-- The hunks that the lines after the file headers declare. -/
inductive ReadsHunks : List Str → List DeclaredHunk → Prop
  | nil : ReadsHunks [] []
  | cons {header : Str} {lines rest : List Str} {hunk : DeclaredHunk} {hunks : List DeclaredHunk}
      (read : parseHeader header = .ok ((hunk.oldStart, hunk.oldCount), (hunk.newStart, hunk.newCount)))
      (rows : ReadsRows lines hunk.rows rest) (more : ReadsHunks rest hunks) : ReadsHunks (header :: lines) (hunk :: hunks)

/-- The hunks that a patch declares. -/
def Declares (patch : Str) (hunks : List DeclaredHunk) : Prop :=
  ∃ preamble before after, skipPreamble (linesOf patch) = .ok preamble ∧
    fileHeader "--- ".toList preamble = .ok before ∧ fileHeader "+++ ".toList before = .ok after ∧ ReadsHunks after hunks

/-- The lines of a text, from a line on, with the old rows of the hunks replaced by the new ones. -/
def splice (source : List Str) (cursor : ℕ) : List DeclaredHunk → List Str
  | [] => source.drop cursor
  | hunk :: hunks =>
    (source.drop cursor).take (hunk.oldStart - cursor) ++ newRows hunk.rows ++
      splice source (hunk.oldStart + hunk.oldCount) hunks

/-- Hunks follow one another on both sides, and have the rows that they declare. -/
def Chained (oldCursor newCursor : ℕ) : List DeclaredHunk → Prop
  | [] => True
  | hunk :: hunks =>
    oldCursor ≤ hunk.oldStart ∧ hunk.newStart = newCursor + (hunk.oldStart - oldCursor) ∧
      (oldRows hunk.rows).length = hunk.oldCount ∧ (newRows hunk.rows).length = hunk.newCount ∧
      Chained (hunk.oldStart + hunk.oldCount) (hunk.newStart + hunk.newCount) hunks

/-! ## Reading a patch -/

section Reading

variable {oldCount newCount : ℕ}

theorem oldRows_cons (row : PatchRow) (rows : List PatchRow) :
    oldRows (row :: rows) = (if row.sign ≠ '+' then [row.text] else []) ++ oldRows rows := by
  by_cases inserted : row.sign = '+' <;> simp [oldRows, inserted]

theorem newRows_cons (row : PatchRow) (rows : List PatchRow) :
    newRows (row :: rows) = (if row.sign ≠ '-' then [row.text] else []) ++ newRows rows := by
  by_cases deleted : row.sign = '-' <;> simp [newRows, deleted]

theorem reject_bind_ok {condition : Bool} {α : Type} {rest : Except TextDiffError α} {result : α}
    (success : (do reject condition; rest) = .ok result) : condition = false ∧ rest = .ok result := by
  obtain ⟨_, free, success⟩ := bind_eq_ok.mp success
  exact ⟨reject_eq_ok free, success⟩

theorem acceptRow_ok {sign : Char} {text : Str} {state next : RowState}
    (accepted : acceptRow oldCount newCount sign text state = .ok next) :
    next.rows = state.rows ++ [⟨sign, text⟩] ∧ next.consumed = state.consumed + (if sign ≠ '+' then 1 else 0) ∧
      next.produced = state.produced + (if sign ≠ '-' then 1 else 0) ∧
      (state.consumed ≤ oldCount → next.consumed ≤ oldCount) ∧ (state.produced ≤ newCount → next.produced ≤ newCount) := by
  unfold acceptRow at accepted
  by_cases inserted : sign = '+'
  · subst inserted
    obtain ⟨new, same⟩ := reject_bind_ok accepted
    cases same
    simp only [ge_iff_le, Bool.or_eq_false_iff, decide_eq_false_iff_not, not_le] at new
    exact ⟨rfl, rfl, rfl, id, fun _ => new.1⟩
  · rw [if_pos inserted] at accepted
    obtain ⟨old, accepted⟩ := reject_bind_ok accepted
    simp only [ge_iff_le, decide_eq_false_iff_not, not_le] at old
    by_cases deleted : sign = '-'
    · subst deleted
      cases accepted
      exact ⟨rfl, rfl, rfl, fun _ => old, id⟩
    · rw [pure_bind] at accepted
      dsimp only at accepted
      rw [if_pos deleted] at accepted
      obtain ⟨new, same⟩ := reject_bind_ok accepted
      cases same
      simp only [ge_iff_le, Bool.or_eq_false_iff, decide_eq_false_iff_not, not_le] at new
      refine ⟨rfl, ?_, ?_, fun _ => old, fun _ => new.1⟩
      · rw [if_pos inserted]
      · rw [if_pos deleted]

/-- The rows of a hunk are read until both sides are complete. -/
theorem parseRows_reads {lines rest : List Str} {state final : RowState}
    (parsed : parseRows oldCount newCount lines state = .ok (final, rest)) (old : state.consumed ≤ oldCount)
    (new : state.produced ≤ newCount) :
    ∃ rows, final.rows = state.rows ++ rows ∧ ReadsRows lines rows rest ∧
      state.consumed + (oldRows rows).length = oldCount ∧ state.produced + (newRows rows).length = newCount := by
  fun_induction parseRows oldCount newCount lines state with
  | case1 | case2 | case3 => cases parsed
  | case4 state _ _ row lines sign text remaining read ih =>
    obtain ⟨next, accepted, parsed⟩ := bind_eq_ok.mp parsed
    obtain ⟨added, consumed, produced, oldBound, newBound⟩ := acceptRow_ok accepted
    obtain ⟨rows, final, reads, oldTotal, newTotal⟩ := ih next parsed (oldBound old) (newBound new)
    refine ⟨⟨sign, text⟩ :: rows, ?_, .cons read reads, ?_, ?_⟩
    · rw [final, added, List.append_assoc]
      rfl
    · rw [oldRows_cons, List.length_append]
      split_ifs at consumed ⊢ <;> simp only [List.length_singleton, List.length_nil] <;> omega
    · rw [newRows_cons, List.length_append]
      split_ifs at produced ⊢ <;> simp only [List.length_singleton, List.length_nil] <;> omega
  | case5 state lines complete =>
    cases parsed
    simp only [Bool.or_eq_true, decide_eq_true_eq, not_or, not_lt] at complete
    refine ⟨[], (List.append_nil _).symm, .nil _, ?_, ?_⟩
    · simp only [oldRows, List.filter_nil, List.map_nil, List.length_nil]
      omega
    · simp only [newRows, List.filter_nil, List.map_nil, List.length_nil]
      omega

theorem parseHunk_reads {header : Str} {lines rest : List Str} {state final : HunkState}
    (parsed : parseHunk header lines state = .ok (final, rest)) :
    ∃ hunk : DeclaredHunk, parseHeader header = .ok ((hunk.oldStart, hunk.oldCount), (hunk.newStart, hunk.newCount)) ∧
      ReadsRows lines hunk.rows rest ∧ final.hunks = state.hunks ++ [⟨hunk.oldStart, hunk.rows⟩] ∧
      state.oldCursor ≤ hunk.oldStart ∧ hunk.newStart = state.newCursor + (hunk.oldStart - state.oldCursor) ∧
      (oldRows hunk.rows).length = hunk.oldCount ∧ (newRows hunk.rows).length = hunk.newCount ∧
      final.oldCursor = hunk.oldStart + hunk.oldCount ∧ final.newCursor = hunk.newStart + hunk.newCount := by
  simp only [parseHunk, bind_eq_ok] at parsed
  obtain ⟨_, -, ⟨⟨oldStart, oldCount⟩, newStart, newCount⟩, read, _, ahead, _, placed, ⟨rows, remaining⟩, ran, _, -, same⟩ :=
    parsed
  cases same
  have ordered := reject_eq_ok ahead
  have position := reject_eq_ok placed
  simp only [decide_eq_false_iff_not, not_lt, Bool.or_eq_false_iff, ne_eq, Decidable.not_not] at ordered position
  obtain ⟨found, final, reads, old, new⟩ := parseRows_reads ran (Nat.zero_le _) (Nat.zero_le _)
  refine ⟨⟨oldStart, oldCount, newStart, newCount, found⟩, read, reads, ?_, ordered, position.1.symm, ?_, ?_, rfl, rfl⟩
  · rw [show rows.rows = found from final.trans (List.nil_append _)]
  · simpa using old
  · simpa using new

theorem parseHunks_reads {lines : List Str} {state final : HunkState} (parsed : parseHunks lines state = .ok final) :
    ∃ hunks : List DeclaredHunk, ReadsHunks lines hunks ∧
      final.hunks = state.hunks ++ hunks.map (fun hunk => ⟨hunk.oldStart, hunk.rows⟩) ∧
      Chained state.oldCursor state.newCursor hunks := by
  fun_induction parseHunks lines state with
  | case1 state =>
    cases parsed
    exact ⟨[], .nil, (List.append_nil _).symm, trivial⟩
  | case2 => cases parsed
  | case3 state header lines next rest first ih =>
    obtain ⟨hunk, read, rows, added, ahead, placed, old, new, oldCursor, newCursor⟩ := parseHunk_reads first
    obtain ⟨hunks, reads, all, chained⟩ := ih parsed
    refine ⟨hunk :: hunks, .cons read rows reads, ?_, ahead, placed, old, new, ?_⟩
    · rw [all, added, List.append_assoc]
      rfl
    · rw [← oldCursor, ← newCursor]
      exact chained

theorem terminated_of_endsWith {line : Str} (isLine : IsLine line) (ends : endsWith line '\n' = true) :
    Terminated '\n' line := by
  rcases isLine with terminated | ⟨-, absent⟩
  · exact terminated
  · simp only [endsWith, beq_iff_eq] at ends
    exact absurd (List.mem_of_getLast? ends) absent

/-- The text of a row is a line, and so are the lines after the row. -/
theorem nextRow_isLine {row text : Str} {sign : Char} {lines rest : List Str} (shape : IsLines '\n' (row :: lines))
    (read : nextRow row lines = .ok (sign, text, rest)) : IsLine text ∧ IsLines '\n' rest := by
  simp only [nextRow, bind_eq_ok, rowSign] at read
  obtain ⟨found, ⟨first, head, _, complete, same⟩, read⟩ := read
  cases same
  have head := require_eq_ok head
  have complete := reject_eq_ok complete
  simp only [Bool.or_eq_false_iff, Bool.not_eq_false', Bool.or_eq_true, beq_iff_eq] at complete
  obtain ⟨body, absent, equal⟩ := terminated_of_endsWith (isLine_of_mem shape row List.mem_cons_self) complete.2
  -- the sign is not the newline, so the row has text before its newline
  obtain ⟨rest', rfl⟩ : ∃ rest', body = found :: rest' := by
    cases body with
    | nil =>
      rw [equal, List.nil_append, List.head?_cons, Option.some.injEq] at head
      rcases complete.1 with (same | same) | same <;> rw [same] at head <;> cases head
    | cons c body =>
      rw [equal, List.cons_append, List.head?_cons, Option.some.injEq] at head
      exact ⟨body, by rw [head]⟩
  have tail : row.tail = rest' ++ ['\n'] := by rw [equal]; rfl
  have clean : '\n' ∉ rest' := fun member => absent (List.mem_cons_of_mem _ member)
  split_ifs at read with marked
  · simp only [unterminatedText, bind_eq_ok, tail] at read
    obtain ⟨stripped, ⟨found, strip, _, nonempty, same⟩, result⟩ := read
    cases same
    cases result
    have strip := require_eq_ok strip
    rw [stripSuffix_concat, Option.some.injEq] at strip
    subst strip
    have nonempty := reject_eq_ok nonempty
    constructor
    · exact .inr ⟨by simpa using nonempty, clean⟩
    · cases lines with
      | nil => exact shape.tail
      | cons line lines => exact shape.tail.tail
  · cases read
    exact ⟨.inl ⟨rest', clean, tail⟩, shape.tail⟩

theorem ReadsRows.isLine {lines rest : List Str} {rows : List PatchRow} (reads : ReadsRows lines rows rest)
    (shape : IsLines '\n' lines) : (∀ row ∈ rows, IsLine row.text) ∧ IsLines '\n' rest := by
  induction reads with
  | nil => exact ⟨by simp, shape⟩
  | cons read more ih =>
    obtain ⟨isLine, remaining⟩ := nextRow_isLine shape read
    obtain ⟨others, last⟩ := ih remaining
    refine ⟨?_, last⟩
    intro row member
    rcases List.mem_cons.mp member with rfl | member
    · exact isLine
    · exact others row member

theorem ReadsHunks.isLine {lines : List Str} {hunks : List DeclaredHunk} (reads : ReadsHunks lines hunks)
    (shape : IsLines '\n' lines) : ∀ hunk ∈ hunks, ∀ row ∈ hunk.rows, IsLine row.text := by
  induction reads with
  | nil => simp
  | cons read rows more ih =>
    obtain ⟨isLine, remaining⟩ := rows.isLine shape.tail
    intro hunk member
    rcases List.mem_cons.mp member with rfl | member
    · exact isLine
    · exact ih remaining hunk member

end Reading

/-! ## Applying a patch -/

section Applying

variable {source done : List Str}

/-- A line may be written after lines that are all complete. -/
theorem terminated_of_not_glued (shape : IsLines '\n' done) (free : glued done.flatten = false) :
    ∀ line ∈ done, Terminated '\n' line := by
  rcases List.eq_nil_or_concat done with rfl | ⟨init, last, rfl⟩
  · simp
  rw [List.concat_eq_append] at shape free ⊢
  have nonempty : last ≠ [] := shape.ne_nil last (by simp)
  have ends : endsWith last '\n' = true := by
    have same : (init ++ [last]).flatten.getLast? = last.getLast? := by
      rw [List.flatten_append, List.flatten_singleton, List.getLast?_append_of_ne_nil _ nonempty]
    rw [glued, endsWith, same] at free
    simpa [endsWith, nonempty] using free
  intro line member
  rcases List.mem_append.mp member with before | here
  · exact shape.terminated_left (by simp) line before
  · rw [List.mem_singleton.mp here]
    exact terminated_of_endsWith (isLine_of_mem shape last (by simp)) ends

/-- Lines that were written and lines that are left are lines. -/
theorem isLines_append_drop {cursor : ℕ} (shape : IsLines '\n' done) (left : IsLines '\n' source)
    (free : ¬(decide (cursor < source.length) && glued done.flatten) = true) :
    IsLines '\n' (done ++ source.drop cursor) := by
  by_cases inside : cursor < source.length
  · rw [decide_eq_true inside, Bool.true_and] at free
    exact isLines_append (terminated_of_not_glued shape (by simpa using free)) (left.drop cursor)
  · rw [List.drop_eq_nil_of_le (Nat.le_of_not_lt inside), List.append_nil]
    exact shape

theorem append_ok {out text result : Str} (success : append out text = .ok result) : result = out ++ text := by
  rw [append] at success
  split_ifs at success
  exact (Except.ok.inj success).symm

theorem foldlM_append_ok {lines : List Str} {out result : Str} (success : lines.foldlM append out = .ok result) :
    result = out ++ lines.flatten := by
  induction lines generalizing out with
  | nil =>
    cases success
    simp
  | cons line lines ih =>
    rw [List.foldlM_cons] at success
    obtain ⟨next, first, success⟩ := bind_eq_ok.mp success
    rw [ih success, append_ok first, List.flatten_cons, List.append_assoc]

/-- One row: what it says of the old side stands in the source, and what it says of the new side is written. -/
theorem applyRow_ok {cursor after : ℕ} {out : Str} {row : PatchRow} (isLine : IsLine row.text) (shape : IsLines '\n' done)
    (applied : applyRow source (cursor, done.flatten) row = .ok (after, out)) :
    (source.drop cursor).take (oldRows [row]).length = oldRows [row] ∧ after = cursor + (oldRows [row]).length ∧
      out = (done ++ newRows [row]).flatten ∧ IsLines '\n' (done ++ newRows [row]) ∧
      (cursor ≤ source.length → after ≤ source.length) := by
  have write : ∀ {cursor : ℕ}, (if glued done.flatten then .error .patchConflict
      else do
        let out ← append done.flatten row.text
        pure (cursor, out)) = Except.ok (after, out) →
      after = cursor ∧ out = (done ++ [row.text]).flatten ∧ IsLines '\n' (done ++ [row.text]) := by
    intro cursor written
    rw [ite_error_eq_ok] at written
    obtain ⟨free, written⟩ := written
    obtain ⟨result, appended, same⟩ := bind_eq_ok.mp written
    cases same
    refine ⟨rfl, ?_, isLines_append (terminated_of_not_glued shape (by simpa using free)) isLine⟩
    rw [append_ok appended]
    simp
  have found : source[cursor]? = some row.text →
      (source.drop cursor).take 1 = [row.text] ∧ (cursor ≤ source.length → cursor + 1 ≤ source.length) := by
    intro stands
    obtain ⟨bound, same⟩ := List.getElem?_eq_some_iff.mp stands
    rw [List.drop_eq_getElem_cons bound, same]
    exact ⟨rfl, fun _ => bound⟩
  unfold applyRow at applied
  dsimp only at applied
  by_cases inserted : row.sign = '+'
  · have kept : row.sign ≠ '-' := by rw [inserted]; decide
    rw [if_neg (by simpa using inserted), pure_bind, if_pos kept] at applied
    obtain ⟨rfl, written, lines⟩ := write applied
    have old : oldRows [row] = [] := by simp [oldRows, inserted]
    have new : newRows [row] = [row.text] := by simp [newRows, kept]
    rw [old, new]
    exact ⟨rfl, rfl, written, lines, id⟩
  · have old : oldRows [row] = [row.text] := by simp [oldRows, inserted]
    rw [if_pos inserted] at applied
    by_cases present : source[cursor]? = some row.text
    · obtain ⟨here, bound⟩ := found present
      rw [if_neg (by simpa using present), pure_bind] at applied
      rw [old]
      by_cases deleted : row.sign = '-'
      · have new : newRows [row] = [] := by simp [newRows, deleted]
        rw [if_neg (by simpa using deleted)] at applied
        cases applied
        rw [new, List.append_nil]
        exact ⟨here, rfl, rfl, shape, bound⟩
      · have new : newRows [row] = [row.text] := by simp [newRows, deleted]
        rw [if_pos deleted] at applied
        obtain ⟨rfl, written, lines⟩ := write applied
        rw [new]
        exact ⟨here, rfl, written, lines, bound⟩
    · rw [if_pos present] at applied
      cases applied

theorem take_add_of_take {cursor n m : ℕ} {front rear : List Str} (first : (source.drop cursor).take n = front)
    (second : (source.drop (cursor + n)).take m = rear) : (source.drop cursor).take (n + m) = front ++ rear := by
  rw [List.take_add, first, List.drop_drop, second]

theorem applyRows_ok {cursor after : ℕ} {out : Str} {rows : List PatchRow} (isLine : ∀ row ∈ rows, IsLine row.text)
    (shape : IsLines '\n' done) (applied : rows.foldlM (applyRow source) (cursor, done.flatten) = .ok (after, out)) :
    (source.drop cursor).take (oldRows rows).length = oldRows rows ∧ after = cursor + (oldRows rows).length ∧
      out = (done ++ newRows rows).flatten ∧ IsLines '\n' (done ++ newRows rows) ∧
      (cursor ≤ source.length → after ≤ source.length) := by
  induction rows generalizing cursor done with
  | nil =>
    cases applied
    refine ⟨rfl, rfl, ?_, ?_, id⟩
    · rw [newRows, List.filter_nil, List.map_nil, List.append_nil]
    · rw [newRows, List.filter_nil, List.map_nil, List.append_nil]
      exact shape
  | cons row rows ih =>
    rw [List.foldlM_cons] at applied
    obtain ⟨⟨next, written⟩, first, applied⟩ := bind_eq_ok.mp applied
    obtain ⟨old, rfl, rfl, lines, bound⟩ := applyRow_ok (isLine row List.mem_cons_self) shape first
    obtain ⟨olds, rfl, rfl, all, bounds⟩ := ih (fun other member => isLine other (List.mem_cons_of_mem _ member)) lines applied
    have oldSide : oldRows (row :: rows) = oldRows [row] ++ oldRows rows := by
      rw [oldRows_cons, oldRows_cons]
      simp [oldRows]
    have newSide : newRows (row :: rows) = newRows [row] ++ newRows rows := by
      rw [newRows_cons, newRows_cons]
      simp [newRows]
    rw [oldSide, newSide, List.length_append, ← List.append_assoc done]
    exact ⟨take_add_of_take old olds, Nat.add_assoc _ _ _, rfl, all, fun inside => bounds (bound inside)⟩

/-- What a hunk copies and writes. -/
theorem applyHunk_ok {cursor after : ℕ} {out : Str} {hunk : DeclaredHunk} (isLine : ∀ row ∈ hunk.rows, IsLine row.text)
    (sourceShape : IsLines '\n' source) (shape : IsLines '\n' done) (count : (oldRows hunk.rows).length = hunk.oldCount)
    (applied : applyHunk source (cursor, done.flatten) ⟨hunk.oldStart, hunk.rows⟩ = .ok (after, out)) :
    cursor ≤ hunk.oldStart ∧ hunk.oldStart ≤ source.length ∧ (source.drop hunk.oldStart).take hunk.oldCount = oldRows hunk.rows ∧
      after = hunk.oldStart + hunk.oldCount ∧ after ≤ source.length ∧
      out = (done ++ (source.drop cursor).take (hunk.oldStart - cursor) ++ newRows hunk.rows).flatten ∧
      IsLines '\n' (done ++ (source.drop cursor).take (hunk.oldStart - cursor) ++ newRows hunk.rows) := by
  simp only [applyHunk, bind_eq_ok] at applied
  obtain ⟨gap, range, applied⟩ := applied
  rw [ite_error_eq_ok] at applied
  obtain ⟨free, applied⟩ := applied
  obtain ⟨copied, appends, applied⟩ := bind_eq_ok.mp applied
  obtain ⟨ordered, inside, gapLines⟩ : cursor ≤ hunk.oldStart ∧ hunk.oldStart ≤ source.length ∧
      gap = (source.drop cursor).take (hunk.oldStart - cursor) := by
    cases found : getRange source cursor hunk.oldStart with
    | none =>
      rw [found] at range
      cases range
    | some middle =>
      rw [found] at range
      cases range
      obtain ⟨ordered, inside, same⟩ := getRange_eq_some found
      exact ⟨ordered, inside, same.trans (List.drop_take ..)⟩
  have gapShape : IsLines '\n' (done ++ gap) := by
    cases empty : gap.isEmpty with
    | true =>
      rw [List.isEmpty_iff.mp empty, List.append_nil]
      exact shape
    | false =>
      rw [empty] at free
      apply isLines_append (terminated_of_not_glued shape (by simpa using free))
      rw [gapLines]
      exact (sourceShape.drop cursor).take _
  have copy : copied = (done ++ gap).flatten := by
    rw [foldlM_append_ok appends, List.flatten_append]
  rw [copy] at applied
  obtain ⟨old, rfl, rfl, lines, bound⟩ := applyRows_ok isLine gapShape applied
  rw [count] at old bound ⊢
  rw [← gapLines]
  exact ⟨ordered, inside, old, rfl, bound inside, rfl, lines⟩

/-- A hunk stands in the source with its old rows and in the result with its new rows. -/
structure Stands (source result : List Str) (hunk : DeclaredHunk) : Prop where
  old : (source.drop hunk.oldStart).take hunk.oldCount = oldRows hunk.rows
  new : (result.drop hunk.newStart).take hunk.newCount = newRows hunk.rows

theorem foldlM_applyHunk_ok {cursor after newCursor : ℕ} {out : Str} {hunks : List DeclaredHunk}
    (isLine : ∀ hunk ∈ hunks, ∀ row ∈ hunk.rows, IsLine row.text) (sourceShape : IsLines '\n' source)
    (shape : IsLines '\n' done) (length : done.length = newCursor) (inside : cursor ≤ source.length)
    (chained : Chained cursor newCursor hunks)
    (applied : (hunks.map fun hunk => (⟨hunk.oldStart, hunk.rows⟩ : PatchHunk)).foldlM (applyHunk source)
      (cursor, done.flatten) = .ok (after, out)) :
    ∃ written, out = (done ++ written).flatten ∧ IsLines '\n' (done ++ written) ∧
      written ++ source.drop after = splice source cursor hunks ∧
      ∀ hunk ∈ hunks, ∀ more, Stands source (done ++ written ++ more) hunk := by
  induction hunks generalizing cursor newCursor done with
  | nil =>
    cases applied
    refine ⟨[], ?_, ?_, rfl, by simp⟩
    · rw [List.append_nil]
    · rw [List.append_nil]
      exact shape
  | cons hunk hunks ih =>
    obtain ⟨-, placed, oldCount, newCount, chained⟩ := chained
    rw [List.map_cons, List.foldlM_cons] at applied
    obtain ⟨⟨next, text⟩, first, applied⟩ := bind_eq_ok.mp applied
    obtain ⟨ordered, start, old, rfl, bound, rfl, lines⟩ :=
      applyHunk_ok (isLine hunk List.mem_cons_self) sourceShape shape oldCount first
    have gapLength : (done ++ (source.drop cursor).take (hunk.oldStart - cursor)).length = hunk.newStart := by
      rw [List.length_append, List.length_take, List.length_drop, length, placed]
      omega
    have doneLength : (done ++ (source.drop cursor).take (hunk.oldStart - cursor) ++ newRows hunk.rows).length =
        hunk.newStart + hunk.newCount := by
      rw [List.length_append, gapLength, newCount]
    obtain ⟨written, rfl, all, rest, stand⟩ := ih (fun other member => isLine other (List.mem_cons_of_mem _ member)) lines
      doneLength bound chained applied
    refine ⟨(source.drop cursor).take (hunk.oldStart - cursor) ++ newRows hunk.rows ++ written, ?_, ?_, ?_, ?_⟩
    · simp only [List.append_assoc]
    · simpa only [List.append_assoc] using all
    · rw [List.append_assoc, rest]
      rfl
    · intro other member more
      rcases List.mem_cons.mp member with rfl | member
      · constructor
        · exact old
        · rw [← gapLength, ← newCount]
          simp only [List.append_assoc]
          rw [← List.append_assoc done, List.drop_left, List.take_left]
      · have rest := stand other member more
        simpa only [List.append_assoc] using rest

end Applying

theorem skipPreamble_isLines {lines rest : List Str} (shape : IsLines '\n' lines) (skipped : skipPreamble lines = .ok rest) :
    IsLines '\n' rest := by
  unfold skipPreamble at skipped
  split at skipped
  · split_ifs at skipped
    · split at skipped
      · cases skipped
        split_ifs
        · exact shape.tail.tail
        · exact shape.tail
      · cases skipped
        trivial
    · cases skipped
      exact shape
  · cases skipped
    trivial

theorem fileHeader_isLines {pattern : Str} {lines rest : List Str} (shape : IsLines '\n' lines)
    (read : fileHeader pattern lines = .ok rest) : IsLines '\n' rest := by
  simp only [fileHeader, bind_eq_ok] at read
  obtain ⟨header, -, _, -, same⟩ := read
  cases same
  cases lines with
  | nil => trivial
  | cons line lines => exact shape.tail

/-- A patch that applies replaces the rows of its hunks at their declared places and keeps every other line. -/
theorem applyPatch_splice {target patch out : Str} (nonempty : patch ≠ []) (applied : applyPatch target patch = .ok out) :
    ∃ hunks, Declares patch hunks ∧ hunks ≠ [] ∧ Chained 0 0 hunks ∧ linesOf out = splice (linesOf target) 0 hunks ∧
      ∀ hunk ∈ hunks, Stands (linesOf target) (linesOf out) hunk := by
  simp only [applyPatch, bind_eq_ok, ite_error_eq_ok] at applied
  obtain ⟨_, -, -, applied⟩ := applied
  rw [if_neg (by simpa using nonempty)] at applied
  obtain ⟨hunks, parsed, applied⟩ := bind_eq_ok.mp applied
  obtain ⟨result, ran, applied⟩ := bind_eq_ok.mp applied
  obtain ⟨_, -, same⟩ := bind_eq_ok.mp applied
  cases same
  simp only [parsePatch, bind_eq_ok] at parsed
  obtain ⟨preamble, skipped, before, first, after, second, state, read, _, some, same⟩ := parsed
  cases same
  obtain ⟨declared, reads, all, chained⟩ := parseHunks_reads read
  rw [List.nil_append] at all
  have patchShape := fileHeader_isLines
    (fileHeader_isLines (skipPreamble_isLines (splitInclusive_isLines patch) skipped) first) second
  have sourceShape : IsLines '\n' (linesOf target) := splitInclusive_isLines target
  rw [applyHunks, all] at ran
  obtain ⟨⟨cursor, text⟩, folded, finished⟩ := bind_eq_ok.mp ran
  rw [ite_error_eq_ok] at finished
  obtain ⟨free, finished⟩ := finished
  obtain ⟨written, rfl, lines, spliced, stand⟩ := @foldlM_applyHunk_ok _ [] 0 cursor 0 text declared
    (reads.isLine patchShape) sourceShape trivial rfl (Nat.zero_le _) chained folded
  rw [List.nil_append] at lines finished free
  -- the result is made of the lines that were written and the lines that are left
  have result := isLines_append_drop lines sourceShape free
  have outLines : linesOf out = written ++ (linesOf target).drop cursor := by
    rw [foldlM_append_ok finished, ← List.flatten_append]
    exact splitInclusive_of_isLines result
  refine ⟨declared, ⟨preamble, before, after, skipped, first, second, reads⟩, ?_, chained, outLines.trans spliced, ?_⟩
  · have known := reject_eq_ok some
    rw [all] at known
    simpa using known
  · intro hunk member
    rw [outLines]
    exact stand hunk member _

/-- A patch that replaces the first line and adds a last line without its newline. -/
theorem applyPatch_splice_two_hunks :
    ∃ hunks, Declares "--- a\n+++ b\n@@ -1 +1 @@\n-x\n+y\n@@ -2,0 +3 @@\n+w\n\\ No newline at end of file\n".toList hunks ∧
      hunks ≠ [] ∧ Chained 0 0 hunks ∧
      linesOf "y\nz\nw".toList = splice (linesOf "x\nz\n".toList) 0 hunks ∧
      ∀ hunk ∈ hunks, Stands (linesOf "x\nz\n".toList) (linesOf "y\nz\nw".toList) hunk := by
  apply applyPatch_splice
  · decide
  · decide +kernel

end OpenLegal.TextDiff.Splice
