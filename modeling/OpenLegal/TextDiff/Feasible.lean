import OpenLegal.TextDiff.RoundTrip
import OpenLegal.TextDiff.Splice

/-! # Patches that can apply

A patch declares its old and its new rows and leaves the lines between its hunks open. The shortest text that it can
apply to has empty lines there, and a patch applies to some text exactly if it applies to this one. Parsing checks that
no new row follows a line without its newline, and does not check the same of the old rows.
-/

namespace OpenLegal.TextDiff.Feasible

open Rust Rust.Str Theory Theory.Script Patch Written Splice RoundTrip

/-! ## The two sides of a patch -/

/-- As many empty lines. -/
def emptyLines (n : ℕ) : List Str := List.replicate n ['\n']

/-- The old rows from a line on, with empty lines between the hunks. -/
def oldSide (cursor : ℕ) : List DeclaredHunk → List Str
  | [] => []
  | hunk :: hunks =>
    emptyLines (hunk.oldStart - cursor) ++ oldRows hunk.rows ++ oldSide (hunk.oldStart + hunk.oldCount) hunks

/-- The new rows with the same empty lines. -/
def newSide (cursor : ℕ) : List DeclaredHunk → List Str
  | [] => []
  | hunk :: hunks =>
    emptyLines (hunk.oldStart - cursor) ++ newRows hunk.rows ++ newSide (hunk.oldStart + hunk.oldCount) hunks

/-- The patch is within the limits of patches, only the last of its old rows lacks its newline, and both of its sides
are within the limits of texts. -/
structure Applicable (patch : Str) (hunks : List DeclaredHunk) : Prop where
  short : byteLen patch ≤ maxPatch
  noNul : '\x00' ∉ patch
  oldLines : IsLines '\n' (oldSide 0 hunks)
  old : ValidText (oldSide 0 hunks).flatten
  new : ValidText (newSide 0 hunks).flatten

theorem emptyLines_terminated (n : ℕ) : ∀ line ∈ emptyLines n, Terminated '\n' line := by
  intro line member
  rw [List.eq_of_mem_replicate member]
  exact ⟨[], by simp, rfl⟩

/-! ## A patch declares one list of hunks -/

theorem nextRow_sign {row text : Str} {sign : Char} {lines rest : List Str}
    (read : nextRow row lines = .ok (sign, text, rest)) :
    row.head? = some sign ∧ (sign = ' ' ∨ sign = '-' ∨ sign = '+') := by
  obtain ⟨found, signed, read⟩ := bind_eq_ok.mp read
  have same : sign = found := by
    split_ifs at read
    · obtain ⟨_, -, result⟩ := bind_eq_ok.mp read
      cases result
      rfl
    · cases read
      rfl
  obtain ⟨first, head, signed⟩ := bind_eq_ok.mp signed
  obtain ⟨_, known, result⟩ := bind_eq_ok.mp signed
  cases result
  have known := reject_eq_ok known
  simp only [Bool.or_eq_false_iff, Bool.not_eq_false', Bool.or_eq_true, beq_iff_eq] at known
  rw [same]
  exact ⟨require_eq_ok head, or_assoc.mp known.1⟩

/-- No line is a row and the header of a hunk. -/
theorem parseHeader_row {row text : Str} {sign : Char} {lines rest : List Str} {coordinates : (ℕ × ℕ) × (ℕ × ℕ)}
    (read : nextRow row lines = .ok (sign, text, rest)) : parseHeader row ≠ .ok coordinates := by
  intro header
  obtain ⟨head, signs⟩ := nextRow_sign read
  obtain ⟨inner, begins, -⟩ := bind_eq_ok.mp header
  rw [stripPrefix_eq_some (require_eq_ok begins), List.head?_append] at head
  have same : '@' = sign := Option.some.inj head
  rcases signs with rfl | rfl | rfl <;> exact absurd same (by decide)

/-- No row begins here. -/
def RowsEnd (lines : List Str) : Prop :=
  ∀ row rest sign text last, lines = row :: rest → nextRow row rest ≠ .ok (sign, text, last)

theorem rowsEnd_of_readsHunks {lines : List Str} {hunks : List DeclaredHunk} (reads : ReadsHunks lines hunks) :
    RowsEnd lines := by
  intro row rest sign text last same read
  cases reads with
  | nil => cases same
  | cons header rows more =>
    cases same
    exact parseHeader_row read header

theorem readsRows_unique {lines rest rest' : List Str} {rows rows' : List PatchRow} (reads : ReadsRows lines rows rest)
    (reads' : ReadsRows lines rows' rest') (ends : RowsEnd rest) (ends' : RowsEnd rest') : rows = rows' ∧ rest = rest' := by
  induction reads generalizing rows' with
  | nil lines =>
    cases reads' with
    | nil => exact ⟨rfl, rfl⟩
    | cons read more => exact absurd read (ends _ _ _ _ _ rfl)
  | cons read more ih =>
    cases reads' with
    | nil => exact absurd read (ends' _ _ _ _ _ rfl)
    | cons read' more' =>
      have same := read.symm.trans read'
      cases same
      obtain ⟨rfl, rfl⟩ := ih more' ends
      exact ⟨rfl, rfl⟩

theorem readsHunks_unique {lines : List Str} {hunks hunks' : List DeclaredHunk} (reads : ReadsHunks lines hunks)
    (reads' : ReadsHunks lines hunks') : hunks = hunks' := by
  induction reads generalizing hunks' with
  | nil =>
    cases reads'
    rfl
  | @cons header lines rest hunk hunks read rows more ih =>
    cases reads' with
    | @cons _ _ _ hunk' hunks' read' rows' more' =>
      obtain ⟨sameRows, rfl⟩ := readsRows_unique rows rows' (rowsEnd_of_readsHunks more) (rowsEnd_of_readsHunks more')
      have same := read.symm.trans read'
      rw [ih more']
      cases hunk
      cases hunk'
      cases same
      cases sameRows
      rfl

theorem declares_unique {patch : Str} {hunks hunks' : List DeclaredHunk} (declares : Declares patch hunks)
    (declares' : Declares patch hunks') : hunks = hunks' := by
  obtain ⟨preamble, before, after, skipped, first, second, reads⟩ := declares
  obtain ⟨preamble', before', after', skipped', first', second', reads'⟩ := declares'
  cases skipped.symm.trans skipped'
  cases first.symm.trans first'
  cases second.symm.trans second'
  exact readsHunks_unique reads reads'

/-! ## What parsing ensures -/

/-- Lines of the new side, with the flag whether the last one lacks its newline. -/
structure Complete (done : List Str) (unterminated : Bool) : Prop where
  shape : IsLines '\n' done
  free : unterminated = false → ∀ line ∈ done, Terminated '\n' line

theorem Complete.append_line {line : Str} {done : List Str} (complete : Complete done false) (isLine : IsLine line) :
    Complete (done ++ [line]) (!endsWith line '\n') := by
  have terminated := complete.free rfl
  constructor
  · exact isLines_append terminated isLine
  · intro ends other member
    rcases List.mem_append.mp member with before | here
    · exact terminated other before
    · rw [List.mem_singleton.mp here]
      exact terminated_of_endsWith isLine (by simpa using ends)

theorem Complete.append_emptyLines {done : List Str} {unterminated : Bool} (complete : Complete done unterminated) (n : ℕ)
    (free : ¬(0 < n ∧ unterminated = true)) : Complete (done ++ emptyLines n) unterminated := by
  rcases Nat.eq_zero_or_pos n with rfl | more
  · rw [emptyLines, List.replicate_zero, List.append_nil]
    exact complete
  · have ended : unterminated = false := by simpa [more] using free
    have terminated := List.forall_mem_append.mpr ⟨complete.free ended, emptyLines_terminated n⟩
    exact ⟨isLines_of_terminated terminated, fun _ => terminated⟩

/-- A new row is accepted behind complete lines only. -/
theorem acceptRow_complete {oldCount newCount : ℕ} {sign : Char} {text : Str} {state next : RowState} {done : List Str}
    (isLine : IsLine text) (complete : Complete done state.unterminated)
    (accepted : acceptRow oldCount newCount sign text state = .ok next) :
    Complete (done ++ newRows [⟨sign, text⟩]) next.unterminated := by
  have write : ∀ {consumed : ℕ}, (do
      reject (state.produced ≥ newCount || state.unterminated)
      pure { consumed, produced := state.produced + 1, changed := state.changed || sign ≠ ' ',
             rows := state.rows ++ [⟨sign, text⟩], unterminated := !endsWith text '\n',
             totalRows := state.totalRows + 1 }) = Except.ok next →
      Complete (done ++ [text]) next.unterminated := by
    intro consumed written
    obtain ⟨room, same⟩ := reject_bind_ok written
    cases same
    rw [(Bool.or_eq_false_iff.mp room).2] at complete
    exact complete.append_line isLine
  unfold acceptRow at accepted
  by_cases deleted : sign = '-'
  · subst deleted
    obtain ⟨-, same⟩ := reject_bind_ok accepted
    cases same
    have none : newRows [⟨'-', text⟩] = [] := rfl
    rw [none, List.append_nil]
    exact complete
  · have one : newRows [⟨sign, text⟩] = [text] := by simp [newRows, deleted]
    rw [one]
    by_cases inserted : sign = '+'
    · subst inserted
      exact write accepted
    · rw [if_pos inserted] at accepted
      obtain ⟨-, accepted⟩ := reject_bind_ok accepted
      rw [pure_bind] at accepted
      dsimp only at accepted
      rw [if_pos deleted] at accepted
      exact write accepted

theorem parseRows_complete {oldCount newCount : ℕ} {lines rest : List Str} {state final : RowState} {done : List Str}
    (shape : IsLines '\n' lines) (complete : Complete done state.unterminated)
    (parsed : parseRows oldCount newCount lines state = .ok (final, rest)) :
    ∃ rows, final.rows = state.rows ++ rows ∧ Complete (done ++ newRows rows) final.unterminated ∧ IsLines '\n' rest := by
  fun_induction parseRows oldCount newCount lines state generalizing done with
  | case1 | case2 | case3 => cases parsed
  | case4 state _ _ row lines sign text remaining read ih =>
    obtain ⟨next, accepted, parsed⟩ := bind_eq_ok.mp parsed
    obtain ⟨isLine, restShape⟩ := nextRow_isLine shape read
    have step := acceptRow_complete isLine complete accepted
    obtain ⟨rows, added, all, last⟩ := ih next restShape step parsed
    refine ⟨⟨sign, text⟩ :: rows, ?_, ?_, last⟩
    · rw [added, (acceptRow_ok accepted).1, List.append_assoc]
      rfl
    · have first : newRows (⟨sign, text⟩ :: rows) = newRows [⟨sign, text⟩] ++ newRows rows := by
        rw [newRows_cons, newRows_cons]
        simp [newRows]
      rw [first, ← List.append_assoc]
      exact all
  | case5 state lines =>
    cases parsed
    refine ⟨[], (List.append_nil _).symm, ?_, shape⟩
    rw [newRows, List.filter_nil, List.map_nil, List.append_nil]
    exact complete

theorem parseHunk_complete {header : Str} {lines rest : List Str} {state final : HunkState} {hunk : PatchHunk}
    {done : List Str} (shape : IsLines '\n' lines) (complete : Complete done state.unterminated)
    (parsed : parseHunk header lines state = .ok (final, rest)) (added : final.hunks = state.hunks ++ [hunk]) :
    Complete (done ++ emptyLines (hunk.oldStart - state.oldCursor) ++ newRows hunk.rows) final.unterminated ∧
      IsLines '\n' rest := by
  simp only [parseHunk, bind_eq_ok] at parsed
  obtain ⟨_, -, ⟨⟨oldStart, oldCount⟩, newStart, newCount⟩, -, _, -, _, placed, ⟨rows, remaining⟩, ran, _, -, same⟩ :=
    parsed
  cases same
  obtain rfl : ⟨oldStart, rows.rows⟩ = hunk := by simpa using List.append_cancel_left added
  have position := reject_eq_ok placed
  simp only [Bool.or_eq_false_iff, Bool.and_eq_false_iff, decide_eq_false_iff_not] at position
  have gap := complete.append_emptyLines (oldStart - state.oldCursor) (by
    rintro ⟨more, ended⟩
    rcases position.2 with none | ended'
    · exact none more
    · rw [ended] at ended'
      cases ended')
  obtain ⟨read, all, complete, last⟩ := parseRows_complete shape gap ran
  rw [List.nil_append] at all
  rw [all]
  exact ⟨complete, last⟩

theorem parseHunks_complete {lines : List Str} {state final : HunkState} {done : List Str} (shape : IsLines '\n' lines)
    (complete : Complete done state.unterminated) (parsed : parseHunks lines state = .ok final) :
    ∃ hunks : List DeclaredHunk, ReadsHunks lines hunks ∧
      final.hunks = state.hunks ++ hunks.map (fun hunk => ⟨hunk.oldStart, hunk.rows⟩) ∧
      Chained state.oldCursor state.newCursor hunks ∧ IsLines '\n' (done ++ newSide state.oldCursor hunks) := by
  fun_induction parseHunks lines state generalizing done with
  | case1 state =>
    cases parsed
    refine ⟨[], .nil, (List.append_nil _).symm, trivial, ?_⟩
    rw [newSide, List.append_nil]
    exact complete.shape
  | case2 => cases parsed
  | case3 state header lines next rest first ih =>
    obtain ⟨hunk, read, rows, added, ahead, placed, old, new, oldCursor, newCursor⟩ := parseHunk_reads first
    obtain ⟨complete, remaining⟩ := parseHunk_complete shape.tail complete first added
    obtain ⟨hunks, reads, all, chained, lines⟩ := ih remaining complete parsed
    refine ⟨hunk :: hunks, .cons read rows reads, ?_, ⟨ahead, placed, old, new, ?_⟩, ?_⟩
    · rw [all, added, List.append_assoc]
      rfl
    · rw [← oldCursor, ← newCursor]
      exact chained
    · rw [oldCursor] at lines
      simpa only [newSide, List.append_assoc] using lines

theorem parsePatch_complete {patch : Str} {parsed : List PatchHunk} (accepted : parsePatch patch = .ok parsed) :
    ∃ hunks : List DeclaredHunk, Declares patch hunks ∧ parsed = hunks.map (fun hunk => ⟨hunk.oldStart, hunk.rows⟩) ∧
      Chained 0 0 hunks ∧ IsLines '\n' (newSide 0 hunks) ∧ ∀ hunk ∈ hunks, ∀ row ∈ hunk.rows, IsLine row.text := by
  simp only [parsePatch, bind_eq_ok] at accepted
  obtain ⟨preamble, skipped, before, first, after, second, state, read, _, -, same⟩ := accepted
  cases same
  have shape := fileHeader_isLines
    (fileHeader_isLines (skipPreamble_isLines (splitInclusive_isLines patch) skipped) first) second
  obtain ⟨hunks, reads, all, chained, lines⟩ := @parseHunks_complete _ {} _ [] shape ⟨trivial, by simp⟩ read
  rw [List.nil_append] at all lines
  exact ⟨hunks, ⟨preamble, before, after, skipped, first, second, reads⟩, all, chained, lines, reads.isLine shape⟩

/-! ## The shortest text that a patch applies to -/

/-- The change that a row makes. -/
def tagOf (sign : Char) : ChangeTag :=
  if sign = '+' then .insert else if sign = '-' then .delete else .equal

def toRow (row : PatchRow) : ChangeTag × Str := (tagOf row.sign, row.text)

/-- The hunks with empty lines between them. -/
def toHunks (cursor : ℕ) : List DeclaredHunk → List (Hunk Str)
  | [] => []
  | hunk :: hunks =>
    ⟨emptyLines (hunk.oldStart - cursor), hunk.rows.map toRow⟩ :: toHunks (hunk.oldStart + hunk.oldCount) hunks

theorem source_toRow (rows : List PatchRow) : source (rows.map toRow) = oldRows rows := by
  induction rows with
  | nil => rfl
  | cons row rows ih =>
    rw [oldRows_cons, List.map_cons, ← ih]
    by_cases inserted : row.sign = '+'
    · simp [toRow, tagOf, inserted]
    · by_cases deleted : row.sign = '-' <;> simp [toRow, tagOf, inserted, deleted]

theorem target_toRow (rows : List PatchRow) : target (rows.map toRow) = newRows rows := by
  induction rows with
  | nil => rfl
  | cons row rows ih =>
    rw [newRows_cons, List.map_cons, ← ih]
    by_cases inserted : row.sign = '+'
    · simp [toRow, tagOf, inserted]
    · by_cases deleted : row.sign = '-' <;> simp [toRow, tagOf, inserted, deleted]

theorem sourceOf_toHunks (cursor : ℕ) (hunks : List DeclaredHunk) :
    Hunk.sourceOf (toHunks cursor hunks) [] = oldSide cursor hunks := by
  induction hunks generalizing cursor with
  | nil => rfl
  | cons hunk hunks ih => rw [toHunks, Hunk.sourceOf_cons, ih, source_toRow, oldSide]

theorem targetOf_toHunks (cursor : ℕ) (hunks : List DeclaredHunk) :
    Hunk.targetOf (toHunks cursor hunks) [] = newSide cursor hunks := by
  induction hunks generalizing cursor with
  | nil => rfl
  | cons hunk hunks ih => rw [toHunks, Hunk.targetOf_cons, ih, target_toRow, newSide]

theorem toPatchRow_toRow {row : PatchRow} (known : row.sign = ' ' ∨ row.sign = '-' ∨ row.sign = '+') :
    toPatchRow (toRow row) = row := by
  obtain ⟨sign, text⟩ := row
  rcases known with rfl | rfl | rfl <;> rfl

theorem map_toPatchRow_toRow {lines rest : List Str} {rows : List PatchRow} (reads : ReadsRows lines rows rest) :
    (rows.map toRow).map toPatchRow = rows := by
  induction reads with
  | nil => rfl
  | cons read more ih => rw [List.map_cons, List.map_cons, ih, toPatchRow_toRow (nextRow_sign read).2]

theorem toPatchHunks_toHunks {lines : List Str} {cursor newCursor : ℕ} {hunks : List DeclaredHunk}
    (reads : ReadsHunks lines hunks) (chained : Chained cursor newCursor hunks) :
    toPatchHunks cursor (toHunks cursor hunks) = hunks.map fun hunk => ⟨hunk.oldStart, hunk.rows⟩ := by
  induction reads generalizing cursor newCursor with
  | nil => rfl
  | @cons header lines rest hunk hunks read rows more ih =>
    obtain ⟨ahead, -, count, -, chained⟩ := chained
    have start : cursor + (emptyLines (hunk.oldStart - cursor)).length = hunk.oldStart := by
      rw [emptyLines, List.length_replicate]
      omega
    rw [toHunks, toPatchHunks, List.map_cons]
    dsimp only
    rw [start, map_toPatchRow_toRow rows, source_toRow, count, ih chained]

theorem parsePatch_nil {parsed : List PatchHunk} : parsePatch [] ≠ .ok parsed := by
  intro accepted
  obtain ⟨lines, skipped, accepted⟩ := bind_eq_ok.mp accepted
  cases skipped
  cases accepted

/-- A patch within the limits applies to its old side, which becomes the new side. -/
theorem applyPatch_oldSide {patch : Str} {hunks : List DeclaredHunk} {parsed : List PatchHunk}
    (accepted : parsePatch patch = .ok parsed) (declares : Declares patch hunks) (applicable : Applicable patch hunks) :
    applyPatch (oldSide 0 hunks).flatten patch = .ok (newSide 0 hunks).flatten := by
  obtain ⟨hunks', declares', rfl, chained, newLines, -⟩ := parsePatch_complete accepted
  obtain rfl := declares_unique declares declares'
  obtain ⟨_, _, _, -, -, -, reads⟩ := declares
  have applied : applyHunks (oldSide 0 hunks) (hunks.map fun hunk => ⟨hunk.oldStart, hunk.rows⟩) =
      .ok (newSide 0 hunks).flatten := by
    rw [← toPatchHunks_toHunks reads chained, ← sourceOf_toHunks]
    apply applyHunks_toPatchHunks applicable.new
    rw [targetOf_toHunks]
    exact splitInclusive_of_isLines newLines
  have nonempty : patch.isEmpty = false := by
    cases patch with
    | nil => exact absurd accepted parsePatch_nil
    | cons => rfl
  have guard : (decide (byteLen patch > maxPatch) || patch.contains '\x00') = false := by
    simp [Nat.not_lt.mpr applicable.short, applicable.noNul]
  rw [applyPatch, validateText_ok applicable.old, ok_bind, guard, if_neg (by simp), nonempty, if_neg (by simp),
    accepted, ok_bind, linesOf, splitInclusive_of_isLines applicable.oldLines, applied, ok_bind, validateText_ok applicable.new, ok_bind, pure_eq_ok]

/-! ## Every text that a patch applies to -/

/-- The first line is the second one or empty. -/
def Below (line other : Str) : Prop := line = other ∨ line = ['\n']

theorem below_refl (lines : List Str) : List.Forall₂ Below lines lines :=
  List.forall₂_same.mpr fun _ _ => .inl rfl

theorem emptyLines_below (lines : List Str) : List.Forall₂ Below (emptyLines lines.length) lines := by
  induction lines with
  | nil => exact .nil
  | cons line lines ih => exact .cons (.inr rfl) ih

/-- A patch is applied to lines that its old side is below, and the new side is below what is written. -/
theorem foldlM_applyHunk_below {source done : List Str} {cursor after newCursor : ℕ} {out : Str}
    {hunks : List DeclaredHunk} (isLine : ∀ hunk ∈ hunks, ∀ row ∈ hunk.rows, IsLine row.text)
    (sourceShape : IsLines '\n' source) (shape : IsLines '\n' done) (chained : Chained cursor newCursor hunks)
    (applied : (hunks.map fun hunk => (⟨hunk.oldStart, hunk.rows⟩ : PatchHunk)).foldlM (applyHunk source)
      (cursor, done.flatten) = .ok (after, out)) :
    ∃ olds written, source.drop cursor = olds ++ source.drop after ∧ List.Forall₂ Below (oldSide cursor hunks) olds ∧
      List.Forall₂ Below (newSide cursor hunks) written ∧ out = (done ++ written).flatten ∧
      IsLines '\n' (done ++ written) := by
  induction hunks generalizing cursor newCursor done with
  | nil =>
    cases applied
    refine ⟨[], [], rfl, .nil, .nil, ?_, ?_⟩
    · rw [List.append_nil]
    · rw [List.append_nil]
      exact shape
  | cons hunk hunks ih =>
    obtain ⟨-, -, count, -, chained⟩ := chained
    rw [List.map_cons, List.foldlM_cons] at applied
    obtain ⟨⟨next, text⟩, first, applied⟩ := bind_eq_ok.mp applied
    obtain ⟨ordered, start, old, rfl, -, rfl, lines⟩ :=
      applyHunk_ok (isLine hunk List.mem_cons_self) sourceShape shape count first
    obtain ⟨olds, written, rest, oldBelow, newBelow, rfl, all⟩ :=
      ih (fun other member => isLine other (List.mem_cons_of_mem _ member)) lines chained applied
    -- the lines between the hunks stand on both sides
    have gap : List.Forall₂ Below (emptyLines (hunk.oldStart - cursor)) ((source.drop cursor).take (hunk.oldStart - cursor)) := by
      have length : ((source.drop cursor).take (hunk.oldStart - cursor)).length = hunk.oldStart - cursor := by
        rw [List.length_take, List.length_drop]
        omega
      have below := emptyLines_below ((source.drop cursor).take (hunk.oldStart - cursor))
      rw [length] at below
      exact below
    have split : source.drop cursor =
        (source.drop cursor).take (hunk.oldStart - cursor) ++ oldRows hunk.rows ++
          source.drop (hunk.oldStart + hunk.oldCount) := by
      have tail : source.drop hunk.oldStart = oldRows hunk.rows ++ source.drop (hunk.oldStart + hunk.oldCount) := by
        rw [← old, ← List.drop_drop, List.take_append_drop]
      have here : (source.drop cursor).drop (hunk.oldStart - cursor) = source.drop hunk.oldStart := by
        rw [List.drop_drop, Nat.add_sub_cancel' ordered]
      rw [List.append_assoc, ← tail, ← here, List.take_append_drop]
    refine ⟨(source.drop cursor).take (hunk.oldStart - cursor) ++ oldRows hunk.rows ++ olds,
      (source.drop cursor).take (hunk.oldStart - cursor) ++ newRows hunk.rows ++ written, ?_, ?_, ?_, ?_, ?_⟩
    · rw [List.append_assoc, ← rest]
      exact split
    · exact List.rel_append (List.rel_append gap (below_refl _)) oldBelow
    · exact List.rel_append (List.rel_append gap (below_refl _)) newBelow
    · simp only [List.append_assoc]
    · simpa only [List.append_assoc] using all

theorem isLines_below {lines others : List Str} (below : List.Forall₂ Below lines others) (shape : IsLines '\n' others) :
    IsLines '\n' lines := by
  have empty : Terminated '\n' ['\n'] := ⟨[], by simp, rfl⟩
  induction below with
  | nil => trivial
  | cons first more ih =>
    have tail := ih shape.tail
    cases more with
    | nil =>
      rcases first with rfl | rfl
      · exact shape
      · exact .inl empty
    | cons second more =>
      rcases first with rfl | rfl
      · exact ⟨shape.1, tail⟩
      · exact ⟨empty, tail⟩

theorem byteLen_below {lines others : List Str} (below : List.Forall₂ Below lines others) (shape : IsLines '\n' others) :
    byteLen lines.flatten ≤ byteLen others.flatten := by
  induction below with
  | nil => rfl
  | @cons line other lines others first more ih =>
    have tail := ih shape.tail
    have head : byteLen line ≤ byteLen other := by
      rcases first with rfl | rfl
      · rfl
      · have one : byteLen ['\n'] = 1 := rfl
        have some := List.length_pos_iff.mpr (shape.ne_nil other List.mem_cons_self)
        have bytes := length_le_byteLen other
        omega
    rw [List.flatten_cons, List.flatten_cons, byteLen_append, byteLen_append]
    omega

theorem mem_below {line : Str} {lines others : List Str} (below : List.Forall₂ Below lines others) (member : line ∈ lines) :
    line ∈ others ∨ line = ['\n'] := by
  induction below with
  | nil => cases member
  | cons first more ih =>
    rcases List.mem_cons.mp member with rfl | member
    · rcases first with rfl | rfl
      · exact .inl List.mem_cons_self
      · exact .inr rfl
    · exact (ih member).imp_left (List.mem_cons_of_mem _)

/-- Lines below the first lines of a text within the limits are a text within the limits. -/
theorem validText_below {lines others rest : List Str} (below : List.Forall₂ Below lines others)
    (shape : IsLines '\n' (others ++ rest)) (valid : ValidText (others ++ rest).flatten) :
    IsLines '\n' lines ∧ ValidText lines.flatten := by
  have front : IsLines '\n' others := by
    have front := shape.take others.length
    rwa [List.take_left] at front
  have all : linesOf (others ++ rest).flatten = others ++ rest := splitInclusive_of_isLines shape
  have isLines := isLines_below below front
  have same : linesOf lines.flatten = lines := splitInclusive_of_isLines isLines
  have bytes := byteLen_below below front
  refine ⟨isLines, ?_, ?_, ?_, ?_⟩
  · have limit := valid.bytes
    rw [List.flatten_append, byteLen_append] at limit
    omega
  · intro nul
    obtain ⟨line, present, member⟩ := List.mem_flatten.mp nul
    rcases mem_below below present with other | rfl
    · exact valid.noNul (List.mem_flatten.mpr ⟨line, List.mem_append_left _ other, member⟩)
    · revert member
      decide
  · have limit := valid.lines
    rw [all, List.length_append] at limit
    rw [same, below.length_eq]
    omega
  · intro line member
    rw [same] at member
    rcases mem_below below member with other | rfl
    · apply valid.shortLines
      rw [all]
      exact List.mem_append_left _ other
    · decide

theorem validText_of_validateText {text : Str} (accepted : validateText text = .ok ()) : ValidText text := by
  simp only [validateText] at accepted
  split_ifs at accepted with outer
  simp only [Bool.or_eq_true, decide_eq_true_eq, not_or, gt_iff_lt, Nat.not_lt, List.contains_iff_mem, List.any_eq_true,
    not_exists, not_and, Bool.not_eq_true] at outer
  exact ⟨outer.1.1.1, outer.1.1.2, outer.1.2, outer.2⟩

/-- The old side of a patch is below every text that it applies to, and its new side below the result. -/
theorem applicable_of_applyPatch {target patch out : Str} {parsed : List PatchHunk} (accepted : parsePatch patch = .ok parsed)
    (applied : applyPatch target patch = .ok out) : ∃ hunks, Declares patch hunks ∧ Applicable patch hunks := by
  obtain ⟨hunks, declares, rfl, chained, -, isLine⟩ := parsePatch_complete accepted
  simp only [applyPatch, bind_eq_ok, ite_error_eq_ok] at applied
  obtain ⟨_, validTarget, limits, applied⟩ := applied
  have validTarget := validText_of_validateText validTarget
  rw [if_neg (by rintro empty; rw [List.isEmpty_iff.mp empty] at accepted; exact parsePatch_nil accepted)] at applied
  obtain ⟨_, again, applied⟩ := bind_eq_ok.mp applied
  obtain rfl := Except.ok.inj (accepted.symm.trans again)
  obtain ⟨result, ran, applied⟩ := bind_eq_ok.mp applied
  obtain ⟨_, validOut, same⟩ := bind_eq_ok.mp applied
  cases same
  have validOut := validText_of_validateText validOut
  have sourceShape : IsLines '\n' (linesOf target) := splitInclusive_isLines target
  obtain ⟨⟨cursor, produced⟩, folded, finished⟩ := bind_eq_ok.mp ran
  rw [ite_error_eq_ok] at finished
  obtain ⟨free, finished⟩ := finished
  obtain ⟨olds, written, split, oldBelow, newBelow, rfl, lines⟩ :=
    @foldlM_applyHunk_below _ [] 0 cursor 0 produced hunks isLine sourceShape trivial chained folded
  rw [List.drop_zero] at split
  rw [List.nil_append] at lines finished free
  have result := isLines_append_drop lines sourceShape free
  rw [foldlM_append_ok finished, ← List.flatten_append] at validOut
  have text : target = (olds ++ (linesOf target).drop cursor).flatten := by
    rw [← split]
    exact (splitInclusive_flatten '\n' target).symm
  rw [split] at sourceShape
  rw [text] at validTarget
  obtain ⟨oldLines, old⟩ := validText_below oldBelow sourceShape validTarget
  obtain ⟨-, new⟩ := validText_below newBelow result validOut
  simp only [gt_iff_lt, Bool.or_eq_true, decide_eq_true_eq, List.contains_iff_mem, not_or, not_lt] at limits
  exact ⟨hunks, declares, limits.1, limits.2, oldLines, old, new⟩

/-- An accepted patch applies to some text exactly if its two sides are texts within the limits and only the last of
its old rows lacks its newline. -/
theorem applies_iff_applicable {patch : Str} {parsed : List PatchHunk} (accepted : parsePatch patch = .ok parsed) :
    (∃ target out, applyPatch target patch = .ok out) ↔ ∃ hunks, Declares patch hunks ∧ Applicable patch hunks := by
  constructor
  · rintro ⟨target, out, applied⟩
    exact applicable_of_applyPatch accepted applied
  · rintro ⟨hunks, declares, applicable⟩
    exact ⟨_, _, applyPatch_oldSide accepted declares applicable⟩

/-- A patch that appends a line behind the first. -/
theorem applies_iff_applicable_append :
    (∃ target out, applyPatch target "--- a\n+++ b\n@@ -1,0 +2 @@\n+x\n".toList = .ok out) ↔
      ∃ hunks, Declares "--- a\n+++ b\n@@ -1,0 +2 @@\n+x\n".toList hunks ∧
        Applicable "--- a\n+++ b\n@@ -1,0 +2 @@\n+x\n".toList hunks := by
  have accepted : parsePatch "--- a\n+++ b\n@@ -1,0 +2 @@\n+x\n".toList = .ok [⟨1, [⟨'+', ['x', '\n']⟩]⟩] := by
    decide +kernel
  exact applies_iff_applicable accepted

/-- A patch that deletes a line without its newline and then another line. -/
def deletesTwo : Str := "--- a\n+++ b\n@@ -1,2 +0,0 @@\n-a\n\\ No newline at end of file\n-b\n".toList

/-- The patch is accepted, is a conflict with the text of its old rows, and applies to no text. -/
theorem deletesTwo_not_applicable :
    parsePatch deletesTwo = .ok [⟨0, [⟨'-', ['a']⟩, ⟨'-', ['b', '\n']⟩]⟩] ∧
      applyPatch "ab\n".toList deletesTwo = .error .patchConflict ∧ ∀ target out, applyPatch target deletesTwo ≠ .ok out := by
  have accepted : parsePatch deletesTwo = .ok [⟨0, [⟨'-', ['a']⟩, ⟨'-', ['b', '\n']⟩]⟩] := by decide +kernel
  refine ⟨accepted, by decide +kernel, ?_⟩
  intro target out applied
  obtain ⟨hunks, declares, applicable⟩ := applicable_of_applyPatch accepted applied
  obtain ⟨hunks', declares', same, -⟩ := parsePatch_complete accepted
  obtain rfl := declares_unique declares declares'
  have oldLines := applicable.oldLines
  cases hunks with
  | nil => cases same
  | cons hunk hunks =>
    obtain ⟨first, rest⟩ := List.cons.inj same
    cases hunks with
    | cons => cases rest
    | nil =>
      obtain ⟨start, rows⟩ := PatchHunk.mk.inj first
      rw [oldSide, ← start, ← rows] at oldLines
      -- the first of the two old rows is not terminated
      obtain ⟨body, -, ends⟩ := oldLines.1
      cases body with
      | nil => cases ends
      | cons c body => cases body <;> cases ends

end OpenLegal.TextDiff.Feasible
