import OpenLegal.Theory.Marked
import OpenLegal.Widget.JsValue

/-! # The rows of a comparison

The widget reads the rows of a patch fragment, checks the changed ranges that come with it and shows each row in segments, on one
or on two sides. The ranges count Unicode scalars, the text is UTF-16.
-/

namespace OpenLegal.Widget

open Rust Rust.Str Theory

def maxTextBytes : ℕ := 1024 * 1024
def maxLineBytes : ℕ := 16 * 1024
def maxLines : ℕ := 100000

/-- A string of the source. -/
def units (literal : String) : JsString := encode literal.toList

/-! ## Fragments and their rows -/

/-- A range of scalars. -/
abbrev ScalarRange := ℕ × ℕ

structure InlineChange where
  rowIndex : ℕ
  ranges : List ScalarRange
deriving DecidableEq, Repr

structure Fragment where
  inlineChanges : List InlineChange
  patch : JsString
  beforeStart : ℕ
  beforeCount : ℕ
  afterStart : ℕ
  afterCount : ℕ
deriving DecidableEq, Repr

/-- The first character of a row: a space, a plus or a minus. -/
inductive RowKind where
  | context | added | removed
deriving DecidableEq, Repr

structure DiffRow where
  kind : RowKind
  text : JsString
  noFinalNewline : Bool
  before : Option ℕ
  after : Option ℕ
  ranges : List ScalarRange
deriving DecidableEq, Repr

/-- Every surrogate stands in a pair. -/
def wellFormed : JsString → Bool
  | [] => true
  | [unit] => !isHigh unit && !isLow unit
  | unit :: next :: rest =>
    if isHigh unit then isLow next && wellFormed rest else !isLow unit && wellFormed (next :: rest)

def validateText (value : JsString) : Except String Unit := do
  check (utf8Length value > maxTextBytes) "Each text must fit within 1 MiB of UTF-8."
  check (value.contains 0) "Text containing NUL is not supported."
  check (!wellFormed value) "Text must contain valid Unicode."
  let lines := value.splitOn 10
  check (lines.length - (if value.getLast? = some 10 || value.isEmpty then 1 else 0) > maxLines)
    "Each text may contain at most 100,000 lines."
  check (lines.any (utf8Length · > maxLineBytes)) "Each line must fit within 16 KiB of UTF-8."

/-- `\d+` and what follows. -/
def spanDigits (s : JsString) : Option (ℕ × JsString) :=
  let isDigit (unit : UInt16) := decide (0x30 ≤ unit.toNat ∧ unit.toNat ≤ 0x39)
  let digits := s.takeWhile isDigit
  if digits.isEmpty then none
  else some (digits.foldl (fun value unit => 10 * value + (unit.toNat - 0x30)) 0, s.dropWhile isDigit)

/-- What follows a literal. -/
def expect (literal s : JsString) : Option JsString := if literal.isPrefixOf s then some (s.drop literal.length) else none

/-- `/^@@ -(\d+),(\d+) \+(\d+),(\d+) @@$/` with the numbers of the groups. A number that a double cannot hold is too large for
every check that follows. -/
def hunkHeader (line : JsString) : Option (ℕ × ℕ × ℕ × ℕ) := do
  let (beforeStart, rest) ← (expect (units "@@ -") line).bind spanDigits
  let (beforeCount, rest) ← (expect (units ",") rest).bind spanDigits
  let (afterStart, rest) ← (expect (units " +") rest).bind spanDigits
  let (afterCount, rest) ← (expect (units ",") rest).bind spanDigits
  if rest = units " @@" then some (beforeStart, beforeCount, afterStart, afterCount) else none

def rowKind (unit : UInt16) : Option RowKind :=
  if unit = 0x20 then some .context else if unit = 0x2b then some .added else if unit = 0x2d then some .removed else none

/-- A row with its numbers on the two sides. -/
def newRow (kind : RowKind) (text : JsString) (noFinalNewline : Bool) (before after : ℕ) : DiffRow where
  kind := kind
  text := text
  noFinalNewline := noFinalNewline
  before := if kind = .added then none else some before
  after := if kind = .removed then none else some after
  ranges := []

/-- The loop over the lines after the header. The last line is not a row. -/
def rowLoop (maximumRows : ℕ) : List JsString → ℕ → ℕ → List DiffRow → Except String (ℕ × ℕ × List DiffRow)
  | line :: next :: lines, before, after, rows =>
    if rows.length ≥ maximumRows then .error unsupported
    else
      match line.head?.bind rowKind with
      | none => .error unsupported
      | some kind =>
        let noFinalNewline := next = units "\\ No newline at end of file"
        let text := line.tail ++ if noFinalNewline then [] else [10]
        match validateText text with
        | .error _ => .error unsupported
        | .ok () =>
          let before' := if kind = .added then before else before + 1
          let after' := if kind = .removed then after else after + 1
          let row := newRow kind text noFinalNewline before' after'
          if noFinalNewline then rowLoop maximumRows lines before' after' (rows ++ [row])
          else rowLoop maximumRows (next :: lines) before' after' (rows ++ [row])
  | _, before, after, rows => .ok (before, after, rows)

def patchRows (fragment : Fragment) (maximumRows : ℕ) : Except String (List DiffRow) := do
  let lines := fragment.patch.splitOn 10
  check (lines[0]? ≠ some (units "--- before") || lines[1]? ≠ some (units "+++ after") || lines.getLast? ≠ some []) unsupported
  check (lines[2]?.bind hunkHeader ≠ some (fragment.beforeStart, fragment.beforeCount, fragment.afterStart, fragment.afterCount))
    unsupported
  check (fragment.beforeStart + (fragment.beforeCount - 1) > maxLines || fragment.afterStart + (fragment.afterCount - 1) > maxLines ||
    (fragment.beforeCount > 0 && fragment.beforeStart = 0) || (fragment.afterCount > 0 && fragment.afterStart = 0)) unsupported
  let (before, after, rows) ← rowLoop maximumRows (lines.drop 3) 0 0 []
  check (rows.isEmpty || before ≠ fragment.beforeCount || after ≠ fragment.afterCount) unsupported
  pure rows

/-- The loop over the ranges of a row. It returns the number of ranges so far. -/
def rangeLoop (length : ℕ) : List ScalarRange → ℕ → ℕ → Except String ℕ
  | [], _, rangeCount => .ok rangeCount
  | (start, stop) :: ranges, previousEnd, rangeCount =>
    if start > maxSafeInteger || stop > maxSafeInteger || start < previousEnd || stop ≤ start || stop > length ||
      rangeCount + 1 > 4096 then .error unsupported
    else rangeLoop length ranges stop (rangeCount + 1)

/-- The loop over the annotated rows. -/
def changeLoop : List InlineChange → List DiffRow → Option ℕ → ℕ → Except String (List DiffRow)
  | [], rows, _, _ => .ok rows
  | entry :: entries, rows, previousRow, rangeCount =>
    match rows[entry.rowIndex]? with
    | none => .error unsupported
    | some row =>
      if entry.rowIndex > maxSafeInteger || previousRow.any (entry.rowIndex ≤ ·) || row.kind = .context then .error unsupported
      else
        match rangeLoop (codePoints row.text).length entry.ranges 0 rangeCount with
        | .error error => .error error
        | .ok rangeCount =>
          changeLoop entries (rows.set entry.rowIndex { row with ranges := entry.ranges }) (some entry.rowIndex) rangeCount

/-- The rows with their ranges. -/
def validateInlineChanges (fragment : Fragment) (rows : List DiffRow) : Except String (List DiffRow) := do
  let annotated ← changeLoop fragment.inlineChanges rows none 0
  check (fragment.inlineChanges.length ≠ (annotated.filter (·.kind ≠ .context)).length) unsupported
  pure annotated

def fragmentRows (fragment : Fragment) : Except String (List DiffRow) := do
  let rows ← patchRows fragment 400
  validateInlineChanges fragment rows

/-! ## Showing rows -/

structure Segment where
  text : JsString
  changed : Bool
deriving DecidableEq, Repr

/-- The loop over the ranges. -/
def segmentLoop (scalars : List JsString) : ℕ → List ScalarRange → List Segment
  | offset, [] => if offset < scalars.length then [⟨(scalars.drop offset).flatten, false⟩] else []
  | offset, (start, stop) :: ranges =>
    (if start > offset then [⟨(slice scalars offset start).flatten, false⟩] else []) ++
      ⟨(slice scalars start stop).flatten, true⟩ :: segmentLoop scalars stop ranges

def scalarSegments (text : JsString) (ranges : List ScalarRange) : List Segment :=
  segmentLoop ((codePoints text).map Prod.fst) 0 ranges

/-- A row of the view with two sides. -/
structure SplitRow where
  before : Option DiffRow
  after : Option DiffRow
deriving DecidableEq, Repr

/-- The inner loop: the removed and the added rows up to the next row that is not changed, and the rows from there. -/
def changedRun : List DiffRow → List DiffRow → List DiffRow → List DiffRow × List DiffRow × List DiffRow
  | [], before, after => (before, after, [])
  | row :: rows, before, after =>
    if row.kind = .context then (before, after, row :: rows)
    else if row.kind = .removed then changedRun rows (before ++ [row]) after
    else changedRun rows before (after ++ [row])

theorem changedRun_length_le (rows before after : List DiffRow) : (changedRun rows before after).2.2.length ≤ rows.length := by
  induction rows generalizing before after with
  | nil => exact le_refl _
  | cons row rows ih =>
    rw [changedRun]
    split
    · exact le_refl _
    · split
      · exact (ih _ _).trans (Nat.le_succ _)
      · exact (ih _ _).trans (Nat.le_succ _)

theorem changedRun_length_lt {row : DiffRow} (changed : row.kind ≠ .context) (rows : List DiffRow) :
    (changedRun (row :: rows) [] []).2.2.length < (row :: rows).length := by
  rw [changedRun, if_neg changed]
  split
  · exact Nat.lt_succ_of_le (changedRun_length_le _ _ _)
  · exact Nat.lt_succ_of_le (changedRun_length_le _ _ _)

def splitRows : List DiffRow → List SplitRow
  | [] => []
  | row :: rows =>
    if _context : row.kind = .context then ⟨some row, some row⟩ :: splitRows rows
    else
      let before := (changedRun (row :: rows) [] []).1
      let after := (changedRun (row :: rows) [] []).2.1
      (List.range (max before.length after.length)).map (fun offset => ⟨before[offset]?, after[offset]?⟩) ++
        splitRows (changedRun (row :: rows) [] []).2.2
termination_by rows => rows.length
decreasing_by
  · exact Nat.lt_succ_self _
  · exact changedRun_length_lt _context rows

/-! ## Well-formed text -/

theorem toNat_ofNatAux (n : ℕ) (valid : n.isValidChar) : (Char.ofNatAux n valid).toNat = n := rfl

/-- A surrogate pair is the encoding of a scalar. -/
theorem exists_encodeChar_pair {high low : UInt16} (first : isHigh high = true) (second : isLow low = true) :
    ∃ c, encodeChar c = [high, low] := by
  simp only [isHigh, isLow, Bool.and_eq_true, decide_eq_true_eq] at first second
  have valid : Nat.isValidChar (0x10000 + (high.toNat - 0xd800) * 0x400 + (low.toNat - 0xdc00)) := .inr (by omega)
  refine ⟨Char.ofNatAux _ valid, ?_⟩
  have point := toNat_ofNatAux _ valid
  have lead : UInt16.ofNat (0xd800 + ((Char.ofNatAux _ valid).toNat - 0x10000) / 0x400) = high := by
    apply UInt16.toNat_inj.mp
    rw [point, UInt16.toNat_ofNat_of_lt' (by show _ < 65536; omega)]
    omega
  have trail : UInt16.ofNat (0xdc00 + ((Char.ofNatAux _ valid).toNat - 0x10000) % 0x400) = low := by
    apply UInt16.toNat_inj.mp
    rw [point, UInt16.toNat_ofNat_of_lt' (by show _ < 65536; omega)]
    omega
  rw [encodeChar, if_neg (by omega), lead, trail]

theorem exists_encodeChar_unit {unit : UInt16} (first : isHigh unit = false) (second : isLow unit = false) :
    ∃ c, encodeChar c = [unit] := by
  simp only [isHigh, isLow, Bool.and_eq_false_iff, decide_eq_false_iff_not] at first second
  have small := unit.toNat_lt
  have valid : Nat.isValidChar unit.toNat := by
    rw [Nat.isValidChar]
    omega
  refine ⟨Char.ofNatAux _ valid, ?_⟩
  have point := toNat_ofNatAux _ valid
  rw [encodeChar, point, if_pos (by omega), UInt16.ofNat_toNat]

theorem exists_encode {text : JsString} (paired : wellFormed text = true) : ∃ s, text = encode s := by
  induction text using wellFormed.induct with
  | case1 => exact ⟨[], rfl⟩
  | case2 unit =>
    rw [wellFormed, Bool.and_eq_true, Bool.not_eq_true', Bool.not_eq_true'] at paired
    obtain ⟨c, unit⟩ := exists_encodeChar_unit paired.1 paired.2
    exact ⟨[c], by rw [encode, List.flatMap_singleton, unit]⟩
  | case3 unit next rest high ih =>
    rw [wellFormed, if_pos high, Bool.and_eq_true] at paired
    obtain ⟨s, rfl⟩ := ih paired.2
    obtain ⟨c, pair⟩ := exists_encodeChar_pair high paired.1
    exact ⟨c :: s, by rw [encode, encode, List.flatMap_cons, pair]; rfl⟩
  | case4 unit next rest high ih =>
    rw [wellFormed, if_neg high, Bool.and_eq_true, Bool.not_eq_true'] at paired
    obtain ⟨s, same⟩ := ih paired.2
    obtain ⟨c, single⟩ := exists_encodeChar_unit (Bool.eq_false_iff.mpr high) paired.1
    exact ⟨c :: s, by rw [encode, List.flatMap_cons, single, ← encode, ← same]; rfl⟩

theorem wellFormed_of_validateText {value : JsString} (valid : validateText value = .ok ()) : wellFormed value = true := by
  simp only [validateText, check, bind_eq_ok] at valid
  split_ifs at valid with _ _ paired <;> simp_all

/-! ## The checks of a row -/

/-- What the checks establish of a row: its text is well formed and its ranges are ordered positions of its scalars. -/
structure RowChecked (row : DiffRow) : Prop where
  text : wellFormed row.text = true
  ranges : Ordered (codePoints row.text).length 0 row.ranges

variable {rows checked : List DiffRow} {maximumRows : ℕ}

/-- One row is read, whatever the limit on the rows. -/
theorem rowLoop_step {line next : JsString} {lines : List JsString} {before after : ℕ} {result : ℕ × ℕ × List DiffRow}
    (looped : rowLoop maximumRows (line :: next :: lines) before after rows = .ok result) :
    rows.length < maximumRows ∧ ∃ row rest before' after', (∀ limit, rows.length < limit →
      rowLoop limit (line :: next :: lines) before after rows = rowLoop limit rest before' after' (rows ++ [row])) ∧
      RowChecked row ∧ rest.length < (line :: next :: lines).length := by
  rw [rowLoop, ite_error_eq_ok] at looped
  obtain ⟨room, looped⟩ := looped
  refine ⟨Nat.not_le.mp room, ?_⟩
  split at looped
  · cases looped
  next kind kinded =>
    cases valid : validateText (line.tail ++ if next = units "\\ No newline at end of file" then [] else [10]) with
    | error _ =>
      dsimp only at looped
      rw [valid] at looped
      cases looped
    | ok checked =>
      have paired := wellFormed_of_validateText valid
      let before' := if kind = .added then before else before + 1
      let after' := if kind = .removed then after else after + 1
      let row := newRow kind (line.tail ++ if next = units "\\ No newline at end of file" then [] else [10])
        (next = units "\\ No newline at end of file") before' after'
      by_cases marker : next = units "\\ No newline at end of file"
      · refine ⟨row, lines, before', after', fun limit more => ?_, ⟨paired, trivial⟩, by simp only [List.length_cons]; omega⟩
        rw [rowLoop, if_neg (by omega), kinded]
        dsimp only
        rw [valid]
        exact if_pos marker
      · refine ⟨row, next :: lines, before', after', fun limit more => ?_, ⟨paired, trivial⟩, by simp only [List.length_cons]; omega⟩
        rw [rowLoop, if_neg (by omega), kinded]
        dsimp only
        rw [valid]
        exact if_neg marker

theorem rowLoop_spec {lines : List JsString} {before after : ℕ} {result : ℕ × ℕ × List DiffRow} (known : ∀ row ∈ rows, RowChecked row)
    (looped : rowLoop maximumRows lines before after rows = .ok result) (within : rows.length ≤ maximumRows) :
    (∀ row ∈ result.2.2, RowChecked row) ∧ result.2.2.length ≤ maximumRows ∧
      ∀ limit, maximumRows ≤ limit → rowLoop limit lines before after rows = .ok result := by
  induction length : lines.length using Nat.strong_induction_on generalizing lines before after rows with
  | _ size ih =>
    match lines, looped with
    | [], looped => cases looped; exact ⟨known, within, fun _ _ => rfl⟩
    | [_], looped => cases looped; exact ⟨known, within, fun _ _ => rfl⟩
    | line :: next :: lines, looped =>
      obtain ⟨room, row, rest, before', after', same, checked, shorter⟩ := rowLoop_step looped
      have extended : ∀ other ∈ rows ++ [row], RowChecked other := by
        rw [List.forall_mem_append]
        exact ⟨known, List.forall_mem_singleton.mpr checked⟩
      rw [same maximumRows room] at looped
      obtain ⟨all, bound, again⟩ := ih rest.length (length ▸ shorter) extended looped (by rw [List.length_append]; exact room) rfl
      exact ⟨all, bound, fun limit more => (same limit (by omega)).trans (again limit more)⟩

theorem rangeLoop_spec {length previousEnd rangeCount count : ℕ} {ranges : List ScalarRange}
    (looped : rangeLoop length ranges previousEnd rangeCount = .ok count) : Ordered length previousEnd ranges := by
  induction ranges generalizing previousEnd rangeCount with
  | nil => trivial
  | cons range ranges ih =>
    rw [rangeLoop, ite_error_eq_ok] at looped
    obtain ⟨bounds, looped⟩ := looped
    simp only [Bool.or_eq_true, decide_eq_true_eq, not_or, Nat.not_lt, Nat.not_le] at bounds
    obtain ⟨⟨⟨⟨⟨-, -⟩, follows⟩, nonempty⟩, inside⟩, -⟩ := bounds
    exact ⟨follows, nonempty, inside, ih looped⟩

theorem changeLoop_spec {entries : List InlineChange} {previousRow : Option ℕ} {rangeCount : ℕ} (known : ∀ row ∈ rows, RowChecked row)
    (looped : changeLoop entries rows previousRow rangeCount = .ok checked) : ∀ row ∈ checked, RowChecked row := by
  induction entries generalizing rows previousRow rangeCount with
  | nil =>
    cases looped
    exact known
  | cons entry entries ih =>
    rw [changeLoop] at looped
    split at looped
    · cases looped
    next row found =>
      rw [ite_error_eq_ok] at looped
      obtain ⟨-, looped⟩ := looped
      split at looped
      · cases looped
      next ranged =>
        apply ih ?_ looped
        intro other member
        rcases List.mem_or_eq_of_mem_set member with member | rfl
        · exact known other member
        · exact ⟨(known row (List.mem_of_getElem? found)).text, rangeLoop_spec ranged⟩

/-- Rows that were read within a limit are checked, and read again within any larger one. -/
theorem patchRows_spec {fragment : Fragment} (read : patchRows fragment maximumRows = .ok rows) :
    (∀ row ∈ rows, RowChecked row) ∧ rows.length ≤ maximumRows ∧
      ∀ limit, maximumRows ≤ limit → patchRows fragment limit = .ok rows := by
  simp only [patchRows, bind_eq_ok, pure_eq_ok] at read ⊢
  obtain ⟨_, first, _, second, _, third, result, looped, _, fourth, same⟩ := read
  cases same
  obtain ⟨all, bound, again⟩ := rowLoop_spec (List.forall_mem_nil _) looped (Nat.zero_le _)
  exact ⟨all, bound, fun limit more => ⟨_, first, _, second, _, third, result, again limit more, _, fourth, rfl⟩⟩

theorem fragmentRows_spec {fragment : Fragment} (read : fragmentRows fragment = .ok checked) : ∀ row ∈ checked, RowChecked row := by
  simp only [fragmentRows, validateInlineChanges, bind_eq_ok] at read
  obtain ⟨rows, patched, annotated, looped, _, -, same⟩ := read
  cases same
  exact changeLoop_spec (patchRows_spec patched).1 looped

/-! ## Segments -/

/-- What is shown of a row: its whole text in pieces that are not empty, and every scalar marked as changed exactly when a range
covers it. -/
structure RowShown (row : DiffRow) (segments : List Segment) : Prop where
  whole : (segments.map (·.text)).flatten = row.text
  nonempty : ∀ segment ∈ segments, segment.text ≠ []
  exact : spread (segments.map fun segment => (codePoints segment.text, segment.changed)) =
    mark (codePoints row.text) (within row.ranges)

theorem cut_map {α β : Type*} (f : α → β) (xs : List α) (offset : ℕ) (ranges : List ScalarRange) :
    cut (xs.map f) offset ranges = (cut xs offset ranges).map fun piece => (piece.1.map f, piece.2) := by
  induction ranges generalizing offset with
  | nil =>
    rw [cut, cut, List.length_map]
    split
    · simp
    · rfl
  | cons range ranges ih =>
    rw [cut, cut, ih]
    split <;> simp [slice]

/-- The loop cuts the scalars and joins the pieces. -/
theorem segmentLoop_eq (scalars : List JsString) (offset : ℕ) (ranges : List ScalarRange) :
    segmentLoop scalars offset ranges = (cut scalars offset ranges).map fun piece => ⟨piece.1.flatten, piece.2⟩ := by
  induction ranges generalizing offset with
  | nil =>
    rw [segmentLoop, cut]
    split <;> rfl
  | cons range ranges ih =>
    rw [segmentLoop, cut, ih]
    split <;> rfl

theorem scalarSegments_encode (s : Str) (ranges : List ScalarRange) :
    scalarSegments (encode s) ranges = (cut s 0 ranges).map fun piece => ⟨encode piece.1, piece.2⟩ := by
  have scalars : (codePoints (encode s)).map Prod.fst = s.map encodeChar := by
    rw [codePoints_encode, List.map_map]
    rfl
  rw [scalarSegments, segmentLoop_eq, scalars, cut_map, List.map_map]
  rfl

theorem encode_flatten (pieces : List Str) : (pieces.map encode).flatten = encode pieces.flatten := by
  induction pieces with
  | nil => rfl
  | cons piece pieces ih => rw [List.map_cons, List.flatten_cons, List.flatten_cons, encode_append, ih]

theorem rowShown {row : DiffRow} (checked : RowChecked row) : RowShown row (scalarSegments row.text row.ranges) := by
  obtain ⟨s, same⟩ := exists_encode checked.text
  have ordered := checked.ranges
  have length : (codePoints row.text).length = s.length := by rw [same, codePoints_encode, List.length_map]
  have segments := scalarSegments_encode s row.ranges
  rw [← same] at segments
  rw [segments]
  constructor
  · have pieces := spread_cut (length ▸ ordered) fun i _ => rfl
    rw [List.map_map]
    calc ((cut s 0 row.ranges).map fun piece => encode piece.1).flatten
        = (((cut s 0 row.ranges).map Prod.fst).map encode).flatten := by rw [List.map_map]; rfl
      _ = encode s := by rw [encode_flatten, ← map_fst_spread, pieces, List.drop_zero, map_fst_mark]
      _ = row.text := same.symm
  · rw [List.forall_mem_map]
    intro piece member empty
    exact cut_nonempty (length ▸ ordered) piece member (encode_injective empty)
  · rw [List.map_map]
    calc spread ((cut s 0 row.ranges).map fun piece => (codePoints (encode piece.1), piece.2))
        = spread (cut (codePoints row.text) 0 row.ranges) := by rw [same, codePoints_encode, cut_map]; simp only [codePoints_encode]
      _ = mark (codePoints row.text) (within row.ranges) := spread_cut ordered fun _ _ => rfl

/-! ## Two sides -/

/-- What is shown of rows on two sides: on each side its own rows and the unchanged ones in order, nothing else, and no empty pair.
An unchanged row stands on both sides of one pair. -/
structure SplitShown (rows : List DiffRow) (split : List SplitRow) : Prop where
  before : split.filterMap (·.before) = rows.filter (·.kind ≠ .added)
  after : split.filterMap (·.after) = rows.filter (·.kind ≠ .removed)
  inhabited : ∀ pair ∈ split, pair.before.isSome ∨ pair.after.isSome
  context : ∀ pair ∈ split, ∀ row : DiffRow, row.kind = .context → (pair.before = some row ↔ pair.after = some row)

theorem changedRun_spec (rows before after : List DiffRow) : ∃ run, (∀ row ∈ run, row.kind ≠ .context) ∧
    rows = run ++ (changedRun rows before after).2.2 ∧
    (changedRun rows before after).1 = before ++ run.filter (·.kind ≠ .added) ∧
    (changedRun rows before after).2.1 = after ++ run.filter (·.kind ≠ .removed) := by
  induction rows generalizing before after with
  | nil => exact ⟨[], by simp [changedRun]⟩
  | cons row rows ih =>
    rw [changedRun]
    split
    · exact ⟨[], by simp⟩
    next changed =>
      split
      · next removed =>
        obtain ⟨run, all, whole, left, right⟩ := ih (before ++ [row]) after
        refine ⟨row :: run, List.forall_mem_cons.mpr ⟨changed, all⟩, congrArg (row :: ·) whole, ?_, ?_⟩
        · rw [left]
          simp [removed]
        · rw [right]
          simp [removed]
      · next added =>
        obtain ⟨run, all, whole, left, right⟩ := ih before (after ++ [row])
        have kind : row.kind = .added := by
          cases known : row.kind with
          | context => exact absurd known changed
          | removed => exact absurd known added
          | added => rfl
        refine ⟨row :: run, List.forall_mem_cons.mpr ⟨changed, all⟩, congrArg (row :: ·) whole, ?_, ?_⟩
        · rw [left]
          simp [kind]
        · rw [right]
          simp [kind]

/-- The pairs of a run are its two sides. -/
theorem pairs_shown {run before after : List DiffRow} (changed : ∀ row ∈ run, row.kind ≠ .context)
    (left : before = run.filter (·.kind ≠ .added)) (right : after = run.filter (·.kind ≠ .removed)) :
    SplitShown run ((List.range (max before.length after.length)).map fun offset => ⟨before[offset]?, after[offset]?⟩) := by
  have pairs : (List.range (max before.length after.length)).map (fun offset => (⟨before[offset]?, after[offset]?⟩ : SplitRow)) =
      (sideBySide before after).map fun pair => ⟨pair.1, pair.2⟩ := by
    rw [sideBySide, List.map_map]
    rfl
  rw [pairs]
  constructor
  · rw [List.filterMap_map, ← left]
    exact sideBySide_fst
  · rw [List.filterMap_map, ← right]
    exact sideBySide_snd
  · rw [List.forall_mem_map]
    intro pair member
    exact sideBySide_some member
  · rw [List.forall_mem_map]
    intro pair member row context
    have absent : row ∉ run := fun inside => changed row inside context
    constructor
    · intro shown
      have inside : row ∈ (sideBySide before after).filterMap Prod.fst := List.mem_filterMap.mpr ⟨pair, member, shown⟩
      rw [sideBySide_fst, left] at inside
      exact absurd (List.mem_of_mem_filter inside) absent
    · intro shown
      have inside : row ∈ (sideBySide before after).filterMap Prod.snd := List.mem_filterMap.mpr ⟨pair, member, shown⟩
      rw [sideBySide_snd, right] at inside
      exact absurd (List.mem_of_mem_filter inside) absent

theorem SplitShown.append {front back : List DiffRow} {split other : List SplitRow} (first : SplitShown front split)
    (second : SplitShown back other) : SplitShown (front ++ back) (split ++ other) where
  before := by rw [List.filterMap_append, List.filter_append, first.before, second.before]
  after := by rw [List.filterMap_append, List.filter_append, first.after, second.after]
  inhabited := List.forall_mem_append.mpr ⟨first.inhabited, second.inhabited⟩
  context := List.forall_mem_append.mpr ⟨first.context, second.context⟩

theorem splitShown (rows : List DiffRow) : SplitShown rows (splitRows rows) := by
  induction rows using splitRows.induct with
  | case1 => rw [splitRows]; exact ⟨rfl, rfl, by simp, by simp⟩
  | case2 row rows context ih =>
    rw [splitRows, dif_pos context]
    have single : SplitShown [row] [⟨some row, some row⟩] :=
      ⟨by simp [context], by simp [context], by simp, by simp⟩
    exact single.append ih
  | case3 row rows changed ih =>
    rw [splitRows, dif_neg changed]
    obtain ⟨run, all, whole, left, right⟩ := changedRun_spec (row :: rows) [] []
    have shown := (pairs_shown all (left.trans (List.nil_append _)) (right.trans (List.nil_append _))).append ih
    rw [← whole] at shown
    exact shown

end OpenLegal.Widget
