import OpenLegal.TextDiff.Written

/-! # Applying a computed patch

The producer and the strict patch reader are written independently. Both are related to the same
hunks of a script between the two texts, and application of the hunks rebuilds the new side line by
line: a line is only ever written after complete lines, and the output never exceeds the new text.
-/

namespace OpenLegal.TextDiff.RoundTrip

open Rust Rust.Str Theory Theory.Script Patch Written

/-! ## Rebuilding the new side -/

section Apply

variable {done : List Str}

/-- A further line can always be written after complete lines. -/
theorem not_glued {more : List Str} (shape : IsLines '\n' (done ++ more)) (nonempty : more ≠ []) : glued done.flatten = false := by
  rcases endsWith_flatten_of_terminated (shape.terminated_left nonempty) with empty | ends
  · simp [glued, empty]
  · simp [glued, ends]

theorem append_line {line : Str} {more : List Str} (bytes : byteLen (done ++ line :: more).flatten ≤ maxTextBytes) :
    append done.flatten line = .ok (done ++ [line]).flatten := by
  have fits : ¬byteLen done.flatten + byteLen line > maxTextBytes := by
    simp only [List.flatten_append, List.flatten_cons, byteLen_append] at bytes
    omega
  simp [append, fits]

theorem foldlM_append_lines {gap : List Str} (more : List Str)
    (bytes : byteLen (done ++ gap ++ more).flatten ≤ maxTextBytes) :
    gap.foldlM append done.flatten = .ok (done ++ gap).flatten := by
  induction gap generalizing done with
  | nil => simp
  | cons line gap ih =>
    have bytes' : byteLen (done ++ line :: (gap ++ more)).flatten ≤ maxTextBytes := by simpa using bytes
    rw [List.foldlM_cons, append_line bytes', ok_bind, ih (by simpa using bytes)]
    simp

theorem applyRow_written {lines : List Str} {i : ℕ} {row : ChangeTag × Str} {more : List Str}
    (old : ∀ line ∈ source [row], lines[i]? = some line)
    (shape : IsLines '\n' (done ++ target [row] ++ more))
    (bytes : byteLen (done ++ target [row] ++ more).flatten ≤ maxTextBytes) :
    applyRow lines (i, done.flatten) (toPatchRow row) =
      .ok (i + (source [row]).length, (done ++ target [row]).flatten) := by
  rcases row with ⟨tag, text⟩
  cases tag with
  | delete =>
    have found := old text (by simp)
    simp [applyRow, toPatchRow, Compute.rowSign, found]
  | insert =>
    simp only [target_insert, target_nil, List.append_assoc, List.singleton_append] at shape bytes
    have free := not_glued shape (by simp)
    have written := append_line bytes
    simp [applyRow, toPatchRow, Compute.rowSign, free, written]
  | equal =>
    have found := old text (by simp)
    simp only [target_equal, target_nil, List.append_assoc, List.singleton_append] at shape bytes
    have free := not_glued shape (by simp)
    have written := append_line bytes
    simp [applyRow, toPatchRow, Compute.rowSign, found, free, written]

theorem applyRows_written (front rear : List Str) {rows : Script Str} {more : List Str}
    (shape : IsLines '\n' (done ++ target rows ++ more))
    (bytes : byteLen (done ++ target rows ++ more).flatten ≤ maxTextBytes) :
    (rows.map toPatchRow).foldlM (applyRow (front ++ source rows ++ rear)) (front.length, done.flatten) =
      .ok (front.length + (source rows).length, (done ++ target rows).flatten) := by
  induction rows generalizing front done with
  | nil => simp
  | cons row rows ih =>
    have oldSide : source (row :: rows) = source [row] ++ source rows := source_append [row] rows
    have newSide : target (row :: rows) = target [row] ++ target rows := target_append [row] rows
    have lines : front ++ source (row :: rows) ++ rear = front ++ source [row] ++ source rows ++ rear := by
      rw [oldSide, ← List.append_assoc front]
    have new : done ++ target (row :: rows) ++ more = done ++ target [row] ++ target rows ++ more := by
      rw [newSide, ← List.append_assoc done]
    rw [new] at shape bytes
    have old : ∀ line ∈ source [row], (front ++ source [row] ++ source rows ++ rear)[front.length]? = some line := by
      rcases row with ⟨tag, text⟩
      cases tag <;> simp
    have rest := ih (front ++ source [row]) shape bytes
    rw [List.append_assoc (done ++ target [row])] at shape bytes
    have step := applyRow_written old shape bytes
    rw [List.length_append] at rest
    rw [List.map_cons, List.foldlM_cons, lines, step, ok_bind, rest, oldSide, newSide, List.length_append,
      ← List.append_assoc done, Nat.add_assoc]

/-- Applying parsed hunks consumes the old side and writes the new one. -/
theorem applyHunks_written (front : List Str) {tail : List Str} {hunks : List (Hunk Str)}
    (shape : IsLines '\n' (done ++ Hunk.targetOf hunks tail))
    (bytes : byteLen (done ++ Hunk.targetOf hunks tail).flatten ≤ maxTextBytes) :
    (toPatchHunks front.length hunks).foldlM (applyHunk (front ++ Hunk.sourceOf hunks tail))
      (front.length, done.flatten) =
      .ok (front.length + (Hunk.sourceOf hunks []).length, (done ++ Hunk.targetOf hunks []).flatten) := by
  induction hunks generalizing front done with
  | nil => simp [toPatchHunks]
  | cons hunk hunks ih =>
    have lines : front ++ Hunk.sourceOf (hunk :: hunks) tail =
        front ++ hunk.gap ++ source hunk.rows ++ Hunk.sourceOf hunks tail := by simp
    have new : done ++ Hunk.targetOf (hunk :: hunks) tail =
        done ++ hunk.gap ++ target hunk.rows ++ Hunk.targetOf hunks tail := by simp
    rw [new] at shape bytes
    have gap : getRange (front ++ hunk.gap ++ source hunk.rows ++ Hunk.sourceOf hunks tail) front.length
        (front.length + hunk.gap.length) = some hunk.gap := by
      rw [List.append_assoc (front ++ hunk.gap)]
      exact getRange_append front hunk.gap _
    have free : (!hunk.gap.isEmpty && glued done.flatten) = false := by
      cases same : hunk.gap with
      | nil => rfl
      | cons line rest =>
        rw [same, List.append_assoc, List.append_assoc] at shape
        rw [not_glued shape (by simp), Bool.and_false]
    have rows := applyRows_written (front ++ hunk.gap) (Hunk.sourceOf hunks tail) shape bytes
    have rest := ih (front ++ hunk.gap ++ source hunk.rows) shape bytes
    rw [List.append_assoc (done ++ hunk.gap)] at bytes
    have copied := foldlM_append_lines _ bytes
    simp only [List.length_append] at rows rest
    rw [toPatchHunks, List.foldlM_cons, lines, applyHunk]
    dsimp only
    rw [gap, Option.elim_some, ok_bind, free, if_neg (by simp), copied, ok_bind, rows, ok_bind, rest]
    simp [Nat.add_assoc]

end Apply

theorem validateText_ok {text : Str} (valid : ValidText text) : validateText text = .ok () := by
  have bytes := valid.bytes
  have lines := valid.lines
  simp [validateText, valid.noNul, Nat.not_lt.mpr bytes, Nat.not_lt.mpr lines]
  exact valid.shortLines

theorem applyHunks_toPatchHunks {hunks : List (Hunk Str)} {tail : List Str} {after : Str} (valid : ValidText after)
    (new : linesOf after = Hunk.targetOf hunks tail) :
    applyHunks (Hunk.sourceOf hunks tail) (toPatchHunks 0 hunks) = .ok after := by
  have shape : IsLines '\n' (Hunk.targetOf hunks tail) := new ▸ splitInclusive_isLines after
  have text : (Hunk.targetOf hunks tail).flatten = after := by rw [← new, splitInclusive_flatten]
  have bytes : byteLen (Hunk.targetOf hunks tail).flatten ≤ maxTextBytes := by rw [text]; exact valid.bytes
  have applied := @applyHunks_written [] [] tail hunks shape bytes
  have oldSplit : Hunk.sourceOf hunks tail = Hunk.sourceOf hunks [] ++ tail := by simp [Hunk.sourceOf]
  have newSplit : Hunk.targetOf hunks tail = Hunk.targetOf hunks [] ++ tail := by simp [Hunk.targetOf]
  have free : (decide ((Hunk.sourceOf hunks []).length < (Hunk.sourceOf hunks tail).length) &&
      glued (Hunk.targetOf hunks []).flatten) = false := by
    by_cases empty : tail = []
    · simp [empty]
    · rw [newSplit] at shape
      rw [not_glued shape empty, Bool.and_false]
  have copied : tail.foldlM append (Hunk.targetOf hunks []).flatten = .ok (Hunk.targetOf hunks [] ++ tail).flatten :=
    foldlM_append_lines [] (by rwa [List.append_nil, ← newSplit])
  simp only [List.nil_append, List.length_nil, Nat.zero_add, List.flatten_nil] at applied
  rw [applyHunks, applied, ok_bind]
  dsimp only
  rw [free, if_neg (by simp), oldSplit, List.drop_left, copied, ← newSplit, text]

/-! ## The written patch as a text -/

theorem hunksLines_terminated {hunks : List (Hunk Str)} (lines : ∀ hunk ∈ hunks, ∀ row ∈ hunk.rows, IsLine row.2)
    (i j : ℕ) : ∀ line ∈ hunksLines i j hunks, Terminated '\n' line := by
  induction hunks generalizing i j with
  | nil => simp [hunksLines]
  | cons hunk hunks ih =>
    intro line member
    rcases List.mem_append.mp member with member | member
    · rcases List.mem_cons.mp member with rfl | member
      · exact hunkHeader_terminated ..
      · obtain ⟨row, present, member⟩ := List.mem_flatMap.mp member
        exact rowLines_terminated (lines hunk (by simp) row present) line member
    · exact ih (fun other member => lines other (List.mem_cons_of_mem _ member)) _ _ line member

theorem linesOf_patchLines {hunks : List (Hunk Str)} (lines : ∀ hunk ∈ hunks, ∀ row ∈ hunk.rows, IsLine row.2) :
    linesOf (patchLines hunks).flatten = patchLines hunks := by
  refine splitInclusive_of_isLines (isLines_of_terminated ?_)
  intro line member
  rcases List.mem_cons.mp member with rfl | member
  · exact beforeHeader_terminated
  rcases List.mem_cons.mp member with rfl | member
  · exact afterHeader_terminated
  · exact hunksLines_terminated lines 0 0 line member

theorem noNul_rowLines {row : ChangeTag × Str} (noNul : '\x00' ∉ row.2) : ∀ line ∈ rowLines row, '\x00' ∉ line := by
  have sign : '\x00' ≠ Compute.rowSign row.1 := by cases row.1 <;> decide
  have inMarker : '\x00' ∉ marker := by decide
  intro line member
  simp only [rowLines] at member
  split_ifs at member
  · obtain rfl := List.mem_singleton.mp member
    simp [sign, noNul]
  · rcases List.mem_cons.mp member with rfl | member
    · simp [sign, noNul]
    · rwa [List.mem_singleton.mp member]

theorem noNul_hunksLines {hunks : List (Hunk Str)} (noNul : ∀ hunk ∈ hunks, ∀ row ∈ hunk.rows, '\x00' ∉ row.2)
    (i j : ℕ) : ∀ line ∈ hunksLines i j hunks, '\x00' ∉ line := by
  induction hunks generalizing i j with
  | nil => simp [hunksLines]
  | cons hunk hunks ih =>
    intro line member
    rcases List.mem_append.mp member with member | member
    · rcases List.mem_cons.mp member with rfl | member
      · simp [Compute.hunkHeader, not_mem_coordinates (c := '\x00') (by decide) (by decide)]
      · obtain ⟨row, present, member⟩ := List.mem_flatMap.mp member
        exact noNul_rowLines (noNul hunk (by simp) row present) line member
    · exact ih (fun other member => noNul other (List.mem_cons_of_mem _ member)) _ _ line member

theorem noNul_patchLines {hunks : List (Hunk Str)} (noNul : ∀ hunk ∈ hunks, ∀ row ∈ hunk.rows, '\x00' ∉ row.2) :
    '\x00' ∉ (patchLines hunks).flatten := by
  intro member
  obtain ⟨line, present, member⟩ := List.mem_flatten.mp member
  revert member
  rcases List.mem_cons.mp present with rfl | present
  · decide
  rcases List.mem_cons.mp present with rfl | present
  · decide
  · exact noNul_hunksLines noNul 0 0 line present

/-- The two fixed headers are accepted and dropped. -/
theorem parsePatch_patchLines {hunks : List (Hunk Str)} {final : HunkState}
    (lines : linesOf (patchLines hunks).flatten = patchLines hunks)
    (parsed : parseHunks (hunksLines 0 0 hunks) {} = .ok final) (nonempty : final.hunks ≠ []) :
    parsePatch (patchLines hunks).flatten = .ok final.hunks := by
  have preamble : skipPreamble (patchLines hunks) = .ok (patchLines hunks) := by
    have other : ("diff --git ".toList.isPrefixOf beforeHeader) = false := by decide
    rw [patchLines, skipPreamble, other, if_neg (by simp)]
  have first : fileHeader "--- ".toList (patchLines hunks) = .ok (patchLines hunks).tail := rfl
  have second : fileHeader "+++ ".toList (patchLines hunks).tail = .ok (hunksLines 0 0 hunks) := rfl
  rw [parsePatch, lines, preamble, ok_bind, first, ok_bind, second, ok_bind, parsed, ok_bind,
    List.isEmpty_eq_false_iff.mpr nonempty, reject_false, ok_bind, pure_eq_ok]

/-! ## Diff then apply -/

/-- Hunks between two valid texts are few enough, and their rows are lines of these texts. -/
theorem hunks_bounds {before after : Str} (validBefore : ValidText before) (validAfter : ValidText after)
    {hunks : List (Hunk Str)} {tail : List Str} (old : linesOf before = Hunk.sourceOf hunks tail)
    (new : linesOf after = Hunk.targetOf hunks tail) (changes : ∀ hunk ∈ hunks, Changes hunk.rows)
    (separated : ∀ hunk ∈ hunks.tail, hunk.gap ≠ []) :
    hunks.length ≤ maxLines ∧ (hunks.map fun hunk => hunk.rows.length).sum ≤ maxPatchRows := by
  have oldLines := validBefore.lines
  have newLines := validAfter.lines
  rw [old] at oldLines
  rw [new] at newLines
  have rows := Hunk.rows_length_le hunks tail
  have limit : maxLines = 100000 := rfl
  refine ⟨?_, by simp only [maxPatchRows]; omega⟩
  cases hunks with
  | nil => simp
  | cons hunk hunks =>
    have few := Hunk.three_mul_length_le hunks tail (fun other member => changes other (by simp [member])) separated
    simp only [Hunk.sourceOf_cons, Hunk.targetOf_cons, List.length_append, List.length_cons] at oldLines newLines ⊢
    omega

theorem mem_of_row {before after : Str} {hunks : List (Hunk Str)} {tail : List Str}
    (old : linesOf before = Hunk.sourceOf hunks tail) (new : linesOf after = Hunk.targetOf hunks tail)
    {hunk : Hunk Str} (member : hunk ∈ hunks) {row : ChangeTag × Str} (shown : row ∈ hunk.rows) :
    row.2 ∈ linesOf before ∨ row.2 ∈ linesOf after := by
  rw [old, new]
  rcases mem_source_or_target shown with inOld | inNew
  · exact .inl (List.mem_append_left _ (List.mem_flatMap.mpr ⟨hunk, member, List.mem_append_right _ inOld⟩))
  · exact .inr (List.mem_append_left _ (List.mem_flatMap.mpr ⟨hunk, member, List.mem_append_right _ inNew⟩))

/-- Applying the patch of a computed diff to the old text gives the new text. -/
theorem applyPatch_compare {similar : Similar} (lawful : similar.Lawful) {before after : Str}
    {diff : ComputedDiff} (computed : Compute.compare similar before after = .ok diff) :
    applyPatch before diff.patch = .ok after := by
  simp only [Compute.compare, bind_eq_ok] at computed
  obtain ⟨_, beforeInfo, _, afterInfo, computed⟩ := computed
  have validBefore := validText_of_textInfo beforeInfo
  have validAfter := validText_of_textInfo afterInfo
  obtain ⟨hunks, tail, old, new, shows, separated⟩ := lawful.hunks (linesOf before) (linesOf after)
  have changes := showsAll_changes shows
  have count := showsAll_length shows
  split_ifs at computed with none
  · cases computed
    have empty : hunks = [] := by
      rw [List.isEmpty_iff.mp none] at count
      exact List.length_eq_zero_iff.mp count.symm
    subst empty
    have same : before = after := splitInclusive_injective (old.trans new.symm)
    rw [applyPatch, validateText_ok validBefore, ok_bind, same]
    rfl
  · obtain ⟨header, headerRan, patch, ran, ⟨inlineChanges, total⟩, -, same⟩ := by
      simpa only [bind_eq_ok] using computed
    cases same
    obtain ⟨rfl, headerBound⟩ := compute_append_ok headerRan
    obtain ⟨written, bound⟩ := appendGroups_ok shows headerBound ran
    have text : patch = (patchLines hunks).flatten := by rw [written]; rfl
    have lines : ∀ hunk ∈ hunks, ∀ row ∈ hunk.rows, IsLine row.2 := fun hunk member row shown =>
      (mem_of_row old new member shown).elim (isLine_of_mem (splitInclusive_isLines before) _)
        (isLine_of_mem (splitInclusive_isLines after) _)
    have noNul : ∀ hunk ∈ hunks, ∀ row ∈ hunk.rows, '\x00' ∉ row.2 := by
      intro hunk member row shown nul
      rcases mem_of_row old new member shown with inOld | inNew
      · exact validBefore.noNul (splitInclusive_flatten '\n' before ▸
          List.mem_flatten.mpr ⟨row.2, inOld, nul⟩)
      · exact validAfter.noNul (splitInclusive_flatten '\n' after ▸
          List.mem_flatten.mpr ⟨row.2, inNew, nul⟩)
    obtain ⟨few, room⟩ := hunks_bounds validBefore validAfter old new changes separated
    obtain ⟨final, parsed, parsedHunks⟩ := parseHunks_hunksLines tail {} changes lines
      (by rw [← old]; simpa using validBefore.lines) (by rw [← new]; simpa using validAfter.lines)
      (by simpa using few) (by simpa using room) (new ▸ splitInclusive_isLines after) (by simp)
    have nonempty : hunks ≠ [] := by
      rintro rfl
      exact none (List.isEmpty_iff.mpr (List.length_eq_zero_iff.mp count))
    have parsedNonempty : final.hunks ≠ [] := by
      obtain ⟨hunk, rest, rfl⟩ := List.exists_cons_of_ne_nil nonempty
      simp [parsedHunks, toPatchHunks]
    have parsedPatch := parsePatch_patchLines (linesOf_patchLines lines) parsed parsedNonempty
    have applied := applyHunks_toPatchHunks validAfter new
    have accepted : (decide (byteLen patch > maxPatch) || patch.contains '\x00') = false := by
      have short : byteLen patch ≤ maxPatch := bound
      have clean : '\x00' ∉ patch := text ▸ noNul_patchLines noNul
      simp [Nat.not_lt.mpr short, clean]
    have written : patch.isEmpty = false := by rw [text]; rfl
    simp only [List.nil_append] at parsedHunks
    rw [applyPatch, validateText_ok validBefore, ok_bind]
    dsimp only
    rw [accepted, if_neg (by simp), written, if_neg (by simp), text, parsedPatch, ok_bind, parsedHunks, old, applied,
      ok_bind, validateText_ok validAfter, ok_bind, pure_eq_ok]

/-- A replaced line that loses its newline. -/
theorem applyPatch_compare_replacement :
    Compute.compare Similar.whole ['a', '\n'] ['b'] = .ok {
        patch := "--- before\n+++ after\n@@ -1 +1 @@\n-a\n+b\n\\ No newline at end of file\n".toList
        inlineChanges := [⟨.before, 0, [(0, 2)]⟩, ⟨.after, 0, [(0, 1)]⟩] } ∧
      applyPatch ['a', '\n']
        "--- before\n+++ after\n@@ -1 +1 @@\n-a\n+b\n\\ No newline at end of file\n".toList = .ok ['b'] :=
  have computed : Compute.compare Similar.whole ['a', '\n'] ['b'] = .ok {
      patch := "--- before\n+++ after\n@@ -1 +1 @@\n-a\n+b\n\\ No newline at end of file\n".toList
      inlineChanges := [⟨.before, 0, [(0, 2)]⟩, ⟨.after, 0, [(0, 1)]⟩] } := by decide +kernel
  ⟨computed, applyPatch_compare Similar.whole_lawful computed⟩

end OpenLegal.TextDiff.RoundTrip
