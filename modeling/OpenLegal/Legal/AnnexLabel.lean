import OpenLegal.Legal.ArticleLocator

/-! # Annex labels

An annex is told by the first `별표 N` or `별표 N의M` near the beginning of its text, and it is looked up by a label
of that form. The marker allows a branch of zeros, the label does not.
-/

namespace OpenLegal.Legal

open Rust Rust.Str

/-- An annex label such as `1` or `1의2`. -/
structure AnnexLabel where
  number : ℕ
  branch : Option ℕ
deriving DecidableEq, Repr

def annexWord : Str := ['별', '표']

/-- The displayed form. -/
def AnnexLabel.display (label : AnnexLabel) : Str :=
  annexWord ++ ' ' :: (decimal label.number ++ label.branch.elim [] fun branch => '의' :: decimal branch)

/-- Characters of a label that are not left out. -/
def inLabel (c : Char) : Bool := !isWhitespace c && c != '[' && c != ']'

/-- Accepts `1`, `1의2`, `별표 1의2` and `[별표 1의2]`. -/
def parseAnnexLabel (value : Str) : Option AnnexLabel := do
  let compact := value.filter inLabel
  let body := (stripPrefix annexWord compact).getD compact
  let body := (stripPrefix ['제'] body).getD body
  let (number, rest) ← digits 4 body
  let branch ← argumentBranch rest
  if 0 < number then some ⟨number, branch⟩ else none

/-- A branch behind the number of a marker. -/
def markerBranch : Str → Option ℕ
  | [] => none
  | c :: rest => if c = '의' then (digits 3 rest).map Prod.fst else none

/-- The first `별표 N` or `별표 N의M` marker within the first 400 bytes of `text`. -/
def annexMarker (text : Str) : Option AnnexLabel := do
  let window := floorCharBoundary text (min 400 (byteLen text))
  let (front, _) ← splitOnce annexWord (truncate text window)
  let (_, rest) ← splitAt text (byteLen front + byteLen annexWord)
  let (number, rest) ← digits 4 (skipSpace rest)
  if 0 < number then some ⟨number, markerBranch rest⟩ else none

/-! ## Labels -/

theorem inLabel_of_isAsciiDigit {c : Char} (digit : isAsciiDigit c = true) : inLabel c = true := by
  have other (d : Char) (plain : isAsciiDigit d = false) : c ≠ d := by
    rintro rfl
    rw [digit] at plain
    cases plain
  simp [inLabel, isWhitespace_of_isAsciiDigit digit, other '[' (by decide), other ']' (by decide)]

theorem filter_inLabel_decimal (n : ℕ) : (decimal n).filter inLabel = decimal n :=
  List.filter_eq_self.mpr fun _ member => inLabel_of_isAsciiDigit (isDigit_of_mem_decimal member)

/-- A displayed label is read as its number and what is read of its branch. -/
theorem parseAnnexLabel_display {label : AnnexLabel} (positive : 0 < label.number) (small : label.number < 10 ^ 4) :
    parseAnnexLabel label.display =
      (argumentBranch (label.branch.elim [] fun branch => '의' :: decimal branch)).map fun branch =>
        ⟨label.number, branch⟩ := by
  have branchText : ∀ branch : Option ℕ, (branch.elim [] fun branch => '의' :: decimal branch).filter inLabel =
      branch.elim [] fun branch => '의' :: decimal branch := by
    intro branch
    cases branch with
    | none => rfl
    | some branch => rw [Option.elim_some, List.filter_cons_of_pos (by decide +kernel), filter_inLabel_decimal]
  have compact : label.display.filter inLabel =
      annexWord ++ (decimal label.number ++ label.branch.elim [] fun branch => '의' :: decimal branch) := by
    have word : annexWord.filter inLabel = annexWord := by decide +kernel
    rw [AnnexLabel.display, List.filter_append, List.filter_cons_of_neg (by decide +kernel), List.filter_append,
      filter_inLabel_decimal, branchText, word]
  have ends : EndsDigits (label.branch.elim [] fun branch => '의' :: decimal branch) := by
    cases label.branch with
    | none => exact endsDigits_nil
    | some branch => exact endsDigits_cons (by decide)
  have number := numeral_decimal (by decide : 0 < 4) small
  have unmarked : stripPrefix ['제'] (decimal label.number ++ label.branch.elim [] fun branch => '의' :: decimal branch) =
      none := by
    obtain ⟨c, run, same⟩ := List.exists_cons_of_ne_nil number.nonempty
    have digit := number.digits c (by rw [same]; exact List.mem_cons_self)
    have other : '제' ≠ c := by
      rintro rfl
      cases digit
    simp [same, stripPrefix, other]
  have read : digits 4 (decimal label.number ++ label.branch.elim [] fun branch => '의' :: decimal branch) =
      some (label.number, label.branch.elim [] fun branch => '의' :: decimal branch) :=
    digits_eq_some.mpr ⟨_, number, rfl, ends⟩
  rw [parseAnnexLabel]
  simp only [compact, stripPrefix_append, Option.getD_some, unmarked, Option.getD_none, read, Option.bind_eq_bind,
    Option.bind_some, if_pos positive, Option.map_eq_bind, Function.comp_def]

/-! ## Markers -/

/-- A first marker with a branch of zeros. -/
inductive ZeroBranch : Str → Prop where
  | mk {front gap run zeros rest : Str} {n : ℕ}
      (first : splitOnce annexWord (front ++ annexWord ++ (gap ++ (run ++ '의' :: (zeros ++ rest)))) =
        some (front, gap ++ (run ++ '의' :: (zeros ++ rest))))
      (before : Gap gap) (number : Numeral 4 run n) (branch : Numeral 3 zeros 0) (ends : EndsDigits rest) :
      ZeroBranch (front ++ annexWord ++ (gap ++ (run ++ '의' :: (zeros ++ rest))))

theorem annexMarker_eq_some {text : Str} {label : AnnexLabel} (found : annexMarker text = some label) :
    ∃ front behind rest, splitOnce annexWord text = some (front, behind) ∧
      digits 4 (skipSpace behind) = some (label.number, rest) ∧ 0 < label.number ∧ label.branch = markerBranch rest := by
  simp only [annexMarker, Option.bind_eq_bind, Option.bind_eq_some_iff] at found
  obtain ⟨⟨front, cut⟩, first, ⟨before, behind⟩, split, ⟨number, rest⟩, read, found⟩ := found
  split_ifs at found with positive
  cases found
  -- the window is the beginning of the text
  obtain ⟨head, more, rfl, window⟩ : ∃ head more, text = head ++ more ∧
      byteLen head = floorCharBoundary text (min 400 (byteLen text)) := by
    obtain ⟨⟨head, more⟩, cut⟩ := Option.isSome_iff_exists.mp
      (isCharBoundary_floorCharBoundary text (min 400 (byteLen text)))
    exact ⟨head, more, splitAt_eq_some cut⟩
  rw [← window, truncate_append] at first
  have whole := splitOnce_more first more
  have same := splitOnce_eq_some whole
  rw [same, ← byteLen_append, splitAt_append] at split
  cases split
  exact ⟨front, _, rest, whole, read, positive, rfl⟩

theorem markerBranch_lt {rest : Str} {branch : ℕ} (read : markerBranch rest = some branch) : branch < 10 ^ 3 := by
  cases rest with
  | nil => cases read
  | cons c rest =>
    rw [markerBranch] at read
    split_ifs at read
    obtain ⟨⟨n, after⟩, found, rfl⟩ := Option.map_eq_some_iff.mp read
    obtain ⟨run, numeral, -⟩ := digits_eq_some.mp found
    exact numeral.lt

/-- The branch of a marker is zero exactly if it is written with zeros. -/
theorem zeroBranch_iff {text : Str} {label : AnnexLabel} (found : annexMarker text = some label) :
    label.branch = some 0 ↔ ZeroBranch text := by
  obtain ⟨front, behind, rest, first, read, -, branched⟩ := annexMarker_eq_some found
  constructor
  · intro zero
    rw [zero] at branched
    obtain ⟨run, number, split, -⟩ := digits_eq_some.mp read
    obtain ⟨gap, before, gapped⟩ := gap_of_skipSpace behind
    cases rest with
    | nil => cases branched
    | cons c rear =>
      rw [markerBranch] at branched
      split_ifs at branched with marked
      subst marked
      obtain ⟨⟨n, after⟩, digitsRead, same⟩ := Option.map_eq_some_iff.mp branched.symm
      cases same
      obtain ⟨zeros, numeral, rfl, ends⟩ := digits_eq_some.mp digitsRead
      have written := gapped.trans (congrArg (gap ++ ·) split)
      rw [written] at first
      have whole := splitOnce_eq_some first
      subst whole
      exact .mk first before number numeral ends
  · rintro ⟨first', before, number, branch, ends⟩
    rw [first'] at first
    cases first
    rename_i gap run zeros rest' n
    have skipped : skipSpace (gap ++ (run ++ '의' :: (zeros ++ rest'))) = run ++ '의' :: (zeros ++ rest') :=
      skipSpace_gap before (number.head_ne (by decide))
    have read' : digits 4 (run ++ '의' :: (zeros ++ rest')) = some (n, '의' :: (zeros ++ rest')) :=
      digits_eq_some.mpr ⟨run, number, rfl, endsDigits_cons (by decide)⟩
    have zero : digits 3 (zeros ++ rest') = some (0, rest') := digits_eq_some.mpr ⟨zeros, branch, rfl, ends⟩
    rw [skipped, read'] at read
    cases read
    rw [branched, markerBranch, if_pos rfl, zero]
    rfl

/-- The label of a marker is read back exactly if the marker does not have a branch of zeros. -/
theorem annex_labels_round_trip (text : Str) (label : AnnexLabel) (found : annexMarker text = some label) :
    parseAnnexLabel label.display = some label ↔ ¬ZeroBranch text := by
  obtain ⟨front, behind, rest, -, read, positive, branched⟩ := annexMarker_eq_some found
  obtain ⟨run, number, -⟩ := digits_eq_some.mp read
  rw [← zeroBranch_iff found, parseAnnexLabel_display positive number.lt]
  obtain ⟨n, branch⟩ := label
  cases branch with
  | none => simp [argumentBranch]
  | some branch =>
    have small : branch < 10 ^ 3 := markerBranch_lt branched.symm
    have read : digits 3 (decimal branch) = some (branch, []) :=
      digits_eq_some.mpr ⟨_, numeral_decimal (by decide) small, (List.append_nil _).symm, endsDigits_nil⟩
    have parsed : argumentBranch ('의' :: decimal branch) = if branch = 0 then none else some (some branch) := by
      simp [argumentBranch, read]
    rw [Option.elim_some, parsed]
    split_ifs with zero
    · simp [zero]
    · simp [zero]

/-- The marker of the second annex with a branch. -/
theorem annex_labels_round_trip_branch :
    annexMarker "[별표 1의2] 과태료".toList = some ⟨1, some 2⟩ ∧
      parseAnnexLabel (AnnexLabel.display ⟨1, some 2⟩) = some ⟨1, some 2⟩ := by
  have found : annexMarker "[별표 1의2] 과태료".toList = some ⟨1, some 2⟩ := by decide +kernel
  refine ⟨found, (annex_labels_round_trip _ _ found).mpr ?_⟩
  rw [← zeroBranch_iff found]
  decide

theorem annex_label_lost :
    ∃ text label, annexMarker text = some label ∧ parseAnnexLabel label.display ≠ some label :=
  ⟨"별표 1의0".toList, ⟨1, some 0⟩, by decide +kernel, by decide +kernel⟩

end OpenLegal.Legal
