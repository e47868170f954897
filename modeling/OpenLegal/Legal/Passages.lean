import OpenLegal.Legal.Projection

/-! # Navigating the passages of a section

A long section is read in passages of at most `maxCitationTextBytes` bytes. The next passage begins where one
ends, and the previous one ends where it begins; either window is moved to a scalar boundary on its far side.
-/

namespace OpenLegal.Legal

open Rust Rust.Str

/-! ## Windows -/

/-- The end of the window that begins at an offset, moved back to a boundary. -/
def windowEnd (text : Str) (start : ℕ) : ℕ :=
  floorCharBoundary text (min (start + maxCitationTextBytes) (byteLen text))

/-- The beginning of the window that ends at an offset, moved forward to a boundary. -/
def windowStart (text : Str) (stop : ℕ) : ℕ := ceilCharBoundary text (stop - maxCitationTextBytes)

/-- A window advances by whole scalars and stays in the text. -/
theorem windowEnd_spec {text : Str} {start : ℕ} (inside : start < byteLen text) :
    isCharBoundary text (windowEnd text start) = true ∧ start < windowEnd text start ∧
      windowEnd text start ≤ start + maxCitationTextBytes ∧ windowEnd text start ≤ byteLen text := by
  have below := floorCharBoundary_le text (min (start + maxCitationTextBytes) (byteLen text))
  have near := lt_floorCharBoundary_add (Nat.min_le_right (start + maxCitationTextBytes) (byteLen text))
  have full := le_floorCharBoundary (isCharBoundary_byteLen text) (Nat.le_refl (byteLen text))
  refine ⟨isCharBoundary_floorCharBoundary _ _, ?_, ?_, ?_⟩
  · rw [windowEnd]
    rcases Nat.le_total (byteLen text) (start + maxCitationTextBytes) with short | long
    · rw [Nat.min_eq_right short]
      omega
    · rw [Nat.min_eq_left long] at near ⊢
      rw [maxCitationTextBytes] at near ⊢
      omega
  all_goals
    rw [windowEnd]
    omega

theorem windowStart_spec {text : Str} {stop : ℕ} (positive : 0 < stop) (closes : isCharBoundary text stop = true) :
    isCharBoundary text (windowStart text stop) = true ∧ windowStart text stop < stop ∧
      stop ≤ windowStart text stop + maxCitationTextBytes := by
  have inside := isCharBoundary_le closes
  obtain ⟨boundary, above, least⟩ := ceilCharBoundary_spec text (show stop - maxCitationTextBytes ≤ byteLen text by omega)
  refine ⟨boundary, ?_, by rw [windowStart]; omega⟩
  rw [windowStart]
  rcases Nat.lt_or_ge maxCitationTextBytes stop with long | short
  · -- the boundary before the end is not before the window
    obtain ⟨j, found, before, near⟩ := exists_isCharBoundary text (show stop - 1 ≤ byteLen text by omega)
    have := least j found (by rw [maxCitationTextBytes] at long ⊢; omega)
    omega
  · have := least 0 (isCharBoundary_zero text) (by omega)
    omega

/-! ## Ids -/

/-- The loop of `passage_ids`; every round advances, so that the bytes of the text are enough rounds. -/
def passageLoop (object : ObjectId) (captureId unit text : Str) (offset : ℕ) :
    ℕ → ℕ → Except DatabaseError (List CitationId)
  | 0, _ => .ok []
  | fuel + 1, start =>
    if start < byteLen text then
      let stop := windowEnd text start
      if offset + stop ≥ 2 ^ 64 then .error .invalidInput
      else do
        let id : CitationId := ⟨object, captureId, .passage unit (offset + start) (offset + stop)⟩
        id.validate
        let rest ← passageLoop object captureId unit text offset fuel stop
        pure (id :: rest)
    else .ok []

/-- Split a supplied exact source slice without changing its original offsets. -/
def passageIds (object : ObjectId) (captureId unit text : Str) (offset : ℕ) : Except DatabaseError (List CitationId) :=
  passageLoop object captureId unit text offset (byteLen text) 0

/-- The passages before and after a passage. -/
def adjacentIds (capture : Capture) (id : CitationId) :
    Except DatabaseError (Option CitationId × Option CitationId) :=
  match id.projection with
  | .passage unit start stop => do
    let text ← sectionText capture unit
    let previous := if start > 0 then some { id with projection := .passage unit (windowStart text start) start } else none
    let next := if stop < byteLen text then some { id with projection := .passage unit stop (windowEnd text stop) } else none
    pure (previous, next)
  | _ => .ok (none, none)

/-! ## Passages of a capture -/

/-- A passage of whole scalars that is not too long. -/
structure Passage (text : Str) (start stop : ℕ) : Prop where
  forward : start < stop
  short : stop - start ≤ maxCitationTextBytes
  opens : isCharBoundary text start = true
  closes : isCharBoundary text stop = true

/-- What the ids of the passages of one section have in common. -/
structure Names (capture : Capture) (unit : Str) (id : CitationId) : Prop where
  object : id.object.validate = .ok ()
  digest : validSnapshotId id.captureId = true
  unit : validSection unit = true
  ofObject : capture.record.object = id.object
  ofCapture : capture.captureId = id.captureId

section Passages

variable {capture : Capture} {unit text : Str} {id : CitationId} {start stop : ℕ}

/-- A section of an accepted record is within the offsets that ids may have. -/
theorem byteLen_sectionText (parsers : Parsers) (accepted : capture.record.validate parsers = .ok ())
    (located : sectionText capture unit = .ok text) : byteLen text ≤ 64 * 1024 * 1024 := by
  obtain ⟨-, sections, fields⟩ := LegalRecord.checks_of_validate parsers accepted
  simp only [LegalRecord.validFields, Bool.and_eq_true, decide_eq_true_eq] at fields
  simp only [LegalRecord.validSections, Bool.and_eq_true, decide_eq_true_eq] at sections
  rw [sectionText] at located
  split_ifs at located
  · cases located
    have := fields.1.1.1.1.1.1.1.1.1.2
    omega
  · cases located
    have := fields.1.1.1.1.1.1.1.1.1.1
    omega
  · cases found : capture.record.metadata.get unit with
    | none =>
      rw [found] at located
      cases located
    | some value =>
      rw [found] at located
      cases located
      have entry := List.all_eq_true.mp fields.1.1.1.2 _ (Map.mem_entries_iff.mpr found)
      simp only [Bool.and_eq_true, decide_eq_true_eq] at entry
      omega
  · cases found : capture.record.sections.find? (·.id == unit) with
    | none =>
      rw [found] at located
      cases located
    | some section' =>
      rw [found] at located
      cases located
      have valid := List.all_eq_true.mp sections.1.2 _ (List.mem_of_find?_eq_some found)
      simp only [LegalRecord.validUnit, Bool.not_eq_true', Bool.or_eq_false_iff, decide_eq_false_iff_not] at valid
      have := valid.1.2
      omega

theorem validate_of_projectText {shown : Str} (projected : projectText capture id = .ok shown) :
    id.validate = .ok () := by
  rw [projectText] at projected
  obtain ⟨_, valid, -⟩ := bind_eq_ok.mp projected
  exact valid

/-- A passage is shown exactly if its id is well formed and it is one of whole scalars. -/
theorem projectText_passage (located : sectionText capture unit = .ok text)
    (bounded : byteLen text ≤ 64 * 1024 * 1024) (shape : id.projection = .passage unit start stop) {shown : Str} :
    projectText capture id = .ok shown ↔
      Names capture unit id ∧ Passage text start stop ∧ get text start stop = some shown := by
  constructor
  · intro projected
    simp only [projectText, CitationId.validate, shape, bind_eq_ok, ite_error_eq_ok, projectedText, located,
      ok_bind, not_or, not_not] at projected
    obtain ⟨_, ⟨_, object, digest, range, section'⟩, ⟨ofObject, ofCapture⟩, slice, cut, -, same⟩ := projected
    cases same
    have found : get text start stop = some shown := by
      cases found : get text start stop with
      | none =>
        rw [found] at cut
        cases cut
      | some middle =>
        rw [found] at cut
        cases cut
        rfl
    have valid : validSection unit = true := by
      split_ifs at section' with valid
      exact valid
    simp only [Bool.or_eq_true, decide_eq_true_eq, not_or] at range
    obtain ⟨front, rear, whole, begins, ends⟩ := get_iff.mp found
    refine ⟨⟨object, by simpa using digest, valid, ofObject, ofCapture⟩, ⟨by omega, by omega, ?_, ?_⟩, found⟩
    · exact isCharBoundary_iff.mpr ⟨front, _, whole, begins⟩
    · apply isCharBoundary_iff.mpr
      refine ⟨front ++ shown, rear, by rw [whole, List.append_assoc], ?_⟩
      rw [byteLen_append]
      omega
  · rintro ⟨names, passage, found⟩
    have inside := isCharBoundary_le passage.closes
    have valid : id.validate = .ok () := by
      simp only [CitationId.validate, shape, names.object, names.digest, names.unit, ok_bind, Bool.not_true,
        Bool.false_eq_true, if_false]
      rw [if_neg, if_pos trivial]
      have := passage.forward
      have := passage.short
      simp only [Bool.or_eq_true, decide_eq_true_eq]
      omega
    rw [projectText, valid, ok_bind, if_neg (by simp [names.ofObject, names.ofCapture]), shape, projectedText, located,
      ok_bind, found]
    have short : ¬byteLen shown > maxCitationTextBytes := by
      obtain ⟨_, _, -, -, length⟩ := get_iff.mp found
      have := passage.short
      omega
    exact if_neg short

/-- The ids of one section differ in their ranges only. -/
theorem Names.of_range (names : Names capture unit id) (start stop : ℕ) :
    Names capture unit { id with projection := .passage unit start stop } := ⟨names.1, names.2, names.3, names.4, names.5⟩

theorem Passage.next (passage : Passage text start stop) (more : stop < byteLen text) :
    Passage text stop (windowEnd text stop) := by
  obtain ⟨boundary, forward, short, -⟩ := windowEnd_spec more
  exact ⟨forward, by omega, passage.closes, boundary⟩

theorem Passage.previous (passage : Passage text start stop) (positive : 0 < start) :
    Passage text (windowStart text start) start := by
  obtain ⟨boundary, forward, short⟩ := windowStart_spec positive passage.opens
  exact ⟨forward, by omega, boundary, passage.opens⟩

/-- A passage has a text, which is neither empty nor too long. -/
theorem Passage.exists_text (passage : Passage text start stop) :
    ∃ shown, get text start stop = some shown ∧ shown ≠ [] ∧ byteLen shown ≤ maxCitationTextBytes := by
  obtain ⟨front, rest, rfl, rfl⟩ := isCharBoundary_iff.mp passage.opens
  obtain ⟨front', rear, same, rfl⟩ := isCharBoundary_iff.mp passage.closes
  obtain ⟨middle, rfl, rfl⟩ := append_eq_append_of_byteLen_le same passage.forward.le
  have forward := passage.forward
  have short := passage.short
  rw [byteLen_append] at forward short
  refine ⟨middle, get_iff.mpr ⟨front, rear, rfl, rfl, (byteLen_append _ _).symm⟩, ?_, by omega⟩
  rintro rfl
  simp at forward

theorem adjacentIds_passage (located : sectionText capture unit = .ok text)
    (shape : id.projection = .passage unit start stop) :
    adjacentIds capture id = .ok
      (if start > 0 then some { id with projection := .passage unit (windowStart text start) start } else none,
        if stop < byteLen text then some { id with projection := .passage unit stop (windowEnd text stop) } else none) := by
  simp only [adjacentIds, shape, located, ok_bind, pure_eq_ok]

/-- Ids of consecutive passages from an offset to the end of a text, each with the one behind it as its next. -/
def Tiles (capture : Capture) (unit text : Str) : ℕ → List CitationId → Prop
  | start, [] => start = byteLen text
  | start, id :: rest => ∃ stop shown, id.projection = .passage unit start stop ∧ projectText capture id = .ok shown ∧
      get text start stop = some shown ∧ shown ≠ [] ∧ byteLen shown ≤ maxCitationTextBytes ∧
      (∃ previous, adjacentIds capture id = .ok (previous, rest.head?)) ∧ Tiles capture unit text stop rest

/-- Previous passages one after the other, down to the beginning of the section. -/
def Rewinds (capture : Capture) (unit : Str) : CitationId → List CitationId → Prop
  | id, [] => ∃ stop next, id.projection = .passage unit 0 stop ∧ adjacentIds capture id = .ok (none, next)
  | id, previous :: rest => (∃ next, adjacentIds capture id = .ok (some previous, next)) ∧
      (∃ shown, projectText capture previous = .ok shown) ∧ Rewinds capture unit previous rest

/-- The texts of consecutive passages are together the rest of the text. -/
theorem Tiles.concat {ids : List CitationId} (tiles : Tiles capture unit text start ids) :
    ∃ shown, ids.mapM (projectText capture) = .ok shown ∧ get text start (byteLen text) = some shown.flatten := by
  induction ids generalizing start with
  | nil =>
    rw [Tiles] at tiles
    exact ⟨[], rfl, get_iff.mpr ⟨text, [], by simp, tiles.symm, by simp [tiles]⟩⟩
  | cons id rest ih =>
    obtain ⟨stop, shown, -, projected, found, -, -, -, tiles⟩ := tiles
    obtain ⟨texts, read, whole⟩ := ih tiles
    obtain ⟨front, rear, shape, begins, ends⟩ := get_iff.mp found
    obtain ⟨front', rear', shape', begins', ends'⟩ := get_iff.mp whole
    refine ⟨shown :: texts, by rw [List.mapM_cons, projected, ok_bind, read]; rfl, ?_⟩
    have cut : front ++ shown = front' ∧ rear = texts.flatten ++ rear' := by
      apply append_inj_of_byteLen
      · rw [List.append_assoc, ← shape, shape']
      · rw [byteLen_append]
        omega
    apply get_iff.mpr
    refine ⟨front, rear', by rw [shape, cut.2, List.flatten_cons, List.append_assoc], begins, ?_⟩
    rw [List.flatten_cons, byteLen_append]
    omega

/-- The loop tiles what is left of the text. -/
theorem passageLoop_tiles (located : sectionText capture unit = .ok text) (bounded : byteLen text ≤ 64 * 1024 * 1024)
    (names : Names capture unit id) {fuel : ℕ} (opens : isCharBoundary text start = true)
    (enough : byteLen text ≤ start + fuel) :
    ∃ ids, passageLoop id.object id.captureId unit text 0 fuel start = .ok ids ∧ Tiles capture unit text start ids ∧
      ids.head? = if start < byteLen text then some { id with projection := .passage unit start (windowEnd text start) }
        else none := by
  have inside := isCharBoundary_le opens
  induction fuel generalizing start with
  | zero =>
    refine ⟨[], rfl, ?_, ?_⟩
    · rw [Tiles]
      omega
    · rw [if_neg (by omega)]
      rfl
  | succ fuel ih =>
    rw [passageLoop]
    split_ifs with more
    · obtain ⟨boundary, forward, short, within⟩ := windowEnd_spec more
      obtain ⟨rest, looped, tiles, head⟩ := ih boundary (by omega) within
      have passage : Passage text start (windowEnd text start) := ⟨forward, by omega, opens, boundary⟩
      obtain ⟨shown, found, nonempty, small⟩ := passage.exists_text
      have here := names.of_range start (windowEnd text start)
      have projected := (projectText_passage located bounded rfl).mpr ⟨here, passage, found⟩
      have valid := validate_of_projectText projected
      refine ⟨{ id with projection := .passage unit start (windowEnd text start) } :: rest, ?_, ?_, rfl⟩
      · simp only [Nat.zero_add]
        rw [if_neg (by omega), valid, ok_bind, looped]
        rfl
      · refine ⟨windowEnd text start, shown, rfl, projected, found, nonempty, small, ?_, tiles⟩
        rw [adjacentIds_passage located rfl, head]
        exact ⟨_, rfl⟩
    · refine ⟨[], rfl, ?_, rfl⟩
      rw [Tiles]
      omega

/-- Going back from a passage reaches the beginning of the section. -/
theorem exists_rewinds (located : sectionText capture unit = .ok text) (bounded : byteLen text ≤ 64 * 1024 * 1024)
    (names : Names capture unit id) (shape : id.projection = .passage unit start stop)
    (passage : Passage text start stop) : ∃ ids, Rewinds capture unit id ids := by
  induction start using Nat.strong_induction_on generalizing id stop with
  | _ start ih =>
    have adjacent := adjacentIds_passage located shape
    rcases Nat.eq_zero_or_pos start with rfl | positive
    · exact ⟨[], stop, _, shape, adjacent⟩
    · have before := passage.previous positive
      have there := names.of_range (windowStart text start) start
      obtain ⟨shown, found, -⟩ := before.exists_text
      obtain ⟨rest, rewinds⟩ := ih (windowStart text start) before.forward there rfl before
      rw [if_pos positive] at adjacent
      refine ⟨{ id with projection := .passage unit (windowStart text start) start } :: rest, ⟨_, adjacent⟩, ?_, rewinds⟩
      exact ⟨shown, (projectText_passage located bounded rfl).mpr ⟨there, before, found⟩⟩

/-- Every id of a slice is a valid one for whole scalars of the slice. -/
theorem mem_passageLoop {object : ObjectId} {captureId slice : Str} {offset fuel : ℕ} {ids : List CitationId}
    (opens : isCharBoundary slice start = true)
    (looped : passageLoop object captureId unit slice offset fuel start = .ok ids) (member : id ∈ ids) :
    ∃ first last, id = ⟨object, captureId, .passage unit (offset + first) (offset + last)⟩ ∧ id.validate = .ok () ∧
      Passage slice first last := by
  induction fuel generalizing start ids with
  | zero =>
    cases looped
    cases member
  | succ fuel ih =>
    rw [passageLoop] at looped
    split_ifs at looped with more
    · obtain ⟨boundary, forward, short, -⟩ := windowEnd_spec more
      simp only [ite_error_eq_ok, bind_eq_ok, pure_eq_ok, Except.ok.injEq] at looped
      obtain ⟨-, _, valid, rest, looped, rfl⟩ := looped
      rcases List.mem_cons.mp member with rfl | later
      · exact ⟨start, windowEnd slice start, rfl, valid, ⟨forward, by omega, opens, boundary⟩⟩
      · exact ih boundary looped later
    · cases looped
      cases member

/-- A boundary of a slice is one of the text. -/
theorem isCharBoundary_of_slice {slice : Str} {offset i : ℕ} (found : get text offset (offset + byteLen slice) = some slice)
    (boundary : isCharBoundary slice i = true) : isCharBoundary text (offset + i) = true := by
  obtain ⟨front, rear, rfl, rfl, -⟩ := get_iff.mp found
  obtain ⟨left, right, rfl, rfl⟩ := isCharBoundary_iff.mp boundary
  exact isCharBoundary_iff.mpr ⟨front ++ left, right ++ rear, by simp, byteLen_append _ _⟩

/-- The passages of a section of an accepted record tile its text from the first one on, every passage leads back
to the beginning, and every id that is offered on the way is shown by the same capture. -/
theorem passage_navigation (parsers : Parsers) (accepted : capture.record.validate parsers = .ok ())
    (located : sectionText capture unit = .ok text) :
    (∀ first : CitationId, first.validate = .ok () → capture.record.object = first.object →
      capture.captureId = first.captureId → first.projection = .passage unit 0 (windowEnd text 0) →
      ∃ ids shown, passageIds first.object first.captureId unit text 0 = .ok ids ∧ ids.head? = some first ∧
        Tiles capture unit text 0 ids ∧ ids.mapM (projectText capture) = .ok shown ∧ shown.flatten = text) ∧
    (∀ id start stop shown, id.projection = .passage unit start stop → projectText capture id = .ok shown →
      (∃ ids, Rewinds capture unit id ids) ∧ ∃ previous next, adjacentIds capture id = .ok (previous, next) ∧
        ∀ other, previous = some other ∨ next = some other →
          other.validate = .ok () ∧ ∃ shown, projectText capture other = .ok shown) ∧
    ∀ slice offset ids, get text offset (offset + byteLen slice) = some slice →
      passageIds capture.record.object capture.captureId unit slice offset = .ok ids →
      ∀ id ∈ ids, id.validate = .ok () ∧ ∃ shown, projectText capture id = .ok shown := by
  have bounded := byteLen_sectionText parsers accepted located
  refine ⟨?_, ?_, ?_⟩
  · intro first valid ofObject ofCapture shape
    simp only [CitationId.validate, shape, bind_eq_ok, ite_error_eq_ok, Bool.not_eq_true', Bool.not_eq_false,
      Bool.or_eq_true, decide_eq_true_eq, not_or] at valid
    obtain ⟨_, object, digest, ⟨⟨forward, -⟩, -⟩, section'⟩ := valid
    split_ifs at section' with named
    have names : Names capture unit first := ⟨object, digest, named, ofObject, ofCapture⟩
    have more : 0 < byteLen text := by
      have := floorCharBoundary_le text (min (0 + maxCitationTextBytes) (byteLen text))
      rw [windowEnd] at forward
      omega
    obtain ⟨ids, looped, tiles, head⟩ := passageLoop_tiles located bounded names (isCharBoundary_zero text)
      (show byteLen text ≤ 0 + byteLen text by omega)
    obtain ⟨shown, read, whole⟩ := tiles.concat
    refine ⟨ids, shown, looped, ?_, tiles, read, ?_⟩
    · rw [head, if_pos more, ← shape]
    · have all := get_right [] text
      rw [byteLen_nil, Nat.zero_add, List.nil_append, whole] at all
      exact Option.some.inj all
  · intro id start stop shown shape projected
    obtain ⟨names, passage, -⟩ := (projectText_passage located bounded shape).mp projected
    refine ⟨exists_rewinds located bounded names shape passage, _, _, adjacentIds_passage located shape, ?_⟩
    have offered {first last : ℕ} (there : Passage text first last) :
        ∃ shown, projectText capture { id with projection := .passage unit first last } = .ok shown := by
      obtain ⟨shown, found, -⟩ := there.exists_text
      exact ⟨shown, (projectText_passage located bounded rfl).mpr ⟨names.of_range _ _, there, found⟩⟩
    rintro other (before | after)
    · split_ifs at before with positive
      cases before
      obtain ⟨shown, projected⟩ := offered (passage.previous positive)
      exact ⟨validate_of_projectText projected, shown, projected⟩
    · split_ifs at after with more
      cases after
      obtain ⟨shown, projected⟩ := offered (passage.next more)
      exact ⟨validate_of_projectText projected, shown, projected⟩
  · intro slice offset ids found looped id member
    obtain ⟨first, last, rfl, valid, passage⟩ := mem_passageLoop (isCharBoundary_zero slice) looped member
    refine ⟨valid, ?_⟩
    simp only [CitationId.validate, bind_eq_ok, ite_error_eq_ok, Bool.not_eq_true', Bool.not_eq_false] at valid
    obtain ⟨_, object, digest, -, section'⟩ := valid
    split_ifs at section' with named
    have there : Passage text (offset + first) (offset + last) := by
      have forward := passage.forward
      have short := passage.short
      exact ⟨by omega, by omega, isCharBoundary_of_slice found passage.opens, isCharBoundary_of_slice found passage.closes⟩
    obtain ⟨shown, here, -⟩ := there.exists_text
    exact ⟨shown, (projectText_passage located bounded rfl).mpr ⟨⟨object, digest, named, rfl, rfl⟩, there, here⟩⟩

/-- The long body has a second passage. -/
theorem passage_navigation_longCapture :
    ∃ ids shown, passageIds longCapture.record.object longCapture.captureId "body".toList longCapture.record.body 0 = .ok ids ∧
      ids.head? = some ⟨longCapture.record.object, longCapture.captureId,
        .passage "body".toList 0 (windowEnd longCapture.record.body 0)⟩ ∧
      Tiles longCapture "body".toList longCapture.record.body 0 ids ∧
      ids.mapM (projectText longCapture) = .ok shown ∧ shown.flatten = longCapture.record.body := by
  have located : sectionText longCapture "body".toList = .ok longCapture.record.body := if_pos rfl
  have accepted : longCapture.record.validate lawParsers = .ok () := by decide +kernel
  have valid : (⟨longCapture.record.object, longCapture.captureId,
      .passage "body".toList 0 (windowEnd longCapture.record.body 0)⟩ : CitationId).validate = .ok () := by
    decide +kernel
  have tiling := (passage_navigation lawParsers accepted located).1 _ valid
  generalize longCapture.record.body = text at *
  exact tiling rfl rfl rfl

end Passages

end OpenLegal.Legal
