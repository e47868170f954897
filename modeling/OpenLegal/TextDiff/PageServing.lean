import OpenLegal.TextDiff.Agreement
import OpenLegal.TextDiff.NoOrphan

/-! # Serving pages of a stored comparison

A change page is a list of fragments that the pager packed when the comparison was published; a text
page is a piece of one of the two originals. The service measures the encoded response before it
returns it. The packer's limits, which hold for every worker output it accepted, leave room for the
envelope, so this last check never fails for a stored comparison.
-/

namespace OpenLegal.TextDiff.Paging

open Rust Rust.Str Theory Written

/-- The loop of `chunks` from byte `offset` on. -/
def chunksFrom (text : Str) (offset : ℕ) : List Str :=
  if offset < byteLen text then
    let stop := floorCharBoundary text (min (offset + 32 * 1024) (byteLen text))
    (get text offset stop).getD [] :: chunksFrom text stop
  else []
termination_by byteLen text - offset
decreasing_by
  have near := @lt_floorCharBoundary_add text (min (offset + 32 * 1024) (byteLen text)) (by omega)
  have last := @le_floorCharBoundary text (min (offset + 32 * 1024) (byteLen text)) _ (isCharBoundary_byteLen text)
  omega

def chunks (text : Str) : List Str := if text.isEmpty then [[]] else chunksFrom text 0

/-! ## Chunks of a text -/

/-- Chunks cover the text behind their start, have at most 32 KiB each, and none is empty. -/
theorem chunksFrom_spec (front rear : Str) :
    (chunksFrom (front ++ rear) (byteLen front)).flatten = rear ∧
      ∀ chunk ∈ chunksFrom (front ++ rear) (byteLen front), byteLen chunk ≤ 32 * 1024 ∧ chunk ≠ [] := by
  generalize whole : front ++ rear = text
  generalize start : byteLen front = offset
  fun_induction chunksFrom text offset generalizing front rear with
  | case1 offset inside stop ih =>
    subst start
    have near := @lt_floorCharBoundary_add text (min (byteLen front + 32 * 1024) (byteLen text)) (by omega)
    have last := @le_floorCharBoundary text (min (byteLen front + 32 * 1024) (byteLen text)) _ (isCharBoundary_byteLen text)
    have below := floorCharBoundary_le text (min (byteLen front + 32 * 1024) (byteLen text))
    have forward : byteLen front < stop := by omega
    -- the piece ends at a boundary behind its start
    obtain ⟨shown, rest, cut, length⟩ :=
      isCharBoundary_iff.mp (isCharBoundary_floorCharBoundary text (min (byteLen front + 32 * 1024) (byteLen text)))
    change byteLen shown = stop at length
    obtain ⟨middle, rfl, rfl⟩ := append_eq_append_of_byteLen_le (whole.trans cut) (by omega)
    rw [byteLen_append] at length
    have piece : get text (byteLen front) stop = some middle := by
      apply get_iff.mpr
      exact ⟨front, rest, by rw [cut, List.append_assoc], rfl, length⟩
    obtain ⟨covered, bounded⟩ := ih (front ++ middle) rest cut.symm (by rw [byteLen_append]; exact length)
    rw [piece, Option.getD_some]
    constructor
    · rw [List.flatten_cons, covered]
    · intro chunk member
      rcases List.mem_cons.mp member with rfl | member
      · refine ⟨by omega, ?_⟩
        rintro rfl
        rw [byteLen_nil] at length
        omega
      · exact bounded chunk member
  | case2 offset outside =>
    subst start
    have empty : rear = [] := by
      apply List.length_eq_zero_iff.mp
      have small := length_le_byteLen rear
      have size := congrArg byteLen whole
      rw [byteLen_append] at size
      omega
    exact ⟨empty.symm, by simp⟩

theorem chunks_flatten (text : Str) : (chunks text).flatten = text := by
  rw [chunks]
  split_ifs with empty
  · rw [List.isEmpty_iff.mp empty]
    rfl
  · exact (chunksFrom_spec [] text).1

theorem chunks_bounded (text : Str) : ∀ chunk ∈ chunks text, byteLen chunk ≤ 32 * 1024 := by
  rw [chunks]
  split_ifs with empty
  · simp
  · exact fun chunk member => ((chunksFrom_spec [] text).2 chunk member).1

/-- There are no more chunks than bytes, up to the one of the empty text. -/
theorem chunks_length_le (text : Str) : (chunks text).length ≤ byteLen text + 1 := by
  rw [chunks]
  split_ifs with empty
  · simp
  · obtain ⟨covered, bounded⟩ := chunksFrom_spec [] text
    rw [List.nil_append, byteLen_nil] at covered bounded
    have count : ∀ pieces : List Str, (∀ piece ∈ pieces, piece ≠ []) → pieces.length ≤ pieces.flatten.length := by
      intro pieces inhabited
      induction pieces with
      | nil => exact le_rfl
      | cons piece pieces ih =>
        obtain ⟨first, others⟩ := List.forall_mem_cons.mp inhabited
        have := List.length_pos_iff.mpr first
        have := ih others
        rw [List.length_cons, List.flatten_cons, List.length_append]
        omega
    have few := count _ fun piece member => (bounded piece member).2
    have bytes := length_le_byteLen text
    rw [covered] at few
    omega

/-! ## What the packer keeps -/

/-- The limits of a finished page. -/
structure PageFits (json : SerdeJson) (page : List DiffFragment) : Prop where
  fragments : page.length ≤ 400
  bytes : (page.map json.fragmentLen).sum ≤ pageBytesLimit

/-- The counters of the current page are exact or larger, and every page is in its limits. -/
structure Packed (json : SerdeJson) (state : State) : Prop where
  pages : ∀ page ∈ state.pages, PageFits json page
  rows : state.page.length ≤ state.pageRows ∧ state.pageRows ≤ 400
  bytes : (state.page.map json.fragmentLen).sum = state.pageBytes ∧ state.pageBytes ≤ pageBytesLimit
  fresh : state.page = [] → state.pageRows = 0

theorem Packed.current {json : SerdeJson} {state : State} (packed : Packed json state) : PageFits json state.page :=
  ⟨packed.rows.1.trans packed.rows.2, by rw [packed.bytes.1]; exact packed.bytes.2⟩

/-- Only the pages and their counters matter. -/
theorem Packed.of_eq {json : SerdeJson} {state final : State} (packed : Packed json state)
    (pages : final.pages = state.pages) (page : final.page = state.page) (rows : final.pageRows = state.pageRows)
    (bytes : final.pageBytes = state.pageBytes) : Packed json final where
  pages := by rw [pages]; exact packed.pages
  rows := by rw [page, rows]; exact packed.rows
  bytes := by rw [page, bytes]; exact packed.bytes
  fresh := by rw [page, rows]; exact packed.fresh

theorem Packed.finishPart {json : SerdeJson} {state final : State} (packed : Packed json state) {part : Part}
    (short : part.rows ≤ 400) (success : finishPart json state part = .ok final) : Packed json final := by
  simp only [Paging.finishPart, bind_eq_ok] at success
  obtain ⟨_, inhabited, success⟩ := success
  have inhabited := internal_eq_ok inhabited
  rw [beq_eq_false_iff_ne] at inhabited
  obtain ⟨fewer, rows⟩ := packed.rows
  obtain ⟨sum, bytes⟩ := packed.bytes
  split_ifs at success with large full
  all_goals
    simp only [Bool.or_eq_true, decide_eq_true_eq, not_or, not_lt] at large
    cases success
  · exact {
      pages := by
        intro page member
        rcases List.mem_append.mp member with member | member
        · exact packed.pages page member
        · rw [List.mem_singleton.mp member]
          exact packed.current
      rows := ⟨by dsimp only [List.length_singleton]; omega, short⟩
      bytes := ⟨by simp, large.1⟩
      fresh := fun none => by cases none }
  · -- a part joins the current page only when both counters stay in the limits, or the page is new
    simp only [Bool.and_eq_true, Bool.not_eq_true', Bool.or_eq_true, decide_eq_true_eq, List.isEmpty_eq_false_iff,
      not_and, not_or, not_lt] at full
    have room : state.pageRows + part.rows ≤ 400 ∧ state.pageBytes + json.fragmentLen part.finish ≤ pageBytesLimit := by
      by_cases new : state.page = []
      · have none := packed.fresh new
        rw [new, List.map_nil, List.sum_nil] at sum
        omega
      · obtain ⟨⟨rows, bytes⟩, -⟩ := full new
        exact ⟨rows, bytes⟩
    exact {
      pages := packed.pages
      rows := ⟨by dsimp only; rw [List.length_append, List.length_singleton]; omega, room.1⟩
      bytes := ⟨by simp [sum], room.2⟩
      fresh := fun none => absurd none (by simp) }

/-- The cursors stand in the texts. -/
theorem Progress.inside {oldLines newLines : List Str} {state : State} {hunks : List (Hunk Str)} {current : Hunk Str}
    (progress : Progress oldLines newLines state hunks current) :
    state.oldCursor ≤ oldLines.length ∧ state.newCursor ≤ newLines.length := by
  constructor
  · have size := congrArg List.length progress.old
    rw [List.length_append, ← progress.oldCursor] at size
    omega
  · have size := congrArg List.length progress.new
    rw [List.length_append, ← progress.newCursor] at size
    omega

/-- A row goes to the current part, or that part is closed and the row goes to a fresh one. -/
theorem fitPart_ok {json : SerdeJson} {encoded rangeCount : ℕ} {part next : Part} {state final : State}
    (success : fitPart json encoded rangeCount part state = .ok (next, final)) :
    (next = part ∧ final = state ∧ part.rows < 400) ∨
      (next = { before := state.before, after := state.after } ∧ finishPart json state part = .ok final) := by
  rw [fitPart] at success
  split_ifs at success with full
  · obtain ⟨closed, ran, same⟩ := bind_eq_ok.mp success
    cases same
    obtain ⟨_, _, _, _, _, rfl, -⟩ := finishPart_ok ran
    exact .inr ⟨rfl, ran⟩
  · cases success
    simp only [Bool.or_eq_true, decide_eq_true_eq, not_or, not_le] at full
    exact .inl ⟨rfl, rfl, full.1.1⟩

/-- The invariant of the loop over the patch lines: besides its agreement with the texts, the pages are
in their limits and the part under construction is estimated. -/
structure Packing (json : SerdeJson) (oldLines newLines : List Str) (state : State) : Prop where
  progress : ∃ hunks current, Progress oldLines newLines state hunks current
  packed : Packed json state
  estimated : ∀ part, state.part = some part → Estimated part

theorem Packing.finishPending {json : SerdeJson} {oldLines newLines : List Str} {state final : State}
    (packing : Packing json oldLines newLines state) (success : finishPending json state = .ok final) :
    Packed json final := by
  rw [Paging.finishPending] at success
  split at success
  · next part opened =>
    apply Packed.finishPart _ (packing.estimated part opened).rows success
    exact packing.packed.of_eq rfl rfl rfl rfl
  · cases success
    exact packing.packed

theorem Packing.openHunk {json : SerdeJson} {oldLines newLines : List Str} (oldFew : oldLines.length ≤ maxLines)
    (newFew : newLines.length ≤ maxLines) {line : Str} {state final : State}
    (packing : Packing json oldLines newLines state)
    (success : openHunk json oldLines newLines line state = .ok final) : Packing json oldLines newLines final := by
  obtain ⟨hunks, current, progress⟩ := packing.progress
  obtain ⟨hunks', current', advanced⟩ := progress.openHunk success
  simp only [Paging.openHunk, bind_eq_ok] at success
  obtain ⟨_, -, middle, pending, ⟨⟨old, oldCount⟩, ⟨new, newCount⟩⟩, -, _, -, _, -, oldGap, -, newGap, -, _, -, success⟩ :=
    success
  have packed := packing.finishPending pending
  cases success
  have inside := advanced.inside
  refine ⟨⟨hunks', current', advanced⟩, packed.of_eq rfl rfl rfl rfl, ?_⟩
  rintro part ⟨⟩
  dsimp only at inside
  apply estimated_fresh
  · dsimp only; omega
  · dsimp only; omega

/-- A compared line is short. -/
theorem RowMatch.short {before after : Str} (beforeValid : ValidText before) (afterValid : ValidText after)
    {state : State} {tag : ChangeTag} {text : Str} (matched : RowMatch (linesOf before) (linesOf after) state tag text) :
    text.length ≤ maxLineBytes + 1 := by
  have short : ShortLine text := by
    cases tag with
    | insert =>
      have member := List.mem_of_getElem? (matched.new (by simp))
      exact ⟨isLine_of_mem (@splitInclusive_isLines '\n' _) text member, afterValid.shortLines text member⟩
    | delete =>
      have member := List.mem_of_getElem? (matched.old (by simp))
      exact ⟨isLine_of_mem (@splitInclusive_isLines '\n' _) text member, beforeValid.shortLines text member⟩
    | equal =>
      have member := List.mem_of_getElem? (matched.old (by simp))
      exact ⟨isLine_of_mem (@splitInclusive_isLines '\n' _) text member, beforeValid.shortLines text member⟩
  have bytes := short.byteLen_le
  have scalars := length_le_byteLen text
  omega

/-- An accepted row keeps the estimate of the part it goes to. -/
theorem Packing.dataRow {json : SerdeJson} (compact : json.IsCompact) {before after : Str}
    (beforeValid : ValidText before) (afterValid : ValidText after) {line : Str} (isLine : IsLine line)
    {noNewline : Bool} {state final : State} (packing : Packing json (linesOf before) (linesOf after) state)
    (success : dataRow json (linesOf before) (linesOf after) line noNewline state = .ok final) :
    Packing json (linesOf before) (linesOf after) final := by
  obtain ⟨hunks, current, progress⟩ := packing.progress
  have advanced := progress.dataRow (isLine_of_mem (@splitInclusive_isLines '\n' before))
    (isLine_of_mem (@splitInclusive_isLines '\n' after)) isLine success
  obtain ⟨part, tag, ranges, rest, next, middle, opened, head, ends, matched, consumed, fitted, rfl⟩ := dataRow_ok success
  obtain ⟨-, ordered, -⟩ := consumeHighlight_ok progress.annotations matched consumed
  have estimated := packing.estimated part opened
  have inside := progress.inside
  have oldFew := beforeValid.lines
  have newFew := afterValid.lines
  obtain ⟨-, beforeLine, afterLine⟩ := progress.opened part opened
  have kept : Packed json { state with annotations := rest } := packing.packed.of_eq rfl rfl rfl rfl
  obtain ⟨packed, nextEstimated, room⟩ : Packed json middle ∧ Estimated next ∧ next.rows < 400 := by
    rcases fitPart_ok fitted with ⟨rfl, rfl, room⟩ | ⟨rfl, closed⟩
    · exact ⟨kept, estimated, room⟩
    · refine ⟨kept.finishPart estimated.rows closed, ?_, by simp⟩
      apply estimated_fresh
      · dsimp only; omega
      · dsimp only; omega
  refine ⟨advanced, packed.of_eq rfl rfl rfl rfl, ?_⟩
  rintro _ ⟨⟩
  apply nextEstimated.push _ line noNewline ranges _ room
  · rw [encodedRow, compact.stringLen, compact_stringLen]
  · exact fun found same => ranges_small (matched.short beforeValid afterValid) (ordered found same)

theorem Packing.readLines {json : SerdeJson} (compact : json.IsCompact) {before after : Str}
    (beforeValid : ValidText before) (afterValid : ValidText after) {lines : List Str} (shape : ∀ line ∈ lines, IsLine line)
    {state final : State} (packing : Packing json (linesOf before) (linesOf after) state)
    (success : readLines json (linesOf before) (linesOf after) lines state = .ok final) :
    Packing json (linesOf before) (linesOf after) final := by
  fun_induction Paging.readLines json (linesOf before) (linesOf after) lines state with
  | case1 state =>
    cases success
    exact packing
  | case2 state line rest header ih =>
    obtain ⟨next, ran, success⟩ := bind_eq_ok.mp success
    apply ih next (fun other member => shape other (List.mem_cons_of_mem _ member)) _ success
    exact packing.openHunk beforeValid.lines afterValid.lines ran
  | case3 state line rest header last ih =>
    obtain ⟨next, ran, success⟩ := bind_eq_ok.mp success
    apply ih next (fun other member => shape other (List.mem_cons_of_mem _ (List.mem_of_mem_tail member))) _ success
    exact packing.dataRow compact beforeValid afterValid (shape line List.mem_cons_self) ran
  | case4 state line rest header last ih =>
    obtain ⟨next, ran, success⟩ := bind_eq_ok.mp success
    apply ih next (fun other member => shape other (List.mem_cons_of_mem _ member)) _ success
    exact packing.dataRow compact beforeValid afterValid (shape line List.mem_cons_self) ran

/-- The states at the head of the loop: some of the patch lines behind the file headers are read. -/
def AtHead (json : SerdeJson) (computed : ComputedDiff) (oldText newText : Str) (state : State) : Prop :=
  ∃ annotations total front rear,
    computed.inlineChanges.foldlM (checkHighlight (linesOf oldText) (linesOf newText)) ([], 0) = .ok (annotations, total) ∧
      (linesOf computed.patch).drop 2 = front ++ rear ∧
      readLines json (linesOf oldText) (linesOf newText) front { annotations } = .ok state

theorem AtHead.packing {json : SerdeJson} (compact : json.IsCompact) {computed : ComputedDiff} {oldText newText : Str}
    (oldValid : ValidText oldText) (newValid : ValidText newText) {state : State}
    (head : AtHead json computed oldText newText state) : Packing json (linesOf oldText) (linesOf newText) state := by
  obtain ⟨annotations, total, front, rear, checked, split, ran⟩ := head
  have valid := validAnnotations_of_checked checked
  have start : Packing json (linesOf oldText) (linesOf newText) { annotations } := {
    progress := ⟨[], ⟨[], []⟩, progress_start valid⟩
    packed := ⟨by simp, ⟨le_rfl, by simp⟩, ⟨rfl, by simp⟩, fun _ => rfl⟩
    estimated := by rintro part ⟨⟩ }
  apply start.readLines compact oldValid newValid _ ran
  intro line member
  apply isLine_of_mem (@splitInclusive_isLines '\n' computed.patch)
  apply List.mem_of_mem_drop
  rw [split]
  exact List.mem_append_left _ member

/-- Whatever the worker sent, accepted pages are in their limits. -/
theorem changes_packed {json : SerdeJson} (compact : json.IsCompact) {computed : ComputedDiff} {oldText newText : Str}
    (oldValid : ValidText oldText) (newValid : ValidText newText) {pages : List (List DiffFragment)}
    {additions deletions : ℕ} (success : changes json computed oldText newText = .ok (pages, additions, deletions)) :
    ∀ page ∈ pages, PageFits json page := by
  rw [changes] at success
  split_ifs at success with same silent
  · cases success
    simp
  simp only [bind_eq_ok] at success
  obtain ⟨⟨annotations, total⟩, checked, _, -, state, ran, -, -, -, -, _, -, final, closed, success⟩ := success
  have head : AtHead json computed oldText newText state := ⟨annotations, total, _, [], checked, (List.append_nil _).symm, ran⟩
  have packed := (head.packing compact oldValid newValid).finishPending closed
  cases success
  intro page member
  split_ifs at member with empty
  · exact packed.pages page member
  · rcases List.mem_append.mp member with member | member
    · exact packed.pages page member
    · rw [List.mem_singleton.mp member]
      exact packed.current

end OpenLegal.TextDiff.Paging

namespace OpenLegal.TextDiff.Service

open Rust Rust.Str

/-! ## Pages -/

inductive PageView where
  | changes
  | before
  | after
deriving DecidableEq, Repr

namespace PageView

/-- The name on the wire. -/
def name : PageView → Str
  | .changes => ['c', 'h', 'a', 'n', 'g', 'e', 's']
  | .before => ['b', 'e', 'f', 'o', 'r', 'e']
  | .after => ['a', 'f', 't', 'e', 'r']

end PageView

structure PageRequest where
  comparisonId : Str
  view : PageView
  page : ℕ
deriving DecidableEq, Repr

structure PageResponse where
  schemaVersion : ℕ := 1
  comparisonId : Str
  view : PageView
  page : ℕ
  totalPages : ℕ
  text : Option Str
  fragments : List DiffFragment
deriving DecidableEq, Repr

/-- The serializer, with the encoded size of a whole response. -/
structure ResponseJson extends Paging.SerdeJson where
  responseLen : PageResponse → ℕ

/-- The compact encoding of a response; an absent text is left out. -/
def compactResponseLen (json : Paging.SerdeJson) (response : PageResponse) : ℕ :=
  Paging.SerdeJson.itemsLen (["schema_version".length + 3 + (decimal response.schemaVersion).length,
      "comparison_id".length + 3 + json.stringLen response.comparisonId,
      "view".length + 3 + json.stringLen response.view.name,
      "page".length + 3 + (decimal response.page).length,
      "total_pages".length + 3 + (decimal response.totalPages).length] ++
    (response.text.map fun text => "text".length + 3 + json.stringLen text).toList ++
    ["fragments".length + 3 + Paging.SerdeJson.itemsLen (response.fragments.map json.fragmentLen)])

/-- The serializer writes compact JSON. -/
structure ResponseJson.IsCompact (json : ResponseJson) : Prop extends json.toSerdeJson.IsCompact where
  responseLen : ∀ response, json.responseLen response = compactResponseLen json.toSerdeJson response

def ResponseJson.compact : ResponseJson := { Paging.SerdeJson.compact with
  responseLen := compactResponseLen Paging.SerdeJson.compact }

/-- The number of pages, the text and the fragments of one page of a comparison. -/
def pageContent (entry : Stored) (view : PageView) (page : ℕ) :
    Except TextDiffError (ℕ × Option Str × List DiffFragment) :=
  match view with
  | .changes => do
    let fragments ← entry.changes[page]?.elim (.error .invalidInput) .ok
    pure (entry.changes.length, none, fragments)
  | .before | .after => do
    let source := if view = .before then entry.before else entry.after
    let chunks := Paging.chunks source
    let text ← chunks[page]?.elim (.error .invalidInput) .ok
    pure (chunks.length, some text, [])

/-- One page of a stored comparison, if its encoding has at most 256 KiB. -/
def page (json : ResponseJson) (sweep : Sweep) (request : PageRequest) (state : State) :
    Except TextDiffError PageResponse × State :=
  if !validHandle request.comparisonId then (.error .invalidInput, state)
  else
    let state := expire sweep state
    (do
      let entry ← (state.entries.get request.comparisonId).elim (.error .notFound) .ok
      let (totalPages, text, fragments) ← pageContent entry request.view request.page
      let response := {
        comparisonId := request.comparisonId
        view := request.view
        page := request.page
        totalPages
        text
        fragments }
      if json.responseLen response > 256 * 1024 then .error .resourceLimit
      else pure response, state)

def totalPages (entry : Stored) : PageView → ℕ
  | .changes => entry.changes.length
  | .before => (Paging.chunks entry.before).length
  | .after => (Paging.chunks entry.after).length

/-- The text of a text page. -/
def pieceOf (entry : Stored) (view : PageView) (page : ℕ) : Option Str :=
  match view with
  | .changes => none
  | .before => (Paging.chunks entry.before)[page]?
  | .after => (Paging.chunks entry.after)[page]?

/-- The fragments of a change page. -/
def fragmentsOf (entry : Stored) (view : PageView) (page : ℕ) : List DiffFragment :=
  match view with
  | .changes => (entry.changes[page]?).getD []
  | .before | .after => []

theorem pageContent_ok {entry : Stored} {view : PageView} {page : ℕ} (inside : page < totalPages entry view) :
    pageContent entry view page = .ok (totalPages entry view, pieceOf entry view page, fragmentsOf entry view page) := by
  cases view with
  | changes =>
    have found := List.getElem?_eq_getElem (show page < entry.changes.length from inside)
    simp only [pageContent, pieceOf, fragmentsOf, found]
    rfl
  | before =>
    have found := List.getElem?_eq_getElem (show page < (Paging.chunks entry.before).length from inside)
    simp only [pageContent, pieceOf, fragmentsOf, if_true, found]
    rfl
  | after =>
    have found := List.getElem?_eq_getElem (show page < (Paging.chunks entry.after).length from inside)
    simp only [pageContent, pieceOf, fragmentsOf, reduceCtorEq, if_false, found]
    rfl

/-- The sizes that a response can have for its encoding to stay in the limit. -/
theorem compactResponseLen_le {json : Paging.SerdeJson} (compact : json.IsCompact) {response : PageResponse}
    (version : response.schemaVersion = 1) (handle : byteLen response.comparisonId = 64) (page : response.page < 10 ^ 10)
    (total : response.totalPages < 10 ^ 10) (fits : Paging.PageFits json response.fragments)
    (piece : ∀ text, response.text = some text → byteLen text ≤ 32 * 1024 ∧ response.fragments = []) :
    compactResponseLen json response ≤ 256 * 1024 := by
  have id := Paging.escaped_le_byteLen response.comparisonId
  have view : Paging.escaped response.view.name ≤ 7 := by cases response.view <;> decide
  have pageDigits := Paging.decimal_length_le page
  have totalDigits := Paging.decimal_length_le total
  have versionDigits : (decimal response.schemaVersion).length = 1 := by rw [version]; rfl
  have fewer := fits.fragments
  have bytes := fits.bytes
  have limit : Paging.pageBytesLimit = 245760 := rfl
  have keys : "schema_version".length = 14 ∧ "comparison_id".length = 13 ∧ "view".length = 4 ∧ "page".length = 4 ∧
      "total_pages".length = 11 ∧ "text".length = 4 ∧ "fragments".length = 9 := ⟨rfl, rfl, rfl, rfl, rfl, rfl, rfl⟩
  cases shown : response.text with
  | none =>
    simp only [compactResponseLen, shown, Option.map_none, Option.toList_none, List.append_nil, List.cons_append,
      List.nil_append, Paging.SerdeJson.itemsLen, List.sum_cons, List.sum_nil, List.length_cons, List.length_nil,
      List.length_map, compact.stringLen, Paging.compact_stringLen]
    omega
  | some text =>
    obtain ⟨small, none⟩ := piece text shown
    have escapes := Paging.escaped_le_byteLen text
    simp only [compactResponseLen, shown, none, Option.map_some, Option.toList_some, List.cons_append, List.nil_append,
      Paging.SerdeJson.itemsLen, List.map_nil, List.sum_cons, List.sum_nil, List.length_cons, List.length_nil,
      compact.stringLen, Paging.compact_stringLen]
    omega

/-! ## Where stored comparisons come from -/

/-- The two texts were handed in for comparison. -/
def Submitted (events : List Event) (before after : Str) : Prop :=
  ∃ admission beforeLabel afterLabel originBytes,
    .admitCompare admission before after beforeLabel afterLabel originBytes ∈ events

/-- What is known of a stored comparison. -/
structure Served (json : Paging.SerdeJson) (events : List Event) (id : Str) (stored : Stored) : Prop where
  handle : validHandle id = true
  submitted : Submitted events stored.before stored.after
  before : ValidText stored.before
  after : ValidText stored.after
  changes : ∃ computed additions deletions,
    Paging.changes json computed stored.before stored.after = .ok (stored.changes, additions, deletions)
  pages : stored.changes.length * 24 ≤ jobReservation

/-- Jobs compare submitted texts that passed the checks, and stored comparisons are theirs. -/
structure Sources (json : Paging.SerdeJson) (events : List Event) (world : World) : Prop where
  jobs : ∀ job ∈ world.jobs, ∀ before after beforeInfo afterInfo originBytes,
    job.input = .compare before after beforeInfo afterInfo originBytes →
      Submitted events before after ∧ ValidText before ∧ ValidText after
  entries : ∀ id stored, world.state.entries.get id = some stored → Served json events id stored

theorem foldlM_addBytes {items : List (ℕ × ℕ)} {bytes total : ℕ} (success : items.foldlM addBytes bytes = .ok total) :
    total = bytes + (items.map fun item => item.1 * item.2).sum := by
  induction items generalizing bytes with
  | nil =>
    cases success
    rfl
  | cons item items ih =>
    rw [List.foldlM_cons] at success
    obtain ⟨next, added, rest⟩ := bind_eq_ok.mp success
    rw [addBytes] at added
    split_ifs at added
    cases added
    rw [ih rest, List.map_cons, List.sum_cons, Nat.add_assoc]

/-- The page list is counted. -/
theorem pages_le_retainedBytes {before after : Str} {pages : List (List DiffFragment)} {spare : ℕ → ℕ} {total : ℕ}
    (success : retainedBytes before after pages spare = .ok total) : pages.length * 24 ≤ total := by
  have sum := foldlM_addBytes success
  simp only [List.mapIdx_cons, List.map_append, List.sum_append, List.map_cons, List.sum_cons, Nat.add_mul] at sum
  omega

theorem publishComparison_served {json : Paging.SerdeJson} {completion : Completion}
    {engine : Except TextDiffError ComputedDiff} {before after : Str} {beforeInfo afterInfo : TextInfo}
    {originBytes token : ℕ} {state final : State} {summary : ComparisonSummary} {events : List Event}
    (submitted : Submitted events before after) (beforeValid : ValidText before) (afterValid : ValidText after)
    (success : publishComparison json completion engine before after beforeInfo afterInfo originBytes token state =
      .ok (summary, final)) :
    ∃ stored, final = { state with entries := state.entries.insert summary.comparisonId stored } ∧
      Served json events summary.comparisonId stored := by
  have handle := Delivery.publishComparison_handle success
  simp only [publishComparison, bind_eq_ok, ite_error_eq_ok] at success
  obtain ⟨computed, -, -, -, ⟨changes, additions, deletions⟩, checked, -, id, -, -, retained, counted, fits, success⟩ :=
    success
  cases success
  have pages := pages_le_retainedBytes counted
  dsimp only at pages
  exact ⟨_, rfl, {
    handle
    submitted
    before := beforeValid
    after := afterValid
    changes := ⟨computed, additions, deletions, checked⟩
    pages := by
      dsimp only at fits ⊢
      omega }⟩

/-- A section that publishes no comparison adds none. -/
theorem had_comparison {sweep : Sweep} {state after : State} (effect : Delivery.Effect sweep state after) {id : Str}
    {stored : Stored} (found : after.entries.get id = some stored) : state.entries.get id = some stored := by
  have earlier (swept : (expire sweep state).entries.get id = some stored) : state.entries.get id = some stored := by
    obtain ⟨keep, keepEntry, bytes, underflow, same⟩ := expire_eq sweep state
    rw [same] at swept
    exact Map.get_of_get_retain swept
  cases effect with
  | none attachments entries => rw [entries] at found; exact found
  | swept attachments entries => rw [entries] at found; exact earlier found
  | inserted other entry absent attachments entries => rw [entries] at found; exact earlier found
  | updated other entry later present fixed attachments entries => rw [entries] at found; exact earlier found

/-- A step stores the comparison of a working job or none. -/
theorem step_entries {json : Paging.SerdeJson} {world : World} {event : Event} {id : Str} {stored : Stored}
    (found : (step json world event).state.entries.get id = some stored) :
    world.state.entries.get id = some stored ∨
      ∃ (index : ℕ) (completion : Completion) (engine : Except TextDiffError ComputedDiff) (before after : Str)
        (beforeInfo afterInfo : TextInfo) (originBytes token : ℕ) (summary : ComparisonSummary) (final : State),
        world.jobs[index]? = some ⟨.compare before after beforeInfo afterInfo originBytes, token, .working⟩ ∧
        publishComparison json completion engine before after beforeInfo afterInfo originBytes token world.state =
          .ok (summary, final) ∧ final.entries.get id = some stored := by
  cases event with
  | upload publication request declaredKind =>
    exact .inl (had_comparison (Delivery.upload_effect publication request declaredKind world.state) found)
  | read sweep request declaredKind =>
    exact .inl (had_comparison (Delivery.read_effect sweep request declaredKind world.state) found)
  | deleteAttachment sweep other declaredKind =>
    left
    rw [step] at found
    dsimp only at found
    rcases deleteAttachment_snd sweep other declaredKind world.state with same | same | ⟨-, same⟩
    · rw [same] at found; exact found
    · rw [same] at found; exact had_comparison (.swept rfl rfl) found
    · obtain ⟨bytes, underflow, removed⟩ := removeAttachment_eq other (expire sweep world.state)
      rw [same, removed] at found
      exact had_comparison (.swept rfl rfl) found
  | sweep sweep => exact .inl (had_comparison (.swept rfl rfl) found)
  | deleteComparison other =>
    left
    rw [step] at found
    split_ifs at found
    · exact (Map.get_of_get_remove found).2
    · exact found
  | resolve sweep other declaredKind kind =>
    exact .inl (had_comparison (Delivery.resolve_effect sweep other declaredKind kind world.state) found)
  | dropLease index =>
    left
    rw [step, dropLease] at found
    split at found
    · next data _ =>
      obtain ⟨bytes, underflow, same⟩ := dropData_eq { world.state with leases := world.state.leases.eraseIdx index } data
      rw [same] at found
      exact found
    · exact found
  | admitCompare admission before after beforeLabel afterLabel originBytes =>
    left
    rw [step, admitCompare] at found
    split at found
    · exact found
    · exact had_comparison (Delivery.admitJob_effect admission compareFull _ world) found
  | admitApplyPatch admission target patch =>
    exact .inl (had_comparison (Delivery.admitJob_effect admission applyPatchFull _ world) found)
  | finishCompare index completion engine =>
    rw [step, finishCompare] at found
    split at found
    · next before after beforeInfo afterInfo originBytes token here =>
      dsimp only at found
      split at found
      · next summary final published =>
        exact .inr ⟨index, completion, engine, before, after, beforeInfo, afterInfo, originBytes, token, summary, final,
          here, published, found⟩
      · exact .inl found
    · exact .inl found
  | finishApplyPatch index publication late engine =>
    exact .inl (had_comparison (Delivery.finishApplyPatch_effect index publication late engine world) found)
  | exportPatch publication comparison =>
    exact .inl (had_comparison (Delivery.export_effect publication comparison world.state) found)
  | release index =>
    rw [step, (Delivery.releaseReservation_maps index world).2] at found
    exact .inl found
  | endJob index =>
    left
    rw [step, endJob] at found
    split at found
    · split_ifs at found
      · exact found
      · exact found
    · exact found
  | shutdown => exact .inl found
  | stop => exact .inl found
  | clearEntries =>
    left
    rw [step] at found
    split_ifs at found
    · cases found
    · exact found
  | clearAttachments =>
    left
    rw [step] at found
    split_ifs at found
    · obtain ⟨bytes, underflow, same⟩ := retainAttachments_eq world.state fun _ _ => false
      rw [same] at found
      exact found
    · exact found

/-- A step adds the job of the comparison it admits or none that compares. -/
theorem step_jobs {json : Paging.SerdeJson} {world : World} {event : Event} {job : Job}
    (member : job ∈ (step json world event).jobs) {before after : Str} {beforeInfo afterInfo : TextInfo} {originBytes : ℕ}
    (input : job.input = .compare before after beforeInfo afterInfo originBytes) :
    (∃ earlier ∈ world.jobs, earlier.input = .compare before after beforeInfo afterInfo originBytes) ∨
      (∃ admission beforeLabel afterLabel,
        event = .admitCompare admission before after beforeLabel afterLabel originBytes) ∧
        ValidText before ∧ ValidText after := by
  have set {index : ℕ} {old new : Job} (here : world.jobs[index]? = some old) (member : job ∈ world.jobs.set index new)
      (same : new.input = old.input) :
      ∃ earlier ∈ world.jobs, earlier.input = .compare before after beforeInfo afterInfo originBytes := by
    rcases List.mem_or_eq_of_mem_set member with member | rfl
    · exact ⟨job, member, input⟩
    · exact ⟨old, List.mem_of_getElem? here, by rw [← same]; exact input⟩
  cases event with
  | admitCompare admission first second beforeLabel afterLabel bytes =>
    rw [step, admitCompare] at member
    split at member
    · exact .inl ⟨job, member, input⟩
    · next firstInfo secondInfo checked =>
      obtain ⟨info, firstOk, checked⟩ := bind_eq_ok.mp checked
      obtain ⟨info', secondOk, checked⟩ := bind_eq_ok.mp checked
      rcases admitJob_cases admission compareFull (.compare first second firstInfo secondInfo bytes) world with
        ⟨shutdown, same⟩ | same | ⟨-, same⟩
      · rw [same] at member; exact .inl ⟨job, member, input⟩
      · rw [same] at member; exact .inl ⟨job, member, input⟩
      · rw [same] at member
        rcases List.mem_append.mp member with member | member
        · exact .inl ⟨job, member, input⟩
        · rw [List.mem_singleton.mp member] at input
          cases input
          exact .inr ⟨⟨admission, beforeLabel, afterLabel, rfl⟩, validText_of_textInfo firstOk, validText_of_textInfo secondOk⟩
  | admitApplyPatch admission target patch =>
    left
    rw [step, admitApplyPatch] at member
    rcases admitJob_cases admission applyPatchFull (.applyPatch target patch) world with ⟨shutdown, same⟩ | same | ⟨-, same⟩
    · rw [same] at member; exact ⟨job, member, input⟩
    · rw [same] at member; exact ⟨job, member, input⟩
    · rw [same] at member
      rcases List.mem_append.mp member with member | member
      · exact ⟨job, member, input⟩
      · rw [List.mem_singleton.mp member] at input
        cases input
  | finishCompare index completion engine =>
    left
    rw [step, finishCompare] at member
    split at member
    · next here =>
      dsimp only at member
      split at member
      · exact set here member rfl
      · exact set here member rfl
    · exact ⟨job, member, input⟩
  | finishApplyPatch index publication late engine =>
    left
    rw [step, finishApplyPatch] at member
    split at member
    · next here =>
      dsimp only at member
      split at member
      · exact set here member rfl
      · exact set here member rfl
    · exact ⟨job, member, input⟩
  | release index =>
    left
    rw [step, releaseReservation] at member
    split at member
    · next here =>
      split_ifs at member
      · exact ⟨job, member, input⟩
      · exact set here member rfl
    · exact ⟨job, member, input⟩
  | endJob index =>
    left
    rw [step, endJob] at member
    split at member
    · split_ifs at member
      · exact ⟨job, List.mem_of_mem_eraseIdx member, input⟩
      · exact ⟨job, member, input⟩
    · exact ⟨job, member, input⟩
  | deleteComparison _ | clearEntries | clearAttachments =>
    left
    rw [step] at member
    split_ifs at member
    · exact ⟨job, member, input⟩
    · exact ⟨job, member, input⟩
  | upload _ _ _ | read _ _ _ | deleteAttachment _ _ _ | sweep _ | resolve _ _ _ _ | dropLease _ | exportPatch _ _
  | shutdown | stop => exact .inl ⟨job, member, input⟩

theorem Submitted.append {events : List Event} {before after : Str} (submitted : Submitted events before after)
    (more : List Event) : Submitted (events ++ more) before after := by
  obtain ⟨admission, beforeLabel, afterLabel, originBytes, member⟩ := submitted
  exact ⟨admission, beforeLabel, afterLabel, originBytes, List.mem_append_left _ member⟩

/-- Every stored comparison of a run is one of two submitted texts. -/
theorem run_sources (json : Paging.SerdeJson) (events : List Event) : Sources json events (run json start events) := by
  induction events using List.reverseRecOn with
  | nil =>
    constructor
    · intro job member
      cases member
    · intro id stored found
      cases found
  | append_singleton events event ih =>
    rw [run_append]
    change Sources json (events ++ [event]) (step json (run json start events) event)
    constructor
    · intro job member before after beforeInfo afterInfo originBytes input
      rcases step_jobs member input with ⟨earlier, present, same⟩ | ⟨⟨admission, beforeLabel, afterLabel, rfl⟩, valid⟩
      · obtain ⟨submitted, valid⟩ := ih.jobs earlier present before after beforeInfo afterInfo originBytes same
        exact ⟨submitted.append _, valid⟩
      · exact ⟨⟨admission, beforeLabel, afterLabel, originBytes, by simp⟩, valid⟩
    · intro id stored found
      rcases step_entries found with present | ⟨index, completion, engine, before, after, beforeInfo, afterInfo, originBytes,
        token, summary, final, here, published, found⟩
      · have served := ih.entries id stored present
        exact { served with submitted := served.submitted.append _ }
      · obtain ⟨submitted, beforeValid, afterValid⟩ := ih.jobs _ (List.mem_of_getElem? here) before after beforeInfo
          afterInfo originBytes rfl
        obtain ⟨other, rfl, served⟩ := publishComparison_served (submitted.append [event]) beforeValid afterValid published
        rcases Map.get_of_get_insert found with ⟨rfl, rfl⟩ | ⟨-, present⟩
        · exact served
        · have served := ih.entries id stored present
          exact { served with submitted := served.submitted.append _ }

/-! ## Serving -/

/-- A page request at some later time. -/
structure Visit where
  later : List Event
  sweep : Sweep

namespace Visit

/-- The state in which the request looks up the comparison. -/
def state (json : Paging.SerdeJson) (world : World) (visit : Visit) : State :=
  expire visit.sweep (run json world visit.later).state

def page (json : ResponseJson) (world : World) (request : PageRequest) (visit : Visit) :
    Except TextDiffError PageResponse :=
  (Service.page json visit.sweep request (run json.toSerdeJson world visit.later).state).1

end Visit

def shownText (response : Except TextDiffError PageResponse) : Str :=
  match response with
  | .ok response => response.text.getD []
  | .error _ => []

/-- A page of a served comparison that is still stored. -/
theorem page_ok {json : ResponseJson} (compact : json.IsCompact) {events : List Event} {id : Str} {stored : Stored}
    (served : Served json.toSerdeJson events id stored) {sweep : Sweep} {state : State}
    (present : (expire sweep state).entries.get id = some stored) {view : PageView} {page : ℕ}
    (inside : page < totalPages stored view) :
    (Service.page json sweep ⟨id, view, page⟩ state).1 = .ok {
      comparisonId := id
      view
      page
      totalPages := totalPages stored view
      text := pieceOf stored view page
      fragments := fragmentsOf stored view page } := by
  obtain ⟨computed, additions, deletions, checked⟩ := served.changes
  have packed := Paging.changes_packed compact.toIsCompact served.before served.after checked
  have handle : byteLen id = 64 := by
    have valid := served.handle
    rw [validHandle, Bool.and_eq_true, decide_eq_true_eq] at valid
    exact valid.1
  have textLimit : maxTextBytes = 1048576 := rfl
  have reservation : jobReservation = 33554432 := rfl
  have few : totalPages stored view < 10 ^ 10 := by
    have pages := served.pages
    have before := Paging.chunks_length_le stored.before
    have after := Paging.chunks_length_le stored.after
    have beforeBytes := served.before.bytes
    have afterBytes := served.after.bytes
    cases view with
    | changes => rw [totalPages]; omega
    | before => rw [totalPages]; omega
    | after => rw [totalPages]; omega
  have fits : Paging.PageFits json.toSerdeJson (fragmentsOf stored view page) := by
    have none : Paging.PageFits json.toSerdeJson [] := ⟨Nat.zero_le _, Nat.zero_le _⟩
    cases view with
    | changes =>
      rw [totalPages] at inside
      rw [fragmentsOf, List.getElem?_eq_getElem inside, Option.getD_some]
      exact packed _ (List.getElem_mem inside)
    | before => exact none
    | after => exact none
  have piece : ∀ text, pieceOf stored view page = some text →
      byteLen text ≤ 32 * 1024 ∧ fragmentsOf stored view page = [] := by
    intro text found
    cases view with
    | changes => cases found
    | before => exact ⟨Paging.chunks_bounded stored.before text (List.mem_of_getElem? found), rfl⟩
    | after => exact ⟨Paging.chunks_bounded stored.after text (List.mem_of_getElem? found), rfl⟩
  rw [Service.page]
  simp only [served.handle, Bool.not_true, Bool.false_eq_true, if_false, present, Option.elim_some, ok_bind,
    pageContent_ok inside]
  rw [if_neg]
  · rfl
  rw [compact.responseLen]
  exact not_lt.mpr (compactResponseLen_le compact.toIsCompact rfl handle (inside.trans few) few fits piece)

theorem flatten_pieces {pieces : List Str} {shown : ℕ → Str}
    (same : ∀ page, page < pieces.length → pieces[page]? = some (shown page)) :
    ((List.range pieces.length).map shown).flatten = pieces.flatten := by
  congr 1
  apply List.ext_getElem?
  intro page
  by_cases inside : page < pieces.length
  · rw [same page inside, List.getElem?_map, List.getElem?_range inside, Option.map_some]
  · rw [List.getElem?_eq_none (not_lt.mp inside), List.getElem?_eq_none (by simpa using inside)]

/-- Every page of a comparison that a run has stored is served, at any later time at which the comparison
is still there, and the text pages read in order, whatever happens in between, give the submitted texts.
The fragments it serves were packed with an estimate that is short by 1024 bytes at most. -/
theorem page_serves (json : ResponseJson) (compact : json.IsCompact) (events : List Event) (id : Str) (stored : Stored)
    (present : (run json.toSerdeJson start events).state.entries.get id = some stored) :
    let world := run json.toSerdeJson start events
    let stands (visit : Visit) : Prop := (visit.state json.toSerdeJson world).entries.get id = some stored
    Submitted events stored.before stored.after ∧
      (∃ computed additions deletions,
        Paging.changes json.toSerdeJson computed stored.before stored.after = .ok (stored.changes, additions, deletions) ∧
        ∀ state, Paging.AtHead json.toSerdeJson computed stored.before stored.after state →
          ∀ part, state.part = some part → json.fragmentLen part.finish ≤ part.encoded + 1024) ∧
      (∀ view page visit, stands visit → page < totalPages stored view → ∃ response,
        visit.page json world ⟨id, view, page⟩ = .ok response ∧ response.totalPages = totalPages stored view) ∧
      ∀ visits : ℕ → Visit, (∀ page, stands (visits page)) →
        ((List.range (totalPages stored .before)).map fun page =>
          shownText ((visits page).page json world ⟨id, .before, page⟩)).flatten = stored.before ∧
        ((List.range (totalPages stored .after)).map fun page =>
          shownText ((visits page).page json world ⟨id, .after, page⟩)).flatten = stored.after := by
  have served := (run_sources json.toSerdeJson events).entries id stored present
  obtain ⟨computed, additions, deletions, checked⟩ := served.changes
  refine ⟨served.submitted, ⟨computed, additions, deletions, checked, ?_⟩, ?_, ?_⟩
  · intro state head part opened
    rw [compact.fragmentLen]
    exact ((head.packing compact.toIsCompact served.before served.after).estimated part opened).fragmentLen_le
  · intro view page visit stands inside
    exact ⟨_, page_ok compact served stands inside, rfl⟩
  · intro visits stand
    constructor
    · rw [totalPages, flatten_pieces, Paging.chunks_flatten]
      intro page inside
      rw [Visit.page, page_ok compact served (stand page) inside]
      simp only [shownText, pieceOf, List.getElem?_eq_getElem inside, Option.getD_some]
    · rw [totalPages, flatten_pieces, Paging.chunks_flatten]
      intro page inside
      rw [Visit.page, page_ok compact served (stand page) inside]
      simp only [shownText, pieceOf, List.getElem?_eq_getElem inside, Option.getD_some]

/-- A comparison of two texts that differ in one line. -/
def oneLineChanged : List Event :=
  [.admitCompare ⟨quiet, false, false⟩ "x\na\ny".toList "x\nb\ny".toList none none 4,
    .finishCompare 0 ⟨false, false, repeating 200, 0, 0, fun _ => 0, 0⟩ (.ok {
      patch := "--- before\n+++ after\n@@ -2 +2 @@\n-a\n+b\n".toList
      inlineChanges := [⟨.before, 1, [(0, 1)]⟩, ⟨.after, 1, [(0, 1)]⟩] })]

theorem page_serves_oneLineChanged :
    let world := run ResponseJson.compact.toSerdeJson start oneLineChanged
    let id := handleOf (Vector.replicate 32 200)
    (∃ response, (Visit.mk [] quiet).page .compact world ⟨id, .changes, 0⟩ = .ok response ∧ response.totalPages = 1) ∧
      shownText ((Visit.mk [.shutdown] quiet).page .compact world ⟨id, .before, 0⟩) = "x\na\ny".toList := by
  intro world id
  have kept : (expire quiet world.state).entries.get id = world.state.entries.get id := by decide +kernel
  have sizes : (world.state.entries.get id).map (fun stored => (stored.changes.length, stored.before)) =
      some (1, "x\na\ny".toList) := by decide +kernel
  obtain ⟨stored, present, same⟩ := Option.map_eq_some_iff.mp sizes
  obtain ⟨pages, text⟩ := Prod.mk.inj same
  obtain ⟨-, -, served, exact⟩ := page_serves .compact ⟨⟨fun _ => rfl, fun _ => rfl⟩, fun _ => rfl⟩ oneLineChanged id stored present
  have one : totalPages stored .before = 1 := by
    rw [totalPages, text]
    decide +kernel
  constructor
  · obtain ⟨response, shown, total⟩ := served .changes 0 ⟨[], quiet⟩ (kept.trans present) (by rw [totalPages, pages]; decide)
    exact ⟨response, shown, total.trans pages⟩
  · obtain ⟨before, -⟩ := exact (fun _ => ⟨[.shutdown], quiet⟩) fun _ => kept.trans present
    rw [one, text] at before
    simpa using before

end OpenLegal.TextDiff.Service
