import OpenLegal.Widget.DiffRows

/-! # Pages of a comparison

The widget checks a page against what it asked for and against budgets of rows, ranges and bytes before it keeps any fragment.
Every fragment that it keeps has rows, and all of them are shown.
-/

namespace OpenLegal.Widget

open Rust Rust.Str Theory

/-! ## JSON texts -/

/-- The escapes of `JSON.stringify`. -/
def escapePoint (step : JsString × ℕ) : JsString :=
  let digit (n : ℕ) : UInt16 := UInt16.ofNat (if n < 10 then 0x30 + n else 0x57 + n)
  let unicode (n : ℕ) := units "\\u" ++ [digit (n / 0x1000), digit (n / 0x100 % 0x10), digit (n / 0x10 % 0x10), digit (n % 0x10)]
  if step.2 = 0x22 then units "\\\""
  else if step.2 = 0x5c then units "\\\\"
  else if step.2 = 0x08 then units "\\b"
  else if step.2 = 0x0c then units "\\f"
  else if step.2 = 0x0a then units "\\n"
  else if step.2 = 0x0d then units "\\r"
  else if step.2 = 0x09 then units "\\t"
  else if step.2 < 0x20 || isSurrogate step.2 then unicode step.2
  else step.1

def stringifyString (s : JsString) : JsString := units "\"" ++ (codePoints s).flatMap escapePoint ++ units "\""

def stringifyNumber (n : ℕ) : JsString := units (toString n)

def stringifyArray (items : List JsString) : JsString := units "[" ++ List.intercalate (units ",") items ++ units "]"

def stringifyObject (fields : List (String × JsString)) : JsString :=
  units "\x7b" ++ List.intercalate (units ",") (fields.map fun field => stringifyString (units field.1) ++ units ":" ++ field.2) ++
    units "\x7d"

def stringifyRange (range : ScalarRange) : JsString := stringifyArray [stringifyNumber range.1, stringifyNumber range.2]

def stringifyChange (change : InlineChange) : JsString :=
  stringifyObject [("row_index", stringifyNumber change.rowIndex), ("ranges", stringifyArray (change.ranges.map stringifyRange))]

def stringifyFragment (fragment : Fragment) : JsString :=
  stringifyObject [("inline_changes", stringifyArray (fragment.inlineChanges.map stringifyChange)),
    ("patch", stringifyString fragment.patch), ("before_start", stringifyNumber fragment.beforeStart),
    ("before_count", stringifyNumber fragment.beforeCount), ("after_start", stringifyNumber fragment.afterStart),
    ("after_count", stringifyNumber fragment.afterCount)]

/-! ## Reading a page -/

inductive PageView where
  | changes | before | after
deriving DecidableEq, Repr

def viewName : PageView → JsString
  | .changes => units "changes"
  | .before => units "before"
  | .after => units "after"

structure DiffPage where
  comparisonId : JsString
  view : PageView
  page : ℕ
  totalPages : ℕ
  text : Option JsString
  fragments : List Fragment
deriving DecidableEq, Repr

def stringifyPage (page : DiffPage) : JsString :=
  stringifyObject ([("schema_version", stringifyNumber 1), ("comparison_id", stringifyString page.comparisonId),
    ("view", stringifyString (viewName page.view)), ("page", stringifyNumber page.page),
    ("total_pages", stringifyNumber page.totalPages),
    ("fragments", stringifyArray (page.fragments.map stringifyFragment))] ++
    page.text.toList.map fun text => ("text", stringifyString text))

structure PageBudget where
  rows : ℕ
  ranges : ℕ
  bytes : ℕ
deriving DecidableEq, Repr

def consumeBytes (budget : PageBudget) (bytes : ℕ) : Except String PageBudget :=
  if bytes > budget.bytes then .error unsupported else .ok { budget with bytes := budget.bytes - bytes }

def array : JsValue → Except String (List JsValue)
  | .array items => .ok items
  | _ => .error unsupported

/-- The loop over the ranges of one annotated row. -/
def parseRanges : List JsValue → List ScalarRange → PageBudget → Except String (List ScalarRange × PageBudget)
  | [], parsed, budget => .ok (parsed, budget)
  | value :: values, parsed, budget => do
    let ends ← array value
    check (ends.length ≠ 2) unsupported
    let start ← integer (ends.getD 0 .undefined) (maxLineBytes + 1)
    let stop ← integer (ends.getD 1 .undefined) (maxLineBytes + 1)
    let budget ← consumeBytes budget (utf8Length (stringifyRange (start, stop)) + if parsed.isEmpty then 0 else 1)
    parseRanges values (parsed ++ [(start, stop)]) budget

/-- The loop over the annotated rows. -/
def parseChanges : List JsValue → List InlineChange → PageBudget → Except String (List InlineChange × PageBudget)
  | [], parsed, budget => .ok (parsed, budget)
  | value :: values, parsed, budget => do
    let entry ← object value
    let ranges ← array (entry.get "ranges")
    check (ranges.length > budget.ranges) unsupported
    let budget := { budget with ranges := budget.ranges - ranges.length }
    let rowIndex ← integer (entry.get "row_index") 399
    let budget ← consumeBytes budget (utf8Length (stringifyChange ⟨rowIndex, []⟩) + if parsed.isEmpty then 0 else 1)
    check (ranges.length * 5 > budget.bytes) unsupported
    let (ranges, budget) ← parseRanges ranges [] budget
    parseChanges values (parsed ++ [⟨rowIndex, ranges⟩]) budget

def parseFragment (value : JsValue) (budget : PageBudget) : Except String (Fragment × PageBudget) := do
  check (budget.rows = 0 || budget.bytes = 0) unsupported
  let fragment ← object value
  let patch ← string (fragment.get "patch") budget.bytes
  let beforeStart ← integer (fragment.get "before_start") maxLines
  let beforeCount ← integer (fragment.get "before_count") budget.rows
  let afterStart ← integer (fragment.get "after_start") maxLines
  let afterCount ← integer (fragment.get "after_count") budget.rows
  let skeleton : Fragment := ⟨[], patch, beforeStart, beforeCount, afterStart, afterCount⟩
  let budget ← consumeBytes budget (utf8Length (stringifyFragment skeleton))
  let rows ← patchRows skeleton budget.rows
  let budget := { budget with rows := budget.rows - rows.length }
  let changes ← array (fragment.get "inline_changes")
  check (changes.length > rows.length) unsupported
  let (inlineChanges, budget) ← parseChanges changes [] budget
  let result := { skeleton with inlineChanges }
  let _ ← validateInlineChanges result rows
  pure (result, budget)

/-- The comma before a further fragment. -/
def separate (parsed : List Fragment) (budget : PageBudget) : Except String PageBudget :=
  if parsed.isEmpty then .ok budget else consumeBytes budget 1

/-- The loop over the fragments of a page. -/
def parseFragments : List JsValue → List Fragment → PageBudget → Except String (List Fragment)
  | [], parsed, _ => .ok parsed
  | value :: values, parsed, budget => do
    let budget ← separate parsed budget
    let (fragment, budget) ← parseFragment value budget
    parseFragments values (parsed ++ [fragment]) budget

/-- What the widget asked for. -/
structure Expected where
  comparisonId : JsString
  view : PageView
  page : ℕ

def isString (text : JsString) : JsValue → Bool
  | .string value => value = text
  | _ => false

def isUndefined : JsValue → Bool
  | .undefined => true
  | _ => false

def pageText (value : JsValue) : Except String (Option JsString) :=
  if isUndefined value then .ok none else some <$> string value (32 * 1024)

/-- The fragments of a page of changes; the other pages have a text instead. -/
def pageFragments (parsed : DiffPage) (fragments : List JsValue) : Except String (List Fragment) :=
  if parsed.view = .changes then do
    check (parsed.text.isSome || fragments.isEmpty) unsupported
    let budget ← consumeBytes ⟨400, 4096, 256 * 1024⟩ (utf8Length (stringifyPage parsed))
    parseFragments fragments [] budget
  else do
    check (!fragments.isEmpty || parsed.text.isNone) unsupported
    pure []

def parsePage (result : JsValue) (expected : Expected) : Except String DiffPage := do
  let value ← data result
  check (!isCount 1 (value.get "schema_version")) unsupported
  let id ← identity (value.get "comparison_id")
  check (id ≠ expected.comparisonId || !isString (viewName expected.view) (value.get "view") || !isCount expected.page (value.get "page"))
    unsupported
  let total ← integer (value.get "total_pages") (if expected.view = .changes then maxLines * 2 else 33)
  let page ← integer (value.get "page") (maxLines * 2)
  check (total = 0 || page ≥ total) unsupported
  let fragments ← array (value.get "fragments")
  check (fragments.length > 400) unsupported
  let text ← pageText (value.get "text")
  let parsed : DiffPage := ⟨id, expected.view, page, total, text, []⟩
  let kept ← pageFragments parsed fragments
  let parsed := { parsed with fragments := kept }
  check (utf8Length (stringifyPage parsed) > 256 * 1024) unsupported
  pure parsed

/-! ## What an accepted page shows -/

variable {budget rest : PageBudget}

theorem consumeBytes_rows {bytes : ℕ} (consumed : consumeBytes budget bytes = .ok rest) : rest.rows = budget.rows := by
  rw [consumeBytes, ite_error_eq_ok] at consumed
  cases consumed.2
  rfl

theorem parseRanges_rows {values : List JsValue} {parsed ranges : List ScalarRange}
    (read : parseRanges values parsed budget = .ok (ranges, rest)) : rest.rows = budget.rows := by
  induction values generalizing parsed budget with
  | nil =>
    cases read
    rfl
  | cons value values ih =>
    simp only [parseRanges, bind_eq_ok] at read
    obtain ⟨_, -, _, -, _, -, _, -, consumed, bytes, read⟩ := read
    exact (ih read).trans (consumeBytes_rows bytes)

theorem parseChanges_rows {values : List JsValue} {parsed changes : List InlineChange}
    (read : parseChanges values parsed budget = .ok (changes, rest)) : rest.rows = budget.rows := by
  induction values generalizing parsed budget with
  | nil =>
    cases read
    rfl
  | cons value values ih =>
    simp only [parseChanges, bind_eq_ok] at read
    obtain ⟨_, -, _, -, _, -, _, -, consumed, bytes, _, -, ⟨ranges, ranged⟩, each, read⟩ := read
    exact ((ih read).trans (parseRanges_rows each)).trans (consumeBytes_rows bytes :)

/-- A fragment that was kept has rows, and the rows left to the page do not grow. -/
theorem parseFragment_rows {value : JsValue} {fragment : Fragment} (read : parseFragment value budget = .ok (fragment, rest))
    (bounded : budget.rows ≤ 400) : rest.rows ≤ 400 ∧ ∃ rows, fragmentRows fragment = .ok rows := by
  simp only [parseFragment, bind_eq_ok, pure_eq_ok] at read
  obtain ⟨_, -, _, -, patch, -, beforeStart, -, beforeCount, -, afterStart, -, afterCount, -, consumed, bytes, rows, patched, _, -,
    _, -, ⟨inlineChanges, left⟩, changed, annotated, validated, same⟩ := read
  cases same
  have fewer := consumeBytes_rows bytes
  have kept := parseChanges_rows changed
  refine ⟨by rw [kept]; dsimp only; omega, annotated, ?_⟩
  have again : patchRows ⟨inlineChanges, patch, beforeStart, beforeCount, afterStart, afterCount⟩ 400 = .ok rows :=
    (patchRows_spec patched).2.2 400 (by omega)
  rw [fragmentRows, again]
  exact validated

theorem parseFragments_rows {values : List JsValue} {parsed fragments : List Fragment}
    (known : ∀ fragment ∈ parsed, ∃ rows, fragmentRows fragment = .ok rows) (bounded : budget.rows ≤ 400)
    (read : parseFragments values parsed budget = .ok fragments) : ∀ fragment ∈ fragments, ∃ rows, fragmentRows fragment = .ok rows := by
  induction values generalizing parsed budget with
  | nil =>
    cases read
    exact known
  | cons value values ih =>
    simp only [parseFragments, bind_eq_ok] at read
    obtain ⟨separated, comma, ⟨fragment, left⟩, first, read⟩ := read
    have same : separated.rows = budget.rows := by
      rw [separate] at comma
      split at comma
      · cases comma
        rfl
      · exact consumeBytes_rows comma
    obtain ⟨fewer, rows⟩ := parseFragment_rows first (same ▸ bounded)
    apply ih ?_ fewer read
    rw [List.forall_mem_append]
    exact ⟨known, List.forall_mem_singleton.mpr rows⟩

theorem pageFragments_rows {parsed : DiffPage} {values : List JsValue} {fragments : List Fragment}
    (read : pageFragments parsed values = .ok fragments) : ∀ fragment ∈ fragments, ∃ rows, fragmentRows fragment = .ok rows := by
  rw [pageFragments] at read
  split at read
  · simp only [bind_eq_ok] at read
    obtain ⟨_, -, budget, consumed, read⟩ := read
    have bounded : budget.rows = 400 := consumeBytes_rows consumed
    exact parseFragments_rows (List.forall_mem_nil _) (le_of_eq bounded) read
  · simp only [bind_eq_ok, pure_eq_ok] at read
    obtain ⟨_, -, same⟩ := read
    cases same
    exact List.forall_mem_nil _

/-- Every fragment of an accepted page has rows. Each of them is shown whole in segments marked as its ranges say, and each side of
the split view shows exactly its rows, in order. -/
theorem rows_shown {result : JsValue} {expected : Expected} {page : DiffPage} (accepted : parsePage result expected = .ok page) :
    ∀ fragment ∈ page.fragments, ∃ rows, fragmentRows fragment = .ok rows ∧
      (∀ row ∈ rows, RowShown row (scalarSegments row.text row.ranges)) ∧ SplitShown rows (splitRows rows) := by
  simp only [parsePage, bind_eq_ok, pure_eq_ok] at accepted
  obtain ⟨_, -, _, -, id, -, _, -, total, -, number, -, _, -, _, -, _, -, text, -, fragments, kept, _, -, same⟩ := accepted
  cases same
  intro fragment member
  obtain ⟨rows, read⟩ := pageFragments_rows kept fragment member
  exact ⟨rows, read, fun row inside => rowShown (fragmentRows_spec read row inside), splitShown rows⟩

/-- A fragment with a row of each kind; one of its scalars takes two units. -/
def sampleFragment : Fragment where
  inlineChanges := [⟨1, [(1, 2)]⟩, ⟨2, []⟩]
  patch := units "--- before\n+++ after\n@@ -1,2 +1,2 @@\n a\n-b😀\n+c\n"
  beforeStart := 1
  beforeCount := 2
  afterStart := 1
  afterCount := 2

def samplePage : DiffPage := ⟨List.replicate 64 0x61, .changes, 0, 1, none, [sampleFragment]⟩

/-- The response for that page. -/
def sampleResult : JsValue :=
  let range : JsValue := .array [.number 1, .number 2]
  let changes : JsValue := .array [.object [("row_index", .number 1), ("ranges", .array [range])],
    .object [("row_index", .number 2), ("ranges", .array [])]]
  let fragment : JsValue := .object [("patch", .string sampleFragment.patch), ("before_start", .number 1), ("before_count", .number 2),
    ("after_start", .number 1), ("after_count", .number 2), ("inline_changes", changes)]
  toolResult (.object [("schema_version", .number 1), ("comparison_id", .string samplePage.comparisonId),
    ("view", .string (units "changes")), ("page", .number 0), ("total_pages", .number 1), ("fragments", .array [fragment])])

theorem rows_shown_sample : parsePage sampleResult ⟨samplePage.comparisonId, .changes, 0⟩ = .ok samplePage ∧
    ∃ rows, fragmentRows sampleFragment = .ok rows ∧ SplitShown rows (splitRows rows) := by
  have accepted : parsePage sampleResult ⟨samplePage.comparisonId, .changes, 0⟩ = .ok samplePage := by decide +kernel
  obtain ⟨rows, read, -, split⟩ := rows_shown accepted sampleFragment List.mem_cons_self
  exact ⟨accepted, rows, read, split⟩

end OpenLegal.Widget
