import OpenLegal.Legal.Scan

/-! # Verdicts of compiled queries

The verdict on a document does not depend on the parts that a query says it does not need, so that a scan that
leaves them out decides as it would with all parts. Without negation, one engine alone satisfies the formula.
-/

namespace OpenLegal.Legal

open Rust Rust.Str Theory Polled

namespace CompiledQuery

/-! ## Fields that agree -/

/-- Two fields that differ at most in their tokens, and there only if their kind is ignored. -/
def Agrees (ignored : QueryField → Bool) (first second : FieldText) : Prop :=
  first.kind = second.kind ∧ first.text = second.text ∧ (ignored first.kind = false → first.tokens = second.tokens)

section Agrees

variable {ignored : QueryField → Bool} {fields fields' : List FieldText}

theorem any_congr {decide decide' : FieldText → Bool} (agree : List.Forall₂ (Agrees ignored) fields fields')
    (each : ∀ first second, first ∈ fields → Agrees ignored first second → decide first = decide' second) :
    fields.any decide = fields'.any decide' := by
  induction agree with
  | nil => rfl
  | cons head tail ih =>
    rw [List.any_cons, List.any_cons, each _ _ (List.mem_cons_self ..) head,
      ih fun first second member => each first second (List.mem_cons_of_mem _ member)]

/-- A field scope selects the same fields on both sides. -/
theorem agrees_filter (agree : List.Forall₂ (Agrees ignored) fields fields') (kind : QueryField) :
    List.Forall₂ (Agrees ignored) (fields.filter (·.kind == kind)) (fields'.filter (·.kind == kind)) := by
  induction agree with
  | nil => exact .nil
  | cons head tail ih =>
    rw [List.filter_cons, List.filter_cons, ← head.1]
    split_ifs
    · exact .cons head ih
    · exact ih

/-- Within a kind that is not ignored the fields are the same. -/
theorem filter_eq_of_agrees (agree : List.Forall₂ (Agrees ignored) fields fields') {kind : QueryField}
    (kept : ignored kind = false) : fields.filter (·.kind == kind) = fields'.filter (·.kind == kind) := by
  induction agree with
  | nil => rfl
  | @cons first second _ _ head tail ih =>
    rw [List.filter_cons, List.filter_cons, ← head.1, ih]
    split_ifs with here
    · have same : first = second := by
        obtain ⟨_, _, _⟩ := first
        obtain ⟨_, _, _⟩ := second
        obtain ⟨rfl, rfl, tokens⟩ := head
        cases tokens (eq_of_beq here ▸ kept)
        rfl
      rw [same]
    · rfl

mutual

/-- A query without terms looks at no tokens. -/
theorem evaluate_tokenless : ∀ (query : CompiledQuery) {fields fields' : List FieldText},
    needsTokens query = false → List.Forall₂ (Agrees ignored) fields fields' →
      evaluate fields query = evaluate fields' query
  | .all, _, _, _, _ => rfl
  | .exact text, fields, fields', _, agree => by
    have same : fields.any (fun field => contains field.text text) = fields'.any fun field => contains field.text text :=
      any_congr agree fun first second _ here => by rw [here.2.1]
    rw [evaluate, evaluate, same]
  | .not child, _, _, needless, agree => by
    rw [needsTokens] at needless
    rw [evaluate, evaluate, evaluate_tokenless child needless agree]
  | .and children, _, _, needless, agree => by
    rw [needsTokens] at needless
    rw [evaluate, evaluate, (evaluateAll_tokenless children needless agree).1]
  | .or children, _, _, needless, agree => by
    rw [needsTokens] at needless
    rw [evaluate, evaluate, (evaluateAll_tokenless children needless agree).2]
  | .field kind child, _, _, needless, agree => by
    rw [needsTokens] at needless
    rw [evaluate, evaluate, evaluate_tokenless child needless (agrees_filter agree kind)]

theorem evaluateAll_tokenless : ∀ (children : List CompiledQuery) {fields fields' : List FieldText},
    anyNeedsTokens children = false → List.Forall₂ (Agrees ignored) fields fields' →
      evaluateAll fields children = evaluateAll fields' children ∧ evaluateAny fields children = evaluateAny fields' children
  | [], _, _, _, _ => ⟨rfl, rfl⟩
  | child :: children, _, _, needless, agree => by
    rw [anyNeedsTokens, Bool.or_eq_false_iff] at needless
    have head := evaluate_tokenless child needless.1 agree
    obtain ⟨all, any⟩ := evaluateAll_tokenless children needless.2 agree
    rw [evaluateAll, evaluateAll, evaluateAny, evaluateAny, head, all, any]
    exact ⟨rfl, rfl⟩

end

end Agrees

/-! ## Parts that are not needed -/

def ignoresCase (kind : QueryField) : Bool := kind == .caseNumber

section Skipped

variable {fields fields' : List FieldText}

/-- Where the case number is all that is ignored, its tokens matter to its own field and to open terms only. -/
theorem evaluate_field_caseless {kind : QueryField} {child : CompiledQuery}
    (needless : needsCaseTokens (.field kind child) = false)
    (agree : List.Forall₂ (Agrees ignoresCase) fields fields') :
    evaluate fields (.field kind child) = evaluate fields' (.field kind child) := by
  rw [evaluate, evaluate]
  cases kept : ignoresCase kind with
  | false => rw [filter_eq_of_agrees agree kept]
  | true =>
    rw [needsCaseTokens, Bool.and_eq_false_iff] at needless
    rcases needless with other | tokenless
    · rw [ignoresCase, other] at kept
      cases kept
    · exact evaluate_tokenless child tokenless (agrees_filter agree kind)

mutual

theorem evaluate_caseless : ∀ (query : CompiledQuery), needsCaseTokens query = false →
    List.Forall₂ (Agrees ignoresCase) fields fields' → evaluate fields query = evaluate fields' query
  | .all, _, _ => rfl
  | .exact text, _, agree => evaluate_tokenless (.exact text) rfl agree
  | .not child, needless, agree => by
    rw [needsCaseTokens] at needless
    rw [evaluate, evaluate, evaluate_caseless child needless agree]
  | .and children, needless, agree => by
    rw [needsCaseTokens] at needless
    rw [evaluate, evaluate, (evaluateAll_caseless children needless agree).1]
  | .or children, needless, agree => by
    rw [needsCaseTokens] at needless
    rw [evaluate, evaluate, (evaluateAll_caseless children needless agree).2]
  | .field _ _, needless, agree => evaluate_field_caseless needless agree

theorem evaluateAll_caseless : ∀ (children : List CompiledQuery), anyNeedsCaseTokens children = false →
    List.Forall₂ (Agrees ignoresCase) fields fields' →
      evaluateAll fields children = evaluateAll fields' children ∧ evaluateAny fields children = evaluateAny fields' children
  | [], _, _ => ⟨rfl, rfl⟩
  | child :: children, needless, agree => by
    rw [anyNeedsCaseTokens, Bool.or_eq_false_iff] at needless
    have head := evaluate_caseless child needless.1 agree
    obtain ⟨all, any⟩ := evaluateAll_caseless children needless.2 agree
    rw [evaluateAll, evaluateAll, evaluateAny, evaluateAny, head, all, any]
    exact ⟨rfl, rfl⟩

end

mutual

/-- A query about titles only looks at the fields of titles only. -/
theorem evaluate_onlyTitle : ∀ (query : CompiledQuery), onlyTitle query = true →
    fields.filter (·.kind == .title) = fields'.filter (·.kind == .title) → evaluate fields query = evaluate fields' query
  | .field kind child, titled, same => by
    rw [onlyTitle, beq_iff_eq] at titled
    rw [evaluate, evaluate, titled, same]
  | .not child, titled, same => by
    rw [onlyTitle] at titled
    rw [evaluate, evaluate, evaluate_onlyTitle child titled same]
  | .and children, titled, same => by
    rw [onlyTitle] at titled
    rw [evaluate, evaluate, (evaluateAll_onlyTitle children titled same).1]
  | .or children, titled, same => by
    rw [onlyTitle] at titled
    rw [evaluate, evaluate, (evaluateAll_onlyTitle children titled same).2]

theorem evaluateAll_onlyTitle : ∀ (children : List CompiledQuery), allOnlyTitle children = true →
    fields.filter (·.kind == .title) = fields'.filter (·.kind == .title) →
      evaluateAll fields children = evaluateAll fields' children ∧ evaluateAny fields children = evaluateAny fields' children
  | [], _, _ => ⟨rfl, rfl⟩
  | child :: children, titled, same => by
    rw [allOnlyTitle, Bool.and_eq_true] at titled
    have head := evaluate_onlyTitle child titled.1 same
    obtain ⟨all, any⟩ := evaluateAll_onlyTitle children titled.2 same
    rw [evaluateAll, evaluateAll, evaluateAny, evaluateAny, head, all, any]
    exact ⟨rfl, rfl⟩

end

end Skipped

section Verdict

variable {query : CompiledQuery} {parts parts' : Parts}

theorem matchesParts_of_onlyTitle (titled : query.onlyTitle = true) (title : parts.title = parts'.title)
    (tokens : parts.titleTokens = parts'.titleTokens) : query.matchesParts parts = query.matchesParts parts' := by
  have same : parts.fields.filter (·.kind == .title) = parts'.fields.filter (·.kind == .title) := by
    simp [Parts.fields, title, tokens]
  simp only [matchesParts, evaluate_onlyTitle query titled same]

theorem matchesParts_of_not_needsTokens (needless : query.needsTokens = false) (title : parts.title = parts'.title)
    (body : parts.body = parts'.body) (caseNumber : parts.caseNumber = parts'.caseNumber) :
    query.matchesParts parts = query.matchesParts parts' := by
  have agree : List.Forall₂ (Agrees fun _ => true) parts.fields parts'.fields := by
    simp [Parts.fields, Agrees, title, body, caseNumber]
  simp only [matchesParts, evaluate_tokenless query needless agree]

theorem matchesParts_of_not_needsCaseTokens (needless : query.needsCaseTokens = false)
    (tokens : AnalyzedText) :
    query.matchesParts { parts with caseNumberTokens := tokens } = query.matchesParts parts := by
  have agree : List.Forall₂ (Agrees ignoresCase) ({ parts with caseNumberTokens := tokens } : Parts).fields parts.fields := by
    simp [Parts.fields, Agrees, ignoresCase]
  simp only [matchesParts, evaluate_caseless query needless agree]

end Verdict

/-! ## Scans and the index -/

/-- The tokens of the selected body, which the index has if it is the body of the record. -/
def presentTokens (analyzer : KoreanAnalyzer) (selected body : Str) (bodyTokens : AnalyzedText) :
    Polled DatabaseError AnalyzedText :=
  if selected != body then analyzer.analyze selected else pure bodyTokens

theorem steady_presentTokens (analyzer : KoreanAnalyzer) (selected body : Str) (bodyTokens : AnalyzedText) :
    Steady (presentTokens analyzer selected body bodyTokens) :=
  Steady.ite (fun _ => analyzer.steady_analyze _) fun _ => Steady.pure _

/-- All parts that a request selects, with their tokens, whether a query needs them or not. -/
def allParts (analyzer : KoreanAnalyzer) (sections : List Searched) (doc : IndexedCapture AnalyzedText) :
    Polled DatabaseError Parts := do
  let record := doc.capture.record
  let selected := selectedBody sections (record.metadata.get caseNumberKey).isSome
  let titled := sections.any (·.name == "title".toList)
  let caseNumber :=
    if sections.any (·.name == caseNumberKey) then (record.metadata.get caseNumberKey).getD [] else []
  let bodyTokens ← presentTokens analyzer selected record.body doc.bodyTokens
  let caseNumberTokens ← analyzer.analyze caseNumber
  pure ⟨if titled then record.title else [], if titled then doc.titleTokens else .none, selected, bodyTokens,
    caseNumber, caseNumberTokens⟩

section Scan

variable {analyzer : KoreanAnalyzer} {query : CompiledQuery} {clock later : Clock DatabaseError}

theorem analyze_nil (analyzer : KoreanAnalyzer) : analyzer.analyze [] none = .ok (.none, none) := rfl

/-- The tokens of the case number that are used decide like all of them. -/
theorem matchesParts_caseNumberTokens {parts : Parts} {used : AnalyzedText}
    (present : analyzer.analyze parts.caseNumber none = .ok (parts.caseNumberTokens, none))
    (taken : query.caseNumberTokens analyzer parts.caseNumber clock = .ok (used, later)) :
    query.matchesParts { parts with caseNumberTokens := used } = query.matchesParts parts := by
  rw [caseNumberTokens] at taken
  split_ifs at taken with skipped
  · rw [Bool.or_eq_true, List.isEmpty_iff, Bool.not_eq_true'] at skipped
    rcases skipped with empty | needless
    · rw [empty, analyze_nil] at present
      simp only [Except.ok.injEq, Prod.mk.injEq, and_true] at present
      cases taken
      rw [present]
    · exact matchesParts_of_not_needsCaseTokens needless used
  · have same := analyzer.steady_analyze _ _ _ _ taken
    rw [present] at same
    simp only [Except.ok.injEq, Prod.mk.injEq, and_true] at same
    rw [← same]

theorem matchesDocument_eq {doc : IndexedCapture AnalyzedText} {verdict : Bool} {tokens : AnalyzedText}
    (present : analyzer.analyze ((doc.capture.record.metadata.get caseNumberKey).getD []) none = .ok (tokens, none))
    (decided : query.matchesDocument analyzer doc clock = .ok (verdict, later)) :
    verdict = query.matchesParts ⟨doc.capture.record.title, doc.titleTokens, doc.capture.record.body, doc.bodyTokens,
      (doc.capture.record.metadata.get caseNumberKey).getD [], tokens⟩ := by
  obtain ⟨used, middle, taken, decided⟩ := bind_eq_ok.mp decided
  cases decided
  exact @matchesParts_caseNumberTokens _ _ _ _ ⟨_, _, _, _, _, tokens⟩ used present taken

/-- The body that is used and its tokens decide like those that are there. -/
theorem matchesParts_selectBody {parts : Parts} {selected indexed body : Str} {bodyTokens used full : AnalyzedText}
    {titleTokens : AnalyzedText}
    (present : presentTokens analyzer selected indexed bodyTokens none = .ok (full, none))
    (chosen : selectBody analyzer query selected indexed bodyTokens clock = .ok ((body, used), later)) :
    query.matchesParts { parts with
        titleTokens := if query.needsTokens then titleTokens else .none
        body
        bodyTokens := if query.needsTokens then used else .none } =
      query.matchesParts { parts with titleTokens, body := selected, bodyTokens := full } := by
  rw [selectBody] at chosen
  cases needs : query.needsTokens with
  | false =>
    by_cases titled : query.onlyTitle = true
    · have other : query.matchesParts { parts with titleTokens := .none, body, bodyTokens := .none } =
          query.matchesParts { parts with titleTokens := .none, body := selected, bodyTokens := full } :=
        matchesParts_of_onlyTitle titled rfl rfl
      exact other.trans (matchesParts_of_not_needsTokens needs rfl rfl rfl)
    · rw [if_neg titled, needs, Bool.false_and, if_neg (by simp)] at chosen
      cases chosen
      exact matchesParts_of_not_needsTokens needs rfl rfl rfl
  | true =>
    by_cases titled : query.onlyTitle = true
    · exact matchesParts_of_onlyTitle titled rfl rfl
    · rw [if_neg titled, needs, Bool.true_and] at chosen
      rw [presentTokens] at present
      split_ifs at chosen present with other
      · obtain ⟨tokens, middle, analyzed, same⟩ := bind_eq_ok.mp chosen
        cases same
        have again := analyzer.steady_analyze _ _ _ _ analyzed
        rw [present] at again
        cases again
        rfl
      · cases chosen
        cases present
        rfl

/-- What is selected of a document decides like all of its parts. -/
theorem matchesDocument_selectDocument {sections : List Searched} {doc selected : IndexedCapture AnalyzedText}
    {middle : Clock DatabaseError} {parts : Parts} {verdict : Bool}
    (present : allParts analyzer sections doc none = .ok (parts, none))
    (chosen : selectDocument analyzer query sections doc clock = .ok (selected, middle))
    (decided : query.matchesDocument analyzer selected middle = .ok (verdict, later)) :
    verdict = query.matchesParts parts := by
  obtain ⟨full, _, fullBody, present⟩ := bind_eq_ok.mp present
  obtain ⟨tokens, _, fullCase, present⟩ := bind_eq_ok.mp present
  cases present
  obtain ⟨⟨body, used⟩, _, chosen, same⟩ := bind_eq_ok.mp chosen
  cases same
  have steadyBody := steady_presentTokens analyzer _ _ _ _ _ _ fullBody
  have caseNumber (metadata : Map Str Str) : ((if sections.any (·.name == caseNumberKey) then metadata
      else metadata.remove caseNumberKey).get caseNumberKey).getD [] =
        if sections.any (·.name == caseNumberKey) then (metadata.get caseNumberKey).getD [] else [] := by
    split_ifs
    · rfl
    · rw [Map.get_remove]
      rfl
  have steadyCase := analyzer.steady_analyze _ _ _ _ fullCase
  rw [← caseNumber] at steadyCase
  rw [matchesDocument_eq steadyCase decided, caseNumber]
  refine Eq.trans ?_ (@matchesParts_selectBody analyzer query clock _
    ⟨_, .none, [], .none, _, tokens⟩ _ _ _ _ _ _ (if sections.any (·.name == "title".toList) then doc.titleTokens else .none)
    steadyBody chosen)
  congr 2
  cases query.needsTokens <;> rfl

end Scan

/-- What the shortcuts of a query leave out does not change its verdict: not for any two documents that differ
there only, nor for the index and the scan, which do not load it. -/
theorem shortcuts_keep_verdict (analyzer : KoreanAnalyzer) (query : CompiledQuery) :
    (query.onlyTitle = true → ∀ parts parts' : Parts, parts.title = parts'.title →
      parts.titleTokens = parts'.titleTokens → query.matchesParts parts = query.matchesParts parts') ∧
    (query.needsTokens = false → ∀ parts parts' : Parts, parts.title = parts'.title → parts.body = parts'.body →
      parts.caseNumber = parts'.caseNumber → query.matchesParts parts = query.matchesParts parts') ∧
    (query.needsCaseTokens = false → ∀ (parts : Parts) (tokens : AnalyzedText),
      query.matchesParts { parts with caseNumberTokens := tokens } = query.matchesParts parts) ∧
    (∀ doc clock verdict later tokens,
      analyzer.analyze ((doc.capture.record.metadata.get caseNumberKey).getD []) none = .ok (tokens, none) →
      query.matchesDocument analyzer doc clock = .ok (verdict, later) →
      verdict = query.matchesParts ⟨doc.capture.record.title, doc.titleTokens, doc.capture.record.body, doc.bodyTokens,
        (doc.capture.record.metadata.get caseNumberKey).getD [], tokens⟩) ∧
    ∀ sections doc clock found later parts, allParts analyzer sections doc none = .ok (parts, none) →
      queryExcerpt analyzer query sections doc clock = .ok (found, later) →
      found.isSome = query.matchesParts parts := by
  refine ⟨fun titled _ _ => matchesParts_of_onlyTitle titled, fun needless _ _ => matchesParts_of_not_needsTokens needless,
    fun needless _ => matchesParts_of_not_needsCaseTokens needless, ?_, ?_⟩
  · intro doc clock verdict later tokens present decided
    exact matchesDocument_eq present decided
  · intro sections doc clock found later parts present result
    obtain ⟨selected, middle, chosen, result⟩ := bind_eq_ok.mp result
    obtain ⟨verdict, middle', decided, result⟩ := bind_eq_ok.mp result
    rw [← matchesDocument_selectDocument present chosen decided]
    cases verdict with
    | true =>
      obtain ⟨anchor, _, -, result⟩ := bind_eq_ok.mp result
      cases result
      rfl
    | false =>
      cases result
      rfl

/-! ## One engine -/

mutual

/-- The formula with the tokens of one engine alone. -/
def satisfies (engine : Engine) : List FieldText → CompiledQuery → Bool
  | _, .all => true
  | fields, .term tokens isPrefix =>
    fields.any fun field => containsAll isPrefix (field.tokens.tokens engine) (tokens.tokens engine)
  | fields, .exact text => fields.any fun field => contains field.text text
  | fields, .not child => !satisfies engine fields child
  | fields, .and children => satisfiesAll engine fields children
  | fields, .or children => satisfiesAny engine fields children
  | fields, .field kind child => satisfies engine (fields.filter (·.kind == kind)) child

def satisfiesAll (engine : Engine) : List FieldText → List CompiledQuery → Bool
  | _, [] => true
  | fields, child :: children => satisfies engine fields child && satisfiesAll engine fields children

def satisfiesAny (engine : Engine) : List FieldText → List CompiledQuery → Bool
  | _, [] => false
  | fields, child :: children => satisfies engine fields child || satisfiesAny engine fields children

end

mutual

def positive : CompiledQuery → Bool
  | .all | .term .. | .exact _ => true
  | .not _ => false
  | .and children | .or children => allPositive children
  | .field _ child => positive child

def allPositive : List CompiledQuery → Bool
  | [] => true
  | child :: children => positive child && allPositive children

end

mutual

/-- Without negation the operands of both engines are never mixed. -/
theorem evaluate_positive : ∀ (query : CompiledQuery) (fields : List FieldText), query.positive = true →
    evaluate fields query = (satisfies .lindera fields query, satisfies .mecab fields query)
  | .all, _, _ => rfl
  | .term _ _, _, _ => rfl
  | .exact _, _, _ => rfl
  | .and children, fields, unnegated => by
    rw [positive] at unnegated
    rw [evaluate, satisfies, satisfies, (evaluateAll_positive children fields unnegated).1]
  | .or children, fields, unnegated => by
    rw [positive] at unnegated
    rw [evaluate, satisfies, satisfies, (evaluateAll_positive children fields unnegated).2]
  | .field kind child, fields, unnegated => by
    rw [positive] at unnegated
    rw [evaluate, satisfies, satisfies, evaluate_positive child _ unnegated]

theorem evaluateAll_positive : ∀ (children : List CompiledQuery) (fields : List FieldText),
    allPositive children = true →
    evaluateAll fields children = (satisfiesAll .lindera fields children, satisfiesAll .mecab fields children) ∧
      evaluateAny fields children = (satisfiesAny .lindera fields children, satisfiesAny .mecab fields children)
  | [], _, _ => ⟨rfl, rfl⟩
  | child :: children, fields, unnegated => by
    rw [allPositive, Bool.and_eq_true] at unnegated
    obtain ⟨all, any⟩ := evaluateAll_positive children fields unnegated.2
    rw [evaluateAll, evaluateAny, evaluate_positive child fields unnegated.1, all, any]
    exact ⟨rfl, rfl⟩

end

/-- A query without negation matches exactly if one engine alone satisfies it, and a negated query matches
exactly if the query does not. -/
theorem matchesParts_iff_engine (query : CompiledQuery) (parts : Parts) :
    (query.positive = true →
      (query.matchesParts parts = true ↔ ∃ engine, satisfies engine parts.fields query = true)) ∧
    (matchesParts (.not query) parts = true ↔ ¬query.matchesParts parts = true) := by
  constructor
  · intro unnegated
    rw [matchesParts, evaluate_positive query _ unnegated]
    constructor
    · intro matched
      rcases Bool.or_eq_true _ _ ▸ matched with here | here
      · exact ⟨.lindera, here⟩
      · exact ⟨.mecab, here⟩
    · rintro ⟨engine, here⟩
      cases engine with
      | lindera => exact Bool.or_eq_true _ _ ▸ .inl here
      | mecab => exact Bool.or_eq_true _ _ ▸ .inr here
  · rw [matchesParts, matchesParts, evaluate]
    simp

/-- Each engine finds one of the two words only, so that the conjunction does not match. -/
example : matchesParts
    (.and [.term ⟨["민법".toList], ["민법".toList]⟩ false, .term ⟨["형법".toList], ["형법".toList]⟩ false])
    ⟨[], .none, [], ⟨["민법".toList], ["형법".toList]⟩, [], .none⟩ = false := by decide +kernel

end CompiledQuery

end OpenLegal.Legal
