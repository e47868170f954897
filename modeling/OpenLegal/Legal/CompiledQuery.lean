import OpenLegal.Legal.Analysis
import OpenLegal.Legal.SearchIndex

/-! # Compiled queries

Engine-coherent positive matching and shared exclusions. A query is matched against the title, the body and
the case number of a document, once with the tokens of each engine.
-/

namespace OpenLegal.Legal

open Rust Rust.Str Theory Polled

inductive QueryField where
  | title
  | body
  | caseNumber
deriving DecidableEq, Repr

inductive CompiledQuery where
  | all
  | term (tokens : AnalyzedText) (isPrefix : Bool)
  | exact (text : Str)
  | not (child : CompiledQuery)
  | and (children : List CompiledQuery)
  | or (children : List CompiledQuery)
  | field (field : QueryField) (child : CompiledQuery)
deriving Repr

/-- One field of a document with its tokens. -/
structure FieldText where
  kind : QueryField
  text : Str
  tokens : AnalyzedText

/-- `str::contains`. -/
def contains (text pattern : Str) : Bool := (splitOnce pattern text).isSome

/-- All tokens occur, the last one as the beginning of another if it is a prefix. -/
def containsAll (isPrefix : Bool) (found : List Str) : List Str → Bool
  | [] => true
  | [token] => if isPrefix then found.any token.isPrefixOf else found.contains token
  | token :: next :: rest => found.contains token && containsAll isPrefix found (next :: rest)

namespace CompiledQuery

mutual

def needsTokens : CompiledQuery → Bool
  | .term .. => true
  | .not child | .field _ child => needsTokens child
  | .and children | .or children => anyNeedsTokens children
  | .all | .exact _ => false

def anyNeedsTokens : List CompiledQuery → Bool
  | [] => false
  | child :: children => needsTokens child || anyNeedsTokens children

end

mutual

def onlyTitle : CompiledQuery → Bool
  | .field kind _ => kind == .title
  | .not child => onlyTitle child
  | .and children | .or children => allOnlyTitle children
  | .all | .term .. | .exact _ => false

def allOnlyTitle : List CompiledQuery → Bool
  | [] => true
  | child :: children => onlyTitle child && allOnlyTitle children

end

mutual

def needsCaseTokens : CompiledQuery → Bool
  | .term .. => true
  | .field kind child => kind == .caseNumber && child.needsTokens
  | .not child => needsCaseTokens child
  | .and children | .or children => anyNeedsCaseTokens children
  | .all | .exact _ => false

def anyNeedsCaseTokens : List CompiledQuery → Bool
  | [] => false
  | child :: children => needsCaseTokens child || anyNeedsCaseTokens children

end

mutual

/-- Whether the fields match, for the engines lindera and mecab. -/
def evaluate : List FieldText → CompiledQuery → Bool × Bool
  | _, .all => (true, true)
  | fields, .term tokens isPrefix =>
    (fields.any fun field => containsAll isPrefix field.tokens.lindera tokens.lindera,
      fields.any fun field => containsAll isPrefix field.tokens.mecab tokens.mecab)
  | fields, .exact text =>
    let found := fields.any fun field => contains field.text text
    (found, found)
  | fields, .not child =>
    let (lindera, mecab) := evaluate fields child
    (!(lindera || mecab), !(lindera || mecab))
  | fields, .and children => evaluateAll fields children
  | fields, .or children => evaluateAny fields children
  -- The parser prohibits nested field scopes; preserve field identity nonetheless.
  | fields, .field kind child => evaluate (fields.filter (·.kind == kind)) child

def evaluateAll : List FieldText → List CompiledQuery → Bool × Bool
  | _, [] => (true, true)
  | fields, child :: children =>
    let (lindera, mecab) := evaluate fields child
    let (restLindera, restMecab) := evaluateAll fields children
    (lindera && restLindera, mecab && restMecab)

def evaluateAny : List FieldText → List CompiledQuery → Bool × Bool
  | _, [] => (false, false)
  | fields, child :: children =>
    let (lindera, mecab) := evaluate fields child
    let (restLindera, restMecab) := evaluateAny fields children
    (lindera || restLindera, mecab || restMecab)

end

def caseNumberKey : Str := "case_number".toList

/-- The texts of a document that a query is matched against, with their tokens. -/
structure Parts where
  title : Str
  titleTokens : AnalyzedText
  body : Str
  bodyTokens : AnalyzedText
  caseNumber : Str
  caseNumberTokens : AnalyzedText

def Parts.fields (parts : Parts) : List FieldText :=
  [⟨.title, parts.title, parts.titleTokens⟩, ⟨.body, parts.body, parts.bodyTokens⟩,
    ⟨.caseNumber, parts.caseNumber, parts.caseNumberTokens⟩]

/-- `CompiledQuery::matches`: one engine has to match the whole query. -/
def matchesParts (expression : CompiledQuery) (parts : Parts) : Bool :=
  let (lindera, mecab) := evaluate parts.fields expression
  lindera || mecab

def caseNumberTokens (analyzer : KoreanAnalyzer) (expression : CompiledQuery) (caseNumber : Str) :
    Polled DatabaseError AnalyzedText :=
  if caseNumber.isEmpty || !expression.needsCaseTokens then pure .none else analyzer.analyze caseNumber

/-- `CorpusIndex::matches`. -/
def matchesDocument (analyzer : KoreanAnalyzer) (expression : CompiledQuery) (doc : IndexedCapture AnalyzedText) :
    Polled DatabaseError Bool := do
  let record := doc.capture.record
  let caseNumber := (record.metadata.get caseNumberKey).getD []
  let tokens ← expression.caseNumberTokens analyzer caseNumber
  pure (expression.matchesParts ⟨record.title, doc.titleTokens, record.body, doc.bodyTokens, caseNumber, tokens⟩)

theorem steady_matchesDocument (analyzer : KoreanAnalyzer) (expression : CompiledQuery)
    (doc : IndexedCapture AnalyzedText) : Steady (expression.matchesDocument analyzer doc) := by
  refine @Steady.bind _ _ _ (expression.caseNumberTokens analyzer _) _ ?_ ?_
  · exact Steady.ite (fun _ => Steady.pure _) fun _ => analyzer.steady_analyze _
  · exact fun _ => Steady.pure _

end CompiledQuery

end OpenLegal.Legal
