import OpenLegal.SearchQuery.Scanner

/-! # The query parser

A recursive descent over one token of lookahead, with a nesting depth and a budget of nodes. The recursion
runs on fuel; running out of it is a halt of its own, so that it cannot pass for an answer of the code.
-/

namespace OpenLegal.SearchQuery

open Rust Rust.Str

inductive QueryConfigError where
  | tooManyFields
  | invalidFieldName
  | duplicateField
deriving DecidableEq, Repr

/-- Reusable parser with a validated, caller-owned vocabulary of field names. -/
structure SearchQueryProcessor where
  fields : List Str
  limited : fields.length ≤ maxQueryFields
  valid : ∀ name ∈ fields, validField name = true
  distinct : fields.Nodup

namespace SearchQueryProcessor

/-- The loop over the allowed names. -/
def addFields : List Str → List Str → Except QueryConfigError (List Str)
  | [], fields => .ok fields
  | name :: names, fields =>
    if !validField name then .error .invalidFieldName
    else if fields.any (· == name) then .error .duplicateField
    else addFields names (fields ++ [name])

theorem addFields_eq_ok {names fields result : List Str} (added : addFields names fields = .ok result)
    (valid : ∀ name ∈ fields, validField name = true) (distinct : fields.Nodup) :
    result = fields ++ names ∧ (∀ name ∈ result, validField name = true) ∧ result.Nodup := by
  induction names generalizing fields with
  | nil =>
    cases added
    exact ⟨(List.append_nil _).symm, valid, distinct⟩
  | cons name names ih =>
    simp only [addFields, ite_error_eq_ok, Bool.not_eq_true', Bool.not_eq_false, List.any_eq_true, beq_iff_eq,
      exists_eq_right] at added
    obtain ⟨accepted, fresh, added⟩ := added
    obtain ⟨shape, all, nodup⟩ := ih added (by simpa [or_imp, forall_and] using ⟨valid, accepted⟩)
      (List.nodup_append.mpr ⟨distinct, by simp, by
        rintro a member b same rfl
        exact fresh (List.mem_singleton.mp same ▸ member)⟩)
    exact ⟨by simpa using shape, all, nodup⟩

def new (allowedFields : List Str) : Except QueryConfigError SearchQueryProcessor :=
  if large : allowedFields.length > maxQueryFields then .error .tooManyFields
  else
    match added : addFields allowedFields [] with
    | .error error => .error error
    | .ok fields =>
      have facts := addFields_eq_ok added (by simp) List.nodup_nil
      .ok ⟨fields, by simpa [facts.1] using large, facts.2.1, facts.2.2⟩

end SearchQueryProcessor

/-- Why a parse has no result: an error of the query, or a recursion cut short. -/
inductive Halt where
  | error (error : ParseError)
  | fuel
deriving DecidableEq, Repr

/-- `?` on a scanner's result. -/
def orHalt {α : Type} : Except ParseError α → Except Halt α
  | .ok value => .ok value
  | .error error => .error (.error error)

def fail {α : Type} (kind : ParseErrorKind) (span : ByteSpan) : Except Halt α := .error (.error ⟨kind, span⟩)

structure Parser where
  scanner : Scanner
  lookahead : Option Token
  nodes : ℕ
deriving DecidableEq, Repr

namespace Parser

/-- A node of the tree, if the budget allows one more. -/
def node (expr : Expr) (parser : Parser) : Except Halt (Expr × Parser) :=
  if parser.nodes ≥ maxQueryNodes then fail .tooManyNodes expr.span
  else .ok (expr, { parser with nodes := parser.nodes + 1 })

def nested (depth : ℕ) (span : ByteSpan) : Except Halt ℕ :=
  if depth ≥ maxQueryNesting then fail .nestingTooDeep span else .ok (depth + 1)

/-- A chain of one expression is that expression. -/
def chain (build : ByteSpan → List Expr → Expr) (expressions : List Expr) (span : ByteSpan) (parser : Parser) :
    Except Halt (Expr × Parser) :=
  match expressions with
  | [single] => .ok (single, parser)
  | _ => node (build span expressions) parser

/-- The terms of a single-quoted group. -/
def wordNodes : List (Str × ByteSpan) → Parser → Except Halt (List Expr × Parser)
  | [], parser => .ok ([], parser)
  | (value, range) :: words, parser => do
    let (term, parser) ← node (.term range value) parser
    let (terms, parser) ← wordNodes words parser
    pure (term :: terms, parser)

/-- From the first word to the last one. -/
def innerSpan (words : List (Str × ByteSpan)) (span : ByteSpan) : ByteSpan where
  start := (words.head?.map fun word => word.2.start).getD span.start
  stop := (words.getLast?.map fun word => word.2.stop).getD span.stop

variable (fields : List Str)

def rejectShorthand (range : ByteSpan) (parser : Parser) : Except Halt Unit :=
  let source := (get parser.scanner.input range.start range.stop).getD []
  if fields.any fun field => (stripPrefix field source).any fun rest => rest.head? == some ':' then
    fail .fieldShorthand range
  else .ok ()

variable (unicode : Unicode)

def take (parser : Parser) : Except Halt (Token × Parser) :=
  match parser.lookahead with
  | some token => .ok (token, { parser with lookahead := none })
  | none => do
    let (token, scanner) ← orHalt (parser.scanner.next unicode)
    pure (token, { parser with scanner })

def peek (parser : Parser) : Except Halt (Token × Parser) := do
  let (token, parser) ← take unicode parser
  pure (token, { parser with lookahead := some token })

mutual

def or (fuel depth : ℕ) (inField : Bool) (parser : Parser) : Except Halt (Expr × Parser) :=
  match fuel with
  | 0 => .error .fuel
  | fuel + 1 => do
    let (first, parser) ← and fuel depth inField parser
    let (expressions, stop, parser) ← orLoop fuel depth inField [first] first.span.stop parser
    chain .or expressions ⟨first.span.start, stop⟩ parser

/-- `while matches!(self.peek()?.kind, TokenKind::Or)`. -/
def orLoop (fuel depth : ℕ) (inField : Bool) (expressions : List Expr) (stop : ℕ) (parser : Parser) :
    Except Halt (List Expr × ℕ × Parser) :=
  match fuel with
  | 0 => .error .fuel
  | fuel + 1 => do
    let (token, parser) ← peek unicode parser
    if token.kind = .or then
      let (_, parser) ← take unicode parser
      let (next, parser) ← and fuel depth inField parser
      orLoop fuel depth inField (expressions ++ [next]) next.span.stop parser
    else pure (expressions, stop, parser)

def and (fuel depth : ℕ) (inField : Bool) (parser : Parser) : Except Halt (Expr × Parser) :=
  match fuel with
  | 0 => .error .fuel
  | fuel + 1 => do
    let (first, parser) ← operand fuel depth inField parser
    let (expressions, stop, parser) ← andLoop fuel depth inField [first] first.span.stop parser
    chain .and expressions ⟨first.span.start, stop⟩ parser

/-- Operands are joined by `AND` or stand next to each other, but not without a gap. -/
def andLoop (fuel depth : ℕ) (inField : Bool) (expressions : List Expr) (stop : ℕ) (parser : Parser) :
    Except Halt (List Expr × ℕ × Parser) :=
  match fuel with
  | 0 => .error .fuel
  | fuel + 1 => do
    let (token, parser) ← peek unicode parser
    if token.kind = .and then
      let (_, parser) ← take unicode parser
      let (next, parser) ← operand fuel depth inField parser
      andLoop fuel depth inField (expressions ++ [next]) next.span.stop parser
    else if token.kind.startsOperand then
      if token.span.start = stop then fail .missingSeparator token.span
      else
        let (next, parser) ← operand fuel depth inField parser
        andLoop fuel depth inField (expressions ++ [next]) next.span.stop parser
    else pure (expressions, stop, parser)

def operand (fuel depth : ℕ) (inField : Bool) (parser : Parser) : Except Halt (Expr × Parser) :=
  match fuel with
  | 0 => .error .fuel
  | fuel + 1 => do
    let (token, parser) ← take unicode parser
    match token.kind with
    | .term value =>
      rejectShorthand fields token.span parser
      node (.term token.span value) parser
    | .prefixed value =>
      rejectShorthand fields token.span parser
      node (.prefixed token.span value) parser
    | .exact value => node (.exact token.span value) parser
    | .not | .minus =>
      let innerDepth ← nested depth token.span
      let (inner, parser) ← operand fuel innerDepth inField parser
      node (.not ⟨token.span.start, inner.span.stop⟩ inner) parser
    | .field name =>
      if inField then fail .nestedField token.span
      else if name ∉ fields then fail .unknownField token.span
      else
        let innerDepth ← nested depth token.span
        let (next, parser) ← peek unicode parser
        if next.span.start ≠ token.span.stop || !next.kind.startsOperand then fail .invalidFieldSyntax next.span
        else
          let (inner, parser) ← operand fuel innerDepth true parser
          node (.field ⟨token.span.start, inner.span.stop⟩ name inner) parser
    | .opening =>
      let innerDepth ← nested depth token.span
      let (next, parser) ← peek unicode parser
      if next.kind = .closing then
        let (close, _) ← take unicode parser
        fail .emptyGroup ⟨token.span.start, close.span.stop⟩
      else
        let (inner, parser) ← or fuel innerDepth inField parser
        let (close, parser) ← take unicode parser
        if close.kind ≠ .closing then fail .unclosedParenthesis token.span
        else node (.group ⟨token.span.start, close.span.stop⟩ .parentheses inner) parser
    | .words words =>
      let _ ← nested depth token.span
      let (terms, parser) ← wordNodes words parser
      let (inner, parser) ← chain .and terms (innerSpan words token.span) parser
      node (.group token.span .singleQuotes inner) parser
    | .and | .or | .closing | .endOfInput => fail .expectedOperand token.span

end

end Parser

namespace SearchQueryProcessor

/-- Enough fuel for a query: a recursion of bounded height for each character. -/
def fuelFor (source : Str) : ℕ := 4 * source.length + 3

/-- The byte range of the first control character. -/
def controlSpan : ℕ → Str → Option ByteSpan
  | _, [] => none
  | offset, c :: rest =>
    if isControl c then some ⟨offset, offset + c.utf8Size⟩ else controlSpan (offset + c.utf8Size) rest

variable (processor : SearchQueryProcessor) (unicode : Unicode)

/-- The expression and the parser that counted its nodes. -/
def parseCounted (source : Str) : Except Halt (Expr × Parser) :=
  if byteLen source > maxQueryBytes then fail .inputTooLong ⟨0, byteLen source⟩
  else
    match controlSpan 0 source with
    | some span => fail .forbiddenControl span
    | none => do
      let parser : Parser := ⟨⟨[], source⟩, none, 0⟩
      let (token, parser) ← parser.peek unicode
      if token.kind = .endOfInput then Parser.node (.matchAll ⟨0, byteLen source⟩) parser
      else
        let (expression, parser) ← Parser.or processor.fields unicode (fuelFor source) 0 false parser
        let (next, parser) ← parser.peek unicode
        if next.kind ≠ .endOfInput then fail .unexpectedToken next.span else pure (expression, parser)

/-- Parse one bounded UTF-8 query. Errors carry source byte spans, never text. -/
def parse (source : Str) : Except Halt ParsedQuery := do
  let (expression, _) ← processor.parseCounted unicode source
  pure ⟨source, expression⟩

end SearchQueryProcessor

end OpenLegal.SearchQuery
