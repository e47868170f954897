import OpenLegal.Rust.Slice

/-! # Search query syntax

Syntax contracts for supplied search text; these types do not execute searches.
-/

namespace OpenLegal.SearchQuery

open Rust Rust.Str

def maxQueryBytes : ℕ := 4096
def maxQueryNodes : ℕ := 256
def maxQueryNesting : ℕ := 32
def maxQueryFields : ℕ := 64
def maxQueryFieldBytes : ℕ := 64

/-- Half-open UTF-8 byte offsets into the original query. -/
structure ByteSpan where
  start : ℕ
  stop : ℕ
deriving DecidableEq, Repr

inductive GroupOrigin where
  | parentheses
  | singleQuotes
deriving DecidableEq, Repr

/-- Matching intent, independent of any provider or search analyzer. Every expression has its span. -/
inductive Expr where
  | matchAll (span : ByteSpan)
  | term (span : ByteSpan) (value : Str)
  /-- Literal sequence, including case, punctuation, spacing, and order. -/
  | exact (span : ByteSpan) (value : Str)
  /-- Prefix of a term; the trailing operator is omitted from this value. -/
  | prefixed (span : ByteSpan) (value : Str)
  | not (span : ByteSpan) (expression : Expr)
  /-- Nonempty associative chains, in source order. -/
  | and (span : ByteSpan) (expressions : List Expr)
  | or (span : ByteSpan) (expressions : List Expr)
  | field (span : ByteSpan) (name : Str) (expression : Expr)
  | group (span : ByteSpan) (origin : GroupOrigin) (expression : Expr)
deriving Repr

structure ParsedQuery where
  source : Str
  expression : Expr

inductive ParseErrorKind where
  | inputTooLong
  | tooManyNodes
  | nestingTooDeep
  | forbiddenControl
  | expectedOperand
  | unexpectedToken
  | missingSeparator
  | unclosedParenthesis
  | unclosedQuote
  | emptyGroup
  | emptyPhrase
  | trailingEscape
  | invalidWildcard
  | invalidFieldSyntax
  | fieldShorthand
  | unknownField
  | nestedField
deriving DecidableEq, Repr

/-- A bounded diagnostic. It deliberately contains no caller query text. -/
structure ParseError where
  kind : ParseErrorKind
  span : ByteSpan
deriving DecidableEq, Repr

namespace Expr

def span : Expr → ByteSpan
  | matchAll span | term span _ | exact span _ | prefixed span _ | not span _ | and span _ | or span _ | field span _ _
  | group span _ _ => span

def children : Expr → List Expr
  | matchAll _ | term _ _ | exact _ _ | prefixed _ _ => []
  | not _ inner | field _ _ inner | group _ _ inner => [inner]
  | and _ expressions | or _ expressions => expressions

end Expr

end OpenLegal.SearchQuery
