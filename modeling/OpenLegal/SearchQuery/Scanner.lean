import OpenLegal.Rust.Result
import OpenLegal.Rust.Unicode
import OpenLegal.SearchQuery.Domain

/-! # The query scanner

A scanner is a position in the source: the characters before it, last first, and the rest. Byte offsets
are the lengths of what is before, so every offset the scanner reports is a character boundary.
-/

namespace OpenLegal.SearchQuery

open Rust Rust.Str

def validField (name : Str) : Bool :=
  !name.isEmpty && byteLen name ≤ maxQueryFieldBytes && name.head?.any isAsciiLowercase &&
    name.all fun c => isAsciiLowercase c || isAsciiDigit c || c = '_'

inductive TokenKind where
  | term (value : Str)
  | exact (value : Str)
  | words (words : List (Str × ByteSpan))
  | prefixed (value : Str)
  | field (name : Str)
  | and
  | or
  | not
  | minus
  | opening
  | closing
  | endOfInput
deriving DecidableEq, Repr

def TokenKind.startsOperand : TokenKind → Bool
  | .term _ | .exact _ | .words _ | .prefixed _ | .field _ | .not | .minus | .opening => true
  | .and | .or | .closing | .endOfInput => false

structure Token where
  kind : TokenKind
  span : ByteSpan
deriving DecidableEq, Repr

structure Scanner where
  before : Str
  rest : Str
deriving DecidableEq, Repr

namespace Scanner

def input (scanner : Scanner) : Str := scanner.before.reverse ++ scanner.rest

def offset (scanner : Scanner) : ℕ := byteLen scanner.before

/-- The loop `while let Some(ch) = self.current()` over characters of one class. -/
def skipWhile (accepts : Char → Bool) : Str → Str → Scanner
  | before, [] => ⟨before, []⟩
  | before, c :: rest => if accepts c then skipWhile accepts (c :: before) rest else ⟨before, c :: rest⟩

def skipWhitespace (scanner : Scanner) : Scanner := skipWhile isWhitespace scanner.before scanner.rest

def isNameChar (c : Char) : Bool := isAsciiAlphanumeric c || c == '_'

/-- A field `in:name:`; the position is at `in:`. -/
def field (scanner : Scanner) : Except ParseError (TokenKind × Scanner) :=
  let nameStart := (scanner.rest.take 3).reverse ++ scanner.before
  let name := (scanner.rest.drop 3).takeWhile isNameChar
  let after := skipWhile isNameChar nameStart (scanner.rest.drop 3)
  match after.rest with
  | ':' :: rest =>
    if validField name then .ok (.field name, ⟨':' :: after.before, rest⟩)
    else .error ⟨.invalidFieldSyntax, ⟨scanner.offset, after.offset⟩⟩
  | _ => .error ⟨.invalidFieldSyntax, ⟨scanner.offset, after.offset⟩⟩

variable (unicode : Unicode)

/-- A quote between source alphanumerics is an apostrophe, including within 'words'. -/
def apostrophe (before rest : Str) : Bool :=
  before.head?.any unicode.isAlphanumeric && rest.head?.any unicode.isAlphanumeric

/-- The decoded text of a word, whether it had an escape, and where its unescaped stars stand. -/
structure Word where
  value : Str
  escaped : Bool
  stars : List ℕ
deriving DecidableEq, Repr

/-- A character that ends a word. -/
def endsWord (before : Str) (c : Char) (rest : Str) : Bool :=
  isWhitespace c || c == '(' || c == ')' || c == '"' || (c == '\'' && !apostrophe unicode before rest)

def wordLoop : Str → Str → Word → Except ParseError (Word × Scanner)
  | before, [], word => .ok (word, ⟨before, []⟩)
  | before, c :: rest, word =>
    if endsWord unicode before c rest then .ok (word, ⟨before, c :: rest⟩)
    else if c = '\\' then
      match rest with
      | [] => .error ⟨.trailingEscape, ⟨byteLen before, byteLen (c :: before)⟩⟩
      | literal :: rest =>
        wordLoop (literal :: c :: before) rest { word with value := word.value ++ [literal], escaped := true }
    else
      let stars := if c = '*' then word.stars ++ [byteLen word.value] else word.stars
      wordLoop (c :: before) rest { word with value := word.value ++ [c], stars }

/-- What a word means: one trailing star makes a prefix, and unescaped capital names are operators. -/
def classify (word : Word) (span : ByteSpan) : Except ParseError TokenKind :=
  match word.stars with
  | [] =>
    if word.escaped then .ok (.term word.value)
    else if word.value = ['A', 'N', 'D'] then .ok .and
    else if word.value = ['O', 'R'] then .ok .or
    else if word.value = ['N', 'O', 'T'] then .ok .not
    else .ok (.term word.value)
  | [star] =>
    if star = 0 || star + 1 ≠ byteLen word.value then .error ⟨.invalidWildcard, span⟩
    else .ok (.prefixed word.value.dropLast)
  | _ => .error ⟨.invalidWildcard, span⟩

def word (scanner : Scanner) : Except ParseError (TokenKind × Scanner) := do
  let (word, after) ← wordLoop unicode scanner.before scanner.rest ⟨[], false, []⟩
  let kind ← classify word ⟨scanner.offset, after.offset⟩
  pure (kind, after)

def delimiter (single : Bool) : Char := if single then '\'' else '"'

/-- The words with the current one added, unless it is empty. -/
def pushWord (words : List (Str × ByteSpan)) (value : Str) (span : ByteSpan) : List (Str × ByteSpan) :=
  if value.isEmpty then words else words ++ [(value, span)]

/-- What a closed quote means; both kinds reject an empty one. -/
def closeQuote (single : Bool) (value : Str) (words : List (Str × ByteSpan)) (span : ByteSpan) :
    Except ParseError TokenKind :=
  if single then if words.isEmpty then .error ⟨.emptyGroup, span⟩ else .ok (.words words)
  else if value.isEmpty then .error ⟨.emptyPhrase, span⟩
  else .ok (.exact value)

/-- The loop of a quoted token that began at `start`. -/
def quotedLoop (single : Bool) (start : ℕ) :
    Str → Str → Str → List (Str × ByteSpan) → ℕ → Except ParseError (TokenKind × Scanner)
  | before, [], _, _, _ => .error ⟨.unclosedQuote, ⟨start, byteLen before⟩⟩
  | before, c :: rest, value, words, wordStart =>
    if c == delimiter single && !(single && apostrophe unicode before rest) then do
      let words := if single then pushWord words value ⟨wordStart, byteLen before⟩ else words
      let kind ← closeQuote single value words ⟨start, byteLen (c :: before)⟩
      pure (kind, ⟨c :: before, rest⟩)
    else if single && isWhitespace c then
      quotedLoop single start (c :: before) rest [] (pushWord words value ⟨wordStart, byteLen before⟩)
        (byteLen (c :: before))
    else
      let wordStart := if value.isEmpty then byteLen before else wordStart
      if c = '\\' then
        match rest with
        | [] => .error ⟨.trailingEscape, ⟨byteLen before, byteLen (c :: before)⟩⟩
        | literal :: rest => quotedLoop single start (literal :: c :: before) rest (value ++ [literal]) words wordStart
      else quotedLoop single start (c :: before) rest (value ++ [c]) words wordStart

/-- A quoted token; the position is at its opening quote. -/
def quoted (single : Bool) (scanner : Scanner) : Except ParseError (TokenKind × Scanner) :=
  let before := (scanner.rest.take 1).reverse ++ scanner.before
  quotedLoop unicode single scanner.offset before (scanner.rest.drop 1) [] [] (byteLen before)

/-- The token at a position that is not white space. -/
def kindAt (scanner : Scanner) : Except ParseError (TokenKind × Scanner) :=
  match scanner.rest with
  | [] => .ok (.endOfInput, scanner)
  | c :: rest =>
    if c = '(' then .ok (.opening, ⟨c :: scanner.before, rest⟩)
    else if c = ')' then .ok (.closing, ⟨c :: scanner.before, rest⟩)
    else if c = '-' then .ok (.minus, ⟨c :: scanner.before, rest⟩)
    else if c = '"' then quoted unicode false scanner
    else if c = '\'' then quoted unicode true scanner
    else if ['i', 'n', ':'].isPrefixOf scanner.rest then field scanner
    else word unicode scanner

def next (scanner : Scanner) : Except ParseError (Token × Scanner) := do
  let start := scanner.skipWhitespace
  let (kind, after) ← kindAt unicode start
  pure (⟨kind, ⟨start.offset, after.offset⟩⟩, after)

attribute [grind =] skipWhile skipWhitespace field endsWord wordLoop classify word closeQuote quotedLoop quoted kindAt next

end Scanner

end OpenLegal.SearchQuery
