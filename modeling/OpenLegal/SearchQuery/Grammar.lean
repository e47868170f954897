import OpenLegal.SearchQuery.Tokens

/-! # The grammar of queries

The grammar says which expressions a stretch of the source stands for, position by position and without
lookahead, budget or fuel. What is derived stands where its span says.
-/

namespace OpenLegal.SearchQuery

open Rust Rust.Str

/-! ## Sizes -/

mutual

/-- The number of nodes. -/
def Expr.size : Expr → ℕ
  | .matchAll _ | .term _ _ | .exact _ _ | .prefixed _ _ => 1
  | .not _ inner | .field _ _ inner | .group _ _ inner => inner.size + 1
  | .and _ expressions | .or _ expressions => sizes expressions + 1

def sizes : List Expr → ℕ
  | [] => 0
  | expression :: expressions => expression.size + sizes expressions

end

theorem sizes_eq_sum (expressions : List Expr) : sizes expressions = (expressions.map Expr.size).sum := by
  induction expressions with
  | nil => rfl
  | cons expression expressions ih => rw [sizes, ih, List.map_cons, List.sum_cons]

@[simp] theorem sizes_append (first second : List Expr) : sizes (first ++ second) = sizes first + sizes second := by
  simp [sizes_eq_sum]

@[simp] theorem sizes_singleton (expression : Expr) : sizes [expression] = expression.size := by
  simp [sizes]

/-! ## Derivations -/

/-- What is read: an operand, a chain, or the further members of a chain whose last one ends at `stop`. -/
inductive Rule where
  | operand
  | and
  | or
  | andRest (stop : ℕ)
  | orRest

/-- A chain from its first member to its last one; a chain of one member is that member. -/
def chained (build : ByteSpan → List Expr → Expr) (first : Expr) (others : List Expr) : Expr :=
  match others.getLast? with
  | none => first
  | some last => build ⟨first.span.start, last.span.stop⟩ (first :: others)

def wordTerms (words : List (Str × ByteSpan)) : List Expr := words.map fun (value, range) => .term range value

/-- The expression of a single-quoted group. -/
def wordGroup (words : List (Str × ByteSpan)) (span : ByteSpan) : Expr :=
  match wordTerms words with
  | [] => .group span .singleQuotes (.and span [])
  | first :: others => .group span .singleQuotes (chained .and first others)

section Derives

variable (fields : List Str) (unicode : Unicode)

/-- The text of a range does not begin with the name of a field and a colon. -/
def notShorthand (source : Str) (range : ByteSpan) : Prop :=
  ∀ field ∈ fields, ∀ rest, stripPrefix field ((get source range.start range.stop).getD []) = some rest →
    rest.head? ≠ some ':'

inductive Derives : Rule → ℕ → Bool → Scanner → List Expr → Scanner → Prop where
  | term {depth inField s after token value} (read : s.next unicode = .ok (token, after))
      (kind : token.kind = .term value) (literal : notShorthand fields after.input token.span) :
      Derives .operand depth inField s [.term token.span value] after
  | prefixed {depth inField s after token value} (read : s.next unicode = .ok (token, after))
      (kind : token.kind = .prefixed value) (literal : notShorthand fields after.input token.span) :
      Derives .operand depth inField s [.prefixed token.span value] after
  | exact {depth inField s after token value} (read : s.next unicode = .ok (token, after))
      (kind : token.kind = .exact value) : Derives .operand depth inField s [.exact token.span value] after
  | not {depth inField s middle after token inner} (read : s.next unicode = .ok (token, middle))
      (kind : token.kind = .not ∨ token.kind = .minus) (shallow : depth < maxQueryNesting)
      (operand : Derives .operand (depth + 1) inField middle [inner] after) :
      Derives .operand depth inField s [.not ⟨token.span.start, inner.span.stop⟩ inner] after
  | field {depth s middle after beyond token next name inner} (read : s.next unicode = .ok (token, middle))
      (kind : token.kind = .field name) (known : name ∈ fields) (shallow : depth < maxQueryNesting)
      (peeked : middle.next unicode = .ok (next, beyond)) (adjacent : next.span.start = token.span.stop)
      (starts : next.kind.startsOperand = true) (operand : Derives .operand (depth + 1) true middle [inner] after) :
      Derives .operand depth false s [.field ⟨token.span.start, inner.span.stop⟩ name inner] after
  | parentheses {depth inField s middle last after beyond token next close inner}
      (read : s.next unicode = .ok (token, middle)) (kind : token.kind = .opening) (shallow : depth < maxQueryNesting)
      (peeked : middle.next unicode = .ok (next, beyond)) (nonempty : next.kind ≠ .closing)
      (body : Derives .or (depth + 1) inField middle [inner] last) (closed : last.next unicode = .ok (close, after))
      (closing : close.kind = .closing) :
      Derives .operand depth inField s [.group ⟨token.span.start, close.span.stop⟩ .parentheses inner] after
  | words {depth inField s after token words} (read : s.next unicode = .ok (token, after))
      (kind : token.kind = .words words) (shallow : depth < maxQueryNesting) :
      Derives .operand depth inField s [wordGroup words token.span] after
  | and {depth inField s middle after first others} (head : Derives .operand depth inField s [first] middle)
      (tail : Derives (.andRest first.span.stop) depth inField middle others after) :
      Derives .and depth inField s [chained .and first others] after
  | andStop {stop depth inField s beyond token} (peeked : s.next unicode = .ok (token, beyond))
      (other : token.kind ≠ .and) (ends : token.kind.startsOperand = false) :
      Derives (.andRest stop) depth inField s [] s
  | andExplicit {stop depth inField s middle last after token next others} (read : s.next unicode = .ok (token, middle))
      (kind : token.kind = .and) (head : Derives .operand depth inField middle [next] last)
      (tail : Derives (.andRest next.span.stop) depth inField last others after) :
      Derives (.andRest stop) depth inField s (next :: others) after
  | andImplicit {stop depth inField s beyond last after token next others}
      (peeked : s.next unicode = .ok (token, beyond)) (starts : token.kind.startsOperand = true)
      (separated : token.span.start ≠ stop) (head : Derives .operand depth inField s [next] last)
      (tail : Derives (.andRest next.span.stop) depth inField last others after) :
      Derives (.andRest stop) depth inField s (next :: others) after
  | or {depth inField s middle after first others} (head : Derives .and depth inField s [first] middle)
      (tail : Derives .orRest depth inField middle others after) :
      Derives .or depth inField s [chained .or first others] after
  | orStop {depth inField s beyond token} (peeked : s.next unicode = .ok (token, beyond)) (other : token.kind ≠ .or) :
      Derives .orRest depth inField s [] s
  | orMore {depth inField s middle last after token next others} (read : s.next unicode = .ok (token, middle))
      (kind : token.kind = .or) (head : Derives .and depth inField middle [next] last)
      (tail : Derives .orRest depth inField last others after) :
      Derives .orRest depth inField s (next :: others) after

end Derives

/-! ## Where expressions stand -/

/-- One expression from the first character that is not white space up to `after`. -/
structure Stands (s : Scanner) (expressions : List Expr) (after : Scanner) : Prop where
  progress : after.rest.length < s.rest.length
  reaches : s.skipWhitespace.Reaches after
  span : ∃ expression, expressions = [expression] ∧ expression.span = ⟨s.skipWhitespace.offset, after.offset⟩

/-- Further members of a chain; the last one ends at `after`. -/
structure Continues (s : Scanner) (expressions : List Expr) (after : Scanner) : Prop where
  reaches : s.Reaches after
  empty : expressions = [] → after = s
  last : ∀ expression, expressions.getLast? = some expression → expression.span.stop = after.offset

def Rule.Located : Rule → Scanner → List Expr → Scanner → Prop
  | .operand | .and | .or => Stands
  | .andRest _ | .orRest => Continues

theorem Stands.advances {s after : Scanner} {expressions : List Expr} (stands : Stands s expressions after) :
    s.Reaches after := (Scanner.reaches_skipWhitespace s).trans stands.reaches

theorem Stands.single {s after : Scanner} {expression : Expr} (stands : Stands s [expression] after) :
    expression.span = ⟨s.skipWhitespace.offset, after.offset⟩ := by
  obtain ⟨other, same, span⟩ := stands.span
  cases same
  exact span

theorem Stands.ofToken {s after : Scanner} {token : Token} {expression : Expr} (reads : Scanner.Reads source s token after)
    (other : token.kind ≠ .endOfInput) (span : expression.span = token.span) : Stands s [expression] after :=
  ⟨reads.progress other, reads.reaches, expression, rfl, span.trans reads.span⟩

/-- A token and what follows it, up to the end of the latter. -/
theorem Stands.ofPrefix {s middle after : Scanner} {token : Token} {expression : Expr}
    (reads : Scanner.Reads source s token middle) (follows : middle.Reaches after)
    (other : token.kind ≠ .endOfInput) (span : expression.span = ⟨token.span.start, after.offset⟩) :
    Stands s [expression] after := by
  refine ⟨follows.length_le.trans_lt (reads.progress other), reads.reaches.trans follows, expression, rfl, ?_⟩
  rw [span, reads.span]

theorem Stands.chained {s middle after : Scanner} {first : Expr} {others : List Expr}
    {build : ByteSpan → List Expr → Expr} (spans : ∀ span expressions, (build span expressions).span = span)
    (head : Stands s [first] middle) (tail : Continues middle others after) :
    Stands s [SearchQuery.chained build first others] after := by
  refine ⟨tail.reaches.length_le.trans_lt head.progress, head.reaches.trans tail.reaches, _, rfl, ?_⟩
  rw [SearchQuery.chained]
  match shape : others.getLast? with
  | none =>
    have none : others = [] := List.getLast?_eq_none_iff.mp shape
    rw [tail.empty none]
    exact head.single
  | some last =>
    dsimp only
    rw [spans, head.single, tail.last last shape]

theorem Continues.cons {s middle last after : Scanner} {next : Expr} {others : List Expr} (reaches : s.Reaches middle)
    (head : Stands middle [next] last) (tail : Continues last others after) : Continues s (next :: others) after := by
  refine ⟨(reaches.trans head.advances).trans tail.reaches, (fun impossible => absurd impossible (List.cons_ne_nil _ _)), ?_⟩
  intro expression final
  rw [List.getLast?_cons] at final
  cases others with
  | nil =>
    cases final
    rw [tail.empty rfl]
    exact congrArg ByteSpan.stop head.single
  | cons other others => exact tail.last expression (by simpa [List.getLast?_cons] using final)

theorem wordGroup_span (words : List (Str × ByteSpan)) (span : ByteSpan) : (wordGroup words span).span = span := by
  rw [wordGroup]
  split <;> rfl

section Located

variable {fields : List Str} {unicode : Unicode}

theorem Derives.located {rule : Rule} {depth : ℕ} {inField : Bool} {s after : Scanner} {expressions : List Expr}
    (derives : Derives fields unicode rule depth inField s expressions after) : rule.Located s expressions after := by
  induction derives with
  | term read kind | prefixed read kind | exact read kind =>
    exact .ofToken (Scanner.next_reads rfl read) (by simp [kind]) rfl
  | not read kind _ _ ih =>
    refine .ofPrefix (Scanner.next_reads rfl read) ih.advances ?_ ?_
    · rcases kind with kind | kind <;> simp [kind]
    · rw [Expr.span, ih.single]
  | field read kind _ _ _ _ _ _ ih =>
    refine .ofPrefix (Scanner.next_reads rfl read) ih.advances (by simp [kind]) ?_
    rw [Expr.span, ih.single]
  | parentheses read kind _ _ _ _ closed _ ih =>
    have close := Scanner.next_reads rfl closed
    refine .ofPrefix (Scanner.next_reads rfl read) (ih.advances.trans close.advances) (by simp [kind]) ?_
    rw [Expr.span, close.span]
  | words read kind => exact .ofToken (Scanner.next_reads rfl read) (by simp [kind]) (wordGroup_span _ _)
  | and _ _ head tail => exact .chained (fun _ _ => rfl) head tail
  | or _ _ head tail => exact .chained (fun _ _ => rfl) head tail
  | andStop | orStop => exact ⟨.refl _, fun _ => rfl, by simp⟩
  | andExplicit read _ _ _ head tail => exact .cons (Scanner.next_reads rfl read).advances head tail
  | orMore read _ _ _ head tail => exact .cons (Scanner.next_reads rfl read).advances head tail
  | andImplicit _ _ _ _ _ head tail => exact .cons (.refl _) head tail

end Located

end OpenLegal.SearchQuery
