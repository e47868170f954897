import OpenLegal.SearchQuery.Locality
import OpenLegal.SearchQuery.WellFormed

/-! # Parsing is compositional

A subexpression of a parsed query is what its own text means. Its derivation is cut out of the whole one
and moved into the window of its span; there the end of input takes the place of what followed.
-/

namespace OpenLegal.SearchQuery

open Rust Rust.Str

/-! ## Shifted expressions -/

mutual

/-- The same expression with all spans shifted down. -/
def Expr.shiftDown (amount : ℕ) : Expr → Expr
  | .matchAll span => .matchAll (span.shiftDown amount)
  | .term span value => .term (span.shiftDown amount) value
  | .exact span value => .exact (span.shiftDown amount) value
  | .prefixed span value => .prefixed (span.shiftDown amount) value
  | .not span inner => .not (span.shiftDown amount) (inner.shiftDown amount)
  | .and span expressions => .and (span.shiftDown amount) (shiftsDown amount expressions)
  | .or span expressions => .or (span.shiftDown amount) (shiftsDown amount expressions)
  | .field span name inner => .field (span.shiftDown amount) name (inner.shiftDown amount)
  | .group span origin inner => .group (span.shiftDown amount) origin (inner.shiftDown amount)

def shiftsDown (amount : ℕ) : List Expr → List Expr
  | [] => []
  | expression :: expressions => expression.shiftDown amount :: shiftsDown amount expressions

end

variable {amount : ℕ}

theorem shiftsDown_eq_map (expressions : List Expr) : shiftsDown amount expressions = expressions.map (Expr.shiftDown amount) := by
  induction expressions with
  | nil => rfl
  | cons expression expressions ih => rw [shiftsDown, ih, List.map_cons]

@[simp] theorem Expr.span_shiftDown (expression : Expr) :
    (expression.shiftDown amount).span = expression.span.shiftDown amount := by
  cases expression <;> rfl

mutual

@[simp] theorem Expr.size_shiftDown (expression : Expr) : (expression.shiftDown amount).size = expression.size := by
  cases expression with
  | matchAll | term | exact | prefixed => rfl
  | not _ inner | field _ _ inner | group _ _ inner => rw [Expr.shiftDown, Expr.size, Expr.size, inner.size_shiftDown]
  | and _ expressions | or _ expressions => rw [Expr.shiftDown, Expr.size, Expr.size, sizes_shiftsDown expressions]

theorem sizes_shiftsDown (expressions : List Expr) : sizes (shiftsDown amount expressions) = sizes expressions := by
  cases expressions with
  | nil => rfl
  | cons expression expressions =>
    rw [shiftsDown, sizes, sizes, expression.size_shiftDown, sizes_shiftsDown expressions]

end

theorem chained_shiftDown {build : ByteSpan → List Expr → Expr}
    (shifts : ∀ span expressions, (build span expressions).shiftDown amount =
      build (span.shiftDown amount) (shiftsDown amount expressions)) (first : Expr) (others : List Expr) :
    chained build (first.shiftDown amount) (shiftsDown amount others) = (chained build first others).shiftDown amount := by
  rw [chained, chained, shiftsDown_eq_map, List.getLast?_map]
  cases others.getLast? with
  | none => rfl
  | some last => simp [shifts, shiftsDown_eq_map, ByteSpan.shiftDown]

theorem wordTerms_shiftWords (words : List (Str × ByteSpan)) :
    wordTerms (shiftWords amount words) = shiftsDown amount (wordTerms words) := by
  simp [wordTerms, shiftWords, shiftsDown_eq_map, Expr.shiftDown]

theorem wordGroup_shiftDown (words : List (Str × ByteSpan)) (span : ByteSpan) :
    wordGroup (shiftWords amount words) (span.shiftDown amount) = (wordGroup words span).shiftDown amount := by
  rw [wordGroup, wordGroup, wordTerms_shiftWords]
  cases wordTerms words with
  | nil => rfl
  | cons first others =>
    dsimp only [shiftsDown]
    rw [chained_shiftDown fun _ _ => rfl]
    rfl

/-! ## Derivations inside a window -/

section Windows

open Scanner

variable {fields : List Str} {unicode : Unicode} {outside tail : Str}

/-- The first token of an expression starts an operand, and the expression does not end before it does. -/
theorem Derives.first {rule : Rule} {depth : ℕ} {inField : Bool} {s after : Scanner} {expressions : List Expr}
    (derives : Derives fields unicode rule depth inField s expressions after) :
    match rule with
    | .operand | .and | .or => ∃ token middle, s.next unicode = .ok (token, middle) ∧
        token.kind.startsOperand = true ∧ middle.Reaches after
    | .andRest _ | .orRest => True := by
  induction derives with
  | term read kind | prefixed read kind | exact read kind | words read kind =>
    exact ⟨_, _, read, by rw [kind]; rfl, .refl _⟩
  | not read kind _ operand =>
    exact ⟨_, _, read, by rcases kind with kind | kind <;> rw [kind] <;> rfl, operand.located.advances⟩
  | field read kind _ _ _ _ _ operand => exact ⟨_, _, read, by rw [kind]; rfl, operand.located.advances⟩
  | parentheses read kind _ _ _ body closed =>
    exact ⟨_, _, read, by rw [kind]; rfl, body.located.advances.trans (next_reads rfl closed).advances⟩
  | and _ tail head =>
    obtain ⟨token, middle, read, starts, reaches⟩ := head
    exact ⟨token, middle, read, starts, reaches.trans tail.located.reaches⟩
  | or _ tail head =>
    obtain ⟨token, middle, read, starts, reaches⟩ := head
    exact ⟨token, middle, read, starts, reaches.trans tail.located.reaches⟩
  | andStop | andExplicit | andImplicit | orStop | orMore => trivial

/-- A position inside the window leaves the tail. -/
def Inside (tail : Str) (s : Scanner) : Prop := ∃ inside, s.rest = inside ++ tail

theorem Inside.of_reaches {s later : Scanner} (inside : Inside tail later) (reaches : s.Reaches later) : Inside tail s := by
  obtain ⟨rest, shape⟩ := inside
  obtain ⟨consumed, before, -⟩ := reaches
  exact ⟨consumed ++ rest, by rw [before, shape, List.append_assoc]⟩

/-- What stops a chain is in the window, or the window ends here. -/
def Settled (unicode : Unicode) (tail : Str) (s : Scanner) : Prop :=
  s.rest = tail ∨ ∃ token beyond, s.next unicode = .ok (token, beyond) ∧ Inside tail beyond

theorem next_inside {s window after : Scanner} {token : Token} (read : s.next unicode = .ok (token, after))
    (trims : Trims outside tail s window) (inside : Inside tail after) :
    ∃ place, window.next unicode = .ok (token.shiftDown (byteLen outside), place) ∧ Trims outside tail after place := by
  obtain ⟨rest, ends⟩ := inside
  exact next_trims read trims ends

/-- At the end of the window, the end of input is read. -/
theorem next_at_end {window : Scanner} (done : window.rest = []) :
    ∃ token, window.next unicode = .ok (token, window) ∧ token.kind = .endOfInput := by
  obtain ⟨before, rest⟩ := window
  cases done
  exact ⟨⟨.endOfInput, ⟨byteLen before, byteLen before⟩⟩, rfl, rfl⟩

/-- The token after a chain in the window stops it as the one in the source does. -/
theorem stop_inside {s window after : Scanner} {token : Token} (settled : Settled unicode tail s)
    (read : s.next unicode = .ok (token, after)) (trims : Trims outside tail s window) :
    ∃ other place, window.next unicode = .ok (other, place) ∧
      (other.kind = .endOfInput ∨ other.kind = token.kind.shiftDown (byteLen outside)) := by
  rcases settled with ends | ⟨token', beyond, peeked, inside⟩
  · have done : window.rest = [] := by
      have := trims.rest
      rw [ends] at this
      exact List.append_left_eq_self.mp this.symm
    obtain ⟨other, read, kind⟩ := @next_at_end unicode window done
    exact ⟨other, window, read, .inl kind⟩
  · cases read.symm.trans peeked
    obtain ⟨place, peeked, -⟩ := next_inside read trims inside
    exact ⟨_, place, peeked, .inr rfl⟩

theorem startsOperand_shiftDown (kind : TokenKind) (amount : ℕ) :
    (kind.shiftDown amount).startsOperand = kind.startsOperand := by
  cases kind <;> rfl

/-- The text of a token is the same in the window. -/
theorem text_inside {s window after place : Scanner} {token : Token} (reads : Reads s.input s token after)
    (trims : Trims outside tail s window) (read : window.next unicode = .ok (token.shiftDown (byteLen outside), place))
    (trimmed : Trims outside tail after place) :
    get place.input (token.shiftDown (byteLen outside)).span.start (token.shiftDown (byteLen outside)).span.stop =
      get after.input token.span.start token.span.stop := by
  have reads' := next_reads rfl read
  obtain ⟨consumed, rest, before⟩ := reads.reaches
  obtain ⟨consumed', rest', before'⟩ := reads'.reaches
  have text : get after.input token.span.start token.span.stop = some consumed := by
    rw [reads.span]
    exact get_between before
  have text' : get place.input (token.shiftDown (byteLen outside)).span.start
      (token.shiftDown (byteLen outside)).span.stop = some consumed' := by
    rw [reads'.span]
    exact get_between before'
  have same : consumed = consumed' := by
    have start := congrArg ByteSpan.start reads'.span
    have skipped := (reaches_skipWhitespace s).offset_le
    have low := trims.offset_ge
    have high := trimmed.offset_eq
    simp only [Token.shiftDown, ByteSpan.shiftDown, reads.span] at start
    have length : byteLen consumed.reverse = byteLen consumed'.reverse := by
      simp only [offset, before, before', byteLen_append] at high start skipped low
      omega
    have joined := trimmed.before
    rw [before, before', List.append_assoc] at joined
    exact List.reverse_injective (append_inj_of_byteLen joined length).1
  rw [text, text', same]

theorem notShorthand_inside {s window after place : Scanner} {token : Token} (reads : Reads s.input s token after)
    (trims : Trims outside tail s window) (literal : notShorthand fields after.input token.span)
    (read : window.next unicode = .ok (token.shiftDown (byteLen outside), place))
    (trimmed : Trims outside tail after place) :
    notShorthand fields place.input (token.shiftDown (byteLen outside)).span := by
  rw [notShorthand, text_inside reads trims read trimmed]
  exact literal

def Rule.shiftDown (amount : ℕ) : Rule → Rule
  | .andRest stop => .andRest (stop - amount)
  | rule => rule

/-- A chain that goes on after the beginning of the window. -/
def Rule.Begins (amount : ℕ) : Rule → Prop
  | .andRest stop => amount ≤ stop
  | _ => True

/-- A derivation that ends inside the window, at no greater depth and in no more fields. -/
def Trimmed (fields : List Str) (unicode : Unicode) (outside tail : Str) (rule : Rule) (depth : ℕ) (inField : Bool)
    (s : Scanner) (expressions : List Expr) (after : Scanner) : Prop :=
  ∀ depth' inField' window, depth' ≤ depth → (inField' = true → inField = true) → Trims outside tail s window →
    Inside tail after → (rule ≠ .operand → Settled unicode tail after) → rule.Begins (byteLen outside) →
    ∃ place, Trims outside tail after place ∧
      Derives fields unicode (rule.shiftDown (byteLen outside)) depth' inField' window
        (shiftsDown (byteLen outside) expressions) place

/-- The token that was peeked before an expression is its first one, hence inside the window. -/
theorem first_inside {s window after beyond : Scanner} {token : Token}
    (first : ∃ token middle, s.next unicode = .ok (token, middle) ∧ token.kind.startsOperand = true ∧ middle.Reaches after)
    (peeked : s.next unicode = .ok (token, beyond)) (trims : Trims outside tail s window) (inside : Inside tail after) :
    ∃ place, window.next unicode = .ok (token.shiftDown (byteLen outside), place) ∧ Trims outside tail beyond place := by
  obtain ⟨token', middle, read, -, reaches⟩ := first
  cases peeked.symm.trans read
  exact next_inside peeked trims (inside.of_reaches reaches)

theorem kind_of_shiftDown {kind other : TokenKind} {amount : ℕ} (same : kind.shiftDown amount = other)
    (plain : ∀ pieces, other ≠ .words pieces) : kind = other := by
  cases kind with
  | words pieces => exact absurd same.symm (plain _)
  | _ => exact same

/-- Before further members of a disjunction, the window is settled if it is behind them. -/
theorem settled_before {depth : ℕ} {inField : Bool} {s after : Scanner} {others : List Expr}
    (rest : Derives fields unicode .orRest depth inField s others after) (settled : Settled unicode tail after)
    (inside : Inside tail after) : Settled unicode tail s := by
  cases rest with
  | orStop => exact settled
  | orMore read kind head rest =>
    exact .inr ⟨_, _, read, inside.of_reaches (head.located.advances.trans rest.located.reaches)⟩

/-- A member of a conjunction and the further ones. -/
theorem and_member_trims {depth : ℕ} {inField : Bool} {s window last after : Scanner} {next : Expr} {others : List Expr}
    (stands : Stands s [next] last)
    (head : ∃ place, Trims outside tail last place ∧
      Derives fields unicode .operand depth inField window [next.shiftDown (byteLen outside)] place)
    (rest : ∀ place, Trims outside tail last place → byteLen outside ≤ next.span.stop →
      ∃ place', Trims outside tail after place' ∧
        Derives fields unicode (.andRest (next.span.stop - byteLen outside)) depth inField place
          (shiftsDown (byteLen outside) others) place') :
    ∃ place', Trims outside tail after place' ∧ ∃ place,
      Derives fields unicode .operand depth inField window [next.shiftDown (byteLen outside)] place ∧
      Derives fields unicode (.andRest (next.shiftDown (byteLen outside)).span.stop) depth inField place
        (shiftsDown (byteLen outside) others) place' := by
  obtain ⟨place, trimmed, headDerives⟩ := head
  have begins : byteLen outside ≤ next.span.stop := by
    rw [stands.single]
    exact trimmed.offset_ge
  obtain ⟨place', trimmed', restDerives⟩ := rest place trimmed begins
  refine ⟨place', trimmed', place, headDerives, ?_⟩
  rw [Expr.span_shiftDown]
  exact restDerives

theorem Derives.trims {rule : Rule} {depth : ℕ} {inField : Bool} {s after : Scanner} {expressions : List Expr}
    (derives : Derives fields unicode rule depth inField s expressions after) :
    Trimmed fields unicode outside tail rule depth inField s expressions after := by
  induction derives with
  | @term depth inField s after token value read kind literal =>
    intro depth' inField' window _ _ trims inside _ _
    obtain ⟨place, read', trimmed⟩ := next_inside read trims inside
    refine ⟨place, trimmed, .term read' ?_ (notShorthand_inside (next_reads rfl read) trims literal read' trimmed)⟩
    rw [Token.shiftDown, kind]
    rfl
  | @prefixed depth inField s after token value read kind literal =>
    intro depth' inField' window _ _ trims inside _ _
    obtain ⟨place, read', trimmed⟩ := next_inside read trims inside
    refine ⟨place, trimmed, .prefixed read' ?_ (notShorthand_inside (next_reads rfl read) trims literal read' trimmed)⟩
    rw [Token.shiftDown, kind]
    rfl
  | @exact depth inField s after token value read kind =>
    intro depth' inField' window _ _ trims inside _ _
    obtain ⟨place, read', trimmed⟩ := next_inside read trims inside
    refine ⟨place, trimmed, .exact read' ?_⟩
    rw [Token.shiftDown, kind]
    rfl
  | @not depth inField s middle after token inner read kind shallow operand ih =>
    intro depth' inField' window shallower freer trims inside _ _
    obtain ⟨place, read', trimmed⟩ := next_inside read trims (inside.of_reaches operand.located.advances)
    obtain ⟨place', trimmed', derives⟩ := ih (depth' + 1) inField' place (by omega) freer trimmed inside (by simp) trivial
    refine ⟨place', trimmed', ?_⟩
    have kind' : (token.shiftDown (byteLen outside)).kind = .not ∨ (token.shiftDown (byteLen outside)).kind = .minus := by
      rw [Token.shiftDown]
      rcases kind with kind | kind <;> rw [kind]
      · exact .inl rfl
      · exact .inr rfl
    have node := Derives.not read' kind' (by omega) derives
    rw [Expr.span_shiftDown] at node
    exact node
  | @words depth inField s after token words read kind shallow =>
    intro depth' inField' window shallower _ trims inside _ _
    obtain ⟨place, read', trimmed⟩ := next_inside read trims inside
    refine ⟨place, trimmed, ?_⟩
    have node := @Derives.words fields unicode depth' inField' window place _ (shiftWords (byteLen outside) words) read'
      (by rw [Token.shiftDown, kind]; rfl) (by omega)
    rw [show (token.shiftDown (byteLen outside)).span = token.span.shiftDown (byteLen outside) from rfl,
      wordGroup_shiftDown] at node
    exact node
  | @field depth s middle after beyond token next name inner read kind known shallow peeked adjacent starts operand ih =>
    intro depth' inField' window shallower freer trims inside _ _
    obtain rfl : inField' = false := by
      cases inField' with
      | false => rfl
      | true => cases freer rfl
    obtain ⟨place, read', trimmed⟩ := next_inside read trims (inside.of_reaches operand.located.advances)
    obtain ⟨beyond', peeked', -⟩ := first_inside operand.first peeked trimmed inside
    obtain ⟨place', trimmed', derives⟩ := ih (depth' + 1) true place (by omega) (fun _ => rfl) trimmed inside (by simp) trivial
    refine ⟨place', trimmed', ?_⟩
    have node := @Derives.field fields unicode depth' window place place' beyond' _ _ name _ read'
      (by rw [Token.shiftDown, kind]; rfl) known (by omega) peeked' (congrArg (· - byteLen outside) adjacent)
      ((startsOperand_shiftDown _ _).trans starts) derives
    rw [Expr.span_shiftDown] at node
    exact node
  | @parentheses depth inField s middle last after beyond token next close inner read kind shallow peeked nonempty body
      closed closing ih =>
    intro depth' inField' window shallower freer trims inside _ _
    have insideLast := inside.of_reaches (next_reads rfl closed).advances
    obtain ⟨place, read', trimmed⟩ := next_inside read trims (insideLast.of_reaches body.located.advances)
    obtain ⟨beyond', peeked', -⟩ := first_inside body.first peeked trimmed insideLast
    obtain ⟨place', trimmed', derives⟩ := ih (depth' + 1) inField' place (by omega) freer trimmed insideLast
      (fun _ => .inr ⟨close, after, closed, inside⟩) trivial
    obtain ⟨final, closed', trimmedFinal⟩ := next_inside closed trimmed' inside
    refine ⟨final, trimmedFinal, ?_⟩
    exact @Derives.parentheses fields unicode depth' inField' window place place' final beyond' _ _ _ _ read'
      (by rw [Token.shiftDown, kind]; rfl) (by omega) peeked' (fun same => nonempty (kind_of_shiftDown same (by simp))) derives
      closed' (by rw [Token.shiftDown, closing]; rfl)
  | @and depth inField s middle after first others head rest ihHead ihRest =>
    intro depth' inField' window shallower freer trims inside settled _
    have stands : Stands s [first] middle := head.located
    have insideMiddle := inside.of_reaches rest.located.reaches
    obtain ⟨place', trimmed', place, headDerives, restDerives⟩ := and_member_trims stands
      (ihHead depth' inField' window shallower freer trims insideMiddle (by simp) trivial) fun place trimmed begins =>
        ihRest depth' inField' place shallower freer trimmed inside (fun _ => settled (by simp)) begins
    refine ⟨place', trimmed', ?_⟩
    have node := Derives.and headDerives restDerives
    rw [chained_shiftDown fun _ _ => rfl] at node
    exact node
  | @andStop stop depth inField s beyond token peeked other ends =>
    intro depth' inField' window _ _ trims _ settled _
    obtain ⟨token', place, peeked', kind⟩ := stop_inside (settled (by simp)) peeked trims
    refine ⟨window, trims, .andStop peeked' ?_ ?_⟩
    · rcases kind with kind | kind
      · simp [kind]
      · exact fun same => other (kind_of_shiftDown (kind.symm.trans same) (by simp))
    · rcases kind with kind | kind
      · rw [kind]
        rfl
      · rw [kind, startsOperand_shiftDown, ends]
  | @andExplicit stop depth inField s middle last after token next others read kind head rest ihHead ihRest =>
    intro depth' inField' window shallower freer trims inside settled _
    have stands : Stands middle [next] last := head.located
    have insideLast := inside.of_reaches rest.located.reaches
    obtain ⟨place, read', trimmed⟩ := next_inside read trims (insideLast.of_reaches stands.advances)
    obtain ⟨place', trimmed', _, headDerives, restDerives⟩ := and_member_trims stands (ihHead depth' inField' place shallower freer trimmed
      insideLast (by simp) trivial) fun place trimmed begins =>
        ihRest depth' inField' place shallower freer trimmed inside (fun _ => settled (by simp)) begins
    exact ⟨place', trimmed', .andExplicit read' (by rw [Token.shiftDown, kind]; rfl) headDerives restDerives⟩
  | @andImplicit stop depth inField s beyond last after token next others peeked starts separated head rest ihHead ihRest =>
    intro depth' inField' window shallower freer trims inside settled begins
    have stands : Stands s [next] last := head.located
    have insideLast := inside.of_reaches rest.located.reaches
    obtain ⟨beyond', peeked', -⟩ := first_inside head.first peeked trims insideLast
    obtain ⟨place', trimmed', _, headDerives, restDerives⟩ := and_member_trims stands (ihHead depth' inField' window shallower freer trims
      insideLast (by simp) trivial) fun place trimmed begins =>
        ihRest depth' inField' place shallower freer trimmed inside (fun _ => settled (by simp)) begins
    have later : byteLen outside ≤ token.span.start := by
      rw [(next_reads rfl peeked).span]
      exact trims.offset_ge.trans (reaches_skipWhitespace s).offset_le
    have begins : byteLen outside ≤ stop := begins
    refine ⟨place', trimmed', .andImplicit peeked' ((startsOperand_shiftDown _ _).trans starts) ?_ headDerives restDerives⟩
    simp only [Token.shiftDown, ByteSpan.shiftDown]
    omega
  | @or depth inField s middle after first others head rest ihHead ihRest =>
    intro depth' inField' window shallower freer trims inside settled _
    have insideMiddle := inside.of_reaches rest.located.reaches
    obtain ⟨place, trimmed, headDerives⟩ := ihHead depth' inField' window shallower freer trims insideMiddle
      (fun _ => settled_before rest (settled (by simp)) inside) trivial
    obtain ⟨place', trimmed', restDerives⟩ := ihRest depth' inField' place shallower freer trimmed inside
      (fun _ => settled (by simp)) trivial
    refine ⟨place', trimmed', ?_⟩
    have node := Derives.or headDerives restDerives
    rw [chained_shiftDown fun _ _ => rfl] at node
    exact node
  | @orStop depth inField s beyond token peeked other =>
    intro depth' inField' window _ _ trims _ settled _
    obtain ⟨token', place, peeked', kind⟩ := stop_inside (settled (by simp)) peeked trims
    refine ⟨window, trims, .orStop peeked' ?_⟩
    rcases kind with kind | kind
    · simp [kind]
    · exact fun same => other (kind_of_shiftDown (kind.symm.trans same) (by simp))
  | @orMore depth inField s middle last after token next others read kind head rest ihHead ihRest =>
    intro depth' inField' window shallower freer trims inside settled _
    have insideLast := inside.of_reaches rest.located.reaches
    obtain ⟨place, read', trimmed⟩ := next_inside read trims (insideLast.of_reaches head.located.advances)
    obtain ⟨place', trimmed', headDerives⟩ := ihHead depth' inField' place shallower freer trimmed insideLast
      (fun _ => settled_before rest (settled (by simp)) inside) trivial
    obtain ⟨final, trimmedFinal, restDerives⟩ := ihRest depth' inField' place' shallower freer trimmed' inside
      (fun _ => settled (by simp)) trivial
    exact ⟨final, trimmedFinal, .orMore read' (by rw [Token.shiftDown, kind]; rfl) headDerives restDerives⟩

end Windows

/-! ## Subexpressions -/

/-- A subexpression that is not strictly inside a single-quoted group. -/
inductive Expr.Visible : Expr → Expr → Prop where
  | self (expression : Expr) : Visible expression expression
  | child {inner child expression : Expr} (member : child ∈ expression.children)
      (unquoted : ∀ span group, expression ≠ .group span .singleQuotes group) (visible : Visible inner child) :
      Visible inner expression

section Subexpressions

open Scanner

variable {fields : List Str} {unicode : Unicode}

/-- A derivation of one expression from a position of the source. -/
def Derivable (fields : List Str) (unicode : Unicode) (source : Str) (expression : Expr) : Prop :=
  ∃ rule depth inField s after, (rule = .operand ∨ rule = .and ∨ rule = .or) ∧ s.input = source ∧
    Derives fields unicode rule depth inField s [expression] after

/-- The visible subexpressions of a node: itself and those of its children. -/
theorem forall_visible {property : Expr → Prop} {expression : Expr} (self : property expression)
    (children : ∀ child ∈ expression.children, ∀ inner, Expr.Visible inner child → property inner) :
    ∀ inner, Expr.Visible inner expression → property inner := by
  intro inner visible
  cases visible with
  | self => exact self
  | child member _ visible => exact children _ member _ visible

theorem visible_chained {property : Expr → Prop} {build : ByteSpan → List Expr → Expr} {first : Expr}
    {others : List Expr} (children : ∀ span expressions, (build span expressions).children = expressions)
    (self : property (chained build first others))
    (members : ∀ expression ∈ first :: others, ∀ inner, Expr.Visible inner expression → property inner) :
    ∀ inner, Expr.Visible inner (chained build first others) → property inner := by
  cases others with
  | nil => exact members first List.mem_cons_self
  | cons second rest =>
    refine forall_visible self ?_
    rw [Parser.chained_cons, children]
    exact members

/-- Every visible subexpression of what is derived is derived by itself. -/
theorem Derives.visible {source : Str} {rule : Rule} {depth : ℕ} {inField : Bool} {s after : Scanner}
    {expressions : List Expr} (derives : Derives fields unicode rule depth inField s expressions after)
    (same : s.input = source) :
    ∀ expression ∈ expressions, ∀ inner, Expr.Visible inner expression → Derivable fields unicode source inner := by
  induction derives with
  | @term depth inField s after token value read kind literal =>
    refine List.forall_mem_singleton.mpr (forall_visible ?_ (by simp [Expr.children]))
    exact ⟨.operand, depth, inField, s, after, .inl rfl, same, .term read kind literal⟩
  | @prefixed depth inField s after token value read kind literal =>
    refine List.forall_mem_singleton.mpr (forall_visible ?_ (by simp [Expr.children]))
    exact ⟨.operand, depth, inField, s, after, .inl rfl, same, .prefixed read kind literal⟩
  | @exact depth inField s after token value read kind =>
    refine List.forall_mem_singleton.mpr (forall_visible ?_ (by simp [Expr.children]))
    exact ⟨.operand, depth, inField, s, after, .inl rfl, same, .exact read kind⟩
  | @not depth inField s middle after token inner read kind shallow operand ih =>
    refine List.forall_mem_singleton.mpr (forall_visible ?_ (ih ((next_reads rfl read).input_eq rfl |>.trans same)))
    exact ⟨.operand, depth, inField, s, after, .inl rfl, same, .not read kind shallow operand⟩
  | @field depth s middle after beyond token next name inner read kind known shallow peeked adjacent starts operand ih =>
    refine List.forall_mem_singleton.mpr (forall_visible ?_ (ih ((next_reads rfl read).input_eq rfl |>.trans same)))
    exact ⟨.operand, depth, false, s, after, .inl rfl, same,
      .field read kind known shallow peeked adjacent starts operand⟩
  | @parentheses depth inField s middle last after beyond token next close inner read kind shallow peeked nonempty body
      closed closing ih =>
    refine List.forall_mem_singleton.mpr (forall_visible ?_ (ih ((next_reads rfl read).input_eq rfl |>.trans same)))
    exact ⟨.operand, depth, inField, s, after, .inl rfl, same,
      .parentheses read kind shallow peeked nonempty body closed closing⟩
  | @words depth inField s after token words read kind shallow =>
    refine List.forall_mem_singleton.mpr fun inner visible => ?_
    cases visible with
    | self => exact ⟨.operand, depth, inField, s, after, .inl rfl, same, .words read kind shallow⟩
    | child _ unquoted =>
      have quoted : ∃ span group, wordGroup words token.span = .group span .singleQuotes group := by
        rw [wordGroup]
        split <;> exact ⟨_, _, rfl⟩
      obtain ⟨span, group, shape⟩ := quoted
      exact absurd shape (unquoted span group)
  | @and depth inField s middle after first others head rest ihHead ihRest =>
    refine List.forall_mem_singleton.mpr (visible_chained (fun _ _ => rfl) ?_ ?_)
    · exact ⟨.and, depth, inField, s, after, .inr (.inl rfl), same, .and head rest⟩
    · exact List.forall_mem_cons.mpr ⟨ihHead same first List.mem_cons_self,
        ihRest (head.located.advances.input_eq.trans same)⟩
  | @or depth inField s middle after first others head rest ihHead ihRest =>
    refine List.forall_mem_singleton.mpr (visible_chained (fun _ _ => rfl) ?_ ?_)
    · exact ⟨.or, depth, inField, s, after, .inr (.inr rfl), same, .or head rest⟩
    · exact List.forall_mem_cons.mpr ⟨ihHead same first List.mem_cons_self,
        ihRest (head.located.advances.input_eq.trans same)⟩
  | andStop | orStop => simp
  | andExplicit read kind head rest ihHead ihRest =>
    have input := ((next_reads rfl read).input_eq rfl).trans same
    exact List.forall_mem_cons.mpr ⟨ihHead input _ List.mem_cons_self, ihRest (head.located.advances.input_eq.trans input)⟩
  | andImplicit peeked starts separated head rest ihHead ihRest =>
    exact List.forall_mem_cons.mpr ⟨ihHead same _ List.mem_cons_self, ihRest (head.located.advances.input_eq.trans same)⟩
  | orMore read kind head rest ihHead ihRest =>
    have input := ((next_reads rfl read).input_eq rfl).trans same
    exact List.forall_mem_cons.mpr ⟨ihHead input _ List.mem_cons_self, ihRest (head.located.advances.input_eq.trans input)⟩

end Subexpressions

/-! ## Parsing a subexpression by itself -/

section Alone

open Scanner

variable {fields : List Str} {unicode : Unicode}

theorem next_skipWhitespace (s : Scanner) : s.skipWhitespace.next unicode = s.next unicode := by
  rw [next, next, skipWhitespace_idem]

/-- An expression may be read from its first character on. -/
theorem Derives.skip {rule : Rule} {depth : ℕ} {inField : Bool} {s after : Scanner} {expressions : List Expr}
    (derives : Derives fields unicode rule depth inField s expressions after)
    (single : rule = .operand ∨ rule = .and ∨ rule = .or) :
    Derives fields unicode rule depth inField s.skipWhitespace expressions after := by
  have same := @next_skipWhitespace unicode
  induction derives with
  | term read kind literal => exact .term ((same _).trans read) kind literal
  | prefixed read kind literal => exact .prefixed ((same _).trans read) kind literal
  | exact read kind => exact .exact ((same _).trans read) kind
  | not read kind shallow operand => exact .not ((same _).trans read) kind shallow operand
  | field read kind known shallow peeked adjacent starts operand =>
    exact .field ((same _).trans read) kind known shallow peeked adjacent starts operand
  | parentheses read kind shallow peeked nonempty body closed closing =>
    exact .parentheses ((same _).trans read) kind shallow peeked nonempty body closed closing
  | words read kind shallow => exact .words ((same _).trans read) kind shallow
  | and head rest ihHead => exact .and (ihHead (.inl rfl)) rest
  | or head rest ihHead => exact .or (ihHead (.inr (.inl rfl))) rest
  | andStop | andExplicit | andImplicit | orStop | orMore => simp at single

/-- At the end of the source, an operand is a conjunction and a conjunction is a disjunction. -/
theorem Derives.toOr {rule : Rule} {depth : ℕ} {inField : Bool} {s after : Scanner} {expression : Expr}
    (derives : Derives fields unicode rule depth inField s [expression] after)
    (single : rule = .operand ∨ rule = .and ∨ rule = .or) (done : after.rest = []) :
    Derives fields unicode .or depth inField s [expression] after := by
  obtain ⟨token, read, kind⟩ := @next_at_end unicode after done
  have closeAnd (operand : Derives fields unicode .operand depth inField s [expression] after) :
      Derives fields unicode .and depth inField s [expression] after :=
    .and operand (.andStop read (by simp [kind]) (by rw [kind]; rfl))
  have closeOr (conjunction : Derives fields unicode .and depth inField s [expression] after) :
      Derives fields unicode .or depth inField s [expression] after := .or conjunction (.orStop read (by simp [kind]))
  rcases single with rfl | rfl | rfl
  · exact closeOr (closeAnd derives)
  · exact closeOr derives
  · exact derives

/-- The text of a derivable expression derives it by itself. -/
theorem Derivable.alone {source : Str} {expression : Expr} (derivable : Derivable fields unicode source expression) :
    ∃ text place front rear, source = front ++ (text ++ rear) ∧
      get source expression.span.start expression.span.stop = some text ∧ Scanner.rest place = [] ∧
      Derives fields unicode .or 0 false ⟨[], text⟩ [expression.shiftDown expression.span.start] place := by
  obtain ⟨rule, depth, inField, s, after, single, same, derives⟩ := derivable
  have stands : Stands s [expression] after := by
    have located := derives.located
    rcases single with rfl | rfl | rfl <;> exact located
  obtain ⟨text, rest, before⟩ := stands.reaches
  have window : Trims s.skipWhitespace.before after.rest s.skipWhitespace ⟨[], text⟩ := ⟨rfl, rest⟩
  obtain ⟨place, trimmed, inner⟩ := (derives.skip single).trims 0 false ⟨[], text⟩ (Nat.zero_le _) (by simp) window
    ⟨[], rfl⟩ (fun _ => .inl rfl) (by rcases single with rfl | rfl | rfl <;> trivial)
  have done : place.rest = [] := List.append_left_eq_self.mp trimmed.rest.symm
  have input : after.input = source := stands.advances.input_eq.trans same
  refine ⟨text, place, s.skipWhitespace.before.reverse, after.rest, ?_, ?_, done, ?_⟩
  · rw [← same, ← (reaches_skipWhitespace s).input_eq, Scanner.input, rest]
  · rw [stands.single, ← input]
    exact get_between before
  · rw [stands.single]
    refine Derives.toOr ?_ single done
    rcases single with rfl | rfl | rfl <;> exact inner

theorem size_le_sizes {expression : Expr} {expressions : List Expr} (member : expression ∈ expressions) :
    expression.size ≤ sizes expressions := by
  induction expressions with
  | nil => cases member
  | cons first rest ih =>
    rw [sizes]
    rcases List.mem_cons.mp member with rfl | member
    · omega
    · have := ih member
      omega

theorem Expr.Visible.size_le {inner expression : Expr} (visible : Visible inner expression) :
    inner.size ≤ expression.size := by
  induction visible with
  | self => exact Nat.le_refl _
  | @child child expression member _ _ ih =>
    refine ih.trans ?_
    cases expression with
    | matchAll | term | exact | prefixed => cases member
    | not | field | group =>
      cases List.mem_singleton.mp member
      exact Nat.le_succ _
    | and | or => exact (size_le_sizes member).trans (Nat.le_succ _)

theorem controlSpan_eq_none {offset : ℕ} {text : Str} :
    SearchQueryProcessor.controlSpan offset text = none ↔ ∀ c ∈ text, isControl c = false := by
  induction text generalizing offset with
  | nil => simp [SearchQueryProcessor.controlSpan]
  | cons c text ih =>
    rw [SearchQueryProcessor.controlSpan, List.forall_mem_cons]
    split_ifs with control
    · simp [control]
    · simp [control, ih]

end Alone

namespace SearchQueryProcessor

variable {processor : SearchQueryProcessor} {unicode : Unicode}

/-- A derivation of a short text up to its end is what parsing it returns. -/
theorem parse_of_ends {text : Str} {expression : Expr} {place beyond : Scanner} {last : Token}
    (short : byteLen text ≤ maxQueryBytes) (plain : ∀ c ∈ text, isControl c = false)
    (small : expression.size ≤ maxQueryNodes)
    (derives : Derives processor.fields unicode .or 0 false ⟨[], text⟩ [expression] place)
    (final : place.next unicode = .ok (last, beyond)) (kind : last.kind = .endOfInput) :
    processor.parse unicode text = .ok ⟨text, expression⟩ := by
  obtain ⟨token, middle, read, starts, -⟩ := derives.first
  have notEnd : token.kind ≠ .endOfInput := by
    intro kind
    rw [kind] at starts
    cases starts
  obtain ⟨result, parsed, stands, -⟩ := Parser.complete derives (fuelFor text) expression (Nat.le_refl _) rfl
    ⟨middle, some token, 0⟩ (Parser.at_peeked read 0) (by simpa using small)
  rw [parse, parseCounted, if_neg (by omega), (controlSpan_eq_none).mpr plain]
  dsimp only
  rw [Parser.peek_of_next (at_start unicode text) read, ok_bind]
  dsimp only
  rw [if_neg notEnd, parsed, ok_bind]
  dsimp only
  rw [Parser.peek_of_next stands final, ok_bind]
  simp [kind]

/-- A derivation of a whole short text is what parsing it returns. -/
theorem parse_of_derives {text : Str} {expression : Expr} {place : Scanner} (short : byteLen text ≤ maxQueryBytes)
    (plain : ∀ c ∈ text, isControl c = false) (small : expression.size ≤ maxQueryNodes)
    (derives : Derives processor.fields unicode .or 0 false ⟨[], text⟩ [expression] place) (done : place.rest = []) :
    processor.parse unicode text = .ok ⟨text, expression⟩ := by
  obtain ⟨last, final, kind⟩ := @next_at_end unicode place done
  exact parse_of_ends short plain small derives final kind

/-- A parsed source is short, free of control characters, and either blank or derived up to its end. -/
theorem ends_of_parse {source : Str} {query : ParsedQuery} (parsed : processor.parse unicode source = .ok query) :
    byteLen source ≤ maxQueryBytes ∧ (∀ c ∈ source, isControl c = false) ∧
    (query.expression = .matchAll ⟨0, byteLen source⟩ ∨
      ∃ last token beyond, Derives processor.fields unicode .or 0 false ⟨[], source⟩ [query.expression] last ∧
        last.next unicode = .ok (token, beyond) ∧ token.kind = .endOfInput) := by
  rw [parse] at parsed
  obtain ⟨⟨expression, parser⟩, counted, same⟩ := bind_eq_ok.mp parsed
  cases same
  rw [parseCounted, fail, ite_error_eq_ok] at counted
  obtain ⟨short, counted⟩ := counted
  split at counted
  · cases counted
  · next plain =>
    refine ⟨Nat.not_lt.mp short, (controlSpan_eq_none).mp plain, ?_⟩
    obtain ⟨⟨token, peeked⟩, read, counted⟩ := bind_eq_ok.mp counted
    dsimp only at counted
    split_ifs at counted
    · rw [Parser.node, fail, ite_error_eq_ok] at counted
      cases counted.2
      exact .inl rfl
    · obtain ⟨⟨expression', next⟩, ran, counted⟩ := bind_eq_ok.mp counted
      obtain ⟨⟨last, final⟩, ahead, counted⟩ := bind_eq_ok.mp counted
      have stands : peeked.At unicode ⟨[], source⟩ := by
        have yields := @Parser.peek_yields unicode source True _ _ (at_start unicode source) rfl
        rw [read] at yields
        obtain ⟨token, after, same, ahead, -⟩ := yields
        cases same
        exact Parser.at_peeked ahead 0
      have yields := (Parser.sound processor.fields unicode source (fuelFor source)).or 0 false peeked _ stands rfl
      rw [ran] at yields
      obtain ⟨after, behind, derives, -⟩ := yields
      have yields := @Parser.peek_yields unicode source True _ _ behind derives.located.advances.input_eq
      rw [ahead] at yields
      obtain ⟨token, beyond, same, read, -⟩ := yields
      cases same
      simp only [fail, ite_error_eq_ok, pure_eq_ok, ne_eq, Decidable.not_not] at counted
      obtain ⟨ends, same⟩ := counted
      cases same
      exact .inr ⟨after, last, beyond, derives, read, ends⟩

/-- A parsed source is short, free of control characters, and either blank or derived. -/
theorem derives_of_parse {source : Str} {query : ParsedQuery} (parsed : processor.parse unicode source = .ok query) :
    byteLen source ≤ maxQueryBytes ∧ (∀ c ∈ source, isControl c = false) ∧
    (query.expression = .matchAll ⟨0, byteLen source⟩ ∨
      ∃ last, Derives processor.fields unicode .or 0 false ⟨[], source⟩ [query.expression] last) := by
  obtain ⟨short, plain, shape⟩ := ends_of_parse parsed
  exact ⟨short, plain, shape.imp_right fun ⟨last, _, _, derives, _⟩ => ⟨last, derives⟩⟩

/-- Query parsing is compositional: the text of every subexpression that is not strictly inside a single-quoted
group parses by itself to that subexpression. -/
theorem parse_compositional (processor : SearchQueryProcessor) (unicode : Unicode) (source : Str) (query : ParsedQuery)
    (parsed : processor.parse unicode source = .ok query) (inner : Expr) (visible : inner.Visible query.expression) :
    ∃ text, get source inner.span.start inner.span.stop = some text ∧
      processor.parse unicode text = .ok ⟨text, inner.shiftDown inner.span.start⟩ := by
  obtain ⟨short, plain, blank | ⟨last, derives⟩⟩ := derives_of_parse parsed
  · -- A blank query has no subexpression but itself.
    rw [blank] at visible
    have whole : get source 0 (byteLen source) = some source := get_iff.mpr ⟨[], [], by simp, rfl, Nat.zero_add _⟩
    cases visible with
    | child member => cases member
    | self =>
      refine ⟨source, whole, ?_⟩
      have same := processor.parse_wellFormed unicode source
      rw [parsed] at same ⊢
      obtain ⟨text, expression⟩ := query
      obtain rfl : text = source := same.1
      cases blank
      rfl
  · have wellFormed := processor.parse_wellFormed unicode source
    rw [parsed] at wellFormed
    obtain ⟨-, parser, -, wellFormed⟩ := wellFormed
    obtain ⟨text, place, front, rear, shape, found, done, alone⟩ :=
      (@Derives.visible _ _ source _ _ _ _ _ _ derives rfl query.expression List.mem_cons_self inner visible).alone
    refine ⟨text, found, parse_of_derives ?_ ?_ ?_ alone done⟩
    · have := congrArg byteLen shape
      simp only [byteLen_append] at this
      omega
    · intro c member
      exact plain c (by rw [shape]; simp [member])
    · rw [Expr.size_shiftDown]
      exact visible.size_le.trans wellFormed.small

/-- A processor with one field. -/
def titles : SearchQueryProcessor where
  fields := [['t', 'i', 't', 'l', 'e']]
  limited := by decide
  valid := by decide
  distinct := by decide

/-- The query `a -(b's OR c)`. -/
def negatedGroup : Str := ['a', ' ', '-', '(', 'b', '\'', 's', ' ', 'O', 'R', ' ', 'c', ')']

/-- A conjunction of two operands, of which the second one negates what stands at a span. -/
def negatesAt (place : ByteSpan) : Except Halt ParsedQuery → Bool
  | .ok ⟨_, .and _ [_, .not _ inner]⟩ => decide (inner.span = place)
  | _ => false

/-- The group of the query parses by itself. -/
theorem parse_compositional_negatedGroup :
    ∃ query span first outer inner, titles.parse Unicode.korean negatedGroup = .ok query ∧
      query.expression = .and span [first, .not outer inner] ∧ inner.span = ⟨3, 13⟩ ∧
      ∃ text, get negatedGroup 3 13 = some text ∧
        titles.parse Unicode.korean text = .ok ⟨text, inner.shiftDown 3⟩ := by
  have shape : negatesAt ⟨3, 13⟩ (titles.parse Unicode.korean negatedGroup) = true := by decide +kernel
  unfold negatesAt at shape
  split at shape
  · next source span first outer inner parsed =>
    have place : inner.span = ⟨3, 13⟩ := of_decide_eq_true shape
    have operand : inner.Visible (.not outer inner) := .child List.mem_cons_self (by simp) (.self inner)
    have visible : inner.Visible (.and span [first, .not outer inner]) :=
      .child (List.mem_cons_of_mem first List.mem_cons_self) (by simp) operand
    have alone := parse_compositional titles Unicode.korean negatedGroup _ parsed inner visible
    rw [place] at alone
    exact ⟨_, span, first, outer, inner, parsed, rfl, place, alone⟩
  · cases shape

end SearchQueryProcessor

end OpenLegal.SearchQuery
