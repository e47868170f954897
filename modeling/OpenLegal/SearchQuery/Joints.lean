import OpenLegal.SearchQuery.Respelling
import OpenLegal.SearchQuery.Widening

/-! # Where the members of a chain meet

The tokens of a query are read one after another. Two neighbouring members of a conjunction meet between a token that
ends an operand and one that starts an operand, and only white space or `AND` stands there.
-/

namespace OpenLegal.SearchQuery

open Rust Rust.Str Scanner

/-! ## Operators -/

/-- How an operator is written. -/
def TokenKind.spelling : TokenKind → Option Str
  | .and => some ['A', 'N', 'D']
  | .or => some ['O', 'R']
  | .not => some ['N', 'O', 'T']
  | _ => none

section Operators

variable {unicode : Unicode}

/-- A word without an escape is its own text. -/
theorem wordLoop_unescaped {before rest : Str} {word result : Word} {after : Scanner}
    (ran : wordLoop unicode before rest word = .ok (result, after)) (unescaped : result.escaped = false) :
    word.escaped = false ∧ ∃ consumed, rest = consumed ++ after.rest ∧ result.value = word.value ++ consumed := by
  induction before, rest, word using wordLoop.induct unicode with
  | case1 before word =>
    cases ran
    exact ⟨unescaped, [], rfl, (List.append_nil _).symm⟩
  | case2 before c rest word ends =>
    rw [wordLoop_ends ends] at ran
    cases ran
    exact ⟨unescaped, [], rfl, (List.append_nil _).symm⟩
  | case3 before word =>
    rw [wordLoop_trailing] at ran
    cases ran
  | case4 before word literal rest _ ih =>
    rw [wordLoop_escape] at ran
    cases (ih ran).1
  | case5 before c rest word inside plain stars ih =>
    rw [wordLoop_char (by simpa using inside) plain] at ran
    obtain ⟨free, consumed, shape, value⟩ := ih ran
    refine ⟨free, c :: consumed, by rw [shape]; rfl, ?_⟩
    rw [value, List.append_assoc]
    rfl

theorem closeQuote_spelling {single : Bool} {value : Str} {words : List (Str × ByteSpan)} {span : ByteSpan}
    {kind : TokenKind} (closed : closeQuote single value words span = .ok kind) : kind.spelling = none := by
  rw [closeQuote] at closed
  split_ifs at closed
  · cases closed
    rfl
  · cases closed
    rfl

theorem quotedLoop_spelling {single : Bool} {start : ℕ} {before rest value : Str} {words : List (Str × ByteSpan)}
    {wordStart : ℕ} {kind : TokenKind} {after : Scanner}
    (ran : quotedLoop unicode single start before rest value words wordStart = .ok (kind, after)) :
    kind.spelling = none := by
  obtain ⟨-, _, _, _, closed⟩ := quotedLoop_closes ran
  exact closeQuote_spelling closed

theorem classify_spelling {word : Word} {span : ByteSpan} {kind : TokenKind} {name : Str}
    (classified : classify word span = .ok kind) (spelled : kind.spelling = some name) :
    word.escaped = false ∧ word.value = name := by
  simp only [classify] at classified
  split at classified
  · split_ifs at classified with escaped conjunction disjunction negation
    · cases classified
      cases spelled
    · cases classified
      exact ⟨by simpa using escaped, conjunction.trans (Option.some.inj spelled)⟩
    · cases classified
      exact ⟨by simpa using escaped, disjunction.trans (Option.some.inj spelled)⟩
    · cases classified
      exact ⟨by simpa using escaped, negation.trans (Option.some.inj spelled)⟩
    · cases classified
      cases spelled
  · split_ifs at classified
    cases classified
    cases spelled
  · cases classified

/-- The text of an operator is its name. -/
theorem kindAt_spelling {s after : Scanner} {kind : TokenKind} {name : Str} (ran : kindAt unicode s = .ok (kind, after))
    (spelled : kind.spelling = some name) : s.rest = name ++ after.rest := by
  obtain ⟨before, rest⟩ := s
  cases rest with
  | nil =>
    cases ran
    cases spelled
  | cons c rest =>
    simp only [kindAt] at ran
    split_ifs at ran with opening closing minus double single named
    · cases ran
      cases spelled
    · cases ran
      cases spelled
    · cases ran
      cases spelled
    · rw [quotedLoop_spelling ran] at spelled
      cases spelled
    · rw [quotedLoop_spelling ran] at spelled
      cases spelled
    · obtain ⟨more, shape⟩ := List.isPrefixOf_iff_prefix.mp named
      rw [← shape] at ran
      have ran : field ⟨before, 'i' :: 'n' :: ':' :: more⟩ = .ok (kind, after) := ran
      rw [field_eq] at ran
      split at ran
      · split_ifs at ran
        cases ran
        cases spelled
      · cases ran
    · obtain ⟨⟨word, last⟩, looped, ran⟩ := bind_eq_ok.mp ran
      obtain ⟨found, classified, same⟩ := bind_eq_ok.mp ran
      cases same
      obtain ⟨unescaped, value⟩ := classify_spelling classified spelled
      obtain ⟨-, consumed, shape, text⟩ := wordLoop_unescaped looped unescaped
      rw [← value, text]
      exact shape

end Operators

/-! ## Tokens one after another -/

/-- Tokens read from one position to another. The flags say whether the token before a position may end an operand. -/
inductive Steps (unicode : Unicode) : Bool → Scanner → Bool → Scanner → Prop where
  | refl (operand : Bool) (s : Scanner) : Steps unicode operand s operand s
  | token {operand last : Bool} {s middle after : Scanner} {token : Token} (read : s.next unicode = .ok (token, middle))
      (more : token.kind ≠ .endOfInput) (rest : Steps unicode token.kind.endsOperand middle last after) :
      Steps unicode operand s last after

/-- The first token starts an operand, and the last one ends an operand. -/
def Spans (unicode : Unicode) (s after : Scanner) : Prop :=
  ∃ token middle, s.next unicode = .ok (token, middle) ∧ token.kind.startsOperand = true ∧
    Steps unicode token.kind.endsOperand middle true after

/-- Where two members of a chain meet: there is the operator, or only a gap. -/
inductive Link (unicode : Unicode) (operator : TokenKind) : Scanner → Scanner → Prop where
  | spelled {s middle : Scanner} {token : Token} (read : s.next unicode = .ok (token, middle)) (kind : token.kind = operator) :
      Link unicode operator s middle
  | gap {s beyond : Scanner} {token : Token} (read : s.next unicode = .ok (token, beyond))
      (apart : token.span.start ≠ s.offset) (conjunction : operator = .and) : Link unicode operator s s

/-- Two neighbouring members of a chain and the tokens before and behind the place where they meet. -/
inductive Joint (unicode : Unicode) (operator : TokenKind) (operand : Bool) (s : Scanner) (first second : Expr)
    (after : Scanner) : Prop where
  | intro {place middle beyond : Scanner} {token : Token} (front : Steps unicode operand s true place)
      (stop : place.offset = first.span.stop) (link : Link unicode operator place middle)
      (read : middle.next unicode = .ok (token, beyond)) (starts : token.kind.startsOperand = true)
      (start : token.span.start = second.span.start) (rear : Steps unicode token.kind.endsOperand beyond true after) :
      Joint unicode operator operand s first second after

section Steps

variable {unicode : Unicode} {operand last : Bool} {s middle after : Scanner}

theorem notEnd_of_starts {kind : TokenKind} (starts : kind.startsOperand = true) : kind ≠ .endOfInput := by
  rintro rfl
  cases starts

theorem Steps.trans {beyond : Scanner} {final : Bool} (first : Steps unicode operand s last middle)
    (second : Steps unicode last middle final beyond) : Steps unicode operand s final beyond := by
  induction first with
  | refl => exact second
  | token read more rest ih => exact .token read more (ih second)

theorem Steps.single (operand : Bool) {token : Token} (read : s.next unicode = .ok (token, after))
    (more : token.kind ≠ .endOfInput) : Steps unicode operand s token.kind.endsOperand after :=
  .token read more (.refl _ _)

theorem Steps.reaches (steps : Steps unicode operand s last after) : s.Reaches after := by
  induction steps with
  | refl => exact .refl _
  | token read more rest ih => exact (next_reads rfl read).advances.trans ih

theorem Spans.steps (spans : Spans unicode s after) (operand : Bool) : Steps unicode operand s true after := by
  obtain ⟨token, middle, read, starts, rest⟩ := spans
  exact .token read (notEnd_of_starts starts) rest

/-- An expression and what follows it. -/
theorem Spans.append (spans : Spans unicode s middle) (rest : Steps unicode true middle true after) :
    Spans unicode s after := by
  obtain ⟨token, first, read, starts, steps⟩ := spans
  exact ⟨token, first, read, starts, steps.trans rest⟩

theorem Joint.widen {operator : TokenKind} {first second : Expr} {outer final : Scanner}
    (joint : Joint unicode operator last s first second after) (front : Steps unicode operand outer last s)
    (rear : Steps unicode true after true final) : Joint unicode operator operand outer first second final := by
  obtain ⟨before, stop, link, read, starts, start, behind⟩ := joint
  exact ⟨front.trans before, stop, link, read, starts, start, behind.trans rear⟩

end Steps

/-! ## Derivations -/

section Derivations

variable {fields : List Str} {unicode : Unicode}

/-- What is derived is read token by token. -/
theorem Derives.steps {rule : Rule} {depth : ℕ} {inField : Bool} {s after : Scanner} {expressions : List Expr}
    (derives : Derives fields unicode rule depth inField s expressions after) :
    match rule with
    | .operand | .and | .or => Spans unicode s after
    | .andRest _ | .orRest => Steps unicode true s true after := by
  induction derives with
  | term read kind | prefixed read kind | exact read kind | words read kind =>
    refine ⟨_, _, read, by rw [kind]; rfl, ?_⟩
    rw [kind]
    exact .refl _ _
  | not read kind _ _ ih => exact ⟨_, _, read, by rcases kind with kind | kind <;> rw [kind] <;> rfl, Spans.steps ih _⟩
  | field read kind _ _ _ _ _ _ ih => exact ⟨_, _, read, by rw [kind]; rfl, Spans.steps ih _⟩
  | parentheses read kind _ _ _ _ closed closing ih =>
    refine ⟨_, _, read, by rw [kind]; rfl, (Spans.steps ih _).trans (.token closed (by simp [closing]) ?_)⟩
    rw [closing]
    exact .refl _ _
  | and _ _ head rest => exact Spans.append head rest
  | or _ _ head rest => exact Spans.append head rest
  | andStop | orStop => exact .refl _ _
  | andExplicit read kind _ _ head rest =>
    exact .token read (by simp [kind]) ((Spans.steps head _).trans rest)
  | orMore read kind _ _ head rest => exact .token read (by simp [kind]) ((Spans.steps head _).trans rest)
  | andImplicit _ _ _ _ _ head rest => exact (Spans.steps head _).trans rest

/-- Every two neighbours meet at a joint. -/
def AllJoined (unicode : Unicode) (operator : TokenKind) (operand : Bool) (s after : Scanner) (members : List Expr) : Prop :=
  ∀ first second, [first, second] <:+: members → Joint unicode operator operand s first second after

/-- The members of a chain meet at joints. -/
def ChainJoined (unicode : Unicode) (operand : Bool) (s after : Scanner) : Expr → Prop
  | .and _ members => AllJoined unicode .and operand s after members
  | .or _ members => AllJoined unicode .or operand s after members
  | _ => True

/-- The members of every visible chain meet at joints. -/
def VisiblyJoined (unicode : Unicode) (operand : Bool) (s after : Scanner) (expressions : List Expr) : Prop :=
  ∀ expression ∈ expressions, ∀ inner, Expr.Visible inner expression → ChainJoined unicode operand s after inner

section Widen

variable {operand last : Bool} {s middle after final : Scanner}

theorem AllJoined.widen {operator : TokenKind} {members : List Expr}
    (joined : AllJoined unicode operator last middle after members) (front : Steps unicode operand s last middle)
    (rear : Steps unicode true after true final) : AllJoined unicode operator operand s final members :=
  fun first second adjacent => (joined first second adjacent).widen front rear

theorem ChainJoined.widen {expression : Expr} (joined : ChainJoined unicode last middle after expression)
    (front : Steps unicode operand s last middle) (rear : Steps unicode true after true final) :
    ChainJoined unicode operand s final expression := by
  cases expression with
  | and | or => exact AllJoined.widen joined front rear
  | _ => trivial

theorem VisiblyJoined.widen {expressions : List Expr} (joined : VisiblyJoined unicode last middle after expressions)
    (front : Steps unicode operand s last middle) (rear : Steps unicode true after true final) :
    VisiblyJoined unicode operand s final expressions :=
  fun expression member inner visible => (joined expression member inner visible).widen front rear

theorem VisiblyJoined.cons {first : Expr} {others : List Expr} (head : VisiblyJoined unicode operand s after [first])
    (tail : VisiblyJoined unicode operand s after others) : VisiblyJoined unicode operand s after (first :: others) :=
  List.forall_mem_cons.mpr ⟨head first List.mem_cons_self, tail⟩

theorem allJoined_singleton {operator : TokenKind} (member : Expr) : AllJoined unicode operator operand s after [member] := by
  intro first second adjacent
  have length := adjacent.length_le
  simp at length

/-- The first two members meet at a joint, and so do the further ones. -/
theorem AllJoined.cons {operator : TokenKind} {first second : Expr} {others : List Expr}
    (joint : Joint unicode operator operand s first second after)
    (rest : AllJoined unicode operator operand s after (second :: others)) :
    AllJoined unicode operator operand s after (first :: second :: others) := by
  intro left right adjacent
  rcases List.infix_cons_iff.mp adjacent with here | later
  · obtain ⟨more, same⟩ := here
    cases same
    exact joint
  · exact rest left right later

end Widen

/-- The members of the chains of what a derivation returns meet at joints, and so do the member before and the further
members that it returns. -/
def Derives.Joins (unicode : Unicode) (rule : Rule) (s : Scanner) (expressions : List Expr) (after : Scanner) : Prop :=
  match rule with
  | .operand | .and | .or => ∀ operand, VisiblyJoined unicode operand s after expressions
  | .andRest stop => VisiblyJoined unicode true s after expressions ∧
      (stop = s.offset → ∀ first, first.span.stop = s.offset → AllJoined unicode .and true s after (first :: expressions))
  | .orRest => VisiblyJoined unicode true s after expressions ∧
      ∀ first, first.span.stop = s.offset → AllJoined unicode .or true s after (first :: expressions)

/-- A member after a joint and the further ones. -/
theorem allJoined_member {operator : TokenKind} {operand : Bool} {s middle last after : Scanner} {first next : Expr}
    {others : List Expr} (link : Link unicode operator s middle) (front : Steps unicode true s operand middle)
    (stands : Stands middle [next] last) (head : Spans unicode middle last) (rest : Steps unicode true last true after)
    (joined : AllJoined unicode operator true last after (next :: others)) (stop : first.span.stop = s.offset) :
    AllJoined unicode operator true s after (first :: next :: others) := by
  obtain ⟨token, beyond, read, starts, steps⟩ := head
  have start : token.span.start = next.span.start := by rw [(next_reads rfl read).span, stands.single]
  have through : Steps unicode true s true last := front.trans (.token read (notEnd_of_starts starts) steps)
  exact .cons (.intro (.refl _ _) stop.symm link read starts start (steps.trans rest)) (joined.widen through (.refl _ _))

theorem visiblyJoined_above {operand : Bool} {s middle last after : Scanner} {token : Token} {inner expression : Expr}
    (read : s.next unicode = .ok (token, middle)) (more : token.kind ≠ .endOfInput)
    (inside : ∀ operand, VisiblyJoined unicode operand middle last [inner]) (rear : Steps unicode true last true after)
    (children : expression.children = [inner]) (self : ChainJoined unicode operand s after expression) :
    VisiblyJoined unicode operand s after [expression] := by
  refine List.forall_mem_singleton.mpr (forall_visible self ?_)
  rw [children]
  exact (inside token.kind.endsOperand).widen (.single operand read more) rear

theorem visiblyJoined_leaf {operand : Bool} {s after : Scanner} {expression : Expr} (children : expression.children = [])
    (self : ChainJoined unicode operand s after expression) : VisiblyJoined unicode operand s after [expression] := by
  refine List.forall_mem_singleton.mpr (forall_visible self ?_)
  simp [children]

theorem Derives.joins {rule : Rule} {depth : ℕ} {inField : Bool} {s after : Scanner} {expressions : List Expr}
    (derives : Derives fields unicode rule depth inField s expressions after) :
    Derives.Joins unicode rule s expressions after := by
  induction derives with
  | term | prefixed | exact => exact fun operand => visiblyJoined_leaf rfl trivial
  | words read kind =>
    intro operand
    refine List.forall_mem_singleton.mpr fun inner visible => ?_
    have quoted : ∀ words span, ∃ outer group, wordGroup words span = .group outer .singleQuotes group := by
      intro words span
      rw [wordGroup]
      split <;> exact ⟨_, _, rfl⟩
    obtain ⟨outer, group, shape⟩ := quoted _ _
    cases visible with
    | self =>
      rw [shape]
      trivial
    | child _ unquoted => exact absurd shape (unquoted outer group)
  | not read kind _ operand ih =>
    exact fun _ => visiblyJoined_above read (by rcases kind with kind | kind <;> simp [kind]) ih (.refl _ _) rfl trivial
  | field read kind _ _ _ _ _ operand ih =>
    exact fun _ => visiblyJoined_above read (by simp [kind]) ih (.refl _ _) rfl trivial
  | parentheses read kind _ _ _ body closed closing ih =>
    intro operand
    have close := Steps.single true closed (by simp [closing])
    rw [closing] at close
    exact visiblyJoined_above read (by simp [kind]) ih close rfl trivial
  | @and depth inField s middle after first others head rest ihHead ihRest =>
    intro operand
    have front := Spans.steps head.steps operand
    refine List.forall_mem_singleton.mpr (visible_chained (fun _ _ => rfl) ?_ ?_)
    · cases others with
      | nil => exact ((ihHead operand).widen (.refl _ _) rest.steps) first List.mem_cons_self first (.self first)
      | cons next others =>
        rw [Parser.chained_cons]
        have stop := head.stop_eq rfl
        exact (ihRest.2 stop first stop).widen front (.refl _ _)
    · exact ((ihHead operand).widen (.refl _ _) rest.steps).cons (ihRest.1.widen front (.refl _ _))
  | @or depth inField s middle after first others head rest ihHead ihRest =>
    intro operand
    have front := Spans.steps head.steps operand
    refine List.forall_mem_singleton.mpr (visible_chained (fun _ _ => rfl) ?_ ?_)
    · cases others with
      | nil => exact ((ihHead operand).widen (.refl _ _) rest.steps) first List.mem_cons_self first (.self first)
      | cons next others =>
        rw [Parser.chained_cons]
        exact (ihRest.2 first (head.stop_eq rfl)).widen front (.refl _ _)
    · exact ((ihHead operand).widen (.refl _ _) rest.steps).cons (ihRest.1.widen front (.refl _ _))
  | andStop => exact ⟨by simp [VisiblyJoined], fun _ first _ => allJoined_singleton first⟩
  | orStop => exact ⟨by simp [VisiblyJoined], fun first _ => allJoined_singleton first⟩
  | andExplicit read kind head rest ihHead ihRest =>
    have front := Steps.single true read (by simp [kind])
    have stop := head.stop_eq rfl
    constructor
    · exact ((ihHead _).widen front rest.steps).cons
        (ihRest.1.widen (front.trans (Spans.steps head.steps _)) (.refl _ _))
    · exact fun _ first => allJoined_member (.spelled read kind) front head.located head.steps rest.steps (ihRest.2 stop _ stop)
  | andImplicit peeked starts separated head rest ihHead ihRest =>
    have stop := head.stop_eq rfl
    constructor
    · exact ((ihHead _).widen (.refl _ _) rest.steps).cons (ihRest.1.widen (Spans.steps head.steps _) (.refl _ _))
    · intro here first
      exact allJoined_member (.gap peeked (here ▸ separated) rfl) (.refl _ _) head.located head.steps rest.steps
        (ihRest.2 stop _ stop)
  | orMore read kind head rest ihHead ihRest =>
    have front := Steps.single true read (by simp [kind])
    constructor
    · exact ((ihHead _).widen front rest.steps).cons
        (ihRest.1.widen (front.trans (Spans.steps head.steps _)) (.refl _ _))
    · exact fun first => allJoined_member (.spelled read kind) front head.located head.steps rest.steps
        (ihRest.2 _ (head.stop_eq rfl))

end Derivations

end OpenLegal.SearchQuery
