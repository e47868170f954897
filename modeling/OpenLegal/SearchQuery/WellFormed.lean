import OpenLegal.SearchQuery.Correctness

/-! # Parsed queries are well formed

Every node of a parsed query is checked against its children, and the tree as a whole against the budgets.
A derivation establishes both, one production at a time.
-/

namespace OpenLegal.SearchQuery

open Rust Rust.Str

namespace Expr

mutual

/-- The deepest chain of negations, fields and groups. -/
def nesting : Expr → ℕ
  | matchAll _ | term _ _ | exact _ _ | prefixed _ _ => 0
  | not _ inner | field _ _ inner | group _ _ inner => nesting inner + 1
  | and _ expressions | or _ expressions => nestings expressions

def nestings : List Expr → ℕ
  | [] => 0
  | expression :: expressions => max (nesting expression) (nestings expressions)

end

def isMatchAll : Expr → Bool
  | matchAll _ => true
  | _ => false

def isAnd : Expr → Bool
  | and _ _ => true
  | _ => false

def isOr : Expr → Bool
  | or _ _ => true
  | _ => false

def isField : Expr → Bool
  | field _ _ _ => true
  | _ => false

/-- A subexpression, the expression itself included. -/
inductive Within : Expr → Expr → Prop where
  | self (expression : Expr) : Within expression expression
  | child {inner child expression : Expr} (member : child ∈ expression.children) (within : Within inner child) :
      Within inner expression

theorem forall_within {property : Expr → Prop} {expression : Expr} (self : property expression)
    (children : ∀ child ∈ expression.children, ∀ inner, Within inner child → property inner) :
    ∀ inner, Within inner expression → property inner := by
  intro inner within
  cases within with
  | self => exact self
  | child member within => exact children _ member _ within

theorem nestings_le {expressions : List Expr} {bound : ℕ} (each : ∀ expression ∈ expressions, nesting expression ≤ bound) :
    nestings expressions ≤ bound := by
  induction expressions with
  | nil => exact Nat.zero_le _
  | cons expression expressions ih =>
    rw [nestings]
    exact max_le (each _ (by simp)) (ih fun other member => each other (by simp [member]))

/-- What a node's own constructor requires. -/
def Shaped (fields : List Str) : Expr → Prop
  | matchAll _ | not _ _ | group _ _ _ => True
  | term _ value | exact _ value | prefixed _ value => value ≠ []
  | and _ expressions => 2 ≤ expressions.length ∧ ∀ child ∈ expressions, child.isAnd = false
  | or _ expressions => 2 ≤ expressions.length ∧ ∀ child ∈ expressions, child.isOr = false
  | field _ name inner => name ∈ fields ∧ ∀ nested, Within nested inner → nested.isField = false

/-- A node of a well-formed query: its span is a range of the source that contains the spans of its children,
which are ordered and disjoint. -/
structure WellPlaced (fields : List Str) (source : Str) (expression : Expr) : Prop where
  valid : ValidSpan source expression.span
  inside : ∀ child ∈ expression.children,
    expression.span.start ≤ child.span.start ∧ child.span.stop ≤ expression.span.stop
  ordered : expression.children.Pairwise fun first second => first.span.stop ≤ second.span.start
  noMatchAll : ∀ child ∈ expression.children, child.isMatchAll = false
  shaped : expression.Shaped fields

/-- A well-formed query with the number of nodes that the parser counted. -/
structure WellFormed (fields : List Str) (source : Str) (counted : ℕ) (expression : Expr) : Prop where
  counted : expression.size = counted
  small : expression.size ≤ maxQueryNodes
  shallow : expression.nesting ≤ maxQueryNesting
  nodes : ∀ inner, Within inner expression → inner.WellPlaced fields source

end Expr

/-! ## Derived expressions -/

/-- Which chains a rule cannot return. -/
def Rule.Excludes (expression : Expr) : Rule → Prop
  | .operand | .andRest _ => expression.isAnd = false ∧ expression.isOr = false
  | .and | .orRest => expression.isOr = false
  | .or => True

/-- What a derivation at some depth establishes about its expressions. -/
structure Formed (fields : List Str) (source : Str) (rule : Rule) (depth : ℕ) (inField : Bool) (s : Scanner)
    (expressions : List Expr) (after : Scanner) : Prop where
  nodes : ∀ expression ∈ expressions, ∀ inner, Expr.Within inner expression → inner.WellPlaced fields source
  noMatchAll : ∀ expression ∈ expressions, expression.isMatchAll = false
  noField : inField = true → ∀ expression ∈ expressions, ∀ inner, Expr.Within inner expression → inner.isField = false
  shallow : ∀ expression ∈ expressions, depth + expression.nesting ≤ maxQueryNesting
  bounds : ∀ expression ∈ expressions, s.offset ≤ expression.span.start ∧ expression.span.stop ≤ after.offset
  ordered : expressions.Pairwise fun first second => first.span.stop ≤ second.span.start
  excludes : ∀ expression ∈ expressions, rule.Excludes expression

namespace Formed

variable {fields : List Str} {source : Str} {depth : ℕ} {inField : Bool} {s middle after : Scanner}

/-- A single expression that stands at a position. -/
theorem single {rule : Rule} {expression : Expr} (stands : Stands s [expression] after)
    (nodes : ∀ inner, Expr.Within inner expression → inner.WellPlaced fields source)
    (noMatchAll : expression.isMatchAll = false)
    (noField : inField = true → ∀ inner, Expr.Within inner expression → inner.isField = false)
    (shallow : depth + expression.nesting ≤ maxQueryNesting) (excludes : rule.Excludes expression) :
    Formed fields source rule depth inField s [expression] after := by
  have skipped := (Scanner.reaches_skipWhitespace s).offset_le
  constructor
  case bounds =>
    rw [List.forall_mem_singleton, stands.single]
    exact ⟨skipped, Nat.le_refl _⟩
  case ordered => exact List.pairwise_singleton _ _
  case noField => exact fun nested => List.forall_mem_singleton.mpr (noField nested)
  all_goals
    rw [List.forall_mem_singleton]
    assumption

/-- An operand without children. -/
theorem leaf {expression : Expr} (stands : Stands s [expression] after) (same : s.input = source)
    (childless : expression.children = []) (shaped : expression.Shaped fields) (flat : expression.nesting = 0)
    (bounded : depth ≤ maxQueryNesting) (noMatchAll : expression.isMatchAll = false)
    (noField : expression.isField = false) (excludes : expression.isAnd = false ∧ expression.isOr = false) :
    Formed fields source .operand depth inField s [expression] after := by
  refine single stands ?_ noMatchAll (fun _ => ?_) (by omega) excludes
  · refine Expr.forall_within ?_ (by simp [childless])
    exact ⟨Parser.valid_of_stands stands same, by simp [childless], by simp [childless], by simp [childless], shaped⟩
  · exact Expr.forall_within noField (by simp [childless])

/-- An operand with one child, which stands inside it. -/
theorem above {rule : Rule} {innerField : Bool} {last : Scanner} {expression inner : Expr}
    (stands : Stands s [expression] after) (same : s.input = source) (children : expression.children = [inner])
    (formed : Formed fields source rule (depth + 1) innerField middle [inner] last)
    (begins : s.skipWhitespace.offset ≤ middle.offset) (ends : last.offset ≤ after.offset)
    (shaped : expression.Shaped fields) (nesting : expression.nesting = inner.nesting + 1)
    (noMatchAll : expression.isMatchAll = false)
    (noField : inField = true → expression.isField = false ∧ innerField = true)
    (excludes : expression.isAnd = false ∧ expression.isOr = false) :
    Formed fields source .operand depth inField s [expression] after := by
  have bounds := formed.bounds inner List.mem_cons_self
  have shallow := formed.shallow inner List.mem_cons_self
  refine single stands ?_ noMatchAll ?_ (by omega) excludes
  · refine Expr.forall_within ?_ (by simpa [children] using formed.nodes inner List.mem_cons_self)
    refine ⟨Parser.valid_of_stands stands same, ?_, by simp [children], ?_, shaped⟩
    · rw [children, List.forall_mem_singleton, stands.single]
      exact ⟨begins.trans bounds.1, bounds.2.trans ends⟩
    · rw [children, List.forall_mem_singleton]
      exact formed.noMatchAll inner List.mem_cons_self
  · intro nested
    obtain ⟨notField, innermost⟩ := noField nested
    refine Expr.forall_within notField ?_
    rw [children, List.forall_mem_singleton]
    exact formed.noField innermost inner List.mem_cons_self

/-- The members of a chain. -/
theorem cons {rule first rest : Rule} {last : Scanner} {next : Expr} {others : List Expr}
    (head : Formed fields source first depth inField middle [next] last)
    (tail : Formed fields source rest depth inField last others after) (begins : s.offset ≤ middle.offset)
    (forward : middle.offset ≤ last.offset) (ends : last.offset ≤ after.offset)
    (excludes : ∀ expression ∈ next :: others, rule.Excludes expression) :
    Formed fields source rule depth inField s (next :: others) after := by
  have bounds := head.bounds next List.mem_cons_self
  constructor
  case nodes => exact List.forall_mem_cons.mpr ⟨head.nodes next List.mem_cons_self, tail.nodes⟩
  case noMatchAll => exact List.forall_mem_cons.mpr ⟨head.noMatchAll next List.mem_cons_self, tail.noMatchAll⟩
  case noField =>
    exact fun nested => List.forall_mem_cons.mpr ⟨head.noField nested next List.mem_cons_self, tail.noField nested⟩
  case shallow => exact List.forall_mem_cons.mpr ⟨head.shallow next List.mem_cons_self, tail.shallow⟩
  case bounds =>
    refine List.forall_mem_cons.mpr ⟨⟨begins.trans bounds.1, bounds.2.trans ends⟩, fun other member => ?_⟩
    have := tail.bounds other member
    omega
  case ordered =>
    refine List.pairwise_cons.mpr ⟨fun other member => ?_, tail.ordered⟩
    have := tail.bounds other member
    omega
  case excludes => exact excludes

/-- The node of a chain of several members. -/
theorem chain {rule members : Rule} {build : ByteSpan → List Expr → Expr} {first : Expr} {others : List Expr}
    (children : ∀ span expressions, (build span expressions).children = expressions)
    (nesting : ∀ span expressions, (build span expressions).nesting = Expr.nestings expressions)
    (kinds : ∀ span expressions, (build span expressions).isMatchAll = false ∧ (build span expressions).isField = false)
    (shaped : ∀ span, (build span (first :: others)).Shaped fields ∨ others = [])
    (excludes : rule.Excludes (chained build first others))
    (stands : Stands s [chained build first others] after) (same : s.input = source)
    (formed : Formed fields source members depth inField s (first :: others) after)
    (begins : ∀ expression ∈ first :: others, s.skipWhitespace.offset ≤ expression.span.start) :
    Formed fields source rule depth inField s [chained build first others] after := by
  cases others with
  | nil =>
    exact single stands (formed.nodes first List.mem_cons_self) (formed.noMatchAll first List.mem_cons_self)
      (fun nested => formed.noField nested first List.mem_cons_self) (formed.shallow first List.mem_cons_self) excludes
  | cons second rest =>
    have placed := stands.single
    rw [Parser.chained_cons] at *
    generalize (⟨first.span.start, _⟩ : ByteSpan) = span at *
    have fits : Expr.nestings (first :: second :: rest) ≤ maxQueryNesting - depth :=
      Expr.nestings_le fun expression member => by
        have := formed.shallow expression member
        omega
    have room := formed.shallow first List.mem_cons_self
    refine single stands ?_ (kinds _ _).1 (fun nested => ?_) (by rw [nesting]; omega) excludes
    · refine Expr.forall_within ?_ (by simpa [children] using formed.nodes)
      refine ⟨Parser.valid_of_stands stands same, ?_, ?_, ?_, (shaped span).resolve_right (by simp)⟩
      · rw [children, placed]
        exact fun child member => ⟨begins child member, (formed.bounds child member).2⟩
      · rw [children]
        exact formed.ordered
      · rw [children]
        exact formed.noMatchAll
    · refine Expr.forall_within (kinds _ _).2 ?_
      rw [children]
      exact formed.noField nested

end Formed

/-! ## Single-quoted groups -/

section Words

variable {fields : List Str} {source : Str} {start stop : ℕ}

theorem placed_term {range : ByteSpan} {value : Str} (valid : ValidSpan source range) (nonempty : value ≠ []) :
    ∀ inner, Expr.Within inner (.term range value) → inner.WellPlaced fields source ∧ inner.isField = false :=
  Expr.forall_within ⟨⟨valid, by simp [Expr.children], by simp [Expr.children], by simp [Expr.children], nonempty⟩, rfl⟩
    (by simp [Expr.children])

theorem mem_wordTerms {words : List (Str × ByteSpan)} {term : Expr} (member : term ∈ wordTerms words) :
    ∃ word ∈ words, term = .term word.2 word.1 := by
  obtain ⟨word, found, same⟩ := List.mem_map.mp member
  exact ⟨word, found, same.symm⟩

/-- The chain of the words, and where it stands. -/
theorem placed_words {word : Str × ByteSpan} {words : List (Str × ByteSpan)}
    (within : WordsWithin source start (word :: words) stop) :
    (∀ inner, Expr.Within inner (chained .and (.term word.2 word.1) (wordTerms words)) →
      inner.WellPlaced fields source ∧ inner.isField = false) ∧
    start ≤ (chained .and (.term word.2 word.1) (wordTerms words)).span.start ∧
    (chained .and (.term word.2 word.1) (wordTerms words)).span.stop ≤ stop ∧
    (chained .and (.term word.2 word.1) (wordTerms words)).nesting = 0 ∧
    (chained .and (.term word.2 word.1) (wordTerms words)).isMatchAll = false := by
  have first := within.inside word List.mem_cons_self
  have leaf : ∀ term ∈ wordTerms (word :: words), ∀ inner, Expr.Within inner term →
      inner.WellPlaced fields source ∧ inner.isField = false := by
    intro term member
    obtain ⟨source, found, rfl⟩ := mem_wordTerms member
    exact placed_term (within.valid source found) (within.nonempty source found)
  have valid := Parser.valid_words within
  cases words with
  | nil => exact ⟨leaf _ List.mem_cons_self, first.1, first.2, rfl, rfl⟩
  | cons second rest =>
    obtain ⟨front, last, shape⟩ : ∃ front last, second :: rest = front ++ [last] :=
      ⟨_, _, (List.dropLast_append_getLast (List.cons_ne_nil second rest)).symm⟩
    have node : chained .and (.term word.2 word.1) (wordTerms (second :: rest)) =
        .and ⟨word.2.start, last.2.stop⟩ (wordTerms (word :: second :: rest)) := by
      rw [chained, shape, wordTerms, List.map_append, List.map_cons, List.map_nil, List.getLast?_concat]
      simp [wordTerms, Expr.span]
    have final := within.inside last (by simp [shape])
    have endsLast : ∀ other ∈ word :: second :: rest, other.2.stop ≤ last.2.stop := by
      intro other member
      rw [shape, ← List.cons_append] at member within
      rcases List.mem_append.mp member with early | late
      · exact ((List.pairwise_append.mp within.ordered).2.2 other early last List.mem_cons_self).trans
          (within.valid last (by simp)).forward
      · rw [List.mem_singleton.mp late]
    have startsFirst : ∀ other ∈ word :: second :: rest, word.2.start ≤ other.2.start := by
      refine List.forall_mem_cons.mpr ⟨Nat.le_refl _, fun other member => ?_⟩
      exact (within.valid word List.mem_cons_self).forward.trans ((List.pairwise_cons.mp within.ordered).1 other member)
    rw [node] at valid ⊢
    refine ⟨Expr.forall_within ⟨⟨valid, ?_, ?_, ?_, ?_⟩, rfl⟩ leaf, first.1, final.2, ?_, rfl⟩
    · intro term member
      obtain ⟨other, found, rfl⟩ := mem_wordTerms member
      exact ⟨startsFirst other found, endsLast other found⟩
    · exact List.pairwise_map.mpr within.ordered
    · intro term member
      obtain ⟨other, found, rfl⟩ := mem_wordTerms member
      rfl
    · refine ⟨by simp [wordTerms], fun term member => ?_⟩
      obtain ⟨other, found, rfl⟩ := mem_wordTerms member
      rfl
    · refine Nat.le_zero.mp (Expr.nestings_le fun term member => ?_)
      obtain ⟨other, found, rfl⟩ := mem_wordTerms member
      exact Nat.le_refl 0

end Words

/-! ## Every derivation -/

section Derivations

variable {fields : List Str} {unicode : Unicode} {source : Str}

theorem wordGroup_formed {depth : ℕ} {inField : Bool} {s after : Scanner} {token : Token} {words : List (Str × ByteSpan)}
    (reads : Scanner.Reads source s token after) (kind : token.kind = .words words) (same : s.input = source)
    (shallow : depth < maxQueryNesting) :
    Formed fields source .operand depth inField s [wordGroup words token.span] after := by
  have stands : Stands s [wordGroup words token.span] after := .ofToken reads (by simp [kind]) (wordGroup_span _ _)
  have decoded := reads.decoded
  rw [kind] at decoded
  obtain ⟨nonempty, within⟩ := decoded
  cases words with
  | nil => exact absurd rfl nonempty
  | cons word words =>
    obtain ⟨nodes, begins, ends, flat, noMatchAll⟩ := @placed_words fields source _ _ word words within
    have shape : wordGroup (word :: words) token.span =
      .group token.span .singleQuotes (chained .and (.term word.2 word.1) (wordTerms words)) := rfl
    rw [shape] at stands ⊢
    refine .single stands ?_ rfl (fun _ => ?_) (by rw [Expr.nesting, flat]; omega) ⟨rfl, rfl⟩
    · refine Expr.forall_within ?_ (by simpa [Expr.children] using fun inner inside => (nodes inner inside).1)
      refine ⟨reads.valid same, ?_, by simp [Expr.children], by simpa [Expr.children] using noMatchAll, trivial⟩
      simpa [Expr.children, Expr.span] using ⟨begins, ends⟩
    · exact Expr.forall_within rfl (by simpa [Expr.children] using fun inner inside => (nodes inner inside).2)

/-- No member of a chain begins before the first one. -/
theorem begins_of_formed {rule : Rule} {depth : ℕ} {inField : Bool} {s middle after : Scanner} {first : Expr}
    {others : List Expr} (stands : Stands s [first] middle)
    (rest : Formed fields source rule depth inField middle others after) :
    ∀ expression ∈ first :: others, s.skipWhitespace.offset ≤ expression.span.start := by
  refine List.forall_mem_cons.mpr ⟨by rw [stands.single], fun expression member => ?_⟩
  exact stands.reaches.offset_le.trans (rest.bounds expression member).1

theorem Derives.formed {rule : Rule} {depth : ℕ} {inField : Bool} {s after : Scanner} {expressions : List Expr}
    (derives : Derives fields unicode rule depth inField s expressions after) (same : s.input = source)
    (bounded : depth ≤ maxQueryNesting) : Formed fields source rule depth inField s expressions after := by
  induction derives with
  | term read kind literal =>
    have reads := Scanner.next_reads same read
    have decoded := reads.decoded
    rw [kind] at decoded
    exact .leaf (.ofToken reads (by simp [kind]) rfl) same rfl decoded rfl bounded rfl rfl ⟨rfl, rfl⟩
  | prefixed read kind literal =>
    have reads := Scanner.next_reads same read
    have decoded := reads.decoded
    rw [kind] at decoded
    exact .leaf (.ofToken reads (by simp [kind]) rfl) same rfl decoded rfl bounded rfl rfl ⟨rfl, rfl⟩
  | exact read kind =>
    have reads := Scanner.next_reads same read
    have decoded := reads.decoded
    rw [kind] at decoded
    exact .leaf (.ofToken reads (by simp [kind]) rfl) same rfl decoded rfl bounded rfl rfl ⟨rfl, rfl⟩
  | not read kind shallow operand ih =>
    have reads := Scanner.next_reads same read
    exact .above (Derives.located (.not read kind shallow operand)) same rfl (ih (reads.input_eq same) shallow)
      reads.reaches.offset_le (Nat.le_refl _) trivial rfl rfl (fun nested => ⟨rfl, nested⟩) ⟨rfl, rfl⟩
  | field read kind known shallow peeked adjacent starts operand ih =>
    have reads := Scanner.next_reads same read
    have inner := ih (reads.input_eq same) shallow
    exact .above (Derives.located (.field read kind known shallow peeked adjacent starts operand)) same rfl inner
      reads.reaches.offset_le (Nat.le_refl _) ⟨known, inner.noField rfl _ List.mem_cons_self⟩ rfl rfl
      (fun nested => by cases nested) ⟨rfl, rfl⟩
  | parentheses read kind shallow peeked nonempty body closed closing ih =>
    have reads := Scanner.next_reads same read
    have close := Scanner.next_reads rfl closed
    exact .above (Derives.located (.parentheses read kind shallow peeked nonempty body closed closing)) same rfl
      (ih (reads.input_eq same) shallow) reads.reaches.offset_le close.advances.offset_le trivial rfl rfl
      (fun nested => ⟨rfl, nested⟩) ⟨rfl, rfl⟩
  | words read kind shallow => exact wordGroup_formed (Scanner.next_reads same read) kind same shallow
  | andStop | orStop => exact ⟨by simp, by simp, by simp, by simp, by simp, .nil, by simp⟩
  | andExplicit read kind head tail ihHead ihTail | orMore read kind head tail ihHead ihTail =>
    have reads := Scanner.next_reads same read
    have stands : Stands _ _ _ := head.located
    have first := ihHead (reads.input_eq same) bounded
    have others := ihTail (stands.advances.input_eq.trans (reads.input_eq same)) bounded
    exact .cons first others reads.advances.offset_le stands.advances.offset_le tail.located.reaches.offset_le
      (List.forall_mem_cons.mpr ⟨first.excludes _ List.mem_cons_self, others.excludes⟩)
  | andImplicit peeked starts separated head tail ihHead ihTail =>
    have stands : Stands _ _ _ := head.located
    have first := ihHead same bounded
    have others := ihTail (stands.advances.input_eq.trans same) bounded
    exact .cons first others (Nat.le_refl _) stands.advances.offset_le tail.located.reaches.offset_le
      (List.forall_mem_cons.mpr ⟨first.excludes _ List.mem_cons_self, others.excludes⟩)
  | @and depth inField s middle after first others head tail ihHead ihTail =>
    have stands : Stands s [first] middle := head.located
    have continues : Continues middle others after := tail.located
    have member := ihHead same bounded
    have rest := ihTail (stands.advances.input_eq.trans same) bounded
    have all := member.cons rest (Nat.le_refl _) stands.advances.offset_le continues.reaches.offset_le
      (List.forall_mem_cons.mpr ⟨member.excludes first List.mem_cons_self, rest.excludes⟩)
    refine .chain (fun _ _ => rfl) (fun _ _ => rfl) (fun _ _ => ⟨rfl, rfl⟩) (fun span => ?_) ?_
      (.chained (fun _ _ => rfl) stands continues) same all (begins_of_formed stands rest)
    · cases others with
      | nil => exact .inr rfl
      | cons second rest => exact .inl ⟨by simp, fun child found => (all.excludes child found).1⟩
    · cases others with
      | nil => exact (all.excludes first List.mem_cons_self).2
      | cons second rest => rw [Parser.chained_cons]; rfl
  | @or depth inField s middle after first others head tail ihHead ihTail =>
    have stands : Stands s [first] middle := head.located
    have continues : Continues middle others after := tail.located
    have member := ihHead same bounded
    have rest := ihTail (stands.advances.input_eq.trans same) bounded
    have all := member.cons rest (Nat.le_refl _) stands.advances.offset_le continues.reaches.offset_le
      (List.forall_mem_cons.mpr ⟨member.excludes first List.mem_cons_self, rest.excludes⟩)
    refine .chain (fun _ _ => rfl) (fun _ _ => rfl) (fun _ _ => ⟨rfl, rfl⟩) (fun span => ?_) trivial
      (.chained (fun _ _ => rfl) stands continues) same all (begins_of_formed stands rest)
    cases others with
    | nil => exact .inr rfl
    | cons second rest => exact .inl ⟨by simp, fun child found => all.excludes child found⟩

end Derivations

/-! ## Parsed queries -/

namespace SearchQueryProcessor

variable (processor : SearchQueryProcessor) (unicode : Unicode) (source : Str)

theorem valid_controlSpan {front rest : Str} {span : ByteSpan} (found : controlSpan (byteLen front) rest = some span) :
    ValidSpan (front ++ rest) span := by
  induction rest generalizing front with
  | nil => cases found
  | cons c rest ih =>
    have step : byteLen (front ++ [c]) = byteLen front + c.utf8Size := by simp
    rw [controlSpan] at found
    split_ifs at found with control
    · cases found
      refine ⟨Nat.le_add_right _ _, isCharBoundary_iff.mpr ⟨front, c :: rest, rfl, rfl⟩, ?_⟩
      exact isCharBoundary_iff.mpr ⟨front ++ [c], rest, by simp, step⟩
    · rw [← step] at found
      simpa using ih found

/-- The start of a parse: the whole source lies ahead. -/
theorem at_start : Parser.At unicode ⟨⟨[], source⟩, none, 0⟩ ⟨[], source⟩ := rfl

theorem wellFormed_matchAll :
    (Expr.matchAll ⟨0, byteLen source⟩).WellFormed processor.fields source 1 := by
  refine ⟨rfl, Nat.le_of_ble_eq_true rfl, Nat.zero_le _, Expr.forall_within ?_ (by simp [Expr.children])⟩
  exact ⟨⟨Nat.zero_le _, isCharBoundary_zero _, isCharBoundary_byteLen _⟩, by simp [Expr.children], by simp [Expr.children],
    by simp [Expr.children], trivial⟩

theorem parseCounted_yields :
    Yields source False (fun result => result.1.WellFormed processor.fields source result.2.nodes)
      (processor.parseCounted unicode source) := by
  have same : Scanner.input ⟨[], source⟩ = source := rfl
  rw [parseCounted]
  split_ifs
  · exact ⟨Nat.zero_le _, isCharBoundary_zero _, isCharBoundary_byteLen _⟩
  split
  · next span found => exact @valid_controlSpan [] source span found
  refine (Parser.peek_yields (at_start unicode source) same).bind ?_
  rintro _ ⟨token, after, rfl, read, reads⟩
  dsimp only
  split_ifs
  · refine (Parser.node_yields ⟨Nat.zero_le _, isCharBoundary_zero _, isCharBoundary_byteLen _⟩).mono id ?_
    rintro _ ⟨-, rfl⟩
    exact wellFormed_matchAll processor source
  · have parsed := (Parser.sound processor.fields unicode source (fuelFor source)).or 0 false _ _
      (Parser.at_peeked read 0) same
    refine (parsed.mono (fun short => absurd short (Nat.lt_irrefl _)) fun _ => id).bind ?_
    rintro ⟨expression, parser⟩ ⟨last, stands, derives, counted, bounded⟩
    have located : Stands ⟨[], source⟩ [expression] last := derives.located
    have formed := derives.formed same (Nat.zero_le _)
    refine (Parser.peek_yields stands (located.advances.input_eq.trans same)).bind ?_
    rintro _ ⟨next, beyond, rfl, -, ahead⟩
    dsimp only at counted bounded ⊢
    split_ifs
    · exact ahead.valid (located.advances.input_eq.trans same)
    · have count : expression.size = parser.nodes := by omega
      have shallow := formed.shallow expression List.mem_cons_self
      refine ⟨count, ?_, by simpa using shallow, formed.nodes expression List.mem_cons_self⟩
      rw [count]
      exact bounded (Nat.zero_le _)

/-- Every successful parse yields a well-formed query, every error a range of the source, and the recursion
is never cut short. -/
theorem parse_wellFormed :
    match processor.parse unicode source with
    | .ok query => query.source = source ∧
        ∃ parser, processor.parseCounted unicode source = .ok (query.expression, parser) ∧
          query.expression.WellFormed processor.fields source parser.nodes
    | .error (.error error) => ValidSpan source error.span
    | .error .fuel => False := by
  have yields := processor.parseCounted_yields unicode source
  rw [parse]
  match result : processor.parseCounted unicode source with
  | .ok (expression, parser) =>
    rw [result] at yields
    exact ⟨rfl, parser, rfl, yields⟩
  | .error (.error error) =>
    rw [result] at yields
    exact yields
  | .error .fuel =>
    rw [result] at yields
    exact yields

end SearchQueryProcessor

end OpenLegal.SearchQuery
