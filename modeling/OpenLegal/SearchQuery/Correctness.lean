import OpenLegal.SearchQuery.Grammar
import OpenLegal.SearchQuery.Parser

/-! # The parser and the grammar

The parser follows the grammar: what it returns is derivable, and what is derivable it returns, given the
nodes and the fuel for it. Its errors report a range of the source.
-/

namespace OpenLegal.SearchQuery

open Rust Rust.Str

/-! ## Results of the parser -/

/-- A result satisfies `post`, an error reports a range of the source, and fuel runs out only when `short`. -/
def Yields {α : Type} (source : Str) (short : Prop) (post : α → Prop) : Except Halt α → Prop
  | .ok value => post value
  | .error (.error error) => ValidSpan source error.span
  | .error .fuel => short

namespace Yields

variable {α β : Type} {source : Str} {short short' : Prop} {post : α → Prop} {after : β → Prop}

theorem bind {x : Except Halt α} {f : α → Except Halt β} (first : Yields source short post x)
    (second : ∀ value, post value → Yields source short after (f value)) : Yields source short after (x >>= f) := by
  match x with
  | .ok value => exact second value first
  | .error (.error error) => exact first
  | .error .fuel => exact first

theorem mono {x : Except Halt α} {weaker : α → Prop} (yields : Yields source short post x) (fuel : short → short')
    (weaken : ∀ value, post value → weaker value) : Yields source short' weaker x := by
  match x with
  | .ok value => exact weaken value yields
  | .error (.error error) => exact yields
  | .error .fuel => exact fuel yields

end Yields

namespace Parser

variable {fields : List Str} {unicode : Unicode} {source : Str} {short : Prop}

/-- The parser stands at a position; a token ahead of it may have been read already. -/
def At (unicode : Unicode) (parser : Parser) (scanner : Scanner) : Prop :=
  match parser.lookahead with
  | none => parser.scanner = scanner
  | some token => scanner.next unicode = .ok (token, parser.scanner)

theorem take_of_next {parser : Parser} {scanner after : Scanner} {token : Token} (stands : parser.At unicode scanner)
    (read : scanner.next unicode = .ok (token, after)) :
    parser.take unicode = .ok (token, ⟨after, none, parser.nodes⟩) := by
  obtain ⟨position, lookahead, nodes⟩ := parser
  cases lookahead with
  | none =>
    cases stands
    simp [take, read, orHalt]
  | some ahead =>
    have same := read.symm.trans stands
    cases same
    rfl

theorem peek_of_next {parser : Parser} {scanner after : Scanner} {token : Token} (stands : parser.At unicode scanner)
    (read : scanner.next unicode = .ok (token, after)) :
    parser.peek unicode = .ok (token, ⟨after, some token, parser.nodes⟩) := by
  rw [peek, take_of_next stands read]
  rfl

/-- A token that was peeked is not consumed. -/
theorem at_peeked {scanner after : Scanner} {token : Token} (read : scanner.next unicode = .ok (token, after)) (nodes : ℕ) :
    At unicode ⟨after, some token, nodes⟩ scanner := read

theorem at_taken (after : Scanner) (nodes : ℕ) : At unicode ⟨after, none, nodes⟩ after := rfl

theorem take_error {parser : Parser} {scanner : Scanner} {error : ParseError} (stands : parser.At unicode scanner)
    (failed : scanner.next unicode = .error error) : parser.take unicode = .error (.error error) := by
  obtain ⟨position, lookahead, nodes⟩ := parser
  cases lookahead with
  | none =>
    cases stands
    simp [take, failed, orHalt]
  | some ahead => cases failed.symm.trans stands

theorem take_yields {parser : Parser} {scanner : Scanner} (stands : parser.At unicode scanner)
    (same : scanner.input = source) :
    Yields source short (fun result => ∃ token after, result = (token, ⟨after, none, parser.nodes⟩) ∧
      scanner.next unicode = .ok (token, after) ∧ Scanner.Reads source scanner token after) (parser.take unicode) := by
  match read : scanner.next unicode with
  | .ok (token, after) =>
    rw [take_of_next stands read]
    exact ⟨token, after, rfl, rfl, Scanner.next_reads same read⟩
  | .error error =>
    rw [take_error stands read]
    exact Scanner.next_error same read

theorem peek_yields {parser : Parser} {scanner : Scanner} (stands : parser.At unicode scanner)
    (same : scanner.input = source) :
    Yields source short (fun result => ∃ token after, result = (token, ⟨after, some token, parser.nodes⟩) ∧
      scanner.next unicode = .ok (token, after) ∧ Scanner.Reads source scanner token after) (parser.peek unicode) := by
  rw [peek]
  refine (take_yields stands same).bind ?_
  rintro _ ⟨token, after, rfl, read, reads⟩
  exact ⟨token, after, rfl, read, reads⟩

theorem node_yields {parser : Parser} {expr : Expr} (valid : ValidSpan source expr.span) :
    Yields source short (fun result => parser.nodes < maxQueryNodes ∧
      result = (expr, { parser with nodes := parser.nodes + 1 })) (node expr parser) := by
  rw [node]
  split_ifs with full
  · exact valid
  · exact ⟨Nat.not_le.mp full, rfl⟩

theorem nested_yields {depth : ℕ} {span : ByteSpan} (valid : ValidSpan source span) :
    Yields source short (fun result => depth < maxQueryNesting ∧ result = depth + 1) (nested depth span) := by
  rw [nested]
  split_ifs with deep
  · exact valid
  · exact ⟨Nat.not_le.mp deep, rfl⟩

theorem rejectShorthand_eq_ok {parser : Parser} {range : ByteSpan} :
    rejectShorthand fields range parser = .ok () ↔ notShorthand fields parser.scanner.input range := by
  rw [rejectShorthand, fail]
  simp only [ite_error_eq_ok, and_true, Bool.not_eq_true, List.any_eq_false, Option.any_eq_true, beq_iff_eq, not_exists,
    not_and, notShorthand]

theorem rejectShorthand_yields {parser : Parser} {range : ByteSpan} (valid : ValidSpan source range) :
    Yields source short (fun _ => notShorthand fields parser.scanner.input range) (rejectShorthand fields range parser) := by
  match result : rejectShorthand fields range parser with
  | .ok () => exact (rejectShorthand_eq_ok).mp result
  | .error halt =>
    simp only [rejectShorthand, fail] at result
    split_ifs at result
    cases result
    exact valid

/-! ## The parser follows the grammar -/

/-- What a parse from `scanner` returns: an expression that is derivable there, with its nodes counted. -/
def Parsed (fields : List Str) (unicode : Unicode) (rule : Rule) (depth : ℕ) (inField : Bool) (parser : Parser)
    (scanner : Scanner) (result : Expr × Parser) : Prop :=
  ∃ after, result.2.At unicode after ∧ Derives fields unicode rule depth inField scanner [result.1] after ∧
    result.2.nodes = parser.nodes + result.1.size ∧ (parser.nodes ≤ maxQueryNodes → result.2.nodes ≤ maxQueryNodes)

/-- What a loop returns: the members so far and further ones, the last of which ends at the stop. -/
def Looped (fields : List Str) (unicode : Unicode) (rule : Rule) (depth : ℕ) (inField : Bool) (parser : Parser)
    (scanner : Scanner) (expressions : List Expr) (stop : ℕ) (result : List Expr × ℕ × Parser) : Prop :=
  ∃ others after, result.1 = expressions ++ others ∧
    result.2.1 = ((others.getLast?.map fun last => last.span.stop).getD stop) ∧ result.2.2.At unicode after ∧
    Derives fields unicode rule depth inField scanner others after ∧
    result.2.2.nodes = parser.nodes + sizes others ∧
    (parser.nodes ≤ maxQueryNodes → result.2.2.nodes ≤ maxQueryNodes)

/-- The five functions at one amount of fuel. Each character needs four calls. -/
structure Sound (fields : List Str) (unicode : Unicode) (source : Str) (fuel : ℕ) : Prop where
  operand : ∀ depth inField parser s, parser.At unicode s → s.input = source →
    Yields source (fuel < 4 * s.rest.length + 1) (Parsed fields unicode .operand depth inField parser s)
      (operand fields unicode fuel depth inField parser)
  and : ∀ depth inField parser s, parser.At unicode s → s.input = source →
    Yields source (fuel < 4 * s.rest.length + 2) (Parsed fields unicode .and depth inField parser s)
      (and fields unicode fuel depth inField parser)
  or : ∀ depth inField parser s, parser.At unicode s → s.input = source →
    Yields source (fuel < 4 * s.rest.length + 3) (Parsed fields unicode .or depth inField parser s)
      (or fields unicode fuel depth inField parser)
  andLoop : ∀ depth inField parser s expressions stop, parser.At unicode s → s.input = source →
    Yields source (fuel < 4 * s.rest.length + 2)
      (Looped fields unicode (.andRest stop) depth inField parser s expressions stop)
      (andLoop fields unicode fuel depth inField expressions stop parser)
  orLoop : ∀ depth inField parser s expressions stop, parser.At unicode s → s.input = source →
    Yields source (fuel < 4 * s.rest.length + 1)
      (Looped fields unicode .orRest depth inField parser s expressions stop)
      (orLoop fields unicode fuel depth inField expressions stop parser)

theorem chain_yields {build : ByteSpan → List Expr → Expr} {first : Expr} {others : List Expr} {parser : Parser}
    (size : ∀ span expressions, (build span expressions).size = sizes expressions + 1)
    (valid : ValidSpan source (chained build first others).span) :
    Yields source short (fun result => result.1 = chained build first others ∧
        result.2.scanner = parser.scanner ∧ result.2.lookahead = parser.lookahead ∧
        result.2.nodes + sizes (first :: others) = parser.nodes + (chained build first others).size ∧
        (parser.nodes ≤ maxQueryNodes → result.2.nodes ≤ maxQueryNodes))
      (chain build (first :: others)
        ⟨first.span.start, (others.getLast?.map fun last => last.span.stop).getD first.span.stop⟩ parser) := by
  cases others with
  | nil => exact ⟨rfl, rfl, rfl, by simp [chained], id⟩
  | cons second rest =>
    obtain ⟨last, final⟩ : ∃ last, (second :: rest).getLast? = some last := ⟨_, List.getLast?_eq_some_getLast (by simp)⟩
    simp only [chained, final, Option.map_some, Option.getD_some] at valid ⊢
    refine (node_yields valid).mono id ?_
    rintro _ ⟨room, rfl⟩
    refine ⟨rfl, rfl, rfl, ?_, fun _ => room⟩
    rw [size]
    dsimp only
    omega

/-- A located expression has a valid span. -/
theorem valid_of_stands {s after : Scanner} {expression : Expr} (stands : Stands s [expression] after)
    (same : s.input = source) : ValidSpan source expression.span :=
  stands.single ▸ stands.reaches.valid ((Scanner.reaches_skipWhitespace s).input_eq.trans same)

/-- A chain: its first member, the loop for the others, and the node above them. -/
theorem chain_sound {rule rest : Rule} {build : ByteSpan → List Expr → Expr} {depth : ℕ} {inField : Bool}
    {parser : Parser} {s : Scanner} (first : Expr × Parser) {loop : Except Halt (List Expr × ℕ × Parser)}
    (spans : ∀ span expressions, (build span expressions).span = span)
    (size : ∀ span expressions, (build span expressions).size = sizes expressions + 1) (same : s.input = source)
    {middle : Scanner} (head : Stands s [first.1] middle)
    (tail : ∀ {others after}, Derives fields unicode rest depth inField middle others after →
      Continues middle others after ∧ Derives fields unicode rule depth inField s [chained build first.1 others] after)
    (counted : first.2.nodes = parser.nodes + first.1.size)
    (bounded : parser.nodes ≤ maxQueryNodes → first.2.nodes ≤ maxQueryNodes)
    (looped : Yields source short
      (Looped fields unicode rest depth inField first.2 middle [first.1] first.1.span.stop) loop) :
    Yields source short (Parsed fields unicode rule depth inField parser s) (do
      let (expressions, stop, parser) ← loop
      chain build expressions ⟨first.1.span.start, stop⟩ parser) := by
  refine looped.bind ?_
  rintro ⟨expressions, stop, looped⟩ ⟨others, after, rfl, rfl, stands, derived, nodes, within⟩
  obtain ⟨continues, derives⟩ := tail derived
  have whole := Stands.chained spans head continues
  dsimp only at stands nodes within ⊢
  refine (chain_yields size (valid_of_stands whole same)).mono id ?_
  rintro ⟨expression, result⟩ ⟨rfl, scanner, lookahead, count, bound⟩
  dsimp only at scanner lookahead count bound
  refine ⟨after, ?_, derives, ?_, fun room => bound (within (bounded room))⟩
  · rw [At, lookahead, scanner]
    exact stands
  · dsimp only
    rw [sizes] at count
    omega

variable {fuel : ℕ}

theorem or_sound (ih : Sound fields unicode source fuel) (depth : ℕ) (inField : Bool) (parser : Parser) (s : Scanner)
    (stands : parser.At unicode s) (same : s.input = source) :
    Yields source (fuel + 1 < 4 * s.rest.length + 3) (Parsed fields unicode .or depth inField parser s)
      (or fields unicode (fuel + 1) depth inField parser) := by
  rw [or]
  refine ((ih.and depth inField parser s stands same).mono (fun _ => by omega) fun _ => id).bind ?_
  rintro ⟨first, next⟩ ⟨middle, stands', derives, counted, bounded⟩
  have head : Stands s [first] middle := derives.located
  have progress := head.progress
  refine chain_sound (first, next) (fun _ _ => rfl) (fun _ _ => rfl) same head (fun tail => ?_) counted bounded
    ((ih.orLoop depth inField next middle [first] first.span.stop stands' (head.advances.input_eq.trans same)).mono
      (fun _ => by omega) fun _ => id)
  exact ⟨tail.located, .or derives tail⟩

theorem and_sound (ih : Sound fields unicode source fuel) (depth : ℕ) (inField : Bool) (parser : Parser) (s : Scanner)
    (stands : parser.At unicode s) (same : s.input = source) :
    Yields source (fuel + 1 < 4 * s.rest.length + 2) (Parsed fields unicode .and depth inField parser s)
      (and fields unicode (fuel + 1) depth inField parser) := by
  rw [and]
  refine ((ih.operand depth inField parser s stands same).mono (fun _ => by omega) fun _ => id).bind ?_
  rintro ⟨first, next⟩ ⟨middle, stands', derives, counted, bounded⟩
  have head : Stands s [first] middle := derives.located
  have progress := head.progress
  refine chain_sound (first, next) (fun _ _ => rfl) (fun _ _ => rfl) same head (fun tail => ?_) counted bounded
    ((ih.andLoop depth inField next middle [first] first.span.stop stands' (head.advances.input_eq.trans same)).mono
      (fun _ => by omega) fun _ => id)
  exact ⟨tail.located, .and derives tail⟩

/-- One more member of a chain, then the rest of the loop. -/
theorem loop_sound {rest : Rule} {depth : ℕ} {inField : Bool} {parser : Parser} {s last : Scanner}
    {expressions : List Expr} {stop : ℕ} {next : Expr × Parser} {loop : Except Halt (List Expr × ℕ × Parser)}
    (wrap : Rule)
    (cons : ∀ {others after}, Derives fields unicode rest depth inField last others after →
      Derives fields unicode wrap depth inField s (next.1 :: others) after)
    (counted : next.2.nodes = parser.nodes + next.1.size)
    (bounded : parser.nodes ≤ maxQueryNodes → next.2.nodes ≤ maxQueryNodes)
    (looped : Yields source short
      (Looped fields unicode rest depth inField next.2 last (expressions ++ [next.1]) next.1.span.stop) loop) :
    Yields source short (Looped fields unicode wrap depth inField parser s expressions stop) loop := by
  refine looped.mono id ?_
  rintro ⟨all, ends, result⟩ ⟨others, after, rfl, rfl, stands, derived, nodes, within⟩
  refine ⟨next.1 :: others, after, by simp, ?_, stands, cons derived, ?_, fun room => within (bounded room)⟩
  · rw [List.getLast?_cons]
    cases others.getLast? <;> rfl
  · dsimp only at nodes ⊢
    rw [sizes]
    omega

theorem orLoop_sound (ih : Sound fields unicode source fuel) (depth : ℕ) (inField : Bool) (parser : Parser) (s : Scanner)
    (expressions : List Expr) (stop : ℕ) (stands : parser.At unicode s) (same : s.input = source) :
    Yields source (fuel + 1 < 4 * s.rest.length + 1)
      (Looped fields unicode .orRest depth inField parser s expressions stop)
      (orLoop fields unicode (fuel + 1) depth inField expressions stop parser) := by
  rw [orLoop]
  refine (peek_yields stands same).bind ?_
  rintro _ ⟨token, after, rfl, read, reads⟩
  dsimp only
  split_ifs with kind
  · have progress := reads.progress (by simp [kind])
    rw [take_of_next (at_peeked read _) read, ok_bind]
    dsimp only
    refine ((ih.and depth inField _ after (at_taken after _) (reads.input_eq same)).mono (fun _ => by omega) fun _ => id).bind ?_
    rintro ⟨next, parsed⟩ ⟨last, stands', derives, counted, bounded⟩
    have head : Stands after [next] last := derives.located
    have shorter := head.progress
    refine loop_sound .orRest (fun tail => .orMore read kind derives tail) counted bounded
      ((ih.orLoop depth inField parsed last _ _ stands' (head.advances.input_eq.trans (reads.input_eq same))).mono
        (fun _ => by omega) fun _ => id)
  · exact ⟨[], s, by simp, rfl, at_peeked read _, .orStop read kind, rfl, id⟩

theorem andLoop_sound (ih : Sound fields unicode source fuel) (depth : ℕ) (inField : Bool) (parser : Parser) (s : Scanner)
    (expressions : List Expr) (stop : ℕ) (stands : parser.At unicode s) (same : s.input = source) :
    Yields source (fuel + 1 < 4 * s.rest.length + 2)
      (Looped fields unicode (.andRest stop) depth inField parser s expressions stop)
      (andLoop fields unicode (fuel + 1) depth inField expressions stop parser) := by
  rw [andLoop]
  refine (peek_yields stands same).bind ?_
  rintro _ ⟨token, after, rfl, read, reads⟩
  dsimp only
  split_ifs with kind starts adjacent
  · have progress := reads.progress (by simp [kind])
    rw [take_of_next (at_peeked read _) read, ok_bind]
    dsimp only
    refine ((ih.operand depth inField _ after (at_taken after _) (reads.input_eq same)).mono (fun _ => by omega) fun _ => id).bind ?_
    rintro ⟨next, parsed⟩ ⟨last, stands', derives, counted, bounded⟩
    have head : Stands after [next] last := derives.located
    have shorter := head.progress
    refine loop_sound (.andRest stop) (fun tail => .andExplicit read kind derives tail) counted bounded
      ((ih.andLoop depth inField parsed last _ _ stands' (head.advances.input_eq.trans (reads.input_eq same))).mono
        (fun _ => by omega) fun _ => id)
  · exact reads.valid same
  · refine ((ih.operand depth inField _ s (at_peeked read _) same).mono (fun _ => by omega) fun _ => id).bind ?_
    rintro ⟨next, parsed⟩ ⟨last, stands', derives, counted, bounded⟩
    have head : Stands s [next] last := derives.located
    have shorter := head.progress
    refine loop_sound (.andRest stop) (fun tail => .andImplicit read starts adjacent derives tail) counted bounded
      ((ih.andLoop depth inField parsed last _ _ stands' (head.advances.input_eq.trans same)).mono
        (fun _ => by omega) fun _ => id)
  · exact ⟨[], s, by simp, rfl, at_peeked read _, .andStop read kind (by simpa using starts), rfl, id⟩

/-- The node above a derived operand. -/
theorem node_sound {depth : ℕ} {inField : Bool} {parser below : Parser} {s after : Scanner} {expr : Expr}
    (derives : Derives fields unicode .operand depth inField s [expr] after) (same : s.input = source)
    (stands : below.At unicode after) (counted : below.nodes + 1 = parser.nodes + expr.size) :
    Yields source short (Parsed fields unicode .operand depth inField parser s) (node expr below) := by
  refine (node_yields (valid_of_stands derives.located same)).mono id ?_
  rintro _ ⟨room, rfl⟩
  exact ⟨after, stands, derives, counted, fun _ => room⟩

theorem wordNodes_yields {words : List (Str × ByteSpan)} {parser : Parser}
    (valid : ∀ word ∈ words, ValidSpan source word.2) :
    Yields source short (fun result => result = (wordTerms words, { parser with nodes := parser.nodes + words.length }) ∧
      (parser.nodes ≤ maxQueryNodes → parser.nodes + words.length ≤ maxQueryNodes)) (wordNodes words parser) := by
  induction words generalizing parser with
  | nil => exact ⟨rfl, id⟩
  | cons word words ih =>
    obtain ⟨value, range⟩ := word
    rw [wordNodes]
    refine (node_yields (valid (value, range) List.mem_cons_self)).bind ?_
    rintro _ ⟨room, rfl⟩
    refine (ih fun word member => valid word (by simp [member])).bind ?_
    rintro _ ⟨rfl, bound⟩
    dsimp only at bound
    refine ⟨?_, fun _ => ?_⟩
    · simp [wordTerms]
      omega
    · have := bound room
      rw [List.length_cons]
      omega

theorem sizes_wordTerms (words : List (Str × ByteSpan)) : sizes (wordTerms words) = words.length := by
  simp [sizes_eq_sum, wordTerms, Function.comp_def, Expr.size]

theorem innerSpan_cons (word : Str × ByteSpan) (words : List (Str × ByteSpan)) (span : ByteSpan) :
    innerSpan (word :: words) span =
      ⟨word.2.start, ((wordTerms words).getLast?.map fun last => last.span.stop).getD word.2.stop⟩ := by
  rw [innerSpan, wordTerms, List.getLast?_map, List.getLast?_cons]
  cases words.getLast? <;> rfl

/-- The words of a group span a range from the first to the last one. -/
theorem valid_words {start stop : ℕ} {word : Str × ByteSpan} {words : List (Str × ByteSpan)}
    (within : WordsWithin source start (word :: words) stop) :
    ValidSpan source (chained .and (.term word.2 word.1) (wordTerms words)).span := by
  have first := within.valid word List.mem_cons_self
  rw [chained, wordTerms, List.getLast?_map]
  cases shape : words.getLast? with
  | none => exact first
  | some last =>
    have member : last ∈ words := List.mem_of_getLast? shape
    have final := within.valid last (List.mem_cons_of_mem _ member)
    have ordered := (List.pairwise_cons.mp within.ordered).1 last member
    exact ⟨first.forward.trans (ordered.trans final.forward), first.start, final.stop⟩

theorem words_sound {depth : ℕ} {inField : Bool} {parser : Parser} {s after : Scanner} {token : Token}
    {words : List (Str × ByteSpan)} (read : s.next unicode = .ok (token, after))
    (reads : Scanner.Reads source s token after) (same : s.input = source) (kind : token.kind = .words words)
    (shallow : depth < maxQueryNesting) :
    Yields source short (Parsed fields unicode .operand depth inField parser s) (do
      let (terms, parser) ← wordNodes words ⟨after, none, parser.nodes⟩
      let (inner, parser) ← chain .and terms (innerSpan words token.span) parser
      node (.group token.span .singleQuotes inner) parser) := by
  have decoded := reads.decoded
  rw [kind] at decoded
  obtain ⟨nonempty, within⟩ := decoded
  have derives : Derives fields unicode .operand depth inField s [wordGroup words token.span] after :=
    .words read kind shallow
  refine (wordNodes_yields within.valid).bind ?_
  rintro _ ⟨rfl, bound⟩
  cases words with
  | nil => exact absurd rfl nonempty
  | cons word words =>
    have spans := valid_words within
    dsimp only
    rw [innerSpan_cons]
    refine (chain_yields (fun _ _ => rfl) spans).bind ?_
    rintro ⟨inner, below⟩ ⟨rfl, scanner, lookahead, count, -⟩
    dsimp only at scanner lookahead count ⊢
    refine node_sound derives same ?_ ?_
    · rw [At, lookahead, scanner]
    · rw [sizes, sizes_wordTerms, Expr.size, List.length_cons] at count
      simp only [wordTerms, Expr.size] at count ⊢
      omega

theorem not_sound (ih : Sound fields unicode source fuel) {depth : ℕ} {inField : Bool} {parser : Parser}
    {s after : Scanner} {token : Token} (read : s.next unicode = .ok (token, after))
    (reads : Scanner.Reads source s token after) (same : s.input = source)
    (kind : token.kind = .not ∨ token.kind = .minus) :
    Yields source (fuel + 1 < 4 * s.rest.length + 1) (Parsed fields unicode .operand depth inField parser s) (do
      let innerDepth ← nested depth token.span
      let (inner, parser) ← operand fields unicode fuel innerDepth inField ⟨after, none, parser.nodes⟩
      node (.not ⟨token.span.start, inner.span.stop⟩ inner) parser) := by
  have progress := reads.progress (by rcases kind with kind | kind <;> simp [kind])
  refine (nested_yields (reads.valid same)).bind ?_
  rintro _ ⟨shallow, rfl⟩
  refine ((ih.operand (depth + 1) inField _ after (at_taken after _) (reads.input_eq same)).mono (fun _ => by omega)
    fun _ => id).bind ?_
  rintro ⟨inner, below⟩ ⟨last, stands, derives, counted, -⟩
  refine node_sound (.not read kind shallow derives) same stands ?_
  dsimp only at counted ⊢
  rw [counted, Expr.size]
  omega

theorem field_sound (ih : Sound fields unicode source fuel) {depth : ℕ} {inField : Bool} {parser : Parser}
    {s after : Scanner} {token : Token} {name : Str} (read : s.next unicode = .ok (token, after))
    (reads : Scanner.Reads source s token after) (same : s.input = source) (kind : token.kind = .field name) :
    Yields source (fuel + 1 < 4 * s.rest.length + 1) (Parsed fields unicode .operand depth inField parser s)
      (if inField then fail .nestedField token.span
      else if name ∉ fields then fail .unknownField token.span
      else do
        let innerDepth ← nested depth token.span
        let (next, parser) ← peek unicode ⟨after, none, parser.nodes⟩
        if next.span.start ≠ token.span.stop || !next.kind.startsOperand then fail .invalidFieldSyntax next.span
        else
          let (inner, parser) ← operand fields unicode fuel innerDepth true parser
          node (.field ⟨token.span.start, inner.span.stop⟩ name inner) parser) := by
  have progress := reads.progress (by simp [kind])
  have valid := reads.valid same
  have input := reads.input_eq same
  split_ifs with nested known
  · exact valid
  on_goal 2 => exact valid
  obtain rfl : inField = false := by simpa using nested
  refine (nested_yields valid).bind ?_
  rintro _ ⟨shallow, rfl⟩
  refine (peek_yields (at_taken after _) input).bind ?_
  rintro _ ⟨next, beyond, rfl, peeked, ahead⟩
  dsimp only
  split_ifs with loose
  · exact ahead.valid input
  simp only [ne_eq, decide_not, Bool.or_eq_true, Bool.not_eq_true', decide_eq_false_iff_not, not_or, not_not,
    Bool.not_eq_false] at loose
  refine ((ih.operand (depth + 1) true _ after (at_peeked peeked _) input).mono (fun _ => by omega) fun _ => id).bind ?_
  rintro ⟨inner, below⟩ ⟨last, stands, derives, counted, -⟩
  refine node_sound (.field read kind known shallow peeked loose.1 loose.2 derives) same stands ?_
  dsimp only at counted ⊢
  rw [counted, Expr.size]
  omega

theorem parentheses_sound (ih : Sound fields unicode source fuel) {depth : ℕ} {inField : Bool} {parser : Parser}
    {s after : Scanner} {token : Token} (read : s.next unicode = .ok (token, after))
    (reads : Scanner.Reads source s token after) (same : s.input = source) (kind : token.kind = .opening) :
    Yields source (fuel + 1 < 4 * s.rest.length + 1) (Parsed fields unicode .operand depth inField parser s) (do
      let innerDepth ← nested depth token.span
      let (next, parser) ← peek unicode ⟨after, none, parser.nodes⟩
      if next.kind = .closing then
        let (close, _) ← take unicode parser
        fail .emptyGroup ⟨token.span.start, close.span.stop⟩
      else
        let (inner, parser) ← or fields unicode fuel innerDepth inField parser
        let (close, parser) ← take unicode parser
        if close.kind ≠ .closing then fail .unclosedParenthesis token.span
        else node (.group ⟨token.span.start, close.span.stop⟩ .parentheses inner) parser) := by
  have progress := reads.progress (by simp [kind])
  have valid := reads.valid same
  have input := reads.input_eq same
  refine (nested_yields valid).bind ?_
  rintro _ ⟨shallow, rfl⟩
  refine (peek_yields (at_taken after _) input).bind ?_
  rintro _ ⟨next, beyond, rfl, peeked, ahead⟩
  dsimp only
  split_ifs with empty
  · rw [take_of_next (at_peeked peeked _) peeked, ok_bind]
    have whole := reads.reaches.trans ahead.advances
    rw [reads.span, ahead.span]
    exact whole.valid ((Scanner.reaches_skipWhitespace s).input_eq.trans same)
  · refine ((ih.or (depth + 1) inField _ after (at_peeked peeked _) input).mono (fun _ => by omega) fun _ => id).bind ?_
    rintro ⟨inner, below⟩ ⟨last, stands, derives, counted, -⟩
    have body : Stands after [inner] last := derives.located
    refine (take_yields stands (body.advances.input_eq.trans input)).bind ?_
    rintro _ ⟨close, final, rfl, closed, -⟩
    dsimp only at counted ⊢
    split_ifs with unclosed
    · exact valid
    · refine node_sound (.parentheses read kind shallow peeked empty derives closed (not_not.mp unclosed)) same
        (at_taken final _) ?_
      rw [counted, Expr.size]
      omega

theorem operand_sound (ih : Sound fields unicode source fuel) (depth : ℕ) (inField : Bool) (parser : Parser) (s : Scanner)
    (stands : parser.At unicode s) (same : s.input = source) :
    Yields source (fuel + 1 < 4 * s.rest.length + 1) (Parsed fields unicode .operand depth inField parser s)
      (operand fields unicode (fuel + 1) depth inField parser) := by
  rw [operand]
  refine (take_yields stands same).bind ?_
  rintro _ ⟨token, after, rfl, read, reads⟩
  dsimp only
  have valid := reads.valid same
  have input := reads.input_eq same
  split
  · next value kind =>
    refine (rejectShorthand_yields valid).bind ?_
    intro _ literal
    exact node_sound (.term read kind literal) same (at_taken after _) rfl
  · next value kind =>
    refine (rejectShorthand_yields valid).bind ?_
    intro _ literal
    exact node_sound (.prefixed read kind literal) same (at_taken after _) rfl
  · next value kind => exact node_sound (.exact read kind) same (at_taken after _) rfl
  · next kind => exact not_sound ih read reads same (.inl kind)
  · next kind => exact not_sound ih read reads same (.inr kind)
  · next name kind => exact field_sound ih read reads same kind
  · next kind => exact parentheses_sound ih read reads same kind
  · next words kind =>
    refine (nested_yields valid).bind ?_
    rintro _ ⟨shallow, rfl⟩
    exact words_sound read reads same kind shallow
  all_goals exact valid

theorem sound (fields : List Str) (unicode : Unicode) (source : Str) (fuel : ℕ) : Sound fields unicode source fuel := by
  induction fuel with
  | zero =>
    constructor
    all_goals
      intros
      first | rw [operand] | rw [and] | rw [or] | rw [andLoop] | rw [orLoop]
      exact Nat.succ_pos _
  | succ fuel ih => exact ⟨operand_sound ih, and_sound ih, or_sound ih, andLoop_sound ih, orLoop_sound ih⟩

/-! ## The grammar is parsed -/

/-- From a position, a function returns the expression and stops after it, if its nodes fit the budget. -/
def Returns (unicode : Unicode) (run : Parser → Except Halt (Expr × Parser)) (s : Scanner) (expression : Expr)
    (after : Scanner) : Prop :=
  ∀ parser : Parser, parser.At unicode s → parser.nodes + expression.size ≤ maxQueryNodes →
    ∃ result, run parser = .ok (expression, result) ∧ result.At unicode after ∧
      result.nodes = parser.nodes + expression.size

/-- From a position, a loop returns the members so far and the further ones. -/
def LoopReturns (unicode : Unicode) (run : List Expr → Parser → Except Halt (List Expr × ℕ × Parser)) (stop : ℕ)
    (s : Scanner) (others : List Expr) (after : Scanner) : Prop :=
  ∀ (expressions : List Expr) (parser : Parser), parser.At unicode s → parser.nodes + sizes others ≤ maxQueryNodes →
    ∃ result, run expressions parser =
        .ok (expressions ++ others, (others.getLast?.map fun last => last.span.stop).getD stop, result) ∧
      result.At unicode after ∧ result.nodes = parser.nodes + sizes others

/-- What the parser does for a derivation, given enough fuel. -/
def Completes (fields : List Str) (unicode : Unicode) (rule : Rule) (depth : ℕ) (inField : Bool) (s : Scanner)
    (expressions : List Expr) (after : Scanner) : Prop :=
  match rule with
  | .operand => ∀ fuel expression, 4 * s.rest.length + 1 ≤ fuel → expressions = [expression] →
      Returns unicode (operand fields unicode fuel depth inField) s expression after
  | .and => ∀ fuel expression, 4 * s.rest.length + 2 ≤ fuel → expressions = [expression] →
      Returns unicode (and fields unicode fuel depth inField) s expression after
  | .or => ∀ fuel expression, 4 * s.rest.length + 3 ≤ fuel → expressions = [expression] →
      Returns unicode (or fields unicode fuel depth inField) s expression after
  | .andRest stop => ∀ fuel, 4 * s.rest.length + 2 ≤ fuel →
      LoopReturns unicode (fun expressions => andLoop fields unicode fuel depth inField expressions stop) stop s
        expressions after
  | .orRest => ∀ fuel stop, 4 * s.rest.length + 1 ≤ fuel →
      LoopReturns unicode (fun expressions => orLoop fields unicode fuel depth inField expressions stop) stop s
        expressions after

theorem node_eq_ok {parser : Parser} {expr : Expr} (room : parser.nodes + 1 ≤ maxQueryNodes) :
    node expr parser = .ok (expr, { parser with nodes := parser.nodes + 1 }) := by
  rw [node, if_neg (by omega)]

theorem nested_eq_ok {depth : ℕ} (shallow : depth < maxQueryNesting) (span : ByteSpan) :
    nested depth span = .ok (depth + 1) := by
  rw [nested, if_neg (by omega)]

theorem chained_cons (build : ByteSpan → List Expr → Expr) (first second : Expr) (rest : List Expr) :
    chained build first (second :: rest) =
      build ⟨first.span.start, (((second :: rest).getLast?.map fun last => last.span.stop).getD first.span.stop)⟩
        (first :: second :: rest) := by
  rw [chained, List.getLast?_cons]
  rfl

theorem size_chained_le {build : ByteSpan → List Expr → Expr} {first : Expr} {others : List Expr}
    (size : ∀ span expressions, (build span expressions).size = sizes expressions + 1) :
    first.size + sizes others ≤ (chained build first others).size := by
  cases others with
  | nil => simp [chained, sizes]
  | cons second rest =>
    rw [chained_cons, size]
    simp only [sizes]
    omega

theorem chain_eq_ok {build : ByteSpan → List Expr → Expr} {first : Expr} {others : List Expr} {parser : Parser}
    (size : ∀ span expressions, (build span expressions).size = sizes expressions + 1) {before : ℕ}
    (counted : parser.nodes = before + first.size + sizes others)
    (room : before + (chained build first others).size ≤ maxQueryNodes) :
    chain build (first :: others)
        ⟨first.span.start, (others.getLast?.map fun last => last.span.stop).getD first.span.stop⟩ parser =
      .ok (chained build first others, { parser with nodes := before + (chained build first others).size }) := by
  cases others with
  | nil =>
    obtain ⟨scanner, lookahead, nodes⟩ := parser
    dsimp only at counted
    simp [chain, chained, counted, sizes]
  | cons second rest =>
    have whole : (chained build first (second :: rest)).size = first.size + sizes (second :: rest) + 1 := by
      rw [chained_cons, size, sizes]
    rw [chain, node_eq_ok (by omega), whole, chained_cons, counted, Nat.add_assoc, Nat.add_assoc, Nat.add_assoc]
    simp

/-- A chain returns, if its first member and the loop for the others do. -/
theorem Returns.chain {build : ByteSpan → List Expr → Expr} {s middle after : Scanner} {first : Expr}
    {others : List Expr} {head : Parser → Except Halt (Expr × Parser)}
    (loop : Expr → Parser → Except Halt (List Expr × ℕ × Parser))
    (size : ∀ span expressions, (build span expressions).size = sizes expressions + 1)
    (returns : Returns unicode head s first middle)
    (loops : ∀ parser : Parser, parser.At unicode middle → parser.nodes + sizes others ≤ maxQueryNodes →
      ∃ result, loop first parser = .ok ([first] ++ others,
          (others.getLast?.map fun last => last.span.stop).getD first.span.stop, result) ∧
        result.At unicode after ∧ result.nodes = parser.nodes + sizes others) :
    Returns unicode (fun parser => do
      let (first, parser) ← head parser
      let (expressions, stop, parser) ← loop first parser
      Parser.chain build expressions ⟨first.span.start, stop⟩ parser) s (chained build first others) after := by
  intro parser stands room
  have small := @size_chained_le build first others size
  obtain ⟨next, ran, atNext, counted⟩ := returns parser stands (by omega)
  obtain ⟨last, looped, atLast, total⟩ := loops next atNext (by omega)
  simp only [ran, looped, ok_bind]
  rw [List.singleton_append, chain_eq_ok size (by omega) room]
  exact ⟨_, rfl, atLast, rfl⟩

/-- A loop goes round once more. -/
theorem Returns.loop {s middle last after : Scanner} {next : Expr} {others : List Expr} {stop : ℕ}
    {run loop : List Expr → Parser → Except Halt (List Expr × ℕ × Parser)}
    {head : Parser → Except Halt (Expr × Parser)} (returns : Returns unicode head middle next last)
    (loops : LoopReturns unicode loop next.span.stop last others after)
    (unfolds : ∀ expressions (parser : Parser), parser.At unicode s → ∃ below : Parser, below.At unicode middle ∧
      below.nodes = parser.nodes ∧ ∀ result, head below = .ok (next, result) →
        run expressions parser = loop (expressions ++ [next]) result) :
    LoopReturns unicode run stop s (next :: others) after := by
  intro expressions parser stands room
  rw [sizes] at room
  obtain ⟨below, atMiddle, same, unfolds⟩ := unfolds expressions parser stands
  obtain ⟨result, ran, atLast, counted⟩ := returns below atMiddle (by omega)
  obtain ⟨final, looped, atEnd, total⟩ := loops (expressions ++ [next]) result atLast (by omega)
  refine ⟨final, ?_, atEnd, by rw [sizes]; omega⟩
  rw [unfolds result ran, looped, List.getLast?_cons]
  cases others.getLast? <;> simp

/-- An operand that is one token. -/
theorem Returns.token {s after : Scanner} {token : Token} {expression : Expr} {run : Parser → Except Halt (Expr × Parser)}
    (read : s.next unicode = .ok (token, after)) (size : expression.size = 1)
    (unfolds : ∀ parser : Parser, parser.take unicode = .ok (token, ⟨after, none, parser.nodes⟩) →
      run parser = node expression ⟨after, none, parser.nodes⟩) : Returns unicode run s expression after := by
  intro parser stands room
  rw [unfolds parser (take_of_next stands read), node_eq_ok (by dsimp only; omega), size]
  exact ⟨_, rfl, at_taken after _, rfl⟩

/-- The node above an operand that returns. -/
theorem Returns.above {s middle last after : Scanner} {inner expression : Expr}
    {run below : Parser → Except Halt (Expr × Parser)} (returns : Returns unicode below middle inner last)
    (size : expression.size = inner.size + 1)
    (unfolds : ∀ parser : Parser, parser.At unicode s → ∃ start : Parser, start.At unicode middle ∧
      start.nodes = parser.nodes ∧ ∀ result, below start = .ok (inner, result) → result.At unicode last →
        ∃ final : Parser, final.At unicode after ∧ final.nodes = result.nodes ∧ run parser = node expression final) :
    Returns unicode run s expression after := by
  intro parser stands room
  obtain ⟨start, atMiddle, same, unfolds⟩ := unfolds parser stands
  obtain ⟨result, ran, atLast, counted⟩ := returns start atMiddle (by omega)
  obtain ⟨final, atAfter, kept, ran⟩ := unfolds result ran atLast
  rw [ran, node_eq_ok (by omega)]
  exact ⟨_, rfl, atAfter, by dsimp only; omega⟩

theorem wordNodes_eq_ok {words : List (Str × ByteSpan)} {parser : Parser}
    (room : parser.nodes + words.length ≤ maxQueryNodes) :
    wordNodes words parser = .ok (wordTerms words, { parser with nodes := parser.nodes + words.length }) := by
  induction words generalizing parser with
  | nil => rfl
  | cons word words ih =>
    obtain ⟨value, range⟩ := word
    rw [List.length_cons] at room
    rw [wordNodes, node_eq_ok (by omega), ok_bind]
    dsimp only
    rw [ih (by dsimp only; omega), ok_bind, List.length_cons, Nat.add_comm words.length, ← Nat.add_assoc]
    rfl

/-- The words of a single-quoted group, their chain and the group. -/
theorem words_complete {words : List (Str × ByteSpan)} (nonempty : words ≠ []) (span : ByteSpan) (after : Scanner)
    (nodes : ℕ) (room : nodes + (wordGroup words span).size ≤ maxQueryNodes) :
    ∃ result, (do
        let (terms, parser) ← wordNodes words ⟨after, none, nodes⟩
        let (inner, parser) ← chain .and terms (innerSpan words span) parser
        node (.group span .singleQuotes inner) parser) = .ok (wordGroup words span, result) ∧
      result.At unicode after ∧ result.nodes = nodes + (wordGroup words span).size := by
  cases words with
  | nil => exact absurd rfl nonempty
  | cons word words =>
    obtain ⟨value, range⟩ := word
    have group : (wordGroup ((value, range) :: words) span).size =
        (chained .and (.term range value) (wordTerms words)).size + 1 := rfl
    have small := @size_chained_le .and (.term range value) (wordTerms words) (fun _ _ => rfl)
    have terms := sizes_wordTerms words
    have one : (Expr.term range value).size = 1 := rfl
    rw [wordNodes_eq_ok (by dsimp only [List.length_cons]; omega), ok_bind]
    dsimp only
    rw [innerSpan_cons]
    have inner := @chain_eq_ok .and (.term range value) (wordTerms words)
      ⟨after, none, nodes + (words.length + 1)⟩ (fun _ _ => rfl) nodes (by dsimp only; omega) (by omega)
    rw [show (Expr.term range value).span = range from rfl] at inner
    rw [show wordTerms ((value, range) :: words) = .term range value :: wordTerms words from rfl, List.length_cons]
    dsimp only
    rw [inner, ok_bind]
    dsimp only
    rw [node_eq_ok (by dsimp only; omega), group, ← Nat.add_assoc]
    exact ⟨_, rfl, at_taken after _, rfl⟩

theorem complete {rule : Rule} {depth : ℕ} {inField : Bool} {s after : Scanner} {expressions : List Expr}
    (derives : Derives fields unicode rule depth inField s expressions after) :
    Completes fields unicode rule depth inField s expressions after := by
  induction derives with
  | term read kind literal =>
    rintro (_ | fuel) expression enough same
    · omega
    cases same
    refine .token read rfl fun parser taken => ?_
    simp only [operand, taken, ok_bind, kind]
    rw [rejectShorthand_eq_ok.mpr literal, ok_bind]
  | prefixed read kind literal =>
    rintro (_ | fuel) expression enough same
    · omega
    cases same
    refine .token read rfl fun parser taken => ?_
    simp only [operand, taken, ok_bind, kind]
    rw [rejectShorthand_eq_ok.mpr literal, ok_bind]
  | exact read kind =>
    rintro (_ | fuel) expression enough same
    · omega
    cases same
    refine .token read rfl fun parser taken => ?_
    simp only [operand, taken, ok_bind, kind]
  | @not depth inField s middle after token inner read kind shallow operand ih =>
    rintro (_ | fuel) expression enough same
    · omega
    cases same
    have progress := (Scanner.next_reads rfl read).progress (by rcases kind with kind | kind <;> simp [kind])
    refine (ih fuel inner (by omega) rfl).above rfl fun parser stands => ?_
    refine ⟨⟨middle, none, parser.nodes⟩, at_taken middle _, rfl, fun result ran atLast => ⟨result, atLast, rfl, ?_⟩⟩
    rcases kind with kind | kind
    all_goals simp only [Parser.operand, take_of_next stands read, ok_bind, kind, nested_eq_ok shallow, ran]
  | @field depth s middle after beyond token next name inner read kind known shallow peeked adjacent starts operand ih =>
    rintro (_ | fuel) expression enough same
    · omega
    cases same
    have progress := (Scanner.next_reads rfl read).progress (by simp [kind])
    refine (ih fuel inner (by omega) rfl).above rfl fun parser stands => ?_
    refine ⟨⟨beyond, some next, parser.nodes⟩, at_peeked peeked _, rfl,
      fun result ran atLast => ⟨result, atLast, rfl, ?_⟩⟩
    have ahead := @peek_of_next unicode ⟨middle, none, parser.nodes⟩ _ _ _ (at_taken middle _) peeked
    simp only [Parser.operand, take_of_next stands read, ok_bind, kind, Bool.false_eq_true, if_false, known,
      not_true_eq_false, nested_eq_ok shallow, ahead, adjacent, starts, ran]
    simp
  | @parentheses depth inField s middle last after beyond token next close inner read kind shallow peeked nonempty body
      closed closing ih =>
    rintro (_ | fuel) expression enough same
    · omega
    cases same
    have progress := (Scanner.next_reads rfl read).progress (by simp [kind])
    refine (ih fuel inner (by omega) rfl).above rfl fun parser stands => ?_
    refine ⟨⟨beyond, some next, parser.nodes⟩, at_peeked peeked _, rfl,
      fun result ran atLast => ⟨⟨after, none, result.nodes⟩, at_taken after _, rfl, ?_⟩⟩
    have ahead := @peek_of_next unicode ⟨middle, none, parser.nodes⟩ _ _ _ (at_taken middle _) peeked
    simp only [operand, take_of_next stands read, ok_bind, kind, nested_eq_ok shallow, ahead, if_neg nonempty, ran,
      take_of_next atLast closed, closing, ne_eq, not_true_eq_false, if_false]
  | @words depth inField s after token words read kind shallow =>
    rintro (_ | fuel) expression enough same
    · omega
    cases same
    intro parser stands room
    have decoded := (Scanner.next_reads rfl read).decoded
    rw [kind] at decoded
    simp only [operand, take_of_next stands read, ok_bind, kind, nested_eq_ok shallow]
    exact words_complete decoded.1 token.span after parser.nodes room
  | @and depth inField s middle after first others head tail ihHead ihTail =>
    rintro (_ | fuel) expression enough same
    · omega
    cases same
    have progress := head.located.progress
    intro parser stands room
    rw [and]
    exact Returns.chain (fun first => andLoop fields unicode fuel depth inField [first] first.span.stop) (fun _ _ => rfl)
      (ihHead fuel first (by omega) rfl) (ihTail fuel (by omega) [first]) parser stands room
  | andStop peeked other ends =>
    rintro (_ | fuel) enough
    · omega
    intro expressions parser stands room
    simp only [andLoop, peek_of_next stands peeked, ok_bind, if_neg other, ends]
    exact ⟨_, by simp; rfl, at_peeked peeked _, rfl⟩
  | @andExplicit stop depth inField s middle last after token next others read kind head tail ihHead ihTail =>
    rintro (_ | fuel) enough
    · omega
    have progress := (Scanner.next_reads rfl read).progress (by simp [kind])
    have shorter := head.located.progress
    refine (ihHead fuel next (by omega) rfl).loop (ihTail fuel (by omega)) fun expressions parser stands => ?_
    refine ⟨⟨middle, none, parser.nodes⟩, at_taken middle _, rfl, fun result ran => ?_⟩
    simp only [andLoop, peek_of_next stands read, ok_bind, if_pos kind, take_of_next (at_peeked read _) read, ran]
  | @andImplicit stop depth inField s beyond last after token next others peeked starts separated head tail ihHead ihTail =>
    rintro (_ | fuel) enough
    · omega
    have shorter := head.located.progress
    have other : token.kind ≠ .and := by
      intro kind
      rw [kind] at starts
      cases starts
    refine (ihHead fuel next (by omega) rfl).loop (ihTail fuel (by omega)) fun expressions parser stands => ?_
    refine ⟨⟨beyond, some token, parser.nodes⟩, at_peeked peeked _, rfl, fun result ran => ?_⟩
    simp only [andLoop, peek_of_next stands peeked, ok_bind, if_neg other, if_pos starts, if_neg separated, ran]
  | @or depth inField s middle after first others head tail ihHead ihTail =>
    rintro (_ | fuel) expression enough same
    · omega
    cases same
    have progress := head.located.progress
    intro parser stands room
    rw [or]
    exact Returns.chain (fun first => orLoop fields unicode fuel depth inField [first] first.span.stop) (fun _ _ => rfl)
      (ihHead fuel first (by omega) rfl) (ihTail fuel _ (by omega) [first]) parser stands room
  | orStop peeked other =>
    rintro (_ | fuel) stop enough
    · omega
    intro expressions parser stands room
    simp only [orLoop, peek_of_next stands peeked, ok_bind, if_neg other]
    exact ⟨_, by simp; rfl, at_peeked peeked _, rfl⟩
  | @orMore depth inField s middle last after token next others read kind head tail ihHead ihTail =>
    rintro (_ | fuel) stop enough
    · omega
    have progress := (Scanner.next_reads rfl read).progress (by simp [kind])
    have shorter := head.located.progress
    refine (ihHead fuel next (by omega) rfl).loop (ihTail fuel _ (by omega)) fun expressions parser stands => ?_
    refine ⟨⟨middle, none, parser.nodes⟩, at_taken middle _, rfl, fun result ran => ?_⟩
    simp only [orLoop, peek_of_next stands read, ok_bind, if_pos kind, take_of_next (at_peeked read _) read, ran]

end Parser

end OpenLegal.SearchQuery
