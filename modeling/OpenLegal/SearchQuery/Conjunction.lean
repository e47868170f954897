import OpenLegal.SearchQuery.Joints

/-! # Both spellings of a conjunction

White space between two operands means the same as `AND`. The texts before and behind the place keep their tokens when
one spelling is exchanged for the other, so the two queries are respellings and have the same expression.
-/

namespace OpenLegal.SearchQuery

open Rust Rust.Str Scanner

/-! ## Tokens at another place -/

section Moves

variable {unicode : Unicode} {outside outside' tail tail' : Str}

theorem unspanned_shiftDown (kind : TokenKind) (amount : ℕ) : (kind.shiftDown amount).unspanned = kind.unspanned := by
  cases kind with
  | words pieces => simp [TokenKind.shiftDown, TokenKind.unspanned, unspannedWords, shiftWords]
  | _ => rfl

/-- A token of a window is the same token where the window stands in another text, before white space. -/
theorem next_moves {s s' window after : Scanner} {token : Token} (read : s.next unicode = .ok (token, after))
    (trims : Trims outside tail s window) (inside : Inside tail after) (trims' : Trims outside' tail' s' window)
    (blank : Blank tail') (more : token.kind ≠ .endOfInput ∨ tail' = []) :
    ∃ token' after' place, s'.next unicode = .ok (token', after') ∧ Alike token after token' after' ∧
      (token.span.start = s.offset ↔ token'.span.start = s'.offset) ∧ Trims outside tail after place ∧
      Trims outside' tail' after' place := by
  obtain ⟨place, windowRead, trimmed⟩ := next_inside read trims inside
  have more' : (token.shiftDown (byteLen outside)).kind ≠ .endOfInput ∨ tail' = [] :=
    more.imp_left fun other same => other (kind_of_shiftDown same (by simp))
  obtain ⟨token', after', read', same, trimmed'⟩ := next_widens windowRead trims' blank more'
  refine ⟨token', after', place, read', ⟨?_, ?_⟩, ?_, trimmed, trimmed'⟩
  · rw [← unspanned_shiftDown token'.kind (byteLen outside'), ← unspanned_shiftDown token.kind (byteLen outside)]
    exact congrArg (fun token => token.kind.unspanned) same.symm
  · rw [same] at windowRead
    have text := text_inside (next_reads rfl read') trims' windowRead trimmed'
    rw [← same] at windowRead text
    rw [← text, text_inside (next_reads rfl read) trims windowRead trimmed]
  · have start := congrArg (fun token => token.span.start) same
    simp only [Token.shiftDown, ByteSpan.shiftDown] at start
    have low := trims.offset_ge
    have low' := trims'.offset_ge
    have position := trims.offset_eq
    have position' := trims'.offset_eq
    have skipped := (reaches_skipWhitespace s).offset_le
    have skipped' := (reaches_skipWhitespace s').offset_le
    have begins := congrArg ByteSpan.start (next_reads rfl read).span
    have begins' := congrArg ByteSpan.start (next_reads rfl read').span
    dsimp only at begins begins'
    omega

/-- Tokens inside a window are the same where the window stands in another text. -/
theorem Steps.moves {operand last : Bool} {s s' window place : Scanner} (steps : Steps unicode operand s last place)
    (trims : Trims outside tail s window) (trims' : Trims outside' tail' s' window) (inside : Inside tail place)
    (blank : Blank tail')
    (final : ∀ window' place', Trims outside tail place window' → Trims outside' tail' place' window' →
      Respelled unicode last place place') : Respelled unicode operand s s' := by
  induction steps generalizing s' window with
  | refl => exact final window s' trims trims'
  | token read more rest ih =>
    obtain ⟨token', after', window', read', alike, gap, trimmed, trimmed'⟩ :=
      next_moves read trims (inside.of_reaches rest.reaches) trims' blank (.inl more)
    exact .token read read' alike gap (ih trimmed trimmed' inside final)

theorem blank_nil : Blank [] := by simp [Blank]

/-- The end of a text is the same behind another text. -/
theorem Steps.behind {operand last : Bool} {s s' window place beyond : Scanner} {token : Token}
    (steps : Steps unicode operand s last place) (trims : Trims outside [] s window) (trims' : Trims outside' [] s' window)
    (read : place.next unicode = .ok (token, beyond)) (ends : token.kind = .endOfInput) : Respelled unicode operand s s' := by
  refine steps.moves trims trims' ⟨_, (List.append_nil _).symm⟩ blank_nil fun window' place' trimmed trimmed' => ?_
  obtain ⟨token', after', _, read', alike, -⟩ :=
    next_moves read trimmed ⟨_, (List.append_nil _).symm⟩ trimmed' blank_nil (.inr rfl)
  exact .finish read read' ends (alike.kind_eq ends (by simp))

/-- The beginning of a text is the same before another rest. -/
theorem Steps.before {operand : Bool} {s place : Scanner} {consumed : Str} (steps : Steps unicode operand s true place)
    (rest : s.rest = consumed ++ place.rest) (blank : Blank tail')
    (final : Respelled unicode true place ⟨place.before, tail'⟩) : Respelled unicode operand s ⟨s.before, consumed ++ tail'⟩ := by
  have trims : Trims [] place.rest s ⟨s.before, consumed⟩ := ⟨(List.append_nil _).symm, rest⟩
  have trims' : Trims [] tail' ⟨s.before, consumed ++ tail'⟩ ⟨s.before, consumed⟩ := ⟨(List.append_nil _).symm, rfl⟩
  refine steps.moves trims trims' ⟨[], rfl⟩ blank fun window place' trimmed trimmed' => ?_
  have done : window.rest = [] := List.append_left_eq_self.mp trimmed.rest.symm
  obtain ⟨before', rest'⟩ := place'
  obtain rfl : rest' = tail' := by simpa [done] using trimmed'.rest
  obtain rfl : place.before = before' := trimmed.before.trans trimmed'.before.symm
  exact final

end Moves

/-! ## The text between two operands -/

/-- White space that may stand in a query. -/
structure Gap (text : Str) : Prop where
  nonempty : text ≠ []
  white : ∀ c ∈ text, isWhitespace c = true
  plain : ∀ c ∈ text, isControl c = false

/-- An operator between white space. -/
def spelled (name left right : Str) : Str := left ++ (name ++ right)

/-- An operator with or without white space around it. -/
def IsOperator (name text : Str) : Prop :=
  ∃ left right, text = spelled name left right ∧ (∀ c ∈ left, isWhitespace c = true) ∧ ∀ c ∈ right, isWhitespace c = true

/-- A source is cut between two expressions. -/
structure Between (source : Str) (first second : Expr) (before gap behind : Str) : Prop where
  source : source = before ++ (gap ++ behind)
  stop : byteLen before = first.span.stop
  start : byteLen (before ++ gap) = second.span.start

section Gaps

variable {unicode : Unicode}

theorem skipWhitespace_append {gap : Str} (white : ∀ c ∈ gap, isWhitespace c = true) (before rest : Str) :
    skipWhitespace ⟨before, gap ++ rest⟩ = skipWhitespace ⟨gap.reverse ++ before, rest⟩ := by
  rw [skipWhitespace, skipWhitespace, skipWhile_eq, skipWhile_eq, List.takeWhile_append_of_pos white,
    List.dropWhile_append_of_pos white, List.reverse_append, List.append_assoc]

theorem next_append {gap : Str} (white : ∀ c ∈ gap, isWhitespace c = true) (before rest : Str) :
    next unicode ⟨before, gap ++ rest⟩ = next unicode ⟨gap.reverse ++ before, rest⟩ := by
  rw [next, next, skipWhitespace_append white]

/-- The text between two positions with only white space between them. -/
theorem white_of_skipWhitespace (s : Scanner) :
    ∃ gap, s.rest = gap ++ s.skipWhitespace.rest ∧ s.skipWhitespace.before = gap.reverse ++ s.before ∧
      ∀ c ∈ gap, isWhitespace c = true := by
  rw [skipWhitespace, skipWhile_eq]
  exact ⟨s.rest.takeWhile isWhitespace, (List.takeWhile_append_dropWhile).symm, rfl, List.all_eq_true.mp List.all_takeWhile⟩

/-- The text of an operator with the white space before it. -/
theorem next_spelling {s after : Scanner} {token : Token} {name : Str} (read : s.next unicode = .ok (token, after))
    (spelling : token.kind.spelling = some name) :
    ∃ left, s.rest = left ++ (name ++ after.rest) ∧ after.before = name.reverse ++ (left.reverse ++ s.before) ∧
      ∀ c ∈ left, isWhitespace c = true := by
  obtain ⟨left, rest, before, white⟩ := white_of_skipWhitespace s
  obtain ⟨consumed, text, behind⟩ := (next_reads rfl read).reaches
  rw [next] at read
  obtain ⟨⟨kind, last⟩, found, result⟩ := bind_eq_ok.mp read
  cases result
  have spelled := kindAt_spelling found spelling
  have same : consumed = name := List.append_cancel_right (text.symm.trans spelled)
  refine ⟨left, ?_, ?_, white⟩
  · rw [rest, spelled]
  · rw [behind, before, same]

/-- A source is cut at two positions. -/
theorem between_of_positions {source : Str} {first second : Expr} {place start : Scanner} {gap : Str}
    (same : place.input = source) (rest : place.rest = gap ++ start.rest) (before : start.before = gap.reverse ++ place.before)
    (stop : place.offset = first.span.stop) (begins : start.offset = second.span.start) :
    Between source first second place.before.reverse gap start.rest := by
  constructor
  · rw [← same, Scanner.input, rest]
  · rw [byteLen_reverse, ← stop]
    rfl
  · rw [← begins, offset, before]
    simp only [byteLen_append, byteLen_reverse]
    omega

/-- Where two members of a chain meet, the operator or only a gap is the text between them. -/
theorem Joint.between {operator : TokenKind} {name source : Str} {operand : Bool} {s after : Scanner} {first second : Expr}
    (joint : Joint unicode operator operand s first second after) (same : s.input = source)
    (spelling : operator.spelling = some name) :
    ∃ before gap behind, Between source first second before gap behind ∧
      (IsOperator name gap ∨ (operator = .and ∧ gap ≠ [] ∧ ∀ c ∈ gap, isWhitespace c = true)) := by
  obtain @⟨place, middle, beyond, token, front, stop, link, read, starts, start, rear⟩ := joint
  have input : place.input = source := front.reaches.input_eq.trans same
  obtain ⟨right, rest, before, white⟩ := white_of_skipWhitespace middle
  have begins := (congrArg ByteSpan.start (next_reads rfl read).span).symm.trans start
  cases link with
  | spelled operatorRead kind =>
    obtain ⟨left, text, behind, blank⟩ := next_spelling operatorRead (kind ▸ spelling)
    refine ⟨_, spelled name left right, _, between_of_positions input ?_ ?_ stop begins, .inl ⟨left, right, rfl, blank, white⟩⟩
    · rw [text, rest]
      simp [spelled]
    · rw [before, behind]
      simp [spelled]
  | gap operatorRead apart conjunction =>
    refine ⟨_, right, _, between_of_positions input rest before stop begins, .inr ⟨conjunction, ?_, white⟩⟩
    rintro rfl
    cases operatorRead.symm.trans read
    rw [start, ← begins, offset, before] at apart
    exact apart rfl

theorem endsWord_letter {c : Char} (letter : c = 'A' ∨ c = 'N' ∨ c = 'D') (before rest : Str) :
    endsWord unicode before c rest = false := by
  rcases letter with rfl | rfl | rfl
  · rw [endsWord, show isWhitespace 'A' = false by decide +kernel]
    rfl
  · rw [endsWord, show isWhitespace 'N' = false by decide +kernel]
    rfl
  · rw [endsWord, show isWhitespace 'D' = false by decide +kernel]
    rfl

/-- `AND` between white space is read as the operator. -/
theorem next_conjunction {left rest : Str} {c : Char} (white : ∀ c ∈ left, isWhitespace c = true)
    (ends : isWhitespace c = true) (before : Str) :
    ∃ token place, next unicode ⟨before, left ++ (['A', 'N', 'D'] ++ c :: rest)⟩ = .ok (token, ⟨place, c :: rest⟩) ∧
      token.kind = .and := by
  rw [next_append white]
  generalize left.reverse ++ before = front
  have closes : endsWord unicode ('D' :: 'N' :: 'A' :: front) c rest = true := by
    rw [endsWord, ends]
    rfl
  have skipped : skipWhitespace ⟨front, ['A', 'N', 'D'] ++ c :: rest⟩ = ⟨front, ['A', 'N', 'D'] ++ c :: rest⟩ := by
    rw [skipWhitespace, List.cons_append, skipWhile, show isWhitespace 'A' = false by decide +kernel]
    rfl
  have found : kindAt unicode ⟨front, ['A', 'N', 'D'] ++ c :: rest⟩ = .ok (.and, ⟨'D' :: 'N' :: 'A' :: front, c :: rest⟩) := by
    have loop := @wordLoop_char unicode front ('N' :: 'D' :: c :: rest) 'A' (endsWord_letter (.inl rfl) _ _) (by decide)
      ⟨[], false, []⟩
    rw [wordLoop_char (endsWord_letter (.inr (.inl rfl)) _ _) (by decide),
      wordLoop_char (endsWord_letter (.inr (.inr rfl)) _ _) (by decide), wordLoop_ends closes] at loop
    have word : word unicode ⟨front, 'A' :: 'N' :: 'D' :: c :: rest⟩ = .ok (.and, ⟨'D' :: 'N' :: 'A' :: front, c :: rest⟩) := by
      rw [Scanner.word, loop]
      rfl
    exact word
  rw [next, skipped, found]
  exact ⟨_, _, rfl, rfl⟩

/-- What is behind a joint is the same behind another text. -/
theorem behind_moves {s after last beyond : Scanner} {token final : Token} (read : s.next unicode = .ok (token, after))
    (starts : token.kind.startsOperand = true) (rear : Steps unicode token.kind.endsOperand after true last)
    (finalRead : last.next unicode = .ok (final, beyond)) (ends : final.kind = .endOfInput) (before : Str) :
    ∃ token' after', next unicode ⟨before, s.skipWhitespace.rest⟩ = .ok (token', after') ∧ Alike token after token' after' ∧
      token'.span.start = byteLen before ∧ Respelled unicode token.kind.endsOperand after after' := by
  have trims : Trims s.skipWhitespace.before [] s.skipWhitespace ⟨[], s.skipWhitespace.rest⟩ := ⟨rfl, (List.append_nil _).symm⟩
  have trims' : Trims before [] ⟨before, s.skipWhitespace.rest⟩ ⟨[], s.skipWhitespace.rest⟩ := ⟨rfl, (List.append_nil _).symm⟩
  obtain ⟨token', after', place, read', alike, gap, trimmed, trimmed'⟩ :=
    next_moves ((next_skipWhitespace s).trans read) trims ⟨_, (List.append_nil _).symm⟩ trims' blank_nil
      (.inl (notEnd_of_starts starts))
  refine ⟨token', after', read', alike, ?_, rear.behind trimmed trimmed' finalRead ends⟩
  exact gap.mp (congrArg ByteSpan.start (next_reads rfl read).span)

/-- At a joint, white space may be exchanged for `AND`, and `AND` for white space. -/
theorem Joint.respelled {source : Str} {last beyond : Scanner} {final : Token} {first second : Expr}
    (joint : Joint unicode .and false ⟨[], source⟩ first second last)
    (finalRead : last.next unicode = .ok (final, beyond)) (ends : final.kind = .endOfInput) :
    ∃ before gap behind, Between source first second before gap behind ∧
      ((gap ≠ [] ∧ (∀ c ∈ gap, isWhitespace c = true) ∧ ∀ left right, Gap left → Gap right →
          Respelled unicode false ⟨[], source⟩ ⟨[], before ++ (spelled ['A', 'N', 'D'] left right ++ behind)⟩) ∨
        (IsOperator ['A', 'N', 'D'] gap ∧ ∀ white, Gap white →
          Respelled unicode false ⟨[], source⟩ ⟨[], before ++ (white ++ behind)⟩)) := by
  obtain @⟨place, middle, after, token, front, stop, link, read, starts, start, rear⟩ := joint
  have input : place.input = source := front.reaches.input_eq
  obtain ⟨right, rest, before, white⟩ := white_of_skipWhitespace middle
  have begins := (congrArg ByteSpan.start (next_reads rfl read).span).symm.trans start
  have moves := behind_moves read starts rear finalRead ends
  -- the text before the joint is the same before another rest
  have whole {rest' : Str} (blank : Blank rest') (final : Respelled unicode true place ⟨place.before, rest'⟩) :
      Respelled unicode false ⟨[], source⟩ ⟨[], place.before.reverse ++ rest'⟩ :=
    @Steps.before unicode rest' false ⟨[], source⟩ place place.before.reverse front input.symm blank final
  cases link with
  | gap operatorRead apart conjunction =>
    cases operatorRead.symm.trans read
    refine ⟨_, right, _, between_of_positions input rest before stop begins, .inl ⟨?_, white, ?_⟩⟩
    · rintro rfl
      rw [start, ← begins, offset, before] at apart
      exact apart rfl
    intro left right left_gap right_gap
    obtain ⟨c, right', rfl⟩ := List.exists_cons_of_ne_nil right_gap.nonempty
    obtain ⟨d, left', rfl⟩ := List.exists_cons_of_ne_nil left_gap.nonempty
    obtain ⟨conjunction, front', between, kind⟩ := @next_conjunction unicode (d :: left')
      (right' ++ place.skipWhitespace.rest) c left_gap.white (right_gap.white c List.mem_cons_self) place.before
    obtain ⟨token', after', read', alike, -, behind⟩ := moves ((c :: right').reverse ++ front')
    rw [← next_append right_gap.white] at read'
    have text : spelled ['A', 'N', 'D'] (d :: left') (c :: right') ++ place.skipWhitespace.rest =
        (d :: left') ++ (['A', 'N', 'D'] ++ c :: (right' ++ place.skipWhitespace.rest)) := by simp [spelled]
    refine whole ?_ ?_
    · intro e head
      cases head
      exact left_gap.white d List.mem_cons_self
    · rw [text]
      exact .explicit read starts apart between kind read' alike behind
  | spelled operatorRead kind =>
    obtain ⟨left, text, front', blank⟩ := next_spelling operatorRead (show _ = some ['A', 'N', 'D'] by rw [kind]; rfl)
    refine ⟨_, spelled ['A', 'N', 'D'] left right, _, between_of_positions input ?_ ?_ stop begins,
      .inr ⟨⟨left, right, rfl, blank, white⟩, ?_⟩⟩
    · rw [text, rest]
      simp [spelled]
    · rw [before, front']
      simp [spelled]
    intro gap isGap
    obtain ⟨token', after', read', alike, start', behind⟩ := moves (gap.reverse ++ place.before)
    rw [← next_append isGap.white] at read'
    refine whole ?_ (.implicit operatorRead kind read starts read' ?_ alike behind)
    · obtain ⟨d, gap', rfl⟩ := List.exists_cons_of_ne_nil isGap.nonempty
      intro e head
      cases head
      exact isGap.white d List.mem_cons_self
    · rw [start']
      have some := List.length_pos_iff.mpr isGap.nonempty
      have bytes := length_le_byteLen gap
      simp only [offset, byteLen_append, byteLen_reverse]
      omega

end Gaps

/-! ## Grouping by precedence -/

/-- What binds first, second and last. -/
inductive Precedence where
  | operand
  | conjunction
  | disjunction

/-- The text between two neighbours of a conjunction. -/
def JoinsAnd (gap : Str) : Prop := IsOperator ['A', 'N', 'D'] gap ∨ (gap ≠ [] ∧ ∀ c ∈ gap, isWhitespace c = true)

/-- The text between two neighbours of a disjunction. -/
def JoinsOr (gap : Str) : Prop := IsOperator ['O', 'R'] gap

/-- Neighbours with such a text between them. -/
def Separated (source : Str) (joins : Str → Prop) (members : List Expr) : Prop :=
  ∀ first second, [first, second] <:+: members → ∃ before gap behind, Between source first second before gap behind ∧ joins gap

/-- A term or a conjunction of terms. -/
def IsWords : Expr → Prop
  | .term _ _ => True
  | .and _ terms => 2 ≤ terms.length ∧ ∀ term ∈ terms, ∃ span value, term = .term span value
  | _ => False

/-- Operands are atoms, negations and fields of an operand, and groups; conjunctions join operands, and disjunctions
join conjunctions. -/
inductive Grouped (source : Str) : Precedence → Expr → Prop where
  | term (span : ByteSpan) (value : Str) : Grouped source .operand (.term span value)
  | prefixed (span : ByteSpan) (value : Str) : Grouped source .operand (.prefixed span value)
  | exact (span : ByteSpan) (value : Str) : Grouped source .operand (.exact span value)
  | not {inner : Expr} (span : ByteSpan) (operand : Grouped source .operand inner) : Grouped source .operand (.not span inner)
  | field {inner : Expr} (span : ByteSpan) (name : Str) (operand : Grouped source .operand inner) :
      Grouped source .operand (.field span name inner)
  | parentheses {inner : Expr} (span : ByteSpan) (body : Grouped source .disjunction inner) :
      Grouped source .operand (.group span .parentheses inner)
  | words {inner : Expr} (span : ByteSpan) (words : IsWords inner) : Grouped source .operand (.group span .singleQuotes inner)
  | single {expression : Expr} (operand : Grouped source .operand expression) : Grouped source .conjunction expression
  | and {members : List Expr} (span : ByteSpan) (several : 2 ≤ members.length)
      (operands : ∀ member ∈ members, Grouped source .operand member) (separated : Separated source JoinsAnd members) :
      Grouped source .conjunction (.and span members)
  | alone {expression : Expr} (conjunction : Grouped source .conjunction expression) :
      Grouped source .disjunction expression
  | or {members : List Expr} (span : ByteSpan) (several : 2 ≤ members.length)
      (conjunctions : ∀ member ∈ members, Grouped source .conjunction member)
      (separated : Separated source JoinsOr members) : Grouped source .disjunction (.or span members)

section Grouping

variable {fields : List Str} {unicode : Unicode} {source : Str}

theorem AllJoined.separatedAnd {operand : Bool} {s after : Scanner} {members : List Expr}
    (joined : AllJoined unicode .and operand s after members) (same : s.input = source) : Separated source JoinsAnd members := by
  intro first second adjacent
  obtain ⟨before, gap, behind, cut, text⟩ := (joined first second adjacent).between same rfl
  exact ⟨before, gap, behind, cut, text.imp_right (·.2)⟩

theorem AllJoined.separatedOr {operand : Bool} {s after : Scanner} {members : List Expr}
    (joined : AllJoined unicode .or operand s after members) (same : s.input = source) : Separated source JoinsOr members := by
  intro first second adjacent
  obtain ⟨before, gap, behind, cut, text⟩ := (joined first second adjacent).between same rfl
  exact ⟨before, gap, behind, cut, text.resolve_right (by simp)⟩

theorem isWords_wordGroup {words : List (Str × ByteSpan)} (nonempty : words ≠ []) (span : ByteSpan) :
    ∃ inner, wordGroup words span = .group span .singleQuotes inner ∧ IsWords inner := by
  obtain ⟨⟨value, range⟩, words, rfl⟩ := List.exists_cons_of_ne_nil nonempty
  cases words with
  | nil => exact ⟨_, rfl, trivial⟩
  | cons word words =>
    have group : wordGroup ((value, range) :: word :: words) span =
        .group span .singleQuotes (chained .and (.term range value) (wordTerms (word :: words))) := rfl
    refine ⟨_, group, ?_⟩
    rw [wordTerms, List.map_cons, Parser.chained_cons]
    refine ⟨by simp, ?_⟩
    intro term member
    rcases List.mem_cons.mp member with rfl | member
    · exact ⟨range, value, rfl⟩
    · have mapped : term ∈ wordTerms (word :: words) := member
      obtain ⟨⟨value', range'⟩, -, rfl⟩ := List.mem_map.mp mapped
      exact ⟨range', value', rfl⟩

/-- The precedence of what a rule returns. -/
def Rule.precedence : Rule → Precedence
  | .operand | .andRest _ => .operand
  | .and | .orRest => .conjunction
  | .or => .disjunction

theorem Derives.grouped {rule : Rule} {depth : ℕ} {inField : Bool} {s after : Scanner} {expressions : List Expr}
    (derives : Derives fields unicode rule depth inField s expressions after) (same : s.input = source) :
    ∀ expression ∈ expressions, Grouped source rule.precedence expression := by
  induction derives with
  | term => exact List.forall_mem_singleton.mpr (.term _ _)
  | prefixed => exact List.forall_mem_singleton.mpr (.prefixed _ _)
  | exact => exact List.forall_mem_singleton.mpr (.exact _ _)
  | words read kind =>
    have decoded := (next_reads same read).decoded
    rw [kind] at decoded
    obtain ⟨inner, group, words⟩ := isWords_wordGroup decoded.1 _
    rw [group]
    exact List.forall_mem_singleton.mpr (.words _ words)
  | not read kind _ operand ih =>
    exact List.forall_mem_singleton.mpr (.not _ (ih ((next_reads same read).input_eq same) _ List.mem_cons_self))
  | field read kind _ _ _ _ _ operand ih =>
    exact List.forall_mem_singleton.mpr (.field _ _ (ih ((next_reads same read).input_eq same) _ List.mem_cons_self))
  | parentheses read kind _ _ _ body closed closing ih =>
    exact List.forall_mem_singleton.mpr (.parentheses _ (ih ((next_reads same read).input_eq same) _ List.mem_cons_self))
  | @and depth inField s middle after first others head rest ihHead ihRest =>
    have input := head.located.advances.input_eq.trans same
    have operand := ihHead same first List.mem_cons_self
    refine List.forall_mem_singleton.mpr ?_
    cases others with
    | nil => exact .single operand
    | cons next others =>
      rw [Parser.chained_cons]
      have stop := head.stop_eq rfl
      exact .and _ (by simp) (List.forall_mem_cons.mpr ⟨operand, ihRest input⟩) ((rest.joins.2 stop first stop).separatedAnd input)
  | @or depth inField s middle after first others head rest ihHead ihRest =>
    have input := head.located.advances.input_eq.trans same
    have conjunction := ihHead same first List.mem_cons_self
    refine List.forall_mem_singleton.mpr ?_
    cases others with
    | nil => exact .alone conjunction
    | cons next others =>
      rw [Parser.chained_cons]
      exact .or _ (by simp) (List.forall_mem_cons.mpr ⟨conjunction, ihRest input⟩)
        ((rest.joins.2 first (head.stop_eq rfl)).separatedOr input)
  | andStop | orStop => simp
  | andExplicit read kind head rest ihHead ihRest =>
    have input := (next_reads same read).input_eq same
    exact List.forall_mem_cons.mpr ⟨ihHead input _ List.mem_cons_self, ihRest (head.located.advances.input_eq.trans input)⟩
  | andImplicit peeked starts separated head rest ihHead ihRest =>
    exact List.forall_mem_cons.mpr ⟨ihHead same _ List.mem_cons_self, ihRest (head.located.advances.input_eq.trans same)⟩
  | orMore read kind head rest ihHead ihRest =>
    have input := (next_reads same read).input_eq same
    exact List.forall_mem_cons.mpr ⟨ihHead input _ List.mem_cons_self, ihRest (head.located.advances.input_eq.trans input)⟩

end Grouping

/-! ## Queries -/

namespace SearchQueryProcessor

variable {processor : SearchQueryProcessor} {unicode : Unicode}

/-- A text parses to the expression of a query, up to the spans. -/
def MeansSame (processor : SearchQueryProcessor) (unicode : Unicode) (query : ParsedQuery) (text : Str) : Prop :=
  ∃ expression, processor.parse unicode text = .ok ⟨text, expression⟩ ∧ expression.unspanned = query.expression.unspanned

/-- Between two neighbours there is white space, which may be exchanged for `AND`, or there is `AND`, which may be
exchanged for white space. -/
def Exchangeable (processor : SearchQueryProcessor) (unicode : Unicode) (query : ParsedQuery) (first second : Expr) : Prop :=
  ∃ before gap behind, Between query.source first second before gap behind ∧
    ((gap ≠ [] ∧ (∀ c ∈ gap, isWhitespace c = true) ∧ ∀ left right, Gap left → Gap right →
        byteLen (before ++ (spelled ['A', 'N', 'D'] left right ++ behind)) ≤ maxQueryBytes →
          MeansSame processor unicode query (before ++ (spelled ['A', 'N', 'D'] left right ++ behind))) ∨
      (IsOperator ['A', 'N', 'D'] gap ∧ ∀ white, Gap white → byteLen (before ++ (white ++ behind)) ≤ maxQueryBytes →
        MeansSame processor unicode query (before ++ (white ++ behind))))

/-- A respelling of a derived source parses to the same expression. -/
theorem meansSame_of_respelled {query : ParsedQuery} {text : Str} {last beyond : Scanner} {token : Token}
    (derives : Derives processor.fields unicode .or 0 false ⟨[], query.source⟩ [query.expression] last)
    (final : last.next unicode = .ok (token, beyond)) (ends : token.kind = .endOfInput)
    (small : query.expression.size ≤ maxQueryNodes) (respelled : Respelled unicode false ⟨[], query.source⟩ ⟨[], text⟩)
    (short : byteLen text ≤ maxQueryBytes) (plain : ∀ c ∈ text, isControl c = false) :
    MeansSame processor unicode query text := by
  obtain ⟨first, middle, read, starts, -⟩ := derives.first
  obtain ⟨expressions, last', derives', same, behind⟩ := derives.respells _ (respelled.heads read (notEnd_of_starts starts))
  obtain ⟨expression, rfl, sameExpression⟩ := unspanneds_singleton same
  have size : expression.size ≤ maxQueryNodes := by
    rw [← expression.size_unspanned, sameExpression, Expr.size_unspanned]
    exact small
  refine ⟨expression, ?_, sameExpression⟩
  cases behind with
  | finish read₁ read' _ ends' => exact parse_of_ends short plain size derives' read' ends'
  | token read₁ read' alike =>
    cases final.symm.trans read₁
    exact parse_of_ends short plain size derives' read' (alike.kind_eq ends (by simp))
  | explicit read₁ starts₁ =>
    cases final.symm.trans read₁
    exact absurd ends (notEnd_of_starts starts₁)
  | implicit between kind =>
    cases final.symm.trans between
    rw [ends] at kind
    cases kind

theorem parse_source {source : Str} {query : ParsedQuery} (parsed : processor.parse unicode source = .ok query) :
    query.source = source := by
  rw [parse] at parsed
  obtain ⟨_, -, same⟩ := bind_eq_ok.mp parsed
  cases same
  rfl

/-- Implicit and explicit conjunction mean the same, and a query is grouped by precedence: between neighbours of a
conjunction that is not inside single quotes, white space may be exchanged for `AND` and `AND` for white space, and
disjunctions join conjunctions of operands. -/
theorem conjunction_spellings {source : Str} {query : ParsedQuery} (parsed : processor.parse unicode source = .ok query) :
    (∀ span members, Expr.Visible (.and span members) query.expression → ∀ first second, [first, second] <:+: members →
      Exchangeable processor unicode query first second) ∧
    (query.expression = .matchAll ⟨0, byteLen source⟩ ∨ Grouped source .disjunction query.expression) := by
  have wellFormed := processor.parse_wellFormed unicode source
  rw [parsed] at wellFormed
  obtain ⟨-, parser, -, wellFormed⟩ := wellFormed
  have whole := parse_source parsed
  subst whole
  obtain ⟨short, plain, blank | ⟨last, token, beyond, derives, final, ends⟩⟩ := ends_of_parse parsed
  · refine ⟨?_, .inl blank⟩
    intro span members visible
    rw [blank] at visible
    cases visible with
    | child member => cases member
  refine ⟨?_, .inr (derives.grouped rfl _ List.mem_cons_self)⟩
  intro span members visible first second adjacent
  have joint : Joint unicode .and false ⟨[], query.source⟩ first second last :=
    derives.joins false query.expression List.mem_cons_self _ visible first second adjacent
  obtain ⟨before, gap, behind, cut, exchange⟩ := joint.respelled final ends
  have outside : (∀ c ∈ before, isControl c = false) ∧ ∀ c ∈ behind, isControl c = false := by
    constructor
    · intro c member
      exact plain c (by rw [cut.source]; simp [member])
    · intro c member
      exact plain c (by rw [cut.source]; simp [member])
  have letters : ∀ c ∈ ['A', 'N', 'D'], isControl c = false :=
    List.forall_mem_cons.mpr ⟨rfl, List.forall_mem_cons.mpr ⟨rfl, List.forall_mem_singleton.mpr rfl⟩⟩
  refine ⟨before, gap, behind, cut, exchange.imp ?_ ?_⟩
  · rintro ⟨nonempty, white, respelled⟩
    refine ⟨nonempty, white, fun left right left_gap right_gap room => ?_⟩
    refine meansSame_of_respelled derives final ends wellFormed.small (respelled left right left_gap right_gap) room ?_
    simp only [spelled, List.forall_mem_append]
    exact ⟨outside.1, ⟨left_gap.plain, letters, right_gap.plain⟩, outside.2⟩
  · rintro ⟨operator, respelled⟩
    refine ⟨operator, fun gap isGap room => ?_⟩
    refine meansSame_of_respelled derives final ends wellFormed.small (respelled gap isGap) room ?_
    simp only [List.forall_mem_append]
    exact ⟨outside.1, isGap.plain, outside.2⟩

/-- A conjunction of two operands. -/
def isPair : Except Halt ParsedQuery → Bool
  | .ok ⟨_, .and _ [_, _]⟩ => true
  | _ => false

/-- The neighbours of the conjunction in `a -(b's OR c)`. -/
theorem conjunction_spellings_negatedGroup :
    ∃ query span first second, titles.parse Unicode.korean negatedGroup = .ok query ∧
      query.expression = .and span [first, second] ∧ Exchangeable titles Unicode.korean query first second ∧
      Grouped negatedGroup .disjunction query.expression := by
  have shape : isPair (titles.parse Unicode.korean negatedGroup) = true := by decide +kernel
  unfold isPair at shape
  split at shape
  · next source span first second parsed =>
    obtain ⟨exchange, grouped⟩ := conjunction_spellings parsed
    exact ⟨_, span, first, second, parsed, rfl, exchange span _ (.self _) first second ⟨[], [], rfl⟩,
      grouped.resolve_left (by simp)⟩
  · cases shape

/-- Two words in single quotes, with white space from where the first one may stop to where the second one may start. -/
def quotesPair (stop start : ℕ) : Except Halt ParsedQuery → Bool
  | .ok ⟨_, .group _ .singleQuotes (.and _ [.term left _, .term right _])⟩ => decide (stop = left.stop ∧ start = right.start)
  | _ => false

/-- Three words in single quotes, in a query with this source. -/
def quotesTriple (text : Str) : Except Halt ParsedQuery → Bool
  | .ok ⟨source, .group _ .singleQuotes (.and _ [_, _, _])⟩ => decide (source = text)
  | _ => false

/-- White space in single quotes means a conjunction, and `AND` there is a word. -/
theorem quoted_conjunction :
    ∃ query outer span first second expression, titles.parse Unicode.korean "'a b'".toList = .ok query ∧
      query.expression = .group outer .singleQuotes (.and span [first, second]) ∧
      Between "'a b'".toList first second ['\'', 'a'] [' '] ['b', '\''] ∧
      titles.parse Unicode.korean "'a AND b'".toList = .ok ⟨"'a AND b'".toList, expression⟩ ∧
      expression.unspanned ≠ query.expression.unspanned := by
  have pair : quotesPair (byteLen ['\'', 'a']) (byteLen (['\'', 'a'] ++ [' '])) (titles.parse Unicode.korean "'a b'".toList) =
      true := by decide +kernel
  have triple : quotesTriple "'a AND b'".toList (titles.parse Unicode.korean "'a AND b'".toList) = true := by decide +kernel
  unfold quotesPair at pair
  unfold quotesTriple at triple
  split at pair
  · next source outer span left a right b parsed =>
    split at triple
    · next source' outer' span' first second third parsed' =>
      obtain ⟨stop, start⟩ := of_decide_eq_true pair
      obtain rfl := of_decide_eq_true triple
      refine ⟨_, outer, span, _, _, _, parsed, rfl, ⟨rfl, stop, start⟩, parsed', ?_⟩
      simp [Expr.unspanned, unspanneds]
    · cases triple
  · cases pair

end SearchQueryProcessor

end OpenLegal.SearchQuery
