import OpenLegal.SearchQuery.Compositional

/-! # Explicit and implicit conjunction

Two texts are respellings of each other if they have the same tokens, except that between two operands one may have
`AND` where the other has only white space. What is derived from one is derived from the other, up to the spans.
-/

namespace OpenLegal.SearchQuery

open Rust Rust.Str

/-! ## Without spans -/

def noSpan : ByteSpan := ⟨0, 0⟩

def unspannedWords (words : List (Str × ByteSpan)) : List (Str × ByteSpan) := words.map fun (value, _) => (value, noSpan)

def TokenKind.unspanned : TokenKind → TokenKind
  | .words pieces => .words (unspannedWords pieces)
  | kind => kind

mutual

/-- The same expression with no spans. -/
def Expr.unspanned : Expr → Expr
  | .matchAll _ => .matchAll noSpan
  | .term _ value => .term noSpan value
  | .exact _ value => .exact noSpan value
  | .prefixed _ value => .prefixed noSpan value
  | .not _ inner => .not noSpan inner.unspanned
  | .and _ expressions => .and noSpan (unspanneds expressions)
  | .or _ expressions => .or noSpan (unspanneds expressions)
  | .field _ name inner => .field noSpan name inner.unspanned
  | .group _ origin inner => .group noSpan origin inner.unspanned

def unspanneds : List Expr → List Expr
  | [] => []
  | expression :: expressions => expression.unspanned :: unspanneds expressions

end

theorem unspanneds_eq_map (expressions : List Expr) : unspanneds expressions = expressions.map Expr.unspanned := by
  induction expressions with
  | nil => rfl
  | cons expression expressions ih => rw [unspanneds, ih, List.map_cons]

mutual

theorem Expr.size_unspanned (expression : Expr) : expression.unspanned.size = expression.size := by
  cases expression with
  | matchAll | term | exact | prefixed => rfl
  | not _ inner | field _ _ inner | group _ _ inner => rw [Expr.unspanned, Expr.size, Expr.size, inner.size_unspanned]
  | and _ expressions | or _ expressions => rw [Expr.unspanned, Expr.size, Expr.size, sizes_unspanneds expressions]

theorem sizes_unspanneds (expressions : List Expr) : sizes (unspanneds expressions) = sizes expressions := by
  cases expressions with
  | nil => rfl
  | cons expression expressions =>
    rw [unspanneds, sizes, sizes, expression.size_unspanned, sizes_unspanneds expressions]

end

theorem unspanneds_singleton {expression : Expr} {expressions : List Expr} (same : unspanneds expressions = unspanneds [expression]) :
    ∃ expression', expressions = [expression'] ∧ expression'.unspanned = expression.unspanned := by
  rw [unspanneds_eq_map] at same
  obtain ⟨expression', rfl, same⟩ := List.map_eq_singleton_iff.mp same
  exact ⟨expression', rfl, (List.cons.inj same).1⟩

theorem chained_unspanned {build : ByteSpan → List Expr → Expr}
    (erases : ∀ span expressions, (build span expressions).unspanned = build noSpan (unspanneds expressions))
    {first first' : Expr} {others others' : List Expr} (head : first'.unspanned = first.unspanned)
    (tail : unspanneds others' = unspanneds others) :
    (chained build first' others').unspanned = (chained build first others).unspanned := by
  cases others with
  | nil =>
    cases others' with
    | nil => exact head
    | cons => cases tail
  | cons other others =>
    cases others' with
    | nil => cases tail
    | cons other' others' =>
      rw [chained, chained, List.getLast?_cons, List.getLast?_cons]
      have members (first : Expr) (rest : List Expr) : unspanneds (first :: rest) = first.unspanned :: unspanneds rest := rfl
      dsimp only
      rw [erases, erases, members first', members first, head, tail]

theorem unspanneds_wordTerms (words : List (Str × ByteSpan)) :
    unspanneds (wordTerms words) = wordTerms (unspannedWords words) := by
  simp [wordTerms, unspannedWords, unspanneds_eq_map, Expr.unspanned]

theorem wordGroup_unspanned {words words' : List (Str × ByteSpan)} (same : unspannedWords words' = unspannedWords words)
    (span span' : ByteSpan) : (wordGroup words' span').unspanned = (wordGroup words span).unspanned := by
  have terms : unspanneds (wordTerms words') = unspanneds (wordTerms words) := by
    rw [unspanneds_wordTerms, unspanneds_wordTerms, same]
  rw [wordGroup, wordGroup]
  cases shape : wordTerms words with
  | nil =>
    cases shape' : wordTerms words' with
    | nil => rfl
    | cons =>
      rw [shape, shape'] at terms
      cases terms
  | cons first others =>
    cases shape' : wordTerms words' with
    | nil =>
      rw [shape, shape'] at terms
      cases terms
    | cons first' others' =>
      rw [shape, shape'] at terms
      obtain ⟨head, tail⟩ := List.cons.inj terms
      dsimp only
      rw [Expr.unspanned, Expr.unspanned, chained_unspanned (fun _ _ => rfl) head tail]

/-! ## Tokens -/

/-- An operand may end with the token. -/
def TokenKind.endsOperand : TokenKind → Bool
  | .term _ | .exact _ | .words _ | .prefixed _ | .closing => true
  | .field _ | .not | .minus | .opening | .and | .or | .endOfInput => false

theorem TokenKind.startsOperand_unspanned (kind : TokenKind) : kind.unspanned.startsOperand = kind.startsOperand := by
  cases kind <;> rfl

/-- The same kind and text, at two places. -/
structure Alike (token : Token) (after : Scanner) (token' : Token) (after' : Scanner) : Prop where
  kind : token'.kind.unspanned = token.kind.unspanned
  text : get after'.input token'.span.start token'.span.stop = get after.input token.span.start token.span.stop

section Alike

variable {token token' : Token} {after after' : Scanner}

theorem Alike.kind_eq (alike : Alike token after token' after') {kind : TokenKind} (same : token.kind = kind)
    (plain : ∀ pieces, kind ≠ .words pieces) : token'.kind = kind := by
  have erased := alike.kind
  rw [same] at erased
  cases kind with
  | words pieces => exact absurd rfl (plain pieces)
  | _ =>
    cases shape : token'.kind with
    | words =>
      rw [shape] at erased
      cases erased
    | _ => exact (congrArg TokenKind.unspanned shape).symm.trans erased

theorem Alike.words (alike : Alike token after token' after') {words : List (Str × ByteSpan)}
    (same : token.kind = .words words) :
    ∃ words', token'.kind = .words words' ∧ unspannedWords words' = unspannedWords words := by
  have erased := alike.kind
  rw [same] at erased
  cases shape : token'.kind with
  | words words' =>
    rw [shape] at erased
    exact ⟨words', rfl, TokenKind.words.inj erased⟩
  | _ =>
    rw [shape] at erased
    cases erased

theorem Alike.starts (alike : Alike token after token' after') : token'.kind.startsOperand = token.kind.startsOperand := by
  rw [← TokenKind.startsOperand_unspanned, alike.kind, TokenKind.startsOperand_unspanned]

theorem Alike.ne (alike : Alike token after token' after') {kind : TokenKind} (plain : ∀ pieces, kind ≠ .words pieces)
    (other : token.kind ≠ kind) : token'.kind ≠ kind := by
  intro same
  have back : Alike token' after' token after := ⟨alike.kind.symm, alike.text.symm⟩
  exact other (back.kind_eq same plain)

theorem Alike.notShorthand {fields : List Str} (alike : Alike token after token' after')
    (literal : notShorthand fields after.input token.span) : notShorthand fields after'.input token'.span := by
  rw [SearchQuery.notShorthand] at *
  rw [alike.text]
  exact literal

end Alike

/-! ## Respelled texts -/

/-- The same tokens from two positions on, but between two operands either may have `AND` where the other has a gap. The
flag says whether the token before the positions may end an operand. -/
inductive Respelled (unicode : Unicode) : Bool → Scanner → Scanner → Prop where
  | finish {operand s s' token token' after after'} (read : s.next unicode = .ok (token, after))
      (read' : s'.next unicode = .ok (token', after')) (ends : token.kind = .endOfInput)
      (ends' : token'.kind = .endOfInput) : Respelled unicode operand s s'
  | token {operand s s' token token' after after'} (read : s.next unicode = .ok (token, after))
      (read' : s'.next unicode = .ok (token', after')) (alike : Alike token after token' after')
      (gap : token.span.start = s.offset ↔ token'.span.start = s'.offset)
      (rest : Respelled unicode token.kind.endsOperand after after') : Respelled unicode operand s s'
  | explicit {s s' middle token token' conjunction after after'} (read : s.next unicode = .ok (token, after))
      (starts : token.kind.startsOperand = true) (gap : token.span.start ≠ s.offset)
      (between : s'.next unicode = .ok (conjunction, middle)) (kind : conjunction.kind = .and)
      (read' : middle.next unicode = .ok (token', after')) (alike : Alike token after token' after')
      (rest : Respelled unicode token.kind.endsOperand after after') : Respelled unicode true s s'
  | implicit {s s' middle token token' conjunction after after'}
      (between : s.next unicode = .ok (conjunction, middle)) (kind : conjunction.kind = .and)
      (read : middle.next unicode = .ok (token, after)) (starts : token.kind.startsOperand = true)
      (read' : s'.next unicode = .ok (token', after')) (gap : token'.span.start ≠ s'.offset)
      (alike : Alike token after token' after') (rest : Respelled unicode token.kind.endsOperand after after') :
      Respelled unicode true s s'

/-- The same first token, and respelled texts after it. -/
def Heads (unicode : Unicode) (s s' : Scanner) : Prop :=
  ∃ token after token' after', s.next unicode = .ok (token, after) ∧ s'.next unicode = .ok (token', after') ∧
    Alike token after token' after' ∧ Respelled unicode token.kind.endsOperand after after'

section Respelled

variable {unicode : Unicode} {operand : Bool} {s s' after : Scanner} {token : Token}

theorem Heads.read (heads : Heads unicode s s') (read : s.next unicode = .ok (token, after)) :
    ∃ token' after', s'.next unicode = .ok (token', after') ∧ Alike token after token' after' ∧
      Respelled unicode token.kind.endsOperand after after' := by
  obtain ⟨token₁, after₁, token', after', read₁, read', alike, rest⟩ := heads
  cases read.symm.trans read₁
  exact ⟨token', after', read', alike, rest⟩

/-- A token that is not at the joint of two operands is the same. -/
theorem Respelled.read (same : Respelled unicode operand s s') (read : s.next unicode = .ok (token, after))
    (more : token.kind ≠ .endOfInput)
    (plain : operand = false ∨ (token.kind.startsOperand = false ∧ token.kind ≠ .and)) :
    ∃ token' after', s'.next unicode = .ok (token', after') ∧ Alike token after token' after' ∧
      (token.span.start = s.offset ↔ token'.span.start = s'.offset) ∧
      Respelled unicode token.kind.endsOperand after after' := by
  cases same with
  | finish read₁ _ ends =>
    cases read.symm.trans read₁
    exact absurd ends more
  | token read₁ read' alike gap rest =>
    cases read.symm.trans read₁
    exact ⟨_, _, read', alike, gap, rest⟩
  | explicit read₁ starts =>
    cases read.symm.trans read₁
    rw [starts] at plain
    simp at plain
  | implicit between kind =>
    cases read.symm.trans between
    rw [kind] at plain
    simp at plain

theorem Respelled.heads (same : Respelled unicode false s s') (read : s.next unicode = .ok (token, after))
    (more : token.kind ≠ .endOfInput) : Heads unicode s s' := by
  obtain ⟨token', after', read', alike, -, rest⟩ := same.read read more (.inl rfl)
  exact ⟨token, after, token', after', read, read', alike, rest⟩

end Respelled

/-! ## Derivations from respelled texts -/

section Derivations

variable {fields : List Str} {unicode : Unicode}

/-- What is derived from one text is derived from its respellings. -/
def Derives.Respells (fields : List Str) (unicode : Unicode) (rule : Rule) (depth : ℕ) (inField : Bool) (s : Scanner)
    (expressions : List Expr) (after : Scanner) : Prop :=
  match rule with
  | .operand | .and | .or => ∀ s', Heads unicode s s' → ∃ expressions' after',
      Derives fields unicode rule depth inField s' expressions' after' ∧ unspanneds expressions' = unspanneds expressions ∧
        Respelled unicode true after after'
  | .andRest stop => ∀ s', stop = s.offset → Respelled unicode true s s' → ∃ expressions' after',
      Derives fields unicode (.andRest s'.offset) depth inField s' expressions' after' ∧
        unspanneds expressions' = unspanneds expressions ∧ Respelled unicode true after after'
  | .orRest => ∀ s', Respelled unicode true s s' → ∃ expressions' after',
      Derives fields unicode rule depth inField s' expressions' after' ∧ unspanneds expressions' = unspanneds expressions ∧
        Respelled unicode true after after'

theorem Derives.stop_eq {rule : Rule} {depth : ℕ} {inField : Bool} {s after : Scanner} {expression : Expr}
    (derives : Derives fields unicode rule depth inField s [expression] after) (single : rule.Located = Stands) :
    expression.span.stop = after.offset := by
  have located := derives.located
  rw [single] at located
  exact congrArg ByteSpan.stop located.single

/-- A member of a conjunction and the further ones. -/
theorem and_member_respells {depth : ℕ} {inField : Bool} {s s' last after : Scanner} {next : Expr} {others : List Expr}
    (head : Derives fields unicode .operand depth inField s [next] last)
    (ihHead : Derives.Respells fields unicode .operand depth inField s [next] last)
    (ihRest : Derives.Respells fields unicode (.andRest next.span.stop) depth inField last others after)
    (heads : Heads unicode s s') :
    ∃ next' others' last' after', Derives fields unicode .operand depth inField s' [next'] last' ∧
      Derives fields unicode (.andRest next'.span.stop) depth inField last' others' after' ∧
      next'.unspanned = next.unspanned ∧ unspanneds others' = unspanneds others ∧ Respelled unicode true after after' := by
  obtain ⟨expressions, last', head', sameHead, middle⟩ := ihHead s' heads
  obtain ⟨next', rfl, sameNext⟩ := unspanneds_singleton sameHead
  obtain ⟨others', after', rest', sameRest, rest⟩ := ihRest last' (head.stop_eq rfl) middle
  refine ⟨next', others', last', after', head', ?_, sameNext, sameRest, rest⟩
  rw [head'.stop_eq rfl]
  exact rest'

theorem or_member_respells {depth : ℕ} {inField : Bool} {s s' last after : Scanner} {next : Expr} {others : List Expr}
    (ihHead : Derives.Respells fields unicode .and depth inField s [next] last)
    (ihRest : Derives.Respells fields unicode .orRest depth inField last others after) (heads : Heads unicode s s') :
    ∃ next' others' last' after', Derives fields unicode .and depth inField s' [next'] last' ∧
      Derives fields unicode .orRest depth inField last' others' after' ∧
      next'.unspanned = next.unspanned ∧ unspanneds others' = unspanneds others ∧ Respelled unicode true after after' := by
  obtain ⟨expressions, last', head', sameHead, middle⟩ := ihHead s' heads
  obtain ⟨next', rfl, sameNext⟩ := unspanneds_singleton sameHead
  obtain ⟨others', after', rest', sameRest, rest⟩ := ihRest last' middle
  exact ⟨next', others', last', after', head', rest', sameNext, sameRest, rest⟩

theorem Derives.respells {rule : Rule} {depth : ℕ} {inField : Bool} {s after : Scanner} {expressions : List Expr}
    (derives : Derives fields unicode rule depth inField s expressions after) :
    Derives.Respells fields unicode rule depth inField s expressions after := by
  induction derives with
  | term read kind literal =>
    intro s' heads
    obtain ⟨token', after', read', alike, rest⟩ := heads.read read
    rw [kind] at rest
    exact ⟨_, after', .term read' (alike.kind_eq kind (by simp)) (alike.notShorthand literal), rfl, rest⟩
  | prefixed read kind literal =>
    intro s' heads
    obtain ⟨token', after', read', alike, rest⟩ := heads.read read
    rw [kind] at rest
    exact ⟨_, after', .prefixed read' (alike.kind_eq kind (by simp)) (alike.notShorthand literal), rfl, rest⟩
  | exact read kind =>
    intro s' heads
    obtain ⟨token', after', read', alike, rest⟩ := heads.read read
    rw [kind] at rest
    exact ⟨_, after', .exact read' (alike.kind_eq kind (by simp)), rfl, rest⟩
  | words read kind shallow =>
    intro s' heads
    obtain ⟨token', after', read', alike, rest⟩ := heads.read read
    obtain ⟨words', kind', same⟩ := alike.words kind
    rw [kind] at rest
    refine ⟨_, after', .words read' kind' shallow, ?_, rest⟩
    rw [unspanneds, unspanneds, wordGroup_unspanned same]
    rfl
  | @not depth inField s middle after token inner read kind shallow operand ih =>
    intro s' heads
    obtain ⟨token', middle', read', alike, rest⟩ := heads.read read
    obtain ⟨first, beyond, peeked, starts, -⟩ := operand.first
    have closed : token.kind.endsOperand = false := by rcases kind with kind | kind <;> rw [kind] <;> rfl
    have kind' : token'.kind = .not ∨ token'.kind = .minus :=
      kind.imp (fun kind => alike.kind_eq kind (by simp)) (fun kind => alike.kind_eq kind (by simp))
    rw [closed] at rest
    obtain ⟨expressions, after', operand', same, after⟩ := ih middle' (rest.heads peeked (by rintro ends; rw [ends] at starts; cases starts))
    obtain ⟨inner', rfl, sameInner⟩ := unspanneds_singleton same
    refine ⟨_, after', .not read' kind' shallow operand', ?_, after⟩
    simp only [unspanneds, Expr.unspanned, sameInner]
  | @field depth s middle after beyond token next name inner read kind known shallow peeked adjacent starts operand ih =>
    intro s' heads
    obtain ⟨token', middle', read', alike, rest⟩ := heads.read read
    rw [kind] at rest
    have more : next.kind ≠ .endOfInput := by
      intro ends
      rw [ends] at starts
      cases starts
    obtain ⟨next', beyond', peeked', alikeNext, gap, -⟩ := rest.read peeked more (.inl rfl)
    obtain ⟨expressions, after', operand', same, after⟩ := ih middle' (rest.heads peeked more)
    obtain ⟨inner', rfl, sameInner⟩ := unspanneds_singleton same
    have adjacent' : next'.span.start = token'.span.stop := by
      rw [(Scanner.next_reads rfl read).span] at adjacent
      rw [(Scanner.next_reads rfl read').span]
      exact gap.mp adjacent
    refine ⟨_, after', .field read' (alike.kind_eq kind (by simp)) known shallow peeked' adjacent'
      (alikeNext.starts.trans starts) operand', ?_, after⟩
    simp only [unspanneds, Expr.unspanned, sameInner]
  | @parentheses depth inField s middle last after beyond token next close inner read kind shallow peeked nonempty body
      closed closing ih =>
    intro s' heads
    obtain ⟨token', middle', read', alike, rest⟩ := heads.read read
    rw [kind] at rest
    obtain ⟨first, beyond, peeked₁, starts, -⟩ := body.first
    cases peeked.symm.trans peeked₁
    have more : next.kind ≠ .endOfInput := by
      intro ends
      rw [ends] at starts
      cases starts
    obtain ⟨next', beyond', peeked', alikeNext, -, -⟩ := rest.read peeked more (.inl rfl)
    obtain ⟨expressions, last', body', same, behind⟩ := ih middle' (rest.heads peeked more)
    obtain ⟨inner', rfl, sameInner⟩ := unspanneds_singleton same
    obtain ⟨close', after', closed', alikeClose, -, after⟩ := behind.read closed (by rw [closing]; simp)
      (.inr ⟨by rw [closing]; rfl, by rw [closing]; simp⟩)
    rw [closing] at after
    refine ⟨_, after', .parentheses read' (alike.kind_eq kind (by simp)) shallow peeked' (alikeNext.ne (by simp) nonempty)
      body' closed' (alikeClose.kind_eq closing (by simp)), ?_, after⟩
    simp only [unspanneds, Expr.unspanned, sameInner]
  | and head rest ihHead ihRest =>
    intro s' heads
    obtain ⟨first', others', middle', after', head', rest', sameHead, sameRest, after⟩ :=
      and_member_respells head ihHead ihRest heads
    refine ⟨_, after', .and head' rest', ?_, after⟩
    rw [unspanneds, unspanneds, chained_unspanned (fun _ _ => rfl) sameHead sameRest]
    rfl
  | @andStop stop depth inField s beyond token peeked other ends =>
    intro s' _ same
    cases same with
    | finish read read' kind kind' =>
      exact ⟨[], s', .andStop read' (by simp [kind']) (by rw [kind']; rfl), rfl, .finish read read' kind kind'⟩
    | token read read' alike gap rest =>
      cases peeked.symm.trans read
      exact ⟨[], s', .andStop read' (alike.ne (by simp) other) (alike.starts.trans ends), rfl, .token read read' alike gap rest⟩
    | explicit read starts =>
      cases peeked.symm.trans read
      rw [ends] at starts
      cases starts
    | implicit between kind =>
      cases peeked.symm.trans between
      exact absurd kind other
  | @andExplicit stop depth inField s middle last after token next others read kind head rest ihHead ihRest =>
    intro s' _ same
    obtain ⟨first, beyond, peeked, starts, -⟩ := head.first
    have more : first.kind ≠ .endOfInput := by
      intro ends
      rw [ends] at starts
      cases starts
    cases same with
    | finish read₁ _ ends =>
      cases read.symm.trans read₁
      rw [kind] at ends
      cases ends
    | token read₁ read' alike gap behind =>
      cases read.symm.trans read₁
      rw [kind] at behind
      obtain ⟨next', others', last', after', head', rest', sameHead, sameRest, after⟩ :=
        and_member_respells head ihHead ihRest (behind.heads peeked more)
      refine ⟨_, after', .andExplicit read' (alike.kind_eq kind (by simp)) head' rest', ?_, after⟩
      simp only [unspanneds, sameHead, sameRest]
    | explicit read₁ starts₁ =>
      cases read.symm.trans read₁
      rw [kind] at starts₁
      cases starts₁
    | implicit between _ read₁ starts₁ read' gap alike behind =>
      cases read.symm.trans between
      obtain ⟨next', others', last', after', head', rest', sameHead, sameRest, after⟩ :=
        and_member_respells head ihHead ihRest ⟨_, _, _, _, read₁, read', alike, behind⟩
      refine ⟨_, after', .andImplicit read' (alike.starts.trans starts₁) gap head' rest', ?_, after⟩
      simp only [unspanneds, sameHead, sameRest]
  | @andImplicit stop depth inField s beyond last after token next others peeked starts separated head rest ihHead ihRest =>
    intro s' here same
    cases same with
    | finish read₁ _ ends =>
      cases peeked.symm.trans read₁
      rw [ends] at starts
      cases starts
    | token read₁ read' alike gap behind =>
      cases peeked.symm.trans read₁
      obtain ⟨next', others', last', after', head', rest', sameHead, sameRest, after⟩ :=
        and_member_respells head ihHead ihRest ⟨_, _, _, _, read₁, read', alike, behind⟩
      have separated' : token.span.start ≠ s.offset := here ▸ separated
      refine ⟨_, after', .andImplicit read' (alike.starts.trans starts) (fun glued => separated' (gap.mpr glued)) head' rest', ?_,
        after⟩
      simp only [unspanneds, sameHead, sameRest]
    | explicit read₁ _ _ between kind read' alike behind =>
      cases peeked.symm.trans read₁
      obtain ⟨next', others', last', after', head', rest', sameHead, sameRest, after⟩ :=
        and_member_respells head ihHead ihRest ⟨_, _, _, _, read₁, read', alike, behind⟩
      refine ⟨_, after', .andExplicit between kind head' rest', ?_, after⟩
      simp only [unspanneds, sameHead, sameRest]
    | implicit between kind =>
      cases peeked.symm.trans between
      rw [kind] at starts
      cases starts
  | or head rest ihHead ihRest =>
    intro s' heads
    obtain ⟨first', others', middle', after', head', rest', sameHead, sameRest, after⟩ :=
      or_member_respells ihHead ihRest heads
    refine ⟨_, after', .or head' rest', ?_, after⟩
    rw [unspanneds, unspanneds, chained_unspanned (fun _ _ => rfl) sameHead sameRest]
    rfl
  | @orStop depth inField s beyond token peeked other =>
    intro s' same
    refine ⟨[], s', ?_, rfl, same⟩
    cases same with
    | finish _ read' _ kind' => exact .orStop read' (by simp [kind'])
    | token read read' alike =>
      cases peeked.symm.trans read
      exact .orStop read' (alike.ne (by simp) other)
    | explicit _ _ _ between kind => exact .orStop between (by simp [kind])
    | implicit _ _ _ starts read' _ alike =>
      refine .orStop read' fun kind' => ?_
      rw [← alike.starts, kind'] at starts
      cases starts
  | @orMore depth inField s middle last after token next others read kind head rest ihHead ihRest =>
    intro s' same
    obtain ⟨first, beyond, peeked, starts, -⟩ := head.first
    obtain ⟨token', middle', read', alike, -, behind⟩ := same.read read (by rw [kind]; simp)
      (.inr ⟨by rw [kind]; rfl, by rw [kind]; simp⟩)
    rw [kind] at behind
    obtain ⟨next', others', last', after', head', rest', sameHead, sameRest, after⟩ :=
      or_member_respells ihHead ihRest (behind.heads peeked (by rintro ends; rw [ends] at starts; cases starts))
    refine ⟨_, after', .orMore read' (alike.kind_eq kind (by simp)) head' rest', ?_, after⟩
    simp only [unspanneds, sameHead, sameRest]

end Derivations

end OpenLegal.SearchQuery
