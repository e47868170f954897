import OpenLegal.Rust.Str
import OpenLegal.Theory.Regex

/-! # Patterns of the `regex` crate

The documented syntax that the generated patterns use: letters, escapes, classes with ranges, `.`, groups, alternatives
and the repetitions `?` and `*`. A pattern is read from left to right by a machine with a stack of open groups, so that
what pieces of a pattern mean is composed.
-/

namespace OpenLegal.Rust

open Theory

namespace Pattern

/-- The branches of a group before the last `|`, and the items behind it, last first. -/
structure Group where
  branches : List (Regex Char)
  items : List (Regex Char)

def Group.empty : Group := ⟨[], []⟩

def Group.push (group : Group) (item : Regex Char) : Group := { group with items := item :: group.items }

/-- The last branch. -/
def Group.branch (group : Group) : Regex Char := Regex.sequence group.items.reverse

def Group.regex (group : Group) : Regex Char := group.branches.foldl (fun last branch => .alt branch last) group.branch

/-- What the next character may be. -/
inductive Mode where
  /-- An item, or the repetition of the last one. -/
  | item (repeatable : Bool)
  | escaped
  /-- The `?` and the `:` of a group that captures nothing. -/
  | groupMark
  | groupColon
  | classStart
  | inClass (negated : Bool) (ranges : List (Char × Char))
  | rangeEnd (negated : Bool) (ranges : List (Char × Char)) (low : Char)

structure State where
  mode : Mode
  group : Group
  outer : List Group

def start : State := ⟨.item false, .empty, []⟩

/-- The characters that a backslash makes letters. -/
def metaCharacters : List Char :=
  ['\\', '.', '+', '*', '?', '(', ')', '|', '[', ']', '\x7b', '\x7d', '^', '$', '#', '&', '-', '~']

/-- Those of them that are no letters by themselves. -/
def operators : List Char := ['\\', '.', '+', '*', '?', '(', ')', '|', '[', ']', '\x7b', '\x7d', '^', '$']

def literal (c : Char) : Regex Char := .letter (· == c)

/-- `.`: everything but the end of a line. -/
def dot : Regex Char := .letter (· != '\n')

def inRanges (ranges : List (Char × Char)) (c : Char) : Bool := ranges.any fun (low, high) => low ≤ c && c ≤ high

def classOf (negated : Bool) (ranges : List (Char × Char)) : Regex Char :=
  .letter fun c => if negated then !inRanges ranges c else inRanges ranges c

/-- The last item, repeated. -/
def State.repeatLast (state : State) (f : Regex Char → Regex Char) : Option State :=
  match state.group.items with
  | [] => none
  | item :: items => some { state with mode := .item false, group := { state.group with items := f item :: items } }

def State.push (state : State) (item : Regex Char) : State :=
  { state with mode := .item true, group := state.group.push item }

/-- Between items. -/
def stepItem (state : State) (repeatable : Bool) (c : Char) : Option State :=
  if c = '\\' then some { state with mode := .escaped }
  else if c = '.' then some (state.push dot)
  else if c = '?' then if repeatable then state.repeatLast Regex.optional else none
  else if c = '*' then if repeatable then state.repeatLast .star else none
  else if c = '(' then some { state with mode := .groupMark }
  else if c = '[' then some { state with mode := .classStart }
  else if c = '|' then
    some { state with mode := .item false, group := ⟨state.group.branch :: state.group.branches, []⟩ }
  else if c = ')' then
    match state.outer with
    | [] => none
    | group :: outer => some ⟨.item true, group.push state.group.regex, outer⟩
  else if c ∈ operators then none
  else some (state.push (literal c))

/-- A character of a class, as one or as the first of a range. -/
def stepClass (state : State) (negated : Bool) (ranges : List (Char × Char)) (c : Char) : Option State :=
  if c = ']' then if ranges.isEmpty then none else some (state.push (classOf negated ranges))
  else if c = '-' then
    match ranges with
    | (low, high) :: rest => if low = high then some { state with mode := .rangeEnd negated rest low } else none
    | [] => none
  else if c ∈ metaCharacters then none
  else some { state with mode := .inClass negated ((c, c) :: ranges) }

def step (state : State) (c : Char) : Option State :=
  match state.mode with
  | .item repeatable => stepItem state repeatable c
  | .escaped => if c ∈ metaCharacters then some (state.push (literal c)) else none
  | .groupMark => if c = '?' then some { state with mode := .groupColon } else none
  | .groupColon => if c = ':' then some ⟨.item false, .empty, state.group :: state.outer⟩ else none
  | .classStart =>
    if c = '^' then some { state with mode := .inClass true [] } else stepClass state false [] c
  | .inClass negated ranges => stepClass state negated ranges c
  | .rangeEnd negated ranges low =>
    if c ∈ metaCharacters ∨ c < low then none else some { state with mode := .inClass negated ((low, c) :: ranges) }

def finish (state : State) : Option (Regex Char) :=
  match state.mode, state.outer with
  | .item _, [] => some state.group.regex
  | _, _ => none

/-- The expression of a pattern; none for what is outside this syntax. -/
def parse (pattern : Str) : Option (Regex Char) := (pattern.foldlM step start).bind finish

end Pattern

/-- The engine: whether `^(?:pattern)$` matches a line. It does as documented for patterns of this syntax. -/
structure PatternEngine where
  wholeLine : Str → Str → Bool
  documented : ∀ {pattern : Str} {regex : Regex Char} {line : Str}, Pattern.parse pattern = some regex → '\n' ∉ line →
    (wholeLine pattern line = true ↔ line ∈ regex.language)

/-- An engine that takes derivatives. -/
def PatternEngine.derivatives : PatternEngine where
  wholeLine pattern line := (Pattern.parse pattern).any (·.accepts line)
  documented {pattern regex line} parsed _ := by rw [parsed, Option.any_some, Regex.accepts_iff]

namespace Pattern

example : PatternEngine.derivatives.wholeLine "제5 ?조(?:의[^0-9].*|[^0-9의].*)?".toList "제5조의 뜻".toList = true := by
  decide +kernel

/-! ## Pieces of a pattern -/

/-- A piece adds items to the group that it stands in. -/
def Reads (piece : Str) (items : List (Regex Char)) : Prop := ∀ repeatable group outer, ∃ repeatable',
  piece.foldlM step ⟨.item repeatable, group, outer⟩ =
    some ⟨.item repeatable', ⟨group.branches, items.reverse ++ group.items⟩, outer⟩

/-- A piece adds one item, which may be repeated. -/
def ReadsItem (piece : Str) (item : Regex Char) : Prop := ∀ repeatable group outer,
  piece.foldlM step ⟨.item repeatable, group, outer⟩ = some ⟨.item true, group.push item, outer⟩

theorem Reads.parse {pattern : Str} {items : List (Regex Char)} (reads : Reads pattern items) :
    parse pattern = some (Regex.sequence items) := by
  obtain ⟨repeatable, read⟩ := reads false .empty []
  rw [Pattern.parse, start, read]
  simp [finish, Group.regex, Group.branch, Group.empty]

theorem reads_nil : Reads [] [] := fun repeatable _ _ => ⟨repeatable, rfl⟩

theorem Reads.append {piece piece' : Str} {items items' : List (Regex Char)} (first : Reads piece items)
    (second : Reads piece' items') : Reads (piece ++ piece') (items ++ items') := by
  intro repeatable group outer
  obtain ⟨middle, read⟩ := first repeatable group outer
  obtain ⟨last, read'⟩ := second middle ⟨group.branches, items.reverse ++ group.items⟩ outer
  refine ⟨last, ?_⟩
  rw [List.foldlM_append, read, List.reverse_append, List.append_assoc]
  exact read'

theorem ReadsItem.reads {piece : Str} {item : Regex Char} (reads : ReadsItem piece item) : Reads piece [item] :=
  fun repeatable group outer => ⟨true, reads repeatable group outer⟩

theorem ReadsItem.cons {piece piece' : Str} {item : Regex Char} {items : List (Regex Char)} (first : ReadsItem piece item)
    (second : Reads piece' items) : Reads (piece ++ piece') (item :: items) := first.reads.append second

theorem ReadsItem.optional {piece : Str} {item : Regex Char} (reads : ReadsItem piece item) :
    Reads (piece ++ ['?']) [item.optional] := by
  intro repeatable group outer
  refine ⟨false, ?_⟩
  rw [List.foldlM_append, reads repeatable group outer]
  rfl

theorem ReadsItem.star {piece : Str} {item : Regex Char} (reads : ReadsItem piece item) :
    Reads (piece ++ ['*']) [item.star] := by
  intro repeatable group outer
  refine ⟨false, ?_⟩
  rw [List.foldlM_append, reads repeatable group outer]
  rfl

theorem readsItem_literal {c : Char} (letter : c ∉ operators) : ReadsItem [c] (literal c) := by
  intro repeatable group outer
  simp only [operators, List.mem_cons, List.not_mem_nil, or_false, not_or] at letter
  obtain ⟨a, b, d, e, f, g, h, i, j, k, l, m, n, o⟩ := letter
  simp [step, stepItem, operators, a, b, d, e, f, g, h, i, j, k, l, m, n, o, State.push]

theorem readsItem_escaped {c : Char} (escaped : c ∈ metaCharacters) : ReadsItem ['\\', c] (literal c) := by
  intro repeatable group outer
  simp [step, stepItem, escaped, State.push]

theorem readsItem_dot : ReadsItem ['.'] dot := fun _ _ _ => rfl

theorem reads_dotStar : Reads ['.', '*'] [.star dot] := (readsItem_dot).star

/-- A group of one branch. -/
theorem readsItem_group {inner : Str} {items : List (Regex Char)} (reads : Reads inner items) :
    ReadsItem (['(', '?', ':'] ++ (inner ++ [')'])) (Regex.sequence items) := by
  intro repeatable group outer
  obtain ⟨last, read⟩ := reads false .empty (group :: outer)
  have opened : ['(', '?', ':'].foldlM step ⟨.item repeatable, group, outer⟩ =
      some ⟨.item false, .empty, group :: outer⟩ := rfl
  rw [List.foldlM_append, opened, Option.bind_eq_bind, Option.bind_some, List.foldlM_append, read]
  simp [step, stepItem, Group.empty, Group.regex, Group.branch]

/-- A group of two branches. -/
theorem readsItem_alternatives {first second : Str} {items items' : List (Regex Char)} (left : Reads first items)
    (right : Reads second items') :
    ReadsItem (['(', '?', ':'] ++ (first ++ '|' :: (second ++ [')']))) (.alt (Regex.sequence items) (Regex.sequence items')) := by
  intro repeatable group outer
  obtain ⟨middle, read⟩ := left false .empty (group :: outer)
  obtain ⟨last, read'⟩ := right false ⟨[Regex.sequence items], []⟩ (group :: outer)
  have opened : ['(', '?', ':'].foldlM step ⟨.item repeatable, group, outer⟩ =
      some ⟨.item false, .empty, group :: outer⟩ := rfl
  have barred : step ⟨.item middle, ⟨Group.empty.branches, items.reverse ++ Group.empty.items⟩, group :: outer⟩ '|' =
      some ⟨.item false, ⟨[Regex.sequence items], []⟩, group :: outer⟩ := by
    simp [step, stepItem, Group.empty, Group.branch]
  rw [List.foldlM_append, opened, Option.bind_eq_bind, Option.bind_some, List.foldlM_append, read, Option.bind_eq_bind,
    Option.bind_some, List.foldlM_cons, barred, Option.bind_eq_bind, Option.bind_some, List.foldlM_append, read']
  simp [step, stepItem, Group.regex, Group.branch]

/-- The branches after the first, each behind a bar. -/
def barred (branches : List Str) : Str := branches.flatMap ('|' :: ·)

/-- `c` with a backslash if it is no letter by itself. -/
theorem readsItem_quoted {c : Char} : ReadsItem (if c ∈ metaCharacters then ['\\', c] else [c]) (literal c) := by
  split_ifs with escaped
  · exact readsItem_escaped escaped
  · refine readsItem_literal fun operator => escaped ?_
    exact List.mem_of_mem_take (i := 14) operator

/-! ## What the pieces match -/

theorem mem_literals {text word : Str} {items : List (Regex Char)} :
    word ∈ (Regex.sequence (text.map literal ++ items)).language ↔ ∃ rest ∈ (Regex.sequence items).language, word = text ++ rest := by
  induction text generalizing word with
  | nil => simp
  | cons c text ih =>
    rw [List.map_cons, List.cons_append, Regex.mem_sequence_cons]
    constructor
    · rintro ⟨u, ⟨d, same, rfl⟩, v, inner, rfl⟩
      obtain ⟨rest, member, rfl⟩ := ih.mp inner
      exact ⟨rest, member, by rw [eq_of_beq same]; rfl⟩
    · rintro ⟨rest, member, rfl⟩
      exact ⟨[c], ⟨c, beq_self_eq_true c, rfl⟩, text ++ rest, ih.mpr ⟨rest, member, rfl⟩, rfl⟩

theorem mem_dotStar {word : Str} : word ∈ (Regex.star dot).language ↔ '\n' ∉ word := by
  rw [dot, Regex.mem_star_letter]
  constructor
  · intro all member
    simpa using all _ member
  · intro line a member
    have other : a ≠ '\n' := fun same => line (same ▸ member)
    simpa using other

end Pattern

end OpenLegal.Rust
