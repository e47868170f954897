import Mathlib.Data.List.Basic

/-! # JSON texts

The grammar of JSON over bytes. A text is a row of tokens with blanks between them, and a value has one
row of tokens. Strings are kept as they are spelled. A byte above the ASCII range stands for itself in a
string; how such bytes encode characters does not matter here.
-/

namespace OpenLegal.Theory.JsonText

/-! ## Tokens -/

/-- White space between tokens. -/
def Blank (text : List UInt8) : Prop := ∀ b ∈ text, b ∈ [' '.toUInt8, '\t'.toUInt8, '\n'.toUInt8, '\r'.toUInt8]

/-- The bytes that delimit tokens. -/
def structural : List UInt8 :=
  ['"'.toUInt8, '\x7b'.toUInt8, '\x7d'.toUInt8, '['.toUInt8, ']'.toUInt8, ','.toUInt8, ':'.toUInt8]

def IsDigit (b : UInt8) : Prop := '0'.toUInt8 ≤ b ∧ b ≤ '9'.toUInt8

def IsHex (b : UInt8) : Prop :=
  IsDigit b ∨ ('a'.toUInt8 ≤ b ∧ b ≤ 'f'.toUInt8) ∨ ('A'.toUInt8 ≤ b ∧ b ≤ 'F'.toUInt8)

/-- The whole part of a number has no leading zero. -/
inductive Whole : List UInt8 → Prop where
  | zero : Whole ['0'.toUInt8]
  | digits {first : UInt8} {rest : List UInt8} (nonzero : first ≠ '0'.toUInt8) (digit : IsDigit first)
      (digits : ∀ b ∈ rest, IsDigit b) : Whole (first :: rest)

inductive Fraction : List UInt8 → Prop where
  | absent : Fraction []
  | present {run : List UInt8} (nonempty : run ≠ []) (digits : ∀ b ∈ run, IsDigit b) : Fraction ('.'.toUInt8 :: run)

inductive Exponent : List UInt8 → Prop where
  | absent : Exponent []
  | present {letter : UInt8} {sign run : List UInt8} (letters : letter ∈ ['e'.toUInt8, 'E'.toUInt8])
      (signs : sign ∈ [[], ['+'.toUInt8], ['-'.toUInt8]]) (nonempty : run ≠ []) (digits : ∀ b ∈ run, IsDigit b) :
      Exponent (letter :: sign ++ run)

/-- A literal name or a number. -/
inductive Scalar : List UInt8 → Prop where
  | name {text : List UInt8} (names : text ∈ ["null", "true", "false"].map fun name => name.toList.map Char.toUInt8) :
      Scalar text
  | number {sign whole fraction exponent : List UInt8} (signs : sign ∈ [[], ['-'.toUInt8]]) (whole_part : Whole whole)
      (fraction_part : Fraction fraction) (exponent_part : Exponent exponent) :
      Scalar (sign ++ whole ++ fraction ++ exponent)

/-- What stands between the quotes of a string. -/
inductive Content : List UInt8 → Prop where
  | nil : Content []
  | plain {b : UInt8} {rest : List UInt8} (printable : ' '.toUInt8 ≤ b) (quote : b ≠ '"'.toUInt8)
      (backslash : b ≠ '\\'.toUInt8) (content : Content rest) : Content (b :: rest)
  | escape {b : UInt8} {rest : List UInt8}
      (escapes : b ∈ ['"', '\\', '/', 'b', 'f', 'n', 'r', 't'].map Char.toUInt8) (content : Content rest) :
      Content ('\\'.toUInt8 :: b :: rest)
  | unicode {digits rest : List UInt8} (four : digits.length = 4) (hex : ∀ b ∈ digits, IsHex b)
      (content : Content rest) : Content ('\\'.toUInt8 :: 'u'.toUInt8 :: (digits ++ rest))

/-- The spelling of a literal name or a number. -/
structure ScalarText where
  bytes : List UInt8
  scalar : Scalar bytes

/-- The content of a string literal. -/
structure StringText where
  bytes : List UInt8
  content : Content bytes

inductive Token where
  | scalar (text : ScalarText)
  | string (text : StringText)
  | openArray
  | closeArray
  | openObject
  | closeObject
  | comma
  | colon

def Token.text : Token → List UInt8
  | .scalar text => text.bytes
  | .string text => '"'.toUInt8 :: text.bytes ++ ['"'.toUInt8]
  | .openArray => ['['.toUInt8]
  | .closeArray => [']'.toUInt8]
  | .openObject => ['\x7b'.toUInt8]
  | .closeObject => ['\x7d'.toUInt8]
  | .comma => [','.toUInt8]
  | .colon => [':'.toUInt8]

/-- A text that spells a row of tokens. -/
inductive Spelled : List Token → List UInt8 → Prop where
  | done {blank : List UInt8} (blanks : Blank blank) : Spelled [] blank
  | token {token : Token} {tokens : List Token} {blank rest : List UInt8} (blanks : Blank blank)
      (spelled : Spelled tokens rest) : Spelled (token :: tokens) (blank ++ token.text ++ rest)

theorem IsDigit.inert {b : UInt8} (digit : IsDigit b) : b ∉ structural := by
  simp only [structural, List.mem_cons, List.not_mem_nil, or_false]
  rintro (rfl | rfl | rfl | rfl | rfl | rfl | rfl) <;> exact absurd digit (by unfold IsDigit; decide)

theorem IsHex.plain {b : UInt8} (hex : IsHex b) : b ≠ '"'.toUInt8 ∧ b ≠ '\\'.toUInt8 := by
  constructor <;> rintro rfl <;> exact absurd hex (by unfold IsHex IsDigit; decide)

/-- Whether a byte delimits is decided for each byte of the text, not for each byte there is. -/
theorem inert_of_all {text : List UInt8} (none : (text.all fun b => !structural.contains b) = true) :
    ∀ b ∈ text, b ∉ structural := by
  simpa using none

theorem Whole.inert {text : List UInt8} (whole : Whole text) : ∀ b ∈ text, b ∉ structural := by
  cases whole with
  | zero => exact inert_of_all (by decide)
  | digits nonzero digit digits =>
    exact List.forall_mem_cons.mpr ⟨digit.inert, fun b member => (digits b member).inert⟩

theorem Fraction.inert {text : List UInt8} (fraction : Fraction text) : ∀ b ∈ text, b ∉ structural := by
  cases fraction with
  | absent => simp
  | present nonempty digits =>
    exact List.forall_mem_cons.mpr ⟨by decide, fun b member => (digits b member).inert⟩

theorem Exponent.inert {text : List UInt8} (exponent : Exponent text) : ∀ b ∈ text, b ∉ structural := by
  cases exponent with
  | absent => simp
  | present letters signs nonempty digits =>
    rw [List.cons_append, List.forall_mem_cons, List.forall_mem_append]
    refine ⟨?_, ?_, fun b member => (digits b member).inert⟩
    · revert letters
      simp only [List.mem_cons, List.not_mem_nil, or_false]
      rintro (rfl | rfl) <;> decide
    · revert signs
      simp only [List.mem_cons, List.not_mem_nil, or_false]
      rintro (rfl | rfl | rfl) <;> exact inert_of_all (by decide)

/-- No byte of a literal name or a number delimits anything. -/
theorem Scalar.inert {text : List UInt8} (scalar : Scalar text) : ∀ b ∈ text, b ∉ structural := by
  cases scalar with
  | name names =>
    revert names
    simp only [List.map_cons, List.map_nil, List.mem_cons, List.not_mem_nil, or_false]
    rintro (rfl | rfl | rfl) <;> exact inert_of_all (by decide)
  | number signs whole fraction exponent =>
    simp only [List.forall_mem_append]
    refine ⟨⟨⟨?_, whole.inert⟩, fraction.inert⟩, exponent.inert⟩
    revert signs
    simp only [List.mem_cons, List.not_mem_nil, or_false]
    rintro (rfl | rfl) <;> exact inert_of_all (by decide)

theorem Blank.inert {text : List UInt8} (blank : Blank text) : ∀ b ∈ text, b ∉ structural := by
  intro b member
  have := blank b member
  revert this
  simp only [List.mem_cons, List.not_mem_nil, or_false]
  rintro (rfl | rfl | rfl | rfl) <;> decide

/-! ## Values -/

/-- A value as it is spelled, less the blanks. A key may stand twice in an object. -/
inductive Value where
  | scalar (text : ScalarText)
  | string (text : StringText)
  | array (items : List Value)
  | object (members : List (StringText × Value))

/-- Rows of tokens with a comma between any two. -/
def separated : List (List Token) → List Token
  | [] => []
  | [piece] => piece
  | piece :: pieces => piece ++ .comma :: separated pieces

attribute [grind =] separated

namespace Value

/-- What holds of scalars and strings, and of containers whose values it holds of, holds of every value. -/
theorem induct {P : Value → Prop} (scalar : ∀ text, P (.scalar text)) (string : ∀ text, P (.string text))
    (array : ∀ items, (∀ item ∈ items, P item) → P (.array items))
    (object : ∀ members, (∀ member ∈ members, P member.2) → P (.object members)) (value : Value) : P value :=
  @Value.rec P (fun items => ∀ item ∈ items, P item) (fun members => ∀ member ∈ members, P member.2)
    (fun member => P member.2) scalar string array object (List.forall_mem_nil _)
    (fun _ _ head tail => List.forall_mem_cons.mpr ⟨head, tail⟩) (List.forall_mem_nil _)
    (fun _ _ head tail => List.forall_mem_cons.mpr ⟨head, tail⟩) (fun _ _ inner => inner) value

theorem sizeOf_lt_of_mem {members : List (StringText × Value)} {member : StringText × Value}
    (present : member ∈ members) : sizeOf member.2 < sizeOf (Value.object members) := by
  have := List.sizeOf_lt_of_mem present
  rcases member with ⟨key, value⟩
  simp only [Value.object.sizeOf_spec, Prod.mk.sizeOf_spec] at this ⊢
  omega

/-- The row of tokens of a value. -/
def tokens : Value → List Token
  | .scalar text => [.scalar text]
  | .string text => [.string text]
  | .array items => .openArray :: separated (items.map fun item => item.tokens) ++ [.closeArray]
  | .object members =>
    .openObject :: separated (members.map fun member => .string member.1 :: .colon :: member.2.tokens) ++ [.closeObject]
termination_by value => sizeOf value
decreasing_by
  · decreasing_tactic
  · exact sizeOf_lt_of_mem ‹_›

attribute [grind =] tokens

/-- How many containers stand inside each other. -/
def nesting : Value → ℕ
  | .scalar _ | .string _ => 0
  | .array items => (items.map fun item => item.nesting).foldr max 0 + 1
  | .object members => (members.map fun member => member.2.nesting).foldr max 0 + 1
termination_by value => sizeOf value
decreasing_by
  · decreasing_tactic
  · exact sizeOf_lt_of_mem ‹_›

attribute [grind =] nesting

/-- The number of members of each container. -/
def sizes : Value → List ℕ
  | .scalar _ | .string _ => []
  | .array items => items.length :: items.flatMap fun item => item.sizes
  | .object members => members.length :: members.flatMap fun member => member.2.sizes
termination_by value => sizeOf value
decreasing_by
  · decreasing_tactic
  · exact sizeOf_lt_of_mem ‹_›

attribute [grind =] sizes

/-- The string literals of a value, keys included. -/
def strings : Value → List StringText
  | .scalar _ => []
  | .string text => [text]
  | .array items => items.flatMap fun item => item.strings
  | .object members => members.flatMap fun member => member.1 :: member.2.strings
termination_by value => sizeOf value
decreasing_by
  · decreasing_tactic
  · exact sizeOf_lt_of_mem ‹_›

attribute [grind =] strings

/-- A text that spells a value. -/
def Spells (value : Value) (text : List UInt8) : Prop := Spelled value.tokens text

end Value

/-! ## Limits -/

/-- How deep, how wide and how long the parts of a value may be. -/
structure Limits where
  nesting : ℕ
  members : ℕ
  string : ℕ

/-- A value at a depth of containers keeps the limits. -/
structure Fits (limits : Limits) (depth : ℕ) (value : Value) : Prop where
  nesting : depth + value.nesting ≤ limits.nesting
  sizes : ∀ size ∈ value.sizes, size ≤ limits.members
  strings : ∀ text ∈ value.strings, text.bytes.length ≤ limits.string

/-- A check that reads one token after the other. It keeps a count for each open container, the innermost first:
one more than the commas read in it. -/
def check (limits : Limits) (counts : List ℕ) : Token → Option (List ℕ)
  | .string text => if text.bytes.length > limits.string then none else some counts
  | .openArray | .openObject => if counts.length ≥ limits.nesting then none else some (1 :: counts)
  | .closeArray | .closeObject => some counts.tail
  | .comma =>
    match counts with
    | [] => some []
    | count :: outer => if count + 1 > limits.members then none else some ((count + 1) :: outer)
  | .scalar _ | .colon => some counts

/-- At a depth, a row of tokens passes the check exactly under a condition, and then leaves the counts as they were. -/
structure Decides (limits : Limits) (depth : ℕ) (tokens : List Token) (condition : Prop) : Prop where
  passes : condition → ∀ counts, counts.length = depth → tokens.foldlM (check limits) counts = some counts
  fails : ¬ condition → ∀ counts, counts.length = depth → tokens.foldlM (check limits) counts = none

variable {limits : Limits} {depth : ℕ} {tokens others : List Token} {condition other : Prop}

theorem Decides.of_iff (decides : Decides limits depth tokens condition) (same : condition ↔ other) :
    Decides limits depth tokens other :=
  ⟨decides.passes ∘ same.mpr, fun fails => decides.fails (fails ∘ same.mp)⟩

theorem Decides.append (decides : Decides limits depth tokens condition)
    (rest : Decides limits depth others other) : Decides limits depth (tokens ++ others) (condition ∧ other) := by
  constructor
  · intro holds counts deep
    rw [List.foldlM_append, decides.passes holds.1 counts deep]
    exact rest.passes holds.2 counts deep
  · intro fails counts deep
    rw [List.foldlM_append]
    by_cases first : condition
    · rw [decides.passes first counts deep]
      exact rest.fails (fun second => fails ⟨first, second⟩) counts deep
    · rw [decides.fails first counts deep]
      rfl

theorem decides_string (text : StringText) :
    Decides limits depth [.string text] (text.bytes.length ≤ limits.string) := by
  constructor
  · intro short counts _
    simp [check, Nat.not_lt.mpr short]
  · intro long counts _
    simp [check, Nat.lt_of_not_le long]

theorem decides_colon : Decides limits depth [.colon] True :=
  ⟨fun _ _ _ => rfl, fun fails => (fails trivial).elim⟩

section Containers

variable {α : Type*} {items : List α} {row : α → List Token} {fine : α → Prop}

/-- Members that pass are counted by the commas between them. -/
theorem separated_passes {count : ℕ} {outer : List ℕ}
    (decides : ∀ item ∈ items, Decides limits (outer.length + 1) (row item) (fine item))
    (passes : ∀ item ∈ items, fine item) (few : count + (items.length - 1) ≤ limits.members) :
    (separated (items.map row)).foldlM (check limits) (count :: outer) =
      some ((count + (items.length - 1)) :: outer) := by
  induction items generalizing count with
  | nil => rfl
  | cons item items ih =>
    obtain ⟨here, decides⟩ := List.forall_mem_cons.mp decides
    obtain ⟨first, passes⟩ := List.forall_mem_cons.mp passes
    have read := here.passes first (count :: outer) rfl
    cases items with
    | nil => exact read
    | cons next items =>
      simp only [List.length_cons] at few ih ⊢
      rw [List.map_cons, List.map_cons, separated, List.foldlM_append, read]
      simp only [Option.bind_eq_bind, Option.bind_some, List.foldlM_cons, check, if_neg (by omega : ¬ count + 1 > limits.members)]
      rw [← List.map_cons, ih decides passes (by omega)]
      exact congrArg some (congrArg (· :: outer) (by omega))
      · simp

theorem separated_fails {count : ℕ} {outer : List ℕ} (within : count ≤ limits.members)
    (decides : ∀ item ∈ items, Decides limits (outer.length + 1) (row item) (fine item))
    (fails : ¬ ((∀ item ∈ items, fine item) ∧ count + (items.length - 1) ≤ limits.members)) :
    (separated (items.map row)).foldlM (check limits) (count :: outer) = none := by
  induction items generalizing count with
  | nil => exact (fails ⟨by simp, within⟩).elim
  | cons item items ih =>
    obtain ⟨here, decides⟩ := List.forall_mem_cons.mp decides
    cases items with
    | nil =>
      refine here.fails (fun first => fails ⟨?_, within⟩) (count :: outer) rfl
      simpa using first
    | cons next items =>
      rw [List.map_cons, List.map_cons, separated, List.foldlM_append]
      · by_cases first : fine item
        · rw [here.passes first (count :: outer) rfl]
          simp only [Option.bind_eq_bind, Option.bind_some, List.foldlM_cons, check]
          by_cases many : count + 1 > limits.members
          · rw [if_pos many]
            rfl
          · rw [if_neg many]
            refine ih (by omega) decides fun rest => fails ⟨List.forall_mem_cons.mpr ⟨first, rest.1⟩, ?_⟩
            have := rest.2
            simp only [List.length_cons] at this ⊢
            omega
        · rw [here.fails first (count :: outer) rfl]
          rfl
      · simp

/-- A container passes if there is room for it, its members pass and they are not too many. -/
theorem decides_container {opening closing : Token} (opens : opening ∈ [.openArray, .openObject])
    (closes : closing ∈ [.closeArray, .closeObject]) (some_members : 1 ≤ limits.members)
    (decides : ∀ item ∈ items, depth + 1 ≤ limits.nesting → Decides limits (depth + 1) (row item) (fine item)) :
    Decides limits depth (opening :: separated (items.map row) ++ [closing])
      (depth + 1 ≤ limits.nesting ∧ (∀ item ∈ items, fine item) ∧ items.length ≤ limits.members) := by
  have opened : ∀ counts, check limits counts opening =
      if counts.length ≥ limits.nesting then none else some (1 :: counts) := by
    simp only [List.mem_cons, List.not_mem_nil, or_false] at opens
    rcases opens with rfl | rfl <;> exact fun _ => rfl
  have closed : ∀ counts, check limits counts closing = some counts.tail := by
    simp only [List.mem_cons, List.not_mem_nil, or_false] at closes
    rcases closes with rfl | rfl <;> exact fun _ => rfl
  have counted : 1 + (items.length - 1) ≤ limits.members ↔ items.length ≤ limits.members := by omega
  constructor
  · rintro ⟨room, passes, few⟩ counts rfl
    rw [List.cons_append, List.foldlM_cons, opened, if_neg (by omega)]
    simp only [Option.bind_eq_bind, Option.bind_some, List.foldlM_append]
    rw [separated_passes (fun item member => decides item member room) passes (counted.mpr few)]
    simp [closed]
  · rintro fails counts rfl
    rw [List.cons_append, List.foldlM_cons, opened]
    by_cases room : counts.length + 1 ≤ limits.nesting
    · rw [if_neg (by omega)]
      simp only [Option.bind_eq_bind, Option.bind_some, List.foldlM_append]
      rw [separated_fails some_members (fun item member => decides item member room)
        fun rest => fails ⟨room, rest.1, counted.mp rest.2⟩]
      rfl
    · rw [if_pos (by omega)]
      rfl

end Containers

theorem nesting_le {xs : List ℕ} {bound : ℕ} :
    depth + (xs.foldr max 0 + 1) ≤ bound ↔ depth + 1 ≤ bound ∧ ∀ x ∈ xs, depth + 1 + x ≤ bound := by
  induction xs with
  | nil => simp
  | cons x xs ih =>
    rw [List.foldr_cons, List.forall_mem_cons]
    constructor
    · intro deep
      obtain ⟨room, rest⟩ := ih.mp (by omega)
      exact ⟨room, by omega, rest⟩
    · rintro ⟨room, here, rest⟩
      have := ih.mpr ⟨room, rest⟩
      omega

theorem within_array (items : List Value) :
    depth + 1 ≤ limits.nesting ∧ (∀ item ∈ items, Fits limits (depth + 1) item) ∧ items.length ≤ limits.members ↔
      Fits limits depth (.array items) := by
  constructor
  · rintro ⟨room, inner, few⟩
    refine ⟨?_, ?_, ?_⟩
    · rw [Value.nesting, nesting_le, List.forall_mem_map]
      exact ⟨room, fun item member => (inner item member).nesting⟩
    · rw [Value.sizes, List.forall_mem_cons, List.forall_mem_flatMap]
      exact ⟨few, fun item member => (inner item member).sizes⟩
    · rw [Value.strings, List.forall_mem_flatMap]
      exact fun item member => (inner item member).strings
  · rintro ⟨nesting, sizes, strings⟩
    rw [Value.nesting, nesting_le, List.forall_mem_map] at nesting
    rw [Value.sizes, List.forall_mem_cons, List.forall_mem_flatMap] at sizes
    rw [Value.strings, List.forall_mem_flatMap] at strings
    exact ⟨nesting.1, fun item member => ⟨nesting.2 item member, sizes.2 item member, strings item member⟩, sizes.1⟩

theorem within_object (members : List (StringText × Value)) :
    depth + 1 ≤ limits.nesting ∧
        (∀ member ∈ members, member.1.bytes.length ≤ limits.string ∧ True ∧ Fits limits (depth + 1) member.2) ∧
        members.length ≤ limits.members ↔
      Fits limits depth (.object members) := by
  constructor
  · rintro ⟨room, inner, few⟩
    refine ⟨?_, ?_, ?_⟩
    · rw [Value.nesting, nesting_le, List.forall_mem_map]
      exact ⟨room, fun member present => (inner member present).2.2.nesting⟩
    · rw [Value.sizes, List.forall_mem_cons, List.forall_mem_flatMap]
      exact ⟨few, fun member present => (inner member present).2.2.sizes⟩
    · rw [Value.strings, List.forall_mem_flatMap]
      intro member present
      exact List.forall_mem_cons.mpr ⟨(inner member present).1, (inner member present).2.2.strings⟩
  · rintro ⟨nesting, sizes, strings⟩
    rw [Value.nesting, nesting_le, List.forall_mem_map] at nesting
    rw [Value.sizes, List.forall_mem_cons, List.forall_mem_flatMap] at sizes
    rw [Value.strings, List.forall_mem_flatMap] at strings
    refine ⟨nesting.1, fun member present => ?_, sizes.1⟩
    obtain ⟨key, inner⟩ := List.forall_mem_cons.mp (strings member present)
    exact ⟨key, trivial, nesting.2 member present, sizes.2 member present, inner⟩

/-- Reading the tokens of a value decides whether it keeps the limits. -/
theorem decides_value (some_members : 1 ≤ limits.members) (value : Value) (room : depth ≤ limits.nesting) :
    Decides limits depth value.tokens (Fits limits depth value) := by
  induction value using Value.induct generalizing depth with
  | scalar text =>
    have free : Fits limits depth (.scalar text) :=
      ⟨by simpa [Value.nesting] using room, by simp [Value.sizes], by simp [Value.strings]⟩
    rw [Value.tokens]
    exact ⟨fun _ _ _ => rfl, fun fails => (fails free).elim⟩
  | string text =>
    rw [Value.tokens]
    apply (decides_string text).of_iff
    exact ⟨fun short => ⟨by simpa [Value.nesting] using room, by simp [Value.sizes], by simpa [Value.strings] using short⟩,
      fun within => within.strings text (by simp [Value.strings])⟩
  | array items ih =>
    rw [Value.tokens]
    exact (decides_container (by simp) (by simp) some_members fun item member inside => ih item member inside).of_iff
      (within_array items)
  | object members ih =>
    rw [Value.tokens]
    refine (decides_container (by simp) (by simp) some_members fun member present inside => ?_).of_iff
      (within_object members)
    exact (decides_string member.1).append (decides_colon.append (ih member present inside))

end OpenLegal.Theory.JsonText
