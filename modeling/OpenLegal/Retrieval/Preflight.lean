import OpenLegal.Retrieval.Processors
import OpenLegal.Theory.JsonText

/-! # The limits of a payload before it is decoded

The scan reads bytes and knows nothing of tokens. On a JSON text it does what a check of the tokens does, so it decides
limits on nesting, members and strings. Its string counter also counts the closing quote, so the longest body that
`record` takes does not get past it.
-/

namespace OpenLegal.Retrieval.Normalization

open Rust Legal Theory Theory.JsonText

/-- The limits that the scan is there for. -/
def documentLimits : Limits := ⟨32, 1000, maxStringBytes⟩

/-- The limits that the scan enforces. -/
def scanLimits : Limits := ⟨32, 1000, maxStringBytes - 1⟩

/-- A scan outside a string ends with a stack and a budget, or a limit was exceeded. What the string counter shows then
does not matter. -/
def EndsWith (budget : WorkBudget) : Option (List ℕ) → Except RetrievalError Scan → Prop
  | some stack, outcome => ∃ length, outcome = .ok ⟨stack, false, false, length, budget⟩
  | none, outcome => outcome = .error .resourceLimit

/-- Bytes read outside a string change the stack to a result, or exceed a limit. -/
def Reads (bytes : Bytes) (stack : List ℕ) (result : Option (List ℕ)) : Prop :=
  ∀ length (budget : WorkBudget), bytes.length ≤ budget.remaining →
    EndsWith ⟨budget.remaining - bytes.length⟩ result (bytes.foldlM scanByte ⟨stack, false, false, length, budget⟩)

theorem WorkBudget.spend_one {budget : WorkBudget} (enough : 1 ≤ budget.remaining) :
    budget.spend 1 = .ok ⟨budget.remaining - 1⟩ := by
  simp only [WorkBudget.spend, checkedSub, if_pos enough]

variable {bytes more : Bytes} {stack : List ℕ} {length : ℕ} {budget : WorkBudget}

theorem Reads.append {middle : List ℕ} {result : Option (List ℕ)} (front : Reads bytes stack (some middle))
    (rear : Reads more middle result) : Reads (bytes ++ more) stack result := by
  intro length budget enough
  rw [List.length_append] at enough
  obtain ⟨counted, read⟩ := front length budget (by omega)
  rw [List.foldlM_append, read, List.length_append, ← Nat.sub_sub]
  exact rear counted ⟨budget.remaining - bytes.length⟩ (by dsimp only; omega)

theorem Reads.append_none (front : Reads bytes stack none) : Reads (bytes ++ more) stack none := by
  intro length budget enough
  rw [List.length_append] at enough
  have read : bytes.foldlM scanByte ⟨stack, false, false, length, budget⟩ = .error .resourceLimit :=
    front length budget (by omega)
  rw [List.foldlM_append, read]
  rfl

theorem scanByte_inert {b : UInt8} (inert : b ∉ structural) (enough : 1 ≤ budget.remaining) :
    scanByte ⟨stack, false, false, length, budget⟩ b = .ok ⟨stack, false, false, length, ⟨budget.remaining - 1⟩⟩ := by
  simp only [structural, List.mem_cons, List.not_mem_nil, or_false, not_or] at inert
  simp [scanByte, WorkBudget.spend_one enough, inert, bind, Except.bind]

theorem reads_inert (inert : ∀ b ∈ bytes, b ∉ structural) (stack : List ℕ) : Reads bytes stack (some stack) := by
  induction bytes with
  | nil => exact fun length budget _ => ⟨length, rfl⟩
  | cons b bytes ih =>
    obtain ⟨first, inert⟩ := List.forall_mem_cons.mp inert
    have one : Reads [b] stack (some stack) := by
      intro length budget enough
      refine ⟨length, ?_⟩
      rw [List.foldlM_cons, scanByte_inert first enough]
      rfl
    exact one.append (ih inert)

/-! ## Strings -/

theorem backslash_ne_quote : '\\'.toUInt8 ≠ '"'.toUInt8 := by decide

theorem scanByte_string {b : UInt8} {escaped : Bool} (enough : 1 ≤ budget.remaining) :
    scanByte ⟨stack, true, escaped, length, budget⟩ b =
      if length + 1 > maxStringBytes then .error .resourceLimit
      else .ok ⟨stack, escaped || b ≠ '"'.toUInt8, !escaped && b = '\\'.toUInt8, length + 1, ⟨budget.remaining - 1⟩⟩ := by
  simp only [scanByte, WorkBudget.spend_one enough, bind, Except.bind, if_true]
  by_cases long : length + 1 > maxStringBytes
  · rw [if_pos long, if_pos long]
  rw [if_neg long, if_neg long]
  cases escaped with
  | true => simp
  | false =>
    by_cases backslash : b = '\\'.toUInt8
    · subst backslash
      simp
      decide
    · by_cases quote : b = '"'.toUInt8
      · simp [quote, (backslash_ne_quote).symm]
      · simp [backslash, quote]

/-- Bytes that leave a scan in the string it is in, as long as the string is not too long. -/
def StaysInside (text : Bytes) : Prop :=
  ∀ stack length (budget : WorkBudget), length ≤ maxStringBytes → text.length ≤ budget.remaining →
    text.foldlM scanByte ⟨stack, true, false, length, budget⟩ =
      if length + text.length ≤ maxStringBytes then
        .ok ⟨stack, true, false, length + text.length, ⟨budget.remaining - text.length⟩⟩
      else .error .resourceLimit

theorem staysInside_nil : StaysInside [] := by
  intro stack length budget short _
  exact (if_pos short).symm

theorem StaysInside.plain {b : UInt8} {text : Bytes} (quote : b ≠ '"'.toUInt8) (backslash : b ≠ '\\'.toUInt8)
    (inside : StaysInside text) : StaysInside (b :: text) := by
  intro stack length budget short enough
  rw [List.length_cons] at enough ⊢
  rw [List.foldlM_cons, scanByte_string (by omega)]
  by_cases long : length + 1 > maxStringBytes
  · rw [if_pos long, if_neg (by omega)]
    rfl
  · have rest := inside stack (length + 1) ⟨budget.remaining - 1⟩ (by omega) (by dsimp only; omega)
    simp only [Nat.sub_sub, Nat.add_assoc, Nat.add_comm 1] at rest
    rw [if_neg long]
    simpa [quote, backslash, bind, Except.bind] using rest

theorem StaysInside.escaped {text : Bytes} (b : UInt8) (inside : StaysInside text) :
    StaysInside ('\\'.toUInt8 :: b :: text) := by
  intro stack length budget short enough
  simp only [List.length_cons] at enough ⊢
  rw [List.foldlM_cons, scanByte_string (by omega)]
  by_cases long : length + 1 > maxStringBytes
  · rw [if_pos long, if_neg (by omega)]
    rfl
  rw [if_neg long, decide_eq_true backslash_ne_quote, Bool.or_true, decide_eq_true rfl]
  change (b :: text).foldlM scanByte ⟨stack, true, true, length + 1, ⟨budget.remaining - 1⟩⟩ = _
  rw [List.foldlM_cons, scanByte_string (by dsimp only; omega)]
  by_cases longer : length + 1 + 1 > maxStringBytes
  · rw [if_pos longer, if_neg (by omega)]
    rfl
  · have rest := inside stack (length + 2) ⟨budget.remaining - 2⟩ (by omega) (by dsimp only; omega)
    rw [if_neg longer]
    simpa [Nat.sub_sub, Nat.add_assoc, Nat.add_comm 2, bind, Except.bind] using rest

theorem staysInside_of_content {text : Bytes} (content : Content text) : StaysInside text := by
  induction content with
  | nil => exact staysInside_nil
  | plain printable quote backslash content ih => exact ih.plain quote backslash
  | escape escapes content ih => exact ih.escaped _
  | @unicode digits rest four hex content ih =>
    apply StaysInside.escaped
    clear four content
    induction digits with
    | nil => exact ih
    | cons digit digits run =>
      obtain ⟨first, hex⟩ := List.forall_mem_cons.mp hex
      exact (run hex).plain first.plain.1 first.plain.2

/-! ## Tokens -/

/-- The quotes of a string are read too, and the closing one is counted. -/
theorem reads_string (text : StringText) (stack : List ℕ) :
    Reads (Token.string text).text stack (check scanLimits stack (.string text)) := by
  intro length budget enough
  simp only [Token.text, List.cons_append, List.length_cons, List.length_append, List.length_nil] at enough ⊢
  have opened : scanByte ⟨stack, false, false, length, budget⟩ '"'.toUInt8 =
      .ok ⟨stack, true, false, 0, ⟨budget.remaining - 1⟩⟩ := by
    simp [scanByte, WorkBudget.spend_one (by omega : 1 ≤ budget.remaining), bind, Except.bind]
  have content := staysInside_of_content text.content stack 0 ⟨budget.remaining - 1⟩ (Nat.zero_le _) (by dsimp only; omega)
  simp only [Nat.zero_add] at content
  rw [List.foldlM_cons, opened]
  change EndsWith _ _ ((text.bytes ++ ['"'.toUInt8]).foldlM scanByte ⟨stack, true, false, 0, ⟨budget.remaining - 1⟩⟩)
  rw [List.foldlM_append, content]
  have positive : 0 < maxStringBytes := by decide
  by_cases short : text.bytes.length ≤ maxStringBytes
  · rw [if_pos short]
    change EndsWith _ _ (List.foldlM scanByte
      ⟨stack, true, false, text.bytes.length, ⟨budget.remaining - 1 - text.bytes.length⟩⟩ ['"'.toUInt8])
    rw [List.foldlM_cons, scanByte_string (by dsimp only; omega)]
    by_cases long : text.bytes.length + 1 > maxStringBytes
    · rw [if_pos long, check, if_pos (by dsimp only [scanLimits]; omega)]
      rfl
    · rw [if_neg long, check, if_neg (by dsimp only [scanLimits]; omega)]
      refine ⟨text.bytes.length + 1, ?_⟩
      simp [(backslash_ne_quote).symm, bind, Except.bind, Nat.sub_sub, Nat.add_comm]
  · rw [if_neg short, check, if_pos (by dsimp only [scanLimits]; omega)]
    rfl

theorem reads_one {b : UInt8} {result : Option (List ℕ)}
    (reads : ∀ length (budget : WorkBudget), 1 ≤ budget.remaining →
      EndsWith ⟨budget.remaining - 1⟩ result (scanByte ⟨stack, false, false, length, budget⟩ b)) : Reads [b] stack result := by
  intro length budget enough
  have read := reads length budget enough
  rw [List.foldlM_cons, List.length_singleton]
  revert read
  cases scanByte ⟨stack, false, false, length, budget⟩ b <;> exact id

theorem reads_opening {b : UInt8} (opening : b = '\x7b'.toUInt8 ∨ b = '['.toUInt8) (stack : List ℕ) :
    Reads [b] stack (if stack.length ≥ 32 then none else some (1 :: stack)) := by
  apply reads_one
  intro length budget enough
  have quote : b ≠ '"'.toUInt8 := by rcases opening with rfl | rfl <;> decide
  simp only [scanByte, WorkBudget.spend_one enough, bind, Except.bind, Bool.false_eq_true, if_false, if_neg quote,
    ← Bool.decide_or, decide_eq_true opening, if_true]
  by_cases deep : stack.length ≥ 32
  · rw [if_pos deep, if_pos deep]
    rfl
  · rw [if_neg deep, if_neg deep]
    exact ⟨length, rfl⟩

theorem reads_closing {b : UInt8} (closing : b = '\x7d'.toUInt8 ∨ b = ']'.toUInt8) (stack : List ℕ) :
    Reads [b] stack (some stack.tail) := by
  apply reads_one
  intro length budget enough
  have quote : b ≠ '"'.toUInt8 := by rcases closing with rfl | rfl <;> decide
  have opening : ¬ (b = '\x7b'.toUInt8 ∨ b = '['.toUInt8) := by rcases closing with rfl | rfl <;> decide
  simp only [scanByte, WorkBudget.spend_one enough, bind, Except.bind, Bool.false_eq_true, if_false, if_neg quote,
    ← Bool.decide_or, decide_eq_false opening, decide_eq_true closing, if_true]
  exact ⟨length, rfl⟩

theorem reads_comma (stack : List ℕ) : Reads [','.toUInt8] stack (check scanLimits stack .comma) := by
  apply reads_one
  intro length budget enough
  have quote : ','.toUInt8 ≠ '"'.toUInt8 := by decide
  have opening : ¬ (','.toUInt8 = '\x7b'.toUInt8 ∨ ','.toUInt8 = '['.toUInt8) := by decide
  have closing : ¬ (','.toUInt8 = '\x7d'.toUInt8 ∨ ','.toUInt8 = ']'.toUInt8) := by decide
  simp only [scanByte, WorkBudget.spend_one enough, bind, Except.bind, Bool.false_eq_true, if_false, if_neg quote,
    ← Bool.decide_or, decide_eq_false opening, decide_eq_false closing, if_true]
  cases stack with
  | nil => exact ⟨length, rfl⟩
  | cons count outer =>
    by_cases many : count + 1 > 1000
    · rw [check, if_pos (show count + 1 > scanLimits.members from many)]
      exact if_pos many
    · rw [check, if_neg (show ¬ count + 1 > scanLimits.members from many)]
      exact ⟨length, if_neg many⟩

theorem reads_colon (stack : List ℕ) : Reads [':'.toUInt8] stack (some stack) := by
  apply reads_one
  intro length budget enough
  have quote : ':'.toUInt8 ≠ '"'.toUInt8 := by decide
  have opening : ¬ (':'.toUInt8 = '\x7b'.toUInt8 ∨ ':'.toUInt8 = '['.toUInt8) := by decide
  have closing : ¬ (':'.toUInt8 = '\x7d'.toUInt8 ∨ ':'.toUInt8 = ']'.toUInt8) := by decide
  have comma : ':'.toUInt8 ≠ ','.toUInt8 := by decide
  simp only [scanByte, WorkBudget.spend_one enough, bind, Except.bind, Bool.false_eq_true, if_false, if_neg quote,
    ← Bool.decide_or, decide_eq_false opening, decide_eq_false closing, if_neg comma]
  exact ⟨length, rfl⟩

theorem reads_token (token : Token) (stack : List ℕ) : Reads token.text stack (check scanLimits stack token) := by
  cases token with
  | scalar text => exact reads_inert text.scalar.inert stack
  | string text => exact reads_string text stack
  | openArray => exact reads_opening (.inr rfl) stack
  | closeArray => exact reads_closing (.inr rfl) stack
  | openObject => exact reads_opening (.inl rfl) stack
  | closeObject => exact reads_closing (.inl rfl) stack
  | comma => exact reads_comma stack
  | colon => exact reads_colon stack

/-- Scanning a text is checking its tokens. -/
theorem reads_tokens {tokens : List Token} (spelled : Spelled tokens bytes) (stack : List ℕ) :
    Reads bytes stack (tokens.foldlM (check scanLimits) stack) := by
  induction spelled generalizing stack with
  | done blanks => exact reads_inert blanks.inert stack
  | @token token tokens blank rest blanks spelled ih =>
    have front := (reads_inert blanks.inert stack).append (reads_token token stack)
    rw [List.foldlM_cons]
    cases read : check scanLimits stack token with
    | none =>
      rw [read] at front
      exact front.append_none
    | some left =>
      rw [read] at front
      exact front.append (ih left)

/-! ## Documents -/

theorem preflight_eq {value : JsonText.Value} (spells : value.Spells bytes) (size : bytes.length ≤ maxPayloadBytes)
    (enough : bytes.length ≤ budget.remaining) :
    (Fits scanLimits 0 value → preflight bytes budget = .ok ⟨budget.remaining - bytes.length⟩) ∧
      (¬ Fits scanLimits 0 value → preflight bytes budget = .error .resourceLimit) := by
  have decided : Decides scanLimits 0 value.tokens (Fits scanLimits 0 value) :=
    decides_value (by decide) value (Nat.zero_le _)
  have scanned := reads_tokens spells [] 0 budget enough
  have small : ¬ bytes.length > maxPayloadBytes := Nat.not_lt.mpr size
  constructor
  · intro within
    rw [decided.passes within [] rfl] at scanned
    obtain ⟨length, scanned⟩ := scanned
    rw [preflight, if_neg small, scanned]
    rfl
  · intro breaks
    rw [decided.fails breaks [] rfl] at scanned
    replace scanned : bytes.foldlM scanByte ⟨[], false, false, 0, budget⟩ = .error .resourceLimit := scanned
    rw [preflight, if_neg small, scanned]
    rfl

theorem accepts_iff {value : JsonText.Value} (spells : value.Spells bytes) (size : bytes.length ≤ maxPayloadBytes)
    (enough : bytes.length ≤ budget.remaining) :
    (∃ rest, preflight bytes budget = .ok rest) ↔ Fits scanLimits 0 value := by
  obtain ⟨passes, fails⟩ := preflight_eq spells size enough
  constructor
  · rintro ⟨rest, accepted⟩
    by_contra breaks
    rw [fails breaks] at accepted
    cases accepted
  · exact fun within => ⟨_, passes within⟩

/-- The enforced limits are the intended ones, less the strings of exactly the greatest length. -/
theorem within_scanLimits_iff {value : JsonText.Value} :
    Fits scanLimits 0 value ↔
      Fits documentLimits 0 value ∧ ¬ ∃ text ∈ value.strings, text.bytes.length = maxStringBytes := by
  have positive : 0 < maxStringBytes := by decide
  constructor
  · intro within
    refine ⟨⟨within.nesting, within.sizes, fun text member => ?_⟩, ?_⟩
    · exact (within.strings text member).trans (Nat.sub_le _ _)
    · rintro ⟨text, member, longest⟩
      have short : text.bytes.length ≤ maxStringBytes - 1 := within.strings text member
      omega
  · rintro ⟨within, none_longest⟩
    refine ⟨within.nesting, within.sizes, fun text member => ?_⟩
    have short : text.bytes.length ≤ maxStringBytes := within.strings text member
    have other : text.bytes.length ≠ maxStringBytes := fun longest => none_longest ⟨text, member, longest⟩
    change text.bytes.length ≤ maxStringBytes - 1
    omega

/-- The scan accepts exactly the documents within the intended limits, except that it also rejects those in which some
string has the greatest length. -/
theorem preflight_exact_iff {value : JsonText.Value} (spells : value.Spells bytes) (size : bytes.length ≤ maxPayloadBytes)
    (enough : bytes.length ≤ budget.remaining) :
    ((∃ rest, preflight bytes budget = .ok rest) ↔ Fits documentLimits 0 value) ↔
      ¬ (Fits documentLimits 0 value ∧ ∃ text ∈ value.strings, text.bytes.length = maxStringBytes) := by
  rw [accepts_iff spells size enough, within_scanLimits_iff, and_iff_left_iff_imp, not_and]

theorem content_replicate (n : ℕ) : Content (List.replicate n 'a'.toUInt8) := by
  induction n with
  | zero => exact .nil
  | succ n ih => exact .plain (by decide) (by decide) (by decide) ih

/-- A literal of `n` letters. -/
def letters (n : ℕ) : StringText := ⟨List.replicate n 'a'.toUInt8, content_replicate n⟩

/-- A document that is one string. -/
def lettersText (n : ℕ) : Bytes := (Token.string (letters n)).text

theorem letters_spells (n : ℕ) : (JsonText.Value.string (letters n)).Spells (lettersText n) := by
  have blank : Blank [] := List.forall_mem_nil _
  have spelled : Spelled [.string (letters n)] ([] ++ (Token.string (letters n)).text ++ []) := .token blank (.done blank)
  rw [JsonText.Value.Spells, JsonText.Value.tokens]
  simpa only [List.nil_append, List.append_nil, lettersText] using spelled

theorem letters_length (n : ℕ) : (letters n).bytes.length = n := List.length_replicate

theorem lettersText_length (n : ℕ) : (lettersText n).length = n + 2 := by
  rw [lettersText, Token.text, List.length_append, List.length_cons, letters_length, List.length_singleton]

theorem letters_within (n : ℕ) (limits : Limits) : Fits limits 0 (.string (letters n)) ↔ n ≤ limits.string := by
  constructor
  · intro within
    have short := within.strings (letters n) (by rw [JsonText.Value.strings]; exact List.mem_singleton_self _)
    rwa [letters_length] at short
  · intro short
    refine ⟨?_, ?_, ?_⟩
    · simp [JsonText.Value.nesting]
    · simp [JsonText.Value.sizes]
    · rw [JsonText.Value.strings, List.forall_mem_singleton, letters_length]
      exact short

/-- Tokens with one blank before each. -/
theorem spelled_spaced (tokens : List Token) : Spelled tokens (tokens.flatMap fun token => [' '.toUInt8] ++ token.text) := by
  have blank : Blank [' '.toUInt8] := List.forall_mem_singleton.mpr List.mem_cons_self
  induction tokens with
  | nil => exact .done (List.forall_mem_nil _)
  | cons token tokens ih => exact .token blank ih

/-- A key with an escaped quote. -/
def escapedKey : StringText where
  bytes := Str.asBytes ['a', '\\', '"', 'b']
  content := .plain (by decide) (by decide) (by decide) (.escape (by decide) (.plain (by decide) (by decide) (by decide) .nil))

/-- A bracket that is escaped by its number, and a line break. -/
def escapedText : StringText where
  bytes := Str.asBytes ['\\', 'u', '0', '0', '5', 'b', '\\', 'n']
  content := @Content.unicode ['0'.toUInt8, '0'.toUInt8, '5'.toUInt8, 'b'.toUInt8] _ rfl
    (by simp only [List.mem_cons, List.not_mem_nil, or_false, forall_eq_or_imp, forall_eq, IsHex, IsDigit]; decide)
    (.escape (by decide) .nil)

/-- `{"a\"b": [{}, "\u005b\n", []], "a\"b": null}`, a key of which stands twice. -/
def nestedValue : JsonText.Value :=
  .object [(escapedKey, .array [.object [], .string escapedText, .array []]), (escapedKey, .scalar ⟨_, .name List.mem_cons_self⟩)]

def nestedText : Bytes := nestedValue.tokens.flatMap fun token => [' '.toUInt8] ++ token.text

/-- Nested containers, two of them empty, and brackets and quotes that are escaped. -/
theorem preflight_exact_iff_nested : (∃ rest, preflight nestedText {} = .ok rest) ∧ Fits documentLimits 0 nestedValue := by
  have short : ∀ text ∈ nestedValue.strings, text.bytes.length ≤ 8 := by
    simp only [nestedValue, JsonText.Value.strings, List.flatMap_cons, List.flatMap_nil, List.append_nil, List.nil_append]
    decide
  have fits : Fits documentLimits 0 nestedValue := by
    refine ⟨?_, ?_, fun text member => (short text member).trans (by decide)⟩
    · simp [nestedValue, JsonText.Value.nesting, documentLimits]
    · simp [nestedValue, JsonText.Value.sizes, documentLimits]
  have size : nestedText.length ≤ maxPayloadBytes := by
    simp only [nestedText, nestedValue, JsonText.Value.tokens, List.map_cons, List.map_nil, separated]
    decide
  refine ⟨((preflight_exact_iff (spelled_spaced nestedValue.tokens) size (size.trans (by decide))).mpr ?_).mpr fits, fits⟩
  rintro ⟨-, text, member, longest⟩
  have bound := short text member
  rw [longest] at bound
  exact absurd bound (by decide)

/-- A string of exactly the greatest length is within the limits but is rejected. -/
theorem preflight_rejects_longest :
    (JsonText.Value.string (letters maxStringBytes)).Spells (lettersText maxStringBytes) ∧
      (lettersText maxStringBytes).length ≤ maxPayloadBytes ∧
      preflight (lettersText maxStringBytes) {} = .error .resourceLimit ∧
      ¬ ((∃ rest, preflight (lettersText maxStringBytes) {} = .ok rest) ↔
        Fits documentLimits 0 (.string (letters maxStringBytes))) := by
  have size : (lettersText maxStringBytes).length ≤ maxPayloadBytes := by
    rw [lettersText_length]
    decide
  have within : Fits documentLimits 0 (.string (letters maxStringBytes)) := (letters_within _ _).mpr le_rfl
  have rejected : preflight (lettersText maxStringBytes) {} = .error .resourceLimit := by
    apply (preflight_eq (letters_spells _) size (size.trans (by decide))).2
    rw [letters_within]
    decide
  refine ⟨letters_spells _, size, rejected, fun same => ?_⟩
  obtain ⟨rest, accepted⟩ := same.mpr within
  rw [rejected] at accepted
  cases accepted

end OpenLegal.Retrieval.Normalization
