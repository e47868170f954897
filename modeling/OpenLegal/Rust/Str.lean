import Mathlib.Data.List.Basic
import Mathlib.Algebra.BigOperators.Group.List.Basic
import Mathlib.Algebra.GroupWithZero.Nat

/-! # Rust strings as sequences of Unicode scalar values

A Rust `str` is a valid UTF-8 byte sequence, hence a list of scalar values together with the byte
width of each of them. Lengths and offsets are byte counts, as in the standard library, while
searching and splitting at one-character patterns act on the scalar values.

`split_inclusive` cuts a text after every separator. The lists of pieces it returns are exactly the
lists satisfying `IsLines`, and a text and its pieces determine each other.
-/

namespace OpenLegal.Rust

/-- The scalar values of a Rust `str`. -/
abbrev Str := List Char

instance : LawfulBEq Str := inferInstance

namespace Str

/-- `str::len`: the length of the UTF-8 encoding. -/
def byteLen (s : Str) : ℕ := (s.map Char.utf8Size).sum

@[simp] theorem byteLen_nil : byteLen [] = 0 := rfl

@[simp] theorem byteLen_cons (c : Char) (s : Str) : byteLen (c :: s) = c.utf8Size + byteLen s := rfl

@[simp] theorem byteLen_append (s t : Str) : byteLen (s ++ t) = byteLen s + byteLen t := by
  simp [byteLen]

theorem length_le_byteLen (s : Str) : s.length ≤ byteLen s := by
  induction s with
  | nil => simp
  | cons c s ih =>
    have := c.utf8Size_pos
    simp only [List.length_cons, byteLen_cons]
    omega

/-- A scalar has at most four bytes. -/
theorem byteLen_le_mul (s : Str) : byteLen s ≤ 4 * s.length := by
  induction s with
  | nil => exact Nat.zero_le _
  | cons c s ih =>
    have small := c.utf8Size_le_four
    rw [byteLen_cons, List.length_cons]
    omega

/-- `str::ends_with` for a one-character pattern. -/
def endsWith (s : Str) (c : Char) : Bool := s.getLast? == some c

@[simp] theorem endsWith_nil (c : Char) : endsWith [] c = false := rfl

@[simp] theorem endsWith_concat (s : Str) (c d : Char) : endsWith (s ++ [d]) c = (d == c) := by
  simp [endsWith]

/-- `str::strip_prefix` for a string pattern. -/
def stripPrefix (pattern : Str) : Str → Option Str := fun s =>
  if pattern.isPrefixOf s then some (s.drop pattern.length) else none

@[simp] theorem stripPrefix_append (pattern rest : Str) : stripPrefix pattern (pattern ++ rest) = some rest := by
  simp [stripPrefix]

theorem stripPrefix_eq_some {pattern s rest : Str} (found : stripPrefix pattern s = some rest) :
    s = pattern ++ rest := by
  simp only [stripPrefix] at found
  split_ifs at found with starts
  obtain ⟨tail, rfl⟩ := List.isPrefixOf_iff_prefix.mp starts
  simpa using found

/-- `str::strip_suffix` for a one-character pattern. -/
def stripSuffix (c : Char) (s : Str) : Option Str :=
  if endsWith s c then some s.dropLast else none

@[simp] theorem stripSuffix_concat (s : Str) (c : Char) : stripSuffix c (s ++ [c]) = some s := by
  simp [stripSuffix]

/-- `str::split_once` for a string pattern: cut at its first occurrence. -/
def splitOnce (pattern : Str) : Str → Option (Str × Str)
  | [] => if pattern.isPrefixOf [] then some ([], []) else none
  | c :: s =>
    match stripPrefix pattern (c :: s) with
    | some rest => some ([], rest)
    | none => (splitOnce pattern s).map fun (before, after) => (c :: before, after)

attribute [grind =] splitOnce

/-- Text without the first character of the pattern is skipped. -/
theorem splitOnce_skip (head : Char) (pattern before rest : Str) (absent : head ∉ before) :
    splitOnce (head :: pattern) (before ++ rest) =
      (splitOnce (head :: pattern) rest).map fun (left, right) => (before ++ left, right) := by
  induction before with
  | nil => simp
  | cons c before ih =>
    have different : head ≠ c := fun same => absent (by simp [same])
    rw [List.cons_append, splitOnce, ih (fun member => absent (by simp [member]))]
    simp [stripPrefix, different, Function.comp_def]

/-- A pattern whose first character does not occur before it is found where it stands. -/
theorem splitOnce_append (head : Char) (pattern before after : Str) (absent : head ∉ before) :
    splitOnce (head :: pattern) (before ++ (head :: pattern) ++ after) = some (before, after) := by
  rw [List.append_assoc, splitOnce_skip head pattern before _ absent]
  simp [splitOnce, stripPrefix]

theorem splitOnce_absent (head : Char) (pattern s : Str) (absent : head ∉ s) :
    splitOnce (head :: pattern) s = none := by
  induction s with
  | nil => rfl
  | cons c s ih =>
    have different : head ≠ c := fun same => absent (by simp [same])
    simp [splitOnce, stripPrefix, different, ih (fun member => absent (by simp [member]))]

/-- `str::splitn` for a one-character pattern: the last of the pieces is the rest. -/
def splitn (sep : Char) : ℕ → Str → List Str
  | 0, _ => []
  | 1, s => [s]
  | n + 2, s =>
    match splitOnce [sep] s with
    | none => [s]
    | some (before, after) => before :: splitn sep (n + 1) after

attribute [grind =] splitn

theorem splitn_append {sep : Char} {before : Str} (absent : sep ∉ before) (n : ℕ) (after : Str) :
    splitn sep (n + 2) (before ++ sep :: after) = before :: splitn sep (n + 1) after := by
  have found := splitOnce_append sep [] before after absent
  simp only [List.append_assoc, List.singleton_append] at found
  rw [splitn, found]

/-- `str::split_inclusive` for a one-character pattern: every piece but possibly the last ends with
the separator, and no piece is empty. -/
def splitInclusive (sep : Char) : Str → List Str
  | [] => []
  | c :: s =>
    if c = sep then [c] :: splitInclusive sep s
    else
      match splitInclusive sep s with
      | [] => [[c]]
      | piece :: pieces => (c :: piece) :: pieces

attribute [grind =] splitInclusive

/-- A piece that ends with the only separator it contains. -/
def Terminated (sep : Char) (line : Str) : Prop := ∃ body, sep ∉ body ∧ line = body ++ [sep]

/-- The shape of a list of lines: all are terminated, except that the last one may lack its separator
and is then not empty. -/
def IsLines (sep : Char) : List Str → Prop
  | [] => True
  | [line] => Terminated sep line ∨ (line ≠ [] ∧ sep ∉ line)
  | line :: next :: rest => Terminated sep line ∧ IsLines sep (next :: rest)

section Lines

variable {sep : Char}

theorem Terminated.endsWith {line : Str} (terminated : Terminated sep line) : endsWith line sep = true := by
  obtain ⟨body, -, rfl⟩ := terminated
  simp

theorem Terminated.ne_nil {line : Str} (terminated : Terminated sep line) : line ≠ [] := by
  obtain ⟨body, -, rfl⟩ := terminated
  simp

@[simp] theorem splitInclusive_flatten (sep : Char) (s : Str) : (splitInclusive sep s).flatten = s := by
  induction s with
  | nil => rfl
  | cons c s ih =>
    simp only [splitInclusive]
    split_ifs with separator
    · simp [ih]
    · cases pieces : splitInclusive sep s with
      | nil =>
        have empty : s = [] := by simpa [pieces] using ih.symm
        simp [empty]
      | cons piece rest => simpa [pieces] using ih

theorem splitInclusive_terminated_append {line : Str} (terminated : Terminated sep line) (rest : Str) :
    splitInclusive sep (line ++ rest) = line :: splitInclusive sep rest := by
  obtain ⟨body, absent, rfl⟩ := terminated
  induction body with
  | nil => simp [splitInclusive]
  | cons c body ih =>
    have different : c ≠ sep := fun same => absent (by simp [same])
    have tail := ih (fun member => absent (by simp [member]))
    simp only [List.cons_append, splitInclusive, different, ↓reduceIte, tail]

theorem splitInclusive_unterminated {line : Str} (absent : sep ∉ line) (nonempty : line ≠ []) :
    splitInclusive sep line = [line] := by
  induction line with
  | nil => exact absurd rfl nonempty
  | cons c line ih =>
    have different : c ≠ sep := fun same => absent (by simp [same])
    cases line with
    | nil => simp [splitInclusive, different]
    | cons d line =>
      have tail := ih (fun member => absent (List.mem_cons_of_mem _ member)) (by simp)
      rw [splitInclusive, if_neg different, tail]

theorem IsLines.tail {line : Str} {lines : List Str} (shape : IsLines sep (line :: lines)) :
    IsLines sep lines := by
  cases lines with
  | nil => trivial
  | cons next rest => exact shape.2

theorem IsLines.of_append_right {front rear : List Str} (shape : IsLines sep (front ++ rear)) :
    IsLines sep rear := by
  induction front with
  | nil => exact shape
  | cons line front ih => exact ih shape.tail

theorem IsLines.ne_nil {lines : List Str} (shape : IsLines sep lines) : ∀ line ∈ lines, line ≠ [] := by
  induction lines with
  | nil => simp
  | cons line lines ih =>
    intro other member
    rcases List.mem_cons.mp member with rfl | member
    · cases lines with
      | nil => exact shape.elim (·.ne_nil) (·.1)
      | cons next rest => exact shape.1.ne_nil
    · exact ih shape.tail other member

/-- Prepending one character to a text extends its first line. -/
private theorem isLines_extend {c : Char} {piece : Str} {pieces : List Str} (different : c ≠ sep)
    (shape : IsLines sep (piece :: pieces)) : IsLines sep ((c :: piece) :: pieces) := by
  have extend : Terminated sep piece → Terminated sep (c :: piece) := by
    rintro ⟨body, absent, rfl⟩
    exact ⟨c :: body, by simp [absent, Ne.symm different], rfl⟩
  cases pieces with
  | nil =>
    rcases shape with terminated | ⟨-, absent⟩
    · exact .inl (extend terminated)
    · exact .inr ⟨by simp, by simp [absent, Ne.symm different]⟩
  | cons next rest => exact ⟨extend shape.1, shape.2⟩

theorem splitInclusive_isLines (s : Str) : IsLines sep (splitInclusive sep s) := by
  induction s with
  | nil => trivial
  | cons c s ih =>
    simp only [splitInclusive]
    split_ifs with separator
    · have terminated : Terminated sep [c] := ⟨[], by simp, by simp [separator]⟩
      cases pieces : splitInclusive sep s with
      | nil => exact .inl terminated
      | cons piece rest => exact ⟨terminated, pieces ▸ ih⟩
    · cases pieces : splitInclusive sep s with
      | nil => exact .inr ⟨by simp, by simpa using fun same => separator same.symm⟩
      | cons piece rest => exact isLines_extend separator (pieces ▸ ih)

/-- A list of lines is recovered from the text it makes up. -/
theorem splitInclusive_of_isLines {lines : List Str} (shape : IsLines sep lines) :
    splitInclusive sep lines.flatten = lines := by
  induction lines with
  | nil => rfl
  | cons line lines ih =>
    cases lines with
    | nil =>
      rcases shape with terminated | ⟨nonempty, absent⟩
      · simpa [splitInclusive] using splitInclusive_terminated_append terminated []
      · simpa using splitInclusive_unterminated absent nonempty
    | cons next rest =>
      rw [List.flatten_cons, splitInclusive_terminated_append shape.1, ih shape.2]

theorem splitInclusive_injective {s t : Str} (same : splitInclusive sep s = splitInclusive sep t) : s = t := by
  rw [← splitInclusive_flatten sep s, same, splitInclusive_flatten]

theorem isLines_of_terminated {lines : List Str} (terminated : ∀ line ∈ lines, Terminated sep line) :
    IsLines sep lines := by
  induction lines with
  | nil => trivial
  | cons line lines ih =>
    have tail := ih (fun other member => terminated other (List.mem_cons_of_mem _ member))
    cases lines with
    | nil => exact .inl (terminated line (by simp))
    | cons next rest => exact ⟨terminated line (by simp), tail⟩

/-- Every line that another one follows is terminated. -/
theorem IsLines.terminated_left {before after : List Str} (shape : IsLines sep (before ++ after))
    (more : after ≠ []) : ∀ line ∈ before, Terminated sep line := by
  induction before with
  | nil => simp
  | cons line before ih =>
    intro other member
    have tail : IsLines sep (before ++ after) := shape.tail
    rcases List.mem_cons.mp member with rfl | member
    · obtain ⟨next, rest, following⟩ := List.exists_cons_of_ne_nil (show before ++ after ≠ [] by simp [more])
      rw [List.cons_append, following] at shape
      exact shape.1
    · exact ih tail other member

/-- Lines after complete lines. -/
theorem isLines_append {done lines : List Str} (terminated : ∀ line ∈ done, Terminated sep line) (shape : IsLines sep lines) :
    IsLines sep (done ++ lines) := by
  induction done with
  | nil => exact shape
  | cons line done ih =>
    have tail := ih fun other member => terminated other (List.mem_cons_of_mem _ member)
    rw [List.cons_append]
    cases more : done ++ lines with
    | nil => exact .inl (terminated line List.mem_cons_self)
    | cons next rest => exact ⟨terminated line List.mem_cons_self, more ▸ tail⟩

theorem IsLines.drop {lines : List Str} (shape : IsLines sep lines) (n : ℕ) :
    IsLines sep (lines.drop n) := by
  rw [← List.take_append_drop n lines] at shape
  exact shape.of_append_right

theorem IsLines.take {lines : List Str} (shape : IsLines sep lines) (n : ℕ) :
    IsLines sep (lines.take n) := by
  by_cases whole : lines.drop n = []
  · have all : lines.take n = lines := by simpa [whole] using List.take_append_drop n lines
    rw [all]
    exact shape
  · rw [← List.take_append_drop n lines] at shape
    exact isLines_of_terminated (shape.terminated_left whole)

/-- The text of terminated lines is empty or ends with the separator. -/
theorem endsWith_flatten_of_terminated {lines : List Str} (terminated : ∀ line ∈ lines, Terminated sep line) :
    lines.flatten = [] ∨ endsWith lines.flatten sep = true := by
  rcases List.eq_nil_or_concat lines with rfl | ⟨init, last, rfl⟩
  · exact .inl rfl
  · obtain ⟨body, -, rfl⟩ := terminated last (by simp)
    right
    rw [List.concat_eq_append, List.flatten_append, List.flatten_singleton, ← List.append_assoc,
      endsWith_concat, beq_self_eq_true]

end Lines

/-- `char::is_ascii_whitespace`: space, tab, LF, form feed and CR. -/
def isAsciiWhitespace (c : Char) : Bool := c == ' ' || c == '\t' || c == '\n' || c == '\x0c' || c == '\r'

/-- `str::split_ascii_whitespace`: the maximal runs of other characters. -/
def splitAsciiWhitespace (s : Str) : List Str := (s.splitOnP isAsciiWhitespace).filter (!·.isEmpty)

/-- A run ends at the first blank behind it. -/
theorem splitAsciiWhitespace_append {token : Str} (nonempty : token ≠ [])
    (visible : ∀ c ∈ token, isAsciiWhitespace c = false) {space : Char} (blank : isAsciiWhitespace space = true)
    (rest : Str) : splitAsciiWhitespace (token ++ space :: rest) = token :: splitAsciiWhitespace rest := by
  rw [splitAsciiWhitespace, List.splitOnP_append_cons_of_forall_mem visible space blank, List.filter_cons,
    List.isEmpty_eq_false_iff.mpr nonempty]
  rfl

/-- Every other character stands in one of the runs. -/
theorem mem_splitAsciiWhitespace {s : Str} {c : Char} (member : c ∈ s) (visible : isAsciiWhitespace c = false) :
    ∃ token ∈ splitAsciiWhitespace s, c ∈ token := by
  have piece : ∃ token ∈ s.splitOnP isAsciiWhitespace, c ∈ token := by
    induction s with
    | nil => cases member
    | cons d s ih =>
      rw [List.splitOnP_cons_eq_if_modifyHead]
      rcases List.mem_cons.mp member with rfl | member
      · obtain ⟨first, rest, pieces⟩ := List.exists_cons_of_ne_nil (List.splitOnP_ne_nil isAsciiWhitespace s)
        exact ⟨c :: first, by simp [visible, pieces], List.mem_cons_self⟩
      · obtain ⟨token, found, inside⟩ := ih member
        split_ifs
        · exact ⟨token, List.mem_cons_of_mem _ found, inside⟩
        · obtain ⟨first, rest, pieces⟩ := List.exists_cons_of_ne_nil (List.splitOnP_ne_nil isAsciiWhitespace s)
          rw [pieces] at found ⊢
          rcases List.mem_cons.mp found with rfl | found
          · exact ⟨d :: token, List.mem_cons_self, List.mem_cons_of_mem _ inside⟩
          · exact ⟨token, List.mem_cons_of_mem _ found, inside⟩
  obtain ⟨token, found, inside⟩ := piece
  refine ⟨token, List.mem_filter.mpr ⟨found, ?_⟩, inside⟩
  cases token with
  | nil => cases inside
  | cons => rfl

/-! ## Decimal numbers -/

/-- The decimal digits `Display` prints for an unsigned integer. -/
def decimal (n : ℕ) : Str := Nat.toDigits 10 n

/-- `str::parse::<usize>`: an optional plus sign and at least one digit, on a 64-bit target. -/
def parseUsize (s : Str) : Option ℕ :=
  let digits := match s with
    | '+' :: rest => rest
    | _ => s
  if digits.isEmpty || !digits.all Char.isDigit then none
  else if Nat.ofDigitChars 10 digits 0 < 2 ^ 64 then some (Nat.ofDigitChars 10 digits 0)
  else none

theorem decimal_ne_nil (n : ℕ) : decimal n ≠ [] := Nat.toDigits_ne_nil

theorem isDigit_of_mem_decimal {n : ℕ} {c : Char} (member : c ∈ decimal n) : c.isDigit = true :=
  Nat.isDigit_of_mem_toDigits (by decide) (by decide) member

theorem not_mem_decimal {n : ℕ} {c : Char} (other : c.isDigit = false) : c ∉ decimal n := by
  intro member
  rw [isDigit_of_mem_decimal member] at other
  cases other

theorem decimal_all_isDigit (n : ℕ) : (decimal n).all Char.isDigit = true :=
  List.all_eq_true.mpr fun _ member => isDigit_of_mem_decimal member

@[simp] theorem parseUsize_decimal {n : ℕ} (bound : n < 2 ^ 64) : parseUsize (decimal n) = some n := by
  have unsigned : (match decimal n with | '+' :: rest => rest | _ => decimal n) = decimal n := by
    split
    · next rest digits => exact absurd (by simp [digits]) (not_mem_decimal (n := n) (c := '+') (by decide))
    · rfl
  have value : Nat.ofDigitChars 10 (decimal n) 0 = n := Nat.ofDigitChars_ten_toDigits
  simpa [parseUsize, unsigned, value, decimal_all_isDigit, decimal_ne_nil] using bound

theorem decimal_injective : Function.Injective decimal := by
  intro first second same
  have value : Nat.ofDigitChars 10 (decimal first) 0 = Nat.ofDigitChars 10 (decimal second) 0 := by rw [same]
  simpa [decimal] using value

/-- Digits are one byte each. -/
theorem byteLen_decimal_le {n digits : ℕ} (positive : 0 < digits) (bound : n < 10 ^ digits) :
    byteLen (decimal n) ≤ digits := by
  have ascii : ∀ c ∈ decimal n, c.utf8Size = 1 := by
    intro c member
    have digit := Char.isDigit_iff_toNat.mp (isDigit_of_mem_decimal member)
    have top : '9'.toNat = 57 := rfl
    have code : c.toNat = c.val.toNat := rfl
    have ascii : (127 : UInt32).toNat = 127 := rfl
    rw [Char.utf8Size_eq_one_iff, UInt32.le_iff_toNat_le]
    omega
  have length : (decimal n).length ≤ digits := (Nat.length_toDigits_le_iff (by decide) positive).mpr bound
  rw [byteLen, List.map_congr_left ascii]
  simpa using length

/-- `str::parse::<i64>`. -/
def parseI64 : Str → Option ℤ
  | '-' :: digits =>
    if digits.isEmpty || !digits.all Char.isDigit then none
    else if Nat.ofDigitChars 10 digits 0 ≤ 2 ^ 63 then some (-Nat.ofDigitChars 10 digits 0)
    else none
  | s => (parseUsize s).bind fun n => if n < 2 ^ 63 then some (n : ℤ) else none

theorem parseI64_decimal {n : ℕ} (bound : n < 2 ^ 63) : parseI64 (decimal n) = some (n : ℤ) := by
  have parsed : parseUsize (decimal n) = some n := parseUsize_decimal (by omega)
  unfold parseI64
  split
  · next digits same => exact absurd (by simp [same]) (not_mem_decimal (n := n) (c := '-') (by decide))
  · rw [parsed, Option.bind_some, if_pos bound]

/-- A parsed number has only digits and an optional plus sign. -/
theorem mem_of_parseUsize {s : Str} {n : ℕ} (parsed : parseUsize s = some n) {c : Char} (member : c ∈ s) :
    c = '+' ∨ c.isDigit = true := by
  simp only [parseUsize] at parsed
  split_ifs at parsed with shape bound
  simp only [Bool.or_eq_true, not_or, Bool.not_eq_true, Bool.not_eq_false', List.all_eq_true] at shape
  have digits := shape.2
  split at digits
  · rcases List.mem_cons.mp member with rfl | member
    · exact .inl rfl
    · exact .inr (digits c member)
  · exact .inr (digits c member)

/-- The parts of a cut and the pattern between them make up the string. -/
theorem splitOnce_eq_some {pattern s before after : Str} (found : splitOnce pattern s = some (before, after)) :
    s = before ++ pattern ++ after := by
  induction s generalizing before with
  | nil =>
    rw [splitOnce] at found
    split_ifs at found with empty
    cases found
    simpa using empty
  | cons c s ih =>
    rw [splitOnce] at found
    split at found
    · next rest stripped =>
      cases found
      simpa using stripPrefix_eq_some stripped
    · obtain ⟨⟨left, right⟩, inner, same⟩ := Option.map_eq_some_iff.mp found
      cases same
      rw [ih inner]
      rfl

/-- More text behind the string does not move the first occurrence. -/
theorem splitOnce_more {pattern s before after : Str} (found : splitOnce pattern s = some (before, after)) (more : Str) :
    splitOnce pattern (s ++ more) = some (before, after ++ more) := by
  induction s generalizing before with
  | nil =>
    rw [splitOnce] at found
    split_ifs at found with empty
    cases found
    obtain rfl : pattern = [] := by simpa using empty
    cases more <;> simp [splitOnce, stripPrefix]
  | cons c s ih =>
    rw [splitOnce] at found
    split at found
    · next rest stripped =>
      cases found
      have begins : stripPrefix pattern (c :: (s ++ more)) = some (after ++ more) := by
        rw [← List.cons_append, stripPrefix_eq_some stripped, List.append_assoc, stripPrefix_append]
      rw [List.cons_append, splitOnce, begins]
    · next absent =>
      obtain ⟨⟨left, right⟩, inner, same⟩ := Option.map_eq_some_iff.mp found
      cases same
      have absent' : stripPrefix pattern (c :: (s ++ more)) = none := by
        simp only [stripPrefix, ite_eq_right_iff, reduceCtorEq, imp_false, List.isPrefixOf_iff_prefix] at absent ⊢
        intro begins
        -- the pattern fits into the string, where it was found further on
        have fits : pattern.length ≤ (c :: s).length := by
          rw [splitOnce_eq_some inner]
          simp only [List.length_cons, List.length_append]
          omega
        exact absent (List.prefix_of_prefix_length_le begins (List.prefix_append (c :: s) more) fits)
      rw [List.cons_append, splitOnce, absent', ih inner]
      rfl

end Str

/-- `char::is_control`: the general category `Cc`. -/
def isControl (c : Char) : Bool := c.val < 0x20 || (0x7f ≤ c.val && c.val ≤ 0x9f)

end OpenLegal.Rust
