import Mathlib.Tactic.IntervalCases
import OpenLegal.Rust.DecimalText

/-! # Kubernetes quantities

The quantity grammar and its round-up to milli-units, on strings of digits. What the parser returns is compared with the
rational number that a quantity spells.
-/

namespace OpenLegal.Document

open Rust Rust.Str

/-- The checks of `u128` arithmetic. -/
def checkedU128 (n : ℕ) : Option ℕ := if n < 2 ^ 128 then some n else none

/-- The digits of a carry before some output. At most `turns` of them. -/
def carryDigits : ℕ → ℕ → Str → Str
  | 0, _, output => output
  | turns + 1, carry, output =>
    if carry = 0 then output else carryDigits turns (carry / 10) (Nat.digitChar (carry % 10) :: output)

/-- One digit of the product, and the carry; the output is built from its end. -/
def multiplyDigit (factor : ℕ) (digit : Char) (state : ℕ × Str) : Option (ℕ × Str) := do
  let product ← checkedU128 ((digit.toNat - 48) * factor)
  let value ← checkedU128 (product + state.1)
  some (value / 10, Nat.digitChar (value % 10) :: state.2)

/-- Decimal digits times a factor, without a machine integer for all of them. -/
def multiplyDecimal (digits : Str) (factor : ℕ) : Option Str := do
  let (carry, output) ← digits.foldr (fun digit state => state.bind (multiplyDigit factor digit)) (some (0, []))
  some (carryDigits carry carry output)

/-- The decimal exponent and the binary power of a suffix. -/
def suffixScale : Str → Option (ℤ × ℕ)
  | ['n'] => some (-9, 0)
  | ['u'] => some (-6, 0)
  | ['m'] => some (-3, 0)
  | [] => some (0, 0)
  | ['k'] => some (3, 0)
  | ['M'] => some (6, 0)
  | ['G'] => some (9, 0)
  | ['T'] => some (12, 0)
  | ['P'] => some (15, 0)
  | ['E'] => some (18, 0)
  | ['K', 'i'] => some (0, 1)
  | ['M', 'i'] => some (0, 2)
  | ['G', 'i'] => some (0, 3)
  | ['T', 'i'] => some (0, 4)
  | ['P', 'i'] => some (0, 5)
  | ['E', 'i'] => some (0, 6)
  | letter :: exponent =>
    if letter = 'e' || letter = 'E' then
      if exponent.isEmpty || exponent == ['+'] || exponent == ['-'] then none
      else (parseSigned 32 exponent).map (·, 0)
    else none

/-- The digits before and after the first point, if there are any. -/
def splitNumber (number : Str) : Option (Str × Str) :=
  match splitOnce ['.'] number with
  | some (integer, fraction) => if !integer.isEmpty || !fraction.isEmpty then some (integer, fraction) else none
  | none => if !number.isEmpty then some (number, []) else none

/-- `i64::MAX` in milli-units. -/
def maxMilli : ℤ := (2 ^ 63 - 1) * 1000

def inRange (milli : ℤ) : Bool := 0 < milli && milli ≤ maxMilli

/-- The checks of `i128` addition. -/
def checkedI128 (n : ℤ) : Option ℤ := if -2 ^ 127 ≤ n ∧ n < 2 ^ 127 then some n else none

/-- Digits shifted by a power of ten, rounded up. -/
def shifted (digits : Str) (shift : ℤ) : Option ℤ :=
  if shift ≥ 0 then
    let zeros := shift.toNat
    if zeros > 40 then none
    else (parseSigned 128 (trimStartMatches '0' (digits ++ List.replicate zeros '0'))).filter inRange
  else
    let divisorDigits := (-shift).toNat
    let cut := digits.length - divisorDigits
    let quotient := trimStartMatches '0' (digits.take cut)
    let remainder := digits.drop cut
    let whole := if quotient.isEmpty then some 0 else parseSigned 128 quotient
    (whole.bind fun whole => checkedI128 (whole + if remainder.any (· != '0') then 1 else 0)).filter inRange

def parseQuantityMilli (raw : Str) : Option ℤ :=
  if raw.isEmpty || byteLen raw > 128 then none
  else do
    let raw := (stripPrefix ['+'] raw).getD raw
    let number := raw.takeWhile fun c => c.isDigit || c == '.'
    let suffix := raw.dropWhile fun c => c.isDigit || c == '.'
    let (integer, fraction) ← splitNumber number
    if !integer.all Char.isDigit || !fraction.all Char.isDigit then none
    else if !(integer ++ fraction).any (· != '0') then none
    else do
      let (scale, binary) ← suffixScale suffix
      let digits ← if binary = 0 then some (integer ++ fraction) else multiplyDecimal (integer ++ fraction) (1024 ^ binary)
      shifted digits (scale + 3 - fraction.length)

attribute [grind =] carryDigits multiplyDigit multiplyDecimal suffixScale splitNumber shifted parseQuantityMilli

example : parseQuantityMilli "+1.25E+3".toList = some 1250000 ∧ parseQuantityMilli "1.5Mi".toList = some 1572864000 ∧
    parseQuantityMilli "1e-9999".toList = some 1 ∧ parseQuantityMilli "9223372036854775808".toList = none := by
  decide +kernel

/-! ## What a quantity spells -/

/-- The suffixes with their decimal exponents and binary powers. -/
inductive Suffix : Str → ℤ → ℕ → Prop where
  | decimal {name : Str} {scale : ℤ} (named : (name, scale) ∈ [(['n'], (-9 : ℤ)), (['u'], -6), (['m'], -3), ([], 0), (['k'], 3),
      (['M'], 6), (['G'], 9), (['T'], 12), (['P'], 15), (['E'], 18)]) : Suffix name scale 0
  | binary {name : Str} {power : ℕ} (named : (name, power) ∈ [(['K', 'i'], 1), (['M', 'i'], 2), (['G', 'i'], 3), (['T', 'i'], 4),
      (['P', 'i'], 5), (['E', 'i'], 6)]) : Suffix name 0 power
  | exponent {letter : Char} {digits : Str} (lettered : letter = 'e' ∨ letter = 'E') (only : Digits digits) (nonempty : digits ≠ [])
      {sign : Str} {scale : ℤ} (signed : (sign = [] ∨ sign = ['+']) ∧ scale = digitsValue digits ∨ sign = ['-'] ∧ scale = -digitsValue digits)
      (fits : -2 ^ 31 ≤ scale ∧ scale < 2 ^ 31) : Suffix (letter :: (sign ++ digits)) scale 0

/-- A text and the number that it spells: an optional plus sign, digits with an optional point, a suffix. -/
inductive Spells : Str → ℚ → Prop where
  | mk {plus integer point fraction suffix : Str} {scale : ℤ} {power : ℕ} (sign : plus = [] ∨ plus = ['+']) (before : Digits integer)
      (after : Digits fraction) (nonempty : integer ++ fraction ≠ []) (pointed : point = ['.'] ∨ point = [] ∧ fraction = [])
      (scaled : Suffix suffix scale power) :
      Spells (plus ++ (integer ++ (point ++ fraction) ++ suffix))
        (digitsValue (integer ++ fraction) / 10 ^ fraction.length * (10 ^ scale * 1024 ^ power))

/-! ## Multiplication -/

theorem digitChar_spec {n : ℕ} (small : n < 10) : (Nat.digitChar n).isDigit = true ∧ (Nat.digitChar n).toNat - 48 = n := by
  interval_cases n <;> exact ⟨rfl, rfl⟩

theorem carryDigits_spec {turns carry : ℕ} {output : Str} (enough : carry ≤ turns) (digits : Digits output) :
    Digits (carryDigits turns carry output) ∧
      digitsValue (carryDigits turns carry output) = carry * 10 ^ output.length + digitsValue output := by
  induction turns generalizing carry output with
  | zero =>
    obtain rfl := Nat.le_zero.mp enough
    exact ⟨digits, by rw [Nat.zero_mul, Nat.zero_add]; rfl⟩
  | succ turns ih =>
    rw [carryDigits]
    split
    · next zero => exact ⟨digits, by rw [zero, Nat.zero_mul, Nat.zero_add]⟩
    · obtain ⟨shape, value⟩ := digitChar_spec (Nat.mod_lt carry (by decide : 0 < 10))
      obtain ⟨only, total⟩ := @ih (carry / 10) (Nat.digitChar (carry % 10) :: output) (by omega)
        (List.forall_mem_cons.mpr ⟨shape, digits⟩)
      refine ⟨only, total.trans ?_⟩
      rw [digitsValue_cons, value, List.length_cons, Nat.pow_succ]
      have parts := Nat.div_add_mod carry 10
      calc carry / 10 * (10 ^ output.length * 10) + (carry % 10 * 10 ^ output.length + digitsValue output)
          = (10 * (carry / 10) + carry % 10) * 10 ^ output.length + digitsValue output := by ring
        _ = carry * 10 ^ output.length + digitsValue output := by rw [parts]

/-- The output and the carry stand for the product so far. -/
theorem foldr_multiplyDigit {digits : Str} {factor : ℕ} (only : Digits digits) (positive : 0 < factor) (bounded : factor ≤ 2 ^ 60) :
    ∃ carry output, digits.foldr (fun digit state => state.bind (multiplyDigit factor digit)) (some (0, [])) = some (carry, output) ∧
      Digits output ∧ output.length = digits.length ∧ carry < factor ∧
      carry * 10 ^ digits.length + digitsValue output = digitsValue digits * factor := by
  induction digits with
  | nil => exact ⟨0, [], rfl, (fun _ impossible => nomatch impossible), rfl, positive, by simp⟩
  | cons digit digits ih =>
    rw [Digits, List.forall_mem_cons] at only
    obtain ⟨carry, output, folded, shape, length, small, product⟩ := ih only.2
    have bounds := Char.isDigit_iff_toNat.mp only.1
    have top : '9'.toNat = 57 := rfl
    have first : (digit.toNat - 48) * factor ≤ 9 * factor := Nat.mul_le_mul_right factor (by omega)
    obtain ⟨shown, value⟩ := digitChar_spec (Nat.mod_lt ((digit.toNat - 48) * factor + carry) (by decide : 0 < 10))
    refine ⟨((digit.toNat - 48) * factor + carry) / 10, Nat.digitChar (((digit.toNat - 48) * factor + carry) % 10) :: output,
      ?_, List.forall_mem_cons.mpr ⟨shown, shape⟩, by rw [List.length_cons, List.length_cons, length], by omega, ?_⟩
    · rw [List.foldr_cons, folded, Option.bind_some, multiplyDigit, checkedU128, if_pos (by omega)]
      simp only [Option.bind_eq_bind, Option.bind_some, checkedU128]
      rw [if_pos (by omega)]
      rfl
    · rw [digitsValue_cons, digitsValue_cons, value, length, List.length_cons, Nat.pow_succ]
      have parts := Nat.div_add_mod ((digit.toNat - 48) * factor + carry) 10
      generalize ((digit.toNat - 48) * factor + carry) / 10 = high at parts
      generalize ((digit.toNat - 48) * factor + carry) % 10 = low at parts
      calc high * (10 ^ digits.length * 10) + (low * 10 ^ digits.length + digitsValue output)
          = (10 * high + low) * 10 ^ digits.length + digitsValue output := by ring
        _ = (digit.toNat - 48) * 10 ^ digits.length * factor + (carry * 10 ^ digits.length + digitsValue output) := by
          rw [parts]
          ring
        _ = ((digit.toNat - 48) * 10 ^ digits.length + digitsValue digits) * factor := by rw [product]; ring

theorem multiplyDecimal_spec {digits : Str} {factor : ℕ} (only : Digits digits) (positive : 0 < factor) (bounded : factor ≤ 2 ^ 60) :
    ∃ product, multiplyDecimal digits factor = some product ∧ Digits product ∧ digitsValue product = digitsValue digits * factor := by
  obtain ⟨carry, output, folded, shape, length, -, total⟩ := foldr_multiplyDigit only positive bounded
  obtain ⟨digits', value⟩ := carryDigits_spec (le_refl carry) shape
  refine ⟨_, ?_, digits', value.trans ?_⟩
  · rw [multiplyDecimal, folded]
    rfl
  · rw [length, total]

/-! ## Shifting -/

theorem filter_eq_some_iff {whole milli : ℤ} (positive : 0 < whole) :
    ((if whole < 2 ^ 127 then some whole else none).filter inRange = some milli) ↔ milli = whole ∧ milli ≤ maxMilli := by
  have limit : maxMilli < 2 ^ 127 := by decide
  by_cases small : whole ≤ maxMilli
  · rw [if_pos (by omega), Option.filter_some, if_pos (by simp [inRange, positive, small])]
    constructor
    · rintro ⟨⟩
      exact ⟨rfl, small⟩
    · rintro ⟨rfl, -⟩
      rfl
  · have outside : (if whole < 2 ^ 127 then some whole else none).filter inRange = none := by
      split
      · rw [Option.filter_some, if_neg (by simp [inRange, positive]; omega)]
      · rfl
    rw [outside]
    constructor
    · intro impossible
      cases impossible
    · rintro ⟨rfl, large⟩
      exact absurd large small

/-- The digits before the cut, if they are not too large. -/
theorem parse_quotient {quotient : Str} (only : Digits quotient) :
    (if (trimStartMatches '0' quotient).isEmpty then some 0 else parseSigned 128 (trimStartMatches '0' quotient)) =
      if (digitsValue quotient : ℤ) < 2 ^ 127 then some (digitsValue quotient : ℤ) else none := by
  by_cases empty : trimStartMatches '0' quotient = []
  · have zero : digitsValue quotient = 0 := by rw [← digitsValue_trimStart, empty, digitsValue_nil]
    rw [empty, zero]
    rfl
  · rw [if_neg (by simpa using empty), parseSigned_digits 128 only.trimStart empty, digitsValue_trimStart]
    norm_cast

theorem shifted_eq_some {digits : Str} (only : Digits digits) (positive : 0 < digitsValue digits) (shift milli : ℤ) :
    shifted digits shift = some milli ↔ milli = ⌈(digitsValue digits : ℚ) * 10 ^ shift⌉ ∧ milli ≤ maxMilli := by
  have above : 0 < ⌈(digitsValue digits : ℚ) * 10 ^ shift⌉ := by
    rw [Int.ceil_pos]
    have counted : (0 : ℚ) < digitsValue digits := by exact_mod_cast positive
    exact mul_pos counted (zpow_pos (by norm_num) shift)
  rw [shifted]
  split
  · next up =>
    obtain ⟨zeros, rfl⟩ := Int.eq_ofNat_of_zero_le up
    have whole : ⌈(digitsValue digits : ℚ) * 10 ^ (zeros : ℤ)⌉ = (digitsValue digits * 10 ^ zeros : ℕ) := by
      rw [zpow_natCast, ← Int.ceil_natCast (R := ℚ)]
      push_cast
      rfl
    rw [whole] at above ⊢
    dsimp only
    rw [Int.toNat_natCast]
    split
    · next many =>
      constructor
      · intro impossible
        cases impossible
      · rintro ⟨rfl, small⟩
        have large : 10 ^ 41 ≤ digitsValue digits * 10 ^ zeros := by
          calc 10 ^ 41 ≤ 10 ^ zeros := Nat.pow_le_pow_right (by decide) many
            _ ≤ digitsValue digits * 10 ^ zeros := Nat.le_mul_of_pos_left _ positive
        have limit : maxMilli < (10 ^ 41 : ℕ) := by decide
        omega
    · have extended : Digits (digits ++ List.replicate zeros '0') := Digits.append_iff.mpr ⟨only, .zeros zeros⟩
      have nonempty : trimStartMatches '0' (digits ++ List.replicate zeros '0') ≠ [] := by
        intro empty
        have zero := digitsValue_trimStart (digits ++ List.replicate zeros '0')
        rw [empty, digitsValue_nil, digitsValue_zeros] at zero
        have more := Nat.mul_pos positive (Nat.pow_pos (by decide : 0 < 10) : 0 < 10 ^ zeros)
        omega
      rw [parseSigned_digits 128 extended.trimStart nonempty, digitsValue_trimStart, digitsValue_zeros, ← filter_eq_some_iff above]
      norm_cast
  · next down =>
    obtain ⟨places, rfl⟩ : ∃ places : ℕ, shift = -places := ⟨(-shift).toNat, by omega⟩
    have quotient : ⌈(digitsValue digits : ℚ) * 10 ^ (-(places : ℤ))⌉ = ⌈(digitsValue digits : ℚ) / 10 ^ places⌉ := by
      rw [zpow_neg, zpow_natCast, div_eq_mul_inv]
    rw [quotient, ceil_digitsValue only] at above ⊢
    dsimp only
    rw [neg_neg, Int.toNat_natCast, parse_quotient (only.sublist (List.take_sublist _ _))]
    have range : (0 : ℤ) ≤ (if (digits.drop (digits.length - places)).any (· != '0') then 1 else 0) := by split <;> decide
    generalize (if (digits.drop (digits.length - places)).any (· != '0') then (1 : ℤ) else 0) = extra at above range ⊢
    generalize digitsValue (digits.take (digits.length - places)) = whole at above ⊢
    rw [← filter_eq_some_iff above]
    by_cases small : (whole : ℤ) < 2 ^ 127
    · rw [if_pos small, Option.bind_some, checkedI128]
      simp only [show -2 ^ 127 ≤ (whole : ℤ) + extra by omega, true_and]
    · rw [if_neg small, if_neg (by omega)]
      rfl

/-! ## The grammar -/

/-- The sign and the digits of an exponent. -/
theorem parseSigned_signed {sign digits : Str} {scale : ℤ} (only : Digits digits) (nonempty : digits ≠ [])
    (signed : (sign = [] ∨ sign = ['+']) ∧ scale = digitsValue digits ∨ sign = ['-'] ∧ scale = -digitsValue digits)
    (fits : -2 ^ 31 ≤ scale ∧ scale < 2 ^ 31) : parseSigned 32 (sign ++ digits) = some scale := by
  rw [parseSigned_eq_some]
  refine ⟨digits, only, nonempty, ?_⟩
  rcases signed with ⟨rfl | rfl, rfl⟩ | ⟨rfl, rfl⟩
  · exact .inr ⟨.inl rfl, rfl, by omega⟩
  · exact .inr ⟨.inr rfl, rfl, by omega⟩
  · exact .inl ⟨rfl, rfl, by omega⟩

theorem suffixScale_exponent {letter : Char} {exponent : Str} {scale : ℤ} (lettered : letter = 'e' ∨ letter = 'E')
    (parsed : parseSigned 32 exponent = some scale) : suffixScale (letter :: exponent) = some (scale, 0) := by
  have other : exponent ≠ [] ∧ exponent ≠ ['i'] ∧ exponent ≠ ['+'] ∧ exponent ≠ ['-'] := by
    refine ⟨?_, ?_, ?_, ?_⟩ <;> rintro rfl <;> cases parsed
  rw [suffixScale.eq_def]
  split
  all_goals next same => cases same <;> simp_all

theorem suffixScale_eq_some {suffix : Str} {scale : ℤ} {power : ℕ} :
    suffixScale suffix = some (scale, power) ↔ Suffix suffix scale power := by
  constructor
  · intro found
    rw [suffixScale.eq_def] at found
    split at found
    all_goals first
      | (cases found; exact .decimal (by decide))
      | (cases found; exact .binary (by decide))
      | skip
    next letter exponent _ _ _ _ _ _ _ _ _ _ _ _ _ _ _ =>
      split_ifs at found with lettered bare
      obtain ⟨value, parsed, same⟩ := Option.map_eq_some_iff.mp found
      cases same
      obtain ⟨digits, only, nonempty, ⟨rfl, rfl, bound⟩ | ⟨rfl | rfl, rfl, bound⟩⟩ := parseSigned_eq_some.mp parsed
      · exact @Suffix.exponent letter digits (by simpa using lettered) only nonempty ['-'] _ (.inr ⟨rfl, rfl⟩) (by omega)
      · exact @Suffix.exponent letter exponent (by simpa using lettered) only nonempty [] _ (.inl ⟨.inl rfl, rfl⟩) (by omega)
      · exact @Suffix.exponent letter digits (by simpa using lettered) only nonempty ['+'] _ (.inl ⟨.inr rfl, rfl⟩) (by omega)
  · intro shape
    cases shape with
    | decimal named =>
      simp only [List.mem_cons, Prod.mk.injEq, List.not_mem_nil, or_false] at named
      rcases named with ⟨rfl, rfl⟩ | ⟨rfl, rfl⟩ | ⟨rfl, rfl⟩ | ⟨rfl, rfl⟩ | ⟨rfl, rfl⟩ | ⟨rfl, rfl⟩ | ⟨rfl, rfl⟩ | ⟨rfl, rfl⟩ |
        ⟨rfl, rfl⟩ | ⟨rfl, rfl⟩ <;> rfl
    | binary named =>
      simp only [List.mem_cons, Prod.mk.injEq, List.not_mem_nil, or_false] at named
      rcases named with ⟨rfl, rfl⟩ | ⟨rfl, rfl⟩ | ⟨rfl, rfl⟩ | ⟨rfl, rfl⟩ | ⟨rfl, rfl⟩ | ⟨rfl, rfl⟩ <;> rfl
    | exponent lettered only nonempty signed fits =>
      exact suffixScale_exponent lettered (parseSigned_signed only nonempty signed fits)

theorem splitNumber_eq_some {number integer fraction : Str} (before : Digits integer) :
    splitNumber number = some (integer, fraction) ↔ integer ++ fraction ≠ [] ∧
      ∃ point, (point = ['.'] ∨ point = [] ∧ fraction = []) ∧ number = integer ++ (point ++ fraction) := by
  have absent : '.' ∉ integer := fun member => absurd (before '.' member) (by decide)
  constructor
  · intro found
    rw [splitNumber] at found
    split at found
    · next first rest pointed =>
      split_ifs at found with some_digit
      cases found
      refine ⟨by simpa [← not_and_or] using some_digit, ['.'], .inl rfl, ?_⟩
      rw [splitOnce_eq_some pointed, List.append_assoc]
    · next none =>
      split_ifs at found with some_digit
      cases found
      exact ⟨by simpa using some_digit, [], .inr ⟨rfl, rfl⟩, by simp⟩
  · rintro ⟨nonempty, point, rfl | ⟨rfl, rfl⟩, rfl⟩
    · rw [splitNumber, ← List.append_assoc, splitOnce_append '.' [] integer fraction absent]
      have some_digit : (!integer.isEmpty || !fraction.isEmpty) = true := by simpa [← not_and_or] using nonempty
      simp [some_digit]
    · rw [List.append_nil] at nonempty
      rw [splitNumber, List.nil_append, List.append_nil, splitOnce_absent '.' [] integer absent]
      simp [nonempty]

/-- The characters of the number. -/
def isNumberChar (c : Char) : Bool := c.isDigit || c == '.'

theorem Suffix.head {suffix : Str} {scale : ℤ} {power : ℕ} (scaled : Suffix suffix scale power) :
    ∀ c, suffix.head? = some c → isNumberChar c = false := by
  intro c first
  cases scaled with
  | decimal named =>
    simp only [List.mem_cons, Prod.mk.injEq, List.not_mem_nil, or_false] at named
    rcases named with ⟨rfl, -⟩ | ⟨rfl, -⟩ | ⟨rfl, -⟩ | ⟨rfl, -⟩ | ⟨rfl, -⟩ | ⟨rfl, -⟩ | ⟨rfl, -⟩ | ⟨rfl, -⟩ | ⟨rfl, -⟩ | ⟨rfl, -⟩ <;>
      cases first <;> rfl
  | binary named =>
    simp only [List.mem_cons, Prod.mk.injEq, List.not_mem_nil, or_false] at named
    rcases named with ⟨rfl, -⟩ | ⟨rfl, -⟩ | ⟨rfl, -⟩ | ⟨rfl, -⟩ | ⟨rfl, -⟩ | ⟨rfl, -⟩ <;> cases first <;> rfl
  | exponent lettered =>
    cases first
    rcases lettered with rfl | rfl <;> rfl

theorem Suffix.power_le {suffix : Str} {scale : ℤ} {power : ℕ} (scaled : Suffix suffix scale power) : power ≤ 6 := by
  cases scaled with
  | binary named =>
    simp only [List.mem_cons, Prod.mk.injEq, List.not_mem_nil, or_false] at named
    omega
  | _ => exact Nat.zero_le 6

/-- Where the number ends. -/
theorem span_number {number suffix : Str} (only : ∀ c ∈ number, isNumberChar c = true)
    (other : ∀ c, suffix.head? = some c → isNumberChar c = false) :
    (number ++ suffix).takeWhile isNumberChar = number ∧ (number ++ suffix).dropWhile isNumberChar = suffix := by
  rw [List.takeWhile_append_of_pos only, List.dropWhile_append_of_pos only]
  cases suffix with
  | nil => exact ⟨List.append_nil number, rfl⟩
  | cons c suffix =>
    have ends := other c rfl
    rw [List.takeWhile_cons_of_neg (by simp [ends]), List.dropWhile_cons_of_neg (by simp [ends])]
    exact ⟨List.append_nil number, rfl⟩

/-- What is done with the parts of a quantity. -/
def milliOf (integer fraction suffix : Str) : Option ℤ :=
  if !integer.all Char.isDigit || !fraction.all Char.isDigit then none
  else if !(integer ++ fraction).any (· != '0') then none
  else do
    let (scale, binary) ← suffixScale suffix
    let digits ← if binary = 0 then some (integer ++ fraction) else multiplyDecimal (integer ++ fraction) (1024 ^ binary)
    shifted digits (scale + 3 - fraction.length)

attribute [grind =] isNumberChar milliOf

theorem parseQuantityMilli_eq (raw : Str) : parseQuantityMilli raw = if raw.isEmpty || byteLen raw > 128 then none else
    (splitNumber (((stripPrefix ['+'] raw).getD raw).takeWhile isNumberChar)).bind fun parts =>
      milliOf parts.1 parts.2 (((stripPrefix ['+'] raw).getD raw).dropWhile isNumberChar) := rfl

/-- The digits are multiplied by the power of the suffix. -/
theorem exists_multiplied {digits : Str} {power : ℕ} (only : Digits digits) (small : power ≤ 6) : ∃ product,
    (if power = 0 then some digits else multiplyDecimal digits (1024 ^ power)) = some product ∧
      Digits product ∧ digitsValue product = digitsValue digits * 1024 ^ power := by
  by_cases plain : power = 0
  · exact ⟨digits, if_pos plain, only, by rw [plain, Nat.pow_zero, Nat.mul_one]⟩
  · rw [if_neg plain]
    apply multiplyDecimal_spec only (Nat.pow_pos (by decide))
    calc 1024 ^ power ≤ 1024 ^ 6 := Nat.pow_le_pow_right (by decide) small
      _ = 2 ^ 60 := by decide

theorem any_iff_pos {digits : Str} (only : Digits digits) : digits.any (· != '0') = true ↔ 0 < digitsValue digits := by
  rw [Nat.pos_iff_ne_zero, ne_eq, digitsValue_eq_zero_iff only]
  simp

theorem milliOf_eq_some {integer fraction suffix : Str} {scale milli : ℤ} {power : ℕ} (before : Digits integer) (after : Digits fraction)
    (scaled : Suffix suffix scale power) : milliOf integer fraction suffix = some milli ↔
      0 < (digitsValue (integer ++ fraction) / 10 ^ fraction.length * (10 ^ scale * 1024 ^ power) : ℚ) ∧
      milli = ⌈(1000 * (digitsValue (integer ++ fraction) / 10 ^ fraction.length * (10 ^ scale * 1024 ^ power)) : ℚ)⌉ ∧
      milli ≤ maxMilli := by
  have only : Digits (integer ++ fraction) := Digits.append_iff.mpr ⟨before, after⟩
  have factor : (0 : ℚ) < 10 ^ scale * 1024 ^ power := mul_pos (zpow_pos (by norm_num) scale) (by positivity)
  have some_digit := any_iff_pos only
  rw [milliOf, if_neg (by simp [before.all, after.all])]
  generalize integer ++ fraction = digits at only some_digit ⊢
  rcases Nat.eq_zero_or_pos (digitsValue digits) with zero | positive
  · rw [if_pos (by simpa [zero] using some_digit), zero]
    simp
  · rw [if_neg (by simp [some_digit.mpr positive])]
    obtain ⟨product, multiplied, shape, value⟩ := exists_multiplied only scaled.power_le
    have counted : (0 : ℚ) < digitsValue digits := by exact_mod_cast positive
    have spelled : (1000 * (digitsValue digits / 10 ^ fraction.length * (10 ^ scale * 1024 ^ power)) : ℚ) =
        (digitsValue product : ℚ) * 10 ^ (scale + 3 - fraction.length) := by
      rw [value, zpow_sub₀ (by norm_num), zpow_add₀ (by norm_num), zpow_natCast]
      push_cast
      ring
    have shift := shifted_eq_some shape (by rw [value]; exact Nat.mul_pos positive (Nat.pow_pos (by decide)))
      (scale + 3 - fraction.length) milli
    rw [spelled, and_iff_right (mul_pos (div_pos counted (by positivity)) factor), ← shift, (suffixScale_eq_some).mpr scaled]
    change (if power = 0 then shifted digits (scale + 3 - fraction.length)
      else (multiplyDecimal digits (1024 ^ power)).bind fun digits => shifted digits (scale + 3 - fraction.length)) = some milli ↔ _
    split at multiplied
    · next plain =>
      cases multiplied
      rw [if_pos plain]
    · next scaled =>
      rw [if_neg scaled, multiplied]
      rfl

/-- A number has no sign of its own. -/
theorem stripPrefix_number {number suffix : Str} (only : ∀ c ∈ number, isNumberChar c = true) (nonempty : number ≠ []) :
    stripPrefix ['+'] (number ++ suffix) = none := by
  cases found : stripPrefix ['+'] (number ++ suffix) with
  | none => rfl
  | some rest =>
    obtain ⟨c, number, rfl⟩ := List.exists_cons_of_ne_nil nonempty
    have first := stripPrefix_eq_some found
    cases first
    exact absurd (only '+' List.mem_cons_self) (by decide)

theorem parseQuantityMilli_of_spells {raw : Str} {value : ℚ} (spells : Spells raw value) (short : byteLen raw ≤ 128) (milli : ℤ) :
    parseQuantityMilli raw = some milli ↔ 0 < value ∧ milli = ⌈1000 * value⌉ ∧ milli ≤ maxMilli := by
  cases spells with
  | @mk plus integer point fraction suffix scale power sign before after nonempty pointed scaled =>
    have numbered : ∀ c ∈ integer ++ (point ++ fraction), isNumberChar c = true := by
      intro c member
      simp only [List.mem_append] at member
      rcases member with member | member | member
      · simp [isNumberChar, before c member]
      · rcases pointed with rfl | ⟨rfl, -⟩
        · rw [List.mem_singleton.mp member]
          rfl
        · cases member
      · simp [isNumberChar, after c member]
    obtain ⟨taken, dropped⟩ := span_number numbered scaled.head
    have parts := (splitNumber_eq_some before).mpr ⟨nonempty, point, pointed, rfl⟩
    have filled : integer ++ (point ++ fraction) ≠ [] := by
      intro empty
      simp only [List.append_eq_nil_iff] at empty
      exact nonempty (List.append_eq_nil_iff.mpr ⟨empty.1, empty.2.2⟩)
    generalize integer ++ (point ++ fraction) = number at *
    have stripped : (stripPrefix ['+'] (plus ++ (number ++ suffix))).getD (plus ++ (number ++ suffix)) = number ++ suffix := by
      rcases sign with rfl | rfl
      · rw [List.nil_append, stripPrefix_number numbered filled]
        rfl
      · rw [stripPrefix_append]
        rfl
    have checked : ¬ ((plus ++ (number ++ suffix)).isEmpty || decide (byteLen (plus ++ (number ++ suffix)) > 128)) = true := by
      rw [Bool.or_eq_true, List.isEmpty_iff, decide_eq_true_eq, not_or]
      exact ⟨by simp [filled], Nat.not_lt.mpr short⟩
    rw [parseQuantityMilli_eq, if_neg checked, stripped, taken, dropped, parts]
    exact milliOf_eq_some before after scaled

theorem exists_spells {raw : Str} {milli : ℤ} (parsed : parseQuantityMilli raw = some milli) :
    byteLen raw ≤ 128 ∧ ∃ value, Spells raw value := by
  rw [parseQuantityMilli_eq] at parsed
  split_ifs at parsed with unchecked
  rw [Bool.or_eq_true, List.isEmpty_iff, decide_eq_true_eq, not_or, Nat.not_lt] at unchecked
  refine ⟨unchecked.2, ?_⟩
  obtain ⟨plus, sign, whole⟩ : ∃ plus, (plus = [] ∨ plus = ['+']) ∧ raw = plus ++ (stripPrefix ['+'] raw).getD raw := by
    cases found : stripPrefix ['+'] raw with
    | none => exact ⟨[], .inl rfl, rfl⟩
    | some rest => exact ⟨['+'], .inr rfl, stripPrefix_eq_some found⟩
  rw [whole]
  generalize (stripPrefix ['+'] raw).getD raw = rest at parsed
  obtain ⟨⟨integer, fraction⟩, parts, converted⟩ := Option.bind_eq_some_iff.mp parsed
  rw [milliOf] at converted
  split_ifs at converted with digits zero
  rw [Bool.or_eq_true, not_or] at digits
  have before : Digits integer := List.all_eq_true.mp (by simpa using digits.1)
  have after : Digits fraction := List.all_eq_true.mp (by simpa using digits.2)
  obtain ⟨nonempty, point, pointed, number⟩ := (splitNumber_eq_some before).mp parts
  obtain ⟨⟨scale, power⟩, scaled, -⟩ := Option.bind_eq_some_iff.mp converted
  rw [← List.takeWhile_append_dropWhile (p := isNumberChar) (l := rest), number]
  exact ⟨_, .mk sign before after nonempty pointed (suffixScale_eq_some.mp scaled)⟩

/-- The parser reads quantities exactly: the number that a text of at most 128 bytes spells, in milli-units and rounded up, if it
is positive and not too large. -/
theorem parseQuantityMilli_eq_some {raw : Str} {milli : ℤ} : parseQuantityMilli raw = some milli ↔
    byteLen raw ≤ 128 ∧ ∃ value, Spells raw value ∧ 0 < value ∧ milli = ⌈1000 * value⌉ ∧ milli ≤ maxMilli := by
  constructor
  · intro parsed
    obtain ⟨short, value, spells⟩ := exists_spells parsed
    exact ⟨short, value, spells, (parseQuantityMilli_of_spells spells short milli).mp parsed⟩
  · rintro ⟨short, value, spells, read⟩
    exact (parseQuantityMilli_of_spells spells short milli).mpr read

end OpenLegal.Document
