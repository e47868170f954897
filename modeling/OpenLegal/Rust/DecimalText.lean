import Mathlib.Algebra.Order.Floor.Ring
import Mathlib.Data.Rat.Floor
import Mathlib.Tactic.FieldSimp
import Mathlib.Tactic.Linarith
import Mathlib.Tactic.Positivity
import OpenLegal.Rust.Str

/-! # Decimal texts

Strings of digits, the numbers they stand for, and how these are parsed, shifted and rounded up.
-/

namespace OpenLegal.Rust.Str

/-- Only ASCII digits. -/
def Digits (s : Str) : Prop := ∀ c ∈ s, c.isDigit = true

/-- The number that digits stand for. -/
def digitsValue (s : Str) : ℕ := Nat.ofDigitChars 10 s 0

/-- `str::parse` for a signed integer type of so many bits. -/
def parseSigned (bits : ℕ) : Str → Option ℤ
  | '-' :: digits =>
    if digits.isEmpty || !digits.all Char.isDigit then none
    else if digitsValue digits ≤ 2 ^ (bits - 1) then some (-digitsValue digits)
    else none
  | s =>
    let digits := match s with
      | '+' :: rest => rest
      | _ => s
    if digits.isEmpty || !digits.all Char.isDigit then none
    else if digitsValue digits < 2 ^ (bits - 1) then some (digitsValue digits : ℤ)
    else none

/-- `str::trim_start_matches` of a character. -/
def trimStartMatches (c : Char) (s : Str) : Str := s.dropWhile (· == c)

variable {s a b : Str}

theorem Digits.append_iff : Digits (a ++ b) ↔ Digits a ∧ Digits b := List.forall_mem_append

theorem Digits.sublist (digits : Digits b) (inside : a.Sublist b) : Digits a := fun c member => digits c (inside.subset member)

theorem Digits.all (digits : Digits s) : s.all Char.isDigit = true := List.all_eq_true.mpr digits

theorem Digits.zeros (n : ℕ) : Digits (List.replicate n '0') := by
  intro c member
  rw [List.eq_of_mem_replicate member]
  rfl

@[simp] theorem digitsValue_nil : digitsValue [] = 0 := rfl

theorem digitsValue_append (a b : Str) : digitsValue (a ++ b) = digitsValue a * 10 ^ b.length + digitsValue b := by
  rw [digitsValue, Nat.ofDigitChars_append, Nat.ofDigitChars_eq_ofDigitChars_zero, Nat.mul_comm]
  rfl

theorem digitsValue_cons (c : Char) (s : Str) : digitsValue (c :: s) = (c.toNat - 48) * 10 ^ s.length + digitsValue s := by
  rw [← List.singleton_append, digitsValue_append]
  congr 2
  simp [digitsValue, Nat.ofDigitChars_cons]

theorem digitsValue_lt (digits : Digits s) : digitsValue s < 10 ^ s.length := by
  induction s with
  | nil => decide
  | cons c s ih =>
    have bounds := Char.isDigit_iff_toNat.mp (digits c List.mem_cons_self)
    have rest := ih fun d member => digits d (List.mem_cons_of_mem _ member)
    rw [digitsValue_cons, List.length_cons, Nat.pow_succ]
    have top : '9'.toNat = 57 := rfl
    have digit : (c.toNat - 48) * 10 ^ s.length ≤ 9 * 10 ^ s.length := Nat.mul_le_mul_right _ (by omega)
    omega

theorem digitsValue_eq_zero_iff (digits : Digits s) : digitsValue s = 0 ↔ ∀ c ∈ s, c = '0' := by
  induction s with
  | nil => simp
  | cons c s ih =>
    have bounds := Char.isDigit_iff_toNat.mp (digits c List.mem_cons_self)
    have zero : '0'.toNat = 48 := rfl
    have first : c.toNat - 48 = 0 ↔ c = '0' := by
      rw [← Char.toNat_inj]
      omega
    rw [digitsValue_cons, List.forall_mem_cons, ← ih fun d member => digits d (List.mem_cons_of_mem _ member), ← first]
    have positive : 0 < 10 ^ s.length := Nat.pow_pos (by decide)
    rw [Nat.add_eq_zero_iff, Nat.mul_eq_zero]
    simp only [positive.ne', or_false]

theorem digitsValue_zeros (s : Str) (n : ℕ) : digitsValue (s ++ List.replicate n '0') = digitsValue s * 10 ^ n := by
  rw [digitsValue_append, (digitsValue_eq_zero_iff (.zeros n)).mpr fun c member => List.eq_of_mem_replicate member,
    List.length_replicate, Nat.add_zero]

@[simp] theorem digitsValue_trimStart (s : Str) : digitsValue (trimStartMatches '0' s) = digitsValue s := by
  induction s with
  | nil => rfl
  | cons c s ih =>
    rw [trimStartMatches, List.dropWhile_cons]
    split
    · next zero =>
      rw [beq_iff_eq] at zero
      rw [zero, digitsValue_cons, show '0'.toNat - 48 = 0 from rfl, Nat.zero_mul, Nat.zero_add]
      exact ih
    · rfl

theorem Digits.trimStart (digits : Digits s) : Digits (trimStartMatches '0' s) := digits.sublist (List.dropWhile_sublist _)

/-- Digits alone are a number that is not negative. -/
theorem parseSigned_digits (bits : ℕ) (digits : Digits s) (nonempty : s ≠ []) :
    parseSigned bits s = if digitsValue s < 2 ^ (bits - 1) then some (digitsValue s : ℤ) else none := by
  have unsigned : ∀ rest, s ≠ '-' :: rest ∧ s ≠ '+' :: rest := by
    intro rest
    constructor
    · rintro rfl
      exact absurd (digits '-' List.mem_cons_self) (by decide)
    · rintro rfl
      exact absurd (digits '+' List.mem_cons_self) (by decide)
  rw [parseSigned.eq_def]
  split
  · next rest => exact absurd rfl (unsigned rest).1
  · split
    · next rest _ => exact absurd rfl (unsigned rest).2
    · simp only [digits.all, Bool.not_true, Bool.or_false, List.isEmpty_iff, nonempty, if_false]

/-- What the parser accepts: a sign or none, at least one digit, a value of the type. -/
theorem parseSigned_eq_some {bits : ℕ} {n : ℤ} : parseSigned bits s = some n ↔ ∃ digits, Digits digits ∧ digits ≠ [] ∧
    ((s = '-' :: digits ∧ n = -digitsValue digits ∧ digitsValue digits ≤ 2 ^ (bits - 1)) ∨
      ((s = digits ∨ s = '+' :: digits) ∧ n = digitsValue digits ∧ digitsValue digits < 2 ^ (bits - 1))) := by
  constructor
  · intro parsed
    rw [parseSigned.eq_def] at parsed
    split at parsed
    · next digits =>
      split_ifs at parsed with shape bound
      simp only [Bool.or_eq_true, not_or, Bool.not_eq_true, Bool.not_eq_false', List.isEmpty_eq_false_iff, List.all_eq_true] at shape
      exact ⟨digits, shape.2, shape.1, .inl ⟨rfl, (Option.some.inj parsed).symm, bound⟩⟩
    · dsimp only at parsed
      split at parsed
      · next digits _ =>
        split_ifs at parsed with shape bound
        simp only [Bool.or_eq_true, not_or, Bool.not_eq_true, Bool.not_eq_false', List.isEmpty_eq_false_iff, List.all_eq_true] at shape
        exact ⟨digits, shape.2, shape.1, .inr ⟨.inr rfl, (Option.some.inj parsed).symm, bound⟩⟩
      · split_ifs at parsed with shape bound
        simp only [Bool.or_eq_true, not_or, Bool.not_eq_true, Bool.not_eq_false', List.isEmpty_eq_false_iff, List.all_eq_true] at shape
        exact ⟨s, shape.2, shape.1, .inr ⟨.inl rfl, (Option.some.inj parsed).symm, bound⟩⟩
  · rintro ⟨digits, only, nonempty, ⟨rfl, rfl, bound⟩ | ⟨rfl | rfl, rfl, bound⟩⟩
    · rw [parseSigned, if_neg (by simp [nonempty, only.all]), if_pos bound]
    · rw [parseSigned_digits bits only nonempty, if_pos bound]
    · rw [parseSigned.eq_def]
      simp [nonempty, only.all, bound]

/-! ## Rounding up -/

/-- A quotient by a power of ten, rounded up: the digits before the cut, and one more if a digit after it counts. -/
theorem ceil_digitsValue (digits : Digits s) (k : ℕ) : ⌈(digitsValue s : ℚ) / 10 ^ k⌉ =
    digitsValue (s.take (s.length - k)) + (if (s.drop (s.length - k)).any (· != '0') then 1 else 0) := by
  obtain ⟨whole, part, split, taken, dropped⟩ : ∃ whole part, whole ++ part = s ∧ s.take (s.length - k) = whole ∧
      s.drop (s.length - k) = part := ⟨_, _, List.take_append_drop (s.length - k) s, rfl, rfl⟩
  have cut : part.length ≤ k ∧ (part.length = k ∨ whole = []) := by
    rw [← dropped, ← taken, List.length_drop]
    rcases Nat.lt_or_ge k s.length with longer | shorter
    · exact ⟨by omega, .inl (by omega)⟩
    · exact ⟨by omega, .inr (by rw [Nat.sub_eq_zero_of_le shorter]; rfl)⟩
  rw [taken, dropped]
  rw [← split, Digits.append_iff] at digits
  have scaled : digitsValue s = digitsValue whole * 10 ^ k + digitsValue part := by
    rw [← split, digitsValue_append]
    rcases cut.2 with same | empty
    · rw [same]
    · rw [empty, digitsValue_nil, Nat.zero_mul, Nat.zero_mul]
  have small : digitsValue part < 10 ^ k := (digitsValue_lt digits.2).trans_le (Nat.pow_le_pow_right (by decide) cut.1)
  have positive : (0 : ℚ) < 10 ^ k := by positivity
  have quotient : (digitsValue s : ℚ) / 10 ^ k = digitsValue whole + (digitsValue part : ℚ) / 10 ^ k := by
    rw [scaled]
    push_cast
    field_simp
  rw [quotient]
  by_cases zero : digitsValue part = 0
  · have none : part.any (· != '0') = false := by
      simpa using (digitsValue_eq_zero_iff digits.2).mp zero
    rw [zero, none]
    simp
  · have some : part.any (· != '0') = true := by
      rw [List.any_eq_true]
      by_contra other
      apply zero
      rw [digitsValue_eq_zero_iff digits.2]
      intro c member
      by_contra different
      exact other ⟨c, member, by simpa using different⟩
    have above : (0 : ℚ) < (digitsValue part : ℚ) / 10 ^ k := div_pos (by exact_mod_cast Nat.pos_of_ne_zero zero) positive
    have below : (digitsValue part : ℚ) / 10 ^ k < 1 := by
      rw [div_lt_one positive]
      exact_mod_cast small
    rw [some, if_pos rfl, Int.ceil_eq_iff]
    push_cast
    constructor <;> linarith

end OpenLegal.Rust.Str
