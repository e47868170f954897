import OpenLegal.Rust.Str

/-! # Character classes

White space, control characters and ASCII classes are short lists. The alphanumeric characters are a table
that grows with every version of Unicode, so a table is a value; what all versions have in common is a
field of it.
-/

namespace OpenLegal.Rust

/-- `char::is_whitespace`: the property `White_Space`. -/
@[irreducible] def isWhitespace (c : Char) : Bool :=
  (0x09 ≤ c.val && c.val ≤ 0x0d) || c.val == 0x20 || c.val == 0x85 || c.val == 0xa0 || c.val == 0x1680 ||
    (0x2000 ≤ c.val && c.val ≤ 0x200a) || c.val == 0x2028 || c.val == 0x2029 || c.val == 0x202f ||
    c.val == 0x205f || c.val == 0x3000

theorem isWhitespace_space : isWhitespace ' ' = true := by simp [isWhitespace]

theorem isWhitespace_newline : isWhitespace '\n' = true := by simp [isWhitespace]

def isAsciiLowercase (c : Char) : Bool := 'a'.val ≤ c.val && c.val ≤ 'z'.val

def isAsciiDigit (c : Char) : Bool := '0'.val ≤ c.val && c.val ≤ '9'.val

def isAsciiAlphanumeric (c : Char) : Bool :=
  isAsciiDigit c || ('A'.val ≤ c.val && c.val ≤ 'Z'.val) || isAsciiLowercase c

/-- `char::is_ascii_punctuation`. -/
def isAsciiPunctuation (c : Char) : Bool :=
  (0x21 ≤ c.val && c.val ≤ 0x2f) || (0x3a ≤ c.val && c.val ≤ 0x40) || (0x5b ≤ c.val && c.val ≤ 0x60) ||
    (0x7b ≤ c.val && c.val ≤ 0x7e)

/-- The alphanumeric table of a version of Unicode. Letters and numbers are neither white space nor ASCII
punctuation, and no control characters. -/
structure Unicode where
  isAlphanumeric : Char → Bool
  separated : ∀ c, isAlphanumeric c = true → isWhitespace c = false ∧ isAsciiPunctuation c = false
  printable : ∀ c, isAlphanumeric c = true → isControl c = false

namespace Unicode

/-- The letters and numbers of the basic Latin, Han and Hangul blocks. -/
def korean : Unicode where
  isAlphanumeric c := isAsciiAlphanumeric c || (0x4e00 ≤ c.val && c.val ≤ 0x9fff) || (0xac00 ≤ c.val && c.val ≤ 0xd7a3)
  separated := by
    intro c
    simp only [isAsciiAlphanumeric, isAsciiDigit, isAsciiLowercase, isWhitespace, isAsciiPunctuation, Bool.or_eq_true,
      Bool.and_eq_true, decide_eq_true_eq, Bool.or_eq_false_iff, Bool.and_eq_false_iff, decide_eq_false_iff_not,
      beq_eq_false_iff_ne, UInt32.le_iff_toNat_le, ne_eq, ← UInt32.toNat_inj, UInt32.reduceToNat, Char.reduceVal]
    omega
  printable := by
    intro c
    simp only [isAsciiAlphanumeric, isAsciiDigit, isAsciiLowercase, isControl, Bool.or_eq_true, Bool.and_eq_true,
      decide_eq_true_eq, Bool.or_eq_false_iff, Bool.and_eq_false_iff, decide_eq_false_iff_not, UInt32.le_iff_toNat_le,
      UInt32.lt_iff_toNat_lt, UInt32.reduceToNat, Char.reduceVal]
    omega

end Unicode

end OpenLegal.Rust
