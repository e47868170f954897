import OpenLegal.Rust.Result
import OpenLegal.Rust.Slice

/-! # Values of the widget

The widget sees a response as the JavaScript value that its JSON text stands for. Strings are sequences
of UTF-16 code units there, so a text of the server has two units for a scalar outside the basic plane.
-/

namespace OpenLegal.Widget

open Rust Rust.Str

/-- A JavaScript string. -/
abbrev JsString := List UInt16

/-! ## Code units and code points -/

/-- The units of one scalar: one, or a surrogate pair. -/
def encodeChar (c : Char) : JsString :=
  let point := c.toNat
  if point < 0x10000 then [UInt16.ofNat point]
  else [UInt16.ofNat (0xd800 + (point - 0x10000) / 0x400), UInt16.ofNat (0xdc00 + (point - 0x10000) % 0x400)]

/-- The JavaScript string of a text. -/
def encode (s : Str) : JsString := s.flatMap encodeChar

def isHigh (unit : UInt16) : Bool := 0xd800 ≤ unit.toNat && unit.toNat ≤ 0xdbff
def isLow (unit : UInt16) : Bool := 0xdc00 ≤ unit.toNat && unit.toNat ≤ 0xdfff

/-- `for (const scalar of text)`: the units of each step and `codePointAt(0)`. A surrogate without its
partner is a step of its own. -/
def codePoints : JsString → List (JsString × ℕ)
  | [] => []
  | [unit] => [([unit], unit.toNat)]
  | high :: low :: rest =>
    if isHigh high && isLow low then
      ([high, low], 0x10000 + (high.toNat - 0xd800) * 0x400 + (low.toNat - 0xdc00)) :: codePoints rest
    else ([high], high.toNat) :: codePoints (low :: rest)

def isSurrogate (point : ℕ) : Bool := 0xd800 ≤ point && point ≤ 0xdfff

def pointSize (point : ℕ) : ℕ := if point ≤ 0x7f then 1 else if point ≤ 0x7ff then 2 else if point ≤ 0xffff then 3 else 4

/-- `TextEncoder.encode(value).byteLength`; a lone surrogate is replaced by a character of three bytes. -/
def utf8Length (value : JsString) : ℕ := ((codePoints value).map fun step => pointSize step.2).sum

/-- The text of a string, if it is well formed. -/
def decode (value : JsString) : Option Str :=
  (codePoints value).mapM fun step => if isSurrogate step.2 then none else some (Char.ofNat step.2)

theorem toNat_not_surrogate (c : Char) : isSurrogate c.toNat = false := by
  rw [isSurrogate, Bool.and_eq_false_iff, decide_eq_false_iff_not, decide_eq_false_iff_not]
  rcases c.valid with below | above
  · exact .inl (by simp only [Char.toNat]; omega)
  · exact .inr (by simp only [Char.toNat]; omega)

theorem toNat_lt (c : Char) : c.toNat < 0x110000 := by
  rcases c.valid with below | above
  · simp only [Char.toNat]; omega
  · exact above.2

theorem pointSize_toNat (c : Char) : pointSize c.toNat = c.utf8Size := by
  rw [pointSize, Char.utf8Size]
  simp only [Char.toNat, UInt32.le_iff_toNat_le]
  rfl

/-- The units of a scalar are one step of the iteration. -/
theorem codePoints_encodeChar (c : Char) (rest : JsString) :
    codePoints (encodeChar c ++ rest) = (encodeChar c, c.toNat) :: codePoints rest := by
  have bound := toNat_lt c
  have scalar := toNat_not_surrogate c
  rw [encodeChar]
  split_ifs with basic
  · have unit : (UInt16.ofNat c.toNat).toNat = c.toNat := UInt16.toNat_ofNat_of_lt' basic
    have single : isHigh (UInt16.ofNat c.toNat) = false := by
      simp only [isSurrogate, Bool.and_eq_false_iff, decide_eq_false_iff_not] at scalar
      simp only [isHigh, unit, Bool.and_eq_false_iff, decide_eq_false_iff_not]
      omega
    cases rest with
    | nil => simp only [List.append_nil, codePoints, unit]
    | cons low rest => rw [List.singleton_append, codePoints, single, unit]; rfl
  · have high : (UInt16.ofNat (0xd800 + (c.toNat - 0x10000) / 0x400)).toNat = 0xd800 + (c.toNat - 0x10000) / 0x400 :=
      UInt16.toNat_ofNat_of_lt' (by show _ < 65536; omega)
    have low : (UInt16.ofNat (0xdc00 + (c.toNat - 0x10000) % 0x400)).toNat = 0xdc00 + (c.toNat - 0x10000) % 0x400 :=
      UInt16.toNat_ofNat_of_lt' (by show _ < 65536; omega)
    have pair : (isHigh (UInt16.ofNat (0xd800 + (c.toNat - 0x10000) / 0x400)) &&
        isLow (UInt16.ofNat (0xdc00 + (c.toNat - 0x10000) % 0x400))) = true := by
      simp only [isHigh, isLow, high, low, Bool.and_eq_true, decide_eq_true_eq]
      omega
    have point : 0x10000 + (0xd800 + (c.toNat - 0x10000) / 0x400 - 0xd800) * 0x400 +
        (0xdc00 + (c.toNat - 0x10000) % 0x400 - 0xdc00) = c.toNat := by omega
    simp only [List.cons_append, List.nil_append]
    rw [codePoints, if_pos pair, high, low, point]

/-- Iterating over the string of a text visits its scalars. -/
theorem codePoints_encode (s : Str) : codePoints (encode s) = s.map fun c => (encodeChar c, c.toNat) := by
  induction s with
  | nil => rfl
  | cons c s ih => rw [encode, List.flatMap_cons, codePoints_encodeChar, ← encode, ih, List.map_cons]

@[simp] theorem encode_nil : encode [] = [] := rfl

theorem encode_append (s t : Str) : encode (s ++ t) = encode s ++ encode t := List.flatMap_append

@[simp] theorem utf8Length_encode (s : Str) : utf8Length (encode s) = byteLen s := by
  rw [utf8Length, codePoints_encode]
  induction s with
  | nil => rfl
  | cons c s ih => rw [List.map_cons, List.map_cons, List.sum_cons, ih, byteLen_cons, pointSize_toNat]

@[simp] theorem decode_encode (s : Str) : decode (encode s) = some s := by
  rw [decode, codePoints_encode]
  induction s with
  | nil => rfl
  | cons c s ih =>
    rw [List.map_cons, List.mapM_cons, ih, toNat_not_surrogate]
    simp [Char.ofNat_toNat]

theorem encode_injective {s t : Str} (same : encode s = encode t) : s = t := by
  have decoded := decode_encode s
  rw [same, decode_encode] at decoded
  exact (Option.some.inj decoded).symm

theorem encodeChar_length_le (c : Char) : (encodeChar c).length ≤ c.utf8Size := by
  rw [← pointSize_toNat, encodeChar, pointSize]
  split_ifs
  all_goals
    simp
    try omega

/-- A string has no more units than bytes. -/
theorem encode_length_le (s : Str) : (encode s).length ≤ byteLen s := by
  induction s with
  | nil => exact le_rfl
  | cons c s ih =>
    have first := encodeChar_length_le c
    rw [encode, List.flatMap_cons, List.length_append, byteLen_cons, ← encode]
    omega

/-! ## Values of a response -/

/-- What the widget's checks tell apart. A number is the integer of the JSON text; one that does not fit a
double is not a safe integer before or after rounding. -/
inductive JsValue where
  | undefined
  | null
  | boolean (value : Bool)
  | number (value : ℤ)
  | string (value : JsString)
  | array (items : List JsValue)
  | object (fields : List (String × JsValue))

/-- An object's properties. -/
abbrev Fields := List (String × JsValue)

/-- `fields.name`. -/
def Fields.get (fields : Fields) (name : String) : JsValue := (fields.lookup name).getD .undefined

namespace JsValue

def truthy : JsValue → Bool
  | undefined | null => false
  | boolean value => value
  | number value => value ≠ 0
  | string value => !value.isEmpty
  | array _ | object _ => true

/-- A count of the server. -/
def count (n : ℕ) : JsValue := .number n

/-- A text of the server. -/
def text (s : Str) : JsValue := .string (encode s)

end JsValue

def maxSafeInteger : ℕ := 2 ^ 53 - 1

/-- `invalid()`. -/
def unsupported : String := "The server returned an unsupported comparison response."

def object : JsValue → Except String Fields
  | .object fields => .ok fields
  | _ => .error unsupported

def integer (value : JsValue) (maximum : ℕ) : Except String ℕ :=
  match value with
  | .number n => if n.natAbs ≤ maxSafeInteger && 0 ≤ n && n ≤ maximum then .ok n.toNat else .error unsupported
  | _ => .error unsupported

def string (value : JsValue) (maximum : ℕ) : Except String JsString :=
  match value with
  | .string s => if s.length > maximum || utf8Length s > maximum then .error unsupported else .ok s
  | _ => .error unsupported

def boolean : JsValue → Except String Bool
  | .boolean value => .ok value
  | _ => .error unsupported

/-- `value === n` for a number. -/
def isCount (n : ℕ) : JsValue → Bool
  | .number value => value = n
  | _ => false

def check (condition : Bool) (message : String) : Except String Unit := if condition then .error message else .ok ()

/-- `/^[0-9a-f]{64}$/`. -/
def identity : JsValue → Except String JsString
  | .string s =>
    if s.length = 64 && s.all fun unit => (0x30 ≤ unit.toNat && unit.toNat ≤ 0x39) || (0x61 ≤ unit.toNat && unit.toNat ≤ 0x66)
    then .ok s else .error unsupported
  | _ => .error unsupported

/-- The structured content of a tool result. -/
def data (result : JsValue) : Except String Fields := do
  let envelope ← object result
  if (envelope.get "isError").truthy then
    .error "The comparison request could not be completed. It may have expired. Try again."
  else object (envelope.get "structuredContent")

/-- A successful tool result. -/
def toolResult (content : JsValue) : JsValue := .object [("structuredContent", content), ("isError", .boolean false)]

@[simp] theorem data_toolResult (fields : Fields) : data (toolResult (.object fields)) = .ok fields := rfl

@[simp] theorem object_object (fields : Fields) : object (.object fields) = .ok fields := rfl

@[simp] theorem boolean_boolean (value : Bool) : boolean (.boolean value) = .ok value := rfl

theorem integer_count {n maximum : ℕ} (small : n ≤ maximum) (safe : n ≤ maxSafeInteger) :
    integer (.count n) maximum = .ok n := by
  simp [integer, JsValue.count, small, safe]

theorem string_text {s : Str} {maximum : ℕ} (small : byteLen s ≤ maximum) :
    string (.text s) maximum = .ok (encode s) := by
  have length := (encode_length_le s).trans small
  simp [string, JsValue.text, utf8Length_encode, Nat.not_lt.mpr small, Nat.not_lt.mpr length]

end OpenLegal.Widget
