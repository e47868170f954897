import Mathlib.Data.Finset.Card
import OpenLegal.Rust.DecimalText

/-! # JSON values

An object is a family of values over a finite set of keys, so no key can stand twice and the order of the entries cannot be told.
-/

namespace OpenLegal.Rust

/-- `serde_json::Value`. A number is kept as its text. -/
inductive Value where
  | null
  | bool (b : Bool)
  | number (text : Str)
  | string (text : Str)
  | array (items : List Value)
  | object (keys : Finset Str) (value : {key // key ∈ keys} → Value)

/-- `serde_json::Map<String, Value>`. -/
structure Object where
  keys : Finset Str
  value : {key // key ∈ keys} → Value

namespace Object

/-- `Map::get`. -/
def get (object : Object) (key : Str) : Option Value :=
  if present : key ∈ object.keys then some (object.value ⟨key, present⟩) else none

/-- `Map::len`. -/
def len (object : Object) : ℕ := object.keys.card

/-- An object from its entries. The first entry under a key counts. -/
def ofEntries (entries : List (Str × Value)) : Object where
  keys := (entries.map Prod.fst).toFinset
  value key := ((entries.lookup key.1).getD .null)

variable {object : Object} {key : Str}

theorem mem_keys_of_get {value : Value} (found : object.get key = some value) : key ∈ object.keys := by
  rw [get] at found
  split at found
  · next present => exact present
  · cases found

/-- An object with as many keys as names, all of them present, has no other key. -/
theorem keys_eq_of_len {names : List Str} (distinct : names.Nodup) (size : object.len = names.length)
    (present : ∀ name ∈ names, name ∈ object.keys) : object.keys = names.toFinset := by
  apply (Finset.eq_of_subset_of_card_le _ _).symm
  · intro name member
    exact present name (List.mem_toFinset.mp member)
  · rw [List.toFinset_card_of_nodup distinct, ← size, len]

end Object

namespace Value

/-- `Value::as_object`. -/
def asObject : Value → Option Object
  | object keys value => some ⟨keys, value⟩
  | _ => none

/-- `Value::as_str`. -/
def asStr : Value → Option Str
  | string text => some text
  | _ => none

/-- One token of `Value::pointer`. -/
def pointer (token : Str) : Value → Option Value
  | object keys value => Object.get ⟨keys, value⟩ token
  | array items =>
    if token.isEmpty || !token.all Char.isDigit || token.head? = some '0' && token.length != 1 then none
    else items[Str.digitsValue token]?
  | _ => none

theorem asObject_eq_some {value : Value} {entries : Object} :
    value.asObject = some entries ↔ value = object entries.keys entries.value := by
  obtain ⟨keys, inner⟩ := entries
  cases value <;> simp [asObject]

theorem asStr_eq_some {value : Value} {text : Str} : value.asStr = some text ↔ value = string text := by
  cases value <;> simp [asStr]

end Value

end OpenLegal.Rust
