import Mathlib.Data.List.Basic

/-! # Self-delimiting codes

A code is self-delimiting on a set of values if a codeword can be read off the front of any text: equal
texts that begin with codewords begin with the same one and go on equally. Codes of this kind can be
concatenated, and no codeword is the beginning of another.
-/

namespace OpenLegal.Theory

variable {α β γ : Type*}

/-- Codewords of valid values can be read off the front. -/
def SelfDelimiting (valid : α → Prop) (encode : α → List β) : Prop :=
  ∀ ⦃a b⦄, valid a → valid b → ∀ ⦃rest rest'⦄, encode a ++ rest = encode b ++ rest' → a = b ∧ rest = rest'

namespace SelfDelimiting

variable {valid : α → Prop} {encode : α → List β}

/-- Codewords of one length. -/
theorem of_length {width : ℕ} (length : ∀ a, valid a → (encode a).length = width)
    (injective : ∀ ⦃a b⦄, valid a → valid b → encode a = encode b → a = b) : SelfDelimiting valid encode := by
  intro a b validA validB rest rest' same
  obtain ⟨front, rear⟩ := List.append_inj same ((length a validA).trans (length b validB).symm)
  exact ⟨injective validA validB front, rear⟩

/-- A body behind its length. -/
theorem of_size {valid : List β → Prop} {size : ℕ → List β} {fits : ℕ → Prop} (sizes : SelfDelimiting fits size)
    (short : ∀ body, valid body → fits body.length) : SelfDelimiting valid fun body => size body.length ++ body := by
  intro a b validA validB rest rest' same
  rw [List.append_assoc, List.append_assoc] at same
  obtain ⟨length, bodies⟩ := sizes (short a validA) (short b validB) same
  exact List.append_inj bodies length

/-- A code for the image of an injection. -/
theorem comap {valid' : γ → Prop} {f : γ → α} (code : SelfDelimiting valid encode) (maps : ∀ c, valid' c → valid (f c))
    (injective : Function.Injective f) : SelfDelimiting valid' fun c => encode (f c) := by
  intro a b validA validB rest rest' same
  obtain ⟨equal, rear⟩ := code (maps a validA) (maps b validB) same
  exact ⟨injective equal, rear⟩

/-- Two codewords in a row. -/
theorem append {valid' : γ → Prop} {encode' : γ → List β} (code : SelfDelimiting valid encode)
    (code' : SelfDelimiting valid' encode') :
    SelfDelimiting (fun pair : α × γ => valid pair.1 ∧ valid' pair.2) fun pair => encode pair.1 ++ encode' pair.2 := by
  rintro ⟨a, c⟩ ⟨b, d⟩ ⟨validA, validC⟩ ⟨validB, validD⟩ rest rest' same
  dsimp only at same
  rw [List.append_assoc, List.append_assoc] at same
  obtain ⟨first, tail⟩ := code validA validB same
  obtain ⟨second, tail⟩ := code' validC validD tail
  exact ⟨Prod.ext first second, tail⟩

/-- Sequences of codewords that are not empty determine the values. -/
theorem flatMap_injective (code : SelfDelimiting valid encode) (nonempty : ∀ a, valid a → encode a ≠ [])
    {values values' : List α} (allValid : ∀ a ∈ values, valid a) (allValid' : ∀ a ∈ values', valid a)
    (same : values.flatMap encode = values'.flatMap encode) : values = values' := by
  induction values generalizing values' with
  | nil =>
    cases values' with
    | nil => rfl
    | cons b values' =>
      rw [List.flatMap_nil, List.flatMap_cons] at same
      exact absurd (List.append_eq_nil_iff.mp same.symm).1 (nonempty b (allValid' b List.mem_cons_self))
  | cons a values ih =>
    cases values' with
    | nil =>
      rw [List.flatMap_nil, List.flatMap_cons] at same
      exact absurd (List.append_eq_nil_iff.mp same).1 (nonempty a (allValid a List.mem_cons_self))
    | cons b values' =>
      rw [List.flatMap_cons, List.flatMap_cons] at same
      obtain ⟨rfl, rest⟩ := code (allValid a List.mem_cons_self) (allValid' b List.mem_cons_self) same
      rw [ih (fun c member => allValid c (List.mem_cons_of_mem _ member))
        (fun c member => allValid' c (List.mem_cons_of_mem _ member)) rest]

/-- No codeword begins with another. -/
theorem eq_of_isPrefix (code : SelfDelimiting valid encode) {a b : α} (validA : valid a) (validB : valid b)
    (begins : encode a <+: encode b) : a = b := by
  obtain ⟨rest, same⟩ := begins
  rw [← List.append_nil (encode b)] at same
  exact (code validA validB same).1

end SelfDelimiting

end OpenLegal.Theory
