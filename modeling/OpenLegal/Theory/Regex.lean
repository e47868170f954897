import Mathlib.Computability.Language

/-! # Regular expressions

Expressions over classes of letters, the language of each, and the words that it accepts by derivatives. An expression
accepts exactly the words of its language.
-/

namespace OpenLegal.Theory

/-- Expressions over classes of letters. -/
inductive Regex (α : Type) where
  | zero
  | one
  | letter (accepts : α → Bool)
  | alt (first second : Regex α)
  | seq (first second : Regex α)
  | star (inner : Regex α)

namespace Regex

variable {α : Type}

/-- The words that an expression stands for. -/
def language : Regex α → Language α
  | zero => 0
  | one => 1
  | letter accepts => {word | ∃ a, accepts a = true ∧ word = [a]}
  | alt first second => first.language + second.language
  | seq first second => first.language * second.language
  | star inner => KStar.kstar inner.language

/-- An expression or nothing. -/
def optional (inner : Regex α) : Regex α := alt inner one

/-- Expressions one after the other. -/
def sequence (items : List (Regex α)) : Regex α := items.foldr seq one

/-! ## Words of a language -/

variable {first second inner : Regex α} {word : List α}

@[simp] theorem mem_zero : word ∉ (zero : Regex α).language := fun impossible => impossible

@[simp] theorem mem_one : word ∈ (one : Regex α).language ↔ word = [] := Iff.rfl

@[simp] theorem mem_letter {accepts : α → Bool} : word ∈ (letter accepts).language ↔ ∃ a, accepts a = true ∧ word = [a] :=
  Iff.rfl

@[simp] theorem mem_alt : word ∈ (alt first second).language ↔ word ∈ first.language ∨ word ∈ second.language := Iff.rfl

@[simp] theorem mem_seq :
    word ∈ (seq first second).language ↔ ∃ u ∈ first.language, ∃ v ∈ second.language, u ++ v = word := Language.mem_mul

@[simp] theorem mem_optional : word ∈ (optional inner).language ↔ word ∈ inner.language ∨ word = [] := Iff.rfl

@[simp] theorem mem_sequence_nil : word ∈ (sequence ([] : List (Regex α))).language ↔ word = [] := Iff.rfl

theorem mem_sequence_cons {items : List (Regex α)} : word ∈ (sequence (first :: items)).language ↔
    ∃ u ∈ first.language, ∃ v ∈ (sequence items).language, u ++ v = word := Language.mem_mul

/-- Any number of letters of one class. -/
theorem mem_star_letter {accepts : α → Bool} :
    word ∈ (star (letter accepts)).language ↔ ∀ a ∈ word, accepts a = true := by
  rw [language, Language.mem_kstar]
  constructor
  · rintro ⟨words, rfl, letters⟩ a member
    obtain ⟨letters', inside, here⟩ := List.mem_flatten.mp member
    obtain ⟨b, accepted, rfl⟩ := letters letters' inside
    rwa [List.mem_singleton.mp here]
  · intro all
    refine ⟨word.map fun a => [a], ?_, ?_⟩
    · induction word with
      | nil => rfl
      | cons a word ih =>
        rw [List.forall_mem_cons] at all
        rw [List.map_cons, List.flatten_cons, ← ih all.2]
        rfl
    · exact List.forall_mem_map.mpr fun a member => ⟨a, all a member, rfl⟩

/-! ## Derivatives -/

def nullable : Regex α → Bool
  | zero => false
  | one => true
  | letter _ => false
  | alt first second => first.nullable || second.nullable
  | seq first second => first.nullable && second.nullable
  | star _ => true

/-- What is left to match behind a letter. -/
def derivative (a : α) : Regex α → Regex α
  | zero => zero
  | one => zero
  | letter accepts => if accepts a then one else zero
  | alt first second => alt (first.derivative a) (second.derivative a)
  | seq first second =>
    if first.nullable then alt (seq (first.derivative a) second) (second.derivative a) else seq (first.derivative a) second
  | star inner => seq (inner.derivative a) (star inner)

def accepts (regex : Regex α) : List α → Bool
  | [] => regex.nullable
  | a :: word => (regex.derivative a).accepts word

theorem nullable_iff (regex : Regex α) : regex.nullable = true ↔ [] ∈ regex.language := by
  induction regex with
  | zero => simp [nullable]
  | one => simp [nullable]
  | letter accepts => simp [nullable]
  | alt first second ih ih' => simp [nullable, ih, ih']
  | seq first second ih ih' => simp [nullable, ih, ih']
  | star inner ih => exact iff_of_true rfl (Language.nil_mem_kstar _)

theorem cons_mem_seq {a : α} : a :: word ∈ (seq first second).language ↔
    (∃ u, a :: u ∈ first.language ∧ ∃ v ∈ second.language, u ++ v = word) ∨
      [] ∈ first.language ∧ a :: word ∈ second.language := by
  rw [mem_seq]
  constructor
  · rintro ⟨u, left, v, right, same⟩
    cases u with
    | nil => exact .inr ⟨left, same ▸ right⟩
    | cons b u =>
      obtain ⟨rfl, rfl⟩ := List.cons.inj same
      exact .inl ⟨u, left, v, right, rfl⟩
  · rintro (⟨u, left, v, right, rfl⟩ | ⟨left, right⟩)
    · exact ⟨a :: u, left, v, right, rfl⟩
    · exact ⟨[], left, a :: word, right, rfl⟩

theorem cons_mem_star {a : α} : a :: word ∈ (star inner).language ↔
    ∃ u, a :: u ∈ inner.language ∧ ∃ v ∈ (star inner).language, u ++ v = word := by
  constructor
  · intro member
    obtain ⟨words, same, inside⟩ := Language.mem_kstar_iff_exists_nonempty.mp member
    cases words with
    | nil => cases same
    | cons first words =>
      rw [List.forall_mem_cons] at inside
      obtain ⟨b, u, rfl⟩ := List.exists_cons_of_ne_nil inside.1.2
      obtain ⟨rfl, rfl⟩ := List.cons.inj same
      exact ⟨u, inside.1.1, words.flatten, Language.mem_kstar.mpr ⟨words, rfl, fun w known => (inside.2 w known).1⟩, rfl⟩
  · rintro ⟨u, left, v, right, rfl⟩
    obtain ⟨words, rfl, inside⟩ := Language.mem_kstar.mp right
    exact Language.mem_kstar.mpr ⟨(a :: u) :: words, rfl, List.forall_mem_cons.mpr ⟨left, inside⟩⟩

theorem derivative_iff (a : α) (regex : Regex α) (word : List α) :
    word ∈ (regex.derivative a).language ↔ a :: word ∈ regex.language := by
  induction regex generalizing word with
  | zero => exact Iff.rfl
  | one => simp [derivative]
  | letter accepts =>
    rw [derivative]
    split_ifs with accepted <;> simp [accepted]
  | alt first second ih ih' => simp [derivative, ih, ih']
  | seq first second ih ih' =>
    rw [cons_mem_seq, ← nullable_iff, derivative]
    split_ifs with empty <;> simp [empty, ih, ih']
  | star inner ih =>
    rw [cons_mem_star, derivative, mem_seq]
    simp only [ih]

/-- An expression accepts the words of its language. -/
theorem accepts_iff (regex : Regex α) (word : List α) : regex.accepts word = true ↔ word ∈ regex.language := by
  induction word generalizing regex with
  | nil => exact nullable_iff regex
  | cons a word ih => rw [accepts, ih, derivative_iff]

end Regex

end OpenLegal.Theory
