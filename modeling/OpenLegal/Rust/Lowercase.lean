import OpenLegal.Rust.Trim

/-! # Lower-case texts

`str::to_lowercase` maps each character to its lower-case form, which may be longer than the character. The
sigma at the end of a word is the one form that depends on what stands around it.
-/

namespace OpenLegal.Rust

open Str

def isAscii (c : Char) : Bool := c.val < 0x80

def isAsciiUppercase (c : Char) : Bool := 'A'.val ≤ c.val && c.val ≤ 'Z'.val

/-- `char::to_ascii_lowercase`. -/
def asciiLower (c : Char) : Char := if isAsciiUppercase c then Char.ofNat (c.toNat + 32) else c

/-- The case tables of a version of Unicode: the lower-case forms and the two properties that a final sigma
is told by. Forms are lower-case themselves, and only two characters outside ASCII have an ASCII letter in
theirs: the Kelvin sign and the dotted capital I. -/
structure Casing (unicode : Unicode) where
  /-- `char::to_lowercase`. -/
  toLowercase : Char → Str
  isCased : Char → Bool
  isCaseIgnorable : Char → Bool
  ascii : ∀ c, isAscii c = true → toLowercase c = [asciiLower c]
  nonempty : ∀ c, toLowercase c ≠ []
  settled : ∀ c, ∀ d ∈ toLowercase c, toLowercase d = [d]
  latin : ∀ c, ∀ d ∈ toLowercase c, isAscii d = true → isAscii c = true ∨ d = 'k' ∨ d = 'i'
  letters : ∀ c, isAsciiUppercase c = true ∨ isAsciiLowercase c = true → isCased c = true ∧ isCaseIgnorable c = false
  sigma : toLowercase 'Σ' = ['σ']
  finalSigma : toLowercase 'ς' = ['ς']
  greek : unicode.isAlphanumeric 'σ' = true ∧ unicode.isAlphanumeric 'ς' = true

namespace Casing

variable {unicode : Unicode} (casing : Casing unicode)

/-- The first character that is not ignored has a case. -/
def caseIgnorableThenCased (s : Str) : Bool := (s.dropWhile casing.isCaseIgnorable).head?.any casing.isCased

/-- The lower-case sigma between the reversed text before it and the text after it. -/
def mapUppercaseSigma (before after : Str) : Char :=
  if casing.caseIgnorableThenCased before && !casing.caseIgnorableThenCased after then 'ς' else 'σ'

/-- The lower-case form of a text that follows a reversed one. -/
def lowercaseFrom (before : Str) : Str → Str
  | [] => []
  | c :: rest =>
    (if c = 'Σ' then [casing.mapUppercaseSigma before rest] else casing.toLowercase c) ++ lowercaseFrom (c :: before) rest

attribute [grind =] lowercaseFrom

/-- `str::to_lowercase`. -/
def lowercase (s : Str) : Str := casing.lowercaseFrom [] s

/-- Each character has become its form, a sigma either of its two. -/
inductive Lowered : Str → Str → Prop where
  | nil : Lowered [] []
  | cons {c : Char} {piece s t : Str} (form : piece = casing.toLowercase c ∨ c = 'Σ' ∧ piece = ['ς']) (more : Lowered s t) :
    Lowered (c :: s) (piece ++ t)

theorem lowered_lowercaseFrom (before s : Str) : casing.Lowered s (casing.lowercaseFrom before s) := by
  induction s generalizing before with
  | nil => exact .nil
  | cons c rest ih =>
    rw [lowercaseFrom]
    refine .cons ?_ (ih (c :: before))
    split
    · next upper =>
      subst upper
      rw [mapUppercaseSigma, casing.sigma]
      split
      · exact .inr ⟨rfl, rfl⟩
      · exact .inl rfl
    · exact .inl rfl

theorem lowered_lowercase (s : Str) : casing.Lowered s (casing.lowercase s) := casing.lowered_lowercaseFrom [] s

/-! ## Normal forms -/

variable {casing} {s t : Str}

theorem Lowered.settled (lowered : casing.Lowered s t) : ∀ d ∈ t, casing.toLowercase d = [d] := by
  induction lowered with
  | nil =>
    intro d impossible
    cases impossible
  | @cons c piece s t form more ih =>
    intro d member
    rcases List.mem_append.mp member with inside | inside
    · rcases form with rfl | ⟨-, rfl⟩
      · exact casing.settled c d inside
      · rw [List.mem_singleton.mp inside]
        exact casing.finalSigma
    · exact ih d inside

theorem lowercaseFrom_of_settled (before : Str) (settled : ∀ d ∈ s, casing.toLowercase d = [d]) :
    casing.lowercaseFrom before s = s := by
  induction s generalizing before with
  | nil => rfl
  | cons c rest ih =>
    rw [List.forall_mem_cons] at settled
    have other : c ≠ 'Σ' := by
      rintro rfl
      rw [casing.sigma] at settled
      exact absurd settled.1 (by decide)
    rw [lowercaseFrom, if_neg other, settled.1, ih _ settled.2]
    rfl

/-- Lower-case texts stay as they are. -/
theorem lowercase_lowercase (s : Str) : casing.lowercase (casing.lowercase s) = casing.lowercase s :=
  lowercaseFrom_of_settled [] (casing.lowered_lowercase s).settled

/-! ## The case of ASCII letters -/

/-- A property of all ASCII characters is checked on their numbers. -/
theorem ascii_forall {P : Char → Prop} (each : ∀ n < 0x80, P (Char.ofNat n)) {c : Char} (ascii : isAscii c = true) : P c := by
  rw [← Char.ofNat_toNat c]
  apply each
  simpa [isAscii, UInt32.lt_iff_toNat_lt] using ascii

theorem isAscii_of_upper {c : Char} (upper : isAsciiUppercase c = true) : isAscii c = true := by
  simp only [isAsciiUppercase, isAscii, Bool.and_eq_true, decide_eq_true_eq, UInt32.le_iff_toNat_le, UInt32.lt_iff_toNat_lt,
    Char.reduceVal, UInt32.reduceToNat] at upper ⊢
  omega

theorem isAscii_of_lower {c : Char} (lower : isAsciiLowercase c = true) : isAscii c = true := by
  simp only [isAsciiLowercase, isAscii, Bool.and_eq_true, decide_eq_true_eq, UInt32.le_iff_toNat_le, UInt32.lt_iff_toNat_lt,
    Char.reduceVal, UInt32.reduceToNat] at lower ⊢
  omega

/-- A character is its own ASCII lower-case form, or a capital letter. -/
theorem asciiLower_cases (c : Char) :
    asciiLower c = c ∨ isAsciiUppercase c = true ∧ isAscii c = true ∧ isAscii (asciiLower c) = true ∧
      isAsciiLowercase (asciiLower c) = true ∧ asciiLower (asciiLower c) = asciiLower c := by
  cases upper : isAsciiUppercase c with
  | false => exact .inl (by rw [asciiLower, upper]; rfl)
  | true =>
    have ascii := isAscii_of_upper upper
    have letter : isAsciiUppercase c = true → isAscii (asciiLower c) = true ∧ isAsciiLowercase (asciiLower c) = true ∧
        asciiLower (asciiLower c) = asciiLower c :=
      ascii_forall (P := fun c => isAsciiUppercase c = true → isAscii (asciiLower c) = true ∧
        isAsciiLowercase (asciiLower c) = true ∧ asciiLower (asciiLower c) = asciiLower c) (by decide +kernel) ascii
    exact .inr ⟨rfl, ascii, letter upper⟩

@[simp] theorem toLowercase_asciiLower (c : Char) : casing.toLowercase (asciiLower c) = casing.toLowercase c := by
  rcases asciiLower_cases c with same | ⟨-, ascii, lower, -, fixed⟩
  · rw [same]
  · rw [casing.ascii _ lower, casing.ascii c ascii, fixed]

theorem properties_asciiLower (c : Char) :
    casing.isCased (asciiLower c) = casing.isCased c ∧ casing.isCaseIgnorable (asciiLower c) = casing.isCaseIgnorable c := by
  rcases asciiLower_cases c with same | ⟨upper, -, -, lower, -⟩
  · rw [same]
    exact ⟨rfl, rfl⟩
  · obtain ⟨cased, kept⟩ := casing.letters c (.inl upper)
    obtain ⟨loweredCased, loweredKept⟩ := casing.letters _ (.inr lower)
    exact ⟨loweredCased.trans cased.symm, loweredKept.trans kept.symm⟩

theorem asciiLower_eq_sigma (c : Char) : asciiLower c = 'Σ' ↔ c = 'Σ' := by
  rcases asciiLower_cases c with same | ⟨-, ascii, lower, -, -⟩
  · rw [same]
  · constructor
    · intro equal
      rw [equal] at lower
      exact absurd lower (by decide)
    · rintro rfl
      exact absurd ascii (by decide)

theorem caseIgnorableThenCased_ascii (s : Str) :
    casing.caseIgnorableThenCased (s.map asciiLower) = casing.caseIgnorableThenCased s := by
  induction s with
  | nil => rfl
  | cons c rest ih =>
    obtain ⟨cased, ignored⟩ := @properties_asciiLower _ casing c
    simp only [caseIgnorableThenCased] at ih ⊢
    rw [List.map_cons, List.dropWhile_cons, List.dropWhile_cons, ignored]
    split
    · exact ih
    · exact cased

theorem lowercaseFrom_ascii (before s : Str) :
    casing.lowercaseFrom (before.map asciiLower) (s.map asciiLower) = casing.lowercaseFrom before s := by
  induction s generalizing before with
  | nil => rfl
  | cons c rest ih =>
    have next := ih (c :: before)
    rw [List.map_cons] at next ⊢
    simp only [lowercaseFrom, asciiLower_eq_sigma, toLowercase_asciiLower, mapUppercaseSigma, caseIgnorableThenCased_ascii, next]

/-- The case of ASCII letters does not matter. -/
theorem lowercase_ascii (s : Str) : casing.lowercase (s.map asciiLower) = casing.lowercase s := lowercaseFrom_ascii [] s

/-! ## What the forms say about the text -/

theorem Lowered.byteLen_eq (lowered : casing.Lowered s t) : byteLen t = (s.map fun c => byteLen (casing.toLowercase c)).sum := by
  induction lowered with
  | nil => rfl
  | @cons c piece s t form more ih =>
    rw [byteLen_append, List.map_cons, List.sum_cons, ih]
    rcases form with rfl | ⟨rfl, rfl⟩
    · rfl
    · rw [casing.sigma]
      rfl

/-- A property of both sigmas holds of the text's characters as it does of all forms. -/
theorem Lowered.forall_iff (lowered : casing.Lowered s t) {P : Char → Prop} (sigma : P 'σ') (final : P 'ς') :
    (∀ d ∈ t, P d) ↔ ∀ c ∈ s, ∀ d ∈ casing.toLowercase c, P d := by
  induction lowered with
  | nil => simp
  | @cons c piece s t form more ih =>
    rw [List.forall_mem_append, List.forall_mem_cons, ih]
    rcases form with rfl | ⟨rfl, rfl⟩
    · rfl
    · simp [casing.sigma, sigma, final]

theorem Lowered.append_left {a b : Str} (lowered : casing.Lowered (a ++ b) t) :
    ∃ u v, t = u ++ v ∧ casing.Lowered a u ∧ casing.Lowered b v := by
  induction a generalizing t with
  | nil => exact ⟨[], t, rfl, .nil, lowered⟩
  | cons c a ih =>
    cases lowered with
    | @cons _ piece _ t form more =>
      obtain ⟨u, v, rfl, front, rear⟩ := ih more
      exact ⟨piece ++ u, v, (List.append_assoc piece u v).symm, .cons form front, rear⟩

theorem Lowered.singleton {c : Char} (lowered : casing.Lowered [c] t) (other : c ≠ 'Σ') : t = casing.toLowercase c := by
  cases lowered with
  | cons form more =>
    cases more with
    | nil =>
      rcases form with rfl | ⟨impossible, -⟩
      · exact List.append_nil _
      · exact absurd impossible other

theorem Lowered.eq_nil_iff (lowered : casing.Lowered s t) : t = [] ↔ s = [] := by
  cases lowered with
  | nil => exact ⟨fun _ => rfl, fun _ => rfl⟩
  | @cons c piece s t form more =>
    have filled : piece ≠ [] := by
      rcases form with rfl | ⟨-, rfl⟩
      · exact casing.nonempty c
      · exact List.cons_ne_nil _ _
    simp [filled]

/-- A form of ASCII letters, but for the two that other characters have, is the form of ASCII letters. -/
theorem Lowered.eq_map_asciiLower (lowered : casing.Lowered s t) (latin : ∀ d ∈ t, isAscii d = true ∧ d ≠ 'k' ∧ d ≠ 'i') :
    t = s.map asciiLower := by
  induction lowered with
  | nil => rfl
  | @cons c piece s t form more ih =>
    rw [List.forall_mem_append] at latin
    have shape : piece = [asciiLower c] := by
      rcases form with rfl | ⟨-, rfl⟩
      · obtain ⟨d, inside⟩ := List.exists_mem_of_ne_nil _ (casing.nonempty c)
        obtain ⟨ascii, first, second⟩ := latin.1 d inside
        exact casing.ascii c ((casing.latin c d inside ascii).resolve_right (by simp [first, second]))
      · exact absurd (latin.1 'ς' List.mem_cons_self).1 (by decide)
    rw [shape, ih latin.2]
    rfl

/-- Where white space stays and nothing else becomes white space, every word of the lower-case text is the form of a word. -/
theorem Lowered.splitWhitespace (lowered : casing.Lowered s t) (stays : ∀ c ∈ s, isWhitespace c = true → casing.toLowercase c = [c])
    (visible : ∀ c ∈ s, isWhitespace c = false → ∀ d ∈ casing.toLowercase c, isWhitespace d = false) :
    ∀ form ∈ splitWhitespace t, ∃ word ∈ splitWhitespace s, casing.Lowered word form := by
  have plain : isWhitespace 'σ' = false ∧ isWhitespace 'ς' = false ∧ isWhitespace 'Σ' = false := by decide +kernel
  induction length : s.length using Nat.strongRecOn generalizing s t with
  | ind n ih =>
    have split : s.takeWhile (!isWhitespace ·) ++ s.dropWhile (!isWhitespace ·) = s := List.takeWhile_append_dropWhile
    have front : ∀ c ∈ s.takeWhile (!isWhitespace ·), isWhitespace c = false := by
      intro c member
      simpa using List.all_eq_true.mp (@List.all_takeWhile _ (!isWhitespace ·) s) c member
    cases rear : s.dropWhile (!isWhitespace ·) with
    | nil =>
      -- the text is one word, or empty
      rw [rear, List.append_nil] at split
      rw [split] at front
      have shown : ∀ d ∈ t, isWhitespace d = false :=
        (lowered.forall_iff plain.1 plain.2.1).mpr fun c member => visible c member (front c member)
      rcases eq_or_ne s [] with rfl | filled
      · rw [lowered.eq_nil_iff.mpr rfl]
        intro form impossible
        cases impossible
      · have whole := @splitWhitespace_word s [] ⟨filled, front⟩ (fun c none => by cases none)
        have formed := @splitWhitespace_word t [] ⟨fun empty => filled (lowered.eq_nil_iff.mp empty), shown⟩
          (fun c none => by cases none)
        have none : Str.splitWhitespace [] = [] := rfl
        rw [List.append_nil, none] at whole formed
        rw [whole, formed]
        intro form member
        rw [List.mem_singleton] at member
        rw [member]
        exact ⟨s, List.mem_cons_self, lowered⟩
    | cons c b =>
      rw [rear] at split
      have blank : isWhitespace c = true := by
        have stops := List.head?_dropWhile_not (!isWhitespace ·) s
        rw [rear] at stops
        simpa using stops
      generalize s.takeWhile (!isWhitespace ·) = a at split
      subst split
      obtain ⟨u, v, rfl, before, after⟩ := lowered.append_left
      rw [← List.singleton_append] at after
      obtain ⟨piece, w, rfl, single, after⟩ := after.append_left
      have other : c ≠ 'Σ' := by
        rintro rfl
        rw [plain.2.2] at blank
        cases blank
      rw [single.singleton other, stays c (by simp) blank, List.singleton_append, splitWhitespace_append_blank blank,
        splitWhitespace_append_blank blank]
      rw [List.length_append, List.length_cons] at length
      intro form member
      rcases List.mem_append.mp member with member | member
      · obtain ⟨word, listed, formed⟩ := ih a.length (by omega) before (fun c inside => stays c (by simp [inside]))
          (fun c inside => visible c (by simp [inside])) rfl form member
        exact ⟨word, List.mem_append_left _ listed, formed⟩
      · obtain ⟨word, listed, formed⟩ := ih b.length (by omega) after (fun c inside => stays c (by simp [inside]))
          (fun c inside => visible c (by simp [inside])) rfl form member
        exact ⟨word, List.mem_append_right _ listed, formed⟩

/-- The form of one character that is not white space. -/
private theorem Lowered.shown {c : Char} (lowered : casing.Lowered [c] t) (visible : ∀ d ∈ casing.toLowercase c, isWhitespace d = false) :
    t ≠ [] ∧ ∀ d ∈ t, isWhitespace d = false := by
  refine ⟨fun empty => List.cons_ne_nil c [] (lowered.eq_nil_iff.mp empty), ?_⟩
  have sigma : isWhitespace 'σ' = false ∧ isWhitespace 'ς' = false := by decide +kernel
  refine (lowered.forall_iff sigma.1 sigma.2).mpr fun d member => ?_
  rw [List.mem_singleton.mp member]
  exact visible

/-- The ends of the lower-case text are forms of the text's ends. -/
theorem Lowered.trimmed (lowered : casing.Lowered s t) (trimmed : Trimmed s)
    (visible : ∀ c ∈ s, isWhitespace c = false → ∀ d ∈ casing.toLowercase c, isWhitespace d = false) : Trimmed t := by
  constructor
  · intro d first
    cases s with
    | nil =>
      rw [lowered.eq_nil_iff.mpr rfl] at first
      cases first
    | cons c s =>
      rw [← List.singleton_append] at lowered
      obtain ⟨u, v, rfl, single, -⟩ := lowered.append_left
      obtain ⟨filled, shown⟩ := single.shown (visible c List.mem_cons_self (trimmed.first c rfl))
      rw [List.head?_append_of_ne_nil u filled] at first
      exact shown d (List.mem_of_mem_head? first)
  · intro d last
    rcases List.eq_nil_or_concat' s with rfl | ⟨s, c, rfl⟩
    · rw [lowered.eq_nil_iff.mpr rfl] at last
      cases last
    · obtain ⟨u, v, rfl, -, single⟩ := lowered.append_left
      obtain ⟨filled, shown⟩ := single.shown (visible c (by simp) (trimmed.last c (by simp)))
      rw [List.getLast?_append_of_ne_nil u filled] at last
      exact shown d (List.mem_of_mem_getLast? last)

end Casing

end OpenLegal.Rust
