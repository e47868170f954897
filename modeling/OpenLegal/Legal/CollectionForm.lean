import OpenLegal.Legal.Collection
import OpenLegal.Legal.SearchIndex
import OpenLegal.Rust.Lowercase
import OpenLegal.Theory.KeyedOrder

/-! # The normal form of collection requests

Requests are stored with a lower-case term and sorted datasets, so that spellings of one request are one
request. What is stored is validated again when it is read.
-/

namespace OpenLegal.Legal

open Rust Rust.Str Theory

namespace CollectionRequest

variable {unicode : Unicode} (casing : Casing unicode)

/-- What a search without datasets searches. -/
def searchedDatasets : List Dataset :=
  [.nationalStatute, .administrativeRule, .ordinance, .treaty, .precedent, .constitutionalDecision, .legalInterpretation,
    .administrativeAppeal]

def normalized (request : CollectionRequest) : CollectionRequest :=
  match request.target with
  | .search mode term datasets =>
    let datasets := if datasets.isEmpty then searchedDatasets else datasets
    ⟨.search mode (casing.lowercase term) (sortByKey Dataset.debugName datasets)⟩
  | _ => request

/-- The characters of a term. -/
def isTermChar (unicode : Unicode) (c : Char) : Bool := unicode.isAlphanumeric c || c == ' ' || c == '-'

/-- Spellings of one request: the datasets in another order, the term's ASCII letters in another case. -/
inductive Respelled : CollectionRequest → CollectionRequest → Prop where
  | refl (request : CollectionRequest) : Respelled request request
  | search (mode : CollectionSearchMode) {term other : Str} {datasets others : List Dataset}
    (letters : toAsciiLowercase term = toAsciiLowercase other) (perm : datasets.Perm others) :
    Respelled ⟨.search mode term datasets⟩ ⟨.search mode other others⟩

/-- The lower-case forms of a term's characters make up a term again. -/
def FormsFit (term : Str) : Prop :=
  (∀ c ∈ term, ∀ d ∈ casing.toLowercase c, isTermChar unicode d = true) ∧
    (term.map fun c => byteLen (casing.toLowercase c)).sum ≤ 128

/-- What a request and its spellings are normalized for. -/
structure Canonical (request : CollectionRequest) : Prop where
  idempotent : (request.normalized casing).normalized casing = request.normalized casing
  respelled : ∀ other, Respelled request other → other.normalized casing = request.normalized casing
  everything : ∀ mode term datasets, request.target = .search mode term [] → datasets.Perm searchedDatasets →
    request.normalized casing = normalized casing ⟨.search mode term datasets⟩
  valid : request.validate unicode = .ok () → (request.normalized casing).validate unicode = .ok ()

section Validation

variable {casing} {mode : CollectionSearchMode} {term : Str} {datasets : List Dataset}

theorem validate_search_iff : validate unicode ⟨.search mode term datasets⟩ = .ok () ↔
    trim term = term ∧ term ≠ [] ∧ byteLen term ≤ 128 ∧ (∀ c ∈ term, isTermChar unicode c = true) ∧ datasets.length ≤ 8 ∧
      (mode = .query → ∀ word ∈ splitWhitespace term, isOperatorName word = false) ∧ datasets.Nodup := by
  simp only [validate, ite_error_eq_ok, Bool.or_eq_true, not_or, decide_eq_true_eq, not_not, gt_iff_lt, Nat.not_lt,
    Bool.and_eq_true, not_and, beq_iff_eq, Bool.not_eq_true, List.any_eq_false, Bool.not_eq_true', Bool.not_eq_false,
    List.isEmpty_eq_false_iff, isTermChar, and_true, ne_eq, and_assoc]

/-- An operator name has no letter that a character outside ASCII has as its form. -/
theorem latin_of_isOperatorName {word : Str} (named : isOperatorName word = true) :
    ∀ d ∈ word, isAscii d = true ∧ d ≠ 'k' ∧ d ≠ 'i' := by
  have upper : ∀ d ∈ toAsciiUppercase word, d ∈ ['A', 'N', 'D', 'O', 'R', 'T'] := by
    simp only [isOperatorName, List.contains_eq_mem, decide_eq_true_eq, List.mem_cons, List.not_mem_nil, or_false] at named
    rcases named with same | same | same <;> rw [same] <;> simp
  intro d member
  have shape := upper _ (List.mem_map_of_mem member)
  have ascii : isAscii d = true := by
    split at shape
    · next lower => exact Casing.isAscii_of_lower lower
    · simp only [List.mem_cons, List.not_mem_nil, or_false] at shape
      rcases shape with rfl | rfl | rfl | rfl | rfl | rfl <;> rfl
  refine ⟨ascii, ?_, ?_⟩
  · rintro rfl
    exact absurd shape (by decide)
  · rintro rfl
    exact absurd shape (by decide)

theorem toAsciiUppercase_asciiLower (s : Str) : toAsciiUppercase (s.map asciiLower) = toAsciiUppercase s := by
  rw [toAsciiUppercase, toAsciiUppercase, List.map_map]
  apply List.map_congr_left
  intro c _
  rcases Casing.asciiLower_cases c with same | ⟨-, ascii, -⟩
  · rw [Function.comp_apply, same]
  · exact Casing.ascii_forall (P := fun c => ((fun c => if isAsciiLowercase c then Char.ofNat (c.toNat - 32) else c) ∘ asciiLower) c =
      if isAsciiLowercase c then Char.ofNat (c.toNat - 32) else c) (by decide +kernel) ascii

theorem isOperatorName_of_lowered {word form : Str} (lowered : casing.Lowered word form) (named : isOperatorName form = true) :
    isOperatorName word = true := by
  rw [lowered.eq_map_asciiLower (latin_of_isOperatorName named), isOperatorName, toAsciiUppercase_asciiLower] at named
  exact named

/-- Only the space itself has a space in its form. -/
theorem visible_of_formsFit (fit : FormsFit casing term) :
    ∀ c ∈ term, isWhitespace c = false → ∀ d ∈ casing.toLowercase c, isWhitespace d = false := by
  intro c member visible d inside
  have shape := fit.1 c member d inside
  simp only [isTermChar, Bool.or_eq_true, beq_iff_eq] at shape
  rcases shape with (letter | rfl) | rfl
  · exact (unicode.separated d letter).1
  · have ascii := (casing.latin c ' ' inside (by decide)).resolve_right (by decide)
    rw [casing.ascii c ascii, List.mem_singleton] at inside
    rcases Casing.asciiLower_cases c with same | ⟨-, -, -, lower, -⟩
    · rw [inside, same]
      exact visible
    · rw [← inside] at lower
      exact absurd lower (by decide)
  · decide +kernel

/-- A valid search stays valid exactly if the forms of its term fit. -/
theorem validate_normalized_iff (accepted : validate unicode ⟨.search mode term datasets⟩ = .ok ()) :
    (normalized casing ⟨.search mode term datasets⟩).validate unicode = .ok () ↔ FormsFit casing term := by
  obtain ⟨trimmed, nonempty, -, letters, few, operators, distinct⟩ := (validate_search_iff).mp accepted
  have lowered := casing.lowered_lowercase term
  have sigmas : isTermChar unicode 'σ' = true ∧ isTermChar unicode 'ς' = true := by simp [isTermChar, casing.greek]
  have forms := @Casing.Lowered.forall_iff _ _ _ _ lowered (isTermChar unicode · = true) sigmas.1 sigmas.2
  rw [normalized, validate_search_iff, forms, lowered.byteLen_eq]
  constructor
  · rintro ⟨-, -, short, fit, -⟩
    exact ⟨fit, short⟩
  · intro fit
    have visible := visible_of_formsFit fit
    have stays : ∀ c ∈ term, isWhitespace c = true → casing.toLowercase c = [c] := by
      intro c member blank
      have shape := letters c member
      simp only [isTermChar, Bool.or_eq_true, beq_iff_eq] at shape
      rcases shape with (letter | rfl) | rfl
      · rw [(unicode.separated c letter).1] at blank
        cases blank
      · exact casing.ascii ' ' (by decide)
      · exact casing.ascii '-' (by decide)
    have chosen : (if datasets.isEmpty then searchedDatasets else datasets).length ≤ 8 ∧
        (if datasets.isEmpty then searchedDatasets else datasets).Nodup := by
      split
      · decide
      · exact ⟨few, distinct⟩
    have perm := @sortByKey_perm _ _ _ Dataset.debugName (if datasets.isEmpty then searchedDatasets else datasets)
    refine ⟨?_, ?_, fit.2, fit.1, ?_, ?_, ?_⟩
    · exact (lowered.trimmed (trimmed ▸ trimmed_trim term) visible).trim_eq_self
    · exact fun empty => nonempty (lowered.eq_nil_iff.mp empty)
    · rw [perm.length_eq]
      exact chosen.1
    · intro query form member
      obtain ⟨word, listed, formed⟩ := lowered.splitWhitespace stays visible form member
      have other := operators query word listed
      rw [Bool.eq_false_iff] at other ⊢
      exact fun named => other (isOperatorName_of_lowered formed named)
    · exact perm.nodup_iff.mpr chosen.2

end Validation

variable {casing}

theorem sortByKey_debugName {datasets others : List Dataset} (perm : datasets.Perm others) :
    sortByKey Dataset.debugName datasets = sortByKey Dataset.debugName others :=
  sortByKey_eq (.of_injective (fun _ _ => Dataset.debugName_injective) datasets) perm

theorem normalized_normalized (request : CollectionRequest) :
    (request.normalized casing).normalized casing = request.normalized casing := by
  rcases request with ⟨object | ⟨caseNumber, expectedId⟩ | ⟨mode, term, datasets⟩⟩
  · rfl
  · rfl
  · have perm := @sortByKey_perm _ _ _ Dataset.debugName (if datasets.isEmpty then searchedDatasets else datasets)
    have filled : (sortByKey Dataset.debugName (if datasets.isEmpty then searchedDatasets else datasets)).isEmpty = false := by
      rw [perm.isEmpty_eq]
      split
      · rfl
      · next shown => simpa using shown
    simp only [normalized, filled, Bool.false_eq_true, if_false, Casing.lowercase_lowercase, sortByKey_debugName perm]

theorem normalized_of_respelled {request other : CollectionRequest} (respelled : Respelled request other) :
    other.normalized casing = request.normalized casing := by
  cases respelled with
  | refl => rfl
  | @search mode term other datasets others letters perm =>
    have spelled : casing.lowercase other = casing.lowercase term := by
      rw [← Casing.lowercase_ascii, ← @Casing.lowercase_ascii _ casing term]
      exact congrArg casing.lowercase letters.symm
    have chosen : (if others.isEmpty then searchedDatasets else others).Perm (if datasets.isEmpty then searchedDatasets else datasets) := by
      rw [perm.isEmpty_eq]
      split
      · exact .refl _
      · exact perm.symm
    simp only [normalized, spelled, sortByKey_debugName chosen]

theorem normalized_everything {mode : CollectionSearchMode} {term : Str} {datasets : List Dataset} (perm : datasets.Perm searchedDatasets) :
    normalized casing ⟨.search mode term []⟩ = normalized casing ⟨.search mode term datasets⟩ := by
  have filled : datasets.isEmpty = false := by
    rw [perm.isEmpty_eq]
    rfl
  simp only [normalized, List.isEmpty_nil, if_true, filled, Bool.false_eq_true, if_false, sortByKey_debugName perm]

/-- Normalization is what it is for, but for valid searches with a character whose lower-case form is none of a
term, or with a term that grows too long. -/
theorem canonical_iff (request : CollectionRequest) :
    Canonical casing request ↔ (request.validate unicode = .ok () → ∀ mode term datasets,
      request.target = .search mode term datasets → FormsFit casing term) := by
  constructor
  · rintro ⟨-, -, -, valid⟩ accepted mode term datasets searched
    obtain rfl : request = ⟨.search mode term datasets⟩ := congrArg CollectionRequest.mk searched
    exact (validate_normalized_iff accepted).mp (valid accepted)
  · intro fits
    refine ⟨normalized_normalized request, fun other => normalized_of_respelled, ?_, ?_⟩
    · intro mode term datasets searched perm
      obtain rfl : request = ⟨.search mode term []⟩ := congrArg CollectionRequest.mk searched
      exact normalized_everything perm
    · intro accepted
      rcases request with ⟨object | ⟨caseNumber, expectedId⟩ | ⟨mode, term, datasets⟩⟩
      · exact accepted
      · exact accepted
      · exact (validate_normalized_iff accepted).mpr (fits accepted mode term datasets rfl)

/-! ## The dotted capital I -/

/-- ASCII letters and digits, the sigmas and the dotted capital I. -/
def dottedUnicode : Unicode where
  isAlphanumeric c := isAsciiAlphanumeric c || c == 'Σ' || c == 'σ' || c == 'ς' || c == 'İ'
  separated := by
    intro c letter
    simp only [Bool.or_eq_true, beq_iff_eq] at letter
    rcases letter with (((letter | rfl) | rfl) | rfl) | rfl
    · exact Unicode.korean.separated c (by simp only [Unicode.korean, letter, Bool.true_or])
    all_goals decide +kernel
  printable := by
    intro c letter
    simp only [Bool.or_eq_true, beq_iff_eq] at letter
    rcases letter with (((letter | rfl) | rfl) | rfl) | rfl
    · exact Unicode.korean.printable c (by simp only [Unicode.korean, letter, Bool.true_or])
    all_goals decide +kernel

/-- The forms of these characters. -/
def dottedCasing : Casing dottedUnicode where
  toLowercase c := if c = 'İ' then ['i', '\u0307'] else if c = 'Σ' then ['σ'] else [asciiLower c]
  isCased c := dottedUnicode.isAlphanumeric c && !isAsciiDigit c
  isCaseIgnorable c := c == '\u0307'
  ascii := by
    intro c ascii
    rw [if_neg (by rintro rfl; cases ascii), if_neg (by rintro rfl; cases ascii)]
  nonempty := by
    intro c
    split
    · exact List.cons_ne_nil _ _
    · split <;> exact List.cons_ne_nil _ _
  settled := by
    intro c d member
    split at member
    · simp only [List.mem_cons, List.not_mem_nil, or_false] at member
      rcases member with rfl | rfl <;> decide
    · split at member
      · rw [List.mem_singleton.mp member]
        decide
      · next dotted sigma =>
        rw [List.mem_singleton.mp member]
        rcases Casing.asciiLower_cases c with same | ⟨-, -, lower, -, fixed⟩
        · rw [same, if_neg dotted, if_neg sigma, same]
        · rw [if_neg (fun equal => by rw [equal] at lower; cases lower), if_neg (fun equal => by rw [equal] at lower; cases lower), fixed]
  latin := by
    intro c d member ascii
    split at member
    · simp only [List.mem_cons, List.not_mem_nil, or_false] at member
      rcases member with rfl | rfl
      · exact .inr (.inr rfl)
      · cases ascii
    · split at member
      · rw [List.mem_singleton.mp member] at ascii
        cases ascii
      · rw [List.mem_singleton.mp member] at ascii
        rcases Casing.asciiLower_cases c with same | ⟨-, own, -⟩
        · rw [same] at ascii
          exact .inl ascii
        · exact .inl own
  letters := by
    intro c letter
    have ascii : isAscii c = true := letter.elim Casing.isAscii_of_upper Casing.isAscii_of_lower
    exact Casing.ascii_forall (P := fun c => isAsciiUppercase c = true ∨ isAsciiLowercase c = true →
      (dottedUnicode.isAlphanumeric c && !isAsciiDigit c) = true ∧ (c == '\u0307') = false) (by decide +kernel) ascii letter
  sigma := by decide
  finalSigma := by decide
  greek := by decide

/-- A valid search for the dotted capital I is normalized to one that is refused. -/
theorem normalized_dotted_refused : ¬ Canonical dottedCasing ⟨.search .query ['İ'] []⟩ := by
  rintro ⟨-, -, -, valid⟩
  exact absurd (valid (by decide +kernel)) (by decide +kernel)

end CollectionRequest

end OpenLegal.Legal
