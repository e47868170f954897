import OpenLegal.Legal.Extraction
import OpenLegal.Legal.LawName
import OpenLegal.Theory.Carried

/-! # The law of every citation

Citations get their laws in order: by a name that a retained title has, by the last of their candidate names, or
from the citation before. Names that such a reference makes may be missing from the title index, so they are
looked up and the choice is made again. One lookup is enough: it answers for new names only.
-/

namespace OpenLegal.Legal

open Rust Rust.Str Theory

/-- The law name without a trailing `시행령` or `시행규칙`. -/
def baseLawName (name : Str) : Str :=
  (suffixes.findSome? fun suffix => do
    let base := trimEnd (← stripSuffixStr suffix name)
    if base.isEmpty then none else some base).getD name

/-- The law a citation was resolved to before reading the corpus. -/
structure ChosenLaw where
  name : Str
  resolution : Option LawNameResolution
  start : ℕ
  inherited : Bool
  candidates : List Str
  unresolved : Bool
deriving DecidableEq, Repr

/-- No law, where there is none to refer to. -/
def ChosenLaw.absent (start : ℕ) : ChosenLaw := ⟨[], none, start, true, [], true⟩

attribute [grind =] ChosenLaw.absent

/-- The key that the titles of a name have. -/
def resolvedKey (name : Str) : Str := nameKey (resolveLawName name).resolved

section Choice

variable (held : Str → Bool)

/-- The first candidate name that has titles, or else the last one. -/
def namedLaw (candidates : List (Str × ℕ)) (genericTail : Bool) (articleStart : ℕ) : ChosenLaw :=
  match candidates.find? fun (name, _) => held (resolvedKey name) with
  | some (name, start) => ⟨name, some (resolveLawName name), start, false, [], false⟩
  | none =>
    let (name, start) := candidates.getLast?.getD ([], articleStart)
    let bracketed := candidates.length == 1
    { name
      resolution := if genericTail then none else some (resolveLawName name)
      start := if bracketed then start else articleStart
      inherited := false
      candidates := if bracketed then [] else candidates.map Prod.fst
      unresolved := genericTail }

/-- The name of the same law, or of an instrument under it, and what it resolves to. -/
def sameName (suffix : Option Str) (previous : ChosenLaw) : Str × LawNameResolution :=
  match suffix with
  | some suffix =>
    let name := baseLawName previous.name ++ ' ' :: suffix
    (name, resolveLawName name)
  | none => (previous.name, previous.resolution.getD (resolveLawName previous.name))

/-- The law of a citation, and the name whose titles still need a lookup. -/
def chooseLaw (lookedUp : List Str) (last : Option ChosenLaw) (citation : ExtractedStatute) : ChosenLaw × List Str :=
  match citation.law with
  | .named candidates genericTail => (namedLaw held candidates genericTail citation.articleStart, [])
  | .same suffix start =>
    match last.filter (!·.unresolved) with
    | some previous =>
      let (name, resolution) := sameName suffix previous
      (⟨name, some resolution, start, true, [], false⟩,
        if lookedUp.contains (nameKey resolution.resolved) then [] else [resolution.resolved])
    | none => (.absent start, [])
  | .continued =>
    match last with
    | some previous => ({ previous with start := citation.articleStart, inherited := true }, [])
    | none => (.absent citation.articleStart, [])

/-- Assign a law to every extracted citation in order. Returns the names whose titles still need a lookup; the
caller looks them up and runs the pass again. -/
def chooseLaws (lookedUp : List Str) (citations : List ExtractedStatute) : List ChosenLaw × List Str :=
  Carried.pass (chooseLaw held lookedUp) none citations

attribute [grind =] namedLaw sameName chooseLaw chooseLaws

end Choice

/-! ## Two passes -/

section Passes

variable {Match : Type}

/-- Title matches keyed by `name_key`. -/
abbrev TitleMatches (Match : Type) := Str → Option (List Match)

namespace TitleMatches

def containsKey (index : TitleMatches Match) (key : Str) : Bool := (index key).isSome

attribute [grind =] containsKey

/-- `BTreeMap::extend`. -/
def extend (index more : TitleMatches Match) : TitleMatches Match := fun key => (more key).or (index key)

attribute [grind =] extend

end TitleMatches

/-- The resolved candidate names of all citations. -/
def candidateTitles (citations : List ExtractedStatute) : List Str :=
  citations.flatMap fun citation =>
    match citation.law with
    | .named candidates _ => candidates.map fun (name, _) => (resolveLawName name).resolved
    | _ => []

/-- What is known of the laws of citations: the titles found, the keys asked for and the choice made. -/
structure LawChoice (Match : Type) where
  index : TitleMatches Match
  lookedUp : List Str
  chosen : List ChosenLaw
  pending : List Str

variable (findTitles : List Str → TitleMatches Match) (citations : List ExtractedStatute)

/-- The choice after the candidate names were looked up. -/
def firstChoice : LawChoice Match :=
  let names := candidateTitles citations
  let index := findTitles names
  let lookedUp := names.map nameKey
  let (chosen, pending) := chooseLaws index.containsKey lookedUp citations
  { index, lookedUp, chosen, pending }

/-- The choice after the pending names of the first one were looked up as well. -/
def secondChoice : LawChoice Match :=
  let first := firstChoice findTitles citations
  let index := first.index.extend (findTitles first.pending)
  let lookedUp := first.lookedUp ++ first.pending.map nameKey
  let (chosen, pending) := chooseLaws index.containsKey lookedUp citations
  { index, lookedUp, chosen, pending }

/-- The choice that is checked against the corpus. -/
def lawChoice : LawChoice Match :=
  let first := firstChoice findTitles citations
  if first.pending.isEmpty then first else secondChoice findTitles citations

attribute [grind =] candidateTitles firstChoice secondChoice lawChoice

/-! ## What a citation inherits -/

/-- A law that is not left open has a resolution. -/
def ChosenLaw.Resolved (law : ChosenLaw) : Prop := law.unresolved = false → law.resolution.isSome

/-- A citation that refers to the one before has its law, under the suffix it names, and has none if and only if that
one has none. -/
def Inherits (previous : Option ChosenLaw) : LawReference → ChosenLaw → Prop
  | .named _ _, law => law.inherited = false
  | .same suffix _, law =>
    law.inherited = true ∧ (law.unresolved = true ↔ ∀ other ∈ previous, other.unresolved = true) ∧
      ∀ other ∈ previous, other.unresolved = false →
        law.name = suffix.elim other.name (fun suffix => baseLawName other.name ++ ' ' :: suffix) ∧
          law.resolution = suffix.elim other.resolution fun _ => some (resolveLawName law.name)
  | .continued, law =>
    law.inherited = true ∧ (law.unresolved = true ↔ ∀ other ∈ previous, other.unresolved = true) ∧
      ∀ other ∈ previous, law.name = other.name ∧ law.resolution = other.resolution

attribute [grind =] Inherits

variable {held : Str → Bool} {lookedUp : List Str}

theorem chooseLaw_same_some {citation : ExtractedStatute} {suffix : Option Str} {start : ℕ}
    (refers : citation.law = .same suffix start) {previous : ChosenLaw} (resolved : previous.unresolved = false) :
    chooseLaw held lookedUp (some previous) citation =
      (⟨(sameName suffix previous).1, some (sameName suffix previous).2, start, true, [], false⟩,
        if lookedUp.contains (nameKey (sameName suffix previous).2.resolved) then []
        else [(sameName suffix previous).2.resolved]) := by
  simp only [chooseLaw, refers, Option.filter_some, resolved, Bool.not_false, if_true]

theorem chooseLaw_same_absent {citation : ExtractedStatute} {suffix : Option Str} {start : ℕ}
    (refers : citation.law = .same suffix start) {last : Option ChosenLaw} (open' : ∀ other ∈ last, other.unresolved = true) :
    chooseLaw held lookedUp last citation = (.absent start, []) := by
  have none : last.filter (!·.unresolved) = none := by
    rw [Option.filter_eq_none_iff]
    intro other found
    simp [open' other found]
  simp only [chooseLaw, refers, none]

/-- What a citation leaves to look up: a resolution that was chosen for it, with a new key. -/
theorem mem_chooseLaw_requests {last : Option ChosenLaw} {citation : ExtractedStatute} {name : Str} :
    name ∈ (chooseLaw held lookedUp last citation).2 ↔ (∃ suffix start, citation.law = .same suffix start) ∧
      ∃ resolution ∈ (chooseLaw held lookedUp last citation).1.resolution,
        resolution.resolved = name ∧ nameKey name ∉ lookedUp := by
  cases refers : citation.law with
  | named candidates genericTail => simp [chooseLaw, refers]
  | same suffix start =>
    cases kept : last.filter (!·.unresolved) with
    | none => simp [chooseLaw, refers, kept, ChosenLaw.absent]
    | some previous =>
      simp only [chooseLaw, refers, kept]
      split_ifs with known
      · rw [List.contains_iff_mem] at known
        suffices (sameName suffix previous).2.resolved = name → nameKey name ∈ lookedUp by simpa
        rintro rfl
        exact known
      · rw [List.contains_iff_mem] at known
        suffices name = (sameName suffix previous).2.resolved → nameKey name ∉ lookedUp by simpa [eq_comm]
        rintro rfl
        exact known
  | continued => cases last <;> simp [chooseLaw, refers]

/-- A named law has the name of a candidate, if there is one, and what it resolves to. -/
theorem namedLaw_name (candidates : List (Str × ℕ)) (genericTail : Bool) (articleStart : ℕ) :
    ((namedLaw held candidates genericTail articleStart).name = [] ∨
      ∃ candidate ∈ candidates, (namedLaw held candidates genericTail articleStart).name = candidate.1) ∧
    ∀ resolution ∈ (namedLaw held candidates genericTail articleStart).resolution,
      resolution = resolveLawName (namedLaw held candidates genericTail articleStart).name := by
  rw [namedLaw]
  split
  · next name start found => exact ⟨.inr ⟨_, List.mem_of_find?_eq_some found, rfl⟩, by simp⟩
  · refine ⟨?_, by simp [eq_comm]⟩
    cases last : candidates.getLast? with
    | none => exact .inl rfl
    | some candidate => exact .inr ⟨candidate, List.mem_of_getLast? last, rfl⟩

theorem namedLaw_resolved (candidates : List (Str × ℕ)) (genericTail : Bool) (articleStart : ℕ) :
    (namedLaw held candidates genericTail articleStart).Resolved := by
  intro resolved
  rw [namedLaw] at resolved ⊢
  split at resolved
  · rfl
  · have tail : genericTail = false := resolved
    simp [tail]

theorem chooseLaw_resolved {last : Option ChosenLaw} (before : ∀ other ∈ last, other.Resolved) (citation : ExtractedStatute) :
    (chooseLaw held lookedUp last citation).1.Resolved := by
  have absent (start : ℕ) : (ChosenLaw.absent start).Resolved := fun impossible => by cases impossible
  unfold chooseLaw
  split
  · exact namedLaw_resolved _ _ _
  · split
    · exact fun _ => rfl
    · exact absent _
  · split
    · next previous => exact before previous rfl
    · exact absent _

/-- The law of a citation, from what is in hand there. -/
theorem getElem?_chooseLaws {citations : List ExtractedStatute} (i : ℕ) :
    (chooseLaws held lookedUp citations).1[i]? = citations[i]?.map fun citation =>
      (chooseLaw held lookedUp (Carried.inHand none (chooseLaws held lookedUp citations).1 i) citation).1 :=
  Carried.getElem?_pass none citations i

theorem inHand_resolved {citations : List ExtractedStatute} (i : ℕ) :
    ∀ other ∈ Carried.inHand none (chooseLaws held lookedUp citations).1 i, other.Resolved :=
  Carried.forall_inHand (by simp) (fun _ citation _ before => chooseLaw_resolved before citation) i

theorem inherits_chooseLaw {last : Option ChosenLaw} (before : ∀ other ∈ last, other.Resolved) (citation : ExtractedStatute) :
    Inherits last citation.law (chooseLaw held lookedUp last citation).1 := by
  cases refers : citation.law with
  | named candidates genericTail =>
    simp only [chooseLaw, refers, Inherits, namedLaw]
    split <;> rfl
  | same suffix start =>
    rcases last with - | previous
    · rw [chooseLaw_same_absent refers (by simp)]
      simp [Inherits, ChosenLaw.absent]
    · cases resolved : previous.unresolved with
      | true =>
        rw [chooseLaw_same_absent refers (by simpa using resolved)]
        simp [Inherits, ChosenLaw.absent, resolved]
      | false =>
        rw [chooseLaw_same_some refers resolved]
        obtain ⟨resolution, known⟩ := Option.isSome_iff_exists.mp (before previous rfl resolved)
        cases suffix <;> simp [Inherits, sameName, resolved, known]
  | continued => cases last <;> simp [chooseLaw, refers, Inherits, ChosenLaw.absent]

/-! ## The second pass -/

theorem namedLaw_congr {held' : Str → Bool} {candidates : List (Str × ℕ)}
    (same : ∀ candidate ∈ candidates, held' (resolvedKey candidate.1) = held (resolvedKey candidate.1)) (genericTail : Bool)
    (articleStart : ℕ) : namedLaw held' candidates genericTail articleStart = namedLaw held candidates genericTail articleStart := by
  have found : candidates.find? (fun (name, _) => held' (resolvedKey name)) =
      candidates.find? fun (name, _) => held (resolvedKey name) := by
    induction candidates with
    | nil => rfl
    | cons candidate rest ih =>
      rw [List.forall_mem_cons] at same
      simp only [List.find?_cons, same.1, ih same.2]
  rw [namedLaw, namedLaw, found]

/-- A choice looks at the titles of candidate names only. -/
theorem chooseLaw_congr {held' : Str → Bool} {lookedUp' : List Str} {citation : ExtractedStatute}
    (same : ∀ candidate ∈ citation.law.candidates, held' (resolvedKey candidate.1) = held (resolvedKey candidate.1))
    (last : Option ChosenLaw) :
    (chooseLaw held' lookedUp' last citation).1 = (chooseLaw held lookedUp last citation).1 := by
  cases refers : citation.law with
  | named candidates genericTail =>
    rw [refers] at same
    simp only [chooseLaw, refers]
    exact namedLaw_congr same genericTail citation.articleStart
  | same suffix start => cases kept : last.filter (!·.unresolved) <;> simp only [chooseLaw, refers, kept]
  | continued => cases last <;> simp only [chooseLaw, refers]

theorem mem_candidateTitles {citation : ExtractedStatute} (member : citation ∈ citations) {candidate : Str × ℕ}
    (named : candidate ∈ citation.law.candidates) : (resolveLawName candidate.1).resolved ∈ candidateTitles citations := by
  refine List.mem_flatMap.mpr ⟨citation, member, ?_⟩
  cases refers : citation.law with
  | named candidates genericTail =>
    rw [refers] at named
    exact List.mem_map_of_mem named
  | same suffix start =>
    rw [refers] at named
    cases named
  | continued =>
    rw [refers] at named
    cases named

section Lookup

variable (answers : ∀ names key, (findTitles names).containsKey key = true → key ∈ names.map nameKey)
include answers

/-- The titles of pending names are under keys that no candidate has. -/
theorem containsKey_second {citation : ExtractedStatute} (member : citation ∈ citations) {candidate : Str × ℕ}
    (named : candidate ∈ citation.law.candidates) :
    (secondChoice findTitles citations).index.containsKey (resolvedKey candidate.1) =
      (firstChoice findTitles citations).index.containsKey (resolvedKey candidate.1) := by
  have missing : (findTitles (firstChoice findTitles citations).pending).containsKey (resolvedKey candidate.1) = false := by
    rw [Bool.eq_false_iff]
    intro found
    obtain ⟨name, pending, same⟩ := List.mem_map.mp (answers _ _ found)
    obtain ⟨i, other, -, left⟩ := Carried.mem_requests.mp pending
    obtain ⟨-, resolution, -, rfl, fresh⟩ := (mem_chooseLaw_requests).mp left
    exact fresh (same ▸ List.mem_map_of_mem (mem_candidateTitles citations member named))
  rw [TitleMatches.containsKey, Option.isSome_eq_false_iff, Option.isNone_iff_eq_none] at missing
  simp only [secondChoice, TitleMatches.containsKey, TitleMatches.extend, missing, Option.none_or]

/-- The second pass chooses what the first one chose. -/
theorem chosen_second : (secondChoice findTitles citations).chosen = (firstChoice findTitles citations).chosen := by
  refine Carried.pass_congr (fun citation member last => ?_) none
  exact chooseLaw_congr (fun candidate named => containsKey_second findTitles citations answers member named) last

theorem pending_second : (secondChoice findTitles citations).pending = [] := by
  have same := chosen_second findTitles citations answers
  rw [List.eq_nil_iff_forall_not_mem]
  intro name pending
  obtain ⟨i, citation, here, left⟩ := Carried.mem_requests.mp pending
  obtain ⟨refers, resolution, chosen, rfl, fresh⟩ := (mem_chooseLaw_requests).mp left
  have kept : resolution.resolved ∉ (firstChoice findTitles citations).pending := fun again =>
    fresh (List.mem_append_right _ (List.mem_map_of_mem again))
  refine kept (Carried.mem_requests.mpr ⟨i, citation, here, (mem_chooseLaw_requests).mpr ⟨refers, resolution, ?_, rfl, ?_⟩⟩)
  · have step : (chooseLaw (secondChoice findTitles citations).index.containsKey (secondChoice findTitles citations).lookedUp
          (Carried.inHand none (secondChoice findTitles citations).chosen i) citation).1 =
        (chooseLaw (firstChoice findTitles citations).index.containsKey (firstChoice findTitles citations).lookedUp
          (Carried.inHand none (firstChoice findTitles citations).chosen i) citation).1 := by
      rw [same]
      exact chooseLaw_congr (fun candidate named =>
        containsKey_second findTitles citations answers (List.mem_of_getElem? here) named) _
    exact congrArg ChosenLaw.resolution step ▸ chosen
  · exact fun known => fresh (List.mem_append_left _ known)

/-- What is known of a chosen resolution: its titles were looked up, unless it is that of no name. -/
def LookedUp (lookedUp : List Str) (law : ChosenLaw) : Prop :=
  ∀ resolution ∈ law.resolution, nameKey resolution.resolved ∈ lookedUp ∨ law.name = [] ∧ resolution = resolveLawName []

attribute [grind =] LookedUp

theorem lookedUp_second : ∀ law ∈ (secondChoice findTitles citations).chosen,
    LookedUp (secondChoice findTitles citations).lookedUp law := by
  refine Carried.forall_answers (by simp) fun i citation here before => ?_
  intro resolution chosen
  cases refers : citation.law with
  | named candidates genericTail =>
    obtain ⟨named, resolves⟩ := @namedLaw_name (secondChoice findTitles citations).index.containsKey candidates genericTail
      citation.articleStart
    simp only [chooseLaw, refers] at chosen ⊢
    rcases named with empty | ⟨candidate, inside, same⟩
    · exact .inr ⟨empty, by rw [resolves resolution chosen, empty]⟩
    · rw [resolves resolution chosen, same]
      exact .inl (List.mem_append_left _ (List.mem_map_of_mem
        (mem_candidateTitles citations (List.mem_of_getElem? here) (by rwa [refers]))))
  | same suffix start =>
    by_contra missed
    have left := mem_chooseLaw_requests.mpr ⟨⟨suffix, start, refers⟩, resolution, chosen, rfl, fun known => missed (.inl known)⟩
    have pending : resolution.resolved ∈ (secondChoice findTitles citations).pending :=
      Carried.mem_requests.mpr ⟨i, citation, here, left⟩
    rw [pending_second findTitles citations answers] at pending
    cases pending
  | continued =>
    revert chosen before
    cases Carried.inHand none _ i with
    | none => simp [chooseLaw, refers, ChosenLaw.absent]
    | some previous =>
      intro before chosen
      simp only [chooseLaw, refers] at chosen ⊢
      exact before previous rfl resolution chosen

theorem chosen_lawChoice : (lawChoice findTitles citations).chosen = (firstChoice findTitles citations).chosen := by
  rw [lawChoice]
  split_ifs
  · rfl
  · exact chosen_second findTitles citations answers

/-- The choice made after the second lookup is that of the first, and nothing is left to look up: every resolution was
looked up, but for that of the empty name, which stands for a name that is too long. References carry the law of the
citation before. -/
theorem law_choice_settles :
    (lawChoice findTitles citations).chosen = (firstChoice findTitles citations).chosen ∧
      (secondChoice findTitles citations).chosen = (firstChoice findTitles citations).chosen ∧
      (secondChoice findTitles citations).pending = [] ∧
      (∀ law ∈ (secondChoice findTitles citations).chosen, LookedUp (secondChoice findTitles citations).lookedUp law) ∧
      ∀ i citation law, citations[i]? = some citation → (secondChoice findTitles citations).chosen[i]? = some law →
        Inherits (Carried.inHand none (secondChoice findTitles citations).chosen i) citation.law law := by
  refine ⟨chosen_lawChoice findTitles citations answers, chosen_second findTitles citations answers, pending_second findTitles citations answers,
    lookedUp_second findTitles citations answers, ?_⟩
  intro i citation law here chosen
  have own : (secondChoice findTitles citations).chosen[i]? = _ := getElem?_chooseLaws i
  rw [here, Option.map_some] at own
  obtain rfl := Option.some.inj (chosen.symm.trans own)
  exact inherits_chooseLaw (inHand_resolved i) citation

end Lookup

end Passes

/-- A lookup that finds every name, and a law named in two ways. -/
theorem law_choice_settles_same :
    (secondChoice (fun names key => if key ∈ names.map nameKey then some [()] else none)
      [⟨.named [("민법".toList, 0)] false, ⟨1, none, none⟩, 7, 13, none, none, none⟩,
        ⟨.same (some "시행령".toList) 15, ⟨2, none, none⟩, 32, 38, none, none, none⟩]).pending = [] := by
  refine (law_choice_settles (fun names key => if key ∈ names.map nameKey then some [()] else none) _ ?_).2.2.1
  intro names key found
  by_contra missing
  simp [TitleMatches.containsKey, missing] at found

/-- A word of 516 bytes before an article is no candidate, and the empty name in its place is never looked up. -/
theorem law_choice_of_long_word : ¬ ∀ (findTitles : List Str → TitleMatches Unit) (text : Str),
    (∀ names key, (findTitles names).containsKey key = true → key ∈ names.map nameKey) →
      ∀ law ∈ (secondChoice findTitles (extractCitations Unicode.korean text).statutes).chosen, ∀ resolution ∈ law.resolution,
        nameKey resolution.resolved ∈ (secondChoice findTitles (extractCitations Unicode.korean text).statutes).lookedUp := by
  intro always
  have statutes : (extractCitations Unicode.korean (List.replicate 171 '가' ++ ['법', ' '] ++ ['제', '1', '조'])).statutes =
      [⟨.named [] false, ⟨1, none, none⟩, 517, 524, none, none, none⟩] := by
    have found : statuteAt (List.replicate 171 '가' ++ ['법', ' ']) ['제', '1', '조'] none =
        some (some ⟨.named [] false, ⟨1, none, none⟩, 517, 524, none, none, none⟩, []) := by decide +kernel
    rw [extractCitations, extractWith, @extract_plain _ _ _ (List.replicate 171 '가' ++ ['법', ' ']) ['제', '1', '조'] rfl
      (by decide +kernel), Cursor.past, List.nil_append, extract_statute _ _ (.inl rfl) found, extract_of_none _ _ (by rfl)]
    rfl
  have missed := always (fun _ _ => none) (List.replicate 171 '가' ++ ['법', ' '] ++ ['제', '1', '조'])
    (by simp [TitleMatches.containsKey])
  rw [statutes] at missed
  simp [secondChoice, firstChoice, candidateTitles, chooseLaws, Carried.pass, chooseLaw, namedLaw] at missed

end OpenLegal.Legal
