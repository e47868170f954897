import Mathlib.Data.List.DropRight
import OpenLegal.Legal.CompiledQuery
import OpenLegal.SearchQuery.Domain

/-! # Excerpts of a matching document

Supporting original text for a match of a whole document. Positive leaves of the query are tried in order, and
the searched sections for each of them; negative leaves never become evidence, and field scopes retain their
meaning. A slice of a section is given by the three parts that it cuts the section into.
-/

namespace OpenLegal.Legal

open Rust Rust.Str Theory Polled

/-! ## Slices and windows -/

/-- A text cut around a slice of it. -/
structure Cut where
  front : Str
  middle : Str
  rear : Str
deriving DecidableEq, Repr

namespace Cut

def text (cut : Cut) : Str := cut.front ++ (cut.middle ++ cut.rear)

def start (cut : Cut) : ℕ := byteLen cut.front

def stop (cut : Cut) : ℕ := byteLen cut.front + byteLen cut.middle

/-- The offsets of a cut are those of its slice. -/
theorem get_text (cut : Cut) : get cut.text cut.start cut.stop = some cut.middle :=
  get_iff.mpr ⟨cut.front, cut.rear, rfl, rfl, rfl⟩

end Cut

/-- The bytes of an excerpt around a literal match. -/
def maxExcerptBytes : ℕ := 32768

/-- Whole whitespace-delimited runs preserve the analyzer's existing input boundaries without inventing
language-specific word boundaries. -/
def sourceWindow (cut : Cut) : Cut where
  front := cut.front.rdropWhile (!isWhitespace ·)
  middle := cut.front.rtakeWhile (!isWhitespace ·) ++ (cut.middle ++ cut.rear.takeWhile (!isWhitespace ·))
  rear := cut.rear.dropWhile (!isWhitespace ·)

/-- Keep a complete first match with nearby original text. Unused trailing context is used on the leading
side at the end of a section. -/
def literalExcerpt (cut : Cut) : Except DatabaseError Cut :=
  if byteLen cut.middle > maxExcerptBytes then .error .capacity
  else
    let context := 512 - cut.middle.length
    let after := min cut.rear.length (context - min cut.front.length (context / 2))
    let kept := cut.front.length - min cut.front.length (context - after)
    let excerpt : Cut :=
      ⟨cut.front.take kept, cut.front.drop kept ++ (cut.middle ++ cut.rear.take after), cut.rear.drop after⟩
    if byteLen excerpt.middle > maxExcerptBytes then .error .capacity else .ok excerpt

/-- The cut at a range of bytes, if it is one of whole scalars. -/
def cutAt (source : Str) (start stop : ℕ) : Option Cut :=
  if start ≤ stop then do
    let (front, rest) ← splitAt source start
    let (middle, rear) ← splitAt rest (stop - start)
    pure ⟨front, middle, rear⟩
  else none

/-- `literal_excerpt`: the offsets that it returns are those of the cut. -/
def literalExcerptAt (source : Str) (start stop : ℕ) : Except DatabaseError Cut :=
  match cutAt source start stop with
  | none => .error .invalidInput
  | some cut => literalExcerpt cut

/-- The matches of a nonempty pattern in the rest of a text, from left to right. -/
def matchLoop (pattern : Str) : ℕ → Str → Str → List Cut
  | 0, _, _ => []
  | fuel + 1, front, rest =>
    match splitOnce pattern rest with
    | none => []
    | some (before, after) =>
      ⟨front ++ before, pattern, after⟩ :: matchLoop pattern fuel (front ++ (before ++ pattern)) after

/-- `str::match_indices`: an empty pattern matches at every boundary. -/
def matchCuts (pattern source : Str) : List Cut :=
  if pattern.isEmpty then (List.range (source.length + 1)).map fun i => ⟨source.take i, [], source.drop i⟩
  else matchLoop pattern source.length [] source

/-- Overlapping windows of the rest of a text: 512 scalars, every 384 scalars. -/
def windowCuts : ℕ → Str → Str → List Cut
  | 0, _, _ => []
  | fuel + 1, front, rest =>
    if rest.isEmpty then []
    else ⟨front, rest.take 512, rest.drop 512⟩ :: windowCuts fuel (front ++ rest.take 384) (rest.drop 384)

@[simp] theorem text_sourceWindow (cut : Cut) : (sourceWindow cut).text = cut.text := by
  have front : cut.front.rdropWhile (!isWhitespace ·) ++ cut.front.rtakeWhile (!isWhitespace ·) = cut.front :=
    List.rdropWhile_append_rtakeWhile
  have rear : cut.rear.takeWhile (!isWhitespace ·) ++ cut.rear.dropWhile (!isWhitespace ·) = cut.rear :=
    List.takeWhile_append_dropWhile
  simp only [sourceWindow, Cut.text, List.append_assoc]
  rw [rear, ← List.append_assoc, front]

theorem sourceWindow_ne_nil {cut : Cut} (nonempty : cut.middle ≠ []) : (sourceWindow cut).middle ≠ [] := by
  simp only [sourceWindow, ne_eq, List.append_eq_nil_iff, not_and]
  intro _ empty
  exact absurd empty nonempty

/-- An excerpt is a slice of the same text, and empty in an empty text only. -/
theorem literalExcerpt_spec {cut excerpt : Cut} (found : literalExcerpt cut = .ok excerpt) :
    excerpt.text = cut.text ∧ (cut.text ≠ [] → excerpt.middle ≠ []) := by
  simp only [literalExcerpt, ite_error_eq_ok, Except.ok.injEq] at found
  obtain ⟨-, -, rfl⟩ := found
  constructor
  · simp only [Cut.text, List.append_assoc, List.take_append_drop]
    rw [← List.append_assoc, List.take_append_drop]
  · intro nonempty empty
    simp only [List.append_eq_nil_iff, List.drop_eq_nil_iff, List.take_eq_nil_iff] at empty
    obtain ⟨front, middle, rear⟩ := empty
    apply nonempty
    rw [middle, List.length_nil] at front rear
    have noRear : cut.rear = [] := by
      rcases rear with none | none
      · apply List.length_eq_zero_iff.mp
        omega
      · exact none
    have noFront : cut.front = [] := by
      apply List.length_eq_zero_iff.mp
      rw [noRear, List.length_nil] at front
      omega
    rw [Cut.text, noFront, middle, noRear]
    rfl

theorem cutAt_eq_some {source : Str} {start stop : ℕ} {cut : Cut} (found : cutAt source start stop = some cut) :
    cut.text = source ∧ cut.start = start ∧ cut.stop = stop := by
  rw [cutAt] at found
  split_ifs at found with forward
  simp only [Option.bind_eq_bind, Option.bind_eq_some_iff] at found
  obtain ⟨⟨front, rest⟩, first, ⟨middle, rear⟩, second, same⟩ := found
  cases same
  obtain ⟨rfl, begins⟩ := splitAt_eq_some first
  obtain ⟨rfl, length⟩ := splitAt_eq_some second
  refine ⟨rfl, begins, ?_⟩
  simp only [Cut.stop]
  omega

/-- Every range of whole scalars cuts the text. -/
theorem exists_cutAt {source : Str} {start stop : ℕ} (forward : start ≤ stop)
    (opens : isCharBoundary source start = true) (closes : isCharBoundary source stop = true) :
    ∃ cut, cutAt source start stop = some cut := by
  obtain ⟨front, rest, rfl, rfl⟩ := isCharBoundary_iff.mp opens
  obtain ⟨front', rear, same, rfl⟩ := isCharBoundary_iff.mp closes
  obtain ⟨middle, rfl, rfl⟩ := append_eq_append_of_byteLen_le same forward
  refine ⟨⟨front, middle, rear⟩, ?_⟩
  have length : byteLen (front ++ middle) - byteLen front = byteLen middle := by
    rw [byteLen_append]
    omega
  rw [cutAt, if_pos forward, splitAt_append]
  simp only [Option.bind_eq_bind, Option.bind_some]
  rw [length, splitAt_append]
  rfl

/-- The budget that one side leaves is used on the other side. -/
theorem context_length (front rear context : ℕ) :
    min front (context - min rear (context - min front (context / 2))) + min rear (context - min front (context / 2)) =
      min (front + rear) context := by
  omega

/-- An excerpt around a match holds as many scalars as it may, and never fewer than the match. -/
theorem literalExcerpt_length {cut excerpt : Cut} (found : literalExcerpt cut = .ok excerpt) :
    (∃ before after, excerpt.middle = before ++ (cut.middle ++ after) ∧ cut.front = excerpt.front ++ before ∧
        cut.rear = after ++ excerpt.rear) ∧
      excerpt.middle.length = min cut.text.length (max 512 cut.middle.length) := by
  simp only [literalExcerpt, ite_error_eq_ok, Except.ok.injEq] at found
  obtain ⟨-, -, rfl⟩ := found
  refine ⟨⟨_, _, rfl, (List.take_append_drop _ _).symm, (List.take_append_drop _ _).symm⟩, ?_⟩
  have budget := context_length cut.front.length cut.rear.length (512 - cut.middle.length)
  simp only [Cut.text, List.length_append, List.length_drop, List.length_take]
  omega

/-- Without more than the allowed bytes in the match there is an excerpt. -/
theorem exists_literalExcerpt {cut : Cut} (short : byteLen cut.middle ≤ maxExcerptBytes) :
    ∃ excerpt, literalExcerpt cut = .ok excerpt := by
  simp only [literalExcerpt, ite_error_eq_ok, Except.ok.injEq]
  refine ⟨_, not_lt.mpr short, ?_, rfl⟩
  have budget := context_length cut.front.length cut.rear.length (512 - cut.middle.length)
  by_cases long : 512 ≤ cut.middle.length
  · have none : 512 - cut.middle.length = 0 := by omega
    simp only [none, Nat.zero_div, Nat.min_zero, Nat.sub_zero, List.drop_length, List.take_zero,
      List.nil_append, List.append_nil]
    omega
  · apply not_lt.mpr
    refine (byteLen_le_mul _).trans ?_
    simp only [List.length_append, List.length_drop, List.length_take, maxExcerptBytes]
    omega

/-- A match of at most `maxExcerptBytes` bytes has an excerpt of whole scalars around it, with 512 scalars or all
of a shorter text, and with the whole of a longer match. The excerpt is too large for longer matches only. -/
theorem literalExcerptAt_spec (source : Str) (start stop : ℕ) :
    (∀ matched, get source start stop = some matched → byteLen matched ≤ maxExcerptBytes →
      ∃ excerpt, literalExcerptAt source start stop = .ok excerpt ∧
        isCharBoundary source excerpt.start = true ∧ isCharBoundary source excerpt.stop = true ∧
        get source excerpt.start excerpt.stop = some excerpt.middle ∧ excerpt.start ≤ start ∧ stop ≤ excerpt.stop ∧
        excerpt.middle.length = min source.length (max 512 matched.length)) ∧
      (literalExcerptAt source start stop = .error .capacity → maxExcerptBytes < stop - start) := by
  constructor
  · intro matched found short
    obtain ⟨front, rear, rfl, rfl, rfl⟩ := get_iff.mp found
    obtain ⟨cut, here⟩ : ∃ cut, cutAt (front ++ (matched ++ rear)) (byteLen front) (byteLen front + byteLen matched) =
        some cut := by
      apply exists_cutAt (Nat.le_add_right _ _)
      · exact isCharBoundary_iff.mpr ⟨front, _, rfl, rfl⟩
      · exact isCharBoundary_iff.mpr ⟨front ++ matched, rear, by simp, by simp⟩
    obtain ⟨whole, begins, ends⟩ := cutAt_eq_some here
    have middle : cut.middle = matched := by
      have slice := cut.get_text
      rw [whole, begins, ends, found] at slice
      exact (Option.some.inj slice).symm
    obtain ⟨excerpt, bounds⟩ := exists_literalExcerpt (middle ▸ short)
    obtain ⟨⟨before, after, shape, left, right⟩, length⟩ := literalExcerpt_length bounds
    have same : excerpt.text = cut.text := (literalExcerpt_spec bounds).1
    rw [whole] at same length
    have slice := excerpt.get_text
    rw [same] at slice
    refine ⟨excerpt, by rw [literalExcerptAt, here]; exact bounds, ?_, ?_, slice, ?_, ?_, by rw [length, middle]⟩
    · exact isCharBoundary_iff.mpr ⟨excerpt.front, _, same.symm, rfl⟩
    · apply isCharBoundary_iff.mpr
      exact ⟨excerpt.front ++ excerpt.middle, excerpt.rear, by rw [← same, Cut.text, List.append_assoc],
        byteLen_append _ _⟩
    · rw [← begins, Cut.start, Cut.start, left, byteLen_append]
      exact Nat.le_add_right _ _
    · rw [← ends, Cut.stop, Cut.stop, left, shape]
      simp only [byteLen_append]
      omega
  · intro large
    rw [literalExcerptAt] at large
    split at large
    · cases large
    · next cut here =>
      by_contra short
      obtain ⟨-, begins, ends⟩ := cutAt_eq_some here
      have middle : byteLen cut.middle ≤ maxExcerptBytes := by
        rw [Cut.start] at begins
        rw [Cut.stop] at ends
        omega
      obtain ⟨excerpt, bounds⟩ := exists_literalExcerpt middle
      rw [bounds] at large
      cases large

/-- A match at the end of a text: what is not used behind it is used before it. -/
example : (literalExcerptAt (List.replicate 600 '가') 1797 1800).map Cut.start = .ok 264 := by decide +kernel

theorem matchLoop_text {pattern : Str} {fuel : ℕ} {front rest : Str} {cut : Cut}
    (member : cut ∈ matchLoop pattern fuel front rest) : cut.text = front ++ rest := by
  induction fuel generalizing front rest with
  | zero => cases member
  | succ fuel ih =>
    rw [matchLoop] at member
    split at member
    · cases member
    · next before after found =>
      have whole := splitOnce_eq_some found
      rcases List.mem_cons.mp member with rfl | later
      · rw [Cut.text, whole]
        simp only [List.append_assoc]
      · rw [ih later, whole]
        simp only [List.append_assoc]

/-- A match is a slice of the source. -/
theorem text_of_mem_matchCuts {pattern source : Str} {cut : Cut} (member : cut ∈ matchCuts pattern source) :
    cut.text = source := by
  rw [matchCuts] at member
  split_ifs at member
  · obtain ⟨i, -, rfl⟩ := List.mem_map.mp member
    exact List.take_append_drop i source
  · exact matchLoop_text member

/-- A window is a nonempty slice. -/
theorem windowCuts_spec {fuel : ℕ} {front rest : Str} {cut : Cut} (member : cut ∈ windowCuts fuel front rest) :
    cut.text = front ++ rest ∧ cut.middle ≠ [] := by
  induction fuel generalizing front rest with
  | zero => cases member
  | succ fuel ih =>
    rw [windowCuts] at member
    split_ifs at member with empty
    · cases member
    · rcases List.mem_cons.mp member with rfl | later
      · refine ⟨by rw [Cut.text, List.take_append_drop], ?_⟩
        intro none
        rcases List.take_eq_nil_iff.mp none with impossible | none
        · cases impossible
        · exact empty (List.isEmpty_iff.mpr none)
      · obtain ⟨whole, nonempty⟩ := ih later
        rw [whole, List.append_assoc, List.take_append_drop]
        exact ⟨rfl, nonempty⟩

/-! ## Evidence for a leaf -/

/-- A section that is searched. -/
structure Searched where
  name : Str
  text : Str
  ocr : Bool
deriving DecidableEq, Repr

/-- The tokens as sets: one poll for each 1024 of them. -/
def tokenSets (text : AnalyzedText) : Polled DatabaseError AnalyzedText := do
  polls ((text.lindera.length + 1023) / 1024)
  polls ((text.mecab.length + 1023) / 1024)
  pure text

def startsAny (token : Str) : ℕ → List Str → Polled DatabaseError Bool
  | _, [] => pure false
  | i, value :: rest => do
    polls (if i % 1024 = 0 then 1 else 0)
    if token.isPrefixOf value then pure true else startsAny token (i + 1) rest

def supportingLoop (source : List Str) (isPrefix all : Bool) : List Str → Polled DatabaseError Bool
  | [] => pure all
  | token :: rest => do
    poll
    let found ← if isPrefix && rest.isEmpty then startsAny token 0 source else pure (source.contains token)
    if found != all then pure found else supportingLoop source isPrefix all rest

/-- All query tokens occur in the source, or any of them does. -/
def supportingTokens (query source : List Str) (isPrefix all : Bool) : Polled DatabaseError Bool :=
  if query.isEmpty then pure false else supportingLoop source isPrefix all query

section Evidence

variable (analyzer : KoreanAnalyzer) (tokens : AnalyzedText) (isPrefix : Bool)

/-- A window around a literal occurrence of a token, if the engine finds a token of the query there. -/
def rawWindow (candidate : Engine × Cut) : Polled DatabaseError (Option Cut) := do
  poll
  let bounds ← lift (literalExcerpt candidate.2)
  let analyzed ← analyzer.analyze (sourceWindow bounds).middle
  let found ← tokenSets analyzed
  let supports ← supportingTokens (tokens.tokens candidate.1) (found.tokens candidate.1) isPrefix false
  pure (if supports then some (sourceWindow bounds) else none)

def engineSupports (found : AnalyzedText) (engine : Engine) : Polled DatabaseError (Option Engine) := do
  let supports ← supportingTokens (tokens.tokens engine) (found.tokens engine) isPrefix false
  pure (if supports then some engine else none)

/-- Token normalization has no reliable original-byte map, so original windows are analyzed again. -/
def analyzedWindow (qualified : List Engine) (cut : Cut) : Polled DatabaseError (Option Cut) := do
  let analyzed ← analyzer.analyze (sourceWindow cut).middle
  let found ← tokenSets analyzed
  let engine ← findSomeM (engineSupports tokens isPrefix found) qualified
  pure (engine.map fun _ => sourceWindow cut)

/-- A window of the source with a token of the query, if all its tokens are in the source. -/
def termAnchor (source : Str) (sourceTokens : AnalyzedText) : Polled DatabaseError (Option Cut) := do
  let lindera ← supportingTokens tokens.lindera sourceTokens.lindera isPrefix true
  let mecab ← supportingTokens tokens.mecab sourceTokens.mecab isPrefix true
  let qualified := (if lindera then [Engine.lindera] else []) ++ if mecab then [Engine.mecab] else []
  if qualified.isEmpty then pure none
  else do
    let candidates := qualified.flatMap fun engine =>
      (tokens.tokens engine).flatMap fun token => (matchCuts token source).map fun cut => (engine, cut)
    match ← findSomeM (rawWindow analyzer tokens isPrefix) candidates with
    | some window => pure (some window)
    | none => findSomeM (analyzedWindow analyzer tokens isPrefix qualified) (windowCuts source.length [] source)

end Evidence

section Document

variable (analyzer : KoreanAnalyzer) (doc : IndexedCapture AnalyzedText)

/-- The tokens of a section: those of the document for its title and its body. They are analyzed for other
sections, and made into sets again for each leaf. -/
def sourceTokens (unit : Searched) : Polled DatabaseError AnalyzedText :=
  if unit.name = "title".toList ∧ unit.text = doc.capture.record.title then tokenSets doc.titleTokens
  else if unit.name = "body".toList ∧ unit.text = doc.capture.record.body then tokenSets doc.bodyTokens
  else do
    let analyzed ← analyzer.analyze unit.text
    tokenSets analyzed

/-- The excerpt of a section that supports a leaf. -/
def leafAnchor (unit : Searched) : CompiledQuery → Polled DatabaseError (Option Cut)
  | .exact text =>
    match splitOnce text unit.text with
    | none => pure none
    | some (before, rest) => do
      let excerpt ← lift (literalExcerpt ⟨before, text, rest⟩)
      pure (some excerpt)
  | .term tokens isPrefix => do
    let source ← sourceTokens analyzer doc unit
    termAnchor analyzer tokens isPrefix unit.text source
  | _ => pure none

def sourceField (hasMetadataCase : Bool) (name : Str) : QueryField :=
  if name = "title".toList then .title
  else if name = CompiledQuery.caseNumberKey ∧ hasMetadataCase = true then .caseNumber
  else .body

def sectionExcerpt (hasMetadataCase : Bool) (leaf : CompiledQuery) (field : Option QueryField) (unit : Searched) :
    Polled DatabaseError (Option (Searched × Cut)) :=
  if field.any (· != sourceField hasMetadataCase unit.name) || unit.text.isEmpty then pure none
  else do
    poll
    let anchor ← leafAnchor analyzer doc unit leaf
    pure (anchor.map fun cut => (unit, cut))

/-- A branch of a disjunction stays pending if the document matches it in its field. -/
def pushLive (field : Option QueryField) (pending : List (CompiledQuery × Option QueryField)) (child : CompiledQuery) :
    Polled DatabaseError (List (CompiledQuery × Option QueryField)) := do
  let live ← (match field with
    | some field => CompiledQuery.field field child
    | none => child).matchesDocument analyzer doc
  pure (if live then (child, field) :: pending else pending)

/-- The loop over the pending expressions, of at most so many visits. -/
def excerptLoop (hasMetadataCase : Bool) (sections : List Searched) :
    ℕ → List (CompiledQuery × Option QueryField) → Polled DatabaseError (Option (Searched × Cut))
  | _, [] => pure none
  | 0, _ :: _ => do
    poll
    fail .capacity
  | visits + 1, (leaf, field) :: pending => do
    poll
    match leaf with
    | .not _ | .all => excerptLoop hasMetadataCase sections visits pending
    | .and children =>
      excerptLoop hasMetadataCase sections visits (children.map (fun child => (child, field)) ++ pending)
    | .or children => do
      let pending ← children.reverse.foldlM (pushLive analyzer doc field) pending
      excerptLoop hasMetadataCase sections visits pending
    | .field scope child => excerptLoop hasMetadataCase sections visits ((child, some scope) :: pending)
    | leaf => do
      match ← findSomeM (sectionExcerpt analyzer doc hasMetadataCase leaf field) sections with
      | some excerpt => pure (some excerpt)
      | none => excerptLoop hasMetadataCase sections visits pending

def positiveExcerpt (expression : CompiledQuery) (sections : List Searched) (hasMetadataCase : Bool) :
    Polled DatabaseError (Option (Searched × Cut)) :=
  excerptLoop analyzer doc hasMetadataCase sections SearchQuery.maxQueryNodes [(expression, none)]

end Document

/-! ## Interruptions -/

theorem steady_tokenSets (text : AnalyzedText) : Steady (tokenSets text) := by
  apply Steady.bind (Steady.polls _)
  intro _
  exact Steady.bind (Steady.polls _) fun _ => Steady.pure _

theorem steady_startsAny (token : Str) (i : ℕ) (values : List Str) : Steady (startsAny token i values) := by
  induction values generalizing i with
  | nil => exact Steady.pure _
  | cons value values ih =>
    apply Steady.bind (Steady.polls _)
    intro _
    exact Steady.ite (fun _ => Steady.pure _) fun _ => ih (i + 1)

theorem steady_supportingLoop (query source : List Str) (isPrefix all : Bool) :
    Steady (supportingLoop source isPrefix all query) := by
  induction query with
  | nil => exact Steady.pure _
  | cons token query ih =>
    simp only [supportingLoop]
    apply Steady.bind Steady.poll
    intro _
    apply Steady.ite
    · intro _
      apply Steady.bind (steady_startsAny _ _ _)
      intro _
      exact Steady.ite (fun _ => Steady.pure _) fun _ => ih
    · intro _
      exact Steady.bind (Steady.pure _) fun _ => Steady.ite (fun _ => Steady.pure _) fun _ => ih

theorem steady_supportingTokens (query source : List Str) (isPrefix all : Bool) :
    Steady (supportingTokens query source isPrefix all) :=
  Steady.ite (fun _ => Steady.pure _) fun _ => steady_supportingLoop query source isPrefix all

section Steady

variable (analyzer : KoreanAnalyzer) (tokens : AnalyzedText) (isPrefix : Bool) (doc : IndexedCapture AnalyzedText)

theorem steady_rawWindow (candidate : Engine × Cut) : Steady (rawWindow analyzer tokens isPrefix candidate) := by
  apply Steady.bind Steady.poll
  intro _
  apply Steady.bind (Steady.lift _)
  intro _
  apply Steady.bind (analyzer.steady_analyze _)
  intro _
  apply Steady.bind (steady_tokenSets _)
  intro _
  exact Steady.bind (steady_supportingTokens _ _ _ _) fun _ => Steady.pure _

theorem steady_analyzedWindow (qualified : List Engine) (cut : Cut) :
    Steady (analyzedWindow analyzer tokens isPrefix qualified cut) := by
  apply Steady.bind (analyzer.steady_analyze _)
  intro _
  apply Steady.bind (steady_tokenSets _)
  intro found
  apply Steady.bind
  · apply Steady.findSomeM
    intro engine
    exact Steady.bind (steady_supportingTokens _ _ _ _) fun _ => Steady.pure _
  · exact fun _ => Steady.pure _

theorem steady_termAnchor (source : Str) (sourceTokens : AnalyzedText) :
    Steady (termAnchor analyzer tokens isPrefix source sourceTokens) := by
  apply Steady.bind (steady_supportingTokens _ _ _ _)
  intro _
  apply Steady.bind (steady_supportingTokens _ _ _ _)
  intro _
  apply Steady.ite (fun _ => Steady.pure _)
  intro _
  apply Steady.bind (Steady.findSomeM (steady_rawWindow analyzer tokens isPrefix) _)
  intro window
  cases window with
  | some window => exact Steady.pure _
  | none => exact Steady.findSomeM (steady_analyzedWindow analyzer tokens isPrefix _) _

theorem steady_sourceTokens (unit : Searched) : Steady (sourceTokens analyzer doc unit) := by
  apply Steady.ite (fun _ => steady_tokenSets _)
  intro _
  apply Steady.ite (fun _ => steady_tokenSets _)
  intro _
  exact Steady.bind (analyzer.steady_analyze _) fun _ => steady_tokenSets _

theorem steady_leafAnchor (unit : Searched) (leaf : CompiledQuery) : Steady (leafAnchor analyzer doc unit leaf) := by
  cases leaf with
  | exact text =>
    rw [leafAnchor]
    split
    · exact Steady.pure _
    · exact Steady.bind (Steady.lift _) fun _ => Steady.pure _
  | term tokens isPrefix =>
    exact Steady.bind (steady_sourceTokens analyzer doc unit) fun _ => steady_termAnchor analyzer _ _ _ _
  | _ => exact Steady.pure _

theorem steady_sectionExcerpt (hasMetadataCase : Bool) (leaf : CompiledQuery) (field : Option QueryField)
    (unit : Searched) : Steady (sectionExcerpt analyzer doc hasMetadataCase leaf field unit) := by
  apply Steady.ite (fun _ => Steady.pure _)
  intro _
  apply Steady.bind Steady.poll
  intro _
  exact Steady.bind (steady_leafAnchor analyzer doc unit leaf) fun _ => Steady.pure _

theorem steady_positiveExcerpt (expression : CompiledQuery) (sections : List Searched) (hasMetadataCase : Bool) :
    Steady (positiveExcerpt analyzer doc expression sections hasMetadataCase) := by
  have each (visits : ℕ) (pending : List (CompiledQuery × Option QueryField)) :
      Steady (excerptLoop analyzer doc hasMetadataCase sections visits pending) := by
    induction visits generalizing pending with
    | zero =>
      cases pending with
      | nil => exact Steady.pure _
      | cons _ _ => exact Steady.bind Steady.poll fun _ => Steady.fail _
    | succ visits ih =>
      match pending with
      | [] => exact Steady.pure _
      | (leaf, field) :: pending =>
        have found : Steady (do
            match ← findSomeM (sectionExcerpt analyzer doc hasMetadataCase leaf field) sections with
            | some excerpt => pure (some excerpt)
            | none => excerptLoop analyzer doc hasMetadataCase sections visits pending) := by
          apply Steady.bind (Steady.findSomeM (steady_sectionExcerpt analyzer doc hasMetadataCase leaf field) _)
          intro excerpt
          cases excerpt with
          | some excerpt => exact Steady.pure _
          | none => exact ih pending
        apply Steady.bind Steady.poll
        intro _
        cases leaf with
        | all => exact ih pending
        | not child => exact ih pending
        | and children => exact ih _
        | or children =>
          refine Steady.bind (Steady.foldlM ?_ _ _) fun pending => ih pending
          intro pending child
          exact Steady.bind (CompiledQuery.steady_matchesDocument analyzer _ doc) fun _ => Steady.pure _
        | field scope child => exact ih _
        | term tokens isPrefix => exact found
        | exact text => exact found
  exact each _ _

end Steady

/-! ## What an excerpt is -/

/-- An excerpt is a nonempty slice of a searched section. -/
def Excerpts (sections : List Searched) (excerpt : Searched × Cut) : Prop :=
  excerpt.1 ∈ sections ∧ excerpt.2.text = excerpt.1.text ∧ excerpt.2.middle ≠ []

section Yields

variable (analyzer : KoreanAnalyzer) (doc : IndexedCapture AnalyzedText)

theorem yields_termAnchor (tokens : AnalyzedText) (isPrefix : Bool) {source : Str} (nonempty : source ≠ [])
    (sourceTokens : AnalyzedText) : Yields (termAnchor analyzer tokens isPrefix source sourceTokens)
      fun found => ∀ cut ∈ found, cut.text = source ∧ cut.middle ≠ [] := by
  refine Yields.after fun lindera => Yields.after fun mecab => ?_
  extract_lets qualified candidates
  split
  · exact Yields.pure fun cut impossible => nomatch impossible
  · have raw : Yields (findSomeM (rawWindow analyzer tokens isPrefix) candidates)
        fun found => ∀ cut ∈ found, cut.text = source ∧ cut.middle ≠ [] := by
      apply Yields.findSomeM
      intro candidate member
      obtain ⟨engine, -, ofEngine⟩ := List.mem_flatMap.mp member
      obtain ⟨token, -, ofToken⟩ := List.mem_flatMap.mp ofEngine
      obtain ⟨cut, matched, rfl⟩ := List.mem_map.mp ofToken
      have whole := text_of_mem_matchCuts matched
      refine Yields.after fun _ => Yields.bind (Yields.lift fun bounds found => found) ?_
      intro bounds found
      obtain ⟨same, filled⟩ := literalExcerpt_spec found
      rw [whole] at same filled
      refine Yields.after fun _ => Yields.after fun _ => Yields.after fun supports => ?_
      apply Yields.pure
      intro window taken
      cases supports with
      | false => cases taken
      | true =>
        cases taken
        exact ⟨(text_sourceWindow bounds).trans same, sourceWindow_ne_nil (filled nonempty)⟩
    refine Yields.bind raw ?_
    intro window holds
    cases window with
    | some window => exact Yields.pure holds
    | none =>
      apply Yields.findSomeM
      intro cut member
      obtain ⟨whole, filled⟩ := windowCuts_spec member
      refine Yields.after fun _ => Yields.after fun _ => Yields.after fun engine => ?_
      apply Yields.pure
      intro window taken
      cases engine with
      | none => cases taken
      | some engine =>
        cases taken
        exact ⟨(text_sourceWindow cut).trans whole, sourceWindow_ne_nil filled⟩

theorem yields_leafAnchor {unit : Searched} (nonempty : unit.text ≠ []) (leaf : CompiledQuery) :
    Yields (leafAnchor analyzer doc unit leaf)
      fun found => ∀ cut ∈ found, cut.text = unit.text ∧ cut.middle ≠ [] := by
  cases leaf with
  | exact text =>
    rw [leafAnchor]
    split
    · exact Yields.pure (by simp)
    · next before rest found =>
      refine Yields.bind (Yields.lift fun excerpt bounds => bounds) ?_
      intro excerpt bounds
      obtain ⟨same, filled⟩ := literalExcerpt_spec bounds
      have whole : (⟨before, text, rest⟩ : Cut).text = unit.text := by
        rw [Cut.text, splitOnce_eq_some found, List.append_assoc]
      rw [whole] at same filled
      apply Yields.pure
      intro cut taken
      cases taken
      exact ⟨same, filled nonempty⟩
  | term tokens isPrefix => exact Yields.after fun _ => yields_termAnchor analyzer tokens isPrefix nonempty _
  | _ => exact Yields.pure (by simp)

theorem yields_positiveExcerpt (expression : CompiledQuery) (sections : List Searched) (hasMetadataCase : Bool) :
    Yields (positiveExcerpt analyzer doc expression sections hasMetadataCase)
      fun found => ∀ excerpt ∈ found, Excerpts sections excerpt := by
  have each (visits : ℕ) (pending : List (CompiledQuery × Option QueryField)) :
      Yields (excerptLoop analyzer doc hasMetadataCase sections visits pending)
        fun found => ∀ excerpt ∈ found, Excerpts sections excerpt := by
    induction visits generalizing pending with
    | zero =>
      cases pending with
      | nil => exact Yields.pure fun excerpt impossible => nomatch impossible
      | cons _ _ => exact Yields.after fun _ => Yields.fail _
    | succ visits ih =>
      match pending with
      | [] => exact Yields.pure fun excerpt impossible => nomatch impossible
      | (leaf, field) :: pending =>
        have found : Yields (do
            match ← findSomeM (sectionExcerpt analyzer doc hasMetadataCase leaf field) sections with
            | some excerpt => pure (some excerpt)
            | none => excerptLoop analyzer doc hasMetadataCase sections visits pending)
              fun found => ∀ excerpt ∈ found, Excerpts sections excerpt := by
          have inSections : Yields (findSomeM (sectionExcerpt analyzer doc hasMetadataCase leaf field) sections)
              fun found => ∀ excerpt ∈ found, Excerpts sections excerpt := by
            apply Yields.findSomeM
            intro unit member
            rw [sectionExcerpt]
            split_ifs with skipped
            · exact Yields.pure fun excerpt impossible => nomatch impossible
            · simp only [Bool.or_eq_true, not_or, List.isEmpty_iff] at skipped
              refine Yields.after fun _ => Yields.bind (yields_leafAnchor analyzer doc skipped.2 leaf) ?_
              intro anchor holds
              apply Yields.pure
              intro excerpt taken
              obtain ⟨cut, here, rfl⟩ := Option.map_eq_some_iff.mp taken
              exact ⟨member, holds cut here⟩
          refine Yields.bind inSections ?_
          intro excerpt holds
          cases excerpt with
          | some excerpt => exact Yields.pure holds
          | none => exact ih pending
        refine Yields.after fun _ => ?_
        cases leaf with
        | all => exact ih pending
        | not child => exact ih pending
        | and children => exact ih _
        | or children => exact Yields.after fun pending => ih pending
        | field scope child => exact ih _
        | term tokens isPrefix => exact found
        | exact text => exact found
  exact each _ _

end Yields

end OpenLegal.Legal
