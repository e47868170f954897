import OpenLegal.Legal.LawReference
import OpenLegal.Legal.Outline

/-! # Texts of one article in two captures

An article is located in the outline of a capture and its text returned up to a byte limit. Whether it changed is decided on
the returned texts.
-/

namespace OpenLegal.Legal

open Rust Rust.Str

def articleTextLimit : ℕ := 16 * 1024

/-- At most `max` bytes of `text`, cut at a character boundary. -/
def clip (text : Str) (max : ℕ) : Str × Bool :=
  let stop := floorCharBoundary text (min (byteLen text) max)
  (truncate text stop, decide (stop < byteLen text))

/-- `제9-5조` may be kept as `제9조의5`. -/
def ArticleNumber.alternate (wanted : ArticleNumber) : Option ArticleNumber :=
  wanted.part.map fun part => ⟨wanted.number, none, some part⟩

/-- The search through an outline, with the alternate found so far. -/
def locateIn (wanted : ArticleNumber) : List OutlineUnit → Option LocatedArticle → Option LocatedArticle
  | [], fallback => fallback
  | .heading .. :: rest, fallback => locateIn wanted rest fallback
  | .article located :: rest, fallback =>
    if located.number = wanted then some located
    else if wanted.branch.isNone ∧ some located.number = wanted.alternate ∧ fallback.isNone then
      locateIn wanted rest (some located)
    else locateIn wanted rest fallback

attribute [grind =] locateIn

/-- Find an article by its leading locator in the capture outline. -/
def locateArticle (sections : List LegalSection) (wanted : ArticleNumber) : Option LocatedArticle :=
  locateIn wanted (outline sections) none

structure ArticleText where
  revisionId : Str
  captureId : Str
  title : Str
  text : Str
  truncated : Bool
  deleted : Bool
deriving DecidableEq, Repr

def articleText (capture : Capture) (wanted : ArticleNumber) : Option ArticleText :=
  (locateArticle capture.record.sections wanted).map fun located =>
    let (text, truncated) := clip located.text articleTextLimit
    { revisionId := capture.record.revisionId, captureId := capture.captureId, title := located.title, text, truncated
      deleted := located.deleted }

def sameText (a b : Str) : Bool := splitWhitespace a == splitWhitespace b

/-- Whether the selected and HEAD article texts differ, when both were found. -/
def changedSince (atDate head : Option ArticleText) : Option Bool :=
  match atDate, head with
  | some a, some b => some (!sameText a.text b.text)
  | _, _ => none

/-! ## Clipped texts -/

/-- The clipped text is the beginning of the text, as long as the limit allows. -/
theorem clip_spec (text : Str) (max : ℕ) : ∃ rest, text = (clip text max).1 ++ rest ∧
    byteLen (clip text max).1 ≤ max ∧ ((clip text max).2 = true ↔ rest ≠ []) ∧
    ∀ c ∈ rest.head?, max < byteLen (clip text max).1 + c.utf8Size := by
  obtain ⟨kept, rest, split, length⟩ := isCharBoundary_iff.mp (isCharBoundary_floorCharBoundary text (min (byteLen text) max))
  have below := floorCharBoundary_le text (min (byteLen text) max)
  have same : clip text max = (kept, decide (byteLen kept < byteLen text)) := by
    rw [clip, ← length]
    conv_lhs => rw [split]
    rw [truncate_append, ← split]
  rw [← length] at below
  rw [same]
  refine ⟨rest, split, below.trans (Nat.min_le_right _ _), ?_, fun c first => ?_⟩
  · rw [decide_eq_true_eq, split, byteLen_append, ← List.length_pos_iff]
    have positive := length_le_byteLen rest
    cases rest with
    | nil => simp
    | cons c rest => simp only [List.length_cons] at positive ⊢; omega
  · obtain ⟨tail, rfl⟩ : ∃ tail, rest = c :: tail := List.head?_eq_some_iff.mp first
    refine Nat.lt_of_not_le fun fits => ?_
    change byteLen kept + c.utf8Size ≤ max at fits
    have longer : byteLen (kept ++ [c]) = byteLen kept + c.utf8Size := by simp
    have boundary : isCharBoundary text (byteLen (kept ++ [c])) = true :=
      isCharBoundary_iff.mpr ⟨kept ++ [c], tail, by simp [split], rfl⟩
    have inside := isCharBoundary_le boundary
    have more := le_floorCharBoundary boundary (i := min (byteLen text) max) (by omega)
    have positive := c.utf8Size_pos
    omega

theorem clip_prefix (text : Str) (max : ℕ) : (clip text max).1 <+: text := by
  obtain ⟨rest, split, -⟩ := clip_spec text max
  exact ⟨rest, split.symm⟩

theorem byteLen_clip_le (text : Str) (max : ℕ) : byteLen (clip text max).1 ≤ max := by
  obtain ⟨-, -, short, -⟩ := clip_spec text max
  exact short

/-- A text that is not cut is kept in full. -/
theorem clip_whole {text : Str} {max : ℕ} : (clip text max).2 = false ↔ clip text max = (text, false) := by
  obtain ⟨rest, split, -, flag, -⟩ := clip_spec text max
  constructor
  · intro uncut
    have none : rest = [] := by
      by_contra more
      rw [flag.mpr more] at uncut
      cases uncut
    rw [none, List.append_nil] at split
    exact Prod.ext split.symm uncut
  · intro same
    rw [same]

/-- A beginning that more would make longer than the limit is what is kept. -/
theorem clip_unique {kept rest : Str} {max : ℕ} (short : byteLen kept ≤ max)
    (full : ∀ c ∈ rest.head?, max < byteLen kept + c.utf8Size) : (clip (kept ++ rest) max).1 = kept := by
  obtain ⟨rest', split, short', -, full'⟩ := clip_spec (kept ++ rest) max
  rcases List.append_eq_append_iff.mp split with ⟨more, longer, here⟩ | ⟨more, shorter, here⟩
  · cases more with
    | nil => rw [longer, List.append_nil]
    | cons c more =>
      have exceeds := full c (by rw [here]; rfl)
      rw [longer, byteLen_append, byteLen_cons] at short'
      omega
  · cases more with
    | nil => rw [List.append_nil] at shorter; exact shorter.symm
    | cons c more =>
      have exceeds := full' c (by rw [here]; rfl)
      have length : byteLen kept = byteLen (clip (kept ++ rest) max).1 + byteLen (c :: more) := by
        rw [← byteLen_append, ← shorter]
      rw [byteLen_cons] at length
      omega

/-! ## Visible characters -/

/-- A visible character of a text: whether it begins a word, and how many bytes the text has up to its end. -/
structure Visible where
  letter : Char
  begins : Bool
  stop : ℕ

/-- What the words of a text say of a visible character. -/
def Visible.face (character : Visible) : Char × Bool := (character.letter, character.begins)

/-- The visible characters behind `offset` bytes; `gap` says whether white space, or nothing, comes first. -/
def visibleFrom : ℕ → Bool → Str → List Visible
  | _, _, [] => []
  | offset, gap, c :: rest =>
    if isWhitespace c then visibleFrom (offset + c.utf8Size) true rest
    else ⟨c, gap, offset + c.utf8Size⟩ :: visibleFrom (offset + c.utf8Size) false rest

def visible (text : Str) : List Visible := visibleFrom 0 true text

theorem visibleFrom_append (front rest : Str) (offset : ℕ) (gap : Bool) : ∃ gap', visibleFrom offset gap (front ++ rest) =
    visibleFrom offset gap front ++ visibleFrom (offset + byteLen front) gap' rest := by
  induction front generalizing offset gap with
  | nil => exact ⟨gap, rfl⟩
  | cons c front ih =>
    rw [List.cons_append, visibleFrom, visibleFrom, byteLen_cons, ← Nat.add_assoc]
    split_ifs with blank
    · exact ih (offset + c.utf8Size) true
    · obtain ⟨gap', split⟩ := ih (offset + c.utf8Size) false
      exact ⟨gap', by rw [split]; rfl⟩

theorem visibleFrom_stop {text : Str} {offset : ℕ} {gap : Bool} {character : Visible}
    (member : character ∈ visibleFrom offset gap text) :
    (∀ c ∈ text.head?, offset + c.utf8Size ≤ character.stop) ∧ character.stop ≤ offset + byteLen text := by
  induction text generalizing offset gap with
  | nil => cases member
  | cons c text ih =>
    have later (gap' : Bool) (inside : character ∈ visibleFrom (offset + c.utf8Size) gap' text) :
        offset + c.utf8Size ≤ character.stop ∧ character.stop ≤ offset + byteLen (c :: text) := by
      obtain ⟨first, last⟩ := ih inside
      rw [byteLen_cons]
      refine ⟨?_, by omega⟩
      cases text with
      | nil => cases inside
      | cons d text => exact (Nat.le_add_right _ _).trans (first d rfl)
    rw [visibleFrom] at member
    have bounds : offset + c.utf8Size ≤ character.stop ∧ character.stop ≤ offset + byteLen (c :: text) := by
      split_ifs at member with blank
      · exact later true member
      · rcases List.mem_cons.mp member with rfl | inside
        · rw [byteLen_cons, ← Nat.add_assoc]
          exact ⟨le_rfl, Nat.le_add_right _ _⟩
        · exact later false inside
    refine ⟨?_, bounds.2⟩
    rintro _ ⟨⟩
    exact bounds.1

/-- The limit keeps the visible characters that end within it. -/
theorem visible_clip (text : Str) (max : ℕ) : ∃ behind, visible text = visible (clip text max).1 ++ behind ∧
    (∀ character ∈ visible (clip text max).1, character.stop ≤ max) ∧ ∀ character ∈ behind, max < character.stop := by
  obtain ⟨rest, split, short, -, full⟩ := clip_spec text max
  obtain ⟨gap, pieces⟩ := visibleFrom_append (clip text max).1 rest 0 true
  rw [← split] at pieces
  refine ⟨_, pieces, fun character member => ?_, fun character member => ?_⟩
  · have := (visibleFrom_stop member).2
    omega
  · cases rest with
    | nil => cases member
    | cons c rest =>
      have exceeds := full c rfl
      have := (visibleFrom_stop member).1 c rfl
      omega

/-! ## Words by their characters -/

/-- The visible characters of some words. -/
def spelled (words : List Str) : List (Char × Bool) := words.flatMap fun
  | [] => []
  | c :: rest => (c, true) :: rest.map fun d => (d, false)

/-- A character and the words behind it; the first component is a word whose beginning is still to come. -/
def regroup : Char × Bool → Str × List Str → Str × List Str
  | (c, true), (pending, words) => ([], (c :: pending) :: words)
  | (c, false), (pending, words) => (c :: pending, words)

theorem foldr_pending (rest : Str) (words : List Str) :
    (rest.map fun d => (d, false)).foldr regroup ([], words) = (rest, words) := by
  induction rest with
  | nil => rfl
  | cons d rest ih =>
    rw [List.map_cons, List.foldr_cons, ih]
    rfl

theorem foldr_spelled {words : List Str} (nonempty : ∀ word ∈ words, word ≠ []) :
    (spelled words).foldr regroup ([], []) = ([], words) := by
  induction words with
  | nil => rfl
  | cons word words ih =>
    obtain ⟨first, others⟩ := List.forall_mem_cons.mp nonempty
    obtain ⟨c, rest, rfl⟩ := List.exists_cons_of_ne_nil first
    rw [spelled, List.flatMap_cons, ← spelled, List.cons_append, List.foldr_cons, List.foldr_append, ih others,
      foldr_pending]
    rfl

theorem map_face_visibleFrom {run : Str} (shown : ∀ c ∈ run, isWhitespace c = false) (offset : ℕ) :
    (visibleFrom offset false run).map Visible.face = run.map fun d => (d, false) := by
  induction run generalizing offset with
  | nil => rfl
  | cons c run ih =>
    obtain ⟨first, others⟩ := List.forall_mem_cons.mp shown
    rw [visibleFrom, if_neg (by rw [first]; decide), List.map_cons, ih others]
    rfl

/-- Before a gap, or at the end, it makes no difference what comes first. -/
theorem visibleFrom_separates {tail : Str} (ends : Separates tail) (offset : ℕ) (gap : Bool) :
    visibleFrom offset gap tail = visibleFrom offset true tail := by
  cases tail with
  | nil => rfl
  | cons c tail => rw [visibleFrom, visibleFrom, if_pos (ends c rfl), if_pos (ends c rfl)]

theorem map_face_visible (text : Str) (offset : ℕ) :
    (visibleFrom offset true text).map Visible.face = spelled (splitWhitespace text) := by
  induction length : text.length using Nat.strong_induction_on generalizing text offset with
  | _ n ih =>
    cases text with
    | nil => rfl
    | cons c text =>
      subst length
      by_cases blank : isWhitespace c = true
      · rw [visibleFrom, if_pos blank, splitWhitespace_cons blank]
        exact ih text.length (Nat.lt_succ_self _) text _ rfl
      · -- the word that begins here, and what is behind it
        rw [Bool.not_eq_true] at blank
        obtain ⟨run, tail, rfl, shown, ends⟩ : ∃ run tail, text = run ++ tail ∧ (∀ d ∈ run, isWhitespace d = false) ∧
            Separates tail := by
          refine ⟨text.takeWhile (!isWhitespace ·), text.dropWhile (!isWhitespace ·), List.takeWhile_append_dropWhile.symm,
            fun d member => by simpa using List.mem_takeWhile_imp member, fun d first => ?_⟩
          have stopped := List.head?_dropWhile_not (!isWhitespace ·) text
          rw [first] at stopped
          simpa using stopped
        have shorter : tail.length < (c :: (run ++ tail)).length := by
          rw [List.length_cons, List.length_append]
          omega
        obtain ⟨gap, pieces⟩ := visibleFrom_append run tail (offset + c.utf8Size) false
        rw [visibleFrom_separates ends] at pieces
        have word : splitWhitespace (c :: (run ++ tail)) = (c :: run) :: splitWhitespace tail :=
          @splitWhitespace_word (c :: run) tail ⟨List.cons_ne_nil _ _, List.forall_mem_cons.mpr ⟨blank, shown⟩⟩ ends
        rw [visibleFrom, if_neg (by rw [blank]; decide), List.map_cons, pieces, List.map_append,
          map_face_visibleFrom shown, ih tail.length shorter tail _ rfl, word]
        rfl

/-- Texts with the same words have the same visible characters, up to where they stand. -/
theorem words_eq_iff {a b : Str} : splitWhitespace a = splitWhitespace b ↔
    (visible a).map Visible.face = (visible b).map Visible.face := by
  rw [visible, visible, map_face_visible, map_face_visible]
  refine ⟨congrArg spelled, fun same => ?_⟩
  have nonempty (text : Str) : ∀ word ∈ splitWhitespace text, word ≠ [] := by
    intro word member
    simpa using (List.mem_filter.mp member).2
  have regrouped := congrArg (fun faces => (List.foldr regroup ([], []) faces).2) same
  rwa [foldr_spelled (nonempty a), foldr_spelled (nonempty b)] at regrouped

/-! ## Changes -/

/-- The visible character at a place ends within the limit. -/
def Within (text : Str) (place : ℕ) : Prop := ∃ character ∈ (visible text)[place]?, character.stop ≤ articleTextLimit

/-- A place is within the limit in one of the texts and not in the other. -/
def Straddles (a b : Str) : Prop := ∃ place, ¬(Within a place ↔ Within b place)

/-- Different characters, or a word that begins in one of the texts only, at a place within the limit in both. -/
def DiffersWithin (a b : Str) : Prop := ∃ place, Within a place ∧ Within b place ∧
  (visible a)[place]?.map Visible.face ≠ (visible b)[place]?.map Visible.face

theorem getElem?_visible_clip {text : Str} {place : ℕ} {character : Visible} :
    (visible (clip text articleTextLimit).1)[place]? = some character ↔
      (visible text)[place]? = some character ∧ character.stop ≤ articleTextLimit := by
  obtain ⟨behind, split, kept, beyond⟩ := visible_clip text articleTextLimit
  constructor
  · intro here
    refine ⟨?_, kept character (List.mem_of_getElem? here)⟩
    rw [split, List.getElem?_append_left (List.getElem?_eq_some_iff.mp here).1, here]
  · rintro ⟨here, inside⟩
    rw [split, List.getElem?_append] at here
    split_ifs at here with early
    · exact here
    · have := beyond character (List.mem_of_getElem? here)
      omega

theorem within_iff {text : Str} {place : ℕ} :
    Within text place ↔ (visible (clip text articleTextLimit).1)[place]?.isSome = true := by
  rw [Option.isSome_iff_exists]
  constructor
  · rintro ⟨character, here, inside⟩
    exact ⟨character, (getElem?_visible_clip).mpr ⟨here, inside⟩⟩
  · rintro ⟨character, here⟩
    exact ⟨character, (getElem?_visible_clip).mp here⟩

/-- Within the limit a text and what is kept of it have the same characters. -/
theorem Within.kept {text : Str} {place : ℕ} (within : Within text place) :
    (visible (clip text articleTextLimit).1)[place]? = (visible text)[place]? := by
  obtain ⟨character, here, inside⟩ := within
  rw [(getElem?_visible_clip).mpr ⟨here, inside⟩]
  exact here.symm

theorem sameText_clip_iff {a b : Str} : sameText (clip a articleTextLimit).1 (clip b articleTextLimit).1 = true ↔
    ¬Straddles a b ∧ ¬DiffersWithin a b := by
  rw [sameText, beq_iff_eq, words_eq_iff]
  constructor
  · intro same
    have at_place (place : ℕ) := congrArg (fun faces : List (Char × Bool) => faces[place]?) same
    simp only [List.getElem?_map] at at_place
    refine ⟨fun ⟨place, apart⟩ => apart ?_, fun ⟨place, first, second, differ⟩ => differ ?_⟩
    · rw [within_iff, within_iff, ← Option.isSome_map, at_place place, Option.isSome_map]
    · rw [← first.kept, ← second.kept]
      exact at_place place
  · rintro ⟨together, alike⟩
    apply List.ext_getElem?
    intro place
    rw [List.getElem?_map, List.getElem?_map]
    have both : Within a place ↔ Within b place := by
      by_contra apart
      exact together ⟨place, apart⟩
    by_cases within : Within a place
    · rw [within.kept, (both.mp within).kept]
      by_contra differ
      exact alike ⟨place, within, both.mp within, differ⟩
    · have none {text : Str} (outside : ¬Within text place) : (visible (clip text articleTextLimit).1)[place]? = none := by
        rwa [within_iff, Bool.not_eq_true, Option.isSome_eq_false_iff, Option.isNone_iff_eq_none] at outside
      rw [none within, none fun inside => within (both.mpr inside)]

/-- For an article in both captures, the answer is that it did not change exactly when its whole texts have the same words,
unless their white space pushes a character of the one behind the limit that the other has within, or their words differ
behind the limit only. -/
theorem changed_since_whole_iff {selected head : Capture} {wanted : ArticleNumber} {a b : LocatedArticle}
    (atDate : locateArticle selected.record.sections wanted = some a)
    (atHead : locateArticle head.record.sections wanted = some b) :
    (changedSince (articleText selected wanted) (articleText head wanted) = some false ↔
      splitWhitespace a.text = splitWhitespace b.text) ↔
    (splitWhitespace a.text = splitWhitespace b.text → ¬Straddles a.text b.text) ∧
      (splitWhitespace a.text ≠ splitWhitespace b.text → Straddles a.text b.text ∨ DiffersWithin a.text b.text) := by
  have answer : changedSince (articleText selected wanted) (articleText head wanted) = some false ↔
      ¬Straddles a.text b.text ∧ ¬DiffersWithin a.text b.text := by
    rw [articleText, articleText, atDate, atHead, ← sameText_clip_iff]
    simp [changedSince]
  rw [answer]
  by_cases same : splitWhitespace a.text = splitWhitespace b.text
  · have alike : ¬DiffersWithin a.text b.text := by
      rintro ⟨place, -, -, differ⟩
      apply differ
      rw [← List.getElem?_map, ← List.getElem?_map, (words_eq_iff).mp same]
    simp [same, alike]
  · simp only [same, false_implies, true_and, ne_eq, not_false_eq_true, true_implies, iff_false, not_and_or, not_not]

/-- Within the limit the answer is about the whole texts. -/
theorem answered_within_limit {a b : Str} (first : byteLen a ≤ articleTextLimit) (second : byteLen b ≤ articleTextLimit) :
    (splitWhitespace a = splitWhitespace b → ¬Straddles a b) ∧
      (splitWhitespace a ≠ splitWhitespace b → Straddles a b ∨ DiffersWithin a b) := by
  have whole {text : Str} (short : byteLen text ≤ articleTextLimit) : (clip text articleTextLimit).1 = text := by
    have all := @clip_unique text [] articleTextLimit short (fun c impossible => by cases impossible)
    rwa [List.append_nil] at all
  have answer := @sameText_clip_iff a b
  rw [whole first, whole second, sameText, beq_iff_eq] at answer
  refine ⟨fun same => (answer.mp same).1, fun differ => ?_⟩
  rw [ne_eq, answer, not_and_or, not_not, not_not] at differ
  exact differ

section Example

/-- A capture of a statute with one article. -/
def oneArticle (text : Str) : Capture where
  captureId := ['1']
  record := {
    object := ⟨['k', 'r'], ['p'], .nationalStatute, ['1']⟩, revisionId := ['1'], title := ['법'], body := text, metadata := ∅
    publicationDate := none, effectiveDate := none, sourceUrl := [], representation := []
    sections := [⟨articleSection ++ ['1'], [], text, .providerText, none, none⟩] }

theorem located_oneArticle {rest : Str} (trimmed : Trimmed ('제' :: '1' :: '조' :: ' ' :: rest)) :
    ∃ located, locateArticle (oneArticle ('제' :: '1' :: '조' :: ' ' :: rest)).record.sections ⟨1, none, none⟩ = some located ∧
      located.text = '제' :: '1' :: '조' :: ' ' :: rest := by
  have whole := trimmed.trim_eq_self
  have read : articleAt ('제' :: '1' :: '조' :: ' ' :: rest) = some (⟨1, none, none⟩, ' ' :: rest) := by rfl
  obtain ⟨located, built, number⟩ := @buildArticle_eq_some (articleSection ++ ['1']) [] _ _ _ (whole.symm ▸ read)
  have heading : headingAt ('제' :: '1' :: '조' :: ' ' :: rest) = none := by
    rw [headingAt, trimStart, dropWhile_visible trimmed.first]
    rfl
  refine ⟨located, ?_, (buildArticle_text built).trans whole⟩
  have own : articleSection.isPrefixOf (articleSection ++ ['1']) = true := by decide
  rw [locateArticle, outline, oneArticle, List.flatMap_cons, LegalSection.outline, if_neg (by simp), if_pos own, whole]
  dsimp only
  rw [heading]
  dsimp only
  rw [built]
  simp [locateIn, number]

/-- An article of one long word behind its locator. -/
def longArticle (n : ℕ) (last : Char) : Str := '제' :: '1' :: '조' :: ' ' :: (List.replicate n 'x' ++ [last])

theorem longArticle_eq (n : ℕ) (last : Char) :
    longArticle n last = ('제' :: '1' :: '조' :: ' ' :: List.replicate n 'x') ++ [last] := rfl

variable {n : ℕ} {last : Char}

theorem trimmed_longArticle (visible : isWhitespace last = false) : Trimmed (longArticle n last) where
  first := by
    rintro _ ⟨⟩
    simp [isWhitespace]
  last := by
    intro c found
    rw [longArticle_eq, List.getLast?_concat] at found
    exact Option.some.inj found ▸ visible

theorem words_longArticle (visible : isWhitespace last = false) :
    splitWhitespace (longArticle n last) = [['제', '1', '조'], List.replicate n 'x' ++ [last]] := by
  have alone (word : Str) (shape : IsWord word) : splitWhitespace word = [word] := by
    have split := @splitWhitespace_word word [] shape (fun c impossible => by cases impossible)
    rwa [List.append_nil] at split
  have letters : IsWord (List.replicate n 'x' ++ [last]) := by
    refine ⟨by simp, List.forall_mem_append.mpr ⟨fun c member => ?_, by simpa using visible⟩⟩
    rw [(List.mem_replicate.mp member).2]
    simp [isWhitespace]
  have pieces : longArticle n last = ['제', '1', '조'] ++ ' ' :: (List.replicate n 'x' ++ [last]) := rfl
  rw [pieces, splitWhitespace_append_blank isWhitespace_space, alone _ letters, alone _ (by simp [IsWord, isWhitespace])]
  rfl

/-- The limit keeps all but the last character. -/
theorem clip_longArticle (long : n + 8 = articleTextLimit) (last : Char) :
    (clip (longArticle n last) articleTextLimit).1 = '제' :: '1' :: '조' :: ' ' :: List.replicate n 'x' := by
  have letters : byteLen (List.replicate n 'x') = n := by
    simp [byteLen, show Char.utf8Size 'x' = 1 from rfl]
  have head : Char.utf8Size '제' + (Char.utf8Size '1' + (Char.utf8Size '조' + Char.utf8Size ' ')) = 8 := rfl
  have length : byteLen ('제' :: '1' :: '조' :: ' ' :: List.replicate n 'x') = articleTextLimit := by
    simp only [byteLen_cons, letters]
    omega
  rw [longArticle_eq]
  refine clip_unique length.le fun c _ => ?_
  have positive := c.utf8Size_pos
  omega

theorem changed_since_whole_spacing : changedSince (articleText (oneArticle "제1조 가 나".toList) ⟨1, none, none⟩)
    (articleText (oneArticle "제1조 가  나".toList) ⟨1, none, none⟩) = some false := by
  have trimmed (rest : Str) (whole : trim ('제' :: '1' :: '조' :: ' ' :: rest) = '제' :: '1' :: '조' :: ' ' :: rest) :
      Trimmed ('제' :: '1' :: '조' :: ' ' :: rest) := whole ▸ trimmed_trim _
  obtain ⟨a, atDate, textA⟩ := located_oneArticle (trimmed "가 나".toList (by decide +kernel))
  obtain ⟨b, atHead, textB⟩ := located_oneArticle (trimmed "가  나".toList (by decide +kernel))
  refine ((changed_since_whole_iff atDate atHead).mpr (answered_within_limit ?_ ?_)).mpr ?_
  · rw [textA]
    decide +kernel
  · rw [textB]
    decide +kernel
  · rw [textA, textB]
    decide +kernel

/-- A change behind the limit is not seen. -/
theorem changed_since_misses : ¬∀ (selected head : Capture) (wanted : ArticleNumber) (a b : LocatedArticle),
    locateArticle selected.record.sections wanted = some a → locateArticle head.record.sections wanted = some b →
      (changedSince (articleText selected wanted) (articleText head wanted) = some false ↔
        splitWhitespace a.text = splitWhitespace b.text) := by
  intro agrees
  have long : 16376 + 8 = articleTextLimit := rfl
  generalize 16376 = n at long
  have visible : isWhitespace 'a' = false ∧ isWhitespace 'b' = false := by decide +kernel
  obtain ⟨a, atDate, textA⟩ := located_oneArticle (@trimmed_longArticle n _ visible.1)
  obtain ⟨b, atHead, textB⟩ := located_oneArticle (@trimmed_longArticle n _ visible.2)
  have unchanged : changedSince (articleText (oneArticle (longArticle n 'a')) ⟨1, none, none⟩)
      (articleText (oneArticle (longArticle n 'b')) ⟨1, none, none⟩) = some false := by
    rw [longArticle, longArticle, articleText, articleText, atDate, atHead]
    have kept : (clip a.text articleTextLimit).1 = (clip b.text articleTextLimit).1 :=
      textA ▸ textB ▸ (clip_longArticle long 'a').trans (clip_longArticle long 'b').symm
    simp [changedSince, kept, sameText]
  have same := (agrees _ _ _ a b atDate atHead).mp unchanged
  have apart := words_longArticle (n := n) visible.1
  rw [longArticle, ← textA, same, textB] at apart
  have words := (words_longArticle (n := n) visible.2).symm.trans apart
  simp at words

end Example

end OpenLegal.Legal
