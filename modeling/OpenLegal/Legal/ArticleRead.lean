import OpenLegal.Legal.AnnexLabel
import OpenLegal.Legal.ArticleLayout
import OpenLegal.Legal.ArticleText
import OpenLegal.Theory.Spending

/-! # Reading articles and annexes

What is asked for of a capture is returned in order until a byte budget is spent, which articles, their neighbours and
annexes share.
-/

namespace OpenLegal.Legal

open Rust Rust.Str Theory

def maxOutline : ℕ := 600

def maxContext : ℕ := 3

def maxKeywordBytes : ℕ := 200

def readBudget : ℕ := 64 * 1024

def annexTextLimit : ℕ := 32 * 1024

/-! ## Requests -/

inductive RevisionSelector where
  | head
  | revision (id : Str)
  | publicationDate (date : Str)
  | effectiveDate (date : Str)
deriving DecidableEq, Repr

structure ArticleReadInput where
  selector : Option RevisionSelector
  date : Option Str
  article : Option Str
  context : ℕ
  chapter : Option Str
  keyword : Option Str
  annex : Option Str

structure ReadRequest where
  article : Option ArticleNumber
  context : ℕ
  chapter : Option (Char × ℕ)
  keyword : Option Str
  annex : Option AnnexLabel
deriving DecidableEq, Repr

def validText (value : Str) (max : ℕ) : Bool :=
  !(trim value).isEmpty && byteLen value ≤ max && !value.any fun c => isControl c && c != '\n' && c != '\r' && c != '\t'

/-- `제2장`, `2장`, `第2章` or mixed locator markers as a heading level and number. -/
def parseHeading (value : Str) : Option (Char × ℕ) :=
  let compact := withoutSpaces value
  headingAt (if (locatorPrefix compact).isSome then compact else '제' :: compact)

def ArticleReadInput.invalid (input : ArticleReadInput) : Bool :=
  (input.selector.isSome && input.date.isSome) || input.date.any (!validDate ·) || decide (maxContext < input.context) ||
    input.keyword.any fun keyword => !validText keyword maxKeywordBytes || keyword.contains '\n' || (withoutSpaces keyword).isEmpty

/-- The request that an input makes, if it is valid. -/
def ArticleReadInput.request (input : ArticleReadInput) : Option ReadRequest :=
  if input.invalid then none
  else do
    let article ← input.article.mapM parseArticleNumber
    let chapter ← input.chapter.mapM parseHeading
    let annex ← input.annex.mapM parseAnnexLabel
    some { article, context := input.context, chapter, keyword := input.keyword, annex }

/-! ## Annexes -/

/-- An annex section: provider annex text or extracted attachment text. -/
structure LocatedAnnex where
  label : AnnexLabel
  sectionId : Str
  title : Str
  text : Str
  kind : SectionKind
  /-- Little Korean text or an image tag: the values may only exist as an image. -/
  sparse : Bool
deriving DecidableEq, Repr

def annexTitle : Str := "별표내용".toList

def imageTag : Str := "<img".toList

def isHangul (c : Char) : Bool := '가' ≤ c && c ≤ '힣'

def annexSection (s : LegalSection) : Option LocatedAnnex :=
  let candidate :=
    match s.kind with
    | .providerText => s.title == annexTitle
    | .extracted => true
    | .ocr => false
  if candidate then
    (annexMarker s.text).map fun label =>
      { label, sectionId := s.id, title := s.title, text := trim s.text, kind := s.kind
        sparse := decide (s.text.countP isHangul < 20) || contains s.text imageTag }
  else none

/-- Annex sections in source order, provider text before extracted attachments. -/
def annexes (sections : List LegalSection) : List LocatedAnnex :=
  let found := sections.filterMap annexSection
  found.filter (·.kind == .providerText) ++ found.filter (·.kind != .providerText)

/-- The labels, each once. -/
def annexIndex (annexes : List LocatedAnnex) : List Str :=
  annexes.foldl (fun index annex =>
    if index.contains annex.label.display then index else index ++ [annex.label.display]) []

/-! ## Articles that are picked -/

/-- The place of an article, or of one that is kept with the part as a branch. -/
def findArticle (placed : List Placed) (wanted : ArticleNumber) : Option ℕ :=
  (placed.findIdx? (·.article.number == wanted)).or <|
    if wanted.branch.isNone then
      wanted.alternate.bind fun alternate => placed.findIdx? (·.article.number == alternate)
    else none

namespace ReadRequest

/-- The article asked for, if it is found. -/
def found (request : ReadRequest) (layout : Layout) : Option ℕ := request.article.bind (findArticle layout.placed)

/-- The article asked for with its neighbours. -/
def around (request : ReadRequest) (layout : Layout) : List ℕ :=
  (request.found layout).elim [] fun i =>
    (List.range (min (i + request.context + 1) layout.placed.length)).drop (i - request.context)

/-- The articles under the heading asked for. -/
def under (request : ReadRequest) (layout : Layout) : List ℕ :=
  if request.chapter.isSome && layout.chapterFound then layout.chapter else []

/-- The articles whose text contains the keyword, ignoring spacing. -/
def holding (request : ReadRequest) (layout : Layout) : List ℕ :=
  request.keyword.elim [] fun keyword =>
    (layout.placed.zipIdx.filter fun (placed, _) =>
      contains (withoutSpaces placed.article.text) (withoutSpaces keyword)).map Prod.snd

def picked (request : ReadRequest) (layout : Layout) : List ℕ :=
  request.around layout ++ request.under layout ++ request.holding layout

/-- Whether the outline is returned: nothing was asked for, or an article or heading is not there. -/
def wantsOutline (request : ReadRequest) (layout : Layout) : Bool :=
  (request.article.isNone && request.chapter.isNone && request.keyword.isNone && request.annex.isNone) ||
    (request.article.isSome && (request.found layout).isNone) || (request.chapter.isSome && !layout.chapterFound)

/-- The annexes with the label asked for. -/
def matching (request : ReadRequest) (annexes : List LocatedAnnex) : List LocatedAnnex :=
  request.annex.elim [] fun wanted => annexes.filter (·.label == wanted)

def warnings (request : ReadRequest) (layout : Layout) (annexes : List LocatedAnnex) : List Str :=
  ([(request.article.isSome && (request.found layout).isNone, "article_not_found"),
    (request.chapter.isSome && !layout.chapterFound, "heading_not_found"),
    (request.keyword.isSome && (request.holding layout).isEmpty, "keyword_not_found"),
    (layout.placed.isEmpty, "no_article_structure"),
    (request.annex.isSome && (request.matching annexes).isEmpty, "annex_not_found"),
    ((request.matching annexes).any (·.sparse), "annex_text_sparse")].filter Prod.fst).map fun (_, code) => code.toList

end ReadRequest

/-! ## Texts within the budget -/

structure ArticleUnit where
  article : Str
  title : Str
  text : Str
  truncated : Bool
  deleted : Bool
  path : List Str
deriving DecidableEq, Repr

structure AnnexText where
  label : Str
  sectionId : Str
  title : Str
  kind : SectionKind
  text : Str
  truncated : Bool
  sparse : Bool
deriving DecidableEq, Repr

/-- The unit of an article with this text. -/
def Placed.unit (placed : Placed) (text : Str × Bool) : ArticleUnit where
  article := placed.article.number.display
  title := placed.article.title
  text := text.1
  truncated := text.2
  deleted := placed.article.deleted
  path := placed.path

def LocatedAnnex.unit (annex : LocatedAnnex) (text : Str × Bool) : AnnexText where
  label := annex.label.display
  sectionId := annex.sectionId
  title := annex.title
  kind := annex.kind
  text := text.1
  truncated := text.2
  sparse := annex.sparse

/-- An article within the budget. -/
def Placed.serve (placed : Placed) (budget : ℕ) : ArticleUnit :=
  placed.unit (clip placed.article.text (min articleTextLimit budget))

def LocatedAnnex.serve (annex : LocatedAnnex) (budget : ℕ) : AnnexText :=
  annex.unit (clip annex.text (min annexTextLimit budget))

/-- An article unit and the budget behind it. -/
def Placed.articleUnit (placed : Placed) (budget : ℕ) : Option (ArticleUnit × ℕ) :=
  if budget = 0 then none
  else
    let unit := placed.serve budget
    some (unit, budget - byteLen unit.text)

/-- The state of the loop over the picked articles. -/
structure Emission where
  emitted : List ℕ
  articles : List ArticleUnit
  budget : ℕ
  truncated : Bool

def Emission.step (placed : List Placed) (emission : Emission) (i : ℕ) : Emission :=
  if i ∈ emission.emitted then emission
  else
    match placed[i]? with
    -- out of range, which no picked index is
    | none => emission
    | some article =>
      match article.articleUnit emission.budget with
      | some (unit, budget) =>
        ⟨emission.emitted ++ [i], emission.articles ++ [unit], budget, emission.truncated || unit.truncated⟩
      | none => { emission with emitted := emission.emitted ++ [i], truncated := true }

def emitArticles (placed : List Placed) (picked : List ℕ) : Emission :=
  picked.foldl (Emission.step placed) ⟨[], [], readBudget, false⟩

/-- The annexes within what the articles left, up to the first that finds nothing left. -/
def emitAnnexes : List LocatedAnnex → ℕ → List AnnexText × Bool
  | [], _ => ([], false)
  | annex :: rest, budget =>
    if budget = 0 then ([], true)
    else
      let unit := annex.serve budget
      let (units, truncated) := emitAnnexes rest (budget - byteLen unit.text)
      (unit :: units, unit.truncated || truncated)

structure Reading where
  articles : List ArticleUnit
  keywordMatches : List Str
  outline : List OutlineEntry
  annexes : List AnnexText
  annexIndex : List Str
  truncated : Bool
  warnings : List Str
deriving DecidableEq, Repr

/-- What is returned of an outline and of the annexes beside it. -/
def readUnits (units : List OutlineUnit) (annexes : List LocatedAnnex) (request : ReadRequest) : Reading :=
  let layout := layout request.chapter units
  let emission := emitArticles layout.placed (request.picked layout)
  let (texts, cut) := emitAnnexes (request.matching annexes) emission.budget
  let wantsOutline := request.wantsOutline layout
  { articles := emission.articles
    keywordMatches := (request.holding layout).filterMap fun i => layout.placed[i]?.map (·.article.number.display)
    outline := if wantsOutline then layout.entries.take maxOutline else []
    annexes := texts
    annexIndex := annexIndex annexes
    truncated := emission.truncated || cut || (wantsOutline && decide (maxOutline < layout.entries.length))
    warnings := request.warnings layout annexes }

structure ArticleReadResult extends Reading where
  lawTitle : Str
  revisionId : Str
  captureId : Str
  effectiveDate : Option Str
  sourceUrl : Str

/-- The reading of the capture that the object, selector or date leads to; `none` is an invalid input. -/
def readArticles (capture : Capture) (input : ArticleReadInput) : Option ArticleReadResult :=
  input.request.map fun request =>
    { readUnits (outline capture.record.sections) (annexes capture.record.sections) request with
      lawTitle := capture.record.title
      revisionId := capture.record.revisionId
      captureId := capture.captureId
      effectiveDate := capture.record.effectiveDate
      sourceUrl := capture.record.sourceUrl }

/-! ## Served texts -/

/-- The unit of an article that is returned in full. -/
def Placed.whole (placed : Placed) : ArticleUnit := placed.unit (placed.article.text, false)

def LocatedAnnex.whole (annex : LocatedAnnex) : AnnexText := annex.unit (annex.text, false)

theorem Placed.serve_within (placed : Placed) (budget : ℕ) : byteLen (placed.serve budget).text ≤ budget :=
  (byteLen_clip_le _ _).trans (Nat.min_le_right _ _)

theorem LocatedAnnex.serve_within (annex : LocatedAnnex) (budget : ℕ) : byteLen (annex.serve budget).text ≤ budget :=
  (byteLen_clip_le _ _).trans (Nat.min_le_right _ _)

theorem Placed.serve_whole (placed : Placed) (budget : ℕ) :
    (placed.serve budget).truncated = false ↔ placed.serve budget = placed.whole :=
  ⟨fun uncut => congrArg placed.unit (clip_whole.mp uncut), fun same => congrArg ArticleUnit.truncated same⟩

theorem LocatedAnnex.serve_whole (annex : LocatedAnnex) (budget : ℕ) :
    (annex.serve budget).truncated = false ↔ annex.serve budget = annex.whole :=
  ⟨fun uncut => congrArg annex.unit (clip_whole.mp uncut), fun same => congrArg AnnexText.truncated same⟩

def spendArticles : ℕ → List Placed → Spent ArticleUnit := spend Placed.serve (byteLen ·.text) (·.truncated)

def spendAnnexes : ℕ → List LocatedAnnex → Spent AnnexText := spend LocatedAnnex.serve (byteLen ·.text) (·.truncated)

theorem spendArticles_total (budget : ℕ) (placed : List Placed) :
    ((spendArticles budget placed).served.map (byteLen ·.text)).sum + (spendArticles budget placed).left = budget :=
  @spend_total _ _ _ (fun unit : ArticleUnit => byteLen unit.text) _ Placed.serve_within budget placed

theorem spendAnnexes_total (budget : ℕ) (annexes : List LocatedAnnex) :
    ((spendAnnexes budget annexes).served.map (byteLen ·.text)).sum + (spendAnnexes budget annexes).left = budget :=
  @spend_total _ _ _ (fun unit : AnnexText => byteLen unit.text) _ LocatedAnnex.serve_within budget annexes

/-- The units are of the first articles, with beginnings of their texts. -/
theorem spendArticles_served (budget : ℕ) (placed : List Placed) :
    List.Forall₂ (fun source unit => ∃ text cut, unit = source.unit (text, cut) ∧ text <+: source.article.text)
      (placed.take (spendArticles budget placed).served.length) (spendArticles budget placed).served := by
  refine (spend_served budget placed).imp fun source unit served => ?_
  obtain ⟨left, rfl⟩ := served
  exact ⟨_, _, rfl, clip_prefix _ _⟩

theorem spendAnnexes_served (budget : ℕ) (annexes : List LocatedAnnex) :
    List.Forall₂ (fun annex unit => ∃ text cut, unit = annex.unit (text, cut) ∧ text <+: annex.text)
      (annexes.take (spendAnnexes budget annexes).served.length) (spendAnnexes budget annexes).served := by
  refine (spend_served budget annexes).imp fun annex unit served => ?_
  obtain ⟨left, rfl⟩ := served
  exact ⟨_, _, rfl, clip_prefix _ _⟩

/-- Texts are left out only when the budget is spent, and cut only where the next character is beyond their limit or what is left. -/
structure Exhausts (limit budget : ℕ) (texts served : List Str) : Prop where
  left_out : served.length < texts.length → (served.map byteLen).sum = budget
  cut : ∀ k text kept, texts[k]? = some text → served[k]? = some kept → ∀ c rest, text = kept ++ c :: rest →
    limit < byteLen kept + c.utf8Size ∨ budget < ((served.take (k + 1)).map byteLen).sum + c.utf8Size

theorem Exhausts.nil {limit : ℕ} {texts : List Str} : Exhausts limit 0 texts [] where
  left_out _ := rfl
  cut := by
    intro k text kept _ impossible
    cases impossible

/-- One more text in front, which takes its part of the budget. -/
theorem Exhausts.cons {limit budget : ℕ} {texts served : List Str} (text : Str)
    (exhausts : Exhausts limit (budget - byteLen (clip text (min limit budget)).1) texts served) :
    Exhausts limit budget (text :: texts) ((clip text (min limit budget)).1 :: served) := by
  obtain ⟨behind, split, short, -, full⟩ := clip_spec text (min limit budget)
  rw [Nat.le_min] at short
  constructor
  · intro shorter
    have spent := exhausts.left_out (Nat.lt_of_succ_lt_succ shorter)
    rw [List.map_cons, List.sum_cons, spent]
    omega
  · intro k other kept here returned c rest more
    cases k with
    | zero =>
      cases here
      cases returned
      obtain rfl : behind = c :: rest := List.append_cancel_left (split.symm.trans more)
      have beyond := full c rfl
      rw [min_lt_iff] at beyond
      simpa using beyond
    | succ k =>
      rw [List.getElem?_cons_succ] at here returned
      refine (exhausts.cut k other kept here returned c rest more).imp_right fun beyond => ?_
      rw [List.take_succ_cons, List.map_cons, List.sum_cons]
      omega

/-- Spending on texts exhausts the budget. -/
theorem spend_exhausts {α β : Type} {limit : ℕ} {serve : α → ℕ → β} {cut : β → Bool} {source : α → Str} {text : β → Str}
    (served : ∀ item left, text (serve item left) = (clip (source item) (min limit left)).1) (budget : ℕ) (items : List α) :
    Exhausts limit budget (items.map source) ((spend serve (byteLen <| text ·) cut budget items).served.map text) := by
  induction items generalizing budget with
  | nil => exact ⟨nofun, by intro k text kept impossible; cases impossible⟩
  | cons item rest ih =>
    rw [spend]
    split_ifs with empty
    · rw [empty]
      exact .nil
    · have others := ih (budget - byteLen (text (serve item budget)))
      rw [served] at others
      simp only [List.map_cons, served]
      exact .cons (source item) others

theorem emitAnnexes_eq (annexes : List LocatedAnnex) (budget : ℕ) :
    emitAnnexes annexes budget = ((spendAnnexes budget annexes).served, (spendAnnexes budget annexes).short) := by
  induction annexes generalizing budget with
  | nil => rfl
  | cons annex rest ih =>
    rw [emitAnnexes, spendAnnexes, spend]
    split_ifs
    · rfl
    · simp only [ih]
      rfl

/-- The loop over the picked articles spends the budget on each of them once. -/
structure Emission.Serves (placed : List Placed) (picked : List ℕ) (emission : Emission) : Prop where
  nodup : emission.emitted.Nodup
  members : ∀ i, i ∈ emission.emitted ↔ i ∈ picked
  spent : ⟨emission.articles, emission.budget, emission.truncated⟩ =
    spendArticles readBudget (emission.emitted.filterMap (placed[·]?))

namespace Emission

variable {placed : List Placed} {picked : List ℕ} {emission : Emission} {i : ℕ}

theorem step_of_mem (member : i ∈ emission.emitted) : emission.step placed i = emission := if_pos member

theorem step_emitted {article : Placed} (fresh : i ∉ emission.emitted) (here : placed[i]? = some article) :
    (emission.step placed i).emitted = emission.emitted ++ [i] := by
  simp only [step, if_neg fresh, here, Placed.articleUnit]
  split_ifs <;> rfl

/-- An article that is new is served next. -/
theorem step_spent {article : Placed} (fresh : i ∉ emission.emitted) (here : placed[i]? = some article) :
    (⟨(emission.step placed i).articles, (emission.step placed i).budget, (emission.step placed i).truncated⟩ :
      Spent ArticleUnit) =
      (⟨emission.articles, emission.budget, emission.truncated⟩ : Spent ArticleUnit).next Placed.serve (byteLen ·.text)
        (·.truncated) article := by
  simp only [step, if_neg fresh, here, Placed.articleUnit, Spent.next]
  split_ifs <;> rfl

theorem Serves.step (serves : Serves placed picked emission) (bound : i < placed.length) :
    Serves placed (picked ++ [i]) (emission.step placed i) := by
  by_cases member : i ∈ emission.emitted
  · rw [step_of_mem member]
    refine ⟨serves.nodup, fun j => ?_, serves.spent⟩
    rw [List.mem_append, List.mem_singleton, ← serves.members]
    exact ⟨.inl, fun known => known.elim id (· ▸ member)⟩
  · have here := List.getElem?_eq_getElem bound
    refine ⟨?_, fun j => ?_, ?_⟩
    · rw [step_emitted member here]
      exact List.Nodup.append serves.nodup (List.nodup_singleton i) (List.disjoint_singleton.mpr member)
    · rw [step_emitted member here, List.mem_append, List.mem_append, serves.members]
    · rw [step_spent member here, step_emitted member here, serves.spent, List.filterMap_append, spendArticles,
        List.filterMap_cons_some here, List.filterMap_nil, spend_concat]

end Emission

theorem emitArticles_serves {placed : List Placed} (picked : List ℕ) (bound : ∀ i ∈ picked, i < placed.length) :
    (emitArticles placed picked).Serves placed picked := by
  induction picked using List.reverseRecOn with
  | nil => exact ⟨List.nodup_nil, fun _ => Iff.rfl, rfl⟩
  | append_singleton picked i ih =>
    rw [List.forall_mem_append, List.forall_mem_singleton] at bound
    rw [emitArticles, List.foldl_concat]
    exact (ih bound.1).step bound.2

/-! ## Picked articles -/

variable {units : List OutlineUnit} {request : ReadRequest} {i : ℕ}

theorem mem_under : i ∈ request.under (layout request.chapter units) ↔ ∃ before located after,
    units = before ++ .article located :: after ∧ i = articleCount before ∧
      ∃ first ∈ headingStack before, firstHeading request.chapter units = some first := by
  rw [← mem_chapter, ReadRequest.under]
  split_ifs with known
  · exact Iff.rfl
  · refine iff_of_false List.not_mem_nil fun member => known ?_
    obtain ⟨-, -, -, -, -, first, -, equal⟩ := mem_chapter.mp member
    have asked : request.chapter == some first.key :=
      List.find?_some (p := fun heading : Heading => request.chapter == some heading.key) equal
    rw [(layout_follows _ _).found, equal, eq_of_beq asked]
    rfl

theorem picked_lt (member : i ∈ request.picked (layout request.chapter units)) :
    i < (layout request.chapter units).placed.length := by
  rw [ReadRequest.picked, List.mem_append, List.mem_append] at member
  rcases member with (around | under) | holding
  · rw [ReadRequest.around] at around
    cases known : request.found (layout request.chapter units) with
    | none =>
      rw [known] at around
      cases around
    | some found =>
      rw [known] at around
      have inside := List.mem_range.mp (List.mem_of_mem_drop around)
      exact inside.trans_le (Nat.min_le_right _ _)
  · obtain ⟨before, located, after, rfl, rfl, -⟩ := (mem_under).mp under
    exact (List.getElem?_eq_some_iff.mp (layout_placed before located after)).1
  · rw [ReadRequest.holding] at holding
    cases known : request.keyword with
    | none =>
      rw [known] at holding
      cases holding
    | some keyword =>
      rw [known] at holding
      obtain ⟨⟨placed, j⟩, member, rfl⟩ := List.mem_map.mp holding
      simpa using (List.mem_zipIdx (List.mem_filter.mp member).1).2.1

/-! ## The reading -/

/-- The loop over what is picked. -/
def emission (units : List OutlineUnit) (request : ReadRequest) : Emission :=
  emitArticles (layout request.chapter units).placed (request.picked (layout request.chapter units))

/-- The picked articles in the order in which they are emitted. -/
def sources (units : List OutlineUnit) (request : ReadRequest) : List Placed :=
  (emission units request).emitted.filterMap ((layout request.chapter units).placed[·]?)

variable {annexes : List LocatedAnnex}

theorem map_getElem_eq {α : Type*} {items : List α} {indices : List ℕ} (bound : ∀ i ∈ indices, i < items.length) :
    indices.map (items[·]?) = (indices.filterMap (items[·]?)).map some := by
  induction indices with
  | nil => rfl
  | cons i rest ih =>
    rw [List.forall_mem_cons] at bound
    have here := List.getElem?_eq_getElem bound.1
    rw [List.map_cons, List.filterMap_cons_some here, List.map_cons, ih bound.2, here]

theorem emission_serves (units : List OutlineUnit) (request : ReadRequest) :
    (emission units request).Serves (layout request.chapter units).placed (request.picked (layout request.chapter units)) :=
  emitArticles_serves _ fun _ => picked_lt

theorem map_sources : (emission units request).emitted.map ((layout request.chapter units).placed[·]?) =
    (sources units request).map some :=
  map_getElem_eq fun _ member => picked_lt (((emission_serves units request).members _).mp member)

theorem readUnits_articles :
    (readUnits units annexes request).articles = (spendArticles readBudget (sources units request)).served :=
  congrArg Spent.served (emission_serves units request).spent

/-- The annexes are served from what the articles left. -/
theorem readUnits_annexes : (readUnits units annexes request).annexes =
    (spendAnnexes (spendArticles readBudget (sources units request)).left (request.matching annexes)).served := by
  rw [sources, ← (emission_serves units request).spent, readUnits, emitAnnexes_eq]
  rfl

theorem readUnits_truncated : (readUnits units annexes request).truncated =
    ((spendArticles readBudget (sources units request)).short ||
      (spendAnnexes (spendArticles readBudget (sources units request)).left (request.matching annexes)).short ||
      (request.wantsOutline (layout request.chapter units) &&
        decide (maxOutline < (layout request.chapter units).entries.length))) := by
  rw [sources, ← (emission_serves units request).spent, readUnits, emitAnnexes_eq]
  rfl

/-- Articles and annexes share the budget. -/
theorem readUnits_within : ((readUnits units annexes request).articles.map (byteLen ·.text)).sum +
    ((readUnits units annexes request).annexes.map (byteLen ·.text)).sum ≤ readBudget := by
  have articles := spendArticles_total readBudget (sources units request)
  have texts := spendAnnexes_total (spendArticles readBudget (sources units request)).left (request.matching annexes)
  rw [readUnits_articles, readUnits_annexes]
  omega

theorem outline_whole : (request.wantsOutline (layout request.chapter units) &&
    decide (maxOutline < (layout request.chapter units).entries.length)) = false ↔
      (request.wantsOutline (layout request.chapter units) = true →
        (readUnits units annexes request).outline = (layout request.chapter units).entries) := by
  rw [Bool.and_eq_false_imp]
  refine forall_congr' fun wanted => ?_
  rw [readUnits, decide_eq_false_iff_not, Nat.not_lt]
  simp only [wanted, if_true]
  exact (List.take_eq_self_iff _).symm

/-- What is returned is marked as truncated unless everything that was selected is returned in full. -/
theorem readUnits_whole : (readUnits units annexes request).truncated = false ↔
    (readUnits units annexes request).articles = (sources units request).map Placed.whole ∧
    (readUnits units annexes request).annexes = (request.matching annexes).map LocatedAnnex.whole ∧
    (request.wantsOutline (layout request.chapter units) = true →
      (readUnits units annexes request).outline = (layout request.chapter units).entries) := by
  rw [readUnits_truncated, Bool.or_eq_false_iff, Bool.or_eq_false_iff, @outline_whole units request annexes,
    readUnits_articles, readUnits_annexes, and_assoc]
  exact and_congr (spend_short Placed.serve_whole _ _) (and_congr_left' (spend_short LocatedAnnex.serve_whole _ _))

theorem readUnits_exhausts_articles : Exhausts articleTextLimit readBudget ((sources units request).map (·.article.text))
    ((readUnits units annexes request).articles.map (·.text)) := by
  rw [readUnits_articles]
  exact @spend_exhausts Placed ArticleUnit articleTextLimit Placed.serve (·.truncated) (·.article.text) (·.text) (fun _ _ => rfl) _ _

theorem readUnits_exhausts_annexes :
    Exhausts annexTextLimit (readBudget - ((readUnits units annexes request).articles.map (byteLen ·.text)).sum)
      ((request.matching annexes).map (·.text)) ((readUnits units annexes request).annexes.map (·.text)) := by
  have left : readBudget - ((readUnits units annexes request).articles.map (byteLen ·.text)).sum =
      (spendArticles readBudget (sources units request)).left := by
    have total := spendArticles_total readBudget (sources units request)
    rw [readUnits_articles]
    omega
  rw [left, readUnits_annexes]
  exact @spend_exhausts LocatedAnnex AnnexText annexTextLimit LocatedAnnex.serve (·.truncated) (·.text) (·.text) (fun _ _ => rfl) _ _

/-- What is returned of a capture is what the request picks of its outline and its annexes, within the budget, and it is marked as
truncated unless all of that is there. -/
theorem readArticles_reads {capture : Capture} {input : ArticleReadInput} {result : ArticleReadResult}
    (read : readArticles capture input = some result) : ∃ request, input.request = some request ∧
      result.toReading = readUnits (outline capture.record.sections) (Legal.annexes capture.record.sections) request ∧
      (result.articles.map (byteLen ·.text)).sum + (result.annexes.map (byteLen ·.text)).sum ≤ readBudget ∧
      (result.truncated = false ↔
        result.articles = (sources (outline capture.record.sections) request).map Placed.whole ∧
        result.annexes = (request.matching (Legal.annexes capture.record.sections)).map LocatedAnnex.whole ∧
        (request.wantsOutline (layout request.chapter (outline capture.record.sections)) = true →
          result.outline = (layout request.chapter (outline capture.record.sections)).entries)) := by
  obtain ⟨request, asked, rfl⟩ := Option.map_eq_some_iff.mp read
  exact ⟨request, asked, rfl, readUnits_within, readUnits_whole⟩

/-- The articles selected for a heading are those that have the first heading equal to it on their stack, and the path of an
article is its stack: headings of increasing rank that no later one closes. Articles and annexes are returned as beginnings of
their texts within one budget, no article twice, cut and left out only as far as their limits and the budget make it necessary, and
`truncated` tells whether anything selected is missing. -/
theorem read_selects_and_spends (units : List OutlineUnit) (annexes : List LocatedAnnex) (request : ReadRequest) :
    (∀ i, i ∈ request.under (layout request.chapter units) ↔ ∃ before located after,
      units = before ++ .article located :: after ∧ i = articleCount before ∧
        ∃ first ∈ headingStack before, firstHeading request.chapter units = some first) ∧
    (layout request.chapter units).placed.length = articleCount units ∧
    (∀ before located after, units = before ++ .article located :: after →
      (layout request.chapter units).placed[articleCount before]? =
        some ⟨located, (headingStack before).map fun heading => headingLabel heading.text⟩ ∧
      (headingStack before).Pairwise (fun outer inner => outer.rank < inner.rank) ∧
      ∀ heading, heading ∈ headingStack before ↔ ∃ earlier later,
        headings before = earlier ++ heading :: later ∧ ∀ other ∈ later, heading.rank < other.rank) ∧
    ((readUnits units annexes request).articles.map (byteLen ·.text)).sum +
      ((readUnits units annexes request).annexes.map (byteLen ·.text)).sum ≤ readBudget ∧
    ∃ (selected : List ℕ) (chosen : List Placed),
      (selected.Nodup ∧ (∀ i, i ∈ selected ↔ i ∈ request.picked (layout request.chapter units)) ∧
        selected.map ((layout request.chapter units).placed[·]?) = chosen.map some) ∧
      List.Forall₂ (fun source unit => ∃ text cut, unit = source.unit (text, cut) ∧ text <+: source.article.text)
        (chosen.take (readUnits units annexes request).articles.length) (readUnits units annexes request).articles ∧
      List.Forall₂ (fun annex unit => ∃ text cut, unit = annex.unit (text, cut) ∧ text <+: annex.text)
        ((request.matching annexes).take (readUnits units annexes request).annexes.length)
        (readUnits units annexes request).annexes ∧
      Exhausts articleTextLimit readBudget (chosen.map (·.article.text)) ((readUnits units annexes request).articles.map (·.text)) ∧
      Exhausts annexTextLimit (readBudget - ((readUnits units annexes request).articles.map (byteLen ·.text)).sum)
        ((request.matching annexes).map (·.text)) ((readUnits units annexes request).annexes.map (·.text)) ∧
      ((readUnits units annexes request).truncated = false ↔
        (readUnits units annexes request).articles = chosen.map Placed.whole ∧
        (readUnits units annexes request).annexes = (request.matching annexes).map LocatedAnnex.whole ∧
        (request.wantsOutline (layout request.chapter units) = true →
          (readUnits units annexes request).outline = (layout request.chapter units).entries)) := by
  have serves := emission_serves units request
  refine ⟨fun i => mem_under, (layout_follows _ units).count, ?_, readUnits_within, (emission units request).emitted,
    sources units request, ⟨serves.nodup, serves.members, map_sources⟩, ?_, ?_, readUnits_exhausts_articles, readUnits_exhausts_annexes, readUnits_whole⟩
  · rintro before located after rfl
    exact ⟨layout_placed before located after, pairwise_openItems _, fun heading => mem_openItems⟩
  · rw [readUnits_articles]
    exact spendArticles_served _ _
  · rw [readUnits_annexes]
    exact spendAnnexes_served _ _

end OpenLegal.Legal
