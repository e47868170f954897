import OpenLegal.Legal.IndexHead
import OpenLegal.Legal.ScanRuns

/-! # Pages of a search

Scans one after the other, each from where the one before it stopped, return the hits of one scan that nothing
stops, as long as no deadline is seen in lines that a scan only counts.
-/

namespace OpenLegal.Legal

open Rust Rust.Str Theory Polled

section Pages

variable (analyzer : KoreanAnalyzer) (session : Session) (request : SearchRequest)

/-- Scans of one search, each with its position and clock, the hits of each, and where the last one stopped. -/
inductive Pages : List (Position × Clock DatabaseError) → List (List SearchHit) → Option Position → Prop where
  | start : Pages [] [] (some .start)
  | next {scans : List (Position × Clock DatabaseError)} {pages : List (List SearchHit)} {position : Position}
      {bytes : ℕ} {clock : Clock DatabaseError} {hits : List SearchHit} {resume : Option Position} {scanned : ℕ}
      (before : Pages scans pages (some position))
      (ran : scan analyzer session request bytes position clock = .ok (hits, resume, scanned)) :
      Pages (scans ++ [(position, clock)]) (pages ++ [hits]) resume

variable {analyzer session request} {scans : List (Position × Clock DatabaseError)} {pages : List (List SearchHit)}
  {resume : Option Position}

theorem scan_accounts (sorted : KeySorted IndexedCapture.key session.snapshot.docs) (limit : 0 < request.limit)
    {bytes : ℕ} {position : Position} {clock : Clock DatabaseError} {hits : List SearchHit} {scanned : ℕ}
    (timely : Timely session.snapshot position clock)
    (ran : scan analyzer session request bytes position clock = .ok (hits, resume, scanned)) :
    hits.length ≤ request.limit ∧
      hitsFrom analyzer session request position = (hits ++ ·) <$> hitsAfter analyzer session request resume := by
  have room : (⟨[], position, 0⟩ : ScanState).hits.length < request.limit := limit
  obtain ⟨found, same, page, account⟩ := scanFrom_accounts sorted room timely ran
  obtain rfl : hits = found := by simpa using same
  exact ⟨page, account⟩

/-- The pages are the first hits of the snapshot, and the others are to come. -/
theorem Pages.account (sorted : KeySorted IndexedCapture.key session.snapshot.docs) (limit : 0 < request.limit)
    (run : Pages analyzer session request scans pages resume)
    (timely : ∀ scan ∈ scans, Timely session.snapshot scan.1 scan.2) :
    (∀ page ∈ pages, page.length ≤ request.limit) ∧
      hitsFrom analyzer session request .start = (pages.flatten ++ ·) <$> hitsAfter analyzer session request resume := by
  induction run with
  | start => simp [hitsAfter]
  | @next scans pages position _ clock hits resume _ before ran ih =>
    obtain ⟨short, account⟩ := ih fun scan member => timely scan (List.mem_append_left _ member)
    obtain ⟨page, found⟩ := scan_accounts sorted limit (timely (position, clock) (by simp)) ran
    refine ⟨?_, ?_⟩
    · intro other member
      rcases List.mem_append.mp member with member | member
      · exact short other member
      · rwa [List.mem_singleton.mp member]
    · rw [account, hitsAfter, found, Functor.map_map]
      simp only [List.flatten_append, List.flatten_singleton, List.append_assoc]

theorem lineHits_limit (find : Find) (doc : IndexedCapture AnalyzedText) (limit : ℕ) (lines : List SectionLine) :
    lineHits find { request with limit } doc lines = lineHits find request doc lines := by
  induction lines with
  | nil => rfl
  | cons line rest ih =>
    rw [lineHits, lineHits, ih]
    rfl

theorem documentHits_limit (doc : IndexedCapture AnalyzedText) (limit first : ℕ) :
    documentHits analyzer session { request with limit } doc first = documentHits analyzer session request doc first := by
  simp only [documentHits, lineHits_limit]
  rfl

theorem documentsHits_limit (limit first : ℕ) (docs : List (IndexedCapture AnalyzedText)) :
    documentsHits analyzer session { request with limit } first docs =
      documentsHits analyzer session request first docs := by
  induction docs generalizing first with
  | nil => rfl
  | cons doc rest ih => rw [documentsHits, documentsHits, documentHits_limit, ih]

/-- The limit of a request does not matter to what there is to find. -/
theorem hitsFrom_limit (limit : ℕ) (position : Position) :
    hitsFrom analyzer session { request with limit } position = hitsFrom analyzer session request position :=
  documentsHits_limit limit position.line _

/-- A scan without interruption, with room and bytes enough, returns the hits to come. -/
theorem exists_uninterrupted (sorted : KeySorted IndexedCapture.key session.snapshot.docs) {position : Position}
    {whole : List SearchHit} (all : hitsFrom analyzer session request position = .ok whole) :
    ∃ limit bytes scanned,
      scan analyzer session { request with limit } bytes position none = .ok (whole, none, scanned) := by
  let wide : SearchRequest := { request with limit := whole.length + 1 }
  have all' : hitsFrom analyzer session wide position = .ok whole := (hitsFrom_limit _ position).trans all
  have room : (([] : List SearchHit) ++ whole).length < wide.limit := Nat.lt_succ_self _
  obtain ⟨scanned, ended⟩ := @scanFrom_uninterrupted _ _ _ _ ⟨[], position, 0⟩ sorted _ all' room (Nat.lt_succ_self _)
  exact ⟨_, _, scanned, ended⟩

/-- All keys are after the empty one. -/
theorem itemsAfter_start (docs : List (IndexedCapture AnalyzedText)) : itemsAfter IndexedCapture.key docs [] = docs := by
  apply List.filter_eq_self.mpr
  intro doc _
  have nonempty : doc.key ≠ [] := by simp [IndexedCapture.key, recordKey]
  obtain ⟨c, rest, same⟩ := List.exists_cons_of_ne_nil nonempty
  rw [same]
  exact decide_eq_true (List.nil_lt_cons c rest)

/-- In a run of scans none of which sees its deadline before its resume line, the pages hold at most as many hits as
requested and are the hits of one scan that nothing stops, so far as they go; if the last page says that nothing is
left, they are the hits in every document. -/
theorem search_paging (sorted : KeySorted IndexedCapture.key session.snapshot.docs) (limit : 0 < request.limit)
    (run : Pages analyzer session request scans pages resume)
    (timely : ∀ scan ∈ scans, Timely session.snapshot scan.1 scan.2) :
    (∀ page ∈ pages, page.length ≤ request.limit) ∧
    (∀ limit bytes clock whole scanned, 0 < limit →
      scan analyzer session { request with limit } bytes .start clock = .ok (whole, none, scanned) →
        match resume with
        | none => whole = pages.flatten
        | some position => ∃ rest, whole = pages.flatten ++ rest ∧ ∃ limit bytes scanned,
            scan analyzer session { request with limit } bytes position none = .ok (rest, none, scanned)) ∧
    (resume = none → documentsHits analyzer session request 0 session.snapshot.docs = .ok pages.flatten ∧
      ∃ limit bytes scanned,
        scan analyzer session { request with limit } bytes .start none = .ok (pages.flatten, none, scanned)) := by
  obtain ⟨short, account⟩ := run.account sorted limit timely
  refine ⟨short, ?_, ?_⟩
  · intro limit' bytes clock whole scanned room ran
    have timely' : Timely session.snapshot .start clock := fun passes _ => Nat.lt_or_ge _ _
    obtain ⟨-, all⟩ := scan_accounts sorted room timely' ran
    rw [hitsFrom_limit, account] at all
    obtain ⟨rest, others, same⟩ := map_eq_ok.mp (all.trans (congrArg Except.ok (List.append_nil whole)))
    cases resume with
    | none =>
      cases others
      exact same.symm.trans (List.append_nil _)
    | some position => exact ⟨rest, same.symm, exists_uninterrupted sorted others⟩
  · rintro rfl
    have all : hitsFrom analyzer session request .start = .ok pages.flatten :=
      account.trans (congrArg Except.ok (List.append_nil _))
    refine ⟨?_, exists_uninterrupted sorted all⟩
    rwa [hitsFrom, Position.start, itemsAfter_start] at all

end Pages

/-! ## Going back to an earlier line -/

/-- A document with two lines that match. -/
def twoLines : IndexedCapture AnalyzedText where
  capture := { CorpusIndex.statuteCapture '1' ['a'] with
    record := { (CorpusIndex.statuteCapture '1' ['a']).record with body := "가\n가\n".toList } }
  current := true
  titleTokens := .none
  bodyTokens := .none

/-- The lines that begin with `가`. -/
def lineBeginnings : Session where
  snapshot := ⟨[twoLines], fun _ => 0⟩
  matcher := .regex fun line => some (if line.head? = some '가' then some (0, 3) else none)

def upTo (limit : ℕ) : SearchRequest := ⟨⟨[], none, none, none, none, none, none⟩, false, false, [], limit, 0⟩

/-- No engine is needed. -/
def noAnalyzer : KoreanAnalyzer := ⟨id, fun _ => none, fun _ => []⟩

/-- The hit in a line of the body. -/
def bodyHit (line start : ℕ) : SearchHit := hit twoLines "body".toList line start (start + 3) "가\n".toList false

theorem sorted_lineBeginnings : KeySorted IndexedCapture.key lineBeginnings.snapshot.docs := List.pairwise_singleton _ _

/-- A scan that nothing stops reads the document and then finds that there is no other. -/
theorem scan_rest (limit line : ℕ) (hits : List SearchHit) (room : hits.length < limit)
    (all : hitsFrom noAnalyzer lineBeginnings (upTo limit) ⟨[], line⟩ = .ok hits) :
    ∃ bytes scanned, scan noAnalyzer lineBeginnings (upTo limit) bytes ⟨[], line⟩ none = .ok (hits, none, scanned) :=
  ⟨_, @scanFrom_uninterrupted _ _ _ _ ⟨[], ⟨[], line⟩, 0⟩ sorted_lineBeginnings _ all room (Nat.lt_succ_self _)⟩

/-- The deadline is seen at the second line of the body. -/
theorem pages_interrupted :
    Pages noAnalyzer lineBeginnings (upTo 3) [(.start, some (3, .budgetExhausted))] [[bodyHit 1 0]] (some ⟨[], 2⟩) := by
  have ran : scan noAnalyzer lineBeginnings (upTo 3) 100 .start (some (3, .budgetExhausted)) =
      .ok ([bodyHit 1 0], some ⟨[], 2⟩, 11) := scanFrom_of_done _ _ _ rfl
  exact .next .start ran

theorem search_paging_twoLines :
    ∃ scans, Pages noAnalyzer lineBeginnings (upTo 3) scans [[bodyHit 1 0], [bodyHit 2 4]] none ∧
      documentsHits noAnalyzer lineBeginnings (upTo 3) 0 [twoLines] = .ok [bodyHit 1 0, bodyHit 2 4] := by
  obtain ⟨bytes, scanned, ran⟩ := scan_rest 3 2 [bodyHit 2 4] (by decide) rfl
  have run := pages_interrupted.next ran
  refine ⟨_, run, ((search_paging sorted_lineBeginnings (by decide) run ?_).2.2 rfl).1⟩
  intro scan member passes given
  simp only [List.cons_append, List.nil_append, List.mem_cons, List.not_mem_nil, or_false] at member
  rcases member with rfl | rfl
  · exact Nat.lt_or_ge _ _
  · cases given

/-- A deadline that is seen one line before the resume line leads back there, and the hit in that line is found
again. -/
theorem repeated_hit :
    ∃ scans pages whole, Pages noAnalyzer lineBeginnings (upTo 3) scans pages none ∧
      (∃ limit bytes scanned,
        scan noAnalyzer lineBeginnings { upTo 3 with limit } bytes .start none = .ok (whole, none, scanned)) ∧
      pages.flatten ≠ whole := by
  have back : scan noAnalyzer lineBeginnings (upTo 3) 100 ⟨[], 2⟩ (some (2, .budgetExhausted)) =
      .ok ([], some ⟨[], 1⟩, 11) := scanFrom_of_done _ _ _ rfl
  obtain ⟨bytes, scanned, ran⟩ := scan_rest 3 1 [bodyHit 1 0, bodyHit 2 4] (by decide) rfl
  obtain ⟨bytes', scanned', once⟩ := scan_rest 3 0 [bodyHit 1 0, bodyHit 2 4] (by decide) rfl
  exact ⟨_, _, _, (pages_interrupted.next back).next ran, ⟨3, bytes', scanned', once⟩, by decide⟩

end OpenLegal.Legal
