import OpenLegal.Legal.Scan

/-! # Paging through a scan

A scan stops at its hit limit, its byte budget or its deadline, and the next one resumes at the position that it
returned. At every position there are the hits that are still to come. A scan returns the first of them and a
position with the others, unless it sees its deadline while it only counts the lines before its position: it then
goes back to an earlier line.
-/

namespace OpenLegal.Legal

open Rust Rust.Str Theory Polled

/-! ## Interruption in query mode -/

section Steady

variable (analyzer : KoreanAnalyzer) (expression : CompiledQuery)

theorem steady_selectBody (selected body : Str) (bodyTokens : AnalyzedText) :
    Steady (selectBody analyzer expression selected body bodyTokens) := by
  apply Steady.ite (fun _ => Steady.pure _)
  intro _
  apply Steady.ite
  · intro _
    exact Steady.bind (analyzer.steady_analyze _) fun _ => Steady.pure _
  · exact fun _ => Steady.pure _

theorem steady_selectDocument (sections : List Searched) (doc : IndexedCapture AnalyzedText) :
    Steady (selectDocument analyzer expression sections doc) :=
  Steady.bind (steady_selectBody analyzer expression _ _ _) fun _ => Steady.pure _

theorem steady_queryExcerpt (sections : List Searched) (doc : IndexedCapture AnalyzedText) :
    Steady (queryExcerpt analyzer expression sections doc) := by
  apply Steady.bind (steady_selectDocument analyzer expression sections doc)
  intro selected
  apply Steady.bind (expression.steady_matchesDocument analyzer selected)
  intro found
  apply Steady.ite
  · intro _
    exact Steady.bind (steady_positiveExcerpt _ _ _ _ _) fun _ => Steady.pure _
  · exact fun _ => Steady.pure _

end Steady

/-! ## Hits to come -/

/-- The hits in lines of a document. -/
def lineHits (find : Find) (request : SearchRequest) (doc : IndexedCapture AnalyzedText) :
    List SectionLine → Except DatabaseError (List SearchHit)
  | [] => .ok []
  | line :: rest => do
    let found ← lineHit find request doc line
    let others ← lineHits find request doc rest
    pure (found.toList ++ others)

section Hits

variable (analyzer : KoreanAnalyzer) (session : Session) (request : SearchRequest)

/-- The hits in a document, those in lines from a line on. -/
def documentHits (doc : IndexedCapture AnalyzedText) (first : ℕ) : Except DatabaseError (List SearchHit) :=
  if skips request doc then .ok []
  else
    let sections := searchedSections request doc.capture.record
    match session.matcher with
    | .query expression => do
      let (excerpt, _) ← queryExcerpt analyzer expression sections doc none
      pure (excerpt.toList.map (objectHit doc sections))
    | .literal find => do
      let excerpt ← literalSearch find sections
      pure (excerpt.toList.map (objectHit doc sections))
    | .regex find => lineHits find request doc ((sections.flatMap sectionLines).drop first)

/-- The hits in documents, the lines of the first one from a line on. -/
def documentsHits : ℕ → List (IndexedCapture AnalyzedText) → Except DatabaseError (List SearchHit)
  | _, [] => .ok []
  | first, doc :: rest => do
    let found ← documentHits analyzer session request doc first
    let others ← documentsHits 0 rest
    pure (found ++ others)

def hitsFrom (position : Position) : Except DatabaseError (List SearchHit) :=
  documentsHits analyzer session request position.line
    (itemsAfter IndexedCapture.key session.snapshot.docs position.after)

/-- No hits are left where a scan does not say where to resume. -/
def hitsAfter : Option Position → Except DatabaseError (List SearchHit)
  | none => .ok []
  | some position => hitsFrom analyzer session request position

end Hits

/-! ## The loop over lines -/

section Lines

variable (find : Find) (request : SearchRequest) (doc : IndexedCapture AnalyzedText)

/-- What a loop over the lines from an index on found, and where it stopped. -/
def LineStop.Accounts (first index : ℕ) (lines : List SectionLine) (hits found : List SearchHit) : LineStop → Prop
  | .resume line => (hits ++ found).length ≤ request.limit ∧ index ≤ line ∧
      lineHits find request doc (lines.drop (first - index)) =
        (found ++ ·) <$> lineHits find request doc (lines.drop (line - index))
  | .finished _ => (hits ++ found).length < request.limit ∧
      lineHits find request doc (lines.drop (first - index)) = .ok found

variable {find request doc} {first index : ℕ} {line : SectionLine} {rest : List SectionLine}
  {hits found : List SearchHit} {stop : LineStop}

/-- The loop stops where it is. -/
theorem LineStop.Accounts.here (lines : List SectionLine) (reached : first ≤ index)
    (page : hits.length ≤ request.limit) :
    (LineStop.resume index).Accounts find request doc first index lines hits [] := by
  refine ⟨by simpa using page, le_rfl, ?_⟩
  rw [Nat.sub_eq_zero_of_le reached, Nat.sub_self]
  simp

/-- A line that is only counted. -/
theorem LineStop.Accounts.counted (before : index < first)
    (account : stop.Accounts find request doc first (index + 1) rest hits found) :
    stop.Accounts find request doc first index (line :: rest) hits found := by
  have shift {n : ℕ} (beyond : index + 1 ≤ n) : (line :: rest).drop (n - index) = rest.drop (n - (index + 1)) := by
    rw [show n - index = n - (index + 1) + 1 by omega, List.drop_succ_cons]
  cases stop with
  | finished => exact ⟨account.1, by rw [shift before]; exact account.2⟩
  | resume stop =>
    obtain ⟨page, beyond, account⟩ := account
    exact ⟨page, by omega, by rw [shift before, shift beyond]; exact account⟩

/-- A line that is searched. -/
theorem LineStop.Accounts.searched {here : Option SearchHit} (reached : first ≤ index)
    (ran : lineHit find request doc line = .ok here)
    (account : stop.Accounts find request doc first (index + 1) rest (hits ++ here.toList) found) :
    stop.Accounts find request doc first index (line :: rest) hits (here.toList ++ found) := by
  have start : first - index = 0 := Nat.sub_eq_zero_of_le reached
  have start' : first - (index + 1) = 0 := by omega
  have all : lineHits find request doc ((line :: rest).drop (first - index)) =
      (here.toList ++ ·) <$> lineHits find request doc rest := by
    rw [start, List.drop_zero, lineHits, ran, ok_bind]
    rfl
  cases stop with
  | finished =>
    obtain ⟨page, account⟩ := account
    rw [start', List.drop_zero] at account
    refine ⟨by rwa [← List.append_assoc], ?_⟩
    rw [all, account]
    rfl
  | resume stop =>
    obtain ⟨page, beyond, account⟩ := account
    rw [start', List.drop_zero] at account
    refine ⟨by rwa [← List.append_assoc], by omega, ?_⟩
    rw [all, account, show stop - index = stop - (index + 1) + 1 by omega, List.drop_succ_cons, Functor.map_map]
    simp only [List.append_assoc]

/-- The loop returns the hits in lines from the first one on, or those before the line to resume from if that is
not an earlier one. -/
theorem lineLoop_accounts {lines : List SectionLine} {hits' : List SearchHit} {clock : Clock DatabaseError}
    (below : hits.length < request.limit)
    (timely : ∀ passes, clock = some (passes, .budgetExhausted) → first - index ≤ passes)
    (ran : lineLoop find request doc first index lines hits clock = .ok (hits', stop)) :
    ∃ found, hits' = hits ++ found ∧ stop.Accounts find request doc first index lines hits found := by
  induction lines generalizing index hits clock with
  | nil =>
    cases ran
    exact ⟨[], by simp, by simpa using below, by simp [lineHits]⟩
  | cons line rest ih =>
    rw [lineLoop] at ran
    split at ran
    · next seen =>
      cases ran
      have reached : first ≤ index := by
        have bound := timely 0 (poll_eq_error.mp seen)
        omega
      exact ⟨[], by simp, .here _ reached below.le⟩
    · cases ran
    · next later passed =>
      have timely' : ∀ passes, later = some (passes, .budgetExhausted) → first - (index + 1) ≤ passes := by
        rintro passes rfl
        obtain ⟨-, impossible⟩ | ⟨passes, e, rfl, same⟩ := poll_eq_ok.mp passed
        · cases impossible
        · cases same
          have bound := timely _ rfl
          omega
      by_cases before : index < first
      · rw [if_pos before] at ran
        obtain ⟨found, rfl, account⟩ := ih below timely' ran
        exact ⟨found, rfl, account.counted before⟩
      · have reached := Nat.le_of_not_lt before
        rw [if_neg before] at ran
        obtain ⟨here, hit, ran⟩ := bind_eq_ok.mp ran
        cases here with
        | none =>
          obtain ⟨found, rfl, account⟩ := ih below timely' ran
          exact ⟨found, rfl, .searched reached hit (by simpa using account)⟩
        | some here =>
          simp only at ran
          split_ifs at ran with full
          · -- the limit is reached with this hit
            cases ran
            have page : (hits ++ [here]).length ≤ request.limit := by
              simpa using Nat.succ_le_of_lt below
            exact ⟨[here], rfl, .searched reached hit (.here rest (by omega) page)⟩
          · obtain ⟨found, rfl, account⟩ := ih (by simpa using full) timely' ran
            exact ⟨here :: found, by simp, .searched reached hit account⟩

end Lines

/-! ## Rounds -/

/-- A deadline is not seen in the lines before a position, which are only counted. -/
def Timely (snapshot : IndexSnapshot) (position : Position) (clock : Clock DatabaseError) : Prop :=
  ∀ passes, clock = some (passes, .budgetExhausted) →
    passes < 1 + snapshot.lookupPolls position.after ∨
      1 + snapshot.lookupPolls position.after + position.line ≤ passes

section Rounds

variable (analyzer : KoreanAnalyzer) (session : Session) (request : SearchRequest)

/-- What a round found, and where it stopped or leads to. -/
def Round.Accounts (position : Position) (hits found : List SearchHit) : Round → Prop
  | .done (hits', resume, _) => hits' = hits ++ found ∧ hits'.length ≤ request.limit ∧
      hitsFrom analyzer session request position = (found ++ ·) <$> hitsAfter analyzer session request resume
  | .more next _ => next.hits = hits ++ found ∧ next.hits.length < request.limit ∧ next.position.line = 0 ∧
      hitsFrom analyzer session request position = (found ++ ·) <$> hitsFrom analyzer session request next.position

variable {analyzer session request} {state : ScanState} {doc : IndexedCapture AnalyzedText} {found : List SearchHit}
  {later : Clock DatabaseError} {scanned : ℕ}

/-- The hits to come are those in the next document and those after it. -/
theorem hitsFrom_next {position : Position} (sorted : KeySorted IndexedCapture.key session.snapshot.docs)
    (next : nextAfter IndexedCapture.key session.snapshot.docs position.after = some doc) :
    hitsFrom analyzer session request position =
      documentHits analyzer session request doc position.line >>= fun found =>
        (found ++ ·) <$> hitsFrom analyzer session request ⟨doc.key, 0⟩ := by
  rw [hitsFrom, itemsAfter_of_some sorted next, documentsHits]
  rfl

theorem ScanState.accounts_stop (below : state.hits.length < request.limit) :
    state.stop.Accounts analyzer session request state.position state.hits [] := by
  refine ⟨by simp, below.le, ?_⟩
  simp [hitsAfter]

/-- The document is done. -/
theorem ScanState.accounts_advance (sorted : KeySorted IndexedCapture.key session.snapshot.docs)
    (next : nextAfter IndexedCapture.key session.snapshot.docs state.position.after = some doc)
    (below : state.hits.length < request.limit) (short : found.length ≤ 1)
    (here : documentHits analyzer session request doc state.position.line = .ok found) :
    (state.advance request doc.key found scanned later).Accounts analyzer session request state.position state.hits
      found := by
  have account : hitsFrom analyzer session request state.position =
      (found ++ ·) <$> hitsFrom analyzer session request ⟨doc.key, 0⟩ := by
    rw [hitsFrom_next sorted next, here, ok_bind]
  rw [ScanState.advance]
  split_ifs with full
  · refine ⟨rfl, ?_, account⟩
    simp only [List.length_append]
    omega
  · exact ⟨rfl, Nat.not_le.mp full, rfl, account⟩

theorem inspect_accounts {bytes : ℕ} {clock : Clock DatabaseError} {result : Round}
    (sorted : KeySorted IndexedCapture.key session.snapshot.docs)
    (next : nextAfter IndexedCapture.key session.snapshot.docs state.position.after = some doc)
    (below : state.hits.length < request.limit) (kept : skips request doc = false)
    (timely : ∀ passes, clock = some (passes, .budgetExhausted) → state.position.line ≤ passes)
    (ran : inspect analyzer session request bytes state doc clock = .ok result) :
    ∃ found, result.Accounts analyzer session request state.position state.hits found := by
  have stop : ∃ found, state.stop.Accounts analyzer session request state.position state.hits found :=
    ⟨[], state.accounts_stop below⟩
  simp only [inspect] at ran
  split_ifs at ran with large full
  · cases ran
    exact stop
  · have advance {excerpt : Option (Searched × Cut)} {later : Clock DatabaseError}
        (here : documentHits analyzer session request doc state.position.line =
          .ok (excerpt.toList.map (objectHit doc (searchedSections request doc.capture.record)))) (scanned : ℕ) :=
      @ScanState.accounts_advance analyzer session request state doc _ later scanned sorted next below
        (by cases excerpt <;> simp) here
    rw [documentHits, kept] at advance
    cases mode : session.matcher with
    | query expression =>
      simp only [mode] at ran advance
      split at ran
      · cases ran
        exact stop
      · cases ran
      · next excerpt later excerpted =>
        cases ran
        have steady := steady_queryExcerpt _ _ _ _ _ _ _ excerpted
        exact ⟨_, advance (by simp [steady]) _⟩
    | literal find =>
      simp only [mode] at ran advance
      obtain ⟨excerpt, searched, same⟩ := bind_eq_ok.mp ran
      cases same
      exact ⟨_, advance (by simp [searched]) _⟩
    | regex find =>
      simp only [mode] at ran
      obtain ⟨⟨hits, ending⟩, looped, ran⟩ := bind_eq_ok.mp ran
      obtain ⟨found, rfl, account⟩ := lineLoop_accounts below (by simpa using timely) looped
      have lines (first : ℕ) : documentHits analyzer session request doc first = lineHits find request doc
          (((searchedSections request doc.capture.record).flatMap sectionLines).drop first) := by
        simp [documentHits, kept, mode]
      cases ending with
      | resume line =>
        cases ran
        obtain ⟨page, -, account⟩ := account
        refine ⟨found, rfl, page, ?_⟩
        rw [hitsAfter, hitsFrom_next sorted next, @hitsFrom_next _ _ _ _ ⟨state.position.after, line⟩ sorted next,
          lines, lines, ← Nat.sub_zero state.position.line, account]
        simp [map_bind, bind_map_left, List.append_assoc]
      | finished later =>
        obtain ⟨room, account⟩ := account
        rw [Nat.sub_zero, ← lines] at account
        simp only [if_neg (Nat.not_le.mpr room)] at ran
        cases ran
        refine ⟨found, rfl, room, rfl, ?_⟩
        rw [hitsFrom_next sorted next, account, ok_bind]

/-- What a round can do: it stops where it is, it has read all documents, or it has read the next one. -/
theorem round_cases {bytes : ℕ} {clock : Clock DatabaseError} {result : Round}
    (ran : round analyzer session request bytes state clock = .ok result) :
    result = state.stop ∨
      nextAfter IndexedCapture.key session.snapshot.docs state.position.after = none ∧
        result = .done (state.hits, none, state.scanned) ∨
      ∃ doc middle later, poll clock = .ok ((), middle) ∧
        polls (session.snapshot.lookupPolls state.position.after) middle = .ok ((), later) ∧
        nextAfter IndexedCapture.key session.snapshot.docs state.position.after = some doc ∧
        (skips request doc = true ∧ result = .more { state with position := ⟨doc.key, 0⟩ } later ∨
          skips request doc = false ∧ inspect analyzer session request bytes state doc later = .ok result) := by
  rw [round] at ran
  split at ran
  · cases ran
    exact .inl rfl
  · cases ran
  · next middle polled =>
    split_ifs at ran
    · cases ran
      exact .inl rfl
    · split at ran
      · cases ran
        exact .inl rfl
      · cases ran
      · next later looked =>
        cases ran
        obtain ⟨_, _, -, found⟩ := bind_eq_ok.mp looked
        simp only [pure_eq, Except.ok.injEq, Prod.mk.injEq] at found
        exact .inr (.inl ⟨found.1, rfl⟩)
      · next doc later looked =>
        obtain ⟨_, _, passed, found⟩ := bind_eq_ok.mp looked
        simp only [pure_eq, Except.ok.injEq, Prod.mk.injEq] at found
        obtain ⟨found, rfl⟩ := found
        refine .inr (.inr ⟨doc, middle, _, polled, passed, found, ?_⟩)
        split_ifs at ran with skipped
        · cases ran
          exact .inl ⟨skipped, rfl⟩
        · exact .inr ⟨Bool.eq_false_iff.mpr skipped, ran⟩

theorem hitsFrom_none {position : Position}
    (none : nextAfter IndexedCapture.key session.snapshot.docs position.after = none) :
    hitsFrom analyzer session request position = .ok [] := by
  rw [hitsFrom, itemsAfter_of_none none, documentsHits]

/-- What a round finds is the beginning of the hits to come. -/
theorem round_accounts {bytes : ℕ} {clock : Clock DatabaseError} {result : Round}
    (sorted : KeySorted IndexedCapture.key session.snapshot.docs) (below : state.hits.length < request.limit)
    (timely : Timely session.snapshot state.position clock)
    (ran : round analyzer session request bytes state clock = .ok result) :
    ∃ found, result.Accounts analyzer session request state.position state.hits found := by
  rcases round_cases ran with rfl | ⟨ended, rfl⟩ | ⟨doc, middle, later, polled, looked, next, read⟩
  · exact ⟨[], state.accounts_stop below⟩
  · refine ⟨[], by simp, below.le, ?_⟩
    rw [hitsFrom_none ended]
    rfl
  · rcases read with ⟨skipped, rfl⟩ | ⟨kept, inspected⟩
    · refine ⟨[], by simp, below, rfl, ?_⟩
      rw [hitsFrom_next sorted next, documentHits, if_pos skipped, ok_bind]
    · refine inspect_accounts sorted next below kept ?_ inspected
      rintro passes rfl
      obtain ⟨-, rfl⟩ | ⟨passes', e, rfl, rfl⟩ := poll_eq_ok.mp polled
      · cases (polls_eq_ok looked).2 rfl
      · obtain ⟨enough, same⟩ := (polls_eq_ok looked).1 e passes' rfl
        cases same
        have bound := timely _ rfl
        omega

end Rounds

/-! ## Scans -/

section Scans

variable (analyzer : KoreanAnalyzer) (session : Session) (request : SearchRequest) (bytes : ℕ)

/-- The next round begins behind the document. -/
theorem ScanState.position_advance {state next : ScanState} {key : Str} {hits : List SearchHit} {scanned : ℕ}
    {clock later : Clock DatabaseError}
    (more : state.advance request key hits scanned clock = .more next later) : next.position = ⟨key, 0⟩ := by
  rw [ScanState.advance] at more
  split_ifs at more
  · cases more
  · cases more
    rfl

theorem inspect_position {state next : ScanState} {doc : IndexedCapture AnalyzedText}
    {clock later : Clock DatabaseError}
    (ran : inspect analyzer session request bytes state doc clock = .ok (.more next later)) :
    next.position = ⟨doc.key, 0⟩ := by
  simp only [inspect] at ran
  split_ifs at ran
  · cases ran
  · split at ran
    · split at ran
      · cases ran
      · cases ran
      · exact ScanState.position_advance request (Except.ok.inj ran)
    · obtain ⟨excerpt, -, ran⟩ := bind_eq_ok.mp ran
      exact ScanState.position_advance request (Except.ok.inj ran)
    · obtain ⟨⟨hits, ending⟩, -, ran⟩ := bind_eq_ok.mp ran
      cases ending with
      | resume => cases ran
      | finished =>
        simp only [pure_eq_ok, Except.ok.injEq] at ran
        split_ifs at ran
        · cases ran
        · cases ran
          rfl

theorem round_shorter {state next : ScanState} {clock later : Clock DatabaseError}
    (ran : round analyzer session request bytes state clock = .ok (.more next later)) :
    (itemsAfter IndexedCapture.key session.snapshot.docs next.position.after).length <
      (itemsAfter IndexedCapture.key session.snapshot.docs state.position.after).length := by
  rcases round_cases ran with stopped | ⟨-, stopped⟩ | ⟨doc, _, _, -, -, found, read⟩
  · cases stopped
  · cases stopped
  · have behind : next.position = ⟨doc.key, 0⟩ := by
      rcases read with ⟨-, same⟩ | ⟨-, inspected⟩
      · cases same
        rfl
      · exact inspect_position analyzer session request bytes inspected
    rw [behind]
    exact length_itemsAfter_lt found

/-- The loop of a scan. -/
def scanFrom (state : ScanState) (clock : Clock DatabaseError) : Except DatabaseError ScanResult :=
  match _ : round analyzer session request bytes state clock with
  | .error e => .error e
  | .ok (.done result) => .ok result
  | .ok (.more next later) => scanFrom next later
termination_by (itemsAfter IndexedCapture.key session.snapshot.docs state.position.after).length
decreasing_by exact round_shorter analyzer session request bytes ‹_›

def scan (position : Position) (clock : Clock DatabaseError) : Except DatabaseError ScanResult :=
  scanFrom analyzer session request bytes ⟨[], position, 0⟩ clock

variable {bytes}

theorem scanFrom_eq (state : ScanState) (clock : Clock DatabaseError) :
    scanFrom analyzer session request bytes state clock =
      match round analyzer session request bytes state clock with
      | .error e => .error e
      | .ok (.done result) => .ok result
      | .ok (.more next later) => scanFrom analyzer session request bytes next later := by
  rw [scanFrom]
  split <;> rename_i ran <;> rw [ran]

theorem scanFrom_of_error {state : ScanState} {clock : Clock DatabaseError} {e : DatabaseError}
    (failed : round analyzer session request bytes state clock = .error e) :
    scanFrom analyzer session request bytes state clock = .error e := by
  rw [scanFrom_eq, failed]

theorem scanFrom_of_done {state : ScanState} {clock : Clock DatabaseError} {result : ScanResult}
    (ran : round analyzer session request bytes state clock = .ok (.done result)) :
    scanFrom analyzer session request bytes state clock = .ok result := by
  rw [scanFrom_eq, ran]

theorem scanFrom_of_more {state next : ScanState} {clock later : Clock DatabaseError}
    (ran : round analyzer session request bytes state clock = .ok (.more next later)) :
    scanFrom analyzer session request bytes state clock = scanFrom analyzer session request bytes next later := by
  rw [scanFrom_eq, ran]

variable {analyzer session request}

/-- A scan returns the first hits to come and leaves the others. -/
theorem scanFrom_accounts (sorted : KeySorted IndexedCapture.key session.snapshot.docs) {state : ScanState}
    {clock : Clock DatabaseError} {result : ScanResult} (below : state.hits.length < request.limit)
    (timely : Timely session.snapshot state.position clock)
    (ran : scanFrom analyzer session request bytes state clock = .ok result) :
    ∃ found, result.1 = state.hits ++ found ∧ result.1.length ≤ request.limit ∧
      hitsFrom analyzer session request state.position = (found ++ ·) <$> hitsAfter analyzer session request result.2.1 := by
  induction state, clock using scanFrom.induct analyzer session request bytes with
  | case1 state clock e failed =>
    rw [scanFrom_of_error analyzer session request failed] at ran
    cases ran
  | case2 state clock other stopped =>
    rw [scanFrom_of_done analyzer session request stopped] at ran
    cases ran
    obtain ⟨found, account⟩ := round_accounts sorted below timely stopped
    exact ⟨found, account⟩
  | case3 state clock next later more ih =>
    rw [scanFrom_of_more analyzer session request more] at ran
    obtain ⟨first, hits, room, line, account⟩ := round_accounts sorted below timely more
    have timely' : Timely session.snapshot next.position later := by
      rintro passes rfl
      rw [line, Nat.add_zero]
      exact Nat.lt_or_ge _ _
    obtain ⟨found, same, page, rest⟩ := ih room timely' ran
    refine ⟨first ++ found, by rw [same, hits, List.append_assoc], page, ?_⟩
    rw [account, rest, Functor.map_map]
    simp only [List.append_assoc]

end Scans

/-! ## Scans without interruption -/

section Uninterrupted

variable {analyzer : KoreanAnalyzer} {session : Session} {request : SearchRequest} {bytes : ℕ}

theorem lineLoop_uninterrupted {find : Find} {doc : IndexedCapture AnalyzedText} {first index : ℕ}
    {lines : List SectionLine} {hits found : List SearchHit}
    (all : lineHits find request doc (lines.drop (first - index)) = .ok found)
    (room : (hits ++ found).length < request.limit) :
    lineLoop find request doc first index lines hits none = .ok (hits ++ found, .finished none) := by
  induction lines generalizing index hits found with
  | nil =>
    rw [List.drop_nil] at all
    cases all
    rw [lineLoop, List.append_nil]
  | cons line rest ih =>
    simp only [lineLoop, poll_none]
    by_cases before : index < first
    · rw [show first - index = first - (index + 1) + 1 by omega, List.drop_succ_cons] at all
      rw [if_pos before, ih all room]
    · rw [Nat.sub_eq_zero_of_le (Nat.le_of_not_lt before), List.drop_zero, lineHits] at all
      obtain ⟨here, hit, all⟩ := bind_eq_ok.mp all
      obtain ⟨others, all, same⟩ := bind_eq_ok.mp all
      cases same
      have all' : lineHits find request doc (rest.drop (first - (index + 1))) = .ok others := by
        rwa [Nat.sub_eq_zero_of_le (by omega), List.drop_zero]
      rw [if_neg before, hit, ok_bind]
      cases here with
      | none => exact ih all' room
      | some here =>
        have room' : (hits ++ [here] ++ others).length < request.limit := by simpa using room
        have open' : ¬hits.length + 1 ≥ request.limit := by
          simp only [List.length_append, List.length_singleton] at room'
          omega
        simp only [if_neg open', ih all' room', Option.toList_some, List.append_assoc]

/-- The bytes of a document that a request searches. -/
def searchedBytes (request : SearchRequest) (doc : IndexedCapture AnalyzedText) : ℕ :=
  ((searchedSections request doc.capture.record).map fun unit => byteLen unit.text).sum

variable {state : ScanState} {doc : IndexedCapture AnalyzedText} {found : List SearchHit}

theorem ScanState.advance_uninterrupted {key : Str} {scanned : ℕ} (room : (state.hits ++ found).length < request.limit) :
    state.advance request key found scanned none = .more ⟨state.hits ++ found, ⟨key, 0⟩, scanned⟩ none :=
  if_neg (Nat.not_le.mpr room)

theorem inspect_uninterrupted (kept : skips request doc = false)
    (here : documentHits analyzer session request doc state.position.line = .ok found)
    (room : (state.hits ++ found).length < request.limit) (fits : state.scanned + searchedBytes request doc ≤ bytes) :
    inspect analyzer session request bytes state doc none =
      .ok (.more ⟨state.hits ++ found, ⟨doc.key, 0⟩, state.scanned + searchedBytes request doc⟩ none) := by
  have small : ¬searchedBytes request doc > bytes := by omega
  rw [documentHits, kept] at here
  rw [searchedBytes] at small fits
  simp only [inspect, if_neg small, if_neg (Nat.not_lt.mpr fits)]
  cases mode : session.matcher with
  | query expression =>
    simp only [mode] at here
    obtain ⟨⟨excerpt, later⟩, excerpted, same⟩ := bind_eq_ok.mp here
    cases same
    simp only [steady_queryExcerpt _ _ _ _ _ _ _ excerpted, ScanState.advance_uninterrupted room, searchedBytes]
  | literal find =>
    simp only [mode] at here
    obtain ⟨excerpt, searched, same⟩ := bind_eq_ok.mp here
    cases same
    simp only [searched, ok_bind, ScanState.advance_uninterrupted room, searchedBytes, pure_eq_ok]
  | regex find =>
    simp only [mode] at here
    have loop : lineLoop find request doc state.position.line 0
        ((searchedSections request doc.capture.record).flatMap sectionLines) state.hits none =
          .ok (state.hits ++ found, .finished none) := lineLoop_uninterrupted here room
    simp only [loop, ok_bind, if_neg (Nat.not_le.mpr room), searchedBytes, pure_eq_ok]

/-- A round without interruption reads the next document. -/
theorem round_uninterrupted {whole : List SearchHit} (sorted : KeySorted IndexedCapture.key session.snapshot.docs)
    (next : nextAfter IndexedCapture.key session.snapshot.docs state.position.after = some doc)
    (all : hitsFrom analyzer session request state.position = .ok whole)
    (room : (state.hits ++ whole).length < request.limit) (fits : state.scanned + searchedBytes request doc < bytes) :
    ∃ found rest scanned, whole = found ++ rest ∧ scanned ≤ state.scanned + searchedBytes request doc ∧
      hitsFrom analyzer session request ⟨doc.key, 0⟩ = .ok rest ∧
      round analyzer session request bytes state none = .ok (.more ⟨state.hits ++ found, ⟨doc.key, 0⟩, scanned⟩ none) := by
  rw [hitsFrom_next sorted next] at all
  obtain ⟨found, here, all⟩ := bind_eq_ok.mp all
  obtain ⟨rest, others, rfl⟩ := map_eq_ok.mp all
  have looked : session.snapshot.batch state.position.after none = .ok (some doc, none) := by
    rw [IndexSnapshot.batch, bind_eq, polls_none, ok_bind, pure_eq, next]
  have unread : ¬state.scanned ≥ bytes := by omega
  have room' : (state.hits ++ found).length < request.limit := by
    simp only [List.length_append] at room ⊢
    omega
  simp only [round, poll_none, if_neg unread, looked]
  cases skipped : skips request doc with
  | true =>
    rw [documentHits, if_pos skipped] at here
    cases here
    exact ⟨[], rest, state.scanned, rfl, by omega, others, by simp⟩
  | false =>
    refine ⟨found, rest, _, rfl, le_rfl, others, ?_⟩
    exact inspect_uninterrupted skipped here room' fits.le

/-- Without interruption, with room and bytes for everything, a scan returns all hits to come. -/
theorem scanFrom_uninterrupted (sorted : KeySorted IndexedCapture.key session.snapshot.docs) {whole : List SearchHit}
    (all : hitsFrom analyzer session request state.position = .ok whole)
    (room : (state.hits ++ whole).length < request.limit)
    (fits : state.scanned + ((itemsAfter IndexedCapture.key session.snapshot.docs state.position.after).map
      (searchedBytes request)).sum < bytes) :
    ∃ scanned, scanFrom analyzer session request bytes state none = .ok (state.hits ++ whole, none, scanned) := by
  induction left : itemsAfter IndexedCapture.key session.snapshot.docs state.position.after generalizing state whole with
  | nil =>
    have next : nextAfter IndexedCapture.key session.snapshot.docs state.position.after = none := by
      rw [nextAfter_eq_head?, left, List.head?_nil]
    rw [hitsFrom_none next] at all
    cases all
    have unread : ¬state.scanned ≥ bytes := by omega
    have looked : session.snapshot.batch state.position.after none = .ok (none, none) := by
      rw [IndexSnapshot.batch, bind_eq, polls_none, ok_bind, pure_eq, next]
    refine ⟨state.scanned, scanFrom_of_done _ _ _ ?_⟩
    simp only [round, poll_none, if_neg unread, looked, List.append_nil]
  | cons doc rest ih =>
    have next : nextAfter IndexedCapture.key session.snapshot.docs state.position.after = some doc := by
      rw [nextAfter_eq_head?, left, List.head?_cons]
    have after := itemsAfter_of_some sorted next
    rw [left] at after fits
    rw [List.map_cons, List.sum_cons] at fits
    have fits' : state.scanned + searchedBytes request doc < bytes := by omega
    obtain ⟨found, others, scanned, rfl, read, all, ran⟩ := round_uninterrupted sorted next all room fits'
    have behind := (List.cons.inj after).2.symm
    rw [scanFrom_of_more _ _ _ ran]
    have ended := @ih ⟨state.hits ++ found, ⟨doc.key, 0⟩, scanned⟩ others all (by simpa using room)
      (by rw [behind]; dsimp only; omega) behind
    simpa using ended

end Uninterrupted

end OpenLegal.Legal
