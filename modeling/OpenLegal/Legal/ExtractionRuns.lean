import OpenLegal.Legal.Extraction

/-! # Extractions as a whole

What one round of the pass keeps holds of the extraction: spans that stand in the text in order, names before
their articles, and kept citations within the caps. The flag is compared with a pass that has larger caps.
-/

namespace OpenLegal.Legal

open Rust Rust.Str

/-- A statute citation of a text. The text can be cut from every place where its law's name may begin. -/
structure StatuteSound (text : Str) (statute : ExtractedStatute) : Prop where
  locator : ∃ after, articleAtByte text statute.articleStart = some (statute.article, after)
  forward : statute.articleStart < statute.byteEnd
  span : (get text statute.articleStart statute.byteEnd).isSome
  candidates : statute.law.candidates.Pairwise Shorter
  starts : ∀ start ∈ statute.law.starts, start < statute.articleStart ∧ (get text start statute.byteEnd).isSome

/-- A case number of a text. -/
structure CaseSound (text : Str) (case : ExtractedCase) : Prop where
  forward : case.byteStart < case.byteEnd
  span : get text case.byteStart case.byteEnd = some case.caseNumber

/-- The citations of a text, within caps. -/
structure ExtractionSound (caps : Caps) (text : Str) (out : Extraction) : Prop where
  statutes : ∀ statute ∈ out.statutes, StatuteSound text statute
  statuteOrder : out.statutes.Pairwise fun a b => a.byteEnd ≤ b.articleStart
  statuteCount : out.statutes.length ≤ caps.statutes
  cases : ∀ case ∈ out.cases, CaseSound text case
  caseOrder : out.cases.Pairwise fun a b => a.byteEnd ≤ b.byteStart
  caseCount : out.cases.length ≤ caps.cases
  distinct : (out.cases.map ExtractedCase.caseNumber).Nodup

/-- The pass within a text: what it found so far lies behind it. -/
structure Passed (caps : Caps) (text : Str) (s : Cursor) : Prop where
  split : text = s.front ++ s.rest
  sound : ExtractionSound caps text s.out
  statutes : ∀ statute ∈ s.out.statutes, statute.byteEnd ≤ byteLen s.front
  cases : ∀ case ∈ s.out.cases, case.byteEnd ≤ byteLen s.front
  seen : ∀ case ∈ s.out.cases, case.caseNumber ∈ s.seenCases
  counted : s.out.cases.length ≤ s.seenCases.length
  /-- The text between the previous citation and the next one can be cut out. -/
  previous : ∀ stop ∈ s.previousEnd, isCharBoundary s.front stop = true

/-! ## One round -/

theorem Consumes.positive {rest consumed behind : Str} (consumes : Consumes rest consumed behind) : 0 < byteLen consumed :=
  Nat.lt_of_lt_of_le (List.length_pos_iff.mpr consumes.nonempty) (length_le_byteLen consumed)

theorem StatuteHere.sound {front rest consumed behind : Str} {statute : ExtractedStatute}
    (consumes : Consumes rest consumed behind) (here : StatuteHere front rest consumed statute) :
    StatuteSound (front ++ rest) statute := by
  have positive := consumes.positive
  obtain ⟨after, locator⟩ := here.locator
  refine ⟨⟨byteLen (front ++ rest) - byteLen after, ?_⟩, by rw [here.start, here.stop]; omega, ?_, here.law.ordered, ?_⟩
  · simp [articleAtByte, here.start, splitAt_append, locator]
  · rw [Option.isSome_iff_exists, here.start, here.stop]
    exact ⟨consumed, get_iff.mpr ⟨front, behind, by rw [consumes.split], rfl, rfl⟩⟩
  · intro start member
    have inside := here.law.inside start member
    refine ⟨here.start ▸ inside.lt, ?_⟩
    obtain ⟨before, more, rfl, -, rfl⟩ := inside
    rw [Option.isSome_iff_exists, here.stop]
    refine ⟨more ++ consumed, get_iff.mpr ⟨before, behind, ?_, rfl, ?_⟩⟩
    · rw [consumes.split]
      simp only [List.append_assoc]
    · simp only [byteLen_append]
      omega

theorem caseSound_here {front rest consumed behind : Str} (consumes : Consumes rest consumed behind) :
    CaseSound (front ++ rest) ⟨byteLen front, byteLen front + byteLen consumed, consumed⟩ where
  forward := by
    have positive := consumes.positive
    dsimp only
    omega
  span := get_iff.mpr ⟨front, behind, by rw [consumes.split], rfl, rfl⟩

theorem isCharBoundary_append {front : Str} {i : ℕ} (boundary : isCharBoundary front i = true) (more : Str) :
    isCharBoundary (front ++ more) i = true := by
  obtain ⟨before, rest, rfl, same⟩ := isCharBoundary_iff.mp boundary
  exact isCharBoundary_iff.mpr ⟨before, rest ++ more, by simp, same⟩

section Rounds

variable {caps : Caps} {text : Str} {s : Cursor}

/-- Moving on alone. -/
theorem Passed.past (passed : Passed caps text s) {consumed behind : Str} (consumes : Consumes s.rest consumed behind)
    {previousEnd : Option ℕ} (previous : ∀ stop ∈ previousEnd, isCharBoundary (s.front ++ consumed) stop = true) :
    Passed caps text { s.past consumed behind with previousEnd } where
  split := by
    rw [passed.split, consumes.split]
    simp [Cursor.past]
  sound := passed.sound
  statutes statute member := by
    have before := passed.statutes statute member
    rw [Cursor.past, byteLen_append]
    omega
  cases case member := by
    have before := passed.cases case member
    rw [Cursor.past, byteLen_append]
    omega
  seen := passed.seen
  counted := passed.counted
  previous := previous

theorem Passed.previous_past (passed : Passed caps text s) (consumed : Str) :
    ∀ stop ∈ s.previousEnd, isCharBoundary (s.front ++ consumed) stop = true :=
  fun stop member => isCharBoundary_append (passed.previous stop member) consumed

theorem pairwise_concat {α : Type} {R : α → α → Prop} {items : List α} {item : α} (ordered : items.Pairwise R)
    (last : ∀ other ∈ items, R other item) : (items ++ [item]).Pairwise R := by
  refine List.pairwise_append.mpr ⟨ordered, List.pairwise_singleton _ _, fun other member found same => ?_⟩
  rw [List.mem_singleton.mp same]
  exact last other member

/-- Every round keeps the citations sound. -/
theorem Advances.passed {s' : Cursor} (advances : Advances caps s s') (passed : Passed caps text s) :
    Passed caps text s' := by
  cases advances with
  | pass consumes previous =>
    refine passed.past consumes ?_
    rcases previous with rfl | rfl
    · exact passed.previous_past _
    · intro stop impossible
      cases impossible
  | @statute consumed behind statute consumes here room =>
    have boundary : ∀ stop ∈ some statute.byteEnd, isCharBoundary (s.front ++ consumed) stop = true := by
      rintro _ ⟨⟩
      rw [here.stop, ← byteLen_append]
      exact isCharBoundary_byteLen _
    have moved := passed.past consumes boundary
    have sound := passed.split ▸ here.sound consumes
    have count := passed.sound.statuteCount
    refine { moved with
      sound := { passed.sound with statutes := ?_, statuteOrder := ?_, statuteCount := ?_ }
      statutes := ?_ }
    · exact List.forall_mem_append.mpr ⟨passed.sound.statutes, by simpa using sound⟩
    · exact pairwise_concat passed.sound.statuteOrder fun other member => here.start ▸ passed.statutes other member
    · rw [List.length_append, List.length_singleton]
      omega
    · refine List.forall_mem_append.mpr ⟨moved.statutes, ?_⟩
      simp [here.stop, Cursor.past]
  | statuteBeyond consumes =>
    have moved := passed.past consumes (passed.previous_past _)
    exact { moved with sound := { passed.sound with } }
  | @case consumed behind consumes fresh room =>
    have moved := passed.past consumes (passed.previous_past _)
    have sound := passed.split ▸ caseSound_here consumes
    have counted := passed.counted
    refine { moved with
      sound := { passed.sound with cases := ?_, caseOrder := ?_, caseCount := ?_, distinct := ?_ }
      cases := ?_, seen := ?_, counted := ?_ }
    · exact List.forall_mem_append.mpr ⟨passed.sound.cases, by simpa using sound⟩
    · exact pairwise_concat passed.sound.caseOrder passed.cases
    · rw [List.length_append, List.length_singleton]
      omega
    · rw [List.map_append, List.nodup_append]
      refine ⟨passed.sound.distinct, List.nodup_singleton _, ?_⟩
      rintro number member _ last rfl
      obtain ⟨case, known, rfl⟩ := List.mem_map.mp member
      have same : case.caseNumber = consumed := List.mem_singleton.mp last
      exact fresh (same ▸ passed.seen case known)
    · refine List.forall_mem_append.mpr ⟨moved.cases, ?_⟩
      simp [Cursor.past]
    · refine List.forall_mem_append.mpr ⟨fun case member => List.mem_cons_of_mem _ (passed.seen case member), ?_⟩
      simp
    · simpa using counted
  | caseBeyond consumes fresh =>
    have moved := passed.past consumes (passed.previous_past _)
    have counted := passed.counted
    refine { moved with sound := { passed.sound with }, seen := ?_, counted := ?_ }
    · exact fun case member => List.mem_cons_of_mem _ (passed.seen case member)
    · rw [List.length_cons]
      exact Nat.le_succ_of_le counted

end Rounds

/-! ## What is recognised -/

/-- The first case of each number, apart from numbers seen before. -/
def distinctCases (seen : List Str) : List ExtractedCase → List ExtractedCase
  | [] => []
  | case :: cases =>
    if seen.contains case.caseNumber then distinctCases seen cases
    else case :: distinctCases (case.caseNumber :: seen) cases

/-- A text read from a place on, with the statutes and the cases that begin at the places reached. Reading goes on behind
what it recognises, and behind one character where it recognises nothing. A statute for which there is no room is recognised
too, and reading goes on behind its first character. -/
inductive Recognises (unicode : Unicode) :
    Str → Str → Option ℕ → ℕ → List ExtractedStatute → List ExtractedCase → Prop where
  | done {front previousEnd room} : Recognises unicode front [] previousEnd room [] []
  | statute {front rest consumed behind previousEnd room statute statutes cases}
      (recognised : statuteAt front rest previousEnd = some (some statute, behind)) (split : rest = consumed ++ behind)
      (further : Recognises unicode (front ++ consumed) behind (some statute.byteEnd) room statutes cases) :
      Recognises unicode front rest previousEnd (room + 1) (statute :: statutes) cases
  | statuteBeyond {front tail behind c previousEnd statute statutes cases}
      (recognised : statuteAt front (c :: tail) previousEnd = some (some statute, behind))
      (further : Recognises unicode (front ++ [c]) tail previousEnd 0 statutes cases) :
      Recognises unicode front (c :: tail) previousEnd 0 (statute :: statutes) cases
  | nameless {front rest consumed behind previousEnd room statutes cases}
      (nameless : statuteAt front rest previousEnd = some (none, behind)) (split : rest = consumed ++ behind)
      (further : Recognises unicode (front ++ consumed) behind none room statutes cases) :
      Recognises unicode front rest previousEnd room statutes cases
  | case {front rest consumed behind previousEnd room case statutes cases}
      (recognised : caseAt unicode front rest = some (case, behind)) (split : rest = consumed ++ behind)
      (further : Recognises unicode (front ++ consumed) behind previousEnd room statutes cases) :
      Recognises unicode front rest previousEnd room statutes (case :: cases)
  | pass {front tail c previousEnd room statutes cases} (noStatute : statuteAt front (c :: tail) previousEnd = none)
      (noCase : caseAt unicode front (c :: tail) = none)
      (further : Recognises unicode (front ++ [c]) tail (if c = '\n' ∧ tail.head? = some '\n' then none else previousEnd) room
        statutes cases) :
      Recognises unicode front (c :: tail) previousEnd room statutes cases

section Recognised

variable {unicode : Unicode} {front rest behind : Str} {previousEnd : Option ℕ}

/-- Where a statute begins. -/
theorem statuteAt_marked {found : Option ExtractedStatute × Str} (read : statuteAt front rest previousEnd = some found) :
    ∃ c tail, rest = c :: tail ∧ (c = '제' ∨ c = '第') := by
  simp only [statuteAt, Option.bind_eq_bind, Option.bind_eq_some_iff] at read
  obtain ⟨⟨article, afterLocator⟩, locator, -⟩ := read
  obtain ⟨written, shape, rfl, -⟩ := articleAt_eq_some.mp locator
  cases shape with
  | mk marked before number positive parted after united branched => exact ⟨_, _, rfl, marked⟩

/-- Where a case number begins. -/
theorem caseAt_digit {found : ExtractedCase × Str} (read : caseAt unicode front rest = some found) :
    ∃ c tail, rest = c :: tail ∧ isAsciiDigit c = true := by
  rw [caseAt] at read
  split at read
  · cases read
  simp only [Option.bind_eq_bind, Option.bind_eq_some_iff] at read
  obtain ⟨⟨year, afterYear⟩, first, -⟩ := read
  obtain ⟨run, numeral, rfl, -⟩ := digits_eq_some.mp first
  obtain ⟨c, tail, rfl⟩ := List.exists_cons_of_ne_nil numeral.nonempty
  exact ⟨c, tail ++ afterYear, rfl, numeral.digits c List.mem_cons_self⟩

theorem not_marked_of_digit {c : Char} (digit : isAsciiDigit c = true) : ¬(c = '제' ∨ c = '第') := by
  rintro (rfl | rfl) <;> exact absurd digit (by decide)

/-- Every text can be read. -/
theorem exists_recognises (unicode : Unicode) (rest front : Str) (previousEnd : Option ℕ) (room : ℕ) :
    ∃ statutes cases, Recognises unicode front rest previousEnd room statutes cases := by
  induction length : rest.length using Nat.strong_induction_on generalizing rest front previousEnd room with
  | _ size ih =>
    cases rest with
    | nil => exact ⟨[], [], .done⟩
    | cons c tail =>
      have behindOf {consumed behind : Str} (consumes : Consumes (c :: tail) consumed behind) : behind.length < size := by
        have positive := List.length_pos_iff.mpr consumes.nonempty
        rw [← length, consumes.split, List.length_append]
        omega
      have shorter : tail.length < size := by
        rw [← length, List.length_cons]
        exact Nat.lt_succ_self _
      cases statute : statuteAt front (c :: tail) previousEnd with
      | some found =>
        obtain ⟨found, behind⟩ := found
        obtain ⟨consumed, consumes, -, -⟩ := statuteAt_eq_some statute
        cases found with
        | none =>
          obtain ⟨statutes, cases, further⟩ := ih _ (behindOf consumes) behind (front ++ consumed) none room rfl
          exact ⟨statutes, cases, .nameless statute consumes.split further⟩
        | some first =>
          cases room with
          | zero =>
            obtain ⟨statutes, cases, further⟩ := ih _ shorter tail (front ++ [c]) previousEnd 0 rfl
            exact ⟨first :: statutes, cases, .statuteBeyond statute further⟩
          | succ room =>
            obtain ⟨statutes, cases, further⟩ :=
              ih _ (behindOf consumes) behind (front ++ consumed) (some first.byteEnd) room rfl
            exact ⟨first :: statutes, cases, .statute statute consumes.split further⟩
      | none =>
        cases case : caseAt unicode front (c :: tail) with
        | some found =>
          obtain ⟨first, behind⟩ := found
          obtain ⟨consumed, consumes, -, -⟩ := caseAt_eq_some unicode case
          obtain ⟨statutes, cases, further⟩ := ih _ (behindOf consumes) behind (front ++ consumed) previousEnd room rfl
          exact ⟨statutes, first :: cases, .case case consumes.split further⟩
        | none =>
          obtain ⟨statutes, cases, further⟩ := ih _ shorter tail (front ++ [c])
            (if c = '\n' ∧ tail.head? = some '\n' then none else previousEnd) room rfl
          exact ⟨statutes, cases, .pass statute case further⟩

end Recognised

/-! ## The pass and the reading -/

section Pass

variable {unicode : Unicode} {caps : Caps} {front rest behind consumed tail : Str} {c : Char} {previousEnd : Option ℕ}
  {seen : List Str} {out : Extraction}

theorem resume_split (split : rest = consumed ++ behind) :
    Cursor.resume ⟨front, rest, previousEnd, seen, out⟩ behind = ⟨front ++ consumed, behind, previousEnd, seen, out⟩ := by
  have length : (consumed ++ behind).length - behind.length = consumed.length := by simp
  rw [Cursor.resume, split]
  dsimp only
  rw [length, List.take_left]

theorem extractStep_statute {statute : ExtractedStatute}
    (recognised : statuteAt front rest previousEnd = some (some statute, behind)) :
    extractStep unicode caps ⟨front, rest, previousEnd, seen, out⟩ =
      some (keepStatute caps ⟨front, rest, previousEnd, seen, out⟩ rest.tail statute behind) := by
  obtain ⟨c, tail, rfl, marked⟩ := statuteAt_marked recognised
  simp only [extractStep, if_pos marked, recognised, List.tail_cons]

theorem keepStatute_room {statute : ExtractedStatute} (room : out.statutes.length ≠ caps.statutes)
    (split : rest = consumed ++ behind) :
    keepStatute caps ⟨front, rest, previousEnd, seen, out⟩ tail statute behind =
      ⟨front ++ consumed, behind, some statute.byteEnd, seen, { out with statutes := out.statutes ++ [statute] }⟩ := by
  rw [keepStatute, if_neg room, resume_split split]

theorem keepStatute_full {statute : ExtractedStatute} (full : out.statutes.length = caps.statutes) :
    keepStatute caps ⟨front, c :: tail, previousEnd, seen, out⟩ tail statute behind =
      ⟨front ++ [c], tail, previousEnd, seen, { out with truncated := true }⟩ := by
  rw [keepStatute, if_pos full, resume_split (List.singleton_append).symm]

theorem extractStep_nameless (nameless : statuteAt front rest previousEnd = some (none, behind))
    (split : rest = consumed ++ behind) :
    extractStep unicode caps ⟨front, rest, previousEnd, seen, out⟩ = some ⟨front ++ consumed, behind, none, seen, out⟩ := by
  obtain ⟨c, tail, rfl, marked⟩ := statuteAt_marked nameless
  simp only [extractStep, if_pos marked, nameless, resume_split split]

theorem extractStep_case {case : ExtractedCase} (recognised : caseAt unicode front rest = some (case, behind)) :
    extractStep unicode caps ⟨front, rest, previousEnd, seen, out⟩ =
      some (keepCase caps ⟨front, rest, previousEnd, seen, out⟩ case behind) := by
  obtain ⟨c, tail, rfl, digit⟩ := caseAt_digit recognised
  simp only [extractStep, if_neg (not_marked_of_digit digit), digit, if_true, recognised]

theorem keepCase_known {case : ExtractedCase} (known : seen.contains case.caseNumber = true)
    (split : rest = consumed ++ behind) :
    keepCase caps ⟨front, rest, previousEnd, seen, out⟩ case behind =
      ⟨front ++ consumed, behind, previousEnd, seen, out⟩ := by
  rw [keepCase, if_pos known, resume_split split]

theorem keepCase_new {case : ExtractedCase} (new : ¬seen.contains case.caseNumber = true)
    (split : rest = consumed ++ behind) :
    keepCase caps ⟨front, rest, previousEnd, seen, out⟩ case behind =
      ⟨front ++ consumed, behind, previousEnd, case.caseNumber :: seen,
        if caps.cases < seen.length + 1 then { out with truncated := true }
        else { out with cases := out.cases ++ [case] }⟩ := by
  rw [keepCase, if_neg new, resume_split split]

theorem extractStep_pass (noStatute : statuteAt front (c :: tail) previousEnd = none)
    (noCase : caseAt unicode front (c :: tail) = none) :
    extractStep unicode caps ⟨front, c :: tail, previousEnd, seen, out⟩ =
      some ⟨front ++ [c], tail, if c = '\n' ∧ tail.head? = some '\n' then none else previousEnd, seen, out⟩ := by
  by_cases newline : c = '\n'
  · rw [newline, extractStep_newline]
    simp
  · have one := @resume_split front (c :: tail) tail [c] previousEnd seen out rfl
    simp only [extractStep, noStatute, noCase, one, newline, false_and, if_false, ite_self]

/-- The pass keeps what the reading recognises as long as there is room, and says so when there is none. -/
theorem Recognises.extract {room : ℕ} {statutes : List ExtractedStatute} {cases : List ExtractedCase}
    (reading : Recognises unicode front rest previousEnd room statutes cases) (left : out.statutes.length + room = caps.statutes)
    (told : caps.cases < seen.length → out.truncated = true) :
    (extract unicode caps ⟨front, rest, previousEnd, seen, out⟩).out.statutes = out.statutes ++ statutes.take room ∧
      (extract unicode caps ⟨front, rest, previousEnd, seen, out⟩).out.cases =
        out.cases ++ (distinctCases seen cases).take (caps.cases - seen.length) ∧
      ((extract unicode caps ⟨front, rest, previousEnd, seen, out⟩).out.truncated = true ↔
        out.truncated = true ∨ room < statutes.length ∨ caps.cases < seen.length + (distinctCases seen cases).length) := by
  induction reading generalizing seen out with
  | done =>
    rw [extract_of_none unicode caps rfl]
    simp only [List.take_nil, List.append_nil, distinctCases, List.length_nil, Nat.not_lt_zero, false_or, Nat.add_zero,
      true_and]
    exact ⟨.inl, fun truncated => truncated.elim id told⟩
  | @statute front rest consumed behind previousEnd room statute statutes cases recognised split further ih =>
    rw [extract_of_some unicode caps (extractStep_statute recognised), keepStatute_room (by omega) split]
    obtain ⟨kept, others, truncated⟩ := @ih seen { out with statutes := out.statutes ++ [statute] }
      (by simp only [List.length_append, List.length_singleton]; omega) told
    refine ⟨?_, others, ?_⟩
    · rw [kept, List.take_succ_cons, List.append_assoc, List.singleton_append]
    · rw [truncated, List.length_cons, Nat.add_lt_add_iff_right]
  | @statuteBeyond front tail behind c previousEnd statute statutes cases recognised further ih =>
    rw [extract_of_some unicode caps (extractStep_statute recognised), List.tail_cons, keepStatute_full left]
    obtain ⟨kept, others, truncated⟩ := @ih seen { out with truncated := true } left fun _ => rfl
    refine ⟨?_, others, ?_⟩
    · rw [kept, List.take_zero, List.take_zero]
    · rw [truncated]
      simp
  | nameless nameless split further ih =>
    rw [extract_of_some unicode caps (extractStep_nameless nameless split)]
    exact ih left told
  | @case front rest consumed behind previousEnd room case statutes cases recognised split further ih =>
    rw [extract_of_some unicode caps (extractStep_case recognised), distinctCases]
    by_cases known : seen.contains case.caseNumber = true
    · rw [keepCase_known known split, if_pos known]
      exact ih left told
    rw [keepCase_new known split, if_neg known]
    by_cases full : caps.cases < seen.length + 1
    · rw [if_pos full]
      obtain ⟨kept, others, truncated⟩ := @ih (case.caseNumber :: seen) { out with truncated := true } left fun _ => rfl
      refine ⟨kept, ?_, ?_⟩
      · have none : caps.cases - (case.caseNumber :: seen).length = 0 := Nat.sub_eq_zero_of_le full.le
        have none' : caps.cases - seen.length = 0 := by omega
        rw [others, none, none', List.take_zero, List.take_zero]
      · rw [truncated]
        simp only [true_or, List.length_cons, true_iff]
        omega
    · rw [if_neg full]
      obtain ⟨kept, others, truncated⟩ := @ih (case.caseNumber :: seen) { out with cases := out.cases ++ [case] } left
        fun more => absurd more full
      refine ⟨kept, ?_, ?_⟩
      · have some : caps.cases - seen.length = caps.cases - (case.caseNumber :: seen).length + 1 := by
          rw [List.length_cons]
          omega
        rw [others, some, List.take_succ_cons, List.append_assoc, List.singleton_append]
      · rw [truncated, List.length_cons, List.length_cons, Nat.add_assoc, Nat.add_comm 1]
  | pass noStatute noCase further ih =>
    rw [extract_of_some unicode caps (extractStep_pass noStatute noCase)]
    exact ih left told

end Pass

/-! ## Whole texts -/

/-- The extraction of a text with any caps. -/
theorem extractWith_sound (unicode : Unicode) (caps : Caps) (text : Str) : ExtractionSound caps text (extractWith unicode caps text) := by
  have start : Passed caps text ⟨[], text, none, [], ⟨[], [], false⟩⟩ := by
    refine ⟨rfl, ?_, by simp, by simp, by simp, Nat.le_refl 0, by simp⟩
    exact ⟨by simp, .nil, Nat.zero_le _, by simp, .nil, Nat.zero_le _, .nil⟩
  exact (extract_invariant unicode caps (fun _ _ advances => advances.passed) start).sound

/-- The extraction of every text is sound. Of what a reading of the text recognises it has the first 50 statutes and the
first 30 distinct cases, and it is truncated exactly if there is a 51st statute or a 31st distinct case. -/
theorem extractCitations_sound (unicode : Unicode) (text : Str) :
    ExtractionSound ⟨50, 30⟩ text (extractCitations unicode text) ∧
      (∃ statutes cases, Recognises unicode [] text none 50 statutes cases) ∧
      ∀ statutes cases, Recognises unicode [] text none 50 statutes cases →
        (extractCitations unicode text).statutes = statutes.take 50 ∧
        (extractCitations unicode text).cases = (distinctCases [] cases).take 30 ∧
        ((extractCitations unicode text).truncated = true ↔ 50 < statutes.length ∨ 30 < (distinctCases [] cases).length) := by
  refine ⟨extractWith_sound unicode citationCaps text, exists_recognises unicode text [] none 50, ?_⟩
  intro statutes cases reading
  have read := @Recognises.extract unicode citationCaps [] text none [] ⟨[], [], false⟩ 50 statutes cases reading rfl
    fun impossible => by cases impossible
  simpa [extractCitations, extractWith, citationCaps] using read

end OpenLegal.Legal
