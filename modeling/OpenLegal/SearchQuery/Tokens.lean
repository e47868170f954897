import OpenLegal.SearchQuery.Scanner

/-! # What the scanner returns

A scanned token spans the text it was read from, a token other than the end makes progress, and decoded
texts are not empty. Errors report a range of the source.
-/

namespace OpenLegal.SearchQuery

open Rust Rust.Str

/-- A range between two character boundaries of the source. -/
structure ValidSpan (source : Str) (span : ByteSpan) : Prop where
  forward : span.start ≤ span.stop
  start : isCharBoundary source span.start = true
  stop : isCharBoundary source span.stop = true

/-- Nonempty words with ordered ranges inside `start..stop`. -/
structure WordsWithin (source : Str) (start : ℕ) (words : List (Str × ByteSpan)) (stop : ℕ) : Prop where
  ordered : words.Pairwise fun first second => first.2.stop ≤ second.2.start
  nonempty : ∀ word ∈ words, word.1 ≠ []
  valid : ∀ word ∈ words, ValidSpan source word.2
  inside : ∀ word ∈ words, start ≤ word.2.start ∧ word.2.stop ≤ stop

/-- The decoded contents of a token that was read from `start..stop`. -/
def TokenKind.Decoded (source : Str) (start stop : ℕ) : TokenKind → Prop
  | .term value | .exact value | .prefixed value => value ≠ []
  | .words pieces => pieces ≠ [] ∧ WordsWithin source start pieces stop
  | _ => True

theorem WordsWithin.mono {source : Str} {start stop later : ℕ} {words : List (Str × ByteSpan)}
    (within : WordsWithin source start words stop) (le : stop ≤ later) : WordsWithin source start words later :=
  ⟨within.ordered, within.nonempty, within.valid, fun word member =>
    ⟨(within.inside word member).1, (within.inside word member).2.trans le⟩⟩

theorem WordsWithin.push {source : Str} {start wordStart stop : ℕ} {words : List (Str × ByteSpan)}
    (within : WordsWithin source start words wordStart) (begins : start ≤ wordStart)
    (valid : ValidSpan source ⟨wordStart, stop⟩) (value : Str) :
    WordsWithin source start (Scanner.pushWord words value ⟨wordStart, stop⟩) stop := by
  have forward : wordStart ≤ stop := valid.forward
  rw [Scanner.pushWord]
  split_ifs with empty
  · exact within.mono forward
  · constructor
    · refine List.pairwise_append.mpr ⟨within.ordered, List.pairwise_singleton _ _, ?_⟩
      intro first old second new
      rw [List.mem_singleton.mp new]
      exact (within.inside first old).2
    · intro word member
      rcases List.mem_append.mp member with old | new
      · exact within.nonempty word old
      · rw [List.mem_singleton.mp new]
        simpa using empty
    · intro word member
      rcases List.mem_append.mp member with old | new
      · exact within.valid word old
      · rw [List.mem_singleton.mp new]
        exact valid
    · intro word member
      rcases List.mem_append.mp member with old | new
      · exact (within.mono forward).inside word old
      · rw [List.mem_singleton.mp new]
        exact ⟨begins, Nat.le_refl _⟩

theorem byteLen_reverse (s : Str) : byteLen s.reverse = byteLen s := by
  simp [byteLen]

namespace Scanner

/-! ## Positions of one source -/

/-- `later` is the position after some more characters. -/
def Reaches (scanner later : Scanner) : Prop :=
  ∃ consumed, scanner.rest = consumed ++ later.rest ∧ later.before = consumed.reverse ++ scanner.before

namespace Reaches

variable {first second third : Scanner}

theorem refl (scanner : Scanner) : Reaches scanner scanner := ⟨[], rfl, rfl⟩

theorem trans (near : Reaches first second) (far : Reaches second third) : Reaches first third := by
  obtain ⟨left, rest, before⟩ := near
  obtain ⟨right, rest', before'⟩ := far
  exact ⟨left ++ right, by simp [rest, rest'], by simp [before, before']⟩

theorem step (before : Str) (c : Char) (rest : Str) : Reaches ⟨before, c :: rest⟩ ⟨c :: before, rest⟩ :=
  ⟨[c], rfl, rfl⟩

theorem input_eq (reaches : Reaches first second) : second.input = first.input := by
  obtain ⟨consumed, rest, before⟩ := reaches
  simp [input, rest, before]

theorem offset_le (reaches : Reaches first second) : first.offset ≤ second.offset := by
  obtain ⟨consumed, -, before⟩ := reaches
  simp [offset, before]

theorem length_le (reaches : Reaches first second) : second.rest.length ≤ first.rest.length := by
  obtain ⟨consumed, rest, -⟩ := reaches
  simp [rest]

end Reaches

theorem boundary (scanner : Scanner) : isCharBoundary scanner.input scanner.offset = true :=
  isCharBoundary_iff.mpr ⟨scanner.before.reverse, scanner.rest, rfl, byteLen_reverse _⟩

theorem boundary_of_input {source : Str} {scanner : Scanner} (same : scanner.input = source) :
    isCharBoundary source scanner.offset = true := same ▸ scanner.boundary

/-- Two positions of one source bound a valid range. -/
theorem Reaches.valid {first second : Scanner} {source : Str} (reaches : Reaches first second)
    (same : first.input = source) : ValidSpan source ⟨first.offset, second.offset⟩ :=
  ⟨reaches.offset_le, boundary_of_input same, boundary_of_input (reaches.input_eq.trans same)⟩

/-- The text between two positions is the slice of the source between their offsets. -/
theorem get_between {first second : Scanner} {consumed : Str}
    (before : second.before = consumed.reverse ++ first.before) :
    get second.input first.offset second.offset = some consumed := by
  apply get_iff.mpr
  refine ⟨first.before.reverse, second.rest, ?_, byteLen_reverse _, ?_⟩
  · simp [input, before]
  · simp [offset, before, byteLen_reverse, Nat.add_comm]

theorem skipWhile_eq (accepts : Char → Bool) (before rest : Str) :
    skipWhile accepts before rest = ⟨(rest.takeWhile accepts).reverse ++ before, rest.dropWhile accepts⟩ := by
  induction rest generalizing before with
  | nil => rfl
  | cons c rest ih =>
    rw [skipWhile]
    split_ifs with accepted
    · simp [ih, accepted]
    · simp [accepted]

theorem reaches_skipWhile (accepts : Char → Bool) (before rest : Str) :
    Reaches ⟨before, rest⟩ (skipWhile accepts before rest) := by
  rw [skipWhile_eq]
  exact ⟨rest.takeWhile accepts, (List.takeWhile_append_dropWhile).symm, rfl⟩

theorem reaches_skipWhitespace (scanner : Scanner) : Reaches scanner scanner.skipWhitespace :=
  reaches_skipWhile _ _ _

/-- White space is skipped once. -/
theorem skipWhitespace_idem (scanner : Scanner) : scanner.skipWhitespace.skipWhitespace = scanner.skipWhitespace := by
  have settled (before rest : Str) : skipWhile isWhitespace (skipWhile isWhitespace before rest).before
      (skipWhile isWhitespace before rest).rest = skipWhile isWhitespace before rest := by
    induction rest generalizing before with
    | nil => rfl
    | cons c rest ih =>
      rw [skipWhile]
      split_ifs with blank
      · exact ih (c :: before)
      · simp [skipWhile, blank]
  exact settled scanner.before scanner.rest

/-! ## The result of a scan -/

/-- The result of reading a token at `scanner`. -/
def Scanned (source : Str) (scanner : Scanner) (start : ℕ) : Except ParseError (TokenKind × Scanner) → Prop
  | .ok (kind, after) => Reaches scanner after ∧ (kind ≠ .endOfInput → after.rest.length < scanner.rest.length) ∧
      kind.Decoded source start after.offset
  | .error error => ValidSpan source error.span

theorem scanned_field {scanner : Scanner} {source : Str} (same : scanner.input = source) (start : ℕ)
    (long : 0 < scanner.rest.length) : Scanned source scanner start (field scanner) := by
  have opened : Reaches scanner ⟨(scanner.rest.take 3).reverse ++ scanner.before, scanner.rest.drop 3⟩ :=
    ⟨scanner.rest.take 3, (List.take_append_drop _ _).symm, rfl⟩
  have named := opened.trans (reaches_skipWhile isNameChar _ _)
  have shorter : (scanner.rest.drop 3).length < scanner.rest.length := by
    rw [List.length_drop]
    omega
  have bound := (reaches_skipWhile isNameChar ((scanner.rest.take 3).reverse ++ scanner.before)
    (scanner.rest.drop 3)).length_le
  rw [field]
  split
  · next rest after =>
    split_ifs
    · have closed : Reaches scanner ⟨':' :: (skipWhile isNameChar ((scanner.rest.take 3).reverse ++ scanner.before)
          (scanner.rest.drop 3)).before, rest⟩ :=
        named.trans ⟨[':'], by simpa using after, rfl⟩
      refine ⟨closed, fun _ => ?_, trivial⟩
      dsimp only at bound
      rw [after, List.length_cons] at bound
      dsimp only
      omega
    · exact named.valid same
  · exact named.valid same

variable {unicode : Unicode}

/-- Every recorded star stands in the decoded text at its offset. -/
def Word.StarsIn (word : Word) : Prop :=
  ∀ star ∈ word.stars, ∃ front rear, word.value = front ++ '*' :: rear ∧ byteLen front = star

theorem Word.StarsIn.push {word : Word} (stars : word.StarsIn) (c : Char) (escaped : Bool) :
    ({ word with value := word.value ++ [c], escaped } : Word).StarsIn := by
  intro star member
  obtain ⟨front, rear, shape, length⟩ := stars star member
  exact ⟨front, rear ++ [c], by simp [shape], length⟩

theorem Word.StarsIn.pushChar {word : Word} (stars : word.StarsIn) (c : Char) :
    ({ word with value := word.value ++ [c],
                 stars := if c = '*' then word.stars ++ [byteLen word.value] else word.stars } : Word).StarsIn := by
  split_ifs with star
  · intro offset member
    rcases List.mem_append.mp member with old | new
    · exact stars.push c word.escaped offset old
    · exact ⟨word.value, [], by simp [star], (List.mem_singleton.mp new).symm⟩
  · exact stars.push c word.escaped

/-- The result of the word loop: progress and more decoded text, unless the word ends at once. -/
def WordScanned (unicode : Unicode) (source : Str) (scanner : Scanner) (word : Word) : Except ParseError (Word × Scanner) → Prop
  | .ok (result, after) => Reaches scanner after ∧ result.StarsIn ∧ word.value.length ≤ result.value.length ∧
      (∀ c tail, scanner.rest = c :: tail → endsWord unicode scanner.before c tail = false →
        after.rest.length < scanner.rest.length ∧ word.value.length < result.value.length)
  | .error error => ValidSpan source error.span

theorem endsWord_escape (before rest : Str) : endsWord unicode before '\\' rest = false := by
  have visible : isWhitespace '\\' = false := by decide +kernel
  rw [endsWord, visible]
  rfl

theorem wordLoop_ends {before rest : Str} {c : Char} (ends : endsWord unicode before c rest = true) (word : Word) :
    wordLoop unicode before (c :: rest) word = .ok (word, ⟨before, c :: rest⟩) := by
  unfold wordLoop
  rw [if_pos ends]

theorem wordLoop_escape (before rest : Str) (literal : Char) (word : Word) :
    wordLoop unicode before ('\\' :: literal :: rest) word =
      wordLoop unicode (literal :: '\\' :: before) rest { word with value := word.value ++ [literal], escaped := true } := by
  conv_lhs => unfold wordLoop
  rw [endsWord_escape]
  rfl

theorem wordLoop_trailing (before : Str) (word : Word) : wordLoop unicode before ['\\'] word =
    .error ⟨.trailingEscape, ⟨byteLen before, byteLen ('\\' :: before)⟩⟩ := by
  unfold wordLoop
  rw [endsWord_escape]
  rfl

theorem wordLoop_char {before rest : Str} {c : Char} (inside : endsWord unicode before c rest = false)
    (plain : c ≠ '\\') (word : Word) :
    wordLoop unicode before (c :: rest) word =
      wordLoop unicode (c :: before) rest
        { word with value := word.value ++ [c],
                    stars := if c = '*' then word.stars ++ [byteLen word.value] else word.stars } := by
  conv_lhs => unfold wordLoop
  rw [inside, if_neg Bool.false_ne_true, if_neg plain]

theorem WordScanned.after_step {source : Str} {scanner next : Scanner} {word pushed : Word}
    {result : Except ParseError (Word × Scanner)} (scanned : WordScanned unicode source next pushed result)
    (step : Reaches scanner next) (shorter : next.rest.length < scanner.rest.length)
    (longer : word.value.length < pushed.value.length) : WordScanned unicode source scanner word result := by
  match result with
  | .error error => exact scanned
  | .ok (result, after) =>
    obtain ⟨reaches, stars, more, -⟩ := scanned
    have := reaches.length_le
    refine ⟨step.trans reaches, stars, by omega, ?_⟩
    intro _ _ _ _
    constructor
    all_goals omega

theorem wordLoop_scanned {before rest : Str} {word : Word} {source : Str} (same : input ⟨before, rest⟩ = source)
    (stars : word.StarsIn) : WordScanned unicode source ⟨before, rest⟩ word (wordLoop unicode before rest word) := by
  induction before, rest, word using wordLoop.induct unicode with
  | case1 before word =>
    exact ⟨.refl _, stars, Nat.le_refl _, fun c tail impossible => by cases impossible⟩
  | case2 before c rest word ends =>
    rw [wordLoop_ends ends]
    refine ⟨.refl _, stars, Nat.le_refl _, ?_⟩
    intro _ _ shape inside
    cases shape
    rw [ends] at inside
    cases inside
  | case3 before word =>
    rw [wordLoop_trailing]
    exact (Reaches.step before '\\' []).valid same
  | case4 before word literal rest _ ih =>
    have step : Reaches ⟨before, '\\' :: literal :: rest⟩ ⟨literal :: '\\' :: before, rest⟩ := ⟨['\\', literal], rfl, rfl⟩
    rw [wordLoop_escape]
    refine (ih (step.input_eq.trans same) (stars.push literal true)).after_step step ?_ ?_
    · dsimp only [List.length_cons]
      omega
    · simp
  | case5 before c rest word inside plain stars' ih =>
    have step := Reaches.step before c rest
    rw [wordLoop_char (by simpa using inside) plain]
    refine (ih (step.input_eq.trans same) (stars.pushChar c)).after_step step ?_ ?_
    · simp
    · simp

/-- A prefix keeps the text before its star. -/
theorem classify_decoded {word : Word} {span : ByteSpan} {kind : TokenKind} (stars : word.StarsIn)
    (nonempty : word.value ≠ []) (classified : classify word span = .ok kind) (source : Str) (start stop : ℕ) :
    kind.Decoded source start stop := by
  simp only [classify] at classified
  split at classified
  · split_ifs at classified
    all_goals
      cases classified
      first | exact nonempty | trivial
  · next star single =>
    split_ifs at classified with invalid
    simp only [ne_eq, decide_not, Bool.or_eq_true, decide_eq_true_eq, Bool.not_eq_true', decide_eq_false_iff_not,
      not_or] at invalid
    obtain ⟨front, rear, shape, length⟩ := stars star (by simp [single])
    cases classified
    refine fun empty => invalid.1 ?_
    have short : word.value.length ≤ 1 := by
      have := congrArg List.length empty
      rw [List.length_dropLast, List.length_nil] at this
      omega
    rw [shape, List.length_append, List.length_cons] at short
    have : front = [] := List.eq_nil_of_length_eq_zero (by omega)
    rw [← length, this, byteLen_nil]
  · cases classified

theorem scanned_word {scanner : Scanner} {source : Str} (same : scanner.input = source) (start : ℕ) {c : Char} {rest : Str}
    (shape : scanner.rest = c :: rest) (inside : endsWord unicode scanner.before c rest = false) :
    Scanned source scanner start (word unicode scanner) := by
  have scanned : WordScanned unicode source scanner ⟨[], false, []⟩
      (wordLoop unicode scanner.before scanner.rest ⟨[], false, []⟩) :=
    wordLoop_scanned same (fun star impossible => by cases impossible)
  rw [word]
  match result : wordLoop unicode scanner.before scanner.rest ⟨[], false, []⟩ with
  | .error error =>
    rw [result] at scanned
    exact scanned
  | .ok (word, after) =>
    rw [result] at scanned
    obtain ⟨reaches, stars, -, progress⟩ := scanned
    obtain ⟨shorter, longer⟩ := progress c rest shape inside
    have nonempty : word.value ≠ [] := List.ne_nil_of_length_pos (by simpa using longer)
    rw [ok_bind]
    dsimp only
    match classified : classify word ⟨scanner.offset, after.offset⟩ with
    | .error error =>
      have : error.span = ⟨scanner.offset, after.offset⟩ := by
        simp only [classify] at classified
        split at classified
        · split_ifs at classified
        · split_ifs at classified
          cases classified
          rfl
        · cases classified
          rfl
      rw [error_bind, Scanned, this]
      exact reaches.valid same
    | .ok kind =>
      have decoded := classify_decoded stars nonempty classified source start after.offset
      exact ⟨reaches, fun _ => shorter, decoded⟩

/-! ## Quotes -/

/-- The state of the quote loop: finished words end before the current one, which ends here. -/
structure QuoteState (source : Str) (start : ℕ) (scanner : Scanner) (words : List (Str × ByteSpan)) (wordStart : ℕ) :
    Prop where
  input : scanner.input = source
  opened : isCharBoundary source start = true
  words : WordsWithin source start words wordStart
  begins : start ≤ wordStart
  current : ValidSpan source ⟨wordStart, scanner.offset⟩

theorem QuoteState.whole {source : Str} {start wordStart : ℕ} {scanner later : Scanner} {words : List (Str × ByteSpan)}
    (state : QuoteState source start scanner words wordStart) (reaches : Reaches scanner later) :
    ValidSpan source ⟨start, later.offset⟩ :=
  ⟨state.begins.trans (state.current.forward.trans reaches.offset_le), state.opened,
    boundary_of_input (reaches.input_eq.trans state.input)⟩

/-- Reading on inside a word, which begins here if it was empty. -/
theorem QuoteState.read {source : Str} {start wordStart : ℕ} {scanner later : Scanner} {words : List (Str × ByteSpan)}
    (state : QuoteState source start scanner words wordStart) (reaches : Reaches scanner later) (value : Str) :
    QuoteState source start later words (if value.isEmpty then scanner.offset else wordStart) := by
  have input := reaches.input_eq.trans state.input
  split_ifs
  · exact ⟨input, state.opened, state.words.mono state.current.forward, state.begins.trans state.current.forward,
      reaches.valid state.input⟩
  · exact ⟨input, state.opened, state.words, state.begins,
      ⟨state.current.forward.trans reaches.offset_le, state.current.start, boundary_of_input input⟩⟩

theorem QuoteState.finish {source : Str} {start wordStart : ℕ} {scanner later : Scanner} {words : List (Str × ByteSpan)}
    (state : QuoteState source start scanner words wordStart) (reaches : Reaches scanner later) (value : Str) :
    QuoteState source start later (pushWord words value ⟨wordStart, scanner.offset⟩) later.offset := by
  have input := reaches.input_eq.trans state.input
  exact ⟨input, state.opened, (state.words.push state.begins state.current value).mono reaches.offset_le,
    (state.whole reaches).forward, (Reaches.refl later).valid input⟩

theorem Scanned.after_step {source : Str} {scanner next : Scanner} {start : ℕ}
    {result : Except ParseError (TokenKind × Scanner)} (scanned : Scanned source next start result)
    (step : Reaches scanner next) : Scanned source scanner start result := by
  match result with
  | .error error => exact scanned
  | .ok (kind, after) =>
    obtain ⟨reaches, progress, decoded⟩ := scanned
    exact ⟨step.trans reaches, fun other => (progress other).trans_le step.length_le, decoded⟩

theorem scanned_closeQuote {source : Str} {start wordStart : ℕ} {before rest value : Str} {c : Char}
    {words : List (Str × ByteSpan)} (state : QuoteState source start ⟨before, c :: rest⟩ words wordStart) (single : Bool) :
    Scanned source ⟨before, c :: rest⟩ start (do
      let words := if single then pushWord words value ⟨wordStart, byteLen before⟩ else words
      let kind ← closeQuote single value words ⟨start, byteLen (c :: before)⟩
      pure (kind, ⟨c :: before, rest⟩)) := by
  have step := Reaches.step before c rest
  have progress : rest.length < (c :: rest).length := by simp
  dsimp only
  rw [closeQuote]
  split_ifs with quotes empty empty
  · exact state.whole step
  · exact ⟨step, fun _ => progress, by simpa using empty, (state.finish step value).words⟩
  · exact state.whole step
  · exact ⟨step, fun _ => progress, fun none => empty (by simp [none])⟩

theorem quotedLoop_scanned {source : Str} {start : ℕ} {single : Bool} {before rest value : Str}
    {words : List (Str × ByteSpan)} {wordStart : ℕ} (state : QuoteState source start ⟨before, rest⟩ words wordStart) :
    Scanned source ⟨before, rest⟩ start (quotedLoop unicode single start before rest value words wordStart) := by
  induction before, rest, value, words, wordStart using quotedLoop.induct unicode single with
  | case1 before value words wordStart => exact state.whole (.refl _)
  | case2 before c rest value words wordStart closes =>
    unfold quotedLoop
    rw [if_pos closes]
    exact scanned_closeQuote state single
  | case3 before c rest value words wordStart opens blank ih =>
    unfold quotedLoop
    rw [if_neg opens, if_pos blank]
    have step := Reaches.step before c rest
    exact (ih (state.finish step value)).after_step step
  | case4 before value words wordStart blank opens =>
    unfold quotedLoop
    rw [if_neg opens, if_neg blank]
    exact (Reaches.step before '\\' []).valid state.input
  | case5 before value words wordStart wordStart' literal rest blank opens ih =>
    unfold quotedLoop
    rw [if_neg opens, if_neg blank]
    have step : Reaches ⟨before, '\\' :: literal :: rest⟩ ⟨literal :: '\\' :: before, rest⟩ := ⟨['\\', literal], rfl, rfl⟩
    exact (ih (state.read step value)).after_step step
  | case6 before c rest value words wordStart opens blank wordStart' plain ih =>
    unfold quotedLoop
    rw [if_neg opens, if_neg blank]
    have step := Reaches.step before c rest
    dsimp only
    rw [if_neg plain]
    exact (ih (state.read step value)).after_step step

theorem scanned_quoted {scanner : Scanner} {source : Str} (same : scanner.input = source) (single : Bool) :
    Scanned source scanner scanner.offset (quoted unicode single scanner) := by
  have opened : Reaches scanner ⟨(scanner.rest.take 1).reverse ++ scanner.before, scanner.rest.drop 1⟩ :=
    ⟨scanner.rest.take 1, (List.take_append_drop _ _).symm, rfl⟩
  have input := opened.input_eq.trans same
  refine (quotedLoop_scanned ?_).after_step opened
  exact ⟨input, boundary_of_input same, ⟨.nil, by simp, by simp, by simp⟩, opened.offset_le, (Reaches.refl _).valid input⟩

/-! ## Tokens -/

/-- A token read at a position, and the position after it. -/
structure Reads (source : Str) (scanner : Scanner) (token : Token) (after : Scanner) : Prop where
  reaches : Reaches scanner.skipWhitespace after
  span : token.span = ⟨scanner.skipWhitespace.offset, after.offset⟩
  progress : token.kind ≠ .endOfInput → after.rest.length < scanner.rest.length
  decoded : token.kind.Decoded source token.span.start token.span.stop

theorem scanned_kindAt {scanner : Scanner} {source : Str} (same : scanner.input = source)
    (settled : scanner.skipWhitespace = scanner) : Scanned source scanner scanner.offset (kindAt unicode scanner) := by
  rw [kindAt]
  split
  · exact ⟨.refl _, fun other => absurd rfl other, trivial⟩
  · next c rest shape =>
    have step : Reaches scanner ⟨c :: scanner.before, rest⟩ := ⟨[c], shape, rfl⟩
    have progress : rest.length < scanner.rest.length := by simp [shape]
    have visible : isWhitespace c = false := by
      by_contra blank
      simp only [skipWhitespace, shape, skipWhile, Bool.not_eq_false] at settled blank
      rw [if_pos blank] at settled
      have := (reaches_skipWhile isWhitespace (c :: scanner.before) rest).length_le
      rw [settled] at this
      dsimp only at this
      omega
    split_ifs with opening closing minus double single name
    · exact ⟨step, fun _ => progress, trivial⟩
    · exact ⟨step, fun _ => progress, trivial⟩
    · exact ⟨step, fun _ => progress, trivial⟩
    · exact scanned_quoted same false
    · exact scanned_quoted same true
    · exact scanned_field same _ (Nat.zero_lt_of_lt progress)
    · refine scanned_word same _ shape ?_
      simp [endsWord, visible, opening, closing, double, single]

theorem next_reads {scanner after : Scanner} {token : Token} {source : Str} (same : scanner.input = source)
    (read : scanner.next unicode = .ok (token, after)) : Reads source scanner token after := by
  have skipped := reaches_skipWhitespace scanner
  have scanned := @scanned_kindAt unicode _ source (skipped.input_eq.trans same) scanner.skipWhitespace_idem
  rw [next] at read
  obtain ⟨⟨kind, position⟩, found, result⟩ := bind_eq_ok.mp read
  rw [found] at scanned
  cases result
  obtain ⟨reaches, progress, decoded⟩ := scanned
  exact ⟨reaches, rfl, fun other => (progress other).trans_le skipped.length_le, decoded⟩

theorem next_error {scanner : Scanner} {error : ParseError} {source : Str} (same : scanner.input = source)
    (failed : scanner.next unicode = .error error) : ValidSpan source error.span := by
  have skipped := reaches_skipWhitespace scanner
  have scanned := @scanned_kindAt unicode _ source (skipped.input_eq.trans same) scanner.skipWhitespace_idem
  rw [next] at failed
  match found : kindAt unicode scanner.skipWhitespace with
  | .ok (kind, position) =>
    simp only [found] at failed
    cases failed
  | .error error' =>
    rw [found] at scanned
    simp only [found] at failed
    cases failed
    exact scanned

namespace Reads

variable {source : Str} {scanner after : Scanner} {token : Token}

theorem advances (reads : Reads source scanner token after) : Reaches scanner after :=
  (reaches_skipWhitespace scanner).trans reads.reaches

theorem input_eq (reads : Reads source scanner token after) (same : scanner.input = source) : after.input = source :=
  reads.advances.input_eq.trans same

theorem valid (reads : Reads source scanner token after) (same : scanner.input = source) :
    ValidSpan source token.span :=
  reads.span ▸ reads.reaches.valid ((reaches_skipWhitespace scanner).input_eq.trans same)

end Reads

end Scanner

end OpenLegal.SearchQuery
