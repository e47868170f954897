import OpenLegal.SearchQuery.Tokens

/-! # Tokens are read locally

A window keeps a stretch of the source and forgets what is before and behind it. A token that ends inside
a window is read there as in the whole source: the only lookahead is for the apostrophe, and a letter or
number after one belongs to the same token.
-/

namespace OpenLegal.SearchQuery

open Rust Rust.Str

/-! ## Shifted spans -/

def ByteSpan.shiftDown (amount : ℕ) (span : ByteSpan) : ByteSpan := ⟨span.start - amount, span.stop - amount⟩

def shiftWords (amount : ℕ) (words : List (Str × ByteSpan)) : List (Str × ByteSpan) :=
  words.map fun (value, range) => (value, range.shiftDown amount)

def TokenKind.shiftDown (amount : ℕ) : TokenKind → TokenKind
  | .words pieces => .words (shiftWords amount pieces)
  | kind => kind

def Token.shiftDown (amount : ℕ) (token : Token) : Token := ⟨token.kind.shiftDown amount, token.span.shiftDown amount⟩

namespace Scanner

/-- A scanner over a window of the source, without the characters `outside` before it and `tail` behind. -/
structure Trims (outside tail : Str) (scanner window : Scanner) : Prop where
  before : scanner.before = window.before ++ outside
  rest : scanner.rest = window.rest ++ tail

variable {unicode : Unicode} {outside tail : Str}

theorem Trims.offset_eq {scanner window : Scanner} (trims : Trims outside tail scanner window) :
    scanner.offset - byteLen outside = window.offset := by
  simp [offset, trims.before]

theorem Trims.offset_ge {scanner window : Scanner} (trims : Trims outside tail scanner window) :
    byteLen outside ≤ scanner.offset := by
  simp [offset, trims.before]

/-- Text that was only read to the end of the window was not read behind it. -/
theorem not_shorter {later : Scanner} {inside : Str} (ends : later.rest = inside ++ tail) : ¬later.rest.length < tail.length := by
  rw [ends, List.length_append]
  omega

theorem trims_skipWhile {accepts : Char → Bool} {before rest inside : Str}
    (ends : (skipWhile accepts (before ++ outside) (rest ++ tail)).rest = inside ++ tail) :
    Trims outside tail (skipWhile accepts (before ++ outside) (rest ++ tail)) (skipWhile accepts before rest) := by
  induction rest generalizing before with
  | nil =>
    cases tail with
    | nil => exact ⟨rfl, rfl⟩
    | cons c tail =>
      rw [List.nil_append, skipWhile] at ends ⊢
      split_ifs at ends ⊢
      · have := (reaches_skipWhile accepts (c :: (before ++ outside)) tail).length_le
        exact absurd (Nat.lt_succ_of_le this) (not_shorter ends)
      · exact ⟨rfl, rfl⟩
  | cons c rest ih =>
    rw [List.cons_append, skipWhile, skipWhile] at *
    split_ifs at ends ⊢
    · exact @ih (c :: before) ends
    · exact ⟨rfl, rfl⟩

/-! ## Words -/

/-- An apostrophe of the window is one of the source. -/
theorem apostrophe_append {before rest : Str} (found : apostrophe unicode before rest = true) :
    apostrophe unicode (before ++ outside) (rest ++ tail) = true := by
  cases before with
  | nil => cases found
  | cons c before =>
    cases rest with
    | nil => simp [apostrophe] at found
    | cons d rest => exact found

/-- A quote that is an apostrophe only in the source has its letter behind the window. -/
theorem apostrophe_lost {before rest : Str} (nonempty : before ≠ []) (lost : apostrophe unicode before rest = false)
    (found : apostrophe unicode (before ++ outside) (rest ++ tail) = true) :
    rest = [] ∧ ∃ c behind, tail = c :: behind ∧ unicode.isAlphanumeric c = true := by
  obtain ⟨b, before, rfl⟩ := List.exists_cons_of_ne_nil nonempty
  cases rest with
  | cons d rest =>
    simp only [apostrophe, List.cons_append, List.head?_cons] at lost found
    rw [lost] at found
    cases found
  | nil =>
    cases tail with
    | nil => simp [apostrophe] at found
    | cons c behind =>
      simp only [apostrophe, List.nil_append, List.head?_cons, Bool.and_eq_true, Option.any_some] at found
      exact ⟨rfl, c, behind, rfl, found.2⟩

/-- Letters and numbers do not end a word. -/
theorem endsWord_alphanumeric {before rest : Str} {c : Char} (letter : unicode.isAlphanumeric c = true) :
    endsWord unicode before c rest = false := by
  obtain ⟨visible, notPunctuation⟩ := unicode.separated c letter
  have other (p : Char) (punctuation : isAsciiPunctuation p = true) : (c == p) = false := by
    apply beq_eq_false_iff_ne.mpr
    rintro rfl
    rw [punctuation] at notPunctuation
    cases notPunctuation
  simp [endsWord, visible, other '(' (by decide), other ')' (by decide), other '"' (by decide), other '\'' (by decide)]

theorem wordLoop_length {before rest : Str} {word result : Word} {after : Scanner}
    (ran : wordLoop unicode before rest word = .ok (result, after)) : after.rest.length ≤ rest.length := by
  induction before, rest, word using wordLoop.induct unicode with
  | case1 before word =>
    cases ran
    exact Nat.le_refl _
  | case2 before c rest word closes =>
    rw [wordLoop_ends closes] at ran
    cases ran
    exact Nat.le_refl _
  | case3 before word =>
    rw [wordLoop_trailing] at ran
    cases ran
  | case4 before word literal rest _ ih =>
    rw [wordLoop_escape] at ran
    exact (ih ran).trans ((Nat.le_succ _).trans (Nat.le_succ _))
  | case5 before c rest word inside plain stars ih =>
    rw [wordLoop_char (by simpa using inside) plain] at ran
    exact (ih ran).trans (by simp)

/-- A word loop that does not end at once makes progress. -/
theorem wordLoop_progress {before rest : Str} {c : Char} {word result : Word} {after : Scanner}
    (ran : wordLoop unicode before (c :: rest) word = .ok (result, after))
    (inside : endsWord unicode before c rest = false) : after.rest.length < (c :: rest).length := by
  by_cases escape : c = '\\'
  · subst escape
    cases rest with
    | nil =>
      rw [wordLoop_trailing] at ran
      cases ran
    | cons literal rest =>
      rw [wordLoop_escape] at ran
      have := wordLoop_length ran
      simp only [List.length_cons]
      omega
  · rw [wordLoop_char inside escape] at ran
    exact Nat.lt_succ_of_le (wordLoop_length ran)

/-- Where a word ends in the window, it ends in the source: otherwise the quote was an apostrophe, and the word
went on with a letter behind the window. -/
theorem endsWord_of_window {before rest inside : Str} {c : Char} {word result : Word} {after : Scanner}
    (ran : wordLoop unicode (before ++ outside) (c :: (rest ++ tail)) word = .ok (result, after))
    (ends : after.rest = inside ++ tail) (starts : before ≠ [] ∨ c ≠ '\'')
    (closes : endsWord unicode before c rest = true) : endsWord unicode (before ++ outside) c (rest ++ tail) = true := by
  by_contra goesOn
  rw [Bool.not_eq_true] at goesOn
  have quote : c = '\'' ∧ apostrophe unicode before rest = false ∧
      apostrophe unicode (before ++ outside) (rest ++ tail) = true := by
    simp only [endsWord, Bool.or_eq_false_iff, Bool.and_eq_false_iff, Bool.not_eq_false'] at goesOn
    obtain ⟨fixed, quote⟩ := goesOn
    simp only [endsWord, fixed, Bool.false_or, Bool.and_eq_true, beq_iff_eq, Bool.not_eq_true'] at closes
    exact ⟨closes.1, closes.2, quote.resolve_left (by simp [closes.1])⟩
  obtain ⟨rfl, lost, found⟩ := quote
  obtain ⟨rfl, d, behind, rfl, letter⟩ := apostrophe_lost (starts.resolve_right (not_not.mpr rfl)) lost found
  rw [wordLoop_char goesOn (by decide)] at ran
  have := wordLoop_progress ran (endsWord_alphanumeric letter)
  exact not_shorter ends this

/-- A word that ends inside the window. Its first character is not a quote, so what is before the window
does not matter. -/
theorem wordLoop_trims {before rest inside : Str} {current result : Word} {after : Scanner}
    (ran : wordLoop unicode (before ++ outside) (rest ++ tail) current = .ok (result, after))
    (ends : after.rest = inside ++ tail) (starts : before ≠ [] ∨ rest.head? ≠ some '\'') :
    ∃ place, wordLoop unicode before rest current = .ok (result, place) ∧ Trims outside tail after place := by
  induction before, rest, current using wordLoop.induct unicode with
  | case1 before current =>
    cases tail with
    | nil =>
      cases ran
      exact ⟨_, rfl, rfl, rfl⟩
    | cons c behind =>
      have closes : endsWord unicode (before ++ outside) c behind = true := by
        by_contra goesOn
        exact not_shorter ends (wordLoop_progress ran (by simpa using goesOn))
      rw [List.nil_append, wordLoop_ends closes] at ran
      cases ran
      exact ⟨_, rfl, rfl, rfl⟩
  | case2 before c rest current closes =>
    have same := endsWord_of_window ran ends (starts.imp_right fun other => by simpa using other) closes
    rw [List.cons_append, wordLoop_ends same] at ran
    cases ran
    exact ⟨⟨before, c :: rest⟩, wordLoop_ends closes _, rfl, rfl⟩
  | case3 before current =>
    cases tail with
    | nil =>
      rw [List.append_nil, wordLoop_trailing] at ran
      cases ran
    | cons literal behind =>
      rw [List.cons_append, List.nil_append, wordLoop_escape] at ran
      exact absurd (Nat.lt_succ_of_le (wordLoop_length ran)) (not_shorter ends)
  | case4 before current literal rest _ ih =>
    rw [List.cons_append, List.cons_append, wordLoop_escape] at ran
    obtain ⟨place, ran, trims⟩ := ih ran (.inl (List.cons_ne_nil _ _))
    exact ⟨place, by rw [wordLoop_escape, ran], trims⟩
  | case5 before c rest current goesOn plain stars ih =>
    have window : endsWord unicode before c rest = false := by simpa using goesOn
    have same : endsWord unicode (before ++ outside) c (rest ++ tail) = false := by
      simp only [endsWord, Bool.or_eq_false_iff, Bool.and_eq_false_iff, Bool.not_eq_false'] at window ⊢
      exact ⟨window.1, window.2.imp_right apostrophe_append⟩
    rw [List.cons_append, wordLoop_char same plain] at ran
    obtain ⟨place, ran, trims⟩ := ih ran (.inl (List.cons_ne_nil _ _))
    exact ⟨place, by rw [wordLoop_char window plain, ran], trims⟩

/-! ## Quotes -/

/-- A quote that ends was closed, behind something that was read. -/
theorem quotedLoop_closes {single : Bool} {start : ℕ} {before rest value : Str} {words : List (Str × ByteSpan)}
    {wordStart : ℕ} {kind : TokenKind} {after : Scanner}
    (ran : quotedLoop unicode single start before rest value words wordStart = .ok (kind, after)) :
    after.rest.length < rest.length ∧ ∃ value words span, closeQuote single value words span = .ok kind := by
  induction before, rest, value, words, wordStart using quotedLoop.induct unicode single with
  | case1 => cases ran
  | case2 before c rest value words wordStart closes =>
    unfold quotedLoop at ran
    rw [if_pos closes] at ran
    obtain ⟨_, closed, same⟩ := bind_eq_ok.mp ran
    cases same
    exact ⟨Nat.lt_succ_self _, _, _, _, closed⟩
  | case3 before c rest value words wordStart opens blank ih =>
    unfold quotedLoop at ran
    rw [if_neg opens, if_pos blank] at ran
    exact (ih ran).imp_left fun fewer => fewer.trans (Nat.lt_succ_self _)
  | case4 before value words wordStart blank opens =>
    unfold quotedLoop at ran
    rw [if_neg opens, if_neg blank] at ran
    cases ran
  | case5 before value words wordStart wordStart' literal rest blank opens ih =>
    unfold quotedLoop at ran
    rw [if_neg opens, if_neg blank] at ran
    exact (ih ran).imp_left fun fewer => fewer.trans ((Nat.lt_succ_self _).trans (Nat.lt_succ_self _))
  | case6 before c rest value words wordStart opens blank wordStart' plain ih =>
    unfold quotedLoop at ran
    rw [if_neg opens, if_neg blank] at ran
    dsimp only at ran
    rw [if_neg plain] at ran
    exact (ih ran).imp_left fun fewer => fewer.trans (Nat.lt_succ_self _)

theorem shiftWords_pushWord (amount : ℕ) (words : List (Str × ByteSpan)) (value : Str) (span : ByteSpan) :
    shiftWords amount (pushWord words value span) = pushWord (shiftWords amount words) value (span.shiftDown amount) := by
  simp only [pushWord]
  split_ifs
  · rfl
  · simp [shiftWords]

theorem closeQuote_shiftDown {single : Bool} {value : Str} {words : List (Str × ByteSpan)} {span : ByteSpan}
    {kind : TokenKind} (closed : closeQuote single value words span = .ok kind) (amount : ℕ) (other : ByteSpan) :
    closeQuote single value (shiftWords amount words) other = .ok (kind.shiftDown amount) := by
  rw [closeQuote] at *
  split_ifs at closed with quotes empty empty
  · cases closed
    rw [if_pos quotes, if_neg (by simpa [shiftWords] using empty)]
    rfl
  · cases closed
    rw [if_neg quotes, if_neg empty]
    rfl

/-- The condition on which a quote closes. -/
theorem closes_iff_window {single : Bool} {start : ℕ} {before rest value inside : Str} {c : Char}
    {words : List (Str × ByteSpan)} {wordStart : ℕ} {kind : TokenKind} {after : Scanner} (nonempty : before ≠ [])
    (ran : quotedLoop unicode single start (before ++ outside) (c :: (rest ++ tail)) value words wordStart =
      .ok (kind, after))
    (ends : after.rest = inside ++ tail) :
    (c == delimiter single && !(single && apostrophe unicode (before ++ outside) (rest ++ tail))) =
      (c == delimiter single && !(single && apostrophe unicode before rest)) := by
  by_cases window : apostrophe unicode before rest = true
  · rw [window, apostrophe_append window]
  · rw [Bool.not_eq_true] at window
    by_cases found : apostrophe unicode (before ++ outside) (rest ++ tail) = true
    · -- The quote goes on behind the window, which contradicts that the token ends inside.
      obtain ⟨rfl, d, behind, rfl, -⟩ := apostrophe_lost nonempty window found
      by_contra differs
      have quote : single = true ∧ c = '\'' := by
        rw [window, found] at differs
        cases single with
        | false => exact absurd rfl differs
        | true => exact ⟨rfl, by simpa [delimiter] using differs⟩
      obtain ⟨rfl, rfl⟩ := quote
      have visible : isWhitespace '\'' = false := by decide +kernel
      unfold quotedLoop at ran
      rw [if_neg (by rw [found]; simp), if_neg (by simp [visible])] at ran
      dsimp only at ran
      rw [if_neg (by decide)] at ran
      exact not_shorter ends (quotedLoop_closes ran).1
    · rw [Bool.not_eq_true] at found
      rw [window, found]

/-- A quoted token that ends inside the window; its opening quote is inside, too. -/
theorem quotedLoop_trims {single : Bool} {start : ℕ} {before rest value inside : Str} {words shifted : List (Str × ByteSpan)}
    {wordStart shiftedStart : ℕ} {kind : TokenKind} {after : Scanner} (nonempty : before ≠ [])
    (same : shifted = shiftWords (byteLen outside) words) (place : shiftedStart = wordStart - byteLen outside)
    (ran : quotedLoop unicode single start (before ++ outside) (rest ++ tail) value words wordStart = .ok (kind, after))
    (ends : after.rest = inside ++ tail) :
    ∃ place, quotedLoop unicode single (start - byteLen outside) before rest value shifted shiftedStart =
        .ok (kind.shiftDown (byteLen outside), place) ∧ Trims outside tail after place := by
  have offset (before : Str) : byteLen before = byteLen (before ++ outside) - byteLen outside := by simp
  have start_eq {shiftedStart wordStart : ℕ} (place : shiftedStart = wordStart - byteLen outside) (before value : Str) :
      (if value.isEmpty then byteLen before else shiftedStart) =
        (if value.isEmpty then byteLen (before ++ outside) else wordStart) - byteLen outside := by
    split_ifs
    · exact offset before
    · exact place
  induction before, rest, value, shifted, shiftedStart using quotedLoop.induct unicode single generalizing words wordStart with
  | case1 before value shifted shiftedStart => exact absurd (quotedLoop_closes ran).1 (not_shorter ends)
  | case2 before c rest value shifted shiftedStart closes =>
    have closing := (closes_iff_window nonempty ran ends).trans closes
    rw [List.cons_append] at ran
    unfold quotedLoop at ran ⊢
    rw [if_pos closing] at ran
    rw [if_pos closes]
    obtain ⟨kind, closed, result⟩ := bind_eq_ok.mp ran
    cases result
    have pushed : (if single then pushWord shifted value ⟨shiftedStart, byteLen before⟩ else shifted) =
        shiftWords (byteLen outside)
          (if single then pushWord words value ⟨wordStart, byteLen (before ++ outside)⟩ else words) := by
      split_ifs
      · rw [shiftWords_pushWord, ByteSpan.shiftDown, ← offset, same, place]
      · exact same
    dsimp only
    rw [pushed, closeQuote_shiftDown closed]
    exact ⟨_, rfl, rfl, rfl⟩
  | case3 before c rest value shifted shiftedStart opens blank ih =>
    have opening : ¬(c == delimiter single && !(single && apostrophe unicode (before ++ outside) (rest ++ tail))) = true := by
      rw [closes_iff_window nonempty ran ends]
      exact opens
    rw [List.cons_append] at ran
    unfold quotedLoop at ran ⊢
    rw [if_neg opening, if_pos blank] at ran
    rw [if_neg opens, if_pos blank]
    refine ih (List.cons_ne_nil _ _) ?_ (offset (c :: before)) ran
    rw [shiftWords_pushWord, ByteSpan.shiftDown, ← offset, same, place]
  | case4 before value shifted shiftedStart blank opens =>
    have opening : ¬('\\' == delimiter single && !(single && apostrophe unicode (before ++ outside) ([] ++ tail))) = true := by
      rw [closes_iff_window nonempty ran ends]
      exact opens
    rw [List.cons_append] at ran
    unfold quotedLoop at ran
    rw [if_neg opening, if_neg blank] at ran
    cases tail with
    | nil => cases ran
    | cons literal behind => exact absurd ((quotedLoop_closes ran).1.trans (Nat.lt_succ_self _)) (not_shorter ends)
  | case5 before value shifted shiftedStart start' literal rest blank opens =>
    rename_i ih
    have opening : ¬('\\' == delimiter single &&
        !(single && apostrophe unicode (before ++ outside) (literal :: rest ++ tail))) = true := by
      rw [closes_iff_window nonempty ran ends]
      exact opens
    rw [List.cons_append] at ran
    unfold quotedLoop at ran ⊢
    rw [if_neg opening, if_neg blank] at ran
    rw [if_neg opens, if_neg blank]
    exact ih (List.cons_ne_nil _ _) same (start_eq place before value) ran
  | case6 before c rest value shifted shiftedStart opens blank start' plain =>
    rename_i ih
    have opening : ¬(c == delimiter single && !(single && apostrophe unicode (before ++ outside) (rest ++ tail))) = true := by
      rw [closes_iff_window nonempty ran ends]
      exact opens
    rw [List.cons_append] at ran
    unfold quotedLoop at ran ⊢
    rw [if_neg opening, if_neg blank] at ran
    rw [if_neg opens, if_neg blank]
    dsimp only at ran ⊢
    rw [if_neg plain] at ran ⊢
    exact ih (List.cons_ne_nil _ _) same (start_eq place before value) ran

/-! ## Fields -/

theorem field_eq {before more : Str} : field ⟨before, 'i' :: 'n' :: ':' :: more⟩ =
    match (skipWhile isNameChar (':' :: 'n' :: 'i' :: before) more).rest with
    | ':' :: rest =>
      if validField (more.takeWhile isNameChar) then
        .ok (.field (more.takeWhile isNameChar),
          ⟨':' :: (skipWhile isNameChar (':' :: 'n' :: 'i' :: before) more).before, rest⟩)
      else .error ⟨.invalidFieldSyntax,
        ⟨byteLen before, (skipWhile isNameChar (':' :: 'n' :: 'i' :: before) more).offset⟩⟩
    | _ => .error ⟨.invalidFieldSyntax,
        ⟨byteLen before, (skipWhile isNameChar (':' :: 'n' :: 'i' :: before) more).offset⟩⟩ := rfl

theorem field_progress {before more : Str} {kind : TokenKind} {after : Scanner}
    (ran : field ⟨before, 'i' :: 'n' :: ':' :: more⟩ = .ok (kind, after)) : after.rest.length < more.length := by
  rw [field_eq] at ran
  have bound := (reaches_skipWhile isNameChar (':' :: 'n' :: 'i' :: before) more).length_le
  split at ran
  · next rest shape =>
    split_ifs at ran
    cases ran
    rw [shape] at bound
    exact bound
  · cases ran

theorem field_trims {before more inside : Str} {kind : TokenKind} {after : Scanner}
    (ran : field ⟨before ++ outside, 'i' :: 'n' :: ':' :: (more ++ tail)⟩ = .ok (kind, after))
    (ends : after.rest = inside ++ tail) :
    ∃ place, field ⟨before, 'i' :: 'n' :: ':' :: more⟩ = .ok (kind.shiftDown (byteLen outside), place) ∧
      Trims outside tail after place := by
  rw [field_eq] at ran
  split at ran
  · next rest shape =>
    split_ifs at ran with valid
    cases ran
    obtain rfl : rest = inside ++ tail := ends
    have trims := @trims_skipWhile outside tail isNameChar (':' :: 'n' :: 'i' :: before) more (':' :: inside) shape
    have window : (skipWhile isNameChar (':' :: 'n' :: 'i' :: before) more).rest = ':' :: inside := by
      have joined := trims.rest
      rw [show (':' :: 'n' :: 'i' :: before) ++ outside = ':' :: 'n' :: 'i' :: (before ++ outside) from rfl, shape] at joined
      exact (List.append_cancel_right joined).symm
    have name : (more ++ tail).takeWhile isNameChar = more.takeWhile isNameChar := by
      have front := trims.before
      rw [skipWhile_eq, skipWhile_eq, List.append_assoc] at front
      exact List.reverse_injective (List.append_cancel_right front)
    rw [field_eq, window]
    rw [name] at valid ⊢
    refine ⟨⟨':' :: (skipWhile isNameChar (':' :: 'n' :: 'i' :: before) more).before, inside⟩, ?_,
      congrArg (':' :: ·) trims.before, rfl⟩
    split
    · next rest same =>
      cases same
      rw [if_pos valid]
      rfl
    · next other => exact absurd rfl (other inside)
  · cases ran

/-! ## Tokens -/

/-- Every token other than the end makes progress. -/
theorem kindAt_progress {before rest : Str} {c : Char} {kind : TokenKind} {after : Scanner}
    (ran : kindAt unicode ⟨before, c :: rest⟩ = .ok (kind, after)) (visible : isWhitespace c = false) :
    after.rest.length < (c :: rest).length := by
  simp only [kindAt] at ran
  split_ifs at ran with opening closing minus double single name
  · cases ran
    exact Nat.lt_succ_self _
  · cases ran
    exact Nat.lt_succ_self _
  · cases ran
    exact Nat.lt_succ_self _
  · exact (quotedLoop_closes ran).1.trans (Nat.lt_succ_self _)
  · exact (quotedLoop_closes ran).1.trans (Nat.lt_succ_self _)
  · obtain ⟨more, shape⟩ := List.isPrefixOf_iff_prefix.mp name
    have longer : more.length < (c :: rest).length := by
      rw [← shape, List.length_append]
      exact Nat.lt_add_of_pos_left (by decide)
    rw [← shape] at ran
    exact (field_progress ran).trans longer
  · obtain ⟨⟨word, last⟩, looped, ran⟩ := bind_eq_ok.mp ran
    obtain ⟨_, -, same⟩ := bind_eq_ok.mp ran
    cases same
    exact wordLoop_progress looped (by simp [endsWord, visible, opening, closing, double, single])

theorem classify_shiftDown {word : Word} {span other : ByteSpan} {kind : TokenKind}
    (classified : classify word span = .ok kind) (amount : ℕ) : classify word other = .ok (kind.shiftDown amount) := by
  simp only [classify] at classified ⊢
  split at classified
  · split_ifs at classified ⊢
    all_goals
      cases classified
      rfl
  · split_ifs at classified ⊢
    cases classified
    rfl
  · cases classified

theorem quoted_eq (single : Bool) (before rest : Str) (c : Char) : quoted unicode single ⟨before, c :: rest⟩ =
    quotedLoop unicode single (byteLen before) (c :: before) rest [] [] (byteLen (c :: before)) := rfl

theorem kindAt_trims {before rest inside : Str} {c : Char} {kind : TokenKind} {after : Scanner}
    (ran : kindAt unicode ⟨before ++ outside, c :: (rest ++ tail)⟩ = .ok (kind, after)) (ends : after.rest = inside ++ tail) :
    ∃ place, kindAt unicode ⟨before, c :: rest⟩ = .ok (kind.shiftDown (byteLen outside), place) ∧
      Trims outside tail after place := by
  have offset : byteLen before = byteLen (before ++ outside) - byteLen outside := by simp
  simp only [kindAt] at ran ⊢
  split_ifs at ran with opening closing minus double single name
  · cases ran
    exact ⟨_, by rw [if_pos opening]; rfl, rfl, rfl⟩
  · cases ran
    exact ⟨_, by rw [if_neg opening, if_pos closing]; rfl, rfl, rfl⟩
  · cases ran
    exact ⟨_, by rw [if_neg opening, if_neg closing, if_pos minus]; rfl, rfl, rfl⟩
  · rw [if_neg opening, if_neg closing, if_neg minus, if_pos double]
    have step : byteLen (c :: before) = byteLen (c :: (before ++ outside)) - byteLen outside := by simp; omega
    obtain ⟨place, window, trims⟩ := quotedLoop_trims (List.cons_ne_nil c before) rfl step ran ends
    rw [quoted_eq, offset]
    exact ⟨place, window, trims⟩
  · rw [if_neg opening, if_neg closing, if_neg minus, if_neg double, if_pos single]
    have step : byteLen (c :: before) = byteLen (c :: (before ++ outside)) - byteLen outside := by simp; omega
    obtain ⟨place, window, trims⟩ := quotedLoop_trims (List.cons_ne_nil c before) rfl step ran ends
    rw [quoted_eq, offset]
    exact ⟨place, window, trims⟩
  · rw [if_neg opening, if_neg closing, if_neg minus, if_neg double, if_neg single]
    obtain ⟨more, shape⟩ := List.isPrefixOf_iff_prefix.mp name
    rw [← shape] at ran
    have progress : after.rest.length < more.length := field_progress ran
    obtain ⟨missing, -, behind⟩ | ⟨more', window, rfl⟩ :=
      List.append_eq_append_iff.mp (show (c :: rest) ++ tail = ['i', 'n', ':'] ++ more from shape.symm)
    · rw [behind] at ends
      rw [ends] at progress
      simp only [List.length_append] at progress
      omega
    · obtain ⟨place, found, trims⟩ := @field_trims outside tail before more' inside kind after ran ends
      rw [if_pos (List.isPrefixOf_iff_prefix.mpr ⟨more', window.symm⟩), window]
      exact ⟨place, found, trims⟩
  · have other : ¬['i', 'n', ':'].isPrefixOf (c :: rest) = true := by
      intro found
      obtain ⟨more, shape⟩ := List.isPrefixOf_iff_prefix.mp found
      refine name (List.isPrefixOf_iff_prefix.mpr ⟨more ++ tail, ?_⟩)
      rw [← List.append_assoc, shape]
      rfl
    rw [if_neg opening, if_neg closing, if_neg minus, if_neg double, if_neg single, if_neg other]
    obtain ⟨⟨word, last⟩, looped, ran⟩ := bind_eq_ok.mp ran
    obtain ⟨found, classified, same⟩ := bind_eq_ok.mp ran
    cases same
    obtain ⟨place, window, trims⟩ := @wordLoop_trims unicode outside tail before (c :: rest) inside _ _ _ looped ends
      (.inr (by simpa using single))
    refine ⟨place, ?_, trims⟩
    rw [Scanner.word, window, ok_bind]
    dsimp only
    rw [classify_shiftDown classified (byteLen outside), ok_bind]
    rfl

theorem visible_after_skip {scanner : Scanner} {c : Char} {rest : Str} (shape : scanner.skipWhitespace.rest = c :: rest) :
    isWhitespace c = false := by
  rw [skipWhitespace, skipWhile_eq] at shape
  have first := List.head?_dropWhile_not isWhitespace scanner.rest
  rw [show scanner.rest.dropWhile isWhitespace = c :: rest from shape] at first
  exact first

/-- A token that ends inside the window is read there, shifted. -/
theorem next_trims {scanner window after : Scanner} {token : Token} {inside : Str}
    (read : scanner.next unicode = .ok (token, after)) (trims : Trims outside tail scanner window)
    (ends : after.rest = inside ++ tail) :
    ∃ place, window.next unicode = .ok (token.shiftDown (byteLen outside), place) ∧ Trims outside tail after place := by
  have reads := next_reads rfl read
  rw [next] at read
  obtain ⟨⟨kind, last⟩, found, result⟩ := bind_eq_ok.mp read
  cases result
  have skipped : Trims outside tail scanner.skipWhitespace window.skipWhitespace := by
    obtain ⟨consumed, rest, -⟩ := reads.reaches
    obtain ⟨before, rest'⟩ := scanner
    obtain ⟨rfl, rfl⟩ := trims
    exact @trims_skipWhile outside tail isWhitespace window.before window.rest (consumed ++ inside)
      (rest.trans (by rw [ends, List.append_assoc]))
  have start := skipped.offset_eq
  obtain ⟨place, kindRead, trimmed⟩ : ∃ place, kindAt unicode window.skipWhitespace =
      .ok (kind.shiftDown (byteLen outside), place) ∧ Trims outside tail after place := by
    have visible := @visible_after_skip scanner
    generalize scanner.skipWhitespace = first at *
    generalize window.skipWhitespace = view at *
    obtain ⟨before, rest⟩ := first
    obtain ⟨before', rest'⟩ := view
    obtain ⟨rfl, rfl⟩ := skipped
    cases rest' with
    | cons c rest' => exact kindAt_trims found ends
    | nil =>
      cases tail with
      | nil =>
        cases found
        exact ⟨_, rfl, rfl, rfl⟩
      | cons c behind => exact absurd (kindAt_progress found (visible rfl)) (not_shorter ends)
  refine ⟨place, ?_, trimmed⟩
  rw [next, kindRead, ok_bind]
  dsimp only
  rw [← start, ← trimmed.offset_eq]
  rfl

end Scanner

end OpenLegal.SearchQuery
