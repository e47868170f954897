import OpenLegal.SearchQuery.Locality

/-! # Tokens in a wider text

A token that a window ends or white space follows is read the same when there is more text before the window, and
nothing or white space behind it. This is the converse of reading a token of the source in a window.
-/

namespace OpenLegal.SearchQuery

open Rust Rust.Str

namespace Scanner

/-- Nothing, or text that begins with white space. -/
def Blank (tail : Str) : Prop := ∀ c ∈ tail.head?, isWhitespace c = true

variable {unicode : Unicode} {outside tail : Str}

/-! ## Words -/

theorem apostrophe_widens {before : Str} (nonempty : before ≠ []) (blank : Blank tail) (rest : Str) :
    apostrophe unicode (before ++ outside) (rest ++ tail) = apostrophe unicode before rest := by
  obtain ⟨b, before, rfl⟩ := List.exists_cons_of_ne_nil nonempty
  cases rest with
  | cons d rest => rfl
  | nil =>
    cases tail with
    | nil => rfl
    | cons c behind =>
      have visible : unicode.isAlphanumeric c = false := by
        by_contra letter
        have white := blank c rfl
        rw [(unicode.separated c (by simpa using letter)).1] at white
        cases white
      simp [apostrophe, visible]

theorem endsWord_widens {before rest : Str} {c : Char} (blank : Blank tail) (starts : before ≠ [] ∨ c ≠ '\'') :
    endsWord unicode (before ++ outside) c (rest ++ tail) = endsWord unicode before c rest := by
  by_cases quote : c = '\''
  · have nonempty := starts.resolve_right (not_not.mpr quote)
    rw [endsWord, endsWord, apostrophe_widens nonempty blank]
  · have other : (c == '\'') = false := beq_eq_false_iff_ne.mpr quote
    rw [endsWord, endsWord, other, Bool.false_and, Bool.false_and]

theorem wordLoop_widens {before rest : Str} {current result : Word} {place : Scanner}
    (ran : wordLoop unicode before rest current = .ok (result, place)) (blank : Blank tail)
    (starts : before ≠ [] ∨ rest.head? ≠ some '\'') :
    wordLoop unicode (before ++ outside) (rest ++ tail) current =
      .ok (result, ⟨place.before ++ outside, place.rest ++ tail⟩) := by
  induction before, rest, current using wordLoop.induct unicode with
  | case1 before current =>
    cases ran
    cases tail with
    | nil => rfl
    | cons c behind =>
      have closes : endsWord unicode (before ++ outside) c behind = true := by
        rw [endsWord, blank c rfl]
        rfl
      rw [List.nil_append, wordLoop_ends closes]
  | case2 before c rest current closes =>
    rw [wordLoop_ends closes] at ran
    cases ran
    have same := (@endsWord_widens unicode outside tail before rest c blank
      (starts.imp_right fun other => by simpa using other)).trans closes
    rw [List.cons_append, wordLoop_ends same]
  | case3 before current =>
    rw [wordLoop_trailing] at ran
    cases ran
  | case4 before current literal rest _ ih =>
    rw [wordLoop_escape] at ran
    rw [List.cons_append, List.cons_append, wordLoop_escape]
    exact ih ran (.inl (List.cons_ne_nil _ _))
  | case5 before c rest current goesOn plain stars ih =>
    have window : endsWord unicode before c rest = false := by simpa using goesOn
    have same := (@endsWord_widens unicode outside tail before rest c blank
      (starts.imp_right fun other => by simpa using other)).trans window
    rw [wordLoop_char window plain] at ran
    rw [List.cons_append, wordLoop_char same plain]
    exact ih ran (.inl (List.cons_ne_nil _ _))

/-! ## Quotes -/

theorem closeQuote_widens {single : Bool} {value : Str} {words : List (Str × ByteSpan)} {span : ByteSpan}
    {kind : TokenKind} {amount : ℕ} (closed : closeQuote single value (shiftWords amount words) span = .ok kind)
    (other : ByteSpan) :
    ∃ kind', closeQuote single value words other = .ok kind' ∧ kind = kind'.shiftDown amount := by
  rw [closeQuote] at *
  split_ifs at closed with quotes empty empty
  · cases closed
    have some : words.isEmpty = false := by simpa [shiftWords] using empty
    rw [if_pos quotes, some]
    exact ⟨.words words, rfl, rfl⟩
  · cases closed
    rw [if_neg quotes, if_neg empty]
    exact ⟨.exact value, rfl, rfl⟩

theorem quotedLoop_widens {single : Bool} {start wide : ℕ} {before rest value : Str} {words shifted : List (Str × ByteSpan)}
    {wordStart shiftedStart : ℕ} {kind : TokenKind} {place : Scanner} (nonempty : before ≠ []) (blank : Blank tail)
    (same : shifted = shiftWords (byteLen outside) words) (begins : shiftedStart = wordStart - byteLen outside)
    (ran : quotedLoop unicode single start before rest value shifted shiftedStart = .ok (kind, place)) :
    ∃ kind', quotedLoop unicode single wide (before ++ outside) (rest ++ tail) value words wordStart =
        .ok (kind', ⟨place.before ++ outside, place.rest ++ tail⟩) ∧ kind = kind'.shiftDown (byteLen outside) := by
  have offset (before : Str) : byteLen before = byteLen (before ++ outside) - byteLen outside := by simp
  have start_eq {shiftedStart wordStart : ℕ} (begins : shiftedStart = wordStart - byteLen outside) (before value : Str) :
      (if value.isEmpty then byteLen before else shiftedStart) =
        (if value.isEmpty then byteLen (before ++ outside) else wordStart) - byteLen outside := by
    split_ifs
    · exact offset before
    · exact begins
  induction before, rest, value, shifted, shiftedStart using quotedLoop.induct unicode single generalizing words wordStart with
  | case1 => cases ran
  | case2 before c rest value shifted shiftedStart closes =>
    have closing := closes
    rw [← @apostrophe_widens unicode outside tail before nonempty blank rest] at closing
    rw [List.cons_append]
    unfold quotedLoop at ran ⊢
    rw [if_pos closes] at ran
    rw [if_pos closing]
    obtain ⟨found, closed, result⟩ := bind_eq_ok.mp ran
    cases result
    have pushed : (if single then pushWord shifted value ⟨shiftedStart, byteLen before⟩ else shifted) =
        shiftWords (byteLen outside)
          (if single then pushWord words value ⟨wordStart, byteLen (before ++ outside)⟩ else words) := by
      split_ifs
      · rw [shiftWords_pushWord, ByteSpan.shiftDown, ← offset, same, begins]
      · exact same
    dsimp only at closed ⊢
    rw [pushed] at closed
    obtain ⟨kind', wider, shape⟩ := closeQuote_widens closed ⟨wide, byteLen (c :: (before ++ outside))⟩
    rw [wider, ok_bind]
    exact ⟨kind', rfl, shape⟩
  | case3 before c rest value shifted shiftedStart opens white ih =>
    have opening := opens
    rw [← @apostrophe_widens unicode outside tail before nonempty blank rest] at opening
    rw [List.cons_append]
    unfold quotedLoop at ran ⊢
    rw [if_neg opens, if_pos white] at ran
    rw [if_neg opening, if_pos white]
    refine ih (List.cons_ne_nil _ _) ?_ (offset (c :: before)) ran
    rw [shiftWords_pushWord, ByteSpan.shiftDown, ← offset, same, begins]
  | case4 before value shifted shiftedStart white opens =>
    unfold quotedLoop at ran
    rw [if_neg opens, if_neg white] at ran
    cases ran
  | case5 before value shifted shiftedStart start' literal rest white opens =>
    rename_i ih
    have opening := opens
    rw [← @apostrophe_widens unicode outside tail before nonempty blank (literal :: rest)] at opening
    rw [List.cons_append, List.cons_append]
    unfold quotedLoop at ran ⊢
    rw [if_neg opens, if_neg white] at ran
    rw [List.cons_append] at opening
    rw [if_neg opening, if_neg white]
    exact ih (List.cons_ne_nil _ _) same (start_eq begins before value) ran
  | case6 before c rest value shifted shiftedStart opens white start' plain =>
    rename_i ih
    have opening := opens
    rw [← @apostrophe_widens unicode outside tail before nonempty blank rest] at opening
    rw [List.cons_append]
    unfold quotedLoop at ran ⊢
    rw [if_neg opens, if_neg white] at ran
    rw [if_neg opening, if_neg white]
    dsimp only at ran ⊢
    rw [if_neg plain] at ran ⊢
    exact ih (List.cons_ne_nil _ _) same (start_eq begins before value) ran

/-! ## Fields -/

theorem field_widens {before more : Str} {kind : TokenKind} {place : Scanner}
    (ran : field ⟨before, 'i' :: 'n' :: ':' :: more⟩ = .ok (kind, place)) :
    field ⟨before ++ outside, 'i' :: 'n' :: ':' :: (more ++ tail)⟩ =
        .ok (kind, ⟨place.before ++ outside, place.rest ++ tail⟩) ∧ kind = kind.shiftDown (byteLen outside) := by
  rw [field_eq, skipWhile_eq] at ran
  dsimp only at ran
  split at ran
  · next rest shape =>
    split_ifs at ran with valid
    cases ran
    -- the name ends at its colon, so the text behind it is not read
    have name : (more ++ tail).takeWhile isNameChar = more.takeWhile isNameChar := by
      rw [List.takeWhile_append, if_neg]
      intro all
      have whole := congrArg List.length (@List.takeWhile_append_dropWhile _ isNameChar more)
      rw [List.length_append, shape, List.length_cons] at whole
      omega
    have behind : (more ++ tail).dropWhile isNameChar = ':' :: (rest ++ tail) := by
      have split := @List.takeWhile_append_dropWhile _ isNameChar (more ++ tail)
      have whole := @List.takeWhile_append_dropWhile _ isNameChar more
      rw [name] at split
      rw [shape] at whole
      apply List.append_cancel_left
      rw [split, ← List.cons_append, ← List.append_assoc, whole]
    rw [field_eq, skipWhile_eq, behind, name]
    refine ⟨?_, rfl⟩
    split
    · next rest' same =>
      cases same
      rw [if_pos valid]
      simp
    · next other => exact absurd rfl (other (rest ++ tail))
  · cases ran

/-! ## Tokens -/

theorem kindAt_widens {before rest : Str} {c : Char} {kind : TokenKind} {place : Scanner}
    (ran : kindAt unicode ⟨before, c :: rest⟩ = .ok (kind, place)) (blank : Blank tail) :
    ∃ kind', kindAt unicode ⟨before ++ outside, c :: (rest ++ tail)⟩ =
        .ok (kind', ⟨place.before ++ outside, place.rest ++ tail⟩) ∧ kind = kind'.shiftDown (byteLen outside) := by
  simp only [kindAt] at ran ⊢
  split_ifs at ran with opening closing minus double single name
  · cases ran
    exact ⟨_, by rw [if_pos opening]; rfl, rfl⟩
  · cases ran
    exact ⟨_, by rw [if_neg opening, if_pos closing]; rfl, rfl⟩
  · cases ran
    exact ⟨_, by rw [if_neg opening, if_neg closing, if_pos minus]; rfl, rfl⟩
  · rw [if_neg opening, if_neg closing, if_neg minus, if_pos double]
    have step : byteLen (c :: before) = byteLen (c :: (before ++ outside)) - byteLen outside := by simp; omega
    exact quotedLoop_widens (List.cons_ne_nil c before) blank rfl step ran
  · rw [if_neg opening, if_neg closing, if_neg minus, if_neg double, if_pos single]
    have step : byteLen (c :: before) = byteLen (c :: (before ++ outside)) - byteLen outside := by simp; omega
    exact quotedLoop_widens (List.cons_ne_nil c before) blank rfl step ran
  · rw [if_neg opening, if_neg closing, if_neg minus, if_neg double, if_neg single]
    obtain ⟨more, shape⟩ := List.isPrefixOf_iff_prefix.mp name
    obtain ⟨found, same⟩ := @field_widens outside tail before more kind place (by rw [← shape] at ran; exact ran)
    have wide : c :: (rest ++ tail) = 'i' :: 'n' :: ':' :: (more ++ tail) := by
      rw [← List.cons_append, ← shape]
      rfl
    rw [wide, if_pos (by rfl)]
    exact ⟨kind, found, same⟩
  · have other : ¬['i', 'n', ':'].isPrefixOf (c :: (rest ++ tail)) = true := by
      intro found
      obtain ⟨more, shape⟩ := List.isPrefixOf_iff_prefix.mp found
      have visible (white : isWhitespace 'n' = true ∨ isWhitespace ':' = true) : False := by
        rcases white with white | white
        · exact absurd white (by decide +kernel)
        · exact absurd white (by decide +kernel)
      rcases rest with _ | ⟨d, _ | ⟨e, rest⟩⟩
      · cases tail with
        | nil => cases shape
        | cons d behind =>
          cases shape
          exact visible (.inl (blank _ rfl))
      · cases tail with
        | nil => cases shape
        | cons e behind =>
          cases shape
          exact visible (.inr (blank _ rfl))
      · cases shape
        exact name rfl
    rw [if_neg opening, if_neg closing, if_neg minus, if_neg double, if_neg single, if_neg other]
    obtain ⟨⟨word, last⟩, looped, ran⟩ := bind_eq_ok.mp ran
    obtain ⟨found, classified, same⟩ := bind_eq_ok.mp ran
    cases same
    have wider := @wordLoop_widens unicode outside tail before (c :: rest) _ _ _ looped blank (.inr (by simpa using single))
    rw [Scanner.word]
    rw [List.cons_append] at wider
    rw [wider, ok_bind]
    dsimp only
    have plain := Except.ok.inj (classified.symm.trans (classify_shiftDown classified (byteLen outside)))
    rw [classify_shiftDown classified (byteLen outside), ← plain, ok_bind]
    exact ⟨kind, rfl, plain⟩

/-- A token that a window ends or white space follows is read in the wider text, too. -/
theorem next_widens {scanner window place : Scanner} {token : Token} (read : window.next unicode = .ok (token, place))
    (trims : Trims outside tail scanner window) (blank : Blank tail) (more : token.kind ≠ .endOfInput ∨ tail = []) :
    ∃ token' after, scanner.next unicode = .ok (token', after) ∧ token = token'.shiftDown (byteLen outside) ∧
      Trims outside tail after place := by
  rw [next] at read
  obtain ⟨⟨kind, last⟩, found, result⟩ := bind_eq_ok.mp read
  cases result
  obtain ⟨before, rest⟩ := scanner
  obtain ⟨before', rest'⟩ := window
  obtain ⟨rfl, rfl⟩ := trims
  cases shape : rest'.dropWhile isWhitespace with
  | nil =>
    -- the end of input is read, so the window is not widened behind
    have window : skipWhitespace ⟨before', rest'⟩ = ⟨(rest'.takeWhile isWhitespace).reverse ++ before', []⟩ := by
      rw [skipWhitespace, skipWhile_eq, shape]
    rw [window] at found
    cases found
    obtain rfl := more.resolve_left (not_not.mpr rfl)
    have scanner : skipWhitespace ⟨before' ++ outside, rest' ++ []⟩ =
        ⟨(rest'.takeWhile isWhitespace).reverse ++ before' ++ outside, []⟩ := by
      rw [skipWhitespace, skipWhile_eq, List.append_nil, shape, List.append_assoc]
    rw [next, scanner, window]
    refine ⟨_, _, rfl, ?_, rfl, rfl⟩
    simp only [Token.shiftDown, TokenKind.shiftDown, ByteSpan.shiftDown, offset, byteLen_append, Nat.add_sub_cancel]
  | cons c inside =>
    have skipped : Trims outside tail (skipWhitespace ⟨before' ++ outside, rest' ++ tail⟩) (skipWhitespace ⟨before', rest'⟩) := by
      apply @trims_skipWhile outside tail isWhitespace before' rest' (c :: inside)
      rw [skipWhile_eq, List.dropWhile_append, shape]
      rfl
    have window : (skipWhitespace ⟨before', rest'⟩).rest = c :: inside := by
      rw [skipWhitespace, skipWhile_eq]
      exact shape
    have start := skipped.offset_eq
    rw [next]
    generalize skipWhitespace ⟨before' ++ outside, rest' ++ tail⟩ = first at *
    generalize skipWhitespace ⟨before', rest'⟩ = view at *
    obtain ⟨front, rear⟩ := view
    obtain ⟨front', rear'⟩ := first
    obtain ⟨rfl, rfl⟩ := skipped
    obtain rfl : rear = c :: inside := window
    obtain ⟨kind', wider, same⟩ := @kindAt_widens unicode outside tail front inside c kind place found blank
    have trimmed : Trims outside tail ⟨place.before ++ outside, place.rest ++ tail⟩ place := ⟨rfl, rfl⟩
    rw [List.cons_append, wider, ok_bind]
    refine ⟨_, _, rfl, ?_, trimmed⟩
    rw [Token.shiftDown, ByteSpan.shiftDown, ← same, trimmed.offset_eq]
    rw [List.cons_append] at start
    rw [start]

end Scanner

end OpenLegal.SearchQuery
