import OpenLegal.Rust.Reader

/-! # Newline-delimited framing

Bounded newline-delimited JSON framing for a reliable byte stream. The stream arrives in chunks, and a call
may end while it waits for one; what was read stays with the reader. What the calls return is a function of
the stream alone: its lines, up to the first that is too long, and then its end.
-/

namespace OpenLegal.Server

open Rust

def lf : UInt8 := 0x0a
def cr : UInt8 := 0x0d

/-- What the stream decides about a call. -/
inductive Outcome where
  | frame (bytes : Bytes)
  | emptyFrame
  | exceedsLimit
  | unterminated
  | endOfStream
deriving DecidableEq, Repr

/-! ## What the lines of a stream stand for -/

/-- One trailing CR is removed. -/
def stripCr (line : Bytes) : Bytes := if line.getLast? = some cr then line.dropLast else line

/-- The outcome of a line that is not too long. -/
def deliver (line : Bytes) : Outcome := if (stripCr line).isEmpty then .emptyFrame else .frame (stripCr line)

/-- The outcome of the end of the stream; an unterminated trailing frame is an error. -/
def endOutcome (tail : Bytes) : Outcome := if tail.isEmpty then .endOfStream else .unterminated

/-- The outcome of what follows the last LF. -/
def tailOutcome (max : ℕ) (tail : Bytes) : Outcome := if tail.length > max then .exceedsLimit else endOutcome tail

/-- The outcomes of the pieces between the LFs: of each line in order, and the one that stays. A line that is
too long is never passed. -/
def outcomes (max : ℕ) : List Bytes → List Outcome × Outcome
  | [] => ([], .endOfStream)
  | [tail] => ([], tailOutcome max tail)
  | line :: pieces =>
    if line.length > max then ([], .exceedsLimit)
    else
      let (later, last) := outcomes max pieces
      (deliver line :: later, last)

attribute [grind =] outcomes

/-- The first `n` outcomes of a stream. -/
def expected (max : ℕ) (stream : Bytes) (n : ℕ) : List Outcome :=
  let (lines, last) := outcomes max (stream.splitOn lf)
  (lines ++ List.replicate n last).take n

/-! ## The reader -/

/-- Bytes that one read returned; only the end of the stream returns none. -/
abbrev Chunk := { bytes : Bytes // bytes ≠ [] }

/-- The reader: what is buffered, what is still to come, and the line read so far. -/
structure FrameReader (max : ℕ) where
  buffer : Bytes
  source : List Chunk
  bytes : Bytes
  charged : Bool
  open' : lf ∉ bytes
  bounded : bytes.length ≤ max

namespace FrameReader

variable {max : ℕ}

/-- The stream that was not returned yet. -/
def unread (reader : FrameReader max) : Bytes :=
  reader.bytes ++ (reader.buffer ++ (reader.source.map Subtype.val).flatten)

def new (source : List Chunk) : FrameReader max where
  buffer := []
  source
  bytes := []
  charged := false
  open' := by simp
  bounded := Nat.zero_le _

/-- `fill_buf`: an empty buffer is filled with the next chunk. -/
def fillBuf (reader : FrameReader max) : FrameReader max :=
  match reader.buffer, reader.source with
  | [], chunk :: source => { reader with buffer := chunk, source }
  | _, _ => reader

/-- The bytes of the buffer before its first LF. -/
def line (reader : FrameReader max) : Bytes := reader.buffer.takeWhile (· != lf)

/-- The line goes on after the buffer. -/
def extend (reader : FrameReader max) (fits : reader.line.length ≤ max - reader.bytes.length) : FrameReader max where
  buffer := []
  source := reader.source
  bytes := reader.bytes ++ reader.line
  charged := true
  open' := by
    rw [List.mem_append, not_or]
    refine ⟨reader.open', ?_⟩
    intro member
    have other := List.all_eq_true.mp List.all_takeWhile lf member
    simp at other
  bounded := by
    have bounded := reader.bounded
    rw [List.length_append]
    omega

/-- The line ended; the reader goes on with the rest of the buffer. -/
def finish (reader : FrameReader max) (rest : Bytes) : FrameReader max :=
  { reader with buffer := rest, bytes := [], charged := false, open' := by simp, bounded := Nat.zero_le _ }

/-- Whether the budget has room for a frame when one is begun. -/
inductive Attempt where
  | granted
  | refused
deriving DecidableEq, Repr

/-- One call. Every attempt is a round of the loop that gets bytes; after the last one the call ends while it
waits (cancelled, or at its deadline). Nothing is returned by a call that ends so or that finds no budget. -/
def read : List Attempt → FrameReader max → Option Outcome × FrameReader max
  | [], reader => (none, reader)
  | attempt :: attempts, reader =>
    let reader := reader.fillBuf
    if reader.buffer.isEmpty then (some (endOutcome reader.bytes), reader)
    else if !reader.charged && (attempt = .refused || max ≥ 2 ^ 32) then (none, reader)
    else if fits : reader.line.length ≤ max - reader.bytes.length then
      match reader.buffer.dropWhile (· != lf) with
      | [] => read attempts (reader.extend fits)
      | _ :: rest => (some (deliver (reader.bytes ++ reader.line)), reader.finish rest)
    else (some .exceedsLimit, { reader with charged := true })

attribute [grind =] read

/-- A sequence of calls: what those that the stream decided returned. -/
def run : List (List Attempt) → FrameReader max → List Outcome × FrameReader max
  | [], reader => ([], reader)
  | call :: calls, reader =>
    let (outcome, reader) := reader.read call
    let (outcomes, reader) := reader.run calls
    (outcome.toList ++ outcomes, reader)

attribute [grind =] run

end FrameReader

/-! ## Outcomes of a stream -/

theorem ne_lf {line : Bytes} (closed : lf ∉ line) : ∀ byte ∈ line, (byte == lf) = false := by
  intro byte member
  apply beq_eq_false_iff_ne.mpr
  rintro rfl
  exact closed member

theorem expected_last {max : ℕ} {stream : Bytes} {last : Outcome} (only : outcomes max (stream.splitOn lf) = ([], last))
    (n : ℕ) : expected max stream (n + 1) = last :: expected max stream n := by
  simp [expected, only, List.take_replicate, List.replicate_succ]

theorem expected_zero (max : ℕ) (stream : Bytes) : expected max stream 0 = [] := rfl

/-- Fewer outcomes are the first ones of more. -/
theorem take_expected {max m n : ℕ} {stream : Bytes} (le : m ≤ n) :
    (expected max stream n).take m = expected max stream m := by
  obtain ⟨more, rfl⟩ := Nat.exists_eq_add_of_le le
  simp only [expected, List.take_take, Nat.min_eq_left le, ← List.replicate_append_replicate, ← List.append_assoc]
  rw [List.take_append_of_le_length (by simp)]

theorem expected_line {max : ℕ} {line rest : Bytes} (closed : lf ∉ line) (fits : line.length ≤ max) (n : ℕ) :
    expected max (line ++ lf :: rest) (n + 1) = deliver line :: expected max rest n := by
  have pieces : (line ++ lf :: rest).splitOn lf = line :: rest.splitOn lf := by
    rw [List.splitOn_eq_splitOnP, List.splitOn_eq_splitOnP]
    exact List.splitOnP_append_cons_of_forall_mem (ne_lf closed) lf (by simp) rest
  obtain ⟨first, more, shape⟩ := List.exists_cons_of_ne_nil (List.splitOn_ne_nil lf rest)
  have shown : outcomes max (line :: rest.splitOn lf) =
      (deliver line :: (outcomes max (rest.splitOn lf)).1, (outcomes max (rest.splitOn lf)).2) := by
    rw [shape, outcomes, if_neg (Nat.not_lt.mpr fits)]
    simp
  rw [expected, pieces, shown]
  simp only [expected, List.cons_append, List.take_succ_cons, List.cons.injEq, true_and]
  rw [List.replicate_succ', ← List.append_assoc, List.take_append_of_le_length (by simp)]

/-- A line that is too long, terminated or not, ends the stream. -/
theorem outcomes_exceeds {max : ℕ} {front : Bytes} (closed : lf ∉ front) (long : max < front.length) (rear : Bytes) :
    outcomes max ((front ++ rear).splitOn lf) = ([], .exceedsLimit) := by
  rw [List.splitOn_eq_splitOnP, splitOnP_append_left (ne_lf closed)]
  obtain ⟨first, more, shape⟩ := List.exists_cons_of_ne_nil (List.splitOnP_ne_nil (· == lf) rear)
  have longer : max < (front ++ first).length := by
    rw [List.length_append]
    omega
  rw [shape, List.modifyHead_cons]
  cases more with
  | nil => rw [outcomes, tailOutcome, if_pos longer]
  | cons second more =>
    rw [outcomes, if_pos longer]
    simp

theorem outcomes_tail {max : ℕ} {tail : Bytes} (closed : lf ∉ tail) (fits : tail.length ≤ max) :
    outcomes max (tail.splitOn lf) = ([], endOutcome tail) := by
  rw [List.splitOn_eq_singleton closed, outcomes, tailOutcome, if_neg (Nat.not_lt.mpr fits)]

/-! ## Reading -/

namespace FrameReader

variable {max : ℕ}

theorem fillBuf_unread (reader : FrameReader max) : reader.fillBuf.unread = reader.unread := by
  rw [fillBuf]
  split
  · next chunk source empty shape => simp [unread, empty, shape]
  · rfl

/-- The buffer is empty only at the end of the stream. -/
theorem unread_of_empty {reader : FrameReader max} (empty : reader.fillBuf.buffer = []) :
    reader.fillBuf.unread = reader.fillBuf.bytes := by
  have done : reader.fillBuf.source = [] := by
    rw [fillBuf] at empty ⊢
    split at empty
    · next chunk source shape filled => exact absurd empty chunk.2
    · next other =>
      match shape : reader.source with
      | [] => rfl
      | chunk :: source => exact absurd shape (other chunk source empty)
  simp [unread, empty, done]

theorem lf_not_mem_line (reader : FrameReader max) : lf ∉ reader.bytes ++ reader.line := by
  rw [List.mem_append, not_or]
  refine ⟨reader.open', ?_⟩
  intro member
  have other := List.all_eq_true.mp List.all_takeWhile lf member
  simp at other

/-- The line so far, and what is left of the buffer after its part of the line. -/
theorem unread_eq (reader : FrameReader max) : reader.unread = (reader.bytes ++ reader.line) ++
    (reader.buffer.dropWhile (· != lf) ++ (reader.source.map Subtype.val).flatten) := by
  have cut : reader.buffer = reader.line ++ reader.buffer.dropWhile (· != lf) := List.takeWhile_append_dropWhile.symm
  conv_lhs => rw [unread, cut]
  simp

/-- A call that returns nothing leaves the unread stream as it is; any other returns its next outcome. -/
def Advances (max : ℕ) (unread : Bytes) : Option Outcome × FrameReader max → Prop
  | (none, after) => after.unread = unread
  | (some outcome, after) => ∀ n, expected max unread (n + 1) = outcome :: expected max after.unread n

theorem read_advances (attempts : List Attempt) (reader : FrameReader max) :
    Advances max reader.unread (reader.read attempts) := by
  induction attempts generalizing reader with
  | nil => exact rfl
  | cons attempt attempts ih =>
    rw [read, ← fillBuf_unread reader]
    have ended := @unread_of_empty max reader
    generalize reader.fillBuf = filled at ended ⊢
    split_ifs with empty refused fits
    · have whole := ended (List.isEmpty_iff.mp empty)
      intro n
      rw [whole]
      exact expected_last (outcomes_tail filled.open' filled.bounded) n
    · exact rfl
    · cases cut : filled.buffer.dropWhile (· != lf) with
      | nil =>
        -- no LF in the buffer: all of it belongs to the line
        have moved : (filled.extend fits).unread = filled.unread := by
          rw [unread_eq filled, cut]
          simp [unread, extend]
        rw [← moved]
        exact ih (filled.extend fits)
      | cons byte rest =>
        have newline : byte = lf := by
          have stops := List.head?_dropWhile_not (· != lf) filled.buffer
          rw [cut] at stops
          simpa using stops
        have total : (filled.bytes ++ filled.line).length ≤ max := by
          have bounded := filled.bounded
          rw [List.length_append]
          omega
        rw [unread_eq filled, cut, newline]
        exact expected_line filled.lf_not_mem_line total
    · have long : max < (filled.bytes ++ filled.line).length := by
        rw [List.length_append]
        omega
      have stuck : outcomes max (filled.unread.splitOn lf) = ([], .exceedsLimit) := by
        rw [unread_eq filled]
        exact outcomes_exceeds filled.lf_not_mem_line long _
      exact expected_last stuck

theorem run_expected (calls : List (List Attempt)) (reader : FrameReader max) (n : ℕ) :
    expected max reader.unread ((reader.run calls).1.length + n) =
      (reader.run calls).1 ++ expected max (reader.run calls).2.unread n := by
  induction calls generalizing reader with
  | nil => simp [run]
  | cons call calls ih =>
    have step := read_advances call reader
    rw [run]
    generalize reader.read call = returned at step ⊢
    obtain ⟨outcome, after⟩ := returned
    have rest := ih after
    cases outcome with
    | none =>
      rw [Advances] at step
      rw [← step]
      exact rest
    | some outcome =>
      simp only [Option.toList_some, List.cons_append, List.nil_append, List.length_cons]
      rw [Nat.add_right_comm, step, rest]

/-- A call that gets bytes and budget as long as it asks for them returns an outcome. -/
theorem read_isSome {attempts : List Attempt} {reader : FrameReader max} (small : max < 2 ^ 32)
    (granted : ∀ attempt ∈ attempts, attempt = .granted)
    (enough : reader.source.length + (if reader.buffer = [] then 0 else 1) < attempts.length) :
    (reader.read attempts).1.isSome = true := by
  induction attempts generalizing reader with
  | nil => cases enough
  | cons attempt attempts ih =>
    rw [List.forall_mem_cons] at granted
    -- a round with bytes uses up one chunk
    have fewer : reader.fillBuf.buffer ≠ [] → reader.fillBuf.source.length < attempts.length := by
      rw [List.length_cons] at enough
      rw [fillBuf]
      split
      · next chunk source empty shape =>
        intro _
        rw [shape, List.length_cons] at enough
        dsimp only
        omega
      · intro filled
        rw [if_neg filled] at enough
        omega
    rw [read]
    generalize reader.fillBuf = filled at fewer ⊢
    split_ifs with empty refused fits
    · rfl
    · simp only [granted.1, Bool.and_eq_true, Bool.or_eq_true, decide_eq_true_eq, reduceCtorEq, false_or] at refused
      omega
    · cases filled.buffer.dropWhile (· != lf) with
      | nil => exact ih granted.2 (fewer (by simpa using empty))
      | cons byte rest => rfl
    · rfl

end FrameReader

/-! ## Writing -/

/-- The third-party JSON encoder, which writes a value in pieces. -/
structure JsonEncoder (α : Type) where
  pieces : α → List Bytes

namespace JsonEncoder

variable {α : Type} (json : JsonEncoder α)

def encoded (value : α) : Bytes := (json.pieces value).flatten

/-- Compact JSON text is not empty and has no line breaks: they are escaped in strings. -/
def Compact : Prop := ∀ value, json.encoded value ≠ [] ∧ lf ∉ json.encoded value ∧ cr ∉ json.encoded value

end JsonEncoder

/-- `CappedBuffer::write`. -/
def cappedWrite (max : ℕ) (bytes input : Bytes) : Option Bytes :=
  if input.length > max - bytes.length then none else some (bytes ++ input)

section Write

variable {α : Type} (json : JsonEncoder α)

/-- The bytes that a completed write puts on the stream; a failed one writes nothing. -/
def writeJson (max : ℕ) (granted : Bool) (value : α) : Option Bytes := do
  if max ≥ 2 ^ 32 || !granted then none
  else
    let bytes ← (json.pieces value).foldlM (cappedWrite max) []
    pure (bytes ++ [lf])

variable {json}

theorem foldlM_cappedWrite {max : ℕ} {pieces : List Bytes} {bytes result : Bytes}
    (wrote : pieces.foldlM (cappedWrite max) bytes = some result) (short : bytes.length ≤ max) :
    result = bytes ++ pieces.flatten ∧ result.length ≤ max := by
  induction pieces generalizing bytes with
  | nil =>
    cases wrote
    simpa using short
  | cons piece pieces ih =>
    rw [List.foldlM_cons] at wrote
    obtain ⟨next, first, wrote⟩ := Option.bind_eq_some_iff.mp wrote
    rw [cappedWrite] at first
    split_ifs at first with large
    cases first
    obtain ⟨shape, bounded⟩ := ih wrote (by rw [List.length_append]; omega)
    exact ⟨by simpa using shape, bounded⟩

/-- What was written is one line of the encoded value, within the limit. -/
theorem of_writeJson {max : ℕ} {granted : Bool} {value : α} {bytes : Bytes}
    (wrote : writeJson json max granted value = some bytes) :
    bytes = json.encoded value ++ [lf] ∧ (json.encoded value).length ≤ max := by
  rw [writeJson] at wrote
  split_ifs at wrote
  obtain ⟨written, ran, same⟩ := Option.bind_eq_some_iff.mp wrote
  cases same
  obtain ⟨rfl, bounded⟩ := foldlM_cappedWrite ran (Nat.zero_le _)
  exact ⟨rfl, bounded⟩

/-- Encoded values are delivered as they are. -/
theorem deliver_encoded (compact : json.Compact) (value : α) :
    deliver (json.encoded value) = .frame (json.encoded value) := by
  obtain ⟨nonempty, -, noCr⟩ := compact value
  have same : stripCr (json.encoded value) = json.encoded value := by
    rw [stripCr, if_neg]
    intro last
    exact noCr (List.mem_of_getLast? last)
  rw [deliver, same, if_neg (by simpa using nonempty)]

theorem expected_written (compact : json.Compact) {max limit : ℕ} (within : limit ≤ max) {granted : Bool}
    {values : List α} {written : List Bytes} (wrote : values.mapM (writeJson json limit granted) = some written) :
    expected max written.flatten (values.length + 1) =
      values.map (fun value => .frame (json.encoded value)) ++ [.endOfStream] := by
  induction values generalizing written with
  | nil =>
    cases wrote
    rfl
  | cons value values ih =>
    rw [List.mapM_cons] at wrote
    obtain ⟨bytes, first, wrote⟩ := Option.bind_eq_some_iff.mp wrote
    obtain ⟨rest, more, same⟩ := Option.bind_eq_some_iff.mp wrote
    cases same
    obtain ⟨rfl, bounded⟩ := of_writeJson first
    rw [List.flatten_cons, List.append_assoc, List.cons_append, List.nil_append, List.length_cons,
      expected_line (compact value).2.1 (bounded.trans within), ih more, deliver_encoded compact]
    rfl

end Write

/-- Framing does not depend on chunks or on calls that end early: what the calls return is read off the lines of
the stream, up to the first that is too long. Calls that are not held up return, and written values are read back. -/
theorem framing (max : ℕ) (source : List Chunk) (calls : List (List FrameReader.Attempt)) :
    ((FrameReader.new source : FrameReader max).run calls).1 =
      expected max (source.map Subtype.val).flatten ((FrameReader.new source : FrameReader max).run calls).1.length ∧
    (∀ attempts, max < 2 ^ 32 → (∀ attempt ∈ attempts, attempt = .granted) →
      ((FrameReader.new source : FrameReader max).run calls).2.source.length + 1 < attempts.length →
      (((FrameReader.new source : FrameReader max).run calls).2.read attempts).1.isSome = true) ∧
    ∀ (α : Type) (json : JsonEncoder α), json.Compact → ∀ limit ≤ max, ∀ granted (values : List α) (written : List Bytes),
      values.mapM (writeJson json limit granted) = some written →
      (source.map Subtype.val).flatten = written.flatten →
      values.length < ((FrameReader.new source : FrameReader max).run calls).1.length →
      ∃ later, ((FrameReader.new source : FrameReader max).run calls).1 =
        values.map (fun value => .frame (json.encoded value)) ++ .endOfStream :: later := by
  have shown := FrameReader.run_expected calls (FrameReader.new source : FrameReader max) 0
  have stream : (FrameReader.new source : FrameReader max).unread = (source.map Subtype.val).flatten := rfl
  generalize (FrameReader.new source : FrameReader max).run calls = ran at shown ⊢
  rw [stream, Nat.add_zero, expected_zero, List.append_nil] at shown
  refine ⟨shown.symm, ?_, ?_⟩
  · intro attempts small granted enough
    apply FrameReader.read_isSome small granted
    split_ifs
    · omega
    · exact enough
  · intro α json compact limit within granted values written wrote same more
    have begins : ran.1.take (values.length + 1) = values.map (fun value => .frame (json.encoded value)) ++ [.endOfStream] := by
      rw [← shown, take_expected more, same]
      exact expected_written compact within wrote
    refine ⟨ran.1.drop (values.length + 1), ?_⟩
    calc ran.1 = ran.1.take (values.length + 1) ++ ran.1.drop (values.length + 1) := (List.take_append_drop _ _).symm
      _ = _ := by rw [begins, List.append_assoc]; rfl

/-- Truth values, which JSON writes by name. -/
def boolJson : JsonEncoder Bool where
  pieces value := if value then [[0x74, 0x72, 0x75, 0x65]] else [[0x66, 0x61, 0x6c, 0x73, 0x65]]

/-- Two written values, read in chunks that cut the second one. -/
theorem framing_twoValues :
    ∃ later, ((FrameReader.new [⟨[0x74, 0x72, 0x75, 0x65, 0x0a, 0x66], by decide⟩, ⟨[0x61, 0x6c, 0x73, 0x65, 0x0a], by decide⟩] :
        FrameReader 5).run [[.granted], [.granted], [.granted, .granted], [.granted]]).1 =
      [.frame [0x74, 0x72, 0x75, 0x65], .frame [0x66, 0x61, 0x6c, 0x73, 0x65]] ++ .endOfStream :: later :=
  (framing 5 _ _).2.2 Bool boolJson (by unfold JsonEncoder.Compact; decide) 5 (Nat.le_refl 5) true [true, false]
    [[0x74, 0x72, 0x75, 0x65, 0x0a], [0x66, 0x61, 0x6c, 0x73, 0x65, 0x0a]] (by decide) (by decide) (by decide)

/-- After a line that is too long, lines within the limit are never delivered. -/
theorem short_line_not_delivered :
    ¬ ∀ (max : ℕ) (source : List Chunk) (line : Bytes),
      line ∈ ((source.map Subtype.val).flatten.splitOn lf).dropLast → line.length ≤ max → stripCr line ≠ [] →
      ∃ calls, .frame (stripCr line) ∈ ((FrameReader.new source : FrameReader max).run calls).1 := by
  intro delivers
  -- `12345` and then a line of two bytes
  obtain ⟨calls, found⟩ := delivers 4 [⟨[0x31, 0x32, 0x33, 0x34, 0x35, 0x0a, 0x7b, 0x7d, 0x0a], by decide⟩] [0x7b, 0x7d]
    (by decide) (by decide) (by decide)
  have shown := FrameReader.run_expected calls
    (FrameReader.new [⟨[0x31, 0x32, 0x33, 0x34, 0x35, 0x0a, 0x7b, 0x7d, 0x0a], by decide⟩] : FrameReader 4) 0
  have stuck : outcomes 4 (([0x31, 0x32, 0x33, 0x34, 0x35, 0x0a, 0x7b, 0x7d, 0x0a] : Bytes).splitOn lf) =
      ([], .exceedsLimit) := by decide
  rw [expected_zero, List.append_nil] at shown
  rw [← shown] at found
  simp only [expected, FrameReader.unread, FrameReader.new, List.map_cons, List.map_nil, List.flatten_cons,
    List.flatten_nil, List.append_nil, List.nil_append, stuck] at found
  cases List.eq_of_mem_replicate (List.mem_of_mem_take found)

end OpenLegal.Server
