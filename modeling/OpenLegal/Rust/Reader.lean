import OpenLegal.Rust.Result
import OpenLegal.Rust.Str

/-! # Reading bytes

A reader takes bytes from the front of a stream. A reader consumes a frame if it reads exactly that frame
off every stream that begins with it and fails on every stream that ends inside it; what is read in
sequence consumes the frames one after another.
-/

namespace OpenLegal.Rust

abbrev Bytes := List UInt8

/-- `str::as_bytes`. -/
def Str.asBytes (s : Str) : Bytes := s.flatMap String.utf8EncodeChar

/-- `String::from_utf8`. -/
def fromUtf8 (bytes : Bytes) : Option Str := bytes.toByteArray.utf8Decode?.map Array.toList

theorem Str.asBytes_length (s : Str) : s.asBytes.length = s.byteLen := by
  simp [asBytes, byteLen, List.length_flatMap]

@[simp] theorem fromUtf8_asBytes (s : Str) : fromUtf8 s.asBytes = some s := by
  have encoded : s.asBytes.toByteArray = List.utf8Encode s := rfl
  rw [fromUtf8, encoded, List.utf8Decode?_utf8Encode]
  simp

/-- `(n as u32).to_be_bytes()`. -/
def toBeBytes (n : ℕ) : Bytes := [.ofNat (n / 2 ^ 24), .ofNat (n / 2 ^ 16), .ofNat (n / 2 ^ 8), .ofNat n]

/-- `u32::from_be_bytes(bytes) as usize`. -/
def fromBeBytes (bytes : Bytes) : ℕ := bytes.foldl (fun value byte => value * 256 + byte.toNat) 0

@[simp] theorem toBeBytes_length (n : ℕ) : (toBeBytes n).length = 4 := rfl

theorem fromBeBytes_toBeBytes {n : ℕ} (bound : n < 2 ^ 32) : fromBeBytes (toBeBytes n) = n := by
  simp only [fromBeBytes, toBeBytes, List.foldl_cons, List.foldl_nil, UInt8.toNat_ofNat']
  omega

/-- A writer with a limit takes everything that fits as a whole, in whatever pieces it is written. -/
theorem foldlM_capped {write : Bytes → Bytes → Option Bytes} {limit : ℕ}
    (fits : ∀ written piece, written.length + piece.length ≤ limit → write written piece = some (written ++ piece))
    {pieces : List Bytes} {written : Bytes} (short : written.length + pieces.flatten.length ≤ limit) :
    pieces.foldlM write written = some (written ++ pieces.flatten) := by
  induction pieces generalizing written with
  | nil => simp
  | cons piece pieces ih =>
    rw [List.flatten_cons, List.length_append] at short
    rw [List.foldlM_cons, fits written piece (by omega)]
    have rest := @ih (written ++ piece) (by rw [List.length_append]; omega)
    simpa using rest

/-- A reader of a stream of bytes. -/
abbrev Reader (ε : Type) := StateT Bytes (Except ε)

namespace Reader

variable {ε α β : Type}

/-- `read_exact` into a buffer of `n` bytes, with its error replaced. -/
def readExact (error : ε) (n : ℕ) : Reader ε Bytes := fun stream =>
  if stream.length < n then .error error else .ok (stream.take n, stream.drop n)

/-- A read of one more byte that must find the end of the stream. -/
def atEnd (error : ε) : Reader ε Unit := fun stream => if stream.isEmpty then .ok ((), stream) else .error error

/-- The rest of a sequence runs on what its first reader left. -/
theorem bind_of_ok {reader : Reader ε α} {stream rest : Bytes} {value : α} (ran : reader stream = .ok (value, rest))
    (next : α → Reader ε β) : (reader >>= next) stream = next value rest := by
  change (reader stream >>= fun read => next read.1 read.2) = _
  rw [ran, ok_bind]

theorem readExact_append (error : ε) {n : ℕ} {frame : Bytes} (length : frame.length = n) (rest : Bytes) :
    readExact error n (frame ++ rest) = .ok (frame, rest) := by
  subst length
  rw [readExact, if_neg (by simp)]
  simp

/-- The reader takes exactly `frame` and returns `value`; a stream that ends inside the frame is an error. -/
structure Consumes (reader : Reader ε α) (frame : Bytes) (value : α) (error : ε) : Prop where
  reads : ∀ rest, reader (frame ++ rest) = .ok (value, rest)
  short : ∀ part, part <+: frame → part ≠ frame → reader part = .error error

variable {error : ε}

theorem readExact_consumes (error : ε) (frame : Bytes) : Consumes (readExact error frame.length) frame frame error := by
  constructor
  · intro rest
    exact readExact_append error rfl rest
  · intro part inside other
    have shorter : part.length < frame.length := by
      apply Nat.lt_of_le_of_ne inside.length_le
      intro same
      exact other (inside.eq_of_length same)
    rw [readExact, if_pos shorter]

theorem pure_consumes (error : ε) (value : α) : Consumes (pure value) [] value error := by
  constructor
  · intro rest
    rfl
  · intro part inside other
    exact absurd (List.prefix_nil.mp inside) other

/-- What is read in sequence consumes one frame after the other. -/
theorem Consumes.bind {reader : Reader ε α} {next : α → Reader ε β} {first second : Bytes} {value : α} {result : β}
    (head : Consumes reader first value error) (tail : Consumes (next value) second result error) :
    Consumes (reader >>= next) (first ++ second) result error := by
  constructor
  · intro rest
    rw [List.append_assoc]
    rw [bind_of_ok (head.reads (second ++ rest))]
    exact tail.reads rest
  · intro part inside other
    obtain ⟨tail', cut⟩ := inside
    rcases List.append_eq_append_iff.mp cut with ⟨missing, shape, -⟩ | ⟨rest, rfl, shape⟩
    · by_cases same : part = first
      · subst same
        have ran := head.reads []
        rw [List.append_nil] at ran
        rw [bind_of_ok ran]
        apply tail.short [] List.nil_prefix
        rintro rfl
        exact other (List.append_nil _).symm
      · change (reader part >>= fun read => next read.1 read.2) = .error error
        rw [head.short part ⟨missing, shape.symm⟩ same, error_bind]
    · rw [bind_of_ok (head.reads rest)]
      apply tail.short rest ⟨tail', shape.symm⟩
      rintro rfl
      exact other rfl

/-- Whatever the reader returns, it returns for a frame at the front of the stream. -/
def Determined (reader : Reader ε α) (error : ε) : Prop :=
  ∀ stream value rest, reader stream = .ok (value, rest) →
    ∃ frame, stream = frame ++ rest ∧ Consumes reader frame value error

theorem readExact_determined (error : ε) (n : ℕ) : Determined (readExact error n) error := by
  intro stream value rest read
  rw [readExact, ite_error_eq_ok] at read
  obtain ⟨long, same⟩ := read
  cases same
  refine ⟨stream.take n, (List.take_append_drop n stream).symm, ?_⟩
  have length : (stream.take n).length = n := by
    rw [List.length_take]
    omega
  have consumes := readExact_consumes error (stream.take n)
  rwa [length] at consumes

theorem pure_determined (error : ε) (value : α) : Determined (pure value) error := by
  intro stream result rest read
  cases read
  exact ⟨[], rfl, pure_consumes error value⟩

theorem throw_determined (error other : ε) : Determined (throw other : Reader ε α) error := by
  intro stream result rest read
  cases read

theorem Determined.bind {reader : Reader ε α} {next : α → Reader ε β} (head : Determined reader error)
    (tail : ∀ value, Determined (next value) error) : Determined (reader >>= next) error := by
  intro stream result rest read
  obtain ⟨⟨value, middle⟩, first, second⟩ := bind_eq_ok.mp read
  obtain ⟨front, rfl, reads⟩ := head stream value middle first
  obtain ⟨rear, rfl, more⟩ := tail value middle result rest second
  exact ⟨front ++ rear, (List.append_assoc _ _ _).symm, reads.bind more⟩

theorem Determined.ite {condition : Prop} [Decidable condition] {first second : Reader ε α}
    (positive : Determined first error) (negative : Determined second error) :
    Determined (if condition then first else second) error := by
  split_ifs
  · exact positive
  · exact negative

/-- The reader and the end of the stream after it. -/
def complete (error : ε) (reader : Reader ε α) (stream : Bytes) : Except ε α := do
  let (value, rest) ← reader stream
  let _ ← atEnd error rest
  pure value

variable {reader : Reader ε α}

theorem complete_eq_ok {stream : Bytes} {value : α} :
    complete error reader stream = .ok value ↔ reader stream = .ok (value, []) := by
  constructor
  · intro read
    rw [complete] at read
    obtain ⟨⟨found, rest⟩, ran, read⟩ := bind_eq_ok.mp read
    obtain ⟨_, ended, same⟩ := bind_eq_ok.mp read
    cases same
    dsimp only [atEnd] at ended
    split_ifs at ended with empty
    rw [ran, List.isEmpty_iff.mp empty]
  · intro ran
    rw [complete, ran]
    rfl

/-- A complete stream has no other complete beginning and no complete continuation. -/
theorem Determined.complete_rejects (determined : Determined reader error) {stream : Bytes} {value : α}
    (read : complete error reader stream = .ok value) :
    (∀ part, part <+: stream → part ≠ stream → complete error reader part = .error error) ∧
      ∀ extra, extra ≠ [] → complete error reader (stream ++ extra) = .error error := by
  obtain ⟨frame, same, consumes⟩ := determined stream value [] (complete_eq_ok.mp read)
  obtain rfl : stream = frame := by rw [same, List.append_nil]
  constructor
  · intro part inside other
    rw [complete, consumes.short part inside other]
    rfl
  · intro extra nonempty
    obtain ⟨byte, extra, rfl⟩ := List.exists_cons_of_ne_nil nonempty
    rw [complete, consumes.reads]
    rfl

end Reader

end OpenLegal.Rust
