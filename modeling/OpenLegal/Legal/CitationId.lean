import OpenLegal.Legal.Domain
import OpenLegal.Rust.Result

/-! # Citation ids

A citation id is a versioned path of escaped segments. Decoding re-encodes what it read and compares, so
one citation has one string; encoding stays inside the length that decoding accepts.
-/

namespace OpenLegal.Legal

open Rust Rust.Str

/-! ## Form encoding -/

/-- The UTF-8 bytes of a string. -/
def bytesOf (value : Str) : List UInt8 := value.flatMap String.utf8EncodeChar

theorem bytesOf_length (value : Str) : (bytesOf value).length = byteLen value := by
  simp [bytesOf, byteLen, List.length_flatMap]

/-- The third-party form serializer and parser: the serialized bytes of a string, and the first pair. -/
structure FormUrlencoded where
  byteSerialize : Str → Str
  parse : Str → Option (Str × Str)

namespace FormUrlencoded

/-- Bytes that stand for themselves. -/
def isUnreserved (byte : UInt8) : Bool :=
  byte == 0x2a || byte == 0x2d || byte == 0x2e || byte == 0x5f || (0x30 ≤ byte && byte ≤ 0x39) ||
    (0x41 ≤ byte && byte ≤ 0x5a) || (0x61 ≤ byte && byte ≤ 0x7a)

/-- An upper-case hexadecimal digit. -/
def hexDigit (n : ℕ) : Char := (Nat.digitChar n).toUpper

def percent (byte : UInt8) : Str := ['%', hexDigit (byte.toNat / 16), hexDigit (byte.toNat % 16)]

/-- The serializer writes a space as `+` and every other reserved byte as a percent triplet. -/
def serializeByte (byte : UInt8) : Str :=
  if isUnreserved byte then [Char.ofNat byte.toNat] else if byte = 0x20 then ['+'] else percent byte

end FormUrlencoded

section Escape

variable (form : FormUrlencoded)

def escape (value : Str) : Str := (form.byteSerialize value).flatMap fun c => if c = '+' then ['%', '2', '0'] else [c]

/-- What the code relies on: the documented bytes of the serializer, and that the parser undoes them. -/
structure FormUrlencoded.Lawful : Prop where
  serialize : ∀ value, form.byteSerialize value = (bytesOf value).flatMap FormUrlencoded.serializeByte
  parse : ∀ value, form.parse (['v', '='] ++ escape form value) = some (['v'], value)

def unescape (value : Str) : Except DatabaseError Str :=
  match form.parse (['v', '='] ++ value) with
  | none => .error .invalidInput
  | some (_, result) => if escape form result ≠ value then .error .invalidInput else .ok result

end Escape

/-! ## Encoding and decoding -/

def maxCitationTextBytes : ℕ := 8192

inductive CitationProjection where
  | document
  | section' (id : Str)
  | passage (id : Str) (start stop : ℕ)
  | metadata
deriving DecidableEq, Repr

structure CitationId where
  object : ObjectId
  captureId : Str
  projection : CitationProjection
deriving DecidableEq, Repr

/-- A section locator: nonempty, at most 256 bytes, without control characters. -/
def validSection (id : Str) : Bool := !(id.isEmpty || byteLen id > 256 || id.any isControl)

namespace CitationId

def validate (id : CitationId) : Except DatabaseError Unit := do
  id.object.validate
  if !validSnapshotId id.captureId then .error .invalidInput
  else match id.projection with
    | .document | .metadata => .ok ()
    | .section' name => if validSection name then .ok () else .error .invalidInput
    | .passage name start stop =>
      if start ≥ stop || stop - start > maxCitationTextBytes || stop > 64 * 1024 * 1024 then .error .invalidInput
      else if validSection name then .ok () else .error .invalidInput

variable (form : FormUrlencoded)

/-- The path after the capture. Section segments have a prefix so even the provider locator `..` cannot
become URL path traversal. -/
def projectionPath : CitationProjection → Str
  | .document => ['/', 'd', 'o', 'c']
  | .metadata => ['/', 'm', 'e', 't', 'a', 'd', 'a', 't', 'a']
  | .section' name => ['/', 's', 'e', 'c', 't', 'i', 'o', 'n', '/', 's', '-'] ++ escape form name
  | .passage name start stop =>
    ['/', 'p', 'a', 's', 's', 'a', 'g', 'e', '/', 's', '-'] ++ escape form name ++ '/' :: decimal start ++
      '/' :: decimal stop

def encode (id : CitationId) : Except DatabaseError Str := do
  id.validate
  pure (['v', '1', '/'] ++ escape form id.object.jurisdiction ++ '/' :: escape form id.object.provider ++
    '/' :: id.object.dataset.asStr.toList ++ '/' :: escape form id.object.id ++ '/' :: id.captureId ++
    projectionPath form id.projection)

/-- The section of a segment with the prefix `s-`. -/
def sectionOf (segment : Str) : Except DatabaseError Str := do
  let value ← (stripPrefix ['s', '-'] segment).elim (.error .invalidInput) .ok
  unescape form value

/-- The projection named by the last segments. -/
def projectionOf (kind : Str) (rest : List Str) : Except DatabaseError CitationProjection :=
  match kind, rest with
  | ['d', 'o', 'c'], [] => .ok .document
  | ['m', 'e', 't', 'a', 'd', 'a', 't', 'a'], [] => .ok .metadata
  | ['s', 'e', 'c', 't', 'i', 'o', 'n'], [name] => do
    let name ← sectionOf form name
    pure (.section' name)
  | ['p', 'a', 's', 's', 'a', 'g', 'e'], [name, start, stop] => do
    let name ← sectionOf form name
    let start ← (parseUsize start).elim (.error .invalidInput) .ok
    let stop ← (parseUsize stop).elim (.error .invalidInput) .ok
    pure (.passage name start stop)
  | _, _ => .error .invalidInput

def decode (id : Str) : Except DatabaseError CitationId :=
  if byteLen id > 2048 then .error .invalidInput
  else match id.splitOn '/' with
    | version :: jurisdiction :: provider :: dataset :: object :: captureId :: kind :: rest =>
      if version ≠ ['v', '1'] then .error .invalidInput
      else do
        let jurisdiction ← unescape form jurisdiction
        let provider ← unescape form provider
        let dataset ← (Dataset.fromName dataset).elim (.error .invalidInput) .ok
        let object ← unescape form object
        let projection ← projectionOf form kind rest
        let result : CitationId := ⟨⟨jurisdiction, provider, dataset, object⟩, captureId, projection⟩
        let encoded ← encode form result
        if encoded ≠ id then .error .invalidInput else pure result
    | _ => .error .invalidInput

end CitationId

/-! ## Escaped segments -/

namespace FormUrlencoded

/-- An escaped byte: a space is a percent triplet like every other reserved byte. -/
def escapeByte (byte : UInt8) : Str := if isUnreserved byte then [Char.ofNat byte.toNat] else percent byte

private theorem forall_byte {P : UInt8 → Prop} (all : ∀ n < 256, P (UInt8.ofNat n)) (byte : UInt8) : P byte := by
  have := all byte.toNat byte.toNat_lt
  rwa [UInt8.ofNat_toNat] at this

private theorem escapeByte_table (byte : UInt8) :
    ((serializeByte byte).flatMap fun c => if c = '+' then ['%', '2', '0'] else [c]) = escapeByte byte ∧
      ('/' ∉ escapeByte byte ∧ byteLen (escapeByte byte) ≤ 3) ∧ '&' ∉ escapeByte byte := by
  revert byte
  exact forall_byte (by decide +kernel)

private theorem escape_serializeByte (byte : UInt8) :
    ((serializeByte byte).flatMap fun c => if c = '+' then ['%', '2', '0'] else [c]) = escapeByte byte :=
  (escapeByte_table byte).1

private theorem escapeByte_segment (byte : UInt8) : '/' ∉ escapeByte byte ∧ byteLen (escapeByte byte) ≤ 3 :=
  (escapeByte_table byte).2.1

variable {form : FormUrlencoded}

theorem Lawful.escape_eq (lawful : form.Lawful) (value : Str) :
    escape form value = (bytesOf value).flatMap escapeByte := by
  rw [escape, lawful.serialize, List.flatMap_assoc]
  simp only [escape_serializeByte]

/-- An escaped value is one path segment. -/
theorem Lawful.escape_segment (lawful : form.Lawful) (value : Str) : '/' ∉ escape form value := by
  rw [lawful.escape_eq]
  intro member
  obtain ⟨byte, -, inside⟩ := List.mem_flatMap.mp member
  exact (escapeByte_segment byte).1 inside

theorem Lawful.byteLen_escape (lawful : form.Lawful) (value : Str) : byteLen (escape form value) ≤ 3 * byteLen value := by
  rw [lawful.escape_eq, ← bytesOf_length value]
  induction bytesOf value with
  | nil => exact Nat.le_refl 0
  | cons byte bytes ih =>
    have := (escapeByte_segment byte).2
    rw [List.flatMap_cons, byteLen_append, List.length_cons]
    omega

theorem Lawful.unescape_escape (lawful : form.Lawful) (value : Str) : unescape form (escape form value) = .ok value := by
  rw [unescape, lawful.parse]
  simp

end FormUrlencoded

/-! ## The standard form encoding -/

namespace FormUrlencoded

/-- The value of a hexadecimal digit of either case. -/
def hexValue (c : Char) : Option ℕ := (List.range 16).find? fun n => c = Nat.digitChar n || c = hexDigit n

/-- Percent triplets and `+` are decoded; a stray `%` stands for itself. -/
def percentDecode : Str → List UInt8
  | [] => []
  | '%' :: high :: low :: rest =>
    match hexValue high, hexValue low with
    | some high, some low => UInt8.ofNat (16 * high + low) :: percentDecode rest
    | _, _ => 0x25 :: percentDecode (high :: low :: rest)
  | '+' :: rest => 0x20 :: percentDecode rest
  | c :: rest => String.utf8EncodeChar c ++ percentDecode rest

attribute [grind =] percentDecode

/-- Decoded bytes as text; ill-formed input is replaced. -/
def decodeText (text : Str) : Str :=
  match (percentDecode text).toByteArray.utf8Decode? with
  | some chars => chars.toList
  | none => ['\ufffd']

/-- The first nonempty pair between `&` signs. -/
def parseFirst (input : Str) : Option (Str × Str) :=
  ((input.splitOn '&').find? fun pair => !pair.isEmpty).map fun pair =>
    match splitOnce ['='] pair with
    | some (name, value) => (decodeText name, decodeText value)
    | none => (decodeText pair, [])

/-- The encoding as documented. -/
def standard : FormUrlencoded where
  byteSerialize value := (bytesOf value).flatMap serializeByte
  parse := parseFirst

/-- What decoding meets in an escaped byte: the byte itself, or its two digits. -/
private theorem decoded_table (byte : UInt8) :
    (isUnreserved byte = true → Char.ofNat byte.toNat ≠ '%' ∧ Char.ofNat byte.toNat ≠ '+' ∧
      String.utf8EncodeChar (Char.ofNat byte.toNat) = [byte]) ∧
    hexValue (hexDigit (byte.toNat / 16)) = some (byte.toNat / 16) ∧
      hexValue (hexDigit (byte.toNat % 16)) = some (byte.toNat % 16) := by
  revert byte
  exact forall_byte (by decide +kernel)

theorem percentDecode_escapeByte (byte : UInt8) (rest : Str) :
    percentDecode (escapeByte byte ++ rest) = byte :: percentDecode rest := by
  rw [escapeByte]
  split_ifs with unreserved
  · obtain ⟨notPercent, notPlus, encoded⟩ := (decoded_table byte).1 unreserved
    rw [List.singleton_append, percentDecode, encoded, List.singleton_append]
    · intro high low tail same
      exact absurd same notPercent
    · exact fun same => notPlus same
  · obtain ⟨high, low⟩ := (decoded_table byte).2
    simp only [percent, List.cons_append, List.nil_append, percentDecode, high, low]
    rw [Nat.div_add_mod, UInt8.ofNat_toNat]

theorem percentDecode_escape (bytes : List UInt8) : percentDecode (bytes.flatMap escapeByte) = bytes := by
  induction bytes with
  | nil => rfl
  | cons byte bytes ih => rw [List.flatMap_cons, percentDecode_escapeByte, ih]

/-- Escaped text is decoded to the text it was written for. -/
theorem decodeText_escape (value : Str) : decodeText ((bytesOf value).flatMap escapeByte) = value := by
  rw [decodeText, percentDecode_escape]
  have utf8 : (bytesOf value).toByteArray = value.utf8Encode := rfl
  rw [utf8, List.utf8Decode?_utf8Encode]

/-- The documented encoding has the two properties that citation ids rely on. -/
theorem standard_lawful : standard.Lawful := by
  have escaped (value : Str) : escape standard value = (bytesOf value).flatMap escapeByte := by
    simp only [escape, standard, List.flatMap_assoc, escape_serializeByte]
  constructor
  · intro value
    rfl
  · intro value
    have onePair : '&' ∉ ['v', '='] ++ escape standard value := by
      rw [escaped]
      simp [(escapeByte_table _).2.2]
    have pieces : (['v', '='] ++ escape standard value).splitOn '&' = [['v', '='] ++ escape standard value] := by
      have joined := List.splitOn_intercalate '&' (List.forall_mem_singleton.mpr onePair) (List.cons_ne_nil _ _)
      simpa [List.intercalate] using joined
    have cut : splitOnce ['='] (['v', '='] ++ escape standard value) = some (['v'], escape standard value) :=
      splitOnce_append '=' [] ['v'] _ (by decide)
    have name : decodeText ['v'] = ['v'] := decodeText_escape ['v']
    have content : decodeText (escape standard value) = value := by rw [escaped, decodeText_escape]
    change parseFirst (['v', '='] ++ escape standard value) = some (['v'], value)
    rw [parseFirst, pieces, List.find?_cons_of_pos (by simp), Option.map_some]
    simp only [cut, name, content]

end FormUrlencoded

/-! ## Bijectivity -/

namespace CitationId

variable {form : FormUrlencoded}

/-- The last segments of an encoded id. -/
def projectionSegments (form : FormUrlencoded) : CitationProjection → Str × List Str
  | .document => (['d', 'o', 'c'], [])
  | .metadata => (['m', 'e', 't', 'a', 'd', 'a', 't', 'a'], [])
  | .section' name => (['s', 'e', 'c', 't', 'i', 'o', 'n'], [['s', '-'] ++ escape form name])
  | .passage name start stop =>
    (['p', 'a', 's', 's', 'a', 'g', 'e'], [['s', '-'] ++ escape form name, decimal start, decimal stop])

/-- The segments of an encoded id. -/
def segments (form : FormUrlencoded) (id : CitationId) : List Str :=
  ['v', '1'] :: escape form id.object.jurisdiction :: escape form id.object.provider ::
    id.object.dataset.asStr.toList :: escape form id.object.id :: id.captureId ::
    (projectionSegments form id.projection).1 :: (projectionSegments form id.projection).2

/-- The facts that validation establishes. -/
structure Valid (id : CitationId) : Prop where
  jurisdiction : byteLen id.object.jurisdiction ≤ 32
  provider : byteLen id.object.provider ≤ 64
  object : byteLen id.object.id ≤ 128
  captureLength : byteLen id.captureId = 64
  captureSegment : '/' ∉ id.captureId
  sections : ∀ name, id.projection = .section' name → byteLen name ≤ 256
  passages : ∀ name start stop, id.projection = .passage name start stop →
    byteLen name ≤ 256 ∧ start < stop ∧ stop ≤ 64 * 1024 * 1024

private theorem length_of_validIdentifier {value : Str} {max : ℕ} (valid : validIdentifier value max = true) :
    byteLen value ≤ max := by
  simp only [validIdentifier, Bool.and_eq_true, decide_eq_true_eq] at valid
  exact valid.1.2

private theorem segment_of_validSnapshotId {value : Str} (valid : validSnapshotId value = true) :
    byteLen value = 64 ∧ '/' ∉ value := by
  simp only [validSnapshotId, Bool.and_eq_true, decide_eq_true_eq, List.all_eq_true] at valid
  refine ⟨valid.1, fun member => ?_⟩
  have := valid.2 _ member
  revert this
  decide

private theorem length_of_validSection {name : Str} (valid : validSection name = true) : byteLen name ≤ 256 := by
  simp only [validSection, Bool.not_eq_true', Bool.or_eq_false_iff, decide_eq_false_iff_not, Nat.not_lt] at valid
  exact valid.1.2

theorem valid_of_validate {id : CitationId} (accepted : id.validate = .ok ()) : Valid id := by
  simp only [validate, bind_eq_ok, ite_error_eq_ok] at accepted
  obtain ⟨_, object, capture, projection⟩ := accepted
  simp only [ObjectId.validate, ite_error_eq_ok, Bool.or_eq_true, not_or, Bool.not_eq_true', Bool.not_eq_false] at object
  obtain ⟨⟨⟨jurisdiction, provider⟩, identifier⟩, -⟩ := object
  obtain ⟨length, segment⟩ := segment_of_validSnapshotId (by simpa using capture)
  refine ⟨length_of_validIdentifier jurisdiction, length_of_validIdentifier provider,
    length_of_validIdentifier identifier, length, segment, ?_, ?_⟩
  · intro name shape
    rw [shape] at projection
    dsimp only at projection
    split_ifs at projection with valid
    exact length_of_validSection valid
  · intro name start stop shape
    rw [shape] at projection
    dsimp only at projection
    split_ifs at projection with outside valid
    simp only [Bool.or_eq_true, decide_eq_true_eq, not_or, Nat.not_le, Nat.not_lt] at outside
    exact ⟨length_of_validSection valid, outside.1.1, outside.2⟩

theorem encode_eq {id : CitationId} (accepted : id.validate = .ok ()) :
    encode form id = .ok (['/'].intercalate (segments form id)) := by
  rw [encode, accepted, ok_bind, pure_eq_ok, segments]
  cases id.projection <;> simp [projectionPath, projectionSegments, List.intercalate]

theorem segments_ne_nil (id : CitationId) : segments form id ≠ [] := by simp [segments]

/-- No segment contains the separator. -/
theorem segments_separated (lawful : form.Lawful) {id : CitationId} (valid : Valid id) :
    ∀ segment ∈ segments form id, '/' ∉ segment := by
  have number (n : ℕ) : '/' ∉ decimal n := not_mem_decimal (by decide)
  have tail : ∀ segment ∈ (projectionSegments form id.projection).1 :: (projectionSegments form id.projection).2,
      '/' ∉ segment := by
    cases id.projection with
    | document => simp [projectionSegments]
    | metadata => simp [projectionSegments]
    | section' name => simp [projectionSegments, lawful.escape_segment name]
    | passage name start stop => simp [projectionSegments, lawful.escape_segment name, number]
  simp only [segments, List.forall_mem_cons]
  refine ⟨by decide, lawful.escape_segment _, lawful.escape_segment _, (Dataset.asStr_segment _).1,
    lawful.escape_segment _, valid.captureSegment, ?_⟩
  exact List.forall_mem_cons.mp tail

private theorem byteLen_intercalate (segments : List Str) :
    byteLen (['/'].intercalate segments) ≤ (segments.map byteLen).sum + segments.length := by
  induction segments with
  | nil => exact Nat.le_refl 0
  | cons first rest ih =>
    cases rest with
    | nil => simp [List.intercalate]
    | cons second rest =>
      have slash : ('/' : Char).utf8Size = 1 := by decide
      rw [List.intercalate_cons_cons, byteLen_append, byteLen_append, byteLen_cons, byteLen_nil, slash, List.map_cons,
        List.sum_cons, List.length_cons]
      omega

/-- An encoded id is far below the length that decoding accepts. -/
theorem byteLen_segments (lawful : form.Lawful) {id : CitationId} (valid : Valid id) :
    byteLen (['/'].intercalate (segments form id)) ≤ 2048 := by
  have jurisdiction := lawful.byteLen_escape id.object.jurisdiction
  have provider := lawful.byteLen_escape id.object.provider
  have object := lawful.byteLen_escape id.object.id
  have dataset := (Dataset.asStr_segment id.object.dataset).2
  have tail : byteLen (projectionSegments form id.projection).1 +
      (((projectionSegments form id.projection).2.map byteLen).sum + (projectionSegments form id.projection).2.length) ≤
        810 := by
    have literal : byteLen ['s', '-'] = 2 := by decide
    cases shape : id.projection with
    | document => exact (by decide : byteLen ['d', 'o', 'c'] + 0 ≤ 810)
    | metadata => exact (by decide : byteLen ['m', 'e', 't', 'a', 'd', 'a', 't', 'a'] + 0 ≤ 810)
    | section' name =>
      have kind : byteLen ['s', 'e', 'c', 't', 'i', 'o', 'n'] = 7 := by decide
      have := lawful.byteLen_escape name
      have := valid.sections name shape
      simp only [projectionSegments, List.map_cons, List.map_nil, List.sum_cons, List.sum_nil, List.length_cons,
        List.length_nil, byteLen_append, kind, literal]
      omega
    | passage name start stop =>
      have kind : byteLen ['p', 'a', 's', 's', 'a', 'g', 'e'] = 7 := by decide
      have := lawful.byteLen_escape name
      obtain ⟨short, ordered, bound⟩ := valid.passages name start stop shape
      have : byteLen (decimal stop) ≤ 8 := @byteLen_decimal_le _ 8 (by decide) (by omega)
      have : byteLen (decimal start) ≤ 8 := @byteLen_decimal_le _ 8 (by decide) (by omega)
      simp only [projectionSegments, List.map_cons, List.map_nil, List.sum_cons, List.sum_nil, List.length_cons,
        List.length_nil, byteLen_append, kind, literal]
      omega
  have version : byteLen ['v', '1'] = 2 := by decide
  have := valid.jurisdiction
  have := valid.provider
  have := valid.object
  have := valid.captureLength
  refine (byteLen_intercalate _).trans ?_
  simp only [segments, List.map_cons, List.sum_cons, List.length_cons, version]
  omega

theorem sectionOf_escape (lawful : form.Lawful) (name : Str) :
    sectionOf form ('s' :: '-' :: escape form name) = .ok name := by
  rw [sectionOf, show 's' :: '-' :: escape form name = ['s', '-'] ++ escape form name from rfl, stripPrefix_append]
  exact lawful.unescape_escape name

/-- The last segments name the projection they were written for. -/
theorem projectionOf_segments (lawful : form.Lawful) {id : CitationId} (valid : Valid id) :
    projectionOf form (projectionSegments form id.projection).1 (projectionSegments form id.projection).2 =
      .ok id.projection := by
  cases shape : id.projection with
  | document => rfl
  | metadata => rfl
  | section' name => simp [projectionSegments, projectionOf, sectionOf_escape lawful]
  | passage name start stop =>
    obtain ⟨-, ordered, bound⟩ := valid.passages name start stop shape
    have first : parseUsize (decimal start) = some start := parseUsize_decimal (by omega)
    have second : parseUsize (decimal stop) = some stop := parseUsize_decimal (by omega)
    simp [projectionSegments, projectionOf, sectionOf_escape lawful, first, second]

/-- Encoding a valid citation succeeds within the limit, and decoding gives it back. -/
theorem decode_encode (lawful : form.Lawful) {id : CitationId} (accepted : id.validate = .ok ()) :
    ∃ text, encode form id = .ok text ∧ byteLen text ≤ 2048 ∧ decode form text = .ok id := by
  have valid := valid_of_validate accepted
  have short := byteLen_segments lawful valid
  have encoded := @encode_eq form id accepted
  refine ⟨_, encoded, short, ?_⟩
  have parts : (['/'].intercalate (segments form id)).splitOn '/' = segments form id :=
    List.splitOn_intercalate '/' (segments_separated lawful valid) (segments_ne_nil id)
  rw [decode, if_neg (Nat.not_lt.mpr short), parts]
  simp only [segments, ne_eq, not_true_eq_false, if_false, lawful.unescape_escape, Dataset.fromName_asStr,
    Option.elim_some, ok_bind, projectionOf_segments lawful valid]
  simp only [segments] at encoded
  simp [encoded]

/-- What is decoded is encoded as it was written. -/
theorem encode_decode {text : Str} {id : CitationId} (decoded : decode form text = .ok id) :
    encode form id = .ok text := by
  rw [decode] at decoded
  split_ifs at decoded
  split at decoded
  · simp only [ite_error_eq_ok, bind_eq_ok] at decoded
    obtain ⟨-, _, -, _, -, _, -, _, -, _, -, encoded, ran, same, result⟩ := decoded
    cases result
    rw [ran, not_not.mp same]
  · cases decoded

/-- Citation ids are a bijective encoding of the valid citations. -/
theorem citation_bijective (form : FormUrlencoded) (lawful : form.Lawful) :
    (∀ id : CitationId, id.validate = .ok () →
      ∃ text, encode form id = .ok text ∧ byteLen text ≤ 2048 ∧ decode form text = .ok id) ∧
    (∀ text id, decode form text = .ok id → encode form id = .ok text) ∧
    (∀ text other id, decode form text = .ok id → decode form other = .ok id → text = other) := by
  refine ⟨fun id accepted => decode_encode lawful accepted, fun text id => encode_decode, ?_⟩
  intro text other id first second
  have same := (encode_decode first).symm.trans (encode_decode second)
  exact Except.ok.inj same

/-- A passage of a section whose provider locator is `../`. -/
def traversingPassage : CitationId where
  object := ⟨['k', 'r'], ['l', 'a', 'w', '_', 'g', 'o', '_', 'k', 'r'], .precedent, ['2', '2', '8', '5', '4', '1']⟩
  captureId := List.replicate 64 'a'
  projection := .passage ['.', '.', '/', '조', ' ', '+', '%', '2', '0'] 3 40

theorem citation_bijective_standard :
    traversingPassage.validate = .ok () ∧
    (∃ text, encode FormUrlencoded.standard traversingPassage = .ok text ∧ byteLen text ≤ 2048 ∧
      decode FormUrlencoded.standard text = .ok traversingPassage) ∧
    (∀ text, decode FormUrlencoded.standard text = .ok traversingPassage →
      encode FormUrlencoded.standard traversingPassage = .ok text) := by
  have valid : traversingPassage.validate = .ok () := by decide +kernel
  obtain ⟨encoded, decoded, -⟩ := citation_bijective FormUrlencoded.standard FormUrlencoded.standard_lawful
  exact ⟨valid, encoded traversingPassage valid, fun text => decoded text traversingPassage⟩

end CitationId

end OpenLegal.Legal
