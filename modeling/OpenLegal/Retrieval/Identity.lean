import OpenLegal.Retrieval.Refresh
import OpenLegal.Rust.Reader
import OpenLegal.Theory.SelfDelimiting

/-! # Identities of retained queries and captures

The identity of a query and the integrity text of a capture are concatenations of fields behind their
lengths, tags and integers of fixed width. Each part can be read off the front, so the texts determine
what they were made from.
-/

namespace OpenLegal.Retrieval

open Rust Rust.Str Legal Theory

structure HistoryKey where
  nameSpace : Str
  provider : Str
  dataset : Str
  query : Query
deriving DecidableEq, Repr

structure PersistentKey where
  history : HistoryKey
  processorVersion : Str
  schemaVersion : ℕ
deriving DecidableEq, Repr

/-- `(n as u64).to_be_bytes()`. -/
def toBeBytes8 (n : ℕ) : Bytes := toBeBytes (n / 2 ^ 32) ++ toBeBytes n

/-- A field behind its length. -/
def field (value : Str) : Bytes := toBeBytes8 (byteLen value) ++ value.asBytes

/-- The operation tag and what belongs to the operation. -/
def operation : Query → Bytes
  | .get _ id => [0] ++ field id
  | .search _ query page pageSize => [1] ++ field query ++ toBeBytes page ++ toBeBytes pageSize

def identityTag : Bytes := Str.asBytes "openlegal-query-identity-v1\x00".toList

def identityBytes (key : HistoryKey) : Bytes :=
  identityTag ++ field key.nameSpace ++ field key.provider ++ field key.dataset ++ field key.query.source ++
    operation key.query

def canonicalIdentity (key : HistoryKey) : Except RetrievalError Bytes := do
  key.query.validate
  if !validIdentifier key.nameSpace 128 || !validIdentifier key.provider 64 || !validIdentifier key.dataset 64 then
    .error .invalidInput
  else
    pure (identityBytes key)

/-- The serializer of the processed data and the digest. -/
structure Codec where
  json : RetrievalData → Bytes
  sha256 : Bytes → Vector UInt8 32

namespace Codec

variable (codec : Codec)

def processedBytes (data : RetrievalData) : Except RetrievalError Bytes :=
  if (codec.json data).length > maxProcessedBytes then .error .resourceLimit else .ok (codec.json data)

def processedDigest (data : RetrievalData) : Except RetrievalError (Vector UInt8 32) :=
  (codec.processedBytes data).map codec.sha256

/-- `{byte:02x}`. -/
def hexByte (byte : UInt8) : Str :=
  let digit (n : ℕ) : Char := "0123456789abcdef".toList.getD n '0'
  [digit (byte.toNat / 16), digit (byte.toNat % 16)]

def digestHex (bytes : Bytes) : Str := (codec.sha256 bytes).toList.flatMap hexByte

/-- The provenance belongs to the key and the raw bytes, and every text is short. -/
def validProvenance (key : PersistentKey) (value : StoredPayload) : Bool :=
  key.schemaVersion = 1 && !key.processorVersion.isEmpty && byteLen key.processorVersion ≤ 128 &&
    value.provenance.provider = key.history.provider && value.provenance.dataset = key.history.dataset &&
    value.provenance.processorVersion = key.processorVersion && value.raw.length ≤ maxRawBytes &&
    value.provenance.payloadSha256 = codec.digestHex value.raw && !value.provenance.sourceReference.isEmpty &&
    byteLen value.provenance.sourceReference ≤ 2048 &&
    !value.provenance.sourceReference.any (['?', '#', '@'].contains ·) &&
    !value.provenance.sourceReference.any isControl && value.snapshot.all (validSnapshotId ·.snapshotId)

/-- The retained data answers the query of the key. -/
def validRetained (query : Query) : RetrievalData → Bool
  | .get record =>
    match query with
    | .get _ id => record.id = id && validRecord record query
    | .search .. => false
  | .search result =>
    match query with
    | .search _ _ page pageSize =>
      result.page = page && result.pageSize = pageSize && result.total ≤ 20000 &&
        result.records.length = min pageSize (result.total - page * pageSize) &&
        result.records.all (validRecord · query) && decide (result.records.map (·.id)).Nodup
    | .get .. => false

def validatePayload (key : PersistentKey) (value : StoredPayload) : Except RetrievalError Unit :=
  match canonicalIdentity key.history with
  | .error _ => .error .storageCorrupt
  | .ok _ =>
    if !codec.validProvenance key value then .error .storageCorrupt
    else if !validRetained key.history.query value.data then .error .storageCorrupt
    else
      match codec.processedBytes value.data with
      | .error _ => .error .storageCorrupt
      | .ok _ => .ok ()

end Codec

def integrityTag : Bytes := Str.asBytes "openlegal-capture-integrity-v1\x00".toList

def snapshotBytes : Option SnapshotReference → Bytes
  | some snapshot => [1] ++ field snapshot.snapshotId ++ toBeBytes8 snapshot.capturedAt
  | none => [0]

/-- The text that `immutable_payload_digest` hashes. -/
def integrityInput (codec : Codec) (key : PersistentKey) (value : StoredPayload) : Except RetrievalError Bytes := do
  codec.validatePayload key value
  let identity ← canonicalIdentity key.history
  let processed ← codec.processedDigest value.data
  pure (integrityTag ++ identity ++ field key.processorVersion ++ toBeBytes key.schemaVersion ++ processed.toList ++
    (codec.sha256 value.raw).toList ++ toBeBytes8 value.raw.length ++ field value.provenance.sourceReference ++
    toBeBytes8 value.provenance.retrievedAt ++ toBeBytes8 value.provenance.validatedAt ++ snapshotBytes value.snapshot)

def immutablePayloadDigest (codec : Codec) (key : PersistentKey) (value : StoredPayload) :
    Except RetrievalError (Vector UInt8 32) :=
  (integrityInput codec key value).map codec.sha256

/-! ## The parts -/

theorem toBeBytes_delimiting : SelfDelimiting (· < 2 ^ 32) toBeBytes := by
  apply SelfDelimiting.of_length (fun n _ => toBeBytes_length n)
  intro n m small small' same
  rw [← fromBeBytes_toBeBytes small, same, fromBeBytes_toBeBytes small']

theorem toBeBytes_mod (n : ℕ) : toBeBytes n = toBeBytes (n % 2 ^ 32) := by
  have byte (a b : ℕ) (same : a % 256 = b % 256) : UInt8.ofNat a = UInt8.ofNat b := by
    apply UInt8.toNat_inj.mp
    rw [UInt8.toNat_ofNat', UInt8.toNat_ofNat']
    exact same
  rw [toBeBytes, toBeBytes, byte (n / 2 ^ 24) (n % 2 ^ 32 / 2 ^ 24) (by omega),
    byte (n / 2 ^ 16) (n % 2 ^ 32 / 2 ^ 16) (by omega), byte (n / 2 ^ 8) (n % 2 ^ 32 / 2 ^ 8) (by omega),
    byte n (n % 2 ^ 32) (by omega)]

theorem toBeBytes8_delimiting : SelfDelimiting (· < 2 ^ 64) toBeBytes8 := by
  intro n m small small' rest rest' same
  rw [toBeBytes8, toBeBytes8, List.append_assoc, List.append_assoc] at same
  obtain ⟨high, same⟩ := toBeBytes_delimiting (by omega : n / 2 ^ 32 < 2 ^ 32) (by omega : m / 2 ^ 32 < 2 ^ 32) same
  rw [toBeBytes_mod n, toBeBytes_mod m] at same
  obtain ⟨low, same⟩ := toBeBytes_delimiting (by omega : n % 2 ^ 32 < 2 ^ 32) (by omega : m % 2 ^ 32 < 2 ^ 32) same
  exact ⟨by omega, same⟩

theorem asBytes_injective : Function.Injective Str.asBytes := by
  intro s t same
  apply Option.some.inj
  rw [← fromUtf8_asBytes s, same, fromUtf8_asBytes]

theorem field_delimiting : SelfDelimiting (fun value : Str => byteLen value < 2 ^ 64) field := by
  have bodies : SelfDelimiting (fun body : Bytes => body.length < 2 ^ 64) fun body => toBeBytes8 body.length ++ body :=
    (toBeBytes8_delimiting).of_size fun _ small => small
  have fields := @SelfDelimiting.comap _ _ _ _ _ (fun value : Str => byteLen value < 2 ^ 64) Str.asBytes bodies
    (fun value small => by rwa [Str.asBytes_length]) asBytes_injective
  intro s t small small' rest rest' same
  apply fields small small'
  simpa only [field, Str.asBytes_length] using same

/-! ## Identities -/

/-- What `canonical_identity` accepts. -/
structure HistoryKey.Valid (key : HistoryKey) : Prop where
  query : key.query.validate = .ok ()
  nameSpace : validIdentifier key.nameSpace 128 = true
  provider : validIdentifier key.provider 64 = true
  dataset : validIdentifier key.dataset 64 = true

theorem canonicalIdentity_eq_ok {key : HistoryKey} {bytes : Bytes} :
    canonicalIdentity key = .ok bytes ↔ key.Valid ∧ bytes = identityBytes key := by
  simp only [canonicalIdentity, bind_eq_ok, ite_error_eq_ok]
  constructor
  · rintro ⟨⟨⟩, query, valid, same⟩
    simp only [Bool.or_eq_false_iff, Bool.not_eq_false', Bool.not_eq_true] at valid
    cases same
    exact ⟨⟨query, valid.1.1, valid.1.2, valid.2⟩, rfl⟩
  · rintro ⟨⟨query, nameSpace, provider, dataset⟩, rfl⟩
    exact ⟨(), query, by simp [nameSpace, provider, dataset], rfl⟩

theorem byteLen_of_validIdentifier {value : Str} {max : ℕ} (valid : validIdentifier value max = true) (small : max < 2 ^ 64) :
    byteLen value < 2 ^ 64 := by
  simp only [validIdentifier, Bool.and_eq_true, decide_eq_true_eq] at valid
  omega

/-- The parts of a valid query are short. -/
structure Query.Fits (query : Query) : Prop where
  source : byteLen query.source < 2 ^ 64
  operation : match query with
    | .get _ id => byteLen id < 2 ^ 64
    | .search _ text page pageSize => byteLen text < 2 ^ 64 ∧ page < 2 ^ 32 ∧ pageSize < 2 ^ 32

theorem Query.fits_of_validate {query : Query} (valid : query.validate = .ok ()) : query.Fits := by
  rw [Query.validate.eq_def] at valid
  split_ifs at valid with source
  rw [Bool.not_eq_true', Bool.not_eq_false] at source
  refine ⟨byteLen_of_validIdentifier source (by decide), ?_⟩
  cases query with
  | get source id =>
    dsimp only at valid ⊢
    split_ifs at valid with named
    rw [Bool.not_eq_true', Bool.not_eq_false] at named
    exact byteLen_of_validIdentifier named (by decide)
  | search source text page pageSize =>
    dsimp only at valid ⊢
    split_ifs at valid with bounds
    simp only [Bool.or_eq_true, decide_eq_true_eq, Bool.not_eq_true', Bool.and_eq_false_iff, decide_eq_false_iff_not,
      not_or, not_not] at bounds
    omega

/-- With its source, the operation determines the query. -/
theorem operation_delimiting {query query' : Query} (sources : query.source = query'.source) (fits : query.Fits)
    (fits' : query'.Fits) {rest rest' : Bytes} (same : operation query ++ rest = operation query' ++ rest') :
    query = query' ∧ rest = rest' := by
  have short := fits.operation
  have short' := fits'.operation
  cases query with
  | get source id =>
    cases query' with
    | get source' id' =>
      simp only [operation, List.append_assoc] at same
      obtain ⟨ids, behind⟩ := field_delimiting short short' (List.append_cancel_left same)
      exact ⟨by rw [Query.get.injEq]; exact ⟨sources, ids⟩, behind⟩
    | search => cases same
  | search source text page pageSize =>
    cases query' with
    | get => cases same
    | search source' text' page' pageSize' =>
      simp only [operation, List.append_assoc] at same
      obtain ⟨texts, behind⟩ := field_delimiting short.1 short'.1 (List.append_cancel_left same)
      obtain ⟨pages, behind⟩ := toBeBytes_delimiting short.2.1 short'.2.1 behind
      obtain ⟨sizes, behind⟩ := toBeBytes_delimiting short.2.2 short'.2.2 behind
      exact ⟨by rw [Query.search.injEq]; exact ⟨sources, texts, pages, sizes⟩, behind⟩

theorem identity_delimiting : SelfDelimiting HistoryKey.Valid identityBytes := by
  rintro ⟨nameSpace, provider, dataset, query⟩ ⟨nameSpace', provider', dataset', query'⟩ valid valid' rest rest' same
  simp only [identityBytes, List.append_assoc] at same
  have tagged := List.append_cancel_left same
  obtain ⟨nameSpaces, behind⟩ := field_delimiting (byteLen_of_validIdentifier valid.nameSpace (by decide))
    (byteLen_of_validIdentifier valid'.nameSpace (by decide)) tagged
  obtain ⟨providers, behind⟩ := field_delimiting (byteLen_of_validIdentifier valid.provider (by decide))
    (byteLen_of_validIdentifier valid'.provider (by decide)) behind
  obtain ⟨datasets, behind⟩ := field_delimiting (byteLen_of_validIdentifier valid.dataset (by decide))
    (byteLen_of_validIdentifier valid'.dataset (by decide)) behind
  have fits := Query.fits_of_validate valid.query
  have fits' := Query.fits_of_validate valid'.query
  obtain ⟨sources, behind⟩ := field_delimiting fits.source fits'.source behind
  obtain ⟨queries, behind⟩ := operation_delimiting sources fits fits' behind
  exact ⟨by rw [HistoryKey.mk.injEq]; exact ⟨nameSpaces, providers, datasets, queries⟩, behind⟩

/-! ## Captures -/

/-- The times of a payload are of type `u64`. -/
structure StoredPayload.Timed (value : StoredPayload) : Prop where
  retrievedAt : value.provenance.retrievedAt < 2 ^ 64
  validatedAt : value.provenance.validatedAt < 2 ^ 64
  capturedAt : ∀ snapshot, value.snapshot = some snapshot → snapshot.capturedAt < 2 ^ 64

/-- Two captures agree in everything that their integrity text records. -/
structure SameCapture (codec : Codec) (key key' : PersistentKey) (value value' : StoredPayload) : Prop where
  key : key = key'
  processed : codec.processedDigest value.data = codec.processedDigest value'.data
  raw : codec.sha256 value.raw = codec.sha256 value'.raw
  length : value.raw.length = value'.raw.length
  sourceReference : value.provenance.sourceReference = value'.provenance.sourceReference
  retrievedAt : value.provenance.retrievedAt = value'.provenance.retrievedAt
  validatedAt : value.provenance.validatedAt = value'.provenance.validatedAt
  snapshot : value.snapshot = value'.snapshot

/-- What a valid payload bounds. -/
structure Bounded (codec : Codec) (key : PersistentKey) (value : StoredPayload) : Prop where
  history : key.history.Valid
  schemaVersion : key.schemaVersion = 1
  processorVersion : byteLen key.processorVersion < 2 ^ 64
  raw : value.raw.length < 2 ^ 64
  sourceReference : byteLen value.provenance.sourceReference < 2 ^ 64
  snapshot : ∀ snapshot, value.snapshot = some snapshot → byteLen snapshot.snapshotId < 2 ^ 64

theorem integrityInput_eq_ok {codec : Codec} {key : PersistentKey} {value : StoredPayload} {bytes : Bytes}
    (success : integrityInput codec key value = .ok bytes) :
    Bounded codec key value ∧ ∃ processed, codec.processedDigest value.data = .ok processed ∧
      bytes = integrityTag ++ (identityBytes key.history ++ (field key.processorVersion ++ (toBeBytes key.schemaVersion ++
        (processed.toList ++ ((codec.sha256 value.raw).toList ++ (toBeBytes8 value.raw.length ++
          (field value.provenance.sourceReference ++ (toBeBytes8 value.provenance.retrievedAt ++
            (toBeBytes8 value.provenance.validatedAt ++ snapshotBytes value.snapshot))))))))) := by
  simp only [integrityInput, bind_eq_ok, pure_eq_ok] at success
  obtain ⟨⟨⟩, valid, identity, known, processed, digested, same⟩ := success
  obtain ⟨validKey, rfl⟩ := (canonicalIdentity_eq_ok).mp known
  refine ⟨?_, processed, digested, ?_⟩
  · rw [Codec.validatePayload, known] at valid
    dsimp only at valid
    split_ifs at valid with provenance
    simp only [Codec.validProvenance, Bool.not_eq_true', Bool.not_eq_false, Bool.and_eq_true, decide_eq_true_eq] at provenance
    obtain ⟨⟨⟨⟨⟨⟨⟨⟨⟨⟨⟨⟨schema, -⟩, version⟩, -⟩, -⟩, -⟩, raw⟩, -⟩, -⟩, reference⟩, -⟩, -⟩, snapshot⟩ := provenance
    have limit : maxRawBytes = 1024 * 1024 := rfl
    refine ⟨validKey, schema, by omega, by omega, by omega, ?_⟩
    intro found here
    rw [here, Option.all_some, validSnapshotId, Bool.and_eq_true, decide_eq_true_eq] at snapshot
    omega
  · cases same
    simp only [List.append_assoc]

theorem vector_delimiting : SelfDelimiting (fun _ : Vector UInt8 32 => True) Vector.toList :=
  .of_length (fun digest _ => digest.length_toList) fun _ _ _ _ same => Vector.toList_inj.mp same

theorem snapshot_eq {snapshot snapshot' : Option SnapshotReference}
    (named : ∀ found, snapshot = some found → byteLen found.snapshotId < 2 ^ 64)
    (named' : ∀ found, snapshot' = some found → byteLen found.snapshotId < 2 ^ 64)
    (timed : ∀ found, snapshot = some found → found.capturedAt < 2 ^ 64)
    (timed' : ∀ found, snapshot' = some found → found.capturedAt < 2 ^ 64)
    (same : snapshotBytes snapshot = snapshotBytes snapshot') : snapshot = snapshot' := by
  cases snapshot with
  | none =>
    cases snapshot' with
    | none => rfl
    | some => cases same
  | some found =>
    cases snapshot' with
    | none => cases same
    | some found' =>
      simp only [snapshotBytes, List.append_assoc] at same
      obtain ⟨ids, times⟩ := field_delimiting (named found rfl) (named' found' rfl) (List.append_cancel_left same)
      rw [← List.append_nil (toBeBytes8 found.capturedAt), ← List.append_nil (toBeBytes8 found'.capturedAt)] at times
      obtain ⟨captured, -⟩ := toBeBytes8_delimiting (timed found rfl) (timed' found' rfl) times
      cases found
      cases found'
      rw [Option.some.injEq, SnapshotReference.mk.injEq]
      exact ⟨ids, captured⟩

/-- The integrity text determines what it records. -/
theorem sameCapture_of_integrityInput {codec : Codec} {key key' : PersistentKey} {value value' : StoredPayload} {bytes : Bytes}
    (timed : value.Timed) (timed' : value'.Timed) (success : integrityInput codec key value = .ok bytes)
    (success' : integrityInput codec key' value' = .ok bytes) : SameCapture codec key key' value value' := by
  obtain ⟨bounded, processed, digested, rfl⟩ := integrityInput_eq_ok success
  obtain ⟨bounded', processed', digested', same⟩ := integrityInput_eq_ok success'
  have tagged := List.append_cancel_left same
  obtain ⟨histories, behind⟩ := identity_delimiting bounded.history bounded'.history tagged
  obtain ⟨versions, behind⟩ := field_delimiting bounded.processorVersion bounded'.processorVersion behind
  obtain ⟨schemas, behind⟩ := toBeBytes_delimiting (by rw [bounded.schemaVersion]; decide)
    (by rw [bounded'.schemaVersion]; decide) behind
  obtain ⟨data, behind⟩ := vector_delimiting trivial trivial behind
  obtain ⟨raw, behind⟩ := vector_delimiting trivial trivial behind
  obtain ⟨lengths, behind⟩ := toBeBytes8_delimiting bounded.raw bounded'.raw behind
  obtain ⟨references, behind⟩ := field_delimiting bounded.sourceReference bounded'.sourceReference behind
  obtain ⟨retrieved, behind⟩ := toBeBytes8_delimiting timed.retrievedAt timed'.retrievedAt behind
  obtain ⟨validated, behind⟩ := toBeBytes8_delimiting timed.validatedAt timed'.validatedAt behind
  have snapshots := snapshot_eq bounded.snapshot bounded'.snapshot timed.capturedAt timed'.capturedAt behind
  have keys : key = key' := by
    cases key
    cases key'
    rw [PersistentKey.mk.injEq]
    exact ⟨histories, versions, schemas⟩
  refine ⟨keys, ?_, raw, lengths, references, retrieved, validated, snapshots⟩
  rw [digested, digested', data]

/-- Captures with one digest agree, or their integrity texts are a collision of the hash. -/
theorem sameCapture_of_digest {codec : Codec} {key key' : PersistentKey} {value value' : StoredPayload}
    {digest : Vector UInt8 32} (timed : value.Timed) (timed' : value'.Timed)
    (success : immutablePayloadDigest codec key value = .ok digest)
    (success' : immutablePayloadDigest codec key' value' = .ok digest) :
    SameCapture codec key key' value value' ∨ ∃ bytes bytes', integrityInput codec key value = .ok bytes ∧
      integrityInput codec key' value' = .ok bytes' ∧ bytes ≠ bytes' ∧ codec.sha256 bytes = codec.sha256 bytes' := by
  obtain ⟨bytes, here, hashed⟩ := map_eq_ok.mp success
  obtain ⟨bytes', there, hashed'⟩ := map_eq_ok.mp success'
  by_cases same : bytes = bytes'
  · rw [← same] at there
    exact .inl (sameCapture_of_integrityInput timed timed' here there)
  · exact .inr ⟨bytes, bytes', here, there, same, hashed.trans hashed'.symm⟩

/-- Identities are told apart by their beginnings, and captures by their integrity texts. -/
theorem identity_unambiguous (codec : Codec) :
    (∀ key key' bytes bytes', canonicalIdentity key = .ok bytes → canonicalIdentity key' = .ok bytes' →
        bytes <+: bytes' → key = key') ∧
      ∀ key key' (value value' : StoredPayload) bytes, value.Timed → value'.Timed →
        integrityInput codec key value = .ok bytes → integrityInput codec key' value' = .ok bytes →
          SameCapture codec key key' value value' := by
  constructor
  · intro key key' bytes bytes' known known' begins
    obtain ⟨valid, rfl⟩ := canonicalIdentity_eq_ok.mp known
    obtain ⟨valid', rfl⟩ := canonicalIdentity_eq_ok.mp known'
    exact identity_delimiting.eq_of_isPrefix valid valid' begins
  · intro key key' value value' bytes timed timed' success success'
    exact sameCapture_of_integrityInput timed timed' success success'

/-! ## A capture of one record -/

namespace Sample

def history : HistoryKey := ⟨['n'], ['p'], ['d'], .get ['s'] ['a']⟩

def record : Record := ⟨['s'], ['a'], ['t'], [], true⟩

/-- The digests of the empty text and of the record's JSON. -/
def codec : Codec where
  json := fun _ =>
    Str.asBytes "\x7b\"source\":\"s\",\"id\":\"a\",\"title\":\"t\",\"body\":\"\",\"synthetic\":true\x7d".toList
  sha256 := fun bytes =>
    if bytes = [] then #v[0xe3, 0xb0, 0xc4, 0x42, 0x98, 0xfc, 0x1c, 0x14, 0x9a, 0xfb, 0xf4, 0xc8, 0x99, 0x6f, 0xb9, 0x24,
      0x27, 0xae, 0x41, 0xe4, 0x64, 0x9b, 0x93, 0x4c, 0xa4, 0x95, 0x99, 0x1b, 0x78, 0x52, 0xb8, 0x55]
    else #v[0x75, 0xb3, 0x57, 0xde, 0x0a, 0x7e, 0x43, 0xb7, 0xc9, 0xba, 0xe5, 0xa5, 0xde, 0xd5, 0x28, 0x01,
      0x04, 0x7f, 0x56, 0xd9, 0xf3, 0x5f, 0x18, 0xa7, 0x2a, 0x2d, 0xbb, 0x69, 0x69, 0x03, 0x29, 0x8e]

def payload : StoredPayload where
  data := .get record
  provenance := ⟨['p'], ['d'], ['r'], codec.digestHex [], ['v'], 7, 7⟩
  raw := []
  bytes := 1087
  snapshot := none

end Sample

open Sample in
theorem identity_unambiguous_sample :
    (canonicalIdentity history).isOk = true ∧ (integrityInput codec ⟨history, ['v'], 1⟩ payload).isOk = true ∧
      SameCapture codec ⟨history, ['v'], 1⟩ ⟨history, ['v'], 1⟩ payload payload :=
  have accepted : ∃ bytes, integrityInput codec ⟨history, ['v'], 1⟩ payload = .ok bytes := by
    cases success : integrityInput codec ⟨history, ['v'], 1⟩ payload with
    | ok bytes => exact ⟨bytes, rfl⟩
    | error error =>
      have ok : (integrityInput codec ⟨history, ['v'], 1⟩ payload).isOk = true := by decide +kernel
      rw [success] at ok
      cases ok
  ⟨by decide +kernel, by decide +kernel, accepted.elim fun bytes success =>
    (identity_unambiguous codec).2 _ _ payload payload bytes ⟨by decide, by decide, by rintro _ ⟨⟩⟩
      ⟨by decide, by decide, by rintro _ ⟨⟩⟩ success success⟩

end OpenLegal.Retrieval
