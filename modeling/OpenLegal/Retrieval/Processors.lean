import OpenLegal.Retrieval.Identity

/-! # Payload processors

The two synthetic layouts are decoded and normalized by one crate, and what was retained is checked by another. The checks
are written down twice; what the first accepts, the second accepts.
-/

namespace OpenLegal.Retrieval.Normalization

open Rust Rust.Str Legal

def maxPayloadBytes : ℕ := 1024 * 1024

def maxProcessedBytes : ℕ := 64 * 1024

def maxStringBytes : ℕ := 16 * 1024

/-- Explicit, deterministic work accounting. -/
structure WorkBudget where
  remaining : ℕ := 2 * maxPayloadBytes
deriving DecidableEq

def WorkBudget.spend (budget : WorkBudget) (amount : ℕ) : Except RetrievalError WorkBudget :=
  match checkedSub budget.remaining amount with
  | some remaining => .ok ⟨remaining⟩
  | none => .error .resourceLimit

/-! ## The layouts -/

structure ARecord where
  id : Str
  title : Str
  body : Str

structure ASearch where
  kind : Str
  items : List ARecord
  page : UInt32
  pageSize : UInt32
  total : UInt32

structure AGet where
  kind : Str
  item : ARecord

structure BRecord where
  key : Str
  label : Str
  text : Str

structure Pagination where
  index : UInt32
  size : UInt32
  count : UInt32

structure BSearch where
  format : Str
  results : List BRecord
  pagination : Pagination

structure BGet where
  format : Str
  document : BRecord

/-- The JSON decoders of the layouts. -/
structure Decoders where
  aSearch : Bytes → Option ASearch
  aGet : Bytes → Option AGet
  bSearch : Bytes → Option BSearch
  bGet : Bytes → Option BGet

def decode {α : Type} (decoder : Bytes → Option α) (bytes : Bytes) : Except RetrievalError α :=
  match decoder bytes with
  | some parsed => .ok parsed
  | none => .error .normalizationFailed

/-! ## Normalization -/

def record (query : Query) (id title body : Str) : Except RetrievalError Record :=
  if !validIdentifier id 128 || title.isEmpty || byteLen title > 1024 || byteLen body > maxStringBytes then
    .error .normalizationFailed
  else .ok ⟨query.source, id, title, body, true⟩

def search (query : Query) (records : List Record) (page pageSize total : ℕ) : Except RetrievalError RetrievalData :=
  match query with
  | .get .. => .error .normalizationFailed
  | .search _ _ requestedPage requestedSize =>
    if page ≠ requestedPage || pageSize ≠ requestedSize || records.length > pageSize || total > 20000 ||
        records.length ≠ min pageSize (total - page * pageSize) then .error .normalizationFailed
    else if !decide (records.map (·.id)).Nodup then .error .normalizationFailed
    else .ok (.search ⟨records, page, pageSize, total⟩)

def finish (codec : Codec) (query : Query) (output : RetrievalData) : Except RetrievalError RetrievalData :=
  let other : Bool :=
    match query, output with
    | .get _ id, .get record => id != record.id
    | _, _ => false
  if other then .error .normalizationFailed
  -- the counter takes each piece of the serialization off the limit
  else if (codec.json output).length > maxProcessedBytes then .error .resourceLimit
  else .ok output

/-- The state of the lexical scan; the innermost count of the stack is the first. -/
structure Scan where
  stack : List ℕ := []
  inString : Bool := false
  escaped : Bool := false
  length : ℕ := 0
  budget : WorkBudget

def scanByte (scan : Scan) (byte : UInt8) : Except RetrievalError Scan := do
  let budget ← scan.budget.spend 1
  if scan.inString then
    if scan.length + 1 > maxStringBytes then .error .resourceLimit
    else if scan.escaped then .ok { scan with budget, length := scan.length + 1, escaped := false }
    else if byte = '\\'.toUInt8 then .ok { scan with budget, length := scan.length + 1, escaped := true }
    else if byte = '"'.toUInt8 then .ok { scan with budget, length := scan.length + 1, inString := false }
    else .ok { scan with budget, length := scan.length + 1 }
  else if byte = '"'.toUInt8 then .ok { scan with budget, inString := true, length := 0 }
  else if byte = '{'.toUInt8 || byte = '['.toUInt8 then
    if scan.stack.length ≥ 32 then .error .resourceLimit else .ok { scan with budget, stack := 1 :: scan.stack }
  else if byte = '}'.toUInt8 || byte = ']'.toUInt8 then .ok { scan with budget, stack := scan.stack.tail }
  else if byte = ','.toUInt8 then
    match scan.stack with
    | [] => .ok { scan with budget }
    | count :: outer => if count + 1 > 1000 then .error .resourceLimit else .ok { scan with budget, stack := (count + 1) :: outer }
  else .ok { scan with budget }

/-- Limits on depth, strings, work and collections, before anything is decoded. -/
def preflight (bytes : Bytes) (budget : WorkBudget) : Except RetrievalError WorkBudget :=
  if bytes.length > maxPayloadBytes then .error .resourceLimit
  else (bytes.foldlM scanByte { budget }).map Scan.budget

/-- The part of a layout that a query asks for. -/
def answer (ofSearch ofGet : Bytes → Query → Except RetrievalError RetrievalData) (bytes : Bytes) (query : Query) :
    Except RetrievalError RetrievalData :=
  match query with
  | .search .. => ofSearch bytes query
  | .get .. => ofGet bytes query

/-- What both processors do with the parts of their layout. -/
def processWith (codec : Codec) (ofSearch ofGet : Bytes → Query → Except RetrievalError RetrievalData) (bytes : Bytes)
    (query : Query) (budget : WorkBudget) : Except RetrievalError (RetrievalData × WorkBudget) := do
  query.validate
  let budget ← preflight bytes budget
  let budget ← budget.spend bytes.length
  let result ← answer ofSearch ofGet bytes query
  let output ← finish codec query result
  pure (output, budget)

structure PayloadProcessor where
  version : Str
  process : Bytes → Query → WorkBudget → Except RetrievalError (RetrievalData × WorkBudget)

def layoutAMarker : Str := "synthetic-layout-a".toList

def layoutASearch (decoders : Decoders) (bytes : Bytes) (query : Query) : Except RetrievalError RetrievalData := do
  let parsed ← decode decoders.aSearch bytes
  if parsed.kind ≠ layoutAMarker then .error .normalizationFailed
  else do
    let records ← parsed.items.mapM fun r => record query r.id r.title r.body
    search query records parsed.page.toNat parsed.pageSize.toNat parsed.total.toNat

def layoutAGet (decoders : Decoders) (bytes : Bytes) (query : Query) : Except RetrievalError RetrievalData := do
  let parsed ← decode decoders.aGet bytes
  if parsed.kind ≠ layoutAMarker then .error .normalizationFailed
  else do
    let item ← record query parsed.item.id parsed.item.title parsed.item.body
    pure (.get item)

def layoutAProcessor (codec : Codec) (decoders : Decoders) : PayloadProcessor where
  version := "synthetic-layout-a-v1".toList
  process := processWith codec (layoutASearch decoders) (layoutAGet decoders)

def layoutBMarker : Str := "synthetic-layout-b".toList

def layoutBSearch (decoders : Decoders) (bytes : Bytes) (query : Query) : Except RetrievalError RetrievalData := do
  let parsed ← decode decoders.bSearch bytes
  if parsed.format ≠ layoutBMarker then .error .normalizationFailed
  else do
    let records ← parsed.results.mapM fun r => record query r.key r.label r.text
    search query records parsed.pagination.index.toNat parsed.pagination.size.toNat parsed.pagination.count.toNat

def layoutBGet (decoders : Decoders) (bytes : Bytes) (query : Query) : Except RetrievalError RetrievalData := do
  let parsed ← decode decoders.bGet bytes
  if parsed.format ≠ layoutBMarker then .error .normalizationFailed
  else do
    let item ← record query parsed.document.key parsed.document.label parsed.document.text
    pure (.get item)

def layoutBProcessor (codec : Codec) (decoders : Decoders) : PayloadProcessor where
  version := "synthetic-layout-b-v1".toList
  process := processWith codec (layoutBSearch decoders) (layoutBGet decoders)

def processors (codec : Codec) (decoders : Decoders) : List PayloadProcessor :=
  [layoutAProcessor codec decoders, layoutBProcessor codec decoders]

/-! ## What is accepted -/

section Accepted

variable {codec : Codec} {decoders : Decoders} {bytes : Bytes} {query : Query} {data : RetrievalData}

/-- A normalized record passes the check of retained records. -/
theorem validRecord_of_record {id title body : Str} {item : Record} (normalized : record query id title body = .ok item) :
    validRecord item query = true := by
  simp only [record, ite_error_eq_ok, Bool.or_eq_true, not_or, Bool.not_eq_true', Bool.not_eq_false, decide_eq_true_eq,
    gt_iff_lt, Nat.not_lt, maxStringBytes] at normalized
  obtain ⟨⟨⟨⟨known, titled⟩, short⟩, bounded⟩, same⟩ := normalized
  cases same
  simp only [validRecord, known, titled, short, bounded, Bool.true_and, Bool.and_true, decide_true, Bool.not_eq_true']

/-- A normalized page passes the checks of retained pages. -/
theorem validRetained_of_search {records : List Record} {page pageSize total : ℕ}
    (normalized : search query records page pageSize total = .ok data) (valid : ∀ item ∈ records, validRecord item query = true) :
    Codec.validRetained query data = true := by
  cases query with
  | get => cases normalized
  | search source text requestedPage requestedSize =>
    simp only [search, ite_error_eq_ok, Bool.or_eq_true, not_or, decide_eq_true_eq, not_not, gt_iff_lt, Nat.not_lt,
      Bool.not_eq_true', decide_eq_false_iff_not] at normalized
    obtain ⟨⟨⟨⟨⟨rfl, rfl⟩, -⟩, few⟩, complete⟩, distinct, same⟩ := normalized
    cases same
    simp only [Codec.validRetained, few, complete, distinct, decide_true, Bool.true_and, Bool.and_true, List.all_eq_true]
    exact valid

/-- What a layout hands over: records that pass, for a query of their kind. -/
def Shaped (query : Query) : RetrievalData → Prop
  | .get item => (∃ source id, query = .get source id) ∧ validRecord item query = true
  | .search page => Codec.validRetained query (.search page) = true

theorem shaped_of_search {records : List Record} {page pageSize total : ℕ}
    (normalized : search query records page pageSize total = .ok data) (valid : ∀ item ∈ records, validRecord item query = true) :
    Shaped query data := by
  have retained := validRetained_of_search normalized valid
  cases data with
  | search => exact retained
  | get item =>
    cases query with
    | get => cases normalized
    | search =>
      simp only [search, ite_error_eq_ok] at normalized
      cases normalized.2.2

theorem shaped_layoutASearch (parsed : layoutASearch decoders bytes query = .ok data) : Shaped query data := by
  simp only [layoutASearch, bind_eq_ok, ite_error_eq_ok] at parsed
  obtain ⟨_, -, -, records, collected, normalized⟩ := parsed
  apply shaped_of_search normalized
  intro item member
  obtain ⟨_, -, recorded⟩ := exists_of_mem_mapM collected item member
  exact validRecord_of_record recorded

theorem shaped_layoutBSearch (parsed : layoutBSearch decoders bytes query = .ok data) : Shaped query data := by
  simp only [layoutBSearch, bind_eq_ok, ite_error_eq_ok] at parsed
  obtain ⟨_, -, -, records, collected, normalized⟩ := parsed
  apply shaped_of_search normalized
  intro item member
  obtain ⟨_, -, recorded⟩ := exists_of_mem_mapM collected item member
  exact validRecord_of_record recorded

theorem shaped_layoutAGet {source id : Str} (parsed : layoutAGet decoders bytes (.get source id) = .ok data) :
    Shaped (.get source id) data := by
  simp only [layoutAGet, bind_eq_ok, ite_error_eq_ok, pure_eq_ok] at parsed
  obtain ⟨_, -, -, item, recorded, same⟩ := parsed
  cases same
  exact ⟨⟨source, id, rfl⟩, validRecord_of_record recorded⟩

theorem shaped_layoutBGet {source id : Str} (parsed : layoutBGet decoders bytes (.get source id) = .ok data) :
    Shaped (.get source id) data := by
  simp only [layoutBGet, bind_eq_ok, ite_error_eq_ok, pure_eq_ok] at parsed
  obtain ⟨_, -, -, item, recorded, same⟩ := parsed
  cases same
  exact ⟨⟨source, id, rfl⟩, validRecord_of_record recorded⟩

/-- The last check adds the identity of a single record and the size. -/
theorem finish_spec {output : RetrievalData} (shaped : Shaped query output) (finished : finish codec query output = .ok data) :
    Codec.validRetained query data = true ∧ (codec.json data).length ≤ maxProcessedBytes := by
  simp only [finish, ite_error_eq_ok, Bool.not_eq_true, gt_iff_lt, Nat.not_lt] at finished
  obtain ⟨identified, bounded, same⟩ := finished
  cases same
  refine ⟨?_, bounded⟩
  cases data with
  | search => exact shaped
  | get item =>
    obtain ⟨⟨source, id, rfl⟩, valid⟩ := shaped
    simp only [bne_eq_false_iff_eq] at identified
    simp only [Codec.validRetained, ← identified, valid, decide_true, Bool.and_self]

/-- What a processor hands over answers the query, is small, and was made from few bytes. -/
theorem processWith_spec {ofSearch ofGet : Bytes → Query → Except RetrievalError RetrievalData} {budget rest : WorkBudget}
    (searches : ∀ output, ofSearch bytes query = .ok output → Shaped query output)
    (gets : ∀ source id output, ofGet bytes (.get source id) = .ok output → Shaped (.get source id) output)
    (processed : processWith codec ofSearch ofGet bytes query budget = .ok (data, rest)) :
    query.validate = .ok () ∧ bytes.length ≤ maxPayloadBytes ∧ Codec.validRetained query data = true ∧
      (codec.json data).length ≤ maxProcessedBytes := by
  simp only [processWith, bind_eq_ok, pure_eq_ok] at processed
  obtain ⟨⟨⟩, valid, scanned, preflighted, left, -, output, parsed, result, finished, same⟩ := processed
  cases same
  simp only [preflight, ite_error_eq_ok, gt_iff_lt, Nat.not_lt] at preflighted
  have shaped : Shaped query output := by
    cases query with
    | search => exact searches output parsed
    | get source id => exact gets source id output parsed
  exact ⟨valid, preflighted.1, finish_spec shaped finished⟩

theorem processor_spec {processor : PayloadProcessor} (listed : processor ∈ processors codec decoders) {budget rest : WorkBudget}
    (processed : processor.process bytes query budget = .ok (data, rest)) :
    query.validate = .ok () ∧ bytes.length ≤ maxPayloadBytes ∧ Codec.validRetained query data = true ∧
      (codec.json data).length ≤ maxProcessedBytes ∧ processor.version ≠ [] ∧ byteLen processor.version ≤ 128 := by
  simp only [processors, List.mem_cons, List.not_mem_nil, or_false] at listed
  rcases listed with rfl | rfl
  · obtain ⟨valid, few, retained, small⟩ :=
      processWith_spec (fun _ => shaped_layoutASearch) (fun _ _ _ => shaped_layoutAGet) processed
    have version : "synthetic-layout-a-v1".toList ≠ [] ∧ byteLen "synthetic-layout-a-v1".toList ≤ 128 := by decide +kernel
    exact ⟨valid, few, retained, small, version⟩
  · obtain ⟨valid, few, retained, small⟩ :=
      processWith_spec (fun _ => shaped_layoutBSearch) (fun _ _ _ => shaped_layoutBGet) processed
    have version : "synthetic-layout-b-v1".toList ≠ [] ∧ byteLen "synthetic-layout-b-v1".toList ≤ 128 := by decide +kernel
    exact ⟨valid, few, retained, small, version⟩

/-! ## What is retained -/

/-- A key as the service makes it: the names are identifiers. -/
structure Registered (key : PersistentKey) : Prop where
  nameSpace : validIdentifier key.history.nameSpace 128 = true
  provider : validIdentifier key.history.provider 64 = true
  dataset : validIdentifier key.history.dataset 64 = true
  schemaVersion : key.schemaVersion = 1

/-- A public reference to the source: short, and without a query, a fragment, credentials and control characters. -/
structure PublicReference (reference : Str) : Prop where
  nonempty : reference ≠ []
  short : byteLen reference ≤ 2048
  plain : ∀ c ∈ reference, c ∉ ['?', '#', '@']
  printable : ∀ c ∈ reference, isControl c = false

/-- The payload was built from the bytes and the data, for the key. -/
structure BuiltFor (codec : Codec) (key : PersistentKey) (value : StoredPayload) (bytes : Bytes) (data : RetrievalData) : Prop where
  data : value.data = data
  raw : value.raw = bytes
  provider : value.provenance.provider = key.history.provider
  dataset : value.provenance.dataset = key.history.dataset
  processorVersion : value.provenance.processorVersion = key.processorVersion
  payloadSha256 : value.provenance.payloadSha256 = codec.digestHex bytes
  reference : PublicReference value.provenance.sourceReference
  snapshot : ∀ snapshot, value.snapshot = some snapshot → validSnapshotId snapshot.snapshotId = true

/-- What a layout processor accepts is never reported as corrupt when it is read back. -/
theorem validatePayload_of_process {processor : PayloadProcessor} (listed : processor ∈ processors codec decoders)
    {budget rest : WorkBudget} (processed : processor.process bytes query budget = .ok (data, rest)) {key : PersistentKey}
    (registered : Registered key) (asked : key.history.query = query) (version : key.processorVersion = processor.version)
    {value : StoredPayload} (built : BuiltFor codec key value bytes data) : codec.validatePayload key value = .ok () := by
  obtain ⟨valid, few, retained, small, named, short⟩ := processor_spec listed processed
  have known : canonicalIdentity key.history = .ok (identityBytes key.history) := by
    simp only [canonicalIdentity, asked, valid, ok_bind, registered.nameSpace, registered.provider, registered.dataset,
      Bool.not_true, Bool.or_self, Bool.false_eq_true, if_false, pure_eq_ok]
  have provenance : codec.validProvenance key value = true := by
    have reference := built.reference
    simp only [Codec.validProvenance, registered.schemaVersion, version, built.provider, built.dataset, built.processorVersion,
      built.raw, built.payloadSha256, short, reference.short, decide_true, Bool.true_and, Bool.and_true, Bool.and_eq_true,
      Bool.not_eq_true', decide_eq_true_eq, List.isEmpty_eq_false_iff, List.any_eq_false, Option.all_eq_true]
    refine ⟨⟨⟨⟨⟨named, few⟩, reference.nonempty⟩, ?_⟩, ?_⟩, built.snapshot⟩
    · simpa using reference.plain
    · simpa using reference.printable
  have processedBytes : codec.processedBytes value.data = .ok (codec.json data) := by
    have within : (codec.json data).length ≤ Retrieval.maxProcessedBytes := small
    rw [Codec.processedBytes, built.data, if_neg (Nat.not_lt.mpr within)]
  rw [Codec.validatePayload, known]
  dsimp only
  rw [provenance, asked, built.data, retained, ← built.data, processedBytes]
  rfl

end Accepted

/-! ## A page of the second layout -/

namespace LayoutBSample

def bytes : Bytes :=
  Str.asBytes ("\x7b\"format\":\"synthetic-layout-b\",\"results\":[".toList ++
    "\x7b\"key\":\"a\",\"label\":\"t\",\"text\":\"\"\x7d,\x7b\"key\":\"b\",\"label\":\"u\",\"text\":\"v\"\x7d".toList ++
    "],\"pagination\":\x7b\"index\":0,\"size\":10,\"count\":2\x7d\x7d".toList)

def query : Query := .search ['s'] ['t'] 0 10

def page : SearchPage := ⟨[⟨['s'], ['a'], ['t'], [], true⟩, ⟨['s'], ['b'], ['u'], ['v'], true⟩], 0, 10, 2⟩

/-- The JSON of the page, and the digests of the two texts. -/
def codec : Codec where
  json := fun _ =>
    Str.asBytes ("\x7b\"records\":[\x7b\"source\":\"s\",\"id\":\"a\",\"title\":\"t\",\"body\":\"\",\"synthetic\":true\x7d,".toList ++
      "\x7b\"source\":\"s\",\"id\":\"b\",\"title\":\"u\",\"body\":\"v\",\"synthetic\":true\x7d],\"page\":0,\"page_size\":10,\"total\":2\x7d".toList)
  sha256 := fun input =>
    if input = bytes then #v[0xfd, 0x91, 0xa0, 0x44, 0x04, 0x2a, 0x4b, 0x0c, 0xc7, 0x12, 0xb5, 0xdb, 0xc7, 0xb0, 0x54, 0x1e,
      0x26, 0xab, 0xea, 0xad, 0x55, 0x60, 0x11, 0x2f, 0xb6, 0x85, 0x9a, 0x00, 0xd7, 0xc9, 0xfc, 0x59]
    else #v[0x47, 0xec, 0x33, 0x58, 0xb3, 0x58, 0xcb, 0x3b, 0xfa, 0xe9, 0xd7, 0xf4, 0xaa, 0xce, 0x69, 0x8e,
      0x5e, 0xab, 0x00, 0x2a, 0xa2, 0xb0, 0x8f, 0xc9, 0x64, 0x58, 0x94, 0x3e, 0xad, 0xc5, 0x3e, 0x8c]

def decoders : Decoders where
  aSearch := fun _ => none
  aGet := fun _ => none
  bSearch := fun input =>
    if input = bytes then some ⟨layoutBMarker, [⟨['a'], ['t'], []⟩, ⟨['b'], ['u'], ['v']⟩], ⟨0, 10, 2⟩⟩ else none
  bGet := fun _ => none

def key : PersistentKey := ⟨⟨['n'], ['p'], ['d'], query⟩, "synthetic-layout-b-v1".toList, 1⟩

def payload : StoredPayload where
  data := .search page
  provenance := ⟨['p'], ['d'], ['r'], codec.digestHex bytes, "synthetic-layout-b-v1".toList, 7, 7⟩
  raw := bytes
  bytes := 1355
  snapshot := none

end LayoutBSample

open LayoutBSample in
theorem validatePayload_of_process_layoutB :
    (∃ rest, (layoutBProcessor codec decoders).process bytes query {} = .ok (.search page, rest)) ∧
      codec.validatePayload key payload = .ok () := by
  have processed : (layoutBProcessor codec decoders).process bytes query {} = .ok (.search page, ⟨2096838⟩) := by decide +kernel
  refine ⟨⟨_, processed⟩, ?_⟩
  refine @validatePayload_of_process codec decoders bytes query (.search page) (layoutBProcessor codec decoders)
    (List.mem_cons_of_mem _ List.mem_cons_self) {} _ processed key ?_ rfl rfl payload ?_
  · exact ⟨by decide +kernel, by decide +kernel, by decide +kernel, rfl⟩
  · have reference : PublicReference payload.provenance.sourceReference :=
      ⟨by decide, by decide, by simp [payload], by simp [payload, isControl]⟩
    exact ⟨rfl, rfl, rfl, rfl, rfl, by simp only [payload], reference, by rintro _ ⟨⟩⟩

end OpenLegal.Retrieval.Normalization
