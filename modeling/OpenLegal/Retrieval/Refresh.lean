import OpenLegal.Retrieval.Service
import OpenLegal.Rust.Result

/-! # The work of a refresh job

An upstream payload is validated before it becomes a result. A transient error is retried, everything
else ends the refresh. With a persistent store, a job first looks into the store, and its candidate
competes with other observations before it counts.
-/

namespace OpenLegal.Retrieval

open Rust Rust.Str Legal

variable {σ : Type}

/-- The JSON size of the data and the digest of the raw bytes. -/
structure Encoding where
  size : RetrievalData → ℕ
  sha256 : List UInt8 → Str

def validRecord (record : Record) (query : Query) : Bool :=
  record.synthetic && record.source = query.source && validIdentifier record.id 128 && !record.title.isEmpty &&
    byteLen record.title ≤ 1024 && byteLen record.body ≤ 16 * 1024

/-- The data answers the query. -/
def validData (query : Query) : RetrievalData → Bool
  | .get record =>
    match query with
    | .get _ id => validRecord record query && record.id = id
    | .search .. => false
  | .search page =>
    match query with
    | .search _ _ requested pageSize =>
      page.page = requested && page.pageSize = pageSize && page.records.length ≤ pageSize && page.total ≤ 20000 &&
        page.records.length = min page.pageSize (page.total - page.page * page.pageSize) &&
        page.records.all (validRecord · query) && decide (page.records.map (·.id)).Nodup
    | .get .. => false

def boundedSize (encoding : Encoding) (data : RetrievalData) (limit : ℕ) : Except RetrievalError ℕ :=
  if encoding.size data > limit then .error .resourceLimit else .ok (encoding.size data)

def validate (encoding : Encoding) (source : Source) (query : Query) (now : ℕ) (payload : FetchedPayload) : Outcome :=
  if payload.raw.length > maxRawBytes || payload.sourceReference.isEmpty || byteLen payload.sourceReference > 2048 then
    .error .resourceLimit
  else if payload.sourceReference.any isControl || payload.sourceReference.any (['?', '#', '@'].contains ·) then
    .error .invalidPayload
  else if !validData query payload.data then .error .invalidPayload
  else do
    let encoded ← boundedSize encoding payload.data maxProcessedBytes
    pure {
      data := payload.data
      provenance := {
        provider := source.provider
        dataset := source.dataset
        sourceReference := payload.sourceReference
        payloadSha256 := encoding.sha256 payload.raw
        processorVersion := source.processorVersion
        retrievedAt := now
        validatedAt := now }
      raw := payload.raw
      bytes := payload.raw.length + encoded + byteLen payload.sourceReference + 1024
      snapshot := none }

/-- What one attempt of a refresh meets: the daily budget, the rate limit, the upstream, and whether the
retry delay can be represented. -/
structure Attempt where
  reserved : Except RetrievalError Unit
  rate : Except RetrievalError Unit
  cancelled : Bool
  fetched : Except RetrievalError FetchedPayload
  cancelledAfter : Bool
  now : ℕ
  representable : Bool

/-- `refresh`, with what each of its attempts meets. -/
def refresh (encoding : Encoding) (source : Source) (query : Query) : List Attempt → Outcome
  | [] => .error .unavailable
  | attempt :: rest => do
    attempt.reserved
    attempt.rate
    if attempt.cancelled then .error .cancelled
    else
      match attempt.fetched with
      | .ok payload =>
        if attempt.cancelledAfter then .error .cancelled else validate encoding source query attempt.now payload
      | .error error =>
        if error.isTransient then
          if !attempt.representable then .error error
          else if rest.isEmpty then .error error
          else refresh encoding source query rest
        else .error error

/-- The result of a job without persistent store: its token, its deadline, or the refresh. -/
def memoryResult (cancelled timedOut : Bool) (refreshed : Outcome) : PublishedOutcome :=
  if cancelled then .error .cancelled
  else if timedOut then .error .unavailable
  else refreshed.map (·, none)

/-- What a job with a persistent store meets on its way; payloads of the store come with their epoch. -/
structure Resolution where
  cancelled : Bool
  lookup : Except RetrievalError (Option (StoredPayload × ℕ))
  cancelledFound : Bool
  foundNow : ℕ
  promoted : Except RetrievalError Unit
  cancelledMissed : Bool
  health : Health
  permit : Bool
  cancelledRefresh : Bool
  timedOut : Bool
  refreshed : Outcome
  recovered : Bool
  healthAfter : Health
  /-- `none` is a conflict. -/
  published : Except RetrievalError (Option (StoredPayload × ℕ))
  cancelledConflict : Bool
  competing : Except RetrievalError (Option (StoredPayload × ℕ))
  cancelledCommitted : Bool
  recoveredCommitted : Bool
  committedNow : ℕ

/-- The answer that the persistent store has already. A payload that is not too old is promoted. -/
def lookupResult (config : Config σ) (resolution : Resolution) : Except RetrievalError (Option (StoredPayload × ℕ)) := do
  match ← resolution.lookup with
  | none => pure none
  | some found =>
    if resolution.cancelledFound then .error .cancelled
    else
      let age := usableAge config resolution.foundNow found.1
      if age.any (· ≤ retentionSeconds) then do
        resolution.promoted
        pure (if age.any (· < freshSeconds) then some found else none)
      else pure none

/-- The observation that counts after publication. -/
def committed (resolution : Resolution) : Except RetrievalError (StoredPayload × ℕ) := do
  match ← resolution.published with
  | some committed => pure committed
  | none =>
    if resolution.cancelledConflict then .error .cancelled
    else
      match ← resolution.competing with
      | some winner => pure winner
      | none => .error .busy

def resolveStorageThenUpstream (config : Config σ) (resolution : Resolution) : PublishedOutcome := do
  if resolution.cancelled then .error .cancelled
  else
    match ← lookupResult config resolution with
    | some found => pure (found.1, some found.2)
    | none =>
      if resolution.cancelledMissed then .error .cancelled
      else if let some error := storageError config resolution.health then .error error
      else if !resolution.permit then .error .busy
      else if resolution.cancelledRefresh then .error .cancelled
      else if resolution.timedOut then .error .unavailable
      else do
        let _ ← resolution.refreshed
        if resolution.recovered then .error .storageUnavailable
        else if let some error := storageError config resolution.healthAfter then .error error
        else do
          let winner ← committed resolution
          if resolution.cancelledCommitted then .error .cancelled
          else if resolution.recoveredCommitted then .error .storageUnavailable
          else if (usableAge config resolution.committedNow winner.1).any (· < freshSeconds) then
            pure (winner.1, some winner.2)
          else .error .freshnessUnavailable

/-! ## Only valid payloads come out -/

theorem validate_error {encoding : Encoding} {source : Source} {query : Query} {now : ℕ} {payload : FetchedPayload}
    {error : RetrievalError} (failed : validate encoding source query now payload = .error error) :
    error.isTransient = false := by
  rw [validate] at failed
  split_ifs at failed
  · cases failed
    rfl
  · cases failed
    rfl
  · cases failed
    rfl
  · rw [boundedSize] at failed
    split_ifs at failed
    · cases failed
      rfl
    · cases failed

/-- A payload that is not valid ends the refresh with an error that is not transient. -/
theorem refresh_ok {encoding : Encoding} {source : Source} {query : Query} {attempts : List Attempt} {value : StoredPayload}
    (success : refresh encoding source query attempts = .ok value) :
    ∃ attempt ∈ attempts, ∃ payload, attempt.fetched = .ok payload ∧
      validate encoding source query attempt.now payload = .ok value := by
  induction attempts with
  | nil => cases success
  | cons attempt rest ih =>
    simp only [refresh, bind_eq_ok, ite_error_eq_ok] at success
    obtain ⟨-, -, -, -, -, success⟩ := success
    cases fetched : attempt.fetched with
    | ok payload =>
      simp only [fetched, ite_error_eq_ok] at success
      exact ⟨attempt, List.mem_cons_self, payload, fetched, success.2⟩
    | error error =>
      simp only [fetched] at success
      split_ifs at success
      obtain ⟨other, member, found⟩ := ih success
      exact ⟨other, List.mem_cons_of_mem _ member, found⟩

/-! ## What a job answers -/

/-- Without a store, the answer is what an attempt has fetched, validated. -/
theorem memoryResult_ok {cancelled timedOut : Bool} {encoding : Encoding} {source : Source} {query : Query}
    {attempts : List Attempt} {value : StoredPayload} {epoch : Option ℕ}
    (success : memoryResult cancelled timedOut (refresh encoding source query attempts) = .ok (value, epoch)) :
    cancelled = false ∧ timedOut = false ∧ epoch = none ∧ ∃ attempt ∈ attempts, ∃ payload,
      attempt.fetched = .ok payload ∧ validate encoding source query attempt.now payload = .ok value := by
  simp only [memoryResult, ite_error_eq_ok, Bool.not_eq_true] at success
  obtain ⟨running, early, success⟩ := success
  obtain ⟨refreshed, done, same⟩ := map_eq_ok.mp success
  cases same
  exact ⟨running, early, rfl, refresh_ok done⟩

section Store

variable {config : Config σ} {resolution : Resolution} {found : StoredPayload × ℕ}

/-- The store has a fresh payload, and it was promoted. -/
structure Held (config : Config σ) (resolution : Resolution) (found : StoredPayload × ℕ) : Prop where
  looked : resolution.lookup = .ok (some found)
  promoted : resolution.promoted = .ok ()
  fresh : ∃ age < freshSeconds, usableAge config resolution.foundNow found.1 = some age

/-- A candidate was refreshed while the storage was healthy, and what counts after its publication is fresh. -/
structure Won (config : Config σ) (resolution : Resolution) (found : StoredPayload × ℕ) : Prop where
  permit : resolution.permit = true
  healthy : storageHealthy config resolution.health = true
  refreshed : ∃ candidate, resolution.refreshed = .ok candidate
  healthyAfter : storageHealthy config resolution.healthAfter = true
  counts : resolution.published = .ok (some found) ∨
    resolution.published = .ok none ∧ resolution.competing = .ok (some found)
  fresh : ∃ age < freshSeconds, usableAge config resolution.committedNow found.1 = some age

theorem fresh_of_any {age : Option ℕ} (fresh : age.any (· < freshSeconds) = true) :
    ∃ known < freshSeconds, age = some known := by
  cases age with
  | none => cases fresh
  | some known => exact ⟨known, by simpa using fresh, rfl⟩

theorem lookupResult_ok (success : lookupResult config resolution = .ok (some found)) : Held config resolution found := by
  rw [lookupResult, bind_eq_ok] at success
  obtain ⟨stored, looked, success⟩ := success
  cases stored with
  | none => cases success
  | some stored =>
    obtain ⟨-, success⟩ := ite_error_eq_ok.mp success
    dsimp only at success
    split_ifs at success with retained fresh
    · obtain ⟨⟨⟩, promoted, same⟩ := bind_eq_ok.mp success
      cases same
      exact ⟨looked, promoted, fresh_of_any fresh⟩
    · obtain ⟨-, -, same⟩ := bind_eq_ok.mp success
      cases same
    · cases success

theorem committed_ok (success : committed resolution = .ok found) : resolution.published = .ok (some found) ∨
    resolution.published = .ok none ∧ resolution.competing = .ok (some found) := by
  rw [committed, bind_eq_ok] at success
  obtain ⟨own, published, success⟩ := success
  cases own with
  | some own =>
    cases success
    exact .inl published
  | none =>
    obtain ⟨-, success⟩ := ite_error_eq_ok.mp success
    obtain ⟨other, competing, success⟩ := bind_eq_ok.mp success
    cases other with
    | none => cases success
    | some other =>
      cases success
      exact .inr ⟨published, competing⟩

/-- With a store, the answer is a fresh payload that the store has or one that counts after a publication, with its epoch. -/
theorem resolveStorageThenUpstream_ok {answer : StoredPayload × Option ℕ}
    (success : resolveStorageThenUpstream config resolution = .ok answer) :
    ∃ found, answer = (found.1, some found.2) ∧ (Held config resolution found ∨ Won config resolution found) := by
  simp only [resolveStorageThenUpstream, ite_error_eq_ok, bind_eq_ok] at success
  obtain ⟨-, stored, looked, success⟩ := success
  cases stored with
  | some found =>
    cases success
    exact ⟨found, rfl, .inl (lookupResult_ok looked)⟩
  | none =>
    obtain ⟨-, success⟩ := ite_error_eq_ok.mp success
    cases health : storageError config resolution.health with
    | some error =>
      rw [health] at success
      cases success
    | none =>
      simp only [health, ite_error_eq_ok, bind_eq_ok, Bool.not_eq_true', Bool.not_eq_false] at success
      obtain ⟨permit, -, -, candidate, refreshed, -, success⟩ := success
      cases after : storageError config resolution.healthAfter with
      | some error =>
        rw [after] at success
        cases success
      | none =>
        simp only [after, ite_error_eq_ok, bind_eq_ok] at success
        obtain ⟨winner, counts, -, -, success⟩ := success
        split_ifs at success with fresh
        cases success
        exact ⟨winner, rfl, .inr ⟨permit, by simp [storageHealthy, health], ⟨candidate, refreshed⟩,
          by simp [storageHealthy, after], committed_ok counts, fresh_of_any fresh⟩⟩

end Store

end OpenLegal.Retrieval
