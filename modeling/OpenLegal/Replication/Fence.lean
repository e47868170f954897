import OpenLegal.Retrieval.Domain
import OpenLegal.Rust.Unicode

/-! # The durability fence over a replica

`PostgresDurabilityFence::check` asks the primary for a fresh prefix position and waits until the replica has
flushed it, with the admission guard consulted before and after and the failure generation compared at the end.
Checks run concurrently and share the generation only. A step is one access to the generation or one answer
that a check awaits; a poll of the check that does neither is part of the step before it.

The log is what an observer of the fence would write down. No step reads it.
-/

namespace OpenLegal.Replication

open Rust Rust.Str Retrieval

def isAsciiHexdigit (c : Char) : Bool :=
  isAsciiDigit c || ('a'.val ≤ c.val && c.val ≤ 'f'.val) || ('A'.val ≤ c.val && c.val ≤ 'F'.val)

def hexValue (c : Char) : ℕ :=
  if isAsciiDigit c then c.toNat - '0'.toNat
  else if 'a'.val ≤ c.val then c.toNat - 'a'.toNat + 10
  else c.toNat - 'A'.toNat + 10

/-- `u32::from_str_radix(digits, 16)` on hexadecimal digits. -/
def u32FromHex (digits : Str) : Option ℕ :=
  let value := digits.foldl (fun value c => value * 16 + hexValue c) 0
  if digits.isEmpty || 2 ^ 32 ≤ value then none else some value

def lsn (value : Str) : Option ℕ := do
  let (high, low) ← splitOnce "/".toList value
  if high.isEmpty || low.isEmpty || byteLen high > 8 || byteLen low > 8 || !(high ++ low).all isAsciiHexdigit then
    none
  else
    let high ← u32FromHex high
    let low ← u32FromHex low
    some (high <<< 32 ||| low)

def validDigest (value : Str) : Bool :=
  byteLen value == 64 && value.all fun c => isAsciiDigit c || ('a'.val ≤ c.val && c.val ≤ 'f'.val)

/-- What the primary reports about itself, the authenticated sender and the two positions. A UUID is its
128-bit value. -/
structure Receipt where
  managedEpoch : ℕ
  blobBindingSha256 : Str
  primarySystemIdentifier : Str
  timeline : ℤ
  postmasterStartedAt : Str
  standbyName : Str
  standbyRole : Str
  standbyAddr : Str
  standbyClientDn : Str
  standbyIssuerDn : Str
  standbyClientSerial : Str
  senderPid : ℤ
  senderStartedAt : Str
  prefixLsn : Str
  flushLsn : Str
deriving DecidableEq, Repr

namespace Receipt

def valid (receipt : Receipt) : Bool :=
  receipt.managedEpoch ≠ 0 && validDigest receipt.blobBindingSha256 && receipt.timeline > 0 && receipt.senderPid > 0 &&
    !receipt.primarySystemIdentifier.isEmpty && byteLen receipt.primarySystemIdentifier ≤ 20 &&
    !receipt.standbyClientSerial.isEmpty && byteLen receipt.standbyClientSerial ≤ 60 &&
    receipt.standbyClientSerial.all isAsciiDigit && receipt.primarySystemIdentifier.all isAsciiDigit &&
    [receipt.postmasterStartedAt, receipt.standbyName, receipt.standbyRole, receipt.standbyAddr,
      receipt.standbyClientDn, receipt.standbyIssuerDn, receipt.senderStartedAt].all
      (fun s => !s.isEmpty && byteLen s ≤ 1024) &&
    (lsn receipt.prefixLsn).isSome && (lsn receipt.flushLsn).isSome

def sameBinding (receipt other : Receipt) : Bool :=
  receipt.managedEpoch == other.managedEpoch && receipt.blobBindingSha256 == other.blobBindingSha256 &&
    receipt.primarySystemIdentifier == other.primarySystemIdentifier && receipt.timeline == other.timeline &&
    receipt.postmasterStartedAt == other.postmasterStartedAt && receipt.standbyName == other.standbyName &&
    receipt.standbyRole == other.standbyRole && receipt.standbyAddr == other.standbyAddr &&
    receipt.standbyClientDn == other.standbyClientDn && receipt.standbyIssuerDn == other.standbyIssuerDn &&
    receipt.standbyClientSerial == other.standbyClientSerial

def sameSession (receipt other : Receipt) : Bool :=
  receipt.sameBinding other && receipt.senderPid == other.senderPid && receipt.senderStartedAt == other.senderStartedAt

/-- The identity of the primary and of the authenticated standby: all that `sameBinding` compares. -/
def identity (receipt : Receipt) : Receipt :=
  { receipt with senderPid := 0, senderStartedAt := [], prefixLsn := [], flushLsn := [] }

/-- The identity together with the sender's session. -/
def session (receipt : Receipt) : Receipt := { receipt with prefixLsn := [], flushLsn := [] }

theorem sameBinding_iff {receipt other : Receipt} :
    receipt.sameBinding other = true ↔ receipt.identity = other.identity := by
  simp [sameBinding, identity, and_assoc]

theorem sameSession_iff {receipt other : Receipt} :
    receipt.sameSession other = true ↔ receipt.session = other.session := by
  simp only [sameSession, sameBinding, session, Bool.and_eq_true, beq_iff_eq, mk.injEq, and_true]
  tauto

theorem identity_session (receipt : Receipt) : receipt.session.identity = receipt.identity := rfl

end Receipt

inductive Observation where
  | capturePrefix
  | observeFlush
deriving DecidableEq, Repr

/-- `observe`: a failed query or a reply that is no receipt is `none`. -/
def observe (reply : Option Receipt) : Except RetrievalError Receipt :=
  match reply with
  | none => .error .storageUnavailable
  | some receipt => if receipt.valid then .ok receipt else .error .storageUnavailable

/-- What the admission guard answers. Every place where `RuntimeGuard::check` finds the deadline it was handed
run out (waiting for a slot, in `within`, waiting for its worker) answers `StorageUnavailable`. -/
inductive GuardAnswer where
  | admitted
  | elapsed
  | failed (error : RetrievalError)
deriving DecidableEq, Repr

def GuardAnswer.result : GuardAnswer → Except RetrievalError Unit
  | .admitted => .ok ()
  | .elapsed => .error .storageUnavailable
  | .failed error => .error error

/-- What ended a check. -/
inductive Ending where
  /-- the deadline had passed before anything was awaited -/
  | expired
  | cancelled
  /-- the timer of `timeout_at` fired -/
  | elapsed
  | refused (answer : GuardAnswer)
  /-- an observation failed, or contradicted the binding, the session or the failure generation -/
  | denied
  | passed
deriving DecidableEq, Repr

namespace Ending

def result : Ending → Except RetrievalError Unit
  | .expired => .error .storageUnavailable
  | .cancelled => .error .cancelled
  | .elapsed => .error .storageUnavailable
  | .refused answer => answer.result
  | .denied => .error .storageUnavailable
  | .passed => .ok ()

def dependencyFailed (callerLimited : Bool) : Ending → Bool
  | .expired => false
  | .cancelled => false
  | .elapsed => !callerLimited
  | .refused answer =>
    match answer.result with
    | .error error => error ≠ .cancelled && error ≠ .busy
    | .ok () => false
  | .denied => true
  | .passed => false

/-- Cancellation, `Busy`, and a deadline of the caller that ran out. -/
def RequestLocal (callerLimited : Bool) (ending : Ending) : Prop :=
  ending.result = .error .cancelled ∨ ending.result = .error .busy ∨
    (callerLimited = true ∧ (ending = .expired ∨ ending = .elapsed ∨ ending = .refused .elapsed))

end Ending

/-- Where a check stands. -/
inductive Phase where
  | admitting
  | capturing
  | watching (captured : Receipt) (target : ℕ)
  | pausing (captured : Receipt) (target : ℕ)
  | confirming (captured : Receipt)
  | comparing (captured : Receipt)
  | readmitting (captured : Receipt)
  | rereading (captured : Receipt)
  | settling (ending : Ending)
  | returned (result : Except RetrievalError Unit)
  | dropped
deriving DecidableEq

/-- The phases in which the check has an `await` outstanding. -/
def Phase.awaits : Phase → Bool
  | .admitting | .capturing | .watching _ _ | .pausing _ _ | .confirming _ | .readmitting _ => true
  | _ => false

structure Check where
  generation : ℕ
  deadline : ℕ
  callerLimited : Bool
  phase : Phase
deriving DecidableEq

inductive Entry where
  | started (id : ℕ)
  | observed (id : ℕ) (observation : Observation) (receipt : Receipt)
  /-- a reading of the failure generation after the first one -/
  | loaded (id : ℕ)
  | failed (id : ℕ) (callerLimited : Bool) (ending : Ending)
  | uncertain
deriving DecidableEq

structure Fence where
  binding : Receipt
  guarded : Bool
  failureGeneration : ℕ
  checks : List Check
  log : List Entry
deriving DecidableEq

/-- The part of `ReplicationOptions` that `open` reads. -/
structure Options where
  managedEpoch : ℕ
  expectedBlobBindingSha256 : Str
  guarded : Bool

/-- `PostgresDurabilityFence::open` up to the construction of the fence. Its first check is then a check like
any other. The observation runs under a timeout of its own, and a timeout is a failed observation. -/
def openFence (options : Options) (answer : GuardAnswer) (reply : Option Receipt) : Except RetrievalError Fence :=
  if options.managedEpoch = 0 || !validDigest options.expectedBlobBindingSha256 then .error .invalidInput
  else do
    (if options.guarded then answer.result else .ok ())
    let binding ← observe reply
    if binding.managedEpoch ≠ options.managedEpoch || binding.blobBindingSha256 ≠ options.expectedBlobBindingSha256 then
      .error .storageUnavailable
    else
      return { binding, guarded := options.guarded, failureGeneration := 0, checks := [], log := [] }

/-- What a check awaits or does next. -/
inductive Input where
  | admission (answer : GuardAnswer)
  | receipt (reply : Option Receipt)
  | wake
  | load
  | cancel
  | timeout (now : ℕ)
  | record
  /-- the caller drops the future -/
  | abandon
deriving DecidableEq

inductive Event where
  | markUncertain
  /-- `now` and `entered` are the two readings of the clock before the work begins -/
  | start (deadline now entered : ℕ)
  | check (id : ℕ) (input : Input)
deriving DecidableEq

namespace Fence

/-- `failure.fetch_add(1)`. -/
def fetchAdd (fence : Fence) (entry : Entry) : Fence :=
  { fence with failureGeneration := (fence.failureGeneration + 1) % 2 ^ 64, log := fence.log ++ [entry] }

def move (fence : Fence) (id : ℕ) (check : Check) (phase : Phase) (entries : List Entry) : Fence :=
  { fence with checks := fence.checks.set id { check with phase }, log := fence.log ++ entries }

/-- Instants and durations are in nanoseconds. -/
def twoSeconds : ℕ := 2 * 10 ^ 9

def start (fence : Fence) (deadline now entered : ℕ) : Fence :=
  let limit := now + twoSeconds
  let callerLimited := decide (deadline < limit)
  let deadline := min deadline limit
  let phase :=
    if deadline ≤ entered then Phase.settling .expired
    else if fence.guarded then .admitting
    else .capturing
  { fence with
    checks := fence.checks ++ [{ generation := fence.failureGeneration, deadline, callerLimited, phase }]
    log := fence.log ++ [.started fence.checks.length] }

def react (fence : Fence) (id : ℕ) (check : Check) (input : Input) : Fence :=
  match check.phase, input with
  | .admitting, .admission .admitted => fence.move id check .capturing []
  | .admitting, .admission answer => fence.move id check (.settling (.refused answer)) []
  | .capturing, .receipt reply =>
    match observe reply with
    | .error _ => fence.move id check (.settling .denied) []
    | .ok captured =>
      let seen := [Entry.observed id .capturePrefix captured]
      if !captured.sameBinding fence.binding then fence.move id check (.settling .denied) seen
      else
        match lsn captured.prefixLsn with
        | none => fence.move id check (.settling .denied) seen
        | some target => fence.move id check (.watching captured target) seen
  | .watching captured target, .receipt reply =>
    match observe reply with
    | .error _ => fence.move id check (.settling .denied) []
    | .ok receipt =>
      let seen := [Entry.observed id .observeFlush receipt]
      if !captured.sameSession receipt then fence.move id check (.settling .denied) seen
      else
        match lsn receipt.flushLsn with
        | none => fence.move id check (.settling .denied) seen
        | some flushed =>
          if flushed ≥ target then fence.move id check (.confirming captured) seen
          else fence.move id check (.pausing captured target) seen
  | .pausing captured target, .wake => fence.move id check (.watching captured target) []
  | .confirming captured, .receipt reply =>
    match observe reply with
    | .error _ => fence.move id check (.settling .denied) []
    | .ok final =>
      let seen := [Entry.observed id .capturePrefix final]
      if !captured.sameSession final then fence.move id check (.settling .denied) seen
      else fence.move id check (.comparing captured) seen
  | .comparing captured, .load =>
    if fence.failureGeneration ≠ check.generation then fence.move id check (.settling .denied) [.loaded id]
    else if fence.guarded then fence.move id check (.readmitting captured) [.loaded id]
    else fence.move id check (.rereading captured) [.loaded id]
  | .readmitting captured, .admission .admitted => fence.move id check (.rereading captured) []
  | .readmitting _, .admission answer => fence.move id check (.settling (.refused answer)) []
  | .rereading _, .load =>
    if fence.failureGeneration ≠ check.generation then fence.move id check (.settling .denied) [.loaded id]
    else fence.move id check (.settling .passed) [.loaded id]
  | .settling ending, .record =>
    let fence := fence.move id check (.returned ending.result) []
    if ending.dependencyFailed check.callerLimited then fence.fetchAdd (.failed id check.callerLimited ending)
    else fence
  | phase, .cancel => if phase.awaits then fence.move id check (.settling .cancelled) [] else fence
  | phase, .timeout now =>
    if phase.awaits && check.deadline ≤ now then fence.move id check (.settling .elapsed) [] else fence
  | phase, .abandon => if phase.awaits then fence.move id check .dropped [] else fence
  | _, _ => fence

theorem react_cancel (fence : Fence) (id : ℕ) (check : Check) :
    fence.react id check .cancel =
      if check.phase.awaits then fence.move id check (.settling .cancelled) [] else fence := by
  unfold react
  cases check.phase <;> rfl

theorem react_timeout (fence : Fence) (id : ℕ) (check : Check) (now : ℕ) :
    fence.react id check (.timeout now) =
      if check.phase.awaits && check.deadline ≤ now then fence.move id check (.settling .elapsed) [] else fence := by
  unfold react
  cases check.phase <;> rfl

theorem react_abandon (fence : Fence) (id : ℕ) (check : Check) :
    fence.react id check .abandon = if check.phase.awaits then fence.move id check .dropped [] else fence := by
  unfold react
  cases check.phase <;> rfl

/-- An event that the fence cannot meet leaves it unchanged. -/
def step (fence : Fence) : Event → Fence
  | .markUncertain => fence.fetchAdd .uncertain
  | .start deadline now entered => fence.start deadline now entered
  | .check id input =>
    match fence.checks[id]? with
    | none => fence
    | some check => fence.react id check input

def run (fence : Fence) (events : List Event) : Fence := events.foldl step fence

end Fence

end OpenLegal.Replication
