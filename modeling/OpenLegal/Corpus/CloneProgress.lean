import OpenLegal.Retrieval.Identity
import Mathlib.Data.List.Sort

/-! # Progress over a provider inventory

A view of the provider's inventory is traversed page by page, cycle after cycle. `clone_page_offset` decides where
to go on inside a page, and `clone_page_scheduled` records how far its items have been scheduled, marks the items as
members seen in this cycle and, with the last page, ends the cycle. Each call is one transaction; a call that fails
or is cancelled leaves no trace and does not appear in a run.

The columns that no call reads (`required_body` and the two times) are left out.
-/

namespace OpenLegal.Corpus

open Rust Rust.Str Legal Retrieval

/-- A row of an inventory page. No allocation of a Rust string exceeds `isize::MAX` bytes. -/
structure InventoryItem where
  object : ObjectId
  revisionId : Str
  effectiveDate : Option Str
  publicationDate : Option Str
  title : Str
  dataSource : Option Str
  caseNumber : Option Str
  treatyClassCode : Option Str
  amendmentType : Option Str
  short : byteLen revisionId < 2 ^ 63
deriving DecidableEq

structure InventoryPage where
  items : List InventoryItem
  done : Bool
  total : Option ℕ
  rejectedRows : ℕ
  incomplete : Bool
deriving DecidableEq

/-- SHA-256 and the JSON writer, which are not part of the repository, taken as injective, and the collation of the
database. `itemsDigest` is `bytes_hash` of the serialized items, `objectKey` the hexadecimal text of `bytes_hash` of
a serialized object. -/
structure Externals (δ : Type) where
  itemsDigest : List InventoryItem → δ
  objectKey : ObjectId → Str
  sha256 : Bytes → δ
  collates : Str × Str → Str × Str → Bool
  itemsDigest_injective : Function.Injective itemsDigest
  objectKey_injective : ∀ a b : ObjectId, a.validate = .ok () → b.validate = .ok () → objectKey a = objectKey b → a = b
  objectKey_short : ∀ object : ObjectId, object.validate = .ok () → byteLen (objectKey object) < 2 ^ 64
  sha256_injective : Function.Injective sha256
  collates_total : ∀ a b, collates a b = true ∨ collates b a = true
  collates_trans : ∀ a b c, collates a b = true → collates b c = true → collates a c = true
  collates_antisymm : ∀ a b, collates a b = true → collates b a = true → a = b

/-- A row of `provider_clone_view`, with the members of the view and the cycle each was last seen in. -/
structure CloneRow (δ : Type) where
  nextPage : ℕ
  itemOffset : ℕ
  pageDigest : Option δ
  cycle : ℕ
  expectedTotal : Option ℕ
  cycleInvalid : Bool
  lastDigest : Option δ
  stableCycles : ℕ
  members : Map (Str × Str) ℕ

def CloneRow.initial (δ : Type) : CloneRow δ :=
  { nextPage := 1, itemOffset := 0, pageDigest := none, cycle := 1, expectedTotal := none, cycleInvalid := false
    lastDigest := none, stableCycles := 0, members := ∅ }

section

variable {δ : Type} [DecidableEq δ] (externals : Externals δ)

def key (object : ObjectId) : Except DatabaseError Str := do
  object.validate
  pure (externals.objectKey object)

def clonePageOffset (row : CloneRow δ) (page : ℕ) (result : InventoryPage) : Except DatabaseError (ℕ × CloneRow δ) :=
  if row.nextPage ≠ page then .error .conflict
  else
    let digest := externals.itemsDigest result.items
    let offset := if row.pageDigest = some digest then row.itemOffset else 0
    .ok (offset, { row with itemOffset := offset, pageDigest := some digest })

/-- The insert or update for each item. -/
def markMembers (cycle : ℕ) (members : Map (Str × Str) ℕ) (items : List InventoryItem) :
    Except DatabaseError (Map (Str × Str) ℕ) :=
  items.foldlM (fun members item => do
    let object ← key externals item.object
    pure (members.insert (object, item.revisionId) cycle)) members

/-- The members seen in a cycle, in the order of the query. -/
def seenMembers (cycle : ℕ) (members : Map (Str × Str) ℕ) : List (Str × Str) :=
  ((members.entries.filter fun entry => entry.2 = cycle).map Sigma.fst).insertionSort fun a b => externals.collates a b = true

def memberBytes (seen : List (Str × Str)) : Bytes := seen.flatMap fun member => field member.1 ++ field member.2

def i32Max : ℕ := 2 ^ 31 - 1
def i64Max : ℕ := 2 ^ 63 - 1

/-- Whether the cycle is invalid once a page result has been seen. -/
def CloneRow.invalidBy (row : CloneRow δ) (page : ℕ) (result : InventoryPage) : Bool :=
  row.cycleInvalid || result.incomplete || result.rejectedRows > 0 || result.total.isNone ||
    (page > 1 && row.expectedTotal ≠ result.total)

/-- The update at the end of a cycle. -/
def CloneRow.endCycle (row : CloneRow δ) (members : Map (Str × Str) ℕ) (invalid : Bool) (total : Option ℕ) : CloneRow δ :=
  let seen := seenMembers externals row.cycle members
  let complete := !invalid && total == some seen.length
  let digest := externals.sha256 (memberBytes seen)
  let stable :=
    if !complete then 0
    else if row.lastDigest = some digest then min (row.stableCycles + 1) i32Max
    else 1
  { nextPage := 1, itemOffset := 0, pageDigest := none, cycle := row.cycle + 1, expectedTotal := none
    cycleInvalid := false, lastDigest := if complete then some digest else none, stableCycles := stable, members }

/-- The update inside a cycle. -/
def CloneRow.goOn (row : CloneRow δ) (page offset : ℕ) (result : InventoryPage) (members : Map (Str × Str) ℕ) : CloneRow δ :=
  let completePage := offset = result.items.length
  let next := if completePage then page + 1 else page
  { row with
    nextPage := next
    itemOffset := if completePage then 0 else offset
    pageDigest := if next ≠ row.nextPage then none else row.pageDigest
    expectedTotal := if page = 1 then result.total else row.expectedTotal
    cycleInvalid := row.invalidBy page result
    members }

def clonePageScheduled (dataset : Dataset) (row : CloneRow δ) (page offset : ℕ) (result : InventoryPage) :
    Except DatabaseError (CloneRow δ) :=
  if offset > result.items.length || result.items.any (·.object.dataset ≠ dataset) then .error .invalidInput
  else if row.nextPage ≠ page then .error .conflict
  else if offset < row.itemOffset then .error .conflict
  else if result.total.any (· > i64Max) then .error .storageCorrupt
  else
    match markMembers externals row.cycle row.members result.items with
    | .error error => .error error
    | .ok members =>
      if offset = result.items.length ∧ result.done = true then
        if (seenMembers externals row.cycle members).length > i64Max then .error .capacity
        -- `cycle+1` leaves the range of its column
        else if row.cycle + 1 > i64Max then .error .storageUnavailable
        else .ok (row.endCycle externals members (row.invalidBy page result) result.total)
      else if (row.goOn page offset result members).nextPage > i32Max then .error .storageCorrupt
      else if (row.goOn page offset result members).itemOffset > i32Max then .error .storageCorrupt
      else .ok (row.goOn page offset result members)

end

/-- A scheduling call that was carried out. -/
structure Scheduled where
  page : ℕ
  offset : ℕ
  result : InventoryPage
deriving DecidableEq

/-- An ended cycle: its calls, and the digest it left in `last_digest`. -/
structure Cycle (δ : Type) where
  calls : List Scheduled
  digest : Option δ

/-- The view, what has been scheduled in its present cycle, its ended cycles from the last to the first, and the
last offset call. Only the view is stored. -/
structure CloneWorld (δ : Type) where
  row : CloneRow δ
  calls : List Scheduled
  ended : List (Cycle δ)
  asked : Option (ℕ × InventoryPage)

inductive CloneCall where
  | offset (page : ℕ) (result : InventoryPage)
  | scheduled (page offset : ℕ) (result : InventoryPage)
deriving DecidableEq

namespace CloneWorld

variable {δ : Type} [DecidableEq δ] (externals : Externals δ) (dataset : Dataset)

def initial (δ : Type) : CloneWorld δ := { row := .initial δ, calls := [], ended := [], asked := none }

def step (world : CloneWorld δ) : CloneCall → CloneWorld δ
  | .offset page result =>
    match clonePageOffset externals world.row page result with
    | .error _ => { world with asked := some (page, result) }
    | .ok (_, row) => { world with row, asked := some (page, result) }
  | .scheduled page offset result =>
    match clonePageScheduled externals dataset world.row page offset result with
    | .error _ => world
    | .ok row =>
      let calls := world.calls ++ [{ page, offset, result }]
      if row.cycle = world.row.cycle then { world with row, calls }
      else { world with row, calls := [], ended := { calls, digest := row.lastDigest } :: world.ended }

def run (world : CloneWorld δ) (calls : List CloneCall) : CloneWorld δ := calls.foldl (step externals dataset) world

end CloneWorld

end OpenLegal.Corpus
