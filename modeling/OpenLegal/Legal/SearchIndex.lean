import Mathlib.Data.Char
import OpenLegal.Legal.Record
import OpenLegal.Rust.Reader
import OpenLegal.Theory.KeyedScan

/-! # The search index

One document for each retained capture, under a key that begins with its object. The current capture of an
object is marked in its document. Every operation reads one snapshot and commits its deletions and additions
together.
-/

namespace OpenLegal.Legal

open Rust Rust.Str Theory

/-! ## Keys -/

/-- The words of a snake-case name, each with a capital letter. -/
def pascalCase : Bool → Str → Str
  | _, [] => []
  | capital, c :: rest =>
    if c = '_' then pascalCase true rest else (if capital then c.toUpper else c) :: pascalCase false rest

/-- The derived `Debug` name of a dataset: the name of the variant. -/
def Dataset.debugName (dataset : Dataset) : Str := pascalCase true dataset.asStr.toList

example : Dataset.nationalStatute.debugName = "NationalStatute".toList := by decide +kernel

private theorem debugNames_apart : (Dataset.all.map Dataset.debugName).Nodup ∧
    (Dataset.all.map Dataset.debugName).all (fun name => !name.contains '/') = true := by
  simp only [Dataset.all, List.map_cons, List.map_nil, Dataset.debugName, Dataset.asStr]
  -- literals are taken apart here, where it is cheap
  repeat rw [String.toList_ofList]
  decide +kernel

theorem Dataset.slash_not_mem_debugName (dataset : Dataset) : '/' ∉ dataset.debugName := by
  have plain := List.all_eq_true.mp debugNames_apart.2 _ (List.mem_map_of_mem dataset.mem_all)
  simpa using plain

theorem Dataset.debugName_injective {first second : Dataset} (same : first.debugName = second.debugName) :
    first = second := List.inj_on_of_nodup_map debugNames_apart.1 first.mem_all second.mem_all same

def hexByte (byte : UInt8) : Str := [Nat.digitChar (byte.toNat / 16), Nat.digitChar (byte.toNat % 16)]

def hex (bytes : Bytes) : Str := bytes.flatMap hexByte

def objectKey (object : ObjectId) : Str :=
  object.jurisdiction ++ '/' :: (object.provider ++ '/' :: (object.dataset.debugName ++ '/' :: object.id))

def recordKey (capture : Capture) : Str :=
  objectKey capture.record.object ++ '/' :: (hex (asBytes capture.record.revisionId) ++ '/' :: capture.captureId)

/-- The common beginning of the keys of an object. -/
def objectPrefix (object : ObjectId) : Str := objectKey object ++ ['/']

/-! ## Documents -/

structure IndexedCapture (τ : Type) where
  capture : Capture
  current : Bool
  titleTokens : τ
  bodyTokens : τ

namespace IndexedCapture

variable {τ : Type}

def key (doc : IndexedCapture τ) : Str := recordKey doc.capture

def object (doc : IndexedCapture τ) : ObjectId := doc.capture.record.object

end IndexedCapture

/-- What indexing needs from outside: the parsers of record validation, the analyzer and the size of a stored
document as they answer during one operation, and a deadline or cancellation that is seen before its commit. -/
structure Indexing (τ : Type) where
  parsers : Parsers
  analyze : Str → Except DatabaseError τ
  payloadLen : IndexedCapture τ → ℕ
  interrupted : Option DatabaseError

structure CorpusIndex (τ : Type) where
  docs : List (IndexedCapture τ)
  generation : ℕ

namespace CorpusIndex

variable {τ : Type}

def indexedDocument (env : Indexing τ) (capture : Capture) (current : Bool) :
    Except DatabaseError (IndexedCapture τ) := do
  capture.record.validate env.parsers
  let titleTokens ← env.analyze capture.record.title
  let bodyTokens ← env.analyze capture.record.body
  let indexed : IndexedCapture τ := ⟨capture, current, titleTokens, bodyTokens⟩
  if env.payloadLen indexed > 48 * 1024 * 1024 then .error .capacity else pure indexed

/-- A document is added where its key belongs; one with the same key stays. -/
def addDocument (docs : List (IndexedCapture τ)) (doc : IndexedCapture τ) : List (IndexedCapture τ) :=
  docs.orderedInsert (fun first second => first.key ≤ second.key) doc

/-- One commit: the documents under the keys are deleted and the others are added. -/
def commitChanges (index : CorpusIndex τ) (keys : List Str) (documents : List (IndexedCapture τ))
    (generation : ℕ) : CorpusIndex τ where
  docs := documents.foldl addDocument (index.docs.filter fun doc => doc.key ∉ keys)
  generation

/-- What a scan of an object decided: keys to delete, documents to add, and whether the new capture is current. -/
structure Plan (τ : Type) where
  keys : List Str
  documents : List (IndexedCapture τ)
  current : Bool

/-- One older document of the object against the new capture. -/
def consider (env : Indexing τ) (capture : Capture) (installHead : Bool) (plan : Plan τ) (old : IndexedCapture τ) :
    Except DatabaseError (Plan τ) :=
  if old.capture.captureId = capture.captureId then
    .ok { plan with current := plan.current || old.current, keys := plan.keys ++ [old.key] }
  else if old.capture.record.revisionId = capture.record.revisionId ∧ (!old.current || installHead) then
    .ok { plan with keys := plan.keys ++ [old.key] }
  else if old.current && installHead then
    if !plan.documents.isEmpty then .error .storageCorrupt
    else do
      let demoted ← indexedDocument env old.capture false
      pure { plan with keys := plan.keys ++ [old.key], documents := plan.documents ++ [demoted] }
  else .ok plan

/-- The loop over the documents under a prefix: `batch(&after, 1)` again and again, at most 1000 of them. -/
def scanPrefix {σ : Type} (index : CorpusIndex τ) (front : Str)
    (step : σ → IndexedCapture τ → Except DatabaseError σ) (state : σ) : Except DatabaseError σ :=
  walk IndexedCapture.key index.docs front.isPrefixOf step .capacity 1000 front state

/-- Replace only affected captures. At most the old HEAD and the new capture are added. -/
def applyCapture (env : Indexing τ) (index : CorpusIndex τ) (capture : Capture) (installHead : Bool)
    (generation : ℕ) : Except DatabaseError (CorpusIndex τ) := do
  let plan ← index.scanPrefix (objectPrefix capture.record.object) (consider env capture installHead) ⟨[], [], installHead⟩
  let document ← indexedDocument env capture plan.current
  match env.interrupted with
  | some error => .error error
  | none => pure (index.commitChanges plan.keys (plan.documents ++ [document]) generation)

/-- The keys of an object's documents of one capture. -/
def captureKeys (captureId : Str) (keys : List Str) (old : IndexedCapture τ) : Except DatabaseError (List Str) :=
  .ok (if old.capture.captureId = captureId then keys ++ [old.key] else keys)

def removeCapture (env : Indexing τ) (index : CorpusIndex τ) (object : ObjectId) (captureId : Str)
    (generation : ℕ) : Except DatabaseError (CorpusIndex τ) := do
  let keys ← index.scanPrefix (objectPrefix object) (captureKeys captureId) []
  match env.interrupted with
  | some error => .error error
  | none => pure (index.commitChanges keys [] generation)

/-- `str::replace`, of at most `fuel` occurrences. -/
def replaceLoop (pattern value : Str) : ℕ → Str → Str
  | 0, s => s
  | fuel + 1, s =>
    match splitOnce pattern s with
    | none => s
    | some (before, after) => before ++ value ++ replaceLoop pattern value fuel after

def replace (pattern value s : Str) : Str := replaceLoop pattern value s.length s

/-- The key that `remove_object` writes out, with blanks around its separators, and closes up again. -/
def removedKey (object : ObjectId) : Str :=
  replace [' ', '/', ' '] ['/'] (object.jurisdiction ++ [' ', '/', ' '] ++ (object.provider ++ [' ', '/', ' '] ++
    (object.dataset.debugName ++ [' ', '/', ' '] ++ object.id)))

/-- All documents with the object's key are deleted. -/
def removeObject (env : Indexing τ) (index : CorpusIndex τ) (object : ObjectId) (generation : ℕ) :
    Except DatabaseError (CorpusIndex τ) :=
  match env.interrupted with
  | some error => .error error
  | none => .ok ⟨index.docs.filter fun doc => objectKey doc.object ≠ removedKey object, generation⟩

def advanceGeneration (env : Indexing τ) (index : CorpusIndex τ) (generation : ℕ) :
    Except DatabaseError (CorpusIndex τ) :=
  match env.interrupted with
  | some error => .error error
  | none => .ok (index.commitChanges [] [] generation)

/-! ## Runs -/

inductive Op (τ : Type) where
  | applyCapture (env : Indexing τ) (capture : Capture) (installHead : Bool) (generation : ℕ)
  | removeCapture (env : Indexing τ) (object : ObjectId) (captureId : Str) (generation : ℕ)
  | removeObject (env : Indexing τ) (object : ObjectId) (generation : ℕ)
  | advanceGeneration (env : Indexing τ) (generation : ℕ)

def perform (index : CorpusIndex τ) : Op τ → Except DatabaseError (CorpusIndex τ)
  | .applyCapture env capture installHead generation => applyCapture env index capture installHead generation
  | .removeCapture env object captureId generation => removeCapture env index object captureId generation
  | .removeObject env object generation => removeObject env index object generation
  | .advanceGeneration env generation => advanceGeneration env index generation

/-- A failed operation leaves the index as it was. -/
def step (index : CorpusIndex τ) (op : Op τ) : CorpusIndex τ := (index.perform op).toOption.getD index

def run (index : CorpusIndex τ) (ops : List (Op τ)) : CorpusIndex τ := ops.foldl step index

def empty : CorpusIndex τ := ⟨[], 0⟩

/-- The capture ids that are marked current for an object. -/
def heads (index : CorpusIndex τ) (object : ObjectId) : List Str :=
  (index.docs.filter fun doc => doc.object = object && doc.current).map fun doc => doc.capture.captureId

end CorpusIndex

end OpenLegal.Legal
