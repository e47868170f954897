import OpenLegal.LawGoKr.Attachments

/-! # What attachments contribute

Each attachment contributes to a record on its own: pages of a document, or a report that it is missing, and bytes of evidence. All
that the loop over the attachments keeps is the sum of these contributions, so a failed attachment cannot show in it otherwise.
-/

namespace OpenLegal.LawGoKr

open Rust Rust.Str Legal Corpus

/-- What came of one attachment. -/
structure Contribution where
  ordinal : ℕ
  link : AttachmentLink
  document : Option ProcessedDocument
  missing : Option MissingAttachment
  bytes : Option Bytes

namespace Contribution

def sections (contribution : Contribution) : List LegalSection :=
  contribution.document.elim [] (attachmentSections contribution.ordinal contribution.link.title)

def processor (contribution : Contribution) : Option AttachmentProcessor :=
  contribution.document.map fun document => ⟨contribution.ordinal, document.sourceSha256, document.processorVersion⟩

def evidenceOrdinal (contribution : Contribution) : Option ℕ := contribution.bytes.map fun _ => contribution.ordinal

def size (contribution : Contribution) : ℕ := contribution.bytes.elim 0 List.length

/-- The resource is retained if there are bytes of what the link promised. -/
def resource (contribution : Contribution) : ListedResource :=
  { listedResource contribution.ordinal contribution.link with retained := contribution.bytes.isSome && contribution.missing.isNone }

end Contribution

/-- The bytes are what one of the three requests for the attachment brought. -/
def Brought (scanners : Scanners) (attempts : ℕ → Exchange) (format : DocumentFormat) (bytes : Bytes) : Prop :=
  ∃ attempt ≤ 2, ∃ remaining body, fetchBody scanners (attempts attempt) format (some remaining) = .ok body ∧ body.raw = bytes

/-- The document is what the processor made of the bytes that one of the three requests brought. -/
def Answered (scanners : Scanners) (attempts : ℕ → Exchange) (format : DocumentFormat) (document : ProcessedDocument) : Prop :=
  ∃ attempt ≤ 2, ∃ remaining body output, fetchBody scanners (attempts attempt) format (some remaining) = .ok body ∧
    (attempts attempt).processed = .ok output ∧ markDiagnostics body.credentialsRedacted output = document

/-- A contribution that the answers to the requests for the attachment account for. -/
structure Contribution.Valid (scanners : Scanners) (attempts : ℕ → Exchange) (contribution : Contribution) : Prop where
  exclusive : contribution.document.isSome = true → contribution.missing = none
  reported : ∀ failure ∈ contribution.missing, failure.ordinal = contribution.ordinal
  answered : ∀ document ∈ contribution.document, Answered scanners attempts contribution.link.format document
  brought : ∀ bytes ∈ contribution.bytes, Brought scanners attempts contribution.link.format bytes

/-! ## Fetching one attachment -/

section Fetching

variable {client : Client} {attempts : ℕ → Exchange} {ordinal : ℕ} {link : AttachmentLink}

/-- How the fetch of an attachment that may be processed ends, with the bytes that go into the evidence. -/
inductive AttachmentCase (client : Client) (attempts : ℕ → Exchange) (ordinal : ℕ) (link : AttachmentLink) (before : Collected) :
    Bytes → Collected → Prop
  | failed {tally : Tally} (same : Same before.toTally tally) (reason : Str) :
      AttachmentCase client attempts ordinal link before []
        { before with toTally := tally, missing := before.missing ++ [⟨ordinal, link.format, none, reason⟩] }
  | processed {document : ProcessedDocument} {bytes : Bytes} {tally : Tally}
      (answered : Answered client.scanners attempts link.format document)
      (brought : Brought client.scanners attempts link.format bytes)
      (passed : Passed client.codec ordinal link.title document bytes.length before.toTally tally) :
      AttachmentCase client attempts ordinal link before bytes { before with toTally := tally }
  | abandoned {bytes : Bytes} {tally : Tally} (brought : Brought client.scanners attempts link.format bytes)
      (same : Same before.toTally tally) (fits : tally.total + bytes.length ≤ maxDocumentBytes) (digest reason : Str) :
      AttachmentCase client attempts ordinal link before bytes
        { before with
          toTally := { tally with total := tally.total + bytes.length }
          missing := before.missing ++ [⟨ordinal, link.format, some digest, reason⟩] }

theorem abandon_case {before after : Collected} {tally : Tally} {raw bytes : Bytes} {reason : Str}
    (brought : Brought client.scanners attempts link.format raw) (changed : Extends before.toTally tally)
    (abandoned : abandon client ordinal link before.toTally tally raw reason before = .ok (bytes, after)) :
    AttachmentCase client attempts ordinal link before bytes after := by
  rw [abandon, ite_error_eq_ok, Bool.or_eq_true, decide_eq_true_eq, decide_eq_true_eq, not_or, not_lt] at abandoned
  obtain ⟨⟨-, fits⟩, same⟩ := abandoned
  cases same
  exact .abandoned brought changed.rollback fits _ reason

theorem failed_case {before after : Collected} {tally : Tally} {error : DatabaseError} {bytes : Bytes} (changed : Extends before.toTally tally)
    (ran : (match fetchFailure error with
      | some reason => .ok ([], { before with
          toTally := before.toTally.rollback tally
          missing := before.missing ++ [⟨ordinal, link.format, none, reason⟩] })
      | none => .error error) = Except.ok (bytes, after)) :
    AttachmentCase client attempts ordinal link before bytes after := by
  split at ran
  · next reason _ =>
    cases ran
    exact .failed changed.rollback reason
  · cases ran

/-- A pass through the loop ends it, or another try starts from the same state, since HTML never reaches the check. -/
theorem fetchAttachment_pass {before after : Collected} {bytes : Bytes} {left : ℕ}
    (ran : fetchAttachment client attempts ordinal link before.toTally left before = .ok (bytes, after)) :
    AttachmentCase client attempts ordinal link before bytes after ∨
      ∃ fewer, left = fewer + 1 ∧ fetchAttachment client attempts ordinal link before.toTally fewer before = .ok (bytes, after) := by
  have unchanged : Extends before.toTally before.toTally := Std.Refl.refl _
  have numbered : 2 - left ≤ 2 := Nat.sub_le _ _
  have outcome := @fetchAttachment_outcome Tally Bytes client.scanners (attempts (2 - left)) link.format (maxDocumentBytes - before.total)
    (checkAttachment client.parsers client.codec ordinal link) before.toTally
  rw [fetchAttachment.eq_def] at ran
  generalize fetchAttachmentTimedChecked client.scanners (attempts (2 - left)) link.format (maxDocumentBytes - before.total)
    (checkAttachment client.parsers client.codec ordinal link) before.toTally = result at outcome ran
  cases outcome with
  | failed error => exact .inl (failed_case unchanged ran)
  | refused rejected error => exact .inl (failed_case (checkAttachment_error rejected) ran)
  | processed fetched answered accepted =>
    obtain ⟨same, passed⟩ := checkAttachment_ok accepted
    cases ran
    rw [same]
    exact .inl (.processed ⟨_, numbered, _, _, _, fetched, answered, rfl⟩ ⟨_, numbered, _, _, fetched, rfl⟩ passed)
  | unexpected fetched html reason =>
    dsimp only at ran
    split at ran
    · next fewer => exact .inr ⟨fewer, rfl, ran⟩
    · exact .inl (abandon_case ⟨_, numbered, _, _, fetched, rfl⟩ unchanged ran)
  | invalid fetched rejected reason => exact .inl (abandon_case ⟨_, numbered, _, _, fetched, rfl⟩ (checkAttachment_error rejected) ran)

theorem fetchAttachment_case {before after : Collected} {bytes : Bytes} {left : ℕ}
    (ran : fetchAttachment client attempts ordinal link before.toTally left before = .ok (bytes, after)) :
    AttachmentCase client attempts ordinal link before bytes after := by
  induction left with
  | zero =>
    rcases fetchAttachment_pass ran with ended | ⟨fewer, impossible, -⟩
    · exact ended
    · cases impossible
  | succ left ih =>
    rcases fetchAttachment_pass ran with ended | ⟨fewer, same, again⟩
    · exact ended
    · cases same
      exact ih again

end Fetching

/-! ## The account of all contributions -/

/-- What the loop keeps is the sum of the contributions, on top of the record and the resources it started with. -/
structure Account (codec : Codec) (base : Tally) (primary : List ListedResource) (contributions : List Contribution) (collected : Collected) :
    Prop where
  sections : collected.record.sections = base.record.sections ++ contributions.flatMap Contribution.sections
  processors : storedProcessors codec collected.record.metadata = some (contributions.filterMap Contribution.processor)
  failures : collected.record.metadata.get attachmentFailuresKey = none
  total : collected.total = base.total + (contributions.map Contribution.size).sum
  fits : collected.total ≤ maxDocumentBytes
  extracted : collected.extracted = textBytes (contributions.flatMap Contribution.sections)
  bounded : collected.extracted ≤ maxExtractedBytes
  resources : collected.resources = primary ++ contributions.map Contribution.resource
  evidence : collected.additionalEvidence = contributions.filterMap Contribution.bytes
  ordinals : collected.evidenceOrdinals = contributions.filterMap Contribution.evidenceOrdinal
  missing : collected.missing = contributions.filterMap Contribution.missing

/-- A contribution to the record and the counters. -/
structure Changes (codec : Codec) (contribution : Contribution) (before after : Tally) : Prop where
  sections : after.record.sections = before.record.sections ++ contribution.sections
  processors : ∀ processors, storedProcessors codec before.record.metadata = some processors →
    storedProcessors codec after.record.metadata = some (processors ++ contribution.processor.toList)
  failures : after.record.metadata.get attachmentFailuresKey = before.record.metadata.get attachmentFailuresKey
  total : after.total = before.total + contribution.size
  fits : before.total ≤ maxDocumentBytes → after.total ≤ maxDocumentBytes
  extracted : after.extracted = before.extracted + textBytes contribution.sections
  bounded : before.extracted ≤ maxExtractedBytes → after.extracted ≤ maxExtractedBytes

/-- A contribution to all that the loop keeps. -/
structure Adds (codec : Codec) (contribution : Contribution) (before after : Collected) : Prop where
  changes : Changes codec contribution before.toTally after.toTally
  resources : after.resources = before.resources ++ [contribution.resource]
  evidence : after.additionalEvidence = before.additionalEvidence ++ contribution.bytes.toList
  ordinals : after.evidenceOrdinals = before.evidenceOrdinals ++ contribution.evidenceOrdinal.toList
  missing : after.missing = before.missing ++ contribution.missing.toList

theorem filterMap_append_singleton {α β : Type} (f : α → Option β) (items : List α) (item : α) :
    (items ++ [item]).filterMap f = items.filterMap f ++ (f item).toList := by
  rw [List.filterMap_append]
  cases known : f item <;> simp [known]

section Account

variable {codec : Codec} {base : Tally} {primary : List ListedResource} {contributions : List Contribution} {contribution : Contribution}
  {before after : Collected}

theorem Account.append (account : Account codec base primary contributions before) (adds : Adds codec contribution before after) :
    Account codec base primary (contributions ++ [contribution]) after where
  sections := by
    rw [adds.changes.sections, account.sections, List.flatMap_append, List.flatMap_singleton, List.append_assoc]
  processors := by rw [adds.changes.processors _ account.processors, filterMap_append_singleton]
  failures := adds.changes.failures.trans account.failures
  total := by
    rw [adds.changes.total, account.total, List.map_append, List.map_singleton, List.sum_append, List.sum_singleton, Nat.add_assoc]
  fits := adds.changes.fits account.fits
  extracted := by
    rw [adds.changes.extracted, account.extracted, List.flatMap_append, List.flatMap_singleton, textBytes_append]
  bounded := adds.changes.bounded account.bounded
  resources := by rw [adds.resources, account.resources, List.map_append, List.map_singleton, List.append_assoc]
  evidence := by rw [adds.evidence, account.evidence, filterMap_append_singleton]
  ordinals := by rw [adds.ordinals, account.ordinals, filterMap_append_singleton]
  missing := by rw [adds.missing, account.missing, filterMap_append_singleton]

variable {client : Client} {attempts : ℕ → Exchange} {ordinal : ℕ} {link : AttachmentLink}

/-- What is kept of the bytes of an attachment changes neither the sections nor the counters. -/
structure Keeps (ordinal : ℕ) (link : AttachmentLink) (bytes : Option Bytes) (before after : Collected) : Prop where
  sections : after.record.sections = before.record.sections
  metadata : ∀ key ∈ [attachmentProcessorsKey, attachmentFailuresKey], after.record.metadata.get key = before.record.metadata.get key
  total : after.total = before.total
  extracted : after.extracted = before.extracted
  resources : ∀ front, before.resources = front ++ [listedResource ordinal link] →
    after.resources = front ++ [{ listedResource ordinal link with retained := bytes.isSome && !isMissing before.missing ordinal }]
  evidence : after.additionalEvidence = before.additionalEvidence ++ bytes.toList
  ordinals : after.evidenceOrdinals = before.evidenceOrdinals ++ (bytes.map fun _ => ordinal).toList
  missing : after.missing = before.missing

theorem keeps_none (collected : Collected) : Keeps ordinal link none collected collected where
  sections := rfl
  metadata := fun _ _ => rfl
  total := rfl
  extracted := rfl
  resources := fun _ listed => listed
  evidence := (List.append_nil _).symm
  ordinals := (List.append_nil _).symm
  missing := rfl

theorem modify_length {α : Type} (front : List α) (last : α) (change : α → α) :
    (front ++ [last]).modify front.length change = front ++ [change last] := by
  induction front with
  | nil => rfl
  | cons item front ih => rw [List.cons_append, List.length_cons, List.modify_succ_cons, ih, List.cons_append]

theorem keeps_evidence (bytes : Bytes) {collected : Collected} {front : List ListedResource}
    (listed : collected.resources = front ++ [listedResource ordinal link]) :
    Keeps ordinal link (some bytes) collected (keepEvidence ordinal front.length bytes collected) where
  sections := rfl
  metadata := by
    intro key listed
    dsimp only [keepEvidence]
    split
    · exact Map.get_insert_of_ne _ (by rintro rfl; revert listed; decide) _
    · rfl
  total := rfl
  extracted := rfl
  resources := by
    intro other same
    rw [listed] at same
    obtain ⟨rfl, -⟩ := List.append_inj' same rfl
    dsimp only [keepEvidence]
    rw [listed, modify_length]
    rfl
  evidence := rfl
  ordinals := rfl
  missing := rfl

theorem storedProcessors_congr {metadata other : Map Str Str}
    (same : other.get attachmentProcessorsKey = metadata.get attachmentProcessorsKey) :
    storedProcessors codec other = storedProcessors codec metadata := by
  rw [storedProcessors, same, storedProcessors]

/-- An attachment without a document changes at most what is retained. -/
theorem Same.changes {before after tally : Tally} (same : Same before tally) (idle : contribution.document = none)
    (total : after.total = tally.total + contribution.size)
    (fits : tally.total ≤ maxDocumentBytes → tally.total + contribution.size ≤ maxDocumentBytes)
    (record : after.record = tally.record) (extracted : after.extracted = tally.extracted) : Changes codec contribution before after where
  sections := by rw [record, same.sections, Contribution.sections, idle, Option.elim_none, List.append_nil]
  processors := by
    intro processors stored
    rw [record, storedProcessors_congr (same.metadata _), stored, Contribution.processor, idle, Option.map_none, Option.toList_none,
      List.append_nil]
  failures := by rw [record, same.metadata]
  total := by rw [total, same.total]
  fits := by
    intro small
    rw [total]
    exact fits (same.total ▸ small)
  extracted := by rw [extracted, same.extracted, Contribution.sections, idle, Option.elim_none, textBytes_nil, Nat.add_zero]
  bounded := by
    intro small
    rw [extracted, same.extracted]
    exact small

/-- An attachment that passes its check contributes its pages. -/
theorem Passed.changes {before after : Tally} {document : ProcessedDocument} (kept : contribution.document = some document)
    (passed : Passed codec contribution.ordinal contribution.link.title document contribution.size before after) :
    Changes codec contribution before after where
  sections := by rw [passed.sections, Contribution.sections, kept, Option.elim_some]
  processors := by
    intro processors stored
    obtain ⟨known, listed, next⟩ := passed.processors
    rw [stored] at listed
    cases listed
    rw [next, Contribution.processor, kept]
    rfl
  failures := passed.others _ (by decide)
  total := passed.total
  fits := fun _ => passed.fits
  extracted := by rw [passed.extracted, Contribution.sections, kept, Option.elim_some]
  bounded := passed.bounded

/-- A change of the counters, then of what is kept of the bytes. -/
theorem Changes.adds (middle : Collected) (changes : Changes codec contribution before.toTally middle.toTally)
    (resources : middle.resources = before.resources ++ [listedResource contribution.ordinal contribution.link])
    (evidence : middle.additionalEvidence = before.additionalEvidence) (ordinals : middle.evidenceOrdinals = before.evidenceOrdinals)
    (missing : middle.missing = before.missing ++ contribution.missing.toList)
    (reported : ∀ failure ∈ contribution.missing, failure.ordinal = contribution.ordinal)
    (fresh : isMissing before.missing contribution.ordinal = false)
    (keeps : Keeps contribution.ordinal contribution.link contribution.bytes middle after) : Adds codec contribution before after where
  changes :=
    { sections := by rw [keeps.sections, changes.sections]
      processors := by
        intro processors stored
        rw [storedProcessors_congr (keeps.metadata _ (by decide)), changes.processors _ stored]
      failures := by rw [keeps.metadata _ (by decide), changes.failures]
      total := by rw [keeps.total, changes.total]
      fits := by
        rw [keeps.total]
        exact changes.fits
      extracted := by rw [keeps.extracted, changes.extracted]
      bounded := by
        rw [keeps.extracted]
        exact changes.bounded }
  resources := by
    have found : isMissing middle.missing contribution.ordinal = contribution.missing.isSome := by
      rw [missing, isMissing, List.any_append, show before.missing.any _ = false from fresh, Bool.false_or]
      cases known : contribution.missing with
      | none => rfl
      | some failure => simp [reported failure known]
    rw [keeps.resources _ resources, found, Contribution.resource]
    cases contribution.missing <;> rfl
  evidence := by rw [keeps.evidence, evidence]
  ordinals := by rw [keeps.ordinals, ordinals, Contribution.evidenceOrdinal]
  missing := by rw [keeps.missing, missing]

end Account

/-! ## One attachment -/

section Step

variable {client : Client} {attempts : ℕ → Exchange} {ordinal : ℕ} {link : AttachmentLink} {before after : Collected}

/-- Bytes that are worth keeping. -/
def nonempty (bytes : Bytes) : Option Bytes := if bytes.isEmpty then none else some bytes

theorem size_nonempty (bytes : Bytes) (document : Option ProcessedDocument) (missing : Option MissingAttachment) :
    Contribution.size ⟨ordinal, link, document, missing, nonempty bytes⟩ = bytes.length := by
  cases bytes <;> rfl

theorem brought_nonempty {bytes : Bytes} (brought : Brought client.scanners attempts link.format bytes) :
    ∀ kept ∈ nonempty bytes, Brought client.scanners attempts link.format kept := by
  intro kept member
  rw [nonempty] at member
  split at member
  · cases member
  · cases member
    exact brought

/-- The end of a round: bytes go into the evidence unless there are none. -/
theorem keeps_nonempty {collected : Collected} {front : List ListedResource} {bytes : Bytes}
    (listed : collected.resources = front ++ [listedResource ordinal link])
    (ended : (if bytes.isEmpty then .ok collected else .ok (keepEvidence ordinal front.length bytes collected)) =
      (.ok after : Except DatabaseError Collected)) : Keeps ordinal link (nonempty bytes) collected after := by
  rw [nonempty]
  split at ended
  · next empty =>
    cases ended
    rw [if_pos empty]
    exact keeps_none _
  · next filled =>
    cases ended
    rw [if_neg filled]
    exact keeps_evidence bytes listed

/-- A contribution of the attachment accounts for what has changed. -/
def Contributes (client : Client) (attempts : ℕ → Exchange) (ordinal : ℕ) (link : AttachmentLink) (before after : Collected) : Prop :=
  ∃ contribution : Contribution, contribution.ordinal = ordinal ∧ contribution.link = link ∧
    contribution.Valid client.scanners attempts ∧ Adds client.codec contribution before after

/-- What the loop keeps once an attachment is listed. -/
def Collected.list (collected : Collected) (ordinal : ℕ) (link : AttachmentLink) : Collected :=
  { collected with resources := collected.resources ++ [listedResource ordinal link] }

theorem Same.refl (tally : Tally) : Same tally tally := ⟨rfl, fun _ => rfl, rfl, rfl⟩

/-- An attachment that is only listed, or reported without a download. -/
theorem contributes_nothing (missing : Option MissingAttachment) (reported : ∀ failure ∈ missing, failure.ordinal = ordinal)
    (fresh : isMissing before.missing ordinal = false) {tally : Tally} (same : Same before.toTally tally) :
    Contributes client attempts ordinal link before
      { before.list ordinal link with toTally := tally, missing := before.missing ++ missing.toList } := by
  have valid : Contribution.Valid client.scanners attempts ⟨ordinal, link, none, missing, none⟩ :=
    ⟨nofun, reported, nofun, nofun⟩
  have changes : Changes client.codec ⟨ordinal, link, none, missing, none⟩ before.toTally tally := same.changes rfl rfl id rfl rfl
  exact ⟨_, rfl, rfl, valid, changes.adds { before.list ordinal link with toTally := tally, missing := before.missing ++ missing.toList }
    rfl rfl rfl rfl reported fresh (keeps_none _)⟩

theorem collectOriginal_contributes (fresh : isMissing before.missing ordinal = false)
    (ran : collectOriginal client attempts ordinal link before.resources.length (before.list ordinal link) = .ok after) :
    Contributes client attempts ordinal link before after := by
  rw [collectOriginal] at ran
  split at ran
  · split at ran
    · cases ran
      exact contributes_nothing (some ⟨ordinal, link.format, none, _⟩) (by rintro _ ⟨⟩; rfl) fresh (Same.refl _)
    · cases ran
  · next bytes retrievedAt fetched =>
    obtain ⟨body, fetched, same⟩ := fetchOriginal_fetched fetched
    rw [ite_error_eq_ok, Bool.or_eq_true, decide_eq_true_eq, decide_eq_true_eq, not_or, not_lt] at ran
    obtain ⟨⟨-, fits⟩, ended⟩ := ran
    cases ended
    have valid : Contribution.Valid client.scanners attempts ⟨ordinal, link, none, none, some bytes⟩ := by
      refine ⟨fun _ => rfl, nofun, nofun, ?_⟩
      rintro _ ⟨⟩
      exact ⟨0, Nat.zero_le 2, _, body, fetched, same⟩
    have changes : Changes client.codec ⟨ordinal, link, none, none, some bytes⟩ before.toTally
        { before.toTally with total := before.total + bytes.length } := (Same.refl _).changes rfl rfl (fun _ => fits) rfl rfl
    exact ⟨_, rfl, rfl, valid, changes.adds { before.list ordinal link with total := before.total + bytes.length } rfl rfl rfl
      (List.append_nil _).symm nofun fresh (keeps_evidence bytes rfl)⟩

theorem case_contributes {middle : Collected} {bytes : Bytes} (fresh : isMissing before.missing ordinal = false)
    (ran : AttachmentCase client attempts ordinal link (before.list ordinal link) bytes middle)
    (ended : (if bytes.isEmpty then .ok middle else .ok (keepEvidence ordinal before.resources.length bytes middle)) =
      (.ok after : Except DatabaseError Collected)) : Contributes client attempts ordinal link before after := by
  cases ran with
  | failed same reason =>
    cases ended
    exact contributes_nothing (some ⟨ordinal, link.format, none, reason⟩) (by rintro _ ⟨⟩; rfl) fresh same
  | @processed document _ tally answered brought passed =>
    have valid : Contribution.Valid client.scanners attempts ⟨ordinal, link, some document, none, nonempty bytes⟩ := by
      refine ⟨fun _ => rfl, nofun, ?_, brought_nonempty brought⟩
      rintro _ ⟨⟩
      exact answered
    rw [← @size_nonempty ordinal link bytes (some document) none] at passed
    have changes : Changes client.codec ⟨ordinal, link, some document, none, nonempty bytes⟩ before.toTally tally := passed.changes rfl
    exact ⟨_, rfl, rfl, valid, changes.adds { before.list ordinal link with toTally := tally } rfl rfl rfl (List.append_nil _).symm
      nofun fresh (keeps_nonempty rfl ended)⟩
  | @abandoned _ tally brought same fits digest reason =>
    let failure : MissingAttachment := ⟨ordinal, link.format, some digest, reason⟩
    have reported : ∀ other ∈ some failure, other.ordinal = ordinal := by
      rintro _ ⟨⟩
      rfl
    have valid : Contribution.Valid client.scanners attempts ⟨ordinal, link, none, some failure, nonempty bytes⟩ :=
      ⟨nofun, reported, nofun, brought_nonempty brought⟩
    rw [← @size_nonempty ordinal link bytes none (some failure)] at fits
    have changes : Changes client.codec ⟨ordinal, link, none, some failure, nonempty bytes⟩ before.toTally
        { tally with total := tally.total + bytes.length } :=
      same.changes rfl (by rw [size_nonempty]) (fun _ => fits) rfl rfl
    exact ⟨_, rfl, rfl, valid, changes.adds { before.list ordinal link with
      toTally := { tally with total := tally.total + bytes.length }
      missing := before.missing ++ [failure] } rfl rfl rfl rfl reported fresh (keeps_nonempty rfl ended)⟩

/-- A round of the loop adds one contribution. -/
theorem collectAttachment_contributes (fresh : isMissing before.missing ordinal = false)
    (ran : collectAttachment client attempts ordinal link before = .ok after) : Contributes client attempts ordinal link before after := by
  rw [collectAttachment] at ran
  dsimp only at ran
  split at ran
  · cases ran
    have nothing := @contributes_nothing client attempts ordinal link before none nofun fresh _ (Same.refl _)
    rwa [Option.toList_none, List.append_nil] at nothing
  split at ran
  · exact collectOriginal_contributes fresh ran
  split at ran
  · cases ran
  · next bytes middle fetched => exact case_contributes fresh (fetchAttachment_case fetched) ran

end Step

/-! ## All attachments -/

/-- One contribution for each link, in order. -/
structure Contributed (scanners : Scanners) (attempts : ℕ → ℕ → Exchange) (ordinal : ℕ) (links : List AttachmentLink)
    (contributions : List Contribution) : Prop where
  each : contributions.map (fun contribution => (contribution.link, contribution.ordinal)) = links.zipIdx ordinal
  valid : ∀ contribution ∈ contributions, contribution.Valid scanners (attempts contribution.ordinal)

section Run

variable {client : Client} {attempts : ℕ → ℕ → Exchange} {base : Tally} {primary : List ListedResource}

theorem collectAttachments_account {links : List AttachmentLink} {ordinal : ℕ} {before after : Collected} {earlier : List Contribution}
    (account : Account client.codec base primary earlier before) (reported : ∀ failure ∈ before.missing, failure.ordinal < ordinal)
    (ran : collectAttachments client attempts ordinal links before = .ok after) :
    ∃ contributions, Contributed client.scanners attempts ordinal links contributions ∧
      Account client.codec base primary (earlier ++ contributions) after := by
  induction links generalizing ordinal before earlier with
  | nil =>
    cases ran
    exact ⟨[], ⟨rfl, List.forall_mem_nil _⟩, by rwa [List.append_nil]⟩
  | cons link links ih =>
    obtain ⟨middle, round, rest⟩ := bind_eq_ok.mp ran
    have fresh : isMissing before.missing ordinal = false := by
      rw [isMissing, List.any_eq_false]
      intro failure member
      have earlier := reported failure member
      simp only [beq_iff_eq]
      omega
    obtain ⟨contribution, rfl, rfl, valid, adds⟩ := collectAttachment_contributes fresh round
    have later : ∀ failure ∈ middle.missing, failure.ordinal < contribution.ordinal + 1 := by
      intro failure member
      rw [adds.missing, List.mem_append, Option.mem_toList] at member
      rcases member with old | new
      · exact Nat.lt_succ_of_lt (reported failure old)
      · rw [valid.reported failure new]
        exact Nat.lt_succ_self _
    obtain ⟨contributions, ⟨each, all⟩, account⟩ := ih (account.append adds) later rest
    refine ⟨contribution :: contributions, ⟨?_, List.forall_mem_cons.mpr ⟨valid, all⟩⟩, ?_⟩
    · rw [List.map_cons, each, List.zipIdx_cons]
    · rwa [List.append_assoc, List.singleton_append] at account

end Run

/-! ## What the sum of contributions says -/

namespace Contributed

variable {scanners : Scanners} {attempts : ℕ → ℕ → Exchange} {links : List AttachmentLink} {contributions : List Contribution}

theorem ordinals (contributed : Contributed scanners attempts 1 links contributions) :
    contributions.map Contribution.ordinal = List.range' 1 links.length := by
  rw [← List.zipIdx_map_snd 1 links, ← contributed.each, List.map_map]
  rfl

theorem mem_zipIdx (contributed : Contributed scanners attempts 1 links contributions) {contribution : Contribution}
    (member : contribution ∈ contributions) : (contribution.link, contribution.ordinal) ∈ links.zipIdx 1 := by
  rw [← contributed.each]
  exact List.mem_map_of_mem member

theorem ascending (contributed : Contributed scanners attempts 1 links contributions) :
    contributions.Pairwise fun one other => one.ordinal < other.ordinal := by
  rw [← List.pairwise_map, contributed.ordinals]
  exact List.pairwise_lt_range'

/-- What contributions with ascending ordinals are mapped to, with their ordinals, ascends. -/
theorem filterMap_ascending {α : Type} {part : Contribution → Option α} {ordinalOf : α → ℕ}
    (contributed : Contributed scanners attempts 1 links contributions)
    (same : ∀ contribution ∈ contributions, ∀ value ∈ part contribution, ordinalOf value = contribution.ordinal) :
    ((contributions.filterMap part).map ordinalOf).Pairwise (· < ·) := by
  rw [List.pairwise_map, List.pairwise_filterMap]
  refine contributed.ascending.imp_of_mem ?_
  intro one other member later less value found value' found'
  rw [same one member value found, same other later value' found']
  exact less

theorem processors_ascending (contributed : Contributed scanners attempts 1 links contributions) :
    ((contributions.filterMap Contribution.processor).map AttachmentProcessor.ordinal).Pairwise (· < ·) := by
  apply contributed.filterMap_ascending
  intro contribution _ processor listed
  obtain ⟨document, -, rfl⟩ := Option.map_eq_some_iff.mp listed
  rfl

theorem evidence_ascending (contributed : Contributed scanners attempts 1 links contributions) :
    (contributions.filterMap Contribution.evidenceOrdinal).Pairwise (· < ·) := by
  rw [← List.map_id (contributions.filterMap Contribution.evidenceOrdinal)]
  apply contributed.filterMap_ascending
  intro contribution _ ordinal listed
  obtain ⟨bytes, -, rfl⟩ := Option.map_eq_some_iff.mp listed
  rfl

/-- A contribution is determined by its ordinal. -/
theorem eq_of_ordinal (contributed : Contributed scanners attempts 1 links contributions) {one other : Contribution}
    (member : one ∈ contributions) (later : other ∈ contributions) (same : one.ordinal = other.ordinal) : one = other := by
  have distinct : (contributions.map Contribution.ordinal).Nodup := by
    rw [contributed.ordinals]
    exact List.nodup_range'
  exact List.inj_on_of_nodup_map distinct member later same

/-- No attachment is both listed and missing. -/
theorem apart (contributed : Contributed scanners attempts 1 links contributions) :
    ∀ processor ∈ contributions.filterMap Contribution.processor, ∀ failure ∈ contributions.filterMap Contribution.missing,
      processor.ordinal ≠ failure.ordinal := by
  intro processor listed failure reported same
  obtain ⟨one, member, listed⟩ := List.mem_filterMap.mp listed
  obtain ⟨other, later, reported⟩ := List.mem_filterMap.mp reported
  obtain ⟨document, kept, rfl⟩ := Option.map_eq_some_iff.mp listed
  have equal : one = other := contributed.eq_of_ordinal member later (by
    rw [← (contributed.valid other later).reported failure reported]
    exact same)
  subst equal
  rw [(contributed.valid one member).exclusive (by rw [kept]; rfl)] at reported
  cases reported

/-- An attachment is retained exactly if its bytes are evidence and it is not missing. -/
theorem retained (contributed : Contributed scanners attempts 1 links contributions) {contribution : Contribution}
    (member : contribution ∈ contributions) : contribution.resource.retained = true ↔
      contribution.ordinal ∈ contributions.filterMap Contribution.evidenceOrdinal ∧
        ∀ failure ∈ contributions.filterMap Contribution.missing, failure.ordinal ≠ contribution.ordinal := by
  rw [Contribution.resource, Bool.and_eq_true, Option.isNone_iff_eq_none]
  constructor
  · rintro ⟨some, none⟩
    obtain ⟨bytes, kept⟩ := Option.isSome_iff_exists.mp some
    refine ⟨List.mem_filterMap.mpr ⟨contribution, member, by rw [Contribution.evidenceOrdinal, kept]; rfl⟩, ?_⟩
    intro failure reported same
    obtain ⟨other, later, reported⟩ := List.mem_filterMap.mp reported
    rw [(contributed.valid other later).reported failure reported] at same
    cases contributed.eq_of_ordinal later member same
    rw [none] at reported
    cases reported
  · rintro ⟨listed, apart⟩
    obtain ⟨other, later, listed⟩ := List.mem_filterMap.mp listed
    obtain ⟨bytes, kept, same⟩ := Option.map_eq_some_iff.mp listed
    cases contributed.eq_of_ordinal later member same
    refine ⟨by rw [kept]; rfl, ?_⟩
    cases reported : contribution.missing with
    | none => rfl
    | some failure =>
      exact (apart failure (List.mem_filterMap.mpr ⟨contribution, member, reported⟩)
        ((contributed.valid contribution member).reported failure reported)).elim

end Contributed

/-- Evidence and its ordinals are read off the same contributions. -/
theorem evidence_forall₂ {R : ℕ → Bytes → Prop} {contributions : List Contribution}
    (related : ∀ contribution ∈ contributions, ∀ bytes ∈ contribution.bytes, R contribution.ordinal bytes) :
    List.Forall₂ R (contributions.filterMap Contribution.evidenceOrdinal) (contributions.filterMap Contribution.bytes) := by
  induction contributions with
  | nil => exact .nil
  | cons contribution contributions ih =>
    rw [List.forall_mem_cons] at related
    cases kept : contribution.bytes with
    | none =>
      rw [List.filterMap_cons_none kept, List.filterMap_cons_none (by rw [Contribution.evidenceOrdinal, kept]; rfl)]
      exact ih related.2
    | some bytes =>
      rw [List.filterMap_cons_some kept,
        @List.filterMap_cons_some _ _ _ _ _ contribution.ordinal (by rw [Contribution.evidenceOrdinal, kept]; rfl)]
      exact .cons (related.1 bytes kept) (ih related.2)

theorem size_filterMap (contributions : List Contribution) :
    ((contributions.filterMap Contribution.bytes).map List.length).sum = (contributions.map Contribution.size).sum := by
  induction contributions with
  | nil => rfl
  | cons contribution contributions ih =>
    cases kept : contribution.bytes with
    | none => rw [List.filterMap_cons_none kept, ih, List.map_cons, List.sum_cons, Contribution.size, kept, Option.elim_none, Nat.zero_add]
    | some bytes =>
      rw [List.filterMap_cons_some kept, List.map_cons, List.sum_cons, ih, List.map_cons, List.sum_cons, Contribution.size, kept,
        Option.elim_some]

end OpenLegal.LawGoKr
