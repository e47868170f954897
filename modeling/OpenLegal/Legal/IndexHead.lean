import OpenLegal.Legal.Projection
import OpenLegal.Legal.SearchIndex

/-! # The current capture of an object

The documents of an object are those whose keys begin with its prefix, so a scan of the prefix sees them all and
no others. Every operation removes and adds documents of one object only, and keeps at most one of them
current.
-/

namespace OpenLegal.Legal

open Rust Rust.Str Theory

/-! ## Keys and objects -/

/-- No separator inside the parts of an object. -/
structure ObjectId.SlashFree (object : ObjectId) : Prop where
  jurisdiction : '/' ∉ object.jurisdiction
  provider : '/' ∉ object.provider
  id : '/' ∉ object.id

theorem slash_not_mem_of_validIdentifier {value : Str} {max : ℕ} (valid : validIdentifier value max = true) :
    '/' ∉ value := by
  intro member
  simp only [validIdentifier, Bool.and_eq_true, List.all_eq_true] at valid
  have allowed := valid.2 '/' member
  revert allowed
  decide

theorem ObjectId.slashFree_of_validate {object : ObjectId} (accepted : object.validate = .ok ()) : object.SlashFree := by
  simp only [ObjectId.validate, ite_error_eq_ok, Bool.or_eq_true, Bool.not_eq_true', not_or, Bool.not_eq_false] at accepted
  obtain ⟨⟨⟨first, second⟩, third⟩, -⟩ := accepted
  exact ⟨slash_not_mem_of_validIdentifier first, slash_not_mem_of_validIdentifier second,
    slash_not_mem_of_validIdentifier third⟩

theorem LegalRecord.slashFree_of_validate {parsers : Parsers} {record : LegalRecord}
    (accepted : record.validate parsers = .ok ()) : record.object.SlashFree := by
  simp only [LegalRecord.validate, bind_eq_ok] at accepted
  obtain ⟨_, object, -⟩ := accepted
  exact ObjectId.slashFree_of_validate object

/-- The part before the first separator is determined. -/
theorem append_separator_inj {separator : Char} {first second rest rest' : Str} (absent : separator ∉ first)
    (absent' : separator ∉ second) (same : first ++ separator :: rest = second ++ separator :: rest') :
    first = second ∧ rest = rest' := by
  induction first generalizing second with
  | nil =>
    cases second with
    | nil => exact ⟨rfl, (List.cons.inj same).2⟩
    | cons c second =>
      cases (List.cons.inj same).1
      exact absurd List.mem_cons_self absent'
  | cons c first ih =>
    cases second with
    | nil =>
      cases (List.cons.inj same).1
      exact absurd List.mem_cons_self absent
    | cons d second =>
      obtain ⟨rfl, tail⟩ := List.cons.inj same
      obtain ⟨rfl, rest⟩ := ih (fun member => absent (List.mem_cons_of_mem _ member))
        (fun member => absent' (List.mem_cons_of_mem _ member)) tail
      exact ⟨rfl, rest⟩

/-- Keys that begin with the prefixes of two objects are keys of the same object. -/
theorem objectKey_append_inj {first second : ObjectId} {rest rest' : Str} (free : first.SlashFree)
    (free' : second.SlashFree) (same : objectKey first ++ '/' :: rest = objectKey second ++ '/' :: rest') :
    first = second ∧ rest = rest' := by
  simp only [objectKey, List.append_assoc, List.cons_append] at same
  obtain ⟨jurisdiction, tail⟩ := append_separator_inj free.jurisdiction free'.jurisdiction same
  obtain ⟨provider, tail'⟩ := append_separator_inj free.provider free'.provider tail
  obtain ⟨dataset, last⟩ :=
    append_separator_inj (Dataset.slash_not_mem_debugName _) (Dataset.slash_not_mem_debugName _) tail'
  obtain ⟨id, remaining⟩ := append_separator_inj free.id free'.id last
  refine ⟨?_, remaining⟩
  cases first
  cases second
  exact ObjectId.mk.injEq .. ▸ ⟨jurisdiction, provider, Dataset.debugName_injective dataset, id⟩

/-- A prefix scan catches no other object, even if one id extends another. -/
theorem objectPrefix_iff {object : ObjectId} {capture : Capture} (free : object.SlashFree)
    (free' : capture.record.object.SlashFree) :
    objectPrefix object <+: recordKey capture ↔ capture.record.object = object := by
  constructor
  · rintro ⟨rest, same⟩
    rw [objectPrefix, recordKey, List.append_assoc] at same
    exact (objectKey_append_inj free free' same).1.symm
  · rintro rfl
    exact ⟨_, by rw [objectPrefix, recordKey, List.append_assoc]; rfl⟩

theorem objectPrefix_lt_recordKey (capture : Capture) : objectPrefix capture.record.object < recordKey capture := by
  have begins : recordKey capture = objectPrefix capture.record.object ++
      (hex (asBytes capture.record.revisionId) ++ '/' :: capture.captureId) := by
    rw [objectPrefix, recordKey, List.append_assoc]
    rfl
  rw [begins]
  apply lt_of_prefix (List.prefix_append _ _)
  simp

theorem slash_not_mem_hex (bytes : Bytes) : '/' ∉ hex bytes := by
  have digits : ∀ n < 16, Nat.digitChar n ≠ '/' := by decide
  intro member
  obtain ⟨byte, -, inside⟩ := List.mem_flatMap.mp member
  have small := byte.toNat_lt
  rcases List.mem_cons.mp inside with high | inside
  · exact digits _ (by omega) high.symm
  · exact digits _ (by omega) (List.mem_singleton.mp inside).symm

/-- A key tells the object and the capture. -/
theorem recordKey_inj {first second : Capture} (free : first.record.object.SlashFree)
    (free' : second.record.object.SlashFree) (same : recordKey first = recordKey second) :
    first.record.object = second.record.object ∧ first.captureId = second.captureId := by
  obtain ⟨object, rest⟩ := objectKey_append_inj free free' same
  exact ⟨object, (append_separator_inj (slash_not_mem_hex _) (slash_not_mem_hex _) rest).2⟩

namespace CorpusIndex

variable {τ : Type}

/-! ## The invariant -/

/-- Keys are in order, objects have no separators inside, and an object has at most one current document. -/
structure Kept (index : CorpusIndex τ) : Prop where
  sorted : KeySorted IndexedCapture.key index.docs
  free : ∀ doc ∈ index.docs, doc.object.SlashFree
  single : ∀ object, (index.heads object).length ≤ 1

/-- The documents of an object, as a completed scan sees them. -/
theorem scanPrefix_eq_foldlM {σ : Type} {index : CorpusIndex τ} (kept : index.Kept) {object : ObjectId}
    (free : object.SlashFree) {step : σ → IndexedCapture τ → Except DatabaseError σ} {state final : σ}
    (ran : index.scanPrefix (objectPrefix object) step state = .ok final) :
    (index.docs.filter fun doc => doc.object = object).foldlM step state = .ok final := by
  have folded := walk_eq_foldlM kept.sorted ?_ (le_refl (objectPrefix object)) ran
  · rw [← folded]
    congr 1
    apply List.filter_congr
    intro doc member
    by_cases same : doc.object = object
    · have begins : objectPrefix object <+: doc.key := (objectPrefix_iff free (kept.free doc member)).mpr same
      have above : objectPrefix object < doc.key := same ▸ objectPrefix_lt_recordKey doc.capture
      simp [same, above, begins]
    · have other : (objectPrefix object).isPrefixOf doc.key = false := by
        rw [← Bool.not_eq_true, List.isPrefixOf_iff_prefix]
        exact fun inside => same ((objectPrefix_iff free (kept.free doc member)).mp inside)
      simp [same, other]
  · intro first second above outside le
    rw [← Bool.not_eq_true, List.isPrefixOf_iff_prefix] at outside ⊢
    exact not_prefix_of_le above outside le

/-! ## Commits -/

theorem addDocument_perm (docs : List (IndexedCapture τ)) (doc : IndexedCapture τ) : (addDocument docs doc).Perm (doc :: docs) :=
  List.perm_orderedInsert _ _ _

theorem addDocument_sorted {docs : List (IndexedCapture τ)} {doc : IndexedCapture τ}
    (sorted : KeySorted IndexedCapture.key docs) (fresh : ∀ other ∈ docs, other.key ≠ doc.key) :
    KeySorted IndexedCapture.key (addDocument docs doc) := by
  induction docs with
  | nil => exact List.pairwise_singleton _ _
  | cons first docs ih =>
    rw [List.forall_mem_cons] at fresh
    obtain ⟨below, rest⟩ := List.pairwise_cons.mp sorted
    rw [addDocument, List.orderedInsert_cons]
    split_ifs with le
    · have less : doc.key < first.key := lt_of_le_of_ne le fresh.1.symm
      refine List.pairwise_cons.mpr ⟨?_, sorted⟩
      intro other member
      rcases List.mem_cons.mp member with rfl | member
      · exact less
      · exact less.trans (below other member)
    · refine List.pairwise_cons.mpr ⟨?_, ih rest fresh.2⟩
      intro other member
      rcases List.mem_cons.mp ((addDocument_perm docs doc).mem_iff.mp member) with rfl | member
      · exact not_le.mp le
      · exact below other member

theorem commit_perm (documents docs : List (IndexedCapture τ)) : (documents.foldl addDocument docs).Perm (documents ++ docs) := by
  induction documents generalizing docs with
  | nil => exact .refl _
  | cons doc documents ih =>
    rw [List.foldl_cons, List.cons_append]
    refine (ih _).trans ?_
    exact ((addDocument_perm docs doc).append_left documents).trans List.perm_middle

/-- Documents with keys of their own keep the order. -/
theorem commit_sorted {documents docs : List (IndexedCapture τ)} (sorted : KeySorted IndexedCapture.key docs)
    (distinct : (documents.map IndexedCapture.key).Nodup)
    (fresh : ∀ doc ∈ documents, ∀ other ∈ docs, other.key ≠ doc.key) :
    KeySorted IndexedCapture.key (documents.foldl addDocument docs) := by
  induction documents generalizing docs with
  | nil => exact sorted
  | cons doc documents ih =>
    rw [List.forall_mem_cons] at fresh
    rw [List.map_cons, List.nodup_cons] at distinct
    refine ih (addDocument_sorted sorted fresh.1) distinct.2 ?_
    intro later member other inside
    rcases List.mem_cons.mp ((addDocument_perm docs doc).mem_iff.mp inside) with rfl | inside
    · intro same
      apply distinct.1
      rw [same]
      exact List.mem_map_of_mem member
    · exact fresh.2 later member other inside

/-- Deleting the keys of some documents of an object deletes these documents. -/
theorem filter_keys {index : CorpusIndex τ} (kept : index.Kept) (object : ObjectId) (removed : IndexedCapture τ → Bool) :
    index.docs.filter (fun doc => doc.key ∉
        ((index.docs.filter fun doc => doc.object = object).filter removed).map IndexedCapture.key) =
      index.docs.filter (fun doc => !(doc.object = object && removed doc)) := by
  apply List.filter_congr
  intro doc member
  have chosen := kept.sorted.key_mem_iff member fun doc => removed doc && decide (doc.object = object)
  simp only [decide_not, List.filter_filter, chosen]
  cases removed doc <;> simp

/-! ## What the operations do -/

/-- An older document that the new capture replaces: its capture, its revision unless it stays current, or the
old current document. -/
def replaced (capture : Capture) (installHead : Bool) (old : IndexedCapture τ) : Bool :=
  old.capture.captureId = capture.captureId ||
    (old.capture.record.revisionId = capture.record.revisionId && (!old.current || installHead)) ||
    (old.current && installHead)

/-- What has been decided about the documents seen so far. -/
structure Plan.Covers (capture : Capture) (installHead : Bool) (seen : List (IndexedCapture τ)) (plan : Plan τ) : Prop where
  keys : plan.keys = (seen.filter (replaced capture installHead)).map IndexedCapture.key
  current : plan.current = (installHead || seen.any fun old => old.capture.captureId = capture.captureId && old.current)
  few : plan.documents.length ≤ 1
  demoted : ∀ doc ∈ plan.documents, installHead = true ∧ doc.current = false ∧
    doc.capture.captureId ≠ capture.captureId ∧ ∃ old ∈ seen, replaced capture installHead old = true ∧ old.capture = doc.capture

/-- What an indexed document stands for. -/
theorem of_indexedDocument {env : Indexing τ} {capture : Capture} {current : Bool} {doc : IndexedCapture τ}
    (made : indexedDocument env capture current = .ok doc) :
    doc.capture = capture ∧ doc.current = current ∧ capture.record.validate env.parsers = .ok () := by
  simp only [indexedDocument, bind_eq_ok, ite_error_eq_ok, pure_eq_ok, Except.ok.injEq] at made
  obtain ⟨_, valid, title, -, body, -, -, rfl⟩ := made
  exact ⟨rfl, rfl, valid⟩

/-- A document that is not added leaves the demoted ones as they are. -/
theorem Plan.Covers.skip {capture : Capture} {installHead : Bool} {seen : List (IndexedCapture τ)} {plan : Plan τ}
    (covers : plan.Covers capture installHead seen) (old : IndexedCapture τ) :
    ∀ doc ∈ plan.documents, installHead = true ∧ doc.current = false ∧ doc.capture.captureId ≠ capture.captureId ∧
      ∃ other ∈ seen ++ [old], replaced capture installHead other = true ∧ other.capture = doc.capture := by
  intro doc member
  obtain ⟨install, demoted, different, other, inside, gone, same⟩ := covers.demoted doc member
  exact ⟨install, demoted, different, other, List.mem_append_left _ inside, gone, same⟩

theorem consider_covers {env : Indexing τ} {capture : Capture} {installHead : Bool} {seen : List (IndexedCapture τ)}
    {plan next : Plan τ} {old : IndexedCapture τ} (covers : plan.Covers capture installHead seen)
    (ran : consider env capture installHead plan old = .ok next) : next.Covers capture installHead (seen ++ [old]) := by
  rw [consider] at ran
  split_ifs at ran with sameCapture sameRevision demote
  · cases ran
    have gone : replaced capture installHead old = true := by simp [replaced, sameCapture]
    constructor
    · simp [covers.keys, gone]
    · simp [covers.current, sameCapture, Bool.or_assoc]
    · exact covers.few
    · exact covers.skip old
  · cases ran
    have gone : replaced capture installHead old = true := by
      simp only [replaced, sameRevision.1, sameRevision.2]
      simp
    constructor
    · simp [covers.keys, gone]
    · simp [covers.current, sameCapture]
    · exact covers.few
    · exact covers.skip old
  · obtain ⟨demoted, made, final⟩ := bind_eq_ok.mp ran
    cases final
    have gone : replaced capture installHead old = true := by simp [replaced, demote]
    obtain ⟨same, current, -⟩ := of_indexedDocument made
    have none : plan.documents = [] := by simp_all
    constructor
    · simp [covers.keys, gone]
    · simp [covers.current, sameCapture]
    · simp [none]
    · intro doc member
      rw [none, List.nil_append, List.mem_singleton] at member
      subst member
      rw [Bool.and_eq_true] at demote
      exact ⟨demote.2, current, same ▸ sameCapture, old, by simp, gone, same.symm⟩
  · cases ran
    have stays : replaced capture installHead old = false := by
      simp_all [replaced]
    constructor
    · simp [covers.keys, stays]
    · simp [covers.current, sameCapture]
    · exact covers.few
    · exact covers.skip old

/-- A whole scan decides about all documents of the object. -/
theorem consider_foldlM {env : Indexing τ} {capture : Capture} {installHead : Bool} {docs seen : List (IndexedCapture τ)}
    {plan final : Plan τ} (covers : plan.Covers capture installHead seen)
    (ran : docs.foldlM (consider env capture installHead) plan = .ok final) :
    final.Covers capture installHead (seen ++ docs) := by
  induction docs generalizing seen plan with
  | nil =>
    cases ran
    rwa [List.append_nil]
  | cons old docs ih =>
    obtain ⟨next, stepped, rest⟩ := bind_eq_ok.mp ran
    have whole := ih (consider_covers covers stepped) rest
    rwa [List.append_assoc] at whole

/-! ## Rewriting the documents of one object -/

/-- One commit that removes some documents of an object and adds others of it, under keys of their own. -/
structure Rewrites (index next : CorpusIndex τ) (object : ObjectId) (removed : IndexedCapture τ → Bool)
    (added : List (IndexedCapture τ)) : Prop where
  docs : next.docs = added.foldl addDocument (index.docs.filter fun doc => !(doc.object = object && removed doc))
  own : ∀ doc ∈ added, doc.object = object ∧ object.SlashFree
  distinct : (added.map IndexedCapture.key).Nodup
  fresh : ∀ doc ∈ added, ∀ other ∈ index.docs, doc.key = other.key → other.object = object ∧ removed other = true

namespace Rewrites

variable {index next : CorpusIndex τ} {object : ObjectId} {removed : IndexedCapture τ → Bool}
  {added : List (IndexedCapture τ)}

theorem perm (rewrites : index.Rewrites next object removed added) :
    next.docs.Perm (added ++ index.docs.filter fun doc => !(doc.object = object && removed doc)) := by
  rw [rewrites.docs]
  exact commit_perm _ _

theorem sorted (rewrites : index.Rewrites next object removed added) (kept : index.Kept) :
    KeySorted IndexedCapture.key next.docs := by
  rw [rewrites.docs]
  apply commit_sorted (kept.sorted.filter _) rewrites.distinct
  intro doc member other inside same
  obtain ⟨present, stays⟩ := List.mem_filter.mp inside
  obtain ⟨own, gone⟩ := rewrites.fresh doc member other present same.symm
  simp [own, gone] at stays

theorem free (rewrites : index.Rewrites next object removed added) (kept : index.Kept) :
    ∀ doc ∈ next.docs, doc.object.SlashFree := by
  intro doc member
  rcases List.mem_append.mp (rewrites.perm.mem_iff.mp member) with new | old
  · obtain ⟨own, free⟩ := rewrites.own doc new
    exact own ▸ free
  · exact kept.free doc (List.mem_filter.mp old).1

/-- The documents of any other object stay as they are. -/
theorem others (rewrites : index.Rewrites next object removed added) (kept : index.Kept) {other : ObjectId}
    (different : other ≠ object) :
    next.docs.filter (fun doc => doc.object = other) = index.docs.filter (fun doc => doc.object = other) := by
  have same : (next.docs.filter fun doc => doc.object = other).Perm (index.docs.filter fun doc => doc.object = other) := by
    refine (rewrites.perm.filter _).trans ?_
    have none : added.filter (fun doc => doc.object = other) = [] := by
      apply List.filter_eq_nil_iff.mpr
      intro doc member
      simpa [(rewrites.own doc member).1] using different.symm
    rw [List.filter_append, none, List.nil_append, List.filter_filter]
    refine .of_eq (List.filter_congr ?_)
    intro doc _
    by_cases mine : doc.object = other
    · simp [mine, different]
    · simp [mine]
  apply same.eq_of_pairwise _ ((rewrites.sorted kept).filter _) (kept.sorted.filter _)
  intro first second _ _ less greater
  exact absurd (less.trans greater) (lt_irrefl _)

/-- What is current afterwards: what was current and stays, and what is added as current. -/
theorem heads_perm (rewrites : index.Rewrites next object removed added) :
    (next.heads object).Perm (((added.filter IndexedCapture.current) ++
      index.docs.filter fun doc => doc.object = object && (doc.current && !removed doc)).map
        fun doc => doc.capture.captureId) := by
  apply List.Perm.map
  refine (rewrites.perm.filter _).trans (.of_eq ?_)
  rw [List.filter_append, List.filter_filter]
  congr 1
  · apply List.filter_congr
    intro doc member
    simp [(rewrites.own doc member).1]
  · apply List.filter_congr
    intro doc _
    cases decide (doc.object = object) <;> simp

theorem heads_others (rewrites : index.Rewrites next object removed added) (kept : index.Kept) {other : ObjectId}
    (different : other ≠ object) : next.heads other = index.heads other := by
  have split (docs : List (IndexedCapture τ)) : docs.filter (fun doc => doc.object = other && doc.current) =
      (docs.filter fun doc => doc.object = other).filter IndexedCapture.current := by
    rw [List.filter_filter]
    exact List.filter_congr fun doc _ => Bool.and_comm _ _
  rw [heads, heads, split, split, rewrites.others kept different]

theorem kept (rewrites : index.Rewrites next object removed added) (before : index.Kept)
    (single : (next.heads object).length ≤ 1) : next.Kept := by
  constructor
  · exact rewrites.sorted before
  · exact rewrites.free before
  · intro other
    by_cases same : other = object
    · exact same ▸ single
    · rw [rewrites.heads_others before same]
      exact before.single other

/-- Nothing becomes current when nothing is added. -/
theorem heads_length (rewrites : index.Rewrites next object removed []) :
    (next.heads object).length ≤ (index.heads object).length := by
  rw [rewrites.heads_perm.length_eq, heads, List.length_map, List.length_map, List.filter_nil, List.nil_append]
  apply List.Sublist.length_le
  apply List.monotone_filter_right
  intro doc stays
  revert stays
  cases decide (doc.object = object) <;> cases doc.current <;> simp

end Rewrites

/-! ## Operations -/

/-- The new capture and, with a new head, what the old one is demoted to. -/
theorem applyCapture_rewrites {env : Indexing τ} {index next : CorpusIndex τ} {capture : Capture} {installHead : Bool}
    {generation : ℕ} (kept : index.Kept) (ran : applyCapture env index capture installHead generation = .ok next) :
    ∃ (plan : Plan τ) (document : IndexedCapture τ),
      plan.Covers capture installHead (index.docs.filter fun doc => doc.object = capture.record.object) ∧
      document.capture = capture ∧ document.current = plan.current ∧
      index.Rewrites next capture.record.object (replaced capture installHead) (plan.documents ++ [document]) := by
  simp only [applyCapture, bind_eq_ok] at ran
  obtain ⟨plan, scanned, document, made, committed⟩ := ran
  obtain ⟨same, current, valid⟩ := of_indexedDocument made
  have free := LegalRecord.slashFree_of_validate valid
  have start : (⟨[], [], installHead⟩ : Plan τ).Covers capture installHead [] := by constructor <;> simp
  have covers := consider_foldlM start (scanPrefix_eq_foldlM kept free scanned)
  rw [List.nil_append] at covers
  have demotedOf {doc : IndexedCapture τ} (member : doc ∈ plan.documents) :
      ∃ old ∈ index.docs, old.object = capture.record.object ∧ replaced capture installHead old = true ∧
        old.capture = doc.capture := by
    obtain ⟨-, -, -, old, inside, gone, same⟩ := covers.demoted doc member
    obtain ⟨present, own⟩ := List.mem_filter.mp inside
    exact ⟨old, present, by simpa using own, gone, same⟩
  have own : ∀ doc ∈ plan.documents ++ [document], doc.object = capture.record.object := by
    intro doc member
    rcases List.mem_append.mp member with demoted | new
    · obtain ⟨old, -, own, -, same⟩ := demotedOf demoted
      rw [← own, IndexedCapture.object, IndexedCapture.object, same]
    · rw [List.mem_singleton.mp new, IndexedCapture.object, same]
  split at committed
  · cases committed
  · cases committed
    refine ⟨plan, document, covers, same, current, ?_, fun doc member => ⟨own doc member, free⟩, ?_, ?_⟩
    · rw [commitChanges, covers.keys, filter_keys kept]
    · rw [List.map_append, List.nodup_append]
      refine ⟨?_, List.nodup_singleton _, ?_⟩
      · have few := covers.few
        match documents : plan.documents with
        | [] => exact List.nodup_nil
        | [_] => exact List.nodup_singleton _
        | _ :: _ :: _ =>
          rw [documents, List.length_cons, List.length_cons] at few
          omega
      · intro key inside key' inside' equal
        obtain ⟨doc, member, rfl⟩ := List.mem_map.mp inside
        rw [List.map_singleton, List.mem_singleton] at inside'
        have mine : doc.object.SlashFree := by rwa [own doc (List.mem_append_left _ member)]
        have clash := recordKey_inj mine (same.symm ▸ free) (equal.trans inside')
        exact (covers.demoted doc member).2.2.1 (same ▸ clash.2)
    · intro doc member other present equal
      rcases List.mem_append.mp member with demoted | new
      · obtain ⟨old, inside, mine, gone, same⟩ := demotedOf demoted
        have key : old.key = other.key := by rw [← equal, IndexedCapture.key, same, IndexedCapture.key]
        cases kept.sorted.injective inside present key
        exact ⟨mine, gone⟩
      · rw [List.mem_singleton.mp new, IndexedCapture.key, same] at equal
        obtain ⟨object, captureId⟩ := recordKey_inj free (kept.free other present) equal
        exact ⟨object.symm, by simp [replaced, captureId]⟩

theorem removeCapture_rewrites {env : Indexing τ} {index next : CorpusIndex τ} {object : ObjectId} {captureId : Str}
    {generation : ℕ} (kept : index.Kept) (free : object.SlashFree)
    (ran : removeCapture env index object captureId generation = .ok next) :
    index.Rewrites next object (fun doc => doc.capture.captureId = captureId) [] := by
  have collected (docs : List (IndexedCapture τ)) (keys : List Str) : docs.foldlM (captureKeys captureId) keys =
      .ok (keys ++ (docs.filter fun doc => doc.capture.captureId = captureId).map IndexedCapture.key) := by
    induction docs generalizing keys with
    | nil => simp [pure, Except.pure]
    | cons doc docs ih =>
      rw [List.foldlM_cons, captureKeys, ok_bind, ih]
      by_cases same : doc.capture.captureId = captureId <;> simp [same]
  simp only [removeCapture, bind_eq_ok] at ran
  obtain ⟨keys, scanned, committed⟩ := ran
  have all := scanPrefix_eq_foldlM kept free scanned
  rw [collected, List.nil_append, Except.ok.injEq] at all
  split at committed
  · cases committed
  · cases committed
    constructor
    · rw [commitChanges, ← all, filter_keys kept]
    · simp
    · simp
    · simp

/-- A separator with blanks is found where it stands. -/
theorem splitOnce_separator {first rest : Str} (absent : '/' ∉ first) :
    splitOnce [' ', '/', ' '] (first ++ [' ', '/', ' '] ++ rest) = some (first, rest) := by
  induction first with
  | nil => simp [splitOnce, stripPrefix]
  | cons c first ih =>
    rw [List.mem_cons, not_or] at absent
    have skipped : stripPrefix [' ', '/', ' '] (c :: (first ++ [' ', '/', ' '] ++ rest)) = none := by
      cases first with
      | nil => simp [stripPrefix]
      | cons d first =>
        have other : '/' ≠ d := fun same => absent.2 (same ▸ List.mem_cons_self)
        simp [stripPrefix, other]
    rw [List.cons_append, List.cons_append, splitOnce, skipped, ih absent.2]
    rfl

/-- Closing up the blanks around the separators gives the key of the object. -/
theorem removedKey_eq {object : ObjectId} (free : object.SlashFree) : removedKey object = objectKey object := by
  have last (fuel : ℕ) : replaceLoop [' ', '/', ' '] ['/'] fuel object.id = object.id := by
    cases fuel with
    | zero => rfl
    | succ fuel =>
      have absent : splitOnce [' ', '/', ' '] object.id = none := by
        cases found : splitOnce [' ', '/', ' '] object.id with
        | none => rfl
        | some parts =>
          have whole := splitOnce_eq_some found
          exact absurd (by rw [whole]; simp) free.id
      rw [replaceLoop, absent]
  have next (fuel : ℕ) {first : Str} (rest : Str) (absent : '/' ∉ first) :
      replaceLoop [' ', '/', ' '] ['/'] (fuel + 1) (first ++ [' ', '/', ' '] ++ rest) =
        first ++ '/' :: replaceLoop [' ', '/', ' '] ['/'] fuel rest := by
    rw [replaceLoop, splitOnce_separator absent]
    simp
  obtain ⟨fuel, enough⟩ : ∃ fuel, (object.jurisdiction ++ [' ', '/', ' '] ++ (object.provider ++ [' ', '/', ' '] ++
      (object.dataset.debugName ++ [' ', '/', ' '] ++ object.id))).length = fuel + 3 :=
    ⟨_, (Nat.sub_add_cancel (by simp; omega)).symm⟩
  rw [removedKey, replace, enough, next _ _ free.jurisdiction, next _ _ free.provider,
    next _ _ (Dataset.slash_not_mem_debugName _), last, objectKey]

theorem removeObject_rewrites {env : Indexing τ} {index next : CorpusIndex τ} {object : ObjectId} {generation : ℕ}
    (kept : index.Kept) (free : object.SlashFree) (ran : removeObject env index object generation = .ok next) :
    index.Rewrites next object (fun _ => true) [] := by
  rw [removeObject] at ran
  split at ran
  · cases ran
  · cases ran
    constructor
    · apply List.filter_congr
      intro doc member
      have named : objectKey doc.object = objectKey object ↔ doc.object = object := by
        constructor
        · intro same
          have longer : objectKey doc.object ++ '/' :: [] = objectKey object ++ '/' :: [] := by rw [same]
          exact (objectKey_append_inj (kept.free doc member) free longer).1
        · exact congrArg objectKey
      rw [removedKey_eq free]
      simp [named]
    · simp
    · simp
    · simp

theorem advanceGeneration_docs {env : Indexing τ} {index next : CorpusIndex τ} {generation : ℕ}
    (ran : advanceGeneration env index generation = .ok next) : next.docs = index.docs := by
  rw [advanceGeneration] at ran
  split at ran
  · cases ran
  · cases ran
    simp [commitChanges]

/-- An installed capture is the only current one; otherwise the current capture is what it was. -/
theorem applyCapture_heads {env : Indexing τ} {index next : CorpusIndex τ} {capture : Capture} {installHead : Bool}
    {generation : ℕ} (kept : index.Kept) (ran : applyCapture env index capture installHead generation = .ok next) :
    next.heads capture.record.object =
      if installHead then [capture.captureId] else index.heads capture.record.object := by
  obtain ⟨plan, document, covers, same, current, rewrites⟩ := applyCapture_rewrites kept ran
  have after := rewrites.heads_perm
  have demoted : plan.documents.filter IndexedCapture.current = [] := by
    apply List.filter_eq_nil_iff.mpr
    intro doc member
    simp [(covers.demoted doc member).2.1]
  rw [List.filter_append, demoted, List.nil_append] at after
  cases installHead with
  | true =>
    have marked : document.current = true := by simp [current, covers.current]
    have none : index.docs.filter (fun doc => doc.object = capture.record.object &&
        (doc.current && !replaced capture true doc)) = [] := by
      apply List.filter_eq_nil_iff.mpr
      intro doc _
      cases marked : doc.current <;> simp [replaced, marked]
    rw [none] at after
    simpa [marked, same] using after
  | false =>
    set marked := index.docs.filter fun doc => doc.object = capture.record.object && doc.current with chosen
    have stay : index.docs.filter (fun doc => doc.object = capture.record.object &&
        (doc.current && !replaced capture false doc)) = marked.filter fun doc => doc.capture.captureId ≠ capture.captureId := by
      rw [chosen, List.filter_filter]
      apply List.filter_congr
      intro doc _
      cases mine : decide (doc.object = capture.record.object) <;> cases head : doc.current <;> simp [replaced, head]
    have again : document.current = marked.any fun doc => doc.capture.captureId = capture.captureId := by
      rw [current, covers.current, Bool.false_or, chosen, List.any_filter, List.any_filter]
      congr 1
      funext doc
      cases decide (doc.object = capture.record.object) <;> cases doc.current <;> simp
    have before : index.heads capture.record.object = marked.map fun doc => doc.capture.captureId := rfl
    have single := kept.single capture.record.object
    rw [before] at single ⊢
    rw [stay] at after
    clear_value marked
    match marked with
    | [] => simpa [again] using after
    | [doc] =>
      by_cases replay : doc.capture.captureId = capture.captureId
      · simpa [again, replay, same] using after
      · simpa [again, replay] using after
    | _ :: _ :: _ =>
      rw [List.map_cons, List.map_cons, List.length_cons, List.length_cons] at single
      omega

/-- The object an operation is about. -/
def Op.object : Op τ → Option ObjectId
  | .applyCapture _ capture _ _ => some capture.record.object
  | .removeCapture _ object _ _ => some object
  | .removeObject _ object _ => some object
  | .advanceGeneration _ _ => none

/-- Ids without a separator. -/
def Op.SlashFree (op : Op τ) : Prop := ∀ object ∈ op.object, object.SlashFree

/-- What a single step does to the documents of all objects. -/
theorem step_kept {index : CorpusIndex τ} {op : Op τ} (kept : index.Kept) (free : op.SlashFree) :
    (index.step op).Kept ∧ ∀ other ∉ op.object,
      (index.step op).docs.filter (fun doc => doc.object = other) = index.docs.filter (fun doc => doc.object = other) := by
  cases ran : index.perform op with
  | error error =>
    rw [step, ran]
    exact ⟨kept, fun _ _ => rfl⟩
  | ok next =>
    have reached : index.step op = next := by
      rw [step, ran]
      rfl
    rw [reached]
    cases op with
    | applyCapture env capture installHead generation =>
      obtain ⟨plan, document, -, -, -, rewrites⟩ := applyCapture_rewrites kept ran
      constructor
      · apply rewrites.kept kept
        rw [applyCapture_heads kept ran]
        split_ifs
        · exact le_rfl
        · exact kept.single _
      · intro other different
        apply rewrites.others kept
        rintro rfl
        exact different rfl
    | removeCapture env object captureId generation =>
      have rewrites := removeCapture_rewrites kept (free object rfl) ran
      constructor
      · exact rewrites.kept kept (rewrites.heads_length.trans (kept.single object))
      · intro other different
        apply rewrites.others kept
        rintro rfl
        exact different rfl
    | removeObject env object generation =>
      have rewrites := removeObject_rewrites kept (free object rfl) ran
      constructor
      · exact rewrites.kept kept (rewrites.heads_length.trans (kept.single object))
      · intro other different
        apply rewrites.others kept
        rintro rfl
        exact different rfl
    | advanceGeneration env generation =>
      have same := advanceGeneration_docs ran
      refine ⟨⟨?_, ?_, ?_⟩, ?_⟩
      · exact same ▸ kept.sorted
      · exact same ▸ kept.free
      · intro object
        rw [heads, same]
        exact kept.single object
      · intro other _
        rw [same]

theorem empty_kept : (empty : CorpusIndex τ).Kept := by
  constructor
  · exact List.Pairwise.nil
  · simp [empty]
  · simp [empty, heads]

theorem run_kept {index : CorpusIndex τ} {ops : List (Op τ)} (kept : index.Kept) (free : ∀ op ∈ ops, op.SlashFree) :
    (index.run ops).Kept := by
  induction ops generalizing index with
  | nil => exact kept
  | cons op ops ih =>
    rw [List.forall_mem_cons] at free
    exact ih (step_kept kept free.1).1 free.2

/-- After every sequence of operations an object has at most one current document; installing a capture makes it
the only current one, any other capture leaves the current one, and no operation touches another object. -/
theorem head_invariant (ops : List (Op τ)) (free : ∀ op ∈ ops, op.SlashFree) :
    (∀ object, ((run empty ops).heads object).length ≤ 1) ∧
    (∀ env capture installHead generation next,
      (run empty ops).perform (.applyCapture env capture installHead generation) = .ok next →
        next.heads capture.record.object =
          if installHead then [capture.captureId] else (run empty ops).heads capture.record.object) ∧
    ∀ op : Op τ, op.SlashFree → ∀ other ∉ op.object,
      ((run empty ops).step op).docs.filter (fun doc => doc.object = other) =
        (run empty ops).docs.filter (fun doc => doc.object = other) := by
  have kept := run_kept empty_kept free
  refine ⟨kept.single, ?_, ?_⟩
  · intro env capture installHead generation next ran
    exact applyCapture_heads kept ran
  · intro op named other different
    exact (step_kept kept named).2 other different

/-- Indexing without tokens and without a deadline. -/
def plainIndexing : Indexing Unit := ⟨lawParsers, fun _ => .ok (), fun _ => 0, none⟩

def statuteCapture (id : Char) (captureId : Str) : Capture where
  captureId
  record :=
    { object := ⟨"kr".toList, "law_go_kr".toList, .nationalStatute, [id]⟩
      revisionId := captureId, title := ['법'], body := ['가'], metadata := ∅
      publicationDate := none, effectiveDate := none, sourceUrl := "https://www.law.go.kr/".toList
      representation := "json".toList, sections := [] }

/-- Two captures of one object, the second one current, and one of another object. -/
def threeCaptures : List (Op Unit) :=
  [.applyCapture plainIndexing (statuteCapture '1' ['a']) true 1,
    .applyCapture plainIndexing (statuteCapture '2' ['c']) true 2,
    .applyCapture plainIndexing (statuteCapture '1' ['b']) true 3]

theorem head_invariant_threeCaptures :
    (run empty threeCaptures).docs.length = 3 ∧
      ∀ object, ((run empty threeCaptures).heads object).length ≤ 1 := by
  refine ⟨by decide +kernel, (head_invariant threeCaptures ?_).1⟩
  intro op member object named
  simp only [threeCaptures, List.mem_cons, List.not_mem_nil, or_false] at member
  rcases member with rfl | rfl | rfl <;>
  · cases named
    exact ⟨by decide, by decide, by decide⟩

end CorpusIndex

end OpenLegal.Legal
