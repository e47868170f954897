import OpenLegal.Corpus.History
import OpenLegal.Theory.KeyedOrder

/-! # The revision in force

Of the retained revisions with an effective date, the one that took effect last is in force, and the next one to take effect
is the next change. A date is a text; dates are compared by their bytes.
-/

namespace OpenLegal.Corpus.Database

open Rust Rust.Str Legal Theory

structure RevisionChoice where
  revisionId : Str
  captureId : Option ℕ
  effectiveDate : Option Str
  publicationDate : Option Str
deriving DecidableEq

inductive InForceStatus where
  | determined
  | provisional
  | notYetEffective
  | undetermined
deriving DecidableEq, Repr

structure InForceSelection where
  date : Str
  status : InForceStatus
  selected : Option RevisionChoice
  sameEffectiveDate : List RevisionChoice
  nextChange : Option RevisionChoice
  laterProvisionDates : List Str
  warnings : List Str
deriving DecidableEq

namespace HistoryEntry

def choice (entry : HistoryEntry) : RevisionChoice :=
  ⟨entry.revisionId, entry.captureId, entry.effectiveDate, entry.publicationDate⟩

/-- The entry has a valid effective date. -/
def dated (entry : HistoryEntry) : Bool := entry.effectiveDate.any validDate

def effective (entry : HistoryEntry) : Str := entry.effectiveDate.getD []

/-- Effective date, publication date and revision ID. -/
def order (entry : HistoryEntry) : List ℕ ×ₗ List ℕ ×ₗ List ℕ :=
  toLex (collateC entry.effective, toLex (collateC (entry.publicationDate.getD []), collateC entry.revisionId))

end HistoryEntry

/-- Select the retained revision whose effective date is the latest one on or before `date`. Among revisions with that
effective date, the latest publication date (then revision ID) is selected and the others are reported. -/
def selectInForce (entries : List HistoryEntry) (inventoryComplete : Bool) (date : Str) : InForceSelection :=
  let dated := entries.filter HistoryEntry.dated
  let warnings :=
    (if dated.length < entries.length then ["undated_revisions_ignored".toList] else []) ++
      if inventoryComplete then [] else ["inventory_incomplete".toList]
  let bestDate := maxByKey collateC ((dated.map HistoryEntry.effective).filter (collateC · ≤ collateC date))
  let nextDate := minByKey collateC ((dated.map HistoryEntry.effective).filter (collateC date < collateC ·))
  -- `max_by_key` takes the last of several
  let nextChange := nextDate.bind fun next =>
    (maxByKey HistoryEntry.order (dated.filter (·.effective == next)).reverse).map HistoryEntry.choice
  match bestDate with
  | none =>
    { date, status := if dated.isEmpty then .undetermined else .notYetEffective, selected := none, sameEffectiveDate := []
      nextChange, laterProvisionDates := [], warnings }
  | some best =>
    let group := sortByKey HistoryEntry.order (dated.filter (·.effective == best))
    { date, status := if inventoryComplete then .determined else .provisional
      selected := group.getLast?.map HistoryEntry.choice
      sameEffectiveDate := group.dropLast.reverse.map HistoryEntry.choice
      nextChange, laterProvisionDates := []
      warnings := warnings ++ if group.dropLast.isEmpty then [] else ["multiple_revisions_same_effective_date".toList] }

/-! ## The order of entries -/

variable {entries others : List HistoryEntry} {entry other : HistoryEntry} {date : Str} {complete : Bool}

theorem order_apart (distinct : (entries.map HistoryEntry.revisionId).Nodup) : KeyedApart HistoryEntry.order entries := by
  intro a first b second same
  have ids : collateC a.revisionId = collateC b.revisionId :=
    congrArg (fun key => (ofLex (ofLex key).2).2) same
  exact List.inj_on_of_nodup_map distinct first second (collateC_injective ids)

theorem effective_le_of_order_le (below : entry.order ≤ other.order) :
    collateC entry.effective ≤ collateC other.effective := by
  rcases Prod.Lex.le_iff.mp below with less | ⟨same, -⟩
  · exact less.le
  · exact same.le

/-! ## What is selected -/

/-- The latest effective date that has come. -/
def bestDate (entries : List HistoryEntry) (date : Str) : Option Str :=
  maxByKey collateC (((entries.filter HistoryEntry.dated).map HistoryEntry.effective).filter (collateC · ≤ collateC date))

/-- The earliest effective date to come. -/
def nextDate (entries : List HistoryEntry) (date : Str) : Option Str :=
  minByKey collateC (((entries.filter HistoryEntry.dated).map HistoryEntry.effective).filter (collateC date < collateC ·))

/-- The entries that take effect at one date. -/
def sameDate (entries : List HistoryEntry) (day : Str) : List HistoryEntry :=
  (entries.filter HistoryEntry.dated).filter (·.effective == day)

/-- The entry took effect last of all that have by `date`, or is preferred to the others that did. -/
structure InForce (entries : List HistoryEntry) (date : Str) (entry : HistoryEntry) : Prop where
  listed : entry ∈ entries
  dated : entry.dated = true
  began : collateC entry.effective ≤ collateC date
  greatest : ∀ other ∈ entries, other.dated = true → collateC other.effective ≤ collateC date → other.order ≤ entry.order

/-- The entry is the first to take effect after `date`, or is preferred to the others that do. -/
structure ComesNext (entries : List HistoryEntry) (date : Str) (entry : HistoryEntry) : Prop where
  listed : entry ∈ entries
  dated : entry.dated = true
  later : collateC date < collateC entry.effective
  earliest : ∀ other ∈ entries, other.dated = true → collateC date < collateC other.effective →
    collateC entry.effective ≤ collateC other.effective
  preferred : ∀ other ∈ entries, other.dated = true → other.effective = entry.effective → other.order ≤ entry.order

theorem mem_sameDate {day : Str} :
    entry ∈ sameDate entries day ↔ entry ∈ entries ∧ entry.dated = true ∧ entry.effective = day := by
  rw [sameDate, List.mem_filter, List.mem_filter, beq_iff_eq, and_assoc]

theorem sameDate_apart (distinct : (entries.map HistoryEntry.revisionId).Nodup) (day : Str) :
    KeyedApart HistoryEntry.order (sameDate entries day) :=
  (order_apart distinct).subset fun _ member => (mem_sameDate.mp member).1

theorem bestDate_eq_some {day : Str} : bestDate entries date = some day ↔
    (∃ entry ∈ entries, entry.dated = true ∧ entry.effective = day ∧ collateC day ≤ collateC date) ∧
      ∀ other ∈ entries, other.dated = true → collateC other.effective ≤ collateC date →
        collateC other.effective ≤ collateC day := by
  rw [bestDate, maxByKey_eq_some (.of_injective collateC_injective _)]
  simp only [List.mem_filter, List.mem_map, decide_eq_true_eq]
  constructor
  · rintro ⟨⟨⟨entry, ⟨listed, dated⟩, rfl⟩, began⟩, greatest⟩
    exact ⟨⟨entry, listed, dated, rfl, began⟩, fun other member valid past =>
      greatest _ ⟨⟨other, ⟨member, valid⟩, rfl⟩, past⟩⟩
  · rintro ⟨⟨entry, listed, dated, rfl, began⟩, greatest⟩
    refine ⟨⟨⟨entry, ⟨listed, dated⟩, rfl⟩, began⟩, ?_⟩
    rintro day ⟨⟨other, ⟨member, valid⟩, rfl⟩, past⟩
    exact greatest other member valid past

theorem nextDate_eq_some {day : Str} : nextDate entries date = some day ↔
    (∃ entry ∈ entries, entry.dated = true ∧ entry.effective = day ∧ collateC date < collateC day) ∧
      ∀ other ∈ entries, other.dated = true → collateC date < collateC other.effective →
        collateC day ≤ collateC other.effective := by
  rw [nextDate, minByKey_eq_some (.of_injective collateC_injective _)]
  simp only [List.mem_filter, List.mem_map, decide_eq_true_eq]
  constructor
  · rintro ⟨⟨⟨entry, ⟨listed, dated⟩, rfl⟩, later⟩, least⟩
    exact ⟨⟨entry, listed, dated, rfl, later⟩, fun other member valid ahead =>
      least _ ⟨⟨other, ⟨member, valid⟩, rfl⟩, ahead⟩⟩
  · rintro ⟨⟨entry, listed, dated, rfl, later⟩, least⟩
    refine ⟨⟨⟨entry, ⟨listed, dated⟩, rfl⟩, later⟩, ?_⟩
    rintro day ⟨⟨other, ⟨member, valid⟩, rfl⟩, ahead⟩
    exact least other member valid ahead

theorem inForce_iff (distinct : (entries.map HistoryEntry.revisionId).Nodup) : InForce entries date entry ↔
    ∃ day, bestDate entries date = some day ∧ maxByKey HistoryEntry.order (sameDate entries day) = some entry := by
  constructor
  · intro force
    refine ⟨entry.effective, (bestDate_eq_some).mpr ⟨⟨entry, force.listed, force.dated, rfl, force.began⟩, ?_⟩, ?_⟩
    · intro other member valid past
      exact effective_le_of_order_le (force.greatest other member valid past)
    · rw [maxByKey_eq_some (sameDate_apart distinct _)]
      refine ⟨(mem_sameDate).mpr ⟨force.listed, force.dated, rfl⟩, fun other member => ?_⟩
      obtain ⟨listed, valid, same⟩ := (mem_sameDate).mp member
      exact force.greatest other listed valid (same ▸ force.began)
  · rintro ⟨day, best, found⟩
    obtain ⟨member, greatest⟩ := (maxByKey_eq_some (sameDate_apart distinct _)).mp found
    obtain ⟨listed, dated, rfl⟩ := (mem_sameDate).mp member
    obtain ⟨⟨-, -, -, -, began⟩, latest⟩ := (bestDate_eq_some).mp best
    refine ⟨listed, dated, began, fun other inside valid past => ?_⟩
    rcases (latest other inside valid past).lt_or_eq with earlier | same
    · exact Prod.Lex.le_iff.mpr (.inl earlier)
    · exact greatest other (mem_sameDate.mpr ⟨inside, valid, collateC_injective same⟩)

theorem comesNext_iff (distinct : (entries.map HistoryEntry.revisionId).Nodup) : ComesNext entries date entry ↔
    ∃ day, nextDate entries date = some day ∧ maxByKey HistoryEntry.order (sameDate entries day) = some entry := by
  constructor
  · intro next
    refine ⟨entry.effective, (nextDate_eq_some).mpr ⟨⟨entry, next.listed, next.dated, rfl, next.later⟩, next.earliest⟩, ?_⟩
    rw [maxByKey_eq_some (sameDate_apart distinct _)]
    refine ⟨(mem_sameDate).mpr ⟨next.listed, next.dated, rfl⟩, fun other member => ?_⟩
    obtain ⟨listed, valid, same⟩ := (mem_sameDate).mp member
    exact next.preferred other listed valid same
  · rintro ⟨day, first, found⟩
    obtain ⟨member, greatest⟩ := (maxByKey_eq_some (sameDate_apart distinct _)).mp found
    obtain ⟨listed, dated, rfl⟩ := (mem_sameDate).mp member
    obtain ⟨⟨-, -, -, -, later⟩, least⟩ := (nextDate_eq_some).mp first
    exact ⟨listed, dated, later, least, fun other inside valid same =>
      greatest other (mem_sameDate.mpr ⟨inside, valid, same⟩)⟩

/-! ## The selection -/

theorem selected_eq (distinct : (entries.map HistoryEntry.revisionId).Nodup) :
    (selectInForce entries complete date).selected = ((bestDate entries date).bind fun day =>
      maxByKey HistoryEntry.order (sameDate entries day)).map HistoryEntry.choice := by
  rw [selectInForce, ← bestDate]
  cases bestDate entries date with
  | none => rfl
  | some day => exact congrArg (Option.map HistoryEntry.choice) (getLast_sortByKey (sameDate_apart distinct _))

theorem nextChange_eq (distinct : (entries.map HistoryEntry.revisionId).Nodup) :
    (selectInForce entries complete date).nextChange = ((nextDate entries date).bind fun day =>
      maxByKey HistoryEntry.order (sameDate entries day)).map HistoryEntry.choice := by
  have last (day : Str) : maxByKey HistoryEntry.order (sameDate entries day).reverse =
      maxByKey HistoryEntry.order (sameDate entries day) :=
    (maxByKey_perm (sameDate_apart distinct _) (List.reverse_perm _).symm).symm
  have same : (selectInForce entries complete date).nextChange = (nextDate entries date).bind fun day =>
      (maxByKey HistoryEntry.order (sameDate entries day).reverse).map HistoryEntry.choice := by
    rw [selectInForce, ← bestDate]
    cases bestDate entries date <;> rfl
  rw [same]
  simp only [last, Option.map_bind, Function.comp_def]

/-- What is selected is the choice of the entry in force. -/
theorem selected_iff (distinct : (entries.map HistoryEntry.revisionId).Nodup) {chosen : RevisionChoice} :
    (selectInForce entries complete date).selected = some chosen ↔ ∃ entry, InForce entries date entry ∧ entry.choice = chosen := by
  rw [selected_eq distinct, Option.map_eq_some_iff]
  refine exists_congr fun entry => and_congr_left fun _ => ?_
  rw [inForce_iff distinct, Option.bind_eq_some_iff]

theorem nextChange_iff (distinct : (entries.map HistoryEntry.revisionId).Nodup) {chosen : RevisionChoice} :
    (selectInForce entries complete date).nextChange = some chosen ↔
      ∃ entry, ComesNext entries date entry ∧ entry.choice = chosen := by
  rw [nextChange_eq distinct, Option.map_eq_some_iff]
  refine exists_congr fun entry => and_congr_left fun _ => ?_
  rw [comesNext_iff distinct, Option.bind_eq_some_iff]

/-- The selection in terms of the dates and the entries at one date. -/
theorem selectInForce_eq : selectInForce entries complete date =
    let warnings :=
      (if (entries.filter HistoryEntry.dated).length < entries.length then ["undated_revisions_ignored".toList] else []) ++
        if complete then [] else ["inventory_incomplete".toList]
    let nextChange := (nextDate entries date).bind fun next =>
      (maxByKey HistoryEntry.order (sameDate entries next).reverse).map HistoryEntry.choice
    match bestDate entries date with
    | none =>
      { date, status := if (entries.filter HistoryEntry.dated).isEmpty then .undetermined else .notYetEffective
        selected := none, sameEffectiveDate := [], nextChange, laterProvisionDates := [], warnings }
    | some best =>
      let group := sortByKey HistoryEntry.order (sameDate entries best)
      { date, status := if complete then .determined else .provisional
        selected := group.getLast?.map HistoryEntry.choice
        sameEffectiveDate := group.dropLast.reverse.map HistoryEntry.choice
        nextChange, laterProvisionDates := []
        warnings := warnings ++ if group.dropLast.isEmpty then [] else ["multiple_revisions_same_effective_date".toList] } :=
  rfl

/-- The order of the entries does not matter. -/
theorem selectInForce_perm (distinct : (entries.map HistoryEntry.revisionId).Nodup) (perm : entries.Perm others) :
    selectInForce others complete date = selectInForce entries complete date := by
  have dated := perm.filter HistoryEntry.dated
  have best : bestDate entries date = bestDate others date :=
    maxByKey_perm (.of_injective collateC_injective _) ((dated.map _).filter _)
  have next : nextDate entries date = nextDate others date :=
    minByKey_perm (.of_injective collateC_injective _) ((dated.map _).filter _)
  have group (day : Str) : sortByKey HistoryEntry.order (sameDate entries day) = sortByKey HistoryEntry.order (sameDate others day) :=
    sortByKey_eq (sameDate_apart distinct day) (dated.filter _)
  have last (day : Str) : maxByKey HistoryEntry.order (sameDate entries day).reverse =
      maxByKey HistoryEntry.order (sameDate others day).reverse := by
    refine maxByKey_perm ((sameDate_apart distinct day).subset fun _ => List.mem_reverse.mp) ?_
    exact (List.reverse_perm _).trans ((dated.filter _).trans (List.reverse_perm _).symm)
  have empty : (entries.filter HistoryEntry.dated).isEmpty = (others.filter HistoryEntry.dated).isEmpty := by
    rw [Bool.eq_iff_iff, List.isEmpty_iff_length_eq_zero, List.isEmpty_iff_length_eq_zero, dated.length_eq]
  simp only [selectInForce_eq, best, next, group, last, empty, dated.length_eq, perm.length_eq]

theorem exists_comesNext (distinct : (entries.map HistoryEntry.revisionId).Nodup) (listed : other ∈ entries)
    (dated : other.dated = true) (ahead : collateC date < collateC other.effective) : ∃ entry, ComesNext entries date entry := by
  cases first : nextDate entries date with
  | none =>
    have inside : other.effective ∈
        ((entries.filter HistoryEntry.dated).map HistoryEntry.effective).filter (collateC date < collateC ·) :=
      List.mem_filter.mpr ⟨List.mem_map_of_mem (List.mem_filter.mpr ⟨listed, dated⟩), decide_eq_true ahead⟩
    rw [nextDate, minByKey_eq_none] at first
    rw [first] at inside
    cases inside
  | some day =>
    obtain ⟨⟨entry, member, valid, same, -⟩, -⟩ := (nextDate_eq_some).mp first
    cases found : maxByKey HistoryEntry.order (sameDate entries day) with
    | none =>
      have inside := (mem_sameDate).mpr ⟨member, valid, same⟩
      rw [maxByKey_eq_none] at found
      rw [found] at inside
      cases inside
    | some chosen => exact ⟨chosen, (comesNext_iff distinct).mpr ⟨day, first, found⟩⟩

theorem HistoryEntry.effectiveDate_of_dated (dated : entry.dated = true) : entry.effectiveDate = some entry.effective := by
  rw [HistoryEntry.dated, Option.any_eq_true] at dated
  obtain ⟨day, known, -⟩ := dated
  rw [HistoryEntry.effective, known]
  rfl

/-- Nothing takes effect before the next change. -/
theorem inForce_until {later : Str} (distinct : (entries.map HistoryEntry.revisionId).Nodup)
    (forward : collateC date ≤ collateC later)
    (before : ∀ next, ComesNext entries date next → collateC later < collateC next.effective) :
    InForce entries later entry ↔ InForce entries date entry := by
  have past {other : HistoryEntry} (listed : other ∈ entries) (dated : other.dated = true)
      (began : collateC other.effective ≤ collateC later) : collateC other.effective ≤ collateC date := by
    by_contra ahead
    obtain ⟨next, comes⟩ := exists_comesNext distinct listed dated (not_le.mp ahead)
    have first := comes.earliest other listed dated (not_le.mp ahead)
    exact absurd (first.trans began) (not_le.mpr (before next comes))
  constructor
  · intro force
    exact ⟨force.listed, force.dated, past force.listed force.dated force.began,
      fun other listed dated began => force.greatest other listed dated (began.trans forward)⟩
  · intro force
    exact ⟨force.listed, force.dated, force.began.trans forward,
      fun other listed dated began => force.greatest other listed dated (past listed dated began)⟩

/-- The selection does not depend on the order of the entries, selects the entry in force and the next change, and stays the
same until then. -/
theorem in_force_selection (entries : List HistoryEntry) (complete : Bool) (date : Str)
    (distinct : (entries.map HistoryEntry.revisionId).Nodup) :
    (∀ others, entries.Perm others → selectInForce others complete date = selectInForce entries complete date) ∧
    (∀ chosen, (selectInForce entries complete date).selected = some chosen ↔
      ∃ entry, InForce entries date entry ∧ entry.choice = chosen) ∧
    (∀ chosen, (selectInForce entries complete date).nextChange = some chosen ↔
      ∃ entry, ComesNext entries date entry ∧ entry.choice = chosen) ∧
    ∀ later, collateC date ≤ collateC later →
      (∀ next ∈ (selectInForce entries complete date).nextChange, ∀ day ∈ next.effectiveDate, collateC later < collateC day) →
      (selectInForce entries complete later).selected = (selectInForce entries complete date).selected := by
  refine ⟨fun others perm => selectInForce_perm distinct perm, fun chosen => selected_iff distinct,
    fun chosen => nextChange_iff distinct, fun later forward before => ?_⟩
  apply Option.ext
  intro chosen
  rw [selected_iff distinct, selected_iff distinct]
  refine exists_congr fun entry => and_congr_left fun _ => inForce_until distinct forward fun next comes => ?_
  exact before next.choice ((nextChange_iff distinct).mpr ⟨next, comes, rfl⟩) _ (HistoryEntry.effectiveDate_of_dated comes.dated)

/-- Two revisions of one day, and a later one. -/
def twoOfADay : List HistoryEntry :=
  [("c", "20240101", "20231201"), ("b", "20230101", "20221115"), ("a", "20230101", "20221001")].map
    fun (id, day, published) => ⟨id.toList, none, 0, none, some published.toList, some day.toList⟩

theorem in_force_selection_twoOfADay :
    selectInForce twoOfADay.reverse true "20230510".toList = selectInForce twoOfADay true "20230510".toList ∧
      (selectInForce twoOfADay true "20231231".toList).selected = (selectInForce twoOfADay true "20230510".toList).selected := by
  obtain ⟨order, -, -, stays⟩ := in_force_selection twoOfADay true "20230510".toList (by decide +kernel)
  refine ⟨order _ (List.reverse_perm _).symm, stays _ (by decide +kernel) ?_⟩
  have next : (selectInForce twoOfADay true "20230510".toList).nextChange.all
      (·.effectiveDate.all fun day => decide (collateC "20231231".toList < collateC day)) = true := by decide +kernel
  intro choice known day dated
  simp only [Option.all_eq_true] at next
  exact of_decide_eq_true (next choice known day dated)

end OpenLegal.Corpus.Database
