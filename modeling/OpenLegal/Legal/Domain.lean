import Mathlib.Data.List.Nodup
import OpenLegal.Rust.Unicode

/-! # Legal records

Provider-owned identities and retained records: the closed list of datasets, object identities, and the
text of a capture with its named sections.
-/

namespace OpenLegal.Legal

open Rust Rust.Str

inductive DatabaseError where
  | sourceRejected
  | sourceUnavailable
  | sourceDataInvalid
  | sourceDownloadFailed
  | sourceUnauthorized
  | sourceTransient
  | invalidInput
  | invalidFieldShorthand
  | invalidRegex
  | notFound
  | notObserved
  | collectionIncomplete
  | revisionUnavailable
  | ambiguousRevision
  | ambiguousCollection
  | sourceInventoryIncomplete
  | historyIncomplete
  | unsupportedHistory
  | processingPending
  | freshnessUnavailable
  | withdrawn
  | storageUnavailable
  | storageContended
  | storageCorrupt
  | capacity
  | budgetExhausted
  | conflict
  | cancelled
  | sessionExpired
  | snapshotInvalidated
deriving DecidableEq, Repr

/-- Closed provider-independent data families; caller input cannot create routes. -/
inductive Dataset where
  | nationalStatute
  | administrativeRule
  | ordinance
  | treaty
  | precedent
  | constitutionalDecision
  | legalInterpretation
  | administrativeAppeal
  | englishStatute
  | schoolRule
  | localPublicCorporationRule
  | publicInstitutionRule
  | legalTerm
  | ppcDecision
  | eiacDecision
  | ftcDecision
  | acrDecision
  | fscDecision
  | nlrcDecision
  | kccDecision
  | iaciacDecision
  | ocltDecision
  | eccDecision
  | sfcDecision
  | nhrckDecision
  | moelInterpretation
  | molitInterpretation
  | moefInterpretation
  | mofInterpretation
  | moisInterpretation
  | meInterpretation
  | kcsInterpretation
  | ntsInterpretation
  | moeInterpretation
  | msitInterpretation
  | mpvaInterpretation
  | mndInterpretation
  | mafraInterpretation
  | mcstInterpretation
  | mojInterpretation
  | mohwInterpretation
  | motieInterpretation
  | mogefInterpretation
  | mofaInterpretation
  | mssInterpretation
  | mouInterpretation
  | molegInterpretation
  | mfdsInterpretation
  | mpmInterpretation
  | kmaInterpretation
  | khsInterpretation
  | rdaInterpretation
  | npaInterpretation
  | dapaInterpretation
  | mmaInterpretation
  | kfsInterpretation
  | nfaInterpretation
  | okaInterpretation
  | ppsInterpretation
  | kdcaInterpretation
  | kostatInterpretation
  | kipoInterpretation
  | kcgInterpretation
  | naaccInterpretation
  | ttSpecialAppeal
  | kmstSpecialAppeal
  | acrSpecialAppeal
  | adapSpecialAppeal
  | auditConsultation
deriving DecidableEq, Repr

namespace Dataset

def all : List Dataset :=
  [.nationalStatute, .administrativeRule, .ordinance, .treaty, .precedent, .constitutionalDecision,
    .legalInterpretation, .administrativeAppeal, .englishStatute, .schoolRule, .localPublicCorporationRule,
    .publicInstitutionRule, .legalTerm, .ppcDecision, .eiacDecision, .ftcDecision, .acrDecision, .fscDecision,
    .nlrcDecision, .kccDecision, .iaciacDecision, .ocltDecision, .eccDecision, .sfcDecision, .nhrckDecision,
    .moelInterpretation, .molitInterpretation, .moefInterpretation, .mofInterpretation, .moisInterpretation,
    .meInterpretation, .kcsInterpretation, .ntsInterpretation, .moeInterpretation, .msitInterpretation,
    .mpvaInterpretation, .mndInterpretation, .mafraInterpretation, .mcstInterpretation, .mojInterpretation,
    .mohwInterpretation, .motieInterpretation, .mogefInterpretation, .mofaInterpretation, .mssInterpretation,
    .mouInterpretation, .molegInterpretation, .mfdsInterpretation, .mpmInterpretation, .kmaInterpretation,
    .khsInterpretation, .rdaInterpretation, .npaInterpretation, .dapaInterpretation, .mmaInterpretation,
    .kfsInterpretation, .nfaInterpretation, .okaInterpretation, .ppsInterpretation, .kdcaInterpretation,
    .kostatInterpretation, .kipoInterpretation, .kcgInterpretation, .naaccInterpretation, .ttSpecialAppeal,
    .kmstSpecialAppeal, .acrSpecialAppeal, .adapSpecialAppeal, .auditConsultation]

def asStr : Dataset → String
  | .nationalStatute => "national_statute"
  | .administrativeRule => "administrative_rule"
  | .ordinance => "ordinance"
  | .treaty => "treaty"
  | .precedent => "precedent"
  | .constitutionalDecision => "constitutional_decision"
  | .legalInterpretation => "legal_interpretation"
  | .administrativeAppeal => "administrative_appeal"
  | .englishStatute => "english_statute"
  | .schoolRule => "school_rule"
  | .localPublicCorporationRule => "local_public_corporation_rule"
  | .publicInstitutionRule => "public_institution_rule"
  | .legalTerm => "legal_term"
  | .ppcDecision => "ppc_decision"
  | .eiacDecision => "eiac_decision"
  | .ftcDecision => "ftc_decision"
  | .acrDecision => "acr_decision"
  | .fscDecision => "fsc_decision"
  | .nlrcDecision => "nlrc_decision"
  | .kccDecision => "kcc_decision"
  | .iaciacDecision => "iaciac_decision"
  | .ocltDecision => "oclt_decision"
  | .eccDecision => "ecc_decision"
  | .sfcDecision => "sfc_decision"
  | .nhrckDecision => "nhrck_decision"
  | .moelInterpretation => "moel_interpretation"
  | .molitInterpretation => "molit_interpretation"
  | .moefInterpretation => "moef_interpretation"
  | .mofInterpretation => "mof_interpretation"
  | .moisInterpretation => "mois_interpretation"
  | .meInterpretation => "me_interpretation"
  | .kcsInterpretation => "kcs_interpretation"
  | .ntsInterpretation => "nts_interpretation"
  | .moeInterpretation => "moe_interpretation"
  | .msitInterpretation => "msit_interpretation"
  | .mpvaInterpretation => "mpva_interpretation"
  | .mndInterpretation => "mnd_interpretation"
  | .mafraInterpretation => "mafra_interpretation"
  | .mcstInterpretation => "mcst_interpretation"
  | .mojInterpretation => "moj_interpretation"
  | .mohwInterpretation => "mohw_interpretation"
  | .motieInterpretation => "motie_interpretation"
  | .mogefInterpretation => "mogef_interpretation"
  | .mofaInterpretation => "mofa_interpretation"
  | .mssInterpretation => "mss_interpretation"
  | .mouInterpretation => "mou_interpretation"
  | .molegInterpretation => "moleg_interpretation"
  | .mfdsInterpretation => "mfds_interpretation"
  | .mpmInterpretation => "mpm_interpretation"
  | .kmaInterpretation => "kma_interpretation"
  | .khsInterpretation => "khs_interpretation"
  | .rdaInterpretation => "rda_interpretation"
  | .npaInterpretation => "npa_interpretation"
  | .dapaInterpretation => "dapa_interpretation"
  | .mmaInterpretation => "mma_interpretation"
  | .kfsInterpretation => "kfs_interpretation"
  | .nfaInterpretation => "nfa_interpretation"
  | .okaInterpretation => "oka_interpretation"
  | .ppsInterpretation => "pps_interpretation"
  | .kdcaInterpretation => "kdca_interpretation"
  | .kostatInterpretation => "kostat_interpretation"
  | .kipoInterpretation => "kipo_interpretation"
  | .kcgInterpretation => "kcg_interpretation"
  | .naaccInterpretation => "naacc_interpretation"
  | .ttSpecialAppeal => "tt_special_appeal"
  | .kmstSpecialAppeal => "kmst_special_appeal"
  | .acrSpecialAppeal => "acr_special_appeal"
  | .adapSpecialAppeal => "adap_special_appeal"
  | .auditConsultation => "audit_consultation"

def fromName (name : Str) : Option Dataset := all.find? fun dataset => dataset.asStr.toList == name

theorem mem_all (dataset : Dataset) : dataset ∈ all := by
  have listed : all[dataset.ctorIdx]? = some dataset := by cases dataset <;> rfl
  exact List.mem_of_getElem? listed

private theorem names_apart : (all.map fun dataset => dataset.asStr.toList).Nodup ∧
    (all.map fun dataset => dataset.asStr.toList).all (fun name => !name.contains '/' && byteLen name ≤ 29) = true := by
  simp only [all, List.map_cons, List.map_nil, asStr]
  -- literals are taken apart here, where it is cheap
  repeat rw [String.toList_ofList]
  decide +kernel

/-- What is named apart from all others is found by its name. -/
theorem find_of_nodup {name : Dataset → Str} (apart : (all.map name).Nodup) (dataset : Dataset) :
    all.find? (fun other => name other == name dataset) = some dataset := by
  cases found : all.find? (fun other => name other == name dataset) with
  | none =>
    have other := List.find?_eq_none.mp found dataset (mem_all dataset)
    exact absurd BEq.rfl other
  | some other =>
    have same := eq_of_beq (List.find?_some (p := fun other => name other == name dataset) found)
    rw [List.inj_on_of_nodup_map apart (mem_all other) (mem_all dataset) same]

/-- Names are distinct. -/
theorem fromName_asStr (dataset : Dataset) : fromName dataset.asStr.toList = some dataset :=
  find_of_nodup names_apart.1 dataset

/-- Names are short and stay inside one path segment. -/
theorem asStr_segment (dataset : Dataset) : '/' ∉ dataset.asStr.toList ∧ byteLen dataset.asStr.toList ≤ 29 := by
  have short := List.all_eq_true.mp names_apart.2 _ (List.mem_map_of_mem (mem_all dataset))
  simpa using short

end Dataset

/-- ASCII letters, digits, `_` and `-`. -/
def validIdentifier (value : Str) (max : ℕ) : Bool :=
  !value.isEmpty && byteLen value ≤ max && value.all fun c => isAsciiAlphanumeric c || c == '_' || c == '-'

/-- Capture and snapshot ids are 64 lower-case hexadecimal digits. -/
def validSnapshotId (value : Str) : Bool :=
  byteLen value = 64 && value.all fun c => c.isDigit || ('a'.val ≤ c.val && c.val ≤ 'f'.val)

structure ObjectId where
  jurisdiction : Str
  provider : Str
  dataset : Dataset
  id : Str
deriving DecidableEq, Repr

def ObjectId.validate (object : ObjectId) : Except DatabaseError Unit :=
  if !validIdentifier object.jurisdiction 32 || !validIdentifier object.provider 64 || !validIdentifier object.id 128 then
    .error .invalidInput
  else .ok ()

end OpenLegal.Legal
