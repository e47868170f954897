import OpenLegal.Document.Quantity
import OpenLegal.Rust.Json

/-! # The limits of document workers

The resources of one disposable Pod and the number of Pods, and when a namespace quota states exactly these limits for the whole
pool.
-/

namespace OpenLegal.Document

open Rust Rust.Str

inductive DocumentError where
  | invalidInput | invalidDocument | resourceLimit | unsupportedFormat | processingFailed | sandboxUnavailable | cancelled | timedOut
  deriving DecidableEq, Repr

/-- `Semaphore::MAX_PERMITS`. -/
def maxPermits : ℕ := (2 ^ 64 - 1) / 2 ^ 3

/-- The amount of the whole pool can be represented. -/
def TotalFits (amount : ℤ) (poolLimit : UInt32) : Prop :=
  ∃ total, checkedI128 (amount * poolLimit.toNat) = some total ∧ total ≤ maxMilli

instance (amount : ℤ) (poolLimit : UInt32) : Decidable (TotalFits amount poolLimit) :=
  decidable_of_iff ((checkedI128 (amount * poolLimit.toNat)).any (· ≤ maxMilli)) (by simp [TotalFits, Option.any_eq_true])

/-- The quantities of one Pod as they are spelled and in milli-units, and the number of Pods. -/
structure DocumentWorkerLimits where
  poolLimit : UInt32
  cpu : Str
  memory : Str
  scratch : Str
  cpuMilli : ℤ
  memoryMilli : ℤ
  scratchMilli : ℤ
  pool_bounded : ¬ (poolLimit = 0 ∨ poolLimit.toNat > maxPermits)
  cpu_read : parseQuantityMilli cpu = some cpuMilli
  memory_read : parseQuantityMilli memory = some memoryMilli
  scratch_read : parseQuantityMilli scratch = some scratchMilli
  totals_fit : ∀ amount ∈ [cpuMilli, memoryMilli, scratchMilli], TotalFits amount poolLimit

namespace DocumentWorkerLimits

def new (poolLimit : UInt32) (cpu memory scratch : Str) : Except DocumentError DocumentWorkerLimits :=
  if bounded : poolLimit = 0 ∨ poolLimit.toNat > maxPermits then .error .invalidInput
  else
    match cpuRead : parseQuantityMilli cpu, memoryRead : parseQuantityMilli memory, scratchRead : parseQuantityMilli scratch with
    | some cpuMilli, some memoryMilli, some scratchMilli =>
      if totals : ∀ amount ∈ [cpuMilli, memoryMilli, scratchMilli], TotalFits amount poolLimit then
        .ok ⟨poolLimit, cpu, memory, scratch, cpuMilli, memoryMilli, scratchMilli, bounded, cpuRead, memoryRead, scratchRead, totals⟩
      else .error .invalidInput
    | _, _, _ => .error .invalidInput

/-- The six limits on resources, with the amounts of one Pod. -/
def expected (limits : DocumentWorkerLimits) : List (Str × ℤ) :=
  [("requests.cpu".toList, limits.cpuMilli), ("limits.cpu".toList, limits.cpuMilli),
    ("requests.memory".toList, limits.memoryMilli), ("limits.memory".toList, limits.memoryMilli),
    ("requests.ephemeral-storage".toList, limits.scratchMilli), ("limits.ephemeral-storage".toList, limits.scratchMilli)]

/-- A quantity of the quota. -/
def stated (hard : Object) (key : Str) : Option ℤ := ((hard.get key).bind Value.asStr).bind parseQuantityMilli

def matchesQuota (limits : DocumentWorkerLimits) (quota : Value) : Bool :=
  match (quota.pointer "spec".toList).bind Value.asObject with
  | none => false
  | some spec =>
    match (spec.get "hard".toList).bind Value.asObject with
    | none => false
    | some hard =>
      if spec.len != 1 || hard.len != 7 then false
      else stated hard "pods".toList == some (limits.poolLimit.toNat * 1000 : ℤ) &&
        limits.expected.all fun (key, perPod) => stated hard key == checkedI128 (perPod * limits.poolLimit.toNat)

/-- The limits of the tests. -/
def testLimits : Except DocumentError DocumentWorkerLimits := new 3 "1250m".toList "1.5Gi".toList "512Mi".toList

/-- A quota of the tests, with one of its limits left open. -/
def testQuota (memory : Value) : Value :=
  let hard := Object.ofEntries [("pods".toList, .string "3".toList), ("requests.cpu".toList, .string "3.75".toList),
    ("limits.cpu".toList, .string "3750m".toList), ("requests.memory".toList, .string "4.5Gi".toList),
    ("limits.memory".toList, memory), ("requests.ephemeral-storage".toList, .string "1.5Gi".toList),
    ("limits.ephemeral-storage".toList, .string "1536Mi".toList)]
  .object ["spec".toList].toFinset fun _ => .object ["hard".toList].toFinset fun _ => .object hard.keys hard.value

example : ["4608Mi", "4Gi"].map (fun memory => testLimits.toOption.map (·.matchesQuota (testQuota (.string memory.toList)))) =
    [some true, some false] := by
  decide +kernel

/-! ## What a quota states -/

/-- A text spells a quantity that rounds up to these milli-units. -/
def Rounds (text : Str) (milli : ℤ) : Prop := byteLen text ≤ 128 ∧ ∃ value, Spells text value ∧ 0 < value ∧ milli = ⌈1000 * value⌉

/-- The quota states this amount under a key. -/
def States (hard : Object) (key : Str) (milli : ℤ) : Prop := ∃ text, hard.get key = some (.string text) ∧ Rounds text milli

/-- The six limits on resources, with the spelling of the amount of one Pod. -/
def resources (limits : DocumentWorkerLimits) : List (Str × Str) :=
  [("requests.cpu".toList, limits.cpu), ("limits.cpu".toList, limits.cpu), ("requests.memory".toList, limits.memory),
    ("limits.memory".toList, limits.memory), ("requests.ephemeral-storage".toList, limits.scratch),
    ("limits.ephemeral-storage".toList, limits.scratch)]

/-- The names of all seven limits. -/
def quotaNames : List Str :=
  ["pods".toList, "requests.cpu".toList, "limits.cpu".toList, "requests.memory".toList, "limits.memory".toList,
    "requests.ephemeral-storage".toList, "limits.ephemeral-storage".toList]

/-- A quota that states the amounts of the whole pool and nothing else. -/
def StatesPool (limits : DocumentWorkerLimits) (quota : Value) : Prop :=
  ∃ spec hard : Object, quota.pointer "spec".toList = some (.object spec.keys spec.value) ∧
    spec.get "hard".toList = some (.object hard.keys hard.value) ∧ spec.keys = {"hard".toList} ∧
    hard.keys = quotaNames.toFinset ∧
    States hard "pods".toList (limits.poolLimit.toNat * 1000) ∧
    ∀ entry ∈ limits.resources, ∃ perPod, Rounds entry.2 perPod ∧ States hard entry.1 (perPod * limits.poolLimit.toNat)

variable {limits : DocumentWorkerLimits} {hard : Object} {key : Str} {milli : ℤ}

theorem rounds_iff {text : Str} : Rounds text milli ∧ milli ≤ maxMilli ↔ parseQuantityMilli text = some milli := by
  rw [parseQuantityMilli_eq_some, Rounds]
  constructor
  · rintro ⟨⟨short, value, spells, positive, same⟩, small⟩
    exact ⟨short, value, spells, positive, same, small⟩
  · rintro ⟨short, value, spells, positive, same, small⟩
    exact ⟨⟨short, value, spells, positive, same⟩, small⟩

/-- What a text rounds to is one amount, if it can be represented. -/
theorem Rounds.eq {text : Str} {other : ℤ} (rounds : Rounds text milli) (read : parseQuantityMilli text = some other) :
    milli = other := by
  obtain ⟨short, value, spells, positive, same⟩ := rounds
  have known := (parseQuantityMilli_of_spells spells short other).mp read
  rw [same, known.2.1]

theorem stated_eq_some (small : milli ≤ maxMilli) : stated hard key = some milli ↔ States hard key milli := by
  rw [stated, States]
  constructor
  · intro found
    obtain ⟨text, texted, read⟩ := Option.bind_eq_some_iff.mp found
    obtain ⟨value, entry, string⟩ := Option.bind_eq_some_iff.mp texted
    rw [Value.asStr_eq_some] at string
    exact ⟨text, string ▸ entry, (rounds_iff.mpr read).1⟩
  · rintro ⟨text, entry, rounds⟩
    rw [entry]
    exact (rounds_iff).mp ⟨rounds, small⟩

theorem mem_keys_of_states (stated : States hard key milli) : key ∈ hard.keys := by
  obtain ⟨text, found, -⟩ := stated
  exact Object.mem_keys_of_get found

/-- The expected amounts are those that the limits of one Pod spell. -/
theorem forall_expected {P : Str → ℤ → Prop} : (∀ entry ∈ limits.expected, P entry.1 entry.2) ↔
    ∀ entry ∈ limits.resources, ∃ perPod, parseQuantityMilli entry.2 = some perPod ∧ P entry.1 perPod := by
  simp [expected, resources, limits.cpu_read, limits.memory_read, limits.scratch_read]

/-- The amount of the pool is not too large. -/
theorem total_spec {entry : Str × ℤ} (member : entry ∈ limits.expected) :
    checkedI128 (entry.2 * limits.poolLimit.toNat) = some (entry.2 * limits.poolLimit.toNat) ∧
      entry.2 * limits.poolLimit.toNat ≤ maxMilli := by
  have amount : entry.2 ∈ [limits.cpuMilli, limits.memoryMilli, limits.scratchMilli] := by
    simp only [expected, List.mem_cons, List.not_mem_nil, or_false] at member
    rcases member with rfl | rfl | rfl | rfl | rfl | rfl <;> simp
  obtain ⟨total, checked, small⟩ := limits.totals_fit _ amount
  rw [checkedI128] at checked ⊢
  split_ifs at checked with bounded
  cases checked
  exact ⟨if_pos bounded, small⟩

theorem pods_small (limits : DocumentWorkerLimits) : (limits.poolLimit.toNat * 1000 : ℤ) ≤ maxMilli := by
  have bounded := limits.poolLimit.toNat_lt
  have limit : (2 ^ 32 * 1000 : ℤ) ≤ maxMilli := by decide
  omega

/-- The quota states the expected amounts, however they are spelled. -/
theorem forall_stated : (∀ entry ∈ limits.expected, stated hard entry.1 = checkedI128 (entry.2 * limits.poolLimit.toNat)) ↔
    ∀ entry ∈ limits.resources, ∃ perPod, Rounds entry.2 perPod ∧ States hard entry.1 (perPod * limits.poolLimit.toNat) := by
  have read : (∀ entry ∈ limits.expected, stated hard entry.1 = checkedI128 (entry.2 * limits.poolLimit.toNat)) ↔
      ∀ entry ∈ limits.expected, States hard entry.1 (entry.2 * limits.poolLimit.toNat) := by
    apply forall₂_congr
    intro entry member
    obtain ⟨checked, small⟩ := total_spec member
    rw [checked, stated_eq_some small]
  rw [read, @forall_expected limits fun key perPod => States hard key (perPod * limits.poolLimit.toNat)]
  apply forall₂_congr
  intro entry member
  constructor
  · rintro ⟨perPod, parsed, total⟩
    exact ⟨perPod, (rounds_iff.mpr parsed).1, total⟩
  · rintro ⟨perPod, rounds, total⟩
    have own : ∃ milli, parseQuantityMilli entry.2 = some milli := by
      simp only [resources, List.mem_cons, List.not_mem_nil, or_false] at member
      rcases member with rfl | rfl | rfl | rfl | rfl | rfl
      · exact ⟨_, limits.cpu_read⟩
      · exact ⟨_, limits.cpu_read⟩
      · exact ⟨_, limits.memory_read⟩
      · exact ⟨_, limits.memory_read⟩
      · exact ⟨_, limits.scratch_read⟩
      · exact ⟨_, limits.scratch_read⟩
    obtain ⟨milli, parsed⟩ := own
    exact ⟨milli, parsed, rounds.eq parsed ▸ total⟩

/-- A quota with these seven limits has no other. -/
theorem keys_of_stated (size : hard.len = 7) (pods : States hard "pods".toList (limits.poolLimit.toNat * 1000))
    (amounts : ∀ entry ∈ limits.resources, ∃ perPod, Rounds entry.2 perPod ∧ States hard entry.1 (perPod * limits.poolLimit.toNat)) :
    hard.keys = quotaNames.toFinset := by
  apply Object.keys_eq_of_len (by decide) (by rw [size]; rfl)
  intro name member
  rcases List.mem_cons.mp member with rfl | member
  · exact mem_keys_of_states pods
  · obtain ⟨entry, inside, rfl⟩ := List.mem_map.mp (show name ∈ limits.resources.map Prod.fst from member)
    obtain ⟨perPod, -, total⟩ := amounts entry inside
    exact mem_keys_of_states total

theorem get_asObject {outer : Object} {inner : Object} :
    (outer.get key).bind Value.asObject = some inner ↔ outer.get key = some (.object inner.keys inner.value) := by
  simp [Option.bind_eq_some_iff, Value.asObject_eq_some]

theorem matchesQuota_iff (limits : DocumentWorkerLimits) (quota : Value) :
    limits.matchesQuota quota = true ↔ limits.StatesPool quota := by
  rw [matchesQuota]
  constructor
  · intro accepted
    split at accepted
    · cases accepted
    next spec specified =>
      split at accepted
      · cases accepted
      next hard found =>
        split_ifs at accepted with sizes
        obtain ⟨alone, seven⟩ : spec.len = 1 ∧ hard.len = 7 := by simpa using sizes
        obtain ⟨value, pointed, entries⟩ := Option.bind_eq_some_iff.mp specified
        rw [Value.asObject_eq_some] at entries
        rw [get_asObject] at found
        rw [Bool.and_eq_true, beq_iff_eq, stated_eq_some limits.pods_small, List.all_eq_true] at accepted
        have amounts := (forall_stated).mp fun entry member => by simpa using accepted.2 entry member
        refine ⟨spec, hard, entries ▸ pointed, found, ?_, keys_of_stated seven accepted.1 amounts, accepted.1, amounts⟩
        apply @Object.keys_eq_of_len spec ["hard".toList] (List.nodup_singleton _) alone
        intro name member
        rw [List.mem_singleton.mp member]
        exact Object.mem_keys_of_get found
  · rintro ⟨spec, hard, pointed, found, alone, seven, pods, amounts⟩
    have sizes : ¬ (spec.len != 1 || hard.len != 7) = true := by
      rw [Object.len, Object.len, alone, seven]
      decide
    rw [pointed, Option.bind_some, Value.asObject_eq_some.mpr rfl]
    dsimp only
    rw [(get_asObject).mpr found]
    dsimp only
    rw [if_neg sizes, (stated_eq_some limits.pods_small).mpr pods, Bool.and_eq_true, List.all_eq_true]
    refine ⟨beq_self_eq_true _, fun entry member => ?_⟩
    simpa using (forall_stated).mpr amounts entry member

/-- Quantities are read exactly, and a quota is accepted exactly when it states the amounts of the pool and nothing else, whatever
spelling is used. -/
theorem quantities_exact (limits : DocumentWorkerLimits) (quota : Value) (raw : Str) (milli : ℤ) :
    (parseQuantityMilli raw = some milli ↔
      byteLen raw ≤ 128 ∧ ∃ value, Spells raw value ∧ 0 < value ∧ milli = ⌈1000 * value⌉ ∧ milli ≤ maxMilli) ∧
    (limits.matchesQuota quota = true ↔ limits.StatesPool quota) :=
  ⟨parseQuantityMilli_eq_some, limits.matchesQuota_iff quota⟩

end DocumentWorkerLimits

end OpenLegal.Document
