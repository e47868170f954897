import Mathlib.Data.List.Chain
import Mathlib.Data.List.Count
import Mathlib.Data.List.Nodup
import Mathlib.Data.List.Perm.Subperm
import Mathlib.Data.List.Range
import Mathlib.Order.Lattice

/-! # Windowed counters and spacing gates

Counters that are kept for one window only and start again in the next one count the events of every window,
as long as windows are visited in order. A gate that is closed for a while after each passage keeps the
passages apart.
-/

namespace OpenLegal.Theory

section Counters

variable {ω κ : Type} [LinearOrder ω] [DecidableEq κ]

/-- One count for each kind, all of the same window. -/
structure WindowCounters (ω κ : Type) where
  window : ω
  used : κ → ℕ

namespace WindowCounters

/-- Counts of another window are over. -/
def usedIn (counters : WindowCounters ω κ) (window : ω) (kind : κ) : ℕ :=
  if counters.window = window then counters.used kind else 0

def record (counters : WindowCounters ω κ) (window : ω) (kind : κ) : WindowCounters ω κ where
  window
  used other := counters.usedIn window other + if other = kind then 1 else 0

theorem record_used (counters : WindowCounters ω κ) (window : ω) (kind other : κ) :
    (counters.record window kind).used other = counters.usedIn window other + if other = kind then 1 else 0 := rfl

/-- The counters agree with the events so far, none of which lies in a later window. -/
structure Counts (counters : WindowCounters ω κ) (events : List (ω × κ)) : Prop where
  past : ∀ event ∈ events, event.1 ≤ counters.window
  exact : ∀ kind, counters.used kind = events.count (counters.window, kind)

variable {counters : WindowCounters ω κ} {events : List (ω × κ)} {window : ω}

theorem Counts.usedIn_eq (counts : counters.Counts events) (reached : counters.window ≤ window) (kind : κ) :
    counters.usedIn window kind = events.count (window, kind) := by
  rw [usedIn]
  split_ifs with same
  · rw [counts.exact, same]
  · have later : (window, kind) ∉ events := by
      intro member
      exact same (le_antisymm reached (counts.past _ member))
    exact (List.count_eq_zero_of_not_mem later).symm

/-- Recording an event in the same window or in a later one. -/
theorem Counts.record (counts : counters.Counts events) (reached : counters.window ≤ window) (kind : κ) :
    (counters.record window kind).Counts (events ++ [(window, kind)]) := by
  constructor
  · intro event member
    rcases List.mem_append.mp member with old | new
    · exact (counts.past event old).trans reached
    · rw [List.mem_singleton.mp new]
      exact le_rfl
  · intro other
    simp only [WindowCounters.record, counts.usedIn_eq reached, List.count_append, List.count_singleton, beq_iff_eq,
      Prod.mk.injEq, true_and]
    congr 2
    exact propext eq_comm

end WindowCounters

end Counters

section Gate

/-- Passages with the gap each of them asks for are apart, and the gate stays closed for the last gap. -/
structure Spaced (opens : ℕ) (passages : List (ℕ × ℕ)) : Prop where
  apart : passages.IsChain fun earlier later => earlier.1 + earlier.2 ≤ later.1
  closed : ∀ last ∈ passages.getLast?, last.1 + last.2 ≤ opens

theorem Spaced.pass {opens time gap : ℕ} {passages : List (ℕ × ℕ)} (spaced : Spaced opens passages)
    (reached : opens ≤ time) : Spaced (time + gap) (passages ++ [(time, gap)]) := by
  constructor
  · apply List.isChain_append.mpr
    refine ⟨spaced.apart, List.isChain_singleton _, ?_⟩
    intro last member first first'
    cases first'
    exact (spaced.closed last member).trans reached
  · intro last member
    rw [List.getLast?_concat] at member
    cases member
    exact le_rfl

/-- With gaps that are not empty, the times of the passages are strictly ascending. -/
theorem Spaced.ascending {opens : ℕ} {passages : List (ℕ × ℕ)} (spaced : Spaced opens passages)
    (positive : ∀ passage ∈ passages, 0 < passage.2) : (passages.map Prod.fst).Pairwise (· < ·) := by
  rw [← List.isChain_iff_pairwise, List.isChain_map]
  refine spaced.apart.imp_of_mem_imp ?_
  intro earlier later member _ apart
  have gap := positive earlier member
  omega

/-- No more passages fall into a span than it is long. -/
theorem Spaced.countP_le {opens : ℕ} {passages : List (ℕ × ℕ)} (spaced : Spaced opens passages)
    (positive : ∀ passage ∈ passages, 0 < passage.2) (start span : ℕ) {within : ℕ × ℕ → Bool}
    (bounds : ∀ passage, within passage = true → start ≤ passage.1 ∧ passage.1 < start + span) :
    passages.countP within ≤ span := by
  have ascending := (spaced.ascending positive).sublist ((List.filter_sublist (p := within)).map Prod.fst)
  have covered : ((passages.filter within).map Prod.fst) ⊆ List.range' start span := by
    intro time member
    obtain ⟨passage, kept, rfl⟩ := List.mem_map.mp member
    rw [List.mem_range'_1]
    exact bounds passage (List.mem_filter.mp kept).2
  have bound := (List.Nodup.subperm ascending.nodup covered).length_le
  rwa [List.length_map, List.length_range', ← List.countP_eq_length_filter] at bound

end Gate

end OpenLegal.Theory
