import OpenLegal.Rust.Result

/-! # Computations that poll a clock

A long computation polls its deadline, its cancellation and its shared slots at many places, and gives up
where a poll fails. It is over then, so all that matters of a clock is how many polls pass and what the next
one fails with. A computation is steady if being interrupted is all that a clock can do to it: whatever it
returns, it returns without interruption too.
-/

namespace OpenLegal.Theory

open Rust

variable {ε α β : Type}

/-- The polls that pass before one fails, and what that one fails with; `none` if none fails. -/
abbrev Clock (ε : Type) := Option (ℕ × ε)

/-- A computation that may poll its clock. -/
def Polled (ε α : Type) := Clock ε → Except ε (α × Clock ε)

namespace Polled

instance : Monad (Polled ε) where
  pure a clock := .ok (a, clock)
  bind m f clock := match m clock with
    | .error e => .error e
    | .ok (a, later) => f a later

/-- A computation that does not poll. -/
def lift (x : Except ε α) : Polled ε α := fun clock => match x with
  | .error e => .error e
  | .ok a => .ok (a, clock)

def fail (e : ε) : Polled ε α := lift (.error e)

def poll : Polled ε Unit
  | none => .ok ((), none)
  | some (0, e) => .error e
  | some (passes + 1, e) => .ok ((), some (passes, e))

/-- So many polls, one after the other. -/
def polls : ℕ → Polled ε Unit
  | 0 => pure ()
  | n + 1 => do
    poll
    polls n

/-- The first result for one of the items, one after the other. -/
def findSomeM (find : α → Polled ε (Option β)) : List α → Polled ε (Option β)
  | [] => pure none
  | item :: items => do
    match ← find item with
    | some found => pure (some found)
    | none => findSomeM find items

@[simp] theorem pure_eq (a : α) (clock : Clock ε) : (pure a : Polled ε α) clock = .ok (a, clock) := rfl

@[simp] theorem lift_ok (a : α) (clock : Clock ε) : lift (.ok a) clock = .ok (a, clock) := rfl

@[simp] theorem lift_error (e : ε) (clock : Clock ε) : (lift (.error e) : Polled ε α) clock = .error e := rfl

@[simp] theorem fail_eq (e : ε) (clock : Clock ε) : (fail e : Polled ε α) clock = .error e := rfl

@[simp] theorem poll_none : poll (none : Clock ε) = .ok ((), none) := rfl

theorem poll_eq_error {clock : Clock ε} {e : ε} : poll clock = .error e ↔ clock = some (0, e) := by
  match clock with
  | none => simp [poll]
  | some (0, e') => simp [poll]
  | some (passes + 1, e') => simp [poll]

theorem poll_eq_ok {clock later : Clock ε} {done : Unit} :
    poll clock = .ok (done, later) ↔
      clock = none ∧ later = none ∨ ∃ passes e, clock = some (passes + 1, e) ∧ later = some (passes, e) := by
  match clock with
  | none => simp [poll, eq_comm]
  | some (0, e) => simp [poll]
  | some (passes + 1, e) => simp [poll, eq_comm]

theorem bind_eq {m : Polled ε α} {f : α → Polled ε β} {clock : Clock ε} :
    (m >>= f) clock = m clock >>= fun result => f result.1 result.2 := by
  cases ran : m clock with
  | error e => simp only [Bind.bind, ran, Except.bind]
  | ok result => simp only [Bind.bind, ran, Except.bind]

@[simp] theorem polls_none (n : ℕ) : polls n (none : Clock ε) = .ok ((), none) := by
  induction n with
  | zero => rfl
  | succ n ih => exact ih

/-- A successful computation did its first part and then its second. -/
theorem bind_eq_ok {m : Polled ε α} {f : α → Polled ε β} {clock later : Clock ε} {b : β} :
    (m >>= f) clock = .ok (b, later) ↔ ∃ a middle, m clock = .ok (a, middle) ∧ f a middle = .ok (b, later) := by
  rw [bind_eq, Rust.bind_eq_ok]
  constructor
  · rintro ⟨⟨a, middle⟩, first, second⟩
    exact ⟨a, middle, first, second⟩
  · rintro ⟨a, middle, first, second⟩
    exact ⟨(a, middle), first, second⟩

theorem lift_eq_ok {x : Except ε α} {clock later : Clock ε} {a : α} :
    lift x clock = .ok (a, later) ↔ x = .ok a ∧ later = clock := by
  cases x with
  | error e =>
    constructor
    · intro impossible
      cases impossible
    · rintro ⟨impossible, -⟩
      cases impossible
  | ok b =>
    constructor
    · intro same
      cases same
      exact ⟨rfl, rfl⟩
    · rintro ⟨same, rfl⟩
      cases same
      rfl

/-- `n` polls pass exactly if the clock has `n` of them left. -/
theorem polls_eq_ok {n : ℕ} {clock later : Clock ε} (passed : polls n clock = .ok ((), later)) :
    (∀ e passes, clock = some (passes, e) → n ≤ passes ∧ later = some (passes - n, e)) ∧
      (clock = none → later = none) := by
  induction n generalizing clock with
  | zero =>
    cases passed
    refine ⟨?_, id⟩
    rintro e passes rfl
    exact ⟨Nat.zero_le _, rfl⟩
  | succ n ih =>
    obtain ⟨_, middle, first, rest⟩ := (bind_eq_ok).mp passed
    obtain ⟨timed, free⟩ := ih rest
    match clock, first with
    | none, first =>
      cases first
      exact ⟨fun _ _ impossible => (nomatch impossible), fun _ => free rfl⟩
    | some (passes + 1, e), first =>
      cases first
      refine ⟨?_, fun impossible => (nomatch impossible)⟩
      rintro _ _ ⟨⟩
      obtain ⟨enough, rfl⟩ := timed e passes rfl
      exact ⟨Nat.succ_le_succ enough, by rw [Nat.succ_sub_succ]⟩

/-- Without interruption the computation returns what it returns under a clock. -/
def Steady (m : Polled ε α) : Prop := ∀ clock a later, m clock = .ok (a, later) → m none = .ok (a, none)

namespace Steady

theorem pure (a : α) : Steady (Pure.pure a : Polled ε α) := by
  intro clock b later result
  cases result
  rfl

theorem lift (x : Except ε α) : Steady (Polled.lift x) := by
  intro clock a later result
  obtain ⟨rfl, -⟩ := (lift_eq_ok).mp result
  rfl

theorem fail (e : ε) : Steady (Polled.fail e : Polled ε α) := lift _

theorem poll : Steady (Polled.poll : Polled ε Unit) := fun _ _ _ _ => rfl

theorem bind {m : Polled ε α} {f : α → Polled ε β} (first : Steady m) (second : ∀ a, Steady (f a)) :
    Steady (m >>= f) := by
  intro clock b later result
  obtain ⟨a, middle, ran, rest⟩ := (bind_eq_ok).mp result
  exact (bind_eq_ok).mpr ⟨a, none, first clock a middle ran, second a middle b later rest⟩

theorem ite {condition : Prop} [Decidable condition] {m m' : Polled ε α} (yes : condition → Steady m)
    (no : ¬condition → Steady m') : Steady (if condition then m else m') := by
  split_ifs with holds
  · exact yes holds
  · exact no holds

theorem polls (n : ℕ) : Steady (Polled.polls n : Polled ε Unit) := by
  induction n with
  | zero => exact pure ()
  | succ n ih => exact bind poll fun _ => ih

theorem findSomeM {find : α → Polled ε (Option β)} (steady : ∀ item, Steady (find item)) (items : List α) :
    Steady (Polled.findSomeM find items) := by
  induction items with
  | nil => exact pure none
  | cons item items ih =>
    apply bind (steady item)
    intro found
    cases found with
    | some found => exact pure _
    | none => exact ih

theorem foldlM {step : β → α → Polled ε β} (steady : ∀ state item, Steady (step state item)) (items : List α)
    (state : β) : Steady (items.foldlM step state) := by
  induction items generalizing state with
  | nil => exact pure state
  | cons item items ih => exact bind (steady state item) ih

end Steady

/-- Whatever the computation returns has the property. -/
def Yields (m : Polled ε α) (property : α → Prop) : Prop := ∀ clock a later, m clock = .ok (a, later) → property a

namespace Yields

variable {property : α → Prop}

theorem pure {a : α} (holds : property a) : Yields (Pure.pure a : Polled ε α) property := by
  intro clock b later result
  cases result
  exact holds

theorem lift {x : Except ε α} (holds : ∀ a, x = .ok a → property a) : Yields (Polled.lift x) property := by
  intro clock a later result
  exact holds a (lift_eq_ok.mp result).1

theorem fail (e : ε) : Yields (Polled.fail e : Polled ε α) property := by
  intro clock a later impossible
  cases impossible

/-- The second part is only reached with what the first one yields. -/
theorem bind {m : Polled ε α} {f : α → Polled ε β} {property' : β → Prop} (first : Yields m property)
    (second : ∀ a, property a → Yields (f a) property') : Yields (m >>= f) property' := by
  intro clock b later result
  obtain ⟨a, middle, ran, rest⟩ := (bind_eq_ok).mp result
  exact second a (first clock a middle ran) middle b later rest

/-- What matters of the first part is that it returns. -/
theorem after {m : Polled ε α} {f : α → Polled ε β} {property' : β → Prop} (second : ∀ a, Yields (f a) property') :
    Yields (m >>= f) property' := by
  intro clock b later result
  obtain ⟨a, middle, -, rest⟩ := (bind_eq_ok).mp result
  exact second a middle b later rest

theorem findSomeM {find : α → Polled ε (Option β)} {items : List α} {property : β → Prop}
    (each : ∀ item ∈ items, Yields (find item) fun found => ∀ b ∈ found, property b) :
    Yields (Polled.findSomeM find items) fun found => ∀ b ∈ found, property b := by
  induction items with
  | nil => exact pure fun b impossible => nomatch impossible
  | cons item items ih =>
    refine bind (each item (List.mem_cons_self ..)) ?_
    intro found holds
    cases found with
    | some found => exact pure holds
    | none => exact ih fun other member => each other (List.mem_cons_of_mem _ member)

end Yields

end Polled

end OpenLegal.Theory
