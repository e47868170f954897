import Mathlib.Algebra.Order.Ring.Rat
import Mathlib.Tactic.FieldSimp
import Mathlib.Tactic.NormNum
import OpenLegal.Theory.TokenBucket

/-! # The rate limiter

A fixed-size token bucket for tool calls. Tokens are counted in parts of a billion, so that a nanosecond at a rate of so
many calls per second brings so many parts, and nothing is rounded.
-/

namespace OpenLegal.Server

open Theory

/-- The parts of one token. -/
def token : ℕ := 1000000000

/-- `u128::saturating_add`. -/
def saturatingAdd (a b : ℕ) : ℕ := min (a + b) (2 ^ 128 - 1)

/-- `u128::saturating_mul`. -/
def saturatingMul (a b : ℕ) : ℕ := min (a * b) (2 ^ 128 - 1)

/-- A time of a monotonic clock, in nanoseconds. The span of any two is a `Duration`, of less than `2 ^ 64` seconds. -/
structure Instant where
  nanos : ℕ
  representable : nanos < 2 ^ 64 * 1000000000
deriving DecidableEq

structure Bucket where
  tokens : ℕ
  at' : Instant
deriving DecidableEq

structure RateLimiter where
  enabled : Bool
  callsPerSecond : UInt32
  burst : UInt32
  bucket : Bucket
deriving DecidableEq

namespace RateLimiter

def new (enabled : Bool) (callsPerSecond burst : UInt32) (now : Instant) : RateLimiter :=
  ⟨enabled, callsPerSecond, burst, ⟨burst.toNat * token, now⟩⟩

/-- The outcome of a call, which holds the lock from reading the clock on. -/
def tryAdmit (now : Instant) (limiter : RateLimiter) : Bool × RateLimiter :=
  if !limiter.enabled then (true, limiter)
  else
    let refill := saturatingMul (now.nanos - limiter.bucket.at'.nanos) limiter.callsPerSecond.toNat
    let tokens := min (saturatingAdd limiter.bucket.tokens refill) (limiter.burst.toNat * token)
    if tokens < token then (false, { limiter with bucket := ⟨tokens, now⟩ })
    else (true, { limiter with bucket := ⟨tokens - token, now⟩ })

/-- Calls with their outcomes. -/
def results (limiter : RateLimiter) : List Instant → List (Instant × Bool)
  | [] => []
  | now :: calls => (now, (limiter.tryAdmit now).1) :: (limiter.tryAdmit now).2.results calls

/-! ## The continuous bucket -/

/-- The tokens that a nanosecond brings. -/
def rate (callsPerSecond : UInt32) : ℚ := callsPerSecond.toNat / 10 ^ 9

def capacity (burst : UInt32) : ℚ := burst.toNat

def time (call : Instant) : ℚ := call.nanos

/-- A bucket that is full at a time. -/
def full (burst : UInt32) (now : Instant) : TokenBucket ℚ := ⟨capacity burst, time now⟩

/-- The limiter counts what the continuous bucket holds. -/
structure Counts (limiter : RateLimiter) (ideal : TokenBucket ℚ) : Prop where
  enabled : limiter.enabled = true
  time_le : ideal.time ≤ time limiter.bucket.at'
  tokens : (limiter.bucket.tokens : ℚ) =
    token * ideal.levelAt (capacity limiter.burst) (rate limiter.callsPerSecond) (time limiter.bucket.at')

variable {limiter : RateLimiter} {ideal : TokenBucket ℚ} {now : Instant}

theorem rate_nonneg (callsPerSecond : UInt32) : 0 ≤ rate callsPerSecond := div_nonneg (Nat.cast_nonneg _) (by norm_num)

theorem capacity_nonneg (burst : UInt32) : 0 ≤ capacity burst := Nat.cast_nonneg _

theorem Counts.tokens_le (counts : Counts limiter ideal) : limiter.bucket.tokens ≤ limiter.burst.toNat * token := by
  have below : ideal.levelAt (capacity limiter.burst) (rate limiter.callsPerSecond) (time limiter.bucket.at') ≤
      capacity limiter.burst := min_le_left _ _
  have scaled : (limiter.bucket.tokens : ℚ) ≤ limiter.burst.toNat * token := by
    rw [counts.tokens, mul_comm]
    exact mul_le_mul_of_nonneg_right below (Nat.cast_nonneg _)
  exact_mod_cast scaled

/-- The tokens after a refill. -/
def refilled (limiter : RateLimiter) (now : Instant) : ℕ :=
  min (limiter.bucket.tokens + (now.nanos - limiter.bucket.at'.nanos) * limiter.callsPerSecond.toNat) (limiter.burst.toNat * token)

/-- Nothing saturates. -/
theorem Counts.tryAdmit_eq (counts : Counts limiter ideal) (now : Instant) : limiter.tryAdmit now =
    if limiter.refilled now < token then (false, { limiter with bucket := ⟨limiter.refilled now, now⟩ })
    else (true, { limiter with bucket := ⟨limiter.refilled now - token, now⟩ }) := by
  have held := counts.tokens_le
  have calls := limiter.callsPerSecond.toNat_lt
  have burst := limiter.burst.toNat_lt
  have brought : (now.nanos - limiter.bucket.at'.nanos) * limiter.callsPerSecond.toNat ≤ 2 ^ 64 * 1000000000 * 2 ^ 32 :=
    Nat.mul_le_mul ((Nat.sub_le _ _).trans now.representable.le) calls.le
  have stored : limiter.burst.toNat * token ≤ 2 ^ 32 * 1000000000 := Nat.mul_le_mul_right _ burst.le
  have refill : saturatingMul (now.nanos - limiter.bucket.at'.nanos) limiter.callsPerSecond.toNat =
      (now.nanos - limiter.bucket.at'.nanos) * limiter.callsPerSecond.toNat := by
    rw [saturatingMul]
    omega
  have added : saturatingAdd limiter.bucket.tokens ((now.nanos - limiter.bucket.at'.nanos) * limiter.callsPerSecond.toNat) =
      limiter.bucket.tokens + (now.nanos - limiter.bucket.at'.nanos) * limiter.callsPerSecond.toNat := by
    rw [saturatingAdd]
    omega
  simp only [tryAdmit, counts.enabled, Bool.not_true, Bool.false_eq_true, if_false, refill, added]
  rfl

theorem Counts.refilled_eq (counts : Counts limiter ideal) (later : limiter.bucket.at'.nanos ≤ now.nanos) :
    (limiter.refilled now : ℚ) = token * ideal.levelAt (capacity limiter.burst) (rate limiter.callsPerSecond) (time now) := by
  have after : time limiter.bucket.at' ≤ time now := Nat.cast_le.mpr later
  rw [← TokenBucket.levelAt_levelAt (rate_nonneg _) after, TokenBucket.levelAt, mul_min_of_nonneg _ _ (Nat.cast_nonneg _), min_comm,
    mul_add, ← counts.tokens, refilled, Nat.cast_min, Nat.cast_add, Nat.cast_mul, Nat.cast_sub later, Nat.cast_mul]
  congr 1
  · simp only [rate, time, token]
    push_cast
    ring
  · exact mul_comm _ _

/-- A call has the same outcome as one to the continuous bucket. -/
theorem Counts.tryAdmit (counts : Counts limiter ideal) (later : limiter.bucket.at'.nanos ≤ now.nanos) :
    limiter.tryAdmit now =
      if 1 ≤ ideal.levelAt (capacity limiter.burst) (rate limiter.callsPerSecond) (time now) then
        (true, { limiter with bucket := ⟨limiter.refilled now - token, now⟩ })
      else (false, { limiter with bucket := ⟨limiter.refilled now, now⟩ }) := by
  have whole : token ≤ limiter.refilled now ↔
      1 ≤ ideal.levelAt (capacity limiter.burst) (rate limiter.callsPerSecond) (time now) := by
    rw [← @Nat.cast_le ℚ, counts.refilled_eq later]
    constructor
    · intro enough
      exact le_of_mul_le_mul_left (by simpa using enough) (by norm_num [token] : (0 : ℚ) < token)
    · intro enough
      exact le_mul_of_one_le_right (Nat.cast_nonneg _) enough
  rw [counts.tryAdmit_eq]
  by_cases enough : token ≤ limiter.refilled now
  · rw [if_neg (by omega), if_pos (whole.mp enough)]
  · rw [if_pos (by omega), if_neg (fun full => enough (whole.mpr full))]

/-- A refused call changes nothing but the time of the last look. -/
theorem Counts.refuse (counts : Counts limiter ideal) (later : limiter.bucket.at'.nanos ≤ now.nanos) :
    Counts { limiter with bucket := ⟨limiter.refilled now, now⟩ } ideal :=
  ⟨counts.enabled, counts.time_le.trans (Nat.cast_le.mpr later), counts.refilled_eq later⟩

/-- An admitted call takes one token of both. -/
theorem Counts.admitted (counts : Counts limiter ideal) (later : limiter.bucket.at'.nanos ≤ now.nanos)
    (whole : 1 ≤ ideal.levelAt (capacity limiter.burst) (rate limiter.callsPerSecond) (time now)) :
    Counts { limiter with bucket := ⟨limiter.refilled now - token, now⟩ }
      (ideal.take (capacity limiter.burst) (rate limiter.callsPerSecond) (time now)) := by
  have below : ideal.levelAt (capacity limiter.burst) (rate limiter.callsPerSecond) (time now) ≤ capacity limiter.burst :=
    min_le_left _ _
  have enough : token ≤ limiter.refilled now := by
    rw [← @Nat.cast_le ℚ, counts.refilled_eq later]
    exact le_mul_of_one_le_right (Nat.cast_nonneg _) whole
  refine ⟨counts.enabled, le_rfl, ?_⟩
  have left : (ideal.take (capacity limiter.burst) (rate limiter.callsPerSecond) (time now)).levelAt (capacity limiter.burst)
      (rate limiter.callsPerSecond) (time now) =
      ideal.levelAt (capacity limiter.burst) (rate limiter.callsPerSecond) (time now) - 1 := by
    rw [TokenBucket.levelAt, TokenBucket.take, sub_self, mul_zero, add_zero]
    exact min_eq_right ((sub_le_self _ zero_le_one).trans below)
  rw [left, Nat.cast_sub enough, counts.refilled_eq later, mul_sub, mul_one]

/-- Calls in order have the outcomes that the continuous bucket gives them. -/
theorem Counts.results (counts : Counts limiter ideal) {calls : List Instant}
    (ordered : (limiter.bucket.at' :: calls).Pairwise fun a b => a.nanos ≤ b.nanos) :
    limiter.results calls = ideal.run (capacity limiter.burst) (rate limiter.callsPerSecond) time calls := by
  induction calls generalizing limiter ideal with
  | nil => rfl
  | cons now calls ih =>
    obtain ⟨later, following⟩ := List.pairwise_cons.mp ordered
    have reached := later now List.mem_cons_self
    by_cases whole : 1 ≤ ideal.levelAt (capacity limiter.burst) (rate limiter.callsPerSecond) (time now)
    · have rest := ih (counts.admitted reached whole) following
      rw [RateLimiter.results, counts.tryAdmit reached, if_pos whole, rest, TokenBucket.run, if_pos whole]
    · have rest := ih (counts.refuse reached) following
      rw [RateLimiter.results, counts.tryAdmit reached, if_neg whole, rest, TokenBucket.run, if_neg whole]

theorem counts_new (callsPerSecond burst : UInt32) (start : Instant) :
    Counts (new true callsPerSecond burst start) (full burst start) where
  enabled := rfl
  time_le := le_rfl
  tokens := by
    have level : (full burst start).levelAt (capacity burst) (rate callsPerSecond) (time start) = capacity burst := by
      rw [TokenBucket.levelAt, full, sub_self, mul_zero, add_zero, min_self]
    have parts : ((burst.toNat * token : ℕ) : ℚ) = token * capacity burst := by rw [Nat.cast_mul, mul_comm, capacity]
    exact parts.trans (congrArg _ level.symm)

/-- The admitted calls with times from one nanosecond to another. -/
def window (first last : ℕ) (results : List (Instant × Bool)) : List (Instant × Bool) :=
  results.filter fun result => result.2 && decide (first ≤ result.1.nanos) && decide (result.1.nanos ≤ last)

theorem window_eq (first last : ℕ) (results : List (Instant × Bool)) :
    window first last results = TokenBucket.inWindow time first last results := by
  simp only [window, TokenBucket.inWindow, time, Nat.cast_le]

/-- For calls in order, a window admits no more than the burst and what the rate brings; a call is refused exactly if the
continuous bucket holds less than a token; and refused calls make no difference to the others. -/
theorem admissions_exact (callsPerSecond burst : UInt32) (start : Instant) (calls : List Instant)
    (ordered : (start :: calls).Pairwise fun a b => a.nanos ≤ b.nanos) :
    (∀ first span, (window first (first + span) ((new true callsPerSecond burst start).results calls)).length ≤
      burst.toNat + span * callsPerSecond.toNat / 10 ^ 9) ∧
    (∀ before call after, (new true callsPerSecond burst start).results calls = before ++ call :: after →
      (call.2 = false ↔ ((full burst start).drained (capacity burst) (rate callsPerSecond) time
        (TokenBucket.admitted before)).levelAt (capacity burst) (rate callsPerSecond) (time call.1) < 1)) ∧
    (∀ kept : List (Instant × Bool), kept.Sublist ((new true callsPerSecond burst start).results calls) →
      TokenBucket.admitted kept = TokenBucket.admitted ((new true callsPerSecond burst start).results calls) →
      (new true callsPerSecond burst start).results (kept.map Prod.fst) = kept) := by
  have run : (new true callsPerSecond burst start).results calls =
      TokenBucket.run (capacity burst) (rate callsPerSecond) time (full burst start) calls :=
    (counts_new callsPerSecond burst start).results ordered
  obtain ⟨later, following⟩ := List.pairwise_cons.mp ordered
  refine ⟨?_, ?_, ?_⟩
  · intro first span
    have timed : calls.Pairwise fun a b => time a ≤ time b := following.imp fun order => Nat.cast_le.mpr order
    have ends : (first : ℚ) ≤ ((first + span : ℕ) : ℚ) := Nat.cast_le.mpr (Nat.le_add_right _ _)
    have bound := TokenBucket.length_inWindow_le (full burst start) (capacity_nonneg burst) (rate_nonneg callsPerSecond) ends timed
    rw [run, window_eq]
    generalize (TokenBucket.inWindow time (first : ℚ) ((first + span : ℕ) : ℚ)
      ((full burst start).run (capacity burst) (rate callsPerSecond) time calls)).length = count at bound ⊢
    have scaled : (count : ℚ) * 10 ^ 9 ≤ burst.toNat * 10 ^ 9 + span * callsPerSecond.toNat := by
      rw [capacity, rate, Nat.cast_add, add_sub_cancel_left, div_mul_eq_mul_div, ← sub_le_iff_le_add', le_div_iff₀ (by norm_num)] at bound
      rw [sub_mul] at bound
      linarith
    have counted : count * 10 ^ 9 ≤ burst.toNat * 10 ^ 9 + span * callsPerSecond.toNat := by exact_mod_cast scaled
    omega
  · intro before call after split
    rw [run] at split
    exact TokenBucket.refused_iff split
  · intro kept inside same
    rw [run] at inside same
    have order : (start :: kept.map Prod.fst).Pairwise fun a b => a.nanos ≤ b.nanos := by
      have sub := inside.map Prod.fst
      rw [TokenBucket.run_fst] at sub
      exact ordered.sublist (sub.cons_cons start)
    rw [(counts_new callsPerSecond burst start).results order]
    exact TokenBucket.run_of_sublist inside same

def atMillis (millis : Fin 1000) : Instant := ⟨millis.val * 1000000, by omega⟩

/-- A burst of three at two calls per second: half a second lets one more call through. -/
theorem admissions_exact_burst :
    (window 0 (0 + 500000000) ((new true 2 3 (atMillis 0)).results
      [atMillis 0, atMillis 0, atMillis 0, atMillis 0, atMillis 499, atMillis 500, atMillis 500])).length ≤ 4 :=
  (admissions_exact 2 3 (atMillis 0) [atMillis 0, atMillis 0, atMillis 0, atMillis 0, atMillis 499, atMillis 500, atMillis 500]
    (by decide)).1 0 500000000

example : ((new true 2 3 (atMillis 0)).results [atMillis 0, atMillis 0, atMillis 0, atMillis 0, atMillis 499, atMillis 500,
    atMillis 500]).map Prod.snd = [true, true, true, false, false, true, false] := by decide +kernel

end RateLimiter

end OpenLegal.Server
