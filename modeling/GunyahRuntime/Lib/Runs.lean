/-
# GunyahRuntime.Lib.Runs -- first positions and runs in a sequence of bits

A sequence of bits is a function from positions to `Bool`. `firstBit` is the first position of an interval
that satisfies a predicate, `firstRun` the first place among `len` positions where `n` in a row do: both
are the scan that tries one position after the other. A search that skips is correct if it skips only
places where no run starts; `noRun_of_gap` says which those are.

Nothing here names a program.
-/
import Mathlib.Tactic.Common
import Mathlib.Data.Nat.Find

namespace GunyahRuntime.Lib

variable (bits : Nat → Bool)

/-- The first position from `lo` to `hi` whose bit is set. -/
def firstBit (lo hi : Nat) : Option Nat := (List.range' lo (hi + 1 - lo)).find? bits

/-- The `n` positions from `p` on all have their bit set. -/
def RunAt (n p : Nat) : Prop := ∀ k < n, bits (p + k) = true

instance (n p : Nat) : Decidable (RunAt bits n p) :=
  inferInstanceAs (Decidable (∀ k < n, bits (p + k) = true))

/-- The first run of `n` among the first `len` positions. -/
def firstRun (len n : Nat) : Option Nat :=
  (List.range (len + 1 - n)).find? fun p => decide (RunAt bits n p)

variable {bits}

theorem firstBit_eq_some {lo hi k : Nat} :
    firstBit bits lo hi = some k ↔
      bits k = true ∧ lo ≤ k ∧ k ≤ hi ∧ ∀ j, lo ≤ j → j < k → bits j = false := by
  unfold firstBit
  rw [List.find?_range'_eq_some, List.mem_range'_1]
  constructor
  · rintro ⟨hk, ⟨hlo, hhi⟩, hmin⟩
    exact ⟨hk, hlo, by omega, fun j h1 h2 => by simpa using hmin j h1 h2⟩
  · rintro ⟨hk, hlo, hhi, hmin⟩
    exact ⟨hk, ⟨hlo, by omega⟩, fun j h1 h2 => by simpa using hmin j h1 h2⟩

theorem firstBit_eq_none {lo hi : Nat} :
    firstBit bits lo hi = none ↔ ∀ j, lo ≤ j → j ≤ hi → bits j = false := by
  unfold firstBit
  rw [List.find?_range'_eq_none]
  constructor
  · intro h j h1 h2
    simpa using h j h1 (by omega)
  · intro h j h1 h2
    simpa using h j h1 (by omega)

theorem firstRun_eq_some {len n p : Nat} (hn : n ≤ len) :
    firstRun bits len n = some p ↔
      RunAt bits n p ∧ p + n ≤ len ∧ ∀ q < p, ¬ RunAt bits n q := by
  unfold firstRun
  rw [List.find?_range_eq_some, List.mem_range]
  constructor
  · rintro ⟨hrun, hlt, hmin⟩
    exact ⟨of_decide_eq_true hrun, by omega, fun q hq => by simpa using hmin q hq⟩
  · rintro ⟨hrun, hle, hmin⟩
    exact ⟨decide_eq_true hrun, by omega, fun q hq => by simpa using hmin q hq⟩

theorem firstRun_eq_none {len n : Nat} :
    firstRun bits len n = none ↔ ∀ p, p + n ≤ len → ¬ RunAt bits n p := by
  unfold firstRun
  rw [List.find?_range_eq_none]
  constructor
  · intro h p hp
    simpa using h p (by omega)
  · intro h p hp
    simpa using h p (by omega)

/-- Longer runs than positions there are none of. -/
theorem firstRun_of_lt {len n : Nat} (h : len < n) : firstRun bits len n = none :=
  firstRun_eq_none.2 fun p hp => by omega

/-- No run starts where a bit in its reach is clear. -/
theorem noRun_of_gap {n p gap : Nat} (hgap : bits gap = false) (h1 : p ≤ gap) (h2 : gap < p + n) :
    ¬ RunAt bits n p := by
  intro hrun
  have hset := hrun (gap - p) (by omega)
  rw [Nat.add_sub_cancel' h1, hgap] at hset
  cases hset

/-- A run and the run after it. -/
theorem RunAt.append {n m p : Nat} (h : RunAt bits n p) (h' : RunAt bits m (p + n)) :
    RunAt bits (n + m) p := by
  intro k hk
  rcases Nat.lt_or_ge k n with hlt | hge
  · exact h k hlt
  · have hset := h' (k - n) (by omega)
    rwa [show p + n + (k - n) = p + k by omega] at hset

/-- There is a run of `n` among the first `len` positions. -/
def HasRun (bits : Nat → Bool) (len n : Nat) : Prop := ∃ p, p + n ≤ len ∧ RunAt bits n p

theorem firstRun_isSome {len n : Nat} : (firstRun bits len n).isSome ↔ HasRun bits len n := by
  rw [Option.isSome_iff_ne_none, Ne, firstRun_eq_none]
  unfold HasRun
  push Not
  rfl

instance (bits : Nat → Bool) (len n : Nat) : Decidable (HasRun bits len n) :=
  decidable_of_iff _ firstRun_isSome

/-- The part of a run. -/
theorem HasRun.mono {len n m : Nat} (h : HasRun bits len n) (hle : m ≤ n) : HasRun bits len m := by
  obtain ⟨p, hp, hrun⟩ := h
  exact ⟨p, by omega, fun k hk => hrun k (by omega)⟩

/-- The length of the longest run among the first `len` positions. -/
def longestRun (bits : Nat → Bool) (len : Nat) : Nat := Nat.findGreatest (HasRun bits len) len

theorem le_longestRun {len n : Nat} : n ≤ longestRun bits len ↔ HasRun bits len n := by
  constructor
  · intro h
    have hnone : HasRun bits len 0 := ⟨0, Nat.zero_le len, fun k hk => absurd hk (Nat.not_lt_zero k)⟩
    have hlongest : HasRun bits len (longestRun bits len) := Nat.findGreatest_spec (Nat.zero_le len) hnone
    exact hlongest.mono h
  · rintro ⟨p, hp, hrun⟩
    exact Nat.le_findGreatest (by omega) ⟨p, hp, hrun⟩

/-- Before a clear bit at `mid` there are the runs before `lo` and the run from `lo` to `mid`, if the
bits up to there are clear: what a scan that goes from run to run has to compare. -/
theorem hasRun_step {curr next mid n : Nat} (hn : 0 < n) (hcurr : curr = 0 ∨ bits curr = false)
    (hclear : ∀ k, curr ≤ k → k < next → bits k = false) (hnext : next < mid)
    (hset : ∀ k, next ≤ k → k < mid → bits k = true) (hle : curr ≤ next) :
    HasRun bits mid n ↔ n ≤ mid - next ∨ HasRun bits curr n := by
  constructor
  · rintro ⟨p, hp, hrun⟩
    by_cases hend : p + n ≤ curr
    · exact .inr ⟨p, hend, hrun⟩
    · refine .inl ?_
      by_contra hlong
      -- the run starts before `next`, so it holds a clear bit
      have hgap : ∃ k, p ≤ k ∧ k < p + n ∧ bits k = false := by
        by_cases hpc : p < curr
        · exact ⟨curr, Nat.le_of_lt hpc, by omega, hcurr.resolve_left (by omega)⟩
        · exact ⟨p, Nat.le_refl p, by omega, hclear p (by omega) (by omega)⟩
      obtain ⟨k, h1, h2, hk⟩ := hgap
      exact noRun_of_gap hk h1 h2 hrun
  · rintro (hle | ⟨p, hp, hrun⟩)
    · exact ⟨next, by omega, fun k hk => hset (next + k) (by omega) (by omega)⟩
    · exact ⟨p, by omega, hrun⟩

/-- Behind the last set bit there is no run. -/
theorem hasRun_last {curr len n : Nat} (hn : 0 < n) (hle : curr ≤ len) (hcurr : curr = 0 ∨ bits curr = false)
    (hclear : ∀ k, curr ≤ k → k < len → bits k = false) : HasRun bits len n ↔ HasRun bits curr n := by
  constructor
  · rintro ⟨p, hp, hrun⟩
    refine ⟨p, ?_, hrun⟩
    by_contra hend
    have hgap : ∃ k, p ≤ k ∧ k < p + n ∧ bits k = false := by
      by_cases hpc : p < curr
      · exact ⟨curr, Nat.le_of_lt hpc, by omega, hcurr.resolve_left (by omega)⟩
      · exact ⟨p, Nat.le_refl p, by omega, hclear p (by omega) (by omega)⟩
    obtain ⟨k, h1, h2, hk⟩ := hgap
    exact noRun_of_gap hk h1 h2 hrun
  · rintro ⟨p, hp, hrun⟩
    exact ⟨p, by omega, hrun⟩

end GunyahRuntime.Lib
