/-
# GunyahRuntime.Ticks -- times and ticks, there and back (`timer.c`)

Both conversions round down. The way out of a time multiplies two members by the frequency, and what `timer_init`
computes is to keep the sum inside 64 bits: the seconds are bounded so that `TIMESPEC_MAX_NSEC` fits behind them. That
is a number of nanoseconds, and what has to fit is a number of ticks. There are more of these than of those from one
gigahertz on, so there a time in the last second can wrap.

Up to one gigahertz a tick is at least a nanosecond, and the way back loses less than one.
-/
import GunyahRuntime.Sleep

namespace GunyahRuntime

/-! ## From a time to ticks -/

/-- The ticks are those of the time, and no operation on the way leaves 64 bits. -/
structure ConvertsExactly (st : TimerState) (ts : TimeSpec) : Prop where
  result : timespecToTicks st ts = .ok (exactTicks st.timerFreq ts)
  sec : ts.tvSec.toNat * st.timerFreq < 18446744073709551616
  nsec : ts.tvNsec.toNat * st.timerFreq < 18446744073709551616
  sum : exactTicks st.timerFreq ts < 18446744073709551616

/-- The time is before the last second, or its nanoseconds fit behind that. -/
def FitsLastSecond (st : TimerState) (ts : TimeSpec) : Prop :=
  ts.tvSec < st.timespecMaxSec ∨
    ts.tvNsec.toNat * st.timerFreq < (NS_PER_S + (18446744073709551616 - NS_PER_S) % st.timerFreq) * NS_PER_S

/-- The bound of the seconds, as a natural number. -/
theorem TimerState.Accepted.maxSec_eq {st : TimerState} (ha : st.Accepted) : st.timespecMaxSec =
    (min ((18446744073709551616 - NS_PER_S) / st.timerFreq) 9223372036854775807 : Nat) := by
  rw [ha.maxSec, utilMin_eq, sub64_of_le (by decide) (by decide)]
  rfl

section Exact

variable {st : TimerState} {ts : TimeSpec}

/-- Before the last second there is room for a second of ticks. -/
theorem exactTicks_lt_of_before (ha : st.Accepted) (hts : timespecValid st ts = true)
    (hsec : ts.tvSec < st.timespecMaxSec) : exactTicks st.timerFreq ts < 18446744073709551616 := by
  have hnonneg := (timespecValid_iff.1 hts).1
  have hnsec := nsecTicks_lt ha hts
  have hmin := Nat.min_le_left ((18446744073709551616 - NS_PER_S) / st.timerFreq) 9223372036854775807
  rw [ha.maxSec_eq] at hsec
  have hnext : ts.tvSec.toNat + 1 ≤ (18446744073709551616 - NS_PER_S) / st.timerFreq := by omega
  have hroom : ts.tvSec.toNat * st.timerFreq + st.timerFreq ≤ 18446744073709551616 - NS_PER_S := by
    rw [← Nat.succ_mul]
    exact (Nat.mul_le_mul_right _ hnext).trans (Nat.div_mul_le_self _ _)
  unfold exactTicks
  omega

/-- In the last second there is what the bound of the seconds leaves over. -/
theorem exactTicks_lt_iff_last (ha : st.Accepted) (hts : timespecValid st ts = true)
    (hsec : ¬ ts.tvSec < st.timespecMaxSec) : exactTicks st.timerFreq ts < 18446744073709551616 ↔
      ts.tvNsec.toNat * st.timerFreq < (NS_PER_S + (18446744073709551616 - NS_PER_S) % st.timerFreq) * NS_PER_S := by
  obtain ⟨hnonneg, -, hle, hns⟩ := timespecValid_iff.1 hts
  have hfreq := ha.freq_pos
  have hnsec := nsecTicks_lt ha hts
  have hlast : ts.tvSec = st.timespecMaxSec := by omega
  rw [ha.maxSec_eq] at hlast
  rw [← Nat.div_lt_iff_lt_mul (by decide)]
  unfold exactTicks
  have hdiv := Nat.div_add_mod (18446744073709551616 - NS_PER_S) st.timerFreq
  rcases Nat.le_total ((18446744073709551616 - NS_PER_S) / st.timerFreq) 9223372036854775807 with hfits | hlarge
  · have hsecs : ts.tvSec.toNat = (18446744073709551616 - NS_PER_S) / st.timerFreq := by
      rw [Nat.min_eq_left hfits] at hlast
      omega
    rw [hsecs, Nat.mul_comm]
    unfold NS_PER_S at *
    omega
  · -- only a counter of one hertz reaches the bound that the type sets
    have hone : st.timerFreq = 1 := by
      by_contra hne
      have hhalf : (18446744073709551616 - NS_PER_S) / st.timerFreq ≤ (18446744073709551616 - NS_PER_S) / 2 :=
        Nat.div_le_div_left (by omega) (by decide)
      unfold NS_PER_S at *
      omega
    rw [Nat.min_eq_right hlarge] at hlast
    rw [hone] at hnsec ⊢
    unfold NS_PER_S at *
    omega

theorem convertsExactly_iff (ha : st.Accepted) (hts : timespecValid st ts = true) :
    ConvertsExactly st ts ↔ exactTicks st.timerFreq ts < 18446744073709551616 := by
  refine ⟨fun h => h.sum, fun h => ⟨?_, ?_, ?_, h⟩⟩
  · rw [timespecToTicks_ok hts, ticksOf_eq ha hts, u64_of_lt h]
  · exact Nat.lt_of_le_of_lt (secTicks_le ha hts) (by decide)
  · exact nsecProduct_lt ha hts

end Exact

/-- **When the conversion is exact.** For every frequency that `timer_init` accepts and every valid time, nothing wraps
exactly if the time is before the last second or its nanoseconds fit behind that. -/
theorem timespecToTicks_exact_iff {st₀ st₁ st : TimerState} {s s' : IrqState} {timerFreq cntfrq isr : Nat}
    (hfrq : cntfrq < 4294967296) (hinit : timerInit st₀ s timerFreq cntfrq isr = .ok (st₁, s'))
    (hfreq : st.timerFreq = st₁.timerFreq) (hmax : st.timespecMaxSec = st₁.timespecMaxSec) {ts : TimeSpec}
    (hts : timespecValid st ts = true) : ConvertsExactly st ts ↔ FitsLastSecond st ts := by
  have ha := (timerInit_accepted hfrq hinit).of_statics hfreq hmax
  rw [convertsExactly_iff ha hts, FitsLastSecond]
  by_cases hsec : ts.tvSec < st.timespecMaxSec
  · exact ⟨fun _ => .inl hsec, fun _ => exactTicks_lt_of_before ha hts hsec⟩
  · rw [exactTicks_lt_iff_last ha hts hsec]
    exact ⟨.inr, fun h => h.resolve_left hsec⟩

/-- The longest time that the 19.2 MHz counter takes. -/
theorem timespecToTicks_exact_longest :
    ∃ st s', timerInit ⟨0, 0, false, 0, 0⟩ IrqState.reset 19200000 19200000 1 = .ok (st, s') ∧
      ConvertsExactly st ⟨960767920453, 999999999⟩ := by
  obtain ⟨st, s', hinit, hfreq, hmax⟩ := timerInit_19200000
  have hts : timespecValid st ⟨960767920453, 999999999⟩ = true := by
    rw [timespecValid_iff, hmax]; decide
  refine ⟨st, s', hinit, (timespecToTicks_exact_iff (by decide) hinit rfl rfl hts).2 (.inr ?_)⟩
  rw [hfreq]
  decide

/-- At two gigahertz the longest time wraps. -/
theorem not_timespecToTicks_exact :
    ¬ ∀ (st₀ st : TimerState) (s s' : IrqState) (timerFreq isr : Nat) (ts : TimeSpec), timerFreq < 4294967296 →
      timerInit st₀ s timerFreq timerFreq isr = .ok (st, s') → timespecValid st ts = true → ConvertsExactly st ts := by
  intro h
  obtain ⟨st, s', hinit, hfreq⟩ := timerInit_total ⟨0, 0, false, 0, 0⟩ IrqState.reset 1
    (show 0 < 2000000000 by decide) (by decide)
  have ha := timerInit_accepted (by decide) hinit
  have hmax : st.timespecMaxSec = 9223372036 := by
    rw [ha.maxSec_eq, hfreq]
    decide
  have hts : timespecValid st ⟨9223372036, 999999999⟩ = true := by
    rw [timespecValid_iff, hmax]; decide
  have hsum := (h _ st _ s' _ _ _ (by decide) hinit hts).sum
  rw [hfreq] at hsum
  revert hsum
  decide

/-! ## There and back

`x * g / f` is a count of `x` at the rate `f`, brought to the rate `g`. -/

section Rates

variable {f g : Nat}

theorem rate_back_le (f g x : Nat) : x * g / f * f / g ≤ x := by
  rcases Nat.eq_zero_or_pos g with rfl | hg
  · simp
  · calc x * g / f * f / g ≤ x * g / g := Nat.div_le_div_right (Nat.div_mul_le_self _ _)
      _ = x := Nat.mul_div_cancel _ hg

/-- Over a rate that is no lower, less than two are lost. -/
theorem le_rate_back (hf : 0 < f) (hfg : f ≤ g) (x : Nat) : x ≤ x * g / f * f / g + 1 := by
  have hg : 0 < g := hf.trans_le hfg
  have hdiv := Nat.div_add_mod (x * g) f
  have hmod := Nat.mod_lt (x * g) hf
  rw [Nat.mul_comm f] at hdiv
  have hlost : x * g ≤ x * g / f * f + g := by omega
  calc x = x * g / g := (Nat.mul_div_cancel _ hg).symm
    _ ≤ (x * g / f * f + g) / g := Nat.div_le_div_right hlost
    _ = x * g / f * f / g + 1 := Nat.add_div_right _ hg

end Rates

/-- The signed operations of `ticks_to_timespec` are defined: it does not divide by zero, and nothing leaves `int64_t`. -/
structure SignedDefined (timerFreq ticks : Nat) : Prop where
  divisor : toInt64 timerFreq ≠ 0
  quotient : InInt64 ((toInt64 ticks).tdiv (toInt64 timerFreq))
  rest : InInt64 ((toInt64 ticks).tmod (toInt64 timerFreq))
  product : InInt64 ((toInt64 ticks).tmod (toInt64 timerFreq) * NS_PER_S)
  nsec : InInt64 (((toInt64 ticks).tmod (toInt64 timerFreq) * NS_PER_S).tdiv (toInt64 timerFreq))

/-- The earlier of two times comes first, or they are equal: seconds before nanoseconds. -/
def TimeSpec.NotLater (a b : TimeSpec) : Prop := a.tvSec < b.tvSec ∨ a.tvSec = b.tvSec ∧ a.tvNsec ≤ b.tvNsec

section Back

variable {st : TimerState} {x y : Nat}

theorem signedDefined_of_lt (hpos : 0 < st.timerFreq) (hfreq : st.timerFreq ≤ NS_PER_S)
    (hx : x < 9223372036854775808) : SignedDefined st.timerFreq x := by
  have hrest : x % st.timerFreq < NS_PER_S := (Nat.mod_lt _ hpos).trans_le hfreq
  have hproduct : x % st.timerFreq * NS_PER_S < 9223372036854775808 := by
    have hle := Nat.mul_le_mul_right NS_PER_S hrest.le
    unfold NS_PER_S at *
    omega
  have hquotient := Nat.div_le_self x st.timerFreq
  have hnsec := Nat.div_le_self (x % st.timerFreq * NS_PER_S) st.timerFreq
  -- no operand is negative, so the signed operations are those of natural numbers
  have hf : toInt64 st.timerFreq = (st.timerFreq : Int) := toInt64_of_lt (by unfold NS_PER_S at hfreq; omega)
  have hq : (toInt64 x).tdiv (toInt64 st.timerFreq) = (x / st.timerFreq : Nat) := by
    rw [toInt64_of_lt hx, hf, ← Int.ofNat_tdiv]
  have hr : (toInt64 x).tmod (toInt64 st.timerFreq) = (x % st.timerFreq : Nat) := by
    rw [toInt64_of_lt hx, hf, ← Int.ofNat_tmod]
  have hp : (toInt64 x).tmod (toInt64 st.timerFreq) * NS_PER_S = (x % st.timerFreq * NS_PER_S : Nat) := by
    rw [hr, ← Int.natCast_mul]
  refine ⟨?_, ?_, ?_, ?_, ?_⟩
  · rw [hf]
    omega
  · rw [hq]
    exact inInt64_of_lt (by omega)
  · rw [hr]
    exact inInt64_of_lt (hrest.trans (by decide))
  · rw [hp]
    exact inInt64_of_lt hproduct
  · rw [hp, hf, ← Int.ofNat_tdiv]
    exact inInt64_of_lt (by omega)

/-- A number of ticks below the sign bit, in seconds and nanoseconds. -/
def naturalTime (timerFreq ticks : Nat) : TimeSpec :=
  ⟨(ticks / timerFreq : Nat), (ticks % timerFreq * NS_PER_S / timerFreq : Nat)⟩

theorem ticksToTimespec_lt (ha : st.Accepted) (hx : x < 9223372036854775808) :
    ticksToTimespec st x = .ok (naturalTime st.timerFreq x) ∧ timespecValid st (naturalTime st.timerFreq x) = true := by
  obtain ⟨ts, hts⟩ := ticksToTimespec_reading ha (x := x) (by omega) (.inl hx)
  have htime : timeOf st.timerFreq x = naturalTime st.timerFreq x := timeOf_of_lt ha.freq_lt hx
  by_cases hvalid : timespecValid st (timeOf st.timerFreq x) = true
  · rw [← htime]
    exact ⟨ticksToTimespec_valid hvalid, hvalid⟩
  · rw [ticksToTimespec_invalid hvalid] at hts
    cases hts

theorem naturalTime_nanos (freq x : Nat) : (naturalTime freq x).nanos = (x * NS_PER_S / freq : Nat) := by
  rw [← split_nanos, TimeSpec.nanos, naturalTime]
  push_cast
  rfl

/-- Of two valid times the one with fewer nanoseconds is the earlier. -/
theorem notLater_of_nanos_le {a b : TimeSpec} (ha : timespecValid st a = true) (hb : timespecValid st b = true)
    (h : a.nanos ≤ b.nanos) : a.NotLater b := by
  obtain ⟨-, hpos, -, hlt⟩ := timespecValid_iff.1 ha
  obtain ⟨-, hpos', -, hlt'⟩ := timespecValid_iff.1 hb
  unfold TimeSpec.nanos TIMESPEC_MAX_NSEC NS_PER_S at *
  unfold TimeSpec.NotLater
  omega

/-- There and back: what is lost is less than two ticks. -/
theorem exactTicks_naturalTime (hpos : 0 < st.timerFreq) (hfreq : st.timerFreq ≤ NS_PER_S) (x : Nat) :
    exactTicks st.timerFreq (naturalTime st.timerFreq x) = x ∨
      exactTicks st.timerFreq (naturalTime st.timerFreq x) + 1 = x := by
  have hdiv := Nat.div_add_mod x st.timerFreq
  have hle := rate_back_le st.timerFreq NS_PER_S (x % st.timerFreq)
  have hge := le_rate_back hpos hfreq (x % st.timerFreq)
  rw [Nat.mul_comm] at hdiv
  unfold exactTicks naturalTime
  rw [Int.toNat_natCast, Int.toNat_natCast]
  omega

/-- Up to one gigahertz, ticks go there and back. -/
theorem ticksToTimespec_timespecToTicks (ha : st.Accepted) (hfreq : st.timerFreq ≤ NS_PER_S)
    (hx : x < 9223372036854775808) :
    ∃ t, timespecToTicks st (naturalTime st.timerFreq x) = .ok t ∧ (t = x ∨ t + 1 = x) := by
  have hvalid := (ticksToTimespec_lt ha hx).2
  have hexact := exactTicks_naturalTime ha.freq_pos hfreq x
  refine ⟨exactTicks st.timerFreq (naturalTime st.timerFreq x), ?_, hexact⟩
  rw [timespecToTicks_ok hvalid, ticksOf_eq ha hvalid, u64_of_lt (by omega)]

theorem naturalTime_mono (ha : st.Accepted) (hxy : x ≤ y) (hy : y < 9223372036854775808) :
    (naturalTime st.timerFreq x).NotLater (naturalTime st.timerFreq y) := by
  apply notLater_of_nanos_le (ticksToTimespec_lt ha (by omega)).2 (ticksToTimespec_lt ha hy).2
  rw [naturalTime_nanos, naturalTime_nanos]
  exact Int.ofNat_le.2 (Nat.div_le_div_right (Nat.mul_le_mul_right _ hxy))

/-- And a time goes there and back, without becoming later. -/
theorem naturalTime_ticksOf (ha : st.Accepted) {ts : TimeSpec} (hts : timespecValid st ts = true)
    (hlt : ticksOf st.timerFreq ts < 9223372036854775808) :
    (naturalTime st.timerFreq (ticksOf st.timerFreq ts)).NotLater ts := by
  apply notLater_of_nanos_le (ticksToTimespec_lt ha hlt).2 hts
  obtain ⟨hsec, hnsec, -, -⟩ := timespecValid_iff.1 hts
  have hpart := part_nanos_le (le_refl (ticksOf st.timerFreq ts))
  rw [naturalTime_nanos]
  unfold TimeSpec.nanos NS_PER_S at *
  omega

end Back

/-- **Ticks and times are inverse up to one tick.** At every frequency up to one gigahertz that `timer_init` accepts,
and for all ticks below the sign bit. -/
theorem ticks_timespec_inverse {st₀ st₁ st : TimerState} {s s' : IrqState} {timerFreq cntfrq isr : Nat}
    (hfrq : cntfrq ≤ 1000000000) (hinit : timerInit st₀ s timerFreq cntfrq isr = .ok (st₁, s'))
    (hfreq : st.timerFreq = st₁.timerFreq) (hmax : st.timespecMaxSec = st₁.timespecMaxSec) :
    (∀ ticks < 9223372036854775808, SignedDefined st.timerFreq ticks ∧
      ∃ ts, ticksToTimespec st ticks = .ok ts ∧ timespecValid st ts = true ∧
        ∃ t, timespecToTicks st ts = .ok t ∧ (t = ticks ∨ t + 1 = ticks)) ∧
    (∀ ticks₁ ticks₂, ticks₁ ≤ ticks₂ → ticks₂ < 9223372036854775808 →
      ∃ ts₁ ts₂, ticksToTimespec st ticks₁ = .ok ts₁ ∧ ticksToTimespec st ticks₂ = .ok ts₂ ∧ ts₁.NotLater ts₂) ∧
    (∀ ts, timespecValid st ts = true →
      ∃ ticks, timespecToTicks st ts = .ok ticks ∧ (ticks < 9223372036854775808 →
        ∃ ts', ticksToTimespec st ticks = .ok ts' ∧ ts'.NotLater ts)) := by
  have ha₁ := timerInit_accepted (Nat.lt_of_le_of_lt hfrq (by decide)) hinit
  have ha := ha₁.of_statics hfreq hmax
  have hle : st.timerFreq ≤ NS_PER_S := by
    rw [hfreq, timerInit_freq hinit]
    exact hfrq
  refine ⟨fun ticks hticks => ⟨signedDefined_of_lt ha.freq_pos hle hticks, ?_⟩, fun ticks₁ ticks₂ h hlt => ?_,
    fun ts hts => ?_⟩
  · obtain ⟨htime, hvalid⟩ := ticksToTimespec_lt ha hticks
    exact ⟨_, htime, hvalid, ticksToTimespec_timespecToTicks ha hle hticks⟩
  · exact ⟨_, _, (ticksToTimespec_lt ha (Nat.lt_of_le_of_lt h hlt)).1, (ticksToTimespec_lt ha hlt).1,
      naturalTime_mono ha h hlt⟩
  · exact ⟨_, timespecToTicks_ok hts, fun hlt => ⟨_, (ticksToTimespec_lt ha hlt).1, naturalTime_ticksOf ha hts hlt⟩⟩

/-- With the 19.2 MHz counter. -/
theorem ticks_timespec_inverse_19200000 :
    ∃ st s', timerInit ⟨0, 0, false, 0, 0⟩ IrqState.reset 19200000 19200000 1 = .ok (st, s') ∧
      ∃ ts, ticksToTimespec st 123456789 = .ok ts ∧ timespecValid st ts = true ∧
        ∃ t, timespecToTicks st ts = .ok t ∧ (t = 123456789 ∨ t + 1 = 123456789) := by
  obtain ⟨st, s', hinit, -, -⟩ := timerInit_19200000
  exact ⟨st, s', hinit, ((ticks_timespec_inverse (by decide) hinit rfl rfl).1 123456789 (by decide)).2⟩

end GunyahRuntime
