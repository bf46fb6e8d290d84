/-
# GunyahRuntime.Sleep -- how late a sleep is armed (`timer.c`)

A relative sleep adds the reading of the counter to the ticks of the request, and the sum has 64 bits. The
deadline that is meant has any size: it is a sum of natural numbers. Where it fits, the compare register
gets it; where it does not, the sum wraps below the reading of the counter and the call returns as if the
time had passed.

There is one exception. At frequencies over 1 GHz the conversion alone can exceed 64 bits, since the bound
`timespec_valid` checks leaves room for a billion ticks of nanoseconds and not for a second of ticks. A sum
that wraps around to the largest value is then above the reading of the counter.
-/
import GunyahRuntime.Timer

namespace GunyahRuntime

/-- The ticks of a time, of any size. -/
def exactTicks (timerFreq : Nat) (ts : TimeSpec) : Nat :=
  ts.tvSec.toNat * timerFreq + ts.tvNsec.toNat * timerFreq / NS_PER_S

/-- When a call that reads the counter as `now` is meant to return. -/
def deadline (timerFreq : Nat) (relative : Bool) (req : TimeSpec) (now : Nat) : Nat :=
  if relative then now + exactTicks timerFreq req else exactTicks timerFreq req

/-- The local `timeout` of `timer_set_and_wait`. -/
def timeoutOf (timerFreq : Nat) (relative : Bool) (req : TimeSpec) (now : Nat) : Nat :=
  if relative then u64 (ticksOf timerFreq req + now) else ticksOf timerFreq req

/-- What `timer_set_and_wait` does after the early exits: arm, wait, disarm, and report what is left. -/
def timerWaitUntil (st : TimerState) (timeout : Nat) (remain : Bool) (now₂ : Nat) (taken : Bool) :
    Exec (Int × Option TimeSpec × TimerState) := do
  let (ret, st) := timerWake (interruptWait (platformTimerSetTimeout st timeout) taken)
  let left ← timerRemain st timeout now₂ remain
  return (ret, left, st)

/-! ## The calls that sleep (`syscall.c`) -/

/-- `CLOCK_MONOTONIC` and `TIMER_ABSTIME` of the C library. -/
def CLOCK_MONOTONIC : Int := 1
def TIMER_ABSTIME : Int := 1

/-- What such a call comes down to: a result, `interrupt_wait`, or `timer_set_and_wait` with its arguments, whatever
stands for the two pointers. -/
inductive Syscall (τ ρ : Type) where
  | ret (r : Int)
  | poll
  | sleep (relative : Bool) (req : τ) (remain : ρ)

/-- `sys_ppoll(ufds, nfds, timeout, sigmask, sigsetsize)`. -/
def sysPpoll {τ ρ : Type} (nfds : Nat) (timeout : Option τ) (null : ρ) : Syscall τ ρ :=
  if nfds ≠ 0 then .ret (-EINVAL)
  else match timeout with
    | some req => .sleep true req null
    | none => .poll

/-- `sys_clock_nanosleep(clock_id, flags, request, remain)`. -/
def sysClockNanosleep {τ ρ : Type} (clockId flags : Int) (request : τ) (remain null : ρ) : Syscall τ ρ :=
  if clockId ≠ CLOCK_MONOTONIC then .ret (-EINVAL)
  else if flags = 0 then .sleep true request remain
  else if flags = TIMER_ABSTIME then .sleep false request null
  else .ret (-EINVAL)

theorem timerSetAndWait_invalid {st : TimerState} {req : TimeSpec} (h : ¬ timespecValid st req = true)
    (relative remain : Bool) (now₁ now₂ : Nat) (taken : Bool) :
    timerSetAndWait st relative req remain now₁ now₂ taken = .ok (-EINVAL, none, st) := by
  simp [timerSetAndWait, h]

/-- The call, for a valid request: it returns at once, or it waits until `timeout`. -/
theorem timerSetAndWait_split {st : TimerState} {req : TimeSpec} (hreq : timespecValid st req = true)
    (relative remain : Bool) (now₁ now₂ : Nat) (taken : Bool) :
    timerSetAndWait st relative req remain now₁ now₂ taken =
      if timeoutOf st.timerFreq relative req now₁ ≤ now₁ then .ok (0, none, st)
      else timerWaitUntil st (timeoutOf st.timerFreq relative req now₁) remain now₂ taken := by
  unfold timerSetAndWait
  rw [if_neg (by simp [hreq]), timespecToTicks_ok hreq, ok_bind]
  rfl

/-- The end of a wait leaves the compare register alone and the flag clear. -/
theorem timerWake_spec (st : TimerState) :
    (timerWake st).2.cntvCval = st.cntvCval ∧ (timerWake st).2.timerFired = false ∧
      (st.timerFired = false → (timerWake st).1 = -EINTR) := by
  unfold timerWake
  split
  · next hf => simp [hf]
  · next hf => simp [platformTimerCancelTimeout, hf]

@[simp] theorem interruptWait_cval (st : TimerState) (taken : Bool) :
    (interruptWait st taken).cntvCval = st.cntvCval := by
  cases taken <;> rfl

/-- After a wait the compare register holds what the wait was for. -/
theorem timerWaitUntil_cval (st : TimerState) (timeout now₂ : Nat) (taken : Bool) :
    ∃ ret st', timerWaitUntil st timeout false now₂ taken = .ok (ret, none, st') ∧
      st'.cntvCval = timeout ∧ st'.timerFired = false ∧
      (st.timerFired = false → taken = false → ret = -EINTR) := by
  obtain ⟨hcval, hfired, hret⟩ := timerWake_spec
    (interruptWait (platformTimerSetTimeout st timeout) taken)
  refine ⟨_, _, rfl, hcval.trans (interruptWait_cval _ _), hfired, ?_⟩
  rintro hst rfl
  exact hret hst

/-- A call that has waited is told from one that has not: it clears the flag, and if the flag was clear and
nothing fired it was interrupted. -/
theorem timerWaitUntil_ne_early (st : TimerState) (timeout now₂ : Nat) :
    timerWaitUntil st timeout false now₂ false ≠ .ok (0, none, st) := by
  obtain ⟨ret, st', hwait, -, hfired, hret⟩ :=
    timerWaitUntil_cval st timeout now₂ false
  rw [hwait]
  intro heq
  obtain ⟨rfl, -, rfl⟩ : ret = 0 ∧ (none : Option TimeSpec) = none ∧ st' = st := by
    simpa using heq
  exact absurd (hret hfired rfl) (by decide)

/-! ## The sum -/

section Sum

variable {st : TimerState} {req : TimeSpec}

/-- The nanoseconds of a request are less than a second of ticks. -/
theorem nsecTicks_lt (ha : st.Accepted) (hreq : timespecValid st req = true) :
    req.tvNsec.toNat * st.timerFreq / NS_PER_S < st.timerFreq := by
  have hns : req.tvNsec.toNat < NS_PER_S := by
    have hle := (timespecValid_iff.1 hreq).2.2.2
    unfold TIMESPEC_MAX_NSEC NS_PER_S at *
    omega
  rw [Nat.div_lt_iff_lt_mul (by decide), Nat.mul_comm st.timerFreq]
  exact Nat.mul_lt_mul_of_pos_right hns ha.freq_pos

/-- The seconds alone fit: this is the bound that `timer_init` computes. -/
theorem secTicks_le (ha : st.Accepted) (hreq : timespecValid st req = true) :
    req.tvSec.toNat * st.timerFreq ≤ 18446744073709551615 - TIMESPEC_MAX_NSEC := by
  have hmax := (timespecValid_iff.1 hreq).2.2.1
  rw [ha.maxSec, utilMin_eq, sub64_of_le (by decide) (by decide)] at hmax
  have hsec : req.tvSec.toNat ≤ (18446744073709551615 - TIMESPEC_MAX_NSEC) / st.timerFreq :=
    (Int.toNat_le.2 hmax).trans (Nat.min_le_left _ _)
  exact (Nat.mul_le_mul_right _ hsec).trans (Nat.div_mul_le_self _ _)

theorem exactTicks_lt (ha : st.Accepted) (hreq : timespecValid st req = true) :
    exactTicks st.timerFreq req < 18446744073709551616 + 4294967296 := by
  have hsec := secTicks_le ha hreq
  have hnsec := nsecTicks_lt ha hreq
  have hfreq := ha.freq_lt
  unfold exactTicks
  unfold TIMESPEC_MAX_NSEC at hsec
  omega

/-- So does the product of the nanoseconds. -/
theorem nsecProduct_lt (ha : st.Accepted) (hreq : timespecValid st req = true) :
    req.tvNsec.toNat * st.timerFreq < 18446744073709551616 := by
  have hns := (timespecValid_iff.1 hreq).2.2.2
  have hnat : req.tvNsec.toNat ≤ 1000000000 := by
    unfold TIMESPEC_MAX_NSEC NS_PER_S at hns
    omega
  calc req.tvNsec.toNat * st.timerFreq
      ≤ 1000000000 * 4294967296 := Nat.mul_le_mul hnat ha.freq_lt.le
    _ < 18446744073709551616 := by decide

/-- The only sum that wraps in the conversion is the last one. -/
theorem ticksOf_eq (ha : st.Accepted) (hreq : timespecValid st req = true) :
    ticksOf st.timerFreq req = u64 (exactTicks st.timerFreq req) := by
  have hsec := secTicks_le ha hreq
  unfold ticksOf exactTicks
  rw [u64_of_lt (nsecProduct_lt ha hreq), u64_of_lt (Nat.lt_of_le_of_lt hsec (by decide))]

/-- A deadline that fits is the timeout. -/
theorem timeoutOf_eq (ha : st.Accepted) (hreq : timespecValid st req = true) {relative : Bool} {now : Nat}
    (hfit : deadline st.timerFreq relative req now < 18446744073709551616) :
    timeoutOf st.timerFreq relative req now = deadline st.timerFreq relative req now := by
  unfold timeoutOf deadline at *
  rw [ticksOf_eq ha hreq]
  cases relative
  · exact u64_of_lt hfit
  · simp only [if_true] at *
    rw [u64_of_lt (n := exactTicks st.timerFreq req) (by omega), Nat.add_comm, u64_of_lt hfit]

end Sum

/-! ## Armed in time -/

/-- The call waits, armed with a compare value that is no earlier than the deadline or is the largest there
is, and whatever happens while it waits. -/
def ArmsInTime (st : TimerState) (req : TimeSpec) (now₁ : Nat) : Prop :=
  ∃ timeout, min (now₁ + exactTicks st.timerFreq req) 18446744073709551615 ≤ timeout ∧
    timeout < 18446744073709551616 ∧ ∀ remain now₂ taken,
      timerSetAndWait st true req remain now₁ now₂ taken = timerWaitUntil st timeout remain now₂ taken

/-- What a call waits for is what it computed, and lies ahead. -/
theorem armsInTime_iff {st : TimerState} {req : TimeSpec} (hreq : timespecValid st req = true)
    (now₁ : Nat) :
    ArmsInTime st req now₁ ↔ now₁ < timeoutOf st.timerFreq true req now₁ ∧
      min (now₁ + exactTicks st.timerFreq req) 18446744073709551615 ≤
        timeoutOf st.timerFreq true req now₁ := by
  constructor
  · rintro ⟨timeout, hle, -, hwait⟩
    have hcall := hwait false 0 false
    rw [timerSetAndWait_split hreq] at hcall
    split at hcall
    · exact absurd hcall.symm (timerWaitUntil_ne_early _ _ _)
    · next hlate =>
      obtain ⟨_, _, hl, hlc, -⟩ := timerWaitUntil_cval st (timeoutOf st.timerFreq true req now₁) 0 false
      obtain ⟨_, _, hr, hrc, -⟩ := timerWaitUntil_cval st timeout 0 false
      rw [hl, hr, Except.ok.injEq, Prod.mk.injEq, Prod.mk.injEq] at hcall
      obtain rfl : timeoutOf st.timerFreq true req now₁ = timeout := by rw [← hlc, ← hrc, hcall.2.2]
      exact ⟨Nat.lt_of_not_le hlate, hle⟩
  · rintro ⟨hlate, hle⟩
    refine ⟨_, hle, u64_lt _, fun remain now₂ taken => ?_⟩
    rw [timerSetAndWait_split hreq, if_neg (Nat.not_le.2 hlate)]

/-- **When a relative sleep is armed in time.** For every frequency `timer_init` accepts, every reading of
the counter and every valid request of at least a tick: exactly if the deadline fits 64 bits, or wraps
around to the largest value because the conversion of the request has wrapped too. -/
theorem timerSetAndWait_armsInTime_iff {st₀ st₁ st : TimerState} {s s' : IrqState}
    {timerFreq cntfrq isr : Nat} (hfrq : cntfrq < 4294967296)
    (hinit : timerInit st₀ s timerFreq cntfrq isr = .ok (st₁, s'))
    (hfreq : st.timerFreq = st₁.timerFreq) (hmax : st.timespecMaxSec = st₁.timespecMaxSec)
    {req : TimeSpec} (hreq : timespecValid st req = true) (hpos : 0 < exactTicks st.timerFreq req)
    {now₁ : Nat} (h₁ : now₁ < 18446744073709551616) :
    ArmsInTime st req now₁ ↔
      now₁ + exactTicks st.timerFreq req < 18446744073709551616 ∨
        (18446744073709551616 < exactTicks st.timerFreq req ∧
          now₁ + exactTicks st.timerFreq req = 36893488147419103231) := by
  have ha := (timerInit_accepted hfrq hinit).of_statics hfreq hmax
  have hbound := exactTicks_lt ha hreq
  rw [armsInTime_iff hreq]
  unfold timeoutOf
  rw [if_pos rfl, ticksOf_eq ha hreq]
  generalize exactTicks st.timerFreq req = ticks at *
  have hsum : u64 (u64 ticks + now₁) = (now₁ + ticks) % 18446744073709551616 := by
    unfold u64
    rw [Nat.mod_add_mod, Nat.add_comm]
  rw [hsum]
  omega

theorem timerSetAndWait_armsInTime_ten_seconds :
    ∃ st s', timerInit ⟨0, 0, false, 0, 0⟩ IrqState.reset 19200000 19200000 1 = .ok (st, s') ∧
      ArmsInTime st ⟨10, 0⟩ 1000 := by
  obtain ⟨st, s', hinit, hfreq, hmax⟩ := timerInit_19200000
  have hreq : timespecValid st ⟨10, 0⟩ = true := by
    rw [timespecValid_iff, hmax]; decide
  have hticks : exactTicks st.timerFreq ⟨10, 0⟩ = 192000000 := by
    rw [hfreq]; decide
  refine ⟨st, s', hinit, (timerSetAndWait_armsInTime_iff (by decide) hinit rfl rfl hreq ?_
    (by decide)).mpr (.inl ?_)⟩ <;> rw [hticks] <;> decide

/-- The longest sleep there is, a minute after boot, returns at once. -/
theorem not_armsInTime_longest_sleep :
    ¬ ∀ (st₀ st : TimerState) (s s' : IrqState) (timerFreq isr : Nat) (req : TimeSpec) (now₁ : Nat),
      timerFreq < 4294967296 → timerInit st₀ s timerFreq timerFreq isr = .ok (st, s') →
      timespecValid st req = true → 0 < ticksOf st.timerFreq req → now₁ < 18446744073709551616 →
      ArmsInTime st req now₁ := by
  intro h
  obtain ⟨st, s', hinit, hfreq, hmax⟩ := timerInit_19200000
  have hreq : timespecValid st ⟨960767920453, 0⟩ = true := by
    rw [timespecValid_iff, hmax]; decide
  have hticks : ticksOf st.timerFreq ⟨960767920453, 0⟩ = 18446744072697600000 := by
    rw [hfreq]; decide
  have harms := h _ st _ s' _ _ _ 1152000000 (by decide) hinit hreq (by rw [hticks]; decide) (by decide)
  have hlate := ((armsInTime_iff hreq _).1 harms).1
  unfold timeoutOf at hlate
  rw [if_pos rfl, hticks] at hlate
  exact absurd hlate (by decide)

end GunyahRuntime
