/-
# GunyahRuntime.Timer -- sleeping on the virtual timer (`timer.c`, `generic_timer.c`)

A sleep turns a `timespec` into ticks, arms the compare register, waits for an interrupt and turns the
ticks that are left back into a `timespec`. The way out of seconds is unsigned 64-bit arithmetic and
the way back is signed division, and the two do not meet: `timespec_valid` admits requests of up to
nearly `2^64` ticks, while `ticks_to_timespec` reads its argument as an `int64_t`.

The environment of one sleep is the two readings of the counter and whether the timer interrupt was
taken while waiting.
-/
import GunyahRuntime.Irq.Interrupt

namespace GunyahRuntime

/-- `NS_PER_S`. -/
def NS_PER_S : Nat := 1000000000

/-- `TIMESPEC_MAX_NSEC`. -/
def TIMESPEC_MAX_NSEC : Nat := NS_PER_S - 1

/-- `struct timespec`: both members are signed 64-bit. -/
structure TimeSpec where
  tvSec : Int
  tvNsec : Int
  deriving DecidableEq, Repr

/-- The statics of `timer.c` and the two timer registers `generic_timer.c` writes. -/
structure TimerState where
  timerFreq : Nat
  timespecMaxSec : Int
  timerFired : Bool
  cntvCtl : Nat
  cntvCval : Nat
  deriving DecidableEq, Repr

def CNTV_CTL_IMASK : Nat := 2
def CNTV_CTL_ENABLE : Nat := 1

/-- `PLATFORM_TIMER_IRQ` (`build.conf`). -/
def PLATFORM_TIMER_IRQ : Nat := 27

/-! ## The generic timer -/

/-- `platform_timer_init(timer_freq)`: `cntfrq` is what `CNTFRQ_EL0` reads as. -/
def platformTimerInit (st : TimerState) (g : Gic) (timerFreq cntfrq : Nat) :
    Exec (TimerState × Gic) := do
  cassert (cntfrq = timerFreq)
  let (_, g) ← platformIrqSetTrigger g PLATFORM_TIMER_IRQ IRQ_TRIGGER_LEVEL_HIGH
  let g ← platformIrqEnable g PLATFORM_TIMER_IRQ
  return ({ st with cntvCtl := CNTV_CTL_IMASK }, g)

/-- `platform_timer_set_timeout(ticks)`. -/
def platformTimerSetTimeout (st : TimerState) (ticks : Nat) : TimerState :=
  { st with cntvCval := ticks, cntvCtl := CNTV_CTL_ENABLE }

/-- `platform_timer_cancel_timeout()`. -/
def platformTimerCancelTimeout (st : TimerState) : TimerState :=
  { st with cntvCtl := CNTV_CTL_IMASK }

/-! ## `timer.c` -/

/-- `timer_isr(irq, data)`. -/
def timerIsr (st : TimerState) : TimerState :=
  platformTimerCancelTimeout { st with timerFired := true }

/-- `timer_init()`: the frequency is the one in `env_data`, `isr` the address of `timer_isr`. -/
def timerInit (st : TimerState) (s : IrqState) (timerFreq cntfrq isr : Nat) :
    Exec (TimerState × IrqState) := do
  let uTimespecMaxSec := sub64 18446744073709551615 TIMESPEC_MAX_NSEC / timerFreq
  cassert (uTimespecMaxSec > 0)
  let timespecMaxSec : Int := utilMin uTimespecMaxSec 9223372036854775807
  let (st, gic) ←
    platformTimerInit { st with timerFreq, timespecMaxSec } s.gic timerFreq cntfrq
  let (_, s) ← interruptRegisterIsr { s with gic } PLATFORM_TIMER_IRQ isr 0
  return (st, s)

/-- `timespec_valid(ts)`. -/
def timespecValid (st : TimerState) (ts : TimeSpec) : Bool :=
  ts.tvSec ≥ 0 ∧ ts.tvNsec ≥ 0 ∧ ts.tvSec ≤ st.timespecMaxSec ∧ ts.tvNsec ≤ TIMESPEC_MAX_NSEC

/-- The ticks of a time, as `timespec_to_ticks` computes them. -/
def ticksOf (timerFreq : Nat) (ts : TimeSpec) : Nat :=
  u64 (u64 (ts.tvSec.toNat * timerFreq) + u64 (ts.tvNsec.toNat * timerFreq) / NS_PER_S)

/-- `timespec_to_ticks(ts)`. -/
def timespecToTicks (st : TimerState) (ts : TimeSpec) : Exec Nat := do
  cassert (timespecValid st ts)
  return ticksOf st.timerFreq ts

/-- The time of a number of ticks, as `ticks_to_timespec` computes it: signed division truncates
towards zero. -/
def timeOf (timerFreq ticks : Nat) : TimeSpec where
  tvSec := (toInt64 ticks).tdiv (toInt64 timerFreq)
  tvNsec := ((toInt64 ticks).tmod (toInt64 timerFreq) * NS_PER_S).tdiv (toInt64 timerFreq)

/-- `ticks_to_timespec(ticks, ts)`. -/
def ticksToTimespec (st : TimerState) (ticks : Nat) : Exec TimeSpec := do
  let ts := timeOf st.timerFreq ticks
  cassert (timespecValid st ts)
  return ts

/-- `interrupt_wait()`, as far as the timer sees it: `taken` says whether the dispatch it makes
acknowledged the timer interrupt. -/
def interruptWait (st : TimerState) (taken : Bool) : TimerState :=
  if taken then timerIsr st else st

/-- The end of the wait: the result, and the state with the timer disarmed. -/
def timerWake (st : TimerState) : Int × TimerState :=
  if st.timerFired then (0, { st with timerFired := false })
  else (-EINTR, platformTimerCancelTimeout st)

/-- What is stored to `*remain`, if the caller asked for it. -/
def timerRemain (st : TimerState) (timeout curticks : Nat) (remain : Bool) :
    Exec (Option TimeSpec) :=
  if remain then do
    let ts ← ticksToTimespec st (if timeout > curticks then sub64 timeout curticks else 0)
    return some ts
  else .ok none

/-- `timer_set_and_wait(relative, req, remain)`: `now₁` and `now₂` are the two readings of the counter
and `remain` says whether the pointer is non-null. The second component of the result is what was
stored there. -/
def timerSetAndWait (st : TimerState) (relative : Bool) (req : TimeSpec) (remain : Bool)
    (now₁ now₂ : Nat) (taken : Bool) : Exec (Int × Option TimeSpec × TimerState) :=
  if ¬ timespecValid st req then .ok (-EINVAL, none, st)
  else do
    let ticks ← timespecToTicks st req
    let timeout := if relative then u64 (ticks + now₁) else ticks
    if timeout ≤ now₁ then
      return (0, none, st)
    else
      let (ret, st) := timerWake (interruptWait (platformTimerSetTimeout st timeout) taken)
      let left ← timerRemain st timeout now₂ remain
      return (ret, left, st)

/-! ## The conversions

Below the sign bit `ticks_to_timespec` is a rounded-down division of the natural numbers; from the sign
bit on it is the same division of the distance to `2^64`, negated in both members. -/

/-- A time in nanoseconds. -/
def TimeSpec.nanos (ts : TimeSpec) : Int := ts.tvSec * NS_PER_S + ts.tvNsec

/-- The statics hold what an accepted `timer_init` left there; the other members are free. -/
structure TimerState.Accepted (st : TimerState) : Prop where
  freq_pos : 0 < st.timerFreq
  freq_lt : st.timerFreq < 4294967296
  maxSec : st.timespecMaxSec =
    (utilMin (sub64 18446744073709551615 TIMESPEC_MAX_NSEC / st.timerFreq) 9223372036854775807 : Nat)

/-- Later states have the same statics. -/
theorem TimerState.Accepted.of_statics {st st₁ : TimerState} (h : st₁.Accepted)
    (hfreq : st.timerFreq = st₁.timerFreq) (hmax : st.timespecMaxSec = st₁.timespecMaxSec) : st.Accepted :=
  ⟨by rw [hfreq]; exact h.freq_pos, by rw [hfreq]; exact h.freq_lt, by rw [hmax, hfreq]; exact h.maxSec⟩

theorem platformTimerInit_ok {st st' : TimerState} {g g' : Gic} {timerFreq cntfrq : Nat}
    (h : platformTimerInit st g timerFreq cntfrq = .ok (st', g')) :
    cntfrq = timerFreq ∧ st' = { st with cntvCtl := CNTV_CTL_IMASK } := by
  unfold platformTimerInit at h
  by_cases hc : cntfrq = timerFreq
  · refine ⟨hc, ?_⟩
    obtain ⟨_, _, h⟩ := bind_eq_ok.1 h
    obtain ⟨_, _, h⟩ := bind_eq_ok.1 h
    obtain ⟨_, _, h⟩ := bind_eq_ok.1 h
    rw [pure_ok, Except.ok.injEq, Prod.mk.injEq] at h
    exact h.1.symm
  · rw [decide_eq_false hc, cassert_false, error_bind] at h
    exact absurd h (by simp)

/-- What `timer_init` accepts: a frequency that is the 32-bit `CNTFRQ`, and not zero. -/
theorem timerInit_accepted {st st' : TimerState} {s s' : IrqState} {timerFreq cntfrq isr : Nat}
    (hfrq : cntfrq < 4294967296) (h : timerInit st s timerFreq cntfrq isr = .ok (st', s')) :
    st'.Accepted := by
  unfold timerInit at h
  dsimp only at h
  obtain ⟨_, hpos, h⟩ := bind_eq_ok.1 h
  obtain ⟨⟨st₁, g₁⟩, hinit, h⟩ := bind_eq_ok.1 h
  obtain ⟨rfl, rfl⟩ := platformTimerInit_ok hinit
  obtain ⟨_, _, h⟩ := bind_eq_ok.1 h
  rw [pure_ok, Except.ok.injEq, Prod.mk.injEq] at h
  obtain ⟨rfl, -⟩ := h
  refine ⟨?_, hfrq, rfl⟩
  rcases Nat.eq_zero_or_pos cntfrq with rfl | hpos'
  · rw [Nat.div_zero] at hpos
    exact absurd hpos (by simp)
  · exact hpos'

theorem timerInit_freq {st st' : TimerState} {s s' : IrqState} {timerFreq cntfrq isr : Nat}
    (h : timerInit st s timerFreq cntfrq isr = .ok (st', s')) : st'.timerFreq = cntfrq := by
  unfold timerInit at h
  dsimp only at h
  obtain ⟨_, _, h⟩ := bind_eq_ok.1 h
  obtain ⟨⟨st₁, g₁⟩, hinit, h⟩ := bind_eq_ok.1 h
  obtain ⟨rfl, rfl⟩ := platformTimerInit_ok hinit
  obtain ⟨_, _, h⟩ := bind_eq_ok.1 h
  rw [pure_ok, Except.ok.injEq, Prod.mk.injEq] at h
  obtain ⟨rfl, -⟩ := h
  rfl

/-- `timer_init` returns for every nonzero frequency equal to the 32-bit `CNTFRQ`. -/
theorem timerInit_total (st : TimerState) (s : IrqState) {freq : Nat} (isr : Nat) (hpos : 0 < freq)
    (hfrq : freq < 4294967296) :
    ∃ st' s', timerInit st s freq freq isr = .ok (st', s') ∧ st'.timerFreq = freq := by
  have hsec : 0 < sub64 18446744073709551615 TIMESPEC_MAX_NSEC / freq := by
    rw [sub64_of_le (by decide) (by decide)]
    exact Nat.div_pos (hfrq.le.trans (by decide)) hpos
  obtain ⟨⟨valid, g⟩, htrig⟩ :=
    platformIrqSetTrigger_total s.gic PLATFORM_TIMER_IRQ IRQ_TRIGGER_LEVEL_HIGH
  obtain ⟨g', hen⟩ := gicBitOp_total .enabler writeOneToSet g PLATFORM_TIMER_IRQ
  obtain ⟨⟨r, s'⟩, hreg⟩ := interruptRegisterIsr_total { s with gic := g' } PLATFORM_TIMER_IRQ isr 0
  unfold timerInit platformTimerInit platformIrqEnable
  dsimp only
  rw [decide_eq_true hsec, cassert_true, ok_bind, decide_eq_true rfl, cassert_true, ok_bind, htrig,
    ok_bind]
  dsimp only
  rw [hen, ok_bind, pure_ok, ok_bind]
  dsimp only
  rw [hreg]
  exact ⟨_, _, rfl, rfl⟩

section Conversions

variable {freq : Nat}

theorem timeOf_of_lt (hf : freq < 4294967296) {x : Nat} (hx : x < 9223372036854775808) :
    timeOf freq x = ⟨(x / freq : Nat), (x % freq * NS_PER_S / freq : Nat)⟩ := by
  unfold timeOf
  rw [toInt64_of_lt hx, toInt64_of_lt (by omega), ← Int.ofNat_tdiv, ← Int.ofNat_tmod,
    ← Int.natCast_mul, ← Int.ofNat_tdiv]

theorem timeOf_of_ge (hf : freq < 4294967296) {x : Nat} (hx : 9223372036854775808 ≤ x)
    (hx' : x < 18446744073709551616) :
    timeOf freq x = ⟨-(((18446744073709551616 - x) / freq : Nat) : Int),
      -(((18446744073709551616 - x) % freq * NS_PER_S / freq : Nat) : Int)⟩ := by
  have hneg : toInt64 x = -((18446744073709551616 - x : Nat) : Int) := by
    unfold toInt64
    rw [if_neg (by omega)]
    omega
  unfold timeOf
  rw [hneg, toInt64_of_lt (x := freq) (by omega), Int.neg_tdiv, Int.neg_tmod, Int.neg_mul,
    Int.neg_tdiv, ← Int.ofNat_tdiv, ← Int.ofNat_tmod, ← Int.natCast_mul, ← Int.ofNat_tdiv]

/-- The two members of a converted tick count add up to the rounded-down quotient. -/
theorem split_nanos (freq x : Nat) :
    x / freq * NS_PER_S + x % freq * NS_PER_S / freq = x * NS_PER_S / freq := by
  rcases Nat.eq_zero_or_pos freq with rfl | hpos
  · simp
  · calc x / freq * NS_PER_S + x % freq * NS_PER_S / freq
        = (x % freq * NS_PER_S + freq * (x / freq * NS_PER_S)) / freq := by
          rw [Nat.add_mul_div_left _ _ hpos, Nat.add_comm]
      _ = (freq * (x / freq) + x % freq) * NS_PER_S / freq := by
          rw [Nat.add_mul, Nat.mul_assoc, Nat.add_comm]
      _ = x * NS_PER_S / freq := by rw [Nat.div_add_mod]

theorem split_nsec_lt (hpos : 0 < freq) (x : Nat) : x % freq * NS_PER_S / freq < NS_PER_S := by
  rw [Nat.div_lt_iff_lt_mul hpos, Nat.mul_comm]
  exact Nat.mul_lt_mul_of_pos_left (Nat.mod_lt _ hpos) (by decide)

/-- The ticks of a request are no more than its exact length in ticks, even where the sum wraps. -/
theorem ticksOf_le (ts : TimeSpec) :
    ticksOf freq ts ≤ ts.tvSec.toNat * freq + ts.tvNsec.toNat * freq / NS_PER_S :=
  calc ticksOf freq ts
      ≤ u64 (ts.tvSec.toNat * freq) + u64 (ts.tvNsec.toNat * freq) / NS_PER_S := Nat.mod_le _ _
    _ ≤ _ := Nat.add_le_add (Nat.mod_le _ _) (Nat.div_le_div_right (Nat.mod_le _ _))

/-- A converted part of a request is no longer than the request. -/
theorem part_nanos_le {ts : TimeSpec} {x : Nat} (hx : x ≤ ticksOf freq ts) :
    x * NS_PER_S / freq ≤ ts.tvSec.toNat * NS_PER_S + ts.tvNsec.toNat := by
  have hns : ts.tvNsec.toNat * freq / NS_PER_S * NS_PER_S ≤ ts.tvNsec.toNat * freq :=
    Nat.div_mul_le_self _ _
  refine Nat.div_le_of_le_mul ?_
  calc x * NS_PER_S
      ≤ (ts.tvSec.toNat * freq + ts.tvNsec.toNat * freq / NS_PER_S) * NS_PER_S :=
        Nat.mul_le_mul_right _ (hx.trans (ticksOf_le ts))
    _ ≤ ts.tvSec.toNat * freq * NS_PER_S + ts.tvNsec.toNat * freq := by
        rw [Nat.add_mul]; exact Nat.add_le_add_left hns _
    _ = freq * (ts.tvSec.toNat * NS_PER_S + ts.tvNsec.toNat) := by ring

end Conversions

theorem timespecValid_iff {st : TimerState} {ts : TimeSpec} :
    timespecValid st ts = true ↔ 0 ≤ ts.tvSec ∧ 0 ≤ ts.tvNsec ∧
      ts.tvSec ≤ st.timespecMaxSec ∧ ts.tvNsec ≤ TIMESPEC_MAX_NSEC := by
  simp [timespecValid]

theorem ticksToTimespec_valid {st : TimerState} {x : Nat}
    (h : timespecValid st (timeOf st.timerFreq x) = true) :
    ticksToTimespec st x = .ok (timeOf st.timerFreq x) := by
  unfold ticksToTimespec
  dsimp only
  rw [h, cassert_true, ok_bind, pure_ok]

theorem ticksToTimespec_invalid {st : TimerState} {x : Nat}
    (h : ¬ timespecValid st (timeOf st.timerFreq x) = true) :
    ticksToTimespec st x = .error .assertion := by
  unfold ticksToTimespec
  dsimp only
  rw [Bool.eq_false_iff.2 h, cassert_false, error_bind]

/-! ## The remainder of a sleep -/

/-- The ticks `timer_set_and_wait` converts: what is left of the timeout at the second reading. -/
def ticksLeft (freq : Nat) (req : TimeSpec) (now₁ now₂ : Nat) : Nat :=
  now₁ + ticksOf freq req - now₂

/-- The tick counts `ticks_to_timespec` converts to a time no longer than the request: those below the
sign bit, and the few next to `2^64` that are less than a nanosecond away from it. -/
def Convertible (freq left : Nat) : Prop :=
  left < 9223372036854775808 ∨ (18446744073709551616 - left) * NS_PER_S < freq

instance (freq left : Nat) : Decidable (Convertible freq left) :=
  inferInstanceAs (Decidable (_ ∨ _))

/-- A remainder is sane if it is a valid time between zero and the request. -/
def SaneRemainder (st : TimerState) (req rem : TimeSpec) : Prop :=
  timespecValid st rem = true ∧ 0 ≤ rem.nanos ∧ rem.nanos ≤ req.nanos

section Remainder

variable {st : TimerState} {req : TimeSpec} {left : Nat}

theorem timeOf_sane_of_lt (ha : st.Accepted) (hreq : timespecValid st req = true)
    (hle : left ≤ ticksOf st.timerFreq req) (hlt : left < 9223372036854775808) :
    SaneRemainder st req (timeOf st.timerFreq left) := by
  obtain ⟨hs, hn, hmax, hns⟩ := timespecValid_iff.1 hreq
  have hsplit := split_nanos st.timerFreq left
  have hpart := part_nanos_le hle
  have hnsec := split_nsec_lt ha.freq_pos left
  rw [timeOf_of_lt ha.freq_lt hlt]
  unfold SaneRemainder TimeSpec.nanos
  rw [timespecValid_iff]
  dsimp only
  generalize left / st.timerFreq = sec at *
  generalize left % st.timerFreq * NS_PER_S / st.timerFreq = nsec at *
  unfold TIMESPEC_MAX_NSEC NS_PER_S at *
  -- The nanoseconds of the request are less than a second, so the seconds do not exceed its seconds.
  have hsec : sec ≤ req.tvSec.toNat := by omega
  refine ⟨⟨by omega, by omega, by omega, by omega⟩, by omega, by omega⟩

theorem timeOf_of_near (ha : st.Accepted) (hge : 9223372036854775808 ≤ left)
    (hlt : left < 18446744073709551616)
    (hnear : (18446744073709551616 - left) * NS_PER_S < st.timerFreq) :
    timeOf st.timerFreq left = ⟨0, 0⟩ := by
  have hm : 18446744073709551616 - left < st.timerFreq := by
    unfold NS_PER_S at hnear; omega
  rw [timeOf_of_ge ha.freq_lt hge hlt, Nat.div_eq_of_lt hm, Nat.mod_eq_of_lt hm,
    Nat.div_eq_of_lt hnear]
  rfl

theorem timeOf_invalid_of_far (ha : st.Accepted) (hge : 9223372036854775808 ≤ left)
    (hlt : left < 18446744073709551616)
    (hfar : st.timerFreq ≤ (18446744073709551616 - left) * NS_PER_S) :
    ¬ timespecValid st (timeOf st.timerFreq left) = true := by
  rw [timespecValid_iff, timeOf_of_ge ha.freq_lt hge hlt]
  rintro ⟨hs, hn, -, -⟩
  dsimp only at hs hn
  have hzero : (18446744073709551616 - left) / st.timerFreq = 0 := by
    generalize (18446744073709551616 - left) / st.timerFreq = sec at hs
    omega
  have hm : 18446744073709551616 - left < st.timerFreq := by
    rcases Nat.div_eq_zero_iff.1 hzero with h | h
    · exact absurd h ha.freq_pos.ne'
    · exact h
  rw [Nat.mod_eq_of_lt hm] at hn
  have hpos := Nat.div_pos hfar ha.freq_pos
  generalize (18446744073709551616 - left) * NS_PER_S / st.timerFreq = nsec at hn hpos
  omega

/-- The conversion of what is left of a request asserts, or is sane, and `Convertible` says which. -/
theorem ticksToTimespec_convertible (ha : st.Accepted) (hreq : timespecValid st req = true)
    (hle : left ≤ ticksOf st.timerFreq req) :
    (Convertible st.timerFreq left ∧ ∃ rem, ticksToTimespec st left = .ok rem ∧
        SaneRemainder st req rem) ∨
      (¬ Convertible st.timerFreq left ∧ ticksToTimespec st left = .error .assertion) := by
  have hlt : left < 18446744073709551616 := hle.trans_lt (u64_lt _)
  unfold Convertible
  rcases Nat.lt_or_ge left 9223372036854775808 with hsmall | hbig
  · have hsane := timeOf_sane_of_lt ha hreq hle hsmall
    exact .inl ⟨.inl hsmall, _, ticksToTimespec_valid hsane.1, hsane⟩
  rcases Nat.lt_or_ge ((18446744073709551616 - left) * NS_PER_S) st.timerFreq with hnear | hfar
  · obtain ⟨hs, hn, hmax, hns⟩ := timespecValid_iff.1 hreq
    have htime := timeOf_of_near ha hbig hlt hnear
    have hvalid : timespecValid st (timeOf st.timerFreq left) = true := by
      rw [htime, timespecValid_iff]
      exact ⟨le_refl _, le_refl _, hs.trans hmax, hn.trans hns⟩
    refine .inl ⟨.inr hnear, _, ticksToTimespec_valid hvalid, hvalid, ?_⟩
    rw [htime]
    unfold TimeSpec.nanos NS_PER_S
    dsimp only
    omega
  · exact .inr ⟨by omega, ticksToTimespec_invalid (timeOf_invalid_of_far ha hbig hlt hfar)⟩

end Remainder

/-- A reading of the counter converts, unless it has the sign bit. -/
theorem ticksToTimespec_reading {st : TimerState} (ha : st.Accepted) {x : Nat}
    (hx : x < 18446744073709551616) (hc : Convertible st.timerFreq x) :
    ∃ ts, ticksToTimespec st x = .ok ts := by
  refine ⟨_, ticksToTimespec_valid ?_⟩
  have hmax := ha.maxSec
  rw [utilMin_eq, sub64_of_le (by decide) (by decide)] at hmax
  rw [timespecValid_iff]
  rcases Nat.lt_or_ge x 9223372036854775808 with hsmall | hbig
  · have hnsec := split_nsec_lt ha.freq_pos x
    have hsec : x / st.timerFreq ≤
        min ((18446744073709551615 - TIMESPEC_MAX_NSEC) / st.timerFreq) 9223372036854775807 := by
      refine Nat.le_min.2 ⟨Nat.div_le_div_right (hsmall.le.trans (by decide)), ?_⟩
      exact (Nat.div_le_self _ _).trans (by omega)
    rw [timeOf_of_lt ha.freq_lt hsmall]
    dsimp only
    generalize x / st.timerFreq = sec at *
    generalize x % st.timerFreq * NS_PER_S / st.timerFreq = nsec at *
    refine ⟨by omega, by omega, by omega, ?_⟩
    unfold TIMESPEC_MAX_NSEC
    omega
  · have hnear := hc.resolve_left (by omega)
    rw [timeOf_of_near ha hbig hx hnear]
    exact ⟨le_rfl, le_rfl, by rw [hmax]; exact Int.natCast_nonneg _, by decide⟩

theorem timespecToTicks_ok {st : TimerState} {ts : TimeSpec} (h : timespecValid st ts = true) :
    timespecToTicks st ts = .ok (ticksOf st.timerFreq ts) := by
  unfold timespecToTicks
  rw [h, cassert_true, ok_bind, pure_ok]

/-- The state the remainder is converted in has the statics of the call. -/
theorem timerWake_statics (st : TimerState) (timeout : Nat) (taken : Bool) :
    (timerWake (interruptWait (platformTimerSetTimeout st timeout) taken)).2.timerFreq =
        st.timerFreq ∧
      (timerWake (interruptWait (platformTimerSetTimeout st timeout) taken)).2.timespecMaxSec =
        st.timespecMaxSec := by
  unfold timerWake interruptWait
  split <;> split <;> exact ⟨rfl, rfl⟩

/-- The call did not panic, and what it stored to `*remain`, if it got that far, is sane. -/
def SleepOk (st : TimerState) (req : TimeSpec) : Exec (Int × Option TimeSpec × TimerState) → Prop
  | .ok (_, some rem, _) => SaneRemainder st req rem
  | .ok (_, none, _) => True
  | .error _ => False

/-- The call, for a request `timespec_valid` accepts: it either returns at once, or it ends in the
conversion of what is left. -/
theorem timerSetAndWait_eq {st : TimerState} {req : TimeSpec} (hreq : timespecValid st req = true)
    (now₁ now₂ : Nat) (taken : Bool) :
    timerSetAndWait st true req true now₁ now₂ taken =
      if u64 (ticksOf st.timerFreq req + now₁) ≤ now₁ then .ok (0, none, st)
      else
        let r := timerWake (interruptWait
          (platformTimerSetTimeout st (u64 (ticksOf st.timerFreq req + now₁))) taken)
        timerRemain r.2 (u64 (ticksOf st.timerFreq req + now₁)) now₂ true >>= fun left =>
          .ok (r.1, left, r.2) := by
  unfold timerSetAndWait
  rw [if_neg (by simp [hreq]), timespecToTicks_ok hreq, ok_bind]
  dsimp only
  rw [if_pos rfl]
  split <;> rfl

/-- A timeout that wraps is in the past, and the call returns without waiting. -/
theorem timeout_wraps {t now₁ : Nat} (ht : t < 18446744073709551616)
    (h₁ : now₁ < 18446744073709551616) (hw : 18446744073709551616 ≤ now₁ + t) :
    u64 (t + now₁) ≤ now₁ := by
  unfold u64; omega

/-- The conversion at the end of a wait, in the statics of the call. -/
theorem timerRemain_eq {st st' : TimerState} {timeout now₂ : Nat}
    (hfreq : st'.timerFreq = st.timerFreq) (hmax : st'.timespecMaxSec = st.timespecMaxSec)
    (ht : timeout < 18446744073709551616) :
    timerRemain st' timeout now₂ true =
      ticksToTimespec st (timeout - now₂) >>= fun ts => .ok (some ts) := by
  have hleft : (if timeout > now₂ then sub64 timeout now₂ else 0) = timeout - now₂ := by
    split
    · rw [sub64_of_le (by omega) ht]
    · omega
  have hconv : ticksToTimespec st' = ticksToTimespec st := by
    funext x
    unfold ticksToTimespec timespecValid
    rw [hfreq, hmax]
  unfold timerRemain
  rw [if_pos rfl, hleft, hconv]
  rfl

/-- **When a sleep is safe.** For every frequency `timer_init` accepts, every valid request and all
readings of the counter, the call does not panic and reports a sane remainder exactly if the timeout
wraps or what is left of it at the second reading is convertible. -/
theorem timerSetAndWait_sleepOk_iff {st₀ st₁ st : TimerState} {s s' : IrqState}
    {timerFreq cntfrq isr : Nat} (hfrq : cntfrq < 4294967296)
    (hinit : timerInit st₀ s timerFreq cntfrq isr = .ok (st₁, s'))
    (hfreq : st.timerFreq = st₁.timerFreq) (hmax : st.timespecMaxSec = st₁.timespecMaxSec)
    {req : TimeSpec} (hreq : timespecValid st req = true) {now₁ now₂ : Nat}
    (h₁ : now₁ < 18446744073709551616) (hle : now₁ ≤ now₂) (taken : Bool) :
    SleepOk st req (timerSetAndWait st true req true now₁ now₂ taken) ↔
      18446744073709551616 ≤ now₁ + ticksOf st.timerFreq req ∨
        Convertible st.timerFreq (ticksLeft st.timerFreq req now₁ now₂) := by
  have ha := (timerInit_accepted hfrq hinit).of_statics hfreq hmax
  have htick : ticksOf st.timerFreq req < 18446744073709551616 := u64_lt _
  rw [timerSetAndWait_eq hreq]
  rcases Nat.lt_or_ge (now₁ + ticksOf st.timerFreq req) 18446744073709551616 with hfit | hwrap
  · have hu : u64 (ticksOf st.timerFreq req + now₁) = now₁ + ticksOf st.timerFreq req := by
      rw [Nat.add_comm, u64_of_lt hfit]
    rw [hu]
    by_cases hnow : now₁ + ticksOf st.timerFreq req ≤ now₁
    · rw [if_pos hnow]
      have hzero : ticksLeft st.timerFreq req now₁ now₂ = 0 := by
        unfold ticksLeft; omega
      simp [SleepOk, Convertible, hzero]
    · rw [if_neg hnow]
      dsimp only
      obtain ⟨hwf, hwm⟩ := timerWake_statics st (now₁ + ticksOf st.timerFreq req) taken
      rw [timerRemain_eq hwf hwm hfit]
      have hleft : ticksLeft st.timerFreq req now₁ now₂ ≤ ticksOf st.timerFreq req := by
        unfold ticksLeft; omega
      change SleepOk st req (ticksToTimespec st (ticksLeft st.timerFreq req now₁ now₂) >>= _ >>= _) ↔ _
      rcases ticksToTimespec_convertible ha hreq hleft with ⟨hc, rem, hrem, hsane⟩ | ⟨hc, hfail⟩
      · rw [hrem, ok_bind, ok_bind]
        exact ⟨fun _ => .inr hc, fun _ => hsane⟩
      · rw [hfail, error_bind, error_bind]
        exact ⟨False.elim, fun h => absurd (h.resolve_left (by omega)) hc⟩
  · rw [if_pos (timeout_wraps htick h₁ hwrap)]
    exact ⟨fun _ => .inl hwrap, fun _ => trivial⟩

/-- A state the boot leaves with the 19.2 MHz counter, and what it accepts. -/
theorem timerInit_19200000 :
    ∃ st s', timerInit ⟨0, 0, false, 0, 0⟩ IrqState.reset 19200000 19200000 1 = .ok (st, s') ∧
      st.timerFreq = 19200000 ∧ st.timespecMaxSec = 960767920453 := by
  obtain ⟨st, s', hinit, hfreq⟩ :=
    timerInit_total ⟨0, 0, false, 0, 0⟩ IrqState.reset 1 (show 0 < 19200000 by decide)
      (by decide)
  refine ⟨st, s', hinit, hfreq, ?_⟩
  rw [(timerInit_accepted (by decide) hinit).maxSec, hfreq]
  decide

theorem timerSetAndWait_sleepOk_ten_seconds :
    ∃ st s', timerInit ⟨0, 0, false, 0, 0⟩ IrqState.reset 19200000 19200000 1 = .ok (st, s') ∧
      SleepOk st ⟨10, 0⟩ (timerSetAndWait st true ⟨10, 0⟩ true 1000 76801000 false) := by
  obtain ⟨st, s', hinit, hfreq, hmax⟩ := timerInit_19200000
  have hreq : timespecValid st ⟨10, 0⟩ = true := by
    rw [timespecValid_iff, hmax]; decide
  refine ⟨st, s', hinit, (timerSetAndWait_sleepOk_iff (by decide) hinit rfl rfl hreq (by decide)
    (by decide) false).mpr (.inr (.inl ?_))⟩
  rw [hfreq]
  decide

/-- A request of more than `2^63` ticks, woken at once, panics. -/
theorem not_sleepOk_long_sleep :
    ¬ ∀ (st₀ st : TimerState) (s s' : IrqState) (timerFreq isr : Nat) (req : TimeSpec)
      (now₁ now₂ : Nat) (taken : Bool), timerFreq < 4294967296 →
      timerInit st₀ s timerFreq timerFreq isr = .ok (st, s') → timespecValid st req = true →
      now₁ < 18446744073709551616 → now₂ < 18446744073709551616 → now₁ ≤ now₂ →
      SleepOk st req (timerSetAndWait st true req true now₁ now₂ taken) := by
  intro h
  obtain ⟨st, s', hinit, hfreq, hmax⟩ := timerInit_19200000
  have hreq : timespecValid st ⟨480383960253, 0⟩ = true := by
    rw [timespecValid_iff, hmax]; decide
  have hticks : ticksOf st.timerFreq ⟨480383960253, 0⟩ = 9223372036857600000 := by
    rw [hfreq]; decide
  have hok := h _ st _ s' _ _ _ 0 0 false (by decide) hinit hreq (by decide) (by decide) le_rfl
  rw [timerSetAndWait_eq hreq, hticks, if_neg (by decide)] at hok
  dsimp only at hok
  obtain ⟨hwf, hwm⟩ := timerWake_statics st (u64 (9223372036857600000 + 0)) false
  rw [timerRemain_eq hwf hwm (u64_lt _), ticksToTimespec_invalid] at hok
  · exact hok
  · refine timeOf_invalid_of_far (timerInit_accepted (by decide) hinit) (by decide) (by decide) ?_
    rw [hfreq]
    decide

end GunyahRuntime
