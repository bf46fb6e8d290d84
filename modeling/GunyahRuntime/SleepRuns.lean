/-
# GunyahRuntime.SleepRuns -- runs of sleeps and interrupts (`timer.c`, `interrupt.c`, `syscall.c`)

The runtime takes interrupts in two places: from the application, and inside `interrupt_wait`, with
interrupts masked everywhere else. Between any two of its steps the counter may advance and devices may make
interrupts pending. The timer makes its interrupt pending while it is armed and the counter has reached the
compare value, and so does an application that asserts it.

`SleepSys.step` is one such step. A sleep is not one step but the sequence of `timer_set_and_wait`: read
the counter, arm, wait, dispatch, look at the flag, report; and `PhaseOk` says at each of these places how
the timer got there, in terms of the functions `timerSetAndWait` is made of.
-/
import GunyahRuntime.Sleep
import GunyahRuntime.Irq.Dispatch

namespace GunyahRuntime

/-! ## The system -/

/-- Whether the line of the timer is high: it is enabled and not masked, and the time has come. -/
def TimerState.line (st : TimerState) (counter : Nat) : Bool :=
  st.cntvCtl &&& CNTV_CTL_ENABLE ≠ 0 ∧ st.cntvCtl &&& CNTV_CTL_IMASK = 0 ∧ st.cntvCval ≤ counter

/-- A call of `timer_set_and_wait` that has read the counter. -/
structure SleepCall where
  entry : TimerState
  relative : Bool
  req : TimeSpec
  remain : Bool
  now : Nat
  deriving DecidableEq

/-- Its local `timeout`. -/
def SleepCall.timeout (c : SleepCall) : Nat := timeoutOf c.entry.timerFreq c.relative c.req c.now

/-- When it is meant to return. -/
def SleepCall.deadline (c : SleepCall) : Nat :=
  GunyahRuntime.deadline c.entry.timerFreq c.relative c.req c.now

/-- Who takes interrupts: the vector, on behalf of the application; `sys_ppoll` without a timeout; or a
sleep. -/
inductive Waiter where
  | vector
  | poll
  | sleep (c : SleepCall)
  deriving DecidableEq

/-- Where the runtime is. -/
inductive Pc where
  /-- Outside, with interrupts enabled. -/
  | app
  /-- Before `platform_timer_set_timeout`. -/
  | arm (c : SleepCall)
  /-- In `interrupt_wait`, waiting for an interrupt. -/
  | wait (w : Waiter)
  /-- In the loop of `interrupt_dispatch`. -/
  | dispatch (w : Waiter)
  /-- Returned from it. -/
  | woken (w : Waiter)
  /-- Before `*remain` is written. -/
  | report (c : SleepCall) (ret : Int)
  /-- At the end of `timer_set_and_wait`. -/
  | done (c : SleepCall) (ret : Int) (left : Option TimeSpec)
  deriving DecidableEq

structure SleepSys where
  counter : Nat
  timer : TimerState
  irqs : IrqState
  pc : Pc

inductive SleepOp where
  /-- The counter advances. -/
  | tick (n : Nat)
  /-- A device makes its interrupt pending. -/
  | raise (irq : Nat)
  /-- `IOCTL_ASSERT_IRQ` or `IOCTL_CLEAR_IRQ`. -/
  | ioctlAssert (irq : Nat) (assert : Bool)
  /-- The application is interrupted. -/
  | interrupt
  | ppoll (nfds : Nat) (timeout : Option TimeSpec)
  | nanosleep (clockId flags : Int) (request : TimeSpec) (remain : Bool)
  | arm
  /-- The wait ends; `pending` is what `asm_interrupt_pending` reads. -/
  | wake (pending : Bool)
  /-- A turn of the loop in `interrupt_dispatch`; `handled` is what a handler of the application says. -/
  | acknowledge (irq : Nat) (handled : Bool)
  /-- `platform_irq_acknowledge` returns `VIRQ_INVALID`. -/
  | spurious
  | settle
  | report
  | leave
  deriving DecidableEq

/-- `timer_set_and_wait` up to the timer being armed. -/
def SleepSys.startSleep (s : SleepSys) (relative : Bool) (req : TimeSpec) (remain : Bool) : Pc :=
  let c : SleepCall := ⟨s.timer, relative, req, remain, s.counter⟩
  if ¬ timespecValid s.timer req then .done c (-EINVAL) none
  else if c.timeout ≤ s.counter then .done c 0 none
  else .arm c

def SleepSys.enter (s : SleepSys) : Syscall TimeSpec Bool → SleepSys
  | .ret _ => s
  | .poll => { s with pc := .wait .poll }
  | .sleep relative req remain => { s with pc := s.startSleep relative req remain }

/-- The handlers: `timer_isr`, which is at `isr`, and those of the application, which do not touch the
timer. -/
def runTimerIsr (isr : Nat) (handled : Bool) (entry : IsrEntry) (st : TimerState) : Bool × TimerState :=
  if entry.isr = isr then (true, timerIsr st) else (handled, st)

/-- One step. -/
def SleepSys.step (isr : Nat) (s : SleepSys) : SleepOp → Option SleepSys
  | .tick n =>
    if s.counter + n < 18446744073709551616 then some { s with counter := s.counter + n } else none
  | .raise irq =>
    if irq = PLATFORM_TIMER_IRQ then none
    else (gicBitOp .pendr writeOneToSet s.irqs.gic irq).toOption.map fun gic =>
      { s with irqs := { s.irqs with gic } }
  | .ioctlAssert irq assert =>
    if s.pc = .app then (assertIrq s.irqs irq assert).toOption.map fun r => { s with irqs := r.2 }
    else none
  | .interrupt => if s.pc = .app then some { s with pc := .dispatch .vector } else none
  | .ppoll nfds timeout => if s.pc = .app then some (s.enter (sysPpoll nfds timeout false)) else none
  | .nanosleep clockId flags request remain =>
    if s.pc = .app then some (s.enter (sysClockNanosleep clockId flags request remain false)) else none
  | .arm =>
    match s.pc with
    | .arm c => some { s with timer := platformTimerSetTimeout s.timer c.timeout, pc := .wait (.sleep c) }
    | _ => none
  | .wake pending =>
    match s.pc with
    | .wait w => some { s with pc := if pending then .dispatch w else .woken w }
    | _ => none
  | .acknowledge irq handled =>
    match s.pc with
    | .dispatch _ =>
      if s.irqs.gic.offers (irq = PLATFORM_TIMER_IRQ ∧ s.timer.line s.counter) irq then
        (platformIrqAcknowledge s.irqs.gic irq >>= fun gic =>
          dispatchPass (runTimerIsr isr handled) { s.irqs with gic } s.timer irq).toOption.map fun r =>
            { s with irqs := r.1, timer := r.2 }
      else none
    | _ => none
  | .spurious =>
    match s.pc with
    | .dispatch w => some { s with pc := .woken w }
    | _ => none
  | .settle =>
    match s.pc with
    | .woken (.sleep c) =>
      some { s with timer := (timerWake s.timer).2, pc := .report c (timerWake s.timer).1 }
    | .woken _ => some { s with pc := .app }
    | _ => none
  | .report =>
    match s.pc with
    | .report c ret => (timerRemain s.timer c.timeout s.counter c.remain).toOption.map fun left =>
      { s with pc := .done c ret left }
    | _ => none
  | .leave =>
    match s.pc with
    | .done _ _ _ => some { s with pc := .app }
    | _ => none

/-- The places inside `timer_set_and_wait`, before its return. -/
def Pc.Inside : Pc → Prop
  | .arm _ => True
  | .wait (.sleep _) => True
  | .dispatch (.sleep _) => True
  | .woken (.sleep _) => True
  | .report _ _ => True
  | _ => False

/-- The runs whose steps all meet a condition. -/
inductive SleepSys.Run (isr : Nat) (ok : SleepSys → SleepOp → Prop) (s₀ : SleepSys) : SleepSys → Prop
  | refl : SleepSys.Run isr ok s₀ s₀
  | step {s s' : SleepSys} {op : SleepOp} (hs : SleepSys.Run isr ok s₀ s) (hop : ok s op)
      (h : s.step isr op = some s') : SleepSys.Run isr ok s₀ s'

/-- The timer is disarmed and nothing has fired. -/
structure TimerState.Idle (st : TimerState) : Prop extends st.Accepted where
  disarmed : st.cntvCtl = CNTV_CTL_IMASK
  quiet : st.timerFired = false

/-- The states the application starts in: `timer_isr` handles the timer's interrupt and no other. -/
structure SleepSys.Start (isr : Nat) (s : SleepSys) : Prop where
  app : s.pc = .app
  counter_lt : s.counter < 18446744073709551616
  idle : s.timer.Idle
  owned : ∀ irq entry, regLoad s.irqs.isrTable irq = .ok entry → entry.isr = isr → irq = PLATFORM_TIMER_IRQ
  clear : s.irqs.gic.bit .pendr PLATFORM_TIMER_IRQ = false

/-! ## What is promised -/

/-- A sleep that is over: a valid one has lasted until its deadline, or it was interrupted. -/
def Pc.Punctual (counter : Nat) : Pc → Prop
  | .done c ret _ => timespecValid c.entry c.req = true →
      (ret = 0 ∧ c.deadline ≤ counter) ∨ ret = -EINTR
  | _ => True

/-- **No stale timer event.** -/
structure SleepSys.NoStaleEvent (s : SleepSys) : Prop where
  outside : ¬ s.pc.Inside → s.timer.cntvCtl = CNTV_CTL_IMASK ∧ s.timer.timerFired = false
  punctual : s.pc.Punctual s.counter

/-- A valid sleep has a deadline that fits 64 bits. -/
def Syscall.Fits (s : SleepSys) : Syscall TimeSpec Bool → Prop
  | .sleep relative req _ => timespecValid s.timer req = true →
      deadline s.timer.timerFreq relative req s.counter < 18446744073709551616
  | _ => True

def SleepOp.Fits (s : SleepSys) : SleepOp → Prop
  | .ppoll nfds timeout => (sysPpoll nfds timeout false).Fits s
  | .nanosleep clockId flags request remain => (sysClockNanosleep clockId flags request remain false).Fits s
  | _ => True

/-- A timer interrupt that is taken is one the timer has raised. -/
def SleepOp.Genuine (s : SleepSys) : SleepOp → Prop
  | .acknowledge irq _ => irq = PLATFORM_TIMER_IRQ → s.timer.line s.counter = true
  | _ => True

/-! ## How the timer got there -/

structure SleepCall.Ok (c : SleepCall) (counter : Nat) : Prop where
  idle : c.entry.Idle
  now_le : c.now ≤ counter
  fits : timespecValid c.entry c.req = true → c.deadline < 18446744073709551616

/-- The timer while a call waits: `taken` says whether its interrupt was. -/
structure SleepCall.Waits (c : SleepCall) (counter : Nat) (st : TimerState) (taken : Bool) : Prop where
  valid : timespecValid c.entry c.req = true
  ahead : c.now < c.timeout
  timer : st = interruptWait (platformTimerSetTimeout c.entry c.timeout) taken
  reached : taken = true → c.timeout ≤ counter

/-- The invariant, place by place. At the end of a call it has computed what `timerSetAndWait` does for
some second reading of the counter. -/
def PhaseOk (counter : Nat) (st : TimerState) : Pc → Prop
  | .arm c => c.Ok counter ∧ timespecValid c.entry c.req = true ∧ c.now < c.timeout ∧ st = c.entry
  | .wait (.sleep c) | .dispatch (.sleep c) | .woken (.sleep c) =>
    c.Ok counter ∧ ∃ taken, c.Waits counter st taken
  | .report c ret =>
    c.Ok counter ∧ ∃ st₀ taken, c.Waits counter st₀ taken ∧ timerWake st₀ = (ret, st)
  | .done c ret left =>
    c.Ok counter ∧ st.Idle ∧ ∃ now₂ taken, (taken = true → c.timeout ≤ counter) ∧
      timerSetAndWait c.entry c.relative c.req c.remain c.now now₂ taken = .ok (ret, left, st)
  | _ => st.Idle

/-- `timer_isr` is the handler of the timer's interrupt only. -/
def IrqState.Owned (isr : Nat) (s : IrqState) : Prop :=
  ∀ irq entry, regLoad s.isrTable irq = .ok entry → entry.isr = isr → irq = PLATFORM_TIMER_IRQ

theorem TimerState.line_iff {st : TimerState} {counter : Nat} :
    st.line counter = true ↔ st.cntvCtl &&& CNTV_CTL_ENABLE ≠ 0 ∧ st.cntvCtl &&& CNTV_CTL_IMASK = 0 ∧
      st.cntvCval ≤ counter :=
  decide_eq_true_iff

theorem TimerState.Idle.line_false {st : TimerState} (h : st.Idle) (counter : Nat) :
    st.line counter = false := by
  simp [TimerState.line, h.disarmed, CNTV_CTL_IMASK, CNTV_CTL_ENABLE]

theorem TimerState.Idle.setCval {st : TimerState} (h : st.Idle) (timeout : Nat) :
    TimerState.Idle { st with cntvCval := timeout } :=
  ⟨⟨h.freq_pos, h.freq_lt, h.maxSec⟩, h.disarmed, h.quiet⟩

theorem SleepCall.Ok.mono {c : SleepCall} {n m : Nat} (h : c.Ok n) (hle : n ≤ m) : c.Ok m :=
  ⟨h.idle, h.now_le.trans hle, h.fits⟩

theorem SleepCall.Waits.mono {c : SleepCall} {n m : Nat} {st : TimerState} {taken : Bool}
    (h : c.Waits n st taken) (hle : n ≤ m) : c.Waits m st taken :=
  ⟨h.valid, h.ahead, h.timer, fun ht => (h.reached ht).trans hle⟩

theorem PhaseOk.mono {n m : Nat} {st : TimerState} {pc : Pc} (h : PhaseOk n st pc) (hle : n ≤ m) :
    PhaseOk m st pc := by
  cases pc with
  | app => exact h
  | arm c => exact ⟨h.1.mono hle, h.2⟩
  | wait w | dispatch w | woken w =>
    cases w with
    | vector | poll => exact h
    | sleep c =>
      obtain ⟨hc, taken, hw⟩ := h
      exact ⟨hc.mono hle, taken, hw.mono hle⟩
  | report c ret =>
    obtain ⟨hc, st₀, taken, hw, hwake⟩ := h
    exact ⟨hc.mono hle, st₀, taken, hw.mono hle, hwake⟩
  | done c ret left =>
    obtain ⟨hc, hidle, now₂, taken, ht, hcall⟩ := h
    exact ⟨hc.mono hle, hidle, now₂, taken, fun h => (ht h).trans hle, hcall⟩

/-- The timer interrupt, while a call waits. It cannot be taken twice, for the first disarms the timer. -/
theorem SleepCall.Waits.isr {c : SleepCall} {counter : Nat} {st : TimerState} {taken : Bool}
    (h : c.Waits counter st taken) (hline : st.line counter = true) :
    c.Waits counter (timerIsr st) true := by
  have htimer := h.timer
  rw [htimer, TimerState.line_iff] at hline
  cases taken with
  | true => exact absurd (show CNTV_CTL_IMASK &&& CNTV_CTL_ENABLE = 0 from rfl) hline.1
  | false => exact ⟨h.valid, h.ahead, by rw [htimer]; rfl, fun _ => hline.2.2⟩

/-- The end of a wait. -/
theorem timerWake_interruptWait {e : TimerState} (h : e.Idle) (timeout : Nat) (taken : Bool) :
    timerWake (interruptWait (platformTimerSetTimeout e timeout) taken) =
      (if taken then 0 else -EINTR, { e with cntvCval := timeout }) := by
  have hfields : e = ⟨e.timerFreq, e.timespecMaxSec, false, CNTV_CTL_IMASK, e.cntvCval⟩ := by
    rw [← h.disarmed, ← h.quiet]
  rw [hfields]
  cases taken <;> rfl

/-! ## What a step can do -/

/-- A step, by what it does: where the runtime must be for it, and what it leaves. -/
inductive SleepSys.Does (isr : Nat) (s : SleepSys) : SleepOp → SleepSys → Prop
  | tick {n : Nat} (hfit : s.counter + n < 18446744073709551616) :
      SleepSys.Does isr s (.tick n) { s with counter := s.counter + n }
  | raise {irq : Nat} {gic : Gic} (hne : irq ≠ PLATFORM_TIMER_IRQ)
      (hgic : gicBitOp .pendr writeOneToSet s.irqs.gic irq = .ok gic) :
      SleepSys.Does isr s (.raise irq) { s with irqs := { s.irqs with gic } }
  | ioctlAssert {irq : Nat} {assert : Bool} {r : Int × IrqState} (hpc : s.pc = .app)
      (hr : assertIrq s.irqs irq assert = .ok r) :
      SleepSys.Does isr s (.ioctlAssert irq assert) { s with irqs := r.2 }
  | interrupt (hpc : s.pc = .app) : SleepSys.Does isr s .interrupt { s with pc := .dispatch .vector }
  | ppoll {nfds : Nat} {timeout : Option TimeSpec} (hpc : s.pc = .app) :
      SleepSys.Does isr s (.ppoll nfds timeout) (s.enter (sysPpoll nfds timeout false))
  | nanosleep {clockId flags : Int} {request : TimeSpec} {remain : Bool} (hpc : s.pc = .app) :
      SleepSys.Does isr s (.nanosleep clockId flags request remain)
        (s.enter (sysClockNanosleep clockId flags request remain false))
  | arm {c : SleepCall} (hpc : s.pc = .arm c) :
      SleepSys.Does isr s .arm
        { s with timer := platformTimerSetTimeout s.timer c.timeout, pc := .wait (.sleep c) }
  | wake {w : Waiter} (pending : Bool) (hpc : s.pc = .wait w) :
      SleepSys.Does isr s (.wake pending) { s with pc := if pending then .dispatch w else .woken w }
  | acknowledge {w : Waiter} {irq : Nat} {handled : Bool} {gic : Gic} {irqs : IrqState} {st : TimerState}
      (hpc : s.pc = .dispatch w)
      (hoffer : s.irqs.gic.offers (irq = PLATFORM_TIMER_IRQ ∧ s.timer.line s.counter) irq)
      (hack : platformIrqAcknowledge s.irqs.gic irq = .ok gic)
      (hpass : dispatchPass (runTimerIsr isr handled) { s.irqs with gic } s.timer irq = .ok (irqs, st)) :
      SleepSys.Does isr s (.acknowledge irq handled) { s with irqs, timer := st, pc := .dispatch w }
  | spurious {w : Waiter} (hpc : s.pc = .dispatch w) :
      SleepSys.Does isr s .spurious { s with pc := .woken w }
  | settle {c : SleepCall} (hpc : s.pc = .woken (.sleep c)) :
      SleepSys.Does isr s .settle
        { s with timer := (timerWake s.timer).2, pc := .report c (timerWake s.timer).1 }
  | settleOther {w : Waiter} (hpc : s.pc = .woken w) (hw : ∀ c, w ≠ .sleep c) :
      SleepSys.Does isr s .settle { s with pc := .app }
  | report {c : SleepCall} {ret : Int} {left : Option TimeSpec} (hpc : s.pc = .report c ret)
      (hleft : timerRemain s.timer c.timeout s.counter c.remain = .ok left) :
      SleepSys.Does isr s .report { s with pc := .done c ret left }
  | leave {c : SleepCall} {ret : Int} {left : Option TimeSpec} (hpc : s.pc = .done c ret left) :
      SleepSys.Does isr s .leave { s with pc := .app }

/-- Every step does one of these. -/
theorem SleepSys.step_does {isr : Nat} {s s' : SleepSys} {op : SleepOp} (h : s.step isr op = some s') :
    s.Does isr op s' := by
  cases op with
  | tick n =>
    simp only [SleepSys.step, Option.ite_none_right_eq_some, Option.some.injEq] at h
    obtain ⟨hfit, rfl⟩ := h
    exact .tick hfit
  | raise irq =>
    simp only [SleepSys.step, Option.ite_none_left_eq_some, Option.map_eq_some_iff] at h
    obtain ⟨hne, gic, hgic, rfl⟩ := h
    exact .raise hne (toOption_eq_some.1 hgic)
  | ioctlAssert irq assert =>
    simp only [SleepSys.step, Option.ite_none_right_eq_some, Option.map_eq_some_iff] at h
    obtain ⟨hpc, r, hr, rfl⟩ := h
    exact .ioctlAssert hpc (toOption_eq_some.1 hr)
  | interrupt =>
    simp only [SleepSys.step, Option.ite_none_right_eq_some, Option.some.injEq] at h
    obtain ⟨hpc, rfl⟩ := h
    exact .interrupt hpc
  | ppoll nfds timeout =>
    simp only [SleepSys.step, Option.ite_none_right_eq_some, Option.some.injEq] at h
    obtain ⟨hpc, rfl⟩ := h
    exact .ppoll hpc
  | nanosleep clockId flags request remain =>
    simp only [SleepSys.step, Option.ite_none_right_eq_some, Option.some.injEq] at h
    obtain ⟨hpc, rfl⟩ := h
    exact .nanosleep hpc
  -- the others are the next thing to do at one place, and at the other places there is no step
  | arm =>
    cases hpc : s.pc with
    | arm c => simp only [SleepSys.step, hpc] at h; cases h; exact .arm hpc
    | app | wait | dispatch | woken | report | done => simp [SleepSys.step, hpc] at h
  | wake pending =>
    cases hpc : s.pc with
    | wait w => simp only [SleepSys.step, hpc] at h; cases h; exact .wake pending hpc
    | app | arm | dispatch | woken | report | done => simp [SleepSys.step, hpc] at h
  | acknowledge irq handled =>
    cases hpc : s.pc with
    | dispatch w =>
      simp only [SleepSys.step, hpc, Option.ite_none_right_eq_some, Option.map_eq_some_iff] at h
      obtain ⟨hoffer, ⟨irqs, st⟩, hrun, rfl⟩ := h
      obtain ⟨gic, hack, hpass⟩ := bind_eq_ok.1 (toOption_eq_some.1 hrun)
      exact .acknowledge hpc hoffer hack hpass
    | app | arm | wait | woken | report | done => simp [SleepSys.step, hpc] at h
  | spurious =>
    cases hpc : s.pc with
    | dispatch w => simp only [SleepSys.step, hpc] at h; cases h; exact .spurious hpc
    | app | arm | wait | woken | report | done => simp [SleepSys.step, hpc] at h
  | settle =>
    cases hpc : s.pc with
    | woken w =>
      cases w with
      | sleep c => simp only [SleepSys.step, hpc] at h; cases h; exact .settle hpc
      | vector | poll => simp only [SleepSys.step, hpc] at h; cases h; exact .settleOther hpc nofun
    | app | arm | wait | dispatch | report | done => simp [SleepSys.step, hpc] at h
  | report =>
    cases hpc : s.pc with
    | report c ret =>
      simp only [SleepSys.step, hpc, Option.map_eq_some_iff] at h
      obtain ⟨left, hleft, rfl⟩ := h
      exact .report hpc (toOption_eq_some.1 hleft)
    | app | arm | wait | dispatch | woken | done => simp [SleepSys.step, hpc] at h
  | leave =>
    cases hpc : s.pc with
    | done c ret left => simp only [SleepSys.step, hpc] at h; cases h; exact .leave hpc
    | app | arm | wait | dispatch | woken | report => simp [SleepSys.step, hpc] at h

/-! ## Steps -/

section Step

variable {isr : Nat} {s s' : SleepSys} {op : SleepOp}

/-- A sleep starts on its way to the compare register, or is over. -/
theorem SleepSys.startSleep_phase (hidle : s.timer.Idle) {relative : Bool} {req : TimeSpec} (remain : Bool)
    (hfit : timespecValid s.timer req = true →
      deadline s.timer.timerFreq relative req s.counter < 18446744073709551616) :
    PhaseOk s.counter s.timer (s.startSleep relative req remain) := by
  have hc : SleepCall.Ok ⟨s.timer, relative, req, remain, s.counter⟩ s.counter :=
    ⟨hidle, le_rfl, hfit⟩
  unfold SleepSys.startSleep
  dsimp only
  split
  · next hreq =>
    exact ⟨hc, hidle, 0, false, by simp, timerSetAndWait_invalid hreq _ _ _ _ _⟩
  · next hreq =>
    rw [not_not] at hreq
    split
    · next hnow =>
      refine ⟨hc, hidle, 0, false, by simp, ?_⟩
      rw [timerSetAndWait_split hreq]
      exact if_pos hnow
    · next hnow => exact ⟨hc, hreq, Nat.lt_of_not_le hnow, rfl⟩

theorem SleepSys.enter_kept {s : SleepSys} (howned : s.irqs.Owned isr) (hidle : s.timer.Idle)
    {call : Syscall TimeSpec Bool} (hfit : call.Fits s) :
    (s.enter call).irqs.Owned isr ∧
      (s.pc = .app → PhaseOk (s.enter call).counter (s.enter call).timer (s.enter call).pc) := by
  cases call with
  | ret r =>
    refine ⟨howned, fun hpc => ?_⟩
    show PhaseOk s.counter s.timer s.pc
    rw [hpc]
    exact hidle
  | poll => exact ⟨howned, fun _ => hidle⟩
  | sleep relative req remain => exact ⟨howned, fun _ => startSleep_phase hidle remain hfit⟩

@[simp] theorem SleepSys.enter_irqs (s : SleepSys) (call : Syscall TimeSpec Bool) : (s.enter call).irqs = s.irqs := by
  cases call <;> rfl

/-- A turn of the loop in `interrupt_dispatch` leaves the timer alone, or is `timer_isr`'s. -/
theorem dispatchPass_timer (howned : s.irqs.Owned isr) {gic : Gic} {irq : Nat} {handled : Bool}
    {irqs : IrqState} {st : TimerState}
    (h : dispatchPass (runTimerIsr isr handled) { s.irqs with gic } s.timer irq = .ok (irqs, st)) :
    irqs.Owned isr ∧ (st = s.timer ∨ (irq = PLATFORM_TIMER_IRQ ∧ st = timerIsr s.timer)) := by
  obtain ⟨htable, -, entry, hload, rfl⟩ := dispatchPass_spec h
  refine ⟨fun irq entry hirq => howned irq entry (by rwa [htable] at hirq), ?_⟩
  by_cases hisr : entry.isr = isr
  · by_cases hz : entry.isr = 0
    · exact .inl (if_pos hz)
    · right
      refine ⟨howned _ _ hload hisr, ?_⟩
      rw [if_neg hz, runTimerIsr, if_pos hisr]
  · left
    rw [runTimerIsr, if_neg hisr]
    exact ite_self _

/-- A turn, whoever waits. -/
theorem PhaseOk.acknowledge {counter : Nat} {st st' : TimerState} {w : Waiter} {irq : Nat}
    (h : PhaseOk counter st (.dispatch w))
    (hgenuine : irq = PLATFORM_TIMER_IRQ → st.line counter = true)
    (hst : st' = st ∨ (irq = PLATFORM_TIMER_IRQ ∧ st' = timerIsr st)) :
    PhaseOk counter st' (.dispatch w) := by
  rcases hst with rfl | ⟨hirq, rfl⟩
  · exact h
  · have hline := hgenuine hirq
    cases w with
    | vector | poll =>
      rw [TimerState.Idle.line_false h] at hline
      cases hline
    | sleep c =>
      obtain ⟨hc, taken, hw⟩ := h
      exact ⟨hc, true, hw.isr hline⟩

/-- The end of a call is the end of `timerSetAndWait`. -/
theorem PhaseOk.report {counter : Nat} {st : TimerState} {c : SleepCall} {ret : Int}
    {left : Option TimeSpec} (h : PhaseOk counter st (.report c ret))
    (hleft : timerRemain st c.timeout counter c.remain = .ok left) :
    PhaseOk counter st (.done c ret left) := by
  obtain ⟨hc, st₀, taken, hw, hwake⟩ := h
  rw [hw.timer] at hwake
  have hst : st = { c.entry with cntvCval := c.timeout } := by
    rw [timerWake_interruptWait hc.idle, Prod.mk.injEq] at hwake
    exact hwake.2.symm
  refine ⟨hc, hst ▸ hc.idle.setCval _, counter, taken, hw.reached, ?_⟩
  rw [timerSetAndWait_split hw.valid]
  refine (if_neg (Nat.not_le.2 hw.ahead)).trans ?_
  change timerWaitUntil c.entry c.timeout c.remain counter taken = _
  unfold timerWaitUntil
  rw [hwake]
  dsimp only
  rw [hleft, ok_bind, pure_ok]

/-- **One step** keeps the invariant. -/
theorem SleepSys.step_phase (howned : s.irqs.Owned isr) (hphase : PhaseOk s.counter s.timer s.pc)
    (hfits : op.Fits s) (hgenuine : op.Genuine s) (h : s.step isr op = some s') :
    s'.irqs.Owned isr ∧ PhaseOk s'.counter s'.timer s'.pc := by
  cases step_does h with
  | tick hfit => exact ⟨howned, hphase.mono (Nat.le_add_right _ _)⟩
  | raise hne hgic => exact ⟨howned, hphase⟩
  | ioctlAssert hpc hr =>
    refine ⟨?_, hphase⟩
    rcases assertIrq_cases hr with heq | ⟨gic, heq, -⟩ <;>
    · dsimp only
      rw [heq]
      exact howned
  | interrupt hpc =>
    rw [hpc] at hphase
    exact ⟨howned, hphase⟩
  | ppoll hpc | nanosleep hpc =>
    rw [hpc] at hphase
    exact (enter_kept howned hphase hfits).imp_right fun h => h hpc
  | arm hpc =>
    rw [hpc] at hphase
    obtain ⟨hc, hreq, hahead, htimer⟩ := hphase
    exact ⟨howned, hc, false, hreq, hahead, by rw [htimer]; rfl, nofun⟩
  | @wake w pending hpc =>
    rw [hpc] at hphase
    refine ⟨howned, ?_⟩
    cases pending <;> cases w <;> exact hphase
  | acknowledge hpc hoffer hack hpass =>
    rw [hpc] at hphase
    obtain ⟨howned', hst⟩ := dispatchPass_timer howned hpass
    exact ⟨howned', hphase.acknowledge hgenuine hst⟩
  | @spurious w hpc =>
    rw [hpc] at hphase
    exact ⟨howned, by cases w <;> exact hphase⟩
  | settle hpc =>
    rw [hpc] at hphase
    obtain ⟨hc, taken, hw⟩ := hphase
    exact ⟨howned, hc, _, taken, hw, rfl⟩
  | @settleOther w hpc hw =>
    rw [hpc] at hphase
    cases w with
    | vector | poll => exact ⟨howned, hphase⟩
    | sleep c => exact absurd rfl (hw c)
  | report hpc hleft =>
    rw [hpc] at hphase
    exact ⟨howned, hphase.report hleft⟩
  | leave hpc =>
    rw [hpc] at hphase
    exact ⟨howned, hphase.2.1⟩

end Step

/-- What the invariant says of a sleep that is over. -/
theorem PhaseOk.punctual {counter : Nat} {st : TimerState} {pc : Pc} (h : PhaseOk counter st pc) :
    pc.Punctual counter := by
  cases pc with
  | app | arm | wait | dispatch | woken | report => trivial
  | done c ret left =>
    obtain ⟨hc, -, now₂, taken, htaken, hcall⟩ := h
    intro hreq
    have htimeout : c.timeout = c.deadline := timeoutOf_eq hc.idle.toAccepted hreq (hc.fits hreq)
    rw [timerSetAndWait_split hreq] at hcall
    change (if c.timeout ≤ c.now then _ else timerWaitUntil c.entry c.timeout c.remain now₂ taken) = _
      at hcall
    split at hcall
    · next hnow =>
      -- the deadline had passed when the call read the counter
      obtain ⟨rfl, -⟩ := Prod.mk.inj (Except.ok.inj hcall)
      exact .inl ⟨rfl, htimeout ▸ hnow.trans hc.now_le⟩
    · unfold timerWaitUntil at hcall
      rw [timerWake_interruptWait hc.idle] at hcall
      obtain ⟨left', -, hcall⟩ := bind_eq_ok.1 hcall
      obtain ⟨rfl, -⟩ := Prod.mk.inj (Except.ok.inj hcall)
      cases taken with
      | true => exact .inl ⟨rfl, htimeout ▸ htaken rfl⟩
      | false => exact .inr rfl

theorem PhaseOk.outside {counter : Nat} {st : TimerState} {pc : Pc} (h : PhaseOk counter st pc)
    (hpc : ¬ pc.Inside) : st.Idle := by
  cases pc with
  | app => exact h
  | arm c | report c ret => exact absurd trivial hpc
  | wait w | dispatch w | woken w =>
    cases w with
    | vector | poll => exact h
    | sleep c => exact absurd trivial hpc
  | done c ret left => exact h.2.1

/-- **A whole run** keeps the invariant. -/
theorem SleepSys.Run.phase {isr : Nat} {s₀ s : SleepSys} (hstart : s₀.Start isr)
    (hrun : SleepSys.Run isr (fun s op => op.Fits s ∧ op.Genuine s) s₀ s) :
    s.irqs.Owned isr ∧ PhaseOk s.counter s.timer s.pc := by
  induction hrun with
  | refl =>
    refine ⟨hstart.owned, ?_⟩
    rw [hstart.app]
    exact hstart.idle
  | step _ hop h ih => exact SleepSys.step_phase ih.1 ih.2 hop.1 hop.2 h

/-! ## Without a software-raised timer interrupt -/

/-- The interrupt of the timer is not asserted. -/
def SleepOp.LeavesTimerIrq : SleepOp → Prop
  | .ioctlAssert irq assert => ¬ (irq = PLATFORM_TIMER_IRQ ∧ assert = true)
  | _ => True

/-- Then its pending bit stays clear. -/
theorem SleepSys.step_clear {isr : Nat} {s s' : SleepSys} {op : SleepOp}
    (hclear : s.irqs.gic.bit .pendr PLATFORM_TIMER_IRQ = false) (hop : op.LeavesTimerIrq)
    (h : s.step isr op = some s') : s'.irqs.gic.bit .pendr PLATFORM_TIMER_IRQ = false := by
  cases step_does h with
  | raise hne hgic => exact (gicBitOp_bit_of_ne bitView_set hgic _ hne.symm).trans hclear
  | @ioctlAssert irq assert r hpc hr =>
    rcases assertIrq_cases hr with heq | ⟨gic, heq, hgic⟩ <;> dsimp only <;> rw [heq]
    · exact hclear
    · cases assert with
      | true =>
        have hne : PLATFORM_TIMER_IRQ ≠ irq := fun heq => hop ⟨heq.symm, rfl⟩
        exact (gicBitOp_bit_of_ne bitView_set hgic _ hne).trans hclear
      | false => exact gicBitOp_clear_bit hgic hclear
  | ppoll hpc | nanosleep hpc =>
    rw [SleepSys.enter_irqs]
    exact hclear
  | acknowledge hpc hoffer hack hpass =>
    dsimp only
    rw [(dispatchPass_spec hpass).2.1]
    exact gicBitOp_clear_bit hack hclear
  | tick | interrupt | arm | wake | spurious | settle | settleOther | report | leave => exact hclear

/-- Runs that leave the timer's interrupt alone take it only when the timer has raised it. -/
theorem SleepSys.Run.genuine {isr : Nat} {s₀ s : SleepSys} (hstart : s₀.Start isr)
    (hrun : SleepSys.Run isr (fun s op => op.Fits s ∧ op.LeavesTimerIrq) s₀ s) :
    SleepSys.Run isr (fun s op => op.Fits s ∧ op.Genuine s) s₀ s ∧
      s.irqs.gic.bit .pendr PLATFORM_TIMER_IRQ = false := by
  induction hrun with
  | refl => exact ⟨.refl, hstart.clear⟩
  | @step s s' op _ hop h ih =>
    obtain ⟨hrun, hclear⟩ := ih
    refine ⟨.step hrun ⟨hop.1, ?_⟩ h, step_clear hclear hop.2 h⟩
    cases step_does h with
    | acknowledge hpc hoffer hack hpass =>
      -- it is offered, and not on account of its bit
      rintro rfl
      simp [Gic.offers, hclear] at hoffer
      exact hoffer.2
    | tick | raise | ioctlAssert | interrupt | ppoll | nanosleep | arm | wake | spurious | settle
    | settleOther | report | leave => trivial

/-- **No stale timer event.** In every run that takes the timer's interrupt only when the timer has raised
it, in particular in every run that never asserts it, the timer is disarmed and nothing has fired outside
`timer_set_and_wait`, and a sleep returns after its deadline or is interrupted. -/
theorem SleepSys.Start.no_stale_event {isr : Nat} {s₀ : SleepSys} (hstart : s₀.Start isr) :
    (∀ s, SleepSys.Run isr (fun s op => op.Fits s ∧ op.Genuine s) s₀ s → s.NoStaleEvent) ∧
      ∀ s, SleepSys.Run isr (fun s op => op.Fits s ∧ op.LeavesTimerIrq) s₀ s → s.NoStaleEvent := by
  have hrun : ∀ s, SleepSys.Run isr (fun s op => op.Fits s ∧ op.Genuine s) s₀ s → s.NoStaleEvent := by
    intro s hrun
    obtain ⟨-, hphase⟩ := hrun.phase hstart
    exact ⟨fun hpc => ⟨(hphase.outside hpc).disarmed, (hphase.outside hpc).quiet⟩, hphase.punctual⟩
  exact ⟨hrun, fun s h => hrun s (h.genuine hstart).1⟩

/-! ## Boot -/

/-- What `timer_init` leaves, on empty tables, is a start. -/
theorem timerInit_start {st st' : TimerState} {irqs irqs' : IrqState} {timerFreq cntfrq isr : Nat}
    (hfrq : cntfrq < 4294967296) (hisr : isr ≠ 0) (hquiet : st.timerFired = false)
    (hempty : ∀ irq entry, regLoad irqs.isrTable irq = .ok entry → entry.isr = 0)
    (hclear : irqs.gic.bit .pendr PLATFORM_TIMER_IRQ = false)
    (h : timerInit st irqs timerFreq cntfrq isr = .ok (st', irqs')) :
    SleepSys.Start isr ⟨0, st', irqs', .app⟩ := by
  have haccepted := timerInit_accepted hfrq h
  unfold timerInit at h
  dsimp only at h
  obtain ⟨-, -, h⟩ := bind_eq_ok.1 h
  obtain ⟨⟨st₁, g₁⟩, hinit, h⟩ := bind_eq_ok.1 h
  obtain ⟨⟨r, irqs₁⟩, hreg, h⟩ := bind_eq_ok.1 h
  obtain ⟨rfl, rfl⟩ := Prod.mk.inj (Except.ok.inj h)
  obtain ⟨-, rfl⟩ := platformTimerInit_ok hinit
  have hpendr : g₁.bit .pendr PLATFORM_TIMER_IRQ = false := by
    obtain ⟨-, -, hinit⟩ := bind_eq_ok.1 hinit
    obtain ⟨⟨valid, g₂⟩, htrigger, hinit⟩ := bind_eq_ok.1 hinit
    obtain ⟨g₃, henable, hinit⟩ := bind_eq_ok.1 hinit
    obtain ⟨-, rfl⟩ := Prod.mk.inj (Except.ok.inj hinit)
    rw [gicBitOp_bit_other (by decide) henable, platformIrqSetTrigger_pendr htrigger, hclear]
  refine ⟨rfl, show 0 < 18446744073709551616 by decide, ⟨haccepted, rfl, hquiet⟩, fun irq entry hload heq => ?_, ?_⟩ <;>
    dsimp only at *
  · rcases interruptRegisterIsr_cases hreg with rfl | ⟨table, hstore, rfl⟩
    · exact absurd (heq.symm.trans (hempty _ _ hload)) hisr
    · by_contra hne
      exact hisr (heq.symm.trans (hempty _ _ (regLoad_store hstore hload hne)))
  · rcases interruptRegisterIsr_cases hreg with rfl | ⟨table, hstore, rfl⟩ <;> exact hpendr

/-- A start with the 19.2 MHz counter. -/
theorem exists_sleepStart : ∃ s : SleepSys, s.Start 4096 ∧
    timerInit ⟨0, 0, false, 0, 0⟩ IrqState.reset 19200000 19200000 4096 = .ok (s.timer, s.irqs) ∧
    s.pc = .app ∧ s.counter = 0 ∧ s.timer.timerFreq = 19200000 := by
  obtain ⟨st, irqs, hinit, hfreq⟩ := timerInit_total ⟨0, 0, false, 0, 0⟩ IrqState.reset 4096
    (show 0 < 19200000 by decide) (by decide)
  refine ⟨⟨0, st, irqs, .app⟩, timerInit_start (by decide) (by decide) rfl ?_ (by decide) hinit, hinit,
    rfl, rfl, hfreq⟩
  intro irq entry hload
  unfold regLoad IrqState.reset at hload
  split at hload
  · obtain rfl := Except.ok.inj hload
    simp
  · cases hload

/-- The steps of a list. -/
def SleepSys.steps (isr : Nat) (s : SleepSys) (ops : List SleepOp) : Option SleepSys :=
  ops.foldlM (SleepSys.step isr) s

theorem SleepSys.Run.steps {isr : Nat} {ok : SleepSys → SleepOp → Prop} {s₀ s s' : SleepSys}
    {ops : List SleepOp} (hrun : SleepSys.Run isr ok s₀ s) (hok : ∀ op ∈ ops, ∀ s, ok s op)
    (h : s.steps isr ops = some s') : SleepSys.Run isr ok s₀ s' := by
  induction ops generalizing s with
  | nil =>
    obtain rfl := Option.some.inj h
    exact hrun
  | cons op ops ih =>
    obtain ⟨s₁, hstep, h⟩ := Option.bind_eq_some_iff.1 h
    exact ih (.step hrun (hok op (by simp) s) hstep) (fun op hop => hok op (by simp [hop])) h

/-- A sleep of a second, from the start, and what becomes of the system. -/
theorem SleepSys.Run.sleepSecond {isr : Nat} {ok : SleepOp → Prop} {s₀ s s' : SleepSys}
    {ops : List SleepOp} (hrun : SleepSys.Run isr (fun s op => op.Fits s ∧ ok op) s₀ s)
    (hfreq : s.timer.timerFreq = 19200000) (hcounter : s.counter = 0)
    (hok : ∀ op ∈ SleepOp.ppoll 0 (some ⟨1, 0⟩) :: ops, ok op) (hfits : ∀ op ∈ ops, ∀ s, op.Fits s)
    (h : s.steps isr (.ppoll 0 (some ⟨1, 0⟩) :: ops) = some s') :
    SleepSys.Run isr (fun s op => op.Fits s ∧ ok op) s₀ s' := by
  obtain ⟨s₁, hstep, h⟩ := Option.bind_eq_some_iff.1 h
  refine .steps (.step hrun ⟨?_, hok _ (by simp)⟩ hstep)
    (fun op hop s => ⟨hfits op hop s, hok op (by simp [hop])⟩) h
  intro _
  rw [hfreq, hcounter]
  decide

/-- A sleep of a second that lasts a second. -/
theorem no_stale_event_second : ∃ s₀ s : SleepSys, s₀.Start 4096 ∧
    (∃ c, s.pc = .done c 0 none ∧ c.deadline = 19200000 ∧ s.counter = 19200000) ∧ s.NoStaleEvent := by
  obtain ⟨⟨counter, timer, irqs, pc⟩, hstart, hinit, rfl, rfl, hfreq⟩ := exists_sleepStart
  have hvalues : ((timerInit ⟨0, 0, false, 0, 0⟩ IrqState.reset 19200000 19200000 4096).toOption.bind
      fun r => (SleepSys.steps 4096 ⟨0, r.1, r.2, .app⟩ [.ppoll 0 (some ⟨1, 0⟩), .arm, .tick 19200000,
        .wake true, .acknowledge 27 true, .spurious, .settle, .report]).map fun s => (s.pc, s.counter)) =
      some (.done ⟨⟨19200000, 960767920453, false, 2, 0⟩, true, ⟨1, 0⟩, false, 0⟩ 0 none, 19200000) := by
    decide +kernel
  rw [hinit] at hvalues
  obtain ⟨s, hsteps, hvalues⟩ := Option.map_eq_some_iff.1 hvalues
  obtain ⟨hpc, hcounter⟩ := Prod.mk.inj hvalues
  refine ⟨_, s, hstart, ⟨_, hpc, by decide, hcounter⟩, hstart.no_stale_event.2 s ?_⟩
  refine .sleepSecond .refl hfreq rfl ?_ ?_ hsteps <;>
    simp [SleepOp.Fits, SleepOp.LeavesTimerIrq]

/-- The application asserts the timer's interrupt and takes it. The flag stays set, and the next sleep of a
second, although it is woken at once and nothing has fired, returns 0 with the timer armed. -/
theorem stale_event_asserted : ∃ s₀ s₁ s₂ : SleepSys, s₀.Start 4096 ∧
    SleepSys.Run 4096 (fun s op => op.Fits s ∧ True) s₀ s₁ ∧
    s₁.pc = .app ∧ s₁.timer.timerFired = true ∧ ¬ s₁.NoStaleEvent ∧
    SleepSys.Run 4096 (fun s op => op.Fits s ∧ True) s₀ s₂ ∧
    (∃ c, s₂.pc = .done c 0 none ∧ timespecValid c.entry c.req = true ∧ c.deadline = 19200000 ∧
      s₂.counter = 0 ∧ s₂.timer.cntvCtl = CNTV_CTL_ENABLE) ∧ ¬ s₂.NoStaleEvent := by
  obtain ⟨⟨counter, timer, irqs, pc⟩, hstart, hinit, rfl, rfl, hfreq⟩ := exists_sleepStart
  have hvalues : ((timerInit ⟨0, 0, false, 0, 0⟩ IrqState.reset 19200000 19200000 4096).toOption.bind
      fun r => (SleepSys.steps 4096 ⟨0, r.1, r.2, .app⟩ [.ioctlAssert 27 true, .interrupt,
        .acknowledge 27 true, .spurious, .settle]).bind fun s => (SleepSys.steps 4096 s
          [.ppoll 0 (some ⟨1, 0⟩), .arm, .wake false, .settle, .report]).map fun s' =>
            (s.pc, s.counter, s.timer, s'.pc, s'.counter, s'.timer.cntvCtl)) =
      some (.app, 0, ⟨19200000, 960767920453, true, 2, 0⟩,
        .done ⟨⟨19200000, 960767920453, true, 2, 0⟩, true, ⟨1, 0⟩, false, 0⟩ 0 none, 0,
        CNTV_CTL_ENABLE) := by
    decide +kernel
  rw [hinit] at hvalues
  obtain ⟨r, hr, hvalues⟩ := Option.bind_eq_some_iff.1 hvalues
  obtain rfl := Option.some.inj hr
  obtain ⟨s₁, hsteps₁, hvalues⟩ := Option.bind_eq_some_iff.1 hvalues
  obtain ⟨s₂, hsteps₂, hvalues⟩ := Option.map_eq_some_iff.1 hvalues
  simp only [Prod.mk.injEq] at hvalues
  obtain ⟨hpc₁, hcounter₁, htimer₁, hpc₂, hcounter₂, hctl₂⟩ := hvalues
  have hrun₁ : SleepSys.Run 4096 (fun s op => op.Fits s ∧ True) ⟨0, timer, irqs, .app⟩ s₁ := by
    refine .steps .refl ?_ hsteps₁
    simp [SleepOp.Fits]
  refine ⟨_, s₁, s₂, hstart, hrun₁, hpc₁, by rw [htimer₁], fun hno => ?_, ?_,
    ⟨_, hpc₂, by decide, by decide, hcounter₂, hctl₂⟩, fun hno => ?_⟩
  · have hquiet := (hno.outside (by rw [hpc₁]; exact id)).2
    rw [htimer₁] at hquiet
    cases hquiet
  · refine hrun₁.sleepSecond (by rw [htimer₁]) hcounter₁ ?_ ?_ hsteps₂ <;> simp [SleepOp.Fits]
  · have hdisarmed := (hno.outside (by rw [hpc₂]; exact id)).1
    rw [hctl₂] at hdisarmed
    cases hdisarmed

end GunyahRuntime
