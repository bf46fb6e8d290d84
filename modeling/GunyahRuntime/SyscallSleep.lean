/-
# GunyahRuntime.SyscallSleep -- sleeping through the dispatch loop (`timer.c`, `interrupt.c`, `syscall.c`)

`timerSetAndWait` has one bit for everything that happens while it waits: whether the interrupt of the timer was
taken. Here the wait is the real one, the loop over whatever the controller presents, with handlers of the
application that may change the table of handlers while it runs. The bit turns out to be whether the loop has called
`timer_isr`, however often and whatever else it called; `timerSetAndWait_refines` says that it is all that a
sleep depends on.
-/
import GunyahRuntime.Syscall

namespace GunyahRuntime

/-- The event is a call of the handler at `isr`. -/
def DispatchEvent.callsIsr (isr : Nat) : DispatchEvent → Bool
  | .call _ entry => entry.isr = isr
  | _ => false

/-- What a stretch of the loop does to the timer: it runs `timer_isr` if that is among the handlers it calls. -/
def RunsTimer (isr : Nat) (s s' : DispatchState TimerState) : Prop :=
  ∃ events, s'.trace = s.trace ++ events ∧
    s'.user = interruptWait s.user (events.any (DispatchEvent.callsIsr isr))

section Dispatch

variable {isr : Nat} {s s' s'' : DispatchState TimerState}

/-- Twice is the same as once. -/
theorem interruptWait_twice (st : TimerState) (taken taken' : Bool) :
    interruptWait (interruptWait st taken) taken' = interruptWait st (taken || taken') := by
  cases taken <;> cases taken' <;> rfl

theorem RunsTimer.refl (isr : Nat) (s : DispatchState TimerState) : RunsTimer isr s s := ⟨[], by simp, rfl⟩

theorem RunsTimer.trans (h : RunsTimer isr s s') (h' : RunsTimer isr s' s'') : RunsTimer isr s s'' := by
  obtain ⟨events, htrace, huser⟩ := h
  obtain ⟨events', htrace', huser'⟩ := h'
  refine ⟨events ++ events', by rw [htrace', htrace, List.append_assoc], ?_⟩
  rw [huser', huser, interruptWait_twice, List.any_append]

theorem disableIrq_timer {irq : Nat} (h : disableIrq s irq = .ok s') : RunsTimer isr s s' := by
  obtain ⟨gic, -, h⟩ := bind_eq_ok.1 h
  obtain rfl := Except.ok.inj h
  exact ⟨[.disable irq], rfl, rfl⟩

theorem deactivateIrq_timer {irq : Nat} (h : deactivateIrq s irq = .ok s') : RunsTimer isr s s' := by
  obtain ⟨_, -, h⟩ := bind_eq_ok.1 h
  obtain rfl := Except.ok.inj h
  exact ⟨[.deactivate irq], rfl, rfl⟩

theorem finishIsr_timer {irq : Nat} {r : Bool × DispatchState TimerState} (h : finishIsr r irq = .ok s') :
    RunsTimer isr r.2 s' := by
  unfold finishIsr at h
  split at h
  · exact deactivateIrq_timer h
  · obtain ⟨s₁, hdisable, h⟩ := bind_eq_ok.1 h
    exact (disableIrq_timer hdisable).trans (deactivateIrq_timer h)

end Dispatch

section Wait

variable {env : Env} {c : Call} {rt : Runtime}

theorem callIsr_timer (s : DispatchState TimerState) (irq : Nat) (entry : IsrEntry) :
    RunsTimer env.timerIsr s (callIsr (Runtime.callHandler env c) s irq entry).2 := by
  refine ⟨[.call irq entry], rfl, ?_⟩
  unfold callIsr Runtime.callHandler
  by_cases htimer : entry.isr = env.timerIsr
  · rw [if_pos htimer]
    simp [DispatchEvent.callsIsr, htimer, interruptWait]
  · rw [if_neg htimer]
    simp [DispatchEvent.callsIsr, htimer, interruptWait]

/-- One turn: `timer_isr` runs if it is what is registered for the interrupt. -/
theorem dispatchTurn_timer {s s' : DispatchState TimerState} {irq : Nat}
    (h : dispatchTurn (Runtime.callHandler env c) s irq = .ok s') : RunsTimer env.timerIsr s s' := by
  obtain ⟨gic, -, h⟩ := bind_eq_ok.1 h
  have hack : RunsTimer env.timerIsr s ({ s with irqs.gic := gic }.log (.acknowledge irq)) :=
    ⟨[.acknowledge irq], rfl, rfl⟩
  obtain ⟨entry, -, h⟩ := bind_eq_ok.1 h
  refine hack.trans ?_
  split at h
  · obtain ⟨s₁, hdisable, h⟩ := bind_eq_ok.1 h
    exact (disableIrq_timer hdisable).trans (deactivateIrq_timer h)
  · exact (callIsr_timer _ irq entry).trans (finishIsr_timer h)

/-- The loop returns, and runs `timer_isr` if it is among what it calls. -/
theorem interruptDispatch_timer (iars : List (BitVec 64)) (s : DispatchState TimerState) :
    ∃ s' rest, interruptDispatch (Runtime.callHandler env c) iars s = .ok (s', rest) ∧
      RunsTimer env.timerIsr s s' := by
  induction iars generalizing s with
  | nil => exact ⟨s, [], rfl, .refl _ _⟩
  | cons iar iars ih =>
    by_cases hvalid : ValidIar iar = true
    · obtain ⟨s₁, t, hturn, -⟩ :=
        dispatchTurn_spec (Runtime.callHandler env c) s (show iar.toNat < GIC_SPI_END from of_decide_eq_true hvalid)
      obtain ⟨s', rest, hrun, htimer⟩ := ih s₁
      refine ⟨s', rest, ?_, (dispatchTurn_timer hturn).trans htimer⟩
      rw [interruptDispatch_valid _ hvalid, hturn, ok_bind, hrun]
    · exact ⟨s, iars, interruptDispatch_invalid _ hvalid iars s, .refl _ _⟩

/-- What the loop does in a wait. -/
def Runtime.dispatched (env : Env) (c : Call) (rt : Runtime) : List DispatchEvent :=
  match interruptDispatch (Runtime.callHandler env c) c.iars ⟨rt.irqs, rt.tty.timer, []⟩ with
  | .ok r => r.1.trace
  | .error _ => []

/-- Whether `timer_isr` runs in a wait. -/
def Runtime.timerTaken (env : Env) (c : Call) (rt : Runtime) : Bool :=
  c.pending && (rt.dispatched env c).any (DispatchEvent.callsIsr env.timerIsr)

/-- **A wait returns**, and does to the timer what `timerTaken` says. -/
theorem interruptWait_timer (env : Env) (c : Call) (rt : Runtime) :
    ∃ irqs, rt.interruptWait env c =
      .ok { rt.setTimer (interruptWait rt.tty.timer (rt.timerTaken env c)) with irqs } := by
  obtain ⟨s', rest, hrun, events, htrace, huser⟩ :=
    @interruptDispatch_timer env c c.iars ⟨rt.irqs, rt.tty.timer, []⟩
  unfold Runtime.interruptWait Runtime.timerTaken Runtime.dispatched
  rw [hrun]
  cases c.pending with
  | false => exact ⟨rt.irqs, rfl⟩
  | true =>
    refine ⟨s'.irqs, ?_⟩
    dsimp only at htrace huser ⊢
    rw [if_pos rfl, ok_bind]
    dsimp only
    rw [huser, htrace]
    rfl

end Wait

/-! ## The sleep -/

section Sleep

variable {env : Env} {c : Call} {rt : Runtime} {a : Answer}

/-- The state in which a sleep waits. -/
def Runtime.armed (rt : Runtime) (timeout : Nat) : Runtime :=
  rt.setTimer (platformTimerSetTimeout rt.tty.timer timeout)

/-- The ways out of `timer_set_and_wait`. -/
theorem timerSetAndWait_cases {relative : Bool} {req remain : Nat}
    (h : rt.timerSetAndWait env c relative req remain = .ok a) :
    ∃ ts, timespecAt c.mem req = .ok ts ∧
      ((timespecValid rt.tty.timer ts = false ∧ a = ⟨-EINVAL, [], rt⟩) ∨
        timespecValid rt.tty.timer ts = true ∧
          ((timeoutOf rt.tty.timer.timerFreq relative ts (rt.currentTicks env).1 ≤ (rt.currentTicks env).1 ∧
              a = ⟨0, [], (rt.currentTicks env).2⟩) ∨
            (rt.currentTicks env).1 < timeoutOf rt.tty.timer.timerFreq relative ts (rt.currentTicks env).1 ∧
              (rt.currentTicks env).2.sleepUntil env c remain
                (timeoutOf rt.tty.timer.timerFreq relative ts (rt.currentTicks env).1) = .ok a)) := by
  obtain ⟨ts, hts, h⟩ := bind_eq_ok.1 h
  refine ⟨ts, hts, ?_⟩
  by_cases hvalid : timespecValid rt.tty.timer ts = true
  · right
    rw [if_neg (by simp [hvalid]), timespecToTicks_ok hvalid, ok_bind] at h
    refine ⟨hvalid, ?_⟩
    change (if timeoutOf rt.tty.timer.timerFreq relative ts (rt.currentTicks env).1 ≤ (rt.currentTicks env).1 then _
      else _) = _ at h
    split at h
    · next hle => exact .inl ⟨hle, (Except.ok.inj h).symm⟩
    · next hlt => exact .inr ⟨Nat.lt_of_not_le hlt, h⟩
  · left
    rw [if_pos hvalid] at h
    exact ⟨Bool.eq_false_iff.2 hvalid, (Except.ok.inj h).symm⟩

/-- What a sleep shows: what it returns, what it stores and the timer it leaves. -/
def Answer.slept (a : Answer) : Int × List Store × TimerState := (a.ret, a.stores, a.rt.tty.timer)

/-- The same of the abstract sleep, where what is left goes to `remain`. -/
def sleptTo (remain : Nat) (r : Int × Option TimeSpec × TimerState) : Int × List Store × TimerState :=
  (r.1, r.2.1.toList.map (Store.timespec remain), r.2.2)

theorem map_bind_pure {α β γ : Type} (f : α → β) (g : β → γ) (x : Exec α) :
    g <$> (x >>= fun a => pure (f a)) = (fun a => g (f a)) <$> x := by
  cases x <;> rfl

/-- What is stored is what the abstract sleep reports. -/
theorem storeRemain_refines {remain timeout : Nat} (ret : Int)
    (hwritable : remain ≠ 0 → c.mem.writable remain 16 = .ok ()) :
    Answer.slept <$> rt.storeRemain env c remain timeout ret =
      (fun left => sleptTo remain (ret, left, rt.tty.timer)) <$>
        timerRemain rt.tty.timer timeout (rt.currentTicks env).1 (remain ≠ 0) := by
  unfold Runtime.storeRemain timerRemain
  by_cases hnull : remain = 0
  · rw [if_pos hnull, if_neg (by simpa using hnull)]
    rfl
  · rw [if_neg hnull, if_pos (by simpa using hnull), hwritable hnull]
    dsimp only
    cases ticksToTimespec rt.tty.timer
      (if timeout > (rt.currentTicks env).1 then sub64 timeout (rt.currentTicks env).1 else 0) <;> rfl

/-- The end of the wait, with the memory and the counter of the abstract one. -/
theorem sleepUntil_refines {remain timeout : Nat} (hwritable : remain ≠ 0 → c.mem.writable remain 16 = .ok ()) :
    Answer.slept <$> rt.sleepUntil env c remain timeout =
      sleptTo remain <$> timerWaitUntil rt.tty.timer timeout (remain ≠ 0) (env.clock rt.tty.reads)
        ((rt.armed timeout).timerTaken env c) := by
  obtain ⟨irqs, hwait⟩ := interruptWait_timer env c (rt.armed timeout)
  unfold Runtime.sleepUntil
  unfold Runtime.armed at hwait ⊢
  rw [hwait, ok_bind]
  refine (storeRemain_refines _ hwritable).trans ?_
  unfold timerWaitUntil
  dsimp only [Runtime.currentTicks, Runtime.setTimer]
  exact (map_bind_pure _ _ _).symm

/-- **A sleep depends on the wait only through `timerTaken`.** Whatever interrupts are presented and whatever the
handlers of the application do, what `timer_set_and_wait` returns, stores and leaves in the timer, or the assertion it
fails, is what it does in a wait that takes the interrupt of the timer just if the loop has called `timer_isr`. -/
theorem timerSetAndWait_refines {relative : Bool} {req remain : Nat} {ts : TimeSpec}
    (hts : timespecAt c.mem req = .ok ts) (hwritable : remain ≠ 0 → c.mem.writable remain 16 = .ok ()) :
    Answer.slept <$> rt.timerSetAndWait env c relative req remain =
      sleptTo remain <$> timerSetAndWait rt.tty.timer relative ts (remain ≠ 0) (env.clock rt.tty.reads)
        (env.clock (rt.tty.reads + 1))
        (((rt.currentTicks env).2.armed
          (timeoutOf rt.tty.timer.timerFreq relative ts (env.clock rt.tty.reads))).timerTaken env c) := by
  unfold Runtime.timerSetAndWait
  rw [hts, ok_bind]
  by_cases hvalid : timespecValid rt.tty.timer ts = true
  · rw [timerSetAndWait_split hvalid, if_neg (by simp [hvalid]), timespecToTicks_ok hvalid, ok_bind]
    change Answer.slept <$> (if timeoutOf rt.tty.timer.timerFreq relative ts (env.clock rt.tty.reads) ≤
      env.clock rt.tty.reads then _ else _) = _
    split
    · rfl
    · exact @sleepUntil_refines env c (rt.currentTicks env).2 remain
        (timeoutOf rt.tty.timer.timerFreq relative ts (env.clock rt.tty.reads)) hwritable
  · rw [timerSetAndWait_invalid hvalid, if_pos hvalid]
    rfl

end Sleep

/-- Ten seconds, and room for what is left of them. -/
def tenSeconds : AppMem := pageAt (10 :: List.replicate 31 0) (by decide)

/-- The image with `timer_isr` as the handler of the timer's interrupt. -/
def timedRuntime : Runtime :=
  { idleRuntime with irqs := ⟨IrqState.reset.isrTable.set 27 ⟨4096, 0⟩, IrqState.reset.gic⟩ }

/-- A sleep that an interrupt without a handler and then the timer's interrupt end. -/
def timedSleep : Call :=
  { Call.plain 115 (.replicate _ 0) tenSeconds with
    pending := true
    iars := [40, 27, 1023] }

/-- A sleep of ten seconds in which the loop handles two interrupts, the second of them by `timer_isr`. -/
theorem timerSetAndWait_refines_tenSeconds :
    Answer.slept <$> timedRuntime.timerSetAndWait stillEnv timedSleep true 4096 4112 =
      sleptTo 4112 <$> timerSetAndWait timedRuntime.tty.timer true ⟨10, 0⟩ true 0 0 true := by
  have htaken : ((timedRuntime.currentTicks stillEnv).2.armed
      (timeoutOf timedRuntime.tty.timer.timerFreq true ⟨10, 0⟩ 0)).timerTaken stillEnv timedSleep = true := by
    decide +kernel
  have hrefines := @timerSetAndWait_refines stillEnv timedSleep timedRuntime true 4096 4112 ⟨10, 0⟩ (by decide)
    (fun _ => by decide)
  change _ = sleptTo 4112 <$> timerSetAndWait timedRuntime.tty.timer true ⟨10, 0⟩ true 0 0
    (((timedRuntime.currentTicks stillEnv).2.armed
      (timeoutOf timedRuntime.tty.timer.timerFreq true ⟨10, 0⟩ 0)).timerTaken stillEnv timedSleep) at hrefines
  rw [htaken] at hrefines
  exact hrefines

end GunyahRuntime
