/-
# GunyahRuntime.Irq.DispatchLoop -- the whole loop of `interrupt_dispatch`

`Irq.Dispatch` has one turn of the loop, for handlers that leave the table of handlers alone. Here is the loop,
for handlers that may do anything: register and deregister handlers, enable and disable interrupts, and
change a state of their own. What the acknowledge register presents, read by read, is given. The state records
what `interrupt_dispatch` itself does, in order.

The record of one turn is a `Turn`, and `Turn.Accounted` is what a turn owes the interrupt controller.
-/
import GunyahRuntime.Irq.Dispatch

namespace GunyahRuntime

/-- What `interrupt_dispatch` does, apart from what its handlers do. -/
inductive DispatchEvent where
  | acknowledge (irq : Nat)
  | call (irq : Nat) (entry : IsrEntry)
  | disable (irq : Nat)
  | deactivate (irq : Nat)
  deriving DecidableEq

structure DispatchState (σ : Type) where
  irqs : IrqState
  /-- What the handlers keep. -/
  user : σ
  trace : List DispatchEvent

/-- What a handler, called with its interrupt and its data, does and answers. -/
abbrev Handler (σ : Type) : Type := IsrEntry → Nat → IrqState × σ → Bool × IrqState × σ

section Model

variable {σ : Type}

def DispatchState.log (s : DispatchState σ) (e : DispatchEvent) : DispatchState σ :=
  { s with trace := s.trace ++ [e] }

def VIRQ_INVALID : Nat := 4294967295

/-- What `platform_irq_acknowledge` returns for the value of the register. -/
def acknowledgedId (iar : BitVec 64) : Nat := if iar.toNat < GIC_SPI_END then iar.toNat else VIRQ_INVALID

/-- `platform_irq_disable(irq)`. -/
def disableIrq (s : DispatchState σ) (irq : Nat) : Exec (DispatchState σ) := do
  let gic ← platformIrqDisable s.irqs.gic irq
  return { s with irqs.gic := gic }.log (.disable irq)

/-- `platform_irq_deactivate(irq)`. -/
def deactivateIrq (s : DispatchState σ) (irq : Nat) : Exec (DispatchState σ) := do
  platformIrqDeactivate irq
  return s.log (.deactivate irq)

/-- `i->isr(irq, i->data)`. -/
def callIsr (handler : Handler σ) (s : DispatchState σ) (irq : Nat) (entry : IsrEntry) :
    Bool × DispatchState σ :=
  let r := handler entry irq (s.irqs, s.user)
  (r.1, { irqs := r.2.1, user := r.2.2, trace := s.trace ++ [.call irq entry] })

/-- What follows the call, `handled` and the state coming from it. -/
def finishIsr (r : Bool × DispatchState σ) (irq : Nat) : Exec (DispatchState σ) := do
  -- a level that nobody has handled would come again at once
  let s ← if r.1 then .ok r.2 else disableIrq r.2 irq
  deactivateIrq s irq

/-- The body of the loop, for an acknowledged interrupt. -/
def dispatchTurn (handler : Handler σ) (s : DispatchState σ) (irq : Nat) : Exec (DispatchState σ) := do
  let gic ← platformIrqAcknowledge s.irqs.gic irq
  let s := { s with irqs.gic := gic }.log (.acknowledge irq)
  let entry ← regLoad s.irqs.isrTable irq
  if entry.isr = 0 then
    let s ← disableIrq s irq
    deactivateIrq s irq
  else
    finishIsr (callIsr handler s irq entry) irq

/-- `interrupt_dispatch()`, for the values that the acknowledge register presents. What is left of them when it
returns is the second part of the result. -/
def interruptDispatch (handler : Handler σ) : List (BitVec 64) → DispatchState σ →
    Exec (DispatchState σ × List (BitVec 64))
  | [], s => .ok (s, [])
  | iar :: iars, s =>
    if acknowledgedId iar = VIRQ_INVALID then .ok (s, iars)
    else do
      let s ← dispatchTurn handler s (acknowledgedId iar)
      interruptDispatch handler iars s

end Model

/-! ## One turn -/

/-- A turn: the interrupt, what was registered for it, what the handler answered, and what was done. -/
structure Turn where
  irq : Nat
  entry : IsrEntry
  handled : Bool
  events : List DispatchEvent

/-- What a turn owes: it acknowledges its interrupt and no other, calls what is registered for it and nothing
else, disables it if there is no handler or the handler says no, and deactivates it, once and last. -/
structure Turn.Accounted (t : Turn) : Prop where
  first : t.events.head? = some (.acknowledge t.irq)
  acknowledges : ∀ irq, t.events.count (.acknowledge irq) = if t.irq = irq then 1 else 0
  calls : ∀ irq entry, t.events.count (.call irq entry) =
    if t.irq = irq ∧ t.entry = entry ∧ t.entry.isr ≠ 0 then 1 else 0
  disables : ∀ irq, t.events.count (.disable irq) =
    if t.irq = irq ∧ (t.entry.isr = 0 ∨ t.handled = false) then 1 else 0
  deactivates : ∀ irq, t.events.count (.deactivate irq) = if t.irq = irq then 1 else 0
  last : t.events.getLast? = some (.deactivate t.irq)

/-- The events of a turn, in order. -/
def turnEvents (irq : Nat) (entry : IsrEntry) (handled : Bool) : List DispatchEvent :=
  if entry.isr = 0 then [.acknowledge irq, .disable irq, .deactivate irq]
  else if handled then [.acknowledge irq, .call irq entry, .deactivate irq]
  else [.acknowledge irq, .call irq entry, .disable irq, .deactivate irq]

theorem turnEvents_accounted (irq : Nat) (entry : IsrEntry) (handled : Bool) :
    Turn.Accounted ⟨irq, entry, handled, turnEvents irq entry handled⟩ := by
  unfold turnEvents
  constructor <;> by_cases h : entry.isr = 0 <;> cases handled <;>
    simp [h, List.count_cons]

section Loop

variable {σ : Type}

/-- What a turn found when it began: the entry is the one registered at that moment, and the answer is that of
its handler. -/
structure Turn.Begins (t : Turn) (handler : Handler σ) (s : DispatchState σ) : Prop where
  registered : regLoad s.irqs.isrTable t.irq = .ok t.entry
  answer : ∃ gic, platformIrqAcknowledge s.irqs.gic t.irq = .ok gic ∧
    (t.entry.isr ≠ 0 → t.handled = (handler t.entry t.irq (⟨s.irqs.isrTable, gic⟩, s.user)).1)

theorem disableIrq_spec (s : DispatchState σ) (irq : Nat) :
    ∃ s', disableIrq s irq = .ok s' ∧ s'.trace = s.trace ++ [.disable irq] := by
  obtain ⟨gic, hgic⟩ := gicBitOp_total .enabler writeOneToClear s.irqs.gic irq
  exact ⟨_, by rw [disableIrq, platformIrqDisable, hgic, ok_bind, pure_ok], rfl⟩

theorem deactivateIrq_spec (s : DispatchState σ) {irq : Nat} (h : irq < GIC_SPI_END) :
    deactivateIrq s irq = .ok (s.log (.deactivate irq)) := by
  rw [deactivateIrq, platformIrqDeactivate, decide_eq_true h, cassert_true, ok_bind, pure_ok]

theorem finishIsr_spec (r : Bool × DispatchState σ) {irq : Nat} (h : irq < GIC_SPI_END) :
    ∃ s', finishIsr r irq = .ok s' ∧
      s'.trace = r.2.trace ++ if r.1 then [.deactivate irq] else [.disable irq, .deactivate irq] := by
  obtain ⟨handled, s⟩ := r
  unfold finishIsr
  cases handled with
  | true => exact ⟨_, deactivateIrq_spec s h, rfl⟩
  | false =>
    obtain ⟨s₁, h₁, htrace₁⟩ := disableIrq_spec s irq
    refine ⟨s₁.log (.deactivate irq), ?_, by simp [DispatchState.log, htrace₁]⟩
    simp only [Bool.false_eq_true, if_false]
    rw [h₁, ok_bind, deactivateIrq_spec _ h]

/-- A turn indexes the table in bounds, and does what it owes. -/
theorem dispatchTurn_spec (handler : Handler σ) (s : DispatchState σ) {irq : Nat} (h : irq < GIC_SPI_END) :
    ∃ (s' : DispatchState σ) (t : Turn), dispatchTurn handler s irq = .ok s' ∧ t.irq = irq ∧ t.Accounted ∧ t.Begins handler s ∧
      s'.trace = s.trace ++ t.events := by
  obtain ⟨gic, hgic⟩ := gicBitOp_total .pendr writeOneToClear s.irqs.gic irq
  have hlt : irq < PLATFORM_NUM_IRQS := h
  have hload := regLoad_ok s.irqs.isrTable hlt
  unfold dispatchTurn platformIrqAcknowledge
  rw [hgic, ok_bind]
  dsimp only [DispatchState.log]
  rw [hload, ok_bind]
  generalize s.irqs.isrTable[irq] = entry at hload
  by_cases hz : entry.isr = 0
  · obtain ⟨s₁, h₁, htrace₁⟩ := disableIrq_spec
      ⟨⟨s.irqs.isrTable, gic⟩, s.user, s.trace ++ [.acknowledge irq]⟩ irq
    rw [if_pos hz, h₁, ok_bind, deactivateIrq_spec _ h]
    refine ⟨_, ⟨irq, entry, false, turnEvents irq entry false⟩, rfl, rfl, turnEvents_accounted _ _ _,
      ⟨hload, gic, hgic, fun hne => absurd hz hne⟩, ?_⟩
    simp [DispatchState.log, htrace₁, turnEvents, hz]
  · rw [if_neg hz]
    obtain ⟨s', hrun, htrace⟩ := finishIsr_spec
      (callIsr handler ⟨⟨s.irqs.isrTable, gic⟩, s.user, s.trace ++ [.acknowledge irq]⟩ irq entry) h
    let handled := (handler entry irq (⟨s.irqs.isrTable, gic⟩, s.user)).1
    refine ⟨s', ⟨irq, entry, handled, turnEvents irq entry handled⟩, hrun, rfl,
      turnEvents_accounted irq entry handled, ⟨hload, gic, hgic, fun _ => rfl⟩, ?_⟩
    rw [htrace, turnEvents, if_neg hz]
    dsimp only [callIsr]
    split <;> simp [*]

/-- An identifier that the loop takes: below the special ones. -/
def ValidIar (iar : BitVec 64) : Bool := iar.toNat < GIC_SPI_END

theorem interruptDispatch_valid (handler : Handler σ) {iar : BitVec 64} (h : ValidIar iar = true)
    (iars : List (BitVec 64)) (s : DispatchState σ) :
    interruptDispatch handler (iar :: iars) s =
      dispatchTurn handler s iar.toNat >>= fun s => interruptDispatch handler iars s := by
  have hlt : iar.toNat < GIC_SPI_END := of_decide_eq_true h
  have hid : acknowledgedId iar = iar.toNat := if_pos hlt
  have hne : acknowledgedId iar ≠ VIRQ_INVALID := by
    rw [hid]
    unfold VIRQ_INVALID GIC_SPI_END at *
    omega
  rw [interruptDispatch, if_neg hne, hid]

theorem interruptDispatch_invalid (handler : Handler σ) {iar : BitVec 64} (h : ¬ ValidIar iar = true)
    (iars : List (BitVec 64)) (s : DispatchState σ) :
    interruptDispatch handler (iar :: iars) s = .ok (s, iars) := by
  have hlt : ¬ iar.toNat < GIC_SPI_END := fun hlt => h (decide_eq_true hlt)
  have hid : acknowledgedId iar = VIRQ_INVALID := if_neg hlt
  rw [interruptDispatch, if_pos hid]

/-- **Every acknowledged interrupt is accounted for.** Whatever the table holds, the register presents and the
handlers do, the loop returns without leaving the table; its turns are for the identifiers before the first
invalid one, and it stops at that; each turn found what it calls in the table that the turns before it left;
and what it did is what its turns did, one after the other. -/
theorem interruptDispatch_accounts (handler : Handler σ) (iars : List (BitVec 64)) (s : DispatchState σ) :
    ∃ (s' : DispatchState σ) (turns : List Turn),
      interruptDispatch handler iars s = .ok (s', iars.drop (turns.length + 1)) ∧
      turns.map Turn.irq = (iars.takeWhile ValidIar).map BitVec.toNat ∧
      s'.trace = s.trace ++ turns.flatMap Turn.events ∧
      (∀ t ∈ turns, t.Accounted) ∧
      ∀ k, (hk : k < turns.length) → ∃ before : DispatchState σ,
        interruptDispatch handler (iars.take k) s = .ok (before, []) ∧
        before.trace = s.trace ++ (turns.take k).flatMap Turn.events ∧ turns[k].Begins handler before := by
  induction iars generalizing s with
  | nil => exact ⟨s, [], rfl, rfl, by simp, by simp, by simp⟩
  | cons iar iars ih =>
    by_cases hvalid : ValidIar iar = true
    · obtain ⟨s₁, t, hturn, hirq, haccounted, hbegins, htrace⟩ :=
        dispatchTurn_spec handler s (of_decide_eq_true hvalid)
      obtain ⟨s', turns, hrun, hids, htraces, hall, hbefore⟩ := ih s₁
      refine ⟨s', t :: turns, ?_, ?_, ?_, ?_, ?_⟩
      · rw [interruptDispatch_valid handler hvalid, hturn, ok_bind, hrun, List.length_cons, List.drop_succ_cons]
      · rw [List.map_cons, hirq, hids, List.takeWhile_cons_of_pos hvalid, List.map_cons]
      · rw [htraces, htrace, List.flatMap_cons, List.append_assoc]
      · exact List.forall_mem_cons.2 ⟨haccounted, hall⟩
      · intro k hk
        cases k with
        | zero => exact ⟨s, rfl, by simp, hbegins⟩
        | succ k =>
          obtain ⟨before, hto, htracek, hbeginsk⟩ := hbefore k (Nat.lt_of_succ_lt_succ hk)
          refine ⟨before, ?_, ?_, hbeginsk⟩
          · rw [List.take_succ_cons, interruptDispatch_valid handler hvalid, hturn, ok_bind, hto]
          · rw [htracek, htrace, List.take_succ_cons, List.flatMap_cons, List.append_assoc]
    · refine ⟨s, [], interruptDispatch_invalid handler hvalid iars s, ?_, by simp, by simp, by simp⟩
      rw [List.takeWhile_cons_of_neg hvalid]
      rfl

end Loop

end GunyahRuntime
