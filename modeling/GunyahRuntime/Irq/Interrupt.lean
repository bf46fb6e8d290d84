/-
# GunyahRuntime.Irq.Interrupt -- the ISR table and the irq device (`interrupt.c`)

The application reaches the table of interrupt handlers through seven ioctls of the irq device. The
table is a vector of `PLATFORM_NUM_IRQS` entries and indexing it is checked, so that a request whose
number the code does not bound shows as a fault.

The device is not safe: `update_irq` and `assert_irq` ask `have_isr` before anything bounds the number.
`runSafe_iff` says for every run from every state exactly which runs stay inside the table.
-/
import GunyahRuntime.Irq.Gic

namespace GunyahRuntime

/-- `PLATFORM_NUM_IRQS` (`build.conf`). -/
def PLATFORM_NUM_IRQS : Nat := 1020

/-- `struct isr_entry`: two pointers, zero for `NULL`. -/
structure IsrEntry where
  isr : Nat
  data : Nat
  deriving DecidableEq

/-- `isr_table` and the interrupt controller. -/
structure IrqState where
  isrTable : Vector IsrEntry PLATFORM_NUM_IRQS
  gic : Gic

/-- `have_isr(irq)`. -/
def haveIsr (s : IrqState) (irq : Nat) : Exec Bool := do
  let entry ← regLoad s.isrTable irq
  return entry.isr ≠ 0

/-- `isr_table[irq] = entry`. -/
def setIsr (s : IrqState) (irq : Nat) (entry : IsrEntry) : Exec IrqState := do
  let isrTable ← regStore s.isrTable irq fun _ => entry
  return { s with isrTable }

/-- `interrupt_register_isr(irq, isr, data)`. -/
def interruptRegisterIsr (s : IrqState) (irq isr data : Nat) : Exec (Int × IrqState) :=
  if irq ≥ PLATFORM_NUM_IRQS then
    .ok (-EINVAL, s)
  else do
    if ← haveIsr s irq then
      return (-EBUSY, s)
    else
      let s ← setIsr s irq ⟨isr, data⟩
      return (0, s)

/-- `interrupt_deregister_isr(irq)`. -/
def interruptDeregisterIsr (s : IrqState) (irq : Nat) : Exec (Int × IrqState) :=
  if irq ≥ PLATFORM_NUM_IRQS then
    .ok (-EINVAL, s)
  else do
    if ← haveIsr s irq then
      let s ← setIsr s irq ⟨0, 0⟩
      return (0, s)
    else
      return (-ENOENT, s)

/-- The shape `update_irq` and `assert_irq` share: `have_isr`, with no bound on the number before it,
then one of two operations of the controller. -/
def gatedIrqOp (on off : Gic → Nat → Exec Gic) (s : IrqState) (irq : Nat) (flag : Bool) :
    Exec (Int × IrqState) := do
  if ← haveIsr s irq then
    let gic ← if flag then on s.gic irq else off s.gic irq
    return (0, { s with gic })
  else
    return (-ENOENT, s)

/-- `update_irq(irq, enable)`. -/
def updateIrq : IrqState → Nat → Bool → Exec (Int × IrqState) :=
  gatedIrqOp platformIrqEnable platformIrqDisable

/-- `assert_irq(irq, assert)`. -/
def assertIrq : IrqState → Nat → Bool → Exec (Int × IrqState) :=
  gatedIrqOp platformIrqAssert platformIrqClear

/-! ## The ioctl -/

/-- `IOW(a, b, c)` (`sys/ioctl.h`), with the size of `c`. -/
def IOW (magic nr size : Nat) : Nat := (1 <<< 30) ||| (magic <<< 8) ||| nr ||| (size <<< 16)

def IRQ_MAGIC : Nat := 0x49

def IOCTL_ENABLE_IRQ : Nat := IOW IRQ_MAGIC 0 4
def IOCTL_DISABLE_IRQ : Nat := IOW IRQ_MAGIC 1 4
def IOCTL_REGISTER_ISR : Nat := IOW IRQ_MAGIC 2 24
def IOCTL_SET_IRQ_TRIGGER : Nat := IOW IRQ_MAGIC 3 8
def IOCTL_DEREGISTER_ISR : Nat := IOW IRQ_MAGIC 4 4
def IOCTL_ASSERT_IRQ : Nat := IOW IRQ_MAGIC 5 4
def IOCTL_CLEAR_IRQ : Nat := IOW IRQ_MAGIC 6 4

/-- One call of the irq device: the command, and what the argument holds in that command's layout
(`virq_t`, `struct register_isr_req` or `struct irq_set_trigger_req`). -/
structure IrqRequest where
  cmd : Nat
  irq : Nat
  isr : Nat
  data : Nat
  trigger : Int

/-- `interrupt_ioctl(cmd, arg)`. -/
def interruptIoctl (s : IrqState) (q : IrqRequest) : Exec (Int × IrqState) :=
  if q.cmd = IOCTL_ENABLE_IRQ then updateIrq s q.irq true
  else if q.cmd = IOCTL_DISABLE_IRQ then updateIrq s q.irq false
  else if q.cmd = IOCTL_ASSERT_IRQ then assertIrq s q.irq true
  else if q.cmd = IOCTL_CLEAR_IRQ then assertIrq s q.irq false
  else if q.cmd = IOCTL_REGISTER_ISR then interruptRegisterIsr s q.irq q.isr q.data
  else if q.cmd = IOCTL_DEREGISTER_ISR then interruptDeregisterIsr s q.irq
  else if q.cmd = IOCTL_SET_IRQ_TRIGGER then do
    let (valid, gic) ← platformIrqSetTrigger s.gic q.irq q.trigger
    return (if valid then 0 else -EINVAL, { s with gic })
  else
    .ok (-ENOSYS, s)

/-! ## Inside the table -/

/-- The four commands that reach `have_isr` before any bound on the number. -/
def IrqRequest.Gated (q : IrqRequest) : Prop :=
  q.cmd = IOCTL_ENABLE_IRQ ∨ q.cmd = IOCTL_DISABLE_IRQ ∨
    q.cmd = IOCTL_ASSERT_IRQ ∨ q.cmd = IOCTL_CLEAR_IRQ

instance (q : IrqRequest) : Decidable q.Gated :=
  inferInstanceAs (Decidable (_ ∨ _ ∨ _ ∨ _))

theorem haveIsr_ok (s : IrqState) {irq : Nat} (h : irq < PLATFORM_NUM_IRQS) :
    ∃ b, haveIsr s irq = .ok b :=
  bind_total ⟨_, regLoad_ok _ h⟩ fun _ => ⟨_, rfl⟩

theorem haveIsr_outside (s : IrqState) {irq : Nat} (h : PLATFORM_NUM_IRQS ≤ irq) :
    haveIsr s irq = .error .badRead := by
  rw [haveIsr, regLoad, dif_neg (by omega), error_bind]

theorem setIsr_ok (s : IrqState) {irq : Nat} (h : irq < PLATFORM_NUM_IRQS) (entry : IsrEntry) :
    ∃ s', setIsr s irq entry = .ok s' :=
  bind_total ⟨_, regStore_ok _ _ h⟩ fun _ => ⟨_, rfl⟩

theorem interruptRegisterIsr_total (s : IrqState) (irq isr data : Nat) :
    ∃ r, interruptRegisterIsr s irq isr data = .ok r := by
  unfold interruptRegisterIsr
  split
  · exact ⟨_, rfl⟩
  · refine bind_total (haveIsr_ok s (by omega)) fun b => ?_
    cases b
    · exact bind_total (setIsr_ok s (by omega) _) fun _ => ⟨_, rfl⟩
    · exact ⟨_, rfl⟩

theorem interruptDeregisterIsr_total (s : IrqState) (irq : Nat) :
    ∃ r, interruptDeregisterIsr s irq = .ok r := by
  unfold interruptDeregisterIsr
  split
  · exact ⟨_, rfl⟩
  · refine bind_total (haveIsr_ok s (by omega)) fun b => ?_
    cases b
    · exact ⟨_, rfl⟩
    · exact bind_total (setIsr_ok s (by omega) _) fun _ => ⟨_, rfl⟩

/-- Within the table the gated operations are total. -/
theorem gatedIrqOp_total {on off : Gic → Nat → Exec Gic} (hon : ∀ g irq, ∃ g', on g irq = .ok g')
    (hoff : ∀ g irq, ∃ g', off g irq = .ok g') (s : IrqState) {irq : Nat}
    (h : irq < PLATFORM_NUM_IRQS) (flag : Bool) :
    ∃ r, gatedIrqOp on off s irq flag = .ok r := by
  refine bind_total (haveIsr_ok s h) fun b => ?_
  cases b
  · exact ⟨_, rfl⟩
  · cases flag
    · exact bind_total (hoff _ _) fun _ => ⟨_, rfl⟩
    · exact bind_total (hon _ _) fun _ => ⟨_, rfl⟩

/-- Past the table they read outside it. -/
theorem gatedIrqOp_outside (on off : Gic → Nat → Exec Gic) (s : IrqState) {irq : Nat}
    (h : PLATFORM_NUM_IRQS ≤ irq) (flag : Bool) :
    gatedIrqOp on off s irq flag = .error .badRead := by
  rw [gatedIrqOp, haveIsr_outside s h, error_bind]

theorem updateIrq_total (s : IrqState) {irq : Nat} (h : irq < PLATFORM_NUM_IRQS) (enable : Bool) :
    ∃ r, updateIrq s irq enable = .ok r :=
  gatedIrqOp_total (gicBitOp_total _ _) (gicBitOp_total _ _) s h enable

theorem assertIrq_total (s : IrqState) {irq : Nat} (h : irq < PLATFORM_NUM_IRQS) (assert : Bool) :
    ∃ r, assertIrq s irq assert = .ok r :=
  gatedIrqOp_total (gicBitOp_total _ _) (gicBitOp_total _ _) s h assert

/-! ## One request -/

/-- A gated command with a number past the table reads outside the table, from every state. -/
theorem interruptIoctl_gated_outside (s : IrqState) {q : IrqRequest} (hq : q.Gated)
    (h : PLATFORM_NUM_IRQS ≤ q.irq) : interruptIoctl s q = .error .badRead := by
  unfold interruptIoctl
  split_ifs with h1 h2 h3 h4
  · exact gatedIrqOp_outside _ _ s h _
  · exact gatedIrqOp_outside _ _ s h _
  · exact gatedIrqOp_outside _ _ s h _
  · exact gatedIrqOp_outside _ _ s h _
  all_goals
    exfalso
    rcases hq with hq | hq | hq | hq
    · exact h1 hq
    · exact h2 hq
    · exact h3 hq
    · exact h4 hq

/-- Every other request returns. -/
theorem interruptIoctl_total (s : IrqState) {q : IrqRequest}
    (h : q.Gated → q.irq < PLATFORM_NUM_IRQS) : ∃ r, interruptIoctl s q = .ok r := by
  unfold interruptIoctl
  split_ifs with h1 h2 h3 h4
  · exact updateIrq_total s (h (.inl h1)) _
  · exact updateIrq_total s (h (.inr (.inl h2))) _
  · exact assertIrq_total s (h (.inr (.inr (.inl h3)))) _
  · exact assertIrq_total s (h (.inr (.inr (.inr h4)))) _
  · exact interruptRegisterIsr_total _ _ _ _
  · exact interruptDeregisterIsr_total _ _
  · exact bind_total (platformIrqSetTrigger_total _ _ _) fun _ => ⟨_, rfl⟩
  · exact ⟨_, rfl⟩

/-- A request past the table that returns has failed and has changed nothing. -/
theorem interruptIoctl_outside (s : IrqState) {q : IrqRequest} (hq : ¬ q.Gated)
    (h : PLATFORM_NUM_IRQS ≤ q.irq) : ∃ e : Int, e < 0 ∧ interruptIoctl s q = .ok (e, s) := by
  simp only [IrqRequest.Gated, not_or] at hq
  obtain ⟨h1, h2, h3, h4⟩ := hq
  unfold interruptIoctl
  rw [if_neg h1, if_neg h2, if_neg h3, if_neg h4]
  split_ifs
  · exact ⟨-EINVAL, by decide, if_pos h⟩
  · exact ⟨-EINVAL, by decide, if_pos h⟩
  · rw [platformIrqSetTrigger_outside s.gic h, ok_bind]
    exact ⟨-EINVAL, by decide, rfl⟩
  · exact ⟨-ENOSYS, by decide, rfl⟩

/-! ## Runs -/

/-- What the device promises of a run of requests: each one returns (every access of `isr_table` and of
the register arrays is inside them), and one whose number is past the table returns an error code and
leaves the table and the controller as they were. -/
def RunSafe : IrqState → List IrqRequest → Prop
  | _, [] => True
  | s, q :: qs => ∃ r s', interruptIoctl s q = .ok (r, s') ∧
      (PLATFORM_NUM_IRQS ≤ q.irq → r < 0 ∧ s' = s) ∧ RunSafe s' qs

/-- A request that the code bounds, or that needs no bound. -/
def IrqRequest.Bounded (q : IrqRequest) : Prop := q.Gated → q.irq < PLATFORM_NUM_IRQS

/-- A bounded request keeps the promise, whatever the state. -/
theorem interruptIoctl_safe (s : IrqState) {q : IrqRequest} (h : q.Bounded) :
    ∃ r s', interruptIoctl s q = .ok (r, s') ∧
      (PLATFORM_NUM_IRQS ≤ q.irq → r < 0 ∧ s' = s) := by
  by_cases hirq : PLATFORM_NUM_IRQS ≤ q.irq
  · have hq : ¬ q.Gated := fun hq => absurd (h hq) (by omega)
    obtain ⟨e, he, hrun⟩ := interruptIoctl_outside s hq hirq
    exact ⟨e, s, hrun, fun _ => ⟨he, rfl⟩⟩
  · obtain ⟨⟨r, s'⟩, hrun⟩ := interruptIoctl_total s h
    exact ⟨r, s', hrun, fun h' => absurd h' hirq⟩

/-- **Exactly the bounded runs are safe**, from every state of the table and of the controller. -/
theorem runSafe_iff (s : IrqState) (qs : List IrqRequest) :
    RunSafe s qs ↔ ∀ q ∈ qs, q.Bounded := by
  induction qs generalizing s with
  | nil => simp [RunSafe]
  | cons q qs ih =>
    rw [List.forall_mem_cons]
    constructor
    · rintro ⟨r, s', hrun, -, hrest⟩
      refine ⟨fun hq => ?_, (ih s').mp hrest⟩
      by_contra hirq
      rw [interruptIoctl_gated_outside s hq (by omega)] at hrun
      cases hrun
    · rintro ⟨hq, hqs⟩
      obtain ⟨r, s', hrun, hpast⟩ := interruptIoctl_safe s hq
      exact ⟨r, s', hrun, hpast, (ih s').mpr hqs⟩

/-- The state the device starts in: an empty table, nothing enabled or pending. -/
def IrqState.reset : IrqState where
  isrTable := Vector.replicate _ ⟨0, 0⟩
  gic :=
    { gicd := ⟨Vector.replicate _ 0, Vector.replicate _ 0, Vector.replicate _ 0⟩
      gicr := ⟨0, 0, 0⟩ }

/-- One `IOCTL_ENABLE_IRQ` for the first number past the table is enough to read outside it. -/
theorem not_runSafe_enable_past_table :
    ¬ ∀ (s : IrqState) (qs : List IrqRequest), RunSafe s qs := by
  intro h
  obtain ⟨r, s', hrun, -⟩ := h IrqState.reset [⟨IOCTL_ENABLE_IRQ, PLATFORM_NUM_IRQS, 0, 0, 0⟩]
  rw [interruptIoctl_gated_outside _ (.inl rfl) le_rfl] at hrun
  cases hrun

end GunyahRuntime
