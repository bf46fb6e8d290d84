/-
# GunyahRuntime.Irq.Gic -- the GICv3 registers the runtime drives (`gicv3.c`)

The set and clear registers of the interrupt controller are two views of one state: a one written to
`isenabler` sets the enable bit, a one written to `icenabler` clears it, both read as the enable bits,
and likewise for pending. So the state holds the enable and the pending bits once, and a write through
either view is an `or` or an `and not`. Register arrays are vectors of the size `struct gicd_s`
declares, and an index outside one is a fault. The waits for the write-pending bits (`gicd_wait_for_write`,
`gicr_wait_for_write`) only delay, and are left out.
-/
import GunyahRuntime.Machine

namespace GunyahRuntime

/-- `struct gicd_s`, the part used here: the distributor, for the shared interrupts. -/
structure Gicd where
  /-- `isenabler` / `icenabler`. -/
  enabler : Vector (BitVec 32) 32
  /-- `ispendr` / `icpendr`. -/
  pendr : Vector (BitVec 32) 32
  icfgr : Vector (BitVec 32) 64
  deriving DecidableEq

/-- `struct gicr_s`, the part used here: the redistributor, for the private interrupts. -/
structure Gicr where
  /-- `isenabler0` / `icenabler0`. -/
  enabler0 : BitVec 32
  /-- `ispendr0` / `icpendr0`. -/
  pendr0 : BitVec 32
  icfgr1 : BitVec 32
  deriving DecidableEq

structure Gic where
  gicd : Gicd
  gicr : Gicr
  deriving DecidableEq

def GIC_SGI_BASE : Nat := 0
def GIC_SGI_END : Nat := 16
def GIC_PPI_BASE : Nat := 16
def GIC_PPI_END : Nat := 32
def GIC_SPI_BASE : Nat := 32
def GIC_SPI_END : Nat := 1020

/-- `GICD_ENABLE_GET_N(x)`. -/
def gicdEnableGetN (irq : Nat) : Nat := irq >>> 5

/-- The amount by which `GIC_ENABLE_BIT(x)` shifts: the id itself. -/
def gicEnableShift (irq : Nat) : Nat := u32 irq

/-- `GIC_ENABLE_BIT(x)`. The 32-bit `LSL` this compiles to takes its amount modulo 32; C leaves the
shift undefined for amounts of 32 and more. -/
def gicEnableBit (irq : Nat) : BitVec 32 := 1#32 <<< (gicEnableShift irq % 32)

/-- A load from a register array. -/
def regLoad {α : Type} {n : Nat} (regs : Vector α n) (i : Nat) : Exec α :=
  if h : i < n then .ok regs[i] else .error .badRead

/-- A store to a register array, through a view that combines the old value and the written one. -/
def regStore {α : Type} {n : Nat} (regs : Vector α n) (i : Nat) (view : α → α) :
    Exec (Vector α n) :=
  if h : i < n then .ok (regs.set i (view regs[i])) else .error .badWrite

theorem regLoad_ok {α : Type} {n i : Nat} (regs : Vector α n) (h : i < n) :
    regLoad regs i = .ok regs[i] := dif_pos h

theorem regStore_ok {α : Type} {n i : Nat} (regs : Vector α n) (view : α → α) (h : i < n) :
    regStore regs i view = .ok (regs.set i (view regs[i])) := dif_pos h

/-! ## The four bit operations -/

/-- Which of the two kinds of bit a register holds. -/
inductive GicBank where
  | enabler
  | pendr
  deriving DecidableEq

def Gicr.bank (r : Gicr) : GicBank → BitVec 32
  | .enabler => r.enabler0
  | .pendr => r.pendr0

def Gicr.setBank (r : Gicr) : GicBank → BitVec 32 → Gicr
  | .enabler, x => { r with enabler0 := x }
  | .pendr, x => { r with pendr0 := x }

def Gicd.bank (d : Gicd) : GicBank → Vector (BitVec 32) 32
  | .enabler => d.enabler
  | .pendr => d.pendr

def Gicd.setBank (d : Gicd) : GicBank → Vector (BitVec 32) 32 → Gicd
  | .enabler, x => { d with enabler := x }
  | .pendr, x => { d with pendr := x }

/-- A write to the set view of a register. -/
def writeOneToSet (old written : BitVec 32) : BitVec 32 := old ||| written

/-- A write to the clear view of a register. -/
def writeOneToClear (old written : BitVec 32) : BitVec 32 := old &&& ~~~written

/-- The shape the four operations share: the redistributor's register for ids below 32, the
distributor's array for the shared ids, nothing for the others. -/
def gicBitOp (bank : GicBank) (view : BitVec 32 → BitVec 32 → BitVec 32) (g : Gic) (irq : Nat) :
    Exec Gic :=
  if irq ≥ GIC_SGI_BASE ∧ irq < GIC_PPI_END then
    .ok { g with gicr := g.gicr.setBank bank (view (g.gicr.bank bank) (gicEnableBit irq)) }
  else if irq ≥ GIC_SPI_BASE ∧ irq < GIC_SPI_END then do
    let regs ← regStore (g.gicd.bank bank) (gicdEnableGetN irq) (view · (gicEnableBit irq))
    return { g with gicd := g.gicd.setBank bank regs }
  else
    .ok g

/-- `platform_irq_enable(irq)`. -/
def platformIrqEnable : Gic → Nat → Exec Gic := gicBitOp .enabler writeOneToSet

/-- `platform_irq_disable(irq)`. -/
def platformIrqDisable : Gic → Nat → Exec Gic := gicBitOp .enabler writeOneToClear

/-- `platform_irq_assert(irq)`, with `PLATFORM_IRQ_USE_MSI` 0. -/
def platformIrqAssert : Gic → Nat → Exec Gic := gicBitOp .pendr writeOneToSet

/-- `platform_irq_clear(irq)`, with `PLATFORM_IRQ_USE_MSI` 0. -/
def platformIrqClear : Gic → Nat → Exec Gic := gicBitOp .pendr writeOneToClear

theorem gicdEnableGetN_lt {irq : Nat} (h : irq < GIC_SPI_END) : gicdEnableGetN irq < 32 := by
  unfold gicdEnableGetN GIC_SPI_END at *
  rw [Nat.shiftRight_eq_div_pow]
  omega

/-- The four operations index no register array outside its size, for any id. -/
theorem gicBitOp_total (bank : GicBank) (view : BitVec 32 → BitVec 32 → BitVec 32) (g : Gic)
    (irq : Nat) : ∃ g', gicBitOp bank view g irq = .ok g' := by
  unfold gicBitOp
  split
  · exact ⟨_, rfl⟩
  · split
    · next h => rw [regStore_ok _ _ (gicdEnableGetN_lt h.2)]; exact ⟨_, rfl⟩
    · exact ⟨_, rfl⟩

/-! ## Trigger configuration -/

def IRQ_TRIGGER_LEVEL_HIGH : Int := 0
def IRQ_TRIGGER_EDGE_RISING : Int := 2

/-- The `icfgr` bit of an id within its word: two bits an interrupt, the upper one is "edge". -/
def icfgrIndex (irq : Nat) : Nat := irq % 16 * 2 + 1

/-- `icfgr |= 1U << index` for edge, `icfgr &= ~(1U << index)` for level. -/
def icfgrUpdate (irq : Nat) (edge : Bool) (icfgr : BitVec 32) : BitVec 32 :=
  if edge then icfgr ||| (1#32 <<< icfgrIndex irq) else icfgr &&& ~~~(1#32 <<< icfgrIndex irq)

/-- The switch on the trigger: `(edge, valid)`. -/
def triggerKind (trigger : Int) : Bool × Bool :=
  if trigger = IRQ_TRIGGER_LEVEL_HIGH then (false, true)
  else if trigger = IRQ_TRIGGER_EDGE_RISING then (true, true)
  else (false, false)

/-- `if (enabled) { op(irq); }`. -/
def whenEnabled (enabled : Bool) (op : Gic → Nat → Exec Gic) (g : Gic) (irq : Nat) : Exec Gic :=
  if enabled then op g irq else .ok g

/-- The bracket around a configuration change: an enabled interrupt is disabled before it and enabled
again after it. -/
def whileDisabled (enabled : Bool) (g : Gic) (irq : Nat) (change : Gic → Exec Gic) : Exec Gic := do
  let g ← whenEnabled enabled platformIrqDisable g irq
  let g ← change g
  whenEnabled enabled platformIrqEnable g irq

/-- `platform_irq_set_trigger(irq, trigger)`. The first branch takes `irq <= GIC_SGI_END`, so the first
private peripheral interrupt, id 16, is handled as software generated. -/
def platformIrqSetTrigger (g : Gic) (irq : Nat) (trigger : Int) : Exec (Bool × Gic) :=
  let (edge, valid) := triggerKind trigger
  if ¬ valid then .ok (valid, g)
  -- software generated: an edge by nature, with nothing to configure
  else if irq ≥ GIC_SGI_BASE ∧ irq ≤ GIC_SGI_END then .ok (edge, g)
  else if irq ≥ GIC_PPI_BASE ∧ irq < GIC_PPI_END then do
    let enabled := g.gicr.enabler0 &&& gicEnableBit irq ≠ 0
    let g ← whileDisabled enabled g irq fun g =>
      .ok { g with gicr.icfgr1 := icfgrUpdate irq edge g.gicr.icfgr1 }
    return (true, g)
  else if irq ≥ GIC_SPI_BASE ∧ irq < GIC_SPI_END then do
    let isenabler ← regLoad g.gicd.enabler (gicdEnableGetN irq)
    let enabled := isenabler &&& gicEnableBit irq ≠ 0
    let g ← whileDisabled enabled g irq fun g => do
      let icfgr ← regStore g.gicd.icfgr (irq / 16) (icfgrUpdate irq edge)
      return { g with gicd.icfgr := icfgr }
    return (true, g)
  else
    .ok (false, g)

theorem whenEnabled_total (enabled : Bool) (bank : GicBank)
    (view : BitVec 32 → BitVec 32 → BitVec 32) (g : Gic) (irq : Nat) :
    ∃ g', whenEnabled enabled (gicBitOp bank view) g irq = .ok g' := by
  unfold whenEnabled
  split
  · exact gicBitOp_total _ _ _ _
  · exact ⟨g, rfl⟩

theorem whileDisabled_total {change : Gic → Exec Gic} (h : ∀ g, ∃ g', change g = .ok g')
    (enabled : Bool) (g : Gic) (irq : Nat) : ∃ g', whileDisabled enabled g irq change = .ok g' :=
  bind_total (whenEnabled_total _ _ _ _ _) fun g =>
    bind_total (h g) fun _ => whenEnabled_total _ _ _ _ _

/-- `platform_irq_set_trigger` indexes no register array outside its size, for any id. -/
theorem platformIrqSetTrigger_total (g : Gic) (irq : Nat) (trigger : Int) :
    ∃ r, platformIrqSetTrigger g irq trigger = .ok r := by
  unfold platformIrqSetTrigger
  dsimp only
  split
  · exact ⟨_, rfl⟩
  · split
    · exact ⟨_, rfl⟩
    · split
      · refine bind_total (whileDisabled_total (fun g => ⟨_, rfl⟩) _ _ _) fun g => ⟨_, rfl⟩
      · split
        · next hspi =>
          -- `icfgr` has two bits an interrupt, so half as many to a word
          have hlt : irq / 16 < 64 := by
            have := hspi.2
            unfold GIC_SPI_END at this
            omega
          refine bind_total ⟨_, regLoad_ok _ (gicdEnableGetN_lt hspi.2)⟩ fun isenabler =>
            bind_total (whileDisabled_total (fun g => ?_) _ _ _) fun g => ⟨_, rfl⟩
          exact bind_total ⟨_, regStore_ok _ _ hlt⟩ fun icfgr => ⟨_, rfl⟩
        · exact ⟨_, rfl⟩

/-- An id past the last shared interrupt is refused, whatever the trigger. -/
theorem platformIrqSetTrigger_outside (g : Gic) {irq : Nat} (h : GIC_SPI_END ≤ irq)
    (trigger : Int) : platformIrqSetTrigger g irq trigger = .ok (false, g) := by
  have h1 : ¬ (irq ≥ GIC_SGI_BASE ∧ irq ≤ GIC_SGI_END) := by
    unfold GIC_SGI_END GIC_SPI_END at *; omega
  have h2 : ¬ (irq ≥ GIC_PPI_BASE ∧ irq < GIC_PPI_END) := by
    unfold GIC_PPI_END GIC_SPI_END at *; omega
  have h3 : ¬ (irq ≥ GIC_SPI_BASE ∧ irq < GIC_SPI_END) := by omega
  unfold platformIrqSetTrigger
  dsimp only
  rw [if_neg h1, if_neg h2, if_neg h3]
  cases hv : (triggerKind trigger).2 <;> simp

end GunyahRuntime
