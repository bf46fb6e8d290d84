/-
# GunyahRuntime.Irq.Init -- setting up the interrupt controller (`platform_irq_init`)

The set-up writes whole registers: 32 enable or group bits at a time, 16 configurations, one priority, one route.
Each of its loops counts registers, and how many there are it gets by dividing the number of interrupts. The
quotient leaves out a last register that is only partly used, and so `platformIrqInit_spis_iff` asks of the
interrupts in it that they were set up before.

The registers that only this function writes are added to those of `Irq.Gic`. A write that is pending has been
done by the time the control register is read, and the system registers of the processor interface are left out.
-/
import GunyahRuntime.Irq.Trigger
import GunyahRuntime.Lib.Loop

namespace GunyahRuntime

structure GicRegs where
  gic : Gic
  /-- `gicd->ctlr`. -/
  ctlr : BitVec 32
  /-- `gicd->igroupr`. -/
  igroupr : Vector (BitVec 32) 32
  /-- `gicd->ipriorityr`. -/
  ipriorityr : Vector (BitVec 8) 1020
  /-- `gicd->irouter`. -/
  irouter : Vector (BitVec 64) 988
  /-- `gicr->igroupr0`. -/
  igroupr0 : BitVec 32
  /-- `gicr->ipriorityr`. -/
  gicrIpriorityr : Vector (BitVec 8) 32

def GIC_PRIORITY_DEFAULT : BitVec 8 := 0xA0
def GICD_CTLR_RWP : BitVec 32 := 1 <<< 31
def GICD_CTLR_ARE : BitVec 32 := 1 <<< 4
def GICD_CTLR_ENABLEGRP1 : BitVec 32 := 1 <<< 1
def MPIDR_EL1_AFF0123_MASK : BitVec 64 := 0xff00ffffff

/-- `gicd_wait_for_write()`: the control register, once no write is pending. -/
def gicdWaitForWrite (g : GicRegs) : BitVec 32 := g.ctlr &&& ~~~GICD_CTLR_RWP

/-- One pass of `for (i = lo; i < hi; i++) { regs[i] = …; }`. -/
def storePass {α : Type} {n : Nat} (view : α → α) (hi : Nat) (s : Nat × Vector α n) :
    Exec (Nat × Vector α n ⊕ Vector α n) :=
  if s.1 < hi then do
    let regs ← regStore s.2 s.1 view
    return .inl (u32 (s.1 + 1), regs)
  else
    .ok (.inr s.2)

def storeLoop {α : Type} {n : Nat} (view : α → α) (lo hi : Nat) (regs : Vector α n) : Exec (Vector α n) :=
  Lib.iterate .diverged (storePass view hi) (hi + 1) (lo, regs)

/-- `platform_irq_init()`, on a processor whose affinity register holds `mpidr`. `num_irqs` is
`PLATFORM_NUM_IRQS`. -/
def platformIrqInit (numIrqs : Nat) (mpidr : BitVec 64) (g : GicRegs) : Exec GicRegs := do
  -- Disable distributor
  let g := { g with ctlr := 0 }
  let ctlr := gicdWaitForWrite g
  -- Enable affinity routing
  let g := { g with ctlr := ctlr ||| GICD_CTLR_ARE }
  -- Disable all SPIs
  let enabler ← storeLoop (writeOneToClear · 0xffffffff) 1 (numIrqs / 32) g.gic.gicd.enabler
  let g := { g with gic.gicd.enabler := enabler }
  let ctlr := gicdWaitForWrite g
  -- Set SPI default priority
  let ipriorityr ← storeLoop (fun _ => GIC_PRIORITY_DEFAULT) GIC_SPI_BASE numIrqs g.ipriorityr
  -- Set SPI default trigger as edge
  let icfgr ← storeLoop (fun _ => 0xaaaaaaaa) 2 (numIrqs / 16) g.gic.gicd.icfgr
  -- Set SPIs as group 1
  let igroupr ← storeLoop (fun _ => 0xffffffff) 1 (numIrqs / 32) g.igroupr
  -- Set SPI default route
  let irouter ← storeLoop (fun _ => mpidr &&& MPIDR_EL1_AFF0123_MASK) 0 (sub32 numIrqs GIC_SPI_BASE) g.irouter
  -- Enable Group 1 IRQs
  let g := { g with ipriorityr, gic.gicd.icfgr := icfgr, igroupr, irouter, ctlr := ctlr ||| GICD_CTLR_ENABLEGRP1 }
  -- Disable SGIs/PPIs
  let g := { g with gic.gicr.enabler0 := writeOneToClear g.gic.gicr.enabler0 0xffffffff }
  -- Set SGI/PPI default priority
  let gicrIpriorityr ← storeLoop (fun _ => GIC_PRIORITY_DEFAULT) 0 32 g.gicrIpriorityr
  -- Set PPI default trigger as level
  let g := { g with gicrIpriorityr, gic.gicr.icfgr1 := 0 }
  -- Set SGI/PPI group 1
  return { g with igroupr0 := 0xffffffff }

/-- Whether a shared interrupt is in group 1. -/
def GicRegs.group1 (g : GicRegs) (irq : Nat) : Bool :=
  if h : irq / 32 < 32 then g.igroupr[irq / 32].getLsbD (irq % 32) else false

/-- A shared interrupt is set up: disabled, in group 1, edge triggered, at the default priority and routed to the
processor. -/
structure GicRegs.SpiReady (g : GicRegs) (mpidr : BitVec 64) (irq : Nat) : Prop where
  disabled : g.gic.bit .enabler irq = false
  group : g.group1 irq = true
  edge : g.gic.edge irq = true
  priority : g.ipriorityr[irq]? = some GIC_PRIORITY_DEFAULT
  route : g.irouter[irq - GIC_SPI_BASE]? = some (mpidr &&& MPIDR_EL1_AFF0123_MASK)

/-! ## The loops -/

/-- A loop writes the registers it counts, and no others. -/
theorem storeLoop_spec {α : Type} {n : Nat} (view : α → α) (lo hi : Nat) (regs : Vector α n) (hle : lo ≤ hi)
    (hhi : hi ≤ n) (hn : n < 4294967296) :
    ∃ regs', storeLoop view lo hi regs = .ok regs' ∧
      ∀ k, (hk : k < n) → regs'[k] = if lo ≤ k ∧ k < hi then view regs[k] else regs[k] := by
  apply Lib.iterate_total
    (fun s : Nat × Vector α n => lo ≤ s.1 ∧ s.1 ≤ hi ∧
      ∀ k, (hk : k < n) → s.2[k] = if lo ≤ k ∧ k < s.1 then view regs[k] else regs[k])
    (fun regs' : Vector α n => ∀ k, (hk : k < n) → regs'[k] = if lo ≤ k ∧ k < hi then view regs[k] else regs[k])
    (fun s => hi - s.1)
  · rintro ⟨i, acc⟩ ⟨hlo, hi', hacc⟩
    dsimp only at hlo hi' hacc
    by_cases hlt : i < hi
    · right
      have hin : i < n := Nat.lt_of_lt_of_le hlt hhi
      have hnext : u32 (i + 1) = i + 1 := Nat.mod_eq_of_lt (by omega)
      refine ⟨(i + 1, acc.set i (view acc[i])), ?_, ⟨by omega, hlt, fun k hk => ?_⟩, ?_⟩
      · rw [storePass, if_pos hlt, regStore_ok _ _ hin, hnext]
        rfl
      · -- the register of this pass, which no pass before it has written
        dsimp only
        rw [Vector.getElem_set]
        split
        · next heq =>
          subst heq
          rw [hacc i hin, if_neg (by omega), if_pos (by omega)]
        · rw [hacc k hk]
          exact if_congr (by omega) rfl rfl
      · dsimp only
        omega
    · left
      obtain rfl : i = hi := by omega
      exact ⟨acc, by rw [storePass, if_neg hlt], hacc⟩
  · refine ⟨Nat.le_refl lo, hle, fun k hk => ?_⟩
    rw [if_neg (by omega)]
  · dsimp only
    omega

theorem writeOneToClear_ones (w : BitVec 32) : writeOneToClear w 0xffffffff = 0 := by
  have hones : (0xffffffff : BitVec 32) = BitVec.allOnes 32 := rfl
  simp [writeOneToClear, hones]

theorem ones_pattern : ∀ k < 32, (0xffffffff#32).getLsbD k = true := by decide

/-- The configuration that the set-up writes is the edge, for each of the sixteen interrupts of a register. -/
theorem edge_pattern : ∀ k < 16, (0xaaaaaaaa#32).getLsbD (2 * k + 1) = true := by decide

/-! ## What the set-up leaves -/

/-- The set-up of every shared interrupt below `numIrqs`. Of the last registers of three banks it depends on whether
they are used in full. -/
structure SpisInit (numIrqs : Nat) (mpidr : BitVec 64) (g g' : GicRegs) (irq : Nat) : Prop where
  disabled : g'.gic.bit .enabler irq = if irq < 32 * (numIrqs / 32) then false else g.gic.bit .enabler irq
  group : g'.group1 irq = if irq < 32 * (numIrqs / 32) then true else g.group1 irq
  edge : g'.gic.edge irq = if irq < 16 * (numIrqs / 16) then true else g.gic.edge irq
  priority : g'.ipriorityr[irq]? = some GIC_PRIORITY_DEFAULT
  route : g'.irouter[irq - GIC_SPI_BASE]? = some (mpidr &&& MPIDR_EL1_AFF0123_MASK)

theorem Gic.bit_spi (g : Gic) {irq : Nat} (hlo : 32 ≤ irq) (hn : irq / 32 < 32) :
    g.bit .enabler irq = g.gicd.enabler[irq / 32].getLsbD (irq % 32) := by
  have hshift : gicdEnableGetN irq = irq / 32 := Nat.shiftRight_eq_div_pow irq 5
  unfold Gic.bit GIC_PPI_END
  rw [if_neg (Nat.not_lt.2 hlo)]
  simp only [hshift, hn, dif_pos]
  rfl

theorem Gic.edge_spi (g : Gic) {irq : Nat} (hlo : 32 ≤ irq) (hn : irq / 16 < 64) :
    g.edge irq = g.gicd.icfgr[irq / 16].getLsbD (2 * (irq % 16) + 1) := by
  unfold Gic.edge Gic.cfg GIC_SGI_END GIC_PPI_END
  rw [if_neg (by omega), if_neg (by omega), dif_pos hn, getLsbD_pair _ _ (by decide)]

theorem GicRegs.group1_eq (g : GicRegs) {irq : Nat} (hn : irq / 32 < 32) :
    g.group1 irq = g.igroupr[irq / 32].getLsbD (irq % 32) :=
  dif_pos hn

/-- **The set-up.** With any number of interrupts it is made for, and from any content of the registers, it comes to
its end without a store out of bounds. -/
theorem platformIrqInit_spec {numIrqs : Nat} (hlo : 33 ≤ numIrqs) (hhi : numIrqs ≤ 1020) (mpidr : BitVec 64)
    (g : GicRegs) :
    ∃ g', platformIrqInit numIrqs mpidr g = .ok g' ∧
      ∀ irq, 32 ≤ irq → irq < numIrqs → SpisInit numIrqs mpidr g g' irq := by
  obtain ⟨enabler, henabler, henablerAt⟩ :=
    storeLoop_spec (writeOneToClear · 0xffffffff) 1 (numIrqs / 32) g.gic.gicd.enabler (by omega) (by omega) (by decide)
  obtain ⟨ipriorityr, hpriority, hpriorityAt⟩ :=
    storeLoop_spec (fun _ => GIC_PRIORITY_DEFAULT) 32 numIrqs g.ipriorityr (by omega) hhi (by decide)
  obtain ⟨icfgr, hicfgr, hicfgrAt⟩ :=
    storeLoop_spec (fun _ => 0xaaaaaaaa) 2 (numIrqs / 16) g.gic.gicd.icfgr (by omega) (by omega) (by decide)
  obtain ⟨igroupr, higroupr, higrouprAt⟩ :=
    storeLoop_spec (fun _ => 0xffffffff) 1 (numIrqs / 32) g.igroupr (by omega) (by omega) (by decide)
  have hroutes : sub32 numIrqs 32 = numIrqs - 32 := by
    unfold sub32
    omega
  obtain ⟨irouter, hirouter, hirouterAt⟩ :=
    storeLoop_spec (fun _ => mpidr &&& MPIDR_EL1_AFF0123_MASK) 0 (numIrqs - 32) g.irouter (by omega) (by omega)
      (by decide)
  obtain ⟨gicrIpriorityr, hgicr, -⟩ :=
    storeLoop_spec (fun _ => GIC_PRIORITY_DEFAULT) 0 32 g.gicrIpriorityr (by omega) (by omega) (by decide)
  unfold platformIrqInit
  simp only [GIC_SPI_BASE, hroutes, henabler, hpriority, hicfgr, higroupr, hirouter, hgicr, ok_bind]
  refine ⟨_, rfl, fun irq hspi hirq => ?_⟩
  have h32 : irq / 32 < 32 := by omega
  have h16 : irq / 16 < 64 := by omega
  refine ⟨?_, ?_, ?_, ?_, ?_⟩
  · rw [Gic.bit_spi _ hspi h32, Gic.bit_spi _ hspi h32]
    dsimp only
    rw [henablerAt _ h32]
    by_cases hin : irq < 32 * (numIrqs / 32)
    · rw [if_pos ⟨by omega, by omega⟩, if_pos hin, writeOneToClear_ones]
      exact BitVec.getLsbD_zero
    · rw [if_neg (by omega), if_neg hin]
  · rw [GicRegs.group1_eq _ h32, GicRegs.group1_eq _ h32]
    dsimp only
    rw [higrouprAt _ h32]
    by_cases hin : irq < 32 * (numIrqs / 32)
    · rw [if_pos ⟨by omega, by omega⟩, if_pos hin]
      exact ones_pattern _ (Nat.mod_lt _ (by decide))
    · rw [if_neg (by omega), if_neg hin]
  · rw [Gic.edge_spi _ hspi h16, Gic.edge_spi _ hspi h16]
    dsimp only
    rw [hicfgrAt _ h16]
    by_cases hin : irq < 16 * (numIrqs / 16)
    · rw [if_pos ⟨by omega, by omega⟩, if_pos hin]
      exact edge_pattern _ (Nat.mod_lt _ (by decide))
    · rw [if_neg (by omega), if_neg hin]
  · have hlt : irq < 1020 := by omega
    dsimp only
    rw [Vector.getElem?_eq_getElem hlt, hpriorityAt _ hlt, if_pos ⟨hspi, hirq⟩]
  · have hlt : irq - 32 < 988 := by omega
    dsimp only [GIC_SPI_BASE]
    rw [Vector.getElem?_eq_getElem hlt, hirouterAt _ hlt, if_pos ⟨Nat.zero_le _, by omega⟩]

/-! ## Which interrupts are covered -/

/-- **Exactly when the set-up covers every shared interrupt.** The interrupts that share the last register of a bank
with others than the ones in use are left as they were: so they have to be disabled, in group 1 and edge triggered
before. Where the number of interrupts is a multiple of 32 there are none. -/
theorem platformIrqInit_spis_iff {numIrqs : Nat} (hlo : 33 ≤ numIrqs) (hhi : numIrqs ≤ 1020) (mpidr : BitVec 64)
    (g : GicRegs) :
    (∃ g', platformIrqInit numIrqs mpidr g = .ok g' ∧
        ∀ irq, 32 ≤ irq → irq < numIrqs → g'.SpiReady mpidr irq) ↔
      (∀ irq, 32 ≤ irq → 32 * (numIrqs / 32) ≤ irq → irq < numIrqs →
          g.gic.bit .enabler irq = false ∧ g.group1 irq = true) ∧
        ∀ irq, 32 ≤ irq → 16 * (numIrqs / 16) ≤ irq → irq < numIrqs → g.gic.edge irq = true := by
  obtain ⟨g', hinit, hspis⟩ := platformIrqInit_spec hlo hhi mpidr g
  constructor
  · rintro ⟨g'', hinit', hready⟩
    obtain rfl := Except.ok.inj (hinit.symm.trans hinit')
    refine ⟨fun irq hspi hlast hirq => ?_, fun irq hspi hlast hirq => ?_⟩
    · have hdone := hspis irq hspi hirq
      have hthis := hready irq hspi hirq
      rw [← hthis.disabled, ← hthis.group, hdone.disabled, hdone.group, if_neg (Nat.not_lt.2 hlast),
        if_neg (Nat.not_lt.2 hlast)]
      exact ⟨rfl, rfl⟩
    · rw [← (hready irq hspi hirq).edge, (hspis irq hspi hirq).edge, if_neg (Nat.not_lt.2 hlast)]
  · rintro ⟨hlast, hlastEdge⟩
    refine ⟨g', hinit, fun irq hspi hirq => ?_⟩
    have hdone := hspis irq hspi hirq
    refine ⟨?_, ?_, ?_, hdone.priority, hdone.route⟩
    · rw [hdone.disabled]
      split
      · rfl
      · next hge => exact (hlast irq hspi (Nat.not_lt.1 hge) hirq).1
    · rw [hdone.group]
      split
      · rfl
      · next hge => exact (hlast irq hspi (Nat.not_lt.1 hge) hirq).2
    · rw [hdone.edge]
      split
      · rfl
      · next hge => exact hlastEdge irq hspi (Nat.not_lt.1 hge) hirq

/-- The registers at reset, all zero. -/
def GicRegs.reset : GicRegs where
  gic := IrqState.reset.gic
  ctlr := 0
  igroupr := .replicate 32 0
  ipriorityr := .replicate 1020 0
  irouter := .replicate 988 0
  igroupr0 := 0
  gicrIpriorityr := .replicate 32 0

/-- Every shared interrupt is set up where their registers are used in full. -/
theorem platformIrqInit_spis_of_full :
    (∃ g', platformIrqInit 64 0 GicRegs.reset = .ok g' ∧ ∀ irq, 32 ≤ irq → irq < 64 → g'.SpiReady 0 irq) := by
  refine (platformIrqInit_spis_iff (by decide) (by decide) 0 GicRegs.reset).2 ⟨?_, ?_⟩
  · intro irq _ hlast hirq
    omega
  · intro irq _ hlast hirq
    omega

/-- With the number of interrupts the program is built for, the last one is not put in group 1. -/
theorem not_spiReady_last_spi :
    ¬ ∀ (numIrqs : Nat) (mpidr : BitVec 64) (g : GicRegs), 33 ≤ numIrqs → numIrqs ≤ 1020 →
      ∃ g', platformIrqInit numIrqs mpidr g = .ok g' ∧
        ∀ irq, 32 ≤ irq → irq < numIrqs → g'.SpiReady mpidr irq := by
  intro h
  obtain ⟨g', hinit, hready⟩ := h 1020 0 GicRegs.reset (by decide) (by decide)
  obtain ⟨g'', hinit', hspis⟩ := platformIrqInit_spec (by decide : 33 ≤ 1020) (by decide) 0 GicRegs.reset
  obtain rfl := Except.ok.inj (hinit.symm.trans hinit')
  have hgroup := (hspis 1019 (by decide) (by decide)).group
  rw [(hready 1019 (by decide) (by decide)).group, if_neg (by decide)] at hgroup
  exact absurd hgroup (by decide)

end GunyahRuntime
