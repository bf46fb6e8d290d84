/-
# GunyahRuntime.Irq.BitOps -- enabling, disabling, asserting and clearing interrupts

Over any run of `platform_irq_enable`, `platform_irq_disable`, `platform_irq_assert` and
`platform_irq_clear`, each call sets or clears the bit of its own interrupt and touches nothing else. The
word it writes is another matter: `GIC_ENABLE_BIT` shifts by the id itself, which is a shift that C defines
for private interrupts only.
-/
import GunyahRuntime.Irq.Dispatch

namespace GunyahRuntime

/-- The operations that write one bit. -/
inductive GicOp where
  | enable
  | disable
  | assert
  | clear
  deriving DecidableEq, Repr

namespace GicOp

def run : GicOp → Gic → Nat → Exec Gic
  | enable => platformIrqEnable
  | disable => platformIrqDisable
  | assert => platformIrqAssert
  | clear => platformIrqClear

/-- What the operation is about. -/
def bank : GicOp → GicBank
  | enable | disable => .enabler
  | assert | clear => .pendr

/-- What the bit is afterwards. -/
def value : GicOp → Bool
  | enable | assert => true
  | disable | clear => false

/-- The view of the register that the operation writes to. -/
def view : GicOp → BitVec 32 → BitVec 32 → BitVec 32
  | enable | assert => writeOneToSet
  | disable | clear => writeOneToClear

theorem run_eq (op : GicOp) : op.run = gicBitOp op.bank op.view := by
  cases op <;> rfl

/-- What is left in a register: the one bit written has the operation's value. -/
theorem getLsbD_view (op : GicOp) (old : BitVec 32) (irq : Nat) {k : Nat} (hk : k < 32) :
    (op.view old (gicEnableBit irq)).getLsbD k = if k = irq % 32 then op.value else old.getLsbD k := by
  have hset : (writeOneToSet old (gicEnableBit irq)).getLsbD k = if k = irq % 32 then true else old.getLsbD k := by
    unfold writeOneToSet
    rw [BitVec.getLsbD_or, getLsbD_gicEnableBit irq hk]
    by_cases h : k = irq % 32
    · rw [if_pos h, decide_eq_true h, Bool.or_true]
    · rw [if_neg h, decide_eq_false h, Bool.or_false]
  have hclear : (writeOneToClear old (gicEnableBit irq)).getLsbD k =
      if k = irq % 32 then false else old.getLsbD k := by
    unfold writeOneToClear
    rw [BitVec.getLsbD_and, BitVec.getLsbD_not, getLsbD_gicEnableBit irq hk, decide_eq_true hk, Bool.true_and]
    by_cases h : k = irq % 32
    · rw [if_pos h, decide_eq_true h, Bool.not_true, Bool.and_false]
    · rw [if_neg h, decide_eq_false h, Bool.not_false, Bool.and_true]
  cases op with
  | enable => exact hset
  | disable => exact hclear
  | assert => exact hset
  | clear => exact hclear

end GicOp

/-- A call touches the state of its own interrupt: of all enable and pending bits just that one changes, the
trigger configuration and the distributor's words for the private interrupts stay, and there is no change at all for
an id that is no interrupt. The register it writes exists. -/
structure TouchesOwn (op : GicOp) (irq : Nat) (g g' : Gic) : Prop where
  bits : ∀ b j, g'.bit b j = if b = op.bank ∧ j = irq ∧ irq < GIC_SPI_END then op.value else g.bit b j
  icfgr : g'.gicd.icfgr = g.gicd.icfgr ∧ g'.gicr.icfgr1 = g.gicr.icfgr1
  banked : ∀ b, (g'.gicd.bank b)[0] = (g.gicd.bank b)[0]
  outside : GIC_SPI_END ≤ irq → g' = g
  index : GIC_SPI_BASE ≤ irq → irq < GIC_SPI_END → gicdEnableGetN irq < 32

section

variable (op : GicOp) {g g' : Gic} {irq : Nat} (h : op.run g irq = .ok g')

include h

theorem GicOp.bit_eq (b : GicBank) (j : Nat) :
    g'.bit b j = if b = op.bank ∧ j = irq ∧ irq < GIC_SPI_END then op.value else g.bit b j := by
  rw [GicOp.run_eq] at h
  by_cases hwritten : op.bank = b ∧ irq < GIC_SPI_END ∧ j / 32 = irq / 32
  · obtain ⟨hb, hirq, hword⟩ := hwritten
    subst hb
    obtain ⟨old, hold, hnew⟩ := gicBitOp_written h hirq hword
    rw [hnew, hold, op.getLsbD_view old irq (Nat.mod_lt j (by decide))]
    -- in the same word, the bits tell the interrupts apart
    have hsame : j % 32 = irq % 32 ↔ op.bank = op.bank ∧ j = irq ∧ irq < GIC_SPI_END := by
      constructor
      · intro hbit
        exact ⟨rfl, by omega, hirq⟩
      · rintro ⟨-, rfl, -⟩
        rfl
    rw [if_congr hsame rfl rfl]
  · rw [gicBitOp_kept h fun hb hirq hword => hwritten ⟨hb, hirq, hword⟩, if_neg]
    rintro ⟨rfl, rfl, hirq⟩
    exact hwritten ⟨rfl, hirq, rfl⟩

/-- One call. -/
theorem GicOp.touchesOwn : TouchesOwn op irq g g' := by
  have hbits := GicOp.bit_eq op h
  rw [GicOp.run_eq] at h
  unfold gicBitOp at h
  split at h
  · next hprivate =>
    obtain rfl := Except.ok.inj h
    refine ⟨hbits, ⟨rfl, ?_⟩, fun b => rfl, fun hout => ?_, fun hshared _ => ?_⟩
    · cases op <;> rfl
    · unfold GIC_PPI_END GIC_SPI_END at *
      omega
    · unfold GIC_PPI_END GIC_SPI_BASE at *
      omega
  · split at h
    · next hshared =>
      obtain ⟨regs, hregs, h⟩ := bind_eq_ok.1 h
      obtain rfl := Except.ok.inj h
      have hn := gicdEnableGetN_lt hshared.2
      rw [regStore_ok _ _ hn, Except.ok.injEq] at hregs
      subst hregs
      refine ⟨hbits, ⟨?_, rfl⟩, fun b => ?_, fun hout => ?_, fun _ _ => hn⟩
      · cases op <;> rfl
      · -- the first word is not written
        have hne : gicdEnableGetN irq ≠ 0 := by
          rw [gicdEnableGetN_eq]
          have := hshared.1
          unfold GIC_SPI_BASE at this
          omega
        simp only [Gicd.bank_setBank]
        split
        · next hb =>
          subst hb
          exact Vector.getElem_set_ne hn (by decide) hne
        · rfl
      · have := hshared.2
        omega
    · next hprivate hshared =>
      obtain rfl := Except.ok.inj h
      refine ⟨hbits, ⟨rfl, rfl⟩, fun b => rfl, fun _ => rfl, fun hlow hirq => ?_⟩
      exact absurd ⟨hlow, hirq⟩ hshared

end

/-- A run of calls: each touches its own interrupt only, and the shift for the word it writes is one that C
defines. -/
def GicRunExact : Gic → List (GicOp × Nat) → Prop
  | _, [] => True
  | g, (op, irq) :: calls => ∃ g', op.run g irq = .ok g' ∧ TouchesOwn op irq g g' ∧
      (irq < GIC_SPI_END → gicEnableShift irq < 32) ∧ GicRunExact g' calls

/-- The shift is by the whole id. -/
theorem gicEnableShift_lt_iff {irq : Nat} (h : irq < GIC_SPI_END) : gicEnableShift irq < 32 ↔ irq < GIC_PPI_END := by
  unfold GIC_SPI_END GIC_PPI_END gicEnableShift at *
  rw [u32_of_lt (by omega)]

/-- **The bit operations.** In a run of enabling, disabling, asserting and clearing with any ids, every call
changes exactly the bit of its interrupt, with its registers inside their arrays and with a shift of less than 32,
if and only if no call is about a shared interrupt. -/
theorem gicRunExact_iff (g : Gic) (calls : List (GicOp × Nat)) :
    GicRunExact g calls ↔ ∀ call ∈ calls, call.2 < GIC_PPI_END ∨ GIC_SPI_END ≤ call.2 := by
  induction calls generalizing g with
  | nil => exact ⟨fun _ call hcall => absurd hcall List.not_mem_nil, fun _ => trivial⟩
  | cons call calls ih =>
    obtain ⟨op, irq⟩ := call
    rw [List.forall_mem_cons]
    constructor
    · rintro ⟨g', -, -, hshift, hrest⟩
      refine ⟨?_, (ih g').1 hrest⟩
      rcases Nat.lt_or_ge irq GIC_SPI_END with hirq | hirq
      · exact .inl ((gicEnableShift_lt_iff hirq).1 (hshift hirq))
      · exact .inr hirq
    · rintro ⟨hirq, hrest⟩
      obtain ⟨g', hrun⟩ := gicBitOp_total op.bank op.view g irq
      rw [← GicOp.run_eq] at hrun
      refine ⟨g', hrun, GicOp.touchesOwn op hrun, fun hlt => ?_, (ih g').2 hrest⟩
      exact (gicEnableShift_lt_iff hlt).2 (hirq.resolve_right (Nat.not_le.2 hlt))

/-- The first shared interrupt, enabled. -/
theorem not_gicRunExact_enable_spi : ¬ GicRunExact
    ⟨⟨Vector.replicate 32 0#32, Vector.replicate 32 0#32, Vector.replicate 64 0#32⟩, ⟨0#32, 0#32, 0#32⟩⟩
    [(.enable, GIC_SPI_BASE)] := by
  rintro ⟨g', -, -, hshift, -⟩
  exact absurd (hshift (by decide)) (by decide)

end GunyahRuntime
