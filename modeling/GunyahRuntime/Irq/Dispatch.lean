/-
# GunyahRuntime.Irq.Dispatch -- taking interrupts (`interrupt_dispatch`)

The interrupt controller offers an interrupt that is enabled and whose pending bit is set or whose line is
high. Acknowledging it clears the bit; a line that stays high keeps the interrupt pending. Which of the
offered interrupts the controller picks is up to it, so the model takes the choice as an argument, and one
turn of the loop in `interrupt_dispatch` is a function of it. The handlers run on a state of their own.
-/
import GunyahRuntime.Irq.Interrupt

namespace GunyahRuntime

/-- The bit of an interrupt in one of the two kinds of register. -/
def Gic.bit (g : Gic) (bank : GicBank) (irq : Nat) : Bool :=
  if irq < GIC_PPI_END then (g.gicr.bank bank).getLsbD irq
  else if h : gicdEnableGetN irq < 32 then
    (g.gicd.bank bank)[gicdEnableGetN irq].getLsbD (irq % 32)
  else false

/-- Whether the controller offers an interrupt, whose line is high or low. -/
def Gic.offers (g : Gic) (line : Bool) (irq : Nat) : Bool :=
  g.bit .enabler irq && (g.bit .pendr irq || line)

/-- `platform_irq_acknowledge()`, where it returns `irq`: the interrupt is not pending any more on account
of its bit. -/
def platformIrqAcknowledge (g : Gic) (irq : Nat) : Exec Gic := gicBitOp .pendr writeOneToClear g irq

/-- `platform_irq_deactivate(irq)`: the write to the end-of-interrupt register is no part of the state. -/
def platformIrqDeactivate (irq : Nat) : Exec Unit := cassert (irq < GIC_SPI_END)

/-- One turn of the loop of `interrupt_dispatch`, for the acknowledged `irq`. A handler is called by its
address. -/
def dispatchPass {σ : Type} (runIsr : IsrEntry → σ → Bool × σ) (s : IrqState) (t : σ) (irq : Nat) :
    Exec (IrqState × σ) := do
  let entry ← regLoad s.isrTable irq
  if entry.isr = 0 then
    let gic ← platformIrqDisable s.gic irq
    platformIrqDeactivate irq
    return ({ s with gic }, t)
  else
    let r := runIsr entry t
    let gic ← whenEnabled (!r.1) platformIrqDisable s.gic irq
    platformIrqDeactivate irq
    return ({ s with gic }, r.2)

/-! ## Bits -/

theorem getLsbD_gicEnableBit (irq : Nat) {k : Nat} (hk : k < 32) :
    (gicEnableBit irq).getLsbD k = decide (k = irq % 32) := by
  have hshift : gicEnableShift irq % 32 = irq % 32 := by
    unfold gicEnableShift u32
    omega
  unfold gicEnableBit
  rw [hshift, BitVec.getLsbD_shiftLeft, BitVec.getLsbD_one]
  by_cases hlt : k < irq % 32
  · simp [hlt, hlt.ne]
  · simp [hk, hlt]
    omega

@[simp] theorem Gicr.bank_setBank (r : Gicr) (b b' : GicBank) (x : BitVec 32) :
    (r.setBank b x).bank b' = if b = b' then x else r.bank b' := by
  cases b <;> cases b' <;> rfl

@[simp] theorem Gicd.bank_setBank (d : Gicd) (b b' : GicBank) (x : Vector (BitVec 32) 32) :
    (d.setBank b x).bank b' = if b = b' then x else d.bank b' := by
  cases b <;> cases b' <;> rfl

/-- The views act bit by bit, and keep the bits where nothing is written. -/
structure BitView (view : BitVec 32 → BitVec 32 → BitVec 32) : Prop where
  keeps : ∀ old written k, written.getLsbD k = false → (view old written).getLsbD k = old.getLsbD k

theorem bitView_set : BitView writeOneToSet :=
  ⟨fun old written k h => by simp [writeOneToSet, h]⟩

theorem bitView_clear : BitView writeOneToClear := by
  refine ⟨fun old written k h => ?_⟩
  by_cases hk : k < 32
  · simp [writeOneToClear, BitVec.getLsbD_and, BitVec.getLsbD_not, h, hk, -BitVec.getLsbD_eq_getElem]
  · rw [BitVec.getLsbD_of_ge _ _ (Nat.not_lt.1 hk), BitVec.getLsbD_of_ge _ _ (Nat.not_lt.1 hk)]

theorem gicdEnableGetN_eq (irq : Nat) : gicdEnableGetN irq = irq / 32 := by
  unfold gicdEnableGetN
  rw [Nat.shiftRight_eq_div_pow]

/-- What an operation writes to: the register that has the bit of `irq`, if there is one. -/
theorem gicBitOp_written {bank : GicBank} {view : BitVec 32 → BitVec 32 → BitVec 32} {g g' : Gic} {irq j : Nat}
    (h : gicBitOp bank view g irq = .ok g') (hirq : irq < GIC_SPI_END) (hword : j / 32 = irq / 32) :
    ∃ old : BitVec 32, g.bit bank j = old.getLsbD (j % 32) ∧
      g'.bit bank j = (view old (gicEnableBit irq)).getLsbD (j % 32) := by
  unfold gicBitOp GIC_SGI_BASE GIC_PPI_END GIC_SPI_BASE at h
  unfold Gic.bit GIC_PPI_END
  by_cases hprivate : irq < 32
  · rw [if_pos ⟨Nat.zero_le _, hprivate⟩] at h
    obtain rfl := Except.ok.inj h
    have hj : j < 32 := by omega
    refine ⟨g.gicr.bank bank, ?_, ?_⟩
    · rw [if_pos hj, Nat.mod_eq_of_lt hj]
    · rw [if_pos hj, Gicr.bank_setBank, if_pos rfl, Nat.mod_eq_of_lt hj]
  · rw [if_neg (fun hlow => hprivate hlow.2), if_pos ⟨Nat.not_lt.1 hprivate, hirq⟩] at h
    obtain ⟨regs, hregs, h⟩ := bind_eq_ok.1 h
    obtain rfl := Except.ok.inj h
    have hn := gicdEnableGetN_lt hirq
    rw [regStore_ok _ _ hn, Except.ok.injEq] at hregs
    have hsame : gicdEnableGetN j = gicdEnableGetN irq := by
      rw [gicdEnableGetN_eq, gicdEnableGetN_eq, hword]
    have hj : ¬ j < 32 := by omega
    refine ⟨(g.gicd.bank bank)[gicdEnableGetN irq], ?_, ?_⟩
    · simp only [hj, if_false, hsame, hn, dif_pos]
    · simp only [hj, if_false, hsame, hn, dif_pos, Gicd.bank_setBank, if_true, ← hregs, Vector.getElem_set_self]

/-- And what it does not write to. -/
theorem gicBitOp_kept {bank b : GicBank} {view : BitVec 32 → BitVec 32 → BitVec 32} {g g' : Gic} {irq j : Nat}
    (h : gicBitOp bank view g irq = .ok g') (hother : bank = b → irq < GIC_SPI_END → j / 32 ≠ irq / 32) :
    g'.bit b j = g.bit b j := by
  unfold gicBitOp at h
  unfold Gic.bit
  split at h
  · next hirq =>
    obtain rfl := Except.ok.inj h
    rw [Gicr.bank_setBank]
    split
    · next hj =>
      rw [if_neg]
      rintro rfl
      unfold GIC_PPI_END GIC_SPI_END at *
      have hne := hother rfl (by omega)
      omega
    · rfl
  · split at h
    · next hirq =>
      obtain ⟨regs, hregs, h⟩ := bind_eq_ok.1 h
      obtain rfl := Except.ok.inj h
      rw [regStore_ok _ _ (gicdEnableGetN_lt hirq.2), Except.ok.injEq] at hregs
      subst hregs
      simp only [Gicd.bank_setBank]
      split
      · rfl
      · split
        · split
          · next hb =>
            subst hb
            rw [Vector.getElem_set_ne]
            rw [gicdEnableGetN_eq, gicdEnableGetN_eq]
            exact (hother rfl hirq.2).symm
          · rfl
        · rfl
    · obtain rfl := Except.ok.inj h
      rfl

/-- An operation on one interrupt leaves the bits of the others. -/
theorem gicBitOp_bit_of_ne {bank : GicBank} {view : BitVec 32 → BitVec 32 → BitVec 32}
    (hview : BitView view) {g g' : Gic} {irq : Nat} (h : gicBitOp bank view g irq = .ok g')
    (b : GicBank) {j : Nat} (hj : j ≠ irq) : g'.bit b j = g.bit b j := by
  by_cases hwritten : bank = b ∧ irq < GIC_SPI_END ∧ j / 32 = irq / 32
  · obtain ⟨rfl, hirq, hword⟩ := hwritten
    obtain ⟨old, hold, hnew⟩ := gicBitOp_written h hirq hword
    rw [hold, hnew]
    apply hview.keeps
    rw [getLsbD_gicEnableBit _ (Nat.mod_lt _ (by decide))]
    exact decide_eq_false (by omega)
  · exact gicBitOp_kept h fun hb hirq hword => hwritten ⟨hb, hirq, hword⟩

/-- An operation on the other kind of register leaves the bits of this one. -/
theorem gicBitOp_bit_other {bank b : GicBank} (hb : bank ≠ b) {view : BitVec 32 → BitVec 32 → BitVec 32}
    {g g' : Gic} {irq : Nat} (h : gicBitOp bank view g irq = .ok g') (j : Nat) :
    g'.bit b j = g.bit b j :=
  gicBitOp_kept h fun hsame => absurd hsame hb

/-- Clearing leaves clear what is clear. -/
theorem gicBitOp_clear_bit {bank b : GicBank} {g g' : Gic} {irq j : Nat}
    (h : gicBitOp bank writeOneToClear g irq = .ok g') (hj : g.bit b j = false) :
    g'.bit b j = false := by
  by_cases hwritten : bank = b ∧ irq < GIC_SPI_END ∧ j / 32 = irq / 32
  · obtain ⟨rfl, hirq, hword⟩ := hwritten
    obtain ⟨old, hold, hnew⟩ := gicBitOp_written h hirq hword
    rw [hnew, writeOneToClear, BitVec.getLsbD_and, ← hold, hj, Bool.false_and]
  · rw [gicBitOp_kept h fun hb hirq hword => hwritten ⟨hb, hirq, hword⟩, hj]

theorem whenEnabled_pendr {enabled : Bool} {view : BitVec 32 → BitVec 32 → BitVec 32} {g g' : Gic}
    {irq : Nat} (h : whenEnabled enabled (gicBitOp .enabler view) g irq = .ok g') (j : Nat) :
    g'.bit .pendr j = g.bit .pendr j := by
  unfold whenEnabled at h
  split at h
  · exact gicBitOp_bit_other (by decide) h j
  · obtain rfl := Except.ok.inj h
    rfl

/-- A change of configuration that leaves the pending bits leaves them in its bracket. -/
theorem whileDisabled_pendr {change : Gic → Exec Gic}
    (hchange : ∀ g g', change g = .ok g' → ∀ j, g'.bit .pendr j = g.bit .pendr j) {enabled : Bool}
    {g g' : Gic} {irq : Nat} (h : whileDisabled enabled g irq change = .ok g') (j : Nat) :
    g'.bit .pendr j = g.bit .pendr j := by
  obtain ⟨g₁, h₁, h⟩ := bind_eq_ok.1 h
  obtain ⟨g₂, h₂, h⟩ := bind_eq_ok.1 h
  rw [whenEnabled_pendr h, hchange _ _ h₂, whenEnabled_pendr h₁]

/-- The trigger is no matter of the pending bits. -/
theorem platformIrqSetTrigger_pendr {g g' : Gic} {irq : Nat} {trigger : Int} {valid : Bool}
    (h : platformIrqSetTrigger g irq trigger = .ok (valid, g')) (j : Nat) :
    g'.bit .pendr j = g.bit .pendr j := by
  unfold platformIrqSetTrigger at h
  dsimp only at h
  split at h
  · obtain ⟨-, rfl⟩ := Prod.mk.inj (Except.ok.inj h)
    rfl
  split at h
  · obtain ⟨-, rfl⟩ := Prod.mk.inj (Except.ok.inj h)
    rfl
  split at h
  · obtain ⟨g₁, h₁, h⟩ := bind_eq_ok.1 h
    obtain ⟨-, rfl⟩ := Prod.mk.inj (Except.ok.inj h)
    refine whileDisabled_pendr (fun g g' hg => ?_) h₁ j
    obtain rfl := Except.ok.inj hg
    exact fun _ => rfl
  split at h
  · obtain ⟨_, -, h⟩ := bind_eq_ok.1 h
    obtain ⟨g₁, h₁, h⟩ := bind_eq_ok.1 h
    obtain ⟨-, rfl⟩ := Prod.mk.inj (Except.ok.inj h)
    refine whileDisabled_pendr (fun g g' hg => ?_) h₁ j
    obtain ⟨_, -, hg⟩ := bind_eq_ok.1 hg
    obtain rfl := Except.ok.inj hg
    exact fun _ => rfl
  · obtain ⟨-, rfl⟩ := Prod.mk.inj (Except.ok.inj h)
    rfl

/-- A handler goes where there is none. -/
theorem interruptRegisterIsr_cases {s s' : IrqState} {irq isr data : Nat} {r : Int}
    (h : interruptRegisterIsr s irq isr data = .ok (r, s')) :
    s' = s ∨ ∃ isrTable, regStore s.isrTable irq (fun _ => ⟨isr, data⟩) = .ok isrTable ∧
      s' = { s with isrTable } := by
  unfold interruptRegisterIsr at h
  split at h
  · exact .inl (Prod.mk.inj (Except.ok.inj h)).2.symm
  · obtain ⟨hasIsr, -, h⟩ := bind_eq_ok.1 h
    cases hasIsr with
    | true => exact .inl (Prod.mk.inj (Except.ok.inj h)).2.symm
    | false =>
      obtain ⟨s₁, hset, h⟩ := bind_eq_ok.1 h
      obtain ⟨isrTable, hstore, hset⟩ := bind_eq_ok.1 hset
      obtain rfl := Except.ok.inj hset
      exact .inr ⟨isrTable, hstore, (Prod.mk.inj (Except.ok.inj h)).2.symm⟩

/-- An entry of a table after one has been stored. -/
theorem regLoad_store {α : Type} {n i j : Nat} {regs regs' : Vector α n} {view : α → α} {a : α}
    (h : regStore regs i view = .ok regs') (hload : regLoad regs' j = .ok a) (hne : j ≠ i) :
    regLoad regs j = .ok a := by
  unfold regStore at h
  split at h
  · next hi =>
    obtain rfl := Except.ok.inj h
    unfold regLoad at *
    split at hload
    · next hj => rwa [dif_pos hj, ← Vector.getElem_set_ne hi hj hne.symm]
    · cases hload
  · cases h

/-- The gated operations change the controller only, and only where the interrupt has a handler. -/
theorem assertIrq_cases {s : IrqState} {irq : Nat} {assert : Bool} {r : Int × IrqState}
    (h : assertIrq s irq assert = .ok r) :
    r.2 = s ∨ ∃ gic, r.2 = { s with gic } ∧
      (if assert then platformIrqAssert s.gic irq else platformIrqClear s.gic irq) = .ok gic := by
  unfold assertIrq gatedIrqOp at h
  obtain ⟨hasIsr, -, h⟩ := bind_eq_ok.1 h
  cases hasIsr with
  | false =>
    obtain rfl := Except.ok.inj h
    exact .inl rfl
  | true =>
    cases assert <;>
    · obtain ⟨gic, hgic, h⟩ := bind_eq_ok.1 h
      obtain rfl := Except.ok.inj h
      exact .inr ⟨gic, rfl, hgic⟩

/-! ## One turn -/

section Turn

variable {σ : Type} {runIsr : IsrEntry → σ → Bool × σ} {s s' : IrqState} {t t' : σ} {irq : Nat}

/-- A turn leaves the table and the pending bits, and runs the handler of its interrupt or none. -/
theorem dispatchPass_spec (h : dispatchPass runIsr s t irq = .ok (s', t')) :
    s'.isrTable = s.isrTable ∧ (∀ j, s'.gic.bit .pendr j = s.gic.bit .pendr j) ∧
      ∃ entry, regLoad s.isrTable irq = .ok entry ∧
        t' = if entry.isr = 0 then t else (runIsr entry t).2 := by
  unfold dispatchPass at h
  obtain ⟨entry, hload, h⟩ := bind_eq_ok.1 h
  by_cases hz : entry.isr = 0
  · rw [if_pos hz] at h
    obtain ⟨gic, hgic, h⟩ := bind_eq_ok.1 h
    obtain ⟨-, -, h⟩ := bind_eq_ok.1 h
    obtain ⟨rfl, rfl⟩ := Prod.mk.inj (Except.ok.inj h)
    exact ⟨rfl, gicBitOp_bit_other (by decide) hgic, entry, hload, (if_pos hz).symm⟩
  · rw [if_neg hz] at h
    obtain ⟨gic, hgic, h⟩ := bind_eq_ok.1 h
    obtain ⟨-, -, h⟩ := bind_eq_ok.1 h
    obtain ⟨rfl, rfl⟩ := Prod.mk.inj (Except.ok.inj h)
    refine ⟨rfl, ?_, entry, hload, (if_neg hz).symm⟩
    unfold whenEnabled at hgic
    split at hgic
    · exact gicBitOp_bit_other (by decide) hgic
    · obtain rfl := Except.ok.inj hgic
      exact fun _ => rfl

end Turn

end GunyahRuntime
