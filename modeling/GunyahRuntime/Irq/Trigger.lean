/-
# GunyahRuntime.Irq.Trigger -- what `platform_irq_set_trigger` changes (`gicv3.c`)

The configuration of an interrupt is two bits of an `icfgr` register, of which the upper one says "edge". A
change of it is bracketed by disabling the interrupt and enabling it again, if it was enabled. So the bits of the
enable registers are read before and after, one by one, through `Gic.bit`.

The function does not do its work for the first private peripheral interrupt, which it takes for a software
generated one. `platformIrqSetTrigger_effect_iff` says where exactly that shows.
-/
import GunyahRuntime.Irq.Dispatch

namespace GunyahRuntime

/-- The two configuration bits of an interrupt. Software generated ones are always edge triggered. -/
def Gic.cfg (g : Gic) (irq : Nat) : BitVec 2 :=
  if irq < GIC_SGI_END then 2
  else if irq < GIC_PPI_END then g.gicr.icfgr1.extractLsb' (2 * (irq % 16)) 2
  else if h : irq / 16 < 64 then g.gicd.icfgr[irq / 16].extractLsb' (2 * (irq % 16)) 2
  else 0

/-- Whether an interrupt is configured as edge triggered. -/
def Gic.edge (g : Gic) (irq : Nat) : Bool := (g.cfg irq).getLsbD 1

/-- The configuration that a trigger asks for, where the controller has one. -/
def requestedEdge (trigger : Int) : Option Bool :=
  if trigger = IRQ_TRIGGER_LEVEL_HIGH then some false
  else if trigger = IRQ_TRIGGER_EDGE_RISING then some true
  else none

/-- What a call promises: an answer of true means the configuration is the requested one; peripheral interrupts
get both configurations there are; nothing else is configured or enabled otherwise than before; and an answer of
false means that nothing was done. -/
structure TriggerEffect (g g' : Gic) (irq : Nat) (trigger : Int) (valid : Bool) : Prop where
  takes : valid = true → requestedEdge trigger = some (g'.edge irq)
  answers : GIC_PPI_BASE ≤ irq → irq < GIC_SPI_END → (requestedEdge trigger).isSome → valid = true
  others : ∀ j ≠ irq, g'.cfg j = g.cfg j
  enabled : ∀ j, g'.bit .enabler j = g.bit .enabler j
  refused : valid = false → g' = g

/-! ## Bits -/

theorem getLsbD_one_shift {i : Nat} (hi : i < 32) (k : Nat) :
    (1#32 <<< i).getLsbD k = decide (k = i) := by
  rw [← BitVec.twoPow_eq, BitVec.getLsbD_twoPow, decide_eq_true hi, Bool.true_and]
  exact decide_eq_decide.2 eq_comm

/-- The bit that the update writes. -/
theorem getLsbD_icfgrUpdate (irq : Nat) (edge : Bool) (w : BitVec 32) {k : Nat} (hk : k < 32) :
    (icfgrUpdate irq edge w).getLsbD k = if k = icfgrIndex irq then edge else w.getLsbD k := by
  have hindex : icfgrIndex irq < 32 := by
    unfold icfgrIndex
    omega
  have hbit := getLsbD_one_shift hindex k
  unfold icfgrUpdate
  by_cases heq : k = icfgrIndex irq <;> cases edge <;>
    simp [BitVec.getLsbD_or, BitVec.getLsbD_and, BitVec.getLsbD_not, hbit, heq, hk, hindex,
      -BitVec.getLsbD_eq_getElem]

/-- The two bits of an interrupt in a register. -/
theorem getLsbD_pair (w : BitVec 32) (n : Nat) {b : Nat} (hb : b < 2) :
    (w.extractLsb' (2 * n) 2).getLsbD b = w.getLsbD (2 * n + b) := by
  rw [BitVec.getLsbD_extractLsb', decide_eq_true hb, Bool.true_and]

theorem icfgrUpdate_edge (irq : Nat) (edge : Bool) (w : BitVec 32) :
    ((icfgrUpdate irq edge w).extractLsb' (2 * (irq % 16)) 2).getLsbD 1 = edge := by
  rw [getLsbD_pair _ _ (by decide), getLsbD_icfgrUpdate irq edge w (by omega), if_pos]
  unfold icfgrIndex
  omega

theorem icfgrUpdate_others {irq j : Nat} (edge : Bool) (w : BitVec 32) (h : j % 16 ≠ irq % 16) :
    (icfgrUpdate irq edge w).extractLsb' (2 * (j % 16)) 2 = w.extractLsb' (2 * (j % 16)) 2 := by
  apply BitVec.eq_of_getLsbD_eq
  intro b hb
  rw [getLsbD_pair _ _ hb, getLsbD_pair _ _ hb, getLsbD_icfgrUpdate irq edge w (by omega), if_neg]
  unfold icfgrIndex
  omega

/-- The test of an enable bit. -/
theorem and_gicEnableBit (w : BitVec 32) (irq : Nat) :
    (w &&& gicEnableBit irq ≠ 0) ↔ w.getLsbD (irq % 32) = true := by
  have hmod : irq % 32 < 32 := Nat.mod_lt _ (by decide)
  constructor
  · intro hne
    by_contra hclear
    refine hne (BitVec.eq_of_getLsbD_eq fun k hk => ?_)
    rw [BitVec.getLsbD_and, getLsbD_gicEnableBit irq hk]
    by_cases heq : k = irq % 32
    · rw [heq, Bool.eq_false_iff.2 hclear, Bool.false_and]
      exact BitVec.getLsbD_zero.symm
    · rw [decide_eq_false heq, Bool.and_false]
      exact BitVec.getLsbD_zero.symm
  · intro hset hzero
    have hbit : (w &&& gicEnableBit irq).getLsbD (irq % 32) = true := by
      rw [BitVec.getLsbD_and, hset, getLsbD_gicEnableBit irq hmod, decide_eq_true rfl, Bool.and_self]
    rw [hzero, BitVec.ofNat_eq_ofNat, BitVec.getLsbD_zero] at hbit
    cases hbit

/-! ## The bracket -/

/-- The configuration registers are the same. -/
structure SameConfig (g g' : Gic) : Prop where
  icfgr : g'.gicd.icfgr = g.gicd.icfgr
  icfgr1 : g'.gicr.icfgr1 = g.gicr.icfgr1

theorem SameConfig.refl (g : Gic) : SameConfig g g := ⟨rfl, rfl⟩

theorem SameConfig.cfg {g g' : Gic} (h : SameConfig g g') (irq : Nat) : g'.cfg irq = g.cfg irq := by
  unfold Gic.cfg
  rw [h.icfgr, h.icfgr1]

theorem gicBitOp_config {bank : GicBank} {view : BitVec 32 → BitVec 32 → BitVec 32} {g g' : Gic} {irq : Nat}
    (h : gicBitOp bank view g irq = .ok g') : SameConfig g g' := by
  unfold gicBitOp at h
  split at h
  · obtain rfl := Except.ok.inj h
    cases bank <;> exact ⟨rfl, rfl⟩
  · split at h
    · obtain ⟨regs, -, h⟩ := bind_eq_ok.1 h
      obtain rfl := Except.ok.inj h
      cases bank <;> exact ⟨rfl, rfl⟩
    · obtain rfl := Except.ok.inj h
      exact .refl _

/-- The bit that an operation is about. -/
theorem gicBitOp_bit_self {bank : GicBank} {view : BitVec 32 → BitVec 32 → BitVec 32} {g g' : Gic} {irq : Nat}
    (h : gicBitOp bank view g irq = .ok g') (hirq : irq < GIC_SPI_END) {b : Bool}
    (hview : ∀ old : BitVec 32, (view old (gicEnableBit irq)).getLsbD (irq % 32) = b) :
    g'.bit bank irq = b := by
  obtain ⟨old, -, hnew⟩ := gicBitOp_written h hirq rfl
  rw [hnew, hview]

theorem platformIrqEnable_bit {g g' : Gic} {irq : Nat} (h : platformIrqEnable g irq = .ok g')
    (hirq : irq < GIC_SPI_END) : g'.bit .enabler irq = true := by
  have hmod : irq % 32 < 32 := Nat.mod_lt _ (by decide)
  refine gicBitOp_bit_self h hirq fun old => ?_
  rw [writeOneToSet, BitVec.getLsbD_or, getLsbD_gicEnableBit irq hmod, decide_eq_true rfl, Bool.or_true]

/-- **The bracket leaves the enable bits**, if it is told the one of its interrupt and the change leaves them;
and the configuration it leaves is that of the change. -/
theorem whileDisabled_spec {change : Gic → Exec Gic}
    (hchange : ∀ g₁ g₂, change g₁ = .ok g₂ → ∀ j, g₂.bit .enabler j = g₁.bit .enabler j) {enabled : Bool}
    {g g' : Gic} {irq : Nat} (h : whileDisabled enabled g irq change = .ok g') (hirq : irq < GIC_SPI_END)
    (henabled : enabled = g.bit .enabler irq) :
    (∀ j, g'.bit .enabler j = g.bit .enabler j) ∧
      ∃ g₁ g₂, change g₁ = .ok g₂ ∧ SameConfig g g₁ ∧ SameConfig g₂ g' := by
  obtain ⟨g₁, h₁, h⟩ := bind_eq_ok.1 h
  obtain ⟨g₂, h₂, h₃⟩ := bind_eq_ok.1 h
  unfold whenEnabled at h₁ h₃
  cases enabled with
  | false =>
    simp only [Bool.false_eq_true, if_false] at h₁ h₃
    obtain rfl := Except.ok.inj h₁
    obtain rfl := Except.ok.inj h₃
    exact ⟨hchange _ _ h₂, _, _, h₂, .refl _, .refl _⟩
  | true =>
    simp only [if_true] at h₁ h₃
    refine ⟨fun j => ?_, g₁, g₂, h₂, gicBitOp_config h₁, gicBitOp_config h₃⟩
    by_cases hj : j = irq
    · rw [hj, platformIrqEnable_bit h₃ hirq, henabled]
    · rw [gicBitOp_bit_of_ne bitView_set h₃ _ hj, hchange _ _ h₂,
        gicBitOp_bit_of_ne bitView_clear h₁ _ hj]

/-! ## The three ranges -/

/-- A change of the register of the private peripheral interrupts. -/
theorem ppi_cfg (g : Gic) {irq : Nat} (edge : Bool) (hlow : GIC_SGI_END ≤ irq) (hhigh : irq < GIC_PPI_END) :
    let g' : Gic := { g with gicr.icfgr1 := icfgrUpdate irq edge g.gicr.icfgr1 }
    g'.edge irq = edge ∧ ∀ j ≠ irq, g'.cfg j = g.cfg j := by
  intro g'
  constructor
  · unfold Gic.edge Gic.cfg
    rw [if_neg (Nat.not_lt.2 hlow), if_pos hhigh]
    exact icfgrUpdate_edge irq edge _
  · intro j hj
    unfold Gic.cfg
    split
    · rfl
    · split
      · refine icfgrUpdate_others edge _ ?_
        unfold GIC_SGI_END GIC_PPI_END at *
        omega
      · rfl

/-- A change of one of the registers of the shared peripheral interrupts. -/
theorem spi_cfg (g : Gic) {irq : Nat} (edge : Bool) (hlow : GIC_PPI_END ≤ irq) (hhigh : irq / 16 < 64)
    {icfgr : Vector (BitVec 32) 64}
    (hstore : regStore g.gicd.icfgr (irq / 16) (icfgrUpdate irq edge) = .ok icfgr) :
    let g' : Gic := { g with gicd.icfgr := icfgr }
    g'.edge irq = edge ∧ ∀ j ≠ irq, g'.cfg j = g.cfg j := by
  intro g'
  rw [regStore_ok _ _ hhigh, Except.ok.injEq] at hstore
  have hsgi : ¬ irq < GIC_SGI_END := by
    unfold GIC_SGI_END GIC_PPI_END at *
    omega
  constructor
  · unfold Gic.edge Gic.cfg
    rw [if_neg hsgi, if_neg (Nat.not_lt.2 hlow), dif_pos hhigh]
    simp only [g', ← hstore, Vector.getElem_set_self]
    exact icfgrUpdate_edge irq edge _
  · intro j hj
    unfold Gic.cfg
    split
    · rfl
    · split
      · rfl
      · split
        · next hword =>
          simp only [g', ← hstore, Vector.getElem_set]
          split
          · next heq =>
            simp only [heq]
            refine icfgrUpdate_others edge _ ?_
            omega
          · rfl
        · rfl

/-- The effect, where there is a bracketed change. -/
theorem TriggerEffect.of_change {g g' : Gic} {irq : Nat} {trigger : Int} {edge enabled : Bool}
    {change : Gic → Exec Gic} (hrun : whileDisabled enabled g irq change = .ok g')
    (hirq : irq < GIC_SPI_END) (henabled : enabled = g.bit .enabler irq)
    (hrequest : requestedEdge trigger = some edge)
    (hchange : ∀ g₁ g₂, change g₁ = .ok g₂ → (∀ j, g₂.bit .enabler j = g₁.bit .enabler j) ∧
      g₂.edge irq = edge ∧ ∀ j ≠ irq, g₂.cfg j = g₁.cfg j) :
    TriggerEffect g g' irq trigger true := by
  obtain ⟨henabler, g₁, g₂, hstep, hbefore, hafter⟩ :=
    whileDisabled_spec (fun g₁ g₂ h => (hchange g₁ g₂ h).1) hrun hirq henabled
  obtain ⟨-, hedge, hothers⟩ := hchange g₁ g₂ hstep
  refine ⟨fun _ => ?_, fun _ _ _ => rfl, fun j hj => ?_, henabler, fun h => absurd h (by decide)⟩
  · rw [hrequest, Gic.edge, hafter.cfg]
    exact congrArg some hedge.symm
  · rw [hafter.cfg, hothers j hj, hbefore.cfg]

/-- Nothing is done and nothing is promised. -/
theorem TriggerEffect.of_refused {g : Gic} {irq : Nat} {trigger : Int}
    (h : GIC_PPI_BASE ≤ irq → irq < GIC_SPI_END → (requestedEdge trigger).isSome = false) :
    TriggerEffect g g irq trigger false :=
  ⟨fun h => absurd h (by decide), fun hlow hhigh hsome => absurd hsome (by simp [h hlow hhigh]),
    fun _ _ => rfl, fun _ => rfl, fun _ => rfl⟩

theorem triggerKind_eq (trigger : Int) :
    triggerKind trigger = ((requestedEdge trigger).getD false, (requestedEdge trigger).isSome) := by
  unfold triggerKind requestedEdge
  split_ifs <;> rfl

/-- A trigger that the controller has no configuration for. -/
theorem platformIrqSetTrigger_none (g : Gic) (irq : Nat) {trigger : Int} (h : requestedEdge trigger = none) :
    platformIrqSetTrigger g irq trigger = .ok (false, g) := by
  unfold platformIrqSetTrigger
  simp [triggerKind_eq, h]

/-- The ids up to 16. -/
theorem platformIrqSetTrigger_sgi (g : Gic) {irq : Nat} {trigger : Int} {edge : Bool}
    (h : requestedEdge trigger = some edge) (hirq : irq ≤ GIC_SGI_END) :
    platformIrqSetTrigger g irq trigger = .ok (edge, g) := by
  unfold platformIrqSetTrigger
  simp [triggerKind_eq, h, hirq, GIC_SGI_BASE]

/-- The peripheral interrupts from 17 on. -/
theorem platformIrqSetTrigger_change (g : Gic) {irq : Nat} {trigger : Int} {edge : Bool}
    (h : requestedEdge trigger = some edge) (hlow : GIC_SGI_END < irq) (hhigh : irq < GIC_SPI_END) :
    ∃ g', platformIrqSetTrigger g irq trigger = .ok (true, g') ∧ TriggerEffect g g' irq trigger true := by
  obtain ⟨⟨valid, g'⟩, hrun⟩ := platformIrqSetTrigger_total g irq trigger
  have hcopy := hrun
  unfold platformIrqSetTrigger at hcopy
  simp only [triggerKind_eq, h, Option.getD_some, Option.isSome_some, not_true, if_false] at hcopy
  rw [if_neg (by omega)] at hcopy
  by_cases hppi : irq < GIC_PPI_END
  · have hrange : irq ≥ GIC_PPI_BASE ∧ irq < GIC_PPI_END := ⟨Nat.le_of_lt hlow, hppi⟩
    rw [if_pos hrange] at hcopy
    obtain ⟨g₁, h₁, hret⟩ := bind_eq_ok.1 hcopy
    obtain ⟨rfl, rfl⟩ := Prod.mk.inj (Except.ok.inj hret)
    have hmod : irq % 32 = irq := Nat.mod_eq_of_lt hppi
    refine ⟨g₁, hrun, TriggerEffect.of_change h₁ hhigh ?_ h fun g₁ g₂ hstep => ?_⟩
    · rw [Gic.bit, if_pos hppi, Bool.eq_iff_iff, decide_eq_true_iff, and_gicEnableBit, hmod]
      rfl
    · obtain rfl := Except.ok.inj hstep
      exact ⟨fun _ => rfl, ppi_cfg g₁ edge (Nat.le_of_lt hlow) hppi⟩
  · have hno : ¬ (irq ≥ GIC_PPI_BASE ∧ irq < GIC_PPI_END) := fun hrange => hppi hrange.2
    have hrange : irq ≥ GIC_SPI_BASE ∧ irq < GIC_SPI_END := ⟨Nat.not_lt.1 hppi, hhigh⟩
    have hword := gicdEnableGetN_lt hhigh
    rw [if_neg hno, if_pos hrange, regLoad_ok _ hword, ok_bind] at hcopy
    obtain ⟨g₁, h₁, hret⟩ := bind_eq_ok.1 hcopy
    obtain ⟨rfl, rfl⟩ := Prod.mk.inj (Except.ok.inj hret)
    refine ⟨g₁, hrun, TriggerEffect.of_change h₁ hhigh ?_ h fun g₁ g₂ hstep => ?_⟩
    · rw [Gic.bit, if_neg hppi, dif_pos hword, Bool.eq_iff_iff, decide_eq_true_iff, and_gicEnableBit]
      rfl
    · obtain ⟨icfgr, hstore, hstep⟩ := bind_eq_ok.1 hstep
      obtain rfl := Except.ok.inj hstep
      refine ⟨fun _ => rfl, spi_cfg g₁ edge (Nat.not_lt.1 hppi) ?_ hstore⟩
      unfold GIC_SPI_END at hhigh
      omega

theorem requestedEdge_iff {trigger : Int} {edge : Bool} (h : requestedEdge trigger = some edge) :
    (edge = false ↔ trigger = IRQ_TRIGGER_LEVEL_HIGH) ∧ (edge = true ↔ trigger = IRQ_TRIGGER_EDGE_RISING) := by
  unfold requestedEdge at h
  split_ifs at h with hlevel hedge <;> obtain rfl := Option.some.inj h
  · exact ⟨iff_of_true rfl hlevel, iff_of_false (by decide) (by rw [hlevel]; decide)⟩
  · exact ⟨iff_of_false (by decide) hlevel, iff_of_true rfl hedge⟩

/-- Up to number 16 the registers stay as they are. This is the right effect below 16, where all interrupts are edges,
and at 16 if it was one already. -/
theorem triggerEffect_unchanged_iff {g : Gic} {irq : Nat} {trigger : Int} {edge : Bool}
    (hrequest : requestedEdge trigger = some edge) (hle : irq ≤ GIC_SGI_END) :
    TriggerEffect g g irq trigger edge ↔
      (irq = GIC_SGI_END → trigger ≠ IRQ_TRIGGER_LEVEL_HIGH ∧
        (trigger = IRQ_TRIGGER_EDGE_RISING → g.edge irq = true)) := by
  obtain ⟨hfalse, htrue⟩ := requestedEdge_iff hrequest
  constructor
  · intro heffect heq
    have hanswer : edge = true := heffect.answers (Nat.le_of_eq heq.symm)
      (by rw [heq]; decide) (by rw [hrequest]; rfl)
    refine ⟨fun hlevel => ?_, fun _ => ?_⟩
    · rw [hfalse.2 hlevel] at hanswer
      cases hanswer
    · have htakes := heffect.takes hanswer
      rw [hrequest, hanswer] at htakes
      exact (Option.some.inj htakes).symm
  · intro hcond
    refine ⟨fun hedge => ?_, fun hlow _ _ => ?_, fun _ _ => rfl, fun _ => rfl, fun _ => rfl⟩
    · rw [hrequest, hedge]
      rcases Nat.lt_or_ge irq GIC_SGI_END with hlt | hge
      · rw [Gic.edge, Gic.cfg, if_pos hlt]
        rfl
      · rw [(hcond (Nat.le_antisymm hle hge)).2 (htrue.1 hedge)]
    · have heq : irq = GIC_SGI_END := Nat.le_antisymm hle hlow
      rw [← Bool.not_eq_false, hfalse]
      exact (hcond heq).1

/-- **When the trigger takes effect.** For every state of the registers, every interrupt and every trigger: exactly
unless the interrupt is number 16 and the trigger is either the level, or the edge where the level was
configured. -/
theorem platformIrqSetTrigger_effect_iff (g : Gic) (irq : Nat) (trigger : Int) :
    (∃ valid g', platformIrqSetTrigger g irq trigger = .ok (valid, g') ∧
        TriggerEffect g g' irq trigger valid) ↔
      (irq = GIC_SGI_END → trigger ≠ IRQ_TRIGGER_LEVEL_HIGH ∧
        (trigger = IRQ_TRIGGER_EDGE_RISING → g.edge irq = true)) := by
  cases hrequest : requestedEdge trigger with
  | none =>
    refine iff_of_true ⟨_, _, platformIrqSetTrigger_none g irq hrequest, .of_refused ?_⟩ fun _ => ?_
    · exact fun _ _ => by rw [hrequest]; rfl
    · unfold requestedEdge at hrequest
      split_ifs at hrequest with hlevel hedge
      exact ⟨hlevel, fun h => absurd h hedge⟩
  | some edge =>
    rcases Nat.lt_or_ge GIC_SGI_END irq with hgt | hle
    · refine iff_of_true ?_ fun heq => absurd heq (Nat.ne_of_gt hgt)
      rcases Nat.lt_or_ge irq GIC_SPI_END with hlt | hge
      · obtain ⟨g', hrun, heffect⟩ := platformIrqSetTrigger_change g hrequest hgt hlt
        exact ⟨_, _, hrun, heffect⟩
      · exact ⟨_, _, platformIrqSetTrigger_outside g hge trigger,
          .of_refused fun _ hlt => absurd hlt (Nat.not_lt.2 hge)⟩
    · have hrun := platformIrqSetTrigger_sgi g hrequest hle
      rw [← triggerEffect_unchanged_iff hrequest hle, hrun]
      -- both sides speak about the answer `edge` and the unchanged registers
      constructor
      · rintro ⟨valid, g', heq, heffect⟩
        obtain ⟨rfl, rfl⟩ := Prod.mk.inj (Except.ok.inj heq)
        exact heffect
      · exact fun heffect => ⟨_, _, rfl, heffect⟩

/-- Interrupt 16 of a controller that is reset, set to level: refused, though it is a peripheral interrupt. -/
theorem not_triggerEffect_first_ppi :
    ¬ ∀ (g : Gic) (irq : Nat) (trigger : Int), irq < 4294967296 →
      ∃ valid g', platformIrqSetTrigger g irq trigger = .ok (valid, g') ∧
        TriggerEffect g g' irq trigger valid := by
  intro h
  obtain ⟨valid, g', hrun, heffect⟩ := h IrqState.reset.gic 16 IRQ_TRIGGER_LEVEL_HIGH (by decide)
  obtain ⟨rfl, rfl⟩ := Prod.mk.inj (Except.ok.inj hrun)
  exact absurd (heffect.answers (by decide) (by decide) rfl) (by decide)

end GunyahRuntime
