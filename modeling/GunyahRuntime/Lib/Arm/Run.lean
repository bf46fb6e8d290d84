/-
# GunyahRuntime.Lib.Arm.Run -- rules for showing what a program returns

`Returns at Q pc s` says of a run from position `pc` that it returns, in a state that satisfies `Q`, and that
whatever it passes on the way satisfies `At`. There is a rule for each instruction that goes somewhere, and one
for a block of instructions that fall through: the program has the block at `pc`, and the run goes on behind it
in the state that the block makes. So a proof walks down a listing, block by block. A run that is `Stuck` does not
return at all. Both go back a step, and what follows from that alone is stated once, for any `Backward` property.

What a block leaves alone is read off the list of registers that its instructions write to.

Nothing here names a program.
-/
import GunyahRuntime.Lib.Arm.Machine

namespace GunyahRuntime.Lib.Arm

/-! ## Registers -/

section Registers

variable {s : Cpu} {r q : Reg} {value : BitVec 64}

theorem Cpu.get_of_ne (h : r ≠ 31) : s.get r = s.x r := if_neg h

theorem Cpu.set_x_self (h : r ≠ 31) : (s.set r value).x r = value := by
  simp [Cpu.set, h]

theorem Cpu.set_x_of_ne (h : q ≠ r) : (s.set r value).x q = s.x q := by
  by_cases hr : r = 31
  · simp [Cpu.set, hr]
  · simp [Cpu.set, hr, h]

@[simp] theorem Cpu.set_zero : s.set 31 value = s := if_pos rfl

@[simp] theorem Cpu.set_flags : (s.set r value).flags = s.flags := by
  unfold Cpu.set; split <;> rfl

@[simp] theorem Cpu.set_mem : (s.set r value).mem = s.mem := by
  unfold Cpu.set; split <;> rfl

@[simp] theorem Cpu.set_reads : (s.set r value).reads = s.reads := by
  unfold Cpu.set; split <;> rfl

@[simp] theorem Cpu.writeBack_mem (mode : Mode) : (s.writeBack r mode).mem = s.mem := by
  cases mode <;> simp [Cpu.writeBack]

@[simp] theorem Cpu.writeBack_flags (mode : Mode) : (s.writeBack r mode).flags = s.flags := by
  cases mode <;> simp [Cpu.writeBack]

@[simp] theorem Cpu.writeBack_reads (mode : Mode) : (s.writeBack r mode).reads = s.reads := by
  cases mode <;> simp [Cpu.writeBack]

theorem Cpu.writeBack_x_of_ne {mode : Mode} (h : q ≠ r) : (s.writeBack r mode).x q = s.x q := by
  cases mode <;> simp [Cpu.writeBack, Cpu.set_x_of_ne h]

end Registers

/-! ## Blocks -/

/-- The registers an addressing mode writes to. -/
def Mode.dests (rn : Reg) : Mode → List Reg
  | .off _ => []
  | .post _ => [rn]
  | .pre _ => [rn]

/-- The registers an instruction writes to. -/
def Op.dests : Op → List Reg
  | .ldp rt rt2 rn mode => rt :: rt2 :: mode.dests rn
  | .stp _ _ rn mode => mode.dests rn
  | .ldr _ rt rn mode => rt :: mode.dests rn
  | .str _ _ rn mode => mode.dests rn
  | .add rd _ _ => [rd]
  | .sub rd _ _ => [rd]
  | .adds rd _ _ => [rd]
  | .subs rd _ _ => [rd]
  | .and rd _ _ => [rd]
  | .bic rd _ _ => [rd]
  | .addReg rd _ _ _ => [rd]
  | .subReg rd _ _ _ => [rd]
  | .orrReg rd _ _ _ => [rd]
  | .lsr rd _ _ => [rd]
  | .mov rd _ => [rd]
  | .neg rd _ => [rd]
  | .prfm _ _ => []
  | .dcZva _ _ => []

def Op.setsFlags : Op → Bool
  | .adds _ _ _ => true
  | .subs _ _ _ => true
  | _ => false

/-- A block, run from its first instruction to its last. -/
def Cpu.execs (s : Cpu) (ops : List Op) : Cpu := ops.foldl Op.exec s

@[simp] theorem Cpu.execs_nil (s : Cpu) : s.execs [] = s := rfl

@[simp] theorem Cpu.execs_cons (s : Cpu) (o : Op) (ops : List Op) :
    s.execs (o :: ops) = (o.exec s).execs ops := rfl

theorem Cpu.execs_append (s : Cpu) (ops ops' : List Op) :
    s.execs (ops ++ ops') = (s.execs ops).execs ops' := List.foldl_append

/-- The base register after an access. -/
theorem Cpu.writeBack_x_frame {s : Cpu} {q rn : Reg} {mode : Mode} (h : q ∉ mode.dests rn) :
    (s.writeBack rn mode).x q = s.x q := by
  cases mode with
  | off imm => rfl
  | post imm => exact Cpu.set_x_of_ne (by simpa [Mode.dests] using h)
  | pre imm => exact Cpu.set_x_of_ne (by simpa [Mode.dests] using h)

/-- A register that an instruction does not write to. -/
theorem Op.exec_x {o : Op} {s : Cpu} {q : Reg} (h : q ∉ o.dests) : (o.exec s).x q = s.x q := by
  cases o <;> simp only [Op.dests, List.mem_cons, List.not_mem_nil, or_false, not_or] at h <;>
    simp_all [Op.exec, Cpu.set_x_of_ne, Cpu.writeBack_x_frame]

theorem Op.exec_flags {o : Op} {s : Cpu} (h : o.setsFlags = false) : (o.exec s).flags = s.flags := by
  cases o <;> simp_all [Op.exec, Op.setsFlags]

/-- A register that a block does not write to. -/
theorem Cpu.execs_x {ops : List Op} {s : Cpu} {q : Reg} (h : ∀ o ∈ ops, q ∉ o.dests) :
    (s.execs ops).x q = s.x q := by
  induction ops generalizing s with
  | nil => rfl
  | cons o ops ih =>
    rw [Cpu.execs_cons, ih fun o' ho' => h o' (List.mem_cons_of_mem _ ho'),
      Op.exec_x (h o List.mem_cons_self)]

/-- Nor does it as an operand. -/
theorem Cpu.execs_get {ops : List Op} {s : Cpu} {q : Reg} (h : ∀ o ∈ ops, q ∉ o.dests) :
    (s.execs ops).get q = s.get q := by
  unfold Cpu.get
  rw [Cpu.execs_x h]

theorem Cpu.execs_flags {ops : List Op} {s : Cpu} (h : ∀ o ∈ ops, o.setsFlags = false) :
    (s.execs ops).flags = s.flags := by
  induction ops generalizing s with
  | nil => rfl
  | cons o ops ih =>
    rw [Cpu.execs_cons, ih fun o' ho' => h o' (List.mem_cons_of_mem _ ho'),
      Op.exec_flags (h o List.mem_cons_self)]

/-! ## Conditions -/

section Conditions

variable {a b : BitVec 64}

/-- After a comparison of two numbers that are not negative as signed ones. -/
theorem lt_holds (ha : a.toNat < 9223372036854775808) (hb : b.toNat < 9223372036854775808) :
    Cond.lt.holds (subFlags a b) = true ↔ a.toNat < b.toNat := by
  have hma : a.msb = false := by rw [BitVec.msb_eq_decide]; simpa using ha
  have hmb : b.msb = false := by rw [BitVec.msb_eq_decide]; simpa using hb
  simp only [Cond.holds, subFlags, hma, hmb, bne_self_eq_false, Bool.false_and, Bool.bne_false,
    BitVec.msb_eq_decide, decide_eq_true_eq]
  bv_omega

/-- A number that is negative as a signed one is less than any that is not. -/
theorem lt_holds_of_negative (ha : 9223372036854775808 ≤ a.toNat) (hb : b.toNat < 9223372036854775808) :
    Cond.lt.holds (subFlags a b) = true := by
  have hma : a.msb = true := by rw [BitVec.msb_eq_decide]; simpa using ha
  have hmb : b.msb = false := by rw [BitVec.msb_eq_decide]; simpa using hb
  cases hdiff : (a - b).msb <;> simp [Cond.holds, subFlags, hma, hmb, hdiff]

theorem ge_holds (ha : a.toNat < 9223372036854775808) (hb : b.toNat < 9223372036854775808) :
    Cond.ge.holds (subFlags a b) = true ↔ b.toNat ≤ a.toNat := by
  have hlt := lt_holds ha hb
  have hge : Cond.ge.holds (subFlags a b) = !Cond.lt.holds (subFlags a b) := by
    simp [Cond.holds, bne]
  rw [hge, Bool.not_eq_true', ← Bool.not_eq_true, hlt, Nat.not_lt]

theorem ne_holds : Cond.ne.holds (subFlags a b) = true ↔ a ≠ b := by
  have hzero : a - b = 0#64 ↔ a = b := by bv_omega
  rw [ne_eq, ← hzero]
  simp [Cond.holds, subFlags]

theorem eq_holds_add : Cond.eq.holds (addFlags a b) = true ↔ a + b = 0 := by
  simp [Cond.holds, addFlags]

end Conditions

/-! ## Addresses -/

theorem offset_add (a : Addr) (i j : Nat) :
    a + BitVec.ofNat 64 i + BitVec.ofNat 64 j = a + BitVec.ofNat 64 (i + j) := by
  rw [BitVec.ofNat_add, BitVec.add_assoc]

theorem ofNat_ushiftRight (v : BitVec 64) (n : Nat) : v >>> n = BitVec.ofNat 64 (v.toNat / 2 ^ n) := by
  apply BitVec.eq_of_toNat_eq
  rw [BitVec.toNat_ushiftRight, BitVec.toNat_ofNat, Nat.shiftRight_eq_div_pow, Nat.mod_eq_of_lt]
  exact Nat.lt_of_le_of_lt (Nat.div_le_self _ _) v.isLt

theorem ofNat_shiftLeft (k n : Nat) : BitVec.ofNat 64 k <<< n = BitVec.ofNat 64 (2 ^ n * k) := by
  apply BitVec.eq_of_toNat_eq
  simp [Nat.shiftLeft_eq, Nat.mul_comm]

/-- The address of the instruction that stands `q` before position `l`. -/
theorem address_before {q l : Nat} (base : Addr) (hq : q ≤ l) :
    base + BitVec.ofNat 64 (4 * l) - BitVec.ofNat 64 q <<< 2 = base + BitVec.ofNat 64 (4 * (l - q)) := by
  have hsplit : BitVec.ofNat 64 (4 * l) = BitVec.ofNat 64 (4 * (l - q)) + BitVec.ofNat 64 (4 * q) := by
    rw [← BitVec.ofNat_add]
    congr 1
    omega
  rw [ofNat_shiftLeft, hsplit, ← BitVec.add_assoc]
  exact BitVec.add_sub_cancel _ _

/-! ## Runs that return -/

/-- Fuel decides whether a run returns, and not in which state. -/
theorem run_unique {base : Addr} {prog : List (Instr Nat)} {fuel fuel' pc : Nat} {s a b : Cpu}
    (ha : run base prog fuel pc s = some a) (hb : run base prog fuel' pc s = some b) : a = b := by
  induction fuel generalizing fuel' pc s with
  | zero => cases ha
  | succ fuel ih =>
    cases fuel' with
    | zero => cases hb
    | succ fuel' =>
      rw [run] at ha hb
      cases hcode : prog[pc]? with
      | none =>
        rw [hcode] at ha
        cases ha
      | some i =>
        simp only [hcode] at ha hb
        cases hexec : i.exec base pc s with
        | none =>
          rw [hexec] at ha
          cases ha
        | some next =>
          obtain ⟨goal, s'⟩ := next
          simp only [hexec] at ha hb
          cases goal with
          | ret => exact Option.some.inj (ha.symm.trans hb)
          | goto pc' => exact ih ha hb

/-- The positions a run passes, each with the state it finds. -/
def trace (base : Addr) (prog : List (Instr Nat)) : Nat → Nat → Cpu → List (Nat × Cpu)
  | 0, _, _ => []
  | fuel + 1, pc, s =>
    (pc, s) ::
      match prog[pc]? with
      | none => []
      | some i =>
        match i.exec base pc s with
        | some (.goto pc', s') => trace base prog fuel pc' s'
        | _ => []

/-- The run from `pc` returns, with `Q`, and every state it passes satisfies `At`. -/
def Returns (base : Addr) (prog : List (Instr Nat)) (At : Nat → Cpu → Prop) (Q : Cpu → Prop) (pc : Nat)
    (s : Cpu) : Prop :=
  ∃ fuel s', run base prog fuel pc s = some s' ∧ Q s' ∧ ∀ v ∈ trace base prog fuel pc s, At v.1 v.2

/-- The run from `pc` does not return, with any amount of fuel. -/
def Stuck (base : Addr) (prog : List (Instr Nat)) (pc : Nat) (s : Cpu) : Prop :=
  ∀ fuel, run base prog fuel pc s = none

/-- `R` goes back a step, where `At` holds. -/
def Backward (base : Addr) (prog : List (Instr Nat)) (At R : Nat → Cpu → Prop) : Prop :=
  ∀ {pc pc' : Nat} {s s' : Cpu} {i : Instr Nat}, prog[pc]? = some i → At pc s →
    i.exec base pc s = some (.goto pc', s') → R pc' s' → R pc s

/-- Nothing is asked at the position. -/
def Silent (At : Nat → Cpu → Prop) (pc : Nat) : Prop := ∀ s, At pc s

section Rules

variable {base : Addr} {prog : List (Instr Nat)} {At R : Nat → Cpu → Prop} {Q : Cpu → Prop} {pc : Nat} {s : Cpu}

/-- A block that falls through. -/
theorem Backward.block (hR : Backward base prog At R) (ops : List Op) (hcode : ops.map Instr.op <+: prog.drop pc)
    (hat : ∀ j < ops.length, Silent At (pc + j)) (h : R (pc + ops.length) (s.execs ops)) : R pc s := by
  induction ops generalizing pc s with
  | nil => exact h
  | cons o ops ih =>
    obtain ⟨rest, hrest⟩ := hcode
    have hfirst : prog[pc]? = some (.op o) := by
      rw [← Nat.add_zero pc, ← List.getElem?_drop, ← hrest]
      rfl
    have htail : ops.map Instr.op <+: prog.drop (pc + 1) := by
      refine ⟨rest, ?_⟩
      rw [← List.drop_drop, ← hrest]
      rfl
    refine hR hfirst (hat 0 (Nat.zero_lt_succ _) s) rfl (ih htail ?_ ?_)
    · intro j hj
      rw [Nat.add_assoc, Nat.add_comm 1 j]
      exact hat (j + 1) (Nat.succ_lt_succ hj)
    · rwa [Nat.add_assoc, Nat.add_comm 1 ops.length]

theorem Backward.tbz (hR : Backward base prog At R) {rt : Reg} {bit l : Nat}
    (hcode : prog[pc]? = some (.tbz rt bit l)) (hat : At pc s) (hset : (s.get rt).getLsbD bit = true → R (pc + 1) s)
    (hclear : (s.get rt).getLsbD bit = false → R l s) : R pc s := by
  cases hbit : (s.get rt).getLsbD bit with
  | true => exact hR hcode hat (by rw [Instr.exec, hbit, if_pos rfl]) (hset hbit)
  | false => exact hR hcode hat (by rw [Instr.exec, hbit, if_neg Bool.false_ne_true]) (hclear hbit)

/-! ### Runs that get stuck -/

theorem Stuck.backward : Backward base prog (fun _ _ => True) (Stuck base prog) := by
  intro pc pc' s s' i hcode _ hexec h fuel
  cases fuel with
  | zero => rfl
  | succ fuel => simpa [run, hcode, hexec] using h fuel

/-- There is no instruction. -/
theorem Stuck.outside (hpc : prog.length ≤ pc) : Stuck base prog pc s := by
  intro fuel
  cases fuel with
  | zero => rfl
  | succ fuel => rw [run, List.getElem?_eq_none hpc]

/-- A branch that is taken. -/
theorem Stuck.b {cond : Cond} {l : Nat} (hcode : prog[pc]? = some (.b cond l)) (htaken : cond.holds s.flags = true)
    (h : Stuck base prog l s) : Stuck base prog pc s :=
  Stuck.backward hcode trivial (by rw [Instr.exec, if_pos htaken]) h

/-- A jump behind the last instruction. -/
theorem Stuck.br {rn : Reg} (hcode : prog[pc]? = some (.br rn)) (hfar : 4 * prog.length ≤ (s.x rn - base).toNat) :
    Stuck base prog pc s := by
  by_cases haligned : (s.x rn - base).toNat % 4 = 0
  · exact Stuck.backward (i := .br rn) hcode trivial (if_pos haligned) (Stuck.outside (by omega))
  · intro fuel
    cases fuel with
    | zero => rfl
    | succ fuel =>
      have hnowhere : (Instr.br rn : Instr Nat).exec base pc s = none := if_neg haligned
      simp only [run, hcode, hnowhere]

/-! ### Runs that return -/

theorem Returns.ret (hcode : prog[pc]? = some .ret) (hat : At pc s) (hs : Q s) :
    Returns base prog At Q pc s := by
  refine ⟨1, s, ?_, hs, ?_⟩
  · simp [run, hcode, Instr.exec]
  · simpa [trace, hcode, Instr.exec] using hat

/-- One instruction, wherever it goes. -/
theorem Returns.step {i : Instr Nat} {pc' : Nat} {s' : Cpu} (hcode : prog[pc]? = some i) (hat : At pc s)
    (hexec : i.exec base pc s = some (.goto pc', s')) (h : Returns base prog At Q pc' s') :
    Returns base prog At Q pc s := by
  obtain ⟨fuel, s'', hrun, hs'', htrace⟩ := h
  refine ⟨fuel + 1, s'', ?_, hs'', ?_⟩
  · simpa [run, hcode, hexec] using hrun
  · intro v hv
    simp only [trace, hcode, hexec, List.mem_cons] at hv
    rcases hv with rfl | hv
    · exact hat
    · exact htrace v hv

theorem Returns.backward : Backward base prog At (Returns base prog At Q) := Returns.step

/-- A block that falls through. -/
theorem Returns.block (ops : List Op) (hcode : ops.map Instr.op <+: prog.drop pc)
    (hat : ∀ j < ops.length, Silent At (pc + j))
    (h : Returns base prog At Q (pc + ops.length) (s.execs ops)) : Returns base prog At Q pc s :=
  Returns.backward.block ops hcode hat h

theorem Returns.adr {rd : Reg} {l : Nat} (hcode : prog[pc]? = some (.adr rd l)) (hat : At pc s)
    (h : Returns base prog At Q (pc + 1) (s.set rd (base + BitVec.ofNat 64 (4 * l)))) :
    Returns base prog At Q pc s :=
  Returns.step hcode hat rfl h

theorem Returns.tbz {rt : Reg} {bit l : Nat} (hcode : prog[pc]? = some (.tbz rt bit l)) (hat : At pc s)
    (hset : (s.get rt).getLsbD bit = true → Returns base prog At Q (pc + 1) s)
    (hclear : (s.get rt).getLsbD bit = false → Returns base prog At Q l s) : Returns base prog At Q pc s :=
  Returns.backward.tbz hcode hat hset hclear

theorem Returns.cbz {rt : Reg} {l : Nat} (hcode : prog[pc]? = some (.cbz rt l)) (hat : At pc s)
    (hzero : s.get rt = 0 → Returns base prog At Q l s)
    (hne : s.get rt ≠ 0 → Returns base prog At Q (pc + 1) s) : Returns base prog At Q pc s := by
  by_cases h : s.get rt = 0
  · exact Returns.step hcode hat (by rw [Instr.exec, if_pos h]) (hzero h)
  · exact Returns.step hcode hat (by rw [Instr.exec, if_neg h]) (hne h)

theorem Returns.cbnz {rt : Reg} {l : Nat} (hcode : prog[pc]? = some (.cbnz rt l)) (hat : At pc s)
    (hzero : s.get rt = 0 → Returns base prog At Q (pc + 1) s)
    (hne : s.get rt ≠ 0 → Returns base prog At Q l s) : Returns base prog At Q pc s := by
  by_cases h : s.get rt = 0
  · exact Returns.step hcode hat (by rw [Instr.exec, if_pos h]) (hzero h)
  · exact Returns.step hcode hat (by rw [Instr.exec, if_neg h]) (hne h)

theorem Returns.b {cond : Cond} {l : Nat} (hcode : prog[pc]? = some (.b cond l)) (hat : At pc s)
    (htaken : cond.holds s.flags = true → Returns base prog At Q l s)
    (hnot : ¬ cond.holds s.flags = true → Returns base prog At Q (pc + 1) s) : Returns base prog At Q pc s := by
  by_cases h : cond.holds s.flags = true
  · exact Returns.step hcode hat (by rw [Instr.exec, if_pos h]) (htaken h)
  · exact Returns.step hcode hat (by rw [Instr.exec, if_neg h]) (hnot h)

/-- A jump to the address of the instruction at `target`. -/
theorem Returns.br {rn : Reg} {target : Nat} (hcode : prog[pc]? = some (.br rn)) (hat : At pc s)
    (hx : s.x rn = base + BitVec.ofNat 64 (4 * target)) (hfits : 4 * target < 18446744073709551616)
    (h : Returns base prog At Q target s) : Returns base prog At Q pc s := by
  have hdistance : (s.x rn - base).toNat = 4 * target := by
    rw [hx, BitVec.add_comm, BitVec.add_sub_cancel, BitVec.toNat_ofNat, Nat.mod_eq_of_lt hfits]
  refine Returns.step (i := .br rn) hcode hat ?_ h
  simp [Instr.exec, hdistance]

end Rules

end GunyahRuntime.Lib.Arm
