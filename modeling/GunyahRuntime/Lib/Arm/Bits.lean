/-
# GunyahRuntime.Lib.Arm.Bits -- going through a size, or through an alignment, bit by bit

What is left of a size below `2 ^ (b + 1)` is done by steps of `2 ^ b`, ..., 2 and 1 bytes, each behind a test of its
bit. And a pointer is brought to a multiple of `2 ^ b` by steps of 1, 2, ... bytes, each behind a test of the pointer's
own bit. The two rules below are about one such test and what it skips. What a step of so many bytes is for is up to the
program: `P k` is any property of the states in which `k` bytes are done.

Nothing here names a program.
-/
import GunyahRuntime.Lib.Arm.Run

namespace GunyahRuntime.Lib.Arm

/-! ## Bits of a number -/

theorem mod_of_bit_set {v : BitVec 64} {b : Nat} (h : v.getLsbD b = true) :
    v.toNat % 2 ^ (b + 1) = 2 ^ b + v.toNat % 2 ^ b := by
  have hbit : v.toNat / 2 ^ b % 2 = 1 := by
    simpa [BitVec.getLsbD, Nat.testBit_eq_decide_div_mod_eq] using h
  rw [Nat.mod_pow_succ, hbit, Nat.mul_one, Nat.add_comm]

theorem mod_of_bit_clear {v : BitVec 64} {b : Nat} (h : v.getLsbD b = false) :
    v.toNat % 2 ^ (b + 1) = v.toNat % 2 ^ b := by
  have hbit : v.toNat / 2 ^ b % 2 = 0 := by
    have hne : v.toNat / 2 ^ b % 2 ≠ 1 := by
      simpa [BitVec.getLsbD, Nat.testBit_eq_decide_div_mod_eq] using h
    omega
  rw [Nat.mod_pow_succ, hbit, Nat.mul_zero, Nat.add_zero]

/-- Adding a bit that is set clears it. -/
theorem mod_add_bit {v : BitVec 64} {b : Nat} (hb : b < 64) (h : v.getLsbD b = true) (hlow : v.toNat % 2 ^ b = 0) :
    (v + BitVec.ofNat 64 (2 ^ b)).toNat % 2 ^ (b + 1) = 0 := by
  have hv := mod_of_bit_set h
  have hdvd : 2 ^ (b + 1) ∣ 2 ^ 64 := Nat.pow_dvd_pow 2 hb
  rw [BitVec.toNat_add, BitVec.toNat_ofNat, Nat.add_mod_mod, Nat.mod_mod_of_dvd _ hdvd, Nat.add_mod, hv, hlow,
    Nat.add_zero, Nat.mod_eq_of_lt (Nat.pow_lt_pow_right (by decide) (Nat.lt_succ_self b)), Nat.pow_succ, Nat.mul_two,
    Nat.mod_self]

/-! ## Masks -/

theorem toNat_and_mask (v : BitVec 64) (n : Nat) (hn : n < 64) :
    (v &&& BitVec.ofNat 64 (2 ^ n - 1)).toNat = v.toNat % 2 ^ n := by
  have hfits : 2 ^ n - 1 < 2 ^ 64 := Nat.lt_of_le_of_lt (Nat.sub_le _ _) (Nat.pow_lt_pow_right (by decide) hn)
  rw [BitVec.toNat_and, BitVec.toNat_ofNat, Nat.mod_eq_of_lt hfits, Nat.and_two_pow_sub_one_eq_mod]

/-- A shift there and back leaves a multiple alone. -/
theorem ushiftRight_shiftLeft (v : BitVec 64) (n : Nat) : (v >>> n <<< n).toNat = v.toNat - v.toNat % 2 ^ n := by
  have hdiv := Nat.div_add_mod v.toNat (2 ^ n)
  rw [BitVec.toNat_shiftLeft, BitVec.toNat_ushiftRight, Nat.shiftRight_eq_div_pow, Nat.shiftLeft_eq, Nat.mul_comm]
  rw [Nat.mod_eq_of_lt (Nat.lt_of_le_of_lt (Nat.mul_div_le _ _) v.isLt)]
  omega

theorem ushiftRight_shiftLeft_of_aligned {v : BitVec 64} {n : Nat} (h : v.toNat % 2 ^ n = 0) : v >>> n <<< n = v := by
  apply BitVec.eq_of_toNat_eq
  rw [ushiftRight_shiftLeft, h, Nat.sub_zero]

/-! ## The rules -/

section Rules

variable {base : Addr} {prog : List (Instr Nat)} {At R : Nat → Cpu → Prop} {Q : Cpu → Prop} {P : Nat → Cpu → Prop}
  {pc b size k : Nat} {r : Reg} {s : Cpu}

/-- `k` bytes are done, and the low bits of register `r` say how many are left. -/
structure Left (P : Nat → Cpu → Prop) (size : Nat) (r : Reg) (b k : Nat) (s : Cpu) : Prop where
  done : P k s
  rest : k + (s.get r).toNat % 2 ^ b = size

/-- **A bit of the size**: a step of `2 ^ b` bytes, if the bit is set. -/
theorem Left.bit (P' : Nat → Cpu → Prop) (ops : List Op)
    (hcode : prog[pc]? = some (.tbz r b (pc + 1 + ops.length))) (hops : ops.map Instr.op <+: prog.drop (pc + 1)) (hat : At pc s)
    (hsilent : ∀ j < ops.length, Silent At (pc + 1 + j)) (h : Left P size r (b + 1) k s)
    (hmoves : P k s → k + 2 ^ b ≤ size → P' (k + 2 ^ b) (s.execs ops)) (hskip : P k s → P' k s)
    (hr : ∀ o ∈ ops, r ∉ o.dests)
    (hnext : ∀ k' s', Left P' size r b k' s' → Returns base prog At Q (pc + 1 + ops.length) s') :
    Returns base prog At Q pc s := by
  have hrest := h.rest
  refine Returns.tbz hcode hat (fun hset => ?_) (fun hclear => ?_)
  · rw [mod_of_bit_set hset] at hrest
    have hkept : (s.execs ops).get r = s.get r := Cpu.execs_get hr
    refine Returns.block ops hops hsilent (hnext (k + 2 ^ b) _ ⟨hmoves h.done (by omega), ?_⟩)
    rw [hkept]
    omega
  · rw [mod_of_bit_clear hclear] at hrest
    exact hnext k s ⟨hskip h.done, hrest⟩

/-- `k` bytes are done, `r` of them are left, and the pointer is a multiple of `2 ^ b`. -/
structure Aligned (P : Nat → Cpu → Prop) (size : Nat) (r : Reg) (b k : Nat) (s : Cpu) : Prop where
  done : P k s
  rest : k + (s.x r).toNat = size
  few : k < 2 ^ b
  aligned : (s.x 0).toNat % 2 ^ b = 0

/-- A step that touches neither the pointer nor what is left. -/
theorem Aligned.of_same {P' : Nat → Cpu → Prop} {s' : Cpu} (h : Aligned P size r b k s) (hdone : P' k s')
    (hr : s'.x r = s.x r) (hpointer : s'.x 0 = s.x 0) : Aligned P' size r b k s' :=
  ⟨hdone, by rw [hr, h.rest], h.few, by rw [hpointer, h.aligned]⟩

/-- **A bit of the pointer**: a step of `2 ^ b` bytes, if the bit is set. -/
theorem Aligned.bit (hR : Backward base prog At R) (ops : List Op) (hb : b < 64) (hcode : prog[pc]? = some (.tbz 0 b (pc + 1 + ops.length)))
    (hops : ops.map Instr.op <+: prog.drop (pc + 1)) (hat : At pc s)
    (hsilent : ∀ j < ops.length, Silent At (pc + 1 + j)) (h : Aligned P size r b k s) (hsize : 2 ^ (b + 1) ≤ size + 1)
    (hmoves : P k s → k + 2 ^ b ≤ size → P (k + 2 ^ b) (s.execs ops))
    (hpointer : (s.execs ops).x 0 = s.x 0 + BitVec.ofNat 64 (2 ^ b))
    (hr : (s.execs ops).x r = s.x r - BitVec.ofNat 64 (2 ^ b))
    (hnext : ∀ k' s', Aligned P size r (b + 1) k' s' → R (pc + 1 + ops.length) s') : R pc s := by
  have hfew := h.few
  have hrest := h.rest
  have hpow : 2 ^ (b + 1) = 2 ^ b + 2 ^ b := by rw [Nat.pow_succ, Nat.mul_two]
  refine hR.tbz hcode hat (fun hset => ?_) (fun hclear => ?_)
  · have hstep : (BitVec.ofNat 64 (2 ^ b)).toNat = 2 ^ b := by
      rw [BitVec.toNat_ofNat, Nat.mod_eq_of_lt (Nat.pow_lt_pow_right (by decide) hb)]
    have hle : BitVec.ofNat 64 (2 ^ b) ≤ s.x r := by
      rw [BitVec.le_def, hstep]
      omega
    refine hR.block ops hops hsilent (hnext (k + 2 ^ b) _ ⟨hmoves h.done (by omega), ?_, by omega, ?_⟩)
    · rw [hr, BitVec.toNat_sub_of_le hle, hstep]
      rw [BitVec.le_def, hstep] at hle
      omega
    · rw [hpointer]
      exact mod_add_bit hb hset h.aligned
  · exact hnext k s ⟨h.done, hrest, by omega, (mod_of_bit_clear hclear).trans h.aligned⟩

end Rules

end GunyahRuntime.Lib.Arm
