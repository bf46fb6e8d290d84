/-
# GunyahRuntime.Lib.Arm.Fill -- filling in order

A `Fill` is a region to be set to a byte. `Fill.Filled k` says that its first `k` bytes are set and that nothing else has
changed. A store whose low bytes are all that byte moves it on: one register, a pair, a row of pairs at fixed distances
from a pointer, or a cleared block.

Nothing here names a program.
-/
import GunyahRuntime.Lib.Arm.Run

namespace GunyahRuntime.Lib.Arm

/-- What is to be set where, and the memory at the start. -/
structure Fill where
  dst : Addr
  size : Nat
  mem : Mem
  value : BitVec 8

/-- The `w` low bytes of a word are all `b`. -/
def Repeats (b : BitVec 8) (w : Nat) (v : BitVec 64) : Prop := ∀ i < w, byteOf v i = b

instance (b : BitVec 8) (w : Nat) (v : BitVec 64) : Decidable (Repeats b w v) :=
  inferInstanceAs (Decidable (∀ i < w, _))

theorem Repeats.mono {b : BitVec 8} {w w' : Nat} {v : BitVec 64} (h : Repeats b w v) (hle : w' ≤ w) : Repeats b w' v :=
  fun i hi => h i (Nat.lt_of_lt_of_le hi hle)

theorem repeats_zero : Repeats 0 8 0 := by decide

namespace Fill

/-- The first `k` bytes are set, and nothing else is changed. -/
structure Filled (F : Fill) (k : Nat) (s : Cpu) : Prop where
  mem : s.mem = F.mem.filled F.dst F.value k
  le : k ≤ F.size

/-- The first `k` bytes are set, and the pointer stands behind them. -/
structure Stands (F : Fill) (k : Nat) (s : Cpu) : Prop extends F.Filled k s where
  dst : s.x 0 = F.dst + BitVec.ofNat 64 k

section Steps

variable {F : Fill} {s s' : Cpu} {k w : Nat} {p q : Reg} {mode : Mode}

theorem Filled.of_mem (h : F.Filled k s) (hmem : s'.mem = s.mem) : F.Filled k s' := ⟨hmem.trans h.mem, h.le⟩

/-- A store of the next bytes. -/
theorem Filled.str (h : F.Filled k s) (ha : s.address 0 mode = F.dst + BitVec.ofNat 64 k)
    (hvalue : Repeats F.value w (s.get p)) (hk : k + w ≤ F.size) (hsize : F.size < 9223372036854775808) :
    F.Filled (k + w) ((Op.str w p 0 mode).exec s) := by
  refine ⟨?_, hk⟩
  simp only [Op.exec, Cpu.writeBack_mem, ha, h.mem]
  exact Mem.filled_write (by omega) hvalue

/-- A store of the next sixteen bytes. -/
theorem Filled.stp (h : F.Filled k s) (ha : s.address 0 mode = F.dst + BitVec.ofNat 64 k)
    (hvalue : Repeats F.value 8 (s.get p)) (hk : k + 16 ≤ F.size) (hsize : F.size < 9223372036854775808) :
    F.Filled (k + 16) ((Op.stp p p 0 mode).exec s) := by
  have hnext : F.dst + BitVec.ofNat 64 k + 8 = F.dst + BitVec.ofNat 64 (k + 8) := offset_add F.dst k 8
  refine ⟨?_, hk⟩
  simp only [Op.exec, Cpu.writeBack_mem, ha, hnext, h.mem]
  have hfirst : (F.mem.filled F.dst F.value k).write (F.dst + BitVec.ofNat 64 k) 8 (s.get p) =
      F.mem.filled F.dst F.value (k + 8) := Mem.filled_write (by omega) hvalue
  rw [hfirst]
  exact Mem.filled_write (by omega) hvalue

/-- A block that is cleared. -/
theorem Filled.dcZva {bits : Nat} (h : F.Filled k s) (hzero : F.value = 0)
    (ha : s.x 0 >>> bits <<< bits = F.dst + BitVec.ofNat 64 k) (hk : k + 2 ^ bits ≤ F.size)
    (hsize : F.size < 9223372036854775808) : F.Filled (k + 2 ^ bits) ((Op.dcZva bits 0).exec s) := by
  refine ⟨?_, hk⟩
  simp only [Op.exec, ha, h.mem, hzero]
  exact Mem.over_over (by omega)

/-- The pointer moves on with the store. -/
theorem Stands.str (h : F.Stands k s) (hvalue : Repeats F.value w (s.get p)) (hk : k + w ≤ F.size)
    (hsize : F.size < 9223372036854775808) :
    F.Stands (k + w) ((Op.str w p 0 (.post (BitVec.ofNat 64 w))).exec s) := by
  refine ⟨h.toFilled.str h.dst hvalue hk hsize, ?_⟩
  simp [Op.exec, Cpu.writeBack, Cpu.set, h.dst, offset_add]

theorem Stands.stp (h : F.Stands k s) (hvalue : Repeats F.value 8 (s.get p)) (hk : k + 16 ≤ F.size)
    (hsize : F.size < 9223372036854775808) : F.Stands (k + 16) ((Op.stp p p 0 (.post 16)).exec s) := by
  refine ⟨h.toFilled.stp h.dst hvalue hk hsize, ?_⟩
  simp [Op.exec, Cpu.writeBack, Cpu.set, h.dst, ← offset_add]

theorem Stands.sub (h : F.Stands k s) {r : Nat} (hr : r ≠ 0) (imm : BitVec 64) :
    F.Stands k ((Op.sub r r imm).exec s) := by
  refine ⟨h.toFilled.of_mem (by simp [Op.exec]), ?_⟩
  rw [Op.exec_x (by simp [Op.dests, Ne.symm hr]), h.dst]

end Steps

/-! ## A row of pairs -/

/-- Stores of `q` pairs, from pair `t` on, where the pointer stands `e` bytes ahead of pair 0. -/
def row (p : Reg) (e : BitVec 64) : Nat → Nat → List Op
  | _, 0 => []
  | t, q + 1 => .stp p p 0 (.off (BitVec.ofNat 64 (16 * t) - e)) :: row p e (t + 1) q

section Row

variable {F : Fill} {s : Cpu} {k t q : Nat} {p r : Reg} {e : BitVec 64}

@[simp] theorem length_row : (row p e t q).length = q := by
  induction q generalizing t with
  | zero => rfl
  | succ q ih => rw [row, List.length_cons, ih]

/-- A row moves no register. -/
theorem row_dests : ∀ o ∈ row p e t q, r ∉ o.dests := by
  induction q generalizing t with
  | zero => exact fun o ho => absurd ho List.not_mem_nil
  | succ q ih =>
    intro o ho
    rcases List.mem_cons.1 ho with rfl | ho
    · exact List.not_mem_nil
    · exact ih o ho

theorem row_setsFlags : ∀ o ∈ row p e t q, o.setsFlags = false := by
  induction q generalizing t with
  | zero => exact fun o ho => absurd ho List.not_mem_nil
  | succ q ih =>
    intro o ho
    rcases List.mem_cons.1 ho with rfl | ho
    · rfl
    · exact ih o ho

@[simp] theorem row_x : (s.execs (row p e t q)).x r = s.x r := Cpu.execs_x row_dests

/-- **A row** sets as many times sixteen bytes. -/
theorem Filled.row (h : F.Filled (k + 16 * t) s) (hdst : s.x 0 = F.dst + BitVec.ofNat 64 k + e)
    (hvalue : Repeats F.value 8 (s.get p)) (hk : k + 16 * (t + q) ≤ F.size) (hsize : F.size < 9223372036854775808) :
    F.Filled (k + 16 * (t + q)) (s.execs (Fill.row p e t q)) := by
  induction q generalizing s t with
  | zero => exact h
  | succ q ih =>
    have ha : s.address 0 (.off (BitVec.ofNat 64 (16 * t) - e)) = F.dst + BitVec.ofNat 64 (k + 16 * t) := by
      show s.x 0 + _ = _
      rw [hdst, BitVec.ofNat_add]
      bv_omega
    have hstored := h.stp ha hvalue (by omega) hsize
    have hnext := ih (t := t + 1) (s := (Op.stp p p 0 (.off (BitVec.ofNat 64 (16 * t) - e))).exec s) hstored hdst hvalue
      (by omega)
    rwa [show t + 1 + q = t + (q + 1) by omega] at hnext

end Row

end Fill

end GunyahRuntime.Lib.Arm
