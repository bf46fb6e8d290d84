/-
# GunyahRuntime.MemsetRuns -- `memset` fills its region

As for `memcpy`, the listing is gone through from its end. The two families have the same tail, the same step for sixteen
bytes, and the same jump into a table of stores, each with registers and positions of its own; so these are shown once,
for a `MemsetFamily`. The ways down to them differ: one clears blocks, the other makes its word and stores chunks.

Every state that a run passes satisfies `MemsetAt`, which asks something at the seven entries only.
-/
import GunyahRuntime.Memset
import GunyahRuntime.Lib.Arm.Bits
import GunyahRuntime.Lib.Arm.Fill

namespace GunyahRuntime

open Lib (Addr Mem Within)
open Lib.Arm

/-- From position `pc` the listing returns with the region filled, and enters its entries as they require. -/
def MemsetReturns (base : Addr) (F : Fill) (pc : Nat) (s : Cpu) : Prop :=
  Returns base memsetText MemsetAt (F.Filled F.size) pc s

/-! ## The entries -/

/-- The positions of the seven entries. -/
def memsetEntries : List Nat := [0, 11, 23, 37, 55, 66, 83]

theorem memsetAt_of_not_mem {pc : Nat} (h : pc ∉ memsetEntries) : Silent MemsetAt pc := by
  intro s entry hentry
  subst hentry
  cases entry <;> first | exact absurd (by decide +kernel) h | trivial

/-- Nothing is asked inside a block without entries. -/
theorem memsetAt_block {pc n : Nat} (h : ∀ j < n, pc + j ∉ memsetEntries) : ∀ j < n, Silent MemsetAt (pc + j) :=
  fun j hj => memsetAt_of_not_mem (h j hj)

/-- Nor behind the first instruction of one. -/
theorem memsetAt_behind {pc n : Nat} (h : ∀ j < n + 1, pc + j ∉ memsetEntries) : ∀ j < n, Silent MemsetAt (pc + 1 + j) := by
  intro j hj
  rw [Nat.add_assoc, Nat.add_comm 1 j]
  exact memsetAt_of_not_mem (h (j + 1) (Nat.succ_lt_succ hj))

/-- The labels of the entries. -/
def memsetNamed : List MemsetLabel :=
  [.memsetZerosBelow32, .memsetZerosAlignable, .memsetZerosAlign16, .memsetZerosDczva, .memsetBelow32, .memsetAlignable,
    .memsetAlign16]

theorem memsetNamed_injective : ∀ e ∈ memsetNamed, ∀ e' ∈ memsetNamed,
    labelPos e memsetLines = labelPos e' memsetLines → e = e' := by
  decide +kernel

/-- At an entry, its own requirement is all that is asked. -/
theorem memsetAt_entry (entry : MemsetLabel) (hentry : entry ∈ memsetNamed) {s : Cpu} (h : memsetRequires entry s) :
    MemsetAt (labelPos entry memsetLines) s := by
  intro e he
  by_cases hnamed : e ∈ memsetNamed
  · rw [memsetNamed_injective e hnamed entry hentry he]
    exact h
  · cases e <;> trivial

/-! ## What the families share -/

inductive MemsetFamily where
  | zeros
  | nonzero
  deriving DecidableEq

namespace MemsetFamily

/-- The register that has the size. -/
def size : MemsetFamily → Reg
  | .zeros => 1
  | .nonzero => 2

/-- The register that is stored. -/
def value : MemsetFamily → Reg
  | .zeros => 31
  | .nonzero => 1

/-- Where what is left below sixteen bytes is done. -/
def below16 : MemsetFamily → Nat
  | .zeros => 2
  | .nonzero => 57

/-- Where the jump into the table begins. -/
def jump : MemsetFamily → Nat
  | .zeros => 44
  | .nonzero => 100

/-- Where the table ends. -/
def tableEnd : MemsetFamily → Nat
  | .zeros => 53
  | .nonzero => 113

/-- How many stores the table has. -/
def entries : MemsetFamily → Nat
  | .zeros => 3
  | .nonzero => 7

end MemsetFamily

/-- The first `k` bytes are set, the pointer stands behind them, and the family's register repeats the byte. -/
structure FillHolds (F : Fill) (f : MemsetFamily) (k : Nat) (s : Cpu) : Prop extends F.Stands k s where
  value : Repeats F.value 8 (s.get f.value)

section Families

variable {base : Addr} {F : Fill} {f : MemsetFamily} {k : Nat} {s : Cpu}

/-- A block that leaves the family's register alone, and moves the rest on. -/
theorem FillHolds.of_execs {ops : List Op} {k' : Nat} (h : FillHolds F f k s) (hstands : F.Stands k' (s.execs ops))
    (hops : ∀ o ∈ ops, f.value ∉ o.dests) : FillHolds F f k' (s.execs ops) :=
  ⟨hstands, by rw [Cpu.execs_get hops]; exact h.value⟩

theorem memsetReturns_ret {pc : Nat} (hcode : memsetText[pc]? = some .ret) (hpc : pc ∉ memsetEntries)
    (h : F.Filled F.size s) : MemsetReturns base F pc s := Returns.ret hcode (memsetAt_of_not_mem hpc s) h

/-! ### Below sixteen bytes -/

theorem memsetText_bit (f : MemsetFamily) : ∀ b < 4,
    memsetText[f.below16 + 2 * (3 - b)]? = some (.tbz f.size b (f.below16 + 2 * (3 - b) + 2)) ∧
      ∀ j < 2, f.below16 + 2 * (3 - b) + j ∉ memsetEntries := by
  cases f <;> decide +kernel

theorem memsetText_word (f : MemsetFamily) : ∀ b < 3,
    [Instr.op (.str (2 ^ (b + 1)) f.value 0 (.post (BitVec.ofNat 64 (2 ^ (b + 1)))))] <+:
      memsetText.drop (f.below16 + 2 * (3 - (b + 1)) + 1) := by
  cases f <;> decide +kernel

theorem memsetText_byte (f : MemsetFamily) :
    [Instr.op (.str 1 f.value 0 (.off 0))] <+: memsetText.drop (f.below16 + 7) ∧
      memsetText[f.below16 + 8]? = some .ret ∧ f.below16 + 8 ∉ memsetEntries := by
  cases f <;> decide +kernel

/-- The bits of the size, from bit `b` down. -/
theorem memsetReturns_bits (hsize : F.size < 9223372036854775808) (b : Nat) (hb : b < 4) : ∀ k s,
    Left (FillHolds F f) F.size f.size (b + 1) k s → MemsetReturns base F (f.below16 + 2 * (3 - b)) s := by
  induction b with
  | zero =>
    intro k s h
    obtain ⟨hcode, hsilent⟩ := memsetText_bit f 0 hb
    obtain ⟨hops, hret, hpc⟩ := memsetText_byte f
    refine h.bit F.Filled [.str 1 f.value 0 (.off 0)] hcode hops (memsetAt_of_not_mem (hsilent 0 (by decide)) s)
      (memsetAt_behind hsilent) (fun hs hk => ?_) (fun hs => hs.toFilled) ?_ (fun k' s' hleft => ?_)
    · have ha : s.address 0 (.off 0) = F.dst + BitVec.ofNat 64 k := (BitVec.add_zero _).trans hs.dst
      exact hs.toFilled.str ha (hs.value.mono (by decide)) hk hsize
    · simp [Op.dests, Mode.dests]
    · have hrest := hleft.rest
      rw [Nat.pow_zero, Nat.mod_one, Nat.add_zero] at hrest
      exact memsetReturns_ret hret hpc (hrest ▸ hleft.done)
  | succ b ih =>
    intro k s h
    obtain ⟨hcode, hsilent⟩ := memsetText_bit f (b + 1) hb
    have hw : 2 ^ (b + 1) ≤ 8 := Nat.pow_le_pow_right (by decide) (show b + 1 ≤ 3 by omega)
    have hvalue : f.value ≠ 0 := by cases f <;> decide
    have hreg : f.size ≠ 0 := by cases f <;> decide
    refine h.bit (FillHolds F f) [.str (2 ^ (b + 1)) f.value 0 _] hcode (memsetText_word f b (by omega))
      (memsetAt_of_not_mem (hsilent 0 (by decide)) s) (memsetAt_behind hsilent) (fun hs hk => ?_) id ?_
      (fun k' s' hleft => ?_)
    · exact hs.of_execs (hs.toStands.str (hs.value.mono hw) hk hsize) (by simp [Op.dests, Mode.dests, hvalue])
    · simp [Op.dests, Mode.dests, hreg]
    · have hnext : f.below16 + 2 * (3 - (b + 1)) + 2 = f.below16 + 2 * (3 - b) := by omega
      have := ih (by omega) k' s' hleft
      rwa [← hnext] at this

theorem memsetReturns_below16 (hsize : F.size < 9223372036854775808) (h : Left (FillHolds F f) F.size f.size 4 k s) :
    MemsetReturns base F f.below16 s :=
  memsetReturns_bits hsize 3 (by decide) k s h

/-! ### The jump into the table -/

theorem memsetText_jump (f : MemsetFamily) :
    [Instr.op (.lsr 4 f.size 4)] <+: memsetText.drop f.jump ∧ memsetText[f.jump + 1]? = some (.adr 5 f.tableEnd) ∧
      [Instr.op (.subReg f.size f.size 4 (.lsl 4)), .op (.addReg 0 0 4 (.lsl 4)), .op (.subReg 6 5 4 (.lsl 2))] <+:
        memsetText.drop (f.jump + 2) ∧
      memsetText[f.jump + 5]? = some (.br 6) ∧ memsetText[f.tableEnd]? = some (.cbnz f.size f.below16) ∧
      memsetText[f.tableEnd + 1]? = some .ret ∧ ∀ j < f.entries + 8, f.jump + j ∉ memsetEntries := by
  cases f <;> decide +kernel

/-- The table, entered so that its last `q` stores are run. -/
theorem memsetText_table (f : MemsetFamily) : ∀ q ≤ f.entries,
    (Fill.row f.value (BitVec.ofNat 64 (16 * q)) 0 q).map Instr.op <+: memsetText.drop (f.tableEnd - q) := by
  cases f <;> decide +kernel

theorem tableEnd_eq (f : MemsetFamily) : f.tableEnd = f.jump + 6 + f.entries := by cases f <;> rfl

/-- What is left below sixteen bytes, or the end. -/
theorem memsetReturns_last (hsize : F.size < 9223372036854775808) (h : FillHolds F f k s)
    (hrest : k + (s.x f.size).toNat = F.size) (hlt : (s.x f.size).toNat < 16) : MemsetReturns base F f.tableEnd s := by
  obtain ⟨-, -, -, -, hcbnz, hret, hsilent⟩ := memsetText_jump f
  have hend := tableEnd_eq f
  have hget : s.get f.size = s.x f.size := Cpu.get_of_ne (by cases f <;> decide)
  have hat : ∀ j < 2, f.tableEnd + j ∉ memsetEntries := fun j hj => by
    rw [hend, show f.jump + 6 + f.entries + j = f.jump + (6 + f.entries + j) by omega]
    exact hsilent _ (by omega)
  refine Returns.cbnz hcbnz (memsetAt_of_not_mem (hat 0 (by decide)) s) (fun hzero => ?_) (fun _ => ?_)
  · rw [hget] at hzero
    rw [hzero] at hrest
    exact memsetReturns_ret hret (hat 1 (by decide)) (hrest ▸ h.toFilled)
  · refine memsetReturns_below16 hsize ⟨h, ?_⟩
    rw [hget, Nat.mod_eq_of_lt (show _ < 2 ^ 4 from hlt)]
    exact hrest

/-- Inside the table. -/
theorem memsetReturns_table (hsize : F.size < 9223372036854775808) {q : Nat} (hq : q ≤ f.entries) (h : F.Filled k s)
    (hdst : s.x 0 = F.dst + BitVec.ofNat 64 k + BitVec.ofNat 64 (16 * q)) (hvalue : Repeats F.value 8 (s.get f.value))
    (hrest : k + 16 * q + (s.x f.size).toNat = F.size) (hlt : (s.x f.size).toNat < 16) :
    MemsetReturns base F (f.tableEnd - q) s := by
  obtain ⟨-, -, -, -, -, -, hsilent⟩ := memsetText_jump f
  have hend := tableEnd_eq f
  refine Returns.block _ (memsetText_table f q hq) (fun j hj => ?_) ?_
  · rw [Fill.length_row] at hj
    rw [hend, show f.jump + 6 + f.entries - q + j = f.jump + (6 + f.entries - q + j) by omega]
    exact memsetAt_of_not_mem (hsilent _ (by omega))
  · have hrow : F.Filled (k + 16 * (0 + q)) (s.execs (Fill.row f.value (BitVec.ofNat 64 (16 * q)) 0 q)) :=
      h.row hdst hvalue (by omega) hsize
    rw [Nat.zero_add] at hrow
    rw [Fill.length_row, Nat.sub_add_cancel (by omega)]
    refine memsetReturns_last hsize ⟨⟨hrow, ?_⟩, ?_⟩ ?_ ?_
    · rw [Fill.row_x, hdst, offset_add]
    · rw [Cpu.execs_get Fill.row_dests]
      exact hvalue
    · rw [Fill.row_x, hrest]
    · rw [Fill.row_x]
      exact hlt

/-- The pointer goes behind the pairs that are left, and the jump is as many instructions before the end of the table. -/
theorem memsetReturns_jump (hsize : F.size < 9223372036854775808) (h : FillHolds F f k s)
    (hrest : k + (s.x f.size).toNat = F.size) (hlt : (s.x f.size).toNat < 16 * (f.entries + 1)) :
    MemsetReturns base F f.jump s := by
  obtain ⟨hlsr, hadr, hops, hbr, -, -, hsilent⟩ := memsetText_jump f
  obtain ⟨q, hq⟩ : ∃ q, q = (s.x f.size).toNat / 16 := ⟨_, rfl⟩
  have hend := tableEnd_eq f
  have hcount : s.x f.size >>> 4 = BitVec.ofNat 64 q := hq ▸ ofNat_ushiftRight (s.x f.size) 4
  have hshift : BitVec.ofNat 64 (16 * q) = (s.x f.size >>> 4) <<< 4 := by
    rw [hcount]
    exact (ofNat_shiftLeft q 4).symm
  have hsilent' : ∀ i < 6, Silent MemsetAt (f.jump + i) := fun i hi => memsetAt_of_not_mem (hsilent i (by omega))
  refine Returns.block [.lsr 4 f.size 4] hlsr (fun j hj => hsilent' j (Nat.lt_trans hj (Nat.lt_of_sub_eq_succ rfl))) ?_
  refine Returns.adr hadr (hsilent' 1 (by decide) _) (Returns.block [.subReg f.size f.size 4 (.lsl 4),
    .addReg 0 0 4 (.lsl 4), .subReg 6 5 4 (.lsl 2)] hops (fun j hj => ?_) ?_)
  · rw [show f.jump + [Op.lsr 4 f.size 4].length + 1 + j = f.jump + (2 + j) by simp; omega]
    exact hsilent' (2 + j) (by simp at hj; omega)
  obtain ⟨S, hS⟩ : ∃ S, ((s.execs [.lsr 4 f.size 4]).set 5 (base + BitVec.ofNat 64 (4 * f.tableEnd))).execs
    [.subReg f.size f.size 4 (.lsl 4), .addReg 0 0 4 (.lsl 4), .subReg 6 5 4 (.lsl 2)] = S := ⟨_, rfl⟩
  have hx0 : S.x 0 = F.dst + BitVec.ofNat 64 k + BitVec.ofNat 64 (16 * q) := by
    rw [← h.dst, hshift, ← hS]
    cases f <;> simp [Op.exec, Cpu.set, Cpu.get, Shift.apply, MemsetFamily.size]
  have hx : S.x f.size = s.x f.size - BitVec.ofNat 64 (16 * q) := by
    rw [hshift, ← hS]
    cases f <;> simp [Op.exec, Cpu.set, Cpu.get, Shift.apply, MemsetFamily.size]
  have hx6 : S.x 6 = base + BitVec.ofNat 64 (4 * (f.tableEnd - q)) := by
    rw [← address_before base (by omega), ← hcount, ← hS]
    cases f <;> simp [Op.exec, Cpu.set, Cpu.get, Shift.apply, MemsetFamily.size]
  have hvalue : S.get f.value = s.get f.value := by
    rw [← hS]
    cases f <;> simp [Op.exec, Cpu.set, Cpu.get, MemsetFamily.value, MemsetFamily.size]
  have hfilled : F.Filled k S := by
    apply h.toFilled.of_mem
    simp [← hS, Op.exec]
  have hleft : (S.x f.size).toNat = (s.x f.size).toNat % 16 := by
    rw [hx]
    bv_omega
  rw [hS]
  exact Returns.br hbr (hsilent' 5 (by decide) S) hx6 (by cases f <;> simp [MemsetFamily.tableEnd] <;> omega)
    (memsetReturns_table hsize (by omega) hfilled hx0 (hvalue ▸ h.value) (by omega) (by omega))

end Families

/-! ## Zeroing -/

section Zeros

variable {base : Addr} {F : Fill} {k : Nat} {s : Cpu}

/-- The zero register repeats the byte, whatever the others hold. -/
theorem FillHolds.zeros (hzero : F.value = 0) (h : F.Stands k s) : FillHolds F .zeros k s := by
  refine ⟨h, ?_⟩
  rw [hzero]
  exact repeats_zero

/-- The flags after a comparison with the size of a block. -/
theorem subFlags_block {v : BitVec 64} (hv : v.toNat < 9223372036854775808) :
    Cond.lt.holds (subFlags v 0x40) = true ↔ v.toNat < 64 := lt_holds hv (by decide)

/-- `memset_zeros_no_dczva`. -/
theorem memsetReturns_noDczva (hsize : F.size < 9223372036854775808) (hzero : F.value = 0) (h : F.Stands k s)
    (hrest : k + (s.x 1).toNat = F.size) (hlt : (s.x 1).toNat < 64) : MemsetReturns base F 44 s :=
  memsetReturns_jump (f := .zeros) hsize (.zeros hzero h) hrest hlt

/-- The pass of the loop over blocks. -/
def blockOps : List Op := [.subs 2 2 0x40, .dcZva 6 0, .add 0 0 0x40]

/-- A pass clears a block. -/
theorem blockOps_stands (hsize : F.size < 9223372036854775808) (hzero : F.value = 0) (h : F.Stands k s)
    (haligned : (s.x 0).toNat % 64 = 0) (hk : k + 64 ≤ F.size) : F.Stands (k + 64) (s.execs blockOps) := by
  have hsubs : F.Filled k ((Op.subs 2 2 0x40).exec s) := h.toFilled.of_mem (by simp [Op.exec])
  have hblock : ((Op.subs 2 2 0x40).exec s).x 0 >>> 6 <<< 6 = F.dst + BitVec.ofNat 64 k := by
    rw [Op.exec_x (by decide), ushiftRight_shiftLeft_of_aligned haligned, h.dst]
  have hcleared : F.Filled (k + 64) ((Op.dcZva 6 0).exec ((Op.subs 2 2 0x40).exec s)) :=
    hsubs.dcZva hzero hblock hk hsize
  refine ⟨hcleared.of_mem (by simp [blockOps, Op.exec]), ?_⟩
  simp [blockOps, Op.exec, Cpu.set, Cpu.get, h.dst, ← offset_add]

theorem blockOps_regs (s : Cpu) : (s.execs blockOps).x 0 = s.x 0 + 0x40 ∧ (s.execs blockOps).x 1 = s.x 1 ∧
    (s.execs blockOps).x 2 = s.x 2 - 0x40 ∧ (s.execs blockOps).flags = subFlags (s.x 2) 0x40 := by
  refine ⟨?_, ?_, ?_, ?_⟩ <;> simp [blockOps, Op.exec, Cpu.set, Cpu.get]

/-- The loop of `memset_zeros_dczva`: each pass takes a block off the size. -/
theorem memsetReturns_blocks (hsize : F.size < 9223372036854775808) (hzero : F.value = 0) (m : Nat) :
    ∀ (k : Nat) (s : Cpu), F.Stands k s → (s.x 2).toNat = 64 * (m + 1) → k + (s.x 2).toNat + (s.x 1).toNat = F.size →
      (s.x 1).toNat < 64 → (s.x 0).toNat % 64 = 0 → MemsetReturns base F 39 s := by
  have hbne : memsetText[42]? = some (.b .ne 39) := by decide +kernel
  have hcbz : memsetText[43]? = some (.cbz 1 54) := by decide +kernel
  induction m with
  | zero =>
    intro k s h hx2 hrest hlt haligned
    refine Returns.block blockOps (by decide +kernel) (memsetAt_block (by decide)) ?_
    have hpass := blockOps_stands hsize hzero h haligned (by omega)
    obtain ⟨-, hx1, -, hflags⟩ := blockOps_regs s
    have hdone : s.x 2 = 0x40 := BitVec.eq_of_toNat_eq hx2
    refine Returns.b hbne (memsetAt_of_not_mem (by decide) _) (fun hc => ?_) (fun _ => ?_)
    · rw [hflags, ne_holds] at hc
      exact absurd hdone hc
    refine Returns.cbz hcbz (memsetAt_of_not_mem (by decide) _) (fun hnone => ?_) (fun _ => ?_)
    · have hx1' : s.x 1 = 0 := hx1.symm.trans hnone
      rw [hx2, hx1'] at hrest
      exact memsetReturns_ret (by decide +kernel) (by decide) (hrest ▸ hpass.toFilled)
    · refine memsetReturns_noDczva hsize hzero hpass ?_ ?_
      · rw [hx1]
        omega
      · rw [hx1]
        exact hlt
  | succ m ih =>
    intro k s h hx2 hrest hlt haligned
    refine Returns.block blockOps (by decide +kernel) (memsetAt_block (by decide)) ?_
    have hpass := blockOps_stands hsize hzero h haligned (by omega)
    obtain ⟨hx0, hx1, hx2', hflags⟩ := blockOps_regs s
    have hleft : ((s.execs blockOps).x 2).toNat = 64 * (m + 1) := by
      rw [hx2']
      bv_omega
    refine Returns.b hbne (memsetAt_of_not_mem (by decide) _) (fun _ => ?_) (fun hc => ?_)
    · refine ih (k + 64) _ hpass hleft ?_ ?_ ?_
      · rw [hleft, hx1]
        omega
      · rw [hx1]
        exact hlt
      · rw [hx0]
        bv_omega
    · rw [hflags, ne_holds, not_not] at hc
      rw [hc] at hx2
      exact absurd hx2 (by simp)

/-- `memset_zeros_dczva`. -/
theorem memsetReturns_dczva (hsize : F.size < 9223372036854775808) (hzero : F.value = 0) (h : F.Stands k s)
    (hrest : k + (s.x 1).toNat = F.size) (hge : 64 ≤ (s.x 1).toNat) (haligned : (s.x 0).toNat % 64 = 0) :
    MemsetReturns base F 37 s := by
  have hat : MemsetAt 37 s := memsetAt_entry .memsetZerosDczva (by decide) ⟨hge, haligned⟩
  have hbic : memsetText[37]? = some (.op (.bic 2 1 0x3f)) := by decide +kernel
  have hand : memsetText[38]? = some (.op (.and 1 1 0x3f)) := by decide +kernel
  refine Returns.step hbic hat rfl (Returns.step hand (memsetAt_of_not_mem (by decide) _) rfl ?_)
  obtain ⟨S, hS⟩ : ∃ S, (Op.and 1 1 0x3f).exec ((Op.bic 2 1 0x3f).exec s) = S := ⟨_, rfl⟩
  have hx0 : S.x 0 = s.x 0 := by simp [← hS, Op.exec, Cpu.set]
  have hx1 : (S.x 1).toNat = (s.x 1).toNat % 64 := by
    have hand' : S.x 1 = s.x 1 &&& 0x3f := by simp [← hS, Op.exec, Cpu.set, Cpu.get]
    rw [hand']
    exact toNat_and_mask (s.x 1) 6 (by decide)
  have hx2 : (S.x 2).toNat = (s.x 1).toNat - (s.x 1).toNat % 64 := by
    have hshift : S.x 2 = s.x 1 >>> 6 <<< 6 := by
      rw [BitVec.shiftLeft_ushiftRight]
      simp [← hS, Op.exec, Cpu.set, Cpu.get]
    rw [hshift]
    exact ushiftRight_shiftLeft (s.x 1) 6
  have hstands : F.Stands k S := ⟨h.toFilled.of_mem (by simp [← hS, Op.exec]), hx0.trans h.dst⟩
  rw [hS]
  exact memsetReturns_blocks hsize hzero ((s.x 1).toNat / 64 - 1) k S hstands (by omega) (by omega) (by omega)
    (by rw [hx0]; exact haligned)

/-- The table that brings the pointer to a multiple of a block, entered so that its last `q` stores are run. -/
theorem memsetText_alignTable : ∀ q ≤ 3,
    (Fill.row 31 (BitVec.ofNat 64 (16 * q)) 0 q).map Instr.op <+: memsetText.drop (36 - q) ∧
      ∀ j < q + 1, 36 - q + j ∉ memsetEntries := by
  decide +kernel

/-- Inside that table, and the comparison behind it, which was made before the jump. -/
theorem memsetReturns_alignTable (hsize : F.size < 9223372036854775808) (hzero : F.value = 0) {q : Nat} (hq : q ≤ 3)
    (h : F.Filled k s) (hdst : s.x 0 = F.dst + BitVec.ofNat 64 k + BitVec.ofNat 64 (16 * q))
    (hrest : k + 16 * q + (s.x 1).toNat = F.size) (haligned : (s.x 0).toNat % 64 = 0)
    (hflags : s.flags = subFlags (s.x 1) 0x40) : MemsetReturns base F (36 - q) s := by
  obtain ⟨hops, hsilent⟩ := memsetText_alignTable q hq
  have hblt : memsetText[36]? = some (.b .lt 44) := by decide +kernel
  refine Returns.block _ hops (memsetAt_block fun j hj => hsilent j (by rw [Fill.length_row] at hj; omega)) ?_
  rw [Fill.length_row, Nat.sub_add_cancel (by omega)]
  have hvalue : Repeats F.value 8 (s.get 31) := hzero ▸ repeats_zero
  have hrow : F.Filled (k + 16 * (0 + q)) (s.execs (Fill.row 31 (BitVec.ofNat 64 (16 * q)) 0 q)) :=
    h.row hdst hvalue (by omega) hsize
  rw [Nat.zero_add] at hrow
  have hstands : F.Stands (k + 16 * q) (s.execs (Fill.row 31 (BitVec.ofNat 64 (16 * q)) 0 q)) := by
    refine ⟨hrow, ?_⟩
    rw [Fill.row_x, hdst, offset_add]
  have hflags' : (s.execs (Fill.row 31 (BitVec.ofNat 64 (16 * q)) 0 q)).flags = subFlags (s.x 1) 0x40 :=
    (Cpu.execs_flags Fill.row_setsFlags).trans hflags
  have hcond := subFlags_block (v := s.x 1) (by omega)
  refine Returns.b hblt (memsetAt_of_not_mem (by decide) _) (fun hc => ?_) (fun hc => ?_)
  · rw [hflags', hcond] at hc
    refine memsetReturns_noDczva hsize hzero hstands ?_ ?_
    · rw [Fill.row_x, hrest]
    · rw [Fill.row_x]
      exact hc
  · rw [hflags', hcond] at hc
    refine memsetReturns_dczva hsize hzero hstands ?_ ?_ ?_
    · rw [Fill.row_x, hrest]
    · rw [Fill.row_x]
      exact Nat.not_lt.1 hc
    · rw [Fill.row_x]
      exact haligned

/-- The distance to the next multiple of a block, from a multiple of sixteen. -/
theorem toNat_neg_mask {a : BitVec 64} (haligned : a.toNat % 16 = 0) :
    ∃ q ≤ 3, (0 - a) &&& 0x3f = BitVec.ofNat 64 (16 * q) ∧ (a + BitVec.ofNat 64 (16 * q)).toNat % 64 = 0 := by
  have hmask : ((0 - a) &&& 0x3f).toNat = (0 - a).toNat % 64 := toNat_and_mask (0 - a) 6 (by decide)
  refine ⟨(0 - a).toNat % 64 / 16, by omega, ?_, ?_⟩
  · apply BitVec.eq_of_toNat_eq
    rw [hmask, BitVec.toNat_ofNat]
    bv_omega
  · bv_omega

/-- `memset_zeros_align16`: the pointer is brought to a multiple of a block, if there is a block left. -/
theorem memsetReturns_zerosAlign16 (hsize : F.size < 9223372036854775808) (hzero : F.value = 0) (h : F.Stands k s)
    (hrest : k + (s.x 1).toNat = F.size) (hge : 16 ≤ (s.x 1).toNat) (haligned : (s.x 0).toNat % 16 = 0) :
    MemsetReturns base F 23 s := by
  have hat : MemsetAt 23 s := memsetAt_entry .memsetZerosAlign16 (by decide) ⟨hge, haligned⟩
  have hneg : memsetText[23]? = some (.op (.neg 3 0)) := by decide +kernel
  have hblt : memsetText[26]? = some (.b .lt 44) := by decide +kernel
  have hadr : memsetText[27]? = some (.adr 5 36) := by decide +kernel
  have hbr : memsetText[32]? = some (.br 6) := by decide +kernel
  obtain ⟨q, hq, hmask, hnext⟩ := toNat_neg_mask haligned
  refine Returns.step hneg hat rfl (Returns.block [.subs 31 1 0x40, .and 2 3 0x3f] (by decide +kernel)
    (memsetAt_block (by decide)) ?_)
  obtain ⟨S, hS⟩ : ∃ S, ((Op.neg 3 0).exec s).execs [.subs 31 1 0x40, .and 2 3 0x3f] = S := ⟨_, rfl⟩
  have hx0 : S.x 0 = s.x 0 := by simp [← hS, Op.exec, Cpu.set]
  have hx1 : S.x 1 = s.x 1 := by simp [← hS, Op.exec, Cpu.set]
  have hx2 : S.x 2 = BitVec.ofNat 64 (16 * q) := by
    rw [← hmask, ← hS]
    simp [Op.exec, Cpu.set, Cpu.get]
  have hflags : S.flags = subFlags (s.x 1) 0x40 := by simp [← hS, Op.exec, Cpu.get, Cpu.set]
  have hstands : F.Stands k S := ⟨h.toFilled.of_mem (by simp [← hS, Op.exec]), hx0.trans h.dst⟩
  rw [hS]
  refine Returns.b hblt (memsetAt_of_not_mem (by decide) _) (fun hc => ?_) (fun hc => ?_)
  · rw [hflags, subFlags_block (by omega)] at hc
    exact memsetReturns_noDczva hsize hzero hstands (by rw [hx1]; exact hrest) (by rw [hx1]; exact hc)
  · rw [hflags, subFlags_block (by omega)] at hc
    refine Returns.adr hadr (memsetAt_of_not_mem (by decide) _) (Returns.block [.subReg 1 1 2 (.lsl 0),
      .addReg 0 0 2 (.lsl 0), .subReg 6 5 2 (.lsr 2), .subs 31 1 0x40] (by decide +kernel) (memsetAt_block (by decide)) ?_)
    obtain ⟨T, hT⟩ : ∃ T, (S.set 5 (base + BitVec.ofNat 64 (4 * 36))).execs [.subReg 1 1 2 (.lsl 0),
      .addReg 0 0 2 (.lsl 0), .subReg 6 5 2 (.lsr 2), .subs 31 1 0x40] = T := ⟨_, rfl⟩
    have hquarter : BitVec.ofNat 64 (16 * q) >>> 2 = BitVec.ofNat 64 q <<< 2 := by
      rw [ofNat_shiftLeft, ofNat_ushiftRight, BitVec.toNat_ofNat]
      congr 1
      omega
    have hx0' : T.x 0 = s.x 0 + BitVec.ofNat 64 (16 * q) := by
      simp [← hT, Op.exec, Cpu.set, Cpu.get, Shift.apply, hx0, hx2]
    have hx1' : T.x 1 = s.x 1 - BitVec.ofNat 64 (16 * q) := by
      simp [← hT, Op.exec, Cpu.set, Cpu.get, Shift.apply, hx1, hx2]
    have hx6 : T.x 6 = base + BitVec.ofNat 64 (4 * (36 - q)) := by
      rw [← address_before base (by omega), ← hquarter, ← hx2, ← hT]
      simp [Op.exec, Cpu.set, Cpu.get, Shift.apply]
    have hflags' : T.flags = subFlags (T.x 1) 0x40 := by
      simp [← hT, Op.exec, Cpu.get, Cpu.set]
    have hfilled : F.Filled k T := hstands.toFilled.of_mem (by simp [← hT, Op.exec])
    rw [hT]
    refine Returns.br hbr (memsetAt_of_not_mem (by decide) _) hx6 (by omega)
      (memsetReturns_alignTable hsize hzero hq hfilled (by rw [hx0', h.dst]) ?_ (by rw [hx0']; exact hnext) hflags')
    rw [hx1']
    bv_omega

theorem memsetText_zerosAlign : ∀ b < 4, memsetText[11 + 3 * b]? = some (.tbz 0 b (11 + 3 * b + 3)) ∧
    [Instr.op (.str (2 ^ b) 31 0 (.post (BitVec.ofNat 64 (2 ^ b)))), .op (.sub 1 1 (BitVec.ofNat 64 (2 ^ b)))] <+:
      memsetText.drop (11 + 3 * b + 1) ∧ ∀ j < 2, 11 + 3 * b + 1 + j ∉ memsetEntries := by
  decide +kernel

/-- `memset_zeros_alignable`: a bit of the pointer. -/
theorem memsetReturns_zerosAlign (hsize : F.size < 9223372036854775808) (hzero : F.value = 0) {b : Nat} (hb : b < 4)
    (hlarge : 2 ^ (b + 1) ≤ F.size + 1) (hat : MemsetAt (11 + 3 * b) s)
    (hnext : ∀ k s, Aligned F.Stands F.size 1 (b + 1) k s → MemsetReturns base F (11 + 3 * b + 3) s)
    (h : Aligned F.Stands F.size 1 b k s) : MemsetReturns base F (11 + 3 * b) s := by
  obtain ⟨hcode, hops, hsilent⟩ := memsetText_zerosAlign b hb
  have hw : 2 ^ b ≤ 8 := Nat.pow_le_pow_right (by decide) (show b ≤ 3 by omega)
  have hvalue : Repeats F.value 8 (s.get 31) := hzero ▸ repeats_zero
  refine h.bit Returns.backward [.str (2 ^ b) 31 0 _, .sub 1 1 _] (by omega) hcode hops hat (memsetAt_block hsilent) hlarge
    (fun hs hk => (hs.str (hvalue.mono hw) hk hsize).sub (r := 1) (by decide) _) ?_ ?_ hnext
  · simp [Op.exec, Cpu.writeBack, Cpu.set, Cpu.get]
  · simp [Op.exec, Cpu.writeBack, Cpu.set, Cpu.get]

/-- `memset_zeros_alignable`: the low four bits of the pointer, from the lowest up. -/
theorem memsetReturns_zerosAlignable (hsize : F.size < 9223372036854775808) (hzero : F.value = 0) (h : F.Stands 0 s)
    (hrest : (s.x 1).toNat = F.size) (hge : 31 ≤ F.size) : MemsetReturns base F 11 s := by
  have haligned : Aligned F.Stands F.size 1 0 0 s := ⟨h, by omega, by decide, by rw [Nat.pow_zero, Nat.mod_one]⟩
  have hat : MemsetAt 11 s := memsetAt_entry .memsetZerosAlignable (by decide) (by rw [memsetRequires, hrest]; exact hge)
  apply memsetReturns_zerosAlign hsize hzero (b := 0) (by decide) (by omega) hat _ haligned
  intro k s h
  apply memsetReturns_zerosAlign hsize hzero (b := 1) (by decide) (by omega) (memsetAt_of_not_mem (by decide) s) _ h
  intro k s h
  apply memsetReturns_zerosAlign hsize hzero (b := 2) (by decide) (by omega) (memsetAt_of_not_mem (by decide) s) _ h
  intro k s h
  apply memsetReturns_zerosAlign hsize hzero (b := 3) (by decide) (by omega) (memsetAt_of_not_mem (by decide) s) _ h
  intro k s h
  have hfew := h.few
  have hrest := h.rest
  exact memsetReturns_zerosAlign16 hsize hzero h.done hrest (by omega) h.aligned

end Zeros

/-! ## Any other value -/

section Nonzero

variable {base : Addr} {F : Fill} {k : Nat} {s : Cpu}

/-- The stores of a chunk, and the steps of pointer and count. -/
def chunkOps : List Op :=
  [.prfm 0 0x80, .prfm 0 0xc0] ++ Fill.row 1 0 0 8 ++ [.subs 3 3 0x80, .add 0 0 0x80]

theorem chunkOps_regs (s : Cpu) : (s.execs chunkOps).x 0 = s.x 0 + 0x80 ∧ (s.execs chunkOps).x 1 = s.x 1 ∧
    (s.execs chunkOps).x 2 = s.x 2 ∧ (s.execs chunkOps).x 3 = s.x 3 - 0x80 ∧
      (s.execs chunkOps).flags = subFlags (s.x 3) 0x80 := by
  rw [chunkOps, Cpu.execs_append, Cpu.execs_append]
  refine ⟨?_, ?_, ?_, ?_, ?_⟩ <;> simp [Op.exec, Cpu.set, Cpu.get]

/-- A pass fills a chunk. -/
theorem chunkOps_holds (hsize : F.size < 9223372036854775808) (h : FillHolds F .nonzero k s) (hk : k + 128 ≤ F.size) :
    FillHolds F .nonzero (k + 128) (s.execs chunkOps) := by
  obtain ⟨hx0, hx1, -⟩ := chunkOps_regs s
  have hrow : F.Filled (k + 16 * (0 + 8)) ((s.execs [.prfm 0 0x80, .prfm 0 0xc0]).execs (Fill.row 1 0 0 8)) :=
    Fill.Filled.row (F := F) (k := k) (t := 0) h.toFilled (h.dst.trans (BitVec.add_zero _).symm) h.value hk hsize
  have hfilled : F.Filled (k + 128) (s.execs chunkOps) := by
    rw [chunkOps, Cpu.execs_append, Cpu.execs_append]
    exact hrow.of_mem (by simp [Op.exec])
  refine ⟨⟨hfilled, ?_⟩, ?_⟩
  · rw [hx0, h.dst]
    exact offset_add _ _ 128
  · show Repeats F.value 8 ((s.execs chunkOps).x 1)
    rw [hx1]
    exact h.value

/-- The loop over chunks: each pass takes a chunk off what is left of the size. -/
theorem memsetReturns_chunks (hsize : F.size < 9223372036854775808) (m : Nat) : ∀ (k : Nat) (s : Cpu),
    FillHolds F .nonzero k s → (s.x 3).toNat = m → k + 128 + (s.x 3).toNat = F.size →
      (s.x 3).toNat % 128 = (s.x 2).toNat → MemsetReturns base F 87 s := by
  have hbge : memsetText[99]? = some (.b .ge 87) := by decide +kernel
  induction m using Nat.strongRecOn with
  | ind m ih =>
    intro k s h hm hrest hmod
    obtain ⟨-, -, hx2, hx3, hflags⟩ := chunkOps_regs s
    have hcond : Cond.ge.holds (subFlags (s.x 3) 0x80) = true ↔ 128 ≤ (s.x 3).toNat := ge_holds (by omega) (by decide)
    have hpass := chunkOps_holds hsize h (by omega)
    refine Returns.block chunkOps (by decide +kernel) (memsetAt_block (by decide)) ?_
    refine Returns.b hbge (memsetAt_of_not_mem (by decide) _) (fun hc => ?_) (fun hc => ?_)
    · rw [hflags, hcond] at hc
      have hleft : ((s.execs chunkOps).x 3).toNat = m - 128 := by
        rw [hx3]
        bv_omega
      exact ih (m - 128) (by omega) (k + 128) _ hpass hleft (by omega) (by rw [hx2]; omega)
    · rw [hflags, hcond] at hc
      have hx : ((s.execs chunkOps).x 2).toNat = (s.x 3).toNat := by
        rw [hx2]
        omega
      exact memsetReturns_jump (f := .nonzero) hsize hpass (hx ▸ hrest) (show ((s.execs chunkOps).x 2).toNat < 128 by omega)

/-- `memset_align16`. -/
theorem memsetReturns_align16 (hsize : F.size < 9223372036854775808) (h : FillHolds F .nonzero k s)
    (hrest : k + (s.x 2).toNat = F.size) (hge : 16 ≤ (s.x 2).toNat) (haligned : (s.x 0).toNat % 16 = 0) :
    MemsetReturns base F 83 s := by
  have hat : MemsetAt 83 s := memsetAt_entry .memsetAlign16 (by decide) ⟨hge, haligned⟩
  have hprfm : memsetText[83]? = some (.op (.prfm 0 0x40)) := by decide +kernel
  have hblt : memsetText[86]? = some (.b .lt 100) := by decide +kernel
  have hcond : Cond.lt.holds (subFlags (s.x 2) 0x80) = true ↔ (s.x 2).toNat < 128 := lt_holds (by omega) (by decide)
  refine Returns.step hprfm hat rfl (Returns.block [.subs 3 2 0x80, .and 2 2 0x7f] (by decide +kernel)
    (memsetAt_block (by decide)) ?_)
  obtain ⟨S, hS⟩ : ∃ S, ((Op.prfm 0 0x40).exec s).execs [.subs 3 2 0x80, .and 2 2 0x7f] = S := ⟨_, rfl⟩
  have hx2 : (S.x 2).toNat = (s.x 2).toNat % 128 := by
    have hand : S.x 2 = s.x 2 &&& 0x7f := by simp [← hS, Op.exec, Cpu.set, Cpu.get]
    rw [hand]
    exact toNat_and_mask (s.x 2) 7 (by decide)
  have hx3 : S.x 3 = s.x 2 - 0x80 := by simp [← hS, Op.exec, Cpu.set, Cpu.get]
  have hflags : S.flags = subFlags (s.x 2) 0x80 := by simp [← hS, Op.exec, Cpu.get]
  have hholds : FillHolds F .nonzero k S := by
    refine ⟨⟨h.toFilled.of_mem (by simp [← hS, Op.exec]), ?_⟩, ?_⟩
    · rw [← h.dst, ← hS]
      simp [Op.exec, Cpu.set]
    · have hx1 : S.get 1 = s.get 1 := by simp [← hS, Op.exec, Cpu.set, Cpu.get]
      show Repeats F.value 8 (S.get 1)
      rw [hx1]
      exact h.value
  rw [hS]
  refine Returns.b hblt (memsetAt_of_not_mem (by decide) _) (fun hc => ?_) (fun hc => ?_)
  · rw [hflags, hcond] at hc
    exact memsetReturns_jump (f := .nonzero) hsize hholds (show k + (S.x 2).toNat = F.size by omega)
      (show (S.x 2).toNat < 128 by omega)
  · rw [hflags, hcond] at hc
    have hleft : (S.x 3).toNat = (s.x 2).toNat - 128 := by
      rw [hx3]
      bv_omega
    exact memsetReturns_chunks hsize _ k S hholds rfl (by omega) (by omega)

/-! ### Making the word -/

/-- Two copies of the byte. -/
def expandTwo (c : BitVec 8) : BitVec 64 := c.setWidth 64 ||| c.setWidth 64 <<< 8

/-- Four. -/
def expandFour (c : BitVec 8) : BitVec 64 := expandTwo c ||| expandTwo c <<< 16

theorem expandByte_eq (c : BitVec 8) : expandByte c = expandFour c ||| expandFour c <<< 32 := rfl

theorem repeats_expand : ∀ c : BitVec 8, Repeats c 1 (c.setWidth 64) ∧ Repeats c 2 (expandTwo c) ∧
    Repeats c 4 (expandFour c) ∧ Repeats c 8 (expandByte c) := by
  decide +kernel

/-- The first `k` bytes are set, and the words in `x1` and `x3` are on their way. -/
structure Expands (F : Fill) (v1 v3 : BitVec 64) (k : Nat) (s : Cpu) : Prop extends F.Stands k s where
  x1 : s.x 1 = v1
  x3 : s.x 3 = v3

/-- At an even bit of the pointer `x1` is stored, at an odd one `x3`. -/
def expandReg (b : Nat) : Reg := if b % 2 = 0 then 1 else 3

theorem memsetText_align : ∀ b < 4, memsetText[67 + 4 * b]? = some (.tbz 0 b (67 + 4 * b + 3)) ∧
    [Instr.op (.str (2 ^ b) (expandReg b) 0 (.post (BitVec.ofNat 64 (2 ^ b)))),
      .op (.sub 2 2 (BitVec.ofNat 64 (2 ^ b)))] <+: memsetText.drop (67 + 4 * b + 1) ∧
        ∀ j < 3, 67 + 4 * b + j ∉ memsetEntries := by
  decide +kernel

/-- `memset_alignable`: a bit of the pointer. -/
theorem memsetReturns_align (hsize : F.size < 9223372036854775808) {v1 v3 : BitVec 64} {b : Nat} (hb : b < 4)
    (hlarge : 2 ^ (b + 1) ≤ F.size + 1) (hvalue : Repeats F.value (2 ^ b) (if b % 2 = 0 then v1 else v3))
    (hnext : ∀ k s, Aligned (Expands F v1 v3) F.size 2 (b + 1) k s → MemsetReturns base F (67 + 4 * b + 3) s)
    (h : Aligned (Expands F v1 v3) F.size 2 b k s) : MemsetReturns base F (67 + 4 * b) s := by
  obtain ⟨hcode, hops, hsilent⟩ := memsetText_align b hb
  have hget : ∀ {k s}, Expands F v1 v3 k s → s.get (expandReg b) = if b % 2 = 0 then v1 else v3 := by
    intro k s hs
    unfold expandReg
    split
    · exact (Cpu.get_of_ne (by decide)).trans hs.x1
    · exact (Cpu.get_of_ne (by decide)).trans hs.x3
  have hreg : ∀ r : Nat, 1 ≤ r → r ≠ 2 → ∀ o ∈ [Op.str (2 ^ b) (expandReg b) 0 (.post (BitVec.ofNat 64 (2 ^ b))),
      .sub 2 2 (BitVec.ofNat 64 (2 ^ b))], r ∉ o.dests := by
    intro r hr hr2
    have hr0 : r ≠ 0 := Nat.ne_of_gt hr
    simp [Op.dests, Mode.dests, hr0, hr2]
  refine h.bit Returns.backward [.str (2 ^ b) (expandReg b) 0 _, .sub 2 2 _] (by omega) hcode hops
    (memsetAt_of_not_mem (hsilent 0 (by decide)) s) (memsetAt_behind hsilent) hlarge
    (fun hs hk => ⟨(hs.toStands.str ((hget hs).symm ▸ hvalue) hk hsize).sub (r := 2) (by decide) _, ?_, ?_⟩) ?_ ?_ hnext
  · rw [Cpu.execs_x (hreg 1 (by decide) (by decide)), hs.x1]
  · rw [Cpu.execs_x (hreg 3 (by decide) (by decide)), hs.x3]
  · simp [Op.exec, Cpu.writeBack, Cpu.set, Cpu.get]
  · simp [Op.exec, Cpu.writeBack, Cpu.set, Cpu.get]

/-- A register of the word is made. -/
theorem memsetReturns_make (o : Op) (v1' v3' : BitVec 64) {v1 v3 : BitVec 64} {b pc : Nat}
    (hcode : memsetText[pc]? = some (.op o)) (hat : MemsetAt pc s) (hmem : (o.exec s).mem = s.mem)
    (hx0 : 0 ∉ o.dests) (hx2 : 2 ∉ o.dests) (hx1 : Expands F v1 v3 k s → (o.exec s).x 1 = v1')
    (hx3 : Expands F v1 v3 k s → (o.exec s).x 3 = v3')
    (hnext : ∀ k s, Aligned (Expands F v1' v3') F.size 2 b k s → MemsetReturns base F (pc + 1) s)
    (h : Aligned (Expands F v1 v3) F.size 2 b k s) : MemsetReturns base F pc s := by
  have hdst : (o.exec s).x 0 = F.dst + BitVec.ofNat 64 k := (Op.exec_x hx0).trans h.done.dst
  have hexpands : Expands F v1' v3' k (o.exec s) := ⟨⟨h.done.toFilled.of_mem hmem, hdst⟩, hx1 h.done, hx3 h.done⟩
  exact Returns.step hcode hat rfl (hnext k _ (h.of_same hexpands (Op.exec_x hx2) (Op.exec_x hx0)))

/-- From the third bit on: `x1` has four copies, and `x3` the word. -/
theorem memsetReturns_makeEight (hsize : F.size < 9223372036854775808) (hlarge : 31 ≤ F.size)
    (h : Aligned (Expands F (expandFour F.value) (expandTwo F.value)) F.size 2 2 k s) : MemsetReturns base F 74 s := by
  obtain ⟨-, -, hfour, height⟩ := repeats_expand F.value
  apply memsetReturns_make (.orrReg 3 1 1 (.lsl 32)) (expandFour F.value) (expandByte F.value) (by decide +kernel)
    (memsetAt_of_not_mem (by decide) s) (by simp [Op.exec]) (by decide) (by decide) _ _ _ h
  · intro hs
    simp [Op.exec, Cpu.set, hs.x1]
  · intro hs
    simp [Op.exec, Cpu.set, Cpu.get, Shift.apply, hs.x1, expandByte_eq]
  intro k s h
  apply memsetReturns_align hsize (b := 2) (by decide) (by omega) hfour _ h
  intro k s h
  apply memsetReturns_make (.mov 1 3) (expandByte F.value) (expandByte F.value) (by decide +kernel)
    (memsetAt_of_not_mem (by decide) s) (by simp [Op.exec]) (by decide) (by decide) _ _ _ h
  · intro hs
    simp [Op.exec, Cpu.set, Cpu.get, hs.x3]
  · intro hs
    simp [Op.exec, Cpu.set, hs.x3]
  intro k s h
  apply memsetReturns_align hsize (b := 3) (by decide) (by omega) height _ h
  intro k s h
  refine Returns.block [.prfm 0 0] (by decide +kernel) (memsetAt_block (by decide)) ?_
  have hrest := h.rest
  have hfew := h.few
  refine memsetReturns_align16 hsize ⟨h.done.toStands, ?_⟩ hrest (show 16 ≤ (s.x 2).toNat by omega) h.aligned
  show Repeats F.value 8 (s.x 1)
  rw [h.done.x1]
  exact height

/-- `memset_alignable`: `x1` has the byte, and nothing above it. -/
theorem memsetReturns_alignable (hsize : F.size < 9223372036854775808) (hlarge : 31 ≤ F.size) (h : F.Stands 0 s)
    (hx1 : s.x 1 = F.value.setWidth 64) (hrest : (s.x 2).toNat = F.size) : MemsetReturns base F 66 s := by
  obtain ⟨hone, htwo, -, -⟩ := repeats_expand F.value
  have hat : MemsetAt 66 s := memsetAt_entry .memsetAlignable (by decide) (by rw [memsetRequires, hrest]; exact hlarge)
  have haligned : Aligned (Expands F (F.value.setWidth 64) (s.x 3)) F.size 2 0 0 s :=
    ⟨⟨h, hx1, rfl⟩, by omega, by decide, by rw [Nat.pow_zero, Nat.mod_one]⟩
  apply memsetReturns_make (.orrReg 3 1 1 (.lsl 8)) (F.value.setWidth 64) (expandTwo F.value) (by decide +kernel) hat
    (by simp [Op.exec]) (by decide) (by decide) _ _ _ haligned
  · intro hs
    simp [Op.exec, Cpu.set, hs.x1]
  · intro hs
    simp [Op.exec, Cpu.set, Cpu.get, Shift.apply, hs.x1, expandTwo]
  intro k s h
  apply memsetReturns_align hsize (b := 0) (by decide) (by omega) hone _ h
  intro k s h
  apply memsetReturns_make (.orrReg 1 3 3 (.lsl 16)) (expandFour F.value) (expandTwo F.value) (by decide +kernel)
    (memsetAt_of_not_mem (by decide) s) (by simp [Op.exec]) (by decide) (by decide) _ _ _ h
  · intro hs
    simp [Op.exec, Cpu.set, Cpu.get, Shift.apply, hs.x3, expandFour]
  · intro hs
    simp [Op.exec, Cpu.set, hs.x3]
  intro k s h
  apply memsetReturns_align hsize (b := 1) (by decide) (by omega) htwo _ h
  intro k s h
  exact memsetReturns_makeEight hsize hlarge h

end Nonzero

/-! ## Below thirty-two bytes -/

section Below32

variable {base : Addr} {F : Fill} {f : MemsetFamily} {k : Nat} {s : Cpu}

theorem memsetText_below32 (f : MemsetFamily) : memsetText[f.below16 - 2]? = some (.tbz f.size 4 f.below16) ∧
    [Instr.op (.stp f.value f.value 0 (.post 16))] <+: memsetText.drop (f.below16 - 2 + 1) ∧
      f.below16 - 2 + 1 ∉ memsetEntries := by
  cases f <;> decide +kernel

theorem memsetAt_below32 (hlt : (s.x f.size).toNat < 32) : MemsetAt (f.below16 - 2) s := by
  cases f with
  | zeros => exact memsetAt_entry .memsetZerosBelow32 (by decide) hlt
  | nonzero => exact memsetAt_entry .memsetBelow32 (by decide) hlt

/-- `memset_zeros_below32` and `memset_below32`. -/
theorem memsetReturns_below32 (hsize : F.size < 9223372036854775808) (h : FillHolds F f k s)
    (hrest : k + (s.x f.size).toNat = F.size) (hlt : (s.x f.size).toNat < 32) :
    MemsetReturns base F (f.below16 - 2) s := by
  obtain ⟨hcode, hops, hpc⟩ := memsetText_below32 f
  have hnext : f.below16 - 2 + 1 + 1 = f.below16 := by cases f <;> rfl
  have hget : s.get f.size = s.x f.size := Cpu.get_of_ne (by cases f <;> decide)
  have hregs : f.value ≠ 0 ∧ f.size ≠ 0 := by cases f <;> decide
  have hleft : Left (FillHolds F f) F.size f.size 5 k s :=
    ⟨h, by rw [hget, Nat.mod_eq_of_lt (show _ < 2 ^ 5 from hlt), hrest]⟩
  refine hleft.bit (FillHolds F f) [.stp f.value f.value 0 (.post 16)] (by rw [List.length_singleton, hnext]; exact hcode)
    hops (memsetAt_below32 hlt) (fun j hj => ?_) (fun hs hk => ?_) id ?_ (fun k' s' hleft' => ?_)
  · rw [Nat.lt_one_iff.1 hj]
    exact memsetAt_of_not_mem hpc
  · exact hs.of_execs (hs.toStands.stp hs.value hk hsize) (by simp [Op.dests, Mode.dests, hregs.1])
  · simp [Op.dests, Mode.dests, hregs.2]
  · rw [List.length_singleton, hnext]
    exact memsetReturns_below16 hsize hleft'

end Below32

/-! ## `memset` -/

/-- What a call of `memset` promises: the region has the byte, and everything else is as it was. -/
structure FillsRegion (s s' : Cpu) (s1 : BitVec 64) (v : BitVec 8) (n : BitVec 64) : Prop where
  filled : ∀ i < n.toNat, s'.mem (s1 + BitVec.ofNat 64 i) = v
  kept : ∀ x, ¬ Within s1 n.toNat x → s'.mem x = s.mem x

/-- A job that is done keeps the promise. -/
theorem Fill.Filled.fillsRegion {s s' : Cpu} {s1 n : BitVec 64} {v : BitVec 8}
    (h : (Fill.mk s1 n.toNat s.mem v).Filled n.toNat s') : FillsRegion s s' s1 v n where
  filled := fun i hi => by
    rw [h.mem, Mem.filled, Mem.over_within (Lib.within_add s1 hi (Nat.lt_trans hi n.isLt))]
  kept := fun x hx => by rw [h.mem, Mem.filled, Mem.over_outside hx]

theorem passArguments_mem (args : List (BitVec 64)) : ∀ (s : Cpu) (r : Reg), (passArguments s r args).mem = s.mem := by
  induction args with
  | nil => exact fun _ _ => rfl
  | cons arg args ih => exact fun s r => (ih _ _).trans Cpu.set_mem

/-- A register below the arguments' stays. -/
theorem passArguments_x {args : List (BitVec 64)} {q : Nat} : ∀ {s : Cpu} {r : Nat}, q < r →
    (passArguments s r args).x q = s.x q := by
  induction args with
  | nil => exact fun _ => rfl
  | cons arg args ih =>
    intro s r hlt
    rw [passArguments, ih (Nat.lt_succ_of_lt hlt), Cpu.set_x_of_ne (Nat.ne_of_lt hlt)]

/-- The calls of `memset`, and when it makes them. -/
inductive MemsetCalls (s1 : BitVec 64) (c : BitVec 32) (n : BitVec 64) : Option (MemsetLabel × List (BitVec 64)) → Prop
  | nothing : n = 0 → MemsetCalls s1 c n none
  | zerosBelow32 : c = 0 → n.toNat < 32 → MemsetCalls s1 c n (some (.memsetZerosBelow32, [s1, n]))
  | zerosDczva : c = 0 → 64 ≤ n.toNat → s1.toNat % 64 = 0 → MemsetCalls s1 c n (some (.memsetZerosDczva, [s1, n]))
  | zerosAlign16 : c = 0 → 32 ≤ n.toNat → s1.toNat % 16 = 0 → MemsetCalls s1 c n (some (.memsetZerosAlign16, [s1, n]))
  | zerosAlignable : c = 0 → 32 ≤ n.toNat → MemsetCalls s1 c n (some (.memsetZerosAlignable, [s1, n]))
  | below32 : n.toNat < 32 → MemsetCalls s1 c n (some (.memsetBelow32, [s1, expandByte (c.setWidth 8), n]))
  | align16 : 32 ≤ n.toNat → s1.toNat % 16 = 0 →
      MemsetCalls s1 c n (some (.memsetAlign16, [s1, expandByte (c.setWidth 8), n]))
  | alignable : 32 ≤ n.toNat → MemsetCalls s1 c n (some (.memsetAlignable, [s1, (c.setWidth 8).setWidth 64, n]))

theorem memsetCall_calls (s1 : BitVec 64) (c : BitVec 32) (n : BitVec 64) : MemsetCalls s1 c n (memsetCall s1 c n) := by
  have h16 : s1 &&& 15 = 0 → s1.toNat % 16 = 0 := fun h =>
    (toNat_and_mask s1 4 (by decide)).symm.trans (congrArg BitVec.toNat h)
  have h64 : s1 &&& (dczvaSize - 1) = 0 → s1.toNat % 64 = 0 := fun h =>
    (toNat_and_mask s1 6 (by decide)).symm.trans (congrArg BitVec.toNat h)
  have hblocks : (0 : BitVec 64).ult (n >>> CPU_DCZVA_BITS) = true → 64 ≤ n.toNat := fun h => by
    rw [BitVec.ult_eq_decide, decide_eq_true_eq, BitVec.toNat_ushiftRight, Nat.shiftRight_eq_div_pow] at h
    exact (Nat.div_pos_iff.1 h).2
  have hult : n.ult 32 = true ↔ n.toNat < 32 := by rw [BitVec.ult_eq_decide, decide_eq_true_eq]; rfl
  unfold memsetCall
  by_cases hnothing : n = 0
  · rw [if_pos hnothing]
    exact .nothing hnothing
  rw [if_neg hnothing]
  by_cases hc : c = 0
  · rw [if_pos hc]
    by_cases hsmall : n.ult 32 = true
    · rw [if_pos hsmall]
      exact .zerosBelow32 hc (hult.1 hsmall)
    have hlarge : 32 ≤ n.toNat := Nat.not_lt.1 fun h => hsmall (hult.2 h)
    rw [if_neg hsmall]
    split
    · next h => exact .zerosDczva hc (hblocks h.2) (h64 h.1)
    · split
      · next h => exact .zerosAlign16 hc hlarge (h16 h)
      · exact .zerosAlignable hc hlarge
  · rw [if_neg hc]
    dsimp only
    by_cases hsmall : n.ult 32 = true
    · rw [if_pos hsmall]
      exact .below32 (hult.1 hsmall)
    have hlarge : 32 ≤ n.toNat := Nat.not_lt.1 fun h => hsmall (hult.2 h)
    rw [if_neg hsmall]
    split
    · next h => exact .align16 hlarge (h16 h)
    · exact .alignable hlarge

/-- The entry that is called fills the region, and what it falls into is entered as it requires. -/
theorem memsetReturns_call (base : Addr) (s : Cpu) (s1 : BitVec 64) (c : BitVec 32) (n : BitVec 64)
    (hn : n.toNat < 9223372036854775808) {entry : MemsetLabel} {args : List (BitVec 64)}
    (hcall : MemsetCalls s1 c n (some (entry, args))) :
    MemsetReturns base ⟨s1, n.toNat, s.mem, c.setWidth 8⟩ (labelPos entry memsetLines) (passArguments s 0 args) := by
  obtain ⟨F, hF⟩ : ∃ F, Fill.mk s1 n.toNat s.mem (c.setWidth 8) = F := ⟨_, rfl⟩
  have hsize : F.size = n.toNat := hF ▸ rfl
  have hzero : c = 0 → F.value = 0 := fun h => by rw [← hF, h]; rfl
  have hstands : ∀ args', F.Stands 0 (passArguments s 0 (s1 :: args')) := fun args' => by
    refine ⟨⟨?_, Nat.zero_le _⟩, ?_⟩
    · rw [passArguments_mem, ← hF]
      exact (Mem.over_nothing _ _ _).symm
    · rw [passArguments, passArguments_x (by decide), ← hF]
      exact (Cpu.set_x_self (by decide)).trans (BitVec.add_zero _).symm
  have hx1 : ∀ a args', (passArguments s 0 (s1 :: a :: args')).x 1 = a := fun a args' => by
    rw [passArguments, passArguments, passArguments_x (by decide)]
    exact Cpu.set_x_self (by decide)
  have hx2 : ∀ a a', (passArguments s 0 [s1, a, a']).x 2 = a' := fun a a' => by simp [passArguments, Cpu.set]
  have hx0 : ∀ args', (passArguments s 0 (s1 :: args')).x 0 = s1 := fun args' => by
    rw [passArguments, passArguments_x (by decide)]
    exact Cpu.set_x_self (by decide)
  have hn' : F.size < 9223372036854775808 := hsize ▸ hn
  have hword : ∀ n', FillHolds F .nonzero 0 (passArguments s 0 [s1, expandByte (c.setWidth 8), n']) := fun n' => by
    refine ⟨hstands _, ?_⟩
    show Repeats F.value 8 ((passArguments s 0 [s1, expandByte (c.setWidth 8), n']).x 1)
    rw [hx1, ← hF]
    exact (repeats_expand _).2.2.2
  rw [hF]
  cases hcall with
  | zerosBelow32 hc hlt =>
    exact memsetReturns_below32 (f := .zeros) hn' (.zeros (hzero hc) (hstands _))
      (by rw [MemsetFamily.size, hx1, hsize, Nat.zero_add]) (by rw [MemsetFamily.size, hx1]; exact hlt)
  | zerosDczva hc hge haligned =>
    exact memsetReturns_dczva hn' (hzero hc) (hstands _) (by rw [hx1, hsize, Nat.zero_add]) (by rw [hx1]; exact hge)
      (by rw [hx0]; exact haligned)
  | zerosAlign16 hc hge haligned =>
    exact memsetReturns_zerosAlign16 hn' (hzero hc) (hstands _) (by rw [hx1, hsize, Nat.zero_add])
      (by rw [hx1]; omega) (by rw [hx0]; exact haligned)
  | zerosAlignable hc hge =>
    exact memsetReturns_zerosAlignable hn' (hzero hc) (hstands _) (by rw [hx1, hsize]) (by omega)
  | below32 hlt =>
    exact memsetReturns_below32 (f := .nonzero) hn' (hword _) (by rw [MemsetFamily.size, hx2, hsize, Nat.zero_add])
      (by rw [MemsetFamily.size, hx2]; exact hlt)
  | align16 hge haligned =>
    exact memsetReturns_align16 hn' (hword _) (by rw [hx2, hsize, Nat.zero_add]) (by rw [hx2]; omega)
      (by rw [hx0]; exact haligned)
  | alignable hge =>
    exact memsetReturns_alignable hn' (by omega) (hstands _) (by rw [hx1, ← hF]) (by rw [hx2, hsize])

/-- **`memset` fills.** For any address, any `c` and any size below `2 ^ 63` the call ends, sets each byte to the low byte
of `c`, changes nothing else, and enters each entry as it requires. -/
theorem memset_fills (base : Addr) (s : Cpu) (s1 : BitVec 64) (c : BitVec 32) (n : BitVec 64)
    (hn : n.toNat < 9223372036854775808) :
    ∃ fuel s', memset base fuel s s1 c n = .ok (s1, s') ∧ FillsRegion s s' s1 (c.setWidth 8) n ∧
      ∀ v ∈ memsetTrace base fuel s s1 c n, MemsetAt v.1 v.2 := by
  have hassert : cassert (n.ule compilerSizeofObject) = .ok () := by
    have hule : n.ule compilerSizeofObject = true := by
      rw [BitVec.ule_eq_decide, decide_eq_true_eq]
      exact Nat.le_of_lt_succ n.isLt
    rw [hule, cassert_true]
  simp only [memset, memsetTrace, hassert, ok_bind]
  cases hcall : memsetCall s1 c n with
  | none =>
    have hcalls := memsetCall_calls s1 c n
    rw [hcall] at hcalls
    obtain ⟨rfl⟩ := hcalls
    refine ⟨0, s, rfl, ⟨fun i hi => absurd hi (Nat.not_lt_zero i), fun _ _ => rfl⟩, fun _ hv => absurd hv List.not_mem_nil⟩
  | some call =>
    obtain ⟨entry, args⟩ := call
    obtain ⟨fuel, s', hrun, hfilled, htrace⟩ := memsetReturns_call base s s1 c n hn (hcall ▸ memsetCall_calls s1 c n)
    refine ⟨fuel, s', ?_, Fill.Filled.fillsRegion hfilled, htrace⟩
    dsimp only
    unfold callText
    rw [show assemble memsetLines = memsetText from rfl, hrun]
    rfl

/-- A hundred bytes of the low byte of `c`, three bytes behind a multiple of sixteen, where each byte is that of its
address. -/
theorem memset_fills_hundred : ∃ fuel s', memset 4096 fuel countingCpu 67 0x2a5 100 = .ok (67, s') ∧
    FillsRegion countingCpu s' 67 0xa5 100 ∧ (∀ v ∈ memsetTrace 4096 fuel countingCpu 67 0x2a5 100, MemsetAt v.1 v.2) ∧
    s'.mem 66 = 66 ∧ s'.mem 67 = 0xa5 ∧ s'.mem 166 = 0xa5 ∧ s'.mem 167 = 167 := by
  obtain ⟨fuel, s', hrun, hfills, htrace⟩ := memset_fills 4096 countingCpu 67 0x2a5 100 (by decide)
  refine ⟨fuel, s', hrun, hfills, htrace, ?_, hfills.filled 0 (by decide), hfills.filled 99 (by decide), ?_⟩
  · exact hfills.kept 66 (by decide)
  · exact hfills.kept 167 (by decide)

end GunyahRuntime
