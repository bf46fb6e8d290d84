/-
# GunyahRuntime.MemcpyRuns -- `memcpy` copies its region

The listing is gone through from its end: what a position needs in order to return with the copy done is shown before the
positions that lead there. At most of them the first `k` bytes are copied, the pointers stand behind them, and `x2` has
the rest of the size, or at least its low bits. Only around the loop there is more to say: a chunk of eight pairs is
loaded and waits in the registers, both pointers stand `0x70` bytes ahead of it, and the size is less by two chunks.
-/
import GunyahRuntime.Memcpy
import GunyahRuntime.Lib.Arm.Bits
import GunyahRuntime.Lib.Arm.Copy

namespace GunyahRuntime

open Lib (Addr Mem Within RegionsApart)
open Lib.Arm

/-- From position `pc` the listing returns with the job done. -/
def MemcpyReturns (base : Addr) (J : Job) (pc : Nat) (s : Cpu) : Prop :=
  Returns base memcpyText (fun _ _ => True) (J.Copied J.size) pc s

section Runs

variable {base : Addr} {J : Job} {k : Nat} {s : Cpu}

/-- `k` bytes are copied, the pointers stand behind them, and the rest of the size is in `x2`. -/
structure Rests (J : Job) (k : Nat) (s : Cpu) : Prop extends J.Stands k s where
  rest : k + (s.x 2).toNat = J.size

theorem memcpyReturns_ret {pc : Nat} (hcode : memcpyText[pc]? = some .ret) (h : J.Copied J.size s) :
    MemcpyReturns base J pc s := Returns.ret hcode trivial h

/-! ## `memcpy_below16` and `memcpy_below32` -/

theorem memcpyText_word : ∀ b < 3, memcpyText[3 + 3 * (2 - b)]? = some (.tbz 2 (b + 1) (3 + 3 * (2 - b) + 3)) ∧
    [Instr.op (.ldr (2 ^ (b + 1)) 3 1 (.post (BitVec.ofNat 64 (2 ^ (b + 1))))),
      .op (.str (2 ^ (b + 1)) 3 0 (.post (BitVec.ofNat 64 (2 ^ (b + 1)))))] <+:
        memcpyText.drop (3 + 3 * (2 - b) + 1) := by
  decide +kernel

/-- A bit of the size above the lowest: one word of `2 ^ (b + 1)` bytes. -/
theorem memcpyReturns_word (hJ : J.Sound 128) {b : Nat} (hb : b < 3)
    (hnext : ∀ k s, Left J.Stands J.size 2 (b + 1) k s → MemcpyReturns base J (3 + 3 * (2 - b) + 3) s)
    (h : Left J.Stands J.size 2 (b + 2) k s) : MemcpyReturns base J (3 + 3 * (2 - b)) s := by
  obtain ⟨hcode, hops⟩ := memcpyText_word b hb
  have hw : 2 ^ (b + 1) ≤ 8 := Nat.pow_le_pow_right (by decide) (show b + 1 ≤ 3 by omega)
  refine h.bit J.Stands [.ldr (2 ^ (b + 1)) 3 1 _, .str (2 ^ (b + 1)) 3 0 _] hcode hops trivial (fun _ _ _ => trivial)
    (fun hs hk => hs.copy hJ (by omega) hw hk) id ?_ hnext
  simp [Op.dests, Mode.dests]

/-- The last byte. -/
theorem memcpyReturns_byte (hJ : J.Sound 128) (h : Left J.Stands J.size 2 1 k s) : MemcpyReturns base J 12 s := by
  refine h.bit J.Copied [.ldr 1 3 1 (.off 0), .str 1 3 0 (.off 0)] (by decide +kernel)
    (by decide +kernel) trivial (fun _ _ _ => trivial) (fun hs hk => ?_) (fun hs => hs.toCopied) ?_ ?_
  · have ha : s.address 1 (.off 0) = J.src + BitVec.ofNat 64 k := (BitVec.add_zero _).trans hs.src
    have hloaded : J.Copied k ((Op.ldr 1 3 1 (.off 0)).exec s) := hs.toCopied.ldr ha hk
    have hvalue : ((Op.ldr 1 3 1 (.off 0)).exec s).x 3 = J.word k 1 :=
      hs.toCopied.ldr_x hJ ha le_rfl (by omega) hk (by decide) (by decide)
    have hdst : ((Op.ldr 1 3 1 (.off 0)).exec s).address 0 (.off 0) = J.dst + BitVec.ofNat 64 k :=
      (BitVec.add_zero _).trans ((Op.exec_x (by decide)).trans hs.dst)
    exact hloaded.str hJ hdst hvalue (by decide) hk
  · simp [Op.dests, Mode.dests]
  · intro k' s' hleft
    have hrest := hleft.rest
    rw [Nat.pow_zero, Nat.mod_one, Nat.add_zero] at hrest
    exact memcpyReturns_ret (by decide +kernel) (hrest ▸ hleft.done)

/-- `memcpy_below16`: the low four bits of the size, from the highest down. -/
theorem memcpyReturns_below16 (hJ : J.Sound 128) (h : Left J.Stands J.size 2 4 k s) : MemcpyReturns base J 3 s := by
  apply memcpyReturns_word hJ (b := 2) (by decide) _ h
  intro k s h
  apply memcpyReturns_word hJ (b := 1) (by decide) _ h
  intro k s h
  apply memcpyReturns_word hJ (b := 0) (by decide) _ h
  intro k s h
  exact memcpyReturns_byte hJ h

/-- `memcpy_below32`: the low five. -/
theorem memcpyReturns_below32 (hJ : J.Sound 128) (h : Left J.Stands J.size 2 5 k s) : MemcpyReturns base J 0 s := by
  refine h.bit J.Stands [.ldp 3 4 1 (.post 16), .stp 3 4 0 (.post 16)] (by decide +kernel) (by decide +kernel) trivial
    (fun _ _ _ => trivial) (fun hs hk => hs.copy_pair hJ (by decide) hk) id ?_ (fun _ _ => memcpyReturns_below16 hJ)
  simp [Op.dests, Mode.dests]

/-! ## `memcpy_below128` -/

/-- What is left of the size below sixteen bytes, or the end. -/
theorem memcpyReturns_last (hJ : J.Sound 128) (h : Rests J k s) (hlt : (s.x 2).toNat < 16) :
    MemcpyReturns base J 131 s := by
  have hrest := h.rest
  have hcode : memcpyText[131]? = some (.cbnz 2 3) := by decide +kernel
  refine Returns.cbnz hcode trivial (fun hzero => ?_) (fun _ => ?_)
  · have hnothing : (s.x 2).toNat = 0 := congrArg BitVec.toNat hzero
    rw [hnothing, Nat.add_zero] at hrest
    exact memcpyReturns_ret (by decide +kernel) (hrest ▸ h.toCopied)
  · refine memcpyReturns_below16 hJ ⟨h.toStands, ?_⟩
    show k + (s.x 2).toNat % 16 = J.size
    rw [Nat.mod_eq_of_lt hlt]
    exact hrest

/-- The table of loads, entered so that the last `q` of its seven entries are run. -/
theorem memcpyText_loads : ∀ q < 8, (Job.ops (8 - q) (BitVec.ofNat 64 (16 * q)) 0 0 (List.replicate q .load)).map
    Instr.op <+: memcpyText.drop (121 - q) := by
  decide +kernel

/-- The table of stores. -/
theorem memcpyText_stores : ∀ q < 8, (Job.ops (8 - q) (BitVec.ofNat 64 (16 * q)) 0 q (List.replicate q .store)).map
    Instr.op <+: memcpyText.drop (131 - q) := by
  decide +kernel

/-- The loads leave the count alone. -/
theorem memcpyText_loads_dests : ∀ q < 8,
    ∀ p ∈ Job.ops (8 - q) (BitVec.ofNat 64 (16 * q)) 0 0 (List.replicate q .load), 4 ∉ p.dests := by
  decide +kernel

theorem leads_tables : ∀ q < 8, Job.Leads 0 0 (List.replicate q .load) 0 q ∧
    Job.Leads 0 q (List.replicate q .store) q q := by
  decide

/-- The two tables of `memcpy_below128`: `l` of `q` pairs are loaded, and the pointers stand behind all of them. -/
structure Jumping (J : Job) (q k l : Nat) (s : Cpu) : Prop extends J.Pipe (8 - q) k 0 l s where
  dst : s.x 0 = J.dst + BitVec.ofNat 64 k + BitVec.ofNat 64 (16 * q)
  src : s.x 1 = J.src + BitVec.ofNat 64 k + BitVec.ofNat 64 (16 * q)
  count : s.x 4 = BitVec.ofNat 64 q
  rest : k + 16 * q + (s.x 2).toNat = J.size
  few : (s.x 2).toNat < 16

theorem slot_tables : ∀ q < 8, ∀ j < q, 5 ≤ Job.slot (8 - q) j := by decide

/-- The jump's own register can be anything. -/
theorem Jumping.set {q l : Nat} (hq : q < 8) (hl : l ≤ q) (h : Jumping J q k l s) (value : BitVec 64) :
    Jumping J q k l (s.set 3 value) := by
  have hx : ∀ r : Nat, r ≠ 3 → (s.set 3 value).x r = s.x r := fun r hr => Cpu.set_x_of_ne hr
  refine ⟨⟨h.copied.of_same Cpu.set_mem Cpu.set_reads, Nat.zero_le _, fun j hj hjl => ?_⟩, ?_, ?_, ?_, ?_, ?_⟩
  · have hslot := slot_tables q hq j (by omega)
    rw [hx _ (by omega), hx _ (by omega)]
    exact h.held j hj hjl
  · rw [hx 0 (by decide), h.dst]
  · rw [hx 1 (by decide), h.src]
  · rw [hx 4 (by decide), h.count]
  · rw [hx 2 (by decide), h.rest]
  · rw [hx 2 (by decide)]
    exact h.few

/-- Inside the table of stores. -/
theorem memcpyReturns_stores (hJ : J.Sound 128) {q : Nat} (hq : q < 8) (h : Jumping J q k q s) :
    MemcpyReturns base J (131 - q) s := by
  have hrest := h.rest
  have hpipe := h.toPipe.execs hJ (leads_tables q hq).2 (fun _ => h.dst) h.src (by omega)
  refine Returns.block _ (memcpyText_stores q hq) (fun _ _ _ => trivial) ?_
  rw [Job.length_ops, List.length_replicate, Nat.sub_add_cancel (by omega)]
  have hx : ∀ r : Nat, r < 3 →
      (s.execs (Job.ops (8 - q) (BitVec.ofNat 64 (16 * q)) 0 q (List.replicate q .store))).x r = s.x r :=
    fun r hr => Cpu.execs_x (Job.ops_dests hr)
  refine memcpyReturns_last (k := k + 16 * q) hJ ⟨⟨hpipe.copied, ?_, ?_⟩, ?_⟩ ?_
  · rw [hx 0 (by decide), h.dst, offset_add]
  · rw [hx 1 (by decide), h.src, offset_add]
  · rw [hx 2 (by decide), hrest]
  · rw [hx 2 (by decide)]
    exact h.few

/-- From the second jump on. -/
theorem memcpyReturns_loaded (hJ : J.Sound 128) {q : Nat} (hq : q < 8) (h : Jumping J q k q s) :
    MemcpyReturns base J 121 s := by
  have hadr : memcpyText[121]? = some (.adr 3 131) := by decide +kernel
  have hbr : memcpyText[123]? = some (.br 3) := by decide +kernel
  refine Returns.adr hadr trivial (Returns.block [.subReg 3 3 4 (.lsl 2)] (by decide +kernel) (fun _ _ _ => trivial) ?_)
  obtain ⟨S, hS⟩ : ∃ S, s.set 3 (base + BitVec.ofNat 64 (4 * 131)) = S := ⟨_, rfl⟩
  have hset : Jumping J q k q S := hS ▸ h.set hq le_rfl _
  have hx3 : S.x 3 = base + BitVec.ofNat 64 (4 * 131) := by rw [← hS, Cpu.set_x_self (by decide)]
  have hjump : (S.execs [.subReg 3 3 4 (.lsl 2)]).x 3 = base + BitVec.ofNat 64 (4 * (131 - q)) := by
    have hstep : (S.execs [.subReg 3 3 4 (.lsl 2)]).x 3 = S.x 3 - S.x 4 <<< 2 := by
      simp [Op.exec, Cpu.get, Cpu.set, Shift.apply]
    rw [hstep, hx3, hset.count, address_before base (by omega)]
  rw [hS]
  exact Returns.br hbr trivial hjump (by omega) (memcpyReturns_stores hJ hq (hset.set hq le_rfl _))

/-- Inside the table of loads. -/
theorem memcpyReturns_loads (hJ : J.Sound 128) {q : Nat} (hq : q < 8) (h : Jumping J q k 0 s) :
    MemcpyReturns base J (121 - q) s := by
  have hrest := h.rest
  have hpipe := h.toPipe.execs hJ (leads_tables q hq).1 (fun _ => h.dst) h.src (by omega)
  refine Returns.block _ (memcpyText_loads q hq) (fun _ _ _ => trivial) ?_
  rw [Job.length_ops, List.length_replicate, Nat.sub_add_cancel (by omega)]
  have hx : ∀ r : Nat, r < 3 →
      (s.execs (Job.ops (8 - q) (BitVec.ofNat 64 (16 * q)) 0 0 (List.replicate q .load))).x r = s.x r :=
    fun r hr => Cpu.execs_x (Job.ops_dests hr)
  refine memcpyReturns_loaded hJ hq ⟨hpipe, ?_, ?_, ?_, ?_, ?_⟩
  · rw [hx 0 (by decide), h.dst]
  · rw [hx 1 (by decide), h.src]
  · rw [Cpu.execs_x (memcpyText_loads_dests q hq), h.count]
  · rw [hx 2 (by decide), hrest]
  · rw [hx 2 (by decide)]
    exact h.few

/-- `memcpy_below128`: the pointers go behind the pairs that are left, and the jump is as many instructions before the
end of the table. -/
theorem memcpyReturns_below128 (hJ : J.Sound 128) (h : Rests J k s) (hlt : (s.x 2).toNat < 128) :
    MemcpyReturns base J 107 s := by
  obtain ⟨q, hq⟩ : ∃ q, q = (s.x 2).toNat / 16 := ⟨_, rfl⟩
  have hq8 : q < 8 := by omega
  have hrest := h.rest
  have hcount : s.x 2 >>> 4 = BitVec.ofNat 64 q := hq ▸ ofNat_ushiftRight (s.x 2) 4
  have hadr : memcpyText[107]? = some (.adr 3 121) := by decide +kernel
  have hbr : memcpyText[113]? = some (.br 3) := by decide +kernel
  refine Returns.adr hadr trivial (Returns.block [.lsr 4 2 4, .addReg 0 0 4 (.lsl 4), .subReg 3 3 4 (.lsl 2),
    .addReg 1 1 4 (.lsl 4), .subReg 2 2 4 (.lsl 4)] (by decide +kernel) (fun _ _ _ => trivial) ?_)
  obtain ⟨S, hS⟩ : ∃ S, (s.set 3 (base + BitVec.ofNat 64 (4 * 121))).execs [.lsr 4 2 4, .addReg 0 0 4 (.lsl 4),
    .subReg 3 3 4 (.lsl 2), .addReg 1 1 4 (.lsl 4), .subReg 2 2 4 (.lsl 4)] = S := ⟨_, rfl⟩
  have hx2 : S.x 2 = s.x 2 - BitVec.ofNat 64 (16 * q) := by
    simp [← hS, Op.exec, Cpu.set, Cpu.get, Shift.apply, hcount, ofNat_shiftLeft]
  have hx3 : S.x 3 = base + BitVec.ofNat 64 (4 * (121 - q)) := by
    rw [← address_before base (by omega)]
    simp [← hS, Op.exec, Cpu.set, Cpu.get, Shift.apply, hcount]
  have hx4 : S.x 4 = BitVec.ofNat 64 q := by
    simp [← hS, Op.exec, Cpu.set, Cpu.get, Shift.apply, hcount]
  have hcopied : J.Copied k S := by
    apply h.toCopied.of_same <;> simp [← hS, Op.exec, Cpu.set]
  have hleft : (S.x 2).toNat = (s.x 2).toNat % 16 := by
    rw [hx2]
    bv_omega
  rw [hS]
  refine Returns.br hbr trivial hx3 (by omega) (memcpyReturns_loads hJ hq8 ⟨hcopied.pipe _, ?_, ?_, hx4, ?_, ?_⟩)
  · simp [← hS, Op.exec, Cpu.set, Cpu.get, Shift.apply, hcount, ofNat_shiftLeft, h.dst]
  · simp [← hS, Op.exec, Cpu.set, Cpu.get, Shift.apply, hcount, ofNat_shiftLeft, h.src]
  · omega
  · omega

/-! ## `memcpy_below256` -/

/-- Only registers from `x3` on, and the flags, have changed. -/
theorem Rests.of_same {s' : Cpu} (h : Rests J k s) (hx : ∀ r : Nat, r < 3 → s'.x r = s.x r) (hmem : s'.mem = s.mem)
    (hreads : s'.reads = s.reads) : Rests J k s' := by
  refine ⟨⟨h.toCopied.of_same hmem hreads, ?_, ?_⟩, ?_⟩
  · rw [hx 0 (by decide), h.dst]
  · rw [hx 1 (by decide), h.src]
  · rw [hx 2 (by decide), h.rest]

/-- One chunk, loaded and stored in turns. -/
def chunkMoves : List Job.Move :=
  [.load, .load, .load, .load, .store, .load, .store, .load, .store, .load, .store, .load, .store, .store, .store, .store]

/-- `memcpy_below256`: a chunk, if there is one. -/
theorem memcpyReturns_below256 (hJ : J.Sound 128) (h : Rests J k s) (hlt : (s.x 2).toNat < 256) :
    MemcpyReturns base J 86 s := by
  have hblt : memcpyText[87]? = some (.b .lt 107) := by decide +kernel
  have hrest := h.rest
  refine Returns.block [.subs 31 2 0x80] (by decide +kernel) (fun _ _ _ => trivial) ?_
  have hcond : Cond.lt.holds (subFlags (s.x 2) 0x80) = true ↔ (s.x 2).toNat < 128 := lt_holds (by omega) (by decide)
  refine Returns.b hblt trivial (fun hc => ?_) (fun hc => ?_)
  · exact memcpyReturns_below128 hJ (h.of_same (fun _ _ => rfl) rfl rfl) (hcond.1 hc)
  · have hge : 128 ≤ (s.x 2).toNat := Nat.not_lt.1 fun hl => hc (hcond.2 hl)
    obtain ⟨S, hS⟩ : ∃ S, s.execs [.subs 31 2 0x80] = S := ⟨_, rfl⟩
    have hS' : Rests J k S := hS ▸ h.of_same (fun _ _ => rfl) rfl rfl
    have hx2 : S.x 2 = s.x 2 := hS ▸ rfl
    rw [hS]
    refine Returns.block (Job.ops 0 0 0 0 chunkMoves) (by decide +kernel) (fun _ _ _ => trivial) ?_
    have hpipe : J.Pipe 0 k 8 8 (S.execs (Job.ops 0 0 0 0 chunkMoves)) :=
      (hS'.toCopied.pipe 0).execs hJ (by decide) (fun _ => hS'.dst.trans (BitVec.add_zero _).symm)
        (hS'.src.trans (BitVec.add_zero _).symm) (by omega)
    have hx : ∀ r : Nat, r < 3 → (S.execs (Job.ops 0 0 0 0 chunkMoves)).x r = S.x r :=
      fun r hr => Cpu.execs_x (Job.ops_dests hr)
    obtain ⟨T, hT⟩ : ∃ T, S.execs (Job.ops 0 0 0 0 chunkMoves) = T := ⟨_, rfl⟩
    rw [hT] at hpipe hx ⊢
    refine Returns.block [.add 0 0 0x80, .add 1 1 0x80, .sub 2 2 0x80] (by decide +kernel) (fun _ _ _ => trivial) ?_
    have hx2' : (T.execs [.add 0 0 0x80, .add 1 1 0x80, .sub 2 2 0x80]).x 2 = s.x 2 - 0x80 := by
      simp [Op.exec, Cpu.set, Cpu.get, hx, hx2]
    have hleft : ((T.execs [.add 0 0 0x80, .add 1 1 0x80, .sub 2 2 0x80]).x 2).toNat = (s.x 2).toNat - 128 := by
      rw [hx2']
      bv_omega
    refine memcpyReturns_below128 (k := k + 128) hJ ⟨⟨hpipe.copied.of_same ?_ ?_, ?_, ?_⟩, ?_⟩ ?_
    · simp [Op.exec]
    · simp [Op.exec]
    · simp [Op.exec, Cpu.set, Cpu.get, hx, hS'.dst, ← offset_add]
    · simp [Op.exec, Cpu.set, Cpu.get, hx, hS'.src, ← offset_add]
    · omega
    · omega

/-! ## The loop -/

/-- A chunk waits in the registers, and both pointers stand `0x70` bytes ahead of it. -/
structure Ahead (J : Job) (k : Nat) (s : Cpu) : Prop extends J.Pipe 0 k 0 8 s where
  dst : s.x 0 = J.dst + BitVec.ofNat 64 k + 0x70
  src : s.x 1 = J.src + BitVec.ofNat 64 k + 0x70

/-- Only registers that neither hold nor point to anything have changed, and the flags. -/
theorem Ahead.of_same {s' : Cpu} (h : Ahead J k s) (hx : ∀ r : Nat, r ≠ 2 → s'.x r = s.x r) (hmem : s'.mem = s.mem)
    (hreads : s'.reads = s.reads) : Ahead J k s' := by
  refine ⟨⟨h.copied.of_same hmem hreads, h.le, fun j hj hjl => ?_⟩, ?_, ?_⟩
  · have hslot := Job.slot_bounds 0 j
    rw [hx _ (by omega), hx _ (by omega)]
    exact h.held j hj hjl
  · rw [hx 0 (by decide), h.dst]
  · rw [hx 1 (by decide), h.src]

/-- Behind the loop: the chunk that waits is stored, and the size, which is less by two chunks, is put right. -/
theorem memcpyReturns_lastChunk (hJ : J.Sound 128) (h : Ahead J k s) (hrest : k + 128 + (s.x 2 + 0x80).toNat = J.size)
    (hlt : (s.x 2 + 0x80).toNat < 128) : MemcpyReturns base J 72 s := by
  have hbeq : memcpyText[83]? = some (.b .eq 132) := by decide +kernel
  refine Returns.block [.prfm 0 0x10, .prfm 0 0x50, .adds 2 2 0x80] (by decide +kernel) (fun _ _ _ => trivial) ?_
  obtain ⟨S, hS⟩ : ∃ S, s.execs [.prfm 0 0x10, .prfm 0 0x50, .adds 2 2 0x80] = S := ⟨_, rfl⟩
  have hx2 : S.x 2 = s.x 2 + 0x80 := by simp [← hS, Op.exec, Cpu.get, Cpu.set]
  have hflags : S.flags = addFlags (s.x 2) 0x80 := by simp [← hS, Op.exec, Cpu.get]
  have hahead : Ahead J k S := by
    apply h.of_same <;> simp [← hS, Op.exec]
    exact fun r hr => Cpu.set_x_of_ne hr
  rw [hS]
  refine Returns.block (Job.ops 0 0x70 0 8 (List.replicate 8 .store)) (by decide +kernel) (fun _ _ _ => trivial) ?_
  obtain ⟨T, hT⟩ : ∃ T, S.execs (Job.ops 0 0x70 0 8 (List.replicate 8 .store)) = T := ⟨_, rfl⟩
  have hpipe : J.Pipe 0 k 8 8 T := hT ▸ hahead.toPipe.execs hJ (by decide) (fun _ => hahead.dst) hahead.src (by omega)
  have hx : ∀ r : Nat, r < 3 → T.x r = S.x r := fun r hr => hT ▸ Cpu.execs_x (Job.ops_dests hr)
  have hflags' : T.flags = addFlags (s.x 2) 0x80 := (hT ▸ Cpu.execs_flags Job.ops_setsFlags).trans hflags
  rw [hT]
  refine Returns.b hbeq trivial (fun hc => ?_) (fun _ => ?_)
  · rw [hflags', eq_holds_add] at hc
    rw [hc] at hrest
    exact memcpyReturns_ret (by decide +kernel) (hrest ▸ hpipe.copied)
  · refine Returns.block [.add 0 0 16, .add 1 1 16] (by decide +kernel) (fun _ _ _ => trivial) ?_
    have hx2' : (T.execs [.add 0 0 16, .add 1 1 16]).x 2 = s.x 2 + 0x80 := by
      simp [Op.exec, Cpu.set, hx, hx2]
    refine memcpyReturns_below256 (k := k + 128) hJ ⟨⟨hpipe.copied.of_same ?_ ?_, ?_, ?_⟩, ?_⟩ ?_
    · simp [Op.exec]
    · simp [Op.exec]
    · simp [Op.exec, Cpu.set, Cpu.get, hx, hahead.dst, ← offset_add, BitVec.add_assoc]
    · simp [Op.exec, Cpu.set, Cpu.get, hx, hahead.src, ← offset_add, BitVec.add_assoc]
    · rw [hx2', hrest]
    · rw [hx2']
      omega

/-- The turns of the loop, without the last, which moves the pointers. -/
def loopMoves : List Job.Move := (List.replicate 7 [Job.Move.store, .load]).flatten

/-- The last turn. -/
def lastTurn : List Op := [.stp 17 18 0 (.post 0x80), .ldp 17 18 1 (.pre 0x80)]

/-- The pass of the loop, without its count and its hints. -/
def passOps : List Op := Job.ops 0 0x70 0 8 loopMoves ++ lastTurn

theorem passOps_x2 : ∀ p ∈ passOps, 2 ∉ p.dests := by decide +kernel

theorem passOps_setsFlags : ∀ p ∈ passOps, p.setsFlags = false := by decide +kernel

/-- **One pass**: the chunk that waits is stored, and the next one waits. -/
theorem Ahead.pass (hJ : J.Sound 128) (h : Ahead J k s) (hsize : k + 256 ≤ J.size) :
    Ahead J (k + 128) (s.execs passOps) := by
  have hturns : J.Pipe 0 k 7 15 (s.execs (Job.ops 0 0x70 0 8 loopMoves)) :=
    h.toPipe.execs hJ (by decide) (fun _ => h.dst) h.src (by omega)
  have hx : ∀ r : Nat, r < 3 → (s.execs (Job.ops 0 0x70 0 8 loopMoves)).x r = s.x r :=
    fun r hr => Cpu.execs_x (Job.ops_dests hr)
  obtain ⟨S, hS⟩ : ∃ S, s.execs (Job.ops 0 0x70 0 8 loopMoves) = S := ⟨_, rfl⟩
  rw [hS] at hturns hx
  rw [passOps, Cpu.execs_append, hS]
  have hdst : S.x 0 = J.dst + BitVec.ofNat 64 (k + 112) := by
    rw [hx 0 (by decide), h.dst, ← offset_add]
    rfl
  have hsrc : S.x 1 = J.src + BitVec.ofNat 64 (k + 112) := by
    rw [hx 1 (by decide), h.src, ← offset_add]
    rfl
  -- the store takes the last pair of the chunk, and the load refills its registers
  have hstored : J.Pipe 0 k 8 15 ((Op.stp 17 18 0 (.post 0x80)).exec S) :=
    hturns.store hJ (by decide) (by exact hdst) (by omega)
  obtain ⟨T, hT⟩ : ∃ T, (Op.stp 17 18 0 (.post 0x80)).exec S = T := ⟨_, rfl⟩
  have hdst' : T.x 0 = J.dst + BitVec.ofNat 64 (k + 128) + 0x70 := by
    simp [← hT, Op.exec, Cpu.writeBack, Cpu.set, hdst, ← offset_add, BitVec.add_assoc]
  have hsrc' : T.x 1 = J.src + BitVec.ofNat 64 (k + 112) := by
    rw [← hT, Op.exec_x (by decide), hsrc]
  rw [hT] at hstored
  have hload : T.address 1 (.pre 0x80) = J.src + BitVec.ofNat 64 (k + 16 * 15) := by
    show T.x 1 + 0x80 = _
    rw [hsrc']
    exact offset_add _ _ 128
  have hloaded : J.Pipe 0 k 8 16 ((Op.ldp 17 18 1 (.pre 0x80)).exec T) :=
    hstored.load hJ (by decide) hload (by omega)
  rw [lastTurn, Cpu.execs_cons, hT]
  refine ⟨Job.Pipe.shift (d := 1) hloaded, ?_, ?_⟩
  · rw [Cpu.execs_cons, Cpu.execs_nil, Op.exec_x (by decide), hdst']
  · simp [Op.exec, Cpu.writeBack, Cpu.set, hsrc', ← offset_add, BitVec.add_assoc]

/-- `memcpy_chunk128_loop`: each pass takes a chunk off the size. -/
theorem memcpyReturns_loop (hJ : J.Sound 128) (m : Nat) (hfew : m < 9223372036854775808) :
    ∀ (k : Nat) (s : Cpu), (s.x 2).toNat = m → Ahead J k s → k + 256 + (s.x 2).toNat = J.size →
      MemcpyReturns base J 50 s := by
  induction m using Nat.strongRecOn with
  | ind m ih =>
    intro k s hm h hrest
    have hbge : memcpyText[71]? = some (.b .ge 50) := by decide +kernel
    have hcond : Cond.ge.holds (subFlags (s.x 2) 0x80) = true ↔ 128 ≤ (s.x 2).toNat := ge_holds (by omega) (by decide)
    refine Returns.block [.subs 2 2 0x80, .prfm 0 0x10, .prfm 1 0x90, .prfm 0 0x50, .prfm 1 0xd0] (by decide +kernel)
      (fun _ _ _ => trivial) ?_
    obtain ⟨S, hS⟩ : ∃ S, s.execs [.subs 2 2 0x80, .prfm 0 0x10, .prfm 1 0x90, .prfm 0 0x50, .prfm 1 0xd0] = S :=
      ⟨_, rfl⟩
    have hx2 : S.x 2 = s.x 2 - 0x80 := by simp [← hS, Op.exec, Cpu.get, Cpu.set]
    have hflags : S.flags = subFlags (s.x 2) 0x80 := by simp [← hS, Op.exec, Cpu.get]
    have hahead : Ahead J k S := by
      apply h.of_same <;> simp [← hS, Op.exec]
      exact fun r hr => Cpu.set_x_of_ne hr
    rw [hS]
    refine Returns.block passOps (by decide +kernel) (fun _ _ _ => trivial) ?_
    have hpass := hahead.pass hJ (by omega)
    have hx2' : (S.execs passOps).x 2 = s.x 2 - 0x80 := (Cpu.execs_x passOps_x2).trans hx2
    have hflags' : (S.execs passOps).flags = subFlags (s.x 2) 0x80 := (Cpu.execs_flags passOps_setsFlags).trans hflags
    refine Returns.b hbge trivial (fun hc => ?_) (fun hc => ?_)
    · rw [hflags', hcond] at hc
      have hleft : ((S.execs passOps).x 2).toNat = m - 128 := by
        rw [hx2']
        bv_omega
      exact ih (m - 128) (by omega) (by omega) (k + 128) _ hleft hpass (by omega)
    · rw [hflags', hcond] at hc
      have hback : (S.execs passOps).x 2 + 0x80 = s.x 2 := by
        rw [hx2', BitVec.sub_add_cancel]
      refine memcpyReturns_lastChunk hJ hpass ?_ ?_
      · rw [hback]
        omega
      · rw [hback]
        omega

/-! ## `memcpy_align16` and `memcpy_alignable` -/

/-- `memcpy_align16`: two chunks at least go through the loop. -/
theorem memcpyReturns_align16 (hJ : J.Sound 128) (h : Rests J k s) (hfew : (s.x 2).toNat < 9223372036854775808) :
    MemcpyReturns base J 34 s := by
  have hblt : memcpyText[37]? = some (.b .lt 86) := by decide +kernel
  have hrest := h.rest
  have hcond : Cond.lt.holds (subFlags (s.x 2) 0x100) = true ↔ (s.x 2).toNat < 256 := lt_holds (by omega) (by decide)
  refine Returns.block [.prfm 1 0x40, .prfm 0 0x40, .subs 31 2 0x100] (by decide +kernel) (fun _ _ _ => trivial) ?_
  refine Returns.b hblt trivial (fun hc => ?_) (fun hc => ?_)
  · exact memcpyReturns_below256 hJ (h.of_same (fun _ _ => rfl) rfl rfl) (hcond.1 hc)
  · have hge : 256 ≤ (s.x 2).toNat := Nat.not_lt.1 fun hl => hc (hcond.2 hl)
    refine Returns.block [.prfm 1 0x80, .prfm 1 0xc0, .add 0 0 0x70, .sub 2 2 0x100] (by decide +kernel)
      (fun _ _ _ => trivial) ?_
    obtain ⟨S, hS⟩ : ∃ S, (s.execs [.prfm 1 0x40, .prfm 0 0x40, .subs 31 2 0x100]).execs
        [.prfm 1 0x80, .prfm 1 0xc0, .add 0 0 0x70, .sub 2 2 0x100] = S := ⟨_, rfl⟩
    have hdst : S.x 0 = J.dst + BitVec.ofNat 64 k + 0x70 := by simp [← hS, Op.exec, Cpu.get, Cpu.set, h.dst]
    have hsrc : S.x 1 = J.src + BitVec.ofNat 64 k := by simp [← hS, Op.exec, Cpu.set, h.src]
    have hx2 : S.x 2 = s.x 2 - 0x100 := by simp [← hS, Op.exec, Cpu.get, Cpu.set]
    have hcopied : J.Copied k S := by apply h.toCopied.of_same <;> simp [← hS, Op.exec]
    rw [hS]
    -- the last load moves the pointer
    refine Returns.block (Job.ops 0 0 0 0 (List.replicate 7 .load)) (by decide +kernel) (fun _ _ _ => trivial) ?_
    have hloads : J.Pipe 0 k 0 7 (S.execs (Job.ops 0 0 0 0 (List.replicate 7 .load))) :=
      (hcopied.pipe 0).execs hJ (by decide) (fun hmem => absurd hmem (by decide))
        (hsrc.trans (BitVec.add_zero _).symm) (by omega)
    have hx : ∀ r : Nat, r < 3 → (S.execs (Job.ops 0 0 0 0 (List.replicate 7 .load))).x r = S.x r :=
      fun r hr => Cpu.execs_x (Job.ops_dests hr)
    obtain ⟨T, hT⟩ : ∃ T, S.execs (Job.ops 0 0 0 0 (List.replicate 7 .load)) = T := ⟨_, rfl⟩
    rw [hT] at hloads hx ⊢
    refine Returns.block [.ldp 17 18 1 (.pre 0x70)] (by decide +kernel) (fun _ _ _ => trivial) ?_
    have hload : T.address 1 (.pre 0x70) = J.src + BitVec.ofNat 64 (k + 16 * 7) := by
      show T.x 1 + 0x70 = _
      rw [hx 1 (by decide), hsrc]
      exact offset_add _ _ 112
    have hpipe : J.Pipe 0 k 0 8 ((Op.ldp 17 18 1 (.pre 0x70)).exec T) := hloads.load hJ (by decide) hload (by omega)
    have hx2' : (T.execs [.ldp 17 18 1 (.pre 0x70)]).x 2 = s.x 2 - 0x100 := by
      rw [Cpu.execs_x (by decide), hx 2 (by decide), hx2]
    refine memcpyReturns_loop hJ _ (by rw [hx2']; bv_omega) k _ rfl ⟨hpipe, ?_, ?_⟩ ?_
    · rw [Cpu.execs_x (by decide), hx 0 (by decide), hdst]
    · simp [Op.exec, Cpu.writeBack, Cpu.set, hx, hsrc]
    · rw [hx2']
      bv_omega

theorem memcpyText_align : ∀ b < 4, memcpyText[16 + 4 * b]? = some (.tbz 0 b (16 + 4 * b + 4)) ∧
    [Instr.op (.ldr (2 ^ b) 3 1 (.post (BitVec.ofNat 64 (2 ^ b)))), .op (.sub 2 2 (BitVec.ofNat 64 (2 ^ b))),
      .op (.str (2 ^ b) 3 0 (.post (BitVec.ofNat 64 (2 ^ b))))] <+: memcpyText.drop (16 + 4 * b + 1) := by
  decide +kernel

/-- `memcpy_alignable`: a bit of the pointer. -/
theorem memcpyReturns_align (hJ : J.Sound 128) {b : Nat} (hb : b < 4) (hsize : 2 ^ (b + 1) ≤ J.size + 1)
    (hnext : ∀ k s, Aligned J.Stands J.size 2 (b + 1) k s → MemcpyReturns base J (16 + 4 * b + 4) s)
    (h : Aligned J.Stands J.size 2 b k s) : MemcpyReturns base J (16 + 4 * b) s := by
  obtain ⟨hcode, hops⟩ := memcpyText_align b hb
  have hw : 2 ^ b ≤ 8 := Nat.pow_le_pow_right (by decide) (show b ≤ 3 by omega)
  refine h.bit Returns.backward [.ldr (2 ^ b) 3 1 _, .sub 2 2 _, .str (2 ^ b) 3 0 _] (by omega) hcode hops trivial
    (fun _ _ _ => trivial) hsize (fun hs hk => hs.copy_sub hJ (by omega) hw hk) ?_ ?_ hnext
  · simp [Op.exec, Cpu.writeBack, Cpu.set, Cpu.get]
  · simp [Op.exec, Cpu.writeBack, Cpu.set, Cpu.get]

/-- How far an address is before the next multiple of sixteen. -/
def alignGap (a : Addr) : Nat := (18446744073709551616 - a.toNat) % 16

/-- `memcpy_alignable`: the low four bits of the pointer, from the lowest up. -/
theorem memcpyReturns_alignable (hJ : J.Sound 128) (hsize : 31 ≤ J.size)
    (hfew : J.size < 9223372036854775808 + alignGap J.dst) (h : Rests J 0 s) : MemcpyReturns base J 16 s := by
  have haligned : Aligned J.Stands J.size 2 0 0 s :=
    ⟨h.toStands, h.rest, by decide, by rw [Nat.pow_zero, Nat.mod_one]⟩
  apply memcpyReturns_align hJ (b := 0) (by decide) (by omega) _ haligned
  intro k s h
  apply memcpyReturns_align hJ (b := 1) (by decide) (by omega) _ h
  intro k s h
  apply memcpyReturns_align hJ (b := 2) (by decide) (by omega) _ h
  intro k s h
  apply memcpyReturns_align hJ (b := 3) (by decide) (by omega) _ h
  intro k s h
  refine Returns.block [.prfm 1 0, .prfm 0 0] (by decide +kernel) (fun _ _ _ => trivial) ?_
  refine memcpyReturns_align16 hJ ⟨h.done, h.rest⟩ ?_
  have hpointer := h.done.dst
  have hrest := h.rest
  have hgap := h.aligned
  have hk := h.few
  rw [hpointer] at hgap
  simp only [Cpu.execs_cons, Cpu.execs_nil, Op.exec]
  unfold alignGap at hfew
  bv_omega

/-! ## `memcpy` -/

/-- `memcpy` has one entry for each kind of call. -/
theorem memcpyCallee_cases (s1 n : BitVec 64) :
    n = 0 ∧ memcpyCallee s1 n = none ∨ n.toNat < 32 ∧ memcpyCallee s1 n = some .memcpyBelow32 ∨
      32 ≤ n.toNat ∧ alignGap s1 = 0 ∧ memcpyCallee s1 n = some .memcpyAlign16 ∨
      32 ≤ n.toNat ∧ memcpyCallee s1 n = some .memcpyAlignable := by
  unfold memcpyCallee
  by_cases hzero : n = 0
  · exact .inl ⟨hzero, if_pos hzero⟩
  · rw [if_neg hzero]
    by_cases hsmall : n.ult 32
    · exact .inr (.inl ⟨by simpa [BitVec.ult] using hsmall, if_pos hsmall⟩)
    · have hlarge : 32 ≤ n.toNat := by simpa [BitVec.ult] using hsmall
      rw [if_neg hsmall]
      by_cases haligned : s1 &&& 15 = 0
      · have hgap : alignGap s1 = 0 := by
          have hmod := toNat_and_mask s1 4 (by decide)
          rw [show BitVec.ofNat 64 (2 ^ 4 - 1) = 15 from rfl, haligned] at hmod
          unfold alignGap
          simp only [BitVec.ofNat_eq_ofNat, BitVec.toNat_ofNat, Nat.zero_mod, Nat.reducePow] at hmod
          omega
        exact .inr (.inr (.inl ⟨hlarge, hgap, if_pos haligned⟩))
      · exact .inr (.inr (.inr ⟨hlarge, if_neg haligned⟩))

/-- The assembly that is called copies. -/
theorem memcpyReturns_callee (hJ : J.Sound 128) (h : Rests J 0 s) {n : BitVec 64} (hn : n.toNat = J.size)
    (hfew : J.size < 9223372036854775808 + alignGap J.dst) {entry : MemcpyLabel}
    (hentry : memcpyCallee J.dst n = some entry) : MemcpyReturns base J (labelPos entry memcpyLines) s := by
  have hrest := h.rest
  rcases memcpyCallee_cases J.dst n with ⟨-, hc⟩ | ⟨hsmall, hc⟩ | ⟨-, hgap, hc⟩ | ⟨hlarge, hc⟩
  · cases hc.symm.trans hentry
  · obtain rfl := Option.some.inj (hc.symm.trans hentry)
    have hleft : Left J.Stands J.size 2 5 0 s := by
      refine ⟨h.toStands, ?_⟩
      show 0 + (s.x 2).toNat % 32 = J.size
      omega
    exact memcpyReturns_below32 hJ hleft
  · obtain rfl := Option.some.inj (hc.symm.trans hentry)
    exact memcpyReturns_align16 hJ h (by omega)
  · obtain rfl := Option.some.inj (hc.symm.trans hentry)
    exact memcpyReturns_alignable hJ (by omega) hfew h

/-! ## Sizes that are negative as signed numbers

Every comparison takes such a size for a small one, and the jump is as far before the table as there are pairs. -/

theorem memcpyStuck_below128 (hfar : 9223372036854775808 ≤ (s.x 2).toNat) : Stuck base memcpyText 107 s := by
  have hadr : memcpyText[107]? = some (.adr 3 121) := by decide +kernel
  have hbr : memcpyText[113]? = some (.br 3) := by decide +kernel
  have hlength : memcpyText.length = 133 := by decide +kernel
  refine Stuck.backward hadr trivial rfl (Stuck.backward.block [.lsr 4 2 4, .addReg 0 0 4 (.lsl 4),
    .subReg 3 3 4 (.lsl 2), .addReg 1 1 4 (.lsl 4), .subReg 2 2 4 (.lsl 4)] (by decide +kernel) (fun _ _ _ => trivial) ?_)
  obtain ⟨S, hS⟩ : ∃ S, (s.set 3 (base + BitVec.ofNat 64 (4 * 121))).execs [.lsr 4 2 4, .addReg 0 0 4 (.lsl 4),
    .subReg 3 3 4 (.lsl 2), .addReg 1 1 4 (.lsl 4), .subReg 2 2 4 (.lsl 4)] = S := ⟨_, rfl⟩
  have hx3 : S.x 3 - base = BitVec.ofNat 64 484 - s.x 2 >>> 4 <<< 2 := by
    simp [← hS, Op.exec, Cpu.set, Cpu.get, Shift.apply]
    bv_omega
  have hpairs : (s.x 2 >>> 4 <<< 2).toNat = 4 * ((s.x 2).toNat / 16) := by
    have hfits := (s.x 2).isLt
    rw [BitVec.toNat_shiftLeft, BitVec.toNat_ushiftRight, Nat.shiftRight_eq_div_pow, Nat.shiftLeft_eq]
    omega
  rw [hS]
  refine Stuck.br hbr ?_
  rw [hx3, hlength, BitVec.toNat_sub, hpairs, BitVec.toNat_ofNat]
  omega

/-- `memcpy_align16` with such a size. -/
theorem memcpyStuck_align16 (hfar : 9223372036854775808 ≤ (s.x 2).toNat) : Stuck base memcpyText 34 s := by
  have hblt : memcpyText[37]? = some (.b .lt 86) := by decide +kernel
  have hblt' : memcpyText[87]? = some (.b .lt 107) := by decide +kernel
  refine Stuck.backward.block [.prfm 1 0x40, .prfm 0 0x40, .subs 31 2 0x100] (by decide +kernel) (fun _ _ _ => trivial) ?_
  refine Stuck.b hblt (lt_holds_of_negative hfar (by decide)) ?_
  refine Stuck.backward.block [.subs 31 2 0x80] (by decide +kernel) (fun _ _ _ => trivial) ?_
  exact Stuck.b hblt' (lt_holds_of_negative hfar (by decide)) (memcpyStuck_below128 hfar)

/-- `memcpy_alignable`, where the size is such a one also when the pointer is aligned. -/
theorem memcpyStuck_alignable {a : Addr} {n : Nat} (hfar : 9223372036854775808 + alignGap a ≤ n)
    (h : Aligned (fun k s => s.x 0 = a + BitVec.ofNat 64 k) n 2 0 0 s) : Stuck base memcpyText 16 s := by
  have hbit : ∀ b < 4, ∀ k s, (∀ k s, Aligned (fun k s => s.x 0 = a + BitVec.ofNat 64 k) n 2 (b + 1) k s →
      Stuck base memcpyText (16 + 4 * b + 4) s) → Aligned (fun k s => s.x 0 = a + BitVec.ofNat 64 k) n 2 b k s →
        Stuck base memcpyText (16 + 4 * b) s := by
    intro b hb k s hnext h
    obtain ⟨hcode, hops⟩ := memcpyText_align b hb
    have hw : 2 ^ b ≤ 8 := Nat.pow_le_pow_right (by decide) (show b ≤ 3 by omega)
    have hpointer : (s.execs [.ldr (2 ^ b) 3 1 (.post (BitVec.ofNat 64 (2 ^ b))), .sub 2 2 (BitVec.ofNat 64 (2 ^ b)),
        .str (2 ^ b) 3 0 (.post (BitVec.ofNat 64 (2 ^ b)))]).x 0 = s.x 0 + BitVec.ofNat 64 (2 ^ b) := by
      simp [Op.exec, Cpu.writeBack, Cpu.set]
    refine h.bit Stuck.backward [.ldr (2 ^ b) 3 1 _, .sub 2 2 _, .str (2 ^ b) 3 0 _] (by omega) hcode hops trivial
      (fun _ _ _ => trivial) (by omega) (fun hs _ => ?_) hpointer ?_ hnext
    · rw [hpointer, hs, offset_add]
    · simp [Op.exec, Cpu.writeBack, Cpu.set, Cpu.get]
  apply hbit 0 (by decide) _ _ _ h
  intro k s h
  apply hbit 1 (by decide) _ _ _ h
  intro k s h
  apply hbit 2 (by decide) _ _ _ h
  intro k s h
  apply hbit 3 (by decide) _ _ _ h
  intro k s h
  refine Stuck.backward.block [.prfm 1 0, .prfm 0 0] (by decide +kernel) (fun _ _ _ => trivial) ?_
  apply memcpyStuck_align16
  have hpointer := h.done
  have hrest := h.rest
  have hgap := h.aligned
  have hk := h.few
  rw [hpointer] at hgap
  simp only [Cpu.execs_cons, Cpu.execs_nil, Op.exec]
  unfold alignGap at hfar
  bv_omega

end Runs

/-- The job of copying `n` bytes from `s2` to `s1`. -/
def copyJob (s : Cpu) (s1 s2 n : BitVec 64) : Job := ⟨s1, s2, n.toNat, s.mem, s.reads⟩

/-- At the start of a call nothing is copied. -/
theorem rests_start (s : Cpu) (s1 s2 n : BitVec 64) :
    Rests (copyJob s s1 s2 n) 0 (((s.set 0 s1).set 1 s2).set 2 n) := by
  refine ⟨⟨⟨?_, ?_, Nat.zero_le _⟩, ?_, ?_⟩, ?_⟩ <;> simp [Cpu.set, copyJob, Mem.forward]
  exact fun a b hr => .inl hr

theorem memcpy_assert (n : BitVec 64) : cassert (n.ule compilerSizeofObject) = .ok () := by
  have hule : n.ule compilerSizeofObject = true := by
    rw [BitVec.ule_eq_decide, decide_eq_true_eq]
    exact Nat.le_of_lt_succ n.isLt
  rw [hule, cassert_true]

/-- `memcpy` copies forwards, also between regions that overlap, as long as no byte is written over before its turn. -/
theorem memcpy_forward {base : Addr} {s : Cpu} {s1 s2 n : BitVec 64} (hJ : (copyJob s s1 s2 n).Sound 128)
    (hfew : n.toNat < 9223372036854775808 + alignGap s1) :
    ∃ fuel s', memcpy base fuel s s1 s2 n = .ok (s1, s') ∧ (copyJob s s1 s2 n).Copied n.toNat s' := by
  simp only [memcpy, memcpy_assert, ok_bind]
  cases hentry : memcpyCallee s1 n with
  | none =>
    have hzero : n = 0 := by
      rcases memcpyCallee_cases s1 n with ⟨h, -⟩ | ⟨-, h⟩ | ⟨-, -, h⟩ | ⟨-, h⟩
      · exact h
      all_goals cases h.symm.trans hentry
    subst hzero
    exact ⟨0, s, rfl, rfl, fun _ hr => .inl hr, le_rfl⟩
  | some entry =>
    obtain ⟨S, hS⟩ : ∃ S, ((s.set 0 s1).set 1 s2).set 2 n = S := ⟨_, rfl⟩
    have hstart : Rests (copyJob s s1 s2 n) 0 S := hS ▸ rests_start s s1 s2 n
    have hreturns : MemcpyReturns base _ (labelPos entry memcpyLines) S :=
      memcpyReturns_callee hJ hstart rfl hfew hentry
    obtain ⟨fuel, s', hrun, hcopied, -⟩ := hreturns
    refine ⟨fuel, s', ?_, hcopied⟩
    dsimp only
    rw [hS]
    unfold callText
    rw [show assemble memcpyLines = memcpyText from rfl, hrun]
    rfl

/-- `memcpy` of a size that is negative also when the destination is aligned does not return. -/
theorem memcpy_stuck {base : Addr} {s : Cpu} {s1 s2 n : BitVec 64}
    (hfar : 9223372036854775808 + alignGap s1 ≤ n.toNat) (fuel : Nat) :
    memcpy base fuel s s1 s2 n = .error .diverged := by
  obtain ⟨S, hS⟩ : ∃ S, ((s.set 0 s1).set 1 s2).set 2 n = S := ⟨_, rfl⟩
  have hx0 : S.x 0 = s1 := by simp [← hS, Cpu.set]
  have hx2 : S.x 2 = n := by simp [← hS, Cpu.set]
  have hstuck : ∀ entry, memcpyCallee s1 n = some entry → Stuck base memcpyText (labelPos entry memcpyLines) S := by
    intro entry hentry
    rcases memcpyCallee_cases s1 n with ⟨hzero, -⟩ | ⟨hsmall, -⟩ | ⟨-, hgap, hc⟩ | ⟨-, hc⟩
    · rw [hzero] at hfar
      exact absurd hfar (by simp)
    · omega
    · obtain rfl := Option.some.inj (hc.symm.trans hentry)
      exact memcpyStuck_align16 (by rw [hx2]; omega)
    · obtain rfl := Option.some.inj (hc.symm.trans hentry)
      refine memcpyStuck_alignable hfar ⟨?_, ?_, by decide, by rw [Nat.pow_zero, Nat.mod_one]⟩
      · rw [hx0, BitVec.add_zero]
      · rw [hx2, Nat.zero_add]
  simp only [memcpy, memcpy_assert, ok_bind]
  rcases memcpyCallee_cases s1 n with ⟨hzero, -⟩ | ⟨hsmall, -⟩ | ⟨-, -, hc⟩ | ⟨-, hc⟩
  · rw [hzero] at hfar
    exact absurd hfar (by simp)
  · omega
  all_goals
    have hrun := hstuck _ hc fuel
    simp only [hc, hS, callText, show assemble memcpyLines = memcpyText from rfl, hrun, error_bind]

/-- What a call of `memcpy` promises: the destination has the source's old bytes, everything else is as it was, and
nothing but the source is read. -/
structure CopiesRegion (s s' : Cpu) (s1 s2 n : BitVec 64) : Prop where
  copied : ∀ i < n.toNat, s'.mem (s1 + BitVec.ofNat 64 i) = s.mem (s2 + BitVec.ofNat 64 i)
  kept : ∀ x, ¬ Within s1 n.toNat x → s'.mem x = s.mem x
  read : ∀ r ∈ s'.reads, r ∈ s.reads ∨ ∀ x, Within r.1 r.2 x → Within s2 n.toNat x

/-- A job that is done keeps the promise, if the source repeats after the distance of the destination. -/
theorem copyJob_copiesRegion {s s' : Cpu} {s1 s2 n : BitVec 64} (h : (copyJob s s1 s2 n).Copied n.toNat s')
    (hrepeats : s.mem.Repeats s2 (s1 - s2).toNat n.toNat) : CopiesRegion s s' s1 s2 n where
  copied := fun i hi => by
    rw [h.mem]
    exact (Mem.forward_copies_iff n.isLt.le).2 hrepeats i hi
  kept := fun x hx => by
    rw [h.mem]
    exact Mem.forward_outside n.isLt.le hx
  read := fun r hr => (h.reads r hr).imp id fun hin => hin.within n.isLt.le

/-- **`memcpy` copies.** Between disjoint regions of any size below `2 ^ 63`, with any alignment, the call ends and
copies byte for byte. -/
theorem memcpy_copies (base : Addr) (s : Cpu) (s1 s2 n : BitVec 64)
    (hapart : RegionsApart s2 n.toNat s1 n.toNat) (hn : n.toNat < 9223372036854775808) :
    ∃ fuel s', memcpy base fuel s s1 s2 n = .ok (s1, s') ∧ CopiesRegion s s' s1 s2 n := by
  have hfar : n.toNat ≤ (s1 - s2).toNat := by
    rcases Nat.eq_zero_or_pos n.toNat with hzero | hpos
    · omega
    · have hfirst : Within s1 n.toNat s1 := by simpa [Within] using hpos
      exact Nat.not_lt.1 (hapart.symm s1 hfirst)
  obtain ⟨fuel, s', hrun, hcopied⟩ := @memcpy_forward base s s1 s2 n
    ⟨n.isLt, Mem.settles_of_distance n.isLt.le (.inr (.inr hfar))⟩ (by omega)
  refine ⟨fuel, s', hrun, copyJob_copiesRegion hcopied fun i hi => ?_⟩
  omega

/-- Forty different bytes, with the destination three bytes behind a multiple of sixteen. -/
theorem memcpy_copies_forty : ∃ fuel s', memcpy 4096 fuel countingCpu 67 1024 40 = .ok (67, s') ∧
    CopiesRegion countingCpu s' 67 1024 40 ∧ s'.mem 66 = 66 ∧ s'.mem 67 = 0 ∧ s'.mem 106 = 39 ∧ s'.mem 107 = 107 := by
  obtain ⟨fuel, s', hrun, hcopies⟩ : ∃ fuel s', memcpy 4096 fuel countingCpu 67 1024 40 = .ok (67, s') ∧
      CopiesRegion countingCpu s' 67 1024 40 := by
    apply memcpy_copies
    · intro x
      unfold Within
      simp only [BitVec.reduceToNat]
      bv_omega
    · decide
  refine ⟨fuel, s', hrun, hcopies, ?_, hcopies.copied 0 (by decide), hcopies.copied 39 (by decide), ?_⟩
  · exact hcopies.kept 66 (by decide)
  · exact hcopies.kept 107 (by decide)

end GunyahRuntime
