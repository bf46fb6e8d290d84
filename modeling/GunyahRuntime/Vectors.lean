/-
# GunyahRuntime.Vectors -- entering and leaving an exception (`el1.inc`, `vectors.S`)

An exception saves the context that it interrupts in a frame on the stack, runs a handler and restores the context.
The macros are listings here, instruction by instruction. The frame of a system call leaves `x0` out, which carries
the result; that of an interrupt has it behind the rest. `ELR_EL1` goes through `x30`, signed, and `SPSR_EL1` through
`x17` on the way in and `x15` on the way out, so the stores of these registers come before that and the loads after.

A handler is known by what it keeps (`Aapcs64`). That the system registers are not among it is why they are saved: an
exception that is taken while the handler runs writes to them.
-/
import GunyahRuntime.Lib.Arm.Frame

namespace GunyahRuntime

open Lib Lib.Arm

def TRAP_FRAME_SYSCALL_SIZE : Nat := 11 * 16
def TRAP_FRAME_IRQ_SIZE : Nat := 12 * 16

/-- `save_runtime_context_x1_x18`. -/
def saveRuntimeContextX1X18 : List SysOp :=
  [.stp 17 18 (1 * 16),
   .stp 1 2 (2 * 16),
   .stp 3 4 (3 * 16),
   -- `x17` is in the frame, and carries `SPSR_EL1` to the place next to `x30`
   .mrs 17 .spsr,
   .stp 5 6 (4 * 16),
   .stp 30 17 (5 * 16),
   .stp 7 8 (6 * 16),
   -- now `x30` is, too, and carries `ELR_EL1`, to be signed
   .mrs 30 .elr,
   .stp 9 10 (7 * 16),
   .paciasp,
   .stp 11 12 (8 * 16),
   .stp 13 14 (9 * 16),
   .stp 15 16 (10 * 16),
   .stp 29 30 0,
   .movSp 29]

/-- `restore_runtime_context_x1_x18`. -/
def restoreRuntimeContextX1X18 : List SysOp :=
  [.ldp 29 30 0,
   .ldp 17 18 (1 * 16),
   .ldp 1 2 (2 * 16),
   -- `x30` has the signed `ELR_EL1` from the frame, not yet its own value
   .autiasp,
   .ldp 3 4 (3 * 16),
   .msr .elr 30,
   .ldp 5 6 (4 * 16),
   .ldp 30 15 (5 * 16),
   .ldp 7 8 (6 * 16),
   .ldp 9 10 (7 * 16),
   .ldp 11 12 (8 * 16),
   .msr .spsr 15,
   .ldp 13 14 (9 * 16),
   .ldp 15 16 (10 * 16)]

/-- `save_runtime_context_syscall`. -/
def saveRuntimeContextSyscall : List SysOp := .subSp TRAP_FRAME_SYSCALL_SIZE :: saveRuntimeContextX1X18

/-- `restore_runtime_context_syscall`. -/
def restoreRuntimeContextSyscall : List SysOp := restoreRuntimeContextX1X18 ++ [.addSp TRAP_FRAME_SYSCALL_SIZE]

/-- `save_runtime_context_irq`. -/
def saveRuntimeContextIrq : List SysOp :=
  .subSp TRAP_FRAME_IRQ_SIZE :: (saveRuntimeContextX1X18 ++ [.stp 0 31 (11 * 16)])

/-- `restore_runtime_context_irq`. -/
def restoreRuntimeContextIrq : List SysOp :=
  restoreRuntimeContextX1X18 ++ [.ldr 0 (11 * 16), .addSp TRAP_FRAME_IRQ_SIZE]

/-! ## The two kinds of frame -/

/-- What an exception is taken for. -/
inductive Entry where
  | syscall
  | irq
  deriving DecidableEq

namespace Entry

def frameSize : Entry → Nat
  | syscall => TRAP_FRAME_SYSCALL_SIZE
  | irq => TRAP_FRAME_IRQ_SIZE

def save : Entry → List SysOp
  | syscall => saveRuntimeContextSyscall
  | irq => saveRuntimeContextIrq

def restore : Entry → List SysOp
  | syscall => restoreRuntimeContextSyscall
  | irq => restoreRuntimeContextIrq

/-- The stores of a frame, with the stack pointer down. -/
def stores : Entry → List SysOp
  | syscall => saveRuntimeContextX1X18
  | irq => saveRuntimeContextX1X18 ++ [.stp 0 31 (11 * 16)]

/-- The loads, with the stack pointer still down. -/
def loads : Entry → List SysOp
  | syscall => restoreRuntimeContextX1X18
  | irq => restoreRuntimeContextX1X18 ++ [.ldr 0 (11 * 16)]

theorem save_eq (e : Entry) : e.save = .subSp e.frameSize :: e.stores := by
  cases e <;> rfl

theorem restore_eq (e : Entry) : e.restore = e.loads ++ [.addSp e.frameSize] := by
  cases e <;> rfl

theorem frameSize_le (e : Entry) : e.frameSize ≤ 18446744073709551616 := by
  cases e <;> decide

theorem frameSize_ge (e : Entry) {n : Nat} (h : n ≤ TRAP_FRAME_SYSCALL_SIZE) : n ≤ e.frameSize := by
  cases e with
  | syscall => exact h
  | irq => exact h.trans (by decide)

theorem stores_inFrame (e : Entry) : InFrame e.frameSize e.stores := by
  cases e with
  | syscall => exact ⟨by decide, by decide, by decide⟩
  | irq => exact ⟨by decide, by decide, by decide⟩

theorem loads_inFrame (e : Entry) : InFrame e.frameSize e.loads := by
  cases e with
  | syscall => exact ⟨by decide, by decide, by decide⟩
  | irq => exact ⟨by decide, by decide, by decide⟩

theorem loads_stores (e : Entry) : ∀ op ∈ e.loads, op.stores = [] := by
  cases e with
  | syscall => decide
  | irq => decide

/-- The registers in the frame. -/
def saved : Entry → List Reg
  | syscall => [1, 2, 3, 4, 5, 6, 7, 8, 9, 10, 11, 12, 13, 14, 15, 16, 17, 18, 29, 30]
  | irq => 0 :: [1, 2, 3, 4, 5, 6, 7, 8, 9, 10, 11, 12, 13, 14, 15, 16, 17, 18, 29, 30]

/-- **The two orders agree**: every register of the frame is loaded from where it was stored. -/
theorem saved_loaded (e : Entry) :
    ∀ r ∈ e.saved, (savedAt r e.stores).isSome = true ∧ loadedFrom r e.loads = savedAt r e.stores := by
  cases e with
  | syscall => decide +kernel
  | irq => decide +kernel

/-- Between the two, the stack pointer is down by the size of the frame. -/
def enter (e : Entry) (s : SysCpu) : SysCpu := { s with sp := s.sp - BitVec.ofNat 64 e.frameSize }

theorem execs_save (e : Entry) (pac : Pac) (s : SysCpu) : execs pac e.save s = execs pac e.stores (e.enter s) := by
  rw [e.save_eq]
  rfl

theorem execs_restore (e : Entry) (pac : Pac) (t : SysCpu) : execs pac e.restore t =
    { execs pac e.loads t with sp := (execs pac e.loads t).sp + BitVec.ofNat 64 e.frameSize } := by
  rw [e.restore_eq, execs_append]
  rfl

end Entry

/-! ## Handlers -/

/-- What a handler does by AAPCS64: it keeps `x19` to `x29` and the stack pointer, and writes nothing to the frame that
its stack pointer is at. The key is that of the process. -/
structure Aapcs64 (size : Nat) (s t : SysCpu) : Prop extends KeepsFrame size s t where
  x : ∀ r, 19 ≤ r → r ≤ 29 → t.x r = s.x r
  key : t.key = s.key

/-- What is left of an exception: the interrupted context, and `x0` as the handler left it if that is the result. -/
structure ContextPreserved (e : Entry) (s t s' : SysCpu) : Prop where
  x : ∀ r ≤ 30, s'.x r = if e = .syscall ∧ r = 0 then t.x 0 else s.x r
  sp : s'.sp = s.sp
  elr : s'.elr = s.elr
  spsr : s'.spsr = s.spsr

section

variable {pac : Pac} {e : Entry} {s t : SysCpu}

/-- In the frame, `SPSR_EL1` is next to `x30`. It is in `x17` after four instructions. -/
theorem read_spsr (e : Entry) (s : SysCpu) : (execs pac e.stores s).mem.read (s.place 88) 8 = s.spsr := by
  have hsaved : savedAt 17 (e.stores.drop 4) = some 88 := by cases e <;> decide
  have hread : (execs pac e.stores s).mem.read (s.place 88) 8 = (execs pac (e.stores.take 4) s).x 17 :=
    read_of_savedAt_drop e.stores_inFrame e.frameSize_le (by decide) 4 hsaved
  rw [hread]
  cases e <;> rfl

/-- And `ELR_EL1`, signed, is next to `x29`. It is in `x30` after ten. -/
theorem read_elr (e : Entry) (s : SysCpu) :
    (execs pac e.stores s).mem.read (s.place 8) 8 = pac.sign s.key s.sp s.elr := by
  have hsaved : savedAt 30 (e.stores.drop 10) = some 8 := by cases e <;> decide
  have hread : (execs pac e.stores s).mem.read (s.place 8) 8 = (execs pac (e.stores.take 10) s).x 30 :=
    read_of_savedAt_drop e.stores_inFrame e.frameSize_le (by decide) 10 hsaved
  rw [hread]
  cases e <;> rfl

theorem loads_spsr (e : Entry) (t : SysCpu) : (execs pac e.loads t).spsr = t.mem.read (t.place 88) 8 := by
  cases e <;> rfl

theorem loads_elr (e : Entry) (t : SysCpu) :
    (execs pac e.loads t).elr = pac.auth t.key t.sp (t.mem.read (t.place 8) 8) := by
  cases e <;> rfl

theorem stores_key (e : Entry) (s : SysCpu) : (execs pac e.stores s).key = s.key := by
  cases e <;> rfl

/-- The registers that are not in the frame are left to the handler. -/
theorem not_saved (e : Entry) : ∀ r ≤ 30, r ∉ e.saved →
    (∀ op ∈ e.loads, r ∉ op.dests) ∧ (r = 0 ∧ e = .syscall ∨ (19 ≤ r ∧ r ≤ 28) ∧ ∀ op ∈ e.stores, r ∉ op.dests) := by
  cases e with
  | syscall => decide +kernel
  | irq => decide +kernel

theorem Aapcs64.sp_eq (hbody : Aapcs64 e.frameSize (execs pac e.stores (e.enter s)) t) :
    t.sp = s.sp - BitVec.ofNat 64 e.frameSize := by
  rw [hbody.sp, execs_sp e.stores_inFrame.sp]
  rfl

/-- The general registers. -/
theorem Aapcs64.x_eq (hbody : Aapcs64 e.frameSize (execs pac e.stores (e.enter s)) t) {r : Reg} (hr : r ≤ 30) :
    (execs pac e.loads t).x r = if e = .syscall ∧ r = 0 then t.x 0 else s.x r := by
  by_cases hmem : r ∈ e.saved
  · obtain ⟨hsome, hloaded⟩ := e.saved_loaded r hmem
    obtain ⟨i, hsaved⟩ := Option.isSome_iff_exists.1 hsome
    rw [hsaved] at hloaded
    have hresult : ¬ (e = .syscall ∧ r = 0) := by
      rintro ⟨rfl, rfl⟩
      exact absurd hmem (by decide)
    rw [if_neg hresult]
    exact @x_of_saved_loaded pac (e.enter s) _ _ _ _ _ _ e.stores_inFrame e.frameSize_le e.loads_inFrame.sp
      e.loads_stores (Nat.ne_of_lt (Nat.lt_succ_of_le hr)) hsaved hloaded hbody.toKeepsFrame
  · obtain ⟨hloads, hother⟩ := not_saved e r hr hmem
    rw [execs_x hloads]
    -- the result of a system call, or a register that the handler keeps
    rcases hother with ⟨rfl, rfl⟩ | ⟨⟨hlow, hhigh⟩, hstores⟩
    · exact (if_pos ⟨rfl, rfl⟩).symm
    · have hresult : ¬ (e = .syscall ∧ r = 0) := fun h => absurd (h.2 ▸ hlow) (by decide)
      rw [if_neg hresult, hbody.x r hlow (hhigh.trans (by decide)), execs_x hstores]
      rfl

/-- What is found in the frame on the way out. -/
theorem Aapcs64.read (hbody : Aapcs64 e.frameSize (execs pac e.stores (e.enter s)) t) {i : Nat}
    (hi : i + 8 ≤ TRAP_FRAME_SYSCALL_SIZE) :
    t.mem.read (t.place i) 8 = (execs pac e.stores (e.enter s)).mem.read ((e.enter s).place i) 8 :=
  hbody.toKeepsFrame.read e.stores_inFrame (e.frameSize_ge hi) e.frameSize_le

/-- The context is what it was. -/
theorem Aapcs64.preserves (hbody : Aapcs64 e.frameSize (execs pac e.save s) t)
    (hpac : pac.Undoes s.key (s.sp - BitVec.ofNat 64 e.frameSize) s.elr) :
    ContextPreserved e s t (execs pac e.restore t) := by
  rw [e.execs_save] at hbody
  rw [e.execs_restore]
  refine ⟨fun r hr => hbody.x_eq hr, ?_, ?_, ?_⟩
  · show (execs pac e.loads t).sp + _ = _
    rw [execs_sp e.loads_inFrame.sp, hbody.sp_eq, BitVec.sub_add_cancel]
  · show (execs pac e.loads t).elr = _
    rw [loads_elr, hbody.read (by decide), read_elr, hbody.key, stores_key, hbody.sp_eq]
    exact hpac
  · show (execs pac e.loads t).spsr = _
    rw [loads_spsr, hbody.read (by decide), read_spsr]
    rfl

/-- **The context of an exception.** Whatever a system call or an interrupt comes upon, and whatever its handler does
that keeps to AAPCS64, writes to the system registers included: if authentication undoes signing, the context is as it
was in the end, but for the result of a system call in `x0`. All that is accessed on the way in and out is in the
frame, and nothing else is written to. -/
theorem context_preserved (hbody : Aapcs64 e.frameSize (execs pac e.save s) t)
    (hpac : pac.Undoes s.key (s.sp - BitVec.ofNat 64 e.frameSize) s.elr) :
    ContextPreserved e s t (execs pac e.restore t) ∧
      (∀ p ∈ regions pac e.save s ++ regions pac e.restore t, ∃ off,
        p.1 = s.sp - BitVec.ofNat 64 e.frameSize + BitVec.ofNat 64 off ∧ off + p.2 ≤ e.frameSize) ∧
      (∀ a, ¬ Within (s.sp - BitVec.ofNat 64 e.frameSize) e.frameSize a → (execs pac e.save s).mem a = s.mem a) ∧
      (execs pac e.restore t).mem = t.mem := by
  refine ⟨hbody.preserves hpac, fun p hp => ?_, fun a ha => ?_, ?_⟩
  · rw [e.execs_save] at hbody
    rcases List.mem_append.1 hp with hsave | hrestore
    · rw [e.save_eq] at hsave
      exact e.stores_inFrame.regions_inside hsave
    · rw [e.restore_eq, regions_append] at hrestore
      obtain ⟨off, hoff, hle⟩ := e.loads_inFrame.regions_inside ((List.mem_append.1 hrestore).resolve_right
        List.not_mem_nil)
      refine ⟨off, ?_, hle⟩
      rw [hoff, ← hbody.sp_eq]
      rfl
  · rw [e.execs_save]
    exact @InFrame.mem_outside pac (e.enter s) _ _ e.stores_inFrame e.frameSize_le a ha
  · rw [e.execs_restore]
    exact execs_mem e.loads_stores

end

/-- Signing that puts a code into the upper bits, where a pointer has none. -/
def upperBits : Pac :=
  ⟨fun key modifier p => p ||| (key.setWidth 64 ^^^ modifier) <<< 48, fun _ _ p => p &&& 0xffffffffffff#64⟩

/-- A state in which each register has a value of its own. -/
def distinctRegisters : SysCpu :=
  ⟨fun r => BitVec.ofNat 64 (r + 1), 0x80000#64, 0x40010#64, 0x5#64, 0#64, 0x1234#128, fun _ => 0#8⟩

/-- A handler that leaves nothing but what it has to keep, after a nested exception. -/
def clobbered (s : SysCpu) : SysCpu :=
  { s with
    x := fun r => if 19 ≤ r ∧ r ≤ 29 then s.x r else 0xdead#64
    elr := 0xdead#64
    spsr := 0xdead#64 }

theorem clobbered_aapcs64 (size : Nat) (s : SysCpu) : Aapcs64 size s (clobbered s) :=
  ⟨⟨rfl, fun _ _ => rfl⟩, fun _ hlow hhigh => if_pos ⟨hlow, hhigh⟩, rfl⟩

theorem context_preserved_clobbered :
    let t := clobbered (execs upperBits Entry.irq.save distinctRegisters)
    ContextPreserved .irq distinctRegisters t (execs upperBits Entry.irq.restore t) := by
  have hpac : upperBits.Undoes distinctRegisters.key (distinctRegisters.sp - BitVec.ofNat 64 Entry.irq.frameSize)
      distinctRegisters.elr := by
    unfold Pac.Undoes
    decide
  exact (context_preserved (clobbered_aapcs64 _ _) hpac).1

/-! ## The vectors -/

def ESR_EC_SHIFT : Nat := 26
def ESR_EC_SVC64 : BitVec 64 := 0b010101
def ESR_ISS_SVC_IMM16_MASK : BitVec 64 := 0xffff

/-- What `handle_el1h_sync` looks at: the class of the exception in `x10`, and the number after `svc` in `x11`. -/
def checkSvc : List SysOp := [.mrs 9 .esr, .lsr 10 9 ESR_EC_SHIFT, .and 11 9 ESR_ISS_SVC_IMM16_MASK]

/-- `handle_el1h_sync` up to the restoring macro, for `svc #0`: the number of the system call is moved to `x6`, and
`aarch64_do_syscall` called, which is to return to `ret`. -/
def handleEl1hSync (pac : Pac) (aarch64DoSyscall : SysCpu → SysCpu → Prop) (ret : BitVec 64) (s t : SysCpu) : Prop :=
  let u := execs pac checkSvc s
  (u.x 10 = ESR_EC_SVC64 ∧ u.x 11 = 0) ∧ aarch64DoSyscall ((execs pac [.mov 6 8] u).set 30 ret) t

/-- `handle_el1h_irq` up to the restoring macro. -/
def handleEl1hIrq (interruptDispatch : SysCpu → SysCpu → Prop) (ret : BitVec 64) (s t : SysCpu) : Prop :=
  interruptDispatch (s.set 30 ret) t

/-- `vector_el1h_sync` and `vector_el1h_irq`, up to the `eret`. -/
def vectorEl1h (pac : Pac) (e : Entry) (handler : SysCpu → SysCpu → Prop) (s s' : SysCpu) : Prop :=
  ∃ t, handler (execs pac e.save s) t ∧ s' = execs pac e.restore t

section

variable {pac : Pac} {size : Nat} {s s' t : SysCpu} {callee : SysCpu → SysCpu → Prop} {ret : BitVec 64}

/-- What comes before the call may use the scratch registers. -/
theorem Aapcs64.of_scratch {u : SysCpu} (h : Aapcs64 size u t) (hx : ∀ r, 19 ≤ r → r ≤ 29 → u.x r = s.x r)
    (hsp : u.sp = s.sp) (hkey : u.key = s.key) (hmem : u.mem = s.mem) : Aapcs64 size s t where
  sp := h.sp.trans hsp
  mem a ha := by rw [h.mem a (by rwa [hsp]), hmem]
  x r hlow hhigh := (h.x r hlow hhigh).trans (hx r hlow hhigh)
  key := h.key.trans hkey

theorem handleEl1hIrq_aapcs64 (hcall : ∀ u t, callee u t → Aapcs64 size u t) (h : handleEl1hIrq callee ret s t) :
    Aapcs64 size s t := by
  refine (hcall _ _ h).of_scratch (fun r _ hhigh => SysCpu.set_x_of_ne ?_) SysCpu.set_sp SysCpu.set_key SysCpu.set_mem
  exact Nat.ne_of_lt (Nat.lt_succ_of_le hhigh)

theorem handleEl1hSync_aapcs64 (hcall : ∀ u t, callee u t → Aapcs64 size u t)
    (h : handleEl1hSync pac callee ret s t) : Aapcs64 size s t := by
  refine (hcall _ _ h.2).of_scratch (fun r hlow hhigh => ?_) rfl rfl rfl
  have hscratch : ∀ r ≤ 29, 19 ≤ r → ∀ op ∈ checkSvc ++ [.mov 6 8], r ∉ op.dests := by decide
  rw [SysCpu.set_x_of_ne (Nat.ne_of_lt (Nat.lt_succ_of_le hhigh)), ← execs_append, execs_x (hscratch r hhigh hlow)]

/-- A system call gets the arguments in `x0` to `x5` and its number in `x6`, and changes nothing but `x0`, which
has its result. -/
theorem vectorEl1h_sync_resumes (hcall : ∀ u t, callee u t → Aapcs64 TRAP_FRAME_SYSCALL_SIZE u t)
    (h : vectorEl1h pac .syscall (handleEl1hSync pac callee ret) s s')
    (hpac : pac.Undoes s.key (s.sp - BitVec.ofNat 64 TRAP_FRAME_SYSCALL_SIZE) s.elr) :
    (∃ u t, callee u t ∧ (∀ r ≤ 5, u.x r = s.x r) ∧ u.x 6 = s.x 8 ∧ s'.x 0 = t.x 0) ∧
      (∀ r ≤ 30, r ≠ 0 → s'.x r = s.x r) ∧ s'.sp = s.sp ∧ s'.eret = (s.elr, s.spsr) := by
  obtain ⟨t, hhandler, rfl⟩ := h
  have hcontext := Aapcs64.preserves (e := .syscall) (handleEl1hSync_aapcs64 hcall hhandler) hpac
  have hargs : ∀ r ≤ 5, ∀ op ∈ Entry.syscall.save ++ (checkSvc ++ [.mov 6 8]), r ∉ op.dests := by decide
  refine ⟨⟨_, t, hhandler.2, fun r hr => ?_, rfl, ?_⟩, fun r hr hne => ?_, hcontext.sp,
    Prod.ext hcontext.elr hcontext.spsr⟩
  · rw [SysCpu.set_x_of_ne (Nat.ne_of_lt (Nat.lt_of_le_of_lt hr (by decide))), ← execs_append, ← execs_append,
      execs_x (hargs r hr)]
  · rw [hcontext.x 0 (by decide), if_pos ⟨rfl, rfl⟩]
  · rw [hcontext.x r hr, if_neg fun h => hne h.2]

/-- **An interrupt** is not noticed by what it interrupts. -/
theorem vectorEl1h_irq_resumes (hcall : ∀ u t, callee u t → Aapcs64 TRAP_FRAME_IRQ_SIZE u t)
    (h : vectorEl1h pac .irq (handleEl1hIrq callee ret) s s')
    (hpac : pac.Undoes s.key (s.sp - BitVec.ofNat 64 TRAP_FRAME_IRQ_SIZE) s.elr) :
    (∀ r ≤ 30, s'.x r = s.x r) ∧ s'.sp = s.sp ∧ s'.eret = (s.elr, s.spsr) := by
  obtain ⟨t, hhandler, rfl⟩ := h
  have hcontext := Aapcs64.preserves (e := .irq) (handleEl1hIrq_aapcs64 hcall hhandler) hpac
  refine ⟨fun r hr => ?_, hcontext.sp, Prod.ext hcontext.elr hcontext.spsr⟩
  rw [hcontext.x r hr, if_neg]
  rintro ⟨he, -⟩
  cases he

end

/-- In a handler that leaves nothing but what it has to keep. -/
theorem vectorEl1h_irq_resumes_clobbered :
    ∃ s', vectorEl1h upperBits .irq (handleEl1hIrq (fun u t => t = clobbered u) 0x1000) distinctRegisters s' ∧
      ∀ r ≤ 30, s'.x r = distinctRegisters.x r := by
  have hpac : upperBits.Undoes distinctRegisters.key (distinctRegisters.sp - BitVec.ofNat 64 TRAP_FRAME_IRQ_SIZE)
      distinctRegisters.elr := by
    unfold Pac.Undoes
    decide
  have hcall : ∀ u t, t = clobbered u → Aapcs64 TRAP_FRAME_IRQ_SIZE u t := by
    rintro u t rfl
    exact clobbered_aapcs64 _ u
  have h : vectorEl1h upperBits .irq (handleEl1hIrq (fun u t => t = clobbered u) 0x1000) distinctRegisters _ :=
    ⟨_, rfl, rfl⟩
  exact ⟨_, h, (vectorEl1h_irq_resumes hcall h hpac).1⟩

end GunyahRuntime
