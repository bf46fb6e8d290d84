/-
# GunyahRuntime.SyscallEntry -- a system call from its `svc` to its `eret` (`vectors.S`, `arch/armv8/src/syscall.c`)

Of the function behind the vector `Vectors` knows only which registers it keeps, and `Syscall` only what it computes.
Here the two meet: a function that keeps to AAPCS64 and computes `aarch64DoSyscall`, called by the vector, is a system
call to the application. Its number and arguments are those in the registers at the `svc`, although they go through a
frame and the number changes its register on the way, and after the `eret` only `x0` has changed.
-/
import GunyahRuntime.Vectors
import GunyahRuntime.Syscall

namespace GunyahRuntime

open Lib Lib.Arm

/-- The call in the registers: the arguments are in `x0` to `x5`, the number is in `num`. -/
def callIn (s : SysCpu) (num : Reg) (c : Call) : Call :=
  { c with sysNum := .ofBitVec (s.x num), args := Vector.ofFn fun i => .ofBitVec (s.x i) }

/-- A compiled `aarch64_do_syscall` in the state `rt`: it takes the number in `x6` and returns in `x0`. -/
def Compiled (env : Env) (rt : Runtime) (c : Call) (callee : SysCpu → SysCpu → Prop) : Prop :=
  ∀ u t, callee u t → Aapcs64 TRAP_FRAME_SYSCALL_SIZE u t ∧
    ∃ x0 stores rt', rt.aarch64DoSyscall env (callIn u 6 c) = .ok (.returned x0 stores rt') ∧ t.x 0 = x0.toBitVec

section

variable {env : Env} {rt : Runtime} {c : Call} {pac : Pac} {s s' : SysCpu} {callee : SysCpu → SysCpu → Prop}
  {ret : BitVec 64}

theorem callIn_eq {u : SysCpu} (hargs : ∀ r ≤ 5, u.x r = s.x r) (hnum : u.x 6 = s.x 8) :
    callIn u 6 c = callIn s 8 c := by
  have hvector : (Vector.ofFn fun i : Fin SYSCALL_ARG_CNT => UInt64.ofBitVec (u.x i)) = Vector.ofFn fun i => .ofBitVec (s.x i) := by
    congr 1
    funext i
    rw [hargs i (Nat.le_of_lt_succ i.isLt)]
  unfold callIn
  rw [hvector, hnum]

/-- **An `svc` is a system call.** Whatever compiled `aarch64_do_syscall` the vector calls, the application resumes
behind the `svc` with all registers, the stack pointer and the flags as they were, but for `x0`, and there it finds what
the call with the number in `x8` and the arguments in `x0` to `x5` returns. -/
theorem svc_returns (hcallee : Compiled env rt c callee)
    (h : vectorEl1h pac .syscall (handleEl1hSync pac callee ret) s s')
    (hpac : pac.Undoes s.key (s.sp - BitVec.ofNat 64 TRAP_FRAME_SYSCALL_SIZE) s.elr) :
    (∃ x0 stores rt', rt.aarch64DoSyscall env (callIn s 8 c) = .ok (.returned x0 stores rt') ∧
        s'.x 0 = x0.toBitVec) ∧
      (∀ r ≤ 30, r ≠ 0 → s'.x r = s.x r) ∧ s'.sp = s.sp ∧ s'.eret = (s.elr, s.spsr) := by
  obtain ⟨⟨u, t, hcall, hargs, hnum, hresult⟩, hrest⟩ :=
    vectorEl1h_sync_resumes (fun u t hcall => (hcallee u t hcall).1) h hpac
  obtain ⟨-, x0, stores, rt', hrun, hx0⟩ := hcallee u t hcall
  rw [callIn_eq hargs hnum] at hrun
  exact ⟨⟨x0, stores, rt', hrun, hresult.trans hx0⟩, hrest⟩

end

/-- A state at an `svc` for `set_tid_address`. -/
def atSvc : SysCpu :=
  { distinctRegisters with
    x := fun r => if r = 8 then 96 else BitVec.ofNat 64 (r + 1)
    esr := ESR_EC_SVC64 <<< ESR_EC_SHIFT }

/-- A function that knows this call only. -/
def setTidAddress (u t : SysCpu) : Prop := u.x 6 = 96 ∧ t = (clobbered u).set 0 1234

theorem setTidAddress_compiled (env : Env) (rt : Runtime) (c : Call) : Compiled env rt c setTidAddress := by
  rintro u t ⟨hnum, rfl⟩
  refine ⟨?_, 1234, [], rt, ?_, rfl⟩
  · have hkeeps := clobbered_aapcs64 TRAP_FRAME_SYSCALL_SIZE u
    refine ⟨⟨hkeeps.sp, hkeeps.mem⟩, fun r hlow hhigh => ?_, hkeeps.key⟩
    rw [SysCpu.set_x_of_ne (Nat.ne_of_gt (Nat.lt_of_lt_of_le (by decide) hlow))]
    exact hkeeps.x r hlow hhigh
  · have hsys : sysNumOf (callIn u 6 c).sysNum = some .setTidAddress := by
      show sysNumOf (.ofBitVec (u.x 6)) = _
      rw [hnum]
      rfl
    unfold Runtime.aarch64DoSyscall
    rw [hsys]
    rfl

/-- The call from the `svc` to the `eret`. -/
theorem svc_returns_setTidAddress : ∃ s', vectorEl1h upperBits .syscall (handleEl1hSync upperBits setTidAddress 0x1000)
    atSvc s' ∧ (∀ r ≤ 30, r ≠ 0 → s'.x r = atSvc.x r) := by
  have hpac : upperBits.Undoes atSvc.key (atSvc.sp - BitVec.ofNat 64 TRAP_FRAME_SYSCALL_SIZE) atSvc.elr := by
    unfold Pac.Undoes
    decide
  have h : vectorEl1h upperBits .syscall (handleEl1hSync upperBits setTidAddress 0x1000) atSvc _ :=
    ⟨_, ⟨by decide, by decide, rfl⟩, rfl⟩
  have hcallee := setTidAddress_compiled stillEnv idleRuntime
    (.plain 0 (.replicate _ 0) (pageAt [] (by decide)))
  exact ⟨_, h, (svc_returns hcallee h hpac).2.1⟩

end GunyahRuntime
