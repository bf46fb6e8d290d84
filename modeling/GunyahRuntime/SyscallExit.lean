/-
# GunyahRuntime.SyscallExit -- how the application exits (`exit.c`, `exit_dev.c`)

The exit device holds one function, to be called when the application exits. Which one that is can be told from the
history of the calls (`registeredExit`): what was registered last through a descriptor of the device, unless it was
deregistered. A registration over another one is refused, so it has no part in that.
-/
import GunyahRuntime.SyscallRuns

namespace GunyahRuntime

/-- The function to call on exit, from the history. -/
def registeredExit : History → Nat
  | [] => 0
  | (c, x0) :: h =>
    if sysNumOf c.sysNum = some .ioctl ∧ heldFile h (c.arg32 0) = some .exitFile ∧ x0 = 0 then
      if c.arg32 1 = IOCTL_REGISTER_EXIT then
        match c.mem.word (c.arg 2) 8 with
        | .ok newExitFunc => newExitFunc
        | .error _ => 0
      else if c.arg32 1 = IOCTL_DEREGISTER_EXIT then 0
      else registeredExit h
    else registeredExit h

/-- The call ends the application with an exit code. -/
def Call.Exits (c : Call) (code : Int) : Prop :=
  (sysNumOf c.sysNum = some .exit ∨ sysNumOf c.sysNum = some .exitGroup) ∧ code = c.argInt 0 ∨
    sysNumOf c.sysNum = some .tkill ∧ c.argInt 0 = APP_TID ∧ code = 1

section Exit

variable {ok : Runtime → Call → Prop} {env : Env} {d : BootData} {rt rt' : Runtime} {h : History} {c : Call}
  {x0 : UInt64} {stores : List Store}

/-- An ioctl of the exit device: accepted, or without effect. -/
theorem exitIoctl_registered {cmd arg : Nat} {a : Answer} (h : rt.exitIoctl c cmd arg = .ok a) :
    a.rt.exitFunc =
      if UInt64.ofInt a.ret = 0 then
        if cmd = IOCTL_REGISTER_EXIT then
          match c.mem.word arg 8 with
          | .ok newExitFunc => newExitFunc
          | .error _ => 0
        else if cmd = IOCTL_DEREGISTER_EXIT then 0
        else rt.exitFunc
      else rt.exitFunc := by
  have hzero : UInt64.ofInt 0 = 0 := by decide
  have hbusy : UInt64.ofInt (-EBUSY) ≠ 0 := by decide
  have hinval : UInt64.ofInt (-EINVAL) ≠ 0 := by decide
  have hnoent : UInt64.ofInt (-ENOENT) ≠ 0 := by decide
  unfold Runtime.exitIoctl at h
  split at h
  · next hcmd =>
    obtain ⟨newExitFunc, hword, h⟩ := bind_eq_ok.1 h
    obtain rfl := Except.ok.inj h
    rw [if_pos hcmd, hword]
    unfold exitRegister
    by_cases hheld : rt.exitFunc ≠ 0
    · rw [if_pos hheld]
      exact (if_neg hbusy).symm
    · rw [if_neg hheld]
      by_cases hnull : newExitFunc ≠ 0
      · rw [if_pos hnull]
        exact (if_pos hzero).symm
      · rw [if_neg hnull]
        exact (if_neg hinval).symm
  split at h
  · next hcmd hcmd' =>
    obtain rfl := Except.ok.inj h
    rw [if_neg hcmd, if_pos hcmd']
    unfold exitDeregister
    by_cases hnone : rt.exitFunc = 0
    · rw [if_pos hnone]
      exact (if_neg hnoent).symm
    · rw [if_neg hnone]
      exact (if_pos hzero).symm
  · next hcmd hcmd' =>
    obtain rfl := Except.ok.inj h
    rw [if_neg hcmd, if_neg hcmd']
    split <;> rfl

theorem registeredExit_call (hh : Holds h rt.fs) (hcall : rt.aarch64DoSyscall env c = .ok (.returned x0 stores rt'))
    (hfunc : rt.exitFunc = registeredExit h) : rt'.exitFunc = registeredExit ((c, x0) :: h) := by
  by_cases hexit : sysNumOf c.sysNum = some .ioctl ∧ sysIoctl rt.fs (c.arg32 0) = .ok (.handler .exitFile)
  · obtain ⟨hnum, hioctl⟩ := hexit
    have hheld : heldFile h (c.arg32 0) = some .exitFile := by
      rw [← hh.files]
      exact sysIoctl_fileAt hioctl
    unfold Runtime.aarch64DoSyscall at hcall
    rw [hnum] at hcall
    obtain ⟨ret, ha, rfl⟩ := returned_map hcall
    unfold Runtime.sysIoctl at ha
    rw [hioctl, ok_bind] at ha
    have hregistered := exitIoctl_registered ha
    unfold registeredExit
    rw [hfunc] at hregistered
    by_cases hret : UInt64.ofInt ret = 0
    · rw [if_pos hret] at hregistered
      rw [if_pos ⟨hnum, hheld, hret⟩]
      exact hregistered
    · rw [if_neg hret] at hregistered
      rw [if_neg fun hc => hret hc.2.2]
      exact hregistered
  · have hkept : rt'.exitFunc = rt.exitFunc :=
      (aarch64DoSyscall_changes hcall).kept (p := .exit) fun hp => by
        obtain ⟨hnum, f, hioctl, hpart⟩ := device_touched (.inr rfl) hp
        cases f
        case exitFile => exact hexit ⟨hnum, hioctl⟩
        case ttyin | ttyout =>
          unfold File.parts at hpart
          dsimp only at hpart
          split at hpart <;> simp at hpart
        all_goals simp [File.parts] at hpart
    unfold registeredExit
    rw [hkept, hfunc, if_neg]
    rintro ⟨hnum, hheld, -⟩
    rw [← hh.files] at hheld
    exact hexit ⟨hnum, sysIoctl_of_fileAt hheld rfl⟩

theorem boot_exitFunc (h : Runtime.boot env d = .ok rt) : rt.exitFunc = 0 := by
  obtain ⟨regs, -, h⟩ := bind_eq_ok.1 h
  obtain ⟨fs, -, h⟩ := bind_eq_ok.1 h
  obtain ⟨r, -, h⟩ := bind_eq_ok.1 h
  obtain ⟨st, -, h⟩ := bind_eq_ok.1 h
  obtain rfl := Except.ok.inj h
  rfl

theorem Reached.exitFunc_eq (hr : Reached ok env d h rt) : rt.exitFunc = registeredExit h := by
  obtain ⟨rt₀, hboot, hrun⟩ := hr
  have hh₀ := fsInit_holds (boot_fs hboot)
  induction hrun with
  | refl => exact boot_exitFunc hboot
  | call hrun _ hcall ih => exact registeredExit_call (hrun.holds hh₀) hcall ih

/-- **What exits calls what is registered.** Whenever the application exits, by `exit`, by `exit_group` or by `tkill` to
itself, the interrupts are off, a message is logged, and the function called with the code is the one that it has
registered by the calls before, and not deregistered since; if there is none, none is called. -/
theorem Reached.exit_calls (hr : Reached ok env d h rt) {code : Int} (hexits : c.Exits code) {o : Outcome}
    (hcall : rt.aarch64DoSyscall env c = .ok o) :
    ∃ rt', o = .exited (if registeredExit h ≠ 0 then some (registeredExit h, code) else none) rt' ∧
      rt'.igrpen1 = false ∧ rt'.tty.logged = rt.tty.logged ++ Message.exitCalled.text := by
  have hloop : rt.exitLoop env c code = .ok o := by
    unfold Runtime.aarch64DoSyscall at hcall
    rcases hexits with ⟨hnum | hnum, rfl⟩ | ⟨hnum, htid, rfl⟩
    · rw [hnum] at hcall
      exact hcall
    · rw [hnum] at hcall
      exact hcall
    · rw [hnum] at hcall
      dsimp only at hcall
      rw [if_pos htid] at hcall
      exact hcall
  obtain ⟨said, hsay, hloop⟩ := bind_eq_ok.1 hloop
  obtain rfl := Except.ok.inj hloop
  have hchanges : Changes [] rt said := say_changes hsay
  have hkept : said.exitFunc = rt.exitFunc := hchanges.kept (p := .exit) List.not_mem_nil
  have hfunc := hkept.trans hr.exitFunc_eq
  obtain ⟨p, hp⟩ := logMessage_eq env.image .exitCalled rt.tty.console hr.log_ok c.stack
  unfold Runtime.say at hsay
  rw [hp] at hsay
  obtain rfl := Except.ok.inj hsay
  refine ⟨_, congrArg₂ Outcome.exited ?_ rfl, rfl, rfl⟩
  unfold Runtime.exitTrigger Runtime.platformIrqDisableAll
  dsimp only at hfunc ⊢
  rw [hfunc]

end Exit

/-- `exit(7)`. -/
def exitSeven : Call := .plain 93 #v[7, 0, 0, 0, 0, 0] exitPath

/-- An application that exits after it has registered a function: the function is called with the code. -/
theorem Reached.exit_calls_registered : ∃ rt rt',
    Reached (fun _ _ => True) stillEnv resetData [(registerExit, 0), (openExit, 3)] rt ∧
    rt.aarch64DoSyscall stillEnv exitSeven = .ok (.exited (some (72340172838076673, 7)) rt') ∧
    rt'.igrpen1 = false ∧ rt'.tty.logged = rt.tty.logged ++ Message.exitCalled.text := by
  obtain ⟨rt₀, rt₁, hboot, hopened, -, hfunc, hioctl⟩ := exists_exitOpened
  have hr : Reached (fun _ _ => True) stillEnv resetData [(registerExit, 0), (openExit, 3)]
      { rt₁ with exitFunc := 72340172838076673 } :=
    ⟨rt₀, hboot, .call (.call .refl trivial hopened) trivial (registerExit_registers hfunc hioctl)⟩
  have hexits : exitSeven.Exits 7 := .inl ⟨.inl (by decide), by decide⟩
  have hrun : ∃ o, ({ rt₁ with exitFunc := 72340172838076673 } : Runtime).aarch64DoSyscall stillEnv exitSeven =
      .ok o := by
    obtain ⟨p, hp⟩ := logMessage_eq stillEnv.image .exitCalled rt₁.tty.console hr.log_ok (.replicate _ 0)
    show ∃ o, ((logMessage stillEnv.image .exitCalled rt₁.tty.console rt₁.tty.log (.replicate _ 0) >>= _) >>= _) = _
    rw [hp]
    exact ⟨_, rfl⟩
  obtain ⟨o, hcall⟩ := hrun
  have hregistered : registeredExit [(registerExit, 0), (openExit, 3)] = 72340172838076673 :=
    hr.exitFunc_eq.symm
  obtain ⟨rt', rfl, hgroup, hlogged⟩ := hr.exit_calls hexits hcall
  rw [hregistered, if_pos (by decide)] at hcall
  exact ⟨_, rt', hr, hcall, hgroup, hlogged⟩

end GunyahRuntime
