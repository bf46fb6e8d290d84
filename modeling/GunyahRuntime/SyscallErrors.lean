/-
# GunyahRuntime.SyscallErrors -- system calls that fail

The C library turns a register that reads as one of the last 4095 numbers into an error, and the application then
goes on as if the call had not been made. `aarch64DoSyscall_failed` is the other half of this: a call whose register
holds an error number has changed no part of the state and stored nothing, with the exceptions that
`Call.LeavesTraces` lists. What it may do is complain: `Call.complaints` has the messages, and they are all that the
log and the console get.
-/
import GunyahRuntime.SyscallOutput

namespace GunyahRuntime

open Lib (lastN)

/-! ## Failures -/

/-- A result that the C library takes for an error number. -/
def Fails (ret : Int) : Prop := 18446744073709547520 < ret % 18446744073709551616

instance (ret : Int) : Decidable (Fails ret) := inferInstanceAs (Decidable (_ < _))

/-- The value in the register is an error number. -/
def failed (x0 : UInt64) : Prop := 18446744073709547520 < x0.toNat

instance (x0 : UInt64) : Decidable (failed x0) := inferInstanceAs (Decidable (_ < _))

theorem failed_ofInt {ret : Int} : failed (UInt64.ofInt ret) ↔ Fails ret := by
  unfold failed UInt64.ofInt Fails
  rw [UInt64.toNat_ofNat']
  omega

/-- The address of a page is none. -/
theorem not_fails_page {addr : Nat} (h : addr % 4096 = 0) : ¬ Fails addr ∧ ¬ Fails (toInt64 addr) := by
  unfold Fails toInt64
  split <;> omega

section Refusals

variable {st st' : MmapState} {ret : Int}

theorem allocTake_ret {node : MmapNode} {startBit len : Nat} (h : allocTake st node startBit len = .ok (ret, st')) :
    ¬ Fails ret := by
  obtain ⟨halign, h⟩ := of_cassert h
  obtain ⟨-, h⟩ := of_cassert h
  obtain ⟨-, h⟩ := of_cassert h
  obtain ⟨rfl, -⟩ := Prod.mk.inj (Except.ok.inj h)
  exact (not_fails_page (of_decide_eq_true halign)).2

/-- A mapping that fails changes nothing. -/
theorem sysMmap_refused {addr len prot flags off : Nat} {fd : Int}
    (h : sysMmap st addr len prot flags fd off = .ok (ret, st')) (hf : Fails ret) :
    isError ret = true ∧ (mmapArgsOk addr len prot flags fd off = true → ret = -ENOMEM) ∧ st' = st := by
  unfold sysMmap at h
  split at h
  · obtain ⟨-, h⟩ := of_cassert h
    obtain ⟨-, h⟩ := of_cassert h
    split at h
    · obtain ⟨rfl, rfl⟩ := Prod.mk.inj (Except.ok.inj h)
      exact ⟨rfl, fun _ => rfl, rfl⟩
    · obtain ⟨found, -, h⟩ := bind_eq_ok.1 h
      cases found with
      | some found => exact absurd hf (allocTake_ret h)
      | none =>
        dsimp only at h
        unfold allocSteal at h
        split at h
        · obtain ⟨node, -, h⟩ := bind_eq_ok.1 h
          exact absurd hf (allocTake_ret h)
        · obtain ⟨rfl, rfl⟩ := Prod.mk.inj (Except.ok.inj h)
          exact ⟨rfl, fun _ => rfl, rfl⟩
  · next hargs =>
    obtain ⟨rfl, rfl⟩ := Prod.mk.inj (Except.ok.inj h)
    exact ⟨rfl, fun hok => absurd hok hargs, rfl⟩

theorem sysMunmap_refused {addr len : Nat} (h : sysMunmap st addr len = .ok (ret, st')) (hf : Fails ret) :
    ret ≠ 0 ∧ st' = st := by
  have hne : ret ≠ 0 := by
    rintro rfl
    exact absurd hf (by decide)
  refine ⟨hne, ?_⟩
  unfold sysMunmap at h
  split at h
  · obtain ⟨-, h⟩ := of_cassert h
    obtain ⟨-, h⟩ := of_cassert h
    obtain ⟨-, h⟩ := of_cassert h
    obtain ⟨found, -, h⟩ := bind_eq_ok.1 h
    cases found with
    | none => exact (Prod.mk.inj (Except.ok.inj h)).2.symm
    | some found =>
      obtain ⟨node, -, h⟩ := bind_eq_ok.1 h
      exact absurd (Prod.mk.inj (Except.ok.inj h)).1.symm hne
  · exact (Prod.mk.inj (Except.ok.inj h)).2.symm

theorem mmapAddHeap_refused {base size : Nat} {isBrk : Bool} (h : mmapAddHeap st base size isBrk = .ok (ret, st'))
    (hne : ret ≠ 0) : st' = st := by
  obtain ⟨-, h⟩ := of_cassert h
  obtain ⟨-, h⟩ := of_cassert h
  obtain ⟨-, h⟩ := of_cassert h
  obtain ⟨-, h⟩ := of_cassert h
  split at h
  · exact (Prod.mk.inj (Except.ok.inj h)).2.symm
  split at h
  · cases h
  · obtain ⟨added, -, h⟩ := bind_eq_ok.1 h
    obtain ⟨links, -, h⟩ := bind_eq_ok.1 h
    exact absurd (Prod.mk.inj (Except.ok.inj h)).1.symm hne

theorem mmapRemoveHeap_refused {base size : Nat} (h : mmapRemoveHeap st base size = .ok (ret, st')) (hne : ret ≠ 0) :
    st' = st := by
  obtain ⟨⟨err, node⟩, -, h⟩ := bind_eq_ok.1 h
  dsimp only at h
  split at h
  · exact (Prod.mk.inj (Except.ok.inj h)).2.symm
  · obtain ⟨links, -, h⟩ := bind_eq_ok.1 h
    exact absurd (Prod.mk.inj (Except.ok.inj h)).1.symm hne

theorem memIoctl_refused {req : MemIoctl} {stats : Option AllocatorStats}
    (h : memIoctl st req = .ok (ret, stats, st')) (hne : ret ≠ 0) : stats = none ∧ st' = st := by
  have hsame : (.ok (ret, stats, st') : Exec _) = .ok (-EINVAL, none, st) → stats = none ∧ st' = st := by
    intro heq
    obtain ⟨-, heq⟩ := Prod.mk.inj (Except.ok.inj heq)
    exact Prod.mk.inj heq
  cases req with
  | addHeap range =>
    unfold memIoctl at h
    dsimp only at h
    split at h
    · obtain ⟨⟨ret', st₁⟩, hadd, h⟩ := bind_eq_ok.1 h
      obtain ⟨rfl, hrest⟩ := Prod.mk.inj (Except.ok.inj h)
      obtain ⟨rfl, rfl⟩ := Prod.mk.inj hrest
      exact ⟨rfl, mmapAddHeap_refused hadd hne⟩
    · exact hsame h.symm
  | removeHeap range =>
    unfold memIoctl at h
    dsimp only at h
    split at h
    · obtain ⟨⟨ret', st₁⟩, hremove, h⟩ := bind_eq_ok.1 h
      obtain ⟨rfl, hrest⟩ := Prod.mk.inj (Except.ok.inj h)
      obtain ⟨rfl, rfl⟩ := Prod.mk.inj hrest
      exact ⟨rfl, mmapRemoveHeap_refused hremove hne⟩
    · exact hsame h.symm
  | heapIsFree range =>
    unfold memIoctl at h
    dsimp only at h
    split at h
    · obtain ⟨ret', -, h⟩ := bind_eq_ok.1 h
      obtain ⟨-, hrest⟩ := Prod.mk.inj (Except.ok.inj h)
      obtain ⟨rfl, rfl⟩ := Prod.mk.inj hrest
      exact ⟨rfl, rfl⟩
    · exact hsame h.symm
  | heapGetStats =>
    obtain ⟨⟨ret', stats'⟩, hstats, h⟩ := bind_eq_ok.1 h
    obtain ⟨rfl, -⟩ := Prod.mk.inj (Except.ok.inj h)
    obtain ⟨r, -, hstats⟩ := bind_eq_ok.1 hstats
    cases r with
    | inl sizes => exact absurd (Prod.mk.inj (Except.ok.inj hstats)).1.symm hne
    | inr e => exact e.elim
  | other => exact hsame h.symm

/-- A request that fails is not recorded. -/
theorem request_refused {s : Sys} {op : Op} {r : Int × Option AllocatorStats × MmapState}
    (h : s.st.request op = .ok r) (hf : Fails r.1) : r.2.1 = none ∧ s.record r.1 r.2.2 op = s := by
  have hne : r.1 ≠ 0 := fun hz => by
    rw [hz] at hf
    exact absurd hf (by decide)
  cases op with
  | brk brk =>
    obtain rfl := Except.ok.inj h
    refine ⟨rfl, ?_⟩
    have hbrk : sysBrk s.st brk = s.st := by
      unfold sysBrk at hf ⊢
      dsimp only at hf ⊢
      split at hf
      · exact absurd hf (not_fails_page (Nat.mul_mod_left _ _)).1
      · next hout => rw [if_neg hout]
    show { s with st := sysBrk s.st brk } = s
    rw [hbrk]
  | mmap addr len prot flags fd off =>
    obtain ⟨⟨ret, st⟩, hmmap, h⟩ := bind_eq_ok.1 h
    obtain rfl := Except.ok.inj h
    obtain ⟨herror, -, rfl⟩ := sysMmap_refused hmmap hf
    refine ⟨rfl, ?_⟩
    show { s with st := s.st, live := if isError ret = true then s.live else _ } = s
    rw [if_pos herror]
  | munmap addr len =>
    obtain ⟨⟨ret, st⟩, hmunmap, h⟩ := bind_eq_ok.1 h
    obtain rfl := Except.ok.inj h
    obtain ⟨-, rfl⟩ := sysMunmap_refused hmunmap hf
    refine ⟨rfl, ?_⟩
    show { s with st := s.st, live := if ret = 0 then _ else s.live } = s
    rw [if_neg hne]
  | ioctl req =>
    obtain ⟨hstats, hst⟩ := memIoctl_refused h hne
    refine ⟨hstats, ?_⟩
    show { s with st := r.2.2, heaps := heapsAfter s.heaps r.1 req } = s
    have hheaps : heapsAfter s.heaps r.1 req = s.heaps := by
      cases req <;> first | exact if_neg hne | rfl
    rw [hst, hheaps]

end Refusals

section IrqRefusals

variable {s s' : IrqState} {irq : Nat} {ret : Int}

theorem interruptRegisterIsr_refused {isr data : Nat} (h : interruptRegisterIsr s irq isr data = .ok (ret, s'))
    (hne : ret ≠ 0) : s' = s := by
  unfold interruptRegisterIsr at h
  split at h
  · exact (Prod.mk.inj (Except.ok.inj h)).2.symm
  · obtain ⟨found, -, h⟩ := bind_eq_ok.1 h
    split at h
    · exact (Prod.mk.inj (Except.ok.inj h)).2.symm
    · obtain ⟨s₁, -, h⟩ := bind_eq_ok.1 h
      exact absurd (Prod.mk.inj (Except.ok.inj h)).1.symm hne

theorem interruptDeregisterIsr_refused (h : interruptDeregisterIsr s irq = .ok (ret, s')) (hne : ret ≠ 0) :
    s' = s := by
  unfold interruptDeregisterIsr at h
  split at h
  · exact (Prod.mk.inj (Except.ok.inj h)).2.symm
  · obtain ⟨found, -, h⟩ := bind_eq_ok.1 h
    split at h
    · obtain ⟨s₁, -, h⟩ := bind_eq_ok.1 h
      exact absurd (Prod.mk.inj (Except.ok.inj h)).1.symm hne
    · exact (Prod.mk.inj (Except.ok.inj h)).2.symm

theorem gatedIrqOp_refused {on off : Gic → Nat → Exec Gic} {flag : Bool}
    (h : gatedIrqOp on off s irq flag = .ok (ret, s')) (hne : ret ≠ 0) : s' = s := by
  obtain ⟨found, -, h⟩ := bind_eq_ok.1 h
  split at h
  · cases flag with
    | true =>
      obtain ⟨gic, -, h⟩ := bind_eq_ok.1 h
      exact absurd (Prod.mk.inj (Except.ok.inj h)).1.symm hne
    | false =>
      obtain ⟨gic, -, h⟩ := bind_eq_ok.1 h
      exact absurd (Prod.mk.inj (Except.ok.inj h)).1.symm hne
  · exact (Prod.mk.inj (Except.ok.inj h)).2.symm

/-- A trigger that is refused leaves the controller alone. -/
theorem platformIrqSetTrigger_refused {g g' : Gic} {trigger : Int}
    (h : platformIrqSetTrigger g irq trigger = .ok (false, g')) : g' = g := by
  unfold platformIrqSetTrigger at h
  dsimp only at h
  split at h
  · exact (Prod.mk.inj (Except.ok.inj h)).2.symm
  split at h
  · exact (Prod.mk.inj (Except.ok.inj h)).2.symm
  split at h
  · obtain ⟨g₁, -, h⟩ := bind_eq_ok.1 h
    exact absurd (Prod.mk.inj (Except.ok.inj h)).1 (by decide)
  split at h
  · obtain ⟨isenabler, -, h⟩ := bind_eq_ok.1 h
    obtain ⟨g₁, -, h⟩ := bind_eq_ok.1 h
    exact absurd (Prod.mk.inj (Except.ok.inj h)).1 (by decide)
  · exact (Prod.mk.inj (Except.ok.inj h)).2.symm

theorem interruptIoctl_refused {q : IrqRequest} (h : interruptIoctl s q = .ok (ret, s')) (hne : ret ≠ 0) :
    s' = s := by
  unfold interruptIoctl at h
  split at h
  · exact gatedIrqOp_refused h hne
  split at h
  · exact gatedIrqOp_refused h hne
  split at h
  · exact gatedIrqOp_refused h hne
  split at h
  · exact gatedIrqOp_refused h hne
  split at h
  · exact interruptRegisterIsr_refused h hne
  split at h
  · exact interruptDeregisterIsr_refused h hne
  split at h
  · obtain ⟨⟨valid, gic⟩, hset, h⟩ := bind_eq_ok.1 h
    obtain ⟨rfl, rfl⟩ := Prod.mk.inj (Except.ok.inj h)
    cases valid with
    | true => exact absurd rfl hne
    | false => rw [platformIrqSetTrigger_refused hset]
  · exact (Prod.mk.inj (Except.ok.inj h)).2.symm

end IrqRefusals

section CallRefusals

variable {env : Env} {c : Call} {rt : Runtime} {a : Answer} {o : Outcome}

/-- Nothing is changed, nothing is written to the application, and no more is said than the messages. -/
structure Answer.Spares (rt : Runtime) (ms : List Message) (a : Answer) : Prop where
  kept : Changes [] rt a.rt
  stores : a.stores = []
  reports : rt.tty.log.Ok → Reports ms rt a.rt

theorem Answer.Spares.refl (rt : Runtime) (ret : Int) : Answer.Spares rt [] ⟨ret, [], rt⟩ :=
  ⟨.refl _, rfl, fun _ => .same rfl⟩

theorem Fails.ne_zero {ret : Int} (h : Fails ret) : ret ≠ 0 := by
  rintro rfl
  exact absurd h (by decide)

theorem memRequest_refused {op : Op} {r : Int × Option AllocatorStats × Runtime}
    (h : rt.memRequest env c op = .ok r) (hf : Fails r.1) :
    r.2.1 = none ∧ Answer.Spares rt (rt.mem.st.messages r.1 op) ⟨r.1, [], r.2.2⟩ := by
  obtain ⟨q, hq, h⟩ := bind_eq_ok.1 h
  obtain ⟨said, hsaid, h⟩ := bind_eq_ok.1 h
  obtain rfl := Except.ok.inj h
  obtain ⟨hstats, hrecord⟩ := request_refused hq hf
  refine ⟨hstats, ⟨(sayAll_changes hsaid).trans ?_, rfl, fun hlog => (sayAll_reports hlog hsaid).then rfl⟩⟩
  have hsay : Changes [] rt said := sayAll_changes hsaid
  have hmem : said.mem = rt.mem := hsay.kept (p := .memory) (by simp)
  dsimp only
  rw [hrecord, ← hmem]
  exact .refl _

theorem sysMem_refused {op : Op} (h : rt.sysMem env c op = .ok a) (hf : Fails a.ret) :
    a.Spares rt (rt.mem.st.messages a.ret op) := by
  obtain ⟨r, hr, h⟩ := bind_eq_ok.1 h
  obtain rfl := Except.ok.inj h
  exact (memRequest_refused hr hf).2

/-- A mapping that fails for other reasons than its arguments fails for want of memory. -/
theorem sysMmap_spares {addr len prot flags off : Nat} {fd : Int}
    (h : rt.sysMem env c (.mmap addr len prot flags fd off) = .ok a) (hf : Fails a.ret) :
    a.Spares rt (rt.mem.st.messages (-ENOMEM) (.mmap addr len prot flags fd off)) := by
  have hmessages : rt.mem.st.messages a.ret (.mmap addr len prot flags fd off) =
      rt.mem.st.messages (-ENOMEM) (.mmap addr len prot flags fd off) := by
    obtain ⟨r, hr, ha⟩ := bind_eq_ok.1 h
    obtain rfl := Except.ok.inj ha
    obtain ⟨q, hq, hr⟩ := bind_eq_ok.1 hr
    obtain ⟨said, -, hr⟩ := bind_eq_ok.1 hr
    obtain rfl := Except.ok.inj hr
    obtain ⟨⟨ret, st⟩, hmmap, hq⟩ := bind_eq_ok.1 hq
    obtain rfl := Except.ok.inj hq
    obtain ⟨-, hret, -⟩ := sysMmap_refused hmmap hf
    unfold MmapState.messages
    dsimp only
    by_cases hargs : mmapArgsOk addr len prot flags fd off = true
    · rw [hret hargs]
    · rw [if_neg hargs, if_neg hargs]
  rw [← hmessages]
  exact sysMem_refused h hf

theorem memIoctl_spares {cmd arg : Nat} (h : rt.memIoctl env c cmd arg = .ok a) (hf : Fails a.ret) :
    a.Spares rt [] := by
  obtain ⟨req, -, h⟩ := bind_eq_ok.1 h
  obtain ⟨r, hr, h⟩ := bind_eq_ok.1 h
  obtain rfl := Except.ok.inj h
  obtain ⟨hstats, hspares⟩ := memRequest_refused hr hf
  refine ⟨hspares.kept, ?_, hspares.reports⟩
  dsimp only
  rw [hstats]
  rfl

/-- The tty refuses no command but those it does not know. -/
theorem ttyIoctl_spares {cmd arg : Nat} (h : rt.ttyIoctl env c cmd arg = .ok a) (hf : Fails a.ret) :
    a.Spares rt [.invalidTtyIoctl (UInt64.ofNat cmd)] := by
  unfold Runtime.ttyIoctl at h
  split at h
  · obtain ⟨_, -, h⟩ := bind_eq_ok.1 h
    obtain rfl := Except.ok.inj h
    exact absurd rfl hf.ne_zero
  split at h
  · obtain ⟨buffer, -, h⟩ := bind_eq_ok.1 h
    obtain ⟨size, -, h⟩ := bind_eq_ok.1 h
    obtain ⟨log, -, h⟩ := bind_eq_ok.1 h
    obtain rfl := Except.ok.inj h
    exact absurd rfl hf.ne_zero
  · obtain ⟨said, hsay, h⟩ := bind_eq_ok.1 h
    obtain rfl := Except.ok.inj h
    exact ⟨say_changes hsay, rfl, fun hlog => (say_reports hlog hsay).1⟩

/-- The console keeps what it has, unless it is a prefix that does not fit. -/
theorem consoleIoctl_spares {cmd arg : Nat} (h : rt.consoleIoctl c cmd arg = .ok a) (hf : Fails a.ret)
    (hcmd : cmd ≠ IOCTL_SET_PREFIX_CONSOLE) : a.Spares rt [] := by
  unfold Runtime.consoleIoctl at h
  split at h
  · obtain ⟨newConsole, -, h⟩ := bind_eq_ok.1 h
    obtain rfl := Except.ok.inj h
    unfold consoleRegister at hf ⊢
    split
    · exact .refl _ _
    · next hfree => exact absurd (by rw [if_neg hfree]) hf.ne_zero
  split at h
  · obtain rfl := Except.ok.inj h
    unfold consoleDeregister at hf ⊢
    split
    · exact .refl _ _
    · next hheld => exact absurd (by rw [if_neg hheld]) hf.ne_zero
  · obtain rfl := Except.ok.inj h
    exact .refl _ _

theorem exitIoctl_spares {cmd arg : Nat} (h : rt.exitIoctl c cmd arg = .ok a) (hf : Fails a.ret) :
    a.Spares rt [] := by
  unfold Runtime.exitIoctl at h
  split at h
  · obtain ⟨newExitFunc, -, h⟩ := bind_eq_ok.1 h
    obtain rfl := Except.ok.inj h
    unfold exitRegister at hf ⊢
    split
    · exact .refl _ _
    · next hfree =>
      rw [if_neg hfree] at hf
      split
      · next hfunc => exact absurd (by rw [if_pos hfunc]) hf.ne_zero
      · exact .refl _ _
  split at h
  · obtain rfl := Except.ok.inj h
    unfold exitDeregister at hf ⊢
    split
    · exact .refl _ _
    · next hheld => exact absurd (by rw [if_neg hheld]) hf.ne_zero
  · obtain rfl := Except.ok.inj h
    exact .refl _ _

theorem irqIoctl_spares {cmd arg : Nat} (h : rt.irqIoctl c cmd arg = .ok a) (hf : Fails a.ret) : a.Spares rt [] := by
  obtain ⟨q, -, h⟩ := bind_eq_ok.1 h
  obtain ⟨r, hr, h⟩ := bind_eq_ok.1 h
  obtain rfl := Except.ok.inj h
  have hsame : r.2 = rt.irqs := interruptIoctl_refused hr hf.ne_zero
  refine ⟨?_, rfl, fun _ => .same rfl⟩
  dsimp only
  rw [hsame]
  exact .refl _

/-- What the ioctls of a file say when they fail. -/
def File.complaints (cmd : Nat) : File → List Message
  | .ttyin | .ttyout => [.invalidTtyIoctl (UInt64.ofNat cmd)]
  | _ => []

theorem fileIoctl_spares {cmd arg : Nat} {f : File} (h : rt.fileIoctl env c cmd arg f = .ok a) (hf : Fails a.ret)
    (hset : ¬ (f = .consoleFile ∧ cmd = IOCTL_SET_PREFIX_CONSOLE)) : a.Spares rt (f.complaints cmd) := by
  cases f with
  | ttyin | ttyout => exact ttyIoctl_spares h hf
  | irqFile => exact irqIoctl_spares h hf
  | consoleFile => exact consoleIoctl_spares h hf fun hcmd => hset ⟨rfl, hcmd⟩
  | exitFile => exact exitIoctl_spares h hf
  | memFile => exact memIoctl_spares h hf

/-- Only a sleep that was interrupted has armed the timer. -/
theorem timerSetAndWait_spares {relative : Bool} {req remain : Nat}
    (h : rt.timerSetAndWait env c relative req remain = .ok a) (hf : Fails a.ret) (hintr : a.ret ≠ -EINTR) :
    a.Spares rt [] := by
  obtain ⟨ts, -, ⟨-, rfl⟩ | ⟨-, ⟨-, rfl⟩ | ⟨-, h⟩⟩⟩ := timerSetAndWait_cases h
  · exact .refl _ _
  · exact absurd rfl hf.ne_zero
  · obtain ⟨woken, -, h⟩ := bind_eq_ok.1 h
    have hret : a.ret = (timerWake woken.tty.timer).1 := by
      dsimp only at h
      unfold Runtime.storeRemain at h
      split at h
      · obtain rfl := Except.ok.inj h
        rfl
      · obtain ⟨left, -, h⟩ := bind_eq_ok.1 h
        obtain ⟨_, -, h⟩ := bind_eq_ok.1 h
        obtain rfl := Except.ok.inj h
        rfl
    rw [hret] at hf hintr
    unfold timerWake at hf hintr
    split at hf
    · exact absurd rfl hf.ne_zero
    · next hfired => exact absurd (by rw [if_neg hfired]) hintr

theorem waits_spares {call : Syscall Nat Nat} (h : rt.waits env c call = .ok a) (hf : Fails a.ret)
    (hintr : a.ret ≠ -EINTR) : a.Spares rt [] := by
  cases call with
  | ret r =>
    obtain rfl := Except.ok.inj h
    exact .refl _ _
  | poll =>
    obtain ⟨woken, -, h⟩ := bind_eq_ok.1 h
    obtain rfl := Except.ok.inj h
    exact absurd rfl hintr
  | sleep relative req remain => exact timerSetAndWait_spares h hf hintr

/-- What a call on a descriptor says when it fails. -/
def fdComplaints (rt : Runtime) (fd cmd : Nat) : List Message :=
  match sysIoctl rt.fs fd with
  | .ok (.handler f) => f.complaints cmd
  | _ => []

theorem sysIoctl_spares {fd cmd arg : Nat} (h : rt.sysIoctl env c fd cmd arg = .ok a) (hf : Fails a.ret)
    (hset : ¬ (sysIoctl rt.fs fd = .ok (.handler .consoleFile) ∧ cmd = IOCTL_SET_PREFIX_CONSOLE)) :
    a.Spares rt (fdComplaints rt fd cmd) := by
  obtain ⟨r, hr, h⟩ := bind_eq_ok.1 h
  unfold fdComplaints
  rw [hr]
  cases r with
  | returned ret =>
    obtain rfl := Except.ok.inj h
    exact .refl _ _
  | handler f => exact fileIoctl_spares h hf fun hset' => hset ⟨by rw [hr, hset'.1], hset'.2⟩

theorem sysWritev_spares {fd vec vlen : Nat} (h : rt.sysWritev env c fd vec vlen = .ok a)
    (hreach : ∀ f, sysWritev rt.fs fd ≠ .ok (.handler f)) : a.Spares rt [] := by
  obtain ⟨r, hr, h⟩ := bind_eq_ok.1 h
  cases r with
  | returned ret =>
    obtain rfl := Except.ok.inj h
    exact .refl _ _
  | handler f => exact absurd hr (hreach f)

/-- An open that fails has no descriptor to give. -/
theorem fsAllocFd_refused {libc : Fcntl} {s s' : FsState} {f : Option File} {oFlags : BitVec 32} {ret : Int}
    (h : fsAllocFd libc s f oFlags = .ok (ret, s')) (hf : Fails ret) : s' = s := by
  obtain ⟨-, h⟩ := of_cassert h
  obtain ⟨found, -, h⟩ := bind_eq_ok.1 h
  cases found with
  | none => exact (Prod.mk.inj (Except.ok.inj h)).2.symm
  | some fd =>
    obtain ⟨s₁, hinstall, h⟩ := bind_eq_ok.1 h
    obtain ⟨rfl, rfl⟩ := Prod.mk.inj (Except.ok.inj h)
    obtain ⟨fdAlloc, -, hinstall⟩ := bind_eq_ok.1 hinstall
    split at hinstall
    · next hlt =>
      unfold NUM_FDS at hlt
      unfold Fails at hf
      omega
    · cases hinstall

theorem sysOpenat_spares {dirfd : Int} {pathname : Nat} {flags mode : BitVec 32}
    (h : rt.sysOpenat env c dirfd pathname flags mode = .ok a) (hf : Fails a.ret) : a.Spares rt [] := by
  unfold Runtime.sysOpenat at h
  split at h
  · obtain rfl := Except.ok.inj h
    exact .refl _ _
  · obtain ⟨path, -, h⟩ := bind_eq_ok.1 h
    obtain ⟨⟨ret, fs⟩, hopen, h⟩ := bind_eq_ok.1 h
    obtain rfl := Except.ok.inj h
    have hfs : fs = rt.fs := by
      unfold sysOpenat at hopen
      split at hopen
      · exact (Prod.mk.inj (Except.ok.inj hopen)).2.symm
      split at hopen
      · exact (Prod.mk.inj (Except.ok.inj hopen)).2.symm
      split at hopen
      · exact (Prod.mk.inj (Except.ok.inj hopen)).2.symm
      · exact fsAllocFd_refused hopen hf
    dsimp only
    rw [hfs]
    exact .refl _ _

theorem sysClose_spares {fd : Nat} (h : rt.sysClose fd = .ok a) (hf : Fails a.ret) : a.Spares rt [] := by
  obtain ⟨⟨ret, fs⟩, hclose, h⟩ := bind_eq_ok.1 h
  obtain rfl := Except.ok.inj h
  have hfs : fs = rt.fs := by
    unfold sysClose at hclose
    split at hclose
    · split at hclose
      · exact (Prod.mk.inj (Except.ok.inj hclose)).2.symm
      · obtain ⟨fdAlloc, -, hclose⟩ := bind_eq_ok.1 hclose
        obtain ⟨rfl, -⟩ := Prod.mk.inj (Except.ok.inj hclose)
        exact absurd rfl hf.ne_zero
    · exact (Prod.mk.inj (Except.ok.inj hclose)).2.symm
  dsimp only
  rw [hfs]
  exact .refl _ _

/-- The calls that leave something behind when the register reads as an error: a write that went out, which returns
a length; a wait that was interrupted; and a prefix that does not fit, which is cut and then switched off. -/
def Call.LeavesTraces (rt : Runtime) (c : Call) (x0 : UInt64) : Prop :=
  match sysNumOf c.sysNum with
  | some .writev => ∃ f, sysWritev rt.fs (c.arg32 0) = .ok (.handler f)
  | some .ppoll | some .clockNanosleep => x0 = UInt64.ofInt (-EINTR)
  | some .ioctl =>
    sysIoctl rt.fs (c.arg32 0) = .ok (.handler .consoleFile) ∧ c.arg32 1 = IOCTL_SET_PREFIX_CONSOLE
  | _ => False

theorem returned_map {x : Exec Answer} {x0 : UInt64} {stores : List Store} {rt' : Runtime}
    (h : Answer.outcome <$> x = .ok (.returned x0 stores rt')) :
    ∃ ret, x = .ok ⟨ret, stores, rt'⟩ ∧ UInt64.ofInt ret = x0 := by
  obtain ⟨a, ha, ho⟩ := outcome_map h
  obtain ⟨hx0, rfl, rfl⟩ := Outcome.returned.inj ho
  exact ⟨a.ret, ha, hx0⟩

/-- What a call says when it fails: an ioctl that the tty does not know, a break outside the heap, a mapping that is not
supported or for which there is no memory, a number that is not known. -/
def Call.complaints (rt : Runtime) (c : Call) : List Message :=
  match sysNumOf c.sysNum with
  | some .ioctl => fdComplaints rt (c.arg32 0) (c.arg32 1)
  | some .brk => rt.mem.st.messages 0 (.brk (c.arg 0))
  | some .mmap =>
    rt.mem.st.messages (-ENOMEM) (.mmap (c.arg 0) (c.arg 1) (c.arg32 2) (c.arg32 3) (c.argInt 4) (c.arg 5))
  | none => [.unhandledSyscall c.sysNum]
  | _ => []

/-- **A call that fails has no effect but its complaints**: whatever the state and the arguments, if the register holds
an error number then every part of the runtime is as it was and nothing was written to the memory of the application.
The record of the log, that of the console and the ring of the log have grown by the texts of the complaints, and by
nothing else. -/
theorem aarch64DoSyscall_failed {x0 : UInt64} {stores : List Store} {rt' : Runtime}
    (h : rt.aarch64DoSyscall env c = .ok (.returned x0 stores rt')) (hf : failed x0)
    (htraces : ¬ c.LeavesTraces rt x0) :
    (∀ p : Part, p.Kept rt rt') ∧ stores = [] ∧
      (rt.tty.log.Ok → Reports (c.complaints rt) rt rt' ∧ rt'.tty.log.reading =
        lastN (rt.tty.log.size - 1) (rt.tty.log.reading ++ (c.complaints rt).flatMap Message.text)) := by
  suffices hspares : Answer.Spares rt (c.complaints rt) ⟨0, stores, rt'⟩ from
    ⟨fun p => hspares.kept.kept List.not_mem_nil, hspares.stores, fun hlog =>
      ⟨hspares.reports hlog, (hspares.reports hlog).reading hspares.kept hlog List.not_mem_nil⟩⟩
  -- an error number in the register comes from an answer that is one
  have hspared : ∀ {x : Exec Answer} {ms : List Message}, Answer.outcome <$> x = .ok (.returned x0 stores rt') →
      (∀ a, x = .ok a → Fails a.ret → UInt64.ofInt a.ret = x0 → a.Spares rt ms) →
      Answer.Spares rt ms ⟨0, stores, rt'⟩ := by
    intro x ms hx hspares
    obtain ⟨ret, ha, rfl⟩ := returned_map hx
    obtain ⟨hkept, hstores, hreports⟩ := hspares _ ha (failed_ofInt.1 hf) rfl
    exact ⟨hkept, hstores, hreports⟩
  unfold Runtime.aarch64DoSyscall at h
  unfold Call.LeavesTraces at htraces
  unfold Call.complaints
  cases hnum : sysNumOf c.sysNum with
  | none =>
    rw [hnum] at h
    obtain ⟨said, hsay, h⟩ := bind_eq_ok.1 h
    obtain ⟨-, rfl, rfl⟩ := Outcome.returned.inj (Except.ok.inj h)
    exact ⟨say_changes hsay, rfl, fun hlog => (say_reports hlog hsay).1⟩
  | some num =>
    rw [hnum] at h htraces
    cases num with
    | writev =>
      exact hspared h fun a ha _ _ => sysWritev_spares ha fun f hf => htraces ⟨f, hf⟩
    | ppoll =>
      exact hspared h fun a ha hfa hx0 => waits_spares ha hfa fun hret => htraces (by rw [← hx0, hret])
    | clockNanosleep =>
      exact hspared h fun a ha hfa hx0 => waits_spares ha hfa fun hret => htraces (by rw [← hx0, hret])
    | ioctl => exact hspared h fun a ha hfa _ => sysIoctl_spares ha hfa htraces
    | openat => exact hspared h fun a ha hfa _ => sysOpenat_spares ha hfa
    | close => exact hspared h fun a ha hfa _ => sysClose_spares ha hfa
    | brk => exact hspared h fun a ha hfa _ => sysMem_refused ha hfa
    | munmap => exact hspared h fun a ha hfa _ => sysMem_refused ha hfa
    | mmap => exact hspared h fun a ha hfa _ => sysMmap_spares ha hfa
    | setTidAddress =>
      obtain ⟨-, rfl, rfl⟩ := Outcome.returned.inj (Except.ok.inj h)
      exact .refl rt 0
    | tkill =>
      dsimp only at h
      split at h
      · obtain ⟨said, -, h⟩ := bind_eq_ok.1 h
        cases h
      · obtain ⟨-, rfl, rfl⟩ := Outcome.returned.inj (Except.ok.inj h)
        exact .refl rt 0
    | exit | exitGroup =>
      obtain ⟨said, -, h⟩ := bind_eq_ok.1 h
      cases h

end CallRefusals

/-- A call with a number that is not known fails, and says so. -/
theorem aarch64DoSyscall_failed_unhandled :
    ∃ rt', idleRuntime.aarch64DoSyscall stillEnv (.plain 1000 (.replicate _ 0) tenSeconds) =
      .ok (.returned (UInt64.ofInt (-ENOSYS)) [] rt') ∧ (∀ p : Part, p.Kept idleRuntime rt') ∧
      rt'.tty.log.reading =
        lastN (idleRuntime.tty.log.size - 1) (idleRuntime.tty.log.reading ++ (Message.unhandledSyscall 1000).text) := by
  have hnum : sysNumOf (Call.plain 1000 (.replicate _ 0) tenSeconds).sysNum = none := by decide
  have hlog : idleRuntime.tty.log.Ok := earlyLogBuf_ok
  obtain ⟨rt', hrun, -⟩ := unhandled_returns stillEnv hnum hlog
  have htraces : ¬ Call.LeavesTraces idleRuntime (.plain 1000 (.replicate _ 0) tenSeconds)
      (UInt64.ofInt (-ENOSYS)) := by
    unfold Call.LeavesTraces
    rw [hnum]
    exact not_false
  have hcomplaints : Call.complaints idleRuntime (.plain 1000 (.replicate _ 0) tenSeconds) =
      [.unhandledSyscall 1000] := by
    unfold Call.complaints
    rw [hnum]
    rfl
  obtain ⟨hkept, -, hsaid⟩ := aarch64DoSyscall_failed hrun (by decide) htraces
  have hreading := (hsaid hlog).2
  rw [hcomplaints, List.flatMap_singleton] at hreading
  exact ⟨rt', hrun, hkept, hreading⟩

end GunyahRuntime
