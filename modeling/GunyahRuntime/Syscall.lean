/-
# GunyahRuntime.Syscall -- the system calls (`arch/armv8/src/syscall.c`, `syscall.c`, `exit.c` and the ioctls)

The application and the runtime meet in one function: `aarch64_do_syscall` gets six registers and a number. What the
registers mean is decided by the number, for an ioctl also by the file of the descriptor and the command, and then
by the memory of the application that they point into. Here the calls are put together from the modules that model
what they do: the descriptors, the line discipline, the allocator, the interrupts and the timer, and the messages
in between.

Pointers are checked: a read or a write outside the memory of the application, `NULL` included, is a fault.
-/
import GunyahRuntime.Auxv
import GunyahRuntime.Fs
import GunyahRuntime.Messages
import GunyahRuntime.Sleep
import GunyahRuntime.Slots
import GunyahRuntime.TtyRuns
import GunyahRuntime.Irq.DispatchLoop
import GunyahRuntime.Irq.Init
import GunyahRuntime.Mmap.Reach
import Mathlib.Data.List.TakeWhile
import Mathlib.Data.Nat.Digits.Defs

namespace GunyahRuntime

/-! ## The memory of the application -/

/-- One region of memory. There is nothing at `NULL`, and it ends before the address space does. -/
structure AppMem where
  base : Nat
  bytes : List UInt8
  base_pos : 0 < base
  fits : base + bytes.length < 18446744073709551616

namespace AppMem

/-- The `n` bytes at an address. -/
def load (m : AppMem) (addr n : Nat) : Exec (List UInt8) :=
  if n = 0 then .ok []
  else if m.base ≤ addr then loadBytes m.bytes (addr - m.base) n
  else .error .badRead

/-- The `n` bytes at an address can be written. -/
def writable (m : AppMem) (addr n : Nat) : Exec Unit :=
  if m.base ≤ addr ∧ addr + n ≤ m.base + m.bytes.length then .ok () else .error .badWrite

/-- The unsigned word of `w` bytes at an address. -/
def word (m : AppMem) (addr w : Nat) : Exec Nat := do
  let bs ← m.load addr w
  return Nat.ofDigits 256 (bs.map UInt8.toNat)

/-- The bytes from an address to the end of the region. -/
def rest (m : AppMem) (addr : Nat) : List UInt8 := if m.base ≤ addr then m.bytes.drop (addr - m.base) else []

theorem length_rest_le (m : AppMem) (addr : Nat) : (m.rest addr).length ≤ m.bytes.length := by
  unfold rest
  split
  · rw [List.length_drop]
    exact Nat.sub_le _ _
  · exact Nat.zero_le _

/-- The string at an address. -/
def string (m : AppMem) (addr : Nat) : Exec CString :=
  if 0 ∈ m.rest addr then
    .ok {
      chars := (m.rest addr).takeWhile (· ≠ 0)
      no_nul := fun _ hc => by simpa using List.mem_takeWhile_imp hc
      fits := by
        have htake := (List.takeWhile_sublist (p := (· ≠ 0)) (l := m.rest addr)).length_le
        have hrest := m.length_rest_le addr
        have hfits := m.fits
        omega }
  else .error .badRead

end AppMem

/-- A `struct timespec`. -/
def timespecAt (m : AppMem) (addr : Nat) : Exec TimeSpec := do
  let sec ← m.word addr 8
  let nsec ← m.word (addr + 8) 8
  return ⟨toInt64 sec, toInt64 nsec⟩

/-- A `struct iovec`. The bytes of an entry are read at a base that is not `NULL`. -/
def iovecAt (m : AppMem) (addr : Nat) : Exec IoVec := do
  let base ← m.word addr 8
  let len ← m.word (addr + 8) 8
  if base = 0 then
    if len = 0 then return nullVec else .error .badRead
  else
    let bytes ← m.load base len
    return bytesAt bytes

/-- The entries of a `writev`. -/
def iovecsAt (m : AppMem) (vec : Nat) : Nat → Exec (List IoVec)
  | 0 => .ok []
  | vlen + 1 => do
    let v ← iovecAt m vec
    let vecp ← iovecsAt m (vec + 16) vlen
    return v :: vecp

/-- A `mem_range_t`. -/
def memRangeAt (m : AppMem) (addr : Nat) : Exec Lib.Range := do
  let base ← m.word addr 8
  let size ← m.word (addr + 8) 8
  return ⟨base, size⟩

/-! ## The runtime -/

/-- The statics of the runtime, and the group enable of the interrupt controller. Of the allocator the heaps and the
live mappings are recorded too, and of the line discipline what went to the console and to the log. -/
structure Runtime where
  fs : FsState
  mem : Sys
  tty : TtyState
  irqs : IrqState
  /-- `exit_func`. -/
  exitFunc : Nat
  /-- `ICC_IGRPEN1_EL1`. -/
  igrpen1 : Bool

/-- What stays the same: the C library, the constants of the image, where `timer_isr` is, and the counter, reading by
reading. -/
structure Env where
  libc : Fcntl
  image : Rodata
  timerIsr : Nat
  clock : Nat → Nat

/-- The registers with arguments, `x0` to `x5`. -/
def SYSCALL_ARG_CNT : Nat := 6

instance : NeZero SYSCALL_ARG_CNT := ⟨by decide⟩

/-- A system call, with what it finds: the memory, what is on the stack, and, where it waits for an interrupt, whether
one is pending then, what the controller presents, and what the handlers of the application do. -/
structure Call where
  sysNum : UInt64
  args : Vector UInt64 SYSCALL_ARG_CNT
  mem : AppMem
  stack : Vector UInt8 SINGLE_LOG_MSG_SIZE
  pending : Bool
  iars : List (BitVec 64)
  handler : Handler Unit

/-- What a call writes to the memory of the application. -/
inductive Store where
  | winsize (addr row col xpixel ypixel : Nat)
  | stats (addr : Nat) (stats : AllocatorStats)
  | timespec (addr : Nat) (ts : TimeSpec)
  deriving DecidableEq

/-- What a function of the runtime returns, writes and leaves. -/
structure Answer where
  ret : Int
  stores : List Store
  rt : Runtime

namespace Runtime

/-- `LOG`. -/
def say (env : Env) (c : Call) (rt : Runtime) (m : Message) : Exec Runtime := do
  let r ← logMessage env.image m rt.tty.console rt.tty.log c.stack
  return { rt with tty := { rt.tty with console := r.console, log := r.log, logged := rt.tty.logged ++ r.msg } }

def sayAll (env : Env) (c : Call) (rt : Runtime) : List Message → Exec Runtime
  | [] => .ok rt
  | m :: ms => do
    let rt ← rt.say env c m
    rt.sayAll env c ms

/-! ### Waiting -/

/-- The handlers by their addresses: `timer_isr`, and those of the application. -/
def callHandler (env : Env) (c : Call) : Handler TimerState := fun entry irq s =>
  if entry.isr = env.timerIsr then (true, s.1, timerIsr s.2)
  else
    let r := c.handler entry irq (s.1, ())
    (r.1, r.2.1, s.2)

/-- `interrupt_wait()`. -/
def interruptWait (env : Env) (c : Call) (rt : Runtime) : Exec Runtime :=
  if c.pending then do
    let r ← interruptDispatch (callHandler env c) c.iars ⟨rt.irqs, rt.tty.timer, []⟩
    return { rt with irqs := r.1.irqs, tty := { rt.tty with timer := r.1.user } }
  else .ok rt

/-- `platform_timer_get_current_ticks()`, and the state that has read the counter. -/
def currentTicks (env : Env) (rt : Runtime) : Nat × Runtime :=
  (env.clock rt.tty.reads, { rt with tty := { rt.tty with reads := rt.tty.reads + 1 } })

def setTimer (rt : Runtime) (timer : TimerState) : Runtime := { rt with tty := { rt.tty with timer } }

/-- What is stored to `*remain`, if there is a pointer. -/
def storeRemain (env : Env) (c : Call) (rt : Runtime) (remain timeout : Nat) (ret : Int) : Exec Answer :=
  if remain = 0 then .ok ⟨ret, [], rt⟩
  else do
    let now := rt.currentTicks env
    let ts ← ticksToTimespec rt.tty.timer (if timeout > now.1 then sub64 timeout now.1 else 0)
    c.mem.writable remain 16
    return ⟨ret, [.timespec remain ts], now.2⟩

/-- `timer_set_and_wait` after its early exits: arm, wait, disarm, and report what is left. -/
def sleepUntil (env : Env) (c : Call) (rt : Runtime) (remain timeout : Nat) : Exec Answer := do
  let rt ← (rt.setTimer (platformTimerSetTimeout rt.tty.timer timeout)).interruptWait env c
  let woken := timerWake rt.tty.timer
  (rt.setTimer woken.2).storeRemain env c remain timeout woken.1

/-- `timer_set_and_wait(relative, req, remain)`. -/
def timerSetAndWait (env : Env) (c : Call) (rt : Runtime) (relative : Bool) (req remain : Nat) : Exec Answer := do
  let req ← timespecAt c.mem req
  if ¬ timespecValid rt.tty.timer req then
    return ⟨-EINVAL, [], rt⟩
  else
    let now := rt.currentTicks env
    let ticks ← timespecToTicks rt.tty.timer req
    let timeout := if relative then u64 (ticks + now.1) else ticks
    if timeout ≤ now.1 then
      return ⟨0, [], now.2⟩
    else
      now.2.sleepUntil env c remain timeout

/-- What a call comes down to, with the addresses of the two times, zero for `NULL`. -/
def waits (env : Env) (c : Call) (rt : Runtime) : Syscall Nat Nat → Exec Answer
  | .ret r => .ok ⟨r, [], rt⟩
  | .poll => do
    let rt ← rt.interruptWait env c
    return ⟨-EINTR, [], rt⟩
  | .sleep relative req remain => rt.timerSetAndWait env c relative req remain

/-- `sys_ppoll(ufds, nfds, timeout, sigmask, sigsetsize)`. -/
def sysPpoll (env : Env) (c : Call) (rt : Runtime) (nfds timeout : Nat) : Exec Answer :=
  rt.waits env c (GunyahRuntime.sysPpoll nfds (if timeout ≠ 0 then some timeout else none) 0)

/-- `sys_clock_nanosleep(clock_id, flags, request, remain)`. -/
def sysClockNanosleep (env : Env) (c : Call) (rt : Runtime) (clockId flags : Int) (request remain : Nat) :
    Exec Answer :=
  rt.waits env c (GunyahRuntime.sysClockNanosleep clockId flags request remain 0)

end Runtime

/-! ### Memory -/

/-- What the allocator says about a request that returned `ret`. -/
def MmapState.messages (st : MmapState) (ret : Int) : Op → List Message
  | .brk brk =>
    if balignUp brk ≥ st.brkBase ∧ balignUp brk ≤ st.brkTop then []
    else if brk ≠ 0 then [.invalidBrk (UInt64.ofNat brk)]
    else []
  | .mmap addr len prot flags fd off =>
    if mmapArgsOk addr len prot flags fd off then
      -- a length that no heap could hold is refused without a word
      if len > st.mmapTotalSize then []
      else if ret = -ENOMEM then
        [.outOfMemory (UInt64.ofNat len) (UInt64.ofNat st.mmapTotalSize) (UInt64.ofNat st.mmapAllocSize)]
      else []
    else
      [.mmapInvalid (UInt64.ofNat addr) (UInt64.ofNat len) (UInt64.ofNat prot) (UInt64.ofNat flags),
        .mmapInvalidRest (UInt64.ofInt fd) (UInt64.ofNat off)]
  | _ => []

namespace Runtime

/-- A request to the allocator, with its messages. -/
def memRequest (env : Env) (c : Call) (rt : Runtime) (op : Op) : Exec (Int × Option AllocatorStats × Runtime) := do
  let r ← rt.mem.st.request op
  let said ← rt.sayAll env c (rt.mem.st.messages r.1 op)
  return (r.1, r.2.1, { said with mem := rt.mem.record r.1 r.2.2 op })

/-- `sys_brk`, `sys_mmap` and `sys_munmap`. -/
def sysMem (env : Env) (c : Call) (rt : Runtime) (op : Op) : Exec Answer := do
  let r ← rt.memRequest env c op
  return ⟨r.1, [], r.2.2⟩

end Runtime

/-! ### The ioctls -/

/-- `IOR(a, b, c)` (`sys/ioctl.h`), with the size of `c`. -/
def IOR (magic nr size : Nat) : Nat := (2 <<< 30) ||| (magic <<< 8) ||| nr ||| (size <<< 16)

def TIOCGWINSZ : Nat := 0x5413
def TIOCSETBUF : Nat := 0x547f

def CONSOLE_MAGIC : Nat := 0x43
def IOCTL_REGISTER_CONSOLE : Nat := IOW CONSOLE_MAGIC 0 8
def IOCTL_DEREGISTER_CONSOLE : Nat := IOW CONSOLE_MAGIC 1 4
def IOCTL_SET_PREFIX_CONSOLE : Nat := IOW CONSOLE_MAGIC 2 8

def EXIT_MAGIC : Nat := 0x44
def IOCTL_REGISTER_EXIT : Nat := IOW EXIT_MAGIC 0 8
def IOCTL_DEREGISTER_EXIT : Nat := IOW EXIT_MAGIC 1 4

def MEM_MAGIC : Nat := 0x4D
def IOCTL_ADD_HEAP : Nat := IOW MEM_MAGIC 0 16
def IOCTL_REMOVE_HEAP : Nat := IOW MEM_MAGIC 1 16
def IOCTL_HEAP_IS_FREE : Nat := IOW MEM_MAGIC 2 16
def IOCTL_HEAP_GET_STATS : Nat := IOR MEM_MAGIC 3 40

/-- `log_set_buffer` on an area of the application. Its assertions come before it touches the area. -/
def ttySetBuffer (m : AppMem) (buffer size : Nat) : Exec LogS :=
  match m.load buffer size with
  | .ok area => logSetBuffer buffer area
  | .error _ => if buffer ≠ 0 ∧ size > 16 ∧ size ≤ 524288 then .error .badWrite else .error .assertion

/-- What the argument of the irq device holds in the layout of its command: a number of type `virq_t`, a `struct
register_isr_req` or a `struct irq_set_trigger_req`. -/
def irqRequestAt (m : AppMem) (cmd arg : Nat) : Exec IrqRequest :=
  if cmd = IOCTL_ENABLE_IRQ ∨ cmd = IOCTL_DISABLE_IRQ ∨ cmd = IOCTL_ASSERT_IRQ ∨ cmd = IOCTL_CLEAR_IRQ ∨
      cmd = IOCTL_DEREGISTER_ISR then do
    let irq ← m.word arg 4
    return ⟨cmd, irq, 0, 0, 0⟩
  else if cmd = IOCTL_REGISTER_ISR then do
    let irq ← m.word (arg + 8) 4
    let isr ← m.word arg 8
    let data ← m.word (arg + 16) 8
    return ⟨cmd, irq, isr, data, 0⟩
  else if cmd = IOCTL_SET_IRQ_TRIGGER then do
    let irq ← m.word arg 4
    let trigger ← m.word (arg + 4) 4
    return ⟨cmd, irq, 0, 0, toInt32 trigger⟩
  else .ok ⟨cmd, 0, 0, 0, 0⟩

/-- What the argument of the memory device holds. -/
def memIoctlAt (m : AppMem) (cmd arg : Nat) : Exec MemIoctl :=
  if cmd = IOCTL_ADD_HEAP then do return .addHeap (← memRangeAt m arg)
  else if cmd = IOCTL_REMOVE_HEAP then do return .removeHeap (← memRangeAt m arg)
  else if cmd = IOCTL_HEAP_IS_FREE then do return .heapIsFree (← memRangeAt m arg)
  else if cmd = IOCTL_HEAP_GET_STATS then do
    m.writable arg 40
    return .heapGetStats
  else .ok .other

namespace Runtime

/-- `tty_ioctl(cmd, arg)`. -/
def ttyIoctl (env : Env) (c : Call) (rt : Runtime) (cmd arg : Nat) : Exec Answer :=
  if cmd = TIOCGWINSZ then do
    c.mem.writable arg 8
    return ⟨0, [.winsize arg 64 96 1280 760], rt⟩
  else if cmd = TIOCSETBUF then do
    let buffer ← c.mem.word arg 8
    let size ← c.mem.word (arg + 8) 8
    let log ← ttySetBuffer c.mem buffer size
    return ⟨0, [], { rt with tty := { rt.tty with log } }⟩
  else do
    let rt ← rt.say env c (.invalidTtyIoctl (UInt64.ofNat cmd))
    return ⟨-EINVAL, [], rt⟩

def setConsole (rt : Runtime) (console : Console) : Runtime := { rt with tty := { rt.tty with console } }

/-- `console_ioctl(cmd, arg)`. -/
def consoleIoctl (c : Call) (rt : Runtime) (cmd arg : Nat) : Exec Answer :=
  if cmd = IOCTL_REGISTER_CONSOLE then do
    let newConsole ← c.mem.word arg 8
    let r := consoleRegister rt.tty.console newConsole
    return ⟨r.1, [], rt.setConsole r.2⟩
  else if cmd = IOCTL_DEREGISTER_CONSOLE then
    let r := consoleDeregister rt.tty.console
    .ok ⟨r.1, [], rt.setConsole r.2⟩
  else if cmd = IOCTL_SET_PREFIX_CONSOLE then do
    let prefixText ← c.mem.string arg
    let r := consoleSetPrefix rt.tty.console prefixText
    return ⟨r.1, [], rt.setConsole r.2⟩
  else .ok ⟨-ENOSYS, [], rt⟩

/-- `exit_ioctl(cmd, arg)`. -/
def exitIoctl (c : Call) (rt : Runtime) (cmd arg : Nat) : Exec Answer :=
  if cmd = IOCTL_REGISTER_EXIT then do
    let newExitFunc ← c.mem.word arg 8
    let r := exitRegister rt.exitFunc newExitFunc
    return ⟨r.1, [], { rt with exitFunc := r.2 }⟩
  else if cmd = IOCTL_DEREGISTER_EXIT then
    let r := exitDeregister rt.exitFunc
    .ok ⟨r.1, [], { rt with exitFunc := r.2 }⟩
  else .ok ⟨-ENOSYS, [], rt⟩

/-- `interrupt_ioctl(cmd, arg)`. -/
def irqIoctl (c : Call) (rt : Runtime) (cmd arg : Nat) : Exec Answer := do
  let q ← irqRequestAt c.mem cmd arg
  let r ← interruptIoctl rt.irqs q
  return ⟨r.1, [], { rt with irqs := r.2 }⟩

/-- `mem_ioctl(cmd, arg)`. -/
def memIoctl (env : Env) (c : Call) (rt : Runtime) (cmd arg : Nat) : Exec Answer := do
  let req ← memIoctlAt c.mem cmd arg
  let r ← rt.memRequest env c (.ioctl req)
  return ⟨r.1, r.2.1.toList.map (Store.stats arg), r.2.2⟩

/-- The ioctl handler of a file. -/
def fileIoctl (env : Env) (c : Call) (rt : Runtime) (cmd arg : Nat) : File → Exec Answer
  | .ttyin | .ttyout => rt.ttyIoctl env c cmd arg
  | .irqFile => rt.irqIoctl c cmd arg
  | .consoleFile => rt.consoleIoctl c cmd arg
  | .exitFile => rt.exitIoctl c cmd arg
  | .memFile => rt.memIoctl env c cmd arg

/-! ### The calls on descriptors -/

/-- `sys_ioctl(fd, cmd, arg)`. -/
def sysIoctl (env : Env) (c : Call) (rt : Runtime) (fd cmd arg : Nat) : Exec Answer := do
  match ← GunyahRuntime.sysIoctl rt.fs fd with
  | .returned ret => return ⟨ret, [], rt⟩
  | .handler f => rt.fileIoctl env c cmd arg f

/-- `sys_writev(fd, vec, vlen)`: the only handler is `tty_writev`. -/
def sysWritev (env : Env) (c : Call) (rt : Runtime) (fd vec vlen : Nat) : Exec Answer := do
  match ← GunyahRuntime.sysWritev rt.fs fd with
  | .returned ret => return ⟨ret, [], rt⟩
  | .handler _ =>
    let vecp ← iovecsAt c.mem vec vlen
    let r ← ttyWritev env.clock rt.tty vecp
    return ⟨r.1, [], { rt with tty := r.2 }⟩

/-- `sys_openat(dirfd, pathname, flags, mode)`: the path is looked at after the other arguments. -/
def sysOpenat (env : Env) (c : Call) (rt : Runtime) (dirfd : Int) (pathname : Nat) (flags mode : BitVec 32) :
    Exec Answer :=
  if dirfd ≠ env.libc.AT_FDCWD ∨ flags &&& ~~~(env.libc.O_ACCMODE ||| env.libc.O_LARGEFILE) ≠ 0 ∨ mode ≠ 0 then
    .ok ⟨-EINVAL, [], rt⟩
  else do
    let pathname ← c.mem.string pathname
    let r ← GunyahRuntime.sysOpenat env.libc rt.fs dirfd pathname flags mode
    return ⟨r.1, [], { rt with fs := r.2 }⟩

/-- `sys_close(fd)`. -/
def sysClose (rt : Runtime) (fd : Nat) : Exec Answer := do
  let r ← GunyahRuntime.sysClose rt.fs fd
  return ⟨r.1, [], { rt with fs := r.2 }⟩

end Runtime

/-! ## The call -/

/-- The numbers that `aarch64_do_syscall` knows (`syscall.h` of the C library). -/
inductive SysNum where
  | writev | ppoll | clockNanosleep | ioctl | openat | close | brk | mmap | munmap | setTidAddress | tkill | exit
  | exitGroup
  deriving DecidableEq

def SysNum.number : SysNum → UInt64
  | .writev => 66
  | .ppoll => 73
  | .clockNanosleep => 115
  | .ioctl => 29
  | .openat => 56
  | .close => 57
  | .brk => 214
  | .mmap => 222
  | .munmap => 215
  | .setTidAddress => 96
  | .tkill => 130
  | .exit => 93
  | .exitGroup => 94

def SysNum.all : List SysNum :=
  [.writev, .ppoll, .clockNanosleep, .ioctl, .openat, .close, .brk, .mmap, .munmap, .setTidAddress, .tkill, .exit,
    .exitGroup]

def sysNumOf (n : UInt64) : Option SysNum := SysNum.all.find? fun k => k.number = n

def APP_TID : Int := 1234

/-- How a system call ends: with a value in the first register, or, when the application has exited, in a loop that
waits for events. There `called` says which function was called, and with what. -/
inductive Outcome where
  | returned (x0 : UInt64) (stores : List Store) (rt : Runtime)
  | exited (called : Option (Nat × Int)) (rt : Runtime)

def Outcome.rt : Outcome → Runtime
  | .returned _ _ rt => rt
  | .exited _ rt => rt

/-- The value in the register. -/
def Answer.outcome (a : Answer) : Outcome := .returned (UInt64.ofInt a.ret) a.stores a.rt

namespace Call

/-- An argument, and its casts to `uint32_t` and `int32_t`. -/
def arg (c : Call) (i : Fin SYSCALL_ARG_CNT) : Nat := c.args[i].toNat
def arg32 (c : Call) (i : Fin SYSCALL_ARG_CNT) : Nat := u32 (c.arg i)
def argInt (c : Call) (i : Fin SYSCALL_ARG_CNT) : Int := toInt32 (c.arg i)

end Call

namespace Runtime

/-- `exit_trigger(exit_code)`. -/
def exitTrigger (rt : Runtime) (exitCode : Int) : Option (Nat × Int) :=
  if rt.exitFunc ≠ 0 then some (rt.exitFunc, exitCode) else none

/-- `platform_irq_disable_all()`. -/
def platformIrqDisableAll (rt : Runtime) : Runtime := { rt with igrpen1 := false }

/-- `exit_loop(ec)`, until the loop. -/
def exitLoop (env : Env) (c : Call) (rt : Runtime) (ec : Int) : Exec Outcome := do
  let rt ← rt.say env c .exitCalled
  let rt := rt.platformIrqDisableAll
  return .exited (rt.exitTrigger ec) rt

/-- `aarch64_do_syscall(arg0, …, arg5, sys_num)`. -/
def aarch64DoSyscall (env : Env) (rt : Runtime) (c : Call) : Exec Outcome :=
  match sysNumOf c.sysNum with
  | some .writev => Answer.outcome <$> rt.sysWritev env c (c.arg32 0) (c.arg 1) (c.arg 2)
  | some .ppoll => Answer.outcome <$> rt.sysPpoll env c (c.arg32 1) (c.arg 2)
  | some .clockNanosleep =>
    Answer.outcome <$> rt.sysClockNanosleep env c (c.argInt 0) (c.argInt 1) (c.arg 2) (c.arg 3)
  | some .ioctl => Answer.outcome <$> rt.sysIoctl env c (c.arg32 0) (c.arg32 1) (c.arg 2)
  | some .openat =>
    Answer.outcome <$>
      rt.sysOpenat env c (c.argInt 0) (c.arg 1) (BitVec.ofNat 32 (c.arg 2)) (BitVec.ofNat 32 (c.arg 3))
  | some .close => Answer.outcome <$> rt.sysClose (c.arg32 0)
  | some .brk => Answer.outcome <$> rt.sysMem env c (.brk (c.arg 0))
  | some .mmap =>
    Answer.outcome <$>
      rt.sysMem env c (.mmap (c.arg 0) (c.arg 1) (c.arg32 2) (c.arg32 3) (c.argInt 4) (c.arg 5))
  | some .munmap => Answer.outcome <$> rt.sysMem env c (.munmap (c.arg 0) (c.arg 1))
  | some .setTidAddress => .ok (Answer.outcome ⟨APP_TID, [], rt⟩)
  | some .tkill =>
    if c.argInt 0 = APP_TID then rt.exitLoop env c 1 else .ok (Answer.outcome ⟨-EINVAL, [], rt⟩)
  | some .exit | some .exitGroup => rt.exitLoop env c (c.argInt 0)
  | none => do
    let rt ← rt.say env c (.unhandledSyscall c.sysNum)
    return Answer.outcome ⟨-ENOSYS, [], rt⟩

end Runtime

/-! ## The start -/

/-- What the boot finds: the registers of the machine, and the fields of `env_data` that it uses. -/
structure BootData where
  gic : GicRegs
  /-- `MPIDR_EL1`. -/
  mpidr : BitVec 64
  /-- `CNTFRQ_EL0`, `CNTV_CTL_EL0` and `CNTV_CVAL_EL0`. -/
  cntfrq : Nat
  cntvCtl : Nat
  cntvCval : Nat
  timerFreq : Nat
  appHeapIpa : Nat
  appHeapSize : Nat

/-- `runtime_init` and `elf_setup`: the statics that the application finds. -/
def Runtime.boot (env : Env) (d : BootData) : Exec Runtime := do
  -- `interrupt_init`
  let regs ← platformIrqInit PLATFORM_NUM_IRQS d.mpidr d.gic
  let fs ← fsInit FsState.boot
  let irqs : IrqState := ⟨Vector.replicate _ ⟨0, 0⟩, regs.gic⟩
  let r ← timerInit ⟨0, 0, false, d.cntvCtl, d.cntvCval⟩ irqs d.timerFreq d.cntfrq env.timerIsr
  let st ← elfSetup d.appHeapIpa d.appHeapSize
  return {
    fs
    mem := ⟨st, [⟨u64 (d.appHeapIpa + 16384), d.appHeapSize - 16384⟩], []⟩
    tty := ⟨true, ⟨0, List.replicate 16 0, 0, []⟩, earlyLogBuf, [], r.1, 0⟩
    irqs := r.2
    exitFunc := 0
    igrpen1 := true }

/-- A machine with its registers at reset, a counter of 19.2 MHz and a heap of 16 pages behind the stack. -/
def resetData : BootData := ⟨GicRegs.reset, 0, 19200000, 0, 0, 19200000, 65536, 81920⟩

/-- An image with `timer_isr` at 4096, where the counter stands still. -/
def stillEnv : Env := ⟨usualFcntl, twoNames, 4096, fun _ => 0⟩

/-- A call with no interrupt pending. -/
def Call.plain (sysNum : UInt64) (args : Vector UInt64 SYSCALL_ARG_CNT) (mem : AppMem) : Call :=
  ⟨sysNum, args, mem, .replicate _ 0, false, [], fun _ _ s => (true, s)⟩

/-- Bytes at the start of the second page. -/
def pageAt (bytes : List UInt8) (fits : 4096 + bytes.length < 18446744073709551616) : AppMem :=
  ⟨4096, bytes, by decide, fits⟩

/-- The statics of the image with the timer set up for 19.2 MHz. -/
def idleRuntime : Runtime where
  fs := FsState.boot
  mem := ⟨.initial, [], []⟩
  tty := ⟨true, ⟨0, List.replicate 16 0, 0, []⟩, earlyLogBuf, [], ⟨19200000, 960767920453, false, CNTV_CTL_IMASK, 0⟩, 0⟩
  irqs := IrqState.reset
  exitFunc := 0
  igrpen1 := true

/-- **The boot succeeds** where the frequencies agree and the heap is accepted. -/
theorem boot_total (env : Env) {d : BootData} (hpos : 0 < d.cntfrq) (hlt : d.cntfrq < 4294967296)
    (hfreq : d.timerFreq = d.cntfrq) {st : MmapState} (helf : elfSetup d.appHeapIpa d.appHeapSize = .ok st) :
    ∃ rt, Runtime.boot env d = .ok rt ∧ rt.exitFunc = 0 := by
  obtain ⟨regs, hregs, -⟩ := platformIrqInit_spec (show 33 ≤ PLATFORM_NUM_IRQS by decide) le_rfl d.mpidr d.gic
  have hfs : ∃ fs, fsInit FsState.boot = .ok fs := by
    have hok : (fsInit FsState.boot).isOk = true := by decide +kernel
    cases hinit : fsInit FsState.boot with
    | error e =>
      rw [hinit] at hok
      cases hok
    | ok fs => exact ⟨fs, rfl⟩
  obtain ⟨fs, hfs⟩ := hfs
  obtain ⟨timer, irqs, htimer, -⟩ := timerInit_total ⟨0, 0, false, d.cntvCtl, d.cntvCval⟩
    ⟨Vector.replicate _ ⟨0, 0⟩, regs.gic⟩ env.timerIsr hpos hlt
  unfold Runtime.boot
  rw [hregs, ok_bind, hfs, ok_bind, hfreq]
  dsimp only
  rw [htimer, ok_bind, helf, ok_bind]
  exact ⟨_, rfl, rfl⟩

theorem exists_booted : ∃ rt, Runtime.boot stillEnv resetData = .ok rt ∧ rt.exitFunc = 0 := by
  obtain ⟨s, -, -, -, hsetup⟩ := exists_start
  exact boot_total stillEnv (by decide) (by decide) rfl hsetup

/-- A call whose number is not known is answered with `-ENOSYS`, and logged. -/
theorem unhandled_returns (env : Env) {c : Call} (hnum : sysNumOf c.sysNum = none) {rt : Runtime}
    (hlog : rt.tty.log.Ok) :
    ∃ rt', rt.aarch64DoSyscall env c = .ok (.returned (UInt64.ofInt (-ENOSYS)) [] rt') ∧ rt'.tty.log.Ok ∧
      rt'.tty.logged = rt.tty.logged ++ (Message.unhandledSyscall c.sysNum).text := by
  obtain ⟨p, hp⟩ := logMessage_eq env.image (.unhandledSyscall c.sysNum) rt.tty.console hlog c.stack
  unfold Runtime.aarch64DoSyscall Runtime.say
  rw [hnum]
  dsimp only
  rw [hp]
  exact ⟨_, rfl, hlog.pushed _, rfl⟩

end GunyahRuntime
