/-
# GunyahRuntime.SyscallSafe -- calls that the runtime survives

The runtime trusts its application. A pointer astray, a heap over another one, a range that is not mapped, an interrupt
past the table or a time that no `struct timespec` holds end in a fault or a failed assertion. `Call.Sane` lists, call by
call, what the application has to keep to, and `Reached.safe` says that it is enough: however long a run of sane calls is,
the next one returns. On the way the calls are seen to be requests to the allocator, so its states are the ones that
`Sys.Reachable` is about.
-/
import GunyahRuntime.SyscallRuns

namespace GunyahRuntime

/-! ## Sane calls -/

/-- The request of a sleep can be read, and if there is a pointer for what is left of it, it can be written and what is
left is a time. -/
def Call.SleepSane (env : Env) (rt : Runtime) (c : Call) (relative : Bool) (req remain : Nat) : Prop :=
  ∃ ts, timespecAt c.mem req = .ok ts ∧
    (remain ≠ 0 → c.mem.writable remain 16 = .ok () ∧
      Convertible rt.tty.timer.timerFreq
        (timeoutOf rt.tty.timer.timerFreq relative ts (env.clock rt.tty.reads) - env.clock (rt.tty.reads + 1)))

/-- The argument of an ioctl is what the handler of the file wants. -/
def Call.IoctlSane (rt : Runtime) (c : Call) (cmd arg : Nat) : File → Prop
  | .ttyin | .ttyout =>
    (cmd = TIOCGWINSZ → c.mem.writable arg 8 = .ok ()) ∧
      (cmd = TIOCSETBUF → ∃ buffer size area, c.mem.word arg 8 = .ok buffer ∧ c.mem.word (arg + 8) 8 = .ok size ∧
        c.mem.load buffer size = .ok area ∧ AreaAccepted buffer area)
  | .irqFile => ∃ q, irqRequestAt c.mem cmd arg = .ok q ∧ q.Bounded
  | .consoleFile =>
    (cmd = IOCTL_REGISTER_CONSOLE → ∃ console, c.mem.word arg 8 = .ok console) ∧
      (cmd = IOCTL_SET_PREFIX_CONSOLE → ∃ prefixText, c.mem.string arg = .ok prefixText)
  | .exitFile => cmd = IOCTL_REGISTER_EXIT → ∃ func, c.mem.word arg 8 = .ok func
  | .memFile => ∃ req, memIoctlAt c.mem cmd arg = .ok req ∧ Op.Allowed rt.mem (.ioctl req)

/-- A call that keeps to the rules. -/
def Call.Sane (env : Env) (rt : Runtime) (c : Call) : Prop :=
  match sysNumOf c.sysNum with
  | some .writev =>
    ∀ f, sysWritev rt.fs (c.arg32 0) = .ok (.handler f) →
      c.arg 2 < 4294967296 ∧ ∃ vecp, iovecsAt c.mem (c.arg 1) (c.arg 2) = .ok vecp
  | some .ppoll => c.arg32 1 = 0 → c.arg 2 ≠ 0 → c.SleepSane env rt true (c.arg 2) 0
  | some .clockNanosleep =>
    (c.argInt 1 = 0 → c.SleepSane env rt true (c.arg 2) (c.arg 3)) ∧
      (c.argInt 1 = TIMER_ABSTIME → c.SleepSane env rt false (c.arg 2) 0)
  | some .ioctl =>
    ∀ f, sysIoctl rt.fs (c.arg32 0) = .ok (.handler f) → c.IoctlSane rt (c.arg32 1) (c.arg 2) f
  | some .openat => ∃ pathname, c.mem.string (c.arg 1) = .ok pathname
  | some .munmap => rt.mem.Unmappable ⟨c.arg 0, c.arg 1⟩
  | _ => True

/-! ## The line discipline -/

/-- What the line discipline needs, with the statics of the timer. -/
structure TtyState.Usable (timer : TimerState) (st : TtyState) : Prop where
  console : st.console.Fits
  log : st.log.Ok
  timer : st.timer = timer

section Output

variable {clock : Nat → Nat} {timer : TimerState} {st : TtyState}

theorem consoleWrite_total {console : Console} (h : console.Fits) (msg : Option (List UInt8)) :
    ∃ console', consoleWrite console msg = .ok console' ∧ console'.Fits := by
  have hkeeps : ∀ {console'}, consoleWrite console msg = .ok console' → console'.Fits :=
    fun hwrite => h.of_statics (consoleWrite_keeps hwrite)
  suffices hok : ∃ console', consoleWrite console msg = .ok console' by
    obtain ⟨console', hwrite⟩ := hok
    exact ⟨console', hwrite, hkeeps hwrite⟩
  unfold consoleWrite
  split
  · cases msg with
    | none =>
      dsimp only
      split
      · have hlen := h.length
        have hfits := h.fits
        rw [loadBytes_ok (by omega)]
        exact ⟨_, rfl⟩
      · exact ⟨_, rfl⟩
    | some bytes => exact ⟨_, rfl⟩
  · exact ⟨_, rfl⟩

theorem TtyState.Usable.log_total (h : st.Usable timer) (msg : List UInt8) :
    ∃ st', ttyLog st msg = .ok st' ∧ st'.Usable timer := by
  refine ⟨{ st with log := st.log.pushed msg, logged := st.logged ++ msg }, ?_, h.console, h.log.pushed msg, h.timer⟩
  unfold ttyLog
  rw [logAppend_eq h.log]
  rfl

theorem TtyState.Usable.console_total (h : st.Usable timer) (msg : Option (List UInt8)) :
    ∃ st', ttyConsole st msg = .ok st' ∧ st'.Usable timer := by
  obtain ⟨console, hwrite, hfits⟩ := consoleWrite_total h.console msg
  refine ⟨{ st with console }, ?_, hfits, h.log, h.timer⟩
  unfold ttyConsole
  rw [hwrite]
  rfl

theorem TtyState.Usable.lineStart_total (h : st.Usable timer) (ha : timer.Accepted)
    (hclock : ∀ k, Readable timer (clock k)) :
    ∃ st', ttyLineStart clock st = .ok st' ∧ st'.Usable timer ∧ st'.eol = false := by
  unfold ttyLineStart
  by_cases heol : st.eol = true
  · have hstamp : ttyStamp st.timer (clock st.reads) = .ok (stampText timer (clock st.reads)) := by
      rw [h.timer]
      exact ttyStamp_eq ha (hclock _)
    rw [if_pos heol, hstamp, ok_bind]
    have hread : ({ st with reads := st.reads + 1 } : TtyState).Usable timer := ⟨h.console, h.log, h.timer⟩
    obtain ⟨st₁, hlog, h₁⟩ := hread.log_total (stampText timer (clock st.reads))
    obtain ⟨st₂, hconsole, h₂⟩ := h₁.console_total none
    rw [hlog, ok_bind, hconsole]
    exact ⟨_, rfl, ⟨h₂.console, h₂.log, h₂.timer⟩, rfl⟩
  · rw [if_neg heol]
    exact ⟨st, rfl, h, Bool.eq_false_iff.2 heol⟩

/-- One pass over an entry: it is the last, or what is left gets shorter. -/
theorem TtyState.Usable.pass_total (h : st.Usable timer) (ha : timer.Accepted)
    (hclock : ∀ k, Readable timer (clock k)) (v : IoVec) (head : Nat) :
    (∃ st', ttyPass clock v (st, head) = .ok (.inr st') ∧ st'.Usable timer) ∨
      ∃ st' head', ttyPass clock v (st, head) = .ok (.inl (st', head')) ∧ st'.Usable timer ∧
        v.iovLen - head' < v.iovLen - head := by
  obtain ⟨st₁, hstart, h₁, heol⟩ := h.lineStart_total ha hclock
  obtain ⟨len, hle, hpos, -, hcut⟩ := ttyCut_segment heol (v.bytes.drop head)
  have h₂ : ({ st₁ with
      eol := Lib.lineStart isNewline false ((v.bytes.drop head).take len) } : TtyState).Usable timer :=
    ⟨h₁.console, h₁.log, h₁.timer⟩
  obtain ⟨st₃, hconsole, h₃⟩ := h₂.console_total (if v.null then none else some ((v.bytes.drop head).take len))
  obtain ⟨st₄, hlog, h₄⟩ := h₃.log_total ((v.bytes.drop head).take len)
  unfold ttyPass
  dsimp only
  rw [hstart, ok_bind, hcut]
  dsimp only
  rw [hconsole, ok_bind, hlog, ok_bind]
  by_cases hmore : v.iovLen - (head + len) > 0
  · rw [if_pos hmore]
    refine .inr ⟨st₄, head + len, rfl, h₄, ?_⟩
    have hlen : 0 < len := hpos fun hnil => by
      have hdrop := List.drop_eq_nil_iff.1 hnil
      unfold IoVec.iovLen at hmore
      omega
    omega
  · rw [if_neg hmore]
    exact .inl ⟨st₄, rfl, h₄⟩

theorem TtyState.Usable.entry_total (h : st.Usable timer) (ha : timer.Accepted)
    (hclock : ∀ k, Readable timer (clock k)) (v : IoVec) :
    ∃ st', ttyEntry clock st v = .ok st' ∧ st'.Usable timer := by
  refine Lib.iterate_total (fun s : TtyState × Nat => s.1.Usable timer) (TtyState.Usable timer)
    (fun s => v.iovLen - s.2) ?_ (v.iovLen + 1) (st, 0) h (Nat.lt_succ_of_le (Nat.sub_le _ _))
  intro s hs
  rcases hs.pass_total ha hclock v s.2 with ⟨st', hpass, h'⟩ | ⟨st', head', hpass, h', hlt⟩
  · exact .inl ⟨st', hpass, h'⟩
  · exact .inr ⟨(st', head'), hpass, h', hlt⟩

/-- **A write returns**, with or without a console and whatever its entries are. -/
theorem TtyState.Usable.writev_total (h : st.Usable timer) (ha : timer.Accepted)
    (hclock : ∀ k, Readable timer (clock k)) {vecp : List IoVec} (hlen : vecp.length < 4294967296) :
    ∃ r, ttyWritev clock st vecp = .ok r := by
  have hloop : ∃ r, Lib.iterate .diverged (ttyWritevPass clock vecp) (vecp.length + 1) (0, 0, st) = .ok r ∧ True := by
    refine Lib.iterate_total (fun s => s.2.2.Usable timer ∧ s.1 ≤ vecp.length) _ (fun s => vecp.length - s.1) ?_ _ _
      ⟨h, Nat.zero_le _⟩ (Nat.lt_succ_of_le (Nat.sub_le _ _))
    intro s hs
    unfold ttyWritevPass
    dsimp only
    cases hv : vecp[s.1]? with
    | none => exact .inl ⟨_, rfl, trivial⟩
    | some v =>
      obtain ⟨hlt, -⟩ := List.getElem?_eq_some_iff.1 hv
      obtain ⟨st', hentry, h'⟩ := hs.1.entry_total ha hclock v
      right
      dsimp only
      rw [hentry, ok_bind, u32_of_lt (show s.1 + 1 < 4294967296 by omega)]
      exact ⟨_, rfl, ⟨h', hlt⟩, show vecp.length - (s.1 + 1) < vecp.length - s.1 by omega⟩
  obtain ⟨r, hr, -⟩ := hloop
  exact ⟨_, by unfold ttyWritev; rw [hr]; rfl⟩

end Output

/-! ## Sleeps -/

section Progress

variable {env : Env} {c : Call} {rt : Runtime} {freq : Nat}

theorem say_total (hs : rt.Sound freq) (m : Message) : ∃ said, rt.say env c m = .ok said := by
  obtain ⟨p, hp⟩ := logMessage_eq env.image m rt.tty.console hs.log c.stack
  unfold Runtime.say
  rw [hp]
  exact ⟨_, rfl⟩

theorem sayAll_total (hs : rt.Sound freq) (ms : List Message) : ∃ said, rt.sayAll env c ms = .ok said := by
  induction ms generalizing rt with
  | nil => exact ⟨rt, rfl⟩
  | cons m ms ih =>
    obtain ⟨said, hsay⟩ := @say_total env c rt freq hs m
    have hchanges : Changes [] rt said := say_changes hsay
    obtain ⟨said', hrest⟩ := ih (hchanges.sound hs)
    unfold Runtime.sayAll
    rw [hsay, ok_bind, hrest]
    exact ⟨said', rfl⟩

theorem storeRemain_total (ha : rt.tty.timer.Accepted) {remain timeout : Nat} (ret : Int)
    (hnow : env.clock rt.tty.reads < 18446744073709551616) (htimeout : timeout < 18446744073709551616)
    (hremain : remain ≠ 0 → c.mem.writable remain 16 = .ok () ∧
      Convertible rt.tty.timer.timerFreq (timeout - env.clock rt.tty.reads)) :
    ∃ a, rt.storeRemain env c remain timeout ret = .ok a := by
  unfold Runtime.storeRemain
  by_cases hnull : remain = 0
  · rw [if_pos hnull]
    exact ⟨_, rfl⟩
  obtain ⟨hwritable, hconv⟩ := hremain hnull
  have hleft : (if timeout > (rt.currentTicks env).1 then sub64 timeout (rt.currentTicks env).1 else 0) =
      timeout - env.clock rt.tty.reads := by
    show (if timeout > env.clock rt.tty.reads then sub64 timeout (env.clock rt.tty.reads) else 0) = _
    split
    · exact sub64_of_le (by omega) htimeout
    · omega
  obtain ⟨ts, hts⟩ := ticksToTimespec_reading ha (show timeout - env.clock rt.tty.reads < _ by omega) hconv
  rw [if_neg hnull]
  dsimp only
  rw [hleft, hts, ok_bind, hwritable]
  exact ⟨_, rfl⟩

theorem ticksOf_lt (freq : Nat) (ts : TimeSpec) : ticksOf freq ts < 18446744073709551616 :=
  Nat.mod_lt _ (by decide)

theorem timeoutOf_lt (freq : Nat) (relative : Bool) (req : TimeSpec) (now : Nat) :
    timeoutOf freq relative req now < 18446744073709551616 := by
  unfold timeoutOf
  split
  · exact Nat.mod_lt _ (by decide)
  · exact ticksOf_lt freq req

theorem sleepUntil_total (ha : rt.tty.timer.Accepted) {remain timeout : Nat}
    (hnow : env.clock rt.tty.reads < 18446744073709551616) (htimeout : timeout < 18446744073709551616)
    (hremain : remain ≠ 0 → c.mem.writable remain 16 = .ok () ∧
      Convertible rt.tty.timer.timerFreq (timeout - env.clock rt.tty.reads)) :
    ∃ a, rt.sleepUntil env c remain timeout = .ok a := by
  obtain ⟨irqs, hwait⟩ := interruptWait_timer env c (rt.armed timeout)
  -- the statics of the timer are the same when what is left is told
  obtain ⟨hfreq, hmax⟩ := timerWake_statics rt.tty.timer timeout ((rt.armed timeout).timerTaken env c)
  unfold Runtime.sleepUntil
  unfold Runtime.armed at hwait
  rw [hwait, ok_bind]
  refine storeRemain_total (ha.of_statics hfreq hmax) _ hnow htimeout fun hnull => ?_
  obtain ⟨hwritable, hconv⟩ := hremain hnull
  rw [← hfreq] at hconv
  exact ⟨hwritable, hconv⟩

/-- **A sane sleep returns.** -/
theorem timerSetAndWait_total (ha : rt.tty.timer.Accepted) {relative : Bool} {req remain : Nat}
    (hclock : ∀ k, env.clock k < 18446744073709551616) (hc : c.SleepSane env rt relative req remain) :
    ∃ a, rt.timerSetAndWait env c relative req remain = .ok a := by
  obtain ⟨ts, hts, hremain⟩ := hc
  unfold Runtime.timerSetAndWait
  rw [hts, ok_bind]
  by_cases hvalid : timespecValid rt.tty.timer ts = true
  · rw [if_neg (by simp [hvalid]), timespecToTicks_ok hvalid, ok_bind]
    change ∃ a, (if timeoutOf rt.tty.timer.timerFreq relative ts (env.clock rt.tty.reads) ≤ env.clock rt.tty.reads then _
      else Runtime.sleepUntil env c (rt.currentTicks env).2 remain
        (timeoutOf rt.tty.timer.timerFreq relative ts (env.clock rt.tty.reads))) = _
    split
    · exact ⟨_, rfl⟩
    · exact @sleepUntil_total env c (rt.currentTicks env).2 ha remain _ (hclock _) (timeoutOf_lt _ _ _ _) hremain
  · rw [if_pos hvalid]
    exact ⟨_, rfl⟩

/-- The pointers of a call that sleeps. -/
def Call.WaitSane (env : Env) (rt : Runtime) (c : Call) : Syscall Nat Nat → Prop
  | .sleep relative req remain => c.SleepSane env rt relative req remain
  | _ => True

theorem waits_total (ha : rt.tty.timer.Accepted) (hclock : ∀ k, env.clock k < 18446744073709551616)
    {call : Syscall Nat Nat} (hc : c.WaitSane env rt call) : ∃ a, rt.waits env c call = .ok a := by
  cases call with
  | ret r => exact ⟨_, rfl⟩
  | poll =>
    obtain ⟨irqs, hwait⟩ := interruptWait_timer env c rt
    unfold Runtime.waits
    rw [hwait]
    exact ⟨_, rfl⟩
  | sleep relative req remain => exact timerSetAndWait_total ha hclock hc

theorem sysPpoll_total (ha : rt.tty.timer.Accepted) (hclock : ∀ k, env.clock k < 18446744073709551616)
    {nfds timeout : Nat} (hc : nfds = 0 → timeout ≠ 0 → c.SleepSane env rt true timeout 0) :
    ∃ a, rt.sysPpoll env c nfds timeout = .ok a := by
  refine waits_total ha hclock ?_
  unfold sysPpoll
  by_cases hnfds : nfds = 0
  · rw [if_neg (not_not.2 hnfds)]
    by_cases htimeout : timeout = 0
    · rw [if_neg (not_not.2 htimeout)]
      exact trivial
    · rw [if_pos htimeout]
      exact hc hnfds htimeout
  · rw [if_pos hnfds]
    exact trivial

theorem sysClockNanosleep_total (ha : rt.tty.timer.Accepted) (hclock : ∀ k, env.clock k < 18446744073709551616)
    {clockId flags : Int} {request remain : Nat} (hrel : flags = 0 → c.SleepSane env rt true request remain)
    (habs : flags = TIMER_ABSTIME → c.SleepSane env rt false request 0) :
    ∃ a, rt.sysClockNanosleep env c clockId flags request remain = .ok a := by
  refine waits_total ha hclock ?_
  unfold sysClockNanosleep
  split
  · exact trivial
  split
  · next hflags => exact hrel hflags
  split
  · next hflags => exact habs hflags
  · exact trivial

/-! ## The allocator -/

theorem request_total {s : Sys} (hi : Inv s) (hlt : Lib.total s.heaps < 8796093022208) {op : Op}
    (hop : op.Allowed s) : ∃ r, s.st.request op = .ok r := by
  obtain ⟨s', hstep, -⟩ := hi.step (hop.fitting hlt)
  rw [step_eq_request] at hstep
  cases hreq : s.st.request op with
  | error e =>
    rw [hreq] at hstep
    cases hstep
  | ok r => exact ⟨r, rfl⟩

theorem memRequest_total (hs : rt.Sound freq) (hi : Inv rt.mem) (hlt : Lib.total rt.mem.heaps < 8796093022208)
    {op : Op} (hop : op.Allowed rt.mem) : ∃ r, rt.memRequest env c op = .ok r := by
  obtain ⟨q, hq⟩ := request_total hi hlt hop
  obtain ⟨said, hsaid⟩ := @sayAll_total env c rt freq hs (rt.mem.st.messages q.1 op)
  unfold Runtime.memRequest
  rw [hq, ok_bind, hsaid]
  exact ⟨_, rfl⟩

/-- What a request does to the allocator and its record is a step. -/
theorem memRequest_step {op : Op} {r : Int × Option AllocatorStats × Runtime} (h : rt.memRequest env c op = .ok r) :
    rt.mem.step op = .ok r.2.2.mem := by
  obtain ⟨q, hq, h⟩ := bind_eq_ok.1 h
  obtain ⟨said, -, h⟩ := bind_eq_ok.1 h
  obtain rfl := Except.ok.inj h
  rw [step_eq_request, hq]
  rfl

theorem sysMem_total (hs : rt.Sound freq) (hi : Inv rt.mem) (hlt : Lib.total rt.mem.heaps < 8796093022208)
    {op : Op} (hop : op.Allowed rt.mem) : ∃ a, rt.sysMem env c op = .ok a := by
  obtain ⟨r, hr⟩ := @memRequest_total env c rt freq hs hi hlt op hop
  unfold Runtime.sysMem
  rw [hr]
  exact ⟨_, rfl⟩

theorem sysMem_step {op : Op} {a : Answer} (h : rt.sysMem env c op = .ok a) : rt.mem.step op = .ok a.rt.mem := by
  obtain ⟨r, hr, h⟩ := bind_eq_ok.1 h
  obtain rfl := Except.ok.inj h
  exact memRequest_step hr

/-! ## The ioctls -/

theorem ttyIoctl_total (hs : rt.Sound freq) {cmd arg : Nat} (hc : c.IoctlSane rt cmd arg .ttyout) :
    ∃ a, rt.ttyIoctl env c cmd arg = .ok a := by
  unfold Runtime.ttyIoctl
  split
  · next hcmd =>
    rw [hc.1 hcmd]
    exact ⟨_, rfl⟩
  split
  · next hcmd =>
    obtain ⟨buffer, size, area, hbuffer, hsize, harea, hacc⟩ := hc.2 hcmd
    have hset : ttySetBuffer c.mem buffer size = .ok (installed area) := by
      unfold ttySetBuffer
      rw [harea]
      exact logSetBuffer_eq hacc
    rw [hbuffer, ok_bind, hsize, ok_bind, hset]
    exact ⟨_, rfl⟩
  · obtain ⟨said, hsay⟩ := @say_total env c rt freq hs (.invalidTtyIoctl (UInt64.ofNat cmd))
    rw [hsay]
    exact ⟨_, rfl⟩

theorem consoleIoctl_total {cmd arg : Nat} (hc : c.IoctlSane rt cmd arg .consoleFile) :
    ∃ a, rt.consoleIoctl c cmd arg = .ok a := by
  unfold Runtime.consoleIoctl
  split
  · next hcmd =>
    obtain ⟨console, hword⟩ := hc.1 hcmd
    rw [hword]
    exact ⟨_, rfl⟩
  split
  · exact ⟨_, rfl⟩
  split
  · next hcmd =>
    obtain ⟨prefixText, hstring⟩ := hc.2 hcmd
    rw [hstring]
    exact ⟨_, rfl⟩
  · exact ⟨_, rfl⟩

theorem exitIoctl_total {cmd arg : Nat} (hc : c.IoctlSane rt cmd arg .exitFile) :
    ∃ a, rt.exitIoctl c cmd arg = .ok a := by
  unfold Runtime.exitIoctl
  split
  · next hcmd =>
    obtain ⟨func, hword⟩ := hc hcmd
    rw [hword]
    exact ⟨_, rfl⟩
  split
  · exact ⟨_, rfl⟩
  · exact ⟨_, rfl⟩

theorem fileIoctl_total (hs : rt.Sound freq) (hi : Inv rt.mem) (hlt : Lib.total rt.mem.heaps < 8796093022208)
    {cmd arg : Nat} {f : File} (hc : c.IoctlSane rt cmd arg f) : ∃ a, rt.fileIoctl env c cmd arg f = .ok a := by
  cases f with
  | ttyin | ttyout => exact ttyIoctl_total hs hc
  | irqFile =>
    obtain ⟨q, hq, hbounded⟩ := hc
    obtain ⟨r, s', hrun, -⟩ := interruptIoctl_safe rt.irqs hbounded
    unfold Runtime.fileIoctl Runtime.irqIoctl
    rw [hq, ok_bind, hrun]
    exact ⟨_, rfl⟩
  | consoleFile => exact consoleIoctl_total hc
  | exitFile => exact exitIoctl_total hc
  | memFile =>
    obtain ⟨req, hreq, hop⟩ := hc
    obtain ⟨r, hr⟩ := @memRequest_total env c rt freq hs hi hlt _ hop
    unfold Runtime.fileIoctl Runtime.memIoctl
    rw [hreq, ok_bind, hr]
    exact ⟨_, rfl⟩

/-! ## The calls -/

theorem length_iovecsAt {m : AppMem} {vec vlen : Nat} {vecp : List IoVec} (h : iovecsAt m vec vlen = .ok vecp) :
    vecp.length = vlen := by
  induction vlen generalizing vec vecp with
  | zero =>
    obtain rfl := Except.ok.inj h
    rfl
  | succ vlen ih =>
    obtain ⟨v, -, h⟩ := bind_eq_ok.1 h
    obtain ⟨rest, hrest, h⟩ := bind_eq_ok.1 h
    obtain rfl := Except.ok.inj h
    rw [List.length_cons, ih hrest]

theorem sysWritev_total (hs : rt.Sound freq)
    (hclock : ∀ k, env.clock k < 18446744073709551616 ∧ Convertible freq (env.clock k)) {fd vec vlen : Nat}
    (hc : ∀ f, sysWritev rt.fs fd = .ok (.handler f) →
      vlen < 4294967296 ∧ ∃ vecp, iovecsAt c.mem vec vlen = .ok vecp) :
    ∃ a, rt.sysWritev env c fd vec vlen = .ok a := by
  obtain ⟨r, hr⟩ := fsCall_total (fun flags => flags &&& FS_WRITE ≠ 0) FsOps.writev rt.fs fd
  change sysWritev rt.fs fd = .ok r at hr
  unfold Runtime.sysWritev
  rw [hr, ok_bind]
  cases r with
  | returned ret => exact ⟨_, rfl⟩
  | handler f =>
    obtain ⟨hlt, vecp, hvecp⟩ := hc f hr
    have husable : rt.tty.Usable rt.tty.timer := ⟨hs.console, hs.log, rfl⟩
    have hread : ∀ k, Readable rt.tty.timer (env.clock k) := by
      intro k
      obtain ⟨hclock, hconv⟩ := hclock k
      rw [← hs.timerFreq] at hconv
      exact ⟨hclock, hconv⟩
    obtain ⟨r, hwritev⟩ := husable.writev_total hs.timer hread ((length_iovecsAt hvecp).trans_lt hlt)
    dsimp only
    rw [hvecp, ok_bind, hwritev]
    exact ⟨_, rfl⟩

theorem sysOpenat_total (hs : rt.Sound freq) {dirfd : Int} {pathname : Nat} {flags mode : BitVec 32}
    (hc : ∃ path, c.mem.string pathname = .ok path) : ∃ a, rt.sysOpenat env c dirfd pathname flags mode = .ok a := by
  unfold Runtime.sysOpenat
  split
  · exact ⟨_, rfl⟩
  · obtain ⟨path, hpath⟩ := hc
    have hopen : ∃ r, sysOpenat env.libc rt.fs dirfd path flags mode = .ok r := by
      rcases sysOpenat_cases env.libc rt.fs dirfd path flags mode with ⟨e, -, hrefused, -⟩ | ⟨f, -, -, halloc⟩
      · exact ⟨_, hrefused⟩
      · rw [halloc]
        rcases fsAllocFd_spec env.libc hs.fs f flags with ⟨hfull, -⟩ | ⟨fd, -, s', hopened, -⟩
        · exact ⟨_, hfull⟩
        · exact ⟨_, hopened⟩
    obtain ⟨r, hr⟩ := hopen
    rw [hpath, ok_bind, hr]
    exact ⟨_, rfl⟩

theorem sysClose_total (hs : rt.Sound freq) (fd : Nat) : ∃ a, rt.sysClose fd = .ok a := by
  unfold Runtime.sysClose
  rcases sysClose_spec hs.fs fd with ⟨hbad, -⟩ | ⟨s', hclosed, -⟩
  · rw [hbad]
    exact ⟨_, rfl⟩
  · rw [hclosed]
    exact ⟨_, rfl⟩

theorem sysIoctl_total (hs : rt.Sound freq) (hi : Inv rt.mem) (hlt : Lib.total rt.mem.heaps < 8796093022208)
    {fd cmd arg : Nat} (hc : ∀ f, sysIoctl rt.fs fd = .ok (.handler f) → c.IoctlSane rt cmd arg f) :
    ∃ a, rt.sysIoctl env c fd cmd arg = .ok a := by
  obtain ⟨r, hr⟩ := fsCall_total (fun _ => true) FsOps.ioctl rt.fs fd
  change sysIoctl rt.fs fd = .ok r at hr
  unfold Runtime.sysIoctl
  rw [hr, ok_bind]
  cases r with
  | returned ret => exact ⟨_, rfl⟩
  | handler f => exact fileIoctl_total hs hi hlt (hc f hr)

theorem exitLoop_total (hs : rt.Sound freq) (ec : Int) : ∃ o, rt.exitLoop env c ec = .ok o := by
  obtain ⟨said, hsay⟩ := @say_total env c rt freq hs .exitCalled
  unfold Runtime.exitLoop
  rw [hsay]
  exact ⟨_, rfl⟩

theorem outcome_total {x : Exec Answer} (h : ∃ a, x = .ok a) : ∃ o, Answer.outcome <$> x = .ok o := by
  obtain ⟨a, rfl⟩ := h
  exact ⟨_, rfl⟩

theorem Call.arg_lt (c : Call) (i : Fin SYSCALL_ARG_CNT) : c.arg i < 18446744073709551616 := UInt64.toNat_lt _

theorem Call.arg32_lt (c : Call) (i : Fin SYSCALL_ARG_CNT) : c.arg32 i < 4294967296 := Nat.mod_lt _ (by decide)

theorem Call.Sane.munmap (hc : c.Sane env rt) (hnum : sysNumOf c.sysNum = some .munmap) :
    Op.Allowed rt.mem (.munmap (c.arg 0) (c.arg 1)) := by
  unfold Call.Sane at hc
  rw [hnum] at hc
  exact ⟨⟨c.arg_lt 0, c.arg_lt 1⟩, hc⟩

theorem Call.mmap_allowed (c : Call) (s : Sys) :
    Op.Allowed s (.mmap (c.arg 0) (c.arg 1) (c.arg32 2) (c.arg32 3) (c.argInt 4) (c.arg 5)) :=
  ⟨⟨c.arg_lt 0, c.arg_lt 1, c.arg32_lt 2, c.arg32_lt 3, c.arg_lt 5⟩, trivial⟩

/-- **A sane call returns**, in every state that is sound. -/
theorem aarch64DoSyscall_total (hs : rt.Sound freq) (hi : Inv rt.mem) (hlt : Lib.total rt.mem.heaps < 8796093022208)
    (hclock : ∀ k, env.clock k < 18446744073709551616 ∧ Convertible freq (env.clock k)) (hc : c.Sane env rt) :
    ∃ o, rt.aarch64DoSyscall env c = .ok o := by
  have hsane := hc
  have hlt64 : ∀ k, env.clock k < 18446744073709551616 := fun k => (hclock k).1
  unfold Call.Sane at hsane
  unfold Runtime.aarch64DoSyscall
  cases hnum : sysNumOf c.sysNum with
  | none =>
    obtain ⟨said, hsay⟩ := @say_total env c rt freq hs (.unhandledSyscall c.sysNum)
    dsimp only
    rw [hsay]
    exact ⟨_, rfl⟩
  | some num =>
    rw [hnum] at hsane
    cases num with
    | writev => exact outcome_total (sysWritev_total hs hclock hsane)
    | ppoll => exact outcome_total (sysPpoll_total hs.timer hlt64 hsane)
    | clockNanosleep => exact outcome_total (sysClockNanosleep_total hs.timer hlt64 hsane.1 hsane.2)
    | ioctl => exact outcome_total (sysIoctl_total hs hi hlt hsane)
    | openat => exact outcome_total (sysOpenat_total hs hsane)
    | close => exact outcome_total (sysClose_total hs _)
    | brk => exact outcome_total (sysMem_total hs hi hlt ⟨c.arg_lt 0, trivial⟩)
    | mmap => exact outcome_total (sysMem_total hs hi hlt (c.mmap_allowed rt.mem))
    | munmap => exact outcome_total (sysMem_total hs hi hlt (hc.munmap hnum))
    | setTidAddress => exact ⟨_, rfl⟩
    | tkill =>
      dsimp only
      split
      · exact exitLoop_total hs 1
      · exact ⟨_, rfl⟩
    | exit | exitGroup => exact exitLoop_total hs _

/-- **A sane call asks the allocator for nothing, or for something allowed.** -/
theorem aarch64DoSyscall_mem {o : Outcome} (hc : c.Sane env rt) (h : rt.aarch64DoSyscall env c = .ok o) :
    o.rt.mem = rt.mem ∨ ∃ op, Op.Allowed rt.mem op ∧ rt.mem.step op = .ok o.rt.mem := by
  by_cases hmem : .memory ∈ c.touches rt
  swap
  · exact .inl ((aarch64DoSyscall_changes h).kept (p := .memory) hmem)
  right
  have hsane := hc
  unfold Call.Sane at hsane
  unfold Call.touches at hmem
  unfold Runtime.aarch64DoSyscall at h
  cases hnum : sysNumOf c.sysNum with
  | none =>
    rw [hnum] at hmem
    cases hmem
  | some num =>
    rw [hnum] at hmem h hsane
    cases num
    case brk =>
      obtain ⟨a, ha, rfl⟩ := outcome_map h
      exact ⟨.brk (c.arg 0), ⟨c.arg_lt 0, trivial⟩, sysMem_step ha⟩
    case mmap =>
      obtain ⟨a, ha, rfl⟩ := outcome_map h
      exact ⟨_, c.mmap_allowed rt.mem, sysMem_step ha⟩
    case munmap =>
      obtain ⟨a, ha, rfl⟩ := outcome_map h
      exact ⟨_, hc.munmap hnum, sysMem_step ha⟩
    case ioctl =>
      obtain ⟨a, ha, rfl⟩ := outcome_map h
      obtain ⟨f, hf, hpart⟩ := mem_fdParts hmem
      obtain ⟨r, hr, ha⟩ := bind_eq_ok.1 ha
      obtain rfl := Except.ok.inj (hf.symm.trans hr)
      have hioctl := hsane f hf
      cases f
      case memFile =>
        obtain ⟨req, hreq, hop⟩ := hioctl
        obtain ⟨req', hreq', ha⟩ := bind_eq_ok.1 ha
        obtain rfl := Except.ok.inj (hreq.symm.trans hreq')
        obtain ⟨r, hr, ha⟩ := bind_eq_ok.1 ha
        obtain rfl := Except.ok.inj ha
        exact ⟨_, hop, memRequest_step hr⟩
      all_goals simp [File.parts] at hpart
    all_goals simp at hmem

end Progress

/-! ## Runs -/

/-- A machine as the runtime expects it: the fields fit their types, the heap is below 2^43 bytes, and the counter can
be told as a time. -/
structure BootData.Plausible (env : Env) (d : BootData) : Prop where
  cntfrq : d.cntfrq < 4294967296
  appHeapIpa : d.appHeapIpa < 18446744073709551616
  appHeapSize : d.appHeapSize < 8796093022208
  clock : ∀ k, env.clock k < 18446744073709551616 ∧ Convertible d.cntfrq (env.clock k)

section Runs

variable {env : Env} {d : BootData} {rt : Runtime} {h : History}

/-- The allocator after the boot. -/
theorem boot_mem (hboot : Runtime.boot env d = .ok rt) : ∃ st, elfSetup d.appHeapIpa d.appHeapSize = .ok st ∧
    rt.mem = ⟨st, [⟨u64 (d.appHeapIpa + 16384), d.appHeapSize - 16384⟩], []⟩ := by
  obtain ⟨regs, -, hboot⟩ := bind_eq_ok.1 hboot
  obtain ⟨fs, -, hboot⟩ := bind_eq_ok.1 hboot
  obtain ⟨r, -, hboot⟩ := bind_eq_ok.1 hboot
  obtain ⟨st, hst, hboot⟩ := bind_eq_ok.1 hboot
  obtain rfl := Except.ok.inj hboot
  exact ⟨st, hst, rfl⟩

/-- **What the boot leaves is sound.** -/
theorem boot_sound (hd : d.Plausible env) (hboot : Runtime.boot env d = .ok rt) :
    rt.Sound d.cntfrq ∧ rt.mem.Start ∧ Lib.total rt.mem.heaps < 8796093022208 := by
  have hfs := boot_fs hboot
  obtain ⟨regs, -, hboot⟩ := bind_eq_ok.1 hboot
  obtain ⟨fs, -, hboot⟩ := bind_eq_ok.1 hboot
  obtain ⟨⟨timer, irqs⟩, htimer, hboot⟩ := bind_eq_ok.1 hboot
  obtain ⟨st, hst, hboot⟩ := bind_eq_ok.1 hboot
  obtain rfl := Except.ok.inj hboot
  have hsize := hd.appHeapSize
  refine ⟨⟨(fsInit_inv env.libc hfs).ok, ⟨by simp, by simp⟩, earlyLogBuf_ok, timerInit_accepted hd.cntfrq htimer,
    timerInit_freq htimer⟩, ?_, ?_⟩
  · exact ⟨d.appHeapIpa, d.appHeapSize, st, hd.appHeapIpa, by omega, hst, rfl⟩
  · rw [Lib.total_cons, Lib.total_nil]
    dsimp only
    omega

theorem Run.sane {h₀ : History} {rt₀ : Runtime} {freq : Nat} (hs : rt₀.Sound freq) (hmem : rt₀.mem.Reachable)
    (hr : Run (Call.Sane env) env h₀ rt₀ h rt) : rt.Sound freq ∧ rt.mem.Reachable := by
  induction hr with
  | refl => exact ⟨hs, hmem⟩
  | call _ hc hcall ih =>
    obtain ⟨hs, hmem⟩ := ih
    refine ⟨(aarch64DoSyscall_changes hcall).sound hs, ?_⟩
    rcases aarch64DoSyscall_mem hc hcall with hsame | ⟨op, hop, hstep⟩
    · dsimp only [Outcome.rt] at hsame
      rw [hsame]
      exact hmem
    · obtain ⟨s₀, hstart, hlt, hrun⟩ := hmem
      exact ⟨s₀, hstart, hlt, .step hrun hop hstep⟩

/-- **Sane runs are safe.** On a plausible machine, in every state that sane calls lead to: the descriptors, the prefix of
the console, the log and the timer are sound; the allocator is in a state that allowed requests lead to, so that live
mappings are apart from each other, from the metadata and from the break; and every sane call returns. -/
theorem Reached.safe (hd : d.Plausible env) (hr : Reached (Call.Sane env) env d h rt) :
    rt.Sound d.cntfrq ∧ rt.mem.Reachable ∧ rt.mem.Isolated ∧
      ∀ c, c.Sane env rt → ∃ o, rt.aarch64DoSyscall env c = .ok o := by
  obtain ⟨rt₀, hboot, hrun⟩ := hr
  obtain ⟨hs₀, hstart, hlt₀⟩ := boot_sound hd hboot
  obtain ⟨hs, hmem⟩ := hrun.sane hs₀ (hstart.reachable hlt₀)
  obtain ⟨hi, hlt⟩ := hmem.inv
  exact ⟨hs, hmem, hi.isolated, fun c hc => aarch64DoSyscall_total hs hi hlt hd.clock hc⟩

end Runs

theorem resetData_plausible : resetData.Plausible stillEnv := by
  refine ⟨by decide, by decide, by decide, fun k => ⟨?_, .inl ?_⟩⟩
  · show (0 : Nat) < 18446744073709551616
    decide
  · show (0 : Nat) < 9223372036854775808
    decide

/-- `mmap(NULL, 8192, PROT_READ | PROT_WRITE, MAP_ANONYMOUS | MAP_PRIVATE, -1, 0)`, and the `munmap` of what it returns
first. -/
def mapTwoPages : Call := .plain 222 #v[0, 8192, 3, 34, 0xffffffffffffffff, 0] tenSeconds
def unmapTwoPages : Call := .plain 215 #v[139264, 8192, 0, 0, 0, 0] tenSeconds

/-- While the allocator is as the boot leaves it, two pages are mapped at the top of the break. -/
theorem mapTwoPages_maps {rt₀ rt : Runtime} (hboot : Runtime.boot stillEnv resetData = .ok rt₀)
    (hmem : rt.mem = rt₀.mem) (hs : rt.Sound 19200000) :
    ∃ rt', rt.aarch64DoSyscall stillEnv mapTwoPages = .ok (.returned 139264 [] rt') ∧
      rt'.mem.heaps = [⟨81920, 65536⟩] ∧ rt'.mem.live = [⟨139264, 8192⟩] := by
  obtain ⟨-, hstart, hlt⟩ := boot_sound resetData_plausible hboot
  obtain ⟨hi, -⟩ := (hstart.reachable hlt).inv
  obtain ⟨st, hsetup, hbooted⟩ := boot_mem hboot
  rw [hbooted] at hmem hi hlt
  have hret : (elfSetup 65536 81920 >>= fun st => Prod.fst <$> st.request (.mmap 0 8192 3 34 (-1) 0)) = .ok 139264 := by
    decide +kernel
  change elfSetup 65536 81920 = .ok st at hsetup
  rw [hsetup, ok_bind] at hret
  rw [← hmem] at hi hlt
  obtain ⟨a, ha⟩ := @sysMem_total stillEnv mapTwoPages rt _ hs hi hlt _ (mapTwoPages.mmap_allowed rt.mem)
  have hcall : rt.aarch64DoSyscall stillEnv mapTwoPages = .ok a.outcome := by
    show Answer.outcome <$> rt.sysMem stillEnv mapTwoPages _ = _
    rw [ha]
    rfl
  obtain ⟨q, hq, ha⟩ := bind_eq_ok.1 ha
  obtain rfl := Except.ok.inj ha
  obtain ⟨r, hr, hq⟩ := bind_eq_ok.1 hq
  obtain ⟨said, -, hq⟩ := bind_eq_ok.1 hq
  obtain rfl := Except.ok.inj hq
  rw [hmem] at hr
  change st.request (.mmap 0 8192 3 34 (-1) 0) = .ok r at hr
  rw [hr] at hret
  obtain ⟨ret, stats, st'⟩ := r
  obtain rfl : ret = 139264 := Except.ok.inj hret
  refine ⟨_, hcall, ?_, ?_⟩
  · dsimp only
    rw [hmem]
    rfl
  · dsimp only
    rw [hmem]
    rfl

/-- The exit device is opened, a function registered and two pages mapped; then their unmapping is sane, and returns. -/
theorem Reached.safe_mapped : ∃ rt, Reached (Call.Sane stillEnv) stillEnv resetData
    [(mapTwoPages, 139264), (registerExit, 0), (openExit, 3)] rt ∧ rt.mem.live = [⟨139264, 8192⟩] ∧
    rt.Sound 19200000 ∧ rt.mem.Isolated ∧ ∃ o, rt.aarch64DoSyscall stillEnv unmapTwoPages = .ok o := by
  obtain ⟨rt₀, rt₁, hboot, hopened, hmem, hfunc, hioctl⟩ := exists_exitOpened
  have hregistered := registerExit_registers hfunc hioctl
  have hopen : openExit.Sane stillEnv rt₀ := ⟨PLATFORM_EXIT_DEV_PATH, rfl⟩
  have hregister : registerExit.Sane stillEnv rt₁ := by
    intro f hf
    obtain rfl := FsCall.handler.inj (Except.ok.inj (hioctl.symm.trans hf))
    intro hcmd
    exact ⟨72340172838076673, by decide⟩
  obtain ⟨hs₀, hstart, hlt⟩ := boot_sound resetData_plausible hboot
  have hrun : Run (Call.Sane stillEnv) stillEnv [] rt₀ _ _ := .call (.call .refl hopen hopened) hregister hregistered
  obtain ⟨hs, -⟩ := hrun.sane hs₀ (hstart.reachable hlt)
  obtain ⟨rt, hcall, hheaps, hlive⟩ := @mapTwoPages_maps rt₀ { rt₁ with exitFunc := 72340172838076673 } hboot hmem hs
  have hmap : mapTwoPages.Sane stillEnv { rt₁ with exitFunc := 72340172838076673 } := by
    unfold Call.Sane
    trivial
  have hr : Reached (Call.Sane stillEnv) stillEnv resetData _ rt := ⟨rt₀, hboot, .call hrun hmap hcall⟩
  obtain ⟨hs, -, hisolated, hreturns⟩ := hr.safe resetData_plausible
  have hunmap : unmapTwoPages.Sane stillEnv rt := by
    show rt.mem.Unmappable ⟨139264, 8192⟩
    refine ⟨by decide, by decide, ⟨⟨81920, 65536⟩, ?_, by decide⟩, fun x hx => ⟨⟨139264, 8192⟩, ?_, hx⟩⟩
    · rw [hheaps]
      exact List.mem_cons_self
    · rw [hlive]
      exact List.mem_cons_self
  exact ⟨rt, hr, hlive, hs, hisolated, hreturns _ hunmap⟩

end GunyahRuntime
