/-
# GunyahRuntime.SyscallReports -- what the runtime says of a call

The runtime talks of its own accord when it is asked for what it does not have: a break outside the heap, a mapping it
does not support, memory that is out, a command of the tty or a number that is not known, and of every exit. Which
messages a call gives rise to is decided by the call and by what came before it (`Call.messages`), for the history gives
the arena and the files of the descriptors. `Reached.call_reports` says that these messages are sent whole, each once and in
order, and nothing else with them.
-/
import GunyahRuntime.SyscallMemory

namespace GunyahRuntime

/-! ## The messages of a call -/

/-- The messages of a request. -/
def Arena.messages (a : Arena) : Op → List Message
  | .brk brk => if a.Fits brk ∨ brk = 0 then [] else [.invalidBrk (UInt64.ofNat brk)]
  | .mmap addr len prot flags fd off =>
    if mmapArgsOk addr len prot flags fd off then
      if len ≤ Lib.total a.heaps ∧ (a.map len).1.ret = -ENOMEM then
        [.outOfMemory (UInt64.ofNat len) (UInt64.ofNat (Lib.total a.heaps)) (UInt64.ofNat (Lib.total a.live))]
      else []
    else
      [.mmapInvalid (UInt64.ofNat addr) (UInt64.ofNat len) (UInt64.ofNat prot) (UInt64.ofNat flags),
        .mmapInvalidRest (UInt64.ofInt fd) (UInt64.ofNat off)]
  | _ => []

/-- The messages of a call, from what descriptors stand for and the arena. A write has none. -/
def Call.messages (c : Call) (file : Nat → Option File) (a : Arena) : List Message :=
  match c.request file with
  | some op => a.messages op
  | none =>
    match sysNumOf c.sysNum with
    | none => [.unhandledSyscall c.sysNum]
    | some .exit | some .exitGroup => [.exitCalled]
    | some .tkill => if c.argInt 0 = APP_TID then [.exitCalled] else []
    | some .ioctl =>
      if (file (c.arg32 0) = some .ttyin ∨ file (c.arg32 0) = some .ttyout) ∧ c.arg32 1 ≠ TIOCGWINSZ ∧
          c.arg32 1 ≠ TIOCSETBUF then
        [.invalidTtyIoctl (UInt64.ofNat (c.arg32 1))]
      else []
    | _ => []

/-- The allocator says what the arena says. -/
theorem Sys.Shows.messages {s : Sys} {a : Arena} (hs : s.Shows a) {op : Op} (hop : op.Typed) :
    s.st.messages (a.step op).1.ret op = a.messages op := by
  cases op with
  | brk x =>
    have hfits := hs.brk_fits hop
    unfold MmapState.messages Arena.messages
    by_cases hnew : a.Fits x
    · simp only [if_pos (hfits.2 hnew), hnew, true_or, if_true]
    · simp only [if_neg (mt hfits.1 hnew), hnew, false_or, ite_not]
  | mmap addr len prot flags fd off =>
    have htotal := hs.inv.totalSize
    have halloc := hs.inv.allocSize
    rw [hs.heaps] at htotal
    rw [hs.live] at halloc
    by_cases hargs : mmapArgsOk addr len prot flags fd off = true
    · have hstep : a.step (.mmap addr len prot flags fd off) = a.map len := if_pos hargs
      rw [hstep]
      unfold MmapState.messages Arena.messages
      dsimp only
      rw [if_pos hargs, if_pos hargs, htotal, halloc]
      by_cases hbig : len > Lib.total a.heaps
      · rw [if_pos hbig, if_neg fun h => absurd h.1 (not_le.2 hbig)]
      · rw [if_neg hbig]
        simp only [not_lt.1 hbig, true_and]
    · unfold MmapState.messages Arena.messages
      dsimp only
      rw [if_neg hargs, if_neg hargs]
  | _ => rfl

/-! ## One call -/

section Step

variable {env : Env} {c : Call} {rt : Runtime} {a : Arena}

theorem memRequest_reports (hlog : rt.tty.log.Ok) (hs : rt.mem.Shows a) {op : Op} (hop : op.Allowed rt.mem)
    {r : Int × Option AllocatorStats × Runtime} (h : rt.memRequest env c op = .ok r) :
    Reports (a.messages op) rt r.2.2 := by
  obtain ⟨st', hreq, -⟩ := hs.request (hop.allows hs)
  unfold Runtime.memRequest at h
  rw [hreq, ok_bind] at h
  obtain ⟨said, hsaid, h⟩ := bind_eq_ok.1 h
  obtain rfl := Except.ok.inj h
  dsimp only at hsaid
  rw [hs.messages hop.1] at hsaid
  exact (sayAll_reports hlog hsaid).then rfl

theorem sysMem_reports (hlog : rt.tty.log.Ok) (hs : rt.mem.Shows a) (hc : c.RequestAllowed rt) {op : Op}
    (hrequest : c.request rt.fs.fileAt = some op) {o : Outcome} (h : Answer.outcome <$> rt.sysMem env c op = .ok o) :
    Reports (c.messages rt.fs.fileAt a) rt o.rt := by
  obtain ⟨ans, hans, rfl⟩ := outcome_map h
  obtain ⟨r, hr, hans⟩ := bind_eq_ok.1 hans
  obtain rfl := Except.ok.inj hans
  unfold Call.messages
  rw [hrequest]
  exact memRequest_reports hlog hs (hc op hrequest) hr

theorem exitLoop_reports (hlog : rt.tty.log.Ok) {ec : Int} {o : Outcome} (h : rt.exitLoop env c ec = .ok o) :
    Reports [.exitCalled] rt o.rt := by
  obtain ⟨said, hsay, h⟩ := bind_eq_ok.1 h
  obtain rfl := Except.ok.inj h
  exact (say_reports hlog hsay).1.then rfl

theorem File.has_ioctl (f : File) : f.ops.ioctl = true := by cases f <;> rfl

/-- What an ioctl on something else than the memory device says. -/
theorem messages_ioctl {file : Nat → Option File} (hnum : sysNumOf c.sysNum = some .ioctl)
    (hfile : file (c.arg32 0) ≠ some .memFile) :
    c.messages file a =
      if (file (c.arg32 0) = some .ttyin ∨ file (c.arg32 0) = some .ttyout) ∧ c.arg32 1 ≠ TIOCGWINSZ ∧
          c.arg32 1 ≠ TIOCSETBUF then [.invalidTtyIoctl (UInt64.ofNat (c.arg32 1))] else [] := by
  have hrequest : c.request file = none := by
    unfold Call.request
    rw [hnum]
    exact if_neg hfile
  unfold Call.messages
  rw [hrequest, hnum]

theorem messages_plain {file : Nat → Option File} {num : SysNum} (hnum : sysNumOf c.sysNum = some num)
    (hplain : num = .ppoll ∨ num = .clockNanosleep ∨ num = .openat ∨ num = .close ∨ num = .setTidAddress) :
    c.messages file a = [] := by
  unfold Call.messages Call.request
  rw [hnum]
  rcases hplain with rfl | rfl | rfl | rfl | rfl <;> rfl

theorem sysIoctl_reports (hlog : rt.tty.log.Ok) (hs : rt.mem.Shows a) (hc : c.RequestAllowed rt)
    (hnum : sysNumOf c.sysNum = some .ioctl) {o : Outcome} (hcall : rt.aarch64DoSyscall env c = .ok o) :
    Reports (c.messages rt.fs.fileAt a) rt o.rt := by
  cases hfile : rt.fs.fileAt (c.arg32 0) with
  | none =>
    -- no handler is called
    rw [messages_ioctl hnum (by rw [hfile]; simp), hfile, if_neg (by simp)]
    unfold Runtime.aarch64DoSyscall at hcall
    rw [hnum] at hcall
    obtain ⟨ans, hans, rfl⟩ := outcome_map hcall
    obtain ⟨r, hr, hans⟩ := bind_eq_ok.1 hans
    cases r with
    | returned ret =>
      obtain rfl := Except.ok.inj hans
      exact .same rfl
    | handler f =>
      rw [sysIoctl_fileAt hr] at hfile
      cases hfile
  | some f =>
    have hioctl := sysIoctl_of_fileAt hfile f.has_ioctl
    by_cases hmem : f = .memFile
    · subst hmem
      obtain ⟨req, r, hreq, hr, rfl⟩ := memFile_call hnum hioctl hcall
      have hrequest := request_memFile hnum hfile hreq
      unfold Call.messages
      rw [hrequest]
      exact memRequest_reports hlog hs (hc _ hrequest) hr
    rw [messages_ioctl hnum (by rw [hfile]; simpa using hmem), hfile]
    unfold Runtime.aarch64DoSyscall at hcall
    rw [hnum] at hcall
    obtain ⟨ans, hans, rfl⟩ := outcome_map hcall
    unfold Runtime.sysIoctl at hans
    rw [hioctl, ok_bind] at hans
    cases f with
    | ttyin | ttyout =>
      show Reports _ rt ans.rt
      simpa using ttyIoctl_reports hlog hans
    | irqFile => exact irqIoctl_quiet hans
    | consoleFile => exact consoleIoctl_quiet hans
    | exitFile => exact exitIoctl_quiet hans
    | memFile => exact absurd rfl hmem

/-- **A call says its messages**, and no others: the log gets them whole and in order, and the console if there is one. -/
theorem aarch64DoSyscall_reports (hlog : rt.tty.log.Ok) (hs : rt.mem.Shows a) (hc : c.RequestAllowed rt)
    (hwrite : sysNumOf c.sysNum ≠ some .writev) {o : Outcome} (hcall : rt.aarch64DoSyscall env c = .ok o) :
    Reports (c.messages rt.fs.fileAt a) rt o.rt := by
  by_cases hioctl : sysNumOf c.sysNum = some .ioctl
  · exact sysIoctl_reports hlog hs hc hioctl hcall
  have hreports := hcall
  unfold Runtime.aarch64DoSyscall at hreports
  cases hnum : sysNumOf c.sysNum with
  | none =>
    rw [hnum] at hreports
    obtain ⟨said, hsay, hreports⟩ := bind_eq_ok.1 hreports
    obtain rfl := Except.ok.inj hreports
    have hmessages : c.messages rt.fs.fileAt a = [.unhandledSyscall c.sysNum] := by
      unfold Call.messages Call.request
      rw [hnum]
    rw [hmessages]
    exact (say_reports hlog hsay).1
  | some num =>
    rw [hnum] at hreports hwrite hioctl
    have hquiet {x : Exec Answer} (hplain : c.messages rt.fs.fileAt a = []) (hx : Answer.outcome <$> x = .ok o)
        (hq : ∀ ans, x = .ok ans → Reports [] rt ans.rt) : Reports (c.messages rt.fs.fileAt a) rt o.rt := by
      obtain ⟨ans, hans, rfl⟩ := outcome_map hx
      rw [hplain]
      exact hq ans hans
    cases num
    case writev => exact absurd rfl hwrite
    case ioctl => exact absurd rfl hioctl
    case ppoll => exact hquiet (messages_plain hnum (by simp)) hreports fun _ => waits_quiet
    case clockNanosleep => exact hquiet (messages_plain hnum (by simp)) hreports fun _ => waits_quiet
    case openat => exact hquiet (messages_plain hnum (by simp)) hreports fun _ => sysOpenat_quiet
    case close => exact hquiet (messages_plain hnum (by simp)) hreports fun _ => sysClose_quiet
    case setTidAddress =>
      obtain rfl := Except.ok.inj hreports
      rw [messages_plain hnum (by simp)]
      exact .same rfl
    case brk | mmap | munmap =>
      refine sysMem_reports hlog hs hc ?_ hreports
      unfold Call.request
      rw [hnum]
    case tkill =>
      have hmessages : c.messages rt.fs.fileAt a = if c.argInt 0 = APP_TID then [.exitCalled] else [] := by
        unfold Call.messages Call.request
        rw [hnum]
      dsimp only at hreports
      rw [hmessages]
      split at hreports
      · next htid =>
        rw [if_pos htid]
        exact exitLoop_reports hlog hreports
      · next htid =>
        obtain rfl := Except.ok.inj hreports
        rw [if_neg htid]
        exact .same rfl
    case exit | exitGroup =>
      have hmessages : c.messages rt.fs.fileAt a = [.exitCalled] := by
        unfold Call.messages Call.request
        rw [hnum]
      rw [hmessages]
      exact exitLoop_reports hlog hreports

end Step

/-! ## Runs -/

/-- **The runtime reports what the history says.** In every state after the boot and a run of calls whose requests are
allowed, writes to the tty among them, a call that is no write adds to the log the messages that the call gives rise to
by the arena and the files of the history: all of them whole and in order, to the console too if there is one, and
nothing else. -/
theorem Reached.call_reports {env : Env} {d : BootData} {rt : Runtime} {h : History} (hsize : d.appHeapSize < 8796093022208)
    (hr : Reached Call.RequestAllowed env d h rt) {c : Call} (hc : c.RequestAllowed rt)
    (hwrite : sysNumOf c.sysNum ≠ some .writev) {o : Outcome} (hcall : rt.aarch64DoSyscall env c = .ok o) :
    Reports (c.messages (heldFile h) ((Arena.start d.heap).after h)) rt o.rt := by
  rw [← hr.holds.fileAt]
  exact aarch64DoSyscall_reports hr.log_ok (hr.shows hsize) hc hwrite hcall

/-- Two pages are mapped, and there is no memory for fifteen: the message has the size of the heap and what is mapped. -/
theorem Reached.call_reports_outOfMemory : ∃ rt o,
    Reached Call.RequestAllowed stillEnv resetData [(mapTwoPages, 139264)] rt ∧
    rt.aarch64DoSyscall stillEnv mapFifteenPages = .ok o ∧
    o.rt.tty.logged = rt.tty.logged ++ (Message.outOfMemory 61440 65536 8192).text := by
  obtain ⟨rt, o, hr, ho⟩ := exists_mapped_answer
  have hwrite : sysNumOf mapFifteenPages.sysNum ≠ some .writev := by decide
  have hreports := Reached.call_reports (by decide) hr (requestAllowed_mmap (by decide) rt) hwrite ho
  have hmessages : mapFifteenPages.messages (heldFile [(mapTwoPages, 139264)])
      ((Arena.start resetData.heap).after [(mapTwoPages, 139264)]) = [.outOfMemory 61440 65536 8192] := by
    show ((Arena.start resetData.heap).step (.mmap 0 8192 3 34 (-1) 0)).2.messages (.mmap 0 61440 3 34 (-1) 0) = _
    have hargs : mmapArgsOk 0 61440 3 34 (-1) 0 = true := by decide
    have hnone : 61440 ≤ Lib.total ((Arena.start resetData.heap).step (.mmap 0 8192 3 34 (-1) 0)).2.heaps ∧
        (((Arena.start resetData.heap).step (.mmap 0 8192 3 34 (-1) 0)).2.map 61440).1.ret = -ENOMEM := by
      decide +kernel
    have hheaps : Lib.total ((Arena.start resetData.heap).step (.mmap 0 8192 3 34 (-1) 0)).2.heaps = 65536 := by
      decide +kernel
    have hlive : Lib.total ((Arena.start resetData.heap).step (.mmap 0 8192 3 34 (-1) 0)).2.live = 8192 := by
      decide +kernel
    unfold Arena.messages
    dsimp only
    rw [if_pos hargs, if_pos hnone, hheaps, hlive]
    rfl
  have hlogged := hreports.logged
  rw [hmessages] at hlogged
  exact ⟨rt, o, hr, ho, hlogged.trans (by simp)⟩

end GunyahRuntime
