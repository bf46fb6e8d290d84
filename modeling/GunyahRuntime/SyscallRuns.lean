/-
# GunyahRuntime.SyscallRuns -- runs of system calls

A run is a sequence of calls from the state that the initialisation leaves, each with its own arguments, memory and
surroundings. The history keeps the calls and what the registers held after them: what the application knows.

From the history alone one can say which device a descriptor stands for (`heldFile`), and `Reached.device_changed` uses it:
a device changes only when it is called through a descriptor that was opened for it and not closed since.
-/
import GunyahRuntime.SyscallErrors

namespace GunyahRuntime

open Lib (lastN)

/-- The calls of a run that returned, the last first, with what the register held. -/
abbrev History : Type := List (Call × UInt64)

/-- Runs of calls of a kind. -/
inductive Run (ok : Runtime → Call → Prop) (env : Env) (h₀ : History) (rt₀ : Runtime) : History → Runtime → Prop
  | refl : Run ok env h₀ rt₀ h₀ rt₀
  | call {h : History} {rt rt' : Runtime} {c : Call} {x0 : UInt64} {stores : List Store} :
      Run ok env h₀ rt₀ h rt → ok rt c → rt.aarch64DoSyscall env c = .ok (.returned x0 stores rt') →
      Run ok env h₀ rt₀ ((c, x0) :: h) rt'

/-- The states after the boot and a run of calls of a kind. -/
def Reached (ok : Runtime → Call → Prop) (env : Env) (d : BootData) (h : History) (rt : Runtime) : Prop :=
  ∃ rt₀, Runtime.boot env d = .ok rt₀ ∧ Run ok env [] rt₀ h rt

/-! ## What descriptors stand for -/

/-- The file that a call has opened as a descriptor. -/
def Call.opens (c : Call) (x0 : UInt64) (fd : Nat) : Option File :=
  if sysNumOf c.sysNum = some .openat ∧ ¬ failed x0 ∧ x0.toNat = fd then
    match c.mem.string (c.arg 1) with
    | .ok pathname => fileOf pathname
    | .error _ => none
  else none

/-- The call has closed a descriptor. -/
def Call.closes (c : Call) (x0 : UInt64) (fd : Nat) : Prop :=
  sysNumOf c.sysNum = some .close ∧ x0 = 0 ∧ c.arg32 0 = fd

instance (c : Call) (x0 : UInt64) (fd : Nat) : Decidable (c.closes x0 fd) :=
  inferInstanceAs (Decidable (_ ∧ _ ∧ _))

/-- Standard input, output and error. -/
def standardFile (fd : Nat) : Option File :=
  if fd = STDIN_FILENO then some .ttyin
  else if fd = STDOUT_FILENO ∨ fd = STDERR_FILENO then some .ttyout
  else none

/-- What a descriptor stands for, from the history. -/
def heldFile : History → Nat → Option File
  | [], fd => standardFile fd
  | (c, x0) :: h, fd =>
    if (c.opens x0 fd).isSome then c.opens x0 fd
    else if c.closes x0 fd then none
    else heldFile h fd

/-- The file of a descriptor. -/
def FsState.fileAt (s : FsState) (fd : Nat) : Option File := (fsLookupFile s fd).bind FileP.file

/-- The tables agree with each other and with the history. -/
structure Holds (h : History) (s : FsState) : Prop where
  ok : s.Ok
  files : ∀ fd, s.fileAt fd = heldFile h fd

theorem FsState.isOpen_iff_fileAt {s : FsState} {fd : Nat} : s.isOpen fd ↔ (s.fileAt fd).isSome := by
  unfold FsState.isOpen FsState.fileAt
  cases hlookup : fsLookupFile s fd with
  | none => exact Iff.rfl
  | some fp =>
    obtain ⟨-, -, hfile⟩ := fsLookupFile_eq_some.1 hlookup
    exact iff_of_true rfl hfile

section Tables

variable {s s' : FsState} {fd : Nat}

theorem Replaces.fileAt_self {fp : FileP} (hr : Replaces s s' fd (some fp)) : s'.fileAt fd = fp.file := by
  unfold FsState.fileAt
  rw [hr.self]
  rfl

theorem Replaces.fileAt_none (hr : Replaces s s' fd none) : s'.fileAt fd = none := by
  unfold FsState.fileAt
  rw [hr.self]
  rfl

theorem Replaces.fileAt_others {fp : Option FileP} (hr : Replaces s s' fd fp) {j : Nat} (hj : j ≠ fd) :
    s'.fileAt j = s.fileAt j := by
  unfold FsState.fileAt
  rw [hr.others j hj]

end Tables

/-- After `fs_init`. -/
theorem fsInit_holds {s : FsState} (h : fsInit FsState.boot = .ok s) : Holds [] s := by
  have hok := (fsInit_inv usualFcntl h).ok
  refine ⟨hok, fun fd => ?_⟩
  have hsmall : ∀ fd < NUM_FDS, (FsState.fileAt <$> fsInit FsState.boot).map (· fd) = .ok (standardFile fd) := by
    decide +kernel
  by_cases hfd : fd < NUM_FDS
  · have hat := hsmall fd hfd
    rw [h] at hat
    exact Except.ok.inj hat
  · have hclosed : ¬ s.isOpen fd := fun hopen => hfd (FsState.isOpen_lt hopen)
    rw [FsState.isOpen_iff_fileAt, Option.not_isSome_iff_eq_none] at hclosed
    rw [hclosed]
    unfold NUM_FDS at hfd
    unfold heldFile standardFile STDIN_FILENO STDOUT_FILENO STDERR_FILENO
    rw [if_neg (by omega), if_neg (by omega)]

/-! ## One call -/

section Step

variable {env : Env} {c : Call} {rt rt' : Runtime} {h : History} {x0 : UInt64} {stores : List Store}

/-- An open fails and changes nothing, or puts the file of its path where no file was. -/
theorem sysOpenat_opened {libc : Fcntl} {s s' : FsState} (hs : s.Ok) {dirfd : Int} {pathname : CString}
    {flags mode : BitVec 32} {ret : Int} (h : sysOpenat libc s dirfd pathname flags mode = .ok (ret, s')) :
    (Fails ret ∧ s' = s) ∨ ∃ fd fp, ret = (fd : Nat) ∧ fd < NUM_FDS ∧ fp.file.isSome ∧
      fp.file = fileOf pathname ∧ Replaces s s' fd (some fp) := by
  unfold sysOpenat at h
  split at h
  · obtain ⟨rfl, rfl⟩ := Prod.mk.inj (Except.ok.inj h)
    exact .inl ⟨by decide, rfl⟩
  split at h
  · obtain ⟨rfl, rfl⟩ := Prod.mk.inj (Except.ok.inj h)
    exact .inl ⟨by decide, rfl⟩
  split at h
  · obtain ⟨rfl, rfl⟩ := Prod.mk.inj (Except.ok.inj h)
    exact .inl ⟨by decide, rfl⟩
  · next f hfile =>
    rcases fsAllocFd_spec libc hs f flags with ⟨hfull, -⟩ | ⟨fd, hfd, s₁, hopened, -, -, hrep, -⟩
    · rw [hfull] at h
      obtain ⟨rfl, rfl⟩ := Prod.mk.inj (Except.ok.inj h)
      exact .inl ⟨by decide, rfl⟩
    · rw [hopened] at h
      obtain ⟨rfl, rfl⟩ := Prod.mk.inj (Except.ok.inj h)
      exact .inr ⟨fd, _, rfl, hfd, rfl, hfile.symm, hrep⟩

/-- A call that opens and closes nothing. -/
theorem Holds.keep (hh : Holds h rt.fs) (hfs : rt'.fs = rt.fs) (hopens : ∀ fd, c.opens x0 fd = none)
    (hcloses : ∀ fd, ¬ c.closes x0 fd) : Holds ((c, x0) :: h) rt'.fs := by
  rw [hfs]
  refine ⟨hh.ok, fun fd => ?_⟩
  rw [hh.files, heldFile, hopens, Option.isSome_none, if_neg (by decide), if_neg (hcloses fd)]

theorem opens_of_ne (hnum : sysNumOf c.sysNum ≠ some .openat) (x0 : UInt64) (fd : Nat) : c.opens x0 fd = none :=
  if_neg fun ho => hnum ho.1

theorem closes_of_ne (hnum : sysNumOf c.sysNum ≠ some .close) (x0 : UInt64) (fd : Nat) : ¬ c.closes x0 fd :=
  fun hc => hnum hc.1

theorem toNat_ofInt_lt {n : Nat} (hn : n < NUM_FDS) : (UInt64.ofInt n).toNat = n := by
  unfold NUM_FDS at hn
  unfold UInt64.ofInt
  rw [UInt64.toNat_ofNat']
  omega

theorem Holds.openat (hh : Holds h rt.fs) (hnum : sysNumOf c.sysNum = some .openat)
    (hcall : rt.aarch64DoSyscall env c = .ok (.returned x0 stores rt')) : Holds ((c, x0) :: h) rt'.fs := by
  have hcloses : ∀ fd, ¬ c.closes x0 fd := closes_of_ne (by rw [hnum]; simp) x0
  unfold Runtime.aarch64DoSyscall at hcall
  rw [hnum] at hcall
  obtain ⟨ret, ha, rfl⟩ := returned_map hcall
  by_cases hf : Fails ret
  · -- what is refused gives no descriptor
    refine hh.keep ((sysOpenat_spares ha hf).1.kept (p := .descriptors) List.not_mem_nil) (fun fd => if_neg fun ho => ?_) hcloses
    exact ho.2.1 (failed_ofInt.2 hf)
  unfold Runtime.sysOpenat at ha
  split at ha
  · obtain ⟨rfl, -⟩ := Answer.mk.inj (Except.ok.inj ha)
    exact absurd (by decide) hf
  obtain ⟨pathname, hpath, ha⟩ := bind_eq_ok.1 ha
  obtain ⟨⟨ret', fs⟩, hopen, ha⟩ := bind_eq_ok.1 ha
  obtain ⟨rfl, rfl, rfl⟩ := Answer.mk.inj (Except.ok.inj ha)
  rcases sysOpenat_opened hh.ok hopen with ⟨hf', -⟩ | ⟨fd, fp, rfl, hfd, hsome, hfile, hrep⟩
  · exact absurd hf' hf
  have hopens : ∀ j, c.opens (UInt64.ofInt (fd : Int)) j = if j = fd then fp.file else none := by
    intro j
    have hx0 := toNat_ofInt_lt hfd
    unfold Call.opens
    by_cases hj : j = fd
    · rw [if_pos ⟨hnum, mt failed_ofInt.1 hf, hx0.trans hj.symm⟩, hpath, if_pos hj, hfile]
    · rw [if_neg fun ho => hj (ho.2.2.symm.trans hx0), if_neg hj]
  refine ⟨hrep.ok, fun j => ?_⟩
  dsimp only
  rw [heldFile, hopens]
  by_cases hj : j = fd
  · rw [if_pos hj, if_pos hsome, hj, hrep.fileAt_self]
  · rw [if_neg hj, Option.isSome_none, if_neg (by decide), if_neg (hcloses j), hrep.fileAt_others hj, hh.files]

theorem Holds.close (hh : Holds h rt.fs) (hnum : sysNumOf c.sysNum = some .close)
    (hcall : rt.aarch64DoSyscall env c = .ok (.returned x0 stores rt')) : Holds ((c, x0) :: h) rt'.fs := by
  have hopens : ∀ fd, c.opens x0 fd = none := opens_of_ne (by rw [hnum]; simp) x0
  unfold Runtime.aarch64DoSyscall at hcall
  rw [hnum] at hcall
  obtain ⟨ret, ha, rfl⟩ := returned_map hcall
  obtain ⟨⟨ret', fs⟩, hclose, ha⟩ := bind_eq_ok.1 ha
  obtain ⟨rfl, rfl, rfl⟩ := Answer.mk.inj (Except.ok.inj ha)
  rcases sysClose_spec hh.ok (c.arg32 0) with ⟨hbad, -⟩ | ⟨s', hclosed, -, hrep⟩
  · rw [hbad] at hclose
    obtain ⟨rfl, rfl⟩ := Prod.mk.inj (Except.ok.inj hclose)
    have hne : UInt64.ofInt (-EBADF) ≠ 0 := by decide
    exact hh.keep rfl hopens fun fd hc => hne hc.2.1
  · rw [hclosed] at hclose
    obtain ⟨rfl, rfl⟩ := Prod.mk.inj (Except.ok.inj hclose)
    refine ⟨hrep.ok, fun j => ?_⟩
    dsimp only
    rw [heldFile, hopens, Option.isSome_none, if_neg (by decide)]
    by_cases hj : j = c.arg32 0
    · rw [if_pos ⟨hnum, rfl, hj.symm⟩, hj, hrep.fileAt_none]
    · rw [if_neg fun hc => hj hc.2.2.symm, hrep.fileAt_others hj, hh.files]

theorem sysIoctl_fileAt {s : FsState} {fd : Nat} {f : File} (hr : sysIoctl s fd = .ok (.handler f)) :
    s.fileAt fd = some f := by
  unfold sysIoctl fsCall at hr
  unfold FsState.fileAt
  cases hlookup : fsLookupFile s fd with
  | none =>
    rw [hlookup] at hr
    cases hr
  | some fp =>
    rw [hlookup] at hr
    cases hfile : fp.file with
    | none =>
      simp [hfile] at hr
    | some f' =>
      simp only [hfile, not_true_eq_false, if_false] at hr
      split at hr
      · obtain rfl := FsCall.handler.inj (Except.ok.inj hr)
        exact hfile
      · cases hr

theorem sysIoctl_of_fileAt {s : FsState} {fd : Nat} {f : File} (h : s.fileAt fd = some f) (hops : f.ops.ioctl = true) :
    sysIoctl s fd = .ok (.handler f) := by
  unfold FsState.fileAt at h
  obtain ⟨fp, hlookup, hfile⟩ := Option.bind_eq_some_iff.1 h
  unfold sysIoctl fsCall
  simp [hlookup, hfile, hops]

/-- The parts that only a device has. -/
def Part.OfDevice (p : Part) : Prop := p = .console ∨ p = .exit

/-- What an ioctl may touch belongs to a device, the controller or the allocator. -/
theorem File.parts_subset (f : File) (cmd : Nat) :
    f.parts cmd ⊆ [.memory, .console, .interrupts, .exit, .buffer] := by
  cases f
  case ttyin | ttyout =>
    unfold File.parts
    dsimp only
    split <;> simp
  all_goals simp [File.parts]

theorem mem_fdParts {fd cmd : Nat} {p : Part} (hp : p ∈ fdParts rt fd cmd) :
    ∃ f, sysIoctl rt.fs fd = .ok (.handler f) ∧ p ∈ f.parts cmd := by
  unfold fdParts at hp
  split at hp
  · next f hf => exact ⟨f, hf, hp⟩
  · cases hp

/-- The descriptors are touched by opens and closes. -/
theorem descriptors_touched (hp : .descriptors ∈ c.touches rt) :
    sysNumOf c.sysNum = some .openat ∨ sysNumOf c.sysNum = some .close := by
  unfold Call.touches at hp
  cases hnum : sysNumOf c.sysNum with
  | none =>
    rw [hnum] at hp
    cases hp
  | some num =>
    rw [hnum] at hp
    cases num
    case openat => exact .inl rfl
    case close => exact .inr rfl
    case ioctl =>
      obtain ⟨f, -, hf⟩ := mem_fdParts hp
      exact absurd (f.parts_subset _ hf) (by decide)
    all_goals simp at hp

/-- What only a device has is touched by the ioctls of its file. -/
theorem device_touched {p : Part} (hdev : p.OfDevice) (hp : p ∈ c.touches rt) :
    sysNumOf c.sysNum = some .ioctl ∧ ∃ f, sysIoctl rt.fs (c.arg32 0) = .ok (.handler f) ∧
      p ∈ f.parts (c.arg32 1) := by
  unfold Call.touches at hp
  cases hnum : sysNumOf c.sysNum with
  | none =>
    rw [hnum] at hp
    cases hp
  | some num =>
    rw [hnum] at hp
    cases num
    case ioctl => exact ⟨rfl, mem_fdParts hp⟩
    all_goals
      rcases hdev with rfl | rfl
      all_goals simp at hp

/-- **A call keeps the tables in step with the history.** -/
theorem Holds.call (hh : Holds h rt.fs) (hcall : rt.aarch64DoSyscall env c = .ok (.returned x0 stores rt')) :
    Holds ((c, x0) :: h) rt'.fs := by
  by_cases hopen : sysNumOf c.sysNum = some .openat
  · exact hh.openat hopen hcall
  by_cases hclose : sysNumOf c.sysNum = some .close
  · exact hh.close hclose hcall
  refine hh.keep ((aarch64DoSyscall_changes hcall).kept (p := .descriptors) fun hp => ?_) (opens_of_ne hopen x0)
    (closes_of_ne hclose x0)
  exact (descriptors_touched hp).elim hopen hclose

end Step

/-! ## Runs -/

section Runs

variable {ok : Runtime → Call → Prop} {env : Env} {d : BootData} {rt : Runtime} {h : History}

theorem boot_fs (h : Runtime.boot env d = .ok rt) : fsInit FsState.boot = .ok rt.fs := by
  obtain ⟨regs, -, h⟩ := bind_eq_ok.1 h
  obtain ⟨fs, hfs, h⟩ := bind_eq_ok.1 h
  obtain ⟨r, -, h⟩ := bind_eq_ok.1 h
  obtain ⟨st, -, h⟩ := bind_eq_ok.1 h
  obtain rfl := Except.ok.inj h
  exact hfs

theorem Run.holds {h₀ : History} {rt₀ : Runtime} (hh : Holds h₀ rt₀.fs) (hr : Run ok env h₀ rt₀ h rt) :
    Holds h rt.fs := by
  induction hr with
  | refl => exact hh
  | call _ _ hcall ih => exact ih.call hcall

theorem Reached.holds (hr : Reached ok env d h rt) : Holds h rt.fs := by
  obtain ⟨rt₀, hboot, hrun⟩ := hr
  exact hrun.holds (fsInit_holds (boot_fs hboot))

/-- What the history says is held was opened in it, or is standard. -/
theorem heldFile_opened {h : History} {fd : Nat} {f : File} (hf : heldFile h fd = some f) :
    f = .ttyin ∨ f = .ttyout ∨ ∃ c x0, (c, x0) ∈ h ∧ c.opens x0 fd = some f := by
  induction h with
  | nil =>
    unfold heldFile standardFile at hf
    split at hf
    · exact .inl (Option.some.inj hf).symm
    split at hf
    · exact .inr (.inl (Option.some.inj hf).symm)
    · cases hf
  | cons e h ih =>
    obtain ⟨c, x0⟩ := e
    unfold heldFile at hf
    split at hf
    · exact .inr (.inr ⟨c, x0, List.mem_cons_self, hf⟩)
    split at hf
    · cases hf
    · rcases ih hf with hin | hout | ⟨c', x0', hmem, hopens⟩
      · exact .inl hin
      · exact .inr (.inl hout)
      · exact .inr (.inr ⟨c', x0', List.mem_cons_of_mem _ hmem, hopens⟩)

/-- **A device is changed only through a descriptor that was opened for it.** If in some state after the boot a call changes
the console or the exit function, then it is an ioctl on a descriptor which, by the calls before it, stands
for a file with that part: it was opened as the path of the device, and not closed since. -/
theorem Reached.device_changed (hr : Reached ok env d h rt) {c : Call} {o : Outcome}
    (hcall : rt.aarch64DoSyscall env c = .ok o) {p : Part} (hdev : p.OfDevice) (hchanged : ¬ p.Kept rt o.rt) :
    sysNumOf c.sysNum = some .ioctl ∧ ∃ f, heldFile h (c.arg32 0) = some f ∧ p ∈ f.parts (c.arg32 1) ∧
      ∃ c' x0', (c', x0') ∈ h ∧ c'.opens x0' (c.arg32 0) = some f := by
  have htouches : p ∈ c.touches rt := by
    by_contra hno
    exact hchanged ((aarch64DoSyscall_changes hcall).kept hno)
  obtain ⟨hnum, f, hioctl, hpart⟩ := device_touched hdev htouches
  have hheld : heldFile h (c.arg32 0) = some f := by
    rw [← hr.holds.files]
    exact sysIoctl_fileAt hioctl
  refine ⟨hnum, f, hheld, hpart, ?_⟩
  have hstandard : p ∉ File.parts (c.arg32 1) .ttyin ∧ p ∉ File.parts (c.arg32 1) .ttyout := by
    unfold File.parts
    rcases hdev with rfl | rfl
    all_goals
      dsimp only
      split <;> simp
  rcases heldFile_opened hheld with rfl | rfl | hopened
  · exact absurd hpart hstandard.1
  · exact absurd hpart hstandard.2
  · exact hopened

/-- The path of the exit device, and behind it the address of a function. -/
def exitPath : AppMem :=
  pageAt (PLATFORM_EXIT_DEV_PATH.chars ++ [0] ++ List.replicate 8 1) (by decide)

/-- `openat(AT_FDCWD, "/dev/exit", 0, 0)`, and `ioctl(3, IOCTL_REGISTER_EXIT, …)`. -/
def openExit : Call := .plain 56 #v[0xffffff9c, 4096, 0, 0, 0, 0] exitPath
def registerExit : Call := .plain 29 #v[3, UInt64.ofNat IOCTL_REGISTER_EXIT, 4106, 0, 0, 0] exitPath

/-- After the boot the exit device is opened. -/
theorem exists_exitOpened : ∃ rt₀ rt, Runtime.boot stillEnv resetData = .ok rt₀ ∧
    rt₀.aarch64DoSyscall stillEnv openExit = .ok (.returned 3 [] rt) ∧ rt.mem = rt₀.mem ∧ rt.exitFunc = 0 ∧
    sysIoctl rt.fs 3 = .ok (.handler .exitFile) := by
  obtain ⟨rt₀, hboot, hfunc⟩ := exists_booted
  have hfs := boot_fs hboot
  have hopened : (fsInit FsState.boot >>= fun s => sysOpenat usualFcntl s (-100) PLATFORM_EXIT_DEV_PATH 0 0 >>= fun r =>
      (fun q => (r.1, q)) <$> sysIoctl r.2 3) = .ok (3, .handler .exitFile) := by decide +kernel
  rw [hfs, ok_bind] at hopened
  obtain ⟨⟨ret, s⟩, hopen, hopened⟩ := bind_eq_ok.1 hopened
  cases hioctl : sysIoctl s 3 with
  | error e =>
    rw [hioctl] at hopened
    cases hopened
  | ok q =>
    rw [hioctl] at hopened
    obtain ⟨rfl, rfl⟩ := Prod.mk.inj (Except.ok.inj hopened)
    have hpath : exitPath.string 4096 = .ok PLATFORM_EXIT_DEV_PATH := by rfl
    have hrun : rt₀.sysOpenat stillEnv openExit (-100) 4096 0 0 = .ok ⟨3, [], { rt₀ with fs := s }⟩ := by
      unfold Runtime.sysOpenat
      rw [if_neg (by decide)]
      show (exitPath.string 4096 >>= _) = _
      rw [hpath, ok_bind]
      show (sysOpenat usualFcntl _ _ _ _ _ >>= _) = _
      rw [hopen]
      rfl
    have hcall : rt₀.aarch64DoSyscall stillEnv openExit = .ok (.returned 3 [] { rt₀ with fs := s }) := by
      show Answer.outcome <$> rt₀.sysOpenat stillEnv openExit (-100) 4096 0 0 = _
      rw [hrun]
      rfl
    exact ⟨rt₀, _, hboot, hcall, rfl, hfunc, hioctl⟩

/-- And a function is registered. -/
theorem registerExit_registers {rt : Runtime} (hfunc : rt.exitFunc = 0)
    (hioctl : sysIoctl rt.fs 3 = .ok (.handler .exitFile)) :
    rt.aarch64DoSyscall stillEnv registerExit = .ok (.returned 0 [] { rt with exitFunc := 72340172838076673 }) := by
  have hword : exitPath.word 4106 8 = .ok 72340172838076673 := by decide
  show Answer.outcome <$> Runtime.sysIoctl stillEnv registerExit _ 3 IOCTL_REGISTER_EXIT 4106 = _
  unfold Runtime.sysIoctl
  rw [hioctl, ok_bind]
  show Answer.outcome <$> (exitPath.word 4106 8 >>= _) = _
  rw [hword, ok_bind]
  dsimp only
  rw [hfunc]
  rfl

/-- The exit device is opened, and a function is registered. -/
theorem Reached.device_changed_exit :
    ∃ h rt f, Reached (fun _ _ => True) stillEnv resetData h rt ∧ heldFile h 3 = some f ∧
      .exit ∈ f.parts (registerExit.arg32 1) := by
  obtain ⟨rt₀, rt, hboot, hopened, -, hfunc, hioctl⟩ := exists_exitOpened
  have hr : Reached (fun _ _ => True) stillEnv resetData [(openExit, 3)] rt := ⟨rt₀, hboot, .call .refl trivial hopened⟩
  have hchanged : ¬ Part.exit.Kept rt { rt with exitFunc := 72340172838076673 } := by
    show ¬ (72340172838076673 : Nat) = rt.exitFunc
    rw [hfunc]
    decide
  obtain ⟨-, f, hheld, hpart, -⟩ := hr.device_changed (registerExit_registers hfunc hioctl) (.inr rfl) hchanged
  exact ⟨_, _, f, hr, hheld, hpart⟩

/-! ## The log -/

theorem boot_log (h : Runtime.boot env d = .ok rt) : rt.tty.log.Ok := by
  obtain ⟨regs, -, h⟩ := bind_eq_ok.1 h
  obtain ⟨fs, -, h⟩ := bind_eq_ok.1 h
  obtain ⟨r, -, h⟩ := bind_eq_ok.1 h
  obtain ⟨st, -, h⟩ := bind_eq_ok.1 h
  obtain rfl := Except.ok.inj h
  exact earlyLogBuf_ok

theorem Run.log_ok {h₀ : History} {rt₀ : Runtime} (hlog : rt₀.tty.log.Ok) (hr : Run ok env h₀ rt₀ h rt) :
    rt.tty.log.Ok := by
  induction hr with
  | refl => exact hlog
  | call _ _ hcall ih => exact (aarch64DoSyscall_changes hcall).log_ok ih

theorem Reached.log_ok (hr : Reached ok env d h rt) : rt.tty.log.Ok := by
  obtain ⟨rt₀, hboot, hrun⟩ := hr
  exact hrun.log_ok (boot_log hboot)

/-- The call gives the log another buffer. -/
def Call.SetsBuffer (rt : Runtime) (c : Call) : Prop :=
  sysNumOf c.sysNum = some .ioctl ∧ c.arg32 1 = TIOCSETBUF ∧
    ∃ f, sysIoctl rt.fs (c.arg32 0) = .ok (.handler f) ∧ (f = .ttyin ∨ f = .ttyout)

theorem buffer_touched {c : Call} (hp : .buffer ∈ c.touches rt) : c.SetsBuffer rt := by
  unfold Call.touches at hp
  cases hnum : sysNumOf c.sysNum with
  | none =>
    rw [hnum] at hp
    cases hp
  | some num =>
    rw [hnum] at hp
    cases num
    case ioctl =>
      obtain ⟨f, hf, hpart⟩ := mem_fdParts hp
      by_cases hcmd : c.arg32 1 = TIOCSETBUF
      · cases f
        case ttyin => exact ⟨hnum, hcmd, _, hf, .inl rfl⟩
        case ttyout => exact ⟨hnum, hcmd, _, hf, .inr rfl⟩
        all_goals simp [File.parts] at hpart
      · cases f <;> simp [File.parts, hcmd] at hpart
    all_goals simp at hp

/-- **The log keeps the newest text.** From any state after the boot, through any calls that leave the log its buffer,
whoever writes (the application through its descriptors, or the runtime with a message of its own) and however often
the buffer is gone round: it reads as the last `size - 1` bytes of what it read as, followed by what was logged since. -/
theorem Run.log_newest {h₀ : History} {rt₀ : Runtime} (hreach : Reached ok env d h₀ rt₀)
    (hr : Run (fun rt c => ¬ c.SetsBuffer rt) env h₀ rt₀ h rt) :
    rt.tty.log.size = rt₀.tty.log.size ∧ ∃ new, rt.tty.logged = rt₀.tty.logged ++ new ∧
      rt.tty.log.reading = lastN (rt₀.tty.log.size - 1) (rt₀.tty.log.reading ++ new) := by
  have hok := hreach.log_ok
  have hlen := rt₀.tty.log.length_reading
  induction hr with
  | refl => exact ⟨rfl, [], (List.append_nil _).symm, by rw [List.append_nil, ← hlen, Lib.lastN_self]⟩
  | @call h rt rt' c x0 stores hrun hset hcall ih =>
    obtain ⟨hsize, new, hlogged, hread⟩ := ih
    have hkept : .buffer ∉ c.touches rt := mt buffer_touched hset
    have hsame : rt'.tty.log.size = rt.tty.log.size := (aarch64DoSyscall_changes hcall).kept (p := .buffer) hkept
    have hsize' := hsame.trans hsize
    obtain ⟨text, htext, hread'⟩ := (aarch64DoSyscall_changes hcall).reading (hrun.log_ok hok) hkept
    rw [hread, hsize] at hread'
    refine ⟨hsize', new ++ text, ?_, ?_⟩
    · rw [← List.append_assoc, ← hlogged]
      exact htext
    · rw [← List.append_assoc, ← Lib.lastN_lastN_append (by rw [List.length_append]; omega)]
      exact hread'

end Runs

/-- Calls with an unknown number, one after the other. -/
theorem exists_unhandled_run {rt₀ : Runtime} (hlog : rt₀.tty.log.Ok) (n : Nat) :
    ∃ h rt, Run (fun rt c => ¬ c.SetsBuffer rt) stillEnv [] rt₀ h rt ∧ rt.tty.log.Ok ∧
      rt.tty.logged = rt₀.tty.logged ++ (List.replicate n (Message.unhandledSyscall 1000).text).flatten := by
  have hnum : sysNumOf (Call.plain 1000 (.replicate _ 0) tenSeconds).sysNum = none := by decide
  induction n with
  | zero => exact ⟨[], rt₀, .refl, hlog, by simp⟩
  | succ n ih =>
    obtain ⟨h, rt, hrun, hok, hlogged⟩ := ih
    obtain ⟨rt', hcall, hok', hlogged'⟩ := unhandled_returns stillEnv hnum hok
    have hset : ¬ Call.SetsBuffer rt (.plain 1000 (.replicate _ 0) tenSeconds) := fun hs => by
      obtain ⟨hioctl, -⟩ := hs
      rw [hnum] at hioctl
      cases hioctl
    refine ⟨_, rt', .call hrun hset hcall, hok', ?_⟩
    rw [hlogged', hlogged, List.replicate_succ', List.flatten_append, List.flatten_singleton, List.append_assoc]
    rfl

/-- After fourteen messages of the runtime, which go round the log that it starts with. -/
theorem Run.log_newest_unhandled :
    ∃ rt₀ rt : Runtime, Runtime.boot stillEnv resetData = .ok rt₀ ∧
      rt.tty.logged = rt₀.tty.logged ++ (List.replicate 14 (Message.unhandledSyscall 1000).text).flatten ∧
      rt.tty.log.reading = lastN (rt₀.tty.log.size - 1)
        (rt₀.tty.log.reading ++ (List.replicate 14 (Message.unhandledSyscall 1000).text).flatten) := by
  obtain ⟨rt₀, hboot, -⟩ := exists_booted
  obtain ⟨h, rt, hrun, -, hsaid⟩ := exists_unhandled_run (boot_log hboot) 14
  obtain ⟨-, new, hlogged, hread⟩ := Run.log_newest (⟨rt₀, hboot, .refl⟩ : Reached (fun _ _ => True) _ _ _ _) hrun
  obtain rfl := List.append_cancel_left (hlogged.symm.trans hsaid)
  exact ⟨rt₀, rt, hboot, hsaid, hread⟩

end GunyahRuntime
