/-
# GunyahRuntime.Fs -- file descriptors (`fs.c`, `read_write.c`, `ioctl.c`)

That a descriptor is open is said twice: by a bit of `fd_alloc`, where `fs_alloc_fd` looks for a free one, and
by the file of its entry in `file_table`, where everything else looks it up. Opening and closing write both, in
separate statements. The files are the devices of the runtime. Their handlers are other modules; what matters
here is which of them a call reaches, and none of them touches the two tables.

The flags of `open` come from the C library's `fcntl.h`. Its three access modes are 0, 1 and 2; the rest of it
is a parameter.
-/
import GunyahRuntime.Bitmap
import GunyahRuntime.Str.Format

namespace GunyahRuntime

def NUM_FDS : Nat := 32

def STDIN_FILENO : Nat := 0
def STDOUT_FILENO : Nat := 1
def STDERR_FILENO : Nat := 2

/-- `fcntl.h` of the C library. -/
structure Fcntl where
  AT_FDCWD : Int
  O_ACCMODE : BitVec 32
  O_LARGEFILE : BitVec 32

def O_RDONLY : BitVec 32 := 0
def O_WRONLY : BitVec 32 := 1
def O_RDWR : BitVec 32 := 2

def FS_READ : BitVec 64 := 0x1
def FS_WRITE : BitVec 64 := 0x2

/-- `struct fs_ops`: which of the two pointers are set. -/
structure FsOps where
  writev : Bool
  ioctl : Bool

/-- The `struct file_s` objects of the runtime. -/
inductive File where
  /-- `stdin_file`. -/
  | ttyin
  /-- `stdout_file` and `stderr_file`. -/
  | ttyout
  | irqFile
  | consoleFile
  | exitFile
  | memFile
  deriving DecidableEq

/-- `f->ops`. -/
def File.ops : File → FsOps
  | .ttyin => ⟨false, true⟩
  | .ttyout => ⟨true, true⟩
  | .irqFile => ⟨false, true⟩
  | .consoleFile => ⟨false, true⟩
  | .exitFile => ⟨false, true⟩
  | .memFile => ⟨false, true⟩

/-- `struct file_p`. -/
structure FileP where
  file : Option File
  flags : BitVec 64
  deriving DecidableEq

structure FsState where
  /-- `fd_alloc`. -/
  fdAlloc : Bitmap
  /-- `file_table`. -/
  fileTable : Vector FileP NUM_FDS

/-- Static storage before `fs_init`. -/
def FsState.boot : FsState := ⟨List.replicate (bitmapNumWords NUM_FDS) 0, Vector.replicate _ ⟨none, 0⟩⟩

/-- `bitmap_set(fd_alloc, fd)` and the assignment of `file_table[fd]`. -/
def fsInstall (s : FsState) (fd : Nat) (fp : FileP) : Exec FsState := do
  let fdAlloc ← bitmapSet s.fdAlloc fd
  if h : fd < NUM_FDS then
    return ⟨fdAlloc, s.fileTable.set fd fp⟩
  else
    .error .badWrite

/-- `fs_init()`. -/
def fsInit (s : FsState) : Exec FsState := do
  let s ← fsInstall s STDIN_FILENO ⟨some .ttyin, FS_READ⟩
  let s ← fsInstall s STDOUT_FILENO ⟨some .ttyout, FS_WRITE⟩
  fsInstall s STDERR_FILENO ⟨some .ttyout, FS_WRITE⟩

/-- The flags of an entry, from the access mode. -/
def fsFlags (accmode : BitVec 32) : BitVec 64 :=
  (if accmode = O_RDONLY ∨ accmode = O_RDWR then FS_READ else 0) |||
    (if accmode = O_WRONLY ∨ accmode = O_RDWR then FS_WRITE else 0)

/-- `fs_alloc_fd(f, o_flags)`. -/
def fsAllocFd (libc : Fcntl) (s : FsState) (f : Option File) (oFlags : BitVec 32) : Exec (Int × FsState) := do
  cassert f.isSome
  -- the lowest descriptor whose bit is clear
  match ← bitmapFfc s.fdAlloc 0 (NUM_FDS - 1) with
  | none => return (-ENFILE, s)
  | some fd => do
    let s ← fsInstall s fd ⟨f, fsFlags (oFlags &&& libc.O_ACCMODE)⟩
    return (fd, s)

/-- `fs_lookup_file(fd)`. -/
def fsLookupFile (s : FsState) (fd : Nat) : Option FileP :=
  if h : fd < NUM_FDS then
    if s.fileTable[fd].file.isSome then some s.fileTable[fd] else none
  else
    none

/-! ## The calls -/

/-- `strcmp(s1, s2)`. -/
def strcmp : List UInt8 → List UInt8 → Int
  | [], [] => 0
  | [], r :: _ => 0 - r.toNat
  | l :: _, [] => l.toNat
  | l :: s1, r :: s2 => if l = r then strcmp s1 s2 else l.toNat - r.toNat

def PLATFORM_IRQ_DEV_PATH : CString := CString.ofString "/dev/gicv3" (by decide) (by decide)
def PLATFORM_CONSOLE_DEV_PATH : CString := CString.ofString "/dev/console" (by decide) (by decide)
def PLATFORM_EXIT_DEV_PATH : CString := CString.ofString "/dev/exit" (by decide) (by decide)
def MEM_DEV_PATH : CString := CString.ofString "/dev/mem" (by decide) (by decide)

/-- The device of a path. -/
def fileOf (pathname : CString) : Option File :=
  if strcmp pathname.chars PLATFORM_IRQ_DEV_PATH.chars = 0 then some .irqFile
  else if strcmp pathname.chars PLATFORM_CONSOLE_DEV_PATH.chars = 0 then some .consoleFile
  else if strcmp pathname.chars PLATFORM_EXIT_DEV_PATH.chars = 0 then some .exitFile
  else if strcmp pathname.chars MEM_DEV_PATH.chars = 0 then some .memFile
  else none

/-- `sys_openat(dirfd, pathname, flags, mode)`. The `open` functions of the devices do nothing but call
`fs_alloc_fd`. -/
def sysOpenat (libc : Fcntl) (s : FsState) (dirfd : Int) (pathname : CString) (flags mode : BitVec 32) :
    Exec (Int × FsState) :=
  if dirfd ≠ libc.AT_FDCWD then .ok (-EINVAL, s)
  else if flags &&& ~~~(libc.O_ACCMODE ||| libc.O_LARGEFILE) ≠ 0 ∨ mode ≠ 0 then .ok (-EINVAL, s)
  else
    match fileOf pathname with
    | none => .ok (-ENOENT, s)
    | some f => fsAllocFd libc s (some f) flags

/-- `sys_close(fd)`. -/
def sysClose (s : FsState) (fd : Nat) : Exec (Int × FsState) :=
  if h : fd < NUM_FDS then
    match fsLookupFile s fd with
    | none => .ok (-EBADF, s)
    | some _ => do
      -- the entry first, then the bit
      let fileTable := s.fileTable.set fd ⟨none, 0⟩
      let fdAlloc ← bitmapClear s.fdAlloc fd
      return (0, ⟨fdAlloc, fileTable⟩)
  else
    .ok (-EBADF, s)

/-- What a call on a descriptor comes to: an error, or the handler of a file. -/
inductive FsCall where
  | returned (ret : Int)
  | handler (f : File)
  deriving DecidableEq

/-- The shape that `sys_writev` and `sys_ioctl` share: the lookup, a look at the flags, and the call through
the pointer if there is one. -/
def fsCall (allowed : BitVec 64 → Bool) (op : FsOps → Bool) (s : FsState) (fd : Nat) : Exec FsCall :=
  match fsLookupFile s fd with
  | none => .ok (.returned (-EBADF))
  | some fp =>
    if ¬ allowed fp.flags then .ok (.returned (-EBADF))
    else
      match fp.file with
      | none => .error .assertion
      | some f => .ok (if op f.ops then .handler f else .returned (-EINVAL))

/-- `sys_writev(fd, vec, vlen)`. -/
def sysWritev : FsState → Nat → Exec FsCall := fsCall (fun flags => flags &&& FS_WRITE ≠ 0) FsOps.writev

/-- `sys_ioctl(fd, cmd, arg)`. -/
def sysIoctl : FsState → Nat → Exec FsCall := fsCall (fun _ => true) FsOps.ioctl

/-! ## Paths -/

theorem UInt8.toNat_pos {c : UInt8} (h : c ≠ 0) : 0 < c.toNat :=
  Nat.pos_of_ne_zero fun hc => h (UInt8.toNat_inj.1 hc)

theorem strcmp_eq_zero {s1 s2 : List UInt8} (h1 : ∀ c ∈ s1, c ≠ 0) (h2 : ∀ c ∈ s2, c ≠ 0) :
    strcmp s1 s2 = 0 ↔ s1 = s2 := by
  induction s1 generalizing s2 with
  | nil =>
    cases s2 with
    | nil => exact iff_of_true rfl rfl
    | cons r s2 =>
      have hr := UInt8.toNat_pos (h2 r List.mem_cons_self)
      refine iff_of_false ?_ (by simp)
      unfold strcmp
      omega
  | cons l s1 ih =>
    have hl := UInt8.toNat_pos (h1 l List.mem_cons_self)
    cases s2 with
    | nil =>
      refine iff_of_false ?_ (by simp)
      unfold strcmp
      omega
    | cons r s2 =>
      unfold strcmp
      by_cases hlr : l = r
      · have hrest := ih (fun c hc => h1 c (List.mem_cons_of_mem _ hc))
          (fun c hc => h2 c (List.mem_cons_of_mem _ hc))
        rw [if_pos hlr, hrest, hlr]
        simp
      · have hne : l.toNat ≠ r.toNat := fun h => hlr (UInt8.toNat_inj.1 h)
        rw [if_neg hlr]
        refine iff_of_false (by omega) (by simp [hlr])

/-- The paths that name a device. -/
def KnownPath (pathname : CString) : Prop :=
  pathname.chars = PLATFORM_IRQ_DEV_PATH.chars ∨ pathname.chars = PLATFORM_CONSOLE_DEV_PATH.chars ∨
    pathname.chars = PLATFORM_EXIT_DEV_PATH.chars ∨ pathname.chars = MEM_DEV_PATH.chars

theorem fileOf_isSome (pathname : CString) : (fileOf pathname).isSome ↔ KnownPath pathname := by
  have hcmp : ∀ t : CString, strcmp pathname.chars t.chars = 0 ↔ pathname.chars = t.chars :=
    fun t => strcmp_eq_zero pathname.no_nul t.no_nul
  unfold fileOf KnownPath
  simp only [hcmp]
  split_ifs <;> simp_all

/-! ## One call -/

/-- The descriptor is open. -/
def FsState.isOpen (s : FsState) (fd : Nat) : Prop := (fsLookupFile s fd).isSome

/-- The two tables agree. -/
structure FsState.Ok (s : FsState) : Prop where
  length : s.fdAlloc.length = 1
  bits : ∀ fd < NUM_FDS, s.fdAlloc.get fd = true ↔ s.isOpen fd

theorem fsLookupFile_eq_some {s : FsState} {fd : Nat} {fp : FileP} :
    fsLookupFile s fd = some fp ↔ ∃ h : fd < NUM_FDS, s.fileTable[fd] = fp ∧ fp.file.isSome := by
  unfold fsLookupFile
  by_cases h : fd < NUM_FDS
  · rw [dif_pos h]
    constructor
    · intro hs
      by_cases hf : s.fileTable[fd].file.isSome
      · rw [if_pos hf] at hs
        obtain rfl := Option.some.inj hs
        exact ⟨h, rfl, hf⟩
      · rw [if_neg hf] at hs
        cases hs
    · rintro ⟨_, rfl, hf⟩
      rw [if_pos hf]
  · rw [dif_neg h]
    exact iff_of_false (by simp) fun ⟨h', _⟩ => h h'

theorem FsState.isOpen_lt {s : FsState} {fd : Nat} (h : s.isOpen fd) : fd < NUM_FDS := by
  obtain ⟨fp, hfp⟩ := Option.isSome_iff_exists.1 h
  exact (fsLookupFile_eq_some.1 hfp).1

/-- The entry of a descriptor after another entry has been written. -/
theorem fsLookupFile_set_ne {s : FsState} {fd : Nat} (hfd : fd < NUM_FDS) {fp : FileP} {fdAlloc : Bitmap}
    {j : Nat} (hj : j ≠ fd) : fsLookupFile ⟨fdAlloc, s.fileTable.set fd fp⟩ j = fsLookupFile s j := by
  unfold fsLookupFile
  split
  · next h => simp only [Vector.getElem_set_ne hfd h hj.symm]
  · rfl

theorem fsLookupFile_set_self {s : FsState} {fd : Nat} (hfd : fd < NUM_FDS) {fp : FileP}
    {fdAlloc : Bitmap} :
    fsLookupFile ⟨fdAlloc, s.fileTable.set fd fp⟩ fd = if fp.file.isSome then some fp else none := by
  simp [fsLookupFile, hfd]

/-- `s'` is `s` with the entry of `fd` replaced, in both tables. -/
structure Replaces (s s' : FsState) (fd : Nat) (fp : Option FileP) : Prop where
  ok : s'.Ok
  self : fsLookupFile s' fd = fp
  others : ∀ j ≠ fd, fsLookupFile s' j = fsLookupFile s j

theorem fsInstall_spec (f : File) (flags : BitVec 64) {s : FsState} (hs : s.fdAlloc.length = 1) {fd : Nat}
    (hfd : fd < NUM_FDS) (hbits : ∀ j < NUM_FDS, j ≠ fd → (s.fdAlloc.get j = true ↔ s.isOpen j)) :
    ∃ s', fsInstall s fd ⟨some f, flags⟩ = .ok s' ∧ Replaces s s' fd (some ⟨some f, flags⟩) ∧
      s'.fileTable = s.fileTable.set fd ⟨some f, flags⟩ := by
  have hword : fd / 64 < s.fdAlloc.length := by
    unfold NUM_FDS at hfd
    omega
  obtain ⟨fdAlloc, hset, hlen, hget⟩ :=
    bitmapSet_spec (show fd < 4294967296 by unfold NUM_FDS at hfd; omega) hword
  have hself : fsLookupFile ⟨fdAlloc, s.fileTable.set fd ⟨some f, flags⟩⟩ fd = some ⟨some f, flags⟩ :=
    fsLookupFile_set_self hfd
  have hothers : ∀ j ≠ fd, fsLookupFile ⟨fdAlloc, s.fileTable.set fd ⟨some f, flags⟩⟩ j = fsLookupFile s j :=
    fun j hj => fsLookupFile_set_ne hfd hj
  refine ⟨⟨fdAlloc, s.fileTable.set fd ⟨some f, flags⟩⟩, ?_, ⟨⟨hlen.trans hs, ?_⟩, hself, hothers⟩, rfl⟩
  · unfold fsInstall
    rw [hset, ok_bind, dif_pos hfd, pure_ok]
  · intro j hj
    rw [hget]
    by_cases hjfd : j = fd
    · subst hjfd
      simp [FsState.isOpen, hself]
    · rw [if_neg hjfd, hbits j hj hjfd]
      unfold FsState.isOpen
      rw [hothers j hjfd]

/-- The first descriptor that is not open, and `-ENFILE` when there is none. -/
theorem fsAllocFd_spec (libc : Fcntl) {s : FsState} (hs : s.Ok) (f : File) (oFlags : BitVec 32) :
    (fsAllocFd libc s (some f) oFlags = .ok (-ENFILE, s) ∧ ∀ fd < NUM_FDS, s.isOpen fd) ∨
      ∃ fd < NUM_FDS, ∃ s', fsAllocFd libc s (some f) oFlags = .ok (fd, s') ∧ ¬ s.isOpen fd ∧
        (∀ j < fd, s.isOpen j) ∧ Replaces s s' fd (some ⟨some f, fsFlags (oFlags &&& libc.O_ACCMODE)⟩) ∧
        ∀ j, (h : j < NUM_FDS) → j ≠ fd → s'.fileTable[j] = s.fileTable[j] := by
  have hfind : bitmapFfc s.fdAlloc 0 (NUM_FDS - 1) = .ok (Lib.firstBit (s.fdAlloc.is false) 0 31) :=
    bitmapFindFirst_eq (by decide) (by decide) (by rw [hs.length]; decide)
  have hbit : ∀ fd < NUM_FDS, s.fdAlloc.is false fd = false ↔ s.isOpen fd := by
    intro fd hfd
    rw [← hs.bits fd hfd, Bitmap.is, decide_eq_false_iff_not, Bool.not_eq_false]
  unfold fsAllocFd
  rw [Option.isSome_some, cassert_true, ok_bind, hfind, ok_bind]
  cases hfirst : Lib.firstBit (s.fdAlloc.is false) 0 31 with
  | none =>
    refine .inl ⟨rfl, fun fd hfd => (hbit fd hfd).1 ?_⟩
    exact Lib.firstBit_eq_none.1 hfirst fd (Nat.zero_le _) (by unfold NUM_FDS at hfd; omega)
  | some fd =>
    obtain ⟨hclear, -, hle, hmin⟩ := Lib.firstBit_eq_some.1 hfirst
    have hfd : fd < NUM_FDS := by
      unfold NUM_FDS
      omega
    obtain ⟨s', hrun, hrep, htable⟩ := fsInstall_spec f
      (fsFlags (oFlags &&& libc.O_ACCMODE)) hs.length hfd fun j hj _ => hs.bits j hj
    refine .inr ⟨fd, hfd, s', by dsimp only; rw [hrun, ok_bind, pure_ok], ?_, ?_, hrep, ?_⟩
    · rw [← hbit fd hfd, hclear]
      decide
    · exact fun j hj => (hbit j (by omega)).1 (hmin j (Nat.zero_le _) hj)
    · intro j hj hne
      simp only [htable, Vector.getElem_set_ne hfd hj hne.symm]

/-- Which arguments `sys_openat` accepts, the path apart. -/
structure OpenArgs (libc : Fcntl) (dirfd : Int) (flags mode : BitVec 32) : Prop where
  dirfd : dirfd = libc.AT_FDCWD
  flags : flags &&& ~~~(libc.O_ACCMODE ||| libc.O_LARGEFILE) = 0
  mode : mode = 0

/-- An open is refused, or it is `fs_alloc_fd`. -/
theorem sysOpenat_cases (libc : Fcntl) (s : FsState) (dirfd : Int) (pathname : CString)
    (flags mode : BitVec 32) :
    (∃ e : Int, e < 0 ∧ sysOpenat libc s dirfd pathname flags mode = .ok (e, s) ∧
        ¬ (OpenArgs libc dirfd flags mode ∧ KnownPath pathname)) ∨
      ∃ f, OpenArgs libc dirfd flags mode ∧ KnownPath pathname ∧
        sysOpenat libc s dirfd pathname flags mode = fsAllocFd libc s (some f) flags := by
  unfold sysOpenat
  by_cases hdir : dirfd ≠ libc.AT_FDCWD
  · exact .inl ⟨-EINVAL, by decide, if_pos hdir, fun h => hdir h.1.dirfd⟩
  rw [if_neg hdir]
  by_cases hargs : flags &&& ~~~(libc.O_ACCMODE ||| libc.O_LARGEFILE) ≠ 0 ∨ mode ≠ 0
  · exact .inl ⟨-EINVAL, by decide, if_pos hargs, fun h => hargs.elim (· h.1.flags) (· h.1.mode)⟩
  rw [if_neg hargs]
  rw [not_or, not_not, not_not] at hargs
  cases hfile : fileOf pathname with
  | none =>
    refine .inl ⟨-ENOENT, by decide, rfl, fun h => ?_⟩
    have hsome := (fileOf_isSome pathname).2 h.2
    rw [hfile] at hsome
    cases hsome
  | some f =>
    refine .inr ⟨f, ⟨not_not.1 hdir, hargs.1, hargs.2⟩, ?_, rfl⟩
    rw [← fileOf_isSome, hfile]
    rfl

theorem sysClose_spec {s : FsState} (hs : s.Ok) (fd : Nat) :
    (sysClose s fd = .ok (-EBADF, s) ∧ ¬ s.isOpen fd) ∨
      ∃ s', sysClose s fd = .ok (0, s') ∧ s.isOpen fd ∧ Replaces s s' fd none := by
  unfold sysClose
  by_cases hfd : fd < NUM_FDS
  · rw [dif_pos hfd]
    cases hlookup : fsLookupFile s fd with
    | none =>
      refine .inl ⟨rfl, ?_⟩
      simp [FsState.isOpen, hlookup]
    | some fp =>
      right
      have hword : fd / 64 < s.fdAlloc.length := by
        rw [hs.length]
        unfold NUM_FDS at hfd
        omega
      obtain ⟨fdAlloc, hclear, hlen, hget⟩ :=
        bitmapClear_spec (show fd < 4294967296 by unfold NUM_FDS at hfd; omega) hword
      have hself : fsLookupFile ⟨fdAlloc, s.fileTable.set fd ⟨none, 0⟩⟩ fd = none := fsLookupFile_set_self hfd
      have hothers : ∀ j ≠ fd, fsLookupFile ⟨fdAlloc, s.fileTable.set fd ⟨none, 0⟩⟩ j = fsLookupFile s j :=
        fun j hj => fsLookupFile_set_ne hfd hj
      refine ⟨⟨fdAlloc, s.fileTable.set fd ⟨none, 0⟩⟩, ?_, by simp [FsState.isOpen, hlookup],
        ⟨⟨hlen.trans hs.length, ?_⟩, hself, hothers⟩⟩
      · dsimp only
        rw [hclear, ok_bind, pure_ok]
      · intro j hj
        rw [hget]
        by_cases hjfd : j = fd
        · subst hjfd
          rw [if_pos rfl, FsState.isOpen, hself]
          exact iff_of_false Bool.false_ne_true Bool.false_ne_true
        · rw [if_neg hjfd, hs.bits j hj]
          unfold FsState.isOpen
          rw [hothers j hjfd]
  · rw [dif_neg hfd]
    exact .inl ⟨rfl, fun h => hfd (FsState.isOpen_lt h)⟩

/-- A call on a descriptor looks at its entry and at nothing else. -/
theorem fsCall_congr {allowed : BitVec 64 → Bool} {op : FsOps → Bool} {s s' : FsState} {fd : Nat}
    (h : fsLookupFile s' fd = fsLookupFile s fd) : fsCall allowed op s' fd = fsCall allowed op s fd := by
  unfold fsCall
  rw [h]

theorem fsCall_total (allowed : BitVec 64 → Bool) (op : FsOps → Bool) (s : FsState) (fd : Nat) :
    ∃ r, fsCall allowed op s fd = .ok r := by
  unfold fsCall
  cases hlookup : fsLookupFile s fd with
  | none => exact ⟨_, rfl⟩
  | some fp =>
    obtain ⟨-, -, hfile⟩ := fsLookupFile_eq_some.1 hlookup
    obtain ⟨f, hf⟩ := Option.isSome_iff_exists.1 hfile
    dsimp only
    split
    · exact ⟨_, rfl⟩
    · rw [hf]
      exact ⟨_, rfl⟩

/-- A handler is reached through an open entry whose flags allow the call. -/
theorem fsCall_handler {allowed : BitVec 64 → Bool} {op : FsOps → Bool} {s : FsState} {fd : Nat} {f : File}
    (h : fsCall allowed op s fd = .ok (.handler f)) :
    ∃ fp, fsLookupFile s fd = some fp ∧ allowed fp.flags = true := by
  unfold fsCall at h
  cases hlookup : fsLookupFile s fd with
  | none =>
    rw [hlookup] at h
    cases h
  | some fp =>
    refine ⟨fp, rfl, ?_⟩
    rw [hlookup] at h
    by_contra hno
    rw [Bool.not_eq_true] at hno
    simp [hno] at h

/-! ## Runs -/

inductive FsOp where
  | openat (dirfd : Int) (pathname : CString) (flags mode : BitVec 32)
  | close (fd : Nat)
  | ioctl (fd : Nat)
  | writev (fd : Nat)

/-- One call, with what it comes to. -/
def fsStep (libc : Fcntl) (s : FsState) : FsOp → Exec (FsCall × FsState)
  | .openat dirfd pathname flags mode => do
    let (ret, s) ← sysOpenat libc s dirfd pathname flags mode
    return (.returned ret, s)
  | .close fd => do
    let (ret, s) ← sysClose s fd
    return (.returned ret, s)
  | .ioctl fd => do
    let r ← sysIoctl s fd
    return (r, s)
  | .writev fd => do
    let r ← sysWritev s fd
    return (r, s)

/-- The states that runs from `fs_init` reach, with the calls made so far, the last first. -/
inductive FsRun (libc : Fcntl) : List (FsOp × FsCall) → FsState → Prop
  | init {s : FsState} : fsInit FsState.boot = .ok s → FsRun libc [] s
  | step {h : List (FsOp × FsCall)} {s s' : FsState} {op : FsOp} {r : FsCall} :
      FsRun libc h s → fsStep libc s op = .ok (r, s') → FsRun libc ((op, r) :: h) s'

/-- How an open descriptor came to be open. -/
inductive Origin where
  /-- Standard input, output or error, since `fs_init`. -/
  | standard
  /-- An `open` with this access mode. -/
  | opened (accmode : BitVec 32)
  deriving DecidableEq

/-- The origin of a descriptor, from the calls that were made. -/
def origin (libc : Fcntl) : List (FsOp × FsCall) → Nat → Option Origin
  | [], fd => if fd ≤ STDERR_FILENO then some .standard else none
  | (.openat _ _ flags _, .returned ret) :: h, fd =>
    if ret = fd then some (.opened (flags &&& libc.O_ACCMODE)) else origin libc h fd
  | (.close fd', .returned ret) :: h, fd => if ret = 0 ∧ fd = fd' then none else origin libc h fd
  | _ :: h, fd => origin libc h fd

/-- The flags `fs.c` gives to a descriptor of this origin. -/
def Origin.flags (fd : Nat) : Origin → BitVec 64
  | .standard => if fd = STDIN_FILENO then FS_READ else FS_WRITE
  | .opened accmode => fsFlags accmode

/-- A descriptor that may be written to. -/
def Origin.Writable (fd : Nat) : Origin → Prop
  | .standard => fd = STDOUT_FILENO ∨ fd = STDERR_FILENO
  | .opened accmode => accmode = O_WRONLY ∨ accmode = O_RDWR

theorem fsFlags_write {accmode : BitVec 32} (h : fsFlags accmode &&& FS_WRITE ≠ 0) :
    accmode = O_WRONLY ∨ accmode = O_RDWR := by
  by_contra hno
  unfold fsFlags at h
  rw [if_neg hno] at h
  split at h <;> simp [FS_READ, FS_WRITE] at h

theorem Origin.writable {o : Origin} {fd : Nat} (hle : o = .standard → fd ≤ STDERR_FILENO)
    (h : o.flags fd &&& FS_WRITE ≠ 0) : o.Writable fd := by
  cases o with
  | standard =>
    have hfd := hle rfl
    by_cases hin : fd = STDIN_FILENO
    · simp [Origin.flags, hin, FS_READ, FS_WRITE] at h
    · unfold Origin.Writable
      unfold STDIN_FILENO STDOUT_FILENO STDERR_FILENO at *
      omega
  | opened accmode => exact fsFlags_write h

/-- What a run keeps: the tables agree, and each entry has the flags of its origin. -/
structure FsInv (libc : Fcntl) (h : List (FsOp × FsCall)) (s : FsState) : Prop where
  ok : s.Ok
  entries : ∀ fd, (fsLookupFile s fd).map FileP.flags = (origin libc h fd).map (Origin.flags fd)
  standard : ∀ fd, origin libc h fd = some .standard → fd ≤ STDERR_FILENO

theorem fsInit_inv (libc : Fcntl) {s : FsState} (h : fsInit FsState.boot = .ok s) : FsInv libc [] s := by
  have hboot : ∀ j, ¬ FsState.boot.isOpen j := by
    intro j hj
    obtain ⟨fp, hfp⟩ := Option.isSome_iff_exists.1 hj
    obtain ⟨hlt, hget, hsome⟩ := fsLookupFile_eq_some.1 hfp
    rw [← hget] at hsome
    simp [FsState.boot] at hsome
  have hok : FsState.boot.Ok := by
    refine ⟨by decide, fun fd hfd => iff_of_false ?_ (hboot fd)⟩
    revert fd
    decide
  obtain ⟨s₁, h₁, r₁, -⟩ := fsInstall_spec .ttyin FS_READ hok.length
    (show STDIN_FILENO < NUM_FDS by decide) fun j hj _ => hok.bits j hj
  obtain ⟨s₂, h₂, r₂, -⟩ := fsInstall_spec .ttyout FS_WRITE r₁.ok.length
    (show STDOUT_FILENO < NUM_FDS by decide) fun j hj _ => r₁.ok.bits j hj
  obtain ⟨s₃, h₃, r₃, -⟩ := fsInstall_spec .ttyout FS_WRITE r₂.ok.length
    (show STDERR_FILENO < NUM_FDS by decide) fun j hj _ => r₂.ok.bits j hj
  unfold fsInit at h
  rw [h₁, ok_bind, h₂, ok_bind, h₃] at h
  obtain rfl := Except.ok.inj h
  refine ⟨r₃.ok, fun fd => ?_, fun fd hfd => ?_⟩
  · rcases Nat.lt_or_ge 2 fd with hgt | hle
    · rw [r₃.others fd (by unfold STDERR_FILENO; omega), r₂.others fd (by unfold STDOUT_FILENO; omega),
        r₁.others fd (by unfold STDIN_FILENO; omega)]
      have hnone : fsLookupFile FsState.boot fd = none := by
        simpa [FsState.isOpen] using hboot fd
      simp [hnone, origin, STDERR_FILENO, Nat.not_le.2 hgt]
    · have hcases : fd = STDIN_FILENO ∨ fd = STDOUT_FILENO ∨ fd = STDERR_FILENO := by
        unfold STDIN_FILENO STDOUT_FILENO STDERR_FILENO
        omega
      rcases hcases with rfl | rfl | rfl
      · rw [r₃.others _ (by decide), r₂.others _ (by decide), r₁.self]
        rfl
      · rw [r₃.others _ (by decide), r₂.self]
        rfl
      · rw [r₃.self]
        rfl
  · unfold origin at hfd
    split at hfd
    · assumption
    · cases hfd

/-- A call that changes no entry and opens or closes no descriptor. -/
theorem FsInv.keep {libc : Fcntl} {h : List (FsOp × FsCall)} {s : FsState} (hs : FsInv libc h s)
    {event : FsOp × FsCall} (horigin : ∀ fd, origin libc (event :: h) fd = origin libc h fd) :
    FsInv libc (event :: h) s :=
  ⟨hs.ok, fun fd => by rw [horigin, hs.entries], fun fd => by rw [horigin]; exact hs.standard fd⟩

/-- A call that replaces one entry, and whose event is the origin of what is there then. -/
theorem FsInv.replace {libc : Fcntl} {h : List (FsOp × FsCall)} {s s' : FsState} (hs : FsInv libc h s)
    {event : FsOp × FsCall} {fd : Nat} {fp : Option FileP} (hrep : Replaces s s' fd fp)
    (hself : fp.map FileP.flags = (origin libc (event :: h) fd).map (Origin.flags fd))
    (hnew : origin libc (event :: h) fd ≠ some .standard)
    (hothers : ∀ j ≠ fd, origin libc (event :: h) j = origin libc h j) : FsInv libc (event :: h) s' := by
  refine ⟨hrep.ok, fun j => ?_, fun j hj => ?_⟩
  · by_cases hjfd : j = fd
    · rw [hjfd, hrep.self, hself]
    · rw [hrep.others j hjfd, hothers j hjfd, hs.entries]
  · by_cases hjfd : j = fd
    · rw [hjfd] at hj
      exact absurd hj hnew
    · rw [hothers j hjfd] at hj
      exact hs.standard j hj

theorem fsStep_inv {libc : Fcntl} {h : List (FsOp × FsCall)} {s s' : FsState} (hs : FsInv libc h s)
    {op : FsOp} {r : FsCall} (hstep : fsStep libc s op = .ok (r, s')) : FsInv libc ((op, r) :: h) s' := by
  cases op with
  | openat dirfd pathname flags mode =>
    obtain ⟨⟨ret, s₁⟩, hrun, hstep⟩ := bind_eq_ok.1 hstep
    obtain ⟨rfl, rfl⟩ := Prod.mk.inj (Except.ok.inj hstep)
    -- a negative answer is no descriptor
    have hfailed : ret < 0 → s₁ = s →
        FsInv libc ((.openat dirfd pathname flags mode, .returned ret) :: h) s₁ := by
      rintro hneg rfl
      refine hs.keep fun fd => if_neg ?_
      omega
    rcases sysOpenat_cases libc s dirfd pathname flags mode with ⟨e, he, hrefused, -⟩ | ⟨f, -, -, halloc⟩
    · rw [hrefused] at hrun
      obtain ⟨rfl, rfl⟩ := Prod.mk.inj (Except.ok.inj hrun)
      exact hfailed he rfl
    · rw [halloc] at hrun
      rcases fsAllocFd_spec libc hs.ok f flags with ⟨hfull, -⟩ | ⟨fd, -, s₂, hopened, -, -, hrep, -⟩
      · rw [hfull] at hrun
        obtain ⟨rfl, rfl⟩ := Prod.mk.inj (Except.ok.inj hrun)
        exact hfailed (by decide) rfl
      · rw [hopened] at hrun
        obtain ⟨rfl, rfl⟩ := Prod.mk.inj (Except.ok.inj hrun)
        have horigin : origin libc ((.openat dirfd pathname flags mode, .returned (fd : Int)) :: h) fd =
            some (.opened (flags &&& libc.O_ACCMODE)) := if_pos rfl
        refine hs.replace hrep (by rw [horigin]; rfl) (by rw [horigin]; simp) fun j hj => if_neg ?_
        omega
  | close fd =>
    obtain ⟨⟨ret, s₁⟩, hrun, hstep⟩ := bind_eq_ok.1 hstep
    obtain ⟨rfl, rfl⟩ := Prod.mk.inj (Except.ok.inj hstep)
    rcases sysClose_spec hs.ok fd with ⟨hbad, -⟩ | ⟨s₂, hclosed, -, hrep⟩
    · rw [hbad] at hrun
      obtain ⟨rfl, rfl⟩ := Prod.mk.inj (Except.ok.inj hrun)
      exact hs.keep fun j => if_neg fun hj => absurd hj.1 (by decide)
    · rw [hclosed] at hrun
      obtain ⟨rfl, rfl⟩ := Prod.mk.inj (Except.ok.inj hrun)
      have horigin : origin libc ((.close fd, .returned 0) :: h) fd = none := if_pos ⟨rfl, rfl⟩
      refine hs.replace hrep (by rw [horigin]; rfl) (by rw [horigin]; simp) fun j hj => if_neg ?_
      exact fun hj' => hj hj'.2
  | ioctl fd =>
    obtain ⟨r', -, hstep⟩ := bind_eq_ok.1 hstep
    obtain ⟨rfl, rfl⟩ := Prod.mk.inj (Except.ok.inj hstep)
    exact hs.keep fun _ => rfl
  | writev fd =>
    obtain ⟨r', -, hstep⟩ := bind_eq_ok.1 hstep
    obtain ⟨rfl, rfl⟩ := Prod.mk.inj (Except.ok.inj hstep)
    exact hs.keep fun _ => rfl

theorem FsRun.inv {libc : Fcntl} {h : List (FsOp × FsCall)} {s : FsState} (hr : FsRun libc h s) :
    FsInv libc h s := by
  induction hr with
  | init hinit => exact fsInit_inv libc hinit
  | step _ hstep ih => exact fsStep_inv ih hstep

/-! ## What holds in every state -/

/-- What a successful open does: it takes the lowest descriptor that is not open. -/
structure Opens (s s' : FsState) (fd : Nat) : Prop where
  lt : fd < NUM_FDS
  closed : s.fileTable[fd].file = none
  lowest : ∀ j, (hj : j < NUM_FDS) → j < fd → s.fileTable[j].file ≠ none
  opened : s'.fileTable[fd].file ≠ none
  others : ∀ j, (hj : j < NUM_FDS) → j ≠ fd → s'.fileTable[j] = s.fileTable[j]

theorem isOpen_iff {s : FsState} {fd : Nat} (hfd : fd < NUM_FDS) :
    s.isOpen fd ↔ s.fileTable[fd].file ≠ none := by
  unfold FsState.isOpen fsLookupFile
  rw [dif_pos hfd]
  cases hfile : s.fileTable[fd].file <;> simp

/-- An open gives out the lowest free descriptor, or is refused and changes nothing. With arguments it accepts
and a path it knows, it is refused exactly when all descriptors are open. -/
theorem sysOpenat_spec (libc : Fcntl) {s s' : FsState} (hs : s.Ok) {dirfd : Int} {pathname : CString}
    {flags mode : BitVec 32} {ret : Int}
    (h : sysOpenat libc s dirfd pathname flags mode = .ok (ret, s')) :
    (0 ≤ ret ∧ Opens s s' ret.toNat ∨ ret < 0 ∧ s' = s) ∧
      (OpenArgs libc dirfd flags mode → KnownPath pathname →
        (ret < 0 ↔ ∀ fd, (hfd : fd < NUM_FDS) → s.fileTable[fd].file ≠ none) ∧ (ret < 0 → ret = -ENFILE)) := by
  rcases sysOpenat_cases libc s dirfd pathname flags mode with ⟨e, he, hrefused, hno⟩ | ⟨f, -, -, halloc⟩
  · rw [hrefused] at h
    obtain ⟨rfl, rfl⟩ := Prod.mk.inj (Except.ok.inj h)
    exact ⟨.inr ⟨he, rfl⟩, fun hargs hpath => absurd ⟨hargs, hpath⟩ hno⟩
  rw [halloc] at h
  rcases fsAllocFd_spec libc hs f flags with ⟨hfull, hall⟩ | ⟨fd, hfd, s₂, hopened, hfree, hmin, hrep, htable⟩
  · rw [hfull] at h
    obtain ⟨rfl, rfl⟩ := Prod.mk.inj (Except.ok.inj h)
    refine ⟨.inr ⟨by decide, rfl⟩, fun _ _ => ⟨iff_of_true (by decide) ?_, fun _ => rfl⟩⟩
    exact fun fd hfd => (isOpen_iff hfd).1 (hall fd hfd)
  · rw [hopened] at h
    obtain ⟨rfl, rfl⟩ := Prod.mk.inj (Except.ok.inj h)
    have hclosed : s.fileTable[fd].file = none := by
      rw [isOpen_iff hfd, not_not] at hfree
      exact hfree
    have hnonneg : ¬ (fd : Int) < 0 := by omega
    refine ⟨.inl ⟨by omega, ?_⟩, fun _ _ => ⟨iff_of_false hnonneg ?_, fun hneg => absurd hneg hnonneg⟩⟩
    · rw [Int.toNat_natCast]
      refine ⟨hfd, hclosed, fun j hj hlt => (isOpen_iff hj).1 (hmin j hlt), ?_, htable⟩
      rw [← isOpen_iff hfd]
      simp [FsState.isOpen, hrep.self]
    · exact fun hall => hall fd hfd hclosed

/-- No call faults. -/
theorem fsStep_total (libc : Fcntl) {s : FsState} (hs : s.Ok) (op : FsOp) :
    ∃ r s', fsStep libc s op = .ok (r, s') := by
  cases op with
  | openat dirfd pathname flags mode =>
    rcases sysOpenat_cases libc s dirfd pathname flags mode with ⟨e, -, hrefused, -⟩ | ⟨f, -, -, halloc⟩
    · exact ⟨_, _, by rw [fsStep, hrefused, ok_bind]; rfl⟩
    · rcases fsAllocFd_spec libc hs f flags with ⟨hfull, -⟩ | ⟨fd, -, s₂, hopened, -⟩
      · exact ⟨_, _, by rw [fsStep, halloc, hfull, ok_bind]; rfl⟩
      · exact ⟨_, _, by rw [fsStep, halloc, hopened, ok_bind]; rfl⟩
  | close fd =>
    rcases sysClose_spec hs fd with ⟨hbad, -⟩ | ⟨s₂, hclosed, -⟩
    · exact ⟨_, _, by rw [fsStep, hbad, ok_bind]; rfl⟩
    · exact ⟨_, _, by rw [fsStep, hclosed, ok_bind]; rfl⟩
  | ioctl fd =>
    obtain ⟨r, hr⟩ := fsCall_total (fun _ => true) FsOps.ioctl s fd
    exact ⟨r, s, by rw [fsStep, sysIoctl, hr, ok_bind]; rfl⟩
  | writev fd =>
    obtain ⟨r, hr⟩ := fsCall_total (fun flags => flags &&& FS_WRITE ≠ 0) FsOps.writev s fd
    exact ⟨r, s, by rw [fsStep, sysWritev, hr, ok_bind]; rfl⟩

/-- A close changes nothing or closes its descriptor; the others are as they were. -/
theorem sysClose_others {s s' : FsState} (hs : s.Ok) {fd : Nat} {ret : Int}
    (h : sysClose s fd = .ok (ret, s')) :
    (ret ≠ 0 → s' = s) ∧ ∀ j ≠ fd, fsLookupFile s' j = fsLookupFile s j := by
  rcases sysClose_spec hs fd with ⟨hbad, -⟩ | ⟨s₂, hclosed, -, hrep⟩
  · rw [hbad] at h
    obtain ⟨-, rfl⟩ := Prod.mk.inj (Except.ok.inj h)
    exact ⟨fun _ => rfl, fun _ _ => rfl⟩
  · rw [hclosed] at h
    obtain ⟨rfl, rfl⟩ := Prod.mk.inj (Except.ok.inj h)
    exact ⟨fun hne => absurd rfl hne, hrep.others⟩

/-- A write reaches a handler only through a descriptor that was opened for it. -/
theorem FsInv.writev {libc : Fcntl} {h : List (FsOp × FsCall)} {s : FsState} (hs : FsInv libc h s)
    {fd : Nat} {f : File} (hcall : sysWritev s fd = .ok (.handler f)) :
    s.isOpen fd ∧ ∃ o, origin libc h fd = some o ∧ o.Writable fd := by
  obtain ⟨fp, hlookup, hflags⟩ := fsCall_handler hcall
  have hentry := hs.entries fd
  rw [hlookup] at hentry
  cases horigin : origin libc h fd with
  | none =>
    rw [horigin] at hentry
    cases hentry
  | some o =>
    rw [horigin] at hentry
    have hfp : fp.flags = o.flags fd := Option.some.inj hentry
    rw [hfp] at hflags
    refine ⟨by simp [FsState.isOpen, hlookup], o, rfl, ?_⟩
    exact Origin.writable (fun ho => hs.standard fd (by rw [horigin, ho])) (of_decide_eq_true hflags)

/-- **The descriptor tables stay consistent.** In every state that a run from `fs_init` reaches the two tables
agree and no call faults; opens take the lowest free descriptor and fail only where they should; a close leaves
the other descriptors usable as before; and writes reach handlers only where the descriptor was opened for
writing. -/
theorem FsRun.descriptors {libc : Fcntl} {h : List (FsOp × FsCall)} {s : FsState} (hr : FsRun libc h s) :
    (∀ fd, (hfd : fd < NUM_FDS) → bitmapIsset s.fdAlloc fd = .ok s.fileTable[fd].file.isSome) ∧
    (∀ op, ∃ r s', fsStep libc s op = .ok (r, s')) ∧
    (∀ dirfd pathname flags mode ret s', sysOpenat libc s dirfd pathname flags mode = .ok (ret, s') →
      (0 ≤ ret ∧ Opens s s' ret.toNat ∨ ret < 0 ∧ s' = s) ∧
      (OpenArgs libc dirfd flags mode → KnownPath pathname →
        (ret < 0 ↔ ∀ fd, (hfd : fd < NUM_FDS) → s.fileTable[fd].file ≠ none) ∧
        (ret < 0 → ret = -ENFILE))) ∧
    (∀ fd ret s', sysClose s fd = .ok (ret, s') →
      (ret ≠ 0 → s' = s) ∧
      ∀ j ≠ fd, sysIoctl s' j = sysIoctl s j ∧ sysWritev s' j = sysWritev s j ∧
        (s'.isOpen j ↔ s.isOpen j)) ∧
    (∀ fd f, sysWritev s fd = .ok (.handler f) →
      s.isOpen fd ∧ ∃ o, origin libc h fd = some o ∧ o.Writable fd) := by
  have hinv := hr.inv
  refine ⟨fun fd hfd => ?_, fsStep_total libc hinv.ok, ?_, ?_, fun fd f => hinv.writev⟩
  · have hword : fd / 64 < s.fdAlloc.length := by
      rw [hinv.ok.length]
      unfold NUM_FDS at hfd
      omega
    rw [bitmapIsset_eq (by unfold NUM_FDS at hfd; omega) hword]
    congr 1
    rw [Bool.eq_iff_iff, hinv.ok.bits fd hfd, isOpen_iff hfd]
    exact Option.isSome_iff_ne_none.symm
  · intro dirfd pathname flags mode ret s' hopen
    exact sysOpenat_spec libc hinv.ok hopen
  · intro fd ret s' hclose
    obtain ⟨hfailed, hothers⟩ := sysClose_others hinv.ok hclose
    refine ⟨hfailed, fun j hj => ⟨fsCall_congr (hothers j hj), fsCall_congr (hothers j hj), ?_⟩⟩
    unfold FsState.isOpen
    rw [hothers j hj]

/-- `fcntl.h` with the usual numbers. -/
def usualFcntl : Fcntl := ⟨-100, 3, 0⟩

/-- The exit and the memory device are opened, standard output is closed: the next `open` gets its descriptor. -/
theorem descriptors_reopened :
    ∃ s, FsRun usualFcntl
        [(.close 1, .returned 0), (.ioctl 4, .handler .memFile),
          (.openat (-100) MEM_DEV_PATH O_RDONLY 0, .returned 4),
          (.openat (-100) PLATFORM_EXIT_DEV_PATH O_RDWR 0, .returned 3)] s ∧
      (∀ fd, (hfd : fd < NUM_FDS) → bitmapIsset s.fdAlloc fd = .ok s.fileTable[fd].file.isSome) ∧
      (∃ s', sysOpenat usualFcntl s (-100) PLATFORM_CONSOLE_DEV_PATH O_WRONLY 0 = .ok (1, s') ∧ Opens s s' 1) ∧
      (∃ s', sysClose s 4 = .ok (0, s') ∧ sysIoctl s' 3 = .ok (.handler .exitFile)) ∧
      sysWritev s 1 = .ok (.returned (-EBADF)) ∧ sysWritev s 2 = .ok (.handler .ttyout) ∧ s.isOpen 2 := by
  have hcalls : (do
      let s ← fsInit FsState.boot
      let (r₁, s) ← fsStep usualFcntl s (.openat (-100) PLATFORM_EXIT_DEV_PATH O_RDWR 0)
      let (r₂, s) ← fsStep usualFcntl s (.openat (-100) MEM_DEV_PATH O_RDONLY 0)
      let (r₃, s) ← fsStep usualFcntl s (.ioctl 4)
      let (r₄, s) ← fsStep usualFcntl s (.close 1)
      let (fd, _) ← sysOpenat usualFcntl s (-100) PLATFORM_CONSOLE_DEV_PATH O_WRONLY 0
      let (ret, _) ← sysClose s 4
      let exit ← sysIoctl s 3
      let out ← sysWritev s 1
      let err ← sysWritev s 2
      return ([r₁, r₂, r₃, r₄], fd, ret, [exit, out, err])) =
      .ok ([.returned 3, .returned 4, .handler .memFile, .returned 0], 1, 0,
        [.handler .exitFile, .returned (-EBADF), .handler .ttyout]) := by
    decide +kernel
  obtain ⟨s₀, hinit, hcalls⟩ := bind_eq_ok.1 hcalls
  obtain ⟨⟨r₁, s₁⟩, hop₁, hcalls⟩ := bind_eq_ok.1 hcalls
  obtain ⟨⟨r₂, s₂⟩, hop₂, hcalls⟩ := bind_eq_ok.1 hcalls
  obtain ⟨⟨r₃, s₃⟩, hop₃, hcalls⟩ := bind_eq_ok.1 hcalls
  obtain ⟨⟨r₄, s⟩, hop₄, hcalls⟩ := bind_eq_ok.1 hcalls
  obtain ⟨⟨fd, s'⟩, hopen, hcalls⟩ := bind_eq_ok.1 hcalls
  obtain ⟨⟨ret, s''⟩, hclose, hcalls⟩ := bind_eq_ok.1 hcalls
  obtain ⟨exit, hexit, hcalls⟩ := bind_eq_ok.1 hcalls
  obtain ⟨out, hout, hcalls⟩ := bind_eq_ok.1 hcalls
  obtain ⟨err, herr, hcalls⟩ := bind_eq_ok.1 hcalls
  simp only [pure_ok, Except.ok.injEq, Prod.mk.injEq, List.cons.injEq, and_true] at hcalls
  obtain ⟨⟨rfl, rfl, rfl, rfl⟩, rfl, rfl, rfl, rfl, rfl⟩ := hcalls
  have hrun : FsRun usualFcntl _ s := .step (.step (.step (.step (.init hinit) hop₁) hop₂) hop₃) hop₄
  obtain ⟨htables, -, hopens, hcloses, hwrites⟩ := FsRun.descriptors hrun
  refine ⟨s, hrun, htables, ⟨s', hopen, ?_⟩, ⟨s'', hclose, ?_⟩, hout, herr, (hwrites 2 .ttyout herr).1⟩
  · obtain ⟨-, hopened⟩ | ⟨hneg, -⟩ := (hopens _ _ _ _ _ _ hopen).1
    · exact hopened
    · exact absurd hneg (by decide)
  · rw [((hcloses 4 0 s'' hclose).2 3 (by decide)).1, hexit]

end GunyahRuntime
