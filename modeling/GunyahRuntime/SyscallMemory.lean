/-
# GunyahRuntime.SyscallMemory -- the memory that the application is given

`brk`, `mmap` and `munmap` are calls of their own; heaps come and go and are looked at through the memory device. All
of them are requests to one allocator, whatever else the application does in between. The history says which requests
there were, and so which arena the application has (`Arena.after`): `Reached.memory_served` says that the statics of the
allocator stand for it, that a call which makes a request is answered as the arena answers it, and that every other call
leaves it alone.
-/
import GunyahRuntime.SyscallSafe
import GunyahRuntime.Mmap.Arena

namespace GunyahRuntime

/-! ## Requests -/

/-- The request that a call makes, where `file` says what descriptors stand for. -/
def Call.request (c : Call) (file : Nat → Option File) : Option Op :=
  match sysNumOf c.sysNum with
  | some .brk => some (.brk (c.arg 0))
  | some .mmap => some (.mmap (c.arg 0) (c.arg 1) (c.arg32 2) (c.arg32 3) (c.argInt 4) (c.arg 5))
  | some .munmap => some (.munmap (c.arg 0) (c.arg 1))
  | some .ioctl =>
    if file (c.arg32 0) = some .memFile then (memIoctlAt c.mem (c.arg32 1) (c.arg 2)).toOption.map .ioctl else none
  | _ => none

/-- The arena after the calls of a history. -/
def Arena.after (a : Arena) : History → Arena
  | [] => a
  | (c, _) :: h =>
    match c.request (heldFile h) with
    | some op => ((a.after h).step op).2
    | none => a.after h

/-- The heap that `elf_setup` leaves to the application. -/
def BootData.heap (d : BootData) : Lib.Range := ⟨u64 (d.appHeapIpa + 16384), d.appHeapSize - 16384⟩

/-- A request is an allowed one, if the call makes any. -/
def Call.RequestAllowed (rt : Runtime) (c : Call) : Prop := ∀ op, c.request rt.fs.fileAt = some op → op.Allowed rt.mem

/-- Answered as a request of an arena, with the statistics at the address of the third argument. -/
def Outcome.Replies (o : Outcome) (c : Call) (r : Reply) : Prop :=
  ∃ rt', o = .returned (UInt64.ofInt r.ret) (r.stats.toList.map (Store.stats (c.arg 2))) rt'

/-! ## One call -/

theorem Op.Allowed.allows {s : Sys} {a : Arena} (hs : s.Shows a) {op : Op} (hop : op.Allowed s) : a.Allows op := by
  obtain ⟨htyped, hop⟩ := hop
  refine ⟨htyped, ?_⟩
  cases op with
  | munmap addr len =>
    intro _ h _ _ x hx
    rw [← hs.live]
    exact hop.2.2.2 x hx
  | ioctl req =>
    cases req with
    | addHeap r =>
      intro _
      rw [← hs.heaps]
      exact hop.2
    | _ => trivial
  | _ => trivial

/-- Statistics are given for one request only. -/
theorem Arena.step_stats {a : Arena} {op : Op} (hop : ∀ req, op ≠ .ioctl req) : (a.step op).1.stats = none := by
  cases op with
  | brk x => rfl
  | mmap addr len prot flags fd off =>
    unfold Arena.step Arena.map
    dsimp only
    split
    · split
      · rfl
      · split <;> rfl
    · rfl
  | munmap addr len =>
    unfold Arena.step
    dsimp only
    split <;> rfl
  | ioctl req => exact absurd rfl (hop req)

section Step

variable {env : Env} {c : Call} {rt : Runtime} {a : Arena}

theorem memRequest_shows (hs : rt.mem.Shows a) {op : Op} (hop : op.Allowed rt.mem)
    {r : Int × Option AllocatorStats × Runtime} (h : rt.memRequest env c op = .ok r) :
    r.1 = (a.step op).1.ret ∧ r.2.1 = (a.step op).1.stats ∧ r.2.2.mem.Shows (a.step op).2 := by
  obtain ⟨st', hreq, hshows⟩ := hs.request (hop.allows hs)
  unfold Runtime.memRequest at h
  rw [hreq, ok_bind] at h
  obtain ⟨said, -, h⟩ := bind_eq_ok.1 h
  obtain rfl := Except.ok.inj h
  exact ⟨rfl, rfl, hshows⟩

theorem sysMem_shows (hs : rt.mem.Shows a) {op : Op} (hop : op.Allowed rt.mem) (hnot : ∀ req, op ≠ .ioctl req)
    {o : Outcome} (h : Answer.outcome <$> rt.sysMem env c op = .ok o) :
    o.Replies c (a.step op).1 ∧ o.rt.mem.Shows (a.step op).2 := by
  obtain ⟨ans, hans, rfl⟩ := outcome_map h
  obtain ⟨r, hr, hans⟩ := bind_eq_ok.1 hans
  obtain rfl := Except.ok.inj hans
  obtain ⟨hret, -, hshows⟩ := memRequest_shows hs hop hr
  refine ⟨⟨r.2.2, ?_⟩, hshows⟩
  rw [Arena.step_stats hnot, ← hret]
  rfl

/-- An ioctl on the memory device makes the request that its argument holds. -/
theorem request_memFile {file : Nat → Option File} (hnum : sysNumOf c.sysNum = some .ioctl)
    (hfile : file (c.arg32 0) = some .memFile) {req : MemIoctl} (hreq : memIoctlAt c.mem (c.arg32 1) (c.arg 2) = .ok req) :
    c.request file = some (.ioctl req) := by
  unfold Call.request
  rw [hnum]
  dsimp only
  rw [if_pos hfile, hreq]
  rfl

/-- The ioctl of the memory device. -/
theorem memFile_call {o : Outcome} (hnum : sysNumOf c.sysNum = some .ioctl)
    (hfile : sysIoctl rt.fs (c.arg32 0) = .ok (.handler .memFile)) (hcall : rt.aarch64DoSyscall env c = .ok o) :
    ∃ req r, memIoctlAt c.mem (c.arg32 1) (c.arg 2) = .ok req ∧ rt.memRequest env c (.ioctl req) = .ok r ∧
      o = Answer.outcome ⟨r.1, r.2.1.toList.map (Store.stats (c.arg 2)), r.2.2⟩ := by
  unfold Runtime.aarch64DoSyscall at hcall
  rw [hnum] at hcall
  obtain ⟨ans, hans, rfl⟩ := outcome_map hcall
  unfold Runtime.sysIoctl at hans
  rw [hfile, ok_bind] at hans
  obtain ⟨req, hreq, hans⟩ := bind_eq_ok.1 hans
  obtain ⟨r, hr, hans⟩ := bind_eq_ok.1 hans
  obtain rfl := Except.ok.inj hans
  exact ⟨req, r, hreq, hr, rfl⟩

/-- What touches the allocator makes a request. -/
theorem request_of_touches {o : Outcome} (hcall : rt.aarch64DoSyscall env c = .ok o) (hmem : .memory ∈ c.touches rt) :
    ∃ op, c.request rt.fs.fileAt = some op := by
  unfold Call.touches at hmem
  cases hnum : sysNumOf c.sysNum with
  | none =>
    rw [hnum] at hmem
    cases hmem
  | some num =>
    rw [hnum] at hmem
    cases num
    case brk | mmap | munmap =>
      unfold Call.request
      rw [hnum]
      exact ⟨_, rfl⟩
    case ioctl =>
      obtain ⟨f, hf, hpart⟩ := mem_fdParts hmem
      cases f
      case memFile =>
        obtain ⟨req, r, hreq, -, -⟩ := memFile_call hnum hf hcall
        exact ⟨_, request_memFile hnum (sysIoctl_fileAt hf) hreq⟩
      case ttyin | ttyout =>
        unfold File.parts at hpart
        dsimp only at hpart
        split at hpart <;> simp at hpart
      all_goals simp [File.parts] at hpart
    all_goals simp at hmem

/-- **One call**: a request is answered as in the arena, and a call that makes none leaves the allocator alone. -/
theorem aarch64DoSyscall_shows (hs : rt.mem.Shows a) (hc : c.RequestAllowed rt) {o : Outcome}
    (hcall : rt.aarch64DoSyscall env c = .ok o) :
    match c.request rt.fs.fileAt with
    | some op => o.Replies c (a.step op).1 ∧ o.rt.mem.Shows (a.step op).2
    | none => o.rt.mem = rt.mem := by
  cases hreq : c.request rt.fs.fileAt with
  | none =>
    dsimp only
    refine (aarch64DoSyscall_changes hcall).kept (p := .memory) fun hmem => ?_
    obtain ⟨op, hop⟩ := request_of_touches hcall hmem
    rw [hreq] at hop
    cases hop
  | some op =>
    have hop := hc op hreq
    unfold Call.request at hreq
    dsimp only
    cases hnum : sysNumOf c.sysNum with
    | none =>
      rw [hnum] at hreq
      cases hreq
    | some num =>
      rw [hnum] at hreq
      cases num
      case brk | mmap | munmap =>
        obtain rfl := Option.some.inj hreq
        unfold Runtime.aarch64DoSyscall at hcall
        rw [hnum] at hcall
        exact sysMem_shows hs hop (fun req => by simp) hcall
      case ioctl =>
        dsimp only at hreq
        split at hreq
        · next hfile =>
          obtain ⟨req, r, hioctl, hr, rfl⟩ := memFile_call hnum (sysIoctl_of_fileAt hfile rfl) hcall
          rw [hioctl] at hreq
          obtain rfl := Option.some.inj hreq
          obtain ⟨hret, hstats, hshows⟩ := memRequest_shows hs hop hr
          refine ⟨⟨r.2.2, ?_⟩, hshows⟩
          rw [← hret, ← hstats]
          rfl
        · cases hreq
      all_goals cases hreq

end Step

/-! ## Runs -/

section Runs

variable {env : Env} {d : BootData} {rt : Runtime} {h : History}

theorem boot_shows (hsize : d.appHeapSize < 8796093022208) (hboot : Runtime.boot env d = .ok rt) :
    rt.mem.Shows (.start d.heap) := by
  obtain ⟨st, hst, hmem⟩ := boot_mem hboot
  rw [hmem]
  exact elfSetup_shows hsize hst

theorem Holds.fileAt {s : FsState} (hh : Holds h s) : s.fileAt = heldFile h := funext hh.files

theorem Run.shows {rt₀ : Runtime} {a : Arena} (hs : rt₀.mem.Shows a) (hh : Holds [] rt₀.fs)
    (hr : Run Call.RequestAllowed env [] rt₀ h rt) : rt.mem.Shows (a.after h) := by
  induction hr with
  | refl => exact hs
  | @call h rt rt' c x0 stores hrun hc hcall ih =>
    have hstep := aarch64DoSyscall_shows ih hc hcall
    rw [(hrun.holds hh).fileAt] at hstep
    unfold Arena.after
    cases hreq : c.request (heldFile h) with
    | none =>
      rw [hreq] at hstep
      have hsame : rt'.mem = rt.mem := hstep
      dsimp only
      rw [hsame]
      exact ih
    | some op =>
      rw [hreq] at hstep
      exact hstep.2

theorem Reached.shows (hsize : d.appHeapSize < 8796093022208) (hr : Reached Call.RequestAllowed env d h rt) :
    rt.mem.Shows ((Arena.start d.heap).after h) := by
  obtain ⟨rt₀, hboot, hrun⟩ := hr
  exact hrun.shows (boot_shows hsize hboot) (fsInit_holds (boot_fs hboot))

/-- **The memory of the application is the arena of its history.** After the boot and any run of calls whose requests are
allowed, the statics of the allocator stand for the arena that the requests lead to, one after the other; and the next
call, if it makes a request, is answered as that arena answers it, and leaves the allocator alone otherwise. -/
theorem Reached.memory_served (hsize : d.appHeapSize < 8796093022208) (hr : Reached Call.RequestAllowed env d h rt) :
    rt.mem.Shows ((Arena.start d.heap).after h) ∧
      ∀ c o, c.RequestAllowed rt → rt.aarch64DoSyscall env c = .ok o →
        match c.request (heldFile h) with
        | some op => o.Replies c (((Arena.start d.heap).after h).step op).1
        | none => o.rt.mem = rt.mem := by
  have hs := hr.shows hsize
  refine ⟨hs, fun c o hc hcall => ?_⟩
  have hstep := aarch64DoSyscall_shows hs hc hcall
  rw [hr.holds.fileAt] at hstep
  cases hreq : c.request (heldFile h) with
  | none =>
    rw [hreq] at hstep
    exact hstep
  | some op =>
    rw [hreq] at hstep
    exact hstep.1

end Runs

/-- `mmap` of fifteen pages, all that the heap of the boot has. -/
def mapFifteenPages : Call := .plain 222 #v[0, 61440, 3, 34, 0xffffffffffffffff, 0] tenSeconds

theorem requestAllowed_mmap {c : Call} (hnum : sysNumOf c.sysNum = some .mmap) (rt : Runtime) : c.RequestAllowed rt := by
  intro op hop
  unfold Call.request at hop
  rw [hnum] at hop
  obtain rfl := Option.some.inj hop
  exact c.mmap_allowed rt.mem

/-- After two pages were mapped, a call for fifteen is answered. -/
theorem exists_mapped_answer : ∃ rt o, Reached Call.RequestAllowed stillEnv resetData [(mapTwoPages, 139264)] rt ∧
    rt.aarch64DoSyscall stillEnv mapFifteenPages = .ok o := by
  obtain ⟨rt₀, hboot, -⟩ := exists_booted
  obtain ⟨hs₀, hstart, hlt₀⟩ := boot_sound resetData_plausible hboot
  obtain ⟨rt, hcall, -, -⟩ := mapTwoPages_maps hboot rfl hs₀
  have hsane : Run (Call.Sane stillEnv) stillEnv [] rt₀ _ rt := .call .refl (show mapTwoPages.Sane _ _ by
    unfold Call.Sane
    trivial) hcall
  obtain ⟨hs, hmem⟩ := hsane.sane hs₀ (hstart.reachable hlt₀)
  obtain ⟨hi, hlt⟩ := hmem.inv
  obtain ⟨o, ho⟩ := aarch64DoSyscall_total hs hi hlt resetData_plausible.clock (show mapFifteenPages.Sane _ _ by
    unfold Call.Sane
    trivial)
  have hallowed : mapTwoPages.RequestAllowed rt₀ := requestAllowed_mmap (by decide) rt₀
  exact ⟨rt, o, ⟨rt₀, hboot, .call .refl hallowed hcall⟩, ho⟩

/-- After the boot two pages are mapped at the top of the break, and then there is no room for fifteen. -/
theorem Reached.memory_served_mapped : ∃ rt rt', Reached Call.RequestAllowed stillEnv resetData [(mapTwoPages, 139264)] rt ∧
    rt.mem.live = [⟨139264, 8192⟩] ∧
    rt.aarch64DoSyscall stillEnv mapFifteenPages = .ok (.returned (UInt64.ofInt (-ENOMEM)) [] rt') := by
  obtain ⟨rt, o, hr, ho⟩ := exists_mapped_answer
  obtain ⟨hshows, hserved⟩ := Reached.memory_served (by decide) hr
  obtain ⟨rt', hreplies⟩ := hserved mapFifteenPages o (requestAllowed_mmap (by decide) rt) ho
  have hlive : ((Arena.start resetData.heap).after [(mapTwoPages, 139264)]).live = [⟨139264, 8192⟩] := by
    show ((Arena.start resetData.heap).step (.mmap 0 8192 3 34 (-1) 0)).2.live = _
    decide +kernel
  have hreply : (((Arena.start resetData.heap).step (.mmap 0 8192 3 34 (-1) 0)).2.step (.mmap 0 61440 3 34 (-1) 0)).1 =
      ⟨-ENOMEM, none⟩ := by
    decide +kernel
  change o = .returned (UInt64.ofInt (((Arena.start resetData.heap).step (.mmap 0 8192 3 34 (-1) 0)).2.step
    (.mmap 0 61440 3 34 (-1) 0)).1.ret) ((((Arena.start resetData.heap).step (.mmap 0 8192 3 34 (-1) 0)).2.step
    (.mmap 0 61440 3 34 (-1) 0)).1.stats.toList.map _) rt' at hreplies
  rw [hreply] at hreplies
  subst hreplies
  exact ⟨rt, rt', hr, hshows.live.trans hlive, ho⟩

end GunyahRuntime
