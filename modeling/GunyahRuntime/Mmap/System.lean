/-
# GunyahRuntime.Mmap.System -- the allocator as a system of requests

The application sends requests in any order. Beside the allocator's own state a system state records
which heaps are registered and which ranges are mapped: what was handed out and not given back. From
these two lists and the break one can say which pages ought to be free (`Sys.Free`); `Inv` says that
the bitmaps hold just those, that the list holds just the heaps, and that the counters add up.
-/
import GunyahRuntime.Mmap.Allocator

namespace GunyahRuntime

open Lib (Range Covers)

/-- `elf_setup`, as far as the break heap goes: the stack stays below it. -/
def elfSetup (appHeapIpa appHeapSize : Nat) : Exec MmapState := do
  let stackSize := 16384
  cassert (appHeapSize > stackSize)
  let (ret, st) ←
    mmapAddHeap .initial (u64 (appHeapIpa + stackSize)) (appHeapSize - stackSize) true
  cassert (ret = 0)
  return st

/-- The allocator, with the registered heaps in list order and the live mappings. -/
structure Sys where
  st : MmapState
  heaps : List Range
  live : List Range

/-- The requests an application can make. -/
inductive Op where
  | brk (brk : Nat)
  | mmap (addr len prot flags : Nat) (fd : Int) (off : Nat)
  | munmap (addr len : Nat)
  | ioctl (req : MemIoctl)

/-- A system call has failed if it returns a negated error number. -/
def isError (ret : Int) : Bool := -4096 < ret ∧ ret < 0

/-- The address that a pointer-sized result stands for. -/
def addrOf (ret : Int) : Nat := (ret % 18446744073709551616).toNat

/-- The registered heaps after a request that returned `ret`. -/
def heapsAfter (heaps : List Range) (ret : Int) : MemIoctl → List Range
  | .addHeap range => if ret = 0 then heaps ++ [range] else heaps
  | .removeHeap range => if ret = 0 then heaps.erase range else heaps
  | _ => heaps

/-- One request. -/
def Sys.step (s : Sys) : Op → Exec Sys
  | .brk brk => .ok { s with st := sysBrk s.st brk }
  | .mmap addr len prot flags fd off => do
    let (ret, st) ← sysMmap s.st addr len prot flags fd off
    return { s with st, live := if isError ret then s.live else s.live ++ [⟨addrOf ret, len⟩] }
  | .munmap addr len => do
    let (ret, st) ← sysMunmap s.st addr len
    return { s with st, live := if ret = 0 then Lib.cut s.live ⟨addr, len⟩ else s.live }
  | .ioctl req => do
    let (ret, _, st) ← memIoctl s.st req
    return { s with st, heaps := heapsAfter s.heaps ret req }

/-- A request to the allocator: what it returns, the statistics, and the statics after it. -/
def MmapState.request (st : MmapState) : Op → Exec (Int × Option AllocatorStats × MmapState)
  | .brk brk => .ok ((sysBrk st brk).curBrk, none, sysBrk st brk)
  | .mmap addr len prot flags fd off => do
    let (ret, st) ← sysMmap st addr len prot flags fd off
    return (ret, none, st)
  | .munmap addr len => do
    let (ret, st) ← sysMunmap st addr len
    return (ret, none, st)
  | .ioctl req => memIoctl st req

/-- The record of the heaps and the live mappings, after a request that returned `ret`. -/
def Sys.record (s : Sys) (ret : Int) (st : MmapState) : Op → Sys
  | .brk _ => { s with st }
  | .mmap _ len _ _ _ _ => { s with st, live := if isError ret then s.live else s.live ++ [⟨addrOf ret, len⟩] }
  | .munmap addr len => { s with st, live := if ret = 0 then Lib.cut s.live ⟨addr, len⟩ else s.live }
  | .ioctl req => { s with st, heaps := heapsAfter s.heaps ret req }

/-- A step is a request with its record. -/
theorem step_eq_request (s : Sys) (op : Op) :
    s.step op = (fun r => s.record r.1 r.2.2 op) <$> s.st.request op := by
  cases op with
  | brk brk => rfl
  | mmap addr len prot flags fd off =>
    unfold Sys.step MmapState.request
    dsimp only
    cases sysMmap s.st addr len prot flags fd off <;> rfl
  | munmap addr len =>
    unfold Sys.step MmapState.request
    dsimp only
    cases sysMunmap s.st addr len <;> rfl
  | ioctl req =>
    unfold Sys.step MmapState.request
    dsimp only
    cases memIoctl s.st req <;> rfl

/-- Arguments that fit their types. -/
def Op.Typed : Op → Prop
  | .brk x => x < 18446744073709551616
  | .mmap addr len prot flags _ off =>
    addr < 18446744073709551616 ∧ len < 18446744073709551616 ∧ prot < 4294967296 ∧
      flags < 4294967296 ∧ off < 18446744073709551616
  | .munmap addr len => addr < 18446744073709551616 ∧ len < 18446744073709551616
  | .ioctl (.addHeap range) | .ioctl (.removeHeap range) | .ioctl (.heapIsFree range) =>
    range.base < 18446744073709551616 ∧ range.size < 18446744073709551616
  | .ioctl .heapGetStats | .ioctl .other => True

/-- A range to unmap: pages of one heap that are all mapped. -/
def Sys.Unmappable (s : Sys) (r : Range) : Prop :=
  r.base % PAGE_SIZE = 0 ∧ r.size % PAGE_SIZE = 0 ∧ (∃ h ∈ s.heaps, r.Inside h) ∧
    ∀ x ∈ r, Covers s.live x

/-- The most bytes of a heap whose page count, rounded up to words, fits 32 bits. -/
def HEAP_SIZE_MAX : Nat := 17592185782272

/-- The requests whose page counts fit 32 bits: unmapping of what is mapped, heaps apart from those there
are, and no length that is truncated before it is refused. A range that is not valid, or has no room behind
its metadata, may lie anywhere: it is refused. -/
def Op.Fitting (s : Sys) (op : Op) : Prop :=
  op.Typed ∧
    match op with
    | .mmap _ len _ _ _ _ => len ≤ Lib.total s.heaps → len < 17592186044416
    | .munmap addr len => s.Unmappable ⟨addr, len⟩
    | .ioctl (.addHeap range) =>
      memRangeIsValid range = true → metaSizeAlign range.size < range.size →
        (∀ h ∈ s.heaps, range.Apart h) ∧ range.size ≤ HEAP_SIZE_MAX
    | _ => True

/-- The requests of an application whose heaps together stay below 2^43 bytes. -/
def Op.Allowed (s : Sys) (op : Op) : Prop :=
  op.Typed ∧
    match op with
    | .munmap addr len => s.Unmappable ⟨addr, len⟩
    | .ioctl (.addHeap range) =>
      memRangeIsValid range = true ∧ (∀ h ∈ s.heaps, range.Apart h) ∧
        Lib.total s.heaps + range.size < 8796093022208
    | _ => True

/-- The state that `elf_setup` builds. -/
def Sys.Start (s : Sys) : Prop :=
  ∃ appHeapIpa appHeapSize st, appHeapIpa < 18446744073709551616 ∧
    appHeapSize < 18446744073709551616 ∧ elfSetup appHeapIpa appHeapSize = .ok st ∧
    s = ⟨st, [⟨u64 (appHeapIpa + 16384), appHeapSize - 16384⟩], []⟩

/-- The states that requests of a kind lead to. -/
inductive Sys.Run (ok : Sys → Op → Prop) (s₀ : Sys) : Sys → Prop
  | refl : Sys.Run ok s₀ s₀
  | step {s s' : Sys} {op : Op} (hs : Sys.Run ok s₀ s) (hop : ok s op) (h : s.step op = .ok s') :
      Sys.Run ok s₀ s'

/-- The states that an application reaches whose heaps together stay below 2^43 bytes. -/
def Sys.Reachable (s : Sys) : Prop :=
  ∃ s₀ : Sys, s₀.Start ∧ Lib.total s₀.heaps < 8796093022208 ∧ Sys.Run Op.Allowed s₀ s

/-! ## Pages -/

/-- A range of whole pages. -/
def Paged (r : Range) : Prop := r.base % 4096 = 0 ∧ r.size % 4096 = 0

/-- A range of pages holds an address if it holds the address's page. -/
theorem Paged.mem_iff {r : Range} (h : Paged r) {x : Nat} : x / 4096 * 4096 ∈ r ↔ x ∈ r := by
  obtain ⟨h1, h2⟩ := h
  rw [Range.mem_iff, Range.mem_iff, Range.stop]
  omega

theorem covers_page {L : List Range} (h : ∀ r ∈ L, Paged r) {x : Nat} :
    Covers L (x / 4096 * 4096) ↔ Covers L x := by
  constructor
  · rintro ⟨r, hr, hx⟩
    exact ⟨r, hr, (h r hr).mem_iff.1 hx⟩
  · rintro ⟨r, hr, hx⟩
    exact ⟨r, hr, (h r hr).mem_iff.2 hx⟩

/-- The pages of a heap behind its metadata. -/
def payload (h : Range) : Range := ⟨h.base + metaSizeAlign h.size, h.size - metaSizeAlign h.size⟩

/-- The metadata of a heap. -/
def metadata (h : Range) : Range := ⟨h.base, metaSizeAlign h.size⟩

/-- The part of the break heap that the break may grow over. -/
def MmapState.brkArea (st : MmapState) : Range := ⟨st.brkBase, st.brkTop - st.brkBase⟩

/-- The addresses whose pages ought to be free. -/
def Sys.Free (s : Sys) (x : Nat) : Prop :=
  Covers (s.heaps.map payload) x ∧ ¬ Covers s.live x ∧ x ∉ s.st.brkArea

/-! ## The invariant -/

/-- A range that can be a heap. -/
structure HeapOk (h : Range) : Prop where
  paged : Paged h
  base_ne : h.base ≠ 0
  fits : h.base + h.size < 18446744073709551616
  small : h.size ≤ HEAP_SIZE_MAX
  room : metaSizeAlign h.size < h.size

/-- The node of a heap, if `free` says which pages ought to be free. -/
structure NodeOf (free : Nat → Prop) (h : Range) (node : MmapNode) : Prop where
  base : node.base = h.base
  size : node.size = h.size
  metaSize : node.metaSize = metaSizeAlign h.size
  pages : node.freePages.length = pageWords (h.size / 4096)
  blocks : node.availBlocks.length = availWords (h.size / 4096)
  inStep : node.InStep
  get : ∀ p, node.freePages.get p = true ↔ p < h.size / 4096 ∧ free (h.base + 4096 * p)

/-- The break of a heap. -/
structure BrkOk (st : MmapState) (h : Range) : Prop where
  node : st.mmapBrkNode = h.base
  base : st.brkBase = (payload h).base
  base_le : st.brkBase ≤ st.curBrk
  cur_le : st.curBrk ≤ st.brkTop
  top_le : st.brkTop ≤ h.stop
  cur_paged : st.curBrk % 4096 = 0
  top_paged : st.brkTop % 4096 = 0

/-- A live mapping: pages of one heap, behind its metadata and off the break. -/
structure LiveOk (s : Sys) (r : Range) : Prop where
  paged : Paged r
  pos : 0 < r.size
  inside : ∃ h ∈ s.heaps, r.Inside (payload h)
  off_brk : ∀ x ∈ r, x ∉ s.st.brkArea

/-- **The invariant of the allocator.** -/
structure Inv (s : Sys) : Prop where
  chain : s.st.links.Spells 0 s.st.mmapNodeList (s.heaps.map Range.base)
  node : ∀ h ∈ s.heaps, ∃ node, s.st.nodes h.base = some node ∧ NodeOf s.Free h node
  heap : ∀ h ∈ s.heaps, HeapOk h
  apart : s.heaps.Pairwise Range.Apart
  totalSize : s.st.mmapTotalSize = Lib.total s.heaps
  allocSize : s.st.mmapAllocSize = Lib.total s.live
  brk : ∃ h ∈ s.heaps, BrkOk s.st h
  live : ∀ r ∈ s.live, LiveOk s r
  liveApart : s.live.Pairwise Range.Apart

/-! ## Sizes -/

theorem bitmapNumWords_eq {x : Nat} (h : x ≤ 4294967232) : bitmapNumWords x = (x + 63) / 64 := by
  unfold bitmapNumWords sub32 u32 BITMAP_WORD_BITS
  omega

/-- There is a bit for every page, and a block for every word. -/
theorem pageWords_spec {pages : Nat} (h : pages ≤ 4294967232) :
    pages ≤ 64 * pageWords pages ∧ pageWords pages ≤ 64 * availWords pages ∧
      pageWords pages < 67108864 ∧ availWords pages < 1048577 := by
  have hpages := bitmapNumWords_eq h
  have hblocks := bitmapNumWords_eq (x := (pages + 63) / 64) (by omega)
  unfold availWords pageWords
  rw [hpages, hblocks]
  omega

theorem balignUp_eq {x : Nat} (h : x < 18446744073709547520) :
    balignUp x = (x + 4095) / 4096 * 4096 := by
  unfold balignUp PAGE_SIZE
  rw [u64_of_lt (by omega)]

/-- The metadata of a heap is whole pages, and holds the node. -/
theorem metaSizeAlign_spec {size : Nat} (h : size ≤ HEAP_SIZE_MAX) :
    metaSizeAlign size % 4096 = 0 ∧
      MMAP_NODE_SIZE + 8 * (availWords (size / 4096) + pageWords (size / 4096)) ≤ metaSizeAlign size ∧
      metaSize size ≤ metaSizeAlign size ∧ 0 < metaSizeAlign size ∧
      metaSizeAlign size < 4294967296 := by
  unfold HEAP_SIZE_MAX at h
  have hpages : size / 4096 ≤ 4294967232 := by omega
  obtain ⟨-, -, hwords, hblocks⟩ := pageWords_spec hpages
  have hlt : size / 4096 < 4294967296 := by omega
  unfold metaSizeAlign metaSize MMAP_NODE_SIZE PAGE_SIZE
  dsimp only
  rw [u32_of_lt hlt]
  generalize availWords (size / 4096) = blocks at hblocks ⊢
  generalize pageWords (size / 4096) = words at hwords ⊢
  have hsum : blocks + words < 4294967296 := by omega
  have hmeta : 56 + (blocks + words) * 8 < 18446744073709547520 := by omega
  rw [u32_of_lt hsum, u64_of_lt (hmeta.trans (by decide)), balignUp_eq hmeta]
  clear hpages hlt
  omega

theorem HeapOk.size_pos {h : Range} (hok : HeapOk h) : 0 < h.size := by
  have hroom := hok.room
  omega

theorem HeapOk.pages_pos {h : Range} (hok : HeapOk h) : 0 < h.size / 4096 := by
  have hpos := hok.size_pos
  obtain ⟨-, hsize⟩ := hok.paged
  omega

theorem HeapOk.pages_le {h : Range} (hh : HeapOk h) : h.size / 4096 ≤ 4294967232 := by
  have hsmall := hh.small
  unfold HEAP_SIZE_MAX at hsmall
  omega

theorem HeapOk.numPages_eq {h : Range} (hok : HeapOk h) : u32 (h.size / PAGE_SIZE) = h.size / 4096 :=
  u32_of_lt (hok.pages_le.trans_lt (by decide))

theorem HeapOk.payload_paged {h : Range} (hh : HeapOk h) : Paged (payload h) := by
  obtain ⟨hmeta, -⟩ := metaSizeAlign_spec hh.small
  obtain ⟨h1, h2⟩ := hh.paged
  have hroom := hh.room
  unfold Paged payload
  dsimp only
  omega

theorem HeapOk.payload_inside {h : Range} (hh : HeapOk h) : (payload h).Inside h := by
  have hroom := hh.room
  unfold Range.Inside payload Range.stop
  dsimp only
  omega

theorem HeapOk.payload_stop {h : Range} (hh : HeapOk h) : (payload h).stop = h.stop := by
  have hroom := hh.room
  unfold payload Range.stop
  dsimp only
  omega

theorem HeapOk.metadata_inside {h : Range} (hh : HeapOk h) : (metadata h).Inside h := by
  have hroom := hh.room
  unfold Range.Inside metadata Range.stop
  dsimp only
  omega

/-- A heap is its metadata and its payload. -/
theorem HeapOk.mem_iff {h : Range} (hh : HeapOk h) {x : Nat} :
    x ∈ h ↔ x ∈ metadata h ∨ x ∈ payload h := by
  have hroom := hh.room
  rw [Range.mem_iff, Range.mem_iff, Range.mem_iff]
  unfold metadata payload Range.stop
  dsimp only
  generalize metaSizeAlign h.size = m at hroom ⊢
  omega

theorem metadata_apart (h : Range) : (metadata h).Apart (payload h) := by
  unfold Range.Apart metadata payload Range.stop
  dsimp only
  omega

/-- The object of a heap's node lies in the heap's metadata. -/
theorem NodeOf.object_inside {free : Nat → Prop} {h : Range} {node : MmapNode} (hn : NodeOf free h node)
    (hh : HeapOk h) : (node.object h.base).Inside (metadata h) := by
  obtain ⟨-, hle, -⟩ := metaSizeAlign_spec hh.small
  have hobject : (node.object h.base).stop =
      h.base + (MMAP_NODE_SIZE + 8 * (availWords (h.size / 4096) + pageWords (h.size / 4096))) := by
    rw [← hn.pages, ← hn.blocks]
    rfl
  refine ⟨le_rfl, ?_⟩
  rw [hobject]
  exact Nat.add_le_add_left hle _

end GunyahRuntime
