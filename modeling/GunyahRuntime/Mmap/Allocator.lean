/-
# GunyahRuntime.Mmap.Allocator -- the page allocator (`mmap.c`, `mem.c`)

Heaps are ranges of pages in a list. The first pages of a heap hold its node and its bitmaps; the others
are handed out by `sys_mmap` and given back by `sys_munmap`. One heap is the break heap: its pages belong
to the program break at first, which moves between `brk_base` and `brk_top`, and `sys_mmap` takes pages
from the top of the break when no bitmap has enough of them. Pages so taken that are given back become
bits of the break heap's bitmap.

Nodes live in the memory they manage. The state holds the node objects by address, and a `memset` over
one destroys it: to use it afterwards is a fault.
-/
import GunyahRuntime.LinkedList
import GunyahRuntime.Mmap.Node
import GunyahRuntime.Lib.Ranges

namespace GunyahRuntime

open Lib (Links)

/-- The statics of `mmap.c` and the nodes in memory. -/
structure MmapState where
  /-- The nodes, without their list links, by address. -/
  nodes : Nat → Option MmapNode
  /-- The `next` and `prev` members of the nodes. -/
  links : Links Nat
  mmapNodeList : Nat
  mmapBrkNode : Nat
  mmapTotalSize : Nat
  mmapAllocSize : Nat
  brkBase : Nat
  brkTop : Nat
  curBrk : Nat

/-- The statics before the first call. -/
def MmapState.initial : MmapState where
  nodes := fun _ => none
  links := ⟨fun _ => 0, fun _ => 0⟩
  mmapNodeList := 0
  mmapBrkNode := 0
  mmapTotalSize := 0
  mmapAllocSize := 0
  brkBase := 0
  brkTop := 0
  curBrk := 0

/-- `sizeof(mmap_node_t)`. -/
def MMAP_NODE_SIZE : Nat := 56

/-- `util_balign_up(x, PAGE_SIZE)`. -/
def balignUp (x : Nat) : Nat := u64 (x + (PAGE_SIZE - 1)) / PAGE_SIZE * PAGE_SIZE

/-- `util_is_baligned(x, PAGE_SIZE)`. -/
def isBaligned (x : Nat) : Bool := x % PAGE_SIZE = 0

/-- `util_add_overflows(a, b)`. -/
def addOverflows (a b : Nat) : Bool := a > 18446744073709551615 - b

/-- The bytes of a node at `addr`: the structure and its two bitmaps. -/
def MmapNode.object (node : MmapNode) (addr : Nat) : Lib.Range :=
  ⟨addr, MMAP_NODE_SIZE + 8 * (node.availBlocks.length + node.freePages.length)⟩

/-- `memset(lo, 0, len)`: nodes in the range are gone, and their links are zero. -/
def MmapState.zeroed (st : MmapState) (lo len : Nat) : MmapState :=
  let hits (r : Lib.Range) : Bool := r.base < lo + len ∧ lo < r.stop
  { st with
    nodes := fun a => (st.nodes a).filter fun node => !hits (node.object a)
    links :=
      { next := fun a => if hits ⟨a, MMAP_NODE_SIZE⟩ then 0 else st.links.next a
        prev := fun a => if hits ⟨a, MMAP_NODE_SIZE⟩ then 0 else st.links.prev a } }

/-- A node through its address. -/
def MmapState.loadNode (st : MmapState) (addr : Nat) : Exec MmapNode :=
  match st.nodes addr with
  | some node => .ok node
  | none => .error .badRead

/-- A node with new bitmaps. -/
def MmapState.storeNode (st : MmapState) (addr : Nat) (node : MmapNode) : MmapState :=
  { st with nodes := Function.update st.nodes addr (some node) }

/-- The body of a loop over the nodes that breaks when `test` has a result. -/
def MmapState.findBody {β : Type} (st : MmapState) (test : Nat → MmapNode → Exec (Option β)) :
    Unit → Nat → Exec (Unit ⊕ β) := fun _ addr => do
  let node ← st.loadNode addr
  let found ← test addr node
  return match found with
    | none => .inl ()
    | some b => .inr b

/-- A loop over the nodes that breaks at the first one for which `test` has a result. -/
def MmapState.findNode {β : Type} (st : MmapState) (test : Nat → MmapNode → Exec (Option β)) :
    Exec (Option β) := do
  let r ← loopList st.links (st.findBody test) st.mmapNodeList ()
  return r.elim (fun _ => none) some

/-- `sys_brk(brk)`: what it returns is `cur_brk` after it. -/
def sysBrk (st : MmapState) (brk : Nat) : MmapState :=
  let newBrk := balignUp brk
  if newBrk ≥ st.brkBase ∧ newBrk ≤ st.brkTop then { st with curBrk := newBrk } else st

/-! ## `alloc_mmap` and `free_mmap` -/

/-- The search of a node by `alloc_mmap`: where the pages are, and the node with their bits cleared. -/
def allocTest (numBits addr : Nat) (node : MmapNode) : Exec (Option (Nat × MmapNode × Nat)) := do
  match ← searchFreeMmapRange node numBits with
  | none => return none
  | some startBit =>
    let node ← updateMmapRange node startBit numBits false
    return some (addr, node, startBit)

/-- The end of `alloc_mmap`, with the pages found. -/
def allocTake (st : MmapState) (node : MmapNode) (startBit len : Nat) : Exec (Int × MmapState) := do
  let addr := u64 (node.base + u64 (startBit * PAGE_SIZE))
  cassert (isBaligned addr)
  cassert (addr ≥ node.base)
  cassert (u64 (addr + len) ≤ u64 (node.base + node.size))
  let st := { st with mmapAllocSize := u64 (st.mmapAllocSize + len) }
  return (toInt64 addr, st.zeroed addr len)

/-- `alloc_mmap`, when no bitmap has the pages: some memory is stolen from the top of the break. -/
def allocSteal (st : MmapState) (len : Nat) : Exec (Int × MmapState) :=
  if len ≤ sub64 st.brkTop st.curBrk then do
    let st := { st with brkTop := sub64 st.brkTop len }
    -- the pages at the new top; their bits are clear already
    let node ← st.loadNode st.mmapBrkNode
    allocTake st node (u32 (sub64 st.brkTop node.base / PAGE_SIZE)) len
  else
    .ok (-ENOMEM, st)

/-- `alloc_mmap(len)`. -/
def allocMmap (st : MmapState) (len : Nat) : Exec (Int × MmapState) := do
  cassert (isBaligned len)
  cassert (st.curBrk ≤ st.brkTop)
  -- no search can succeed
  if len > st.mmapTotalSize then
    return (-ENOMEM, st)
  else
    -- Search for a free range in the bitmaps.
    match ← st.findNode (allocTest (u32 (len / PAGE_SIZE))) with
    | some (addr, node, startBit) => allocTake (st.storeNode addr node) node startBit len
    | none => allocSteal st len

/-- The node of a range, for `free_mmap`. -/
def freeTest (addr len a : Nat) (node : MmapNode) : Exec (Option (Nat × MmapNode)) :=
  .ok (if addr ≥ node.base ∧ u64 (addr + len) ≤ u64 (node.base + node.size) then some (a, node)
    else none)

/-- `free_mmap(addr, len)`. -/
def freeMmap (st : MmapState) (addr len : Nat) : Exec (Int × MmapState) := do
  cassert (!addOverflows addr len)
  cassert (isBaligned addr)
  cassert (isBaligned len)
  match ← st.findNode (freeTest addr len) with
  | none => return (-EINVAL, st)
  | some (a, node) =>
    let startBit := u32 (sub64 addr node.base / PAGE_SIZE)
    let node ← updateMmapRange node startBit (u32 (len / PAGE_SIZE)) true
    let st := st.storeNode a node
    return (0, { st with mmapAllocSize := sub64 st.mmapAllocSize len })

def MAP_PRIVATE : Nat := 2
def MAP_ANONYMOUS : Nat := 32
def PROT_READ : Nat := 1
def PROT_WRITE : Nat := 2

/-- What `sys_mmap` accepts. -/
def mmapArgsOk (addr len prot flags : Nat) (fd : Int) (off : Nat) : Bool :=
  addr = 0 ∧ len ≠ 0 ∧ isBaligned len ∧ flags = MAP_ANONYMOUS ||| MAP_PRIVATE ∧
    prot = PROT_READ ||| PROT_WRITE ∧ fd = -1 ∧ off = 0

/-- `sys_mmap(addr, len, prot, flags, fd, off)`. -/
def sysMmap (st : MmapState) (addr len prot flags : Nat) (fd : Int) (off : Nat) :
    Exec (Int × MmapState) :=
  if mmapArgsOk addr len prot flags fd off then allocMmap st len else .ok (-EINVAL, st)

/-- What `sys_munmap` accepts. -/
def munmapArgsOk (addr len : Nat) : Bool :=
  addr ≠ 0 ∧ len ≠ 0 ∧ !addOverflows addr len ∧ isBaligned addr ∧ isBaligned len

/-- `sys_munmap(addr, len)`. -/
def sysMunmap (st : MmapState) (addr len : Nat) : Exec (Int × MmapState) :=
  if munmapArgsOk addr len then freeMmap st addr len else .ok (-EINVAL, st)

/-! ## Heaps -/

/-- The words of the two bitmaps that `mmap_add_heap` makes for `num_pages` pages. -/
def availWords (numPages : Nat) : Nat := bitmapNumWords (bitmapNumWords numPages)
def pageWords (numPages : Nat) : Nat := bitmapNumWords numPages

/-- `meta_size` of a heap of `size` bytes. -/
def metaSize (size : Nat) : Nat :=
  let numPages := u32 (size / PAGE_SIZE)
  let totalWords := u32 (availWords numPages + pageWords numPages)
  u64 (MMAP_NODE_SIZE + totalWords * 8)

/-- `meta_size_align` of a heap of `size` bytes. -/
def metaSizeAlign (size : Nat) : Nat := balignUp (metaSize size)

/-- A heap's node as `mmap_add_heap` first writes it, with empty bitmaps. -/
def freshNode (base size : Nat) : MmapNode :=
  let numPages := u32 (size / PAGE_SIZE)
  { base, size
    availBlocks := List.replicate (availWords numPages) 0#64
    freePages := List.replicate (pageWords numPages) 0#64
    metaSize := metaSizeAlign size }

/-- The pages of a new heap go to the program break, or to the bitmaps. -/
def addPages (st : MmapState) (node : MmapNode) (base size : Nat) (isBrk : Bool) :
    Exec (MmapNode × MmapState) :=
  if isBrk then do
    -- one heap has the break, and its bitmap starts out empty
    cassert (st.mmapBrkNode = 0)
    let start := u64 (base + node.metaSize)
    return (node, { st with
      mmapBrkNode := base, brkBase := start, curBrk := start, brkTop := u64 (base + size) })
  else do
    -- the pages behind the metadata, all free
    let metaBits := u32 (node.metaSize / PAGE_SIZE)
    let node ← updateMmapRange node metaBits (sub32 (u32 (size / PAGE_SIZE)) metaBits) true
    return (node, st)

/-- `mmap_add_heap(base, size, is_brk)`. -/
def mmapAddHeap (st : MmapState) (base size : Nat) (isBrk : Bool) : Exec (Int × MmapState) := do
  cassert (size ≠ 0)
  cassert (isBaligned base)
  cassert (isBaligned size)
  cassert (!addOverflows base size)
  if metaSizeAlign size ≥ size then
    return (-ENOMEM, st)
  -- the node is written through its address, and `NULL` is none
  else if base = 0 then
    .error .badWrite
  else do
    let st := st.zeroed base (metaSize size)
    let (node, st) ← addPages st (freshNode base size) base size isBrk
    let st := st.storeNode base node
    let st := { st with mmapTotalSize := u64 (st.mmapTotalSize + size) }
    let (links, mmapNodeList) ← listAppend st.links st.mmapNodeList base
    return (0, { st with links, mmapNodeList })

/-- The node of a heap, for `is_mmap_node_free`. -/
def heapTest (base size a : Nat) (node : MmapNode) : Exec (Option (Nat × MmapNode)) :=
  .ok (if base = node.base ∧ size = node.size then some (a, node) else none)

/-- `is_mmap_node_free(base, size, node_ret)`: the code, and the node if it is zero. -/
def isMmapNodeFree (st : MmapState) (base size : Nat) : Exec (Int × Nat) := do
  cassert (size ≠ 0)
  cassert (isBaligned base)
  cassert (isBaligned size)
  cassert (!addOverflows base size)
  match ← st.findNode (heapTest base size) with
  | none => return (-EINVAL, 0)
  | some (a, node) =>
    if a = st.mmapBrkNode then
      return (-EINVAL, 0)
    else do
      let startBit := u32 (node.metaSize / PAGE_SIZE)
      let endBit := sub32 (u32 (size / PAGE_SIZE)) 1
      -- a clear bit behind the metadata is a page in use
      let allocBit ← bitmapFfc node.freePages startBit endBit
      return if allocBit.isSome then (-EBUSY, 0) else (0, a)

/-- `mmap_remove_heap(base, size)`. -/
def mmapRemoveHeap (st : MmapState) (base size : Nat) : Exec (Int × MmapState) := do
  let (err, node) ← isMmapNodeFree st base size
  if err ≠ 0 then
    return (err, st)
  else do
    let (links, mmapNodeList) ← listRemove st.links st.mmapNodeList node
    return (0, { st with
      links, mmapNodeList, mmapTotalSize := sub64 st.mmapTotalSize size })

/-- `mmap_heap_is_free(base, size)`. -/
def mmapHeapIsFree (st : MmapState) (base size : Nat) : Exec Int := do
  let (err, _) ← isMmapNodeFree st base size
  return err

/-! ## Statistics -/

/-- `allocator_stats_t`. -/
structure AllocatorStats where
  info : Nat
  total : Nat
  allocated : Nat
  reserved : Nat
  largestFree : Nat
  deriving DecidableEq, Repr

/-- One pass over a heap's bits: the next free run, from `curr_bit`. -/
def freeRunPass (node : MmapNode) (endBit : Nat) (s : Nat × Nat) : Exec (Nat × Nat ⊕ Nat) :=
  let (currBit, freeBits) := s
  if currBit ≤ endBit then do
    match ← bitmapFfs node.freePages currBit endBit with
    | none => return .inr freeBits
    | some nextBit =>
      let found ← bitmapFfc node.freePages nextBit endBit
      -- a run that no clear bit ends goes up to the last page
      let currBit := found.getD (u32 (endBit + 1))
      cassert (currBit > nextBit)
      return .inl (currBit, utilMax (sub32 currBit nextBit) freeBits)
  else
    .ok (.inr freeBits)

/-- The body of the loop of `mmap_heap_get_stats`, on `reserved_size` and `free_bits`. -/
def statsNode (st : MmapState) (s : Nat × Nat) (addr : Nat) : Exec (Nat × Nat ⊕ Empty) := do
  let node ← st.loadNode addr
  let endBit := sub32 (u32 (node.size / PAGE_SIZE)) 1
  let freeBits ← Lib.iterate .diverged (freeRunPass node endBit) (endBit + 2) (0, s.2)
  return .inl (u64 (s.1 + node.metaSize), freeBits)

/-- `mmap_heap_get_stats(stats)`. -/
def mmapHeapGetStats (st : MmapState) : Exec (Int × AllocatorStats) := do
  match ← loopList st.links (statsNode st) st.mmapNodeList (0, 0) with
  | .inl (reservedSize, freeBits) =>
    return (0, {
      info := 1
      total := st.mmapTotalSize
      allocated := u64 (st.mmapAllocSize + sub64 st.curBrk st.brkBase)
      reserved := reservedSize
      largestFree := u64 (freeBits * PAGE_SIZE) })
  | .inr e => nomatch e

/-! ## `mem.c` -/

/-- `mem_range_is_valid(range)`. -/
def memRangeIsValid (range : Lib.Range) : Bool :=
  range.base ≠ 0 ∧ range.size ≠ 0 ∧ isBaligned range.base ∧ isBaligned range.size ∧
    !addOverflows range.base range.size

/-- The requests of `mem_ioctl`. -/
inductive MemIoctl where
  | addHeap (range : Lib.Range)
  | removeHeap (range : Lib.Range)
  | heapIsFree (range : Lib.Range)
  | heapGetStats
  /-- Any other command. -/
  | other
  deriving DecidableEq, Repr

/-- `mem_ioctl(cmd, arg)`, with the statistics it writes to `arg`. -/
def memIoctl (st : MmapState) : MemIoctl → Exec (Int × Option AllocatorStats × MmapState)
  | .addHeap range =>
    if memRangeIsValid range then do
      let (ret, st) ← mmapAddHeap st range.base range.size false
      return (ret, none, st)
    else .ok (-EINVAL, none, st)
  | .removeHeap range =>
    if memRangeIsValid range then do
      let (ret, st) ← mmapRemoveHeap st range.base range.size
      return (ret, none, st)
    else .ok (-EINVAL, none, st)
  | .heapIsFree range =>
    if memRangeIsValid range then do
      let ret ← mmapHeapIsFree st range.base range.size
      return (ret, none, st)
    else .ok (-EINVAL, none, st)
  | .heapGetStats => do
    let (ret, stats) ← mmapHeapGetStats st
    return (ret, some stats, st)
  | .other => .ok (-EINVAL, none, st)

end GunyahRuntime
