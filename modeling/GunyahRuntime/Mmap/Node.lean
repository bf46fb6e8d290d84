/-
# GunyahRuntime.Mmap.Node -- one heap and its bitmaps (`mmap.c`)

A heap keeps a bit for each of its pages, set when the page is free (`free_pages`), and a bit for each
block of 64 pages, set when the block has a free page (`avail_blocks`). `update_mmap_range` sets or
clears a range of page bits a word at a time and keeps the blocks in step; `search_free_mmap_range`
looks for a run of free pages, and uses the blocks to skip.
-/
import GunyahRuntime.Bitmap

namespace GunyahRuntime

def PAGE_SIZE : Nat := 4096

/-- `struct mmap_node_s`, without its list links. -/
structure MmapNode where
  base : Nat
  size : Nat
  availBlocks : Bitmap
  freePages : Bitmap
  metaSize : Nat
  deriving DecidableEq, Repr

/-- The update of one word by `update_mmap_range`: `j` is its index. -/
def updateMmapWord (node : MmapNode) (currBit j width : Nat) (mask : BitVec 64) (set : Bool) :
    Exec MmapNode :=
  if set then do
    -- The pages must not be set in the bitmap.
    let field ← bitmapExtract node.freePages currBit width
    cassert (field = 0#64)
    -- Add the pages to the bitmap, and ensure the block is marked as having available pages.
    let freePages ← bitmapInsert node.freePages currBit width mask
    let availBlocks ← bitmapSet node.availBlocks j
    return { node with freePages, availBlocks }
  else do
    -- The pages must be set in the bitmap.
    let avail ← bitmapIsset node.availBlocks j
    cassert avail
    let field ← bitmapExtract node.freePages currBit width
    cassert (field = mask)
    -- If there are no pages remaining in the block, update the block bitmap too.
    let freePages ← bitmapInsert node.freePages currBit width 0#64
    let w ← loadWord freePages j
    if w = 0#64 then do
      let availBlocks ← bitmapClear node.availBlocks j
      return { node with freePages, availBlocks }
    else
      return { node with freePages }

/-- One pass of `update_mmap_range`, from `curr_bit` with `rem_bits` left. -/
def updateMmapPass (startBit : Nat) (set : Bool) (s : MmapNode × Nat × Nat) :
    Exec (MmapNode × Nat × Nat ⊕ MmapNode × Nat × Nat) :=
  let (node, currBit, remBits) := s
  if remBits > 0 then do
    let i := currBit % BITMAP_WORD_BITS
    let j := currBit / BITMAP_WORD_BITS
    cassert (currBit = startBit ∨ i = 0)
    let width := utilMin remBits (sub32 BITMAP_WORD_BITS i)
    let node ← updateMmapWord node currBit j width (utilMaskSafe width) set
    return .inl (node, u32 (currBit + width), sub32 remBits width)
  else
    .ok (.inr s)

/-- `update_mmap_range(node, start_bit, num_bits, set)`. -/
def updateMmapRange (node : MmapNode) (startBit numBits : Nat) (set : Bool) : Exec MmapNode := do
  let (node, currBit, remBits) ←
    Lib.iterate .diverged (updateMmapPass startBit set) (numBits + 1) (node, startBit, numBits)
  cassert (currBit = u32 (startBit + numBits))
  cassert (remBits = 0)
  return node

/-- One pass of `mmap_range_is_free`. -/
def mmapRangePass (node : MmapNode) (startBit : Nat) (s : Nat × Nat) :
    Exec (Nat × Nat ⊕ Option Nat) :=
  let (currBit, remBits) := s
  if remBits > 0 then do
    let i := currBit % BITMAP_WORD_BITS
    cassert (currBit = startBit ∨ i = 0)
    let width := utilMin remBits (sub32 BITMAP_WORD_BITS i)
    let mask := utilMaskSafe width
    let val ← bitmapExtract node.freePages currBit width
    if val ≠ mask then do
      let allocBits := ~~~val &&& mask
      cassert (allocBits ≠ 0#64)
      let msb ← compilerMsb allocBits
      return .inr (some (u32 (u32 (currBit + u32 msb) + 1)))
    else
      return .inl (u32 (currBit + width), sub32 remBits width)
  else
    .ok (.inr none)

/-- `mmap_range_is_free(node, start_bit, num_bits, next_bit)`: `none` is `true`, and `some` is `false`
with what is stored at `next_bit`. -/
def mmapRangeIsFree (node : MmapNode) (startBit numBits : Nat) : Exec (Option Nat) :=
  Lib.iterate .diverged (mmapRangePass node startBit) (numBits + 1) (startBit, numBits)

/-- The check of a range that `search_free_mmap_range` has come to, and its `while` condition. -/
def searchCheck (node : MmapNode) (numBits endBit nextBit : Nat) : Exec (Nat ⊕ Option Nat) := do
  match ← mmapRangeIsFree node nextBit numBits with
  | none => return .inr (some nextBit)
  | some currBit => return if currBit ≤ endBit then .inl currBit else .inr none

/-- One pass of `search_free_mmap_range`, from `curr_bit`. -/
def searchPass (node : MmapNode) (numBits endBit endBlock currBit : Nat) :
    Exec (Nat ⊕ Option Nat) := do
  let currBlock := currBit / BITMAP_WORD_BITS
  match ← bitmapFfs node.availBlocks currBlock endBlock with
  | none => return .inr none
  | some nextBlock =>
    let currBit := utilMax currBit (u32 (nextBlock * BITMAP_WORD_BITS))
    match ← bitmapFfs node.freePages currBit endBit with
    | none => return .inr none
    | some nextBit => searchCheck node numBits endBit nextBit

/-- `search_free_mmap_range(node, ret_bit, num_bits)`: `none` is `false`. -/
def searchFreeMmapRange (node : MmapNode) (numBits : Nat) : Exec (Option Nat) :=
  let nodeBits := u32 (node.size / PAGE_SIZE)
  if numBits > nodeBits then
    .ok none
  else
    let endBit := nodeBits - numBits
    let endBlock := endBit / BITMAP_WORD_BITS
    Lib.iterate .diverged (searchPass node numBits endBit endBlock) (nodeBits + 2) 0

/-! ## The two bitmaps of a node -/

/-- The blocks are in step with the pages, and there is a bit for each. -/
structure MmapNode.InStep (node : MmapNode) : Prop where
  avail : ∀ j, node.availBlocks.get j = decide (node.freePages.getD j 0#64 ≠ 0#64)
  blocks : node.freePages.length ≤ 64 * node.availBlocks.length

/-- What an update of the bitmaps leaves alone. -/
structure SameNode (node node' : MmapNode) : Prop where
  base : node'.base = node.base
  size : node'.size = node.size
  metaSize : node'.metaSize = node.metaSize
  pages : node'.freePages.length = node.freePages.length
  blocks : node'.availBlocks.length = node.availBlocks.length

theorem SameNode.rfl (node : MmapNode) : SameNode node node := ⟨Eq.refl _, Eq.refl _, Eq.refl _, Eq.refl _, Eq.refl _⟩

theorem SameNode.trans {a b c : MmapNode} (h : SameNode a b) (h' : SameNode b c) : SameNode a c :=
  ⟨h'.base.trans h.base, h'.size.trans h.size, h'.metaSize.trans h.metaSize, h'.pages.trans h.pages,
    h'.blocks.trans h.blocks⟩

section

variable {node : MmapNode} (h : node.InStep)

include h

/-- A block without available pages has no free page. -/
theorem MmapNode.InStep.clear {j : Nat} (hj : node.availBlocks.get j = false) {bit : Nat}
    (hbit : bit / 64 = j) : node.freePages.get bit = false := by
  have hzero : node.freePages.getD j 0#64 = 0#64 := by
    rw [h.avail] at hj
    exact not_not.1 (of_decide_eq_false hj)
  have hclear := Bitmap.word_eq_zero.1 hzero (bit % 64) (Nat.mod_lt _ (by decide))
  rwa [show 64 * j + bit % 64 = bit by omega] at hclear

theorem MmapNode.InStep.block_lt {bit : Nat} (hbit : bit < 64 * node.freePages.length) :
    bit / 64 / 64 < node.availBlocks.length := by
  have hblocks := h.blocks
  omega

end

end GunyahRuntime
