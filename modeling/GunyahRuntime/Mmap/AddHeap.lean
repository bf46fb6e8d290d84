/-
# GunyahRuntime.Mmap.AddHeap -- `mmap_add_heap`

A new heap gets a node at its base and a place at the end of the list. Its pages behind the metadata are
free, or, for the break heap, belong to the break. A range that is apart from the heaps there are keeps
the invariant; what `elf_setup` builds has it.
-/
import GunyahRuntime.Mmap.Invariant
import GunyahRuntime.Mmap.Update

namespace GunyahRuntime

open Lib (Range Covers Links)

/-- The state after a heap with node `node` was put into the list. -/
def MmapState.added (st : MmapState) (h : Range) (node : MmapNode) (links : Links Nat) (head : Nat) :
    MmapState :=
  { (st.zeroed h.base (metaSize h.size)).storeNode h.base node with
    mmapTotalSize := st.mmapTotalSize + h.size, links, mmapNodeList := head }

/-- The state with the program break at the start of a heap's payload. -/
def MmapState.withBrk (st : MmapState) (h : Range) : MmapState :=
  { st with
    mmapBrkNode := h.base, brkBase := (payload h).base, curBrk := (payload h).base, brkTop := h.stop }

/-! ## A node at first -/

theorem get_replicate_zero (n k : Nat) : Bitmap.get (List.replicate n 0#64) k = false := by
  have hzero : (List.replicate n 0#64).getD (k / 64) 0#64 = 0#64 := by
    rw [List.getD_eq_getElem?_getD, List.getElem?_replicate]
    split <;> rfl
  have hword := Bitmap.word_eq_zero.1 hzero (k % 64) (Nat.mod_lt _ (by decide))
  rwa [Nat.div_add_mod] at hword

section

variable {h : Range} (hok : HeapOk h)

include hok

theorem HeapOk.freshNode : NodeOf (fun _ => False) h (freshNode h.base h.size) where
  base := rfl
  size := rfl
  metaSize := rfl
  pages := by
    show (List.replicate (pageWords (u32 (h.size / PAGE_SIZE))) 0#64).length = _
    rw [List.length_replicate, hok.numPages_eq]
  blocks := by
    show (List.replicate (availWords (u32 (h.size / PAGE_SIZE))) 0#64).length = _
    rw [List.length_replicate, hok.numPages_eq]
  inStep := by
    obtain ⟨-, hblocks, -⟩ := pageWords_spec hok.pages_le
    refine ⟨fun j => ?_, ?_⟩
    · show Bitmap.get (List.replicate _ 0#64) j = decide ((List.replicate _ 0#64).getD j 0#64 ≠ 0#64)
      rw [get_replicate_zero, List.getD_eq_getElem?_getD, List.getElem?_replicate]
      split <;> rfl
    · show (List.replicate (pageWords (u32 (h.size / PAGE_SIZE))) 0#64).length ≤
        64 * (List.replicate (availWords (u32 (h.size / PAGE_SIZE))) 0#64).length
      rw [List.length_replicate, List.length_replicate, hok.numPages_eq]
      exact hblocks
  get := by
    intro p
    show Bitmap.get (List.replicate _ 0#64) p = true ↔ _
    rw [get_replicate_zero]
    simp

/-- The pages of the metadata come first. -/
theorem HeapOk.metaBits :
    u32 (metaSizeAlign h.size / PAGE_SIZE) = metaSizeAlign h.size / 4096 ∧
      metaSizeAlign h.size / 4096 < h.size / 4096 ∧
      ∀ p, h.base + 4096 * p ∈ payload h ↔
        metaSizeAlign h.size / 4096 ≤ p ∧ p < h.size / 4096 := by
  obtain ⟨hmeta, -, -, -, hlt⟩ := metaSizeAlign_spec hok.small
  obtain ⟨-, hsize⟩ := hok.paged
  have hroom := hok.room
  have hbits : metaSizeAlign h.size / PAGE_SIZE < 4294967296 := by
    unfold PAGE_SIZE
    omega
  refine ⟨u32_of_lt hbits, by omega, fun p => ?_⟩
  rw [Range.mem_iff, hok.payload_stop]
  show h.base + metaSizeAlign h.size ≤ h.base + 4096 * p ∧ h.base + 4096 * p < h.base + h.size ↔ _
  omega

/-- The pages of a new heap are free but for the metadata. -/
theorem HeapOk.freeNode : ∃ node, updateMmapRange (GunyahRuntime.freshNode h.base h.size)
      (u32 (metaSizeAlign h.size / PAGE_SIZE))
      (sub32 (u32 (h.size / PAGE_SIZE)) (u32 (metaSizeAlign h.size / PAGE_SIZE))) true = .ok node ∧
    NodeOf (· ∈ payload h) h node := by
  have hfresh := hok.freshNode
  have hpages := hok.pages_le
  obtain ⟨hbits, hlt, hmem⟩ := hok.metaBits
  obtain ⟨hin, -⟩ := pageWords_spec hok.pages_le
  have hle : metaSizeAlign h.size / 4096 + (h.size / 4096 - metaSizeAlign h.size / 4096) =
      h.size / 4096 := Nat.add_sub_cancel' hlt.le
  have hused : ∀ k, metaSizeAlign h.size / 4096 ≤ k →
      k < metaSizeAlign h.size / 4096 + (h.size / 4096 - metaSizeAlign h.size / 4096) →
      (GunyahRuntime.freshNode h.base h.size).freePages.get k = !true := by
    intro k _ _
    exact get_replicate_zero _ _
  rw [hbits, hok.numPages_eq, sub32_of_le hlt.le (hpages.trans_lt (by decide))]
  obtain ⟨node, hupdate, hflip⟩ := updateMmapRange_flips hfresh.inStep
    (by rw [hle]; exact hpages.trans_lt (by decide)) (by rw [hle, hfresh.pages]; exact hin) hused
  refine ⟨node, hupdate, hflip.same.base, hflip.same.size, hflip.same.metaSize,
    hflip.same.pages.trans hfresh.pages, hflip.same.blocks.trans hfresh.blocks, hflip.inStep, fun p => ?_⟩
  rw [hflip.get, hle, hmem]
  by_cases hp : metaSizeAlign h.size / 4096 ≤ p ∧ p < h.size / 4096
  · rw [if_pos hp]
    exact iff_of_true rfl ⟨hp.2, hp⟩
  · rw [if_neg hp]
    refine iff_of_false ?_ fun hp' => hp hp'.2
    exact Bool.eq_false_iff.1 (get_replicate_zero _ _)

end

/-! ## The call -/

theorem HeapOk.meta_inside {h : Range} (hok : HeapOk h) :
    (⟨h.base, metaSize h.size⟩ : Range).Inside (metadata h) := by
  obtain ⟨-, -, hle, -⟩ := metaSizeAlign_spec hok.small
  refine ⟨le_rfl, ?_⟩
  show h.base + metaSize h.size ≤ h.base + metaSizeAlign h.size
  exact Nat.add_le_add_left hle _

/-- A range that passes the checks. -/
theorem mmapAddHeap_checked {st : MmapState} {h : Range} (hok : HeapOk h) (isBrk : Bool) :
    mmapAddHeap st h.base h.size isBrk = (do
      let (node, st) ← addPages (st.zeroed h.base (metaSize h.size)) (freshNode h.base h.size)
        h.base h.size isBrk
      let st := st.storeNode h.base node
      let st := { st with mmapTotalSize := u64 (st.mmapTotalSize + h.size) }
      let (links, mmapNodeList) ← listAppend st.links st.mmapNodeList h.base
      return (0, { st with links, mmapNodeList })) := by
  have hsize : decide (h.size ≠ 0) = true := decide_eq_true hok.size_pos.ne'
  have hal₁ : isBaligned h.base = true := decide_eq_true hok.paged.1
  have hal₂ : isBaligned h.size = true := decide_eq_true hok.paged.2
  have hfits := hok.fits
  have hoverflow : (!addOverflows h.base h.size) = true := by
    unfold addOverflows
    rw [Bool.not_eq_true', decide_eq_false_iff_not]
    omega
  unfold mmapAddHeap
  rw [hsize, cassert_true, ok_bind, hal₁, cassert_true, ok_bind, hal₂, cassert_true, ok_bind,
    hoverflow, cassert_true, ok_bind, if_neg (not_le.2 hok.room), if_neg hok.base_ne]

section

variable {st : MmapState} {heaps : List Range} {h : Range} (hheaps : ∀ g ∈ heaps, HeapOk g)
  (hok : HeapOk h) (hapart : ∀ g ∈ heaps, h.Apart g)

include hheaps hok hapart

/-- The metadata of a new heap is written apart from that of the others. -/
theorem metadata_apart_new : ∀ g ∈ heaps, (metadata g).Apart ⟨h.base, metaSize h.size⟩ := by
  intro g hg
  have hmeta := hok.meta_inside.trans hok.metadata_inside
  exact (((hapart g hg).of_inside hmeta).symm.of_inside (hheaps g hg).metadata_inside)

variable (hchain : st.links.Spells 0 st.mmapNodeList (heaps.map Range.base))

include hchain

/-- The node goes to the end of the list. -/
theorem listAppend_new : ∃ links head,
    listAppend (st.zeroed h.base (metaSize h.size)).links st.mmapNodeList h.base = .ok (links, head) ∧
      links.Spells 0 head ((heaps ++ [h]).map Range.base) := by
  have hnew : h.base ∉ heaps.map Range.base := by
    intro hmem
    obtain ⟨g, hg, heq⟩ := List.mem_map.1 hmem
    have hb : h.base ∈ h := ⟨le_rfl, Nat.lt_add_of_pos_right hok.size_pos⟩
    refine (hapart g hg).not_mem hb ?_
    rw [← heq]
    exact ⟨le_rfl, Nat.lt_add_of_pos_right (hheaps g hg).size_pos⟩
  have hzeroed := zeroed_chain hheaps (metadata_apart_new hheaps hok hapart) hchain
  obtain ⟨links, head, hrun, hspells, -⟩ := listAppend_spec hzeroed hnew hok.base_ne
  refine ⟨links, head, hrun, ?_⟩
  rw [List.map_append]
  exact hspells

/-- **A heap for mappings**: its pages behind the metadata are free. -/
theorem mmapAddHeap_free (hlt : st.mmapTotalSize + h.size < 18446744073709551616) :
    ∃ node links head, NodeOf (· ∈ payload h) h node ∧
      links.Spells 0 head ((heaps ++ [h]).map Range.base) ∧
      mmapAddHeap st h.base h.size false = .ok (0, st.added h node links head) := by
  obtain ⟨node, hupdate, hnode⟩ := hok.freeNode
  obtain ⟨links, head, hrun, hspells⟩ := listAppend_new hheaps hok hapart hchain
  refine ⟨node, links, head, hnode, hspells, ?_⟩
  rw [mmapAddHeap_checked hok]
  unfold addPages
  rw [if_neg (by decide)]
  show (do
    let node ← updateMmapRange (freshNode h.base h.size) (u32 (metaSizeAlign h.size / PAGE_SIZE))
      (sub32 (u32 (h.size / PAGE_SIZE)) (u32 (metaSizeAlign h.size / PAGE_SIZE))) true
    pure (node, st.zeroed h.base (metaSize h.size))) >>= _ = _
  rw [hupdate, ok_bind, pure_ok, ok_bind]
  dsimp only
  show listAppend (st.zeroed h.base (metaSize h.size)).links st.mmapNodeList h.base >>= _ = _
  have hsum : u64 (((st.zeroed h.base (metaSize h.size)).storeNode h.base node).mmapTotalSize + h.size) =
      st.mmapTotalSize + h.size := u64_of_lt hlt
  rw [hrun, ok_bind, hsum]
  rfl

/-- **The break heap**: its pages belong to the break. -/
theorem mmapAddHeap_brk (hlt : st.mmapTotalSize + h.size < 18446744073709551616)
    (hbrk : st.mmapBrkNode = 0) :
    ∃ links head, links.Spells 0 head ((heaps ++ [h]).map Range.base) ∧
      mmapAddHeap st h.base h.size true =
        .ok (0, (st.withBrk h).added h (freshNode h.base h.size) links head) := by
  obtain ⟨links, head, hrun, hspells⟩ := listAppend_new hheaps hok hapart hchain
  refine ⟨links, head, hspells, ?_⟩
  have hfits := hok.fits
  have hroom := hok.room
  have hstart : u64 (h.base + (freshNode h.base h.size).metaSize) = (payload h).base :=
    u64_of_lt ((Nat.add_lt_add_left hroom _).trans hfits)
  have hstop : u64 (h.base + h.size) = h.stop := u64_of_lt hfits
  have hnull : decide (st.mmapBrkNode = 0) = true := decide_eq_true hbrk
  rw [mmapAddHeap_checked hok]
  unfold addPages
  rw [if_pos rfl]
  show ((cassert (decide (st.mmapBrkNode = 0))) >>= _) >>= _ = _
  rw [hnull, cassert_true, ok_bind]
  show listAppend (st.zeroed h.base (metaSize h.size)).links st.mmapNodeList h.base >>= _ = _
  rw [hrun, ok_bind, hstart, hstop]
  have hsum : u64 (st.mmapTotalSize + h.size) = st.mmapTotalSize + h.size := u64_of_lt hlt
  unfold MmapState.added
  rw [show ((st.withBrk h).mmapTotalSize + h.size) = u64 (st.mmapTotalSize + h.size) from hsum.symm]
  rfl

end

section

variable {s : Sys} (hi : Inv s) {h : Range} (hapart : ∀ g ∈ s.heaps, h.Apart g)

include hi hapart

/-- In a new heap there are no live mappings, and the break is not there. -/
theorem Inv.new_heap {x : Nat} (hx : x ∈ h) : ¬ Covers s.live x ∧ x ∉ s.st.brkArea := by
  constructor
  · rintro ⟨r, hr, hxr⟩
    obtain ⟨g, hg, hin⟩ := hi.live_inside hr
    exact (hapart g hg).not_mem hx (hin.mem hxr)
  · intro hbrk
    obtain ⟨g, hg, hin⟩ := hi.brkArea_inside
    exact (hapart g hg).not_mem hx ((hi.heap g hg).payload_inside.mem (hin.mem hbrk))

variable (hok : HeapOk h)

include hok

/-- The total of the heaps with a new one fits the counter. -/
theorem Inv.total_add_lt : s.st.mmapTotalSize + h.size < 18446744073709551616 := by
  have hpair : (s.heaps ++ [h]).Pairwise Range.Apart :=
    List.pairwise_append.2 ⟨hi.apart, List.pairwise_singleton _ _, fun g hg k hk => by
      rw [List.mem_singleton.1 hk]
      exact (hapart g hg).symm⟩
  have hle := Lib.total_le_of_stop hpair (n := 18446744073709551615) fun g hg => by
    have hfits : g.base + g.size < 18446744073709551616 := by
      rcases List.mem_append.1 hg with hg | hg
      · exact (hi.heap g hg).fits
      · rw [List.mem_singleton.1 hg]
        exact hok.fits
    unfold Range.stop
    omega
  rw [Lib.total_append, Lib.total_cons, Lib.total_nil, ← hi.totalSize] at hle
  omega

/-- A new heap makes its payload free, and leaves the rest as it was. -/
theorem Inv.free_added (node : MmapNode) (links : Links Nat) (head x : Nat) :
    Sys.Free ⟨s.st.added h node links head, s.heaps ++ [h], s.live⟩ x ↔ s.Free x ∨ x ∈ payload h := by
  show Covers ((s.heaps ++ [h]).map payload) x ∧ ¬ Covers s.live x ∧ x ∉ s.st.brkArea ↔ _
  rw [List.map_append, Lib.covers_append, List.map_singleton, Lib.covers_cons]
  unfold Sys.Free
  constructor
  · rintro ⟨hcov | hx | hnil, hrest⟩
    · exact .inl ⟨hcov, hrest⟩
    · exact .inr hx
    · exact absurd hnil (Lib.covers_nil x)
  · rintro (⟨hcov, hrest⟩ | hx)
    · exact ⟨.inl hcov, hrest⟩
    · exact ⟨.inr (.inl hx), hi.new_heap hapart (hok.payload_inside.mem hx)⟩

/-- A heap apart from the others was added. -/
theorem Inv.added {node : MmapNode} {links : Links Nat} {head : Nat}
    (hnode : NodeOf (· ∈ payload h) h node)
    (hspells : links.Spells 0 head ((s.heaps ++ [h]).map Range.base)) :
    Inv ⟨s.st.added h node links head, s.heaps ++ [h], s.live⟩ := by
  have hmeta := metadata_apart_new hi.heap hok hapart
  refine ⟨hspells, ?_, ?_, ?_, ?_, hi.allocSize, ?_, ?_, hi.liveApart⟩
  · intro g hg
    rcases List.mem_append.1 hg with hg | hg
    · obtain ⟨old, hold, hof⟩ := hi.node g hg
      have hne : g.base ≠ h.base := by
        intro heq
        have hb : h.base ∈ h := ⟨le_rfl, Nat.lt_add_of_pos_right hok.size_pos⟩
        exact (hapart g hg).not_mem hb (heq ▸ hi.base_mem hg)
      refine ⟨old, (Function.update_of_ne hne ..).trans (hof.zeroed (hi.heap g hg) (hmeta g hg) hold), ?_⟩
      refine hof.congr fun p hp => ?_
      have hout : g.base + 4096 * p ∉ payload h := fun hx =>
        (hapart g hg).not_mem (hok.payload_inside.mem hx) (hi.page_mem hg hp)
      rw [hi.free_added hapart hok, or_iff_left hout]
    · obtain rfl := List.mem_singleton.1 hg
      refine ⟨node, Function.update_self .., hnode.congr fun p hp => ?_⟩
      have hin : g.base + 4096 * p ∈ g := by
        obtain ⟨-, hsize⟩ := hok.paged
        rw [Range.mem_iff, Range.stop]
        omega
      rw [hi.free_added hapart hok]
      refine or_iff_right fun hx => ?_
      obtain ⟨r, hr, hxr⟩ := hx.1
      obtain ⟨k, hk, rfl⟩ := List.mem_map.1 hr
      exact (hapart k hk).not_mem hin ((hi.heap k hk).payload_inside.mem hxr)
  · intro g hg
    rcases List.mem_append.1 hg with hg | hg
    · exact hi.heap g hg
    · rw [List.mem_singleton.1 hg]
      exact hok
  · exact List.pairwise_append.2 ⟨hi.apart, List.pairwise_singleton _ _, fun g hg k hk => by
      rw [List.mem_singleton.1 hk]
      exact (hapart g hg).symm⟩
  · show s.st.mmapTotalSize + h.size = _
    rw [Lib.total_append, Lib.total_cons, Lib.total_nil, hi.totalSize, Nat.add_zero]
  · obtain ⟨k, hk, hb⟩ := hi.brk
    exact ⟨k, List.mem_append_left _ hk, hb.node, hb.base, hb.base_le, hb.cur_le, hb.top_le,
      hb.cur_paged, hb.top_paged⟩
  · exact fun r hr => (hi.live r hr).mono (fun g hg _ => List.mem_append_left _ hg) ⟨le_rfl, le_rfl⟩

end

/-! ## `IOCTL_ADD_HEAP` -/

theorem memRangeIsValid_iff {r : Range} (hsize : r.size < 18446744073709551616) :
    memRangeIsValid r = true ↔
      r.base ≠ 0 ∧ 0 < r.size ∧ Paged r ∧ r.base + r.size < 18446744073709551616 := by
  unfold memRangeIsValid
  rw [decide_eq_true_iff]
  unfold addOverflows isBaligned Paged PAGE_SIZE
  rw [Bool.not_eq_true', decide_eq_false_iff_not, decide_eq_true_iff, decide_eq_true_iff]
  omega

/-- A valid range with room behind its metadata is a heap; without, it is refused. -/
theorem mmapAddHeap_refuses {st : MmapState} {r : Range} (hpos : 0 < r.size) (hpaged : Paged r)
    (hfits : r.base + r.size < 18446744073709551616) (hroom : r.size ≤ metaSizeAlign r.size)
    (isBrk : Bool) : mmapAddHeap st r.base r.size isBrk = .ok (-ENOMEM, st) := by
  have hsize : decide (r.size ≠ 0) = true := decide_eq_true hpos.ne'
  have hal₁ : isBaligned r.base = true := decide_eq_true hpaged.1
  have hal₂ : isBaligned r.size = true := decide_eq_true hpaged.2
  have hoverflow : (!addOverflows r.base r.size) = true := by
    unfold addOverflows
    rw [Bool.not_eq_true', decide_eq_false_iff_not]
    omega
  unfold mmapAddHeap
  rw [hsize, cassert_true, ok_bind, hal₁, cassert_true, ok_bind, hal₂, cassert_true, ok_bind,
    hoverflow, cassert_true, ok_bind, if_pos hroom]
  rfl

theorem memIoctl_addHeap {st : MmapState} {r : Range} (hvalid : memRangeIsValid r = true) :
    memIoctl st (.addHeap r) =
      mmapAddHeap st r.base r.size false >>= fun (ret, st) => .ok (ret, none, st) := if_pos hvalid

section

variable {s : Sys} (hi : Inv s) {r : Range} (hvalid : memRangeIsValid r = true)
  (hapart : ∀ g ∈ s.heaps, r.Apart g) (hsmall : r.size ≤ HEAP_SIZE_MAX)

include hi hvalid hapart hsmall

/-- **What `IOCTL_ADD_HEAP` does** with a range that is apart from the heaps: it refuses it, or appends a
heap whose pages behind the metadata are free. -/
theorem Inv.addHeap_cases :
    (r.size ≤ metaSizeAlign r.size ∧ memIoctl s.st (.addHeap r) = .ok (-ENOMEM, none, s.st)) ∨
      ∃ node links head, HeapOk r ∧ NodeOf (· ∈ payload r) r node ∧
        links.Spells 0 head ((s.heaps ++ [r]).map Range.base) ∧
        memIoctl s.st (.addHeap r) = .ok (0, none, s.st.added r node links head) := by
  have hlt : r.size < 18446744073709551616 := hsmall.trans_lt (by decide)
  obtain ⟨hbase, hpos, hpaged, hfits⟩ := (memRangeIsValid_iff hlt).1 hvalid
  rw [memIoctl_addHeap hvalid]
  by_cases hroom : metaSizeAlign r.size < r.size
  · have hok : HeapOk r := ⟨hpaged, hbase, hfits, hsmall, hroom⟩
    obtain ⟨node, links, head, hnode, hspells, hrun⟩ :=
      mmapAddHeap_free hi.heap hok hapart hi.chain (hi.total_add_lt hapart hok)
    refine .inr ⟨node, links, head, hok, hnode, hspells, ?_⟩
    rw [hrun, ok_bind]
  · refine .inl ⟨not_lt.1 hroom, ?_⟩
    rw [mmapAddHeap_refuses hpos hpaged hfits (not_lt.1 hroom), ok_bind]

end

section

variable {s : Sys} (hi : Inv s) {r : Range} (hfit : Op.Fitting s (.ioctl (.addHeap r)))

include hi hfit

/-- Any range is refused, without effect, or it is apart from the heaps and becomes one. -/
theorem Inv.addHeap_fitting :
    (∃ ret, ret ≠ 0 ∧ memIoctl s.st (.addHeap r) = .ok (ret, none, s.st)) ∨
      ∃ node links head, (∀ g ∈ s.heaps, r.Apart g) ∧ HeapOk r ∧ NodeOf (· ∈ payload r) r node ∧
        links.Spells 0 head ((s.heaps ++ [r]).map Range.base) ∧
        memIoctl s.st (.addHeap r) = .ok (0, none, s.st.added r node links head) := by
  obtain ⟨⟨-, hsize⟩, hfit⟩ := hfit
  by_cases hvalid : memRangeIsValid r = true
  · by_cases hroom : metaSizeAlign r.size < r.size
    · obtain ⟨hapart, hsmall⟩ := hfit hvalid hroom
      rcases hi.addHeap_cases hvalid hapart hsmall with ⟨hno, -⟩ | ⟨node, links, head, hok, hnode, hspells, hrun⟩
      · exact absurd hroom (not_lt.2 hno)
      · exact .inr ⟨node, links, head, hapart, hok, hnode, hspells, hrun⟩
    · obtain ⟨-, hpos, hpaged, hfits⟩ := (memRangeIsValid_iff hsize).1 hvalid
      refine .inl ⟨-ENOMEM, by decide, ?_⟩
      rw [memIoctl_addHeap hvalid, mmapAddHeap_refuses hpos hpaged hfits (not_lt.1 hroom), ok_bind]
  · exact .inl ⟨-EINVAL, by decide, if_neg hvalid⟩

/-- **`IOCTL_ADD_HEAP` keeps the invariant**, and returns. -/
theorem Inv.step_addHeap : ∃ s', s.step (.ioctl (.addHeap r)) = .ok s' ∧ Inv s' := by
  unfold Sys.step
  dsimp only
  rcases hi.addHeap_fitting hfit with
    ⟨ret, hret, hrun⟩ | ⟨node, links, head, hapart, hok, hnode, hspells, hrun⟩
  · refine ⟨s, ?_, hi⟩
    rw [hrun, ok_bind]
    unfold heapsAfter
    dsimp only
    rw [if_neg hret]
    rfl
  · exact ⟨_, by rw [hrun, ok_bind]; rfl, hi.added hapart hok hnode hspells⟩

end

/-! ## `elf_setup` -/

theorem of_cassert {x : Bool} {α : Type} {f : Unit → Exec α} {a : α} (h : (cassert x >>= f) = .ok a) :
    x = true ∧ f () = .ok a := by
  cases x with
  | false => cases h
  | true => exact ⟨rfl, h⟩

/-- A call that succeeds has passed every check. -/
theorem mmapAddHeap_zero {st st' : MmapState} {r : Range} {isBrk : Bool}
    (hsmall : r.size ≤ HEAP_SIZE_MAX) (h : mmapAddHeap st r.base r.size isBrk = .ok (0, st')) :
    HeapOk r := by
  unfold mmapAddHeap at h
  obtain ⟨hpos, h⟩ := of_cassert h
  obtain ⟨hal₁, h⟩ := of_cassert h
  obtain ⟨hal₂, h⟩ := of_cassert h
  obtain ⟨hoverflow, h⟩ := of_cassert h
  have hfits : r.base + r.size < 18446744073709551616 := by
    unfold addOverflows at hoverflow
    rw [Bool.not_eq_true', decide_eq_false_iff_not] at hoverflow
    unfold HEAP_SIZE_MAX at hsmall
    omega
  have hroom : metaSizeAlign r.size < r.size := by
    by_contra hge
    rw [if_pos (not_lt.1 hge)] at h
    have hret : -ENOMEM = 0 := congrArg Prod.fst (Except.ok.inj h)
    exact absurd hret (by decide)
  have hbase : r.base ≠ 0 := by
    intro h0
    rw [if_neg (not_le.2 hroom), if_pos h0] at h
    cases h
  exact ⟨⟨of_decide_eq_true hal₁, of_decide_eq_true hal₂⟩, hbase, hfits, hsmall, hroom⟩

theorem initial_chain : MmapState.initial.links.Spells 0 MmapState.initial.mmapNodeList [] :=
  Links.Spells.nil _ _

section

variable {appHeapIpa appHeapSize : Nat} (hlt : 16384 < appHeapSize)
  (hok : HeapOk ⟨u64 (appHeapIpa + 16384), appHeapSize - 16384⟩)

include hlt hok

/-- What `elf_setup` builds on a range with room for the stack and a heap. -/
theorem elfSetup_eq : ∃ links head,
    links.Spells 0 head [u64 (appHeapIpa + 16384)] ∧
      elfSetup appHeapIpa appHeapSize =
        .ok ((MmapState.initial.withBrk ⟨u64 (appHeapIpa + 16384), appHeapSize - 16384⟩).added
          ⟨u64 (appHeapIpa + 16384), appHeapSize - 16384⟩
          (freshNode (u64 (appHeapIpa + 16384)) (appHeapSize - 16384)) links head) := by
  have hsize : (0 : Nat) + (appHeapSize - 16384) < 18446744073709551616 := by
    have hfits := hok.fits
    dsimp only at hfits
    omega
  obtain ⟨links, head, hspells, hrun⟩ := @mmapAddHeap_brk .initial [] _
    (fun g hg => by cases hg) hok (fun g hg => by cases hg) initial_chain hsize rfl
  refine ⟨links, head, hspells, ?_⟩
  have hstack : decide (appHeapSize > 16384) = true := decide_eq_true hlt
  unfold elfSetup
  dsimp only at hrun ⊢
  rw [hstack, cassert_true, ok_bind, hrun, ok_bind]
  rfl

end

/-- One heap whose pages belong to the break. -/
theorem Inv.of_brk {h : Range} {links : Links Nat} {head : Nat} (hok : HeapOk h)
    (hspells : links.Spells 0 head [h.base]) :
    Inv ⟨(MmapState.initial.withBrk h).added h (freshNode h.base h.size) links head, [h], []⟩ where
  chain := hspells
  node := by
    intro g hg
    obtain rfl := List.mem_singleton.1 hg
    refine ⟨_, Function.update_self .., hok.freshNode.congr fun p hp => ?_⟩
    refine iff_of_false (fun hfree => hfree.2.2 ?_) id
    -- a page of the payload lies in the area of the break
    obtain ⟨r, hr, hx⟩ := hfree.1
    obtain rfl : r = payload g := List.mem_singleton.1 hr
    have hstop := hok.payload_stop
    rw [Range.mem_iff] at hx ⊢
    unfold Range.stop at hx hstop ⊢
    show (payload g).base ≤ _ ∧ _ < (payload g).base + (g.base + g.size - (payload g).base)
    omega
  heap := by
    intro g hg
    rw [List.mem_singleton.1 hg]
    exact hok
  apart := List.pairwise_singleton _ _
  totalSize := by
    show 0 + h.size = Lib.total [h]
    rw [Lib.total_cons, Lib.total_nil, Nat.zero_add, Nat.add_zero]
  allocSize := rfl
  brk := by
    have hpaged := hok.payload_paged
    have hstop := hok.payload_stop
    obtain ⟨h1, h2⟩ := hpaged
    refine ⟨h, List.mem_singleton_self h, rfl, rfl, le_rfl, ?_, le_rfl, h1, ?_⟩
    · show (payload h).base ≤ h.stop
      rw [← hstop]
      exact Nat.le_add_right _ _
    · show h.stop % 4096 = 0
      rw [← hstop]
      unfold Range.stop
      omega
  live := fun r hr => by cases hr
  liveApart := List.Pairwise.nil

/-- **What `elf_setup` builds has the invariant.** -/
theorem Inv.start {s : Sys} (hs : s.Start) (hsmall : Lib.total s.heaps ≤ HEAP_SIZE_MAX) : Inv s := by
  obtain ⟨appHeapIpa, appHeapSize, st, -, -, hrun, rfl⟩ := hs
  dsimp only at hsmall
  rw [Lib.total_cons, Lib.total_nil, Nat.add_zero] at hsmall
  have hchecks := hrun
  unfold elfSetup at hchecks
  obtain ⟨hstack, hchecks⟩ := of_cassert hchecks
  obtain ⟨⟨ret, st'⟩, hadd, hchecks⟩ := bind_eq_ok.1 hchecks
  obtain ⟨hret, -⟩ := of_cassert hchecks
  obtain rfl : ret = 0 := of_decide_eq_true hret
  have hlt : 16384 < appHeapSize := of_decide_eq_true hstack
  have hok : HeapOk ⟨u64 (appHeapIpa + 16384), appHeapSize - 16384⟩ := mmapAddHeap_zero hsmall hadd
  obtain ⟨links, head, hspells, hrun'⟩ := elfSetup_eq hlt hok
  obtain rfl := Except.ok.inj (hrun.symm.trans hrun')
  exact Inv.of_brk hok hspells

end GunyahRuntime
