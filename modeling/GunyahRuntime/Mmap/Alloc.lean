/-
# GunyahRuntime.Mmap.Alloc -- `sys_mmap` is first fit

From a state in which the invariant holds `sys_mmap` does one of three things. It takes the first run of
free pages of the first heap that has one, where a run is what a scan of bit after bit finds; or, if there
is none, it takes the top of the break; or it fails, and changes nothing (`Inv.allocMmap`). The invariant
holds again afterwards.
-/
import GunyahRuntime.Mmap.Invariant
import GunyahRuntime.Mmap.Update
import GunyahRuntime.Mmap.Search

namespace GunyahRuntime

open Lib (Range Covers)

/-- The bits of a heap's pages. -/
def MmapState.pageFree (st : MmapState) (h : Range) (p : Nat) : Bool :=
  match st.nodes h.base with
  | some node => node.freePages.get p
  | none => false

/-- The first run of `n` free pages, from the first heap on: a scan of bit after bit. -/
def MmapState.firstFit (st : MmapState) (heaps : List Range) (n : Nat) : Option (Range × Nat) :=
  heaps.findSome? fun h => (Lib.firstRun (st.pageFree h) (h.size / PAGE_SIZE) n).map (h, ·)

/-- `n` pages of a heap. -/
def pageRange (h : Range) (p n : Nat) : Range := ⟨h.base + p * PAGE_SIZE, n * PAGE_SIZE⟩

/-- The state after pages of a heap were taken: `node` is its node with their bits cleared. -/
def MmapState.taken (st : MmapState) (h : Range) (node : MmapNode) (r : Range) : MmapState :=
  MmapState.zeroed { st.storeNode h.base node with mmapAllocSize := st.mmapAllocSize + r.size }
    r.base r.size

/-- The state after the top of the break was taken. -/
def MmapState.stolen (st : MmapState) (len : Nat) : MmapState :=
  MmapState.zeroed
    { st with brkTop := st.brkTop - len, mmapAllocSize := st.mmapAllocSize + len }
    (st.brkTop - len) len

/-! ## Pages of a heap -/

theorem mem_pageRange {h : Range} {p n k : Nat} :
    h.base + 4096 * k ∈ pageRange h p n ↔ p ≤ k ∧ k < p + n := by
  rw [Range.mem_iff]
  unfold pageRange Range.stop PAGE_SIZE
  dsimp only
  omega

theorem pageRange_inside {h : Range} {p n : Nat} (hp : p + n ≤ h.size / 4096) :
    (pageRange h p n).Inside h := by
  unfold Range.Inside pageRange Range.stop PAGE_SIZE
  dsimp only
  omega

theorem pageRange_paged {h : Range} (hh : Paged h) (p n : Nat) : Paged (pageRange h p n) := by
  obtain ⟨hbase, -⟩ := hh
  unfold Paged pageRange PAGE_SIZE
  dsimp only
  omega

theorem pageFree_eq {st : MmapState} {h : Range} {node : MmapNode}
    (hnode : st.nodes h.base = some node) : st.pageFree h = node.freePages.get := by
  funext p
  unfold MmapState.pageFree
  rw [hnode]

theorem firstFit_none {st : MmapState} {heaps : List Range} {n : Nat}
    (h : ∀ g ∈ heaps, Lib.firstRun (st.pageFree g) (g.size / PAGE_SIZE) n = none) :
    st.firstFit heaps n = none := by
  refine List.findSome?_eq_none_iff.2 fun g hg => ?_
  rw [h g hg]
  rfl

theorem firstFit_some {st : MmapState} {l m : List Range} {h : Range} {n p : Nat}
    (hl : ∀ g ∈ l, Lib.firstRun (st.pageFree g) (g.size / PAGE_SIZE) n = none)
    (hp : Lib.firstRun (st.pageFree h) (h.size / PAGE_SIZE) n = some p) :
    st.firstFit (l ++ h :: m) n = some (h, p) := by
  have hbefore := firstFit_none hl
  unfold MmapState.firstFit at hbefore ⊢
  rw [List.findSome?_append, hbefore, List.findSome?_cons, hp]
  rfl

/-- The node of a heap after pages were flipped. -/
theorem NodeOf.flip {free free' : Nat → Prop} {h : Range} {node node' : MmapNode} {p n : Nat}
    {set : Bool} (hn : NodeOf free h node) (hf : Flipped node node' p (p + n) set)
    (hp : p + n ≤ h.size / 4096)
    (hfree : ∀ k < h.size / 4096, free' (h.base + 4096 * k) ↔
      if p ≤ k ∧ k < p + n then set = true else free (h.base + 4096 * k)) : NodeOf free' h node' where
  base := hf.same.base.trans hn.base
  size := hf.same.size.trans hn.size
  metaSize := hf.same.metaSize.trans hn.metaSize
  pages := hf.same.pages.trans hn.pages
  blocks := hf.same.blocks.trans hn.blocks
  inStep := hf.inStep
  get := by
    intro k
    rw [hf.get]
    by_cases hk : p ≤ k ∧ k < p + n
    · have hlt : k < h.size / 4096 := by omega
      rw [if_pos hk, hfree k hlt, if_pos hk]
      exact (and_iff_right hlt).symm
    · rw [if_neg hk, hn.get]
      refine and_congr_right fun hlt => ?_
      rw [hfree k hlt, if_neg hk]

section

variable {s : Sys} (hi : Inv s)

include hi

/-- **Flipping pages of one heap.** The nodes hold the free pages again, if those pages and no others
have changed sides. -/
theorem Inv.flip {h : Range} (hh : h ∈ s.heaps) {node node' : MmapNode}
    (hnode : s.st.nodes h.base = some node) (hn : NodeOf s.Free h node) {p n : Nat} {set : Bool}
    (hf : Flipped node node' p (p + n) set) (hp : p + n ≤ h.size / 4096) {free' : Nat → Prop}
    (hfree : ∀ g ∈ s.heaps, ∀ x ∈ g, free' x ↔ if x ∈ pageRange h p n then set = true else s.Free x) :
    ∀ g ∈ s.heaps, ∃ node, (s.st.storeNode h.base node').nodes g.base = some node ∧
      NodeOf free' g node := by
  intro g hg
  by_cases heq : g = h
  · subst heq
    refine ⟨node', Function.update_self .., hn.flip hf hp fun k hk => ?_⟩
    rw [hfree g hg _ (hi.page_mem hg hk)]
    simp only [mem_pageRange]
  · have hne : g.base ≠ h.base := fun hb => heq (hi.base_inj hg hh hb)
    obtain ⟨other, hother, hno⟩ := hi.node g hg
    refine ⟨other, (Function.update_of_ne hne ..).trans hother, hno.congr fun k hk => ?_⟩
    have hpage := hi.page_mem hg hk
    have hout : g.base + 4096 * k ∉ pageRange h p n := fun hx =>
      heq (hi.heap_unique hg hh hpage ((pageRange_inside hp).mem hx))
    rw [hfree g hg _ hpage, if_neg hout]

/-- The pages of a run are free. -/
theorem Inv.run_free {h : Range} (hh : h ∈ s.heaps) {node : MmapNode} (hn : NodeOf s.Free h node)
    {p n : Nat} (hrun : Lib.RunAt node.freePages.get n p) (hp : p + n ≤ h.size / 4096) :
    ∀ x ∈ pageRange h p n, s.Free x := by
  intro x hx
  have hxh := (pageRange_inside hp).mem hx
  obtain ⟨hlt, heq⟩ := page_eq (hi.heap h hh).paged hxh
  have hk : p ≤ (x - h.base) / 4096 ∧ (x - h.base) / 4096 < p + n := by
    rw [← mem_pageRange, heq]
    exact (pageRange_paged (hi.heap h hh).paged p n).mem_iff.2 hx
  have hset := hrun ((x - h.base) / 4096 - p) (by omega)
  rw [Nat.add_sub_cancel' hk.1] at hset
  exact (hn.get_iff hi hh hxh).1 hset

/-- A new range that no live mapping meets is apart from them all. -/
theorem Inv.live_add {r : Range} (hpos : 0 < r.size) (h : ∀ x ∈ r, ¬ Covers s.live x) :
    (s.live ++ [r]).Pairwise Range.Apart := by
  refine List.pairwise_append.2 ⟨hi.liveApart, List.pairwise_singleton _ _, ?_⟩
  intro q hq r' hr'
  obtain rfl := List.mem_singleton.1 hr'
  exact Lib.Range.apart_of_not_mem (hi.live q hq).pos hpos fun x hx hx' => h x hx' ⟨q, hq, hx⟩

/-- The live mappings and a new range fit the counter. -/
theorem Inv.live_total_lt {r : Range} (hapart : (s.live ++ [r]).Pairwise Range.Apart)
    (hr : ∃ h ∈ s.heaps, r.Inside h) : s.st.mmapAllocSize + r.size < 18446744073709551616 := by
  have hlt := hi.inside_total_lt hapart fun q hq => by
    rcases List.mem_append.1 hq with hq | hq
    · exact hi.live_inside hq
    · obtain rfl := List.mem_singleton.1 hq
      exact hr
  rwa [Lib.total_append, Lib.total_cons, Lib.total_nil, ← hi.allocSize] at hlt

end

/-! ## The search of one heap -/

section

variable {free : Nat → Prop} {h : Range} {node : MmapNode} {numBits : Nat}

theorem allocTest_none (hn : NodeOf free h node) (hok : HeapOk h) (hpos : 0 < numBits)
    (hrun : Lib.firstRun node.freePages.get (h.size / PAGE_SIZE) numBits = none) :
    allocTest numBits h.base node = .ok none := by
  obtain ⟨hin, -⟩ := pageWords_spec hok.pages_le
  have hsize : node.size / PAGE_SIZE = h.size / PAGE_SIZE := by rw [hn.size]
  unfold allocTest
  rw [searchFreeMmapRange_eq hn.inStep hpos (hsize.trans_le hok.pages_le)
    (by rw [hsize, hn.pages]; exact hin), hsize, hrun, ok_bind]
  rfl

theorem allocTest_some (hn : NodeOf free h node) (hok : HeapOk h) (hpos : 0 < numBits) {p : Nat}
    (hrun : Lib.RunAt node.freePages.get numBits p) (hle : p + numBits ≤ h.size / PAGE_SIZE)
    (hfirst : Lib.firstRun node.freePages.get (h.size / PAGE_SIZE) numBits = some p) :
    ∃ node', allocTest numBits h.base node = .ok (some (h.base, node', p)) ∧
      Flipped node node' p (p + numBits) false := by
  obtain ⟨hin, -⟩ := pageWords_spec hok.pages_le
  have hpages := hok.pages_le
  have hsize : node.size / PAGE_SIZE = h.size / PAGE_SIZE := by rw [hn.size]
  have hlen : p + numBits ≤ 64 * node.freePages.length := by
    rw [hn.pages]
    exact hle.trans hin
  have hlast : p + numBits < 4294967296 := hle.trans_lt (hpages.trans_lt (by decide))
  have hbits : ∀ k, p ≤ k → k < p + numBits → node.freePages.get k = !false := by
    intro k h1 h2
    have hset := hrun (k - p) (by omega)
    rwa [Nat.add_sub_cancel' h1] at hset
  obtain ⟨node', hupdate, hflip⟩ := updateMmapRange_flips hn.inStep hlast hlen hbits
  refine ⟨node', ?_, hflip⟩
  unfold allocTest
  rw [searchFreeMmapRange_eq hn.inStep hpos (hsize.trans_le hok.pages_le)
    (by rw [hsize, hn.pages]; exact hin), hsize, hfirst, ok_bind]
  dsimp only
  rw [hupdate, ok_bind]
  rfl

/-- The end of `alloc_mmap` for pages inside the heap. -/
theorem allocTake_eq {st : MmapState} {startBit len a : Nat} (hbase : node.base % 4096 = 0)
    (ha : node.base + startBit * PAGE_SIZE = a) (hend : a + len ≤ node.base + node.size)
    (hfits : node.base + node.size < 18446744073709551616)
    (halloc : st.mmapAllocSize + len < 18446744073709551616) :
    allocTake st node startBit len =
      .ok (toInt64 a, MmapState.zeroed { st with mmapAllocSize := st.mmapAllocSize + len } a len) := by
  have hoff : startBit * PAGE_SIZE < 18446744073709551616 := by omega
  have haddr : u64 (node.base + u64 (startBit * PAGE_SIZE)) = a := by
    rw [u64_of_lt hoff, ha, u64_of_lt (by omega)]
  have haligned : isBaligned a = true := by
    unfold isBaligned PAGE_SIZE at *
    exact decide_eq_true (by omega)
  have hge : decide (a ≥ node.base) = true := decide_eq_true (by omega)
  have hlast : decide (u64 (a + len) ≤ u64 (node.base + node.size)) = true := by
    rw [u64_of_lt (by omega), u64_of_lt hfits]
    exact decide_eq_true hend
  unfold allocTake
  dsimp only
  rw [haddr, haligned, cassert_true, ok_bind, hge, cassert_true, ok_bind, hlast, cassert_true, ok_bind,
    u64_of_lt halloc]
  rfl

end

/-! ## The whole search -/

section

variable {s : Sys} (hi : Inv s)

include hi

/-- The break heap and its area. -/
theorem Inv.steal_eq {len : Nat} (hlen : len % 4096 = 0) (hle : len ≤ s.st.brkTop - s.st.curBrk)
    (halloc : s.st.mmapAllocSize + len < 18446744073709551616) :
    allocSteal s.st len = .ok (toInt64 (s.st.brkTop - len), s.st.stolen len) := by
  obtain ⟨h, hh, hb⟩ := hi.brk
  obtain ⟨node, hnode, hn⟩ := hi.node h hh
  have hok := hi.heap h hh
  have hbase := hok.paged.1
  have hfits := hok.fits
  have hsmall := hok.small
  have hle₁ := hb.base_le
  have hle₂ := hb.cur_le
  have htop := hb.top_le
  have hpaged := hb.top_paged
  have hstart : h.base ≤ s.st.brkBase := by
    rw [hb.base]
    exact Nat.le_add_right _ _
  unfold Range.stop at htop
  have hgap : sub64 s.st.brkTop s.st.curBrk = s.st.brkTop - s.st.curBrk :=
    sub64_of_le hle₂ (by omega)
  have hnew : sub64 s.st.brkTop len = s.st.brkTop - len := sub64_of_le (by omega) (by omega)
  have hbit : sub64 (s.st.brkTop - len) node.base / PAGE_SIZE = (s.st.brkTop - len - h.base) / 4096 := by
    rw [hn.base, sub64_of_le (by omega) (by omega)]
    rfl
  have hload : MmapState.loadNode { s.st with brkTop := s.st.brkTop - len } s.st.mmapBrkNode = .ok node := by
    rw [hb.node, MmapState.loadNode]
    dsimp only
    rw [hnode]
  unfold allocSteal
  rw [hgap, if_pos hle]
  dsimp only
  rw [hnew, hload, ok_bind, hbit, u32_of_lt (by unfold HEAP_SIZE_MAX at hsmall; omega)]
  have hpage : node.base + (s.st.brkTop - len - h.base) / 4096 * PAGE_SIZE = s.st.brkTop - len := by
    rw [hn.base]
    unfold PAGE_SIZE
    omega
  exact allocTake_eq (by rw [hn.base]; exact hbase) hpage (by rw [hn.base, hn.size]; omega)
    (by rw [hn.base, hn.size]; exact hfits) halloc

theorem Inv.steal_none {len : Nat} (hle : ¬ len ≤ s.st.brkTop - s.st.curBrk) :
    allocSteal s.st len = .ok (-ENOMEM, s.st) := by
  obtain ⟨h, hh, hb⟩ := hi.brk
  have hfits := (hi.heap h hh).fits
  have htop := hb.top_le
  unfold Range.stop at htop
  have hgap : sub64 s.st.brkTop s.st.curBrk = s.st.brkTop - s.st.curBrk :=
    sub64_of_le hb.cur_le (by omega)
  unfold allocSteal
  rw [hgap, if_neg hle]

/-- The top of the break, if the break leaves it free. -/
theorem Inv.top_mem {len x : Nat} (hle : len ≤ s.st.brkTop - s.st.curBrk)
    (hx : x ∈ (⟨s.st.brkTop - len, len⟩ : Range)) : x ∈ s.st.brkArea := by
  obtain ⟨h, -, hb⟩ := hi.brk
  have hle₁ := hb.base_le
  have hle₂ := hb.cur_le
  rw [Range.mem_iff] at hx ⊢
  unfold MmapState.brkArea
  unfold Range.stop at hx ⊢
  dsimp only at hx ⊢
  omega

theorem Inv.top_inside {len : Nat} (hle : len ≤ s.st.brkTop - s.st.curBrk) :
    (⟨s.st.brkTop - len, len⟩ : Range).Inside s.st.brkArea := by
  obtain ⟨h, -, hb⟩ := hi.brk
  have hle₁ := hb.base_le
  have hle₂ := hb.cur_le
  unfold Range.Inside MmapState.brkArea Range.stop
  dsimp only
  omega

theorem Inv.top_apart {len : Nat} (hpos : 0 < len) (hle : len ≤ s.st.brkTop - s.st.curBrk) :
    (s.live ++ [(⟨s.st.brkTop - len, len⟩ : Range)]).Pairwise Range.Apart := by
  refine hi.live_add hpos fun x hx hlive => ?_
  obtain ⟨q, hq, hxq⟩ := hlive
  exact (hi.live q hq).off_brk x hxq (hi.top_mem hle hx)

/-- The run that the search of one heap finds, if there is one. -/
structure FoundRun (h : Range) (node node' : MmapNode) (n p : Nat) : Prop where
  run : Lib.RunAt node.freePages.get n p
  le : p + n ≤ h.size / PAGE_SIZE
  flip : Flipped node node' p (p + n) false

/-- The search of one heap is the scan. -/
theorem Inv.allocTest_cases {n : Nat} (hn : 0 < n) {h : Range} (hh : h ∈ s.heaps) {node : MmapNode}
    (hnode : s.st.nodes h.base = some node) :
    (Lib.firstRun (s.st.pageFree h) (h.size / PAGE_SIZE) n = none ∧
        allocTest n h.base node = .ok none) ∨
      ∃ p node', Lib.firstRun (s.st.pageFree h) (h.size / PAGE_SIZE) n = some p ∧
        allocTest n h.base node = .ok (some (h.base, node', p)) ∧ FoundRun h node node' n p := by
  have hof := hi.node_of hh hnode
  have hok := hi.heap h hh
  rw [pageFree_eq hnode]
  cases hrun : Lib.firstRun node.freePages.get (h.size / PAGE_SIZE) n with
  | none => exact .inl ⟨rfl, allocTest_none hof hok hn hrun⟩
  | some p =>
    have hle : n ≤ h.size / PAGE_SIZE := by
      by_contra hlt
      rw [Lib.firstRun_of_lt (not_le.1 hlt)] at hrun
      cases hrun
    obtain ⟨hat, hend, -⟩ := (Lib.firstRun_eq_some hle).1 hrun
    obtain ⟨node', hfound, hflip⟩ := allocTest_some hof hok hn hat hend hrun
    exact .inr ⟨p, node', rfl, hfound, hat, hend, hflip⟩

/-- The search of all heaps is the scan. -/
theorem Inv.findNode_alloc {n : Nat} (hn : 0 < n) :
    match s.st.firstFit s.heaps n with
    | some (h, p) => h ∈ s.heaps ∧ ∃ node node', s.st.nodes h.base = some node ∧
        FoundRun h node node' n p ∧ s.st.findNode (allocTest n) = .ok (some (h.base, node', p))
    | none => s.st.findNode (allocTest n) = .ok none := by
  have htest : ∀ h ∈ s.heaps, ∀ node, s.st.nodes h.base = some node →
      ∃ r, allocTest n h.base node = .ok r := by
    intro h hh node hnode
    rcases hi.allocTest_cases hn hh hnode with ⟨-, hr⟩ | ⟨p, node', -, hr, -⟩
    · exact ⟨_, hr⟩
    · exact ⟨_, hr⟩
  -- a heap that the search passes has no run
  have hpassed : ∀ h ∈ s.heaps, (∀ node, s.st.nodes h.base = some node →
      allocTest n h.base node = .ok none) →
      Lib.firstRun (s.st.pageFree h) (h.size / PAGE_SIZE) n = none := by
    intro h hh hall
    obtain ⟨node, hnode, -⟩ := hi.node h hh
    rcases hi.allocTest_cases hn hh hnode with ⟨hrun, -⟩ | ⟨p, node', -, hr, -⟩
    · exact hrun
    · rw [hall node hnode] at hr
      cases Except.ok.inj hr
  rcases hi.findNode htest with ⟨hfind, hall⟩ | ⟨l, h, m, node, b, hsplit, hnode, hb, hfind, hbefore⟩
  · rw [firstFit_none fun h hh => hpassed h hh (hall h hh)]
    exact hfind
  · have hh : h ∈ s.heaps := by
      rw [hsplit]
      exact List.mem_append_right _ List.mem_cons_self
    rcases hi.allocTest_cases hn hh hnode with ⟨-, hr⟩ | ⟨p, node', hrun, hr, hfound⟩
    · rw [hb] at hr
      cases Except.ok.inj hr
    · obtain rfl := Option.some.inj (Except.ok.inj (hb.symm.trans hr))
      have hfirst : s.st.firstFit s.heaps n = some (h, p) := by
        rw [hsplit]
        refine firstFit_some (fun g hg => hpassed g ?_ (hbefore g hg)) hrun
        rw [hsplit]
        exact List.mem_append_left _ hg
      rw [hfirst]
      exact ⟨hh, node, node', hnode, hfound, hfind⟩

/-- A range of free addresses is apart from the live mappings. -/
theorem Inv.free_apart {r : Range} (hpos : 0 < r.size) (h : ∀ x ∈ r, s.Free x) :
    (s.live ++ [r]).Pairwise Range.Apart :=
  hi.live_add hpos fun x hx => (h x hx).2.1

/-- `alloc_mmap` takes the pages that the search found. -/
theorem Inv.allocTake_found {h : Range} (hh : h ∈ s.heaps) {node node' : MmapNode} {n p : Nat}
    (hn : 0 < n) (hnode : s.st.nodes h.base = some node) (hfound : FoundRun h node node' n p) :
    allocTake (s.st.storeNode h.base node') node' p (n * PAGE_SIZE) =
      .ok (toInt64 (pageRange h p n).base, s.st.taken h node' (pageRange h p n)) := by
  have hof := hi.node_of hh hnode
  have hok := hi.heap h hh
  have hbase := hfound.flip.same.base.trans hof.base
  have hsize := hfound.flip.same.size.trans hof.size
  have hpos : 0 < (pageRange h p n).size := Nat.mul_pos hn (by decide)
  have hinside := pageRange_inside hfound.le
  have halloc := hi.live_total_lt (hi.free_apart hpos (hi.run_free hh hof hfound.run hfound.le))
    ⟨h, hh, hinside⟩
  refine allocTake_eq (by rw [hbase]; exact hok.paged.1) ?_ ?_ ?_ halloc
  · rw [hbase]
    rfl
  · rw [hbase, hsize]
    exact hinside.2
  · rw [hbase, hsize]
    exact hok.fits

/-- A request that is longer than all heaps together fits nowhere. -/
theorem Inv.too_long {len : Nat} (hlen : len % 4096 = 0) (hbig : Lib.total s.heaps < len) :
    s.st.firstFit s.heaps (len / PAGE_SIZE) = none ∧ ¬ len ≤ s.st.brkTop - s.st.curBrk := by
  have hshort : ∀ h ∈ s.heaps, h.size < len := fun h hh => (Lib.le_total hh).trans_lt hbig
  constructor
  · refine firstFit_none fun h hh => ?_
    have hlt := hshort h hh
    refine Lib.firstRun_of_lt ?_
    unfold PAGE_SIZE at *
    omega
  · obtain ⟨k, hk, hb⟩ := hi.brk
    have hlt := hshort k hk
    have htop := hb.top_le
    have hstart : k.base ≤ s.st.brkBase := by
      rw [hb.base]
      exact Nat.le_add_right _ _
    have hcur := hb.base_le
    unfold Range.stop at htop
    omega

/-- **`alloc_mmap` is first fit.** The lowest run of the first heap that has one; else the top of the
break; else nothing. -/
theorem Inv.allocMmap {len : Nat} (hpos : 0 < len) (hlen : len % 4096 = 0)
    (hfit : len ≤ Lib.total s.heaps → len < 17592186044416) :
    match s.st.firstFit s.heaps (len / PAGE_SIZE) with
    | some (h, p) => h ∈ s.heaps ∧ ∃ node node', s.st.nodes h.base = some node ∧
        FoundRun h node node' (len / PAGE_SIZE) p ∧
        allocMmap s.st len = .ok (toInt64 (pageRange h p (len / PAGE_SIZE)).base,
          s.st.taken h node' (pageRange h p (len / PAGE_SIZE)))
    | none => allocMmap s.st len =
        if len ≤ s.st.brkTop - s.st.curBrk then
          .ok (toInt64 (s.st.brkTop - len), s.st.stolen len)
        else .ok (-ENOMEM, s.st) := by
  have hpages : len / PAGE_SIZE * PAGE_SIZE = len := by
    unfold PAGE_SIZE
    omega
  have hn : 0 < len / PAGE_SIZE := by
    unfold PAGE_SIZE
    omega
  have haligned : isBaligned len = true := decide_eq_true hlen
  obtain ⟨k, hk, hb⟩ := hi.brk
  have hbrk : decide (s.st.curBrk ≤ s.st.brkTop) = true := decide_eq_true hb.cur_le
  unfold GunyahRuntime.allocMmap
  rw [haligned, cassert_true, ok_bind, hbrk, cassert_true, ok_bind]
  by_cases hbig : len > s.st.mmapTotalSize
  · -- longer than all heaps together
    rw [hi.totalSize] at hbig
    obtain ⟨hnone, hgap⟩ := hi.too_long hlen hbig
    rw [hnone, hi.totalSize, if_pos hbig, if_neg hgap]
    rfl
  · rw [if_neg hbig]
    rw [hi.totalSize] at hbig
    have hlt := hfit (not_lt.1 hbig)
    have hbits : u32 (len / PAGE_SIZE) = len / PAGE_SIZE := u32_of_lt (by unfold PAGE_SIZE; omega)
    rw [hbits]
    have hsearch := hi.findNode_alloc hn
    cases hfirst : s.st.firstFit s.heaps (len / PAGE_SIZE) with
    | none =>
      rw [hfirst] at hsearch
      dsimp only at hsearch ⊢
      rw [hsearch, ok_bind]
      by_cases hle : len ≤ s.st.brkTop - s.st.curBrk
      · rw [if_pos hle]
        obtain ⟨g, hg, hin⟩ := hi.brkArea_inside
        exact hi.steal_eq hlen hle (hi.live_total_lt (hi.top_apart hpos hle)
          ⟨g, hg, ((hi.top_inside hle).trans hin).trans (hi.heap g hg).payload_inside⟩)
      · rw [if_neg hle]
        exact hi.steal_none hle
    | some found =>
      obtain ⟨h, p⟩ := found
      rw [hfirst] at hsearch
      obtain ⟨hh, node, node', hnode, hfound, hfind⟩ := hsearch
      refine ⟨hh, node, node', hnode, hfound, ?_⟩
      have htake := hi.allocTake_found hh hn hnode hfound
      rw [hpages] at htake
      rw [hfind, ok_bind]
      exact htake

/-! ## The invariant afterwards -/

theorem Inv.payload_of_free {h r : Range} (hh : h ∈ s.heaps) (hpos : 0 < r.size) (hin : r.Inside h)
    (hr : ∀ x ∈ r, s.Free x) : r.Inside (payload h) :=
  Range.inside_of_mem hpos fun x hx => (hi.covers_payload hh (hin.mem hx)).1 (hr x hx).1

omit hi in
/-- What was taken is not free any more. -/
theorem free_taken (h : Range) (node : MmapNode) (r : Range) (x : Nat) :
    Sys.Free ⟨s.st.taken h node r, s.heaps, s.live ++ [r]⟩ x ↔
      if x ∈ r then false = true else s.Free x := by
  show Covers (s.heaps.map payload) x ∧ ¬ Covers (s.live ++ [r]) x ∧ x ∉ s.st.brkArea ↔ _
  rw [Lib.covers_append, Lib.covers_cons]
  unfold Sys.Free
  split <;> simp_all

/-- Pages of a bitmap were taken. -/
theorem Inv.taken {h : Range} (hh : h ∈ s.heaps) {node node' : MmapNode} {n p : Nat} (hn : 0 < n)
    (hnode : s.st.nodes h.base = some node) (hfound : FoundRun h node node' n p) :
    Inv ⟨s.st.taken h node' (pageRange h p n), s.heaps, s.live ++ [pageRange h p n]⟩ := by
  have hof := hi.node_of hh hnode
  have hpos : 0 < (pageRange h p n).size := Nat.mul_pos hn (by decide)
  have hfree := hi.run_free hh hof hfound.run hfound.le
  have hinside := hi.payload_of_free hh hpos (pageRange_inside hfound.le) hfree
  have hmeta : ∀ g ∈ s.heaps, (metadata g).Apart (pageRange h p n) :=
    fun g hg => hi.metadata_apart hg hh hinside
  refine ⟨?_, ?_, hi.heap, hi.apart, hi.totalSize, ?_, ?_, ?_, ?_⟩
  · exact zeroed_chain hi.heap hmeta hi.chain
  · intro g hg
    obtain ⟨node₂, hnode₂, hof₂⟩ := hi.flip hh hnode hof hfound.flip hfound.le
      (fun g _ x _ => free_taken h node' _ x) g hg
    exact ⟨node₂, hof₂.zeroed (hi.heap g hg) (hmeta g hg) hnode₂, hof₂⟩
  · show s.st.mmapAllocSize + (pageRange h p n).size = _
    rw [Lib.total_append, Lib.total_cons, Lib.total_nil, hi.allocSize, Nat.add_zero]
  · obtain ⟨k, hk, hb⟩ := hi.brk
    exact ⟨k, hk, hb.node, hb.base, hb.base_le, hb.cur_le, hb.top_le, hb.cur_paged, hb.top_paged⟩
  · intro q hq
    rcases List.mem_append.1 hq with hq | hq
    · exact (hi.live q hq).mono (fun _ hk _ => hk) ⟨le_rfl, le_rfl⟩
    · obtain rfl := List.mem_singleton.1 hq
      exact ⟨pageRange_paged (hi.heap h hh).paged p n, hpos, ⟨h, hh, hinside⟩,
        fun x hx => (hfree x hx).2.2⟩
  · exact hi.free_apart hpos hfree

/-- The top of the break was taken. -/
theorem Inv.stolen {len : Nat} (hpos : 0 < len) (hlen : len % 4096 = 0)
    (hle : len ≤ s.st.brkTop - s.st.curBrk) :
    Inv ⟨s.st.stolen len, s.heaps, s.live ++ [⟨s.st.brkTop - len, len⟩]⟩ := by
  obtain ⟨k, hk, hb⟩ := hi.brk
  have hle₁ := hb.base_le
  have hle₂ := hb.cur_le
  obtain ⟨g, hg, harea⟩ := hi.brkArea_inside
  have htop := hi.top_inside hle
  have hmeta : ∀ h ∈ s.heaps, (metadata h).Apart ⟨s.st.brkTop - len, len⟩ :=
    fun h hh => hi.metadata_apart hh hg (htop.trans harea)
  have hless : (s.st.stolen len).brkArea.Inside s.st.brkArea := by
    show s.st.brkBase ≤ s.st.brkBase ∧
      s.st.brkBase + (s.st.brkTop - len - s.st.brkBase) ≤ s.st.brkBase + (s.st.brkTop - s.st.brkBase)
    omega
  -- what the break loses the mapping gains
  have harea' : ∀ x, x ∈ s.st.brkArea ↔
      x ∈ (⟨s.st.brkTop - len, len⟩ : Range) ∨ x ∈ (s.st.stolen len).brkArea := by
    intro x
    show (s.st.brkBase ≤ x ∧ x < s.st.brkBase + (s.st.brkTop - s.st.brkBase)) ↔
      (s.st.brkTop - len ≤ x ∧ x < s.st.brkTop - len + len) ∨
        s.st.brkBase ≤ x ∧ x < s.st.brkBase + (s.st.brkTop - len - s.st.brkBase)
    omega
  have hfree : ∀ x, Sys.Free ⟨s.st.stolen len, s.heaps, s.live ++ [⟨s.st.brkTop - len, len⟩]⟩ x ↔
      s.Free x := by
    intro x
    unfold Sys.Free
    dsimp only
    rw [Lib.covers_append, Lib.covers_cons, harea' x]
    simp only [Lib.covers_nil, or_false, not_or, and_assoc]
  refine ⟨?_, ?_, hi.heap, hi.apart, hi.totalSize, ?_, ?_, ?_, hi.top_apart hpos hle⟩
  · exact zeroed_chain hi.heap hmeta hi.chain
  · intro h hh
    obtain ⟨node, hnode, hof⟩ := hi.node h hh
    have hof' := hof.congr fun p _ => hfree (h.base + 4096 * p)
    exact ⟨node, hof'.zeroed (hi.heap h hh) (hmeta h hh) hnode, hof'⟩
  · show s.st.mmapAllocSize + len = _
    rw [Lib.total_append, Lib.total_cons, Lib.total_nil, hi.allocSize, Nat.add_zero]
  · refine ⟨k, hk, hb.node, hb.base, hb.base_le, ?_, ?_, hb.cur_paged, ?_⟩
    · show s.st.curBrk ≤ s.st.brkTop - len
      omega
    · exact (Nat.sub_le _ _).trans hb.top_le
    · have hpaged := hb.top_paged
      show (s.st.brkTop - len) % 4096 = 0
      omega
  · intro q hq
    rcases List.mem_append.1 hq with hq | hq
    · exact (hi.live q hq).mono (fun _ hk _ => hk) hless
    · obtain rfl := List.mem_singleton.1 hq
      have hpaged := hb.top_paged
      refine ⟨⟨?_, hlen⟩, hpos, ⟨g, hg, htop.trans harea⟩, ?_⟩
      · show (s.st.brkTop - len) % 4096 = 0
        omega
      · intro x hx hx'
        rw [Range.mem_iff] at hx hx'
        have hlow : s.st.brkTop - len ≤ x := hx.1
        have hhigh : x < s.st.brkBase + (s.st.brkTop - len - s.st.brkBase) := hx'.2
        omega

end

/-! ## `sys_mmap` -/

/-- What `sys_mmap` returns for a page below the end of memory is no error, and stands for the page. -/
theorem addrOf_toInt64 {a : Nat} (h : a < 18446744073709547520) :
    isError (toInt64 a) = false ∧ addrOf (toInt64 a) = a := by
  unfold isError addrOf toInt64
  by_cases hlow : a < 9223372036854775808
  · rw [if_pos hlow]
    refine ⟨decide_eq_false (by omega), ?_⟩
    omega
  · rw [if_neg hlow]
    refine ⟨decide_eq_false (by omega), ?_⟩
    omega

section

variable {s : Sys} (hi : Inv s)

include hi

/-- Pages of a heap lie below the end of memory. -/
theorem Inv.base_lt {h r : Range} (hh : h ∈ s.heaps) (hr : r.Inside h) (hpos : 0 < r.size)
    (hpaged : Paged r) : r.base < 18446744073709547520 := by
  obtain ⟨hbase, hsize⟩ := hpaged
  have hfits := (hi.heap h hh).fits
  have hstop := hr.2
  unfold Range.stop at hstop
  omega

/-- **`sys_mmap` keeps the invariant**, and returns. -/
theorem Inv.step_mmap {addr len prot flags off : Nat} {fd : Int}
    (hfit : len ≤ Lib.total s.heaps → len < 17592186044416) :
    ∃ s', s.step (.mmap addr len prot flags fd off) = .ok s' ∧ Inv s' := by
  unfold Sys.step sysMmap
  dsimp only
  by_cases hargs : mmapArgsOk addr len prot flags fd off = true
  · rw [if_pos hargs]
    have hlen : len ≠ 0 ∧ isBaligned len = true := by
      have h := of_decide_eq_true hargs
      exact ⟨h.2.1, h.2.2.1⟩
    have hpos : 0 < len := Nat.pos_of_ne_zero hlen.1
    have hal : len % 4096 = 0 := of_decide_eq_true hlen.2
    have halloc := hi.allocMmap hpos hal hfit
    cases hfirst : s.st.firstFit s.heaps (len / PAGE_SIZE) with
    | some found =>
      obtain ⟨h, p⟩ := found
      rw [hfirst] at halloc
      obtain ⟨hh, node, node', hnode, hfound, hrun⟩ := halloc
      have hn : 0 < len / PAGE_SIZE := by
        unfold PAGE_SIZE
        omega
      have hsize : (pageRange h p (len / PAGE_SIZE)).size = len := by
        unfold pageRange PAGE_SIZE
        dsimp only
        omega
      obtain ⟨herr, haddr⟩ := addrOf_toInt64 (hi.base_lt hh (pageRange_inside hfound.le)
        (hsize.symm ▸ hpos) (pageRange_paged (hi.heap h hh).paged p _))
      refine ⟨_, by rw [hrun, ok_bind]; rfl, ?_⟩
      rw [herr, haddr]
      have htaken := hi.taken hh hn hnode hfound
      rw [show (⟨(pageRange h p (len / PAGE_SIZE)).base, len⟩ : Range) =
        pageRange h p (len / PAGE_SIZE) from congrArg _ hsize.symm]
      exact htaken
    | none =>
      rw [hfirst] at halloc
      dsimp only at halloc
      by_cases hle : len ≤ s.st.brkTop - s.st.curBrk
      · rw [if_pos hle] at halloc
        obtain ⟨g, hg, harea⟩ := hi.brkArea_inside
        have hstolen := hi.stolen hpos hal hle
        obtain ⟨herr, haddr⟩ := addrOf_toInt64 (hi.base_lt hg
          (((hi.top_inside hle).trans harea).trans (hi.heap g hg).payload_inside) hpos
          (hstolen.live _ (List.mem_append_right _ List.mem_cons_self)).paged)
        refine ⟨_, by rw [halloc, ok_bind]; rfl, ?_⟩
        rw [herr, haddr]
        exact hstolen
      · rw [if_neg hle] at halloc
        exact ⟨_, by rw [halloc, ok_bind]; rfl, hi⟩
  · rw [if_neg hargs]
    exact ⟨_, rfl, hi⟩

end

end GunyahRuntime
