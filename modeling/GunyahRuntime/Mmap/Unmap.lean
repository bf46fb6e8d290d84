/-
# GunyahRuntime.Mmap.Unmap -- unmapping in any order and in any pieces

After a batch of `sys_munmap` calls the bitmaps have what they had and the pages of the batch, and nothing else tells
one batch from another: not the order of the calls, nor where one of them ends and the next begins. So the state after
it is known as soon as it is known which bytes the batch covers, and two batches that cover the same end in the same
state (`Freed.eq`). There is no need to ask how one was made from the other.

A mapping that came from a bitmap is such a batch of one range, and it puts back what the mapping took.
-/
import GunyahRuntime.Mmap.Reach

namespace GunyahRuntime

open Lib (Range Covers)

/-- `sys_munmap` of one range after the other: what the calls return, and the state behind them. -/
def munmapEach (st : MmapState) : List Range → Exec (List Int × MmapState)
  | [] => .ok ([], st)
  | r :: rs => do
    let (ret, st) ← sysMunmap st r.base r.size
    let (rets, st) ← munmapEach st rs
    return (ret :: rets, st)

/-- Ranges of mapped pages, each in one heap, that have nothing in common. -/
structure Sys.Batch (s : Sys) (rs : List Range) : Prop where
  pages : ∀ r ∈ rs, 0 < r.size ∧ s.Unmappable r
  apart : rs.Pairwise Range.Apart

/-- What a batch leaves behind. -/
structure Freed (s : Sys) (rs : List Range) (st : MmapState) : Prop where
  /-- The bitmap of a heap gains the pages, and the blocks follow. -/
  node : ∀ h ∈ s.heaps, ∃ node node', s.st.nodes h.base = some node ∧ st.nodes h.base = some node' ∧
    SameNode node node' ∧ node'.InStep ∧
      ∀ p, node'.freePages.get p = true ↔
        node.freePages.get p = true ∨ p < h.size / PAGE_SIZE ∧ Covers rs (h.base + PAGE_SIZE * p)
  elsewhere : ∀ a, a ∉ s.heaps.map Range.base → st.nodes a = s.st.nodes a
  allocSize : st.mmapAllocSize + Lib.total rs = s.st.mmapAllocSize
  rest : st = { s.st with nodes := st.nodes, mmapAllocSize := st.mmapAllocSize }

/-! ## One result -/

theorem Bitmap.eq_of_get {a b : Bitmap} (hlen : a.length = b.length) (h : ∀ k, a.get k = b.get k) : a = b := by
  refine List.ext_getElem hlen fun i ha hb => BitVec.eq_of_getLsbD_eq fun k hk => ?_
  have hbit := h (64 * i + k)
  unfold Bitmap.get at hbit
  rw [show (64 * i + k) / 64 = i by omega, show (64 * i + k) % 64 = k by omega] at hbit
  rwa [← List.getElem_eq_getD (h := ha), ← List.getElem_eq_getD (h := hb)] at hbit

/-- A node is known by its pages. -/
theorem SameNode.eq {node a b : MmapNode} (ha : SameNode node a) (hb : SameNode node b) (hsa : a.InStep)
    (hsb : b.InStep) (h : ∀ p, a.freePages.get p = b.freePages.get p) : a = b := by
  have hpages : a.freePages = b.freePages := Bitmap.eq_of_get (ha.pages.trans hb.pages.symm) h
  have hblocks : a.availBlocks = b.availBlocks := by
    refine Bitmap.eq_of_get (ha.blocks.trans hb.blocks.symm) fun j => ?_
    rw [hsa.avail, hsb.avail, hpages]
  obtain ⟨base, size, avail, free, size₀⟩ := a
  obtain ⟨base', size', avail', free', size₀'⟩ := b
  rw [MmapNode.mk.injEq]
  exact ⟨ha.base.trans hb.base.symm, ha.size.trans hb.size.symm, hblocks, hpages, ha.metaSize.trans hb.metaSize.symm⟩

/-- **What a batch leaves behind depends on what it covers.** -/
theorem Freed.eq {s : Sys} {rs rs' : List Range} {st st' : MmapState} (h : Freed s rs st) (h' : Freed s rs' st')
    (hrs : rs.Pairwise Range.Apart) (hrs' : rs'.Pairwise Range.Apart) (hcovers : ∀ x, Covers rs x ↔ Covers rs' x) :
    st = st' := by
  have htotal := Lib.total_eq_of_covers hrs hrs' hcovers
  have hnodes : st.nodes = st'.nodes := by
    funext a
    by_cases ha : a ∈ s.heaps.map Range.base
    · obtain ⟨g, hg, rfl⟩ := List.mem_map.1 ha
      obtain ⟨node, node', hnode, hafter, hsame, hstep, hget⟩ := h.node g hg
      obtain ⟨node₂, node₂', hnode₂, hafter₂, hsame₂, hstep₂, hget₂⟩ := h'.node g hg
      obtain rfl := Option.some.inj (hnode.symm.trans hnode₂)
      rw [hafter, hafter₂, hsame.eq hsame₂ hstep hstep₂]
      intro p
      rw [Bool.eq_iff_iff, hget, hget₂, hcovers]
    · rw [h.elsewhere a ha, h'.elsewhere a ha]
  have halloc : st.mmapAllocSize = st'.mmapAllocSize := by
    have hsize := h.allocSize
    have hsize' := h'.allocSize
    omega
  rw [h.rest, h'.rest, hnodes, halloc]

/-- A heap in which the batch has no pages is left alone. -/
theorem Freed.other {s : Sys} {rs : List Range} {st : MmapState} (h : Freed s rs st) {g : Range} (hg : g ∈ s.heaps)
    (hi : Inv s) (hmiss : ∀ x ∈ g, ¬ Covers rs x) : st.nodes g.base = s.st.nodes g.base := by
  obtain ⟨node, node', hnode, hafter, hsame, hstep, hget⟩ := h.node g hg
  have hof := hi.node_of hg hnode
  rw [hnode, hafter, hsame.eq (SameNode.rfl node) hstep hof.inStep]
  intro p
  rw [Bool.eq_iff_iff, hget]
  exact or_iff_left fun hp => hmiss _ (hi.page_mem hg hp.1) hp.2

/-- What is left to unmap behind the first call. -/
theorem Sys.Batch.tail {s : Sys} {r : Range} {rs : List Range} (hb : s.Batch (r :: rs)) (st : MmapState) :
    Sys.Batch ⟨st, s.heaps, Lib.cut s.live r⟩ rs := by
  obtain ⟨hfirst, hrest⟩ := List.pairwise_cons.1 hb.apart
  refine ⟨fun q hq => ?_, hrest⟩
  obtain ⟨hpos, hbase, hsize, hinside, hlive⟩ := hb.pages q (List.mem_cons_of_mem _ hq)
  refine ⟨hpos, hbase, hsize, hinside, fun x hx => ?_⟩
  show Covers (Lib.cut s.live r) x
  rw [Lib.covers_cut]
  exact ⟨hlive x hx, (hfirst q hq).symm.not_mem hx⟩

/-- Two batches, one after the other. -/
theorem Freed.trans {s : Sys} {rs rs' : List Range} {st st' : MmapState} {live : List Range} (h : Freed s rs st)
    (h' : Freed ⟨st, s.heaps, live⟩ rs' st') : Freed s (rs ++ rs') st' := by
  refine ⟨fun g hg => ?_, fun a ha => (h'.elsewhere a ha).trans (h.elsewhere a ha), ?_, ?_⟩
  · obtain ⟨node, node₁, hnode, hafter, hsame, -, hget⟩ := h.node g hg
    obtain ⟨node₁', node', hnode', hafter', hsame', hstep, hget'⟩ := h'.node g hg
    obtain rfl := Option.some.inj (hafter.symm.trans hnode')
    refine ⟨node, node', hnode, hafter', hsame.trans hsame', hstep, fun p => ?_⟩
    rw [hget', hget, Lib.covers_append, or_assoc, ← and_or_left]
  · have hsize := h.allocSize
    have hsize' : st'.mmapAllocSize + Lib.total rs' = st.mmapAllocSize := h'.allocSize
    rw [Lib.total_append]
    omega
  · have hrest := h'.rest
    rw [h.rest] at hrest
    exact hrest

/-! ## One call -/

section

variable {s : Sys} (hi : Inv s)

include hi

/-- What passes as a range to unmap passes the check of the arguments. -/
theorem Inv.munmapArgsOk {r : Range} (hpos : 0 < r.size) (hr : s.Unmappable r) :
    r.size < 18446744073709551616 ∧ munmapArgsOk r.base r.size = true := by
  obtain ⟨hbase, hsize, ⟨h, hh, hin⟩, -⟩ := hr
  have hfits := (hi.heap h hh).fits
  have hne := (hi.heap h hh).base_ne
  obtain ⟨hlo, hhi⟩ := hin
  unfold Range.stop at hhi
  have hlt : r.size < 18446744073709551616 := by omega
  exact ⟨hlt, (munmapArgsOk_iff hlt).2 ⟨by omega, hpos, by omega, hbase, hsize⟩⟩

/-- The state behind one call, in terms of the pages. -/
theorem Inv.freed_given {h r : Range} (hh : h ∈ s.heaps) (hpaged : Paged r) (hin : r.Inside h)
    (hle : r.size ≤ s.st.mmapAllocSize) {node node' : MmapNode} (hnode : s.st.nodes h.base = some node)
    (hflip : Flipped node node' ((r.base - h.base) / PAGE_SIZE)
      ((r.base - h.base) / PAGE_SIZE + r.size / PAGE_SIZE) true) : Freed s [r] (s.st.given h node' r) := by
  obtain ⟨heq, hpages⟩ := pageRange_eq (hi.heap h hh).paged hpaged hin
  have hcovers : ∀ x, Covers [r] x ↔ x ∈ r := fun x => by simp
  refine ⟨fun g hg => ?_, fun a ha => ?_, ?_, rfl⟩
  · by_cases hgh : g = h
    · subst hgh
      refine ⟨node, node', hnode, Function.update_self .., hflip.same, hflip.inStep, fun p => ?_⟩
      have hmem : g.base + 4096 * p ∈ r ↔ (r.base - g.base) / PAGE_SIZE ≤ p ∧
          p < (r.base - g.base) / PAGE_SIZE + r.size / PAGE_SIZE := by
        rw [← mem_pageRange, heq]
      rw [hflip.get, hcovers, show PAGE_SIZE * p = 4096 * p from rfl, hmem]
      unfold PAGE_SIZE at *
      split
      · next hp => exact iff_of_true rfl (.inr ⟨by omega, hp⟩)
      · next hp => exact (or_iff_left fun h => hp h.2).symm
    · -- the other heaps have no page of the range
      obtain ⟨node₁, hnode₁, hof⟩ := hi.node g hg
      have hbase : g.base ≠ h.base := fun hb => hgh (hi.base_inj hg hh hb)
      refine ⟨node₁, node₁, hnode₁, ?_, SameNode.rfl _, hof.inStep, fun p => ?_⟩
      · exact (Function.update_of_ne hbase ..).trans hnode₁
      · refine (or_iff_left fun hp => hgh ?_).symm
        exact hi.heap_unique hg hh (hi.page_mem hg hp.1) (hin.mem ((hcovers _).1 hp.2))
  · refine Function.update_of_ne (fun hb => ha ?_) ..
    rw [hb]
    exact List.mem_map_of_mem hh
  · show sub64 s.st.mmapAllocSize r.size + Lib.total [r] = s.st.mmapAllocSize
    rw [sub64_of_le hle hi.alloc_lt, Lib.total_cons, Lib.total_nil]
    omega

/-- **One call** frees its range, and the invariant stays. -/
theorem Inv.munmap_freed {r : Range} (hpos : 0 < r.size) (hr : s.Unmappable r) :
    ∃ st', sysMunmap s.st r.base r.size = .ok (0, st') ∧ Freed s [r] st' ∧ Inv ⟨st', s.heaps, Lib.cut s.live r⟩ := by
  obtain ⟨hlt, hargs⟩ := hi.munmapArgsOk hpos hr
  obtain ⟨hbase, hsize, ⟨g, hg, hing⟩, hlive⟩ := hr
  have hle : r.size ≤ s.st.mmapAllocSize := by
    have hsum := Lib.total_cut hi.liveApart hlive
    have halloc := hi.allocSize
    omega
  rcases hi.munmap_cases hlt hargs with
    ⟨hnone, -⟩ | ⟨h, hh, hin, ⟨⟨x, hx, hfx⟩, -⟩ | ⟨-, node, node', hnode, hflip, hrun⟩⟩
  · exact absurd hing (hnone g hg)
  · exact absurd (hlive x hx) hfx.2.1
  · exact ⟨_, hrun, hi.freed_given hh ⟨hbase, hsize⟩ hin hle hnode hflip,
      hi.given hh ⟨hbase, hsize⟩ hin hlive hnode hflip⟩

/-- **A batch of calls** succeeds, and frees what it covers. -/
theorem Inv.munmapEach_freed {rs : List Range} (hb : s.Batch rs) :
    ∃ st', munmapEach s.st rs = .ok (List.replicate rs.length 0, st') ∧ Freed s rs st' := by
  induction rs generalizing s with
  | nil =>
    refine ⟨s.st, rfl, fun h hh => ?_, fun _ _ => rfl, rfl, rfl⟩
    obtain ⟨node, hnode, hof⟩ := hi.node h hh
    exact ⟨node, node, hnode, hnode, SameNode.rfl node, hof.inStep, fun p => by simp⟩
  | cons r rs ih =>
    obtain ⟨hpos, hr⟩ := hb.pages r List.mem_cons_self
    obtain ⟨st₁, hrun, hfreed, hi₁⟩ := hi.munmap_freed hpos hr
    obtain ⟨st', hrest, hfreed'⟩ := ih hi₁ (hb.tail st₁)
    refine ⟨st', ?_, hfreed.trans hfreed'⟩
    rw [munmapEach, hrun, ok_bind]
    dsimp only
    rw [hrest]
    rfl

/-! ## Mapped and unmapped -/

/-- The pages that the search found, taken and given back: their memory is zero, and nothing else has changed. -/
theorem Inv.taken_given {h : Range} (hh : h ∈ s.heaps) {node node' node'' : MmapNode} {n p : Nat} (hn : 0 < n)
    (hnode : s.st.nodes h.base = some node) (hfound : FoundRun h node node' n p)
    (hback : Flipped node' node'' p (p + n) true) :
    (s.st.taken h node' (pageRange h p n)).given h node'' (pageRange h p n) =
      s.st.zeroed (pageRange h p n).base (pageRange h p n).size := by
  have hof := hi.node_of hh hnode
  have hpos : 0 < (pageRange h p n).size := Nat.mul_pos hn (by decide)
  have hfree := hi.run_free hh hof hfound.run hfound.le
  have hinside := hi.payload_of_free hh hpos (pageRange_inside hfound.le) hfree
  have halloc := hi.live_total_lt (hi.free_apart hpos hfree) ⟨h, hh, pageRange_inside hfound.le⟩
  have hsame : node'' = node := by
    refine SameNode.eq (hfound.flip.same.trans hback.same) (SameNode.rfl node) hback.inStep hof.inStep fun k => ?_
    rw [hback.get, hfound.flip.get]
    by_cases hk : p ≤ k ∧ k < p + n
    · have hset := hfound.run (k - p) (by omega)
      rw [Nat.add_sub_cancel' hk.1] at hset
      rw [if_pos hk, hset]
    · rw [if_neg hk, if_neg hk]
  have hkept : (s.st.zeroed (pageRange h p n).base (pageRange h p n).size).nodes h.base = some node :=
    hof.zeroed (hi.heap h hh) (hi.metadata_apart hh hh hinside) hnode
  rw [hsame]
  have hnodes : ((s.st.taken h node' (pageRange h p n)).given h node (pageRange h p n)).nodes =
      (s.st.zeroed (pageRange h p n).base (pageRange h p n).size).nodes := by
    funext a
    by_cases ha : a = h.base
    · rw [ha, hkept]
      exact Function.update_self ..
    · refine (Function.update_of_ne ha ..).trans ?_
      show ((Function.update s.st.nodes h.base (some node')) a).filter _ = (s.st.nodes a).filter _
      rw [Function.update_of_ne ha]
  have hsize : sub64 (s.st.mmapAllocSize + (pageRange h p n).size) (pageRange h p n).size = s.st.mmapAllocSize := by
    rw [sub64_of_le le_add_self halloc, Nat.add_sub_cancel]
  unfold MmapState.given MmapState.taken at hnodes ⊢
  unfold MmapState.zeroed MmapState.storeNode at hnodes ⊢
  dsimp only at hnodes ⊢
  rw [hnodes, hsize]

end

/-- `alloc_mmap` finds the pages in a bitmap. -/
def ServedFromBitmap (st : MmapState) (len : Nat) : Prop :=
  ∃ found, st.findNode (allocTest (u32 (len / PAGE_SIZE))) = .ok (some found)

section

variable {s : Sys} (hi : Inv s)

include hi

/-- What a mapping that came from a bitmap returned, and the state behind it. -/
theorem Inv.sysMmap_served {addr len prot flags off : Nat} {fd ret : Int} {st' : MmapState}
    (hfit : len ≤ Lib.total s.heaps → len < 17592186044416) (hserved : ServedFromBitmap s.st len)
    (hrun : sysMmap s.st addr len prot flags fd off = .ok (ret, st')) (hret : isError ret = false) :
    ∃ h ∈ s.heaps, ∃ node node' p, 0 < len / PAGE_SIZE ∧ s.st.nodes h.base = some node ∧
      FoundRun h node node' (len / PAGE_SIZE) p ∧ (pageRange h p (len / PAGE_SIZE)).size = len ∧
        addrOf ret = (pageRange h p (len / PAGE_SIZE)).base ∧ st' = s.st.taken h node' (pageRange h p (len / PAGE_SIZE)) := by
  unfold sysMmap at hrun
  by_cases hargs : mmapArgsOk addr len prot flags fd off = true
  · rw [if_pos hargs] at hrun
    have hlen := of_decide_eq_true hargs
    have hpos : 0 < len := Nat.pos_of_ne_zero hlen.2.1
    have hal : len % 4096 = 0 := of_decide_eq_true hlen.2.2.1
    have hn : 0 < len / PAGE_SIZE := by
      unfold PAGE_SIZE
      omega
    have halloc := hi.allocMmap hpos hal hfit
    cases hfirst : s.st.firstFit s.heaps (len / PAGE_SIZE) with
    | some found =>
      obtain ⟨h, p⟩ := found
      rw [hfirst] at halloc
      obtain ⟨hh, node, node', hnode, hfound, hresult⟩ := halloc
      have hsize : (pageRange h p (len / PAGE_SIZE)).size = len := by
        unfold pageRange PAGE_SIZE
        dsimp only
        omega
      obtain ⟨-, haddr⟩ := addrOf_toInt64 (hi.base_lt hh (pageRange_inside hfound.le)
        (hsize.symm ▸ hpos) (pageRange_paged (hi.heap h hh).paged p _))
      rw [hresult] at hrun
      obtain ⟨rfl, rfl⟩ := Prod.mk.inj (Except.ok.inj hrun)
      exact ⟨h, hh, node, node', p, hn, hnode, hfound, hsize, haddr, rfl⟩
    | none =>
      rw [hfirst] at halloc
      dsimp only at halloc
      have hsearch := hi.findNode_alloc hn
      rw [hfirst] at hsearch
      dsimp only at hsearch
      by_cases hle : len ≤ s.st.brkTop - s.st.curBrk
      · -- the search that found pages is the one that found none
        obtain ⟨found, hfind⟩ := hserved
        obtain ⟨g, hg, harea⟩ := hi.brkArea_inside
        have hstop := ((hi.top_inside hle).trans harea).trans (hi.heap g hg).payload_inside
        have hlt := hfit (by
          have htotal := Lib.le_total hg
          unfold Range.Inside Range.stop at hstop
          dsimp only at hstop
          omega)
        rw [u32_of_lt (by unfold PAGE_SIZE; omega), hsearch] at hfind
        cases hfind
      · rw [if_neg hle] at halloc
        rw [halloc] at hrun
        obtain ⟨rfl, -⟩ := Prod.mk.inj (Except.ok.inj hrun)
        cases hret
  · rw [if_neg hargs] at hrun
    obtain ⟨rfl, -⟩ := Prod.mk.inj (Except.ok.inj hrun)
    cases hret

/-- Pages that the search found, taken and unmapped. -/
theorem Inv.munmap_taken {h : Range} (hh : h ∈ s.heaps) {node node' : MmapNode} {n p : Nat} (hn : 0 < n)
    (hnode : s.st.nodes h.base = some node) (hfound : FoundRun h node node' n p) :
    sysMunmap (s.st.taken h node' (pageRange h p n)) (pageRange h p n).base (pageRange h p n).size =
      .ok (0, s.st.zeroed (pageRange h p n).base (pageRange h p n).size) := by
  have hof := hi.node_of hh hnode
  have hpos : 0 < (pageRange h p n).size := Nat.mul_pos hn (by decide)
  have hinside := pageRange_inside hfound.le
  have hpaged := pageRange_paged (hi.heap h hh).paged p n
  have hpayload := hi.payload_of_free hh hpos hinside (hi.run_free hh hof hfound.run hfound.le)
  have hi' := hi.taken hh hn hnode hfound
  have hlive : ∀ x ∈ pageRange h p n, Covers (s.live ++ [pageRange h p n]) x :=
    fun x hx => ⟨_, List.mem_append_right _ List.mem_cons_self, hx⟩
  obtain ⟨hlt, hargs⟩ := hi'.munmapArgsOk hpos ⟨hpaged.1, hpaged.2, ⟨h, hh, hinside⟩, hlive⟩
  have hfirst : (pageRange h p n).base ∈ pageRange h p n := ⟨le_rfl, Nat.lt_add_of_pos_right hpos⟩
  have hoff : ((pageRange h p n).base - h.base) / PAGE_SIZE = p := by
    show (h.base + p * PAGE_SIZE - h.base) / PAGE_SIZE = p
    rw [Nat.add_sub_cancel_left, Nat.mul_div_cancel _ (by decide)]
  have hpages : (pageRange h p n).size / PAGE_SIZE = n := Nat.mul_div_cancel _ (by decide)
  rcases hi'.munmap_cases hlt hargs with
    ⟨hnone, -⟩ | ⟨g, hg, hin, ⟨⟨x, hx, hfx⟩, -⟩ | ⟨-, node₁, node'', hnode₁, hback, hmunmap⟩⟩
  · exact absurd hinside (hnone h hh)
  · exact absurd (hlive x hx) hfx.2.1
  · obtain rfl := hi.heap_unique hg hh (hin.mem hfirst) (hinside.mem hfirst)
    have htaken : (s.st.taken g node' (pageRange g p n)).nodes g.base = some node' := by
      have hobject : node'.object g.base = node.object g.base := by
        unfold MmapNode.object
        rw [hfound.flip.same.blocks, hfound.flip.same.pages]
      refine zeroed_nodes (Function.update_self ..) ?_
      rw [hobject]
      exact (hi.metadata_apart hg hg hpayload).of_inside (hof.object_inside (hi.heap g hg))
    obtain rfl := Option.some.inj (hnode₁.symm.trans htaken)
    rw [hoff, hpages] at hback
    rw [← hi.taken_given hg hn hnode hfound hback]
    exact hmunmap

/-- Unmapping what came from a bitmap puts it back. -/
theorem Inv.mmap_munmap {addr len prot flags off : Nat} {fd ret : Int} {st' : MmapState}
    (hfit : len ≤ Lib.total s.heaps → len < 17592186044416) (hserved : ServedFromBitmap s.st len)
    (hrun : sysMmap s.st addr len prot flags fd off = .ok (ret, st')) (hret : isError ret = false) :
    sysMunmap st' (addrOf ret) len = .ok (0, s.st.zeroed (addrOf ret) len) ∧
      ∀ h ∈ s.heaps, (metadata h).Apart ⟨addrOf ret, len⟩ := by
  obtain ⟨h, hh, node, node', p, hn, hnode, hfound, hsize, haddr, rfl⟩ := hi.sysMmap_served hfit hserved hrun hret
  have hmunmap := hi.munmap_taken hh hn hnode hfound
  have hpos : 0 < (pageRange h p (len / PAGE_SIZE)).size := Nat.mul_pos hn (by decide)
  have hrun := hi.run_free hh (hi.node_of hh hnode) hfound.run hfound.le
  have hpayload := hi.payload_of_free hh hpos (pageRange_inside hfound.le) hrun
  have hrange : pageRange h p (len / PAGE_SIZE) = ⟨addrOf ret, len⟩ := by
    rw [haddr]
    exact congrArg _ hsize
  rw [hrange] at hmunmap hpayload ⊢
  exact ⟨hmunmap, fun g hg => hi.metadata_apart hg hh hpayload⟩

end

/-- The allocator is as it was: its statics, and the nodes of the heaps and their links. -/
structure Restored (s : Sys) (st : MmapState) : Prop where
  node : ∀ h ∈ s.heaps, st.nodes h.base = s.st.nodes h.base
  next : ∀ h ∈ s.heaps, st.links.next h.base = s.st.links.next h.base
  prev : ∀ h ∈ s.heaps, st.links.prev h.base = s.st.links.prev h.base
  rest : st = { s.st with nodes := st.nodes, links := st.links }

theorem Inv.restored_zeroed {s : Sys} (hi : Inv s) {lo len : Nat}
    (h : ∀ g ∈ s.heaps, (metadata g).Apart ⟨lo, len⟩) : Restored s (s.st.zeroed lo len) := by
  have hlinks : ∀ g ∈ s.heaps, (s.st.zeroed lo len).links.next g.base = s.st.links.next g.base ∧
      (s.st.zeroed lo len).links.prev g.base = s.st.links.prev g.base := by
    intro g hg
    obtain ⟨-, hsize, -⟩ := metaSizeAlign_spec (hi.heap g hg).small
    refine zeroed_links ((h g hg).of_inside ⟨le_rfl, ?_⟩)
    show g.base + MMAP_NODE_SIZE ≤ g.base + metaSizeAlign g.size
    exact Nat.add_le_add_left (le_of_add_le_left hsize) _
  refine ⟨fun g hg => ?_, fun g hg => (hlinks g hg).1, fun g hg => (hlinks g hg).2, rfl⟩
  obtain ⟨node, hnode, hof⟩ := hi.node g hg
  rw [hnode, hof.zeroed (hi.heap g hg) (h g hg) hnode]

/-- **Unmapping is free of order and of pieces.** In every state that an application reaches, a batch of mapped ranges
is unmapped and leaves its pages free and nothing else changed; batches that cover the same pages leave the same state;
and what a mapping took from a bitmap, unmapping it puts back. Only the memory of the pages themselves is zero. -/
theorem Sys.Reachable.munmap_any_order {s : Sys} (hs : s.Reachable) :
    (∀ rs, s.Batch rs → ∃ st', munmapEach s.st rs = .ok (List.replicate rs.length 0, st') ∧ Freed s rs st' ∧
      ∀ h ∈ s.heaps, (∀ x ∈ h, ¬ Covers rs x) → st'.nodes h.base = s.st.nodes h.base) ∧
    (∀ rs rs', s.Batch rs → s.Batch rs' → (∀ x, Covers rs x ↔ Covers rs' x) →
      ∃ st', munmapEach s.st rs = .ok (List.replicate rs.length 0, st') ∧
        munmapEach s.st rs' = .ok (List.replicate rs'.length 0, st')) ∧
    (∀ addr len prot flags fd off ret st', ServedFromBitmap s.st len →
      sysMmap s.st addr len prot flags fd off = .ok (ret, st') → isError ret = false →
        ∃ st'', sysMunmap st' (addrOf ret) len = .ok (0, st'') ∧ Restored s st'' ∧
          st'' = s.st.zeroed (addrOf ret) len) := by
  obtain ⟨hi, hlt⟩ := hs.inv
  refine ⟨fun rs hb => ?_, fun rs rs' hb hb' hcovers => ?_, fun addr len prot flags fd off ret st' hserved hrun hret => ?_⟩
  · obtain ⟨st', hrun, hfreed⟩ := hi.munmapEach_freed hb
    exact ⟨st', hrun, hfreed, fun h hh hmiss => hfreed.other hh hi hmiss⟩
  · obtain ⟨st₁, hrun, hfreed⟩ := hi.munmapEach_freed hb
    obtain ⟨st₂, hrun', hfreed'⟩ := hi.munmapEach_freed hb'
    obtain rfl := hfreed.eq hfreed' hb.apart hb'.apart hcovers
    exact ⟨st₁, hrun, hrun'⟩
  · have hfit : len ≤ Lib.total s.heaps → len < 17592186044416 := fun hle => by omega
    obtain ⟨hmunmap, hapart⟩ := hi.mmap_munmap hfit hserved hrun hret
    exact ⟨_, hmunmap, hi.restored_zeroed hapart, rfl⟩

/-- Two pages, unmapped together and one by one, the second first. -/
theorem munmap_two_pages : ∃ s : Sys, s.live = [⟨139264, 8192⟩] ∧
    ∃ st', munmapEach s.st [⟨139264, 8192⟩] = .ok ([0], st') ∧
      munmapEach s.st [⟨143360, 4096⟩, ⟨139264, 4096⟩] = .ok ([0, 0], st') := by
  obtain ⟨s, hs, hheaps, hlive⟩ := @exists_mapped_of 8192 139264 (by decide) (by decide) (by decide +kernel)
  have hlive : s.live = [⟨139264, 8192⟩] := hlive
  have hpages : ∀ r : Range, r.Inside ⟨139264, 8192⟩ → r.base % PAGE_SIZE = 0 → r.size % PAGE_SIZE = 0 →
      s.Unmappable r := by
    intro r hr hbase hsize
    refine ⟨hbase, hsize, ⟨⟨81920, 65536⟩, by rw [hheaps]; exact List.mem_singleton_self _, ?_⟩, fun x hx => ?_⟩
    · exact hr.trans ⟨by decide, by decide⟩
    · rw [hlive]
      exact ⟨_, List.mem_singleton_self _, hr.mem hx⟩
  refine ⟨s, hlive, (Sys.Reachable.munmap_any_order hs).2.1 _ _ ⟨?_, ?_⟩ ⟨?_, ?_⟩ fun x => ?_⟩
  · simp only [List.forall_mem_singleton]
    exact ⟨by decide, hpages _ ⟨by decide, by decide⟩ (by decide) (by decide)⟩
  · exact List.pairwise_singleton _ _
  · simp only [List.forall_mem_cons, List.not_mem_nil, false_imp_iff, implies_true, and_true]
    exact ⟨⟨by decide, hpages _ ⟨by decide, by decide⟩ (by decide) (by decide)⟩,
      by decide, hpages _ ⟨by decide, by decide⟩ (by decide) (by decide)⟩
  · simp [Range.Apart, Range.stop]
  · simp only [Lib.covers_cons, Lib.covers_nil, or_false, Range.mem_iff, Range.stop]
    omega

end GunyahRuntime
