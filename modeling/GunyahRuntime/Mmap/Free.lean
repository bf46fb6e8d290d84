/-
# GunyahRuntime.Mmap.Free -- what `sys_munmap` does

A range that passes the check of the arguments is refused if no heap holds it. In a heap an assertion
fails if one of its pages is free, and if none is the pages become free, whatever they were before
(`Inv.munmap_cases`): `free_mmap` knows the pages that are free and no more. Unmapping what is mapped
keeps the invariant.
-/
import GunyahRuntime.Mmap.Alloc

namespace GunyahRuntime

open Lib (Range Covers)

/-- The state after the pages of a range were made free: `node` is the node with their bits set. -/
def MmapState.given (st : MmapState) (h : Range) (node : MmapNode) (r : Range) : MmapState :=
  { st.storeNode h.base node with mmapAllocSize := sub64 st.mmapAllocSize r.size }

/-- A range of pages in a heap, as pages of the heap. -/
theorem pageRange_eq {h r : Range} (hh : Paged h) (hr : Paged r) (hin : r.Inside h) :
    pageRange h ((r.base - h.base) / PAGE_SIZE) (r.size / PAGE_SIZE) = r ∧
      (r.base - h.base) / PAGE_SIZE + r.size / PAGE_SIZE ≤ h.size / PAGE_SIZE := by
  obtain ⟨base, size⟩ := r
  obtain ⟨h1, h2⟩ := hh
  obtain ⟨h3, h4⟩ := hr
  obtain ⟨hlo, hhi⟩ := hin
  unfold Range.stop at hhi
  unfold pageRange PAGE_SIZE
  dsimp only at *
  refine ⟨?_, by omega⟩
  rw [Range.mk.injEq]
  omega

theorem not_addOverflows {a b : Nat} (hb : b < 18446744073709551616) :
    (!addOverflows a b) = true ↔ a + b < 18446744073709551616 := by
  unfold addOverflows
  rw [Bool.not_eq_true', decide_eq_false_iff_not]
  omega

/-- What passes the check of the arguments. -/
theorem munmapArgsOk_iff {r : Range} (hsize : r.size < 18446744073709551616) :
    munmapArgsOk r.base r.size = true ↔
      r.base ≠ 0 ∧ 0 < r.size ∧ r.base + r.size < 18446744073709551616 ∧ Paged r := by
  unfold munmapArgsOk
  rw [decide_eq_true_iff, not_addOverflows hsize]
  unfold isBaligned Paged PAGE_SIZE
  rw [decide_eq_true_iff, decide_eq_true_iff, Nat.pos_iff_ne_zero]

/-- What is left of a live mapping is live pages. -/
theorem LiveOk.minus {s : Sys} {r q p : Range} (hq : LiveOk s q) (hr : Paged r) (hp : p ∈ q.minus r) :
    LiveOk s p := by
  obtain ⟨hpos, hends⟩ := Range.mem_minus hp
  have hin := Range.minus_inside hp
  refine ⟨?_, hpos, ?_, fun x hx => hq.off_brk x (hin.mem hx)⟩
  · obtain ⟨h1, h2⟩ := hq.paged
    obtain ⟨h3, h4⟩ := hr
    unfold Range.stop at hends
    unfold Paged
    omega
  · obtain ⟨h, hh, hqh⟩ := hq.inside
    exact ⟨h, hh, hin.trans hqh⟩

section

variable {s : Sys} (hi : Inv s)

include hi

/-- The search for the heap of a range. -/
theorem Inv.findNode_free {r : Range} (hlt : r.base + r.size < 18446744073709551616) :
    ((∀ h ∈ s.heaps, ¬ r.Inside h) ∧ s.st.findNode (freeTest r.base r.size) = .ok none) ∨
      ∃ h ∈ s.heaps, ∃ node, s.st.nodes h.base = some node ∧ r.Inside h ∧
        s.st.findNode (freeTest r.base r.size) = .ok (some (h.base, node)) := by
  have htest : ∀ h ∈ s.heaps, ∀ node, s.st.nodes h.base = some node →
      freeTest r.base r.size h.base node =
        .ok (if r.Inside h then some (h.base, node) else none) := by
    intro h hh node hnode
    have hof := hi.node_of hh hnode
    have hfits := (hi.heap h hh).fits
    unfold freeTest
    rw [hof.base, hof.size, u64_of_lt hlt, u64_of_lt hfits]
    rfl
  rcases hi.findNode fun h hh node hnode => ⟨_, htest h hh node hnode⟩ with
    ⟨hfind, hall⟩ | ⟨l, h, m, node, b, hsplit, hnode, hb, hfind, -⟩
  · refine .inl ⟨fun h hh hin => ?_, hfind⟩
    obtain ⟨node, hnode, -⟩ := hi.node h hh
    have hnone := hall h hh node hnode
    rw [htest h hh node hnode, if_pos hin] at hnone
    cases Except.ok.inj hnone
  · have hh : h ∈ s.heaps := by
      rw [hsplit]
      exact List.mem_append_right _ List.mem_cons_self
    rw [htest h hh node hnode] at hb
    by_cases hin : r.Inside h
    · rw [if_pos hin] at hb
      obtain rfl := Option.some.inj (Except.ok.inj hb)
      exact .inr ⟨h, hh, node, hnode, hin, hfind⟩
    · rw [if_neg hin] at hb
      cases Except.ok.inj hb

/-- Giving the pages of a range back: the bitmaps take it, unless one of them is free. -/
theorem Inv.updateMmapRange_give {h r : Range} (hh : h ∈ s.heaps) {node : MmapNode}
    (hnode : s.st.nodes h.base = some node) (hpaged : Paged r) (hin : r.Inside h) :
    ((∃ x ∈ r, s.Free x) ∧
        updateMmapRange node ((r.base - h.base) / PAGE_SIZE) (r.size / PAGE_SIZE) true = .error .assertion) ∨
      ((∀ x ∈ r, ¬ s.Free x) ∧ ∃ node',
        updateMmapRange node ((r.base - h.base) / PAGE_SIZE) (r.size / PAGE_SIZE) true = .ok node' ∧
        Flipped node node' ((r.base - h.base) / PAGE_SIZE)
          ((r.base - h.base) / PAGE_SIZE + r.size / PAGE_SIZE) true) := by
  have hof := hi.node_of hh hnode
  have hok := hi.heap h hh
  obtain ⟨heq, hle⟩ := pageRange_eq hok.paged hpaged hin
  have hlast : (r.base - h.base) / PAGE_SIZE + r.size / PAGE_SIZE < 4294967296 :=
    hle.trans_lt (hok.pages_le.trans_lt (by decide))
  have hbits : (r.base - h.base) / PAGE_SIZE + r.size / PAGE_SIZE ≤ 64 * node.freePages.length := by
    rw [hof.pages]
    exact hle.trans (pageWords_spec hok.pages_le).1
  generalize (r.base - h.base) / PAGE_SIZE = p at *
  generalize hn : r.size / PAGE_SIZE = n at *
  by_cases hclear : ∃ x ∈ r, s.Free x
  · obtain ⟨x, hx, hfx⟩ := hclear
    refine .inl ⟨⟨x, hx, hfx⟩, ?_⟩
    obtain ⟨-, hpage⟩ := page_eq hok.paged (hin.mem hx)
    have hk : p ≤ (x - h.base) / 4096 ∧ (x - h.base) / 4096 < p + n := by
      rw [← mem_pageRange, heq, hpage]
      exact hpaged.mem_iff.2 hx
    have hset := (hof.get_iff hi hh (hin.mem hx)).2 hfx
    exact updateMmapRange_faults hof.inStep hlast hbits hk.1 hk.2 hset
  · have hused : ∀ k, p ≤ k → k < p + n → node.freePages.get k = !true := by
      intro k h1 h2
      have hx : h.base + 4096 * k ∈ r := heq ▸ mem_pageRange.2 ⟨h1, h2⟩
      refine Bool.eq_false_iff.2 fun hset => hclear ⟨_, hx, ?_⟩
      rw [hof.get] at hset
      exact hset.2
    obtain ⟨node', hupdate, hflip⟩ := updateMmapRange_flips hof.inStep hlast hbits hused
    exact .inr ⟨fun x hx hfx => hclear ⟨x, hx, hfx⟩, node', hupdate, hflip⟩

/-- **What `sys_munmap` does.** It refuses a range that no heap holds; it fails an assertion on one with
a free page; and it makes the pages of every other range free. -/
theorem Inv.munmap_cases {r : Range} (hsize : r.size < 18446744073709551616)
    (hargs : munmapArgsOk r.base r.size = true) :
    ((∀ h ∈ s.heaps, ¬ r.Inside h) ∧ sysMunmap s.st r.base r.size = .ok (-EINVAL, s.st)) ∨
      ∃ h ∈ s.heaps, r.Inside h ∧
        (((∃ x ∈ r, s.Free x) ∧ sysMunmap s.st r.base r.size = .error .assertion) ∨
          ((∀ x ∈ r, ¬ s.Free x) ∧ ∃ node node', s.st.nodes h.base = some node ∧
            Flipped node node' ((r.base - h.base) / PAGE_SIZE)
              ((r.base - h.base) / PAGE_SIZE + r.size / PAGE_SIZE) true ∧
            sysMunmap s.st r.base r.size = .ok (0, s.st.given h node' r))) := by
  obtain ⟨hbase, hpos, hlt, hpaged⟩ := (munmapArgsOk_iff hsize).1 hargs
  have hoverflow : (!addOverflows r.base r.size) = true := (not_addOverflows hsize).2 hlt
  have hal₁ : isBaligned r.base = true := decide_eq_true hpaged.1
  have hal₂ : isBaligned r.size = true := decide_eq_true hpaged.2
  unfold sysMunmap
  rw [if_pos hargs]
  unfold freeMmap
  rw [hoverflow, cassert_true, ok_bind, hal₁, cassert_true, ok_bind, hal₂, cassert_true, ok_bind]
  rcases hi.findNode_free hlt with ⟨hnone, hfind⟩ | ⟨h, hh, node, hnode, hin, hfind⟩
  · rw [hfind, ok_bind]
    exact .inl ⟨hnone, rfl⟩
  refine .inr ⟨h, hh, hin, ?_⟩
  have hoff : sub64 r.base node.base = r.base - h.base := by
    rw [(hi.node_of hh hnode).base]
    exact sub64_of_le hin.1 (by omega)
  have hlast : (r.base - h.base) / PAGE_SIZE + r.size / PAGE_SIZE < 4294967296 :=
    (pageRange_eq (hi.heap h hh).paged hpaged hin).2.trans_lt ((hi.heap h hh).pages_le.trans_lt (by decide))
  rw [hfind, ok_bind]
  dsimp only
  rw [hoff, u32_of_lt (le_self_add.trans_lt hlast), u32_of_lt (le_add_self.trans_lt hlast)]
  rcases hi.updateMmapRange_give hh hnode hpaged hin with ⟨hfree, hupdate⟩ | ⟨hnone, node', hupdate, hflip⟩
  · refine .inl ⟨hfree, ?_⟩
    rw [hupdate]
    rfl
  · refine .inr ⟨hnone, node, node', hnode, hflip, ?_⟩
    rw [hupdate, ok_bind]
    rfl

/-- A range of live pages in a heap lies behind the heap's metadata, off the break. -/
theorem Inv.live_range {h r : Range} (hh : h ∈ s.heaps) (hin : r.Inside h)
    (hlive : ∀ x ∈ r, Covers s.live x) : ∀ x ∈ r, x ∈ payload h ∧ x ∉ s.st.brkArea := by
  intro x hx
  obtain ⟨q, hq, hxq⟩ := hlive x hx
  obtain ⟨g, hg, hqg⟩ := (hi.live q hq).inside
  have hxg := hqg.mem hxq
  obtain rfl := hi.heap_unique hh hg (hin.mem hx) ((hi.heap g hg).payload_inside.mem hxg)
  exact ⟨hxg, (hi.live q hq).off_brk x hxq⟩

/-- Pages were given back. -/
theorem Inv.given {h r : Range} (hh : h ∈ s.heaps) (hpaged : Paged r) (hin : r.Inside h)
    (hlive : ∀ x ∈ r, Covers s.live x) {node node' : MmapNode} (hnode : s.st.nodes h.base = some node)
    (hflip : Flipped node node' ((r.base - h.base) / PAGE_SIZE)
      ((r.base - h.base) / PAGE_SIZE + r.size / PAGE_SIZE) true) :
    Inv ⟨s.st.given h node' r, s.heaps, Lib.cut s.live r⟩ := by
  have hof := hi.node_of hh hnode
  have hok := hi.heap h hh
  obtain ⟨heq, hle⟩ := pageRange_eq hok.paged hpaged hin
  have hsum := Lib.total_cut hi.liveApart hlive
  have hrange := hi.live_range hh hin hlive
  have hfree : ∀ x, Sys.Free ⟨s.st.given h node' r, s.heaps, Lib.cut s.live r⟩ x ↔
      if x ∈ r then true = true else s.Free x := by
    intro x
    show Covers (s.heaps.map payload) x ∧ ¬ Covers (Lib.cut s.live r) x ∧ x ∉ s.st.brkArea ↔ _
    rw [Lib.covers_cut]
    by_cases hx : x ∈ r
    · obtain ⟨hpay, hoff⟩ := hrange x hx
      rw [if_pos hx]
      refine iff_of_true ⟨⟨_, List.mem_map_of_mem hh, hpay⟩, fun hcut => hcut.2 hx, hoff⟩ rfl
    · rw [if_neg hx, and_iff_left hx]
      rfl
  refine ⟨hi.chain, ?_, hi.heap, hi.apart, hi.totalSize, ?_, ?_, ?_, Lib.cut_pairwise hi.liveApart r⟩
  · exact hi.flip hh hnode hof hflip hle fun g _ x _ => by rw [heq, hfree x]
  · show sub64 s.st.mmapAllocSize r.size = Lib.total (Lib.cut s.live r)
    have halloc := hi.allocSize
    rw [sub64_of_le (by omega) hi.alloc_lt]
    omega
  · obtain ⟨k, hk, hb⟩ := hi.brk
    exact ⟨k, hk, hb.node, hb.base, hb.base_le, hb.cur_le, hb.top_le, hb.cur_paged, hb.top_paged⟩
  · intro p hp
    obtain ⟨q, hq, hpq⟩ := Lib.mem_cut.1 hp
    exact ((hi.live q hq).minus hpaged hpq).mono (fun _ hg _ => hg) ⟨le_rfl, le_rfl⟩

/-- **`sys_munmap` of what is mapped keeps the invariant**, and returns. -/
theorem Inv.step_munmap {addr len : Nat} (hlen : len < 18446744073709551616)
    (hr : s.Unmappable ⟨addr, len⟩) : ∃ s', s.step (.munmap addr len) = .ok s' ∧ Inv s' := by
  obtain ⟨hbase, hsize, ⟨g, hg, hing⟩, hlive⟩ := hr
  unfold Sys.step
  dsimp only
  by_cases hargs : munmapArgsOk addr len = true
  · obtain ⟨-, hpos, -, -⟩ := (munmapArgsOk_iff (r := ⟨addr, len⟩) hlen).1 hargs
    have hfirst : addr ∈ (⟨addr, len⟩ : Range) := ⟨le_rfl, Nat.lt_add_of_pos_right hpos⟩
    rcases hi.munmap_cases (r := ⟨addr, len⟩) hlen hargs with
      ⟨hnone, -⟩ | ⟨h, hh, hin, ⟨⟨x, hx, hfx⟩, -⟩ | ⟨-, node, node', hnode, hflip, hrun⟩⟩
    · exact absurd hing (hnone g hg)
    · exact absurd (hlive x hx) hfx.2.1
    · refine ⟨_, by rw [hrun, ok_bind]; rfl, ?_⟩
      exact hi.given hh ⟨hbase, hsize⟩ hin hlive hnode hflip
  · refine ⟨s, ?_, hi⟩
    unfold sysMunmap
    rw [if_neg hargs]
    rfl

end

end GunyahRuntime
