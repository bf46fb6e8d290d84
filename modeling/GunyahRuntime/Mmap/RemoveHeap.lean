/-
# GunyahRuntime.Mmap.RemoveHeap -- `mmap_remove_heap` and `mmap_heap_is_free`

A heap can go when it is not the break heap and all its pages behind the metadata are free, that is,
when no live mapping lies in it (`Inv.isMmapNodeFree_cases`). Then it leaves the list and nothing else
changes; in every other case nothing changes at all.
-/
import GunyahRuntime.Mmap.AddHeap

namespace GunyahRuntime

open Lib (Range Covers Links)

/-- The state after a heap was taken out of the list. -/
def MmapState.removed (st : MmapState) (h : Range) (links : Links Nat) (head : Nat) : MmapState :=
  { st with links, mmapNodeList := head, mmapTotalSize := sub64 st.mmapTotalSize h.size }

section

variable {s : Sys} (hi : Inv s)

include hi

/-- The search for a heap. -/
theorem Inv.findNode_heap (r : Range) :
    (r ∉ s.heaps ∧ s.st.findNode (heapTest r.base r.size) = .ok none) ∨
      (r ∈ s.heaps ∧ ∃ node, s.st.nodes r.base = some node ∧
        s.st.findNode (heapTest r.base r.size) = .ok (some (r.base, node))) := by
  have htest : ∀ h ∈ s.heaps, ∀ node, s.st.nodes h.base = some node →
      heapTest r.base r.size h.base node =
        .ok (if r.base = h.base ∧ r.size = h.size then some (h.base, node) else none) := by
    intro h hh node hnode
    have hof := hi.node_of hh hnode
    unfold heapTest
    rw [hof.base, hof.size]
  rcases hi.findNode fun h hh node hnode => ⟨_, htest h hh node hnode⟩ with
    ⟨hfind, hall⟩ | ⟨l, h, m, node, b, hsplit, hnode, hb, hfind, -⟩
  · refine .inl ⟨fun hr => ?_, hfind⟩
    obtain ⟨node, hnode, -⟩ := hi.node r hr
    have hnone := hall r hr node hnode
    rw [htest r hr node hnode, if_pos ⟨rfl, rfl⟩] at hnone
    cases Except.ok.inj hnone
  · have hh : h ∈ s.heaps := by
      rw [hsplit]
      exact List.mem_append_right _ List.mem_cons_self
    rw [htest h hh node hnode] at hb
    by_cases heq : r.base = h.base ∧ r.size = h.size
    · rw [if_pos heq] at hb
      obtain rfl := Option.some.inj (Except.ok.inj hb)
      obtain rfl : r = h := by
        cases r
        cases h
        exact congrArg₂ Range.mk heq.1 heq.2
      exact .inr ⟨hh, node, hnode, hfind⟩
    · rw [if_neg heq] at hb
      cases Except.ok.inj hb

/-- In a heap that is not the break heap the pages off the live mappings are free. -/
theorem Inv.free_iff_of_not_brk {h : Range} (hh : h ∈ s.heaps) (hne : h.base ≠ s.st.mmapBrkNode) {x : Nat}
    (hx : x ∈ payload h) : s.Free x ↔ ¬ Covers s.live x := by
  have hxh := (hi.heap h hh).payload_inside.mem hx
  unfold Sys.Free
  rw [hi.covers_payload hh hxh, and_iff_right hx]
  refine and_iff_left fun hbrk => ?_
  obtain ⟨k, hk, hb⟩ := hi.brk
  have hxk : x ∈ k := by
    have hstart : k.base ≤ s.st.brkBase := by
      rw [hb.base]
      exact Nat.le_add_right _ _
    have hle₁ := hb.base_le
    have hle₂ := hb.cur_le
    have htop := hb.top_le
    rw [Range.mem_iff] at hbrk ⊢
    have hlo : s.st.brkBase ≤ x := hbrk.1
    have hhi : x < s.st.brkBase + (s.st.brkTop - s.st.brkBase) := hbrk.2
    omega
  obtain rfl := hi.heap_unique hh hk hxh hxk
  exact hne hb.node.symm

/-- The scan for a clear bit of the payload finds a live page, or there is none. -/
theorem Inv.scan_payload {r : Range} (hr : r ∈ s.heaps) (hbrk : r.base ≠ s.st.mmapBrkNode) {node : MmapNode}
    (hnode : s.st.nodes r.base = some node) :
    (∃ p, bitmapFfc node.freePages (metaSizeAlign r.size / 4096) (r.size / 4096 - 1) = .ok (some p) ∧
        ∃ x ∈ payload r, Covers s.live x) ∨
      (bitmapFfc node.freePages (metaSizeAlign r.size / 4096) (r.size / 4096 - 1) = .ok none ∧
        ∀ x ∈ payload r, ¬ Covers s.live x) := by
  have hok := hi.heap r hr
  have hof := hi.node_of hr hnode
  have hpages := hok.pages_le
  obtain ⟨hbits, hlt, hmem⟩ := hok.metaBits
  obtain ⟨hin, -⟩ := pageWords_spec hpages
  have hscan : bitmapFfc node.freePages (metaSizeAlign r.size / 4096) (r.size / 4096 - 1) =
      .ok (Lib.firstBit (node.freePages.is false) (metaSizeAlign r.size / 4096) (r.size / 4096 - 1)) := by
    refine bitmapFindFirst_eq (by omega) (by omega) ?_
    rw [hof.pages]
    omega
  -- a clear bit of the payload is a live page
  have hclear : ∀ p, metaSizeAlign r.size / 4096 ≤ p → p ≤ r.size / 4096 - 1 →
      (node.freePages.is false p = true ↔ Covers s.live (r.base + 4096 * p)) := by
    intro p h1 h2
    have hp : p < r.size / 4096 := by omega
    have hfree := hi.free_iff_of_not_brk hr hbrk ((hmem p).2 ⟨h1, hp⟩)
    unfold Bitmap.is
    rw [decide_eq_true_iff, Bool.eq_false_iff, Ne, hof.get, and_iff_right hp, hfree, not_not]
  rw [hscan]
  cases hfirst : Lib.firstBit (node.freePages.is false) (metaSizeAlign r.size / 4096) (r.size / 4096 - 1) with
  | some p =>
    obtain ⟨hset, h1, h2, -⟩ := Lib.firstBit_eq_some.1 hfirst
    exact .inl ⟨p, rfl, _, (hmem p).2 ⟨h1, by omega⟩, (hclear p h1 h2).1 hset⟩
  | none =>
    refine .inr ⟨rfl, fun x hx hlive => ?_⟩
    obtain ⟨hp, hpage⟩ := page_eq hok.paged (hok.payload_inside.mem hx)
    have hx' := hok.payload_paged.mem_iff.2 hx
    rw [← hpage, hmem] at hx'
    have hnone := Lib.firstBit_eq_none.1 hfirst _ hx'.1 (by omega)
    rw [← hi.live_page, ← hpage, ← hclear _ hx'.1 (by omega), hnone] at hlive
    cases hlive

/-- **Which heaps can go.** -/
theorem Inv.isMmapNodeFree_cases {r : Range} (hsize : r.size < 18446744073709551616)
    (hvalid : memRangeIsValid r = true) :
    (¬ (r ∈ s.heaps ∧ r.base ≠ s.st.mmapBrkNode) ∧
        isMmapNodeFree s.st r.base r.size = .ok (-EINVAL, 0)) ∨
      (r ∈ s.heaps ∧ r.base ≠ s.st.mmapBrkNode ∧
        (((∃ x ∈ payload r, Covers s.live x) ∧ isMmapNodeFree s.st r.base r.size = .ok (-EBUSY, 0)) ∨
          ((∀ x ∈ payload r, ¬ Covers s.live x) ∧
            isMmapNodeFree s.st r.base r.size = .ok (0, r.base)))) := by
  obtain ⟨-, hpos, hpaged, hfits⟩ := (memRangeIsValid_iff hsize).1 hvalid
  have hnonzero : decide (r.size ≠ 0) = true := decide_eq_true hpos.ne'
  have hal₁ : isBaligned r.base = true := decide_eq_true hpaged.1
  have hal₂ : isBaligned r.size = true := decide_eq_true hpaged.2
  have hoverflow : (!addOverflows r.base r.size) = true := by
    unfold addOverflows
    rw [Bool.not_eq_true', decide_eq_false_iff_not]
    omega
  unfold isMmapNodeFree
  rw [hnonzero, cassert_true, ok_bind, hal₁, cassert_true, ok_bind, hal₂, cassert_true, ok_bind,
    hoverflow, cassert_true, ok_bind]
  rcases hi.findNode_heap r with ⟨hr, hfind⟩ | ⟨hr, node, hnode, hfind⟩
  · rw [hfind, ok_bind]
    exact .inl ⟨fun h => hr h.1, rfl⟩
  rw [hfind, ok_bind]
  dsimp only
  by_cases hbrk : r.base = s.st.mmapBrkNode
  · rw [if_pos hbrk]
    exact .inl ⟨fun h => h.2 hbrk, rfl⟩
  rw [if_neg hbrk]
  refine .inr ⟨hr, hbrk, ?_⟩
  have hok := hi.heap r hr
  have hend : sub32 (u32 (r.size / PAGE_SIZE)) 1 = r.size / 4096 - 1 := by
    obtain ⟨hbits, hlt, -⟩ := hok.metaBits
    rw [hok.numPages_eq]
    exact sub32_of_le (by omega) (hok.pages_le.trans_lt (by decide))
  rw [(hi.node_of hr hnode).metaSize, hok.metaBits.1, hend]
  rcases hi.scan_payload hr hbrk hnode with ⟨p, hscan, hlive⟩ | ⟨hscan, hnone⟩
  · rw [hscan, ok_bind]
    exact .inl ⟨hlive, rfl⟩
  · rw [hscan, ok_bind]
    exact .inr ⟨hnone, rfl⟩

/-- A heap leaves the list. -/
theorem Inv.removed {r : Range} {l m : List Range} (hsplit : s.heaps = l ++ r :: m)
    (hbrk : r.base ≠ s.st.mmapBrkNode) (hlive : ∀ x ∈ payload r, ¬ Covers s.live x) {links : Links Nat}
    {head : Nat} (hspells : links.Spells 0 head ((l ++ m).map Range.base)) :
    Inv ⟨s.st.removed r links head, l ++ m, s.live⟩ := by
  have hsub : ∀ g ∈ l ++ m, g ∈ s.heaps := by
    intro g hg
    rw [hsplit]
    exact (List.mem_append.1 hg).elim (List.mem_append_left _) fun hg =>
      List.mem_append_right _ (List.mem_cons_of_mem _ hg)
  have hstay : ∀ g ∈ s.heaps, g ≠ r → g ∈ l ++ m := by
    intro g hg hne
    rw [hsplit] at hg
    rcases List.mem_append.1 hg with hg | hg
    · exact List.mem_append_left _ hg
    · exact List.mem_append_right _ ((List.mem_cons.1 hg).resolve_left hne)
  have hr : r ∈ s.heaps := by
    rw [hsplit]
    exact List.mem_append_right _ List.mem_cons_self
  have hfree : ∀ g ∈ l ++ m, ∀ x ∈ g,
      Sys.Free ⟨s.st.removed r links head, l ++ m, s.live⟩ x ↔ s.Free x := by
    intro g hg x hx
    refine and_congr_left fun _ => ?_
    rw [hi.covers_payload (hsub g hg) hx]
    constructor
    · intro hcov
      refine (hi.covers_payload (hsub g hg) hx).1 ?_
      obtain ⟨q, hq, hxq⟩ := hcov
      obtain ⟨k, hk, rfl⟩ := List.mem_map.1 hq
      exact ⟨_, List.mem_map_of_mem (hsub k hk), hxq⟩
    · exact fun hxg => ⟨_, List.mem_map_of_mem hg, hxg⟩
  have hpair : (l ++ r :: m).Pairwise Range.Apart := hsplit ▸ hi.apart
  refine ⟨hspells, ?_, fun g hg => hi.heap g (hsub g hg), ?_, ?_, hi.allocSize, ?_, ?_, hi.liveApart⟩
  · intro g hg
    obtain ⟨node, hnode, hof⟩ := hi.node g (hsub g hg)
    refine ⟨node, hnode, hof.congr fun p hp => ?_⟩
    exact hfree g hg _ (hi.page_mem (hsub g hg) hp)
  · exact hpair.sublist (List.Sublist.append_left (List.sublist_cons_self r m) l)
  · have htotal := hi.totalSize
    have hlt := hi.total_lt
    rw [hsplit, Lib.total_append, Lib.total_cons] at htotal hlt
    show sub64 s.st.mmapTotalSize r.size = Lib.total (l ++ m)
    rw [Lib.total_append, sub64_of_le (by omega) (by omega)]
    omega
  · obtain ⟨k, hk, hb⟩ := hi.brk
    have hne : k ≠ r := by
      rintro rfl
      exact hbrk hb.node.symm
    exact ⟨k, hstay k hk hne, hb.node, hb.base, hb.base_le, hb.cur_le, hb.top_le, hb.cur_paged,
      hb.top_paged⟩
  · intro q hq
    refine (hi.live q hq).mono (fun g hg hin => hstay g hg ?_) ⟨le_rfl, le_rfl⟩
    rintro rfl
    have hfirst : q.base ∈ q := ⟨le_rfl, Nat.lt_add_of_pos_right (hi.live q hq).pos⟩
    exact hlive q.base (hin.mem hfirst) ⟨q, hq, hfirst⟩

/-- **What `mmap_remove_heap` does.** It answers as `mmap_heap_is_free` would, and takes the heap out of
the list if the answer is zero. -/
theorem Inv.removeHeap_cases {r : Range} (hsize : r.size < 18446744073709551616)
    (hvalid : memRangeIsValid r = true) :
    (∃ code, code ≠ 0 ∧ ¬ (r ∈ s.heaps ∧ r.base ≠ s.st.mmapBrkNode ∧ ∀ x ∈ payload r, ¬ Covers s.live x) ∧
        mmapHeapIsFree s.st r.base r.size = .ok code ∧
        mmapRemoveHeap s.st r.base r.size = .ok (code, s.st)) ∨
      ∃ l m links head, s.heaps = l ++ r :: m ∧ r.base ≠ s.st.mmapBrkNode ∧
        (∀ x ∈ payload r, ¬ Covers s.live x) ∧ links.Spells 0 head ((l ++ m).map Range.base) ∧
        (∀ g ∈ l ++ m,
          links.next g.base = (if s.st.links.next g.base = r.base then s.st.links.next r.base
            else s.st.links.next g.base) ∧
          links.prev g.base = if s.st.links.prev g.base = r.base then s.st.links.prev r.base
            else s.st.links.prev g.base) ∧
        mmapHeapIsFree s.st r.base r.size = .ok 0 ∧
        mmapRemoveHeap s.st r.base r.size = .ok (0, s.st.removed r links head) := by
  have hfails : ∀ {code : Int} {n : Nat}, code ≠ 0 →
      isMmapNodeFree s.st r.base r.size = .ok (code, n) →
      mmapHeapIsFree s.st r.base r.size = .ok code ∧
        mmapRemoveHeap s.st r.base r.size = .ok (code, s.st) := by
    intro code n hne hrun
    unfold mmapHeapIsFree mmapRemoveHeap
    rw [hrun, ok_bind, ok_bind]
    dsimp only
    rw [if_pos hne]
    exact ⟨rfl, rfl⟩
  rcases hi.isMmapNodeFree_cases hsize hvalid with
    ⟨hno, hrun⟩ | ⟨hr, hbrk, ⟨⟨x, hx, hlive⟩, hrun⟩ | ⟨hlive, hrun⟩⟩
  · exact .inl ⟨-EINVAL, by decide, fun h => hno ⟨h.1, h.2.1⟩, hfails (by decide) hrun⟩
  · exact .inl ⟨-EBUSY, by decide, fun h => h.2.2 x hx hlive, hfails (by decide) hrun⟩
  · obtain ⟨l, m, hsplit⟩ := List.append_of_mem hr
    have hchain := hi.chain
    rw [hsplit, List.map_append, List.map_cons] at hchain
    obtain ⟨links, head, hremove, hspells, hbypass⟩ := listRemove_bypass hchain
    rw [← List.map_append] at hspells hbypass
    refine .inr ⟨l, m, links, head, hsplit, hbrk, hlive, hspells,
      fun g hg => hbypass _ (List.mem_map_of_mem hg), ?_, ?_⟩
    · unfold mmapHeapIsFree
      rw [hrun]
      rfl
    · unfold mmapRemoveHeap
      rw [hrun, ok_bind]
      dsimp only
      rw [if_neg (by decide), hremove]
      rfl

/-- A heap that leaves the list was in it once. -/
theorem Inv.erase_eq {r : Range} {l m : List Range} (hsplit : s.heaps = l ++ r :: m) :
    s.heaps.erase r = l ++ m := by
  have hout : r ∉ l := by
    intro hr
    have hpair : (l ++ r :: m).Pairwise Range.Apart := hsplit ▸ hi.apart
    have hapart := (List.pairwise_append.1 hpair).2.2 r hr r List.mem_cons_self
    have hb : r.base ∈ r := hi.base_mem (by rw [hsplit]; exact List.mem_append_left _ hr)
    exact hapart.not_mem hb hb
  rw [hsplit, List.erase_append_right _ hout, List.erase_cons_head]

/-- **`IOCTL_REMOVE_HEAP` keeps the invariant**, and returns. -/
theorem Inv.step_removeHeap {r : Range} (hsize : r.size < 18446744073709551616) :
    ∃ s', s.step (.ioctl (.removeHeap r)) = .ok s' ∧ Inv s' := by
  unfold Sys.step memIoctl
  dsimp only
  by_cases hvalid : memRangeIsValid r = true
  · rw [if_pos hvalid]
    rcases hi.removeHeap_cases hsize hvalid with
      ⟨code, hne, -, -, hrun⟩ | ⟨l, m, links, head, hsplit, hbrk, hlive, hspells, -, -, hrun⟩
    · refine ⟨s, ?_, hi⟩
      have hheaps : heapsAfter s.heaps code (.removeHeap r) = s.heaps := if_neg hne
      rw [hrun, ok_bind, pure_ok, ok_bind]
      dsimp only
      rw [hheaps]
      rfl
    · refine ⟨_, by rw [hrun, ok_bind, pure_ok, ok_bind]; rfl, ?_⟩
      show Inv ⟨s.st.removed r links head, if (0 : Int) = 0 then s.heaps.erase r else s.heaps, s.live⟩
      rw [if_pos rfl, hi.erase_eq hsplit]
      exact hi.removed hsplit hbrk hlive hspells
  · rw [if_neg hvalid]
    exact ⟨s, rfl, hi⟩

/-- `IOCTL_HEAP_IS_FREE` changes nothing. -/
theorem Inv.step_heapIsFree {r : Range} (hsize : r.size < 18446744073709551616) :
    s.step (.ioctl (.heapIsFree r)) = .ok s := by
  unfold Sys.step memIoctl
  dsimp only
  by_cases hvalid : memRangeIsValid r = true
  · rw [if_pos hvalid]
    rcases hi.removeHeap_cases hsize hvalid with
      ⟨code, -, -, hrun, -⟩ | ⟨l, m, links, head, -, -, -, -, -, hrun, -⟩
    · rw [hrun]
      rfl
    · rw [hrun]
      rfl
  · rw [if_neg hvalid]
    rfl

end

end GunyahRuntime
