/-
# GunyahRuntime.Mmap.Limits -- what the allocator leaves to its callers

`sys_munmap` knows which pages are free and no more: a range whose pages are not free it makes free, be
they mapped or not. `mmap_add_heap` does not look whether a range meets a heap, and counts its pages in
32 bits. Within these limits the allocator is safe over whole runs; each limit has a run that crosses it.
-/
import GunyahRuntime.Mmap.Service

namespace GunyahRuntime

open Lib (Range Covers)

/-! ## What may be unmapped -/

section

variable {s : Sys} (hi : Inv s)

include hi

/-- The pages of the heaps after some of one heap were given back. -/
theorem Inv.given_pageFree {h r : Range} (hh : h ∈ s.heaps) {node node' : MmapNode} {p n : Nat}
    (hnode : s.st.nodes h.base = some node) (hflip : Flipped node node' p (p + n) true) {g : Range}
    (hg : g ∈ s.heaps) (k : Nat) :
    (s.st.given h node' r).pageFree g k =
      if g = h ∧ p ≤ k ∧ k < p + n then true else s.st.pageFree g k := by
  by_cases heq : g = h
  · subst heq
    have hnode' : (s.st.given g node' r).nodes g.base = some node' := Function.update_self ..
    rw [pageFree_eq hnode, pageFree_eq hnode', hflip.get]
    simp only [true_and]
  · have hne : g.base ≠ h.base := fun hb => heq (hi.base_inj hg hh hb)
    have hsame : (s.st.given h node' r).nodes g.base = s.st.nodes g.base := Function.update_of_ne hne ..
    rw [if_neg fun hk => heq hk.1]
    unfold MmapState.pageFree
    rw [hsame]

/-- **What a clear bit means**: metadata, a live mapping, or the break. -/
theorem Inv.pageFree_eq_false {h : Range} (hh : h ∈ s.heaps) {k : Nat} (hk : k < h.size / PAGE_SIZE) :
    s.st.pageFree h k = false ↔
      h.base + PAGE_SIZE * k ∈ metadata h ∨ Covers s.live (h.base + PAGE_SIZE * k) ∨
        h.base + PAGE_SIZE * k ∈ s.st.brkArea := by
  have hpage : h.base + PAGE_SIZE * k ∈ h := hi.page_mem hh hk
  have hok := hi.heap h hh
  have hsplit := hok.mem_iff.1 hpage
  have hapart := (GunyahRuntime.metadata_apart h).not_mem (x := h.base + PAGE_SIZE * k)
  have hlive : Covers s.live (h.base + PAGE_SIZE * k) → h.base + PAGE_SIZE * k ∈ payload h := by
    rintro ⟨r, hr, hx⟩
    obtain ⟨g, hg, hin⟩ := (hi.live r hr).inside
    obtain rfl := hi.heap_unique hh hg hpage ((hi.heap g hg).payload_inside.mem (hin.mem hx))
    exact hin.mem hx
  rw [Bool.eq_false_iff, Ne, hi.pageFree_iff hh, and_iff_right hk]
  unfold Sys.Free
  rw [show 4096 * k = PAGE_SIZE * k from rfl, hi.covers_payload hh hpage]
  tauto

end

/-- **What `sys_munmap` accepts, over whole runs.** A range that no heap holds is refused, one with a free
page stops the program, and the pages of every other range in a heap become free: mapped pages, pages of
the break and metadata alike, for these are the pages whose bits are clear. -/
theorem Sys.Reachable.munmap_exact {s : Sys} (hs : s.Reachable) {r : Range}
    (hsize : r.size < 18446744073709551616) (hargs : munmapArgsOk r.base r.size = true) :
    (∀ h ∈ s.heaps, ∀ k < h.size / PAGE_SIZE, s.st.pageFree h k = false ↔
      h.base + PAGE_SIZE * k ∈ metadata h ∨ Covers s.live (h.base + PAGE_SIZE * k) ∨
        h.base + PAGE_SIZE * k ∈ s.st.brkArea) ∧
    ((∀ h ∈ s.heaps, ¬ r.Inside h) → sysMunmap s.st r.base r.size = .ok (-EINVAL, s.st)) ∧
    ∀ h ∈ s.heaps, r.Inside h →
      ((∃ k, h.base + PAGE_SIZE * k ∈ r ∧ s.st.pageFree h k = true) →
        sysMunmap s.st r.base r.size = .error .assertion) ∧
      ((∀ k, h.base + PAGE_SIZE * k ∈ r → s.st.pageFree h k = false) →
        ∃ st', sysMunmap s.st r.base r.size = .ok (0, st') ∧
          st'.mmapAllocSize = sub64 s.st.mmapAllocSize r.size ∧
          (st'.brkBase = s.st.brkBase ∧ st'.brkTop = s.st.brkTop ∧ st'.curBrk = s.st.curBrk) ∧
          ∀ g ∈ s.heaps, ∀ k, st'.pageFree g k =
            if g = h ∧ h.base + PAGE_SIZE * k ∈ r then true else s.st.pageFree g k) := by
  obtain ⟨hi, -⟩ := hs.inv
  obtain ⟨-, hpos, -, hpaged⟩ := (munmapArgsOk_iff hsize).1 hargs
  have hfirst : r.base ∈ r := ⟨le_rfl, Nat.lt_add_of_pos_right hpos⟩
  refine ⟨fun h hh k hk => hi.pageFree_eq_false hh hk, ?_, ?_⟩
  · intro hno
    rcases hi.munmap_cases hsize hargs with ⟨-, hrun⟩ | ⟨h, hh, hin, -⟩
    · exact hrun
    · exact absurd hin (hno h hh)
  · intro h hh hin
    obtain ⟨heq, hle⟩ := pageRange_eq (hi.heap h hh).paged hpaged hin
    -- a page of the range is free just if its bit is set
    have hbit : ∀ k, h.base + PAGE_SIZE * k ∈ r →
        (s.st.pageFree h k = true ↔ s.Free (h.base + 4096 * k)) := by
      intro k hk
      rw [hi.pageFree_iff hh]
      refine and_iff_right ?_
      rw [← heq, show PAGE_SIZE * k = 4096 * k from rfl, mem_pageRange] at hk
      omega
    have hpage : ∀ x ∈ r, ∃ k, h.base + PAGE_SIZE * k ∈ r ∧ (s.st.pageFree h k = true ↔ s.Free x) := by
      intro x hx
      obtain ⟨-, hk⟩ := page_eq (hi.heap h hh).paged (hin.mem hx)
      have hmem : h.base + PAGE_SIZE * ((x - h.base) / 4096) ∈ r := by
        rw [show PAGE_SIZE * ((x - h.base) / 4096) = 4096 * ((x - h.base) / 4096) from rfl, hk]
        exact hpaged.mem_iff.2 hx
      refine ⟨_, hmem, ?_⟩
      rw [hbit _ hmem, hk, hi.free_page hh (hin.mem hx)]
    rcases hi.munmap_cases hsize hargs with
      ⟨hno, -⟩ | ⟨g, hg, hing, ⟨⟨x, hx, hfree⟩, hrun⟩ | ⟨hused, node, node', hnode, hflip, hrun⟩⟩
    · exact absurd hin (hno h hh)
    · refine ⟨fun _ => hrun, fun hclear => ?_⟩
      obtain ⟨k, hk, hiff⟩ := hpage x hx
      rw [hclear k hk] at hiff
      cases hiff.2 hfree
    · obtain rfl := hi.heap_unique hh hg (hin.mem hfirst) (hing.mem hfirst)
      refine ⟨?_, fun _ => ⟨_, hrun, rfl, ⟨rfl, rfl, rfl⟩, fun g' hg' k => ?_⟩⟩
      · rintro ⟨k, hk, hset⟩
        exact absurd ((hbit k hk).1 hset) (hused _ hk)
      · rw [hi.given_pageFree hh hnode hflip hg' k]
        have hmem := mem_pageRange (h := h) (p := (r.base - h.base) / PAGE_SIZE)
          (n := r.size / PAGE_SIZE) (k := k)
        rw [heq] at hmem
        exact if_congr (and_congr_right fun _ => hmem.symm) rfl rfl

/-- A page of metadata is unmapped, although it was never mapped; the counter wraps; and the page is
handed out. -/
theorem munmap_metadata : ∃ s : Sys, s.Reachable ∧ munmapArgsOk 81920 4096 = true ∧
    (∃ h ∈ s.heaps, 81920 ∈ metadata h) ∧
    ∃ st' st'', sysMunmap s.st 81920 4096 = .ok (0, st') ∧
      st'.mmapAllocSize = 18446744073709551616 - 4096 ∧ st'.map 4096 = .ok (81920, st'') := by
  obtain ⟨s, hstart, hheaps, -, hsetup⟩ := exists_start
  have hs := hstart.reachable (by rw [hheaps]; decide)
  have hvalues : (elfSetup 65536 81920 >>= fun st => do
      let unmapped ← sysMunmap st 81920 4096
      let mapped ← unmapped.2.map 4096
      return (unmapped.1, unmapped.2.mmapAllocSize, mapped.1)) = .ok (0, 18446744073709551616 - 4096, 81920) := by decide +kernel
  rw [hsetup, ok_bind] at hvalues
  obtain ⟨⟨ret, st'⟩, hunmap, hvalues⟩ := bind_eq_ok.1 hvalues
  obtain ⟨⟨addr, st''⟩, hmap, hvalues⟩ := bind_eq_ok.1 hvalues
  have hvalues := Except.ok.inj hvalues
  obtain rfl : ret = 0 := congrArg Prod.fst hvalues
  obtain rfl : addr = 81920 := congrArg (fun v => v.2.2) hvalues
  have hmeta : 81920 ∈ metadata ⟨81920, 65536⟩ := by decide +kernel
  refine ⟨s, hs, by decide, ⟨⟨81920, 65536⟩, ?_, hmeta⟩, st', st'', hunmap,
    congrArg (fun v => v.2.1) hvalues, hmap⟩
  rw [hheaps]
  exact List.mem_singleton_self _

/-- In the small system the one mapped page is unmapped. -/
theorem munmap_exact_mapped : ∃ s : Sys, ∃ st', s.live = [⟨143360, 4096⟩] ∧
    sysMunmap s.st 143360 4096 = .ok (0, st') := by
  obtain ⟨s, hs, hheaps, hlive⟩ := exists_mapped
  obtain ⟨hmeaning, -, hheap⟩ :=
    @Sys.Reachable.munmap_exact s hs ⟨143360, 4096⟩ (by decide) (by decide)
  have hin : (⟨81920, 65536⟩ : Range) ∈ s.heaps := by
    rw [hheaps]
    exact List.mem_singleton_self _
  obtain ⟨-, hok⟩ := hheap ⟨81920, 65536⟩ hin (by decide)
  obtain ⟨st', hrun, -⟩ := hok fun k hk => by
    have hk' : k = 15 := by
      rw [Range.mem_iff] at hk
      unfold Range.stop PAGE_SIZE at hk
      dsimp only at hk
      omega
    subst hk'
    refine (hmeaning _ hin 15 (by decide)).2 (.inr (.inl ?_))
    rw [hlive]
    decide
  exact ⟨s, st', hlive, hrun⟩

/-! ## What may be added -/

/-- **Heaps stay apart** in every run that adds no heap over another: the list holds each of them once, a
loop over it visits them in order and ends, and a heap that is added meets neither the metadata of
another nor a live mapping. A range that is refused changes nothing. -/
theorem Sys.Run.heaps_stay_apart {s₀ s : Sys} (hstart : s₀.Start)
    (hsmall : Lib.total s₀.heaps ≤ HEAP_SIZE_MAX) (hrun : Sys.Run Op.Fitting s₀ s) :
    s.heaps.Pairwise Range.Apart ∧
    s.st.links.Spells 0 s.st.mmapNodeList (s.heaps.map Range.base) ∧
    (∀ (σ β : Type) (body : σ → Nat → Exec (σ ⊕ β)) (t : σ),
      loopList s.st.links body s.st.mmapNodeList t = visit body t (s.heaps.map Range.base)) ∧
    ∀ range, Op.Fitting s (.ioctl (.addHeap range)) →
      ∃ ret st', memIoctl s.st (.addHeap range) = .ok (ret, none, st') ∧ (ret ≠ 0 → st' = s.st) ∧
        (∀ h ∈ s.heaps, st'.nodes h.base = s.st.nodes h.base) ∧
        (ret = 0 → (∀ h ∈ s.heaps, (metadata h).Apart range) ∧ ∀ r ∈ s.live, r.Apart range) := by
  have hi := Inv.of_run (Inv.start hstart hsmall) hrun
  have hlen : (s.heaps.map Range.base).length < 18446744073709551616 := by
    rw [List.length_map]
    exact hi.length_lt
  refine ⟨hi.apart, hi.chain, fun σ β body t => loopList_eq body hi.chain hlen t, ?_⟩
  intro range hfit
  rcases hi.addHeap_fitting hfit with ⟨ret, hret, hcall⟩ | ⟨node, links, head, hapart, hok, -, -, hcall⟩
  · exact ⟨ret, _, hcall, fun _ => rfl, fun _ _ => rfl, fun h0 => absurd h0 hret⟩
  · refine ⟨_, _, hcall, fun h0 => absurd rfl h0, fun h hh => ?_, fun _ => ⟨fun h hh => ?_, fun r hr => ?_⟩⟩
    · obtain ⟨old, hold, hof⟩ := hi.node h hh
      have hne : h.base ≠ range.base := by
        intro heq
        have hb : range.base ∈ range := ⟨le_rfl, Nat.lt_add_of_pos_right hok.size_pos⟩
        exact (hapart h hh).not_mem hb (heq ▸ hi.base_mem hh)
      have hzeroed := hof.zeroed (hi.heap h hh) (metadata_apart_new hi.heap hok hapart h hh) hold
      rw [hold]
      exact (Function.update_of_ne hne ..).trans hzeroed
    · exact (hapart h hh).symm.of_inside (hi.heap h hh).metadata_inside
    · obtain ⟨h, hh, hin⟩ := hi.live_inside hr
      exact (hapart h hh).symm.of_inside hin

/-- The nodes of a list that goes from one heap to another and stays there. -/
structure Looped (st : MmapState) : Prop where
  head : st.mmapNodeList = 81920
  next : st.links.next 81920 = 1048576
  again : st.links.next 1048576 = 1048576
  first : (st.nodes 81920).map (fun node => (node.base, node.size)) = some (81920, 65536)
  second : (st.nodes 1048576).map (fun node => (node.base, node.size)) = some (1048576, 65536)

instance (st : MmapState) : Decidable (Looped st) :=
  decidable_of_iff (st.mmapNodeList = 81920 ∧ st.links.next 81920 = 1048576 ∧
      st.links.next 1048576 = 1048576 ∧
      (st.nodes 81920).map (fun node => (node.base, node.size)) = some (81920, 65536) ∧
      (st.nodes 1048576).map (fun node => (node.base, node.size)) = some (1048576, 65536))
    ⟨fun ⟨h₁, h₂, h₃, h₄, h₅⟩ => ⟨h₁, h₂, h₃, h₄, h₅⟩,
      fun h => ⟨h.head, h.next, h.again, h.first, h.second⟩⟩

/-- The search for a page that lies in neither heap goes round for ever. -/
theorem Looped.munmap {st : MmapState} (h : Looped st) : sysMunmap st 4096 4096 = .error .diverged := by
  have hbody : ∀ a, a = 81920 ∨ a = 1048576 → ∀ u : Unit,
      ∃ t, st.findBody (freeTest 4096 4096) u a = .ok (.inl t) := by
    rintro a ha u
    obtain ⟨node, hnode, hbase⟩ : ∃ node, st.nodes a = some node ∧ ¬ 4096 ≥ node.base := by
      rcases ha with rfl | rfl
      · obtain ⟨node, hnode, hvalues⟩ := Option.map_eq_some_iff.1 h.first
        exact ⟨node, hnode, by rw [show node.base = 81920 from congrArg Prod.fst hvalues]; decide⟩
      · obtain ⟨node, hnode, hvalues⟩ := Option.map_eq_some_iff.1 h.second
        exact ⟨node, hnode, by rw [show node.base = 1048576 from congrArg Prod.fst hvalues]; decide⟩
    have hload : st.loadNode a = .ok node := by rw [MmapState.loadNode, hnode]
    refine ⟨(), ?_⟩
    unfold MmapState.findBody freeTest
    rw [hload, ok_bind, if_neg fun hin => hbase hin.1]
    rfl
  have hloop : loopList st.links (st.findBody (freeTest 4096 4096)) st.mmapNodeList () =
      .error .diverged := by
    refine loopList_diverges (fun a => a = 81920 ∨ a = 1048576) ?_ hbody (.inl h.head) ()
    rintro a (rfl | rfl)
    · exact ⟨by decide, .inr h.next⟩
    · exact ⟨by decide, .inr h.again⟩
  unfold sysMunmap freeMmap MmapState.findNode
  rw [if_pos (by decide), hloop]
  rfl

/-- The same heap is added twice: its node follows itself, and no search comes to an end. -/
theorem addHeap_twice : ∃ s₁ s₂ : Sys, s₁.Reachable ∧ memRangeIsValid ⟨1048576, 65536⟩ = true ∧
    s₁.step (.ioctl (.addHeap ⟨1048576, 65536⟩)) = .ok s₂ ∧ ¬ s₂.heaps.Pairwise Range.Apart ∧
    s₂.st.links.next 1048576 = 1048576 ∧ s₂.step (.munmap 4096 4096) = .error .diverged := by
  obtain ⟨s, hs, hheaps, -, -, hsetup⟩ := exists_added
  have hvalues : ((elfSetup 65536 81920 >>= fun st => memIoctl st (.addHeap ⟨1048576, 65536⟩)) >>=
      fun r => do
        let again ← memIoctl r.2.2 (.addHeap ⟨1048576, 65536⟩)
        return (again.1, decide (Looped again.2.2))) = .ok (0, true) := by decide +kernel
  rw [hsetup, ok_bind] at hvalues
  obtain ⟨⟨ret, stats, st⟩, hcall, hvalues⟩ := bind_eq_ok.1 hvalues
  have hvalues := Except.ok.inj hvalues
  obtain rfl : ret = 0 := congrArg Prod.fst hvalues
  have hlooped : Looped st := of_decide_eq_true (congrArg Prod.snd hvalues)
  refine ⟨s, ⟨st, s.heaps ++ [⟨1048576, 65536⟩], s.live⟩, hs, by decide, ?_, ?_, hlooped.again, ?_⟩
  · unfold Sys.step
    dsimp only at hcall ⊢
    rw [hcall]
    rfl
  · rw [hheaps]
    show ¬ List.Pairwise Range.Apart [⟨81920, 65536⟩, ⟨1048576, 65536⟩, ⟨1048576, 65536⟩]
    decide
  · unfold Sys.step
    dsimp only
    rw [hlooped.munmap]
    rfl

/-- After a heap was added and a page of it mapped, a heap over that page is refused. -/
theorem heaps_stay_apart_added : ∃ s : Sys, s.heaps = [⟨81920, 65536⟩, ⟨1048576, 65536⟩] ∧
    s.st.links.Spells 0 s.st.mmapNodeList [81920, 1048576] ∧
    ∃ ret, ret ≠ 0 ∧ memIoctl s.st (.addHeap ⟨1052672, 4096⟩) = .ok (ret, none, s.st) := by
  obtain ⟨s₀, s, hstart, hsmall, hrun, hheaps, hlive⟩ := exists_added_mapped
  obtain ⟨-, hspells, -, hadd⟩ := Sys.Run.heaps_stay_apart hstart hsmall hrun
  have hfit : Op.Fitting s (.ioctl (.addHeap ⟨1052672, 4096⟩)) := by
    have hroom : ¬ metaSizeAlign 4096 < 4096 := by decide +kernel
    exact ⟨⟨by decide, by decide⟩, fun _ h => absurd h hroom⟩
  obtain ⟨ret, st', hcall, hrefused, -, haccepted⟩ := hadd _ hfit
  have hret : ret ≠ 0 := by
    intro h0
    have hmapped : (⟨1052672, 4096⟩ : Range) ∈ s.live := by
      rw [hlive]
      exact List.mem_singleton_self _
    have hapart := (haccepted h0).2 _ hmapped
    revert hapart
    decide
  obtain rfl := hrefused hret
  rw [hheaps] at hspells
  exact ⟨s, hheaps, hspells, ret, hret, hcall⟩

/-! ## What may be counted -/

/-- The counts of `mmap_add_heap` for `size` bytes are the true ones. -/
structure PageCountsExact (size : Nat) : Prop where
  numPages : u32 (size / PAGE_SIZE) = size / PAGE_SIZE
  numBlocks : pageWords (u32 (size / PAGE_SIZE)) = (size / PAGE_SIZE + 63) / 64
  totalWords : u32 (availWords (u32 (size / PAGE_SIZE)) + pageWords (u32 (size / PAGE_SIZE))) =
    ((size / PAGE_SIZE + 63) / 64 + 63) / 64 + (size / PAGE_SIZE + 63) / 64

theorem pageCountsExact_iff (size : Nat) : PageCountsExact size ↔ size / PAGE_SIZE + 63 < 4294967296 := by
  generalize hpages : size / PAGE_SIZE = pages
  constructor
  · rintro ⟨hnum, hblocks, -⟩
    rw [hpages] at hnum hblocks
    have hlt : pages < 4294967296 := hnum ▸ u32_lt pages
    rw [hnum] at hblocks
    -- past the last whole word the rounding up wraps to no words at all
    unfold pageWords bitmapNumWords sub32 u32 BITMAP_WORD_BITS at hblocks
    omega
  · intro hlt
    have hnum : u32 pages = pages := u32_of_lt (by omega)
    have hle : pages ≤ 4294967232 := by omega
    have hblocks := bitmapNumWords_eq hle
    have hwords := bitmapNumWords_eq (x := (pages + 63) / 64) (by omega)
    refine ⟨?_, ?_, ?_⟩
    · rw [hpages, hnum]
    · rw [hpages, hnum, pageWords, hblocks]
    · rw [hpages, hnum, availWords, pageWords, hblocks, hwords, u32_of_lt (by omega)]

/-- The counts for a length are the true ones. -/
theorem numBits_iff (len : Nat) : u32 (len / PAGE_SIZE) = len / PAGE_SIZE ↔ len < 17592186044416 := by
  unfold u32 PAGE_SIZE
  omega

/-- **Counts are not truncated** just if the pages, rounded up to words, fit 32 bits. In a run of such
heaps and lengths the indices of pages are true, a mapping takes just its pages, and no two mappings share
one. -/
theorem Sys.Run.page_counts_exact {s₀ s : Sys} (hstart : s₀.Start)
    (hsmall : Lib.total s₀.heaps ≤ HEAP_SIZE_MAX) (hrun : Sys.Run Op.Fitting s₀ s) :
    (∀ size, PageCountsExact size ↔ size / PAGE_SIZE + 63 < 4294967296) ∧
    (∀ len, u32 (len / PAGE_SIZE) = len / PAGE_SIZE ↔ len < 17592186044416) ∧
    s.live.Pairwise Range.Apart ∧
    (∀ h ∈ s.heaps, u32 (h.size / PAGE_SIZE) = h.size / PAGE_SIZE ∧ ∀ r : Range, r.Inside h →
      u32 ((r.base - h.base) / PAGE_SIZE) = (r.base - h.base) / PAGE_SIZE ∧
        u32 (r.size / PAGE_SIZE) = r.size / PAGE_SIZE) ∧
    ∀ len, len ≠ 0 → len % PAGE_SIZE = 0 → (len ≤ Lib.total s.heaps → len < 17592186044416) →
      ∃ ret st', s.st.map len = .ok (ret, st') ∧
        (isError ret = false →
          PAGE_SIZE * st'.freeCount s.heaps + (st'.brkTop - st'.brkBase) + len / PAGE_SIZE * PAGE_SIZE =
            PAGE_SIZE * s.st.freeCount s.heaps + (s.st.brkTop - s.st.brkBase)) := by
  have hi := Inv.of_run (Inv.start hstart hsmall) hrun
  refine ⟨pageCountsExact_iff, numBits_iff, hi.liveApart, fun h hh => ?_, ?_⟩
  · have hle := (hi.heap h hh).small
    unfold HEAP_SIZE_MAX at hle
    refine ⟨(numBits_iff _).2 (by omega), fun r hr => ?_⟩
    obtain ⟨h1, h2⟩ := hr
    unfold Range.stop at h2
    exact ⟨(numBits_iff _).2 (by omega), (numBits_iff _).2 (by omega)⟩
  · intro len hpos hlen hfit
    have hpages : len / PAGE_SIZE * PAGE_SIZE = len := Nat.div_mul_cancel (Nat.dvd_of_mod_eq_zero hlen)
    obtain ⟨s', hstep, hi'⟩ := @Inv.step_mmap s hi 0 len (PROT_READ ||| PROT_WRITE)
      (MAP_ANONYMOUS ||| MAP_PRIVATE) 0 (-1) hfit
    obtain ⟨⟨ret, st'⟩, hcall, hstep⟩ := bind_eq_ok.1 hstep
    refine ⟨ret, st', hcall, fun hok => ?_⟩
    obtain rfl := Except.ok.inj hstep
    -- what is not free any more is mapped
    have hbefore := hi.conservation
    have hafter := hi'.conservation
    dsimp only at hafter
    rw [hok, if_neg (by decide), Lib.total_append, Lib.total_cons, Lib.total_nil] at hafter
    rw [hpages]
    dsimp only at hafter
    omega

/-- After a heap was added and a page of it mapped, the next two pages are accounted for. -/
theorem page_counts_exact_added : ∃ s : Sys, s.heaps = [⟨81920, 65536⟩, ⟨1048576, 65536⟩] ∧
    s.live = [⟨1052672, 4096⟩] ∧ PageCountsExact 65536 ∧
    u32 ((1052672 - 1048576) / PAGE_SIZE) = (1052672 - 1048576) / PAGE_SIZE ∧
    ∃ ret st', s.st.map 8192 = .ok (ret, st') := by
  obtain ⟨s₀, s, hstart, hsmall, hrun, hheaps, hlive⟩ := exists_added_mapped
  obtain ⟨hcounts, -, -, hindices, hmap⟩ := Sys.Run.page_counts_exact hstart hsmall hrun
  have hin : (⟨1048576, 65536⟩ : Range) ∈ s.heaps := by
    rw [hheaps]
    simp
  obtain ⟨-, hindex⟩ := hindices _ hin
  obtain ⟨ret, st', hcall, -⟩ := hmap 8192 (by decide) (by decide) fun _ => by decide
  exact ⟨s, hheaps, hlive, (hcounts 65536).2 (by decide), (hindex ⟨1052672, 4096⟩ (by decide)).1, ret, st', hcall⟩

/-- `IOCTL_ADD_HEAP` writes no statistics. -/
theorem memIoctl_addHeap_stats {st st' : MmapState} {r : Range} {ret : Int} {stats : Option AllocatorStats}
    (h : memIoctl st (.addHeap r) = .ok (ret, stats, st')) : stats = none := by
  unfold memIoctl at h
  dsimp only at h
  split at h
  · obtain ⟨⟨ret', st''⟩, -, h⟩ := bind_eq_ok.1 h
    exact (congrArg (fun v => v.2.1) (Except.ok.inj h)).symm
  · exact (congrArg (fun v => v.2.1) (Except.ok.inj h)).symm

/-- A heap of 2^44 bytes and 16 pages: its pages are counted as 16, a mapping of 2^44 bytes and a page takes
one of them, and the next mapping lies in the middle of it. -/
theorem mappings_share_pages : ∃ st st₁ st₂ st₃ : MmapState,
    elfSetup 65536 81920 = .ok st ∧ memRangeIsValid ⟨1048576, 17592186109952⟩ = true ∧
    memIoctl st (.addHeap ⟨1048576, 17592186109952⟩) = .ok (0, none, st₁) ∧
    ¬ PageCountsExact 17592186109952 ∧
    st₁.map 17592186048512 = .ok (1052672, st₂) ∧ st₂.map 4096 = .ok (1056768, st₃) ∧
    1056768 ∈ (⟨1052672, 17592186048512⟩ : Range) := by
  have hvalues : (elfSetup 65536 81920 >>= fun st => do
      let added ← memIoctl st (.addHeap ⟨1048576, 17592186109952⟩)
      let mapped ← added.2.2.map 17592186048512
      let mapped' ← mapped.2.map 4096
      return (added.1, mapped.1, mapped'.1)) = .ok (0, 1052672, 1056768) := by decide +kernel
  obtain ⟨st, hsetup, hvalues⟩ := bind_eq_ok.1 hvalues
  obtain ⟨⟨ret, stats, st₁⟩, hadd, hvalues⟩ := bind_eq_ok.1 hvalues
  obtain ⟨⟨addr, st₂⟩, hmap, hvalues⟩ := bind_eq_ok.1 hvalues
  obtain ⟨⟨addr', st₃⟩, hmap', hvalues⟩ := bind_eq_ok.1 hvalues
  have hvalues := Except.ok.inj hvalues
  obtain rfl : ret = 0 := congrArg Prod.fst hvalues
  obtain rfl : addr = 1052672 := congrArg (fun v => v.2.1) hvalues
  obtain rfl : addr' = 1056768 := congrArg (fun v => v.2.2) hvalues
  have hnone : stats = none := memIoctl_addHeap_stats hadd
  subst hnone
  refine ⟨st, st₁, st₂, st₃, hsetup, by decide, hadd, ?_, hmap, hmap', by decide⟩
  rw [pageCountsExact_iff]
  decide

end GunyahRuntime
