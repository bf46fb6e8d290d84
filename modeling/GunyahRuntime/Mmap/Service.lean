/-
# GunyahRuntime.Mmap.Service -- what the application gets

Over every state that an application reaches: which address `sys_mmap` returns and what it changes, when
it fails, and what the statistics tell about that; and when a heap can be taken back.
-/
import GunyahRuntime.Mmap.Reach

namespace GunyahRuntime

open Lib (Range Covers)

/-- The call of `sys_mmap` for anonymous private memory to read and write. -/
def MmapState.map (st : MmapState) (len : Nat) : Exec (Int × MmapState) :=
  sysMmap st 0 len (PROT_READ ||| PROT_WRITE) (MAP_ANONYMOUS ||| MAP_PRIVATE) (-1) 0

theorem MmapState.map_eq {st : MmapState} {len : Nat} (hpos : len ≠ 0) (hlen : len % PAGE_SIZE = 0) :
    st.map len = allocMmap st len := by
  have hargs : mmapArgsOk 0 len (PROT_READ ||| PROT_WRITE) (MAP_ANONYMOUS ||| MAP_PRIVATE) (-1) 0 = true :=
    decide_eq_true ⟨rfl, hpos, decide_eq_true hlen, rfl, rfl, rfl, rfl⟩
  unfold MmapState.map sysMmap
  rw [if_pos hargs]

section

variable {s : Sys} (hi : Inv s)

include hi

theorem Inv.pageFree_iff {h : Range} (hh : h ∈ s.heaps) (k : Nat) :
    s.st.pageFree h k = true ↔ k < h.size / PAGE_SIZE ∧ s.Free (h.base + 4096 * k) := by
  obtain ⟨node, hnode, hof⟩ := hi.node h hh
  rw [pageFree_eq hnode]
  exact hof.get k

/-- Runs of free pages end with the heap. -/
theorem Inv.run_le {h : Range} (hh : h ∈ s.heaps) {n p : Nat} (hn : 0 < n)
    (hrun : Lib.RunAt (s.st.pageFree h) n p) : p + n ≤ h.size / PAGE_SIZE := by
  obtain ⟨hlt, -⟩ := (hi.pageFree_iff hh _).1 (hrun (n - 1) (by omega))
  omega

/-- The pages of a heap after some were taken. -/
theorem Inv.taken_pageFree {h : Range} (hh : h ∈ s.heaps) {node node' : MmapNode} {n p : Nat} (hn : 0 < n)
    (hnode : s.st.nodes h.base = some node) (hfound : FoundRun h node node' n p) {g : Range}
    (hg : g ∈ s.heaps) (k : Nat) :
    (s.st.taken h node' (pageRange h p n)).pageFree g k =
      if g = h ∧ p ≤ k ∧ k < p + n then false else s.st.pageFree g k := by
  have hi' := hi.taken hh hn hnode hfound
  have hinside := pageRange_inside hfound.le
  rw [Bool.eq_iff_iff, hi'.pageFree_iff hg, free_taken]
  by_cases hk : k < g.size / PAGE_SIZE
  · have hpage := hi.page_mem hg hk
    have hmem : g.base + 4096 * k ∈ pageRange h p n ↔ g = h ∧ p ≤ k ∧ k < p + n := by
      constructor
      · intro hx
        obtain rfl := hi.heap_unique hg hh hpage (hinside.mem hx)
        exact ⟨rfl, mem_pageRange.1 hx⟩
      · rintro ⟨rfl, hk'⟩
        exact mem_pageRange.2 hk'
    by_cases hin : g = h ∧ p ≤ k ∧ k < p + n
    · rw [if_pos (hmem.2 hin), if_pos hin]
      exact ⟨fun hf => hf.2, fun hf => ⟨hk, hf⟩⟩
    · rw [if_neg (mt hmem.1 hin), if_neg hin, hi.pageFree_iff hg]
  · refine iff_of_false (fun hf => hk hf.1) fun hset => ?_
    split at hset
    · cases hset
    · exact hk ((hi.pageFree_iff hg k).1 hset).1

/-- Stealing from the break leaves the nodes alone. -/
theorem Inv.stolen_nodes {len : Nat} (hle : len ≤ s.st.brkTop - s.st.curBrk) {h : Range} (hh : h ∈ s.heaps) :
    (s.st.stolen len).nodes h.base = s.st.nodes h.base := by
  obtain ⟨node, hnode, hof⟩ := hi.node h hh
  obtain ⟨g, hg, harea⟩ := hi.brkArea_inside
  have hmeta := hi.metadata_apart hh hg ((hi.top_inside hle).trans harea)
  rw [hnode]
  exact hof.zeroed (hi.heap h hh) hmeta hnode

end

/-! ## First fit -/

/-- **First fit over whole runs.** The lowest run of the first heap in the list that has one, and just
those bits; else the top of the break, and no bits; else nothing at all. -/
theorem Sys.Reachable.map_first_fit {s : Sys} (hs : s.Reachable) {len : Nat} (hpos : len ≠ 0)
    (hlen : len % PAGE_SIZE = 0) :
    s.st.links.Spells 0 s.st.mmapNodeList (s.heaps.map Range.base) ∧
    (∀ l h m p, s.heaps = l ++ h :: m →
      (∀ g ∈ l, ∀ q, ¬ Lib.RunAt (s.st.pageFree g) (len / PAGE_SIZE) q) →
      Lib.RunAt (s.st.pageFree h) (len / PAGE_SIZE) p →
      (∀ q < p, ¬ Lib.RunAt (s.st.pageFree h) (len / PAGE_SIZE) q) →
      ∃ st', s.st.map len = .ok (toInt64 (h.base + p * PAGE_SIZE), st') ∧
        st'.brkTop = s.st.brkTop ∧
        ∀ g ∈ s.heaps, ∀ k, st'.pageFree g k =
          if g = h ∧ p ≤ k ∧ k < p + len / PAGE_SIZE then false else s.st.pageFree g k) ∧
    ((∀ h ∈ s.heaps, ∀ q, ¬ Lib.RunAt (s.st.pageFree h) (len / PAGE_SIZE) q) →
      (len ≤ s.st.brkTop - s.st.curBrk →
        ∃ st', s.st.map len = .ok (toInt64 (s.st.brkTop - len), st') ∧
          st'.brkTop = s.st.brkTop - len ∧ ∀ h ∈ s.heaps, st'.nodes h.base = s.st.nodes h.base) ∧
      (¬ len ≤ s.st.brkTop - s.st.curBrk → s.st.map len = .ok (-ENOMEM, s.st))) := by
  obtain ⟨hi, hlt⟩ := hs.inv
  have hn : 0 < len / PAGE_SIZE := by
    unfold PAGE_SIZE at *
    omega
  have halloc := hi.allocMmap (Nat.pos_of_ne_zero hpos) hlen fun hle => by omega
  rw [MmapState.map_eq hpos hlen]
  have hnone : ∀ g, (∀ q, ¬ Lib.RunAt (s.st.pageFree g) (len / PAGE_SIZE) q) →
      Lib.firstRun (s.st.pageFree g) (g.size / PAGE_SIZE) (len / PAGE_SIZE) = none :=
    fun g hg => Lib.firstRun_eq_none.2 fun q _ => hg q
  refine ⟨hi.chain, ?_, fun hno => ?_⟩
  · intro l h m p hsplit hbefore hrun hmin
    have hh : h ∈ s.heaps := by
      rw [hsplit]
      exact List.mem_append_right _ List.mem_cons_self
    have hle := hi.run_le hh hn hrun
    have hfirst : s.st.firstFit s.heaps (len / PAGE_SIZE) = some (h, p) := by
      rw [hsplit]
      exact firstFit_some (fun g hg => hnone g (hbefore g hg))
        ((Lib.firstRun_eq_some (le_of_add_le_right hle)).2 ⟨hrun, hle, hmin⟩)
    rw [hfirst] at halloc
    obtain ⟨-, node, node', hnode, hfound, hcall⟩ := halloc
    exact ⟨_, hcall, rfl, fun g hg k => hi.taken_pageFree hh hn hnode hfound hg k⟩
  · rw [firstFit_none fun h hh => hnone h (hno h hh)] at halloc
    dsimp only at halloc
    constructor
    · intro hle
      rw [if_pos hle] at halloc
      exact ⟨_, halloc, rfl, fun h hh => hi.stolen_nodes hle hh⟩
    · intro hle
      rwa [if_neg hle] at halloc

/-- The small system with a second heap of 16 pages. -/
theorem exists_added : ∃ s : Sys, s.Reachable ∧ s.heaps = [⟨81920, 65536⟩, ⟨1048576, 65536⟩] ∧
    s.live = [] ∧ s.st.mmapBrkNode = 81920 ∧
    (elfSetup 65536 81920 >>= fun st => memIoctl st (.addHeap ⟨1048576, 65536⟩)) =
      .ok (0, none, s.st) := by
  obtain ⟨s, hs, hheaps, hlive, hsetup⟩ := exists_start
  have hlt : Lib.total s.heaps < 8796093022208 := by
    rw [hheaps]
    decide
  obtain ⟨hi, -⟩ := (hs.reachable hlt).inv
  have hapart : ∀ g ∈ s.heaps, (⟨1048576, 65536⟩ : Range).Apart g := by
    rw [hheaps]
    decide
  have hsum : Lib.total s.heaps + 65536 < 8796093022208 := by
    rw [hheaps]
    decide
  have hallowed : Op.Allowed s (.ioctl (.addHeap ⟨1048576, 65536⟩)) :=
    ⟨⟨by decide, by decide⟩, by decide, hapart, hsum⟩
  have hbrk : s.st.mmapBrkNode = 81920 := by
    obtain ⟨k, hk, hb⟩ := hi.brk
    rw [hheaps] at hk
    rw [hb.node, List.mem_singleton.1 hk]
  rcases hi.addHeap_cases (r := ⟨1048576, 65536⟩) (by decide) hapart (by decide) with
    ⟨hroom, -⟩ | ⟨node, links, head, hok, -, -, hcall⟩
  · exact absurd hroom (by decide +kernel)
  · refine ⟨⟨s.st.added ⟨1048576, 65536⟩ node links head, s.heaps ++ [⟨1048576, 65536⟩], s.live⟩,
      ⟨s, hs, hlt, .step .refl hallowed ?_⟩, by rw [hheaps]; rfl, hlive, hbrk, by rw [hsetup, ok_bind, hcall]⟩
    unfold Sys.step
    dsimp only
    rw [hcall]
    rfl

/-- A run of it: the first page behind the metadata of the second heap is mapped. -/
theorem exists_added_mapped : ∃ s₀ s : Sys, s₀.Start ∧ Lib.total s₀.heaps ≤ HEAP_SIZE_MAX ∧
    Sys.Run Op.Fitting s₀ s ∧ s.heaps = [⟨81920, 65536⟩, ⟨1048576, 65536⟩] ∧ s.live = [⟨1052672, 4096⟩] := by
  obtain ⟨s, hs, hheaps, hlive, -, hstate⟩ := exists_added
  obtain ⟨s₀, hstart, hsmall, hrun⟩ := hs.fitting
  have hfit : Op.Fitting s (.mmap 0 4096 3 34 (-1) 0) :=
    ⟨⟨by decide, by decide, by decide, by decide, by decide⟩, fun _ => by decide⟩
  have hret : ((elfSetup 65536 81920 >>= fun st => memIoctl st (.addHeap ⟨1048576, 65536⟩)) >>= fun r =>
      Prod.fst <$> sysMmap r.2.2 0 4096 3 34 (-1) 0) = .ok 1052672 := by decide +kernel
  rw [hstate, ok_bind] at hret
  cases hcall : sysMmap s.st 0 4096 3 34 (-1) 0 with
  | error e =>
    rw [hcall] at hret
    cases hret
  | ok r =>
    obtain ⟨ret, st⟩ := r
    rw [hcall] at hret
    obtain rfl : ret = 1052672 := Except.ok.inj hret
    refine ⟨s₀, ⟨st, s.heaps, s.live ++ [⟨1052672, 4096⟩]⟩, hstart, hsmall, .step hrun hfit ?_, hheaps, by rw [hlive]; rfl⟩
    unfold Sys.step
    dsimp only
    rw [hcall]
    rfl

/-- In the system with a second heap its first page behind the metadata is the first one that is free. -/
theorem map_first_fit_added : ∃ s : Sys, ∃ st', s.heaps = [⟨81920, 65536⟩, ⟨1048576, 65536⟩] ∧
    s.st.map 4096 = .ok (1052672, st') ∧ st'.brkTop = s.st.brkTop := by
  obtain ⟨s, hs, hheaps, -, -, hstate⟩ := exists_added
  obtain ⟨hi, -⟩ := hs.inv
  have hbits : ((elfSetup 65536 81920 >>= fun st => memIoctl st (.addHeap ⟨1048576, 65536⟩)) >>= fun r =>
      (.ok ((List.range 16).any (r.2.2.pageFree ⟨81920, 65536⟩), r.2.2.pageFree ⟨1048576, 65536⟩ 0,
        r.2.2.pageFree ⟨1048576, 65536⟩ 1) : Exec _)) = .ok (false, false, true) := by decide +kernel
  rw [hstate, ok_bind] at hbits
  obtain ⟨hfirst, hrest⟩ := Prod.mk.inj (Except.ok.inj hbits)
  obtain ⟨hmeta, hfree⟩ := Prod.mk.inj hrest
  have hone : ∀ g q, Lib.RunAt (s.st.pageFree g) (4096 / PAGE_SIZE) q → s.st.pageFree g q = true :=
    fun g q hrun => hrun 0 (by decide)
  -- in the first heap all pages belong to the metadata or to the break
  have hused : ∀ g ∈ [(⟨81920, 65536⟩ : Range)], ∀ q, ¬ Lib.RunAt (s.st.pageFree g) (4096 / PAGE_SIZE) q := by
    intro g hg q hrun
    have hset := hone g q hrun
    obtain rfl := List.mem_singleton.1 hg
    have hmem : (⟨81920, 65536⟩ : Range) ∈ s.heaps := by
      rw [hheaps]
      simp
    obtain ⟨hlt, -⟩ := (hi.pageFree_iff hmem q).1 hset
    exact List.any_eq_false.1 hfirst q (List.mem_range.2 hlt) hset
  have hrun : Lib.RunAt (s.st.pageFree ⟨1048576, 65536⟩) (4096 / PAGE_SIZE) 1 := by
    intro k hk
    obtain rfl : k = 0 := Nat.lt_one_iff.1 hk
    exact hfree
  have hlowest : ∀ q < 1, ¬ Lib.RunAt (s.st.pageFree ⟨1048576, 65536⟩) (4096 / PAGE_SIZE) q := by
    intro q hq hrun
    obtain rfl : q = 0 := Nat.lt_one_iff.1 hq
    rw [hone _ _ hrun] at hmeta
    cases hmeta
  obtain ⟨-, hfit, -⟩ := @Sys.Reachable.map_first_fit s hs 4096 (by decide) (by decide)
  obtain ⟨st', hcall, htop, -⟩ := hfit [⟨81920, 65536⟩] ⟨1048576, 65536⟩ [] 1 hheaps hused hrun hlowest
  exact ⟨s, st', hheaps, hcall, htop⟩

/-! ## The statistics and the allocator -/

theorem firstFit_isSome {st : MmapState} {heaps : List Range} {n : Nat} :
    (st.firstFit heaps n).isSome ↔ st.HasRun heaps n := by
  unfold MmapState.firstFit MmapState.HasRun
  rw [List.findSome?_isSome_iff]
  simp only [Option.isSome_map, Lib.firstRun_isSome]

/-- **`sys_mmap` and the statistics.** It succeeds just if the length is no more than the longest run of
free pages in the statistics, or no more than what the break leaves free: the statistics know the
bitmaps, not the gap above the break. -/
theorem Sys.Reachable.map_succeeds_iff {s : Sys} (hs : s.Reachable) {len : Nat} (hpos : len ≠ 0)
    (hlen : len % PAGE_SIZE = 0) :
    ∃ stats ret st', memIoctl s.st .heapGetStats = .ok (0, some stats, s.st) ∧
      s.st.map len = .ok (ret, st') ∧
      (isError ret = false ↔ len ≤ stats.largestFree ∨ len ≤ s.st.brkTop - s.st.curBrk) := by
  obtain ⟨hi, hlt⟩ := hs.inv
  obtain ⟨stats, hioctl, hok⟩ := hi.ioctl_stats
  have hn : 0 < len / PAGE_SIZE := by
    unfold PAGE_SIZE at *
    omega
  have hpages : len / PAGE_SIZE * PAGE_SIZE = len := by
    unfold PAGE_SIZE at *
    omega
  have hlargest := hok.largestFree (len / PAGE_SIZE) hn
  rw [hpages] at hlargest
  have halloc := hi.allocMmap (Nat.pos_of_ne_zero hpos) hlen fun hle => by omega
  rw [← MmapState.map_eq hpos hlen] at halloc
  rw [← firstFit_isSome] at hlargest
  cases hfirst : s.st.firstFit s.heaps (len / PAGE_SIZE) with
  | some found =>
    obtain ⟨h, p⟩ := found
    rw [hfirst] at halloc hlargest
    obtain ⟨hh, node, node', hnode, hfound, hcall⟩ := halloc
    have hsize : 0 < (pageRange h p (len / PAGE_SIZE)).size := Nat.mul_pos hn (by decide)
    have hbase := hi.base_lt hh (pageRange_inside hfound.le) hsize (pageRange_paged (hi.heap h hh).paged p _)
    refine ⟨stats, _, _, hioctl, hcall, ?_⟩
    exact iff_of_true (addrOf_toInt64 hbase).1 (.inl (hlargest.2 rfl))
  | none =>
    rw [hfirst] at halloc hlargest
    dsimp only at halloc
    have hno : ¬ len ≤ stats.largestFree := fun hle => by cases hlargest.1 hle
    by_cases hle : len ≤ s.st.brkTop - s.st.curBrk
    · rw [if_pos hle] at halloc
      have hstolen := hi.stolen (Nat.pos_of_ne_zero hpos) hlen hle
      obtain ⟨g, hg, harea⟩ := hi.brkArea_inside
      have hbase := hi.base_lt hg (((hi.top_inside hle).trans harea).trans (hi.heap g hg).payload_inside)
        (Nat.pos_of_ne_zero hpos) (hstolen.live _ (List.mem_append_right _ List.mem_cons_self)).paged
      exact ⟨stats, _, _, hioctl, halloc, iff_of_true (addrOf_toInt64 hbase).1 (.inr hle)⟩
    · rw [if_neg hle] at halloc
      exact ⟨stats, _, _, hioctl, halloc, iff_of_false (by decide) (not_or.2 ⟨hno, hle⟩)⟩

/-- At the start the statistics know no free page, and `sys_mmap` has one. -/
theorem map_beyond_largestFree : ∃ s : Sys, s.Reachable ∧ ∃ stats ret st',
    memIoctl s.st .heapGetStats = .ok (0, some stats, s.st) ∧ s.st.map 4096 = .ok (ret, st') ∧
      isError ret = false ∧ ¬ 4096 ≤ stats.largestFree := by
  obtain ⟨s, hstart, hheaps, -, hsetup⟩ := exists_start
  have hs := hstart.reachable (by rw [hheaps]; decide)
  have hvalues : (elfSetup 65536 81920 >>= fun st => do
      let answer ← memIoctl st .heapGetStats
      let mapped ← st.map 4096
      return (answer.2.1.map (·.largestFree), mapped.1)) = .ok (some 0, 143360) := by decide +kernel
  obtain ⟨stats, hioctl, -⟩ := (Sys.Reachable.inv hs).1.ioctl_stats
  rw [hsetup, ok_bind, hioctl, ok_bind] at hvalues
  obtain ⟨⟨ret, st'⟩, hcall, hvalues⟩ := bind_eq_ok.1 hvalues
  have hlargest : stats.largestFree = 0 :=
    Option.some.inj (congrArg Prod.fst (Except.ok.inj hvalues))
  obtain rfl : ret = 143360 := congrArg Prod.snd (Except.ok.inj hvalues)
  exact ⟨s, hs, stats, _, st', hioctl, hcall, by decide, by simp [hlargest]⟩

/-- In the system with a second heap the statistics know its fifteen pages, and all of them can be mapped. -/
theorem map_succeeds_iff_added : ∃ s : Sys, ∃ stats ret st', memIoctl s.st .heapGetStats = .ok (0, some stats, s.st) ∧
    stats.largestFree = 61440 ∧ s.st.map 61440 = .ok (ret, st') ∧ isError ret = false := by
  obtain ⟨s, hs, -, -, -, hstate⟩ := exists_added
  obtain ⟨stats, ret, st', hioctl, hcall, hiff⟩ :=
    @Sys.Reachable.map_succeeds_iff s hs 61440 (by decide) (by decide)
  have hlargest : ((elfSetup 65536 81920 >>= fun st => memIoctl st (.addHeap ⟨1048576, 65536⟩)) >>= fun r =>
      (fun answer => answer.2.1.map (·.largestFree)) <$> memIoctl r.2.2 .heapGetStats) = .ok (some 61440) := by
    decide +kernel
  rw [hstate, ok_bind, hioctl] at hlargest
  have hfree : stats.largestFree = 61440 := Option.some.inj (Except.ok.inj hlargest)
  exact ⟨s, stats, ret, st', hioctl, hfree, hcall, hiff.2 (.inl hfree.ge)⟩

/-! ## Taking heaps back -/

/-- A request that adds no heap over `r`. -/
def Op.AddsApart (r : Range) (s : Sys) (op : Op) : Prop :=
  op.Allowed s ∧ ∀ range, op = .ioctl (.addHeap range) → range.Apart r

/-- While no heap is added over a range that no heap meets, nothing is mapped there. -/
theorem Inv.live_apart_of_run {s s' : Sys} {r : Range} (hi : Inv s)
    (hlt : Lib.total s.heaps < 8796093022208) (hr : ∀ g ∈ s.heaps, g.Apart r)
    (hrun : Sys.Run (Op.AddsApart r) s s') : ∀ q ∈ s'.live, q.Apart r := by
  have hstate : Inv s' ∧ Lib.total s'.heaps < 8796093022208 ∧ ∀ g ∈ s'.heaps, g.Apart r := by
    induction hrun with
    | refl => exact ⟨hi, hlt, hr⟩
    | step hs hop hstep ih =>
      obtain ⟨hi, hlt, hr⟩ := ih
      obtain ⟨hallowed, hadds⟩ := hop
      obtain ⟨s', hrun, hi'⟩ := hi.step (hallowed.fitting hlt)
      obtain rfl := Except.ok.inj (hstep.symm.trans hrun)
      refine ⟨hi', hallowed.total_lt hlt hstep, fun g hg => ?_⟩
      rcases Sys.step_heaps hstep with heq | ⟨range, heq⟩ | ⟨range, rfl, heq⟩ <;> rw [heq] at hg
      · exact hr g hg
      · exact hr g (List.mem_of_mem_erase hg)
      · rcases List.mem_append.1 hg with hg | hg
        · exact hr g hg
        · rw [List.mem_singleton.1 hg]
          exact hadds range rfl
  intro q hq
  obtain ⟨g, hg, hin⟩ := hstate.1.live_inside hq
  exact (hstate.2.2 g hg).of_inside hin

/-- The state after a heap was taken back, as against the state before. -/
structure HeapGone (s : Sys) (r : Range) (st : MmapState) : Prop where
  total : st.mmapTotalSize + r.size = s.st.mmapTotalSize
  /-- The rest of the list is in order. -/
  listed : st.links.Spells 0 st.mmapNodeList ((s.heaps.erase r).map Range.base)
  /-- The other nodes are as they were; links to the node of the heap go where its own went. -/
  others : ∀ g ∈ s.heaps.erase r, st.nodes g.base = s.st.nodes g.base ∧
    st.links.next g.base =
      (if s.st.links.next g.base = r.base then s.st.links.next r.base else s.st.links.next g.base) ∧
    st.links.prev g.base =
      if s.st.links.prev g.base = r.base then s.st.links.prev r.base else s.st.links.prev g.base
  counters : st.mmapAllocSize = s.st.mmapAllocSize ∧ st.mmapBrkNode = s.st.mmapBrkNode ∧
    st.brkBase = s.st.brkBase ∧ st.brkTop = s.st.brkTop ∧ st.curBrk = s.st.curBrk
  /-- Until a heap is added there again, nothing is mapped there. -/
  unmapped : ∀ s' : Sys, Sys.Run (Op.AddsApart r) ⟨st, s.heaps.erase r, s.live⟩ s' →
    ∀ q ∈ s'.live, q.Apart r
  /-- Adding it again puts it at the end of the list, with all pages behind the metadata free. -/
  again : ∃ st', memIoctl st (.addHeap r) = .ok (0, none, st') ∧
    st'.links.Spells 0 st'.mmapNodeList ((s.heaps.erase r ++ [r]).map Range.base) ∧
    ∀ k, st'.pageFree r k = true ↔ r.base + k * PAGE_SIZE ∈ payload r

theorem Inv.heapGone {s : Sys} (hi : Inv s) (hlt : Lib.total s.heaps < 8796093022208) {r : Range}
    {l m : List Range} (hsplit : s.heaps = l ++ r :: m) (hvalid : memRangeIsValid r = true)
    (hbrk : r.base ≠ s.st.mmapBrkNode) (hlive : ∀ x ∈ payload r, ¬ Covers s.live x)
    {links : Lib.Links Nat} {head : Nat} (hspells : links.Spells 0 head ((l ++ m).map Range.base))
    (hbypass : ∀ g ∈ l ++ m,
      links.next g.base = (if s.st.links.next g.base = r.base then s.st.links.next r.base
        else s.st.links.next g.base) ∧
      links.prev g.base = if s.st.links.prev g.base = r.base then s.st.links.prev r.base
        else s.st.links.prev g.base) : HeapGone s r (s.st.removed r links head) := by
  have hr : r ∈ s.heaps := by
    rw [hsplit]
    exact List.mem_append_right _ List.mem_cons_self
  have hgone := hi.removed hsplit hbrk hlive hspells
  have herase := hi.erase_eq hsplit
  have hsmall : r.size ≤ HEAP_SIZE_MAX := (hi.heap r hr).small
  have hpair : (l ++ r :: m).Pairwise Range.Apart := hsplit ▸ hi.apart
  have hapart : ∀ g ∈ l ++ m, r.Apart g := by
    intro g hg
    obtain ⟨-, hright, hcross⟩ := List.pairwise_append.1 hpair
    rcases List.mem_append.1 hg with hg | hg
    · exact (hcross g hg r List.mem_cons_self).symm
    · exact (List.pairwise_cons.1 hright).1 g hg
  have hsum : Lib.total (l ++ m) + r.size = Lib.total s.heaps := by
    rw [hsplit, Lib.total_append, Lib.total_append, Lib.total_cons]
    omega
  have htotal := hgone.totalSize
  dsimp only at htotal
  refine ⟨?_, ?_, ?_, ⟨rfl, rfl, rfl, rfl, rfl⟩, ?_, ?_⟩
  · rw [htotal, hi.totalSize]
    exact hsum
  · rw [herase]
    exact hspells
  · rw [herase]
    exact fun g hg => ⟨rfl, hbypass g hg⟩
  · rw [herase]
    intro s' hrun
    refine hgone.live_apart_of_run ?_ (fun g hg => (hapart g hg).symm) hrun
    dsimp only
    omega
  · rw [herase]
    rcases hgone.addHeap_cases hvalid hapart hsmall with
      ⟨hroom, -⟩ | ⟨node, links', head', hok, hnode, hspells', hcall⟩
    · exact absurd (hi.heap r hr).room (not_lt.2 hroom)
    · refine ⟨_, hcall, hspells', fun k => ?_⟩
      rw [pageFree_eq (Function.update_self .. : (MmapState.added _ r node links' head').nodes r.base = _),
        hnode.get, Nat.mul_comm k]
      refine and_iff_right_of_imp fun hx => ?_
      exact ((hok.metaBits).2.2 k |>.1 hx).2

/-- **Heaps are taken back safely.** `mmap_remove_heap` succeeds just for a registered heap that is not
the break heap and in whose pages nothing is mapped; `mmap_heap_is_free` answers the same; an error
changes nothing, and success no more than `HeapGone` says. -/
theorem Sys.Reachable.heap_removal {s : Sys} (hs : s.Reachable) {r : Range}
    (hsize : r.size < 18446744073709551616) (hvalid : memRangeIsValid r = true) :
    ∃ code st', mmapRemoveHeap s.st r.base r.size = .ok (code, st') ∧
      mmapHeapIsFree s.st r.base r.size = .ok code ∧
      (code = 0 ↔ r ∈ s.heaps ∧ r.base ≠ s.st.mmapBrkNode ∧ ∀ q ∈ s.live, ∀ x ∈ q, x ∉ payload r) ∧
      (code ≠ 0 → st' = s.st) ∧ (code = 0 → HeapGone s r st') := by
  obtain ⟨hi, hlt⟩ := hs.inv
  have hlive_iff : (∀ x ∈ payload r, ¬ Covers s.live x) ↔ ∀ q ∈ s.live, ∀ x ∈ q, x ∉ payload r := by
    constructor
    · exact fun h q hq x hx hxr => h x hxr ⟨q, hq, hx⟩
    · rintro h x hxr ⟨q, hq, hx⟩
      exact h q hq x hx hxr
  rcases hi.removeHeap_cases hsize hvalid with
    ⟨code, hne, hno, hfree, hcall⟩ | ⟨l, m, links, head, hsplit, hbrk, hlive, hspells, hbypass, hfree, hcall⟩
  · rw [hlive_iff] at hno
    exact ⟨code, s.st, hcall, hfree, iff_of_false hne hno, fun _ => rfl, fun h0 => absurd h0 hne⟩
  · have hr : r ∈ s.heaps := by
      rw [hsplit]
      exact List.mem_append_right _ List.mem_cons_self
    refine ⟨0, _, hcall, hfree, iff_of_true rfl ⟨hr, hbrk, hlive_iff.1 hlive⟩, fun h0 => absurd rfl h0, fun _ => ?_⟩
    exact hi.heapGone hlt hsplit hvalid hbrk hlive hspells hbypass

/-- The second heap can be taken back. -/
theorem heap_removal_added : ∃ s : Sys, ∃ st', mmapRemoveHeap s.st 1048576 65536 = .ok (0, st') ∧
    HeapGone s ⟨1048576, 65536⟩ st' := by
  obtain ⟨s, hs, hheaps, hlive, hbrk, -⟩ := exists_added
  obtain ⟨code, st', hcall, -, hiff, -, hgone⟩ :=
    @Sys.Reachable.heap_removal s hs ⟨1048576, 65536⟩ (by decide) (by decide)
  have hzero : code = 0 := by
    refine hiff.2 ⟨by rw [hheaps]; decide, by rw [hbrk]; decide, fun q hq => ?_⟩
    rw [hlive] at hq
    cases hq
  rw [hzero] at hcall
  exact ⟨s, st', hcall, hgone hzero⟩

end GunyahRuntime
