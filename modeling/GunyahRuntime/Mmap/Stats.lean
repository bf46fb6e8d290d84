/-
# GunyahRuntime.Mmap.Stats -- `mmap_heap_get_stats`

The statistics of the heaps: their sizes, what of them is reserved for metadata, what is mapped or below
the break, and the longest run of free pages. `Inv.stats` says what each figure is, and
`Inv.conservation` that they add up.
-/
import GunyahRuntime.Mmap.Alloc

namespace GunyahRuntime

open Lib (Range Covers HasRun)

/-! ## The longest run -/

/-- What the figure for the longest run says: `m` is at least as long as every run. -/
def LongestRun (m : Nat) (runs : Nat → Prop) : Prop := ∀ n, 0 < n → (n ≤ m ↔ runs n)

/-- A run of set bits ends at the next clear one, or behind the last bit. -/
theorem firstClear_spec {b : Bitmap} {endBit next : Nat} (hend : endBit < 4294967232)
    (hset : b.get next = true) (hnext : next ≤ endBit) :
    ∃ mid, (Lib.firstBit (b.is false) next endBit).getD (u32 (endBit + 1)) = mid ∧
      next < mid ∧ mid ≤ endBit + 1 ∧ (∀ k, next ≤ k → k < mid → b.get k = true) ∧
      (mid = endBit + 1 ∨ b.get mid = false) := by
  cases hfound : Lib.firstBit (b.is false) next endBit with
  | none =>
    refine ⟨endBit + 1, u32_of_lt (by omega), by omega, le_rfl, fun k h1 h2 => ?_, .inl rfl⟩
    have hk := of_decide_eq_false (Lib.firstBit_eq_none.1 hfound k h1 (by omega))
    exact Bool.eq_true_of_not_eq_false hk
  | some mid =>
    obtain ⟨hmid, h1, h2, hbefore⟩ := Lib.firstBit_eq_some.1 hfound
    have hclear : b.get mid = false := of_decide_eq_true hmid
    have hne : next ≠ mid := by
      rintro rfl
      rw [hset] at hclear
      cases hclear
    refine ⟨mid, rfl, by omega, by omega, fun k hk1 hk2 => ?_, .inr hclear⟩
    exact Bool.eq_true_of_not_eq_false (of_decide_eq_false (hbefore k hk1 hk2))

section

variable {node : MmapNode} {endBit : Nat} (hend : endBit < 4294967232)
  (hlen : endBit / 64 < node.freePages.length)

include hend hlen

/-- One pass goes on behind the next run, with the run taken into account, or there is no more. -/
theorem freeRunPass_spec {curr bits : Nat}
    (hcurr : curr = 0 ∨ curr = endBit + 1 ∨ node.freePages.get curr = false) (hle : curr ≤ endBit + 1)
    {runs : Nat → Prop} (hbits : LongestRun bits fun n => runs n ∨ HasRun node.freePages.get curr n) :
    (∃ m, freeRunPass node endBit (curr, bits) = .ok (.inr m) ∧
        LongestRun m fun n => runs n ∨ HasRun node.freePages.get (endBit + 1) n) ∨
      ∃ curr' bits', freeRunPass node endBit (curr, bits) = .ok (.inl (curr', bits')) ∧
        curr < curr' ∧ curr' ≤ endBit + 1 ∧
        (curr' = 0 ∨ curr' = endBit + 1 ∨ node.freePages.get curr' = false) ∧
        LongestRun bits' fun n => runs n ∨ HasRun node.freePages.get curr' n := by
  unfold freeRunPass
  dsimp only
  by_cases hlast : curr ≤ endBit
  · have hgap : curr = 0 ∨ node.freePages.get curr = false :=
      hcurr.imp_right fun h => h.resolve_left (by omega)
    rw [if_pos hlast]
    unfold bitmapFfs
    rw [bitmapFindFirst_eq hlast hend hlen, ok_bind]
    cases hnext : Lib.firstBit (node.freePages.is true) curr endBit with
    | none =>
      have hclear : ∀ k, curr ≤ k → k < endBit + 1 → node.freePages.get k = false := by
        intro k h1 h2
        have hk := Lib.firstBit_eq_none.1 hnext k h1 (by omega)
        exact Bool.eq_false_iff.2 (of_decide_eq_false hk)
      refine .inl ⟨bits, rfl, fun n hn => ?_⟩
      show n ≤ bits ↔ runs n ∨ HasRun node.freePages.get (endBit + 1) n
      rw [Lib.hasRun_last hn hle hgap hclear]
      exact hbits n hn
    | some next =>
      obtain ⟨hset, h1, h2, hmin⟩ := Lib.firstBit_eq_some.1 hnext
      have hbit : node.freePages.get next = true := of_decide_eq_true hset
      have hclear : ∀ k, curr ≤ k → k < next → node.freePages.get k = false := by
        intro k hk1 hk2
        exact Bool.eq_false_iff.2 (of_decide_eq_false (hmin k hk1 hk2))
      dsimp only
      unfold bitmapFfc
      rw [bitmapFindFirst_eq h2 hend hlen, ok_bind]
      obtain ⟨mid, hmid, hlt, hmid_le, hset_mid, hmid_clear⟩ := firstClear_spec hend hbit h2
      rw [hmid, decide_eq_true hlt, cassert_true, ok_bind]
      refine .inr ⟨mid, _, rfl, by omega, hmid_le, .inr hmid_clear, fun n hn => ?_⟩
      show n ≤ utilMax (sub32 mid next) bits ↔ runs n ∨ HasRun node.freePages.get mid n
      rw [utilMax_eq, sub32_of_le hlt.le (by omega), Lib.hasRun_step hn hgap hclear hlt hset_mid h1,
        le_max_iff, hbits n hn]
      exact or_left_comm
  · rw [if_neg hlast]
    have heq : curr = endBit + 1 := by omega
    subst heq
    exact .inl ⟨bits, rfl, hbits⟩

/-- The loop over one heap's bits. -/
theorem freeRun_loop {bits : Nat} {runs : Nat → Prop} (hbits : LongestRun bits runs) :
    ∃ m, Lib.iterate .diverged (freeRunPass node endBit) (endBit + 2) (0, bits) = .ok m ∧
      LongestRun m fun n => runs n ∨ HasRun node.freePages.get (endBit + 1) n := by
  refine Lib.iterate_total
    (fun s => (s.1 = 0 ∨ s.1 = endBit + 1 ∨ node.freePages.get s.1 = false) ∧ s.1 ≤ endBit + 1 ∧
      LongestRun s.2 fun n => runs n ∨ HasRun node.freePages.get s.1 n)
    _ (fun s => endBit + 1 - s.1) ?_ _ _ ⟨.inl rfl, Nat.zero_le _, fun n hn => ?_⟩
    (by dsimp only; omega)
  · rintro ⟨curr, bits⟩ ⟨hcurr, hle, hbits⟩
    rcases freeRunPass_spec hend hlen hcurr hle hbits with
      ⟨m, hrun, hm⟩ | ⟨curr', bits', hrun, hlt, hle', hcurr', hbits'⟩
    · exact .inl ⟨m, hrun, hm⟩
    · refine .inr ⟨(curr', bits'), hrun, ⟨hcurr', hle', hbits'⟩, ?_⟩
      dsimp only at *
      omega
  · rw [hbits n hn]
    refine (or_iff_left ?_).symm
    -- before the first bit there is no run
    rintro ⟨p, hp, -⟩
    dsimp only at hp
    omega

end

/-! ## The loop over the heaps

A node needs a bit for each of its pages, and not too many of them. What the bits are and which pages ought to be free
does not matter here. -/

/-- The pages of a node can be counted. -/
structure MmapNode.Countable (node : MmapNode) : Prop where
  pos : 0 < node.size / PAGE_SIZE
  le : node.size / PAGE_SIZE ≤ 4294967232
  bits : node.size / PAGE_SIZE ≤ 64 * node.freePages.length

/-- The `meta_size` of the node at an address. -/
def MmapState.metaAt (st : MmapState) (a : Nat) : Nat := (st.nodes a).elim 0 MmapNode.metaSize

/-- A run of `n` free pages in the node at an address. -/
def MmapState.HasRunAt (st : MmapState) (a n : Nat) : Prop :=
  ∃ node, st.nodes a = some node ∧ HasRun node.freePages.get (node.size / PAGE_SIZE) n

section

variable {st : MmapState}

/-- One heap: its metadata is added up, and its runs are taken into account. -/
theorem statsNode_eq {a : Nat} {node : MmapNode} (hnode : st.nodes a = some node) (hc : node.Countable)
    {reserved bits : Nat} {runs : Nat → Prop} (hbits : LongestRun bits runs) :
    ∃ m, statsNode st (reserved, bits) a = .ok (.inl (u64 (reserved + st.metaAt a), m)) ∧
      LongestRun m fun n => runs n ∨ st.HasRunAt a n := by
  have hpos := hc.pos
  have hle := hc.le
  have hload : st.loadNode a = .ok node := by rw [MmapState.loadNode, hnode]
  have hend : sub32 (u32 (node.size / PAGE_SIZE)) 1 = node.size / PAGE_SIZE - 1 := by
    rw [u32_of_lt (by omega)]
    exact sub32_of_le hpos (by omega)
  obtain ⟨m, hloop, hm⟩ := @freeRun_loop node (node.size / PAGE_SIZE - 1) (by omega)
    (by have := hc.bits; omega) bits runs hbits
  rw [Nat.sub_add_cancel hpos] at hm
  refine ⟨m, ?_, fun n hn => ?_⟩
  · unfold statsNode MmapState.metaAt
    dsimp only
    rw [hload, ok_bind, hend, hloop, ok_bind, hnode]
    rfl
  · rw [hm n hn]
    unfold MmapState.HasRunAt
    simp only [hnode, Option.some.injEq, exists_eq_left']

/-- All heaps. -/
theorem visit_stats {addrs : List Nat} (hnodes : ∀ a ∈ addrs, ∃ node, st.nodes a = some node ∧ node.Countable)
    {reserved bits : Nat} {runs : Nat → Prop} (hbits : LongestRun bits runs)
    (hlt : reserved < 18446744073709551616) :
    ∃ f, visit (statsNode st) (reserved, bits) addrs =
        .ok (.inl (u64 (reserved + (addrs.map st.metaAt).sum), f)) ∧
      LongestRun f fun n => runs n ∨ ∃ a ∈ addrs, st.HasRunAt a n := by
  induction addrs generalizing reserved bits runs with
  | nil =>
    refine ⟨bits, ?_, fun n hn => ?_⟩
    · rw [List.map_nil, List.sum_nil, Nat.add_zero, u64_of_lt hlt]
      rfl
    · rw [hbits n hn]
      simp
  | cons a addrs ih =>
    obtain ⟨node, hnode, hc⟩ := hnodes a List.mem_cons_self
    obtain ⟨f₁, hfirst, hf₁⟩ := @statsNode_eq st a node hnode hc reserved bits runs hbits
    obtain ⟨f, hrest, hf⟩ := ih (fun b hb => hnodes b (List.mem_cons_of_mem _ hb)) hf₁
      (u64_lt (reserved + st.metaAt a))
    refine ⟨f, ?_, fun n hn => ?_⟩
    · rw [visit, hfirst, ok_bind, List.map_cons, List.sum_cons, ← Nat.add_assoc]
      unfold u64 at hrest ⊢
      rw [Nat.mod_add_mod] at hrest
      exact hrest
    · rw [hf n hn]
      simp only [List.mem_cons, exists_eq_or_imp, or_assoc]

end

/-- A run of `n` free pages in one of the heaps. -/
def MmapState.HasRun (st : MmapState) (heaps : List Range) (n : Nat) : Prop :=
  ∃ h ∈ heaps, Lib.HasRun (st.pageFree h) (h.size / PAGE_SIZE) n

section

variable {s : Sys} (hi : Inv s)

include hi

theorem Inv.countable {h : Range} (hh : h ∈ s.heaps) :
    ∃ node, s.st.nodes h.base = some node ∧ node.Countable := by
  obtain ⟨node, hnode, hof⟩ := hi.node h hh
  have hok := hi.heap h hh
  refine ⟨node, hnode, ?_, ?_, ?_⟩
  all_goals rw [hof.size]
  · exact hok.pages_pos
  · exact hok.pages_le
  · rw [hof.pages]
    exact (pageWords_spec hok.pages_le).1

theorem Inv.metaAt_eq {h : Range} (hh : h ∈ s.heaps) : s.st.metaAt h.base = (metadata h).size := by
  obtain ⟨node, hnode, hof⟩ := hi.node h hh
  unfold MmapState.metaAt
  rw [hnode]
  exact hof.metaSize

theorem Inv.hasRunAt_iff {h : Range} (hh : h ∈ s.heaps) (n : Nat) :
    s.st.HasRunAt h.base n ↔ Lib.HasRun (s.st.pageFree h) (h.size / PAGE_SIZE) n := by
  obtain ⟨node, hnode, hof⟩ := hi.node h hh
  unfold MmapState.HasRunAt
  rw [pageFree_eq hnode]
  simp only [hnode, Option.some.injEq, exists_eq_left', hof.size]

/-- All heaps of a reachable state. -/
theorem Inv.visit_stats (hlt : Lib.total (s.heaps.map metadata) < 18446744073709551616) :
    ∃ f, visit (statsNode s.st) (0, 0) (s.heaps.map Range.base) =
        .ok (.inl (Lib.total (s.heaps.map metadata), f)) ∧ LongestRun f (s.st.HasRun s.heaps) := by
  have hnone : LongestRun 0 fun _ => False := fun n hn => iff_of_false (by omega) id
  have hnodes : ∀ a ∈ s.heaps.map Range.base, ∃ node, s.st.nodes a = some node ∧ node.Countable := by
    intro a ha
    obtain ⟨h, hh, rfl⟩ := List.mem_map.1 ha
    exact hi.countable hh
  have hsum : ((s.heaps.map Range.base).map s.st.metaAt).sum = Lib.total (s.heaps.map metadata) := by
    rw [List.map_map]
    exact Lib.sum_eq_total fun h hh => hi.metaAt_eq hh
  obtain ⟨f, hvisit, hf⟩ := GunyahRuntime.visit_stats hnodes hnone (by decide : 0 < 18446744073709551616)
  rw [hsum, Nat.zero_add, u64_of_lt hlt] at hvisit
  refine ⟨f, hvisit, fun n hn => ?_⟩
  refine (hf n hn).trans ((or_iff_right id).trans ?_)
  constructor
  · rintro ⟨a, ha, hrun⟩
    obtain ⟨h, hh, rfl⟩ := List.mem_map.1 ha
    exact ⟨h, hh, (hi.hasRunAt_iff hh n).1 hrun⟩
  · rintro ⟨h, hh, hrun⟩
    exact ⟨h.base, List.mem_map_of_mem hh, (hi.hasRunAt_iff hh n).2 hrun⟩

end

/-! ## The longest run of all

The figure for the longest run is right for any list of nodes. -/

/-- The longest run of free pages in the node at an address. -/
def MmapState.longestRunAt (st : MmapState) (a : Nat) : Nat :=
  (st.nodes a).elim 0 fun node => Lib.longestRun node.freePages.get (node.size / PAGE_SIZE)

theorem le_longestRunAt {st : MmapState} {a n : Nat} (hn : 0 < n) : n ≤ st.longestRunAt a ↔ st.HasRunAt a n := by
  unfold MmapState.longestRunAt MmapState.HasRunAt
  cases st.nodes a with
  | none =>
    simp only [Option.elim_none, reduceCtorEq, false_and, exists_false, iff_false]
    omega
  | some node => simp only [Option.elim_some, Option.some.injEq, exists_eq_left', Lib.le_longestRun]

theorem le_foldr_max {l : List Nat} {n : Nat} (hn : 0 < n) : n ≤ l.foldr max 0 ↔ ∃ m ∈ l, n ≤ m := by
  induction l with
  | nil => simp [Nat.not_le.2 hn]
  | cons m l ih => simp only [List.foldr_cons, le_max_iff, ih, List.mem_cons, exists_eq_or_imp]

/-- What the figure says determines it. -/
theorem LongestRun.eq {f : Nat} {runs : Nat → Prop} (h : LongestRun f runs) {m : Nat} (hm : LongestRun m runs) :
    f = m := by
  refine Nat.le_antisymm ?_ ?_
  · rcases Nat.eq_zero_or_pos f with rfl | hpos
    · exact Nat.zero_le m
    · exact (hm f hpos).2 ((h f hpos).1 le_rfl)
  · rcases Nat.eq_zero_or_pos m with rfl | hpos
    · exact Nat.zero_le f
    · exact (h m hpos).2 ((hm m hpos).1 le_rfl)

/-- Without the null there are fewer addresses. -/
theorem length_lt_of_nodup {l : List Nat} {n : Nat} (hnodup : l.Nodup) (hnull : 0 ∉ l) (hn : 0 < n)
    (hlt : ∀ a ∈ l, a < n) : l.length < n := by
  have hsub : l.toFinset ⊆ Finset.Ico 1 n := by
    intro a ha
    rw [List.mem_toFinset] at ha
    rw [Finset.mem_Ico]
    exact ⟨Nat.pos_of_ne_zero (ne_of_mem_of_not_mem ha hnull), hlt a ha⟩
  have hcard := Finset.card_le_card hsub
  rw [List.toFinset_card_of_nodup hnodup, Nat.card_Ico] at hcard
  omega

/-- **The largest free run.** For any list of heaps, each of at least one and fewer than `2 ^ 31` pages, and any
contents of their bitmaps, `mmap_heap_get_stats` returns, no assertion fails, and `largest_free` is the longest run of
set bits in one of the heaps, in bytes. -/
theorem mmapHeapGetStats_largestFree {st : MmapState} {addrs : List Nat}
    (hlist : st.links.Spells 0 st.mmapNodeList addrs) (haddrs : ∀ a ∈ addrs, a < 18446744073709551616)
    (hnodes : ∀ a ∈ addrs, ∃ node, st.nodes a = some node ∧ 0 < node.size / PAGE_SIZE ∧
      node.size / PAGE_SIZE < 2147483648 ∧ node.size / PAGE_SIZE ≤ 64 * node.freePages.length) :
    ∃ stats, memIoctl st .heapGetStats = .ok (0, some stats, st) ∧
      stats.largestFree = PAGE_SIZE * (addrs.map st.longestRunAt).foldr max 0 := by
  have hnone : LongestRun 0 fun _ => False := fun n hn => iff_of_false (by omega) id
  have hcountable : ∀ a ∈ addrs, ∃ node, st.nodes a = some node ∧ node.Countable := by
    intro a ha
    obtain ⟨node, hnode, hpos, hlt, hbits⟩ := hnodes a ha
    exact ⟨node, hnode, hpos, by omega, hbits⟩
  obtain ⟨f, hvisit, hf⟩ := visit_stats hcountable hnone (by decide : 0 < 18446744073709551616)
  have hmax : f = (addrs.map st.longestRunAt).foldr max 0 := by
    refine hf.eq fun n hn => (le_foldr_max hn).trans ?_
    refine Iff.trans ?_ (or_iff_right id).symm
    constructor
    · rintro ⟨m, hm, hle⟩
      obtain ⟨a, ha, rfl⟩ := List.mem_map.1 hm
      exact ⟨a, ha, (le_longestRunAt hn).1 hle⟩
    · rintro ⟨a, ha, hrun⟩
      exact ⟨_, List.mem_map_of_mem ha, (le_longestRunAt hn).2 hrun⟩
  -- the longest run fits a heap
  have hsmall : f < 2147483648 := by
    rcases Nat.eq_zero_or_pos f with rfl | hpos
    · decide
    · obtain ⟨a, ha, node, hnode, p, hp, -⟩ := ((hf f hpos).1 le_rfl).resolve_left id
      obtain ⟨node', hnode', -, hlt, -⟩ := hnodes a ha
      obtain rfl := Option.some.inj (hnode.symm.trans hnode')
      omega
  have hbytes : u64 (f * PAGE_SIZE) = PAGE_SIZE * (addrs.map st.longestRunAt).foldr max 0 := by
    rw [← hmax, Nat.mul_comm]
    unfold PAGE_SIZE
    exact u64_of_lt (by omega)
  refine ⟨⟨1, st.mmapTotalSize, u64 (st.mmapAllocSize + sub64 st.curBrk st.brkBase),
    u64 (0 + (addrs.map st.metaAt).sum), u64 (f * PAGE_SIZE)⟩, ?_, hbytes⟩
  have hstats : mmapHeapGetStats st = .ok (0, ⟨1, st.mmapTotalSize, u64 (st.mmapAllocSize + sub64 st.curBrk st.brkBase),
      u64 (0 + (addrs.map st.metaAt).sum), u64 (f * PAGE_SIZE)⟩) := by
    unfold mmapHeapGetStats
    rw [loopList_eq _ hlist (length_lt_of_nodup hlist.nodup hlist.null (by decide) haddrs), hvisit, ok_bind]
    rfl
  unfold memIoctl
  dsimp only
  rw [hstats, ok_bind]
  rfl

/-- Three heaps, of 66 pages, one page and three. -/
def threeHeaps : MmapState where
  nodes := fun a =>
    if a = 4096 then some ⟨4096, 270336, [3#64], [18446744073709551614#64, 3#64], 4096⟩
    else if a = 8192 then some ⟨8192, 4096, [0#64], [0#64], 4096⟩
    else if a = 12288 then some ⟨12288, 12288, [1#64], [7#64], 4096⟩
    else none
  links := ⟨fun a => if a = 4096 then 8192 else if a = 8192 then 12288 else 0,
    fun a => if a = 4096 then 12288 else if a = 8192 then 4096 else 8192⟩
  mmapNodeList := 4096
  mmapBrkNode := 0
  mmapTotalSize := 0
  mmapAllocSize := 0
  brkBase := 0
  brkTop := 0
  curBrk := 0

/-- The longest run goes over the end of a word. -/
theorem mmapHeapGetStats_largestFree_threeHeaps : ∃ stats,
    memIoctl threeHeaps .heapGetStats = .ok (0, some stats, threeHeaps) ∧ stats.largestFree = 65 * 4096 := by
  have hlist : threeHeaps.links.Spells 0 threeHeaps.mmapNodeList [4096, 8192, 12288] :=
    ⟨rfl, ⟨rfl, rfl, rfl, rfl, rfl, rfl, trivial⟩, by decide, by decide⟩
  obtain ⟨stats, hrun, hlargest⟩ := mmapHeapGetStats_largestFree hlist (by decide) (by
    intro a ha
    simp only [List.mem_cons, List.not_mem_nil, or_false] at ha
    rcases ha with rfl | rfl | rfl
    · exact ⟨_, rfl, by decide, by decide, by decide⟩
    · exact ⟨_, rfl, by decide, by decide, by decide⟩
    · exact ⟨_, rfl, by decide, by decide, by decide⟩)
  refine ⟨stats, hrun, hlargest.trans ?_⟩
  decide +kernel

/-! ## Conservation -/

/-- The number of set bits. -/
def Bitmap.count (bitmap : Bitmap) : Nat := (List.range (64 * bitmap.length)).countP bitmap.get

/-- The number of free pages in the bitmaps of the heaps. -/
def MmapState.freeCount (st : MmapState) (heaps : List Range) : Nat :=
  (heaps.map fun h => (st.nodes h.base).elim 0 fun node => node.freePages.count).sum

/-- The free pages, each as a range. -/
def MmapState.freeRanges (st : MmapState) (heaps : List Range) : List Range :=
  heaps.flatMap fun h =>
    ((List.range (h.size / PAGE_SIZE)).filter (st.pageFree h)).map fun p => pageRange h p 1

theorem mem_freeRanges {st : MmapState} {heaps : List Range} {r : Range} :
    r ∈ st.freeRanges heaps ↔
      ∃ h ∈ heaps, ∃ p < h.size / PAGE_SIZE, st.pageFree h p = true ∧ pageRange h p 1 = r := by
  unfold MmapState.freeRanges
  simp only [List.mem_flatMap, List.mem_map, List.mem_filter, List.mem_range, and_assoc]

/-- The bits behind the last page are clear. -/
theorem countP_range_eq {f : Nat → Bool} {n m : Nat} (hle : n ≤ m) (h : ∀ k, n ≤ k → f k = false) :
    (List.range m).countP f = (List.range n).countP f := by
  obtain ⟨k, rfl⟩ := Nat.exists_eq_add_of_le hle
  rw [List.range_add, List.countP_append, Nat.add_eq_left, List.countP_eq_zero]
  intro a ha
  obtain ⟨b, -, rfl⟩ := List.mem_map.1 ha
  rw [h (n + b) (Nat.le_add_right n b)]
  decide

section

variable {s : Sys} (hi : Inv s)

include hi

theorem Inv.covers_freeRanges (x : Nat) : Covers (s.st.freeRanges s.heaps) x ↔ s.Free x := by
  constructor
  · rintro ⟨r, hr, hx⟩
    obtain ⟨h, hh, p, hp, hset, rfl⟩ := mem_freeRanges.1 hr
    obtain ⟨node, hnode, hof⟩ := hi.node h hh
    rw [pageFree_eq hnode] at hset
    refine hi.run_free hh hof (n := 1) (p := p) (fun k hk => ?_) hp x hx
    rw [show k = 0 by omega]
    exact hset
  · intro hx
    obtain ⟨q, hq, hxq⟩ := hx.1
    obtain ⟨h, hh, rfl⟩ := List.mem_map.1 hq
    obtain ⟨node, hnode, hof⟩ := hi.node h hh
    have hok := hi.heap h hh
    have hxh := hok.payload_inside.mem hxq
    obtain ⟨hp, hpage⟩ := page_eq hok.paged hxh
    refine ⟨_, mem_freeRanges.2 ⟨h, hh, (x - h.base) / 4096, hp, ?_, rfl⟩, ?_⟩
    · rw [pageFree_eq hnode]
      exact (hof.get_iff hi hh hxh).2 hx
    · rw [← (pageRange_paged hok.paged _ _).mem_iff, ← hpage, mem_pageRange]
      exact ⟨le_rfl, Nat.lt_succ_self _⟩

theorem Inv.freeRanges_pairwise : (s.st.freeRanges s.heaps).Pairwise Range.Apart := by
  refine List.pairwise_flatMap.2 ⟨fun h hh => ?_, ?_⟩
  · refine List.pairwise_map.2 ((List.pairwise_lt_range.filter _).imp ?_)
    intro p q hpq
    unfold Range.Apart pageRange Range.stop PAGE_SIZE
    dsimp only
    omega
  · refine hi.apart.imp ?_
    intro h g hapart r hr q hq
    obtain ⟨p, hp, rfl⟩ := List.mem_map.1 hr
    obtain ⟨p', hp', rfl⟩ := List.mem_map.1 hq
    have hin : ∀ {k : Range} {j : Nat}, j ∈ (List.range (k.size / PAGE_SIZE)).filter (s.st.pageFree k) →
        (pageRange k j 1).Inside k :=
      fun hj => pageRange_inside (List.mem_range.1 (List.mem_filter.1 hj).1)
    exact ((hapart.of_inside (hin hp)).symm.of_inside (hin hp')).symm

theorem Inv.total_freeRanges : Lib.total (s.st.freeRanges s.heaps) = PAGE_SIZE * s.st.freeCount s.heaps := by
  have hheap : ∀ h ∈ s.heaps, Lib.total
      (((List.range (h.size / PAGE_SIZE)).filter (s.st.pageFree h)).map fun p => pageRange h p 1) =
      PAGE_SIZE * (s.st.nodes h.base).elim 0 fun node => node.freePages.count := by
    intro h hh
    obtain ⟨node, hnode, hof⟩ := hi.node h hh
    obtain ⟨hin, -⟩ := pageWords_spec (hi.heap h hh).pages_le
    have hcount : node.freePages.count =
        ((List.range (h.size / PAGE_SIZE)).filter node.freePages.get).length := by
      unfold Bitmap.count
      rw [countP_range_eq (n := h.size / PAGE_SIZE) (by rw [hof.pages]; exact hin), List.countP_eq_length_filter]
      intro k hk
      rw [Bool.eq_false_iff, Ne, hof.get]
      exact fun hlt => absurd hlt.1 (not_lt.2 hk)
    have hsum : ∀ l : List Nat, Lib.total (l.map fun p => pageRange h p 1) = PAGE_SIZE * l.length := by
      intro l
      induction l with
      | nil => rfl
      | cons p l ih =>
        rw [List.map_cons, Lib.total_cons, ih, List.length_cons]
        show 1 * PAGE_SIZE + PAGE_SIZE * l.length = PAGE_SIZE * (l.length + 1)
        ring
    rw [hsum, hnode, pageFree_eq hnode]
    show _ = PAGE_SIZE * node.freePages.count
    rw [hcount]
  unfold MmapState.freeRanges MmapState.freeCount
  generalize hheaps : s.heaps = heaps at *
  clear hheaps
  induction heaps with
  | nil => rfl
  | cons h m ih =>
    rw [List.flatMap_cons, Lib.total_append, hheap h List.mem_cons_self, List.map_cons, List.sum_cons,
      ih fun g hg => hheap g (List.mem_cons_of_mem _ hg), Nat.mul_add]

/-! ### What the heaps are shared out to -/

theorem Inv.metadata_off_payload {x : Nat} (hx : Covers (s.heaps.map metadata) x) {g : Range}
    (hg : g ∈ s.heaps) : x ∉ payload g := by
  obtain ⟨r, hr, hxr⟩ := hx
  obtain ⟨h, hh, rfl⟩ := List.mem_map.1 hr
  exact fun hxg => (hi.metadata_apart hh hg ⟨le_rfl, le_rfl⟩).not_mem hxr hxg

theorem Inv.live_in_payload {x : Nat} (hx : Covers s.live x) :
    x ∉ s.st.brkArea ∧ ∃ g ∈ s.heaps, x ∈ payload g := by
  obtain ⟨r, hr, hxr⟩ := hx
  obtain ⟨g, hg, hin⟩ := (hi.live r hr).inside
  exact ⟨(hi.live r hr).off_brk x hxr, g, hg, hin.mem hxr⟩

theorem Inv.brk_in_payload {x : Nat} (hx : x ∈ s.st.brkArea) : ∃ g ∈ s.heaps, x ∈ payload g := by
  obtain ⟨g, hg, hin⟩ := hi.brkArea_inside
  exact ⟨g, hg, hin.mem hx⟩

/-- Metadata, mappings, the break and the free pages. -/
def Sys.shares (s : Sys) : List (List Range) :=
  [s.heaps.map metadata, s.live, [s.st.brkArea], s.st.freeRanges s.heaps]

theorem Inv.share_pairwise {M : List Range} (hM : M ∈ s.shares) : M.Pairwise Range.Apart := by
  unfold Sys.shares at hM
  simp only [List.mem_cons, List.not_mem_nil, or_false] at hM
  rcases hM with rfl | rfl | rfl | rfl
  · refine List.pairwise_map.2 (hi.apart.imp_of_mem fun hh hg hapart => ?_)
    have hmeta := hapart.of_inside (hi.heap _ hh).metadata_inside
    exact (hmeta.symm.of_inside (hi.heap _ hg).metadata_inside).symm
  · exact hi.liveApart
  · exact List.pairwise_singleton _ _
  · exact hi.freeRanges_pairwise

/-- No byte has two uses. -/
theorem Inv.shares_disjoint : s.shares.Pairwise fun M N => ∀ x, Covers M x → ¬ Covers N x := by
  unfold Sys.shares
  simp only [List.pairwise_cons, List.mem_cons, List.not_mem_nil, or_false, forall_eq_or_imp, forall_eq,
    Lib.covers_cons, Lib.covers_nil, hi.covers_freeRanges, IsEmpty.forall_iff, implies_true,
    List.Pairwise.nil, and_true]
  refine ⟨⟨fun x hx hl => ?_, fun x hx hb => ?_, fun x hx hf => ?_⟩,
    ⟨fun x hl => (hi.live_in_payload hl).1, fun x hl hf => hf.2.1 hl⟩, fun x hb hf => hf.2.2 hb⟩
  · obtain ⟨-, g, hg, hxg⟩ := hi.live_in_payload hl
    exact hi.metadata_off_payload hx hg hxg
  · obtain ⟨g, hg, hxg⟩ := hi.brk_in_payload hb
    exact hi.metadata_off_payload hx hg hxg
  · obtain ⟨r, hr, hxr⟩ := hf.1
    obtain ⟨g, hg, rfl⟩ := List.mem_map.1 hr
    exact hi.metadata_off_payload hx hg hxr

/-- Every byte of the heaps has one, and no other byte has. -/
theorem Inv.covers_shares (x : Nat) : Covers s.heaps x ↔ ∃ M ∈ s.shares, Covers M x := by
  unfold Sys.shares
  simp only [List.mem_cons, List.not_mem_nil, or_false, exists_eq_or_imp, exists_eq_left,
    Lib.covers_cons, Lib.covers_nil, hi.covers_freeRanges]
  constructor
  · rintro ⟨h, hh, hx⟩
    by_cases hl : Covers s.live x
    · exact .inr (.inl hl)
    by_cases hb : x ∈ s.st.brkArea
    · exact .inr (.inr (.inl hb))
    by_cases hpay : x ∈ payload h
    · exact .inr (.inr (.inr ⟨⟨_, List.mem_map_of_mem hh, hpay⟩, hl, hb⟩))
    · exact .inl ⟨_, List.mem_map_of_mem hh, ((hi.heap h hh).mem_iff.1 hx).resolve_right hpay⟩
  · have hpayload : (∃ g ∈ s.heaps, x ∈ payload g) → Covers s.heaps x := by
      rintro ⟨g, hg, hxg⟩
      exact ⟨g, hg, (hi.heap g hg).payload_inside.mem hxg⟩
    rintro (⟨r, hr, hx⟩ | hl | hb | hf)
    · obtain ⟨h, hh, rfl⟩ := List.mem_map.1 hr
      exact ⟨h, hh, (hi.heap h hh).metadata_inside.mem hx⟩
    · exact hpayload (hi.live_in_payload hl).2
    · exact hpayload (hi.brk_in_payload hb)
    · obtain ⟨r, hr, hxr⟩ := hf.1
      obtain ⟨g, hg, rfl⟩ := List.mem_map.1 hr
      exact hpayload ⟨g, hg, hxr⟩

/-- **The heaps are shared out** between metadata, mappings, the break and the free pages. -/
theorem Inv.conservation : Lib.total s.heaps = Lib.total (s.heaps.map metadata) + Lib.total s.live +
    (s.st.brkTop - s.st.brkBase) + PAGE_SIZE * s.st.freeCount s.heaps := by
  rw [Lib.total_eq_sum hi.apart (fun M hM => hi.share_pairwise hM) hi.shares_disjoint hi.covers_shares]
  unfold Sys.shares
  simp only [List.map_cons, List.map_nil, List.sum_cons, List.sum_nil, Lib.total_cons, Lib.total_nil,
    hi.total_freeRanges]
  show _ + (_ + (s.st.brkTop - s.st.brkBase + 0 + _)) = _
  omega

/-- What the statistics say. -/
structure StatsOk (s : Sys) (stats : AllocatorStats) : Prop where
  total : stats.total = Lib.total s.heaps
  reserved : stats.reserved = Lib.total (s.heaps.map metadata)
  allocated : stats.allocated = Lib.total s.live + (s.st.curBrk - s.st.brkBase)
  conserved : stats.total = stats.reserved + stats.allocated + PAGE_SIZE * s.st.freeCount s.heaps +
    (s.st.brkTop - s.st.curBrk)
  /-- As many pages in a row are free as the figure says, and no more. -/
  largestFree : ∀ n, 0 < n → (n * PAGE_SIZE ≤ stats.largestFree ↔ s.st.HasRun s.heaps n)

/-- **The statistics.** -/
theorem Inv.stats : ∃ stats, mmapHeapGetStats s.st = .ok (0, stats) ∧ StatsOk s stats := by
  have hcons := hi.conservation
  have hlt := hi.total_lt
  obtain ⟨k, hk, hb⟩ := hi.brk
  have hle₁ := hb.base_le
  have hle₂ := hb.cur_le
  have htop := hb.top_le
  have hfits := (hi.heap k hk).fits
  unfold Range.stop at htop
  obtain ⟨f, hvisit, hruns⟩ := hi.visit_stats (by omega)
  -- the longest run fits a heap
  have hf_lt : f * PAGE_SIZE < 18446744073709551616 := by
    rcases Nat.eq_zero_or_pos f with rfl | hpos
    · decide
    · obtain ⟨h, hh, p, hp, -⟩ := (hruns f hpos).1 le_rfl
      have hh_fits := (hi.heap h hh).fits
      unfold PAGE_SIZE at hp ⊢
      omega
  have hlen : (s.heaps.map Range.base).length < 18446744073709551616 := by
    rw [List.length_map]
    exact hi.length_lt
  have halloc : u64 (s.st.mmapAllocSize + sub64 s.st.curBrk s.st.brkBase) =
      Lib.total s.live + (s.st.curBrk - s.st.brkBase) := by
    rw [hi.allocSize, sub64_of_le hle₁ (by omega), u64_of_lt (by omega)]
  refine ⟨⟨1, Lib.total s.heaps, Lib.total s.live + (s.st.curBrk - s.st.brkBase),
    Lib.total (s.heaps.map metadata), f * PAGE_SIZE⟩, ?_, rfl, rfl, rfl, ?_, fun n hn => ?_⟩
  · unfold mmapHeapGetStats
    rw [loopList_eq _ hi.chain hlen, hvisit, ok_bind]
    dsimp only
    rw [halloc, u64_of_lt hf_lt, hi.totalSize]
    rfl
  · dsimp only
    omega
  · rw [← hruns n hn]
    exact Nat.mul_le_mul_right_iff (by decide)

theorem Inv.ioctl_stats :
    ∃ stats, memIoctl s.st .heapGetStats = .ok (0, some stats, s.st) ∧ StatsOk s stats := by
  obtain ⟨stats, hrun, hok⟩ := hi.stats
  refine ⟨stats, ?_, hok⟩
  unfold memIoctl
  dsimp only
  rw [hrun]
  rfl

/-- `IOCTL_HEAP_GET_STATS` changes nothing. -/
theorem Inv.step_stats : s.step (.ioctl .heapGetStats) = .ok s := by
  obtain ⟨stats, hrun, -⟩ := hi.ioctl_stats
  unfold Sys.step
  dsimp only
  rw [hrun]
  rfl

end

end GunyahRuntime
