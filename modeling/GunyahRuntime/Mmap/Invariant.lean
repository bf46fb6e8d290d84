/-
# GunyahRuntime.Mmap.Invariant -- what the invariant gives

Consequences of `Inv` that every request uses: an address lies in one heap at most; the loop over the
nodes runs through the heaps in order (`Inv.findNode`); a `memset` behind the metadata leaves the nodes
alone (`Inv.zeroed_nodes`); and a new state keeps the invariant if its nodes hold the pages that ought to
be free in it.
-/
import GunyahRuntime.Mmap.System

namespace GunyahRuntime

open Lib (Range Covers)

section

variable {s : Sys} (hi : Inv s)

include hi

theorem Inv.total_lt : Lib.total s.heaps < 18446744073709551616 := by
  have hle := Lib.total_le_of_stop hi.apart (n := 18446744073709551615) fun h hh => by
    have hfits := (hi.heap h hh).fits
    unfold Range.stop
    omega
  omega

theorem Inv.heap_pos {h : Range} (hh : h ∈ s.heaps) : 0 < h.size := by
  have hroom := (hi.heap h hh).room
  omega

theorem Inv.length_lt : s.heaps.length < 18446744073709551616 :=
  (Lib.length_le_total fun _ hh => hi.heap_pos hh).trans_lt hi.total_lt

theorem Inv.base_mem {h : Range} (hh : h ∈ s.heaps) : h.base ∈ h :=
  ⟨le_rfl, Nat.lt_add_of_pos_right (hi.heap_pos hh)⟩

/-- An address lies in one heap at most. -/
theorem Inv.heap_unique {h g : Range} (hh : h ∈ s.heaps) (hg : g ∈ s.heaps) {x : Nat} (hx : x ∈ h)
    (hx' : x ∈ g) : h = g := Lib.eq_of_mem hi.apart hh hg hx hx'

theorem Inv.base_inj {h g : Range} (hh : h ∈ s.heaps) (hg : g ∈ s.heaps) (hb : h.base = g.base) :
    h = g := hi.heap_unique hh hg (hi.base_mem hh) (hb ▸ hi.base_mem hg)

/-- In a heap, its own payload decides. -/
theorem Inv.covers_payload {h : Range} (hh : h ∈ s.heaps) {x : Nat} (hx : x ∈ h) :
    Covers (s.heaps.map payload) x ↔ x ∈ payload h := by
  constructor
  · rintro ⟨r, hr, hxr⟩
    obtain ⟨g, hg, rfl⟩ := List.mem_map.1 hr
    obtain rfl := hi.heap_unique hh hg hx ((hi.heap g hg).payload_inside.mem hxr)
    exact hxr
  · exact fun hxr => ⟨_, List.mem_map_of_mem hh, hxr⟩

/-- A page of a heap. -/
theorem Inv.page_mem {h : Range} (hh : h ∈ s.heaps) {p : Nat} (hp : p < h.size / 4096) :
    h.base + 4096 * p ∈ h := by
  obtain ⟨-, hsize⟩ := (hi.heap h hh).paged
  rw [Range.mem_iff, Range.stop]
  omega

/-- Ranges inside heaps, apart from each other, fit a counter together. -/
theorem Inv.inside_total_lt {L : List Range} (hL : L.Pairwise Range.Apart)
    (h : ∀ q ∈ L, ∃ g ∈ s.heaps, q.Inside g) : Lib.total L < 18446744073709551616 := by
  have hle := Lib.total_le_of_stop hL (n := 18446744073709551615) fun q hq => by
    obtain ⟨g, hg, hin⟩ := h q hq
    have hfits := (hi.heap g hg).fits
    have hstop := hin.2
    unfold Range.stop at hstop ⊢
    omega
  omega

theorem Inv.live_inside {r : Range} (hr : r ∈ s.live) : ∃ h ∈ s.heaps, r.Inside h := by
  obtain ⟨h, hh, hin⟩ := (hi.live r hr).inside
  exact ⟨h, hh, hin.trans (hi.heap h hh).payload_inside⟩

theorem Inv.alloc_lt : s.st.mmapAllocSize < 18446744073709551616 := by
  rw [hi.allocSize]
  exact hi.inside_total_lt hi.liveApart fun _ hr => hi.live_inside hr

/-- The node found at the base of a heap. -/
theorem Inv.node_of {h : Range} (hh : h ∈ s.heaps) {node : MmapNode}
    (hnode : s.st.nodes h.base = some node) : NodeOf s.Free h node := by
  obtain ⟨node', hnode', hn⟩ := hi.node h hh
  obtain rfl := Option.some.inj (hnode.symm.trans hnode')
  exact hn

end

/-! ## The loop over the nodes -/

/-- What a test has for a result at an address: none, where no node stands. -/
def MmapState.testAt {β : Type} (st : MmapState) (test : Nat → MmapNode → Exec (Option β)) (a : Nat) : Option β :=
  (st.nodes a).bind fun node => (test a node).toOption.join

theorem MmapState.testAt_eq {β : Type} {st : MmapState} {test : Nat → MmapNode → Exec (Option β)} {a : Nat}
    {node : MmapNode} {r : Option β} (hnode : st.nodes a = some node) (hr : test a node = .ok r) :
    st.testAt test a = r := by
  rw [testAt, hnode, Option.bind_some, hr]
  cases r <;> rfl

section

variable {s : Sys} (hi : Inv s)

include hi

/-- The loop over the nodes is a search of the heaps. -/
theorem Inv.findNode_eq {β : Type} {test : Nat → MmapNode → Exec (Option β)}
    (htest : ∀ h ∈ s.heaps, ∀ node, s.st.nodes h.base = some node → ∃ r, test h.base node = .ok r) :
    s.st.findNode test = .ok (s.heaps.findSome? (s.st.testAt test ∘ Range.base)) := by
  have hbody : ∀ a ∈ s.heaps.map Range.base,
      s.st.findBody test () a = .ok ((s.st.testAt test a).elim (.inl ()) .inr) := by
    intro a ha
    obtain ⟨h, hh, rfl⟩ := List.mem_map.1 ha
    obtain ⟨node, hnode, -⟩ := hi.node h hh
    obtain ⟨r, hr⟩ := htest h hh node hnode
    have hload : s.st.loadNode h.base = .ok node := by rw [MmapState.loadNode, hnode]
    unfold MmapState.findBody
    rw [hload, ok_bind, hr, ok_bind, MmapState.testAt_eq hnode hr]
    cases r <;> rfl
  have hlen : (s.heaps.map Range.base).length < 18446744073709551616 := by
    rw [List.length_map]
    exact hi.length_lt
  unfold MmapState.findNode
  rw [loopList_eq _ hi.chain hlen, visit_search hbody, ok_bind, List.findSome?_map]
  cases List.findSome? (s.st.testAt test ∘ Range.base) s.heaps <;> rfl

/-- The loop over the nodes finds the first heap for which the test has a result. -/
theorem Inv.findNode {β : Type} {test : Nat → MmapNode → Exec (Option β)}
    (htest : ∀ h ∈ s.heaps, ∀ node, s.st.nodes h.base = some node → ∃ r, test h.base node = .ok r) :
    (s.st.findNode test = .ok none ∧
        ∀ h ∈ s.heaps, ∀ node, s.st.nodes h.base = some node → test h.base node = .ok none) ∨
      ∃ l h m node b, s.heaps = l ++ h :: m ∧ s.st.nodes h.base = some node ∧
        test h.base node = .ok (some b) ∧ s.st.findNode test = .ok (some b) ∧
        ∀ g ∈ l, ∀ node, s.st.nodes g.base = some node → test g.base node = .ok none := by
  have hresult : ∀ h ∈ s.heaps, ∀ node, s.st.nodes h.base = some node →
      test h.base node = .ok (s.st.testAt test h.base) := by
    intro h hh node hnode
    obtain ⟨r, hr⟩ := htest h hh node hnode
    rw [hr, MmapState.testAt_eq hnode hr]
  have hfind := hi.findNode_eq htest
  cases hsome : s.heaps.findSome? (s.st.testAt test ∘ Range.base) with
  | none =>
    rw [hsome] at hfind
    refine .inl ⟨hfind, fun h hh node hnode => ?_⟩
    rw [hresult h hh node hnode]
    exact congrArg Except.ok (List.findSome?_eq_none_iff.1 hsome h hh)
  | some b =>
    rw [hsome] at hfind
    obtain ⟨l, h, m, hsplit, hb, hbefore⟩ := List.findSome?_eq_some_iff.1 hsome
    have hh : h ∈ s.heaps := by simp [hsplit]
    obtain ⟨node, hnode, -⟩ := hi.node h hh
    have hrun := (hresult h hh node hnode).trans (congrArg Except.ok hb)
    refine .inr ⟨l, h, m, node, b, hsplit, hnode, hrun, hfind, fun g hg node' hnode' => ?_⟩
    rw [hresult g (by simp [hsplit, hg]) node' hnode']
    exact congrArg Except.ok (hbefore g hg)

end

/-! ## Zeroing memory -/

section

variable {st : MmapState} {lo len a : Nat}

/-- A node whose object the `memset` does not touch. -/
theorem zeroed_nodes {node : MmapNode} (hnode : st.nodes a = some node)
    (h : (node.object a).Apart ⟨lo, len⟩) : (st.zeroed lo len).nodes a = some node := by
  have hmiss : ¬ ((node.object a).base < lo + len ∧ lo < (node.object a).stop) := by
    unfold Range.Apart Range.stop at h
    unfold Range.stop
    dsimp only at h ⊢
    omega
  unfold MmapState.zeroed
  dsimp only
  rw [hnode, Option.filter_some, decide_eq_false hmiss]
  rfl

theorem zeroed_links (h : (⟨a, MMAP_NODE_SIZE⟩ : Range).Apart ⟨lo, len⟩) :
    (st.zeroed lo len).links.next a = st.links.next a ∧
      (st.zeroed lo len).links.prev a = st.links.prev a := by
  have hmiss : ¬ (a < lo + len ∧ lo < (⟨a, MMAP_NODE_SIZE⟩ : Range).stop) := by
    unfold Range.Apart Range.stop at h
    unfold Range.stop
    dsimp only at h ⊢
    omega
  unfold MmapState.zeroed
  dsimp only
  exact ⟨if_neg (by simpa using hmiss), if_neg (by simpa using hmiss)⟩

end

/-- The live mappings after a request that kept their heaps and did not move the break over them. -/
theorem LiveOk.mono {s s' : Sys} {r : Range} (h : LiveOk s r)
    (hheaps : ∀ g ∈ s.heaps, r.Inside (payload g) → g ∈ s'.heaps)
    (hbrk : s'.st.brkArea.Inside s.st.brkArea) : LiveOk s' r where
  paged := h.paged
  pos := h.pos
  inside := by
    obtain ⟨g, hg, hin⟩ := h.inside
    exact ⟨g, hheaps g hg hin, hin⟩
  off_brk := fun x hx hx' => h.off_brk x hx (hbrk.mem hx')

/-- Whether a page ought to be free matters for the pages of the heap only. -/
theorem NodeOf.congr {free free' : Nat → Prop} {h : Range} {node : MmapNode} (hn : NodeOf free h node)
    (hfree : ∀ p < h.size / 4096, free' (h.base + 4096 * p) ↔ free (h.base + 4096 * p)) :
    NodeOf free' h node :=
  { hn with get := fun p => (hn.get p).trans (and_congr_right fun hp => (hfree p hp).symm) }

/-- A `memset` behind the metadata of every heap leaves the list alone. -/
theorem zeroed_chain {st : MmapState} {heaps : List Range} {lo len : Nat}
    (hok : ∀ h ∈ heaps, HeapOk h) (hap : ∀ h ∈ heaps, (metadata h).Apart ⟨lo, len⟩)
    (hchain : st.links.Spells 0 st.mmapNodeList (heaps.map Range.base)) :
    (st.zeroed lo len).links.Spells 0 st.mmapNodeList (heaps.map Range.base) := by
  have hlinks : ∀ a ∈ heaps.map Range.base,
      (st.zeroed lo len).links.next a = st.links.next a ∧
        (st.zeroed lo len).links.prev a = st.links.prev a := by
    intro a ha
    obtain ⟨h, hh, rfl⟩ := List.mem_map.1 ha
    obtain ⟨-, hsize, -⟩ := metaSizeAlign_spec (hok h hh).small
    refine zeroed_links ((hap h hh).of_inside ⟨le_rfl, ?_⟩)
    show h.base + MMAP_NODE_SIZE ≤ h.base + metaSizeAlign h.size
    exact Nat.add_le_add_left (le_of_add_le_left hsize) _
  exact hchain.congr (fun a ha => (hlinks a ha).1) fun a ha => (hlinks a ha).2

/-- A `memset` behind the metadata of a heap leaves its node alone. -/
theorem NodeOf.zeroed {free : Nat → Prop} {st : MmapState} {h : Range} {node : MmapNode} {lo len : Nat}
    (hn : NodeOf free h node) (hok : HeapOk h) (hap : (metadata h).Apart ⟨lo, len⟩)
    (hnode : st.nodes h.base = some node) : (st.zeroed lo len).nodes h.base = some node :=
  zeroed_nodes hnode (hap.of_inside (hn.object_inside hok))

section

variable {s : Sys} (hi : Inv s)

include hi

/-- The metadata of a heap is apart from what lies in the payload of a heap. -/
theorem Inv.metadata_apart {h g r : Range} (hh : h ∈ s.heaps) (hg : g ∈ s.heaps)
    (hr : r.Inside (payload g)) : (metadata h).Apart r := by
  by_cases heq : h = g
  · subst heq
    exact ((GunyahRuntime.metadata_apart h).symm.of_inside hr).symm
  · have hapart : h.Apart g := hi.apart.forall hh hg heq
    have hmeta : (metadata h).Apart g := hapart.of_inside (hi.heap h hh).metadata_inside
    exact (hmeta.symm.of_inside (hr.trans (hi.heap g hg).payload_inside)).symm

/-- Live ranges are whole pages. -/
theorem Inv.live_page {x : Nat} : Covers s.live (x / 4096 * 4096) ↔ Covers s.live x :=
  covers_page fun r hr => (hi.live r hr).paged

/-- The area of the break is whole pages. -/
theorem Inv.brkArea_paged : Paged s.st.brkArea := by
  obtain ⟨h, hh, hb⟩ := hi.brk
  have hbase := hb.base
  have hpaged := (hi.heap h hh).payload_paged.1
  have htop := hb.top_paged
  have hle := hb.base_le.trans hb.cur_le
  rw [← hbase] at hpaged
  unfold Paged MmapState.brkArea
  dsimp only
  omega

/-- The area of the break lies in the payload of a heap. -/
theorem Inv.brkArea_inside : ∃ h ∈ s.heaps, s.st.brkArea.Inside (payload h) := by
  obtain ⟨h, hh, hb⟩ := hi.brk
  refine ⟨h, hh, hb.base.ge, ?_⟩
  have hle := hb.base_le.trans hb.cur_le
  have htop := hb.top_le
  rw [(hi.heap h hh).payload_stop]
  show s.st.brkBase + (s.st.brkTop - s.st.brkBase) ≤ h.stop
  omega

/-- What ought to be free is whole pages. -/
theorem Inv.free_page {h : Range} (hh : h ∈ s.heaps) {x : Nat} (hx : x ∈ h) :
    s.Free (x / 4096 * 4096) ↔ s.Free x := by
  have hx' : x / 4096 * 4096 ∈ h := (hi.heap h hh).paged.mem_iff.2 hx
  unfold Sys.Free
  rw [hi.covers_payload hh hx, hi.covers_payload hh hx', (hi.heap h hh).payload_paged.mem_iff,
    hi.live_page, hi.brkArea_paged.mem_iff]

end

/-- The page number of an address in a heap. -/
theorem page_eq {h : Range} (hh : Paged h) {x : Nat} (hx : x ∈ h) :
    (x - h.base) / 4096 < h.size / 4096 ∧ h.base + 4096 * ((x - h.base) / 4096) = x / 4096 * 4096 := by
  obtain ⟨h1, h2⟩ := hh
  rw [Range.mem_iff, Range.stop] at hx
  omega

/-- **A set bit is a free page**, read from an address. -/
theorem NodeOf.get_iff {s : Sys} (hi : Inv s) {h : Range} {node : MmapNode} (hn : NodeOf s.Free h node)
    (hh : h ∈ s.heaps) {x : Nat} (hx : x ∈ h) :
    node.freePages.get ((x - h.base) / 4096) = true ↔ s.Free x := by
  obtain ⟨hlt, heq⟩ := page_eq (hi.heap h hh).paged hx
  rw [hn.get, heq, hi.free_page hh hx]
  exact and_iff_right hlt

end GunyahRuntime
