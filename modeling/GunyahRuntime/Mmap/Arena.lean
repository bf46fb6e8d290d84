/-
# GunyahRuntime.Mmap.Arena -- what the allocator is for

An arena is what the application sees of the allocator: the heaps in the order in which they were added, what is mapped,
and the break. There are no bitmaps in it, no nodes and no list, no counters and no words of 32 or 64 bits. A page is free
if it lies behind the header of a heap, in no mapping and outside what the break may grow over; everything that the
allocator answers is said in terms of that.

`allocator_refines` is the other half: from `elf_setup` on, the allocator answers every list of allowed requests as the
arena does.
-/
import GunyahRuntime.Mmap.Service
import GunyahRuntime.Lib.Refine

namespace GunyahRuntime

open Lib (Range Covers)

/-! ## The arena -/

/-- Up to the next page. -/
def pageUp (x : Nat) : Nat := (x + (PAGE_SIZE - 1)) / PAGE_SIZE * PAGE_SIZE

/-- The bytes in front of the pages of a heap: the node, a bit for every page in words of 64, and a bit for every such
word, in whole pages. -/
def headerSize (size : Nat) : Nat :=
  let words := (size / PAGE_SIZE + 63) / 64
  pageUp (MMAP_NODE_SIZE + 8 * (words + (words + 63) / 64))

/-- The header of a heap, and the pages behind it. -/
def header (h : Range) : Range := ⟨h.base, headerSize h.size⟩
def body (h : Range) : Range := ⟨h.base + headerSize h.size, h.size - headerSize h.size⟩

/-- The heaps in order, what is mapped, the heap of the break, and the break with its limit. -/
structure Arena where
  heaps : List Range
  live : List Range
  home : Range
  cur : Nat
  top : Nat
  deriving DecidableEq

/-- What is answered to a request. -/
structure Reply where
  ret : Int
  stats : Option AllocatorStats
  deriving DecidableEq

namespace Arena

/-- An arena with one heap, where all pages are left to the break. -/
def start (h : Range) : Arena := ⟨[h], [], h, (body h).base, h.stop⟩

/-- What the break may grow over. -/
def growth (a : Arena) : Range := ⟨(body a.home).base, a.top - (body a.home).base⟩

/-- The addresses that nobody has. -/
def Free (a : Arena) (x : Nat) : Prop := Covers (a.heaps.map body) x ∧ ¬ Covers a.live x ∧ x ∉ a.growth

instance (a : Arena) (x : Nat) : Decidable (a.Free x) := inferInstanceAs (Decidable (_ ∧ _ ∧ _))

/-- The page of a heap is free. -/
def pageFree (a : Arena) (h : Range) (k : Nat) : Bool := k < h.size / PAGE_SIZE ∧ a.Free (h.base + PAGE_SIZE * k)

/-- The first free pages, from the first heap on. -/
def firstFit (a : Arena) (n : Nat) : Option Range :=
  a.heaps.findSome? fun h => (Lib.firstRun (a.pageFree h) (h.size / PAGE_SIZE) n).map (pageRange h · n)

/-- The most free pages in a row. -/
def longestRun (a : Arena) : Nat :=
  (a.heaps.map fun h => Lib.longestRun (a.pageFree h) (h.size / PAGE_SIZE)).foldr max 0

def stats (a : Arena) : AllocatorStats where
  info := 1
  total := Lib.total a.heaps
  allocated := Lib.total a.live + (a.cur - (body a.home).base)
  reserved := Lib.total (a.heaps.map header)
  largestFree := a.longestRun * PAGE_SIZE

/-- The break may be at the end of the page of an address. -/
def Fits (a : Arena) (brk : Nat) : Prop := (body a.home).base ≤ pageUp brk ∧ pageUp brk ≤ a.top

instance (a : Arena) (brk : Nat) : Decidable (a.Fits brk) := inferInstanceAs (Decidable (_ ∧ _))

def moveBrk (a : Arena) (brk : Nat) : Arena := if a.Fits brk then { a with cur := pageUp brk } else a

/-- The first free pages are mapped; or the highest that the break leaves; or none. -/
def map (a : Arena) (len : Nat) : Reply × Arena :=
  match a.firstFit (len / PAGE_SIZE) with
  | some r => (⟨toInt64 r.base, none⟩, { a with live := a.live ++ [r] })
  | none =>
    if len ≤ a.top - a.cur then
      (⟨toInt64 (a.top - len), none⟩, { a with live := a.live ++ [⟨a.top - len, len⟩], top := a.top - len })
    else (⟨-ENOMEM, none⟩, a)

/-- A heap can go if it is not the heap of the break and nothing is mapped in it. -/
def mayGo (a : Arena) (r : Range) : Int :=
  if r ∈ a.heaps ∧ r ≠ a.home then
    if ∀ q ∈ a.live, q.Apart (body r) then 0 else -EBUSY
  else -EINVAL

/-- A request to the device. -/
def ioctl (a : Arena) : MemIoctl → Reply × Arena
  | .addHeap r =>
    if memRangeIsValid r then
      if headerSize r.size < r.size then (⟨0, none⟩, { a with heaps := a.heaps ++ [r] })
      else (⟨-ENOMEM, none⟩, a)
    else (⟨-EINVAL, none⟩, a)
  | .removeHeap r => (⟨a.mayGo r, none⟩, if a.mayGo r = 0 then { a with heaps := a.heaps.erase r } else a)
  | .heapIsFree r => (⟨a.mayGo r, none⟩, a)
  | .heapGetStats => (⟨0, some a.stats⟩, a)
  | .other => (⟨-EINVAL, none⟩, a)

/-- A request. -/
def step (a : Arena) : Op → Reply × Arena
  | .brk brk => (⟨(a.moveBrk brk).cur, none⟩, a.moveBrk brk)
  | .mmap addr len prot flags fd off =>
    if mmapArgsOk addr len prot flags fd off then a.map len else (⟨-EINVAL, none⟩, a)
  | .munmap addr len =>
    if munmapArgsOk addr len ∧ ∃ h ∈ a.heaps, (⟨addr, len⟩ : Range).Inside h then
      (⟨0, none⟩, { a with live := Lib.cut a.live ⟨addr, len⟩ })
    else (⟨-EINVAL, none⟩, a)
  | .ioctl req => a.ioctl req

/-- What callers have to keep to: what is unmapped in a heap is mapped, and heaps are added apart from those there are, to
less than 2^43 bytes together. -/
def Allows (a : Arena) (op : Op) : Prop :=
  op.Typed ∧
    match op with
    | .munmap addr len => munmapArgsOk addr len = true → ∀ h ∈ a.heaps, (⟨addr, len⟩ : Range).Inside h →
        ∀ x ∈ (⟨addr, len⟩ : Range), Covers a.live x
    | .ioctl (.addHeap r) => memRangeIsValid r = true →
        (∀ h ∈ a.heaps, r.Apart h) ∧ Lib.total a.heaps + r.size < 8796093022208
    | _ => True

end Arena

/-! ## What a state stands for -/

/-- The arena of a state of the allocator. -/
structure Sys.Shows (s : Sys) (a : Arena) : Prop where
  inv : Inv s
  small : Lib.total s.heaps < 8796093022208
  heaps : s.heaps = a.heaps
  live : s.live = a.live
  home : a.home ∈ s.heaps
  brkNode : s.st.mmapBrkNode = a.home.base
  cur : s.st.curBrk = a.cur
  top : s.st.brkTop = a.top

/-- No count of a heap below the limit is cut off. -/
theorem metaSizeAlign_eq {size : Nat} (h : size ≤ HEAP_SIZE_MAX) : metaSizeAlign size = headerSize size := by
  unfold HEAP_SIZE_MAX at h
  have hpages : size / 4096 ≤ 4294967232 := by omega
  obtain ⟨-, -, hwords, hblocks⟩ := pageWords_spec hpages
  have hlt : size / 4096 < 4294967296 := by omega
  have hpageWords : pageWords (size / 4096) = (size / 4096 + 63) / 64 := bitmapNumWords_eq hpages
  have havailWords : availWords (size / 4096) = ((size / 4096 + 63) / 64 + 63) / 64 := by
    unfold availWords
    rw [show bitmapNumWords (size / 4096) = _ from hpageWords, bitmapNumWords_eq (by omega)]
  unfold metaSizeAlign metaSize headerSize pageUp MMAP_NODE_SIZE PAGE_SIZE
  dsimp only
  rw [u32_of_lt hlt, ← hpageWords, hpageWords, havailWords]
  rw [hpageWords] at hwords
  rw [havailWords] at hblocks
  rw [u32_of_lt (by omega), u64_of_lt (by omega), balignUp_eq (by omega)]
  omega

theorem findSome?_congr {α β : Type} {f g : α → Option β} {l : List α} (h : ∀ a ∈ l, f a = g a) :
    l.findSome? f = l.findSome? g := by
  induction l with
  | nil => rfl
  | cons a l ih =>
    rw [List.findSome?_cons, List.findSome?_cons, h a List.mem_cons_self, ih fun b hb => h b (List.mem_cons_of_mem _ hb)]

theorem HeapOk.payload_eq {h : Range} (hok : HeapOk h) : payload h = body h := by
  unfold payload body
  rw [metaSizeAlign_eq hok.small]

theorem HeapOk.metadata_eq {h : Range} (hok : HeapOk h) : metadata h = header h := by
  unfold metadata header
  rw [metaSizeAlign_eq hok.small]

theorem HeapOk.valid {r : Range} (hok : HeapOk r) : memRangeIsValid r = true :=
  (memRangeIsValid_iff ((Nat.le_add_left _ _).trans_lt hok.fits)).2 ⟨hok.base_ne, hok.size_pos, hok.paged, hok.fits⟩

/-- The figure for the longest run is whole pages. -/
theorem mmapHeapGetStats_form {st : MmapState} {ret : Int} {stats : AllocatorStats}
    (h : mmapHeapGetStats st = .ok (ret, stats)) : ret = 0 ∧ stats.info = 1 ∧ stats.largestFree % PAGE_SIZE = 0 := by
  obtain ⟨r, -, h⟩ := bind_eq_ok.1 h
  cases r with
  | inr e => cases e
  | inl figures =>
    obtain ⟨rfl, rfl⟩ := Prod.mk.inj (Except.ok.inj h)
    refine ⟨rfl, rfl, ?_⟩
    show u64 (figures.2 * PAGE_SIZE) % PAGE_SIZE = 0
    unfold u64 PAGE_SIZE
    omega

/-- Rounding up wraps to zero, where the next page would lie behind the address space. -/
theorem balignUp_cases {x : Nat} (hx : x < 18446744073709551616) :
    balignUp x = pageUp x ∨ balignUp x = 0 ∧ 18446744073709551616 ≤ pageUp x := by
  unfold balignUp pageUp u64 PAGE_SIZE
  omega

/-- A step that keeps the invariant keeps it for the record of the request. -/
theorem Inv.record {s : Sys} {op : Op} (hstep : ∃ s', s.step op = .ok s' ∧ Inv s') {ret : Int}
    {stats : Option AllocatorStats} {st' : MmapState} (hreq : s.st.request op = .ok (ret, stats, st')) :
    Inv (s.record ret st' op) := by
  obtain ⟨s', hstep, hi'⟩ := hstep
  rw [step_eq_request, hreq] at hstep
  obtain rfl := Except.ok.inj hstep
  exact hi'

/-- What was refused is not recorded. -/
theorem record_refused {s : Sys} {ret : Int} (hne : ret ≠ 0) (req : MemIoctl) : s.record ret s.st (.ioctl req) = s := by
  unfold Sys.record heapsAfter
  cases req <;> simp [hne]

/-- A mapping is recorded under its address. -/
theorem record_mapped {s : Sys} {st' : MmapState} {r : Range} {addr prot flags off : Nat} {fd : Int}
    (hbase : r.base < 18446744073709547520) :
    s.record (toInt64 r.base) st' (.mmap addr r.size prot flags fd off) = ⟨st', s.heaps, s.live ++ [r]⟩ := by
  obtain ⟨herr, haddr⟩ := addrOf_toInt64 hbase
  unfold Sys.record
  dsimp only
  rw [herr, haddr]
  rfl

section

variable {s : Sys} {a : Arena} (hs : s.Shows a)

include hs

theorem Sys.Shows.brkOk : BrkOk s.st a.home := by
  obtain ⟨k, hk, hb⟩ := hs.inv.brk
  obtain rfl := hs.inv.base_inj hs.home hk (hs.brkNode.symm.trans hb.node)
  exact hb

theorem Sys.Shows.payload_eq {h : Range} (hh : h ∈ s.heaps) : payload h = body h := (hs.inv.heap h hh).payload_eq

theorem Sys.Shows.brkBase : s.st.brkBase = (body a.home).base := by
  rw [hs.brkOk.base, hs.payload_eq hs.home]

theorem Sys.Shows.growth : s.st.brkArea = a.growth := by
  unfold MmapState.brkArea Arena.growth
  rw [hs.brkBase, hs.top]

/-- The pages that ought to be free are those of the arena. -/
theorem Sys.Shows.free_iff (x : Nat) : s.Free x ↔ a.Free x := by
  have hbodies : s.heaps.map payload = a.heaps.map body := by
    rw [← hs.heaps]
    exact List.map_congr_left fun h hh => hs.payload_eq hh
  unfold Sys.Free Arena.Free
  rw [hbodies, hs.live, hs.growth]

/-- The bits are the pages of the arena. -/
theorem Sys.Shows.pageFree {h : Range} (hh : h ∈ s.heaps) : s.st.pageFree h = a.pageFree h := by
  funext k
  rw [Bool.eq_iff_iff, hs.inv.pageFree_iff hh, hs.free_iff]
  exact decide_eq_true_iff.symm

theorem Sys.Shows.firstFit (n : Nat) :
    (s.st.firstFit s.heaps n).map (fun r => pageRange r.1 r.2 n) = a.firstFit n := by
  unfold MmapState.firstFit Arena.firstFit
  rw [← hs.heaps, List.map_findSome?]
  refine findSome?_congr fun h hh => ?_
  rw [Function.comp_apply, hs.pageFree hh, Option.map_map]
  rfl

theorem Sys.Shows.top_lt : a.top < 18446744073709551616 := by
  have htop := hs.brkOk.top_le
  have hfits := (hs.inv.heap _ hs.home).fits
  rw [hs.top] at htop
  exact htop.trans_lt hfits

theorem Sys.Shows.start_pos : 0 < (body a.home).base := by
  have hbase := (hs.inv.heap _ hs.home).base_ne
  have hle : a.home.base ≤ (body a.home).base := Nat.le_add_right _ _
  omega

/-- The break may go where it may go in the arena. -/
theorem Sys.Shows.brk_fits {x : Nat} (hx : x < 18446744073709551616) :
    balignUp x ≥ s.st.brkBase ∧ balignUp x ≤ s.st.brkTop ↔ a.Fits x := by
  have htop := hs.top_lt
  have hstart := hs.start_pos
  rw [hs.brkBase, hs.top]
  unfold Arena.Fits
  rcases balignUp_cases hx with heq | ⟨hzero, hlarge⟩
  · rw [heq]
  · omega

/-- **`sys_brk`.** -/
theorem Sys.Shows.brk {x : Nat} (hx : x < 18446744073709551616) :
    (sysBrk s.st x).curBrk = (a.moveBrk x).cur ∧ ({ s with st := sysBrk s.st x } : Sys).Shows (a.moveBrk x) := by
  obtain ⟨s', hstep, hi'⟩ := hs.inv.step_brk x
  obtain rfl := Except.ok.inj hstep
  have hfits := hs.brk_fits hx
  have hbase := hs.brkBase
  have hstart := hs.start_pos
  unfold sysBrk Arena.moveBrk at *
  dsimp only at hi' ⊢
  by_cases hnew : balignUp x ≥ s.st.brkBase ∧ balignUp x ≤ s.st.brkTop
  · have heq : balignUp x = pageUp x := (balignUp_cases hx).resolve_right fun hwrap => by omega
    rw [if_pos hnew] at hi' ⊢
    rw [if_pos (hfits.1 hnew)]
    exact ⟨heq, hi', hs.small, hs.heaps, hs.live, hs.home, hs.brkNode, heq, hs.top⟩
  · rw [if_neg hnew, if_neg (mt hfits.2 hnew)]
    exact ⟨hs.cur, hs⟩

/-- **`sys_mmap`.** -/
theorem Sys.Shows.mmap {addr len prot flags off : Nat} {fd : Int} (hargs : mmapArgsOk addr len prot flags fd off = true) :
    ∃ st', s.st.request (.mmap addr len prot flags fd off) = .ok ((a.map len).1.ret, (a.map len).1.stats, st') ∧
      (s.record (a.map len).1.ret st' (.mmap addr len prot flags fd off)).Shows (a.map len).2 := by
  obtain ⟨-, hlen_ne, haligned, -⟩ := of_decide_eq_true hargs
  have hpos : 0 < len := Nat.pos_of_ne_zero hlen_ne
  have hal : len % 4096 = 0 := of_decide_eq_true haligned
  have hn : 0 < len / PAGE_SIZE := by
    unfold PAGE_SIZE
    omega
  have hpages : len / PAGE_SIZE * PAGE_SIZE = len := by
    unfold PAGE_SIZE
    omega
  have hsmall := hs.small
  have hfit : len ≤ Lib.total s.heaps → len < 17592186044416 := fun hle => by omega
  have hstep : ∃ s', s.step (.mmap addr len prot flags fd off) = .ok s' ∧ Inv s' := hs.inv.step_mmap hfit
  have hcall : ∀ {ret : Int} {st' : MmapState}, allocMmap s.st len = .ok (ret, st') →
      s.st.request (.mmap addr len prot flags fd off) = .ok (ret, none, st') := by
    intro ret st' hrun
    unfold MmapState.request sysMmap
    dsimp only
    rw [if_pos hargs, hrun]
    rfl
  have halloc := hs.inv.allocMmap hpos hal hfit
  have hfirst := hs.firstFit (len / PAGE_SIZE)
  unfold Arena.map
  cases hfound : s.st.firstFit s.heaps (len / PAGE_SIZE) with
  | some found =>
    obtain ⟨h, p⟩ := found
    rw [hfound] at halloc hfirst
    obtain ⟨hh, node, node', hnode, hrun, htake⟩ := halloc
    have hreq := hcall htake
    have hsize : (pageRange h p (len / PAGE_SIZE)).size = len := hpages
    have hbase := hs.inv.base_lt hh (pageRange_inside hrun.le) (hsize.symm ▸ hpos)
      (pageRange_paged (hs.inv.heap h hh).paged p _)
    have hrecord := @record_mapped s (s.st.taken h node' (pageRange h p (len / PAGE_SIZE))) _ addr prot flags off fd hbase
    have hi' := Inv.record hstep hreq
    rw [hsize] at hrecord
    rw [hrecord] at hi'
    rw [← hfirst]
    refine ⟨_, hreq, ?_⟩
    dsimp only [Option.map_some]
    rw [hrecord]
    exact ⟨hi', hs.small, hs.heaps, congrArg (· ++ _) hs.live, hs.home, hs.brkNode, hs.cur, hs.top⟩
  | none =>
    rw [hfound] at halloc hfirst
    rw [← hfirst]
    dsimp only [Option.map_none] at halloc ⊢
    rw [← hs.top, ← hs.cur]
    by_cases hle : len ≤ s.st.brkTop - s.st.curBrk
    · rw [if_pos hle] at halloc
      rw [if_pos hle]
      have hreq := hcall halloc
      obtain ⟨g, hg, harea⟩ := hs.inv.brkArea_inside
      have hstolen := hs.inv.stolen hpos hal hle
      have hbase := hs.inv.base_lt hg
        (((hs.inv.top_inside hle).trans harea).trans (hs.inv.heap g hg).payload_inside) hpos
        (hstolen.live _ (List.mem_append_right _ List.mem_cons_self)).paged
      have hrecord := @record_mapped s (s.st.stolen len) _ addr prot flags off fd hbase
      dsimp only at hrecord
      refine ⟨_, hreq, ?_⟩
      dsimp only
      rw [hrecord]
      exact ⟨hstolen, hs.small, hs.heaps, congrArg (· ++ _) hs.live, hs.home, hs.brkNode, rfl, rfl⟩
    · rw [if_neg hle] at halloc
      rw [if_neg hle]
      exact ⟨_, hcall halloc, hs⟩

/-- **`sys_munmap`.** -/
theorem Sys.Shows.munmap {addr len : Nat} (hop : a.Allows (.munmap addr len)) :
    ∃ st', s.st.request (.munmap addr len) =
        .ok ((a.step (.munmap addr len)).1.ret, (a.step (.munmap addr len)).1.stats, st') ∧
      (s.record (a.step (.munmap addr len)).1.ret st' (.munmap addr len)).Shows (a.step (.munmap addr len)).2 := by
  obtain ⟨htyped, hmapped⟩ := hop
  have hlen : (⟨addr, len⟩ : Range).size < 18446744073709551616 := htyped.2
  unfold Arena.step MmapState.request
  dsimp only
  by_cases hargs : munmapArgsOk addr len = true
  · rcases hs.inv.munmap_cases hlen hargs with ⟨hno, hrun⟩ | ⟨h, hh, hin, hcases⟩
    · rw [if_neg fun hyes => hyes.2.elim fun h hh => hno h (hs.heaps ▸ hh.1) hh.2]
      refine ⟨s.st, by rw [hrun]; rfl, hs⟩
    · have hlive := hmapped hargs h (hs.heaps ▸ hh) hin
      rw [if_pos ⟨hargs, h, hs.heaps ▸ hh, hin⟩]
      rw [← hs.live] at hlive
      rcases hcases with ⟨⟨x, hx, hfree⟩, -⟩ | ⟨-, node, node', hnode, hflip, hrun⟩
      · exact absurd (hlive x hx) hfree.2.1
      · obtain ⟨-, -, -, hpaged⟩ := (munmapArgsOk_iff hlen).1 hargs
        refine ⟨_, by rw [hrun]; rfl, ?_⟩
        exact ⟨hs.inv.given hh hpaged hin hlive hnode hflip, hs.small, hs.heaps, congrArg (Lib.cut · _) hs.live, hs.home,
          hs.brkNode, hs.cur, hs.top⟩
  · rw [if_neg fun hyes => hargs hyes.1]
    refine ⟨s.st, ?_, hs⟩
    unfold sysMunmap
    rw [if_neg hargs]
    rfl

/-- A heap is the heap of the break just if its node is. -/
theorem Sys.Shows.eq_home {r : Range} (hr : r ∈ s.heaps) : r.base = s.st.mmapBrkNode ↔ r = a.home := by
  rw [hs.brkNode]
  exact ⟨hs.inv.base_inj hr hs.home, congrArg Range.base⟩

/-- Nothing that is mapped lies in a heap just if every mapping is apart from its pages. -/
theorem Sys.Shows.apart_iff {r : Range} (hr : r ∈ s.heaps) :
    (∀ x ∈ payload r, ¬ Covers s.live x) ↔ ∀ q ∈ a.live, q.Apart (body r) := by
  have hok := hs.inv.heap r hr
  have hpos : 0 < (payload r).size := Nat.sub_pos_of_lt hok.room
  rw [← hs.live, ← hok.payload_eq]
  constructor
  · exact fun h q hq => Range.apart_of_not_mem (hs.inv.live q hq).pos hpos fun x hx hxr => h x hxr ⟨q, hq, hx⟩
  · rintro h x hxr ⟨q, hq, hx⟩
    exact (h q hq).not_mem hx hxr

/-- **What `is_mmap_node_free` answers.** -/
theorem Sys.Shows.mayGo {r : Range} (hsize : r.size < 18446744073709551616) (hvalid : memRangeIsValid r = true) :
    ∃ n, isMmapNodeFree s.st r.base r.size = .ok (a.mayGo r, n) := by
  unfold Arena.mayGo
  rw [← hs.heaps]
  rcases hs.inv.isMmapNodeFree_cases hsize hvalid with ⟨hno, hrun⟩ | ⟨hr, hbrk, hcases⟩
  · rw [if_neg fun h => hno ⟨h.1, fun heq => h.2 ((hs.eq_home h.1).1 heq)⟩]
    exact ⟨0, hrun⟩
  · rw [if_pos ⟨hr, mt (hs.eq_home hr).2 hbrk⟩]
    rcases hcases with ⟨⟨x, hx, hlive⟩, hrun⟩ | ⟨hlive, hrun⟩
    · rw [if_neg fun h => (hs.apart_iff hr).2 h x hx hlive]
      exact ⟨0, hrun⟩
    · rw [if_pos ((hs.apart_iff hr).1 hlive)]
      exact ⟨_, hrun⟩

/-- A range that is not valid is no heap. -/
theorem Sys.Shows.mayGo_of_not_valid {r : Range} (hvalid : ¬ memRangeIsValid r = true) : a.mayGo r = -EINVAL := by
  unfold Arena.mayGo
  rw [← hs.heaps, if_neg]
  exact fun h => hvalid (hs.inv.heap r h.1).valid

theorem Sys.Shows.heapIsFree {r : Range} (hsize : r.size < 18446744073709551616) (hvalid : memRangeIsValid r = true) :
    mmapHeapIsFree s.st r.base r.size = .ok (a.mayGo r) := by
  obtain ⟨n, hrun⟩ := hs.mayGo hsize hvalid
  unfold mmapHeapIsFree
  rw [hrun]
  rfl

/-- **`IOCTL_ADD_HEAP`.** -/
theorem Sys.Shows.addHeap {r : Range} (hsize : r.size < 18446744073709551616)
    (hadd : memRangeIsValid r = true → (∀ h ∈ a.heaps, r.Apart h) ∧ Lib.total a.heaps + r.size < 8796093022208) :
    ∃ st', memIoctl s.st (.addHeap r) = .ok ((a.ioctl (.addHeap r)).1.ret, (a.ioctl (.addHeap r)).1.stats, st') ∧
      (s.record (a.ioctl (.addHeap r)).1.ret st' (.ioctl (.addHeap r))).Shows (a.ioctl (.addHeap r)).2 := by
  unfold Arena.ioctl
  dsimp only
  by_cases hvalid : memRangeIsValid r = true
  · obtain ⟨hapart, htotal⟩ := hadd hvalid
    rw [← hs.heaps] at hapart htotal
    have hsmall : r.size ≤ HEAP_SIZE_MAX := by
      unfold HEAP_SIZE_MAX
      omega
    rw [if_pos hvalid]
    rcases hs.inv.addHeap_cases hvalid hapart hsmall with ⟨hroom, hrun⟩ | ⟨node, links, head, hok, hnode, hspells, hrun⟩
    · rw [metaSizeAlign_eq hsmall] at hroom
      rw [if_neg (not_lt.2 hroom)]
      exact ⟨_, hrun, hs⟩
    · have hroom := hok.room
      rw [metaSizeAlign_eq hsmall] at hroom
      rw [if_pos hroom]
      refine ⟨_, hrun, hs.inv.added hapart hok hnode hspells, ?_, congrArg (· ++ _) hs.heaps, hs.live,
        List.mem_append_left _ hs.home, hs.brkNode, hs.cur, hs.top⟩
      show Lib.total (s.heaps ++ [r]) < 8796093022208
      rw [Lib.total_append, Lib.total_cons, Lib.total_nil]
      exact htotal
  · rw [if_neg hvalid]
    refine ⟨s.st, ?_, hs⟩
    unfold memIoctl
    dsimp only
    rw [if_neg hvalid]

/-- **`IOCTL_REMOVE_HEAP`.** -/
theorem Sys.Shows.removeHeap {r : Range} (hsize : r.size < 18446744073709551616) :
    ∃ st', memIoctl s.st (.removeHeap r) =
        .ok ((a.ioctl (.removeHeap r)).1.ret, (a.ioctl (.removeHeap r)).1.stats, st') ∧
      (s.record (a.ioctl (.removeHeap r)).1.ret st' (.ioctl (.removeHeap r))).Shows (a.ioctl (.removeHeap r)).2 := by
  unfold Arena.ioctl memIoctl
  dsimp only
  by_cases hvalid : memRangeIsValid r = true
  · rw [if_pos hvalid]
    have hfree := hs.heapIsFree hsize hvalid
    rcases hs.inv.removeHeap_cases hsize hvalid with
      ⟨code, hne, -, hcode, hrun⟩ | ⟨l, m, links, head, hsplit, hbrk, hlive, hspells, -, hcode, hrun⟩
    · obtain rfl := Except.ok.inj (hcode.symm.trans hfree)
      refine ⟨s.st, by rw [hrun]; rfl, ?_⟩
      rw [if_neg hne, record_refused hne]
      exact hs
    · have hzero := Except.ok.inj (hcode.symm.trans hfree)
      have hr : r ∈ s.heaps := by
        rw [hsplit]
        exact List.mem_append_right _ List.mem_cons_self
      have hhome : a.home ≠ r := fun heq => hbrk ((hs.eq_home hr).2 heq.symm)
      have hremoved := hs.inv.removed hsplit hbrk hlive hspells
      rw [← hs.inv.erase_eq hsplit] at hremoved
      rw [← hzero, if_pos rfl, hrun]
      exact ⟨_, rfl, hremoved, (total_erase_le _ _).trans_lt hs.small, congrArg (List.erase · r) hs.heaps, hs.live,
        (List.mem_erase_of_ne hhome).2 hs.home, hs.brkNode, hs.cur, hs.top⟩
  · rw [if_neg hvalid, hs.mayGo_of_not_valid hvalid]
    exact ⟨s.st, rfl, hs⟩

/-- The longest run of the arena is the one that the statistics tell. -/
theorem Sys.Shows.le_longestRun {n : Nat} (hn : 0 < n) : n ≤ a.longestRun ↔ s.st.HasRun s.heaps n := by
  have hmax : ∀ l : List Nat, n ≤ l.foldr max 0 ↔ ∃ k ∈ l, n ≤ k := by
    intro l
    induction l with
    | nil => simp [hn.ne']
    | cons k l ih => rw [List.foldr_cons, le_max_iff, ih, List.exists_mem_cons_iff]
  unfold Arena.longestRun MmapState.HasRun
  rw [hmax, ← hs.heaps]
  constructor
  · rintro ⟨k, hk, hle⟩
    obtain ⟨h, hh, rfl⟩ := List.mem_map.1 hk
    rw [Lib.le_longestRun, ← hs.pageFree hh] at hle
    exact ⟨h, hh, hle⟩
  · rintro ⟨h, hh, hrun⟩
    rw [hs.pageFree hh] at hrun
    exact ⟨_, List.mem_map_of_mem hh, Lib.le_longestRun.2 hrun⟩

/-- **`IOCTL_HEAP_GET_STATS`.** -/
theorem Sys.Shows.stats : memIoctl s.st .heapGetStats = .ok (0, some a.stats, s.st) := by
  obtain ⟨stats, hrun, hok⟩ := hs.inv.stats
  obtain ⟨-, hinfo, hpages⟩ := mmapHeapGetStats_form hrun
  have hheaders : s.heaps.map metadata = a.heaps.map header := by
    rw [← hs.heaps]
    exact List.map_congr_left fun h hh => (hs.inv.heap h hh).metadata_eq
  have hlargest : stats.largestFree = a.longestRun * PAGE_SIZE := by
    have hruns : ∀ n, 0 < n → (n * PAGE_SIZE ≤ stats.largestFree ↔ n ≤ a.longestRun) := fun n hn =>
      (hok.largestFree n hn).trans (hs.le_longestRun hn).symm
    have hsame := hruns (stats.largestFree / PAGE_SIZE)
    have hnext := hruns (a.longestRun)
    unfold PAGE_SIZE at *
    omega
  have hreserved := hok.reserved
  have hallocated := hok.allocated
  have htotal := hok.total
  rw [hheaders] at hreserved
  rw [hs.live, hs.cur, hs.brkBase] at hallocated
  rw [hs.heaps] at htotal
  have heq : stats = a.stats := by
    cases stats
    unfold Arena.stats
    simp only at hinfo htotal hallocated hreserved hlargest
    rw [hinfo, htotal, hallocated, hreserved, hlargest]
  unfold memIoctl
  dsimp only
  rw [hrun, heq]
  rfl

/-- **One request**: it is answered as in the arena, and leads to what the arena leads to. -/
theorem Sys.Shows.request {op : Op} (hop : a.Allows op) :
    ∃ st', s.st.request op = .ok ((a.step op).1.ret, (a.step op).1.stats, st') ∧
      (s.record (a.step op).1.ret st' op).Shows (a.step op).2 := by
  have htyped := hop.1
  cases op with
  | brk x =>
    obtain ⟨hret, hshows⟩ := hs.brk htyped
    refine ⟨_, ?_, hshows⟩
    unfold MmapState.request Arena.step
    dsimp only
    rw [hret]
  | mmap addr len prot flags fd off =>
    unfold Arena.step
    dsimp only
    by_cases hargs : mmapArgsOk addr len prot flags fd off = true
    · rw [if_pos hargs]
      exact hs.mmap hargs
    · rw [if_neg hargs]
      refine ⟨s.st, ?_, hs⟩
      unfold MmapState.request sysMmap
      dsimp only
      rw [if_neg hargs]
      rfl
  | munmap addr len => exact hs.munmap hop
  | ioctl req =>
    cases req with
    | addHeap r => exact hs.addHeap htyped.2 hop.2
    | removeHeap r => exact hs.removeHeap htyped.2
    | heapIsFree r =>
      refine ⟨s.st, ?_, hs⟩
      show memIoctl s.st (.heapIsFree r) = .ok (a.mayGo r, none, s.st)
      unfold memIoctl
      dsimp only
      by_cases hvalid : memRangeIsValid r = true
      · rw [if_pos hvalid, hs.heapIsFree htyped.2 hvalid]
        rfl
      · rw [if_neg hvalid, hs.mayGo_of_not_valid hvalid]
    | heapGetStats => exact ⟨s.st, hs.stats, hs⟩
    | other => exact ⟨s.st, rfl, hs⟩

end

/-! ## Runs of requests -/

/-- The arena of the statics of the allocator. -/
def MmapState.StandsFor (st : MmapState) (a : Arena) : Prop := (⟨st, a.heaps, a.live⟩ : Sys).Shows a

/-- A request to the allocator, and what is answered. -/
def MmapState.answer (st : MmapState) (op : Op) : Exec (Reply × MmapState) := do
  let r ← st.request op
  return (⟨r.1, r.2.1⟩, r.2.2)

/-- **The allocator refines the arena.** -/
theorem allocator_refines : Lib.Refines MmapState.answer Arena.step Arena.Allows MmapState.StandsFor := by
  intro st a op hst hop
  obtain ⟨st', hreq, hs⟩ := Sys.Shows.request hst hop
  refine ⟨st', ?_, ?_⟩
  · unfold MmapState.answer
    dsimp only at hreq
    rw [hreq]
    rfl
  · -- the record of the request is the heaps and the mappings of the arena
    have heq : (⟨st, a.heaps, a.live⟩ : Sys).record (a.step op).1.ret st' op = ⟨st', (a.step op).2.heaps, (a.step op).2.live⟩ := by
      rw [← hs.heaps, ← hs.live]
      cases op <;> rfl
    unfold MmapState.StandsFor
    rw [← heq]
    exact hs

/-- What `elf_setup` leaves is an arena with one heap. -/
theorem elfSetup_shows {appHeapIpa appHeapSize : Nat} (hsize : appHeapSize < 8796093022208) {st : MmapState}
    (hsetup : elfSetup appHeapIpa appHeapSize = .ok st) :
    st.StandsFor (.start ⟨u64 (appHeapIpa + 16384), appHeapSize - 16384⟩) := by
  have hchecks := hsetup
  unfold elfSetup at hchecks
  obtain ⟨hstack, hchecks⟩ := of_cassert hchecks
  obtain ⟨⟨ret, st'⟩, hadd, hchecks⟩ := bind_eq_ok.1 hchecks
  obtain ⟨hret, -⟩ := of_cassert hchecks
  obtain rfl : ret = 0 := of_decide_eq_true hret
  have hlt : 16384 < appHeapSize := of_decide_eq_true hstack
  have hsmall : (⟨u64 (appHeapIpa + 16384), appHeapSize - 16384⟩ : Range).size ≤ HEAP_SIZE_MAX := by
    unfold HEAP_SIZE_MAX
    dsimp only
    omega
  have hok : HeapOk ⟨u64 (appHeapIpa + 16384), appHeapSize - 16384⟩ := mmapAddHeap_zero hsmall hadd
  obtain ⟨links, head, hspells, hrun⟩ := elfSetup_eq hlt hok
  obtain rfl := Except.ok.inj (hsetup.symm.trans hrun)
  refine ⟨Inv.of_brk hok hspells, ?_, rfl, rfl, List.mem_singleton_self _, rfl, congrArg Range.base hok.payload_eq, rfl⟩
  show Lib.total [_] < _
  rw [Lib.total_cons, Lib.total_nil]
  dsimp only
  omega

/-- **The allocator answers as the arena does**, from `elf_setup` on and whatever the requests are, so long as they are
allowed: none of them fails an assertion, goes astray or stays in a loop. -/
theorem elfSetup_answers {appHeapIpa appHeapSize : Nat} (hsize : appHeapSize < 8796093022208) {st : MmapState}
    (hsetup : elfSetup appHeapIpa appHeapSize = .ok st) {ops : List Op}
    (hops : Lib.Keeps Arena.step Arena.Allows (.start ⟨u64 (appHeapIpa + 16384), appHeapSize - 16384⟩) ops) :
    ∃ st', Lib.serve MmapState.answer st ops =
        .ok ((Lib.replies Arena.step (.start ⟨u64 (appHeapIpa + 16384), appHeapSize - 16384⟩) ops).1, st') ∧
      st'.StandsFor (Lib.replies Arena.step (.start ⟨u64 (appHeapIpa + 16384), appHeapSize - 16384⟩) ops).2 :=
  allocator_refines.serve (elfSetup_shows hsize hsetup) hops

/-- Two pages are mapped, one of them is unmapped, and it is the first to be mapped again. -/
theorem elfSetup_answers_again : ∃ st st', elfSetup 65536 81920 = .ok st ∧
    Lib.serve MmapState.answer st [.mmap 0 8192 3 34 (-1) 0, .munmap 143360 4096, .mmap 0 4096 3 34 (-1) 0, .brk 86017] =
      .ok ([⟨139264, none⟩, ⟨0, none⟩, ⟨143360, none⟩, ⟨90112, none⟩], st') := by
  obtain ⟨s, -, -, -, hsetup⟩ := exists_start
  have hops : Lib.Keeps Arena.step Arena.Allows (.start ⟨81920, 65536⟩)
      [.mmap 0 8192 3 34 (-1) 0, .munmap 143360 4096, .mmap 0 4096 3 34 (-1) 0, .brk 86017] := by
    have hmapped : ((Arena.start ⟨81920, 65536⟩).step (.mmap 0 8192 3 34 (-1) 0)).2 =
        ⟨[⟨81920, 65536⟩], [⟨139264, 8192⟩], ⟨81920, 65536⟩, 86016, 139264⟩ := by decide +kernel
    refine ⟨⟨by simp [Op.Typed], trivial⟩, ⟨by simp [Op.Typed], fun _ h _ _ x hx => ?_⟩, ⟨by simp [Op.Typed], trivial⟩,
      ⟨by simp [Op.Typed], trivial⟩, trivial⟩
    rw [hmapped]
    have hin : (⟨143360, 4096⟩ : Range).Inside ⟨139264, 8192⟩ := by decide
    exact ⟨_, List.mem_singleton_self _, hin.mem hx⟩
  obtain ⟨st', hserve, -⟩ := @elfSetup_answers 65536 81920 (by decide) s.st hsetup _ hops
  have hreplies : (Lib.replies Arena.step (.start ⟨81920, 65536⟩)
      [.mmap 0 8192 3 34 (-1) 0, .munmap 143360 4096, .mmap 0 4096 3 34 (-1) 0, .brk 86017]).1 =
      [⟨139264, none⟩, ⟨0, none⟩, ⟨143360, none⟩, ⟨90112, none⟩] := by decide +kernel
  exact ⟨s.st, st', hsetup, hserve.trans (congrArg (fun r => Except.ok (r, st')) hreplies)⟩

end GunyahRuntime
