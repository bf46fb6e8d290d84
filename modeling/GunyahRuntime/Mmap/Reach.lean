/-
# GunyahRuntime.Mmap.Reach -- the allocator over whole runs

Each request keeps the invariant and returns (`Inv.step`), so every state of every run has it
(`Inv.of_run`). What the application relies on is read off: mappings that are apart from each other, from
the metadata and from the break (`Sys.Isolated`), and figures that add up.
-/
import GunyahRuntime.Mmap.Free
import GunyahRuntime.Mmap.RemoveHeap
import GunyahRuntime.Mmap.Stats

namespace GunyahRuntime

open Lib (Range)

section

variable {s : Sys} (hi : Inv s)

include hi

/-- **`sys_brk` keeps the invariant.** -/
theorem Inv.step_brk (x : Nat) : ∃ s', s.step (.brk x) = .ok s' ∧ Inv s' := by
  refine ⟨_, rfl, ?_⟩
  unfold sysBrk
  dsimp only
  by_cases hnew : balignUp x ≥ s.st.brkBase ∧ balignUp x ≤ s.st.brkTop
  · rw [if_pos hnew]
    obtain ⟨k, hk, hb⟩ := hi.brk
    refine ⟨hi.chain, hi.node, hi.heap, hi.apart, hi.totalSize, hi.allocSize, ?_,
      fun r hr => (hi.live r hr).mono (fun _ hg _ => hg) ⟨le_rfl, le_rfl⟩, hi.liveApart⟩
    exact ⟨k, hk, hb.node, hb.base, hnew.1, hnew.2, hb.top_le, Nat.mul_mod_left _ _, hb.top_paged⟩
  · rw [if_neg hnew]
    exact hi

/-- **Every request keeps the invariant**, and returns: no assertion fails, no access goes astray and no
loop stays. -/
theorem Inv.step {op : Op} (hop : op.Fitting s) : ∃ s', s.step op = .ok s' ∧ Inv s' := by
  have hrequest := hop
  obtain ⟨htyped, hfit⟩ := hop
  cases op with
  | brk x => exact hi.step_brk x
  | mmap addr len prot flags fd off => exact hi.step_mmap hfit
  | munmap addr len => exact hi.step_munmap htyped.2 hfit
  | ioctl req =>
    cases req with
    | addHeap range => exact hi.step_addHeap hrequest
    | removeHeap range => exact hi.step_removeHeap htyped.2
    | heapIsFree range => exact ⟨s, hi.step_heapIsFree htyped.2, hi⟩
    | heapGetStats => exact ⟨s, hi.step_stats, hi⟩
    | other => exact ⟨s, rfl, hi⟩

end

/-- **The invariant holds in every state of a run.** -/
theorem Inv.of_run {s₀ s : Sys} (hi : Inv s₀) (h : Sys.Run Op.Fitting s₀ s) : Inv s := by
  induction h with
  | refl => exact hi
  | step hs hop hstep ih =>
    obtain ⟨s', hrun, hi'⟩ := ih.step hop
    obtain rfl := Except.ok.inj (hstep.symm.trans hrun)
    exact hi'

/-! ## Heaps below 2^43 bytes -/

/-- An allowed request is one whose page counts fit. -/
theorem Op.Allowed.fitting {s : Sys} {op : Op} (hop : op.Allowed s)
    (hlt : Lib.total s.heaps < 8796093022208) : op.Fitting s := by
  obtain ⟨htyped, hop⟩ := hop
  refine ⟨htyped, ?_⟩
  cases op with
  | brk x => trivial
  | mmap addr len prot flags fd off =>
    intro hle
    omega
  | munmap addr len => exact hop
  | ioctl req =>
    cases req with
    | addHeap range =>
      intro _ _
      refine ⟨hop.2.1, ?_⟩
      have hsum := hop.2.2
      unfold HEAP_SIZE_MAX
      omega
    | removeHeap range => trivial
    | heapIsFree range => trivial
    | heapGetStats => trivial
    | other => trivial

theorem total_erase_le (heaps : List Range) (r : Range) :
    Lib.total (heaps.erase r) ≤ Lib.total heaps :=
  ((List.erase_sublist).map Range.size).sum_le_sum fun _ _ => Nat.zero_le _

/-- What a request does to the heaps. -/
theorem Sys.step_heaps {s s' : Sys} {op : Op} (h : s.step op = .ok s') :
    s'.heaps = s.heaps ∨ (∃ range, s'.heaps = s.heaps.erase range) ∨
      ∃ range, op = .ioctl (.addHeap range) ∧ s'.heaps = s.heaps ++ [range] := by
  unfold Sys.step at h
  cases op with
  | brk x =>
    obtain rfl := Except.ok.inj h
    exact .inl rfl
  | mmap addr len prot flags fd off =>
    obtain ⟨⟨ret, st⟩, -, h⟩ := bind_eq_ok.1 h
    obtain rfl := Except.ok.inj h
    exact .inl rfl
  | munmap addr len =>
    obtain ⟨⟨ret, st⟩, -, h⟩ := bind_eq_ok.1 h
    obtain rfl := Except.ok.inj h
    exact .inl rfl
  | ioctl req =>
    obtain ⟨⟨ret, stats, st⟩, -, h⟩ := bind_eq_ok.1 h
    obtain rfl := Except.ok.inj h
    dsimp only
    unfold heapsAfter
    cases req with
    | addHeap range =>
      dsimp only
      split
      · exact .inr (.inr ⟨range, rfl, rfl⟩)
      · exact .inl rfl
    | removeHeap range =>
      dsimp only
      split
      · exact .inr (.inl ⟨range, rfl⟩)
      · exact .inl rfl
    | heapIsFree range => exact .inl rfl
    | heapGetStats => exact .inl rfl
    | other => exact .inl rfl

/-- An allowed request keeps the heaps below the bound. -/
theorem Op.Allowed.total_lt {s s' : Sys} {op : Op} (hop : op.Allowed s)
    (hlt : Lib.total s.heaps < 8796093022208) (h : s.step op = .ok s') :
    Lib.total s'.heaps < 8796093022208 := by
  rcases Sys.step_heaps h with heq | ⟨range, heq⟩ | ⟨range, rfl, heq⟩
  · rwa [heq]
  · rw [heq]
    exact (total_erase_le _ _).trans_lt hlt
  · rw [heq, Lib.total_append, Lib.total_cons, Lib.total_nil, Nat.add_zero]
    exact hop.2.2.2

/-- **A reachable state has the invariant**, and its heaps stay below the bound. -/
theorem Sys.Reachable.inv {s : Sys} (hs : s.Reachable) : Inv s ∧ Lib.total s.heaps < 8796093022208 := by
  obtain ⟨s₀, hstart, hlt, hrun⟩ := hs
  induction hrun with
  | refl => exact ⟨Inv.start hstart (hlt.le.trans (by decide)), hlt⟩
  | step hs hop hstep ih =>
    obtain ⟨hi, hlt⟩ := ih
    obtain ⟨s', hrun, hi'⟩ := hi.step (hop.fitting hlt)
    obtain rfl := Except.ok.inj (hstep.symm.trans hrun)
    exact ⟨hi', hop.total_lt hlt hstep⟩

/-- What is allowed fits, along a whole run. -/
theorem Sys.Reachable.fitting {s : Sys} (hs : s.Reachable) :
    ∃ s₀ : Sys, s₀.Start ∧ Lib.total s₀.heaps ≤ HEAP_SIZE_MAX ∧ Sys.Run Op.Fitting s₀ s := by
  obtain ⟨s₀, hstart, hlt, hrun⟩ := hs
  refine ⟨s₀, hstart, hlt.le.trans (by decide), ?_⟩
  induction hrun with
  | refl => exact .refl
  | step hs hop hstep ih =>
    obtain ⟨-, hlt'⟩ := Sys.Reachable.inv ⟨s₀, hstart, hlt, hs⟩
    exact .step ih (hop.fitting hlt') hstep

/-! ## A small system

A break heap of 16 pages behind the stack, and one page mapped. -/

theorem exists_start : ∃ s : Sys, s.Start ∧ s.heaps = [⟨81920, 65536⟩] ∧ s.live = [] ∧
    elfSetup 65536 81920 = .ok s.st := by
  have hsetup : (elfSetup 65536 81920).isOk = true := by decide +kernel
  cases hrun : elfSetup 65536 81920 with
  | error e =>
    rw [hrun] at hsetup
    cases hsetup
  | ok st =>
    exact ⟨⟨st, [⟨81920, 65536⟩], []⟩, ⟨65536, 81920, st, by decide, by decide, hrun, rfl⟩, rfl, rfl, rfl⟩

/-- A start state is reached. -/
theorem Sys.Start.reachable {s : Sys} (hs : s.Start) (hlt : Lib.total s.heaps < 8796093022208) :
    s.Reachable := ⟨s, hs, hlt, .refl⟩

/-- A first mapping, and what it returns. -/
theorem exists_mapped_of {len : Nat} {ret : Int} (hlen : len < 18446744073709551616) (hok : isError ret = false)
    (hret : (elfSetup 65536 81920 >>= fun st => Prod.fst <$> sysMmap st 0 len 3 34 (-1) 0) = .ok ret) :
    ∃ s : Sys, s.Reachable ∧ s.heaps = [⟨81920, 65536⟩] ∧ s.live = [⟨addrOf ret, len⟩] := by
  obtain ⟨s, hs, hheaps, hlive, hsetup⟩ := exists_start
  have hlt : Lib.total s.heaps < 8796093022208 := by
    rw [hheaps]
    decide
  have hallowed : Op.Allowed s (.mmap 0 len 3 34 (-1) 0) :=
    ⟨⟨by decide, hlen, by decide, by decide, by decide⟩, trivial⟩
  rw [hsetup, ok_bind] at hret
  cases hrun : sysMmap s.st 0 len 3 34 (-1) 0 with
  | error e =>
    rw [hrun] at hret
    cases hret
  | ok r =>
    obtain ⟨ret', st⟩ := r
    rw [hrun] at hret
    obtain rfl : ret' = ret := Except.ok.inj hret
    refine ⟨⟨st, s.heaps, s.live ++ [⟨addrOf ret', len⟩]⟩, ⟨s, hs, hlt, .step .refl hallowed ?_⟩,
      hheaps, by rw [hlive]; rfl⟩
    unfold Sys.step
    dsimp only
    rw [hrun, ok_bind]
    dsimp only
    rw [hok]
    rfl

theorem exists_mapped : ∃ s : Sys, s.Reachable ∧ s.heaps = [⟨81920, 65536⟩] ∧ s.live = [⟨143360, 4096⟩] :=
  @exists_mapped_of 4096 143360 (by decide) (by decide) (by decide +kernel)

/-! ## Isolation -/

/-- What the application relies on. -/
structure Sys.Isolated (s : Sys) : Prop where
  /-- The list in memory is the registered heaps, in order. -/
  listed : s.st.links.Spells 0 s.st.mmapNodeList (s.heaps.map Range.base)
  node : ∀ h ∈ s.heaps, ∃ node, s.st.nodes h.base = some node ∧ node.base = h.base ∧
    node.size = h.size ∧ node.metaSize = (metadata h).size
  aligned : ∀ r ∈ s.live, r.base % PAGE_SIZE = 0 ∧ r.size % PAGE_SIZE = 0
  oneHeap : ∀ r ∈ s.live, ∃ h ∈ s.heaps, r.Inside h ∧ ∀ g ∈ s.heaps, r.Inside g → g = h
  apart : s.live.Pairwise Range.Apart
  offMetadata : ∀ r ∈ s.live, ∀ h ∈ s.heaps, r.Apart (metadata h)
  brkOrder : s.st.brkBase ≤ s.st.curBrk ∧ s.st.curBrk ≤ s.st.brkTop
  brkAligned : s.st.brkBase % PAGE_SIZE = 0 ∧ s.st.curBrk % PAGE_SIZE = 0 ∧ s.st.brkTop % PAGE_SIZE = 0
  offBrk : ∀ r ∈ s.live, ∀ x ∈ r, ¬ (s.st.brkBase ≤ x ∧ x < s.st.curBrk)
  /-- Wherever `sys_brk` moves the break, it meets no mapping. -/
  offGrowth : ∀ r ∈ s.live, ∀ x ∈ r, ∀ brk, ¬ (s.st.brkBase ≤ x ∧ x < (sysBrk s.st brk).curBrk)

theorem sysBrk_le {st : MmapState} (h : st.curBrk ≤ st.brkTop) (x : Nat) :
    (sysBrk st x).curBrk ≤ st.brkTop := by
  unfold sysBrk
  dsimp only
  split
  · rename_i hnew
    exact hnew.2
  · exact h

theorem Inv.isolated {s : Sys} (hi : Inv s) : s.Isolated := by
  obtain ⟨k, hk, hb⟩ := hi.brk
  have hbase_paged : s.st.brkBase % PAGE_SIZE = 0 := by
    rw [hb.base]
    exact (hi.heap k hk).payload_paged.1
  -- below the top of the break there is no mapping
  have hoff : ∀ r ∈ s.live, ∀ x ∈ r, ¬ (s.st.brkBase ≤ x ∧ x < s.st.brkTop) := by
    intro r hr x hx hbrk
    refine (hi.live r hr).off_brk x hx ⟨hbrk.1, ?_⟩
    show x < s.st.brkBase + (s.st.brkTop - s.st.brkBase)
    omega
  refine ⟨hi.chain, ?_, fun r hr => (hi.live r hr).paged, ?_, hi.liveApart, ?_,
    ⟨hb.base_le, hb.cur_le⟩, ⟨hbase_paged, hb.cur_paged, hb.top_paged⟩, ?_, ?_⟩
  · intro h hh
    obtain ⟨node, hnode, hof⟩ := hi.node h hh
    exact ⟨node, hnode, hof.base, hof.size, hof.metaSize⟩
  · intro r hr
    obtain ⟨h, hh, hin⟩ := hi.live_inside hr
    refine ⟨h, hh, hin, fun g hg hing => ?_⟩
    have hfirst : r.base ∈ r := ⟨le_rfl, Nat.lt_add_of_pos_right (hi.live r hr).pos⟩
    exact hi.heap_unique hg hh (hing.mem hfirst) (hin.mem hfirst)
  · intro r hr h hh
    obtain ⟨g, hg, hin⟩ := (hi.live r hr).inside
    exact (hi.metadata_apart hh hg hin).symm
  · exact fun r hr x hx hbrk => hoff r hr x hx ⟨hbrk.1, hbrk.2.trans_le hb.cur_le⟩
  · exact fun r hr x hx y hbrk => hoff r hr x hx ⟨hbrk.1, hbrk.2.trans_le (sysBrk_le hb.cur_le y)⟩

/-- **Isolation over whole runs.** In every state that an application reaches, the mappings are isolated,
and every request it may make returns. -/
theorem Sys.Reachable.isolation {s : Sys} (hs : s.Reachable) :
    s.Isolated ∧ ∀ op : Op, op.Allowed s → ∃ s', s.step op = .ok s' := by
  obtain ⟨hi, hlt⟩ := hs.inv
  refine ⟨hi.isolated, fun op hop => ?_⟩
  obtain ⟨s', hrun, -⟩ := hi.step (hop.fitting hlt)
  exact ⟨s', hrun⟩

/-- In the small system. -/
theorem isolated_mapped : ∃ s : Sys, s.live = [⟨143360, 4096⟩] ∧ s.Isolated := by
  obtain ⟨s, hs, -, hlive⟩ := exists_mapped
  exact ⟨s, hlive, (Sys.Reachable.isolation hs).1⟩

/-! ## Accounting -/

/-- **The figures add up over whole runs.** -/
theorem Sys.Reachable.accounting {s : Sys} (hs : s.Reachable) :
    (∃ stats, mmapHeapGetStats s.st = .ok (0, stats) ∧ StatsOk s stats) ∧
      s.st.mmapTotalSize = Lib.total s.heaps ∧ s.st.mmapAllocSize = Lib.total s.live ∧
      ∀ h ∈ s.heaps, ∃ node, s.st.nodes h.base = some node ∧ node.metaSize = (metadata h).size := by
  obtain ⟨hi, -⟩ := hs.inv
  refine ⟨hi.stats, hi.totalSize, hi.allocSize, fun h hh => ?_⟩
  obtain ⟨node, hnode, hof⟩ := hi.node h hh
  exact ⟨node, hnode, hof.metaSize⟩

/-- In the small system one page is mapped, one holds metadata, and the break may have the others. -/
theorem accounting_mapped : ∃ s : Sys, ∃ stats, mmapHeapGetStats s.st = .ok (0, stats) ∧
    stats.total = 65536 ∧ stats.reserved = 4096 ∧ stats.allocated = 4096 + (s.st.curBrk - s.st.brkBase) := by
  obtain ⟨s, hs, hheaps, hlive⟩ := exists_mapped
  obtain ⟨⟨stats, hrun, hok⟩, -⟩ := Sys.Reachable.accounting hs
  refine ⟨s, stats, hrun, ?_, ?_, ?_⟩
  · rw [hok.total, hheaps]
    rfl
  · rw [hok.reserved, hheaps]
    decide +kernel
  · rw [hok.allocated, hlive]
    rfl

end GunyahRuntime
