/-
# GunyahRuntime.Mmap.Search -- `search_free_mmap_range` is first fit

The search skips whole blocks that have no free page, and from a page in use it goes on after the last
page in use of that word. Neither skips a place where a run starts (`searchPass_spec`), so the search
answers what the scan of one position after the other answers (`searchFreeMmapRange_eq`).
-/
import GunyahRuntime.Mmap.Node

namespace GunyahRuntime

section Range

variable {node : MmapNode} {startBit numBits : Nat}

/-- What `mmap_range_is_free` answers: the range is free, or a position after a page in use. -/
def RangeAnswer (node : MmapNode) (startBit numBits : Nat) : Option Nat → Prop
  | none => Lib.RunAt node.freePages.get numBits startBit
  | some next => startBit < next ∧ next ≤ startBit + numBits ∧
      node.freePages.get (next - 1) = false

/-- A word that is not all free holds a page in use, and `compiler_msb` finds one. -/
theorem mmapRangePass_used {curr width : Nat} {val : BitVec 64} (hwidth : width ≤ 64)
    (hget : ∀ k, val.getLsbD k = (decide (k < width) && node.freePages.get (curr + k)))
    (hne : val ≠ utilMaskSafe width) :
    ~~~val &&& utilMaskSafe width ≠ 0#64 ∧
      ∃ msb, compilerMsb (~~~val &&& utilMaskSafe width) = .ok msb ∧ msb < width ∧
        node.freePages.get (curr + msb) = false := by
  have hbits : ∀ k < 64, (~~~val &&& utilMaskSafe width).getLsbD k =
      (decide (k < width) && !node.freePages.get (curr + k)) := by
    intro k hk
    rw [BitVec.getLsbD_and, BitVec.getLsbD_not, hget, getLsbD_utilMaskSafe hwidth, decide_eq_true hk]
    by_cases hkw : k < width
    · simp [hkw]
    · simp [hkw]
  have hused : ~~~val &&& utilMaskSafe width ≠ 0#64 := by
    intro hzero
    apply hne
    apply BitVec.eq_of_getLsbD_eq
    intro k hk
    have hclear := hbits k hk
    rw [hzero, BitVec.getLsbD_zero] at hclear
    rw [hget, getLsbD_utilMaskSafe hwidth]
    by_cases hkw : k < width
    · simpa [hkw] using hclear
    · simp [hkw]
  obtain ⟨msb, hmsb, hlt, hset⟩ := compilerMsb_spec hused
  rw [hbits msb hlt, Bool.and_eq_true, decide_eq_true_iff] at hset
  exact ⟨hused, msb, hmsb, hset.1, by simpa using hset.2⟩

/-- One pass with bits left: the word is free and the loop goes on, or there is an answer. -/
theorem mmapRangePass_spec {curr rem : Nat} (halign : curr = startBit ∨ curr % 64 = 0) (hrem : 0 < rem)
    (hlast : curr + rem < 4294967296) (hin : curr + rem ≤ 64 * node.freePages.length) :
    ∃ width, 0 < width ∧ width ≤ rem ∧ ((curr + width) % 64 = 0 ∨ rem - width = 0) ∧
      ((mmapRangePass node startBit (curr, rem) = .ok (.inl (curr + width, rem - width)) ∧
          Lib.RunAt node.freePages.get width curr) ∨
        ∃ next, mmapRangePass node startBit (curr, rem) = .ok (.inr (some next)) ∧
          curr < next ∧ next ≤ curr + width ∧ node.freePages.get (next - 1) = false) := by
  have hmod : curr % 64 < 64 := Nat.mod_lt _ (by decide)
  have hwidth : utilMin rem (sub32 BITMAP_WORD_BITS (curr % BITMAP_WORD_BITS)) =
      min rem (64 - curr % 64) := by
    unfold BITMAP_WORD_BITS
    rw [utilMin_eq, sub32_of_le hmod.le (by decide)]
  have hassert : curr = startBit ∨ curr % BITMAP_WORD_BITS = 0 := halign
  generalize hw : min rem (64 - curr % 64) = width at hwidth
  have hfield : FieldOf node.freePages curr width := ⟨by omega, by omega, by omega, by omega⟩
  obtain ⟨val, hval, hget⟩ := bitmapExtract_spec hfield
  refine ⟨width, by omega, by omega, by omega, ?_⟩
  have hpass : mmapRangePass node startBit (curr, rem) =
      if val ≠ utilMaskSafe width then do
        cassert (~~~val &&& utilMaskSafe width ≠ 0#64)
        let msb ← compilerMsb (~~~val &&& utilMaskSafe width)
        return .inr (some (u32 (u32 (curr + u32 msb) + 1)))
      else return .inl (curr + width, rem - width) := by
    unfold mmapRangePass
    dsimp only
    rw [if_pos hrem, decide_eq_true hassert, cassert_true, ok_bind, hwidth, hval, ok_bind,
      u32_of_lt (show curr + width < 4294967296 by omega), sub32_of_le (by omega) (by omega)]
  by_cases heq : val = utilMaskSafe width
  · left
    rw [hpass, if_neg (not_not.2 heq)]
    refine ⟨rfl, fun k hk => ?_⟩
    have hset := hget k
    rw [heq, getLsbD_utilMaskSafe (by omega), decide_eq_true hk, Bool.true_and] at hset
    exact hset.symm
  · right
    obtain ⟨hused, msb, hmsb, hlt, hclear⟩ := mmapRangePass_used (by omega) hget heq
    refine ⟨curr + msb + 1, ?_, by omega, by omega, hclear⟩
    rw [hpass, if_pos heq, decide_eq_true hused, cassert_true, ok_bind, hmsb, ok_bind, pure_ok,
      u32_of_lt (show msb < 4294967296 by omega), u32_of_lt (show curr + msb < 4294967296 by omega),
      u32_of_lt (by omega)]

/-- **`mmap_range_is_free` is exact**, and what it stores lies after a page in use of the range. -/
theorem mmapRangeIsFree_spec (hlast : startBit + numBits < 4294967296)
    (hin : startBit + numBits ≤ 64 * node.freePages.length) :
    ∃ r, mmapRangeIsFree node startBit numBits = .ok r ∧ RangeAnswer node startBit numBits r := by
  refine Lib.iterate_total
    (fun s => s.1 + s.2 = startBit + numBits ∧ startBit ≤ s.1 ∧
      (s.1 = startBit ∨ s.1 % 64 = 0 ∨ s.2 = 0) ∧
      Lib.RunAt node.freePages.get (s.1 - startBit) startBit) _ (fun s => s.2) ?_ _ _
    ⟨rfl, le_rfl, .inl rfl, fun k hk => by dsimp only at hk; omega⟩ (by dsimp only; omega)
  rintro ⟨curr, rem⟩ ⟨hsum, hle, halign, hrun⟩
  dsimp only at hsum hle halign hrun
  rcases Nat.eq_zero_or_pos rem with rfl | hpos
  · have hdone : mmapRangePass node startBit (curr, 0) = .ok (.inr none) := rfl
    refine .inl ⟨none, hdone, ?_⟩
    show Lib.RunAt _ _ _
    rwa [show curr - startBit = numBits by omega] at hrun
  · have halign' : curr = startBit ∨ curr % 64 = 0 := halign.imp_right fun h => h.resolve_right (by omega)
    have hin' : curr + rem ≤ 64 * node.freePages.length := by omega
    obtain ⟨width, hwpos, hwle, hend, hcase⟩ := mmapRangePass_spec halign' hpos (by omega) hin'
    rcases hcase with ⟨hnext, hfree⟩ | ⟨next, hdone, h1, h2, hclear⟩
    · refine .inr ⟨(curr + width, rem - width), hnext, ⟨?_, ?_, .inr hend, ?_⟩, ?_⟩
      · show curr + width + (rem - width) = _
        omega
      · show startBit ≤ curr + width
        omega
      · show Lib.RunAt _ (curr + width - startBit) startBit
        rw [show curr + width - startBit = curr - startBit + width by omega]
        refine hrun.append ?_
        rwa [show startBit + (curr - startBit) = curr by omega]
      · show rem - width < rem
        omega
    · exact .inl ⟨some next, hdone, by omega, by omega, hclear⟩

end Range

section Search

variable {node : MmapNode} {numBits nodeBits : Nat}

/-- No run starts before `curr`, among those that `search_free_mmap_range` looks for. -/
def NoRunBefore (node : MmapNode) (numBits curr : Nat) : Prop :=
  ∀ p < curr, ¬ Lib.RunAt node.freePages.get numBits p

/-- A run starts at a free page. -/
theorem noRun_of_clear {p : Nat} (hn : 0 < numBits) (h : node.freePages.get p = false) :
    ¬ Lib.RunAt node.freePages.get numBits p :=
  Lib.noRun_of_gap h le_rfl (Nat.lt_add_of_pos_right hn)

/-- Pages in use are passed over. -/
theorem NoRunBefore.pass {a b : Nat} (h : NoRunBefore node numBits a) (hn : 0 < numBits)
    (hclear : ∀ p, a ≤ p → p < b → node.freePages.get p = false) : NoRunBefore node numBits b := by
  intro p hp
  rcases Nat.lt_or_ge p a with hlt | hge
  · exact h p hlt
  · exact noRun_of_clear hn (hclear p hge hp)

/-- A search that has seen no run up to the last place of one has its answer. -/
theorem firstRun_of_noRun {endBit : Nat} (hend : endBit + numBits = nodeBits)
    (h : ∀ p ≤ endBit, ¬ Lib.RunAt node.freePages.get numBits p) :
    none = Lib.firstRun node.freePages.get nodeBits numBits :=
  (Lib.firstRun_eq_none.2 fun p hp => h p (by omega)).symm

/-- The check of a range that starts at the first free page from `curr` on. -/
theorem searchCheck_spec {endBit next : Nat} (hn : 0 < numBits) (hend : endBit + numBits = nodeBits)
    (hbits : nodeBits < 4294967296) (hin : nodeBits ≤ 64 * node.freePages.length) (hnext : next ≤ endBit)
    (hbefore : NoRunBefore node numBits next) :
    (searchCheck node numBits endBit next =
        .ok (.inr (Lib.firstRun node.freePages.get nodeBits numBits))) ∨
      ∃ curr, searchCheck node numBits endBit next = .ok (.inl curr) ∧ next < curr ∧ curr ≤ endBit ∧
        NoRunBefore node numBits curr := by
  have hlast : next + numBits < 4294967296 := by omega
  have hrange : next + numBits ≤ 64 * node.freePages.length := by omega
  obtain ⟨r, hr, hanswer⟩ := mmapRangeIsFree_spec hlast hrange
  unfold searchCheck
  rw [hr, ok_bind]
  cases r with
  | none =>
    left
    have hle : numBits ≤ nodeBits := by omega
    have hfirst : Lib.firstRun node.freePages.get nodeBits numBits = some next :=
      (Lib.firstRun_eq_some hle).2 ⟨hanswer, by omega, hbefore⟩
    rw [hfirst]
    rfl
  | some curr =>
    obtain ⟨h1, h2, hclear⟩ := hanswer
    -- every run from `next` up to the page in use would hold it
    have hgap : NoRunBefore node numBits curr := by
      intro p hp
      rcases Nat.lt_or_ge p next with hlt | hge
      · exact hbefore p hlt
      · exact Lib.noRun_of_gap hclear (by omega) (by omega)
    dsimp only
    by_cases hle : curr ≤ endBit
    · right
      rw [if_pos hle]
      exact ⟨curr, rfl, h1, hle, hgap⟩
    · left
      rw [if_neg hle, ← firstRun_of_noRun hend fun p hp => hgap p (by omega)]
      rfl

/-- **A pass skips no place where a run starts.** -/
theorem searchPass_spec (h : node.InStep) {endBit curr : Nat} (hn : 0 < numBits)
    (hend : endBit + numBits = nodeBits) (hbits : nodeBits ≤ 4294967232)
    (hin : nodeBits ≤ 64 * node.freePages.length) (hcurr : curr ≤ endBit)
    (hbefore : NoRunBefore node numBits curr) :
    (searchPass node numBits endBit (endBit / BITMAP_WORD_BITS) curr =
        .ok (.inr (Lib.firstRun node.freePages.get nodeBits numBits))) ∨
      ∃ curr', searchPass node numBits endBit (endBit / BITMAP_WORD_BITS) curr = .ok (.inl curr') ∧
        curr < curr' ∧ curr' ≤ endBit ∧ NoRunBefore node numBits curr' := by
  have hblock : endBit / 64 / 64 < node.availBlocks.length := h.block_lt (by omega)
  have hffs : bitmapFfs node.availBlocks (curr / 64) (endBit / 64) =
      .ok (Lib.firstBit (node.availBlocks.is true) (curr / 64) (endBit / 64)) :=
    bitmapFindFirst_eq (Nat.div_le_div_right hcurr) (by omega) hblock
  have his : ∀ (b : Bitmap) k, b.is true k = b.get k := fun b k => Bool.decide_eq_true
  unfold searchPass BITMAP_WORD_BITS
  dsimp only
  rw [hffs, ok_bind]
  cases hblk : Lib.firstBit (node.availBlocks.is true) (curr / 64) (endBit / 64) with
  | none =>
    -- no block up to the last one has a free page
    left
    have hnone : NoRunBefore node numBits (endBit + 1) := hbefore.pass hn fun p h1 h2 =>
      h.clear ((his _ _).symm.trans (Lib.firstBit_eq_none.1 hblk (p / 64) (by omega) (by omega))) rfl
    rw [← firstRun_of_noRun hend fun p hp => hnone p (by omega)]
    rfl
  | some nextBlock =>
    obtain ⟨-, hb1, hb2, hbmin⟩ := Lib.firstBit_eq_some.1 hblk
    have hmax : utilMax curr (u32 (nextBlock * 64)) = max curr (64 * nextBlock) := by
      rw [utilMax_eq, u32_of_lt (by omega), Nat.mul_comm]
    dsimp only
    rw [hmax]
    generalize hfrom : max curr (64 * nextBlock) = start
    have hstart : NoRunBefore node numBits start := hbefore.pass hn fun p h1 h2 =>
      h.clear ((his _ _).symm.trans (hbmin (p / 64) (by omega) (by omega))) rfl
    have hffs' : bitmapFfs node.freePages start endBit =
        .ok (Lib.firstBit (node.freePages.is true) start endBit) :=
      bitmapFindFirst_eq (by omega) (by omega) (by omega)
    rw [hffs', ok_bind]
    cases hbit : Lib.firstBit (node.freePages.is true) start endBit with
    | none =>
      left
      have hnone : NoRunBefore node numBits (endBit + 1) := hstart.pass hn fun p h1 h2 =>
        (his _ _).symm.trans (Lib.firstBit_eq_none.1 hbit p h1 (by omega))
      rw [← firstRun_of_noRun hend fun p hp => hnone p (by omega)]
      rfl
    | some next =>
      obtain ⟨-, h1, h2, hmin⟩ := Lib.firstBit_eq_some.1 hbit
      have hnext : NoRunBefore node numBits next := hstart.pass hn fun p hp1 hp2 =>
        (his _ _).symm.trans (hmin p hp1 hp2)
      dsimp only
      rcases searchCheck_spec hn hend (by omega) hin h2 hnext with hdone | ⟨curr', hgo, hlt, hle, hno⟩
      · exact .inl hdone
      · exact .inr ⟨curr', hgo, by omega, hle, hno⟩

/-- **`search_free_mmap_range` is first fit**: it answers what the scan of one position after the other
does. -/
theorem searchFreeMmapRange_eq (h : node.InStep) (hn : 0 < numBits)
    (hbits : node.size / PAGE_SIZE ≤ 4294967232)
    (hin : node.size / PAGE_SIZE ≤ 64 * node.freePages.length) :
    searchFreeMmapRange node numBits =
      .ok (Lib.firstRun node.freePages.get (node.size / PAGE_SIZE) numBits) := by
  unfold searchFreeMmapRange
  dsimp only
  rw [u32_of_lt (by omega)]
  generalize node.size / PAGE_SIZE = nodeBits at hbits hin
  by_cases hgt : numBits > nodeBits
  · rw [if_pos hgt, Lib.firstRun_of_lt hgt]
  · rw [if_neg hgt]
    have hloop : ∃ r, Lib.iterate .diverged
        (searchPass node numBits (nodeBits - numBits) ((nodeBits - numBits) / BITMAP_WORD_BITS))
        (nodeBits + 2) 0 = .ok r ∧ r = Lib.firstRun node.freePages.get nodeBits numBits := by
      refine Lib.iterate_total
        (fun curr => curr ≤ nodeBits - numBits ∧ NoRunBefore node numBits curr) _
        (fun curr => nodeBits - curr) ?_ _ _ ⟨Nat.zero_le _, fun p hp => by omega⟩ (by omega)
      rintro curr ⟨hle, hbefore⟩
      rcases searchPass_spec h hn (by omega) hbits hin hle hbefore with
        hdone | ⟨curr', hgo, hlt, hle', hno⟩
      · exact .inl ⟨_, hdone, rfl⟩
      · exact .inr ⟨curr', hgo, ⟨hle', hno⟩, by omega⟩
    obtain ⟨r, hr, rfl⟩ := hloop
    exact hr

end Search

end GunyahRuntime
