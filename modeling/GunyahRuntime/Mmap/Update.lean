/-
# GunyahRuntime.Mmap.Update -- `update_mmap_range` is exact

On a range whose bits are all the other way the update flips the range, changes no other bit and keeps
the blocks in step; on any other range an assertion fails. The loop goes a word at a time:
`updateMmapPass_flips` and `updateMmapPass_faults` are its two kinds of pass.
-/
import GunyahRuntime.Mmap.Node

namespace GunyahRuntime

/-- A block is marked as available if there is a free page in it. -/
def MmapNode.InStepAt (node : MmapNode) (j : Nat) : Prop :=
  node.availBlocks.get j = decide (node.freePages.getD j 0#64 ≠ 0#64)

/-- What an update of the bits from `lo` to `hi` does: the bits are `set`, their blocks are in step, and the rest of
the node stays. -/
structure Flips (node node' : MmapNode) (lo hi : Nat) (set : Bool) : Prop where
  same : SameNode node node'
  get : ∀ k, node'.freePages.get k = if lo ≤ k ∧ k < hi then set else node.freePages.get k
  touched : ∀ k, lo ≤ k → k < hi → node'.InStepAt (k / 64)
  kept : ∀ j, (∀ k, lo ≤ k → k < hi → k / 64 ≠ j) → node'.availBlocks.get j = node.availBlocks.get j

theorem Flips.refl (node : MmapNode) (lo : Nat) (set : Bool) : Flips node node lo lo set := by
  refine ⟨SameNode.rfl node, fun k => (if_neg (by omega)).symm, fun k h1 h2 => ?_, fun j _ => rfl⟩
  omega

/-- A block that was in step is in step: its page bits or its own bit may have changed, not one without the other. -/
theorem Flips.inStepAt {node node' : MmapNode} {lo hi : Nat} {set : Bool} (h : Flips node node' lo hi set) {j : Nat}
    (hj : node.InStepAt j) : node'.InStepAt j := by
  by_cases htouched : ∃ k, lo ≤ k ∧ k < hi ∧ k / 64 = j
  · obtain ⟨k, h1, h2, rfl⟩ := htouched
    exact h.touched k h1 h2
  · have hother : ∀ k, lo ≤ k → k < hi → k / 64 ≠ j := fun k h1 h2 hk => htouched ⟨k, h1, h2, hk⟩
    have hword : node'.freePages.getD j 0#64 = 0#64 ↔ node.freePages.getD j 0#64 = 0#64 := by
      rw [Bitmap.word_eq_zero, Bitmap.word_eq_zero]
      refine forall₂_congr fun k hk => ?_
      rw [h.get, if_neg]
      rintro ⟨h1, h2⟩
      exact hother _ h1 h2 (by omega)
    unfold MmapNode.InStepAt at *
    rw [h.kept j hother, hj]
    simp only [ne_eq, hword]

/-- Two ranges that meet. -/
theorem Flips.trans {a b c : MmapNode} {lo mid hi : Nat} {set : Bool} (h : Flips a b lo mid set)
    (h' : Flips b c mid hi set) (hlo : lo ≤ mid) (hhi : mid ≤ hi) : Flips a c lo hi set := by
  refine ⟨h.same.trans h'.same, fun k => ?_, fun k h1 h2 => ?_, fun j hj => ?_⟩
  · rw [h'.get, h.get]
    by_cases hk : lo ≤ k ∧ k < hi
    · rw [if_pos hk]
      by_cases hmid : mid ≤ k ∧ k < hi
      · rw [if_pos hmid]
      · rw [if_neg hmid, if_pos (by omega)]
    · rw [if_neg hk, if_neg (by omega), if_neg (by omega)]
  · -- the second range may share a block with the first
    rcases Nat.lt_or_ge k mid with hlt | hge
    · exact h'.inStepAt (h.touched k h1 hlt)
    · exact h'.touched k hge h2
  · rw [h'.kept j fun k h1 h2 => hj k (hlo.trans h1) h2, h.kept j fun k h1 h2 => hj k h1 (h2.trans_le hhi)]

section Word

variable {node : MmapNode} {bit width : Nat}

/-- A change of the field and of the bit of its block. -/
theorem flips_field {freePages availBlocks : Bitmap} {set : Bool} (hpos : 0 < width) (hword : bit % 64 + width ≤ 64)
    (hpages : freePages.length = node.freePages.length)
    (hblocks : availBlocks.length = node.availBlocks.length)
    (hget : ∀ k, freePages.get k = if bit ≤ k ∧ k < bit + width then set else node.freePages.get k)
    (hblock : availBlocks.get (bit / 64) = decide (freePages.getD (bit / 64) 0#64 ≠ 0#64))
    (hrest : ∀ j, j ≠ bit / 64 → availBlocks.get j = node.availBlocks.get j) :
    Flips node { node with freePages, availBlocks } bit (bit + width) set := by
  refine ⟨⟨rfl, rfl, rfl, hpages, hblocks⟩, hget, fun k h1 h2 => ?_, fun j hj => ?_⟩
  · rw [show k / 64 = bit / 64 by omega]
    exact hblock
  · exact hrest j fun heq => hj bit le_rfl (by omega) heq.symm

/-- One word of used pages is given back: its block has a free page now. -/
theorem updateMmapWord_gives (hblocks : node.freePages.length ≤ 64 * node.availBlocks.length)
    (hfield : FieldOf node.freePages bit width) (hbits : ∀ k < width, node.freePages.get (bit + k) = false) :
    ∃ node', updateMmapWord node bit (bit / 64) width (utilMaskSafe width) true = .ok node' ∧
      Flips node node' bit (bit + width) true := by
  obtain ⟨hpos, hword, hlast, hlen⟩ := id hfield
  have hblock : bit / 64 / 64 < node.availBlocks.length := by omega
  obtain ⟨freePages, hins, hflen, hfget⟩ := bitmapInsert_spec hfield (utilMaskSafe width)
  obtain ⟨availBlocks, hset, halen, haget⟩ := bitmapSet_spec (show bit / 64 < 4294967296 by omega) hblock
  have hget : ∀ k, freePages.get k =
      if bit ≤ k ∧ k < bit + width then true else node.freePages.get k := by
    intro k
    rw [hfget]
    by_cases hk : bit ≤ k ∧ k < bit + width
    · rw [if_pos hk, if_pos hk, getLsbD_utilMaskSafe (by omega), decide_eq_true (by omega)]
    · rw [if_neg hk, if_neg hk]
  have hnonzero : freePages.getD (bit / 64) 0#64 ≠ 0#64 := by
    intro hzero
    have hclear := Bitmap.word_eq_zero.1 hzero (bit % 64) (by omega)
    rw [show 64 * (bit / 64) + bit % 64 = bit by omega, hget, if_pos (by omega)] at hclear
    cases hclear
  refine ⟨{ node with freePages, availBlocks }, ?_, ?_⟩
  · unfold updateMmapWord
    rw [if_pos rfl, bitmapExtract_clear hfield hbits, ok_bind, decide_eq_true rfl, cassert_true,
      ok_bind, hins, ok_bind, hset, ok_bind, pure_ok]
  · refine flips_field hpos hword hflen halen hget ?_ fun j hj => ?_
    · rw [haget, if_pos rfl, decide_eq_true hnonzero]
    · rw [haget, if_neg hj]

/-- One word of free pages is taken: its block stays available while the word is not zero. -/
theorem updateMmapWord_takes (hblocks : node.freePages.length ≤ 64 * node.availBlocks.length)
    (hstep : node.InStepAt (bit / 64)) (hfield : FieldOf node.freePages bit width)
    (hbits : ∀ k < width, node.freePages.get (bit + k) = true) :
    ∃ node', updateMmapWord node bit (bit / 64) width (utilMaskSafe width) false = .ok node' ∧
      Flips node node' bit (bit + width) false := by
  obtain ⟨hpos, hword, hlast, hlen⟩ := id hfield
  have hj32 : bit / 64 < 4294967296 := by omega
  have hblock : bit / 64 / 64 < node.availBlocks.length := by omega
  obtain ⟨freePages, hins, hflen, hfget⟩ := bitmapInsert_spec hfield 0#64
  have hget : ∀ k, freePages.get k =
      if bit ≤ k ∧ k < bit + width then false else node.freePages.get k := by
    intro k
    rw [hfget, BitVec.getLsbD_zero]
  have havail : node.availBlocks.get (bit / 64) = true := by
    refine hstep.trans (decide_eq_true fun hzero => ?_)
    have hclear := Bitmap.word_eq_zero.1 hzero (bit % 64) (by omega)
    have hset := hbits 0 hpos
    rw [show 64 * (bit / 64) + bit % 64 = bit + 0 by omega, hset] at hclear
    cases hclear
  have hload : loadWord freePages (bit / 64) = .ok (freePages.getD (bit / 64) 0#64) :=
    loadWord_ok (by omega)
  by_cases hzero : freePages.getD (bit / 64) 0#64 = 0#64
  · obtain ⟨availBlocks, hclear, halen, haget⟩ := bitmapClear_spec hj32 hblock
    refine ⟨{ node with freePages, availBlocks }, ?_, ?_⟩
    · unfold updateMmapWord
      rw [if_neg (by decide), bitmapIsset_eq hj32 hblock, ok_bind, havail, cassert_true, ok_bind,
        bitmapExtract_set hfield hbits, ok_bind, decide_eq_true rfl, cassert_true, ok_bind, hins,
        ok_bind, hload, ok_bind, if_pos hzero, hclear, ok_bind, pure_ok]
    · refine flips_field hpos hword hflen halen hget ?_ fun j hj => ?_
      · rw [haget, if_pos rfl, decide_eq_false (not_not.2 hzero)]
      · rw [haget, if_neg hj]
  · refine ⟨{ node with freePages }, ?_, ?_⟩
    · unfold updateMmapWord
      rw [if_neg (by decide), bitmapIsset_eq hj32 hblock, ok_bind, havail, cassert_true, ok_bind,
        bitmapExtract_set hfield hbits, ok_bind, decide_eq_true rfl, cassert_true, ok_bind, hins,
        ok_bind, hload, ok_bind, if_neg hzero, pure_ok]
    · refine flips_field hpos hword hflen rfl hget ?_ fun j hj => rfl
      rw [havail, decide_eq_true hzero]

/-- The update of one word, where its bits are all the other way. -/
theorem updateMmapWord_flips (hblocks : node.freePages.length ≤ 64 * node.availBlocks.length)
    (hstep : node.InStepAt (bit / 64)) (hfield : FieldOf node.freePages bit width) {set : Bool}
    (hbits : ∀ k < width, node.freePages.get (bit + k) = !set) :
    ∃ node', updateMmapWord node bit (bit / 64) width (utilMaskSafe width) set = .ok node' ∧
      Flips node node' bit (bit + width) set := by
  cases set with
  | true => exact updateMmapWord_gives hblocks hfield hbits
  | false => exact updateMmapWord_takes hblocks hstep hfield hbits

/-- The update of one word fails an assertion if a bit is the way it is to be set. -/
theorem updateMmapWord_faults (hblocks : node.freePages.length ≤ 64 * node.availBlocks.length)
    (hfield : FieldOf node.freePages bit width) {set : Bool} {k : Nat} (hk : k < width) (hbit : node.freePages.get (bit + k) = set) :
    updateMmapWord node bit (bit / 64) width (utilMaskSafe width) set = .error .assertion := by
  obtain ⟨hpos, hword, hlast, hlen⟩ := id hfield
  obtain ⟨v, hv, hvget⟩ := bitmapExtract_spec hfield
  have hvk : v.getLsbD k = set := by rw [hvget, hbit, decide_eq_true hk, Bool.true_and]
  have hj32 : bit / 64 < 4294967296 := by omega
  have hblock : bit / 64 / 64 < node.availBlocks.length := by omega
  unfold updateMmapWord
  cases set with
  | true =>
    have hne : ¬ v = 0#64 := by
      rintro rfl
      rw [BitVec.getLsbD_zero] at hvk
      cases hvk
    rw [if_pos rfl, hv, ok_bind, decide_eq_false hne, cassert_false, error_bind]
  | false =>
    have hne : ¬ v = utilMaskSafe width := by
      rintro rfl
      rw [getLsbD_utilMaskSafe (by omega), decide_eq_true hk] at hvk
      cases hvk
    rw [if_neg (by decide), bitmapIsset_eq hj32 hblock, ok_bind]
    cases node.availBlocks.get (bit / 64) with
    | false => rw [cassert_false, error_bind]
    | true => rw [cassert_true, ok_bind, hv, ok_bind, decide_eq_false hne, cassert_false, error_bind]

end Word

/-! ## The loop -/

section Loop

variable {node : MmapNode} {startBit numBits : Nat} {set : Bool}

/-- How far the loop has come: `done` bits are flipped, and the next one starts a word. -/
structure UpdateAt (node : MmapNode) (startBit numBits : Nat) (set : Bool)
    (s : MmapNode × Nat × Nat) : Prop where
  flips : Flips node s.1 startBit s.2.1 set
  le : startBit ≤ s.2.1
  sum : s.2.1 + s.2.2 = startBit + numBits
  aligned : s.2.1 = startBit ∨ s.2.1 % 64 = 0 ∨ s.2.2 = 0

/-- A pass with bits left works on a field of its word. -/
theorem updateMmapPass_eq {curr rem : Nat} (halign : curr = startBit ∨ curr % 64 = 0) (hrem : 0 < rem)
    (hlast : curr + rem < 4294967296) (hin : curr + rem ≤ 64 * node.freePages.length) :
    ∃ width, 0 < width ∧ width ≤ rem ∧ ((curr + width) % 64 = 0 ∨ rem - width = 0) ∧
      FieldOf node.freePages curr width ∧
      updateMmapPass startBit set (node, curr, rem) =
        updateMmapWord node curr (curr / 64) width (utilMaskSafe width) set >>= fun node' =>
          .ok (.inl (node', curr + width, rem - width)) := by
  have hmod : curr % 64 < 64 := Nat.mod_lt _ (by decide)
  have hwidth : utilMin rem (sub32 BITMAP_WORD_BITS (curr % BITMAP_WORD_BITS)) =
      min rem (64 - curr % 64) := by
    unfold BITMAP_WORD_BITS
    rw [utilMin_eq, sub32_of_le hmod.le (by decide)]
  have hassert : curr = startBit ∨ curr % BITMAP_WORD_BITS = 0 := halign
  refine ⟨min rem (64 - curr % 64), by omega, by omega, by omega, ⟨by omega, by omega, by omega, by omega⟩,
    ?_⟩
  unfold updateMmapPass
  dsimp only
  rw [if_pos hrem, decide_eq_true hassert, cassert_true, ok_bind, hwidth, u32_of_lt (by omega),
    sub32_of_le (by omega) (by omega)]
  rfl

/-- The start of the loop. -/
theorem UpdateAt.start : UpdateAt node startBit numBits set (node, startBit, numBits) :=
  ⟨Flips.refl _ _ _, le_rfl, rfl, .inl rfl⟩

variable (hblocks : node.freePages.length ≤ 64 * node.availBlocks.length)
  (hstep : ∀ j < node.freePages.length, node.InStepAt j)

include hblocks hstep

/-- A pass over bits that are all the other way goes on. -/
theorem UpdateAt.pass {s : MmapNode × Nat × Nat} (h : UpdateAt node startBit numBits set s)
    (hlast : startBit + numBits < 4294967296) (hin : startBit + numBits ≤ 64 * node.freePages.length)
    (hrem : 0 < s.2.2) :
    (∃ s', updateMmapPass startBit set s = .ok (.inl s') ∧
        UpdateAt node startBit numBits set s' ∧ s'.2.2 < s.2.2 ∧
        ∀ k, s.2.1 ≤ k → k < s'.2.1 → node.freePages.get k = !set) ∨
      (updateMmapPass startBit set s = .error .assertion ∧
        ∃ k, startBit ≤ k ∧ k < startBit + numBits ∧ node.freePages.get k = set) := by
  obtain ⟨mid, curr, rem⟩ := s
  obtain ⟨hflips, hle, hsum, halign⟩ := h
  dsimp only at hflips hle hsum halign hrem
  have hpages : mid.freePages.length = node.freePages.length := hflips.same.pages
  have hin' : curr + rem ≤ 64 * mid.freePages.length := by
    rw [hpages, hsum]
    exact hin
  have hblocks' : mid.freePages.length ≤ 64 * mid.availBlocks.length := by
    rw [hpages, hflips.same.blocks]
    exact hblocks
  obtain ⟨width, hpos, hwle, hend, hfield, hpass⟩ :=
    @updateMmapPass_eq mid startBit set curr rem (halign.imp_right fun h => h.resolve_right (by omega)) hrem
      (by omega) hin'
  have hget : ∀ k, k < width → mid.freePages.get (curr + k) = node.freePages.get (curr + k) := by
    intro k hk
    rw [hflips.get, if_neg (by omega)]
  by_cases hall : ∀ k < width, mid.freePages.get (curr + k) = !set
  · left
    have hstep' : mid.InStepAt (curr / 64) := hflips.inStepAt (hstep _ (by omega))
    obtain ⟨node', hword, hflips'⟩ := updateMmapWord_flips hblocks' hstep' hfield hall
    rw [hword, ok_bind] at hpass
    refine ⟨_, hpass, ⟨hflips.trans hflips' hle (Nat.le_add_right _ _), ?_, ?_, .inr hend⟩, ?_,
      fun k h1 h2 => ?_⟩
    · show startBit ≤ curr + width
      omega
    · show curr + width + (rem - width) = startBit + numBits
      omega
    · show rem - width < rem
      omega
    · have hk : k < curr + width := h2
      have hother := hall (k - curr) (by omega)
      rw [hget _ (by omega), Nat.add_sub_cancel' h1] at hother
      exact hother
  · right
    obtain ⟨k, hk, hbit⟩ : ∃ k, k < width ∧ mid.freePages.get (curr + k) = set := by
      by_contra hnone
      refine hall fun k hk => ?_
      by_contra hbit
      refine hnone ⟨k, hk, ?_⟩
      cases hs : set <;> cases hb : mid.freePages.get (curr + k) <;> simp_all
    rw [updateMmapWord_faults hblocks' hfield hk hbit, error_bind] at hpass
    exact ⟨hpass, curr + k, by omega, by omega, (hget k hk).symm.trans hbit⟩

/-- The whole loop over bits that are all the other way. -/
theorem updateMmapRange_spec (hlast : startBit + numBits < 4294967296)
    (hin : startBit + numBits ≤ 64 * node.freePages.length)
    (hbits : ∀ k, startBit ≤ k → k < startBit + numBits → node.freePages.get k = !set) :
    ∃ node', updateMmapRange node startBit numBits set = .ok node' ∧
      Flips node node' startBit (startBit + numBits) set := by
  have hloop : ∃ s, Lib.iterate .diverged (updateMmapPass startBit set) (numBits + 1)
      (node, startBit, numBits) = .ok s ∧ UpdateAt node startBit numBits set s ∧ s.2.2 = 0 := by
    refine Lib.iterate_total (UpdateAt node startBit numBits set) _ (fun s => s.2.2) ?_ _ _
      UpdateAt.start (by dsimp only; omega)
    rintro ⟨mid, curr, rem⟩ hs
    rcases Nat.eq_zero_or_pos rem with hzero | hpos
    · exact .inl ⟨_, if_neg (by omega), hs, hzero⟩
    · rcases hs.pass hblocks hstep hlast hin hpos with ⟨s', hnext, hs', hlt, -⟩ | ⟨-, k, h1, h2, hk⟩
      · exact .inr ⟨s', hnext, hs', hlt⟩
      · rw [hbits k h1 h2] at hk
        cases set <;> cases hk
  obtain ⟨⟨node', curr, rem⟩, hrun, hat, hrem⟩ := hloop
  obtain ⟨hflips, -, hsum, -⟩ := hat
  dsimp only at hrem hsum hflips
  have hcurr : curr = startBit + numBits := by omega
  refine ⟨node', ?_, hcurr ▸ hflips⟩
  unfold updateMmapRange
  rw [hrun, ok_bind]
  dsimp only
  rw [u32_of_lt hlast, decide_eq_true hcurr, cassert_true, ok_bind, decide_eq_true hrem, cassert_true,
    ok_bind, pure_ok]

end Loop

/-! ## The update of a heap -/

section Heap

variable {node : MmapNode} {startBit numBits : Nat} {set : Bool}

/-- What flipping the bits from `lo` to `hi` to `set` does to a node in step. -/
structure Flipped (node node' : MmapNode) (lo hi : Nat) (set : Bool) : Prop where
  inStep : node'.InStep
  same : SameNode node node'
  get : ∀ k, node'.freePages.get k = if lo ≤ k ∧ k < hi then set else node.freePages.get k

theorem Flips.flipped {node' : MmapNode} {lo hi : Nat} (h : Flips node node' lo hi set) (hstep : node.InStep) :
    Flipped node node' lo hi set := by
  refine ⟨⟨fun j => h.inStepAt (hstep.avail j), ?_⟩, h.same, h.get⟩
  rw [h.same.pages, h.same.blocks]
  exact hstep.blocks

/-- **`update_mmap_range` flips its range**, if all its bits are the other way. -/
theorem updateMmapRange_flips (h : node.InStep) (hlast : startBit + numBits < 4294967296)
    (hin : startBit + numBits ≤ 64 * node.freePages.length)
    (hbits : ∀ k, startBit ≤ k → k < startBit + numBits → node.freePages.get k = !set) :
    ∃ node', updateMmapRange node startBit numBits set = .ok node' ∧
      Flipped node node' startBit (startBit + numBits) set := by
  obtain ⟨node', hrun, hflips⟩ := updateMmapRange_spec h.blocks (fun j _ => h.avail j) hlast hin hbits
  exact ⟨node', hrun, hflips.flipped h⟩

/-- **`update_mmap_range` fails an assertion** if a bit of its range is already the way it is to be. -/
theorem updateMmapRange_faults (h : node.InStep) (hlast : startBit + numBits < 4294967296)
    (hin : startBit + numBits ≤ 64 * node.freePages.length) {bit : Nat} (h1 : startBit ≤ bit)
    (h2 : bit < startBit + numBits) (hbit : node.freePages.get bit = set) :
    updateMmapRange node startBit numBits set = .error .assertion := by
  -- until it fails, the loop has not come past the bit
  have hloop : Lib.iterate .diverged (updateMmapPass startBit set) (numBits + 1)
      (node, startBit, numBits) = .error .assertion := by
    refine Lib.iterate_faults (fun s => UpdateAt node startBit numBits set s ∧ s.2.1 ≤ bit)
      (fun s => s.2.2) ?_ _ _ ⟨UpdateAt.start, h1⟩ (by dsimp only; omega)
    rintro ⟨mid, curr, rem⟩ ⟨hs, hcurr⟩
    have hsum := hs.sum
    dsimp only at hcurr hsum
    rcases hs.pass h.blocks (fun j _ => h.avail j) hlast hin (by dsimp only; omega) with
      ⟨s', hnext, hs', hlt, hother⟩ | ⟨hfault, -⟩
    · refine .inr ⟨s', hnext, ⟨hs', ?_⟩, hlt⟩
      by_contra hpast
      have hflipped := hother bit hcurr (by omega)
      rw [hbit] at hflipped
      cases set <;> cases hflipped
    · exact .inl hfault
  unfold updateMmapRange
  rw [hloop, error_bind]

/-- **The update of a range is exact.** In a heap whose blocks are in step with its pages, an update of pages that are
all the other way sets the bits of the range and no other, and leaves the blocks in step. No more is asked of
`avail_blocks` than a bit for each word of `free_pages`: what comes behind them is left alone. -/
theorem updateMmapRange_exact (hblocks : node.freePages.length ≤ 64 * node.availBlocks.length)
    (hpages : u32 (node.size / PAGE_SIZE) ≤ 64 * node.freePages.length)
    (hstep : ∀ j < node.freePages.length,
      node.availBlocks.get j = true ↔ node.freePages.getD j 0#64 ≠ 0#64)
    (hin : startBit + numBits ≤ u32 (node.size / PAGE_SIZE))
    (hbits : ∀ k, startBit ≤ k → k < startBit + numBits → node.freePages.get k = !set) :
    ∃ node', updateMmapRange node startBit numBits set = .ok node' ∧ SameNode node node' ∧
      (∀ k, node'.freePages.get k = if startBit ≤ k ∧ k < startBit + numBits then set else node.freePages.get k) ∧
      (∀ j < node.freePages.length, node'.availBlocks.get j = true ↔ node'.freePages.getD j 0#64 ≠ 0#64) ∧
      ∀ j, node.freePages.length ≤ j → node'.availBlocks.get j = node.availBlocks.get j := by
  have hlast : startBit + numBits < 4294967296 := hin.trans_lt (u32_lt _)
  have hat : ∀ j < node.freePages.length, node.InStepAt j := by
    intro j hj
    exact Bool.eq_iff_iff.2 ((hstep j hj).trans decide_eq_true_iff.symm)
  obtain ⟨node', hrun, hflips⟩ := updateMmapRange_spec hblocks hat hlast (hin.trans hpages) hbits
  refine ⟨node', hrun, hflips.same, hflips.get, fun j hj => ?_, fun j hj => hflips.kept j fun k h1 h2 => ?_⟩
  · exact (Bool.eq_iff_iff.1 (hflips.inStepAt (hat j hj))).trans decide_eq_true_iff
  · omega

end Heap

/-- A heap of 130 pages, the first four of them metadata. Behind the blocks of its words, a bit is set for none. -/
def heapOf130 : MmapNode :=
  ⟨4096, 532480, [15#64], [18446744073709551600#64, 18446744073709551615#64, 3#64], 16384⟩

/-- Pages in three words are taken. -/
theorem updateMmapRange_exact_130 : ∃ node', updateMmapRange heapOf130 60 70 false = .ok node' ∧
    node'.freePages.get 59 = true ∧ node'.freePages.get 60 = false ∧ node'.freePages.get 129 = false ∧
      node'.availBlocks.get 3 = true := by
  obtain ⟨node', hrun, -, hget, -, hrest⟩ := @updateMmapRange_exact heapOf130 60 70 false (by decide) (by decide)
    (by decide +kernel) (by decide) (by decide +kernel)
  exact ⟨node', hrun, (hget 59).trans (by decide), (hget 60).trans (by decide), (hget 129).trans (by decide),
    (hrest 3 (by decide)).trans (by decide)⟩

end GunyahRuntime
