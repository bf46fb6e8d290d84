/-
# GunyahRuntime.Lib.Ranges -- half-open ranges of numbers

An allocator hands out ranges of addresses. A list of ranges covers the numbers that lie in one of
them; if no two overlap, the sizes add up to the number of covered numbers, so two such lists that cover
the same numbers have the same total (`total_eq_of_covers`). Every accounting argument about ranges is an
instance: one shows what is covered, and never adds anything up. `cut` takes a range out of a list, the
pieces of what it splits staying.

Nothing here names a program.
-/
import Mathlib.Tactic.Common
import Mathlib.Algebra.GroupWithZero.Nat
import Mathlib.Order.Interval.Finset.Nat

namespace GunyahRuntime.Lib

/-- The numbers from `base` on, `size` of them. -/
structure Range where
  base : Nat
  size : Nat
  deriving DecidableEq, Repr

namespace Range

/-- The first number after the range. -/
def stop (r : Range) : Nat := r.base + r.size

instance : Membership Nat Range := ⟨fun r x => r.base ≤ x ∧ x < r.stop⟩

theorem mem_iff {r : Range} {x : Nat} : x ∈ r ↔ r.base ≤ x ∧ x < r.stop := Iff.rfl

instance (r : Range) (x : Nat) : Decidable (x ∈ r) := decidable_of_iff' _ mem_iff

/-- One range ends where the other begins, or before. -/
def Apart (r s : Range) : Prop := r.stop ≤ s.base ∨ s.stop ≤ r.base

instance (r s : Range) : Decidable (r.Apart s) := inferInstanceAs (Decidable (_ ∨ _))

/-- `r` lies in `s`. -/
def Inside (r s : Range) : Prop := s.base ≤ r.base ∧ r.stop ≤ s.stop

instance (r s : Range) : Decidable (r.Inside s) := inferInstanceAs (Decidable (_ ∧ _))

theorem Apart.symm {r s : Range} (h : r.Apart s) : s.Apart r := Or.symm h

instance : Std.Symm Range.Apart := ⟨fun _ _ => Apart.symm⟩

theorem Apart.not_mem {r s : Range} (h : r.Apart s) {x : Nat} (hx : x ∈ r) : x ∉ s := by
  rw [mem_iff] at *
  rcases h with h | h <;> omega

/-- Ranges that hold something and share nothing are apart. -/
theorem apart_of_not_mem {r s : Range} (hr : 0 < r.size) (hs : 0 < s.size)
    (h : ∀ x ∈ r, x ∉ s) : r.Apart s := by
  have hbase := h r.base ⟨le_rfl, Nat.lt_add_of_pos_right hr⟩
  have hstart : s.base ∉ r := fun hx => h s.base hx ⟨le_rfl, Nat.lt_add_of_pos_right hs⟩
  rw [mem_iff] at hbase hstart
  unfold Apart
  unfold stop at *
  omega

theorem Inside.mem {r s : Range} (h : r.Inside s) {x : Nat} (hx : x ∈ r) : x ∈ s :=
  ⟨h.1.trans hx.1, hx.2.trans_le h.2⟩

/-- A range that holds something lies in a range that holds all of it. -/
theorem inside_of_mem {r s : Range} (hr : 0 < r.size) (h : ∀ x ∈ r, x ∈ s) : r.Inside s := by
  have hfirst := h r.base ⟨le_rfl, Nat.lt_add_of_pos_right hr⟩
  have hlast := h (r.stop - 1) (by rw [mem_iff]; unfold stop; omega)
  rw [mem_iff] at hfirst hlast
  unfold Inside
  omega

theorem Inside.trans {r s t : Range} (h : r.Inside s) (h' : s.Inside t) : r.Inside t :=
  ⟨h'.1.trans h.1, h.2.trans h'.2⟩

theorem Apart.of_inside {r s t : Range} (h : r.Apart s) (ht : t.Inside r) : t.Apart s := by
  obtain ⟨h1, h2⟩ := ht
  unfold Apart at *
  omega

end Range

open Range

/-! ## What a list of ranges covers -/

/-- `x` lies in one of the ranges. -/
def Covers (L : List Range) (x : Nat) : Prop := ∃ r ∈ L, x ∈ r

instance (L : List Range) (x : Nat) : Decidable (Covers L x) :=
  inferInstanceAs (Decidable (∃ r ∈ L, x ∈ r))

@[simp] theorem covers_nil (x : Nat) : ¬ Covers [] x := by
  rintro ⟨r, hr, -⟩
  cases hr

@[simp] theorem covers_cons (r : Range) (L : List Range) (x : Nat) :
    Covers (r :: L) x ↔ x ∈ r ∨ Covers L x := by
  simp [Covers]

@[simp] theorem covers_append (L M : List Range) (x : Nat) :
    Covers (L ++ M) x ↔ Covers L x ∨ Covers M x := by
  simp [Covers, or_and_right, exists_or]

/-- The sizes of a list of ranges, added up. -/
def total (L : List Range) : Nat := (L.map Range.size).sum

@[simp] theorem total_nil : total [] = 0 := rfl

@[simp] theorem total_cons (r : Range) (L : List Range) : total (r :: L) = r.size + total L := by
  simp [total]

@[simp] theorem total_append (L M : List Range) : total (L ++ M) = total L + total M := by
  simp [total]

theorem sum_eq_total {α : Type*} {L : List α} {f : α → Range} {g : α → Nat} (h : ∀ a ∈ L, g a = (f a).size) :
    (L.map g).sum = total (L.map f) := by
  induction L with
  | nil => rfl
  | cons a L ih =>
    rw [List.map_cons, List.sum_cons, List.map_cons, total_cons, h a List.mem_cons_self,
      ih fun b hb => h b (List.mem_cons_of_mem _ hb)]

/-- The covered numbers. -/
def cells (L : List Range) : Finset Nat := L.foldr (fun r s => Finset.Ico r.base r.stop ∪ s) ∅

theorem mem_cells {L : List Range} {x : Nat} : x ∈ cells L ↔ Covers L x := by
  induction L with
  | nil => simp [cells]
  | cons r L ih =>
    show x ∈ Finset.Ico r.base r.stop ∪ cells L ↔ _
    rw [Finset.mem_union, Finset.mem_Ico, ih, covers_cons, Range.mem_iff]

/-- Without overlaps, the total counts the covered numbers. -/
theorem card_cells {L : List Range} (h : L.Pairwise Apart) : (cells L).card = total L := by
  induction L with
  | nil => rfl
  | cons r L ih =>
    obtain ⟨hr, hL⟩ := List.pairwise_cons.1 h
    have hdisj : Disjoint (Finset.Ico r.base r.stop) (cells L) := by
      rw [Finset.disjoint_left]
      intro x hx hcov
      obtain ⟨s, hs, hxs⟩ := mem_cells.1 hcov
      exact (hr s hs).not_mem (Finset.mem_Ico.1 hx) hxs
    show (Finset.Ico r.base r.stop ∪ cells L).card = _
    rw [Finset.card_union_of_disjoint hdisj, ih hL, Nat.card_Ico, total_cons, Range.stop,
      Nat.add_sub_cancel_left]

/-- **Two lists without overlaps that cover the same numbers have the same total.** -/
theorem total_eq_of_covers {L M : List Range} (hL : L.Pairwise Apart) (hM : M.Pairwise Apart)
    (h : ∀ x, Covers L x ↔ Covers M x) : total L = total M := by
  have hcells : cells L = cells M := by
    ext x
    rw [mem_cells, mem_cells, h]
  rw [← card_cells hL, ← card_cells hM, hcells]

theorem cells_append (L M : List Range) : cells (L ++ M) = cells L ∪ cells M := by
  ext x
  rw [Finset.mem_union, mem_cells, mem_cells, mem_cells, covers_append]

theorem covers_flatten (Ns : List (List Range)) (x : Nat) : Covers Ns.flatten x ↔ ∃ M ∈ Ns, Covers M x := by
  unfold Covers
  constructor
  · rintro ⟨r, hr, hx⟩
    obtain ⟨M, hM, hr⟩ := List.mem_flatten.1 hr
    exact ⟨M, hM, r, hr, hx⟩
  · rintro ⟨M, hM, r, hr, hx⟩
    exact ⟨r, List.mem_flatten.2 ⟨M, hM, hr⟩, hx⟩

/-- The numbers of several lists are counted list by list, if no number is covered twice. -/
theorem card_cells_flatten {Ns : List (List Range)} (hNs : ∀ M ∈ Ns, M.Pairwise Apart)
    (hdisj : Ns.Pairwise fun M N => ∀ x, Covers M x → ¬ Covers N x) :
    (cells Ns.flatten).card = (Ns.map total).sum := by
  induction Ns with
  | nil => rfl
  | cons M Ns ih =>
    obtain ⟨hM, hrest⟩ := List.pairwise_cons.1 hdisj
    have hdisjoint : Disjoint (cells M) (cells Ns.flatten) := by
      rw [Finset.disjoint_left]
      intro x hx hx'
      obtain ⟨N, hN, hxN⟩ := (covers_flatten Ns x).1 (mem_cells.1 hx')
      exact hM N hN x (mem_cells.1 hx) hxN
    have hcard : (cells M).card = total M := card_cells (hNs M List.mem_cons_self)
    have hsum := ih (fun N hN => hNs N (List.mem_cons_of_mem _ hN)) hrest
    rw [List.flatten_cons, cells_append, Finset.card_union_of_disjoint hdisjoint, hcard, hsum, List.map_cons,
      List.sum_cons]

/-- **What several lists share out between them adds up.** -/
theorem total_eq_sum {L : List Range} (hL : L.Pairwise Apart) {Ms : List (List Range)}
    (hMs : ∀ M ∈ Ms, M.Pairwise Apart)
    (hdisj : Ms.Pairwise fun M N => ∀ x, Covers M x → ¬ Covers N x)
    (h : ∀ x, Covers L x ↔ ∃ M ∈ Ms, Covers M x) : total L = (Ms.map total).sum := by
  have hcells : cells L = cells Ms.flatten := by
    ext x
    rw [mem_cells, mem_cells, h, covers_flatten]
  rw [← card_cells hL, hcells, card_cells_flatten hMs hdisj]

/-- Ranges without overlaps have no more numbers than lie before the end of all of them. -/
theorem total_le_of_stop {L : List Range} (h : L.Pairwise Apart) {n : Nat}
    (hn : ∀ r ∈ L, r.stop ≤ n) : total L ≤ n := by
  have hsub : cells L ⊆ Finset.range n := by
    intro x hx
    obtain ⟨r, hr, hx⟩ := mem_cells.1 hx
    exact Finset.mem_range.2 (hx.2.trans_le (hn r hr))
  rw [← card_cells h, ← Finset.card_range n]
  exact Finset.card_le_card hsub

/-- There are no more ranges than numbers, if none is empty. -/
theorem length_le_total {L : List Range} (h : ∀ r ∈ L, 0 < r.size) : L.length ≤ total L := by
  induction L with
  | nil => exact le_rfl
  | cons r L ih =>
    have hr := h r List.mem_cons_self
    have hrest := ih fun s hs => h s (List.mem_cons_of_mem _ hs)
    rw [List.length_cons, total_cons]
    omega

/-- Two of the ranges that share a number are the same. -/
theorem eq_of_mem {L : List Range} (h : L.Pairwise Apart) {r s : Range} (hr : r ∈ L) (hs : s ∈ L)
    {x : Nat} (hx : x ∈ r) (hx' : x ∈ s) : r = s := by
  by_contra hne
  exact (h.forall hr hs hne).not_mem hx hx'

theorem le_total {L : List Range} {r : Range} (hr : r ∈ L) : r.size ≤ total L := by
  induction L with
  | nil => cases hr
  | cons s L ih =>
    rw [total_cons]
    rcases List.mem_cons.1 hr with rfl | hr
    · exact Nat.le_add_right _ _
    · exact (ih hr).trans (Nat.le_add_left _ _)

/-! ## Cutting a range out -/

/-- The parts of `r` before and after `s`. -/
def Range.minus (r s : Range) : List Range :=
  (if r.base < min r.stop s.base then [⟨r.base, min r.stop s.base - r.base⟩] else []) ++
    if max r.base s.stop < r.stop then [⟨max r.base s.stop, r.stop - max r.base s.stop⟩] else []

/-- A list of ranges with `s` taken out of each. -/
def cut (L : List Range) (s : Range) : List Range := L.flatMap (·.minus s)

/-- A piece lies before or after what was cut out, and ends where the range or the cut does. -/
theorem Range.mem_minus {r s p : Range} (h : p ∈ r.minus s) :
    0 < p.size ∧
      ((p.base = r.base ∧ p.stop = min r.stop s.base) ∨
        (p.base = max r.base s.stop ∧ p.stop = r.stop)) := by
  unfold Range.minus at h
  rcases List.mem_append.1 h with h | h
  · split at h
    · next hlt =>
      obtain rfl := List.mem_singleton.1 h
      refine ⟨Nat.sub_pos_of_lt hlt, .inl ⟨rfl, ?_⟩⟩
      exact Nat.add_sub_cancel' hlt.le
    · cases h
  · split at h
    · next hlt =>
      obtain rfl := List.mem_singleton.1 h
      refine ⟨Nat.sub_pos_of_lt hlt, .inr ⟨rfl, ?_⟩⟩
      exact Nat.add_sub_cancel' hlt.le
    · cases h

theorem Range.minus_inside {r s p : Range} (h : p ∈ r.minus s) : p.Inside r := by
  obtain ⟨hpos, hend⟩ := mem_minus h
  unfold Inside
  unfold Range.stop at *
  omega

theorem Range.minus_apart {r s p : Range} (h : p ∈ r.minus s) : p.Apart s := by
  obtain ⟨hpos, hend⟩ := mem_minus h
  unfold Apart
  unfold Range.stop at *
  omega

/-- The numbers from `a` on, before `b`, if there are any. -/
theorem covers_between (a b x : Nat) : Covers (if a < b then [⟨a, b - a⟩] else []) x ↔ a ≤ x ∧ x < b := by
  split
  · rw [covers_cons, mem_iff]
    simp only [stop, covers_nil, or_false]
    omega
  · simp only [covers_nil, false_iff]
    omega

theorem Range.covers_minus (r s : Range) (x : Nat) : Covers (r.minus s) x ↔ x ∈ r ∧ x ∉ s := by
  unfold Range.minus
  rw [covers_append, covers_between, covers_between, mem_iff, mem_iff]
  omega

/-- The two pieces of a range do not overlap, if something was cut out between them. -/
theorem Range.minus_pairwise (r s : Range) : (r.minus s).Pairwise Apart := by
  unfold Range.minus
  split
  · split
    · refine List.pairwise_pair.2 ?_
      unfold Apart Range.stop at *
      dsimp only
      omega
    · exact List.pairwise_singleton _ _
  · split
    · exact List.pairwise_singleton _ _
    · exact List.Pairwise.nil

theorem mem_cut {L : List Range} {s p : Range} : p ∈ cut L s ↔ ∃ r ∈ L, p ∈ r.minus s :=
  List.mem_flatMap

theorem covers_cut (L : List Range) (s : Range) (x : Nat) :
    Covers (cut L s) x ↔ Covers L x ∧ x ∉ s := by
  induction L with
  | nil => simp [cut]
  | cons r L ih =>
    show Covers (r.minus s ++ cut L s) x ↔ _
    rw [covers_append, Range.covers_minus, ih, covers_cons, or_and_right]

theorem cut_apart {L : List Range} {s p : Range} (h : p ∈ cut L s) : p.Apart s := by
  obtain ⟨r, -, hp⟩ := mem_cut.1 h
  exact Range.minus_apart hp

/-- Cutting keeps ranges apart. -/
theorem cut_pairwise {L : List Range} (h : L.Pairwise Apart) (s : Range) :
    (cut L s).Pairwise Apart := by
  induction L with
  | nil => exact List.Pairwise.nil
  | cons r L ih =>
    obtain ⟨hr, hL⟩ := List.pairwise_cons.1 h
    refine List.pairwise_append.2 ⟨r.minus_pairwise s, ih hL, fun p hp q hq => ?_⟩
    obtain ⟨t, ht, hq⟩ := mem_cut.1 hq
    have hpt : p.Apart t := (hr t ht).of_inside (Range.minus_inside hp)
    exact (hpt.symm.of_inside (Range.minus_inside hq)).symm

/-- **A covered range takes its size out of the total.** -/
theorem total_cut {L : List Range} (h : L.Pairwise Apart) {s : Range}
    (hs : ∀ x ∈ s, Covers L x) : total (cut L s) + s.size = total L := by
  have hpair : (s :: cut L s).Pairwise Apart :=
    List.pairwise_cons.2 ⟨fun p hp => (cut_apart hp).symm, cut_pairwise h s⟩
  have hsame : ∀ x, Covers (s :: cut L s) x ↔ Covers L x := by
    intro x
    rw [covers_cons, covers_cut]
    constructor
    · rintro (hx | ⟨hx, -⟩)
      · exact hs x hx
      · exact hx
    · intro hx
      by_cases hxs : x ∈ s
      · exact .inl hxs
      · exact .inr ⟨hx, hxs⟩
  have htotal := total_eq_of_covers hpair h hsame
  rw [total_cons] at htotal
  omega

end GunyahRuntime.Lib
