/-
# GunyahRuntime.Lib.Bytes -- a memory of bytes at 64-bit addresses

A region is an address and a length, and it goes round: an address is in it if its distance from the first
byte is less than the length, and distances are taken modulo `2^64`. So no lemma below asks a region not to
wrap. Words of up to eight bytes are read and written with the least significant byte first.

`over` writes any bytes over a region. A write of a word is one, and two that adjoin are one, which is how
a sequence of stores that walks up a region becomes a single step.

Nothing here names a program.
-/
import Mathlib.Tactic.Common
import Mathlib.Data.BitVec

namespace GunyahRuntime.Lib

abbrev Addr : Type := BitVec 64

abbrev Mem : Type := Addr → BitVec 8

/-- The address is one of the `n` bytes from `a` on. -/
def Within (a : Addr) (n : Nat) (x : Addr) : Prop := (x - a).toNat < n

instance (a : Addr) (n : Nat) (x : Addr) : Decidable (Within a n x) :=
  inferInstanceAs (Decidable (_ < _))

/-- No byte is in both regions. -/
def RegionsApart (a : Addr) (n : Nat) (b : Addr) (k : Nat) : Prop := ∀ x, Within a n x → ¬ Within b k x

/-- `f` written over the `n` bytes from `a` on. -/
def Mem.over (m : Mem) (a : Addr) (n : Nat) (f : Nat → BitVec 8) : Mem :=
  fun x => if Within a n x then f (x - a).toNat else m x

/-- The word of `w` bytes at `a`, as far as it goes into 64 bits. -/
def Mem.read (m : Mem) (a : Addr) : Nat → BitVec 64
  | 0 => 0
  | w + 1 => (m.read (a + 1) w) <<< 8 ||| (m a).setWidth 64

/-- Byte `i` of a word. -/
def byteOf (v : BitVec 64) (i : Nat) : BitVec 8 := v.extractLsb' (8 * i) 8

/-- The `w` low bytes of `v`, written at `a`. -/
def Mem.write (m : Mem) (a : Addr) (w : Nat) (v : BitVec 64) : Mem := m.over a w (byteOf v)

/-! ## Regions -/

theorem within_add (a : Addr) {i n : Nat} (h : i < n) (hi : i < 18446744073709551616) :
    Within a n (a + BitVec.ofNat 64 i) := by
  unfold Within
  rw [BitVec.add_comm, BitVec.add_sub_cancel, BitVec.toNat_ofNat]
  omega

theorem eq_add_distance (a x : Addr) : x = a + BitVec.ofNat 64 (x - a).toNat := by
  rw [BitVec.ofNat_toNat, BitVec.setWidth_eq, BitVec.add_comm, BitVec.sub_add_cancel]

theorem Within.mono {a x : Addr} {n k : Nat} (h : Within a n x) (hle : n ≤ k) : Within a k x :=
  Nat.lt_of_lt_of_le h hle

/-- A part of a region. -/
theorem Within.of_part {a x : Addr} {i w n : Nat} (h : Within (a + BitVec.ofNat 64 i) w x) (hle : i + w ≤ n)
    (hn : n ≤ 18446744073709551616) : Within a n x := by
  unfold Within at *
  bv_omega

/-- Regions one behind the other, that do not go round. -/
theorem RegionsApart.of_le {a b : Addr} {n k : Nat} (h : a.toNat + n ≤ b.toNat)
    (hfits : b.toNat + k ≤ 18446744073709551616) : RegionsApart a n b k := by
  intro x hx hx'
  unfold Within at hx hx'
  bv_omega

theorem RegionsApart.symm {a b : Addr} {n k : Nat} (h : RegionsApart a n b k) : RegionsApart b k a n :=
  fun x hb ha => h x ha hb

/-! ## Reading -/

/-- A word is its bytes. -/
theorem Mem.read_congr {m m' : Mem} {a : Addr} {w : Nat} (hw : w ≤ 18446744073709551616)
    (h : ∀ x, Within a w x → m x = m' x) : m.read a w = m'.read a w := by
  induction w generalizing a with
  | zero => rfl
  | succ w ih =>
    have hfirst : Within a (w + 1) a := by simp [Within]
    have hrest : ∀ x, Within (a + 1) w x → m x = m' x := fun x hx =>
      h x (hx.of_part (i := 1) (by omega) hw)
    rw [Mem.read, Mem.read, ih (by omega) hrest, h a hfirst]

theorem getLsbD_byteOf (v : BitVec 64) (i : Nat) {k : Nat} (hk : k < 8) :
    (byteOf v i).getLsbD k = v.getLsbD (8 * i + k) := by
  simp only [byteOf, BitVec.getLsbD_extractLsb', hk, decide_true, Bool.true_and]

/-- A word is read a byte at a time: the low byte, and then the word above it. -/
theorem byteOf_read_zero (m : Mem) (a : Addr) (w : Nat) : byteOf (m.read a (w + 1)) 0 = m a := by
  apply BitVec.eq_of_getLsbD_eq
  intro k hk
  rw [getLsbD_byteOf _ _ hk, Mem.read, BitVec.getLsbD_or, BitVec.getLsbD_shiftLeft,
    BitVec.getLsbD_setWidth]
  have hk' : k < 64 := by omega
  simp only [Nat.mul_zero, Nat.zero_add, hk, hk', decide_true, Bool.not_true, Bool.and_false,
    Bool.false_and, Bool.false_or, Bool.true_and]

theorem byteOf_read_succ (m : Mem) (a : Addr) {i : Nat} (w : Nat) (hi : i + 1 < 8) :
    byteOf (m.read a (w + 1)) (i + 1) = byteOf (m.read (a + 1) w) i := by
  apply BitVec.eq_of_getLsbD_eq
  intro k hk
  rw [getLsbD_byteOf _ _ hk, getLsbD_byteOf _ _ hk, Mem.read, BitVec.getLsbD_or,
    BitVec.getLsbD_shiftLeft, BitVec.getLsbD_setWidth,
    BitVec.getLsbD_of_ge (m a) (8 * (i + 1) + k) (by omega)]
  have hlow : ¬ 8 * (i + 1) + k < 8 := by omega
  have hhigh : 8 * (i + 1) + k < 64 := by omega
  have hshift : 8 * (i + 1) + k - 8 = 8 * i + k := by omega
  simp only [hlow, hhigh, hshift, decide_true, decide_false, Bool.not_false, Bool.true_and,
    Bool.and_false, Bool.or_false]

theorem byteOf_read (m : Mem) {a : Addr} {i w : Nat} (hi : i < w) (hw : w ≤ 8) :
    byteOf (m.read a w) i = m (a + BitVec.ofNat 64 i) := by
  induction w generalizing a i with
  | zero => omega
  | succ w ih =>
    cases i with
    | zero => rw [byteOf_read_zero, BitVec.add_zero]
    | succ i =>
      rw [byteOf_read_succ m a w (by omega), ih (by omega) (by omega), BitVec.add_assoc, Nat.add_comm i 1,
        BitVec.ofNat_add]
      rfl

/-- Two words are the same if their bytes are. -/
theorem eq_of_byteOf {v u : BitVec 64} (h : ∀ i < 8, byteOf v i = byteOf u i) : v = u := by
  apply BitVec.eq_of_getLsbD_eq
  intro k hk
  have hbyte := congrArg (fun b : BitVec 8 => b.getLsbD (k % 8)) (h (k / 8) (by omega))
  rwa [getLsbD_byteOf _ _ (Nat.mod_lt _ (by decide)), getLsbD_byteOf _ _ (Nat.mod_lt _ (by decide)),
    Nat.div_add_mod] at hbyte

/-! ## Writing -/

theorem Mem.over_within {m : Mem} {a x : Addr} {n : Nat} {f : Nat → BitVec 8} (h : Within a n x) :
    m.over a n f x = f (x - a).toNat := if_pos h

theorem Mem.over_outside {m : Mem} {a x : Addr} {n : Nat} {f : Nat → BitVec 8} (h : ¬ Within a n x) :
    m.over a n f x = m x := if_neg h

@[simp] theorem Mem.over_nothing (m : Mem) (a : Addr) (f : Nat → BitVec 8) : m.over a 0 f = m := by
  funext x
  exact over_outside (Nat.not_lt_zero _)

/-- Only the bytes that are written matter. -/
theorem Mem.over_congr {m : Mem} {a : Addr} {n : Nat} {f g : Nat → BitVec 8} (h : ∀ i < n, f i = g i) :
    m.over a n f = m.over a n g := by
  funext x
  by_cases hx : Within a n x
  · rw [over_within hx, over_within hx, h _ hx]
  · rw [over_outside hx, over_outside hx]

/-- Writing on where the last write ended. -/
theorem Mem.over_over {m : Mem} {a : Addr} {n k : Nat} {f : Nat → BitVec 8}
    (h : n + k ≤ 18446744073709551616) :
    (m.over a n f).over (a + BitVec.ofNat 64 n) k (fun i => f (n + i)) = m.over a (n + k) f := by
  funext x
  have hdist : Within (a + BitVec.ofNat 64 n) k x →
      n + (x - (a + BitVec.ofNat 64 n)).toNat = (x - a).toNat := by
    unfold Within
    intro hx
    bv_omega
  by_cases hx : Within (a + BitVec.ofNat 64 n) k x
  · rw [over_within hx, over_within (hx.of_part le_rfl h), hdist hx]
  · rw [over_outside hx]
    by_cases hn : Within a n x
    · rw [over_within hn, over_within (hn.mono (Nat.le_add_right _ _))]
    · rw [over_outside hn, over_outside]
      unfold Within at *
      bv_omega

/-- A word is read back. -/
theorem Mem.read_write (m : Mem) (a : Addr) (v : BitVec 64) : (m.write a 8 v).read a 8 = v := by
  apply eq_of_byteOf
  intro i hi
  have hin := within_add a hi (by omega)
  rw [byteOf_read _ hi le_rfl, Mem.write, over_within hin]
  congr 1
  rw [BitVec.add_comm, BitVec.add_sub_cancel, BitVec.toNat_ofNat]
  omega

/-- A word elsewhere stays. -/
theorem Mem.read_over {m : Mem} {a b : Addr} {w n : Nat} {f : Nat → BitVec 8}
    (hw : w ≤ 18446744073709551616) (h : RegionsApart a w b n) : (m.over b n f).read a w = m.read a w :=
  read_congr hw fun x hx => over_outside (h x hx)

theorem Mem.read_write_apart {m : Mem} {a b : Addr} {w n : Nat} {v : BitVec 64}
    (hw : w ≤ 18446744073709551616) (h : RegionsApart a w b n) : (m.write b n v).read a w = m.read a w :=
  read_over hw h

/-! ## Copying and filling -/

/-- The first `k` bytes from `b` on, copied to `a`. -/
def Mem.copied (m : Mem) (a b : Addr) (k : Nat) : Mem := m.over a k fun i => m (b + BitVec.ofNat 64 i)

/-- The first `k` bytes from `a` on, set to `v`. -/
def Mem.filled (m : Mem) (a : Addr) (v : BitVec 8) (k : Nat) : Mem := m.over a k fun _ => v

/-- A region copied to itself. -/
theorem Mem.copied_self (m : Mem) (a : Addr) (k : Nat) : m.copied a a k = m := by
  funext x
  by_cases hx : Within a k x
  · rw [copied, over_within hx, ← eq_add_distance]
  · exact over_outside hx

/-- Writing on with a word. -/
theorem Mem.over_write {m : Mem} {a : Addr} {k w : Nat} {f : Nat → BitVec 8} {u : BitVec 64}
    (hfits : k + w ≤ 18446744073709551616) (h : ∀ i < w, byteOf u i = f (k + i)) :
    (m.over a k f).write (a + BitVec.ofNat 64 k) w u = m.over a (k + w) f := by
  rw [← over_over hfits, Mem.write, over_congr h]

/-- Filling on by a word of which enough bytes are `v`. -/
theorem Mem.filled_write {m : Mem} {a : Addr} {v : BitVec 8} {k w : Nat} {u : BitVec 64}
    (hfits : k + w ≤ 18446744073709551616) (h : ∀ i < w, byteOf u i = v) :
    (m.filled a v k).write (a + BitVec.ofNat 64 k) w u = m.filled a v (k + w) :=
  Mem.over_write hfits h

/-! ## Copying forwards

Byte after byte, each as it is found when its turn comes: where the regions overlap, a byte may have been written over
by then. -/

/-- The memory after `k` turns of copying from `b` to `a`. -/
def Mem.forward (m : Mem) (a b : Addr) : Nat → Mem
  | 0 => m
  | k + 1 => (m.forward a b k).over (a + BitVec.ofNat 64 k) 1 fun _ => m.forward a b k (b + BitVec.ofNat 64 k)

/-- The byte that turn `i` carries over. -/
def Mem.carried (m : Mem) (a b : Addr) (i : Nat) : BitVec 8 := m.forward a b i (b + BitVec.ofNat 64 i)

/-- A byte that is found before its turn, but less than `ahead` turns before, is found as in its turn. -/
def Mem.Settles (m : Mem) (a b : Addr) (ahead n : Nat) : Prop :=
  ∀ k i, k ≤ i → i < k + ahead → i < n → m.forward a b k (b + BitVec.ofNat 64 i) = m.carried a b i

/-- The `n` bytes from `b` on repeat after `d`. -/
def Mem.Repeats (m : Mem) (b : Addr) (d n : Nat) : Prop :=
  ∀ i, i + d < n → m (b + BitVec.ofNat 64 (i + d)) = m (b + BitVec.ofNat 64 i)

section Forward

variable {m : Mem} {a b x : Addr} {k i n ahead : Nat}

theorem Mem.forward_eq_over (hk : k ≤ 18446744073709551616) : m.forward a b k = m.over a k (m.carried a b) := by
  induction k with
  | zero => exact (over_nothing _ _ _).symm
  | succ k ih =>
    have hlast : ∀ i < 1, m.forward a b k (b + BitVec.ofNat 64 k) = m.carried a b (k + i) := by
      intro i hi
      rw [Nat.lt_one_iff.1 hi]
      rfl
    rw [forward, over_congr hlast, ih (by omega), over_over hk]

theorem Mem.forward_outside (hk : k ≤ 18446744073709551616) (hx : ¬ Within a k x) : m.forward a b k x = m x := by
  rw [forward_eq_over hk, over_outside hx]

/-- What a turn carried over stays. -/
theorem Mem.forward_done (hk : k ≤ 18446744073709551616) (hi : i < k) :
    m.forward a b k (a + BitVec.ofNat 64 i) = m.carried a b i := by
  have hin := within_add a hi (by omega)
  rw [forward_eq_over hk, over_within hin]
  congr 1
  rw [BitVec.add_comm, BitVec.add_sub_cancel, BitVec.toNat_ofNat, Nat.mod_eq_of_lt (by omega)]

/-- Some turns later, what they did not write is what it was. -/
theorem Mem.forward_later (hki : k ≤ i) (hi : i ≤ 18446744073709551616)
    (hx : ¬ Within (a + BitVec.ofNat 64 k) (i - k) x) : m.forward a b i x = m.forward a b k x := by
  have hsplit : m.over a i (m.carried a b) = (m.over a k (m.carried a b)).over (a + BitVec.ofNat 64 k) (i - k)
      fun j => m.carried a b (k + j) := by
    rw [over_over (by omega), Nat.add_sub_cancel' hki]
  rw [forward_eq_over hi, hsplit, over_outside hx, ← forward_eq_over (by omega)]

/-- Copying on by a word. -/
theorem Mem.forward_write {w : Nat} {u : BitVec 64} (hfits : k + w ≤ 18446744073709551616)
    (h : ∀ i < w, byteOf u i = m.carried a b (k + i)) :
    (m.forward a b k).write (a + BitVec.ofNat 64 k) w u = m.forward a b (k + w) := by
  rw [forward_eq_over (by omega), forward_eq_over hfits, over_write hfits h]

/-- **How far ahead a byte may be read** depends on how far behind its place in the source its place in the destination
is: a byte is written over when its own place in the destination is written, as many turns later. -/
theorem Mem.settles_of_distance (hn : n ≤ 18446744073709551616)
    (h : (a - b).toNat = 0 ∨ ahead ≤ (a - b).toNat ∨ n ≤ (a - b).toNat) : m.Settles a b ahead n := by
  intro k i hki hahead hi
  refine (forward_later hki (by omega) ?_).symm
  unfold Within
  bv_omega

/-- Where the source repeats after that distance, a byte is written over by its equal. -/
theorem Mem.forward_unread (hn : n ≤ 18446744073709551616) (h : m.Repeats b (a - b).toNat n) (hki : k ≤ i)
    (hi : i < n) : m.forward a b k (b + BitVec.ofNat 64 i) = m (b + BitVec.ofNat 64 i) := by
  induction k generalizing i with
  | zero => rfl
  | succ k ih =>
    rw [forward]
    by_cases hx : Within (a + BitVec.ofNat 64 k) 1 (b + BitVec.ofNat 64 i)
    · have hdistance : i = k + (a - b).toNat := by
        unfold Within at hx
        bv_omega
      rw [over_within hx, ih le_rfl (by omega), hdistance, h k (by omega)]
    · rw [over_outside hx, ih (by omega) hi]

theorem Mem.forward_eq_copied (hn : n ≤ 18446744073709551616) (h : m.Repeats b (a - b).toNat n) :
    m.forward a b n = m.copied a b n := by
  rw [forward_eq_over hn, copied]
  exact over_congr fun i hi => forward_unread hn h le_rfl hi

theorem Mem.settles_of_repeats (hn : n ≤ 18446744073709551616) (h : m.Repeats b (a - b).toNat n) :
    m.Settles a b ahead n := by
  intro k i hki _ hi
  rw [forward_unread hn h hki hi, carried, forward_unread hn h le_rfl hi]

theorem Mem.copied_apply (hn : n ≤ 18446744073709551616) (hi : i < n) :
    m.copied a b n (a + BitVec.ofNat 64 i) = m (b + BitVec.ofNat 64 i) := by
  have hin := within_add a hi (by omega)
  rw [copied, over_within hin, BitVec.add_comm a, BitVec.add_sub_cancel, BitVec.toNat_ofNat,
    Nat.mod_eq_of_lt (by omega)]

/-- **Copying forwards copies exactly the sources that repeat** after the distance of the destination. A destination
that is below the source, or behind it, is so far away that there is nothing to repeat. -/
theorem Mem.forward_copies_iff (hn : n ≤ 18446744073709551616) :
    (∀ i < n, m.forward a b n (a + BitVec.ofNat 64 i) = m (b + BitVec.ofNat 64 i)) ↔
      m.Repeats b (a - b).toNat n := by
  constructor
  · intro h i hi
    rcases Nat.eq_zero_or_pos (a - b).toNat with hzero | hpos
    · rw [hzero, Nat.add_zero]
    · have hplace : b + BitVec.ofNat 64 (i + (a - b).toNat) = a + BitVec.ofNat 64 i := by bv_omega
      have hlate := h (i + (a - b).toNat) hi
      rw [forward_done hn hi, carried, hplace, forward_done (by omega) (by omega), ← forward_done hn (by omega)] at hlate
      rw [hplace, ← hlate, h i (by omega)]
  · intro h i hi
    rw [forward_eq_copied hn h, copied_apply hn hi]

end Forward

end GunyahRuntime.Lib
