/-
# GunyahRuntime.Bitmap -- bitmaps of 64-bit words (`bitmap.c`)

A bitmap is the list of its words. Its bits are read through `Bitmap.get`, and every operation has one
lemma that says what it answers, or which bits it changes, in terms of `get`: nothing above this module
looks into a word. `bitmap_find_first` is the one with a loop; `bitmapFindFirst_eq` says that it is the
scan of the interval, bit by bit.
-/
import GunyahRuntime.Machine
import GunyahRuntime.Lib.Loop
import GunyahRuntime.Lib.Runs

namespace GunyahRuntime

abbrev Bitmap : Type := List (BitVec 64)

def BITMAP_WORD_BITS : Nat := 64

/-- `BITMAP_NUM_WORDS(x)`. -/
def bitmapNumWords (x : Nat) : Nat := sub32 (u32 (x + BITMAP_WORD_BITS)) 1 / BITMAP_WORD_BITS

/-- `BITMAP_WORD(x)`. -/
def bitmapWord (x : Nat) : Nat := x / BITMAP_WORD_BITS

/-- `BITMAP_SET_BIT(x)`. -/
def bitmapSetBit (x : Nat) : BitVec 64 := 1#64 <<< (x % BITMAP_WORD_BITS)

/-- `util_mask(n)`. -/
def utilMask (n : Nat) : BitVec 64 := (1#64 <<< n) - 1#64

/-- `util_mask_safe(n)`. -/
def utilMaskSafe (n : Nat) : BitVec 64 := if n < 64 then utilMask n else ~~~0#64

/-- `BITMAP_SIZE_ASSERT(bitmap, bit)`, for an object whose size the compiler does not know:
`compiler_sizeof_object` is then `(size_t)-1`. -/
def bitmapSizeAssert (bit : Nat) : Exec Unit := cassert (u32 (18446744073709551615 / 8) > bitmapWord bit)

/-- `bitmap[i]`. -/
def loadWord (bitmap : Bitmap) (i : Nat) : Exec (BitVec 64) :=
  match bitmap[i]? with
  | some w => .ok w
  | none => .error .badRead

/-- `bitmap[i] = w`. -/
def storeWord (bitmap : Bitmap) (i : Nat) (w : BitVec 64) : Exec Bitmap :=
  if i < bitmap.length then .ok (bitmap.set i w) else .error .badWrite

/-- `bitmap_isset(bitmap, bit)`. -/
def bitmapIsset (bitmap : Bitmap) (bit : Nat) : Exec Bool := do
  bitmapSizeAssert bit
  let w ← loadWord bitmap (bitmapWord bit)
  return (w &&& bitmapSetBit bit) ≠ 0#64

/-- `bitmap_set(bitmap, bit)`. -/
def bitmapSet (bitmap : Bitmap) (bit : Nat) : Exec Bitmap := do
  bitmapSizeAssert bit
  let w ← loadWord bitmap (bitmapWord bit)
  storeWord bitmap (bitmapWord bit) (w ||| bitmapSetBit bit)

/-- `bitmap_clear(bitmap, bit)`. -/
def bitmapClear (bitmap : Bitmap) (bit : Nat) : Exec Bitmap := do
  bitmapSizeAssert bit
  let w ← loadWord bitmap (bitmapWord bit)
  storeWord bitmap (bitmapWord bit) (w &&& ~~~bitmapSetBit bit)

/-- `bit + width - 1U`. -/
def lastBit (bit width : Nat) : Nat := sub32 (u32 (bit + width)) 1

/-- The two assertions of `bitmap_extract` and `bitmap_insert`. -/
def bitmapFieldAssert (bit width : Nat) : Exec Unit := do
  bitmapSizeAssert (lastBit bit width)
  cassert (width ≤ BITMAP_WORD_BITS ∧ bitmapWord bit = bitmapWord (lastBit bit width))

/-- `bitmap_extract(bitmap, bit, width)`. -/
def bitmapExtract (bitmap : Bitmap) (bit width : Nat) : Exec (BitVec 64) := do
  bitmapFieldAssert bit width
  let w ← loadWord bitmap (bitmapWord bit)
  return (w >>> (bit % BITMAP_WORD_BITS)) &&& utilMaskSafe width

/-- `bitmap_insert(bitmap, bit, width, value)`. -/
def bitmapInsert (bitmap : Bitmap) (bit width : Nat) (value : BitVec 64) : Exec Bitmap := do
  bitmapFieldAssert bit width
  let w ← loadWord bitmap (bitmapWord bit)
  let mask := utilMaskSafe width
  let w := w &&& ~~~(mask <<< (bit % BITMAP_WORD_BITS))
  storeWord bitmap (bitmapWord bit) (w ||| ((value &&& mask) <<< (bit % BITMAP_WORD_BITS)))

/-- `compiler_ctz(x)`. -/
def compilerCtz (x : BitVec 64) : Exec Nat := do
  cassert (x ≠ 0#64)
  return x.ctz.toNat

/-- `compiler_clz(x)`. -/
def compilerClz (x : BitVec 64) : Exec Nat := do
  cassert (x ≠ 0#64)
  return x.clz.toNat

/-- `compiler_msb(x)`. -/
def compilerMsb (x : BitVec 64) : Exec Nat := do
  let n ← compilerClz x
  return sub64 63 n

/-- The word of `bitmap_find_first` in which a bit is looked for. -/
def findWord (startBit : Nat) (set : Bool) (i : Nat) (w : BitVec 64) : BitVec 64 :=
  let x := if set then w else ~~~w
  -- Mask out the bits to be skipped.
  if i = bitmapWord startBit then x &&& ~~~utilMask (startBit % BITMAP_WORD_BITS) else x

/-- A word in which there is one. -/
def findBit (endBit i : Nat) (x : BitVec 64) : Exec (Option Nat) := do
  let j ← compilerCtz x
  cassert (j < BITMAP_WORD_BITS)
  let bit := u32 (u32 (i * BITMAP_WORD_BITS) + j)
  return if bit ≤ endBit then some bit else none

/-- One pass of the loop of `bitmap_find_first`. -/
def findFirstPass (bitmap : Bitmap) (startBit endBit : Nat) (set : Bool) (words i : Nat) :
    Exec (Nat ⊕ Option Nat) :=
  if i < words then do
    let w ← loadWord bitmap i
    let x := findWord startBit set i w
    if x ≠ 0#64 then do
      let ret ← findBit endBit i x
      return .inr ret
    else
      return .inl (u32 (i + 1))
  else
    .ok (.inr none)

/-- `bitmap_find_first(bitmap, start_bit, end_bit, set, ret_bit)`: `none` is `false`, with `*ret_bit` as
it was. -/
def bitmapFindFirst (bitmap : Bitmap) (startBit endBit : Nat) (set : Bool) : Exec (Option Nat) := do
  cassert (startBit ≤ endBit)
  bitmapSizeAssert endBit
  let words := bitmapNumWords (u32 (endBit + 1))
  Lib.iterate .diverged (findFirstPass bitmap startBit endBit set words) (words + 1)
    (bitmapWord startBit)

/-- `bitmap_ffs(bitmap, start_bit, end_bit, ret_bit)`. -/
def bitmapFfs (bitmap : Bitmap) (startBit endBit : Nat) : Exec (Option Nat) :=
  bitmapFindFirst bitmap startBit endBit true

/-- `bitmap_ffc(bitmap, start_bit, end_bit, ret_bit)`. -/
def bitmapFfc (bitmap : Bitmap) (startBit endBit : Nat) : Exec (Option Nat) :=
  bitmapFindFirst bitmap startBit endBit false

/-! ## Bits -/

/-- A bit of a bitmap; past its end all are clear. -/
def Bitmap.get (bitmap : Bitmap) (bit : Nat) : Bool :=
  (bitmap.getD (bit / 64) 0#64).getLsbD (bit % 64)

theorem getLsbD_utilMask {n : Nat} (hn : n < 64) (k : Nat) :
    (utilMask n).getLsbD k = decide (k < n) := by
  have hle : 2 ^ n < 2 ^ 64 := Nat.pow_lt_pow_right (by decide) hn
  have hpos : 0 < 2 ^ n := Nat.two_pow_pos n
  have hnat : (utilMask n).toNat = 2 ^ n - 1 := by
    unfold utilMask
    rw [BitVec.toNat_sub, BitVec.toNat_shiftLeft]
    simp only [BitVec.toNat_ofNat, Nat.shiftLeft_eq]
    omega
  rw [BitVec.getLsbD, hnat, Nat.testBit_two_pow_sub_one]

theorem getLsbD_utilMaskSafe {n : Nat} (hn : n ≤ 64) (k : Nat) :
    (utilMaskSafe n).getLsbD k = decide (k < n) := by
  unfold utilMaskSafe
  split
  · next hlt => exact getLsbD_utilMask hlt k
  · obtain rfl : n = 64 := by omega
    rw [BitVec.getLsbD_not, BitVec.getLsbD_zero, Bool.not_false, Bool.and_true]

theorem getLsbD_bitmapSetBit (x k : Nat) :
    (bitmapSetBit x).getLsbD k = decide (k = x % 64) := by
  have hx : x % 64 < 64 := Nat.mod_lt _ (by decide)
  unfold bitmapSetBit BITMAP_WORD_BITS
  rw [BitVec.getLsbD_shiftLeft, BitVec.getLsbD_one]
  by_cases hk : k = x % 64
  · simp [hk, hx]
  · have hne : ¬ (k - x % 64 = 0 ∧ x % 64 ≤ k) := by omega
    simp only [hk, decide_false]
    by_cases hle : x % 64 ≤ k
    · have hsub : ¬ k - x % 64 = 0 := by omega
      simp [hsub]
    · simp [Nat.lt_of_not_le hle]

theorem loadWord_ok {bitmap : Bitmap} {i : Nat} (h : i < bitmap.length) :
    loadWord bitmap i = .ok (bitmap.getD i 0#64) := by
  unfold loadWord
  rw [List.getD_eq_getElem?_getD, List.getElem?_eq_getElem h]
  rfl

theorem loadWord_bit {bitmap : Bitmap} {bit : Nat} (h : bit / 64 < bitmap.length) :
    loadWord bitmap (bitmapWord bit) = .ok (bitmap.getD (bit / 64) 0#64) := loadWord_ok h

theorem storeWord_ok {bitmap : Bitmap} {i : Nat} (h : i < bitmap.length) (w : BitVec 64) :
    storeWord bitmap i w = .ok (bitmap.set i w) := if_pos h

/-- Indices that fit their type never fail the assertion. -/
theorem bitmapSizeAssert_ok {bit : Nat} (h : bit < 4294967296) : bitmapSizeAssert bit = .ok () := by
  have hword : u32 (18446744073709551615 / 8) > bitmapWord bit := by
    unfold u32 bitmapWord BITMAP_WORD_BITS
    omega
  unfold bitmapSizeAssert
  rw [decide_eq_true hword]
  rfl

/-- Storing a word changes the bits of that word. -/
theorem Bitmap.get_set {bitmap : Bitmap} {i : Nat} (h : i < bitmap.length) (w : BitVec 64) (k : Nat) :
    Bitmap.get (bitmap.set i w) k = if k / 64 = i then w.getLsbD (k % 64) else bitmap.get k := by
  unfold Bitmap.get
  rw [List.getD_eq_getElem?_getD, List.getElem?_set]
  by_cases hk : k / 64 = i
  · rw [if_pos hk.symm, if_pos h, if_pos hk]
    rfl
  · rw [if_neg (Ne.symm hk), if_neg hk, List.getD_eq_getElem?_getD]

/-- A word is zero if its bits are clear. -/
theorem Bitmap.word_eq_zero {bitmap : Bitmap} {i : Nat} :
    bitmap.getD i 0#64 = 0#64 ↔ ∀ k < 64, bitmap.get (64 * i + k) = false := by
  have hat : ∀ k < 64, bitmap.get (64 * i + k) = (bitmap.getD i 0#64).getLsbD k := by
    intro k hk
    unfold Bitmap.get
    rw [show (64 * i + k) / 64 = i by omega, show (64 * i + k) % 64 = k by omega]
  constructor
  · intro h k hk
    rw [hat k hk, h]
    exact BitVec.getLsbD_zero
  · intro h
    apply BitVec.eq_of_getLsbD_eq
    intro k hk
    rw [← hat k hk, h k hk]
    exact BitVec.getLsbD_zero.symm

/-! ## One bit -/

section Bit

variable {bitmap : Bitmap} {bit : Nat}

theorem bitmapIsset_eq (hbit : bit < 4294967296) (hlen : bit / 64 < bitmap.length) :
    bitmapIsset bitmap bit = .ok (bitmap.get bit) := by
  unfold bitmapIsset
  rw [bitmapSizeAssert_ok hbit, ok_bind, loadWord_bit hlen, ok_bind, pure_ok]
  congr 1
  unfold Bitmap.get
  generalize bitmap.getD (bit / 64) 0#64 = w
  have hmod : bit % 64 < 64 := Nat.mod_lt _ (by decide)
  cases hw : w.getLsbD (bit % 64) with
  | true =>
    refine decide_eq_true fun hzero => ?_
    have hset : (w &&& bitmapSetBit bit).getLsbD (bit % 64) = true := by
      rw [BitVec.getLsbD_and, hw, getLsbD_bitmapSetBit, decide_eq_true rfl, Bool.and_self]
    rw [hzero, BitVec.getLsbD_zero] at hset
    cases hset
  | false =>
    refine decide_eq_false (not_not.2 (BitVec.eq_of_getLsbD_eq fun k _ => ?_))
    rw [BitVec.getLsbD_and, getLsbD_bitmapSetBit, BitVec.getLsbD_zero]
    by_cases hk : k = bit % 64
    · rw [hk, hw, Bool.false_and]
    · rw [decide_eq_false hk, Bool.and_false]

/-- The words before and after a change of bit `bit`, in terms of `get`. -/
theorem get_set_bit (hlen : bit / 64 < bitmap.length) {w : BitVec 64} {b : Bool}
    (hw : ∀ k < 64, w.getLsbD k =
      if k = bit % 64 then b else (bitmap.getD (bit / 64) 0#64).getLsbD k) (k : Nat) :
    Bitmap.get (bitmap.set (bit / 64) w) k = if k = bit then b else bitmap.get k := by
  rw [Bitmap.get_set hlen]
  by_cases hword : k / 64 = bit / 64
  · rw [if_pos hword, hw _ (Nat.mod_lt _ (by decide))]
    unfold Bitmap.get
    rw [hword]
    by_cases hk : k = bit
    · rw [if_pos hk, if_pos (by rw [hk])]
    · rw [if_neg hk, if_neg (by omega)]
  · rw [if_neg hword, if_neg (by rintro rfl; exact hword rfl)]

theorem bitmapSet_spec (hbit : bit < 4294967296) (hlen : bit / 64 < bitmap.length) :
    ∃ bitmap', bitmapSet bitmap bit = .ok bitmap' ∧ bitmap'.length = bitmap.length ∧
      ∀ k, bitmap'.get k = if k = bit then true else bitmap.get k := by
  refine ⟨bitmap.set (bit / 64) (bitmap.getD (bit / 64) 0#64 ||| bitmapSetBit bit), ?_,
    List.length_set, get_set_bit hlen fun k _ => ?_⟩
  · unfold bitmapSet
    rw [bitmapSizeAssert_ok hbit, ok_bind, loadWord_bit hlen, ok_bind]
    exact storeWord_ok hlen _
  · rw [BitVec.getLsbD_or, getLsbD_bitmapSetBit]
    by_cases hk : k = bit % 64
    · rw [if_pos hk, decide_eq_true hk, Bool.or_true]
    · rw [if_neg hk, decide_eq_false hk, Bool.or_false]

theorem bitmapClear_spec (hbit : bit < 4294967296) (hlen : bit / 64 < bitmap.length) :
    ∃ bitmap', bitmapClear bitmap bit = .ok bitmap' ∧ bitmap'.length = bitmap.length ∧
      ∀ k, bitmap'.get k = if k = bit then false else bitmap.get k := by
  refine ⟨bitmap.set (bit / 64) (bitmap.getD (bit / 64) 0#64 &&& ~~~bitmapSetBit bit), ?_,
    List.length_set, get_set_bit hlen fun k hlt => ?_⟩
  · unfold bitmapClear
    rw [bitmapSizeAssert_ok hbit, ok_bind, loadWord_bit hlen, ok_bind]
    exact storeWord_ok hlen _
  · rw [BitVec.getLsbD_and, BitVec.getLsbD_not, getLsbD_bitmapSetBit, decide_eq_true hlt,
      Bool.true_and]
    by_cases hk : k = bit % 64
    · rw [if_pos hk, decide_eq_true hk, Bool.not_true, Bool.and_false]
    · rw [if_neg hk, decide_eq_false hk, Bool.not_false, Bool.and_true]

end Bit

/-! ## A field inside a word -/

/-- A field of a bitmap: not empty, inside one word, inside the bitmap. -/
structure FieldOf (bitmap : Bitmap) (bit width : Nat) : Prop where
  pos : 0 < width
  word : bit % 64 + width ≤ 64
  last : bit + width ≤ 4294967296
  inside : bit / 64 < bitmap.length

section Field

variable {bitmap : Bitmap} {bit width : Nat} (h : FieldOf bitmap bit width)

include h

theorem bitmapFieldAssert_ok : bitmapFieldAssert bit width = .ok () := by
  obtain ⟨hpos, hword, hlast, -⟩ := h
  have hbit : lastBit bit width = bit + width - 1 := by
    unfold lastBit sub32 u32
    omega
  have hsame : width ≤ BITMAP_WORD_BITS ∧ bitmapWord bit = bitmapWord (bit + width - 1) := by
    unfold bitmapWord BITMAP_WORD_BITS
    omega
  unfold bitmapFieldAssert
  rw [hbit, bitmapSizeAssert_ok (by omega), ok_bind, decide_eq_true hsame]
  rfl

theorem bitmapExtract_spec :
    ∃ v, bitmapExtract bitmap bit width = .ok v ∧
      ∀ k, v.getLsbD k = (decide (k < width) && bitmap.get (bit + k)) := by
  obtain ⟨hpos, hword, hlast, hlen⟩ := id h
  refine ⟨bitmap.getD (bit / 64) 0#64 >>> (bit % 64) &&& utilMaskSafe width, ?_, fun k => ?_⟩
  · unfold bitmapExtract
    rw [bitmapFieldAssert_ok h, ok_bind, loadWord_bit hlen, ok_bind]
    rfl
  · rw [BitVec.getLsbD_and, getLsbD_utilMaskSafe (by omega), BitVec.getLsbD_ushiftRight,
      Bool.and_comm]
    by_cases hk : k < width
    · unfold Bitmap.get
      rw [show (bit + k) / 64 = bit / 64 by omega, show (bit + k) % 64 = bit % 64 + k by omega]
    · rw [decide_eq_false hk, Bool.false_and, Bool.false_and]

/-- The field reads as zero if all its bits are clear. -/
theorem bitmapExtract_clear (hbits : ∀ k < width, bitmap.get (bit + k) = false) :
    bitmapExtract bitmap bit width = .ok 0#64 := by
  obtain ⟨v, hv, hget⟩ := bitmapExtract_spec h
  rw [hv]
  congr 1
  apply BitVec.eq_of_getLsbD_eq
  intro k _
  rw [hget, BitVec.getLsbD_zero]
  by_cases hk : k < width
  · rw [hbits k hk, Bool.and_false]
  · rw [decide_eq_false hk, Bool.false_and]

/-- The field reads as the mask if all its bits are set. -/
theorem bitmapExtract_set (hbits : ∀ k < width, bitmap.get (bit + k) = true) :
    bitmapExtract bitmap bit width = .ok (utilMaskSafe width) := by
  obtain ⟨v, hv, hget⟩ := bitmapExtract_spec h
  have hword := h.word
  rw [hv]
  congr 1
  apply BitVec.eq_of_getLsbD_eq
  intro k _
  rw [hget, getLsbD_utilMaskSafe (by omega)]
  by_cases hk : k < width
  · rw [hbits k hk, Bool.and_true]
  · rw [decide_eq_false hk, Bool.false_and]

theorem bitmapInsert_spec (value : BitVec 64) :
    ∃ bitmap', bitmapInsert bitmap bit width value = .ok bitmap' ∧
      bitmap'.length = bitmap.length ∧
      ∀ k, bitmap'.get k =
        if bit ≤ k ∧ k < bit + width then value.getLsbD (k - bit) else bitmap.get k := by
  obtain ⟨hpos, hword, hlast, hlen⟩ := id h
  refine ⟨bitmap.set (bit / 64) (bitmap.getD (bit / 64) 0#64 &&& ~~~(utilMaskSafe width <<< (bit % 64))
    ||| (value &&& utilMaskSafe width) <<< (bit % 64)), ?_, List.length_set, fun k => ?_⟩
  · unfold bitmapInsert
    rw [bitmapFieldAssert_ok h, ok_bind, loadWord_bit hlen, ok_bind]
    exact storeWord_ok hlen _
  · rw [Bitmap.get_set hlen]
    have hmod : k % 64 < 64 := Nat.mod_lt _ (by decide)
    by_cases hsame : k / 64 = bit / 64
    · rw [if_pos hsame, BitVec.getLsbD_or, BitVec.getLsbD_and, BitVec.getLsbD_not,
        BitVec.getLsbD_shiftLeft, BitVec.getLsbD_shiftLeft, BitVec.getLsbD_and,
        getLsbD_utilMaskSafe (by omega)]
      unfold Bitmap.get
      rw [hsame, decide_eq_true hmod, Bool.true_and, Bool.true_and]
      -- in the word, the field is the positions from `bit % 64` on
      by_cases hk : bit ≤ k ∧ k < bit + width
      · have hge : ¬ k % 64 < bit % 64 := by omega
        have hlt : k % 64 - bit % 64 < width := by omega
        rw [if_pos hk, show k - bit = k % 64 - bit % 64 by omega]
        simp [hge, hlt]
      · rw [if_neg hk]
        by_cases hge : k % 64 < bit % 64
        · simp [hge]
        · have hlt : ¬ k % 64 - bit % 64 < width := by omega
          simp [hge, hlt]
    · rw [if_neg hsame, if_neg (by omega)]

end Field

/-! ## The first bit of an interval -/

/-- In the word that is looked at, the bits of the polarity sought from `startBit` on. -/
theorem getLsbD_findWord {startBit : Nat} (set : Bool) {i : Nat} (w : BitVec 64) {k : Nat} (hk : k < 64)
    (hi : startBit / 64 ≤ i) :
    (findWord startBit set i w).getLsbD k =
      (decide (w.getLsbD k = set) && decide (startBit ≤ 64 * i + k)) := by
  have hx : (if set then w else ~~~w).getLsbD k = decide (w.getLsbD k = set) := by
    cases set with
    | true => exact Bool.decide_eq_true.symm
    | false =>
      show (~~~w).getLsbD k = _
      rw [BitVec.getLsbD_not, decide_eq_true hk, Bool.true_and]
      exact Bool.decide_eq_false.symm
  have hmod : startBit % 64 < 64 := Nat.mod_lt _ (by decide)
  unfold findWord bitmapWord BITMAP_WORD_BITS
  dsimp only
  split
  · next hword =>
    have hiff : k < startBit % 64 ↔ ¬ startBit ≤ 64 * i + k := by omega
    rw [BitVec.getLsbD_and, hx, BitVec.getLsbD_not, getLsbD_utilMask hmod, decide_eq_true hk,
      Bool.true_and, ← decide_not]
    simp only [hiff, not_not]
  · next hword =>
    rw [hx, decide_eq_true (show startBit ≤ 64 * i + k by omega), Bool.and_true]

theorem compilerCtz_spec {x : BitVec 64} (hx : x ≠ 0#64) :
    ∃ j, compilerCtz x = .ok j ∧ j < 64 ∧ x.getLsbD j = true ∧ ∀ k < j, x.getLsbD k = false := by
  refine ⟨x.ctz.toNat, ?_, ?_, BitVec.getLsbD_true_ctz_of_ne_zero hx,
    fun k hk => BitVec.getLsbD_false_of_lt_ctz hk⟩
  · unfold compilerCtz
    rw [decide_eq_true hx]
    rfl
  · have hlt := BitVec.ctz_lt_iff_ne_zero.2 hx
    exact hlt

theorem compilerMsb_spec {x : BitVec 64} (hx : x ≠ 0#64) :
    ∃ j, compilerMsb x = .ok j ∧ j < 64 ∧ x.getLsbD j = true := by
  have hlt : x.clz.toNat < 64 := BitVec.clz_lt_iff_ne_zero.2 hx
  have hset := BitVec.getLsbD_true_clz_of_ne_zero (by decide) hx
  have hclz : compilerClz x = .ok x.clz.toNat := by
    unfold compilerClz
    rw [decide_eq_true hx]
    rfl
  refine ⟨63 - x.clz.toNat, ?_, by omega, hset⟩
  unfold compilerMsb
  rw [hclz, ok_bind, sub64_of_le (by omega) (by decide), pure_ok]

section Find

variable {bitmap : Bitmap} {startBit endBit : Nat} {set : Bool}

/-- The bits that are sought. -/
def Bitmap.is (bitmap : Bitmap) (set : Bool) (bit : Nat) : Bool := decide (bitmap.get bit = set)

/-- A pass that finds no bit goes on to the next word, and one that finds a bit answers. -/
theorem findFirstPass_spec (hend : endBit < 4294967232) (hlen : endBit / 64 < bitmap.length) {i : Nat}
    (hstart : startBit / 64 ≤ i) (hi : i ≤ endBit / 64)
    (hbefore : ∀ j, startBit ≤ j → j < 64 * i → bitmap.is set j = false) :
    (findFirstPass bitmap startBit endBit set (endBit / 64 + 1) i =
        .ok (.inr (Lib.firstBit (bitmap.is set) startBit endBit))) ∨
      (findFirstPass bitmap startBit endBit set (endBit / 64 + 1) i = .ok (.inl (i + 1)) ∧
        ∀ j, startBit ≤ j → j < 64 * (i + 1) → bitmap.is set j = false) := by
  have hget : ∀ k < 64, (findWord startBit set i (bitmap.getD i 0#64)).getLsbD k =
      (bitmap.is set (64 * i + k) && decide (startBit ≤ 64 * i + k)) := by
    intro k hk
    rw [getLsbD_findWord set _ hk hstart]
    unfold Bitmap.is Bitmap.get
    rw [show (64 * i + k) / 64 = i by omega, show (64 * i + k) % 64 = k by omega]
  unfold findFirstPass
  rw [if_pos (by omega), loadWord_ok (by omega), ok_bind]
  dsimp only
  generalize findWord startBit set i (bitmap.getD i 0#64) = x at hget
  by_cases hx : x = 0#64
  · right
    rw [if_neg (not_not.2 hx), pure_ok, u32_of_lt (by omega)]
    refine ⟨rfl, fun j h1 h2 => ?_⟩
    rcases Nat.lt_or_ge j (64 * i) with hlt | hge
    · exact hbefore j h1 hlt
    · have hbit := hget (j - 64 * i) (by omega)
      rw [hx, BitVec.getLsbD_zero, Nat.add_sub_cancel' hge, decide_eq_true h1, Bool.and_true] at hbit
      exact hbit.symm
  · left
    obtain ⟨j, hctz, hj, hset, hclear⟩ := compilerCtz_spec hx
    have hbit : u32 (u32 (i * BITMAP_WORD_BITS) + j) = 64 * i + j := by
      unfold u32 BITMAP_WORD_BITS
      omega
    rw [hget j hj, Bool.and_eq_true, decide_eq_true_iff] at hset
    have hmin : ∀ k, startBit ≤ k → k < 64 * i + j → bitmap.is set k = false := by
      intro k h1 h2
      rcases Nat.lt_or_ge k (64 * i) with hlt | hge
      · exact hbefore k h1 hlt
      · have hword := hclear (k - 64 * i) (by omega)
        rw [hget _ (by omega), Nat.add_sub_cancel' hge, decide_eq_true h1, Bool.and_true] at hword
        exact hword
    rw [if_pos hx]
    unfold findBit
    rw [hctz, ok_bind, decide_eq_true (show j < BITMAP_WORD_BITS from hj), cassert_true, ok_bind]
    dsimp only
    rw [hbit, pure_ok, ok_bind, pure_ok]
    congr 2
    split
    · next hle => exact (Lib.firstBit_eq_some.2 ⟨hset.1, hset.2, hle, hmin⟩).symm
    · next hgt =>
      exact (Lib.firstBit_eq_none.2 fun k h1 h2 => hmin k h1 (by omega)).symm

/-- **`bitmap_find_first` is the scan of the interval.** The loop has come to word `i` when no bit of the
words before it will do. -/
theorem bitmapFindFirst_eq (hle : startBit ≤ endBit) (hend : endBit < 4294967232)
    (hlen : endBit / 64 < bitmap.length) :
    bitmapFindFirst bitmap startBit endBit set =
      .ok (Lib.firstBit (bitmap.is set) startBit endBit) := by
  have hwords : bitmapNumWords (u32 (endBit + 1)) = endBit / 64 + 1 := by
    unfold bitmapNumWords sub32 u32 BITMAP_WORD_BITS
    omega
  unfold bitmapFindFirst
  rw [decide_eq_true hle, cassert_true, ok_bind, bitmapSizeAssert_ok (by omega), ok_bind]
  dsimp only
  rw [hwords]
  have hloop : ∃ r, Lib.iterate .diverged
      (findFirstPass bitmap startBit endBit set (endBit / 64 + 1)) (endBit / 64 + 1 + 1)
      (bitmapWord startBit) = .ok r ∧ r = Lib.firstBit (bitmap.is set) startBit endBit := by
    refine Lib.iterate_total
      (fun i => startBit / 64 ≤ i ∧ i ≤ endBit / 64 + 1 ∧
        ∀ j, startBit ≤ j → j < 64 * i → bitmap.is set j = false) _
      (fun i => endBit / 64 + 1 - i) ?_ _ _ ?_ (by omega)
    · rintro i ⟨hstart, hi, hbefore⟩
      rcases Nat.lt_or_ge i (endBit / 64 + 1) with hlt | hge
      · rcases findFirstPass_spec hend hlen hstart (by omega) hbefore with hdone | ⟨hnext, hclear⟩
        · exact .inl ⟨_, hdone, rfl⟩
        · exact .inr ⟨i + 1, hnext, ⟨by omega, by omega, hclear⟩, by omega⟩
      · left
        refine ⟨none, if_neg (by omega), ?_⟩
        exact (Lib.firstBit_eq_none.2 fun j h1 h2 => hbefore j h1 (by omega)).symm
    · unfold bitmapWord BITMAP_WORD_BITS
      exact ⟨le_rfl, by omega, fun j h1 h2 => by omega⟩
  obtain ⟨r, hr, rfl⟩ := hloop
  exact hr

end Find

/-! ## The search with its answer -/

/-- The value returned, and `*ret_bit` afterwards. -/
def storeRetBit (retBit : Nat) (found : Option Nat) : Bool × Nat := (found.isSome, found.getD retBit)

/-- What the search answers: the first bit of the interval that is `set`, with `*ret_bit` as it was if there is
none. -/
def FirstBit (bitmap : Bitmap) (startBit endBit : Nat) (set : Bool) (retBit : Nat) (r : Bool × Nat) : Prop :=
  (r.1 = true ∧ startBit ≤ r.2 ∧ r.2 ≤ endBit ∧ bitmap.get r.2 = set ∧
      ∀ k, startBit ≤ k → k ≤ endBit → bitmap.get k = set → r.2 ≤ k) ∨
    (r = (false, retBit) ∧ ∀ k, startBit ≤ k → k ≤ endBit → bitmap.get k ≠ set)

theorem firstBit_spec (bitmap : Bitmap) (startBit endBit : Nat) (set : Bool) (retBit : Nat) :
    FirstBit bitmap startBit endBit set retBit
      (storeRetBit retBit (Lib.firstBit (bitmap.is set) startBit endBit)) := by
  cases hfound : Lib.firstBit (bitmap.is set) startBit endBit with
  | some bit =>
    obtain ⟨hset, h1, h2, hmin⟩ := Lib.firstBit_eq_some.1 hfound
    refine .inl ⟨rfl, h1, h2, of_decide_eq_true hset, fun k hk1 hk2 hk => ?_⟩
    by_contra hlt
    exact of_decide_eq_false (hmin k hk1 (Nat.not_le.1 hlt)) hk
  | none =>
    refine .inr ⟨rfl, fun k h1 h2 => ?_⟩
    exact of_decide_eq_false (Lib.firstBit_eq_none.1 hfound k h1 h2)

/-- The scan looks at the bits of the interval. -/
theorem firstBit_congr {bits bits' : Nat → Bool} {startBit endBit : Nat}
    (h : ∀ k, startBit ≤ k → k ≤ endBit → bits k = bits' k) :
    Lib.firstBit bits startBit endBit = Lib.firstBit bits' startBit endBit := by
  cases hfound : Lib.firstBit bits' startBit endBit with
  | some bit =>
    obtain ⟨hset, h1, h2, hmin⟩ := Lib.firstBit_eq_some.1 hfound
    refine Lib.firstBit_eq_some.2 ⟨(h bit h1 h2).trans hset, h1, h2, fun k hk1 hk2 => ?_⟩
    exact (h k hk1 (by omega)).trans (hmin k hk1 hk2)
  | none =>
    refine Lib.firstBit_eq_none.2 fun k h1 h2 => ?_
    exact (h k h1 h2).trans (Lib.firstBit_eq_none.1 hfound k h1 h2)

/-- **The search is exact.** In either polarity it returns the first bit of the interval, or returns false and leaves
`*ret_bit` alone. Its shift stays below the width of a word, and two bitmaps that agree on the interval give the same
answer, whatever else is in their words. -/
theorem bitmapFind_exact {bitmap : Bitmap} {startBit endBit : Nat} (hle : startBit ≤ endBit)
    (hend : endBit < 4294967232) (hin : endBit < 64 * bitmap.length) (set : Bool) (retBit : Nat) :
    ∃ found, (if set then bitmapFfs bitmap startBit endBit else bitmapFfc bitmap startBit endBit) = .ok found ∧
      FirstBit bitmap startBit endBit set retBit (storeRetBit retBit found) ∧
      startBit % BITMAP_WORD_BITS < BITMAP_WORD_BITS ∧
      ∀ other : Bitmap, endBit < 64 * other.length →
        (∀ k, startBit ≤ k → k ≤ endBit → other.get k = bitmap.get k) →
        (if set then bitmapFfs other startBit endBit else bitmapFfc other startBit endBit) = .ok found := by
  have hfind : ∀ b : Bitmap, endBit < 64 * b.length →
      (if set then bitmapFfs b startBit endBit else bitmapFfc b startBit endBit) =
        .ok (Lib.firstBit (b.is set) startBit endBit) := by
    intro b hb
    have hlen : endBit / 64 < b.length := by omega
    cases set with
    | true => exact bitmapFindFirst_eq hle hend hlen
    | false => exact bitmapFindFirst_eq hle hend hlen
  refine ⟨_, hfind bitmap hin, firstBit_spec bitmap startBit endBit set retBit, Nat.mod_lt _ (by decide),
    fun other hother hsame => ?_⟩
  rw [hfind other hother]
  congr 1
  apply firstBit_congr
  intro k h1 h2
  unfold Bitmap.is
  rw [hsame k h1 h2]

/-- The first clear bit is in another word than the start. -/
theorem bitmapFind_exact_ffc : ∃ found, bitmapFfc [18446744073709551615#64, 11#64] 5 70 = .ok found ∧
    storeRetBit 0 found = (true, 66) := by
  obtain ⟨found, hrun, hfirst, -⟩ := @bitmapFind_exact [18446744073709551615#64, 11#64] 5 70 (by decide) (by decide)
    (by decide) false 0
  refine ⟨found, hrun, ?_⟩
  rcases hfirst with ⟨hfound, h1, h2, hbit, hmin⟩ | ⟨-, hnone⟩
  · have hle := hmin 66 (by decide) (by decide) (by decide)
    have hsame : (storeRetBit 0 found).2 = 66 := by
      by_contra hne
      have hset : ∀ k, 5 ≤ k → k < 66 → Bitmap.get [18446744073709551615#64, 11#64] k = true := by decide +kernel
      rw [hset _ h1 (by omega)] at hbit
      cases hbit
    exact Prod.ext hfound hsame
  · exact absurd (by decide) (hnone 66 (by decide) (by decide))

end GunyahRuntime
