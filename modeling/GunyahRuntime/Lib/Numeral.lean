/-
# GunyahRuntime.Lib.Numeral -- reading a numeral

A numeral is a text of digits, the highest first. Reading it is a fold from the left, and it gives back the number
whose digits are written. What a digit looks like is a parameter: all that is asked of the characters is that the
reader tells them apart. Nothing here names a program.
-/
import Mathlib.Data.Nat.Digits.Lemmas

namespace GunyahRuntime.Lib

variable {A : Type*} {base : Nat}

/-- Reads a text of digits. There has to be one. -/
def readNumeral (base : Nat) (value : A → Option Nat) (text : List A) : Option Nat :=
  if text.isEmpty then none else text.foldlM (fun n c => (value c).map (base * n + ·)) 0

/-- The numeral of a number; that of zero has a digit too. -/
def numeral (base : Nat) (digit : Nat → A) (n : Nat) : List A :=
  (if n = 0 then [digit 0] else (Nat.digits base n).map digit).reverse

theorem numeral_ne_nil (base : Nat) (digit : Nat → A) (n : Nat) : numeral base digit n ≠ [] := by
  unfold numeral
  split
  · simp
  · next hpos => simpa using Nat.digits_ne_nil_iff_ne_zero.2 hpos

/-- A number below a power of the base has at most as many digits. -/
theorem length_numeral_le {digit : Nat → A} (hbase : 1 < base) {n k : Nat} (hk : 0 < k) (hn : n < base ^ k) :
    (numeral base digit n).length ≤ k := by
  unfold numeral
  split
  · exact hk
  · rw [List.length_reverse, List.length_map]
    exact (Nat.digits_length_le_iff hbase n).2 hn

theorem foldlM_digits {value : A → Option Nat} {digit : Nat → A} {ds : List Nat}
    (hvalue : ∀ d ∈ ds, value (digit d) = some d) :
    (ds.map digit).reverse.foldlM (fun n c => (value c).map (base * n + ·)) 0 = some (Nat.ofDigits base ds) := by
  induction ds with
  | nil => rfl
  | cons d ds ih =>
    have hd := hvalue d List.mem_cons_self
    have hrest := ih fun e he => hvalue e (List.mem_cons_of_mem _ he)
    rw [List.map_cons, List.reverse_cons, List.foldlM_append, hrest, Nat.ofDigits_cons, Nat.add_comm]
    simp [hd]

/-- **A numeral reads back.** -/
theorem readNumeral_numeral {value : A → Option Nat} {digit : Nat → A} (hbase : 1 < base)
    (hvalue : ∀ d < base, value (digit d) = some d) (n : Nat) :
    readNumeral base value (numeral base digit n) = some n := by
  unfold readNumeral numeral
  split
  · next hzero =>
    subst hzero
    simp [hvalue 0 (by omega)]
  · next hpos =>
    have hne : ((Nat.digits base n).map digit).reverse.isEmpty = false := by
      simpa using Nat.digits_ne_nil_iff_ne_zero.2 hpos
    rw [hne, foldlM_digits fun d hd => hvalue d (Nat.digits_lt_base hbase hd), Nat.ofDigits_digits]
    rfl

/-- Only zero has a leading zero. -/
theorem head_numeral {digit : Nat → A} (hbase : 1 < base) (hdigit : ∀ d < base, digit d = digit 0 → d = 0) {n : Nat}
    (hn : n ≠ 0) : (numeral base digit n).head? ≠ some (digit 0) := by
  have hne : Nat.digits base n ≠ [] := Nat.digits_ne_nil_iff_ne_zero.2 hn
  unfold numeral
  rw [if_neg hn, List.head?_reverse, List.getLast?_map, List.getLast?_eq_some_getLast hne]
  intro hhead
  have hlast := hdigit _ (Nat.digits_lt_base hbase (List.getLast_mem hne)) (Option.some.inj hhead)
  exact Nat.getLast_digit_ne_zero base hn hlast

end GunyahRuntime.Lib
