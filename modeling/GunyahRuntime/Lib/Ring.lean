/-
# GunyahRuntime.Lib.Ring -- a circular buffer with a gap, and the newest elements of a stream

A ring of `n` cells holds `n - 1` elements behind one gap; its reading starts just after the gap. The
one fact about it is `ring_store`: a message written from the gap on, in at most two pieces, drops as
many of the oldest elements as it is long. `lastN` is the abstract side, the newest `n` elements of a
stream, with the law by which a bounded reader of a growing stream is updated. Nothing here names a
program.
-/
import GunyahRuntime.Lib.Patch

namespace GunyahRuntime.Lib

variable {α : Type*}

/-- Reading a list circularly from just after `w`: the tail, then the head. -/
theorem getElem?_circular {l : List α} {w i : Nat} (hw : w < l.length)
    (hi : i < l.length - 1) :
    (l.drop (w + 1) ++ l.take w)[i]? =
      l[if w + 1 + i < l.length then w + 1 + i else w + 1 + i - l.length]? := by
  rw [List.getElem?_append, List.length_drop, List.getElem?_drop]
  by_cases h : w + 1 + i < l.length
  · rw [if_pos (by omega), if_pos h]
  · rw [if_neg (by omega), if_neg h, List.getElem?_take_of_lt (by omega)]
    congr 1
    omega

/-- **One message into a ring.** The ring `B` has its gap at `w`. Writing `x` from the gap on, wrapping
at the end, and moving the gap to just after it pushes the oldest `x.length` elements out of the
circular reading and puts `x` at its end. -/
theorem ring_store {B x : List α} {w : Nat} (hw : w < B.length) (hx : x.length < B.length) :
    let first := min (B.length - w) x.length
    let B₂ := patch (patch B w (x.take first)) 0 (x.drop first)
    let w' := if w + x.length ≥ B.length then w + x.length - B.length else w + x.length
    B₂.drop (w' + 1) ++ B₂.take w' = (B.drop (w + 1) ++ B.take w).drop x.length ++ x := by
  intro first B₂ w'
  have hw' : w' = if w + x.length ≥ B.length then w + x.length - B.length else w + x.length := rfl
  have hfirst : first = min (B.length - w) x.length := rfl
  have ht : (x.take first).length = first := by rw [List.length_take]; omega
  have hd : (x.drop first).length = x.length - first := List.length_drop
  have h₁ : w + (x.take first).length ≤ B.length := by omega
  have h₂ : 0 + (x.drop first).length ≤ (patch B w (x.take first)).length := by
    rw [length_patch h₁]; omega
  have hlen : B₂.length = B.length := by rw [length_patch h₂, length_patch h₁]
  have hget : ∀ j, B₂[j]? = if j < x.length - first then x[first + j]?
      else if w ≤ j ∧ j < w + first then x[j - w]? else B[j]? := by
    intro j
    rw [getElem?_patch h₂, getElem?_patch h₁, hd, ht, Nat.zero_add, List.getElem?_drop,
      Nat.sub_zero]
    by_cases hj : j < x.length - first
    · rw [if_pos ⟨Nat.zero_le _, hj⟩, if_pos hj]
    · rw [if_neg (fun h => hj h.2), if_neg hj]
      by_cases hj' : w ≤ j ∧ j < w + first
      · rw [if_pos hj', if_pos hj', List.getElem?_take_of_lt (by omega)]
      · rw [if_neg hj', if_neg hj']
  clear_value first w' B₂
  have hold : (B.drop (w + 1) ++ B.take w).length = B.length - 1 := by
    rw [List.length_append, List.length_drop, List.length_take]; omega
  have hw'lt : w' < B₂.length := by rw [hw', hlen]; split <;> omega
  apply List.ext_getElem?
  intro i
  by_cases hi : i < B.length - 1
  · rw [getElem?_circular hw'lt (by omega), hlen, hget, List.getElem?_append, List.length_drop, hold]
    by_cases hlt : i < B.length - 1 - x.length
    · -- an old byte that survives
      rw [if_pos hlt, List.getElem?_drop, getElem?_circular hw (by omega)]
      split at hw' <;> split_ifs <;> first | omega | (congr 1; omega)
    · -- a byte of the message
      rw [if_neg hlt]
      split at hw' <;> split_ifs <;> first | omega | (congr 1; omega)
  · rw [List.getElem?_eq_none (by
        rw [List.length_append, List.length_drop, List.length_take, hlen]; omega),
      List.getElem?_eq_none (by rw [List.length_append, List.length_drop, hold]; omega)]
/-! ## The newest elements of a stream -/

/-- The last `n` elements of a list (all of them, when there are fewer). -/
def lastN (n : Nat) (l : List α) : List α := l.drop (l.length - n)

theorem length_lastN {n : Nat} {l : List α} (h : n ≤ l.length) : (lastN n l).length = n := by
  rw [lastN, List.length_drop]; omega

theorem lastN_self (l : List α) : lastN l.length l = l := by simp [lastN]

/-- A reader that holds `n` elements and takes in `m`. -/
theorem lastN_append {n : Nat} {l m : List α} (hl : l.length = n) :
    lastN n (l ++ m) = l.drop m.length ++ lastN n m := by
  rw [lastN, lastN, List.length_append, List.drop_append, hl,
    show n + m.length - n = m.length by omega]

/-- Cutting a stream to its newest `n` elements before more arrive loses nothing. -/
theorem lastN_lastN_append {n : Nat} {l m : List α} (hl : n ≤ l.length) :
    lastN n (lastN n l ++ m) = lastN n (l ++ m) := by
  have hk : (l.drop (l.length - n)).length = n := length_lastN hl
  calc lastN n (lastN n l ++ m)
      = (l.drop (l.length - n) ++ m).drop m.length := by
        rw [lastN, lastN, List.length_append, hk, Nat.add_sub_cancel_left]
    _ = (l ++ m).drop (l.length - n + m.length) := by
        rw [← List.drop_drop, List.drop_append_of_le_length (Nat.sub_le _ _)]
    _ = lastN n (l ++ m) := by
        rw [lastN, List.length_append]; congr 1; omega

end GunyahRuntime.Lib
