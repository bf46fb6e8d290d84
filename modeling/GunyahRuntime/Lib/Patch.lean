/-
# GunyahRuntime.Lib.Patch -- overwriting a stretch of a list

`patch l off bs` is the list `l` with `bs` written over its elements from `off` on. It is what a run
of stores to an array leaves behind, and the algebra below is what a proof about such stores uses:
one store is a patch of one element, adjacent patches join into one, the elements outside are
untouched. Nothing here names a program.
-/
import Mathlib.Tactic.Common
import Mathlib.Data.List.Basic
import Mathlib.Data.List.TakeDrop

namespace GunyahRuntime.Lib

variable {α : Type*}

/-- `l` with `bs` written over it from `off` on. -/
def patch (l : List α) (off : Nat) (bs : List α) : List α :=
  l.take off ++ bs ++ l.drop (off + bs.length)

@[simp] theorem patch_nil (l : List α) (off : Nat) : patch l off [] = l := by
  simp [patch]

theorem length_patch {l bs : List α} {off : Nat} (h : off + bs.length ≤ l.length) :
    (patch l off bs).length = l.length := by
  simp only [patch, List.length_append, List.length_take, List.length_drop]
  omega

/-- A patch read back at an index: the patch inside, the old list outside. -/
theorem getElem?_patch {l bs : List α} {off : Nat} (h : off + bs.length ≤ l.length) (i : Nat) :
    (patch l off bs)[i]? =
      if off ≤ i ∧ i < off + bs.length then bs[i - off]? else l[i]? := by
  have hlen : (l.take off).length = off := by rw [List.length_take]; omega
  unfold patch
  by_cases h1 : i < off
  · rw [List.append_assoc, List.getElem?_append_left (by omega), List.getElem?_take_of_lt h1,
      if_neg (by omega)]
  · by_cases h2 : i < off + bs.length
    · rw [List.append_assoc, List.getElem?_append_right (by omega), hlen,
        List.getElem?_append_left (by omega), if_pos ⟨by omega, h2⟩]
    · rw [List.getElem?_append_right (by rw [List.length_append]; omega), List.length_append, hlen,
        List.getElem?_drop, if_neg (by omega)]
      congr 1
      omega

theorem take_patch {l bs : List α} {off : Nat} (h : off + bs.length ≤ l.length) :
    (patch l off bs).take off = l.take off := by
  rw [patch, List.append_assoc, List.take_append_of_le_length (by rw [List.length_take]; omega),
    List.take_take, Nat.min_self]

theorem drop_patch {l bs : List α} {off n : Nat} (h : off + bs.length ≤ l.length)
    (hn : off + bs.length ≤ n) : (patch l off bs).drop n = l.drop n := by
  apply List.ext_getElem?
  intro i
  rw [List.getElem?_drop, List.getElem?_drop, getElem?_patch h, if_neg (by omega)]

/-- Two adjacent patches are one. -/
theorem patch_patch_append {l as bs : List α} {off : Nat}
    (h : off + as.length + bs.length ≤ l.length) :
    patch (patch l off as) (off + as.length) bs = patch l off (as ++ bs) := by
  have h₁ : off + as.length ≤ l.length := by omega
  have h₂ : off + as.length + bs.length ≤ (patch l off as).length := by
    rw [length_patch h₁]; exact h
  have h₃ : off + (as ++ bs).length ≤ l.length := by rw [List.length_append]; omega
  apply List.ext_getElem?
  intro i
  rw [getElem?_patch h₂, getElem?_patch h₁, getElem?_patch h₃]
  simp only [List.length_append]
  by_cases hi : off ≤ i ∧ i < off + as.length
  · rw [if_neg (by omega), if_pos hi, if_pos (by omega), List.getElem?_append_left (by omega)]
  · by_cases hj : off + as.length ≤ i ∧ i < off + as.length + bs.length
    · rw [if_pos hj, if_pos (by omega), List.getElem?_append_right (by omega)]
      congr 1
      omega
    · rw [if_neg hj, if_neg hi, if_neg (by omega)]

end GunyahRuntime.Lib
