/-
# GunyahRuntime.Lib.Lines -- marking the lines of a stream

A stream of symbols is cut into lines by the symbols that end one. Marking it puts a mark before the
first symbol of each line; the marks may differ from line to line, so they are numbered. Marking a
concatenation is marking the parts, the second from the place the first leaves: whether a line starts
there, and how many marks were spent. That is what makes the result independent of how a stream is cut
into pieces. Nothing here names a program.
-/
import Mathlib.Tactic.Common
import Mathlib.Data.List.Basic

namespace GunyahRuntime.Lib

variable {α : Type*} (nl : α → Bool) (mark : Nat → List α)

/-- Does a line start after `l`, if `start` says whether one starts before it? -/
def lineStart : Bool → List α → Bool
  | start, [] => start
  | _, a :: l => lineStart (nl a) l

/-- How many lines `l` writes the first symbol of. -/
def linesOpened : Bool → List α → Nat
  | _, [] => 0
  | start, a :: l => (if start then 1 else 0) + linesOpened (nl a) l

/-- `l` with the marks from number `k` on before the first symbols of its lines. -/
def markLines : Bool → Nat → List α → List α
  | _, _, [] => []
  | start, k, a :: l =>
    (if start then mark k else []) ++ a :: markLines (nl a) (if start then k + 1 else k) l

theorem lineStart_append (start : Bool) (l m : List α) :
    lineStart nl start (l ++ m) = lineStart nl (lineStart nl start l) m := by
  induction l generalizing start with
  | nil => rfl
  | cons a l ih => exact ih (nl a)

theorem linesOpened_append (start : Bool) (l m : List α) :
    linesOpened nl start (l ++ m) =
      linesOpened nl start l + linesOpened nl (lineStart nl start l) m := by
  induction l generalizing start with
  | nil => exact (Nat.zero_add _).symm
  | cons a l ih =>
    show _ + linesOpened nl (nl a) (l ++ m) = _ + linesOpened nl (nl a) l + _
    rw [ih (nl a), Nat.add_assoc]
    rfl

/-- **Marking a concatenation** is marking the parts. -/
theorem markLines_append (start : Bool) (k : Nat) (l m : List α) :
    markLines nl mark start k (l ++ m) =
      markLines nl mark start k l ++
        markLines nl mark (lineStart nl start l) (k + linesOpened nl start l) m := by
  induction l generalizing start k with
  | nil => rfl
  | cons a l ih =>
    have hk : k + linesOpened nl start (a :: l) =
        (if start then k + 1 else k) + linesOpened nl (nl a) l := by
      show k + ((if start then 1 else 0) + linesOpened nl (nl a) l) = _
      cases start <;> simp [Nat.add_assoc]
    rw [hk]
    show _ ++ a :: markLines nl mark (nl a) _ (l ++ m) = _ ++ a :: markLines nl mark (nl a) _ l ++ _
    rw [ih (nl a), List.append_assoc]
    rfl

/-- Inside a line, up to the symbol that ends it, nothing is marked. -/
theorem markLines_segment (k : Nat) {l : List α} (h : ∀ a ∈ l.dropLast, nl a = false) :
    markLines nl mark false k l = l := by
  induction l with
  | nil => rfl
  | cons a l ih =>
    cases l with
    | nil => rfl
    | cons b l =>
      have ha : nl a = false := h a (by simp)
      have hrest := ih fun c hc => h c (by
        rw [List.dropLast_cons_of_ne_nil (by simp)]
        exact List.mem_cons_of_mem _ hc)
      show [] ++ a :: markLines nl mark (nl a) k (b :: l) = _
      rw [ha, hrest, List.nil_append]

/-- A segment opens no line but the one it starts. -/
theorem linesOpened_segment {l : List α} (h : ∀ a ∈ l.dropLast, nl a = false) :
    linesOpened nl false l = 0 := by
  induction l with
  | nil => rfl
  | cons a l ih =>
    cases l with
    | nil => rfl
    | cons b l =>
      have ha : nl a = false := h a (by simp)
      have hrest := ih fun c hc => h c (by
        rw [List.dropLast_cons_of_ne_nil (by simp)]
        exact List.mem_cons_of_mem _ hc)
      show 0 + linesOpened nl (nl a) (b :: l) = 0
      rw [ha, hrest]

/-- Starting a line is marking it and going on inside it. -/
theorem markLines_start (k : Nat) {l : List α} (h : l ≠ []) :
    markLines nl mark true k l = mark k ++ markLines nl mark false (k + 1) l := by
  cases l with
  | nil => exact absurd rfl h
  | cons a l => rfl

theorem linesOpened_start {l : List α} (h : l ≠ []) :
    linesOpened nl true l = linesOpened nl false l + 1 := by
  cases l with
  | nil => exact absurd rfl h
  | cons a l =>
    show 1 + linesOpened nl (nl a) l = 0 + linesOpened nl (nl a) l + 1
    omega

/-- At the start of a line, a text that is not empty opens one. -/
theorem linesOpened_pos {l : List α} (h : l ≠ []) : 0 < linesOpened nl true l := by
  rw [linesOpened_start nl h]
  exact Nat.succ_pos _

/-- The number of a constant mark does not matter. -/
theorem markLines_const (m : List α) (start : Bool) (k k' : Nat) (l : List α) :
    markLines nl (fun _ => m) start k l = markLines nl (fun _ => m) start k' l := by
  induction l generalizing start k k' with
  | nil => rfl
  | cons a l ih =>
    show _ ++ a :: _ = _ ++ a :: _
    rw [ih (nl a) (if start then k + 1 else k) (if start then k' + 1 else k')]

theorem lineStart_of_ne_nil (start start' : Bool) {l : List α} (h : l ≠ []) :
    lineStart nl start l = lineStart nl start' l := by
  cases l with
  | nil => exact absurd rfl h
  | cons a l => rfl

end GunyahRuntime.Lib
