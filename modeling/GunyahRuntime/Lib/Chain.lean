/-
# GunyahRuntime.Lib.Chain -- doubly linked chains

Links are a `next` and a `prev` for every address. A stretch of a chain (`Seg`) is a list of addresses
that point to each other in order, between the address before its first and the one after its last. Two
stretches that meet are one (`seg_append`), a change of a link outside a stretch leaves it alone, and a
change at an end moves that end. A whole chain (`Links.Spells`) is a stretch that ends in the null
address and whose first address has the last one for its `prev`, so that the tail is found in one step.

Nothing here names a program.
-/
import Mathlib.Tactic.Common
import Mathlib.Data.List.Nodup
import Mathlib.Logic.Function.Basic

namespace GunyahRuntime.Lib

variable {A : Type*}

structure Links (A : Type*) where
  next : A → A
  prev : A → A

namespace Links

variable [DecidableEq A]

def setNext (L : Links A) (a b : A) : Links A := { L with next := Function.update L.next a b }

def setPrev (L : Links A) (a b : A) : Links A := { L with prev := Function.update L.prev a b }

variable (L : Links A) (a b c : A)

@[simp] theorem prev_setNext : (L.setNext a b).prev = L.prev := rfl

@[simp] theorem next_setNext_same : (L.setNext a b).next a = b := Function.update_self _ _ _

@[simp] theorem prev_setPrev_same : (L.setPrev a b).prev a = b := Function.update_self _ _ _

variable {a c}

theorem next_setNext_of_ne (h : c ≠ a) : (L.setNext a b).next c = L.next c :=
  Function.update_of_ne h _ _

theorem prev_setPrev_of_ne (h : c ≠ a) : (L.setPrev a b).prev c = L.prev c :=
  Function.update_of_ne h _ _

end Links

variable {L L' : Links A} {p q p' q' a : A} {l m : List A}

/-! ## Stretches -/

/-- The addresses `l`, linked in order, after `p` and before `q`. -/
def Seg (L : Links A) : A → A → List A → Prop
  | _, _, [] => True
  | p, q, a :: l => L.prev a = p ∧ L.next a = l.headD q ∧ Seg L a q l

theorem headD_append (q : A) : (l ++ m).headD q = l.headD (m.headD q) := by
  cases l <;> rfl

theorem getLastD_append (p : A) : (l ++ m).getLastD p = m.getLastD (l.getLastD p) := by
  induction l generalizing p with
  | nil => rfl
  | cons a l ih => rw [List.cons_append, List.getLastD_cons, List.getLastD_cons, ih]

theorem headD_of_ne_nil (hl : l ≠ []) (p q : A) : l.headD p = l.headD q := by
  cases l with
  | nil => exact absurd rfl hl
  | cons a l => rfl

theorem getLastD_of_ne_nil (hl : l ≠ []) (p q : A) : l.getLastD p = l.getLastD q := by
  cases l with
  | nil => exact absurd rfl hl
  | cons a l => rw [List.getLastD_cons, List.getLastD_cons]

theorem getLastD_mem (p : A) (hl : l ≠ []) : l.getLastD p ∈ l := by
  cases l with
  | nil => exact absurd rfl hl
  | cons a l => rw [List.getLastD_cons]; exact List.getLastD_mem_cons

theorem headD_mem (p : A) (hl : l ≠ []) : l.headD p ∈ l := by
  cases l with
  | nil => exact absurd rfl hl
  | cons a l => exact List.mem_cons_self

/-- **Two stretches that meet are one.** -/
theorem seg_append : Seg L p q (l ++ m) ↔ Seg L p (m.headD q) l ∧ Seg L (l.getLastD p) q m := by
  induction l generalizing p with
  | nil => simp [Seg]
  | cons a l ih =>
    show L.prev a = p ∧ L.next a = (l ++ m).headD q ∧ Seg L a q (l ++ m) ↔
      (L.prev a = p ∧ L.next a = l.headD (m.headD q) ∧ Seg L a (m.headD q) l) ∧ _
    rw [ih, headD_append, List.getLastD_cons, and_assoc, and_assoc]

/-- A stretch depends on the links of its addresses only. -/
theorem Seg.congr (h : Seg L p q l) (hnext : ∀ a ∈ l, L'.next a = L.next a)
    (hprev : ∀ a ∈ l, L'.prev a = L.prev a) : Seg L' p q l := by
  induction l generalizing p with
  | nil => trivial
  | cons a l ih =>
    obtain ⟨hp, hn, hrest⟩ := h
    refine ⟨(hprev a List.mem_cons_self).trans hp, (hnext a List.mem_cons_self).trans hn, ?_⟩
    exact ih hrest (fun b hb => hnext b (List.mem_cons_of_mem _ hb))
      (fun b hb => hprev b (List.mem_cons_of_mem _ hb))

section Set

variable [DecidableEq A]

theorem Seg.setNext (h : Seg L p q l) (ha : a ∉ l) (b : A) : Seg (L.setNext a b) p q l :=
  h.congr (fun _ hc => L.next_setNext_of_ne b (by rintro rfl; exact ha hc)) fun _ _ => rfl

theorem Seg.setPrev (h : Seg L p q l) (ha : a ∉ l) (b : A) : Seg (L.setPrev a b) p q l :=
  h.congr (fun _ _ => rfl) fun _ hc => L.prev_setPrev_of_ne b (by rintro rfl; exact ha hc)

/-- The first address of a stretch is given another one before it. -/
theorem Seg.setPrev_head (h : Seg L p q l) (hl : l.Nodup) (d b : A) :
    Seg (L.setPrev (l.headD d) b) b q l := by
  cases l with
  | nil => trivial
  | cons a l =>
    obtain ⟨-, hn, hrest⟩ := h
    exact ⟨L.prev_setPrev_same a b, hn, hrest.setPrev (List.nodup_cons.1 hl).1 b⟩

/-- The last address of a stretch is given another one after it. -/
theorem Seg.setNext_last (h : Seg L p q l) (hl : l.Nodup) (d b : A) :
    Seg (L.setNext (l.getLastD d) b) p b l := by
  induction l generalizing p d with
  | nil => trivial
  | cons a l ih =>
    obtain ⟨ha, hl⟩ := List.nodup_cons.1 hl
    obtain ⟨hp, hn, hrest⟩ := h
    rw [List.getLastD_cons]
    cases l with
    | nil => exact ⟨hp, L.next_setNext_same a b, trivial⟩
    | cons c l =>
      have hne : a ≠ (c :: l).getLastD a := by
        rw [List.getLastD_cons]
        exact fun heq => ha (heq ▸ List.getLastD_mem_cons)
      exact ⟨hp, (L.next_setNext_of_ne b hne).trans hn, ih hrest hl a⟩

end Set

/-! ## Whole chains -/

/-- From `head`, the chain spells the list `l`. -/
structure Links.Spells (L : Links A) (null head : A) (l : List A) : Prop where
  head : head = l.headD null
  seg : Seg L (l.getLastD null) null l
  nodup : l.Nodup
  null : null ∉ l

namespace Links.Spells

variable {null head : A}

theorem nil (L : Links A) (null : A) : L.Spells null null [] :=
  ⟨rfl, trivial, List.nodup_nil, List.not_mem_nil⟩

theorem head_eq_null (h : L.Spells null head l) : head = null ↔ l = [] := by
  cases l with
  | nil => exact ⟨fun _ => rfl, fun _ => h.head⟩
  | cons a l =>
    refine ⟨fun hnull => ?_, fun hnil => by cases hnil⟩
    have hhead : head = a := h.head
    exact absurd (hnull ▸ hhead ▸ List.mem_cons_self) h.null

/-- The links of one address of the chain. -/
theorem next_eq (h : L.Spells null head (l ++ a :: m)) : L.next a = m.headD null :=
  (seg_append.1 h.seg).2.2.1

theorem prev_eq (h : L.Spells null head (l ++ a :: m)) :
    L.prev a = l.getLastD ((l ++ a :: m).getLastD null) :=
  (seg_append.1 h.seg).2.1

theorem prev_eq_of_ne_nil (h : L.Spells null head (l ++ a :: m)) (hl : l ≠ []) : L.prev a = l.getLastD null :=
  h.prev_eq.trans (getLastD_of_ne_nil hl _ _)

theorem prev_mem (h : L.Spells null head (l ++ a :: m)) : L.prev a ∈ l ++ a :: m := by
  rw [h.prev_eq]
  by_cases hl : l = []
  · subst hl
    exact getLastD_mem null (List.cons_ne_nil a m)
  · exact List.mem_append_left _ (getLastD_mem _ hl)

/-- `prev` of the first address is the last one. -/
theorem prev_head (h : L.Spells null head l) (hl : l ≠ []) : L.prev head = l.getLastD null := by
  cases l with
  | nil => exact absurd rfl hl
  | cons a l => exact h.head ▸ h.seg.1

theorem head_mem (h : L.Spells null head l) (hl : l ≠ []) : head ∈ l := by
  cases l with
  | nil => exact absurd rfl hl
  | cons a l => exact h.head ▸ List.mem_cons_self

/-- What stands around an address of the chain. -/
theorem around (h : L.Spells null head (l ++ a :: m)) :
    Seg L (m.getLastD a) a l ∧ Seg L a null m ∧ a ∉ l ++ m ∧ (l ++ m).Nodup ∧ null ∉ l ++ m := by
  obtain ⟨hleft, -, -, hright⟩ := seg_append.1 h.seg
  obtain ⟨ha, hnodup⟩ := List.nodup_cons.1 (List.nodup_middle.1 h.nodup)
  rw [getLastD_append, List.getLastD_cons] at hleft
  refine ⟨hleft, hright, ha, hnodup, fun hnull => h.null ?_⟩
  rcases List.mem_append.1 hnull with hnull | hnull
  · exact List.mem_append_left _ hnull
  · exact List.mem_append_right _ (List.mem_cons_of_mem _ hnull)

/-- Links elsewhere do not matter. -/
theorem congr (h : L.Spells null head l) (hnext : ∀ a ∈ l, L'.next a = L.next a)
    (hprev : ∀ a ∈ l, L'.prev a = L.prev a) : L'.Spells null head l :=
  ⟨h.head, h.seg.congr hnext hprev, h.nodup, h.null⟩

/-! ### Taking one address out -/

variable [DecidableEq A]

/-- The first: the next one gets its `prev`, the end of the chain. -/
theorem remove_first (h : L.Spells null a (a :: m)) (hm : m ≠ []) :
    (L.setPrev (m.headD null) (L.prev a)).Spells null (m.headD null) m := by
  obtain ⟨-, hright, -, hnodup, hnull⟩ := h.around (l := [])
  have hprev : L.prev a = m.getLastD null := by
    rw [h.prev_head (List.cons_ne_nil a m), List.getLastD_cons, getLastD_of_ne_nil hm]
  refine ⟨rfl, ?_, hnodup, hnull⟩
  rw [hprev]
  exact hright.setPrev_head hnodup null _

/-- The last: the one before it ends the chain. -/
theorem remove_last (h : L.Spells null head (l ++ [a])) (hl : l ≠ []) :
    ((L.setNext (L.prev a) null).setPrev head (L.prev a)).Spells null head l := by
  obtain ⟨hleft, -, -, hnodup, hnull⟩ := h.around
  rw [List.append_nil] at hnodup hnull
  have hhead : head = l.headD null := by rw [h.head, headD_append, headD_of_ne_nil hl]
  refine ⟨hhead, ?_, hnodup, hnull⟩
  rw [h.prev_eq_of_ne_nil hl, hhead]
  exact (hleft.setNext_last hnodup null null).setPrev_head hnodup null _

/-- Any other: the ones before and after it are linked. -/
theorem remove_inner (h : L.Spells null head (l ++ a :: m)) (hl : l ≠ []) (hm : m ≠ []) :
    ((L.setPrev (m.headD null) (L.prev a)).setNext (L.prev a) (m.headD null)).Spells null head (l ++ m) := by
  obtain ⟨hleft, hright, -, hnodup, hnull⟩ := h.around
  obtain ⟨hnodup_l, hnodup_m, hdisj⟩ := List.nodup_append.1 hnodup
  have hfirst : m.headD null ∉ l := fun hmem => hdisj _ hmem _ (headD_mem null hm) rfl
  have hlast : l.getLastD null ∉ m := fun hmem => hdisj _ (getLastD_mem null hl) _ hmem rfl
  refine ⟨by rw [h.head, headD_append, headD_append, headD_of_ne_nil hl], ?_, hnodup, hnull⟩
  have hend : m.getLastD (l.getLastD null) = m.getLastD a := getLastD_of_ne_nil hm _ _
  have hbefore : l.getLastD (m.getLastD a) = l.getLastD null := getLastD_of_ne_nil hl _ _
  rw [h.prev_eq_of_ne_nil hl, seg_append, getLastD_append, hend, hbefore]
  constructor
  · exact (hleft.setPrev hfirst _).setNext_last hnodup_l null _
  · exact (hright.setPrev_head hnodup_m null _).setNext hlast _

/-- With `x` taken out, every address goes where it went before, but past `x`. -/
theorem bypass_next {head' x : A} (h : L.Spells null head (l ++ x :: m)) (h' : L'.Spells null head' (l ++ m))
    (ha : a ∈ l ++ m) : L'.next a = if L.next a = x then L.next x else L.next a := by
  obtain ⟨-, -, hx, -, -⟩ := h.around
  have hnull : null ≠ x := (ne_of_mem_of_not_mem (by simp) h.null).symm
  rw [h.next_eq]
  rcases List.mem_append.1 ha with ha | ha
  · -- before `x`, which is next just if nothing stands between
    obtain ⟨l₁, l₂, rfl⟩ := List.append_of_mem ha
    rw [List.append_assoc, List.cons_append] at h h'
    rw [h.next_eq, h'.next_eq]
    cases l₂ with
    | nil => exact (if_pos rfl).symm
    | cons b l₂ =>
      have hb : b ≠ x := ne_of_mem_of_not_mem (by simp) hx
      exact (if_neg hb).symm
  · -- behind it, and nothing there leads back
    obtain ⟨m₁, m₂, rfl⟩ := List.append_of_mem ha
    rw [← List.cons_append, ← List.append_assoc] at h
    rw [← List.append_assoc] at h'
    rw [h.next_eq, h'.next_eq]
    cases m₂ with
    | nil => exact (if_neg hnull).symm
    | cons b m₂ =>
      have hb : b ≠ x := ne_of_mem_of_not_mem (by simp) hx
      exact (if_neg hb).symm

/-- And likewise back; the first address leads back to the end of the chain. -/
theorem bypass_prev {head' x : A} (h : L.Spells null head (l ++ x :: m)) (h' : L'.Spells null head' (l ++ m))
    (ha : a ∈ l ++ m) : L'.prev a = if L.prev a = x then L.prev x else L.prev a := by
  obtain ⟨-, -, hx, -, -⟩ := h.around
  rw [List.mem_append, not_or] at hx
  have hprev := h.prev_eq
  rcases List.mem_append.1 ha with ha | ha
  · obtain ⟨l₁, l₂, rfl⟩ := List.append_of_mem ha
    rw [List.append_assoc, List.cons_append] at h h'
    have hback := h.prev_eq
    have hback' := h'.prev_eq
    simp only [getLastD_append, List.getLastD_cons] at hprev hback hback'
    rw [hback, hback', hprev]
    by_cases hl : l₁ = []
    · -- the first: `x` is the end just if nothing stands behind it
      subst hl
      rw [List.getLastD_nil, List.getLastD_nil]
      by_cases hm : m = []
      · subst hm
        rw [List.getLastD_nil, List.getLastD_nil, if_pos rfl]
      · rw [if_neg (ne_of_mem_of_not_mem (getLastD_mem _ hm) hx.2), getLastD_of_ne_nil hm]
    · rw [if_neg (ne_of_mem_of_not_mem (List.mem_append_left _ (getLastD_mem _ hl)) hx.1), getLastD_of_ne_nil hl]
  · obtain ⟨m₁, m₂, rfl⟩ := List.append_of_mem ha
    rw [← List.cons_append, ← List.append_assoc] at h
    rw [← List.append_assoc] at h'
    have hback := h.prev_eq
    have hback' := h'.prev_eq
    simp only [getLastD_append, List.getLastD_cons] at hprev hback hback'
    rw [hback, hback', hprev]
    by_cases hm : m₁ = []
    · -- the next one: what led back to `x` leads back to what stood before it
      subst hm
      rw [List.getLastD_nil, List.getLastD_nil, if_pos rfl]
    · rw [if_neg (ne_of_mem_of_not_mem (List.mem_append_left _ (getLastD_mem _ hm)) hx.2), getLastD_of_ne_nil hm]

end Links.Spells

end GunyahRuntime.Lib
