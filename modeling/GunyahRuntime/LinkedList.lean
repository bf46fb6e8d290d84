/-
# GunyahRuntime.LinkedList -- intrusive lists (`list.h`)

The macros of `list.h` work on the `next` and `prev` members of structures that stand at addresses;
zero is `NULL`. `next` of the last node is `NULL`, and `prev` of the first one is the last, so appending
needs no walk. The three lemmas say what each macro does to the sequence that a list spells: appending
puts a node at the end, removing takes one out, and a loop visits the nodes in order. A run of appends
and removals is the same run on the sequence (`list_implements_sequence`).
-/
import GunyahRuntime.Machine
import GunyahRuntime.Lib.Loop
import GunyahRuntime.Lib.Chain

namespace GunyahRuntime

open Lib (Links Seg)

/-- `list_append(type, headp, node, prefix)`: the links and `*headp` after it. -/
def listAppend (links : Links Nat) (head node : Nat) : Exec (Links Nat × Nat) :=
  if head = 0 then
    .ok ((links.setNext node 0).setPrev node node, node)
  else
    let tail := links.prev head
    let links := (links.setNext node 0).setPrev node tail
    if tail = 0 then .error .badWrite
    else .ok ((links.setNext tail node).setPrev head node, head)

/-- `list_remove(type, headp, node, prefix)`: the links and `*headp` after it. -/
def listRemove (links : Links Nat) (head node : Nat) : Exec (Links Nat × Nat) := do
  let nNext := links.next node
  let nPrev := links.prev node
  cassert (head ≠ 0)
  cassert (nPrev ≠ 0)
  let links := if nNext ≠ 0 then links.setPrev nNext nPrev else links
  if head = node then
    return (links, if nPrev = node then 0 else nNext)
  else
    let links := links.setNext nPrev nNext
    return (if links.prev head = node then links.setPrev head nPrev else links, head)

/-- One pass of a `loop_list`, at a node: the body goes on with a new state or breaks with a result. -/
def loopPass {σ β : Type} (links : Links Nat) (body : σ → Nat → Exec (σ ⊕ β)) (s : Nat × σ) :
    Exec (Nat × σ ⊕ (σ ⊕ β)) :=
  if s.1 ≠ 0 then do
    match ← body s.2 s.1 with
    | .inl t => return .inl (links.next s.1, t)
    | .inr b => return .inr (.inr b)
  else
    .ok (.inr (.inl s.2))

/-- `loop_list(node, headp, prefix)`. There are fewer than 2^64 addresses, so a loop over more nodes than
that has come round. -/
def loopList {σ β : Type} (links : Links Nat) (body : σ → Nat → Exec (σ ⊕ β)) (head : Nat) (s : σ) :
    Exec (σ ⊕ β) :=
  Lib.iterate .diverged (loopPass links body) 18446744073709551616 (head, s)

/-! ## Appending -/

section

variable {links : Links Nat} {head x : Nat} {l m : List Nat}

/-- What a list operation leaves alone: the links of every node that is not in `l`. -/
def SameOutside (links links' : Links Nat) (l : List Nat) : Prop :=
  ∀ a, a ∉ l → links'.next a = links.next a ∧ links'.prev a = links.prev a

/-- **`list_append` puts a node at the end**, and changes no link but the list's and the node's own. -/
theorem listAppend_spec (h : links.Spells 0 head l) (hx : x ∉ l) (hx0 : x ≠ 0) :
    ∃ links' head', listAppend links head x = .ok (links', head') ∧
      links'.Spells 0 head' (l ++ [x]) ∧ SameOutside links links' (l ++ [x]) := by
  have hnodup : (l ++ [x]).Nodup := by
    rw [List.nodup_append]
    exact ⟨h.nodup, List.nodup_singleton x, fun a ha b hb hab => hx (by
      rw [← List.mem_singleton.1 hb, ← hab]; exact ha)⟩
  have hnull : 0 ∉ l ++ [x] := by
    rw [List.mem_append, List.mem_singleton]
    rintro (h0 | h0)
    · exact h.null h0
    · exact hx0 h0.symm
  by_cases hl : l = []
  · subst hl
    refine ⟨_, _, if_pos h.head, ⟨rfl, ⟨Links.prev_setPrev_same _ _ _, Links.next_setNext_same _ _ _,
      trivial⟩, hnodup, hnull⟩, fun a ha => ?_⟩
    rw [List.nil_append, List.mem_singleton] at ha
    exact ⟨Links.next_setNext_of_ne _ _ ha, Links.prev_setPrev_of_ne _ _ ha⟩
  · have hhead := h.head_mem hl
    have htail := Lib.getLastD_mem 0 hl
    have hprev := h.prev_head hl
    generalize hz : l.getLastD 0 = z at htail hprev
    have hx_head : x ≠ head := fun heq => hx (heq ▸ hhead)
    have hx_tail : x ≠ z := fun heq => hx (heq ▸ htail)
    -- the stretch, with its two ends turned to `x`
    have hturned : Seg ((((links.setNext x 0).setPrev x z).setNext z x).setPrev head x) x x l := by
      have hkept := (h.seg.setNext hx 0).setPrev hx z
      have hends := (hkept.setNext_last h.nodup 0 x).setPrev_head h.nodup 0 x
      rwa [hz, ← h.head] at hends
    refine ⟨(((links.setNext x 0).setPrev x z).setNext z x).setPrev head x, head, ?_,
      ⟨?_, ?_, hnodup, hnull⟩, fun a ha => ?_⟩
    · unfold listAppend
      rw [if_neg fun h0 => hl (h.head_eq_null.1 h0)]
      dsimp only
      rw [hprev, if_neg (ne_of_mem_of_not_mem htail h.null)]
    · rw [Lib.headD_append, Lib.headD_of_ne_nil hl _ 0, h.head]
    · rw [List.getLastD_concat, Lib.seg_append]
      refine ⟨hturned, ?_, ?_, trivial⟩
      · rw [Links.prev_setPrev_of_ne _ _ hx_head, Lib.getLastD_of_ne_nil hl x 0, hz]
        exact Links.prev_setPrev_same _ _ _
      · exact (Links.next_setNext_of_ne _ _ hx_tail).trans (Links.next_setNext_same _ _ _)
    · rw [List.mem_append, List.mem_singleton, not_or] at ha
      have ha_head : a ≠ head := fun heq => ha.1 (heq ▸ hhead)
      have ha_tail : a ≠ z := fun heq => ha.1 (heq ▸ htail)
      constructor
      · exact (Links.next_setNext_of_ne _ _ ha_tail).trans (Links.next_setNext_of_ne _ _ ha.2)
      · exact (Links.prev_setPrev_of_ne _ _ ha_head).trans (Links.prev_setPrev_of_ne _ _ ha.2)

/-! ## Removing -/

/-- `list_remove` of a node of the list, past its assertions. -/
theorem listRemove_eq (h : links.Spells 0 head (l ++ x :: m)) :
    listRemove links head x =
      let links₁ := if m.headD 0 ≠ 0 then links.setPrev (m.headD 0) (links.prev x) else links
      if head = x then .ok (links₁, if links.prev x = x then 0 else m.headD 0)
      else
        let links₂ := links₁.setNext (links.prev x) (m.headD 0)
        .ok (if links₂.prev head = x then links₂.setPrev head (links.prev x) else links₂, head) := by
  have hhead : head ≠ 0 := ne_of_mem_of_not_mem (h.head_mem (by simp)) h.null
  have hprev : links.prev x ≠ 0 := ne_of_mem_of_not_mem h.prev_mem h.null
  unfold listRemove
  dsimp only
  rw [decide_eq_true hhead, decide_eq_true hprev, cassert_true, ok_bind, ok_bind, h.next_eq]
  rfl

theorem listRemove_first (h : links.Spells 0 head (x :: m)) :
    ∃ links' head', listRemove links head x = .ok (links', head') ∧
      links'.Spells 0 head' m ∧ SameOutside links links' (x :: m) := by
  obtain rfl : head = x := h.head
  have hrun := listRemove_eq (l := []) h
  dsimp only at hrun
  rw [if_pos rfl] at hrun
  by_cases hm : m = []
  · subst hm
    have hprev : links.prev head = head := h.prev_head (List.cons_ne_nil _ _)
    rw [if_pos hprev] at hrun
    exact ⟨links, 0, hrun, Links.Spells.nil _ _, fun a _ => ⟨rfl, rfl⟩⟩
  · have hprev : links.prev head = m.getLastD head := by
      rw [h.prev_head (List.cons_ne_nil head m), List.getLastD_cons]
    have hlast : links.prev head ≠ head := by
      rw [hprev]
      exact ne_of_mem_of_not_mem (Lib.getLastD_mem _ hm) (h.around (l := [])).2.2.1
    have hfirst := Lib.headD_mem 0 hm
    have hnull : m.headD 0 ≠ 0 := ne_of_mem_of_not_mem hfirst (h.around (l := [])).2.2.2.2
    rw [if_neg hlast, if_pos hnull] at hrun
    refine ⟨_, _, hrun, h.remove_first hm, fun a ha => ⟨rfl, Links.prev_setPrev_of_ne _ _ ?_⟩⟩
    exact (ne_of_mem_of_not_mem (List.mem_cons_of_mem _ hfirst) ha).symm

/-- A node before it stays the first of the list. -/
theorem listRemove_behind (h : links.Spells 0 head (l ++ x :: m)) (hl : l ≠ []) :
    ∃ links' head', listRemove links head x = .ok (links', head') ∧
      links'.Spells 0 head' (l ++ m) ∧ SameOutside links links' (l ++ x :: m) := by
  obtain ⟨-, -, hx, hnodup, hnull⟩ := h.around
  have hhead : head ∈ l := by
    rw [h.head, Lib.headD_append]
    exact Lib.headD_mem _ hl
  have hne : head ≠ x := ne_of_mem_of_not_mem (List.mem_append_left _ hhead) hx
  have hlast : links.prev x ∈ l := h.prev_eq_of_ne_nil hl ▸ Lib.getLastD_mem 0 hl
  have hend : links.prev head = m.getLastD x := by
    rw [h.prev_head (by simp), Lib.getLastD_append, List.getLastD_cons]
  have houtside : ∀ a ∉ l ++ x :: m, ∀ b ∈ l, a ≠ b := fun a ha b hb =>
    (ne_of_mem_of_not_mem (List.mem_append_left _ hb) ha).symm
  have hrun := listRemove_eq h
  dsimp only at hrun
  rw [if_neg hne] at hrun
  by_cases hm : m = []
  · -- the head keeps the end of the list, which is another node now
    subst hm
    have hnone : ¬ ([] : List Nat).headD 0 ≠ 0 := not_not.2 rfl
    rw [if_neg hnone, if_pos (show (links.setNext _ _).prev head = x from hend)] at hrun
    refine ⟨_, _, hrun, ?_, fun a ha => ?_⟩
    · rw [List.append_nil]
      exact h.remove_last hl
    · exact ⟨Links.next_setNext_of_ne _ _ (houtside a ha _ hlast), Links.prev_setPrev_of_ne _ _ (houtside a ha _ hhead)⟩
  · have hfirst := Lib.headD_mem 0 hm
    have hnull' : m.headD 0 ≠ 0 := ne_of_mem_of_not_mem (List.mem_append_right _ hfirst) hnull
    have hfirst_head : head ≠ m.headD 0 := (List.nodup_append.1 hnodup).2.2 _ hhead _ hfirst
    have hkept : ((links.setPrev (m.headD 0) (links.prev x)).setNext (links.prev x) (m.headD 0)).prev head ≠ x := by
      rw [Links.prev_setNext, Links.prev_setPrev_of_ne _ _ hfirst_head, hend]
      exact ne_of_mem_of_not_mem (List.mem_append_right _ (Lib.getLastD_mem _ hm)) hx
    rw [if_pos hnull', if_neg hkept] at hrun
    refine ⟨_, _, hrun, h.remove_inner hl hm, fun a ha => ⟨?_, ?_⟩⟩
    · exact Links.next_setNext_of_ne _ _ (houtside a ha _ hlast)
    · refine Links.prev_setPrev_of_ne _ _ (ne_of_mem_of_not_mem ?_ ha).symm
      exact List.mem_append_right _ (List.mem_cons_of_mem _ hfirst)

/-- **`list_remove` takes a node out**, wherever it stands, and fails no assertion. -/
theorem listRemove_spec (h : links.Spells 0 head (l ++ x :: m)) :
    ∃ links' head', listRemove links head x = .ok (links', head') ∧
      links'.Spells 0 head' (l ++ m) ∧ SameOutside links links' (l ++ x :: m) := by
  by_cases hl : l = []
  · subst hl
    exact listRemove_first h
  · exact listRemove_behind h hl

/-- **`list_remove` leads the links past the node.** Every other node keeps its links, but that one to
the node removed becomes that node's own. -/
theorem listRemove_bypass (h : links.Spells 0 head (l ++ x :: m)) :
    ∃ links' head', listRemove links head x = .ok (links', head') ∧ links'.Spells 0 head' (l ++ m) ∧
      ∀ a ∈ l ++ m,
        links'.next a = (if links.next a = x then links.next x else links.next a) ∧
          links'.prev a = if links.prev a = x then links.prev x else links.prev a := by
  obtain ⟨links', head', hrun, h', -⟩ := listRemove_spec h
  exact ⟨links', head', hrun, h', fun a ha => ⟨h.bypass_next h' ha, h.bypass_prev h' ha⟩⟩

end

/-! ## Runs of operations -/

/-- The two ways a list is changed. -/
inductive ListOp
  | append (node : Nat)
  | remove (node : Nat)

namespace ListOp

/-- What the macro does to the links and `*headp`. -/
def run (s : Links Nat × Nat) : ListOp → Exec (Links Nat × Nat)
  | .append node => listAppend s.1 s.2 node
  | .remove node => listRemove s.1 s.2 node

/-- What it means on the sequence. -/
def apply (l : List Nat) : ListOp → List Nat
  | .append node => l ++ [node]
  | .remove node => l.erase node

/-- A node is appended that is not in the list; a node is removed that is. -/
def Permitted (l : List Nat) : ListOp → Prop
  | .append node => node ≠ 0 ∧ node ∉ l
  | .remove node => node ∈ l

instance (l : List Nat) : (op : ListOp) → Decidable (op.Permitted l)
  | .append node => inferInstanceAs (Decidable (node ≠ 0 ∧ node ∉ l))
  | .remove node => inferInstanceAs (Decidable (node ∈ l))

theorem not_mem_apply {l : List Nat} {a : Nat} (op : ListOp) (ha : a ∉ l) (hne : op ≠ .append a) :
    a ∉ op.apply l := by
  cases op with
  | append x =>
    have hax : a ≠ x := fun heq => hne (by rw [heq])
    simp [apply, ha, hax]
  | remove x => exact fun hmem => ha (List.mem_of_mem_erase hmem)

end ListOp

def listRun (s : Links Nat × Nat) : List ListOp → Exec (Links Nat × Nat)
  | [] => .ok s
  | op :: ops => do listRun (← op.run s) ops

/-- Every operation of a run is permitted on the sequence it finds. -/
def RunPermitted : List Nat → List ListOp → Prop
  | _, [] => True
  | l, op :: ops => op.Permitted l ∧ RunPermitted (op.apply l) ops

section

variable {links : Links Nat} {head : Nat} {l : List Nat}

/-- `list_remove` of any member, wherever it stands. -/
theorem listRemove_erase (h : links.Spells 0 head l) {x : Nat} (hx : x ∈ l) :
    ∃ links' head', listRemove links head x = .ok (links', head') ∧
      links'.Spells 0 head' (l.erase x) ∧ SameOutside links links' l := by
  obtain ⟨l₁, l₂, rfl⟩ := List.append_of_mem hx
  have hbefore : x ∉ l₁ := fun hmem => h.around.2.2.1 (List.mem_append_left _ hmem)
  rw [List.erase_append_right _ hbefore, List.erase_cons_head]
  exact listRemove_spec h

/-- One operation: it does not fail, the list is as the operation means, and nothing outside the list has
changed but the node it appends. -/
theorem ListOp.run_spec (h : links.Spells 0 head l) {op : ListOp} (hop : op.Permitted l) :
    ∃ links' head', op.run (links, head) = .ok (links', head') ∧ links'.Spells 0 head' (op.apply l) ∧
      ∀ a, a ∉ l → op ≠ .append a → links'.next a = links.next a ∧ links'.prev a = links.prev a := by
  cases op with
  | append x =>
    obtain ⟨hx0, hx⟩ := hop
    obtain ⟨links', head', hrun, h', hsame⟩ := listAppend_spec h hx hx0
    refine ⟨links', head', hrun, h', fun a ha hne => hsame a ?_⟩
    rw [List.mem_append, List.mem_singleton]
    rintro (hmem | rfl)
    · exact ha hmem
    · exact hne rfl
  | remove x =>
    obtain ⟨links', head', hrun, h', hsame⟩ := listRemove_erase h hop
    exact ⟨links', head', hrun, h', fun a ha _ => hsame a ha⟩

/-- **A run of operations is the run on the sequence**, by the step above along it. -/
theorem listRun_spec (ops : List ListOp) : ∀ {links : Links Nat} {head : Nat} {l : List Nat},
    links.Spells 0 head l → RunPermitted l ops →
    ∃ links' head', listRun (links, head) ops = .ok (links', head') ∧
      links'.Spells 0 head' (ops.foldl ListOp.apply l) ∧
      ∀ a, a ∉ l → ListOp.append a ∉ ops → links'.next a = links.next a ∧ links'.prev a = links.prev a := by
  induction ops with
  | nil =>
    intro links head l h _
    exact ⟨links, head, rfl, h, fun a _ _ => ⟨rfl, rfl⟩⟩
  | cons op ops ih =>
    rintro links head l h ⟨hop, hops⟩
    obtain ⟨links₁, head₁, hrun, h₁, hsame⟩ := ListOp.run_spec h hop
    obtain ⟨links₂, head₂, hrest, h₂, hsame'⟩ := ih h₁ hops
    refine ⟨links₂, head₂, ?_, h₂, fun a ha hnot => ?_⟩
    · rw [listRun, hrun, ok_bind, hrest]
    · rw [List.mem_cons, not_or] at hnot
      have hne : op ≠ .append a := fun heq => hnot.1 heq.symm
      have hout : a ∉ op.apply l := op.not_mem_apply ha hne
      obtain ⟨hnext, hprev⟩ := hsame a ha hne
      obtain ⟨hnext', hprev'⟩ := hsame' a hout hnot.2
      exact ⟨hnext'.trans hnext, hprev'.trans hprev⟩

/-- **The intrusive list implements a sequence.** Appending puts a node at its end, removing takes a member
out and keeps the order, no assertion fails, and no link changes outside the list but the appended node's
own; so it is along every run of appends and removals. -/
theorem list_implements_sequence (h : links.Spells 0 head l) :
    (∀ x, x ≠ 0 → x ∉ l → ∃ links' head', listAppend links head x = .ok (links', head') ∧
      links'.Spells 0 head' (l ++ [x]) ∧
      ∀ a, a ∉ l → a ≠ x → links'.next a = links.next a ∧ links'.prev a = links.prev a) ∧
    (∀ x ∈ l, ∃ links' head', listRemove links head x = .ok (links', head') ∧
      links'.Spells 0 head' (l.erase x) ∧
      ∀ a, a ∉ l → links'.next a = links.next a ∧ links'.prev a = links.prev a) ∧
    ∀ ops, RunPermitted l ops → ∃ links' head', listRun (links, head) ops = .ok (links', head') ∧
      links'.Spells 0 head' (ops.foldl ListOp.apply l) ∧
      ∀ a, a ∉ l → ListOp.append a ∉ ops →
        links'.next a = links.next a ∧ links'.prev a = links.prev a := by
  refine ⟨fun x hx0 hx => ?_, fun x hx => listRemove_erase h hx, fun ops hops => listRun_spec ops h hops⟩
  have hop : (ListOp.append x).Permitted l := ⟨hx0, hx⟩
  obtain ⟨links', head', hrun, h', hsame⟩ := ListOp.run_spec h hop
  exact ⟨links', head', hrun, h', fun a ha hne => hsame a ha fun heq => hne (ListOp.append.inj heq).symm⟩

/-- A list of three nodes. -/
def threeNodes : Links Nat :=
  ⟨fun a => if a = 24 then 0 else a + 8, fun a => if a = 8 then 24 else a - 8⟩

/-- The middle of three nodes is taken out, one is appended, and the head, the tail and the sole node that is
left go in turn. -/
theorem list_implements_sequence_three : ∃ links', listRun (threeNodes, 8)
    [.remove 16, .append 32, .remove 8, .remove 32, .remove 24] = .ok (links', 0) := by
  have hspells : threeNodes.Spells 0 8 [8, 16, 24] :=
    ⟨rfl, ⟨rfl, rfl, rfl, rfl, rfl, rfl, trivial⟩, by decide, by decide⟩
  obtain ⟨-, -, hruns⟩ := list_implements_sequence hspells
  obtain ⟨links', head', hrun, h', -⟩ := hruns [.remove 16, .append 32, .remove 8, .remove 32, .remove 24]
    ⟨by decide, by decide, by decide, by decide, by decide, trivial⟩
  obtain rfl : head' = 0 := h'.head
  exact ⟨links', hrun⟩

end

/-! ## Loops -/

section

variable {σ β : Type} {links : Links Nat} {head : Nat} {l : List Nat}

/-- The body of a loop, run on the nodes of a sequence in order. -/
def visit (body : σ → Nat → Exec (σ ⊕ β)) : σ → List Nat → Exec (σ ⊕ β)
  | s, [] => .ok (.inl s)
  | s, a :: l =>
    body s a >>= fun
      | .inl s => visit body s l
      | .inr b => .ok (.inr b)

/-- **A loop visits the sequence of its list.** -/
theorem loopList_eq (body : σ → Nat → Exec (σ ⊕ β)) (h : links.Spells 0 head l)
    (hlen : l.length < 18446744073709551616) (s : σ) :
    loopList links body head s = visit body s l := by
  -- from any node of the list, with more passes left than nodes
  have hfrom : ∀ (m before : List Nat) (fuel node : Nat) (s : σ), l = before ++ m →
      node = m.headD 0 → m.length < fuel →
      Lib.iterate .diverged (loopPass links body) fuel (node, s) = visit body s m := by
    intro m
    induction m with
    | nil =>
      intro before fuel node s _ hnode hfuel
      obtain ⟨fuel, rfl⟩ : ∃ k, fuel = k + 1 := ⟨fuel - 1, by omega⟩
      exact Lib.iterate_done (if_neg (not_not.2 hnode))
    | cons a m ih =>
      intro before fuel node s hsplit hnode hfuel
      obtain ⟨fuel, rfl⟩ : ∃ k, fuel = k + 1 := ⟨fuel - 1, by omega⟩
      obtain rfl : node = a := hnode
      have hnode0 : node ≠ 0 := ne_of_mem_of_not_mem (by rw [hsplit]; simp) h.null
      have hnext : links.next node = m.headD 0 := by
        rw [hsplit] at h
        exact h.next_eq
      have hpass : loopPass links body (node, s) = body s node >>= fun
          | .inl t => .ok (.inl (links.next node, t))
          | .inr b => .ok (.inr (.inr b)) := if_pos hnode0
      rw [visit]
      cases hbody : body s node with
      | error e =>
        rw [hbody] at hpass
        exact Lib.iterate_fault hpass
      | ok r =>
        rw [hbody, ok_bind] at hpass
        cases r with
        | inl t =>
          rw [Lib.iterate_again hpass, ok_bind]
          exact ih (before ++ [node]) fuel (links.next node) t (by rw [hsplit]; simp) hnext
            (by simpa using hfuel)
        | inr b => exact Lib.iterate_done hpass
  exact hfrom l [] _ head s rfl h.head hlen

/-- A loop that only searches breaks at the first node where there is something. -/
theorem visit_search {body : Unit → Nat → Exec (Unit ⊕ β)} {f : Nat → Option β}
    (hbody : ∀ a ∈ l, body () a = .ok ((f a).elim (.inl ()) .inr)) :
    visit body () l = .ok ((l.findSome? f).elim (.inl ()) .inr) := by
  induction l with
  | nil => rfl
  | cons a l ih =>
    rw [visit, hbody a List.mem_cons_self, ok_bind, List.findSome?_cons]
    cases f a with
    | none => exact ih fun b hb => hbody b (List.mem_cons_of_mem _ hb)
    | some b => rfl

/-- A loop over a list that never comes to `NULL` does not end, unless its body breaks. -/
theorem loopList_diverges {body : σ → Nat → Exec (σ ⊕ β)} (P : Nat → Prop) (hP : ∀ a, P a → a ≠ 0 ∧ P (links.next a))
    (hbody : ∀ a, P a → ∀ s, ∃ t, body s a = .ok (.inl t)) (hhead : P head) (s : σ) :
    loopList links body head s = .error .diverged := by
  refine Lib.iterate_never (fun s => P s.1) ?_ _ _ hhead
  rintro ⟨a, s⟩ ha
  obtain ⟨hne, hnext⟩ := hP a ha
  obtain ⟨t, ht⟩ := hbody a ha s
  refine ⟨(links.next a, t), ?_, hnext⟩
  unfold loopPass
  rw [if_pos hne, ht]
  rfl

end

end GunyahRuntime
