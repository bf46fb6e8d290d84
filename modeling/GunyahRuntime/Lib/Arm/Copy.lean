/-
# GunyahRuntime.Lib.Arm.Copy -- copying in order, and copying through a pipe of register pairs

A `Job` is a region to be copied to another. `Job.Copied k` says that its first `k` bytes are copied, as copying byte
after byte would do it, that nothing else has changed and that all loads were of the source. A load keeps it and a store
of the next word moves it on. The regions may overlap, as long as no byte is written over between the load that finds it
and its turn: `Job.Sound` says how far the loads may run ahead of the stores.

Here they run ahead by up to eight pairs of registers. `Job.Pipe` says which pair of words stands in
which pair of registers, and a schedule of loads and stores in any order keeps it, as long as no store waits for a load
and no load overwrites a pair that is still to be stored. So one rule covers a loop that loads a chunk while it stores
the one before, a straight-line copy, and a table that a computed jump enters in its middle.

Nothing here names a program.
-/
import GunyahRuntime.Lib.Arm.Run

namespace GunyahRuntime.Lib.Arm

/-- What is to be copied where, and the memory and the loads at the start. -/
structure Job where
  dst : Addr
  src : Addr
  size : Nat
  mem : Mem
  reads : List (Addr × Nat)

namespace Job

/-- A byte can be loaded as it should be, less than `ahead` bytes before its turn. -/
structure Sound (J : Job) (ahead : Nat) : Prop where
  size_lt : J.size < 18446744073709551616
  settles : J.mem.Settles J.dst J.src ahead J.size

/-- A region that lies in the source. -/
def Inside (J : Job) (r : Addr × Nat) : Prop := ∃ i, r.1 = J.src + BitVec.ofNat 64 i ∧ i + r.2 ≤ J.size

/-- The word of `w` bytes at distance `i` in the source, as they are when their turns come. -/
def word (J : Job) (i w : Nat) : BitVec 64 :=
  Mem.read (fun x => J.mem.carried J.dst J.src (x - J.src).toNat) (J.src + BitVec.ofNat 64 i) w

/-- The first `k` bytes are copied, and nothing else is written or read. -/
structure Copied (J : Job) (k : Nat) (s : Cpu) : Prop where
  mem : s.mem = J.mem.forward J.dst J.src k
  reads : ∀ r ∈ s.reads, r ∈ J.reads ∨ J.Inside r
  le : k ≤ J.size

section Copied

variable {J : Job} {s s' : Cpu} {k i w ahead : Nat} {rt rt2 rn : Reg} {mode : Mode}

theorem Inside.within {r : Addr × Nat} (h : J.Inside r) (hsize : J.size ≤ 18446744073709551616) :
    ∀ x, Within r.1 r.2 x → Within J.src J.size x := by
  obtain ⟨i, haddr, hle⟩ := h
  intro x hx
  rw [haddr] at hx
  exact hx.of_part hle hsize

/-- What only moves registers keeps what is copied. -/
theorem Copied.of_same (h : J.Copied k s) (hmem : s'.mem = s.mem) (hreads : s'.reads = s.reads) : J.Copied k s' :=
  ⟨hmem ▸ h.mem, hreads ▸ h.reads, h.le⟩

/-- A word of the source, not too far ahead. -/
theorem Copied.read (hJ : J.Sound ahead) (h : J.Copied k s) (hki : k ≤ i) (hahead : i + w ≤ k + ahead)
    (hi : i + w ≤ J.size) : s.mem.read (J.src + BitVec.ofNat 64 i) w = J.word i w := by
  have hsize := hJ.size_lt
  rw [h.mem]
  apply Mem.read_congr (by omega)
  intro x hx
  have hplace : i ≤ (x - J.src).toNat ∧ (x - J.src).toNat < i + w := by
    unfold Within at hx
    bv_omega
  have hsettled := hJ.settles k (x - J.src).toNat (by omega) (by omega) (by omega)
  rwa [← eq_add_distance] at hsettled

/-- A word is the bytes that are carried over. -/
theorem byteOf_word (J : Job) {j : Nat} (hj : j < w) (hw : w ≤ 8) (hi : i + w < 18446744073709551616) :
    byteOf (J.word i w) j = J.mem.carried J.dst J.src (i + j) := by
  have hplace : (J.src + BitVec.ofNat 64 i + BitVec.ofNat 64 j - J.src).toNat = i + j := by bv_omega
  rw [word, byteOf_read _ hj hw, hplace]

theorem Copied.add_read (h : J.Copied k s) (hi : i + w ≤ J.size) :
    ∀ r ∈ (J.src + BitVec.ofNat 64 i, w) :: s.reads, r ∈ J.reads ∨ J.Inside r := by
  intro r hr
  rcases List.mem_cons.1 hr with rfl | hr
  · exact .inr ⟨i, rfl, hi⟩
  · exact h.reads r hr

/-! ### One register -/

theorem Copied.ldr (h : J.Copied k s) (ha : s.address rn mode = J.src + BitVec.ofNat 64 i) (hi : i + w ≤ J.size) :
    J.Copied k ((Op.ldr w rt rn mode).exec s) := by
  refine ⟨?_, ?_, h.le⟩
  · simpa [Op.exec] using h.mem
  · simpa [Op.exec, ha] using h.add_read hi

theorem Copied.ldr_x (hJ : J.Sound ahead) (h : J.Copied k s) (ha : s.address rn mode = J.src + BitVec.ofNat 64 i)
    (hki : k ≤ i) (hahead : i + w ≤ k + ahead) (hi : i + w ≤ J.size) (hrt : rt ≠ 31) (hrn : rt ≠ rn) :
    ((Op.ldr w rt rn mode).exec s).x rt = J.word i w := by
  rw [Op.exec, Cpu.writeBack_x_of_ne hrn, Cpu.set_x_self hrt, ha, h.read hJ hki hahead hi]

/-- A store of the next word. -/
theorem Copied.str (hJ : J.Sound ahead) (h : J.Copied k s) (ha : s.address rn mode = J.dst + BitVec.ofNat 64 k)
    (hvalue : s.get rt = J.word k w) (hw : w ≤ 8) (hk : k + w ≤ J.size) :
    J.Copied (k + w) ((Op.str w rt rn mode).exec s) := by
  have hsize := hJ.size_lt
  refine ⟨?_, ?_, hk⟩
  · simp only [Op.exec, Cpu.writeBack_mem, ha, hvalue, h.mem]
    exact Mem.forward_write (by omega) fun j hj => J.byteOf_word hj hw (by omega)
  · simpa [Op.exec] using h.reads

/-! ### Two registers -/

theorem Copied.ldp (h : J.Copied k s) (ha : s.address rn mode = J.src + BitVec.ofNat 64 i) (hi : i + 16 ≤ J.size) :
    J.Copied k ((Op.ldp rt rt2 rn mode).exec s) := by
  refine ⟨?_, ?_, h.le⟩
  · simpa [Op.exec] using h.mem
  · simpa [Op.exec, ha] using h.add_read hi

theorem Copied.ldp_x (hJ : J.Sound ahead) (h : J.Copied k s) (ha : s.address rn mode = J.src + BitVec.ofNat 64 i)
    (hki : k ≤ i) (hahead : i + 16 ≤ k + ahead) (hi : i + 16 ≤ J.size) (hrt : rt ≠ 31) (hne : rt ≠ rt2)
    (hrn : rt ≠ rn) : ((Op.ldp rt rt2 rn mode).exec s).x rt = J.word i 8 := by
  rw [Op.exec, Cpu.writeBack_x_of_ne hrn, Cpu.set_x_of_ne hne, Cpu.set_x_self hrt, ha,
    h.read hJ hki (by omega) (by omega)]

theorem Copied.ldp_x2 (hJ : J.Sound ahead) (h : J.Copied k s) (ha : s.address rn mode = J.src + BitVec.ofNat 64 i)
    (hki : k ≤ i) (hahead : i + 16 ≤ k + ahead) (hi : i + 16 ≤ J.size) (hrt2 : rt2 ≠ 31) (hrn : rt2 ≠ rn) :
    ((Op.ldp rt rt2 rn mode).exec s).x rt2 = J.word (i + 8) 8 := by
  have hnext : s.address rn mode + 8 = J.src + BitVec.ofNat 64 (i + 8) := by
    rw [ha]
    exact offset_add J.src i 8
  rw [Op.exec, Cpu.writeBack_x_of_ne hrn, Cpu.set_x_self hrt2, hnext, h.read hJ (by omega) (by omega) (by omega)]

/-- A store of the next two words. -/
theorem Copied.stp (hJ : J.Sound ahead) (h : J.Copied k s) (ha : s.address rn mode = J.dst + BitVec.ofNat 64 k)
    (hvalue : s.get rt = J.word k 8) (hvalue2 : s.get rt2 = J.word (k + 8) 8) (hk : k + 16 ≤ J.size) :
    J.Copied (k + 16) ((Op.stp rt rt2 rn mode).exec s) := by
  have hsize := hJ.size_lt
  have hnext : J.dst + BitVec.ofNat 64 k + 8 = J.dst + BitVec.ofNat 64 (k + 8) := offset_add J.dst k 8
  refine ⟨?_, ?_, hk⟩
  · simp only [Op.exec, Cpu.writeBack_mem, ha, hvalue, hvalue2, hnext, h.mem]
    have hfirst : (J.mem.forward J.dst J.src k).write (J.dst + BitVec.ofNat 64 k) 8 (J.word k 8) =
        J.mem.forward J.dst J.src (k + 8) :=
      Mem.forward_write (by omega) fun j hj => J.byteOf_word hj le_rfl (by omega)
    rw [hfirst]
    exact Mem.forward_write (by omega) fun j hj => J.byteOf_word hj le_rfl (by omega)
  · simpa [Op.exec] using h.reads

end Copied

/-! ## Word by word -/

/-- The first `k` bytes are copied, and the pointers stand behind them. -/
structure Stands (J : Job) (k : Nat) (s : Cpu) : Prop extends J.Copied k s where
  dst : s.x 0 = J.dst + BitVec.ofNat 64 k
  src : s.x 1 = J.src + BitVec.ofNat 64 k

/-- So it is, but the next word is already in `x3`, and the source pointer behind it. -/
structure Carries (J : Job) (k w : Nat) (s : Cpu) : Prop extends J.Copied k s where
  dst : s.x 0 = J.dst + BitVec.ofNat 64 k
  src : s.x 1 = J.src + BitVec.ofNat 64 (k + w)
  value : s.x 3 = J.word k w

section Words

variable {J : Job} {s : Cpu} {k w ahead : Nat}

theorem Stands.ldr (hJ : J.Sound ahead) (h : J.Stands k s) (hahead : w ≤ ahead) (hk : k + w ≤ J.size) :
    J.Carries k w ((Op.ldr w 3 1 (.post (BitVec.ofNat 64 w))).exec s) := by
  have ha : s.address 1 (.post (BitVec.ofNat 64 w)) = J.src + BitVec.ofNat 64 k := h.src
  refine ⟨h.toCopied.ldr ha hk, ?_, ?_, h.toCopied.ldr_x hJ ha le_rfl (by omega) hk (by decide) (by decide)⟩
  · rw [Op.exec_x (by simp [Op.dests, Mode.dests]), h.dst]
  · simp [Op.exec, Cpu.writeBack, Cpu.set, h.src, offset_add]

theorem Carries.sub (h : J.Carries k w s) (imm : BitVec 64) : J.Carries k w ((Op.sub 2 2 imm).exec s) := by
  have hx : ∀ q : Nat, q ≠ 2 → ((Op.sub 2 2 imm).exec s).x q = s.x q := fun q hq =>
    Op.exec_x (by simp [Op.dests, hq])
  refine ⟨h.toCopied.of_same ?_ ?_, ?_, ?_, ?_⟩
  · simp [Op.exec]
  · simp [Op.exec]
  · rw [hx 0 (by decide), h.dst]
  · rw [hx 1 (by decide), h.src]
  · rw [hx 3 (by decide), h.value]

theorem Carries.str (hJ : J.Sound ahead) (h : J.Carries k w s) (hw : w ≤ 8) (hk : k + w ≤ J.size) :
    J.Stands (k + w) ((Op.str w 3 0 (.post (BitVec.ofNat 64 w))).exec s) := by
  have ha : s.address 0 (.post (BitVec.ofNat 64 w)) = J.dst + BitVec.ofNat 64 k := h.dst
  refine ⟨h.toCopied.str hJ ha ((Cpu.get_of_ne (by decide)).trans h.value) hw hk, ?_, ?_⟩
  · simp [Op.exec, Cpu.writeBack, Cpu.set, h.dst, offset_add]
  · rw [Op.exec_x (by simp [Op.dests, Mode.dests]), h.src]

/-- A word goes over. -/
theorem Stands.copy (hJ : J.Sound ahead) (h : J.Stands k s) (hahead : w ≤ ahead) (hw : w ≤ 8) (hk : k + w ≤ J.size) :
    J.Stands (k + w) (s.execs
      [.ldr w 3 1 (.post (BitVec.ofNat 64 w)), .str w 3 0 (.post (BitVec.ofNat 64 w))]) :=
  (h.ldr hJ hahead hk).str hJ hw hk

/-- A word goes over, and the size is brought down in between. -/
theorem Stands.copy_sub (hJ : J.Sound ahead) (h : J.Stands k s) (hahead : w ≤ ahead) (hw : w ≤ 8)
    (hk : k + w ≤ J.size) : J.Stands (k + w) (s.execs
      [.ldr w 3 1 (.post (BitVec.ofNat 64 w)), .sub 2 2 (BitVec.ofNat 64 w),
        .str w 3 0 (.post (BitVec.ofNat 64 w))]) :=
  ((h.ldr hJ hahead hk).sub _).str hJ hw hk

/-- Two words go over together. -/
theorem Stands.copy_pair (hJ : J.Sound ahead) (h : J.Stands k s) (hahead : 16 ≤ ahead) (hk : k + 16 ≤ J.size) :
    J.Stands (k + 16) (s.execs [.ldp 3 4 1 (.post 16), .stp 3 4 0 (.post 16)]) := by
  have ha : s.address 1 (.post 16) = J.src + BitVec.ofNat 64 k := h.src
  obtain ⟨S, hS⟩ : ∃ S, (Op.ldp 3 4 1 (.post 16)).exec s = S := ⟨_, rfl⟩
  have hloaded : J.Copied k S := hS ▸ h.toCopied.ldp ha hk
  have hfirst : S.x 3 = J.word k 8 :=
    hS ▸ h.toCopied.ldp_x hJ ha le_rfl (by omega) hk (by decide) (by decide) (by decide)
  have hsecond : S.x 4 = J.word (k + 8) 8 :=
    hS ▸ h.toCopied.ldp_x2 hJ ha le_rfl (by omega) hk (by decide) (by decide)
  have hdst : S.x 0 = J.dst + BitVec.ofNat 64 k := by
    rw [← hS, Op.exec_x (by simp [Op.dests, Mode.dests]), h.dst]
  have hsrc : S.x 1 = J.src + BitVec.ofNat 64 (k + 16) := by
    simp [← hS, Op.exec, Cpu.writeBack, Cpu.set, h.src, ← offset_add]
  have hstored : J.Copied (k + 16) ((Op.stp 3 4 0 (.post 16)).exec S) := hloaded.stp hJ hdst hfirst hsecond hk
  rw [Cpu.execs_cons, Cpu.execs_cons, Cpu.execs_nil, hS]
  refine ⟨hstored, ?_, ?_⟩
  · simp [Op.exec, Cpu.writeBack, Cpu.set, hdst, ← offset_add]
  · rw [Op.exec_x (by simp [Op.dests, Mode.dests]), hsrc]

end Words

/-! ## The pipe -/

/-- The first register of the pair that holds pair `j`: eight in turn, from `x3` on. -/
def slot (o j : Nat) : Nat := 3 + 2 * ((j + o) % 8)

/-- From byte `k` on, `t` pairs of words are copied and `l` are loaded. -/
structure Pipe (J : Job) (o k t l : Nat) (s : Cpu) : Prop where
  copied : J.Copied (k + 16 * t) s
  le : t ≤ l
  held : ∀ j, t ≤ j → j < l →
    s.x (slot o j) = J.word (k + 16 * j) 8 ∧ s.x (slot o j + 1) = J.word (k + 16 * j + 8) 8

/-- A step of a schedule. -/
inductive Move where
  | load
  | store
  deriving DecidableEq

/-- The instruction of a step, where the pointers stand `e` bytes ahead of the first pair. -/
def Move.op (o t l : Nat) (e : BitVec 64) : Move → Op
  | .load => .ldp (slot o l) (slot o l + 1) 1 (.off (BitVec.ofNat 64 (16 * l) - e))
  | .store => .stp (slot o t) (slot o t + 1) 0 (.off (BitVec.ofNat 64 (16 * t) - e))

/-- The instructions of a schedule. -/
def ops (o : Nat) (e : BitVec 64) : Nat → Nat → List Move → List Op
  | _, _, [] => []
  | t, l, .load :: moves => Move.op o t l e .load :: ops o e t (l + 1) moves
  | t, l, .store :: moves => Move.op o t l e .store :: ops o e (t + 1) l moves

/-- The schedule can be followed, and where it leads. -/
def Leads : Nat → Nat → List Move → Nat → Nat → Prop
  | t, l, [], t', l' => t = t' ∧ l = l'
  | t, l, .load :: moves, t', l' => l < t + 8 ∧ Leads t (l + 1) moves t' l'
  | t, l, .store :: moves, t', l' => t < l ∧ Leads (t + 1) l moves t' l'

instance decidableLeads : ∀ (t l : Nat) (moves : List Move) (t' l' : Nat), Decidable (Leads t l moves t' l')
  | t, l, [], t', l' => inferInstanceAs (Decidable (t = t' ∧ l = l'))
  | t, l, .load :: moves, t', l' =>
    have := decidableLeads t (l + 1) moves t' l'
    inferInstanceAs (Decidable (l < t + 8 ∧ _))
  | t, l, .store :: moves, t', l' =>
    have := decidableLeads (t + 1) l moves t' l'
    inferInstanceAs (Decidable (t < l ∧ _))

section Pipe

variable {J : Job} {o k t l t' l' : Nat} {s : Cpu} {e : BitVec 64} {mode : Mode}

theorem Leads.le {moves : List Move} (h : Leads t l moves t' l') : t ≤ t' ∧ l ≤ l' := by
  induction moves generalizing t l with
  | nil => exact ⟨h.1.le, h.2.le⟩
  | cons move moves ih =>
    cases move with
    | load =>
      have := ih h.2
      omega
    | store =>
      have := ih h.2
      omega

/-- Neighbours in the pipe are in different registers. -/
theorem slot_ne {i j : Nat} (hij : i < j) (hj : j < i + 8) : slot o i ≠ slot o j ∧ slot o i ≠ slot o j + 1 ∧
    slot o i + 1 ≠ slot o j := by
  have hturn : (i + o) % 8 ≠ (j + o) % 8 := by omega
  unfold slot
  generalize (i + o) % 8 = a at hturn
  generalize (j + o) % 8 = b at hturn
  omega

theorem slot_bounds (o j : Nat) : 3 ≤ slot o j ∧ slot o j + 1 < 31 := by
  unfold slot
  omega

/-- The pairs are general registers, and not the pointers. -/
theorem slot_ne_pointer (o j : Nat) {q : Nat} (hq : q < 3 ∨ q = 31) : slot o j ≠ q ∧ slot o j + 1 ≠ q := by
  have := slot_bounds o j
  omega

theorem not_mem_ldp_dests {q rt rt2 rn : Nat} (hrt : q ≠ rt) (hrt2 : q ≠ rt2) (hrn : q ≠ rn) :
    q ∉ (Op.ldp rt rt2 rn mode).dests := by
  cases mode <;> simp [Op.dests, Mode.dests, hrt, hrt2, hrn]

theorem not_mem_stp_dests {q rt rt2 rn : Nat} (hrn : q ≠ rn) : q ∉ (Op.stp rt rt2 rn mode).dests := by
  cases mode <;> simp [Op.dests, Mode.dests, hrn]

/-- A load of the next pair. -/
theorem Pipe.load (hJ : J.Sound 128) (h : J.Pipe o k t l s) (hroom : l < t + 8)
    (ha : s.address 1 mode = J.src + BitVec.ofNat 64 (k + 16 * l)) (hl : k + 16 * l + 16 ≤ J.size) :
    J.Pipe o k t (l + 1) ((Op.ldp (slot o l) (slot o l + 1) 1 mode).exec s) := by
  have hslot := slot_bounds o l
  have hle := h.le
  refine ⟨h.copied.ldp ha hl, by omega, fun j htj hjl => ?_⟩
  rcases Nat.lt_succ_iff_lt_or_eq.1 hjl with hj | rfl
  · obtain ⟨hfirst, hsecond, hthird⟩ := slot_ne (o := o) hj (by omega)
    have hj' := slot_bounds o j
    have hkept : ∀ q : Nat, q = slot o j ∨ q = slot o j + 1 →
        ((Op.ldp (slot o l) (slot o l + 1) 1 mode).exec s).x q = s.x q := fun q hq =>
      Op.exec_x (not_mem_ldp_dests (by omega) (by omega) (by omega))
    rw [hkept _ (.inl rfl), hkept _ (.inr rfl)]
    exact h.held j htj hj
  · have hzero := slot_ne_pointer o j (.inr rfl)
    have hbase := slot_ne_pointer o j (q := 1) (.inl (by decide))
    exact ⟨h.copied.ldp_x hJ ha (by omega) (by omega) hl hzero.1 (Nat.ne_of_lt (Nat.lt_succ_self _)) hbase.1,
      h.copied.ldp_x2 hJ ha (by omega) (by omega) hl hzero.2 hbase.2⟩

/-- A store of the next pair. -/
theorem Pipe.store (hJ : J.Sound 128) (h : J.Pipe o k t l s) (hheld : t < l)
    (ha : s.address 0 mode = J.dst + BitVec.ofNat 64 (k + 16 * t)) (hl : k + 16 * l ≤ J.size) :
    J.Pipe o k (t + 1) l ((Op.stp (slot o t) (slot o t + 1) 0 mode).exec s) := by
  have hzero := slot_ne_pointer o t (.inr rfl)
  obtain ⟨hfirst, hsecond⟩ := h.held t le_rfl hheld
  refine ⟨?_, hheld, fun j htj hjl => ?_⟩
  · rw [show k + 16 * (t + 1) = k + 16 * t + 16 by omega]
    apply h.copied.stp hJ ha _ _ (by omega)
    · rw [Cpu.get_of_ne hzero.1, hfirst]
    · rw [Cpu.get_of_ne hzero.2, hsecond]
  · have hj' := slot_bounds o j
    have hkept : ∀ q : Nat, 3 ≤ q → ((Op.stp (slot o t) (slot o t + 1) 0 mode).exec s).x q = s.x q := fun q hq =>
      Op.exec_x (not_mem_stp_dests (by omega))
    rw [hkept _ hj'.1, hkept _ (by omega)]
    exact h.held j (by omega) hjl

/-- Where the pipe has pairs and where it ends can be counted from another byte. -/
theorem Pipe.shift {d : Nat} (h : J.Pipe o k (t + 8 * d) (l + 8 * d) s) : J.Pipe o (k + 128 * d) t l s := by
  refine ⟨?_, Nat.le_of_add_le_add_right h.le, fun j htj hjl => ?_⟩
  · rw [show k + 128 * d + 16 * t = k + 16 * (t + 8 * d) by omega]
    exact h.copied
  · have hslot : slot o j = slot o (j + 8 * d) := by
      unfold slot
      omega
    rw [hslot, show k + 128 * d + 16 * j = k + 16 * (j + 8 * d) by omega]
    exact h.held (j + 8 * d) (by omega) (by omega)

/-- The pipe is empty at the start. -/
theorem Copied.pipe (h : J.Copied k s) (o : Nat) : J.Pipe o k 0 0 s :=
  ⟨h, le_rfl, fun _ _ h => absurd h (Nat.not_lt_zero _)⟩

theorem Move.op_dests {q : Nat} (move : Move) (hq : q < 3) : q ∉ (Move.op o t l e move).dests := by
  have hslot := slot_bounds o l
  cases move with
  | load =>
    intro hmem
    simp only [Move.op, Op.dests, Mode.dests, List.mem_cons, List.not_mem_nil, or_false] at hmem
    rcases hmem with rfl | rfl <;> omega
  | store => exact List.not_mem_nil

theorem Move.op_setsFlags (move : Move) : (Move.op o t l e move).setsFlags = false := by cases move <;> rfl

theorem ops_dests {moves : List Move} {q : Nat} (hq : q < 3) : ∀ p ∈ ops o e t l moves, q ∉ p.dests := by
  induction moves generalizing t l with
  | nil => exact fun p hp => absurd hp List.not_mem_nil
  | cons move moves ih =>
    intro p hp
    cases move <;>
    · rcases List.mem_cons.1 hp with rfl | hp
      · exact Move.op_dests _ hq
      · exact ih p hp

theorem ops_setsFlags {moves : List Move} : ∀ p ∈ ops o e t l moves, p.setsFlags = false := by
  induction moves generalizing t l with
  | nil => exact fun p hp => absurd hp List.not_mem_nil
  | cons move moves ih =>
    intro p hp
    cases move <;>
    · rcases List.mem_cons.1 hp with rfl | hp
      · exact Move.op_setsFlags _
      · exact ih p hp

theorem length_ops (o : Nat) (e : BitVec 64) (t l : Nat) (moves : List Move) :
    (ops o e t l moves).length = moves.length := by
  induction moves generalizing t l with
  | nil => rfl
  | cons move moves ih => cases move <;> simp [ops, ih]

theorem address_off {a b : Addr} {i : Nat} (h : a = b + BitVec.ofNat 64 k + e) :
    a + (BitVec.ofNat 64 i - e) = b + BitVec.ofNat 64 (k + i) := by
  rw [h, BitVec.ofNat_add]
  bv_omega

/-- **A schedule**: it leads the pipe where the schedule says. Without stores the destination pointer can be anything. -/
theorem Pipe.execs (hJ : J.Sound 128) {moves : List Move} (h : J.Pipe o k t l s) (hlead : Leads t l moves t' l')
    (hdst : .store ∈ moves → s.x 0 = J.dst + BitVec.ofNat 64 k + e) (hsrc : s.x 1 = J.src + BitVec.ofNat 64 k + e)
    (hl : k + 16 * l' ≤ J.size) : J.Pipe o k t' l' (s.execs (ops o e t l moves)) := by
  induction moves generalizing s t l with
  | nil =>
    obtain ⟨rfl, rfl⟩ := hlead
    exact h
  | cons move moves ih =>
    have hkept : ∀ q < 3, ((Move.op o t l e move).exec s).x q = s.x q := fun q hq => Op.exec_x (Move.op_dests _ hq)
    have hdst' : .store ∈ moves → ((Move.op o t l e move).exec s).x 0 = J.dst + BitVec.ofNat 64 k + e := fun hmem => by
      rw [hkept 0 (by decide), hdst (List.mem_cons_of_mem _ hmem)]
    have hsrc' : ((Move.op o t l e move).exec s).x 1 = J.src + BitVec.ofNat 64 k + e := by
      rw [hkept 1 (by decide), hsrc]
    cases move with
    | load =>
      have hle := hlead.2.le
      exact ih (h.load hJ hlead.1 (address_off hsrc) (by omega)) hlead.2 hdst' hsrc'
    | store =>
      have hle := hlead.2.le
      exact ih (h.store hJ hlead.1 (address_off (hdst List.mem_cons_self)) (by omega)) hlead.2 hdst' hsrc'

end Pipe

end Job

end GunyahRuntime.Lib.Arm
