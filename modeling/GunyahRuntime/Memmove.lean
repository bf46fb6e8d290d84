/-
# GunyahRuntime.Memmove -- `memmove` (`string.c`, `memcpy.S`)

The function looks at the order of its pointers and at their distance, and then calls `memcpy` or `memcpy_bytes`. Both
copy forwards. So does it, whatever the choice, and that is the whole of what it does: a byte of the source that was
written over before its turn is lost, and what goes over instead is a byte from before. The result is a copy if, and
only if, the source repeats after the distance of the destination. For a destination below the source there is nothing
that would have to repeat; for one that begins inside the source, there is.

Forwards is the same as byte after byte only while no load of the pipe runs too far ahead, and `memcpy` loads at most
eight pairs ahead. That is what the distance of `CPU_MEMCPY_STRIDE` is for.
-/
import GunyahRuntime.MemcpyRuns

namespace GunyahRuntime

open Lib (Addr Mem Within)
open Lib.Arm

/-! ## `memcpy_bytes` -/

inductive MemcpyBytesLabel where
  | memcpyBytes
  | one
  | two
  deriving DecidableEq

/-- `function memcpy_bytes`. The word behind it is not an instruction: it keeps the function out of other programs. -/
def memcpyBytesLines : List (Line MemcpyBytesLabel) :=
  [.label .memcpyBytes,
    .instr (.cbz 2 .two),
  .label .one,
    .op (.subs 2 2 1),
    .op (.ldr 1 3 1 (.post 1)),
    .op (.str 1 3 0 (.post 1)),
    .instr (.b .ne .one),
  .label .two,
    .instr .ret]

def memcpyBytesText : List (Instr Nat) := assemble memcpyBytesLines

/-- `memcpy_bytes(s1, s2, n)`. -/
def memcpyBytes (base : Addr) (fuel : Nat) (s : Cpu) (s1 s2 n : BitVec 64) : Exec Cpu :=
  callText base memcpyBytesLines fuel .memcpyBytes (((s.set 0 s1).set 1 s2).set 2 n)

/-! ## `memmove` -/

/-- `memmove(s1, s2, n)`. The addresses and the sums are of type `uintptr_t`. -/
def memmove (base : Addr) (fuel : Nat) (s : Cpu) (s1 s2 n : BitVec 64) : Exec (BitVec 64 × Cpu) :=
  if s1 = s2 then pure (s1, s)
  else if s1.ult s2 then do
    let (_, s') ← memcpy base fuel s s1 s2 n
    pure (s1, s')
  else if (s2 + CPU_MEMCPY_STRIDE).ult s1 then do
    let (_, s') ← memcpy base fuel s s1 s2 n
    pure (s1, s')
  -- with `s2` below `s1`, the first sum has to wrap for this
  else if (s1 + n).ule s2 && (s2 + n).ule s1 then do
    let (_, s') ← memcpy base fuel s s1 s2 n
    pure (s1, s')
  else do
    let s' ← memcpyBytes base fuel s s1 s2 n
    pure (s1, s')

/-! ## The byte loop -/

section Bytes

variable {base : Addr} {J : Job} {k : Nat} {s : Cpu}

/-- A turn of the loop. -/
def bytePass : List Op := [.subs 2 2 1, .ldr 1 3 1 (.post 1), .str 1 3 0 (.post 1)]

/-- **One turn**: one more byte is copied, and the flags say whether there is another. -/
theorem memcpyBytes_pass (hJ : J.Sound 1) {m : Nat} (hm : (s.x 2).toNat = m + 1) (h : Rests J k s) :
    Rests J (k + 1) (s.execs bytePass) ∧ ((s.execs bytePass).x 2).toNat = m ∧
      (Cond.ne.holds (s.execs bytePass).flags = true ↔ m ≠ 0) := by
  have hrest := h.rest
  obtain ⟨S, hS⟩ : ∃ S, (Op.subs 2 2 1).exec s = S := ⟨_, rfl⟩
  have hx : ∀ r : Nat, r ≠ 2 → S.x r = s.x r := fun r hr => hS ▸ Op.exec_x (by simpa [Op.dests] using hr)
  have hx2 : S.x 2 = s.x 2 - 1 := by simp [← hS, Op.exec, Cpu.get, Cpu.set]
  have hflags : S.flags = subFlags (s.x 2) 1 := by simp [← hS, Op.exec, Cpu.get]
  have hstands : J.Stands k S := by
    refine ⟨h.toCopied.of_same ?_ ?_, ?_, ?_⟩
    · simp [← hS, Op.exec]
    · simp [← hS, Op.exec]
    · rw [hx 0 (by decide), h.dst]
    · rw [hx 1 (by decide), h.src]
  -- the load and the store together copy one byte
  have hcopied := hstands.copy hJ le_rfl (by decide) (by omega)
  have hx2' : (s.execs bytePass).x 2 = s.x 2 - 1 := by
    rw [bytePass, Cpu.execs_cons, hS, Cpu.execs_x (by decide), hx2]
  have hflags' : (s.execs bytePass).flags = subFlags (s.x 2) 1 := by
    rw [bytePass, Cpu.execs_cons, hS, Cpu.execs_flags (by decide), hflags]
  have hleft : ((s.execs bytePass).x 2).toNat = m := by
    rw [hx2']
    bv_omega
  refine ⟨⟨?_, ?_⟩, hleft, ?_⟩
  · rw [bytePass, Cpu.execs_cons, hS]
    exact hcopied
  · rw [hleft]
    omega
  · rw [hflags', ne_holds]
    bv_omega

/-- The loop, with `m + 1` bytes left. -/
theorem memcpyBytes_loop (hJ : J.Sound 1) (m : Nat) : ∀ (k : Nat) (s : Cpu), (s.x 2).toNat = m + 1 → Rests J k s →
    Returns base memcpyBytesText (fun _ _ => True) (J.Copied J.size) 1 s := by
  have hbne : memcpyBytesText[4]? = some (.b .ne 1) := by decide +kernel
  induction m with
  | zero =>
    intro k s hm h
    obtain ⟨hrests, hleft, hmore⟩ := memcpyBytes_pass hJ hm h
    have hrest := hrests.rest
    rw [hleft, Nat.add_zero] at hrest
    refine Returns.block bytePass (by decide +kernel) (fun _ _ _ => trivial) ?_
    refine Returns.b hbne trivial (fun hc => absurd rfl (hmore.1 hc)) (fun _ => ?_)
    exact Returns.ret (by decide +kernel) trivial (hrest ▸ hrests.toCopied)
  | succ m ih =>
    intro k s hm h
    obtain ⟨hrests, hleft, hmore⟩ := memcpyBytes_pass hJ hm h
    refine Returns.block bytePass (by decide +kernel) (fun _ _ _ => trivial) ?_
    refine Returns.b hbne trivial (fun _ => ih (k + 1) _ hleft hrests) (fun hc => ?_)
    exact absurd (hmore.2 (Nat.succ_ne_zero m)) hc

/-- `memcpy_bytes` copies forwards, whatever the size and the distance. -/
theorem memcpyBytes_forward (s : Cpu) (s1 s2 n : BitVec 64) :
    ∃ fuel s', memcpyBytes base fuel s s1 s2 n = .ok s' ∧ (copyJob s s1 s2 n).Copied n.toNat s' := by
  have hJ : (copyJob s s1 s2 n).Sound 1 := ⟨n.isLt, Mem.settles_of_distance n.isLt.le (by omega)⟩
  have hcbz : memcpyBytesText[0]? = some (.cbz 2 5) := by decide +kernel
  obtain ⟨S, hS⟩ : ∃ S, ((s.set 0 s1).set 1 s2).set 2 n = S := ⟨_, rfl⟩
  have hstart : Rests (copyJob s s1 s2 n) 0 S := by
    rw [← hS]
    exact rests_start s s1 s2 n
  have hx2 : S.get 2 = n := by simp [← hS, Cpu.get, Cpu.set]
  have hrest : 0 + (S.x 2).toNat = n.toNat := hstart.rest
  have hreturns : Returns base memcpyBytesText (fun _ _ => True) ((copyJob s s1 s2 n).Copied n.toNat) 0 S := by
    refine Returns.cbz hcbz trivial (fun hzero => ?_) (fun hne => ?_)
    · have hnothing : n.toNat = 0 := by rw [← hx2, hzero]; rfl
      refine Returns.ret (by decide +kernel) trivial ?_
      rw [hnothing]
      exact hstart.toCopied
    · have hpos : n.toNat ≠ 0 := by
        rw [hx2] at hne
        bv_omega
      exact memcpyBytes_loop hJ (n.toNat - 1) 0 S (by omega) hstart
  obtain ⟨fuel, s', hrun, hcopied, -⟩ := hreturns
  refine ⟨fuel, s', ?_, hcopied⟩
  have hrun' : run base (assemble memcpyBytesLines) fuel (labelPos .memcpyBytes memcpyBytesLines) S = some s' := hrun
  simp only [memcpyBytes, callText, hS, hrun']

end Bytes

/-! ## Forwards, in every case -/

/-- `memmove` calls `memcpy`. -/
def CallsMemcpy (s1 s2 n : BitVec 64) : Prop :=
  s1 ≠ s2 ∧ (s1.ult s2 ∨ (s2 + CPU_MEMCPY_STRIDE).ult s1 ∨ (s1 + n).ule s2 ∧ (s2 + n).ule s1)

section Calls

variable {base : Addr} {fuel : Nat} {s s' : Cpu} {s1 s2 n : BitVec 64}

theorem memmove_memcpy (h : CallsMemcpy s1 s2 n) :
    memmove base fuel s s1 s2 n = memcpy base fuel s s1 s2 n >>= fun r => pure (s1, r.2) := by
  obtain ⟨hne, hcalls⟩ := h
  unfold memmove
  rw [if_neg hne]
  by_cases hbelow : s1.ult s2
  · rw [if_pos hbelow]
  · rw [if_neg hbelow]
    by_cases hfar : (s2 + CPU_MEMCPY_STRIDE).ult s1
    · rw [if_pos hfar]
    · rw [if_neg hfar, if_pos]
      simpa [hbelow, hfar] using hcalls

theorem memmove_bytes (hne : s1 ≠ s2) (h : ¬ CallsMemcpy s1 s2 n) :
    memmove base fuel s s1 s2 n = memcpyBytes base fuel s s1 s2 n >>= fun s' => pure (s1, s') := by
  have hnot : ¬ (s1.ult s2 ∨ (s2 + CPU_MEMCPY_STRIDE).ult s1 ∨ (s1 + n).ule s2 ∧ (s2 + n).ule s1) :=
    fun hcalls => h ⟨hne, hcalls⟩
  rw [not_or, not_or] at hnot
  unfold memmove
  rw [if_neg hne, if_neg hnot.1, if_neg hnot.2.1, if_neg]
  simpa using hnot.2.2

/-- **`memmove` copies forwards**, if `memcpy`, where it is called, can. -/
theorem memmove_forward (base : Addr) (s : Cpu) (hcall : CallsMemcpy s1 s2 n →
      (copyJob s s1 s2 n).Sound 128 ∧ n.toNat < 9223372036854775808 + alignGap s1) :
    ∃ fuel s', memmove base fuel s s1 s2 n = .ok (s1, s') ∧ s'.mem = s.mem.forward s1 s2 n.toNat := by
  by_cases hne : s1 = s2
  · refine ⟨0, s, if_pos hne, ?_⟩
    have hsame : s.mem.Repeats s2 (s1 - s2).toNat n.toNat := fun i _ => by rw [hne, BitVec.sub_self]; rfl
    rw [Mem.forward_eq_copied n.isLt.le hsame, hne]
    exact (Mem.copied_self _ _ _).symm
  · by_cases hcalls : CallsMemcpy s1 s2 n
    · obtain ⟨hJ, hfew⟩ := hcall hcalls
      obtain ⟨fuel, s', hrun, hcopied⟩ := @memcpy_forward base _ _ _ _ hJ hfew
      refine ⟨fuel, s', ?_, hcopied.mem⟩
      rw [memmove_memcpy hcalls, hrun]
      rfl
    · obtain ⟨fuel, s', hrun, hcopied⟩ := @memcpyBytes_forward base s s1 s2 n
      refine ⟨fuel, s', ?_, hcopied.mem⟩
      rw [memmove_bytes hne hcalls, hrun]
      rfl

/-! ## One result -/

theorem callText_unique {L : Type} [DecidableEq L] {lines : List (Line L)} {entry : L} {fuel' : Nat} {a b : Cpu}
    (ha : callText base lines fuel entry s = .ok a) (hb : callText base lines fuel' entry s = .ok b) : a = b := by
  unfold callText at ha hb
  cases hrun : run base (assemble lines) fuel (labelPos entry lines) s with
  | none =>
    rw [hrun] at ha
    cases ha
  | some c =>
    cases hrun' : run base (assemble lines) fuel' (labelPos entry lines) s with
    | none =>
      rw [hrun'] at hb
      cases hb
    | some d =>
      rw [hrun] at ha
      rw [hrun'] at hb
      cases ha
      cases hb
      exact run_unique hrun hrun'

theorem memcpy_unique {fuel' : Nat} {a b : BitVec 64 × Cpu} (ha : memcpy base fuel s s1 s2 n = .ok a)
    (hb : memcpy base fuel' s s1 s2 n = .ok b) : a = b := by
  simp only [memcpy, memcpy_assert, ok_bind] at ha hb
  cases hentry : memcpyCallee s1 n with
  | none =>
    rw [hentry] at ha hb
    exact Except.ok.inj (ha.symm.trans hb)
  | some entry =>
    simp only [hentry] at ha hb
    obtain ⟨c, hc, ha⟩ := bind_eq_ok.1 ha
    obtain ⟨d, hd, hb⟩ := bind_eq_ok.1 hb
    rw [callText_unique hc hd] at ha
    exact Except.ok.inj (ha.symm.trans hb)

theorem memmove_unique {fuel' : Nat} {a b : BitVec 64 × Cpu} (ha : memmove base fuel s s1 s2 n = .ok a)
    (hb : memmove base fuel' s s1 s2 n = .ok b) : a = b := by
  by_cases hne : s1 = s2
  · unfold memmove at ha hb
    rw [if_pos hne] at ha hb
    exact Except.ok.inj (ha.symm.trans hb)
  · by_cases hcalls : CallsMemcpy s1 s2 n
    · rw [memmove_memcpy hcalls] at ha hb
      obtain ⟨c, hc, ha⟩ := bind_eq_ok.1 ha
      obtain ⟨d, hd, hb⟩ := bind_eq_ok.1 hb
      rw [memcpy_unique hc hd] at ha
      exact Except.ok.inj (ha.symm.trans hb)
    · rw [memmove_bytes hne hcalls] at ha hb
      obtain ⟨c, hc, ha⟩ := bind_eq_ok.1 ha
      obtain ⟨d, hd, hb⟩ := bind_eq_ok.1 hb
      rw [callText_unique hc hd] at ha
      exact Except.ok.inj (ha.symm.trans hb)

end Calls

/-! ## What is moved -/

/-- The destination has the source's old bytes, and everything else is as it was. -/
structure MovesRegion (s s' : Cpu) (s1 s2 n : BitVec 64) : Prop where
  moved : ∀ i < n.toNat, s'.mem (s1 + BitVec.ofNat 64 i) = s.mem (s2 + BitVec.ofNat 64 i)
  kept : ∀ x, ¬ Within s1 n.toNat x → s'.mem x = s.mem x

/-- The call returns its destination, with the region moved. -/
def Moves (base : Addr) (s : Cpu) (s1 s2 n : BitVec 64) : Prop :=
  ∃ fuel s', memmove base fuel s s1 s2 n = .ok (s1, s') ∧ MovesRegion s s' s1 s2 n

/-- Where forwards is good enough. The size that `memcpy` compares is a signed number, once the destination is aligned;
and what is written over must be equal to what was there. -/
structure MoveFits (s : Cpu) (s1 s2 n : BitVec 64) : Prop where
  short : s1.toNat < s2.toNat ∨ s2.toNat + 256 < s1.toNat → n.toNat < 9223372036854775808 + alignGap s1
  repeats : s.mem.Repeats s2 (s1 - s2).toNat n.toNat

section Fits

variable {base : Addr} {s : Cpu} {s1 s2 n : BitVec 64}

/-- Where `memcpy` is called: below the source, far behind it, or for less than the distance. At the end of the address
space the distance is not what it is compared with. -/
theorem CallsMemcpy.cases (h : CallsMemcpy s1 s2 n) (h1 : s1.toNat + n.toNat ≤ 18446744073709551616)
    (h2 : s2.toNat + n.toNat ≤ 18446744073709551616) :
    s1.toNat < s2.toNat ∧ n.toNat ≤ (s1 - s2).toNat ∨ s2.toNat + 256 < s1.toNat ∧ 128 ≤ (s1 - s2).toNat ∨
      n.toNat ≤ (s1 - s2).toNat ∧ n.toNat ≤ 256 ∨
        s2.toNat < s1.toNat ∧ 18446744073709551616 ≤ s2.toNat + 256 ∧ n.toNat ≤ 256 := by
  obtain ⟨hne, hcalls⟩ := h
  simp only [BitVec.ult_eq_decide, BitVec.ule_eq_decide, decide_eq_true_eq, CPU_MEMCPY_STRIDE] at hcalls
  rcases hcalls with hbelow | hfar | ⟨hfirst, hsecond⟩
  · bv_omega
  · bv_omega
  · bv_omega

theorem moves_of_forward {fuel : Nat} {s' : Cpu} (hrun : memmove base fuel s s1 s2 n = .ok (s1, s'))
    (hmem : s'.mem = s.mem.forward s1 s2 n.toNat) (hrepeats : s.mem.Repeats s2 (s1 - s2).toNat n.toNat) :
    Moves base s s1 s2 n := by
  refine ⟨fuel, s', hrun, fun i hi => ?_, fun x hx => ?_⟩
  · rw [hmem]
    exact (Mem.forward_copies_iff n.isLt.le).2 hrepeats i hi
  · rw [hmem]
    exact Mem.forward_outside n.isLt.le hx

theorem MoveFits.moves (h : MoveFits s s1 s2 n) (h1 : s1.toNat + n.toNat ≤ 18446744073709551616)
    (h2 : s2.toNat + n.toNat ≤ 18446744073709551616) : Moves base s s1 s2 n := by
  have hcall : CallsMemcpy s1 s2 n →
      (copyJob s s1 s2 n).Sound 128 ∧ n.toNat < 9223372036854775808 + alignGap s1 := by
    intro hcalls
    refine ⟨⟨n.isLt, Mem.settles_of_repeats n.isLt.le h.repeats⟩, ?_⟩
    rcases hcalls.cases h1 h2 with ⟨hbelow, -⟩ | ⟨hfar, -⟩ | ⟨-, hsmall⟩ | ⟨-, -, hsmall⟩
    · exact h.short (.inl hbelow)
    · exact h.short (.inr hfar)
    · omega
    · omega
  obtain ⟨fuel, s', hrun, hmem⟩ := memmove_forward base s hcall
  exact moves_of_forward hrun hmem h.repeats

theorem Moves.short (h : Moves base s s1 s2 n)
    (hcall : s1.toNat < s2.toNat ∨ s2.toNat + 256 < s1.toNat) : n.toNat < 9223372036854775808 + alignGap s1 := by
  have hcalls : CallsMemcpy s1 s2 n := by
    simp only [CallsMemcpy, BitVec.ult_eq_decide, BitVec.ule_eq_decide, decide_eq_true_eq, CPU_MEMCPY_STRIDE]
    bv_omega
  obtain ⟨fuel, s', hrun, -⟩ := h
  by_contra hfar
  rw [memmove_memcpy hcalls, memcpy_stuck (Nat.not_lt.1 hfar)] at hrun
  cases hrun

/-- Away from the end of the address space. -/
theorem Moves.fits (h : Moves base s s1 s2 n) (h1 : s1.toNat + n.toNat ≤ 18446744073709551616)
    (h2 : s2.toNat + n.toNat ≤ 18446744073709551616)
    (hend : s1.toNat ≤ s2.toNat ∨ s2.toNat + 128 ≤ s1.toNat ∨ s2.toNat + 256 < 18446744073709551616) :
    MoveFits s s1 s2 n := by
  have hcall : CallsMemcpy s1 s2 n →
      (copyJob s s1 s2 n).Sound 128 ∧ n.toNat < 9223372036854775808 + alignGap s1 := by
    intro hcalls
    have hcases := hcalls.cases h1 h2
    have hdistance : (s1 - s2).toNat = 0 ∨ 128 ≤ (s1 - s2).toNat ∨ n.toNat ≤ (s1 - s2).toNat := by bv_omega
    refine ⟨⟨n.isLt, Mem.settles_of_distance n.isLt.le hdistance⟩, ?_⟩
    rcases hcases with ⟨hbelow, -⟩ | ⟨hfar, -⟩ | ⟨-, hsmall⟩ | ⟨-, -, hsmall⟩
    · exact h.short (.inl hbelow)
    · exact h.short (.inr hfar)
    · omega
    · omega
  obtain ⟨fuel, s', hrun, hmem⟩ := memmove_forward base s hcall
  refine ⟨h.short, ?_⟩
  -- there is one result: what moved is what was copied forwards
  obtain ⟨fuel', s'', hrun', hmoves⟩ := h
  obtain ⟨-, rfl⟩ := Prod.mk.inj (memmove_unique hrun hrun')
  apply (Mem.forward_copies_iff n.isLt.le).1
  intro i hi
  rw [← hmem]
  exact hmoves.moved i hi

end Fits

/-- **When `memmove` moves.** It does if the source repeats after the distance of the destination, and if the size that
is left when `memcpy` has aligned the destination is not negative as a signed number. Only if, too, where the distance
that the code compares does not go round; behind that, at the end of the address space, more than one byte is loaded
before the next is stored, and less has to repeat. -/
theorem memmove_moves_iff_fits (base : Addr) (s : Cpu) (s1 s2 n : BitVec 64)
    (h1 : s1.toNat + n.toNat ≤ 18446744073709551616) (h2 : s2.toNat + n.toNat ≤ 18446744073709551616) :
    (MoveFits s s1 s2 n → Moves base s s1 s2 n) ∧
      (s1.toNat ≤ s2.toNat ∨ s2.toNat + 128 ≤ s1.toNat ∨ s2.toNat + 256 < 18446744073709551616 →
        (Moves base s s1 s2 n ↔ MoveFits s s1 s2 n)) :=
  ⟨fun h => h.moves h1 h2, fun hend => ⟨fun h => h.fits h1 h2 hend, fun h => h.moves h1 h2⟩⟩

/-- Three bytes, 1 to 3, at address 1000. -/
def threeBytes : Cpu where
  x := fun _ => 0
  flags := ⟨false, false, false⟩
  mem := fun x => if x = 1000 then 1 else if x = 1001 then 2 else if x = 1002 then 3 else 0
  reads := []

/-- Down by a byte. -/
theorem memmove_moves_down : Moves 16384 threeBytes 999 1000 3 :=
  (memmove_moves_iff_fits 16384 threeBytes 999 1000 3 (by decide) (by decide)).1
    ⟨fun _ => by decide, fun i hi => absurd hi (by simp)⟩

/-- And up by a byte: the first byte goes over three times. -/
theorem memmove_not_moves_up : ¬ Moves 16384 threeBytes 1001 1000 3 := by
  intro h
  have hfits := h.fits (by decide) (by decide) (.inr (.inr (by decide)))
  have hsecond := hfits.repeats 0 (by decide)
  revert hsecond
  decide

end GunyahRuntime
