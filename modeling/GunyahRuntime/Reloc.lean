/-
# GunyahRuntime.Reloc -- the runtime relocates itself (`reloc.c`, `arch_reloc.h`)

`rel_fixup` reads the dynamic section for the two relocation tables and walks each of them. Everything is
in one memory of bytes: the section, the tables and the words that are patched, at addresses that wrap.
`Elf64_Rel` and `Elf64_Rela` differ in their size and in the word that is written, and the two loops are one.

The loops patch more than they should. `ARCH_CAN_PATCH` admits `R_AARCH64_NONE`, and it looks at 31 bits of
the 32 of a type. `Relocated` states the rules, and `relFixup_relocated_iff` says for which tables they are
kept.
-/
import GunyahRuntime.Machine
import GunyahRuntime.Lib.Bytes
import GunyahRuntime.Lib.Loop

namespace GunyahRuntime

open Lib (Addr Mem Within RegionsApart iterate)

/-! ## `elf.h` -/

def DT_NULL : Int := 0
def DT_RELA : Nat := 7
def DT_RELASZ : Nat := 8
def DT_REL : Nat := 17
def DT_RELSZ : Nat := 18

/-- `DT_CNT`. -/
def DT_CNT : Nat := 19

def R_AARCH64_NONE : BitVec 64 := 0
def R_AARCH64_RELATIVE : BitVec 64 := 1027

/-- `Elf64_Rel`, or `Elf64_Rela` if there is an addend. -/
structure RelocEntry where
  rOffset : BitVec 64
  rInfo : BitVec 64
  rAddend : Option (BitVec 64)
  deriving DecidableEq

/-- The sizes of the two kinds of entry. -/
def relSize (rela : Bool) : Nat := if rela then 24 else 16

/-- The entry at `p`. -/
def readEntry (m : Mem) (rela : Bool) (p : Addr) : RelocEntry where
  rOffset := m.read p 8
  rInfo := m.read (p + 8) 8
  rAddend := if rela then some (m.read (p + 16) 8) else none

/-! ## `reloc.h`, `arch_reloc.h` -/

/-- `R_TYPE(r_info)`. -/
def rType (rInfo : BitVec 64) : BitVec 64 := rInfo &&& 0x7fffffff

/-- `R_SYM(r_info)`. -/
def rSym (rInfo : BitVec 64) : BitVec 64 := rInfo >>> 32

/-- `ARCH_CAN_PATCH(r_info)`. -/
def archCanPatch (rInfo : BitVec 64) : Bool :=
  (rType rInfo = R_AARCH64_NONE ∨ rType rInfo = R_AARCH64_RELATIVE) ∧ rSym rInfo = 0

/-! ## `rel_fixup` -/

/-- `r`, the address of the word to patch. -/
def RelocEntry.target (e : RelocEntry) (base : Addr) : Addr := e.rOffset + base

/-- What is written over the word `old`: `*r += base`, or `*r = base + (Elf64_Addr)rela->r_addend`. -/
def RelocEntry.newWord (e : RelocEntry) (base old : BitVec 64) : BitVec 64 :=
  match e.rAddend with
  | none => old + base
  | some addend => base + addend

/-- The body of the loops over the tables. -/
def RelocEntry.apply (e : RelocEntry) (base : Addr) (m : Mem) : Mem :=
  if ¬ archCanPatch e.rInfo then m
  else m.write (e.target base) 8 (e.newWord base (m.read (e.target base) 8))

/-- One pass of the loop over the dynamic section, at `dyni`. A tag below `DT_CNT` that is negative is an
index outside `dyn`. -/
def dynPass (m : Mem) (s : Vector Addr DT_CNT × Addr) :
    Exec ((Vector Addr DT_CNT × Addr) ⊕ Vector Addr DT_CNT) :=
  let tag := (m.read s.2 8).toInt
  if tag ≠ DT_NULL then
    if tag < DT_CNT then
      if h : 0 ≤ tag ∧ tag.toNat < DT_CNT then
        .ok (.inl (s.1.set tag.toNat (m.read (s.2 + 8) 8), s.2 + 16))
      else .error .badWrite
    else .ok (.inl (s.1, s.2 + 16))
  else .ok (.inr s.1)

/-- One pass of the loop over a table, at `s.2`. -/
def relPass (rela : Bool) (base relEnd : Addr) (s : Mem × Addr) : Exec ((Mem × Addr) ⊕ Mem) :=
  if s.2 < relEnd then
    .ok (.inl ((readEntry s.1 rela s.2).apply base s.1, s.2 + BitVec.ofNat 64 (relSize rela)))
  else .ok (.inr s.1)

/-- The passes a loop may take before it has gone through all of memory. -/
def relocFuel : Nat := 1152921504606846976

/-- A loop over a table. -/
def relLoop (rela : Bool) (base : Addr) (m : Mem) (table size : Addr) : Exec Mem :=
  iterate .diverged (relPass rela base (table + base + size)) relocFuel (m, table + base)

/-- `rel_fixup(dyni, env_data)`: `base` is the `runtime_ipa` of the environment. -/
def relFixup (m : Mem) (dyni base : Addr) : Exec Mem := do
  let dyn ← iterate .diverged (dynPass m) relocFuel (Vector.replicate DT_CNT 0, dyni)
  let m ← relLoop false base m dyn[DT_REL] dyn[DT_RELSZ]
  relLoop true base m dyn[DT_RELA] dyn[DT_RELASZ]

/-! ## The rules -/

/-- An entry of type `R_AARCH64_RELATIVE` without a symbol: the type is the low half of `r_info`. -/
def RelocEntry.Relative (e : RelocEntry) : Prop :=
  e.rInfo.setWidth 32 = 1027#32 ∧ rSym e.rInfo = 0

instance (e : RelocEntry) : Decidable e.Relative := inferInstanceAs (Decidable (_ ∧ _))

/-- The rules: every such entry has been applied, once, to the old memory, and no other byte has changed. -/
structure Relocated (base : Addr) (es : List RelocEntry) (m m' : Mem) : Prop where
  applied : ∀ e ∈ es, e.Relative →
    m'.read (e.target base) 8 = e.newWord base (m.read (e.target base) 8)
  frame : ∀ x, (∀ e ∈ es, e.Relative → ¬ Within (e.target base) 8 x) → m' x = m x

/-- An entry of the dynamic section. -/
structure DynEntry where
  dTag : Nat
  dPtr : BitVec 64
  deriving DecidableEq

/-- The section at `dyni` has the entries `ds` and then `DT_NULL`. Tags are not negative. -/
structure DynamicAt (m : Mem) (dyni : Addr) (ds : List DynEntry) : Prop where
  tag : ∀ i (h : i < ds.length), (m.read (dyni + BitVec.ofNat 64 (16 * i)) 8).toInt = ds[i].dTag
  ptr : ∀ i (h : i < ds.length), m.read (dyni + BitVec.ofNat 64 (16 * i) + 8) 8 = ds[i].dPtr
  nonnull : ∀ d ∈ ds, d.dTag ≠ 0
  last : m.read (dyni + BitVec.ofNat 64 (16 * ds.length)) 8 = 0

/-- The value of a tag: that of its last entry, or zero. -/
def dynValue (ds : List DynEntry) (tag : Nat) : BitVec 64 :=
  ds.foldl (fun v d => if d.dTag = tag then d.dPtr else v) 0

/-- The `k` entries of a table at `p`. -/
def tableEntries (m : Mem) (rela : Bool) (p : Addr) : Nat → List RelocEntry
  | 0 => []
  | k + 1 => readEntry m rela p :: tableEntries m rela (p + BitVec.ofNat 64 (relSize rela)) k

/-- The entries of a table, applied in order. -/
def applyAll (base : Addr) (es : List RelocEntry) (m : Mem) : Mem :=
  es.foldl (fun m e => e.apply base m) m

/-! ## The dynamic section -/

/-- The section does not go round: it would meet its own first entry, which is not `DT_NULL`. -/
theorem DynamicAt.short {m : Mem} {dyni : Addr} {ds : List DynEntry} (h : DynamicAt m dyni ds) :
    ds.length < relocFuel := by
  by_contra hlong
  unfold relocFuel at hlong
  have hi : ds.length % 1152921504606846976 < ds.length :=
    (Nat.mod_lt _ (by decide)).trans_le (Nat.not_lt.1 hlong)
  have haddr : dyni + BitVec.ofNat 64 (16 * ds.length) =
      dyni + BitVec.ofNat 64 (16 * (ds.length % 1152921504606846976)) := by
    congr 1
    apply BitVec.eq_of_toNat_eq
    rw [BitVec.toNat_ofNat, BitVec.toNat_ofNat]
    omega
  have htag := h.tag _ hi
  rw [← haddr, h.last] at htag
  refine h.nonnull _ (List.getElem_mem hi) ?_
  simpa using htag.symm

theorem dynValue_append (ds : List DynEntry) (d : DynEntry) (tag : Nat) :
    dynValue (ds ++ [d]) tag = if d.dTag = tag then d.dPtr else dynValue ds tag := by
  simp [dynValue]

/-- The loop has read the first `i` entries. -/
def DynRead (dyni : Addr) (ds : List DynEntry) (i : Nat) (s : Vector Addr DT_CNT × Addr) : Prop :=
  s.2 = dyni + BitVec.ofNat 64 (16 * i) ∧ ∀ t (h : t < DT_CNT), s.1[t] = dynValue (ds.take i) t

/-- One pass over an entry. -/
theorem dynPass_entry {m : Mem} {dyni : Addr} {ds : List DynEntry} (h : DynamicAt m dyni ds) {i : Nat}
    (hi : i < ds.length) {s : Vector Addr DT_CNT × Addr} (hs : DynRead dyni ds i s) :
    ∃ s', dynPass m s = .ok (.inl s') ∧ DynRead dyni ds (i + 1) s' := by
  obtain ⟨hp, hdyn⟩ := hs
  have htag := h.tag i hi
  have hptr := h.ptr i hi
  rw [← hp] at htag hptr
  have hnext : s.2 + 16 = dyni + BitVec.ofNat 64 (16 * (i + 1)) := by
    rw [hp]
    bv_omega
  have hne : ¬ ((ds[i].dTag : Int) = DT_NULL) := fun hz =>
    h.nonnull _ (List.getElem_mem hi) (Int.ofNat_eq_zero.1 hz)
  have htake : ds.take (i + 1) = ds.take i ++ [ds[i]] := List.take_succ_eq_append_getElem hi
  unfold dynPass
  simp only [htag, hptr]
  rw [if_pos hne]
  by_cases hlt : ds[i].dTag < DT_CNT
  · rw [if_pos (by omega), dif_pos ⟨by omega, by omega⟩]
    refine ⟨_, rfl, hnext, fun t ht => ?_⟩
    rw [htake, dynValue_append]
    simp only [Int.toNat_natCast]
    rw [Vector.getElem_set, hdyn t ht]
  · rw [if_neg (by omega)]
    refine ⟨_, rfl, hnext, fun t ht => ?_⟩
    rw [htake, dynValue_append, if_neg (by omega), hdyn t ht]

theorem dynPass_last {m : Mem} {dyni : Addr} {ds : List DynEntry} (h : DynamicAt m dyni ds)
    {s : Vector Addr DT_CNT × Addr} (hs : DynRead dyni ds ds.length s) :
    dynPass m s = .ok (.inr s.1) := by
  simp [dynPass, hs.1, h.last, DT_NULL]

/-- The loop over the section records the last value of each tag below `DT_CNT`. -/
theorem dynLoop_eq {m : Mem} {dyni : Addr} {ds : List DynEntry} (h : DynamicAt m dyni ds) :
    ∃ dyn, iterate .diverged (dynPass m) relocFuel (Vector.replicate DT_CNT 0, dyni) = .ok dyn ∧
      ∀ t (ht : t < DT_CNT), dyn[t] = dynValue ds t := by
  have hrest : ∀ n i s fuel, i + n = ds.length → n < fuel → DynRead dyni ds i s →
      ∃ dyn, iterate .diverged (dynPass m) fuel s = .ok dyn ∧
        ∀ t (ht : t < DT_CNT), dyn[t] = dynValue ds t := by
    intro n
    induction n with
    | zero =>
      intro i s fuel hi hfuel hs
      obtain ⟨fuel, rfl⟩ := Nat.exists_eq_succ_of_ne_zero (Nat.ne_of_gt hfuel)
      obtain rfl : i = ds.length := by omega
      refine ⟨_, Lib.iterate_done (dynPass_last h hs), fun t ht => ?_⟩
      rw [hs.2 t ht, List.take_length]
    | succ n ih =>
      intro i s fuel hi hfuel hs
      obtain ⟨fuel, rfl⟩ := Nat.exists_eq_succ_of_ne_zero (show fuel ≠ 0 by omega)
      obtain ⟨s', hpass, hs'⟩ := dynPass_entry h (by omega) hs
      rw [Lib.iterate_again hpass]
      exact ih (i + 1) s' fuel (by omega) (by omega) hs'
  refine hrest ds.length 0 _ _ (by omega) h.short ⟨by simp, fun t ht => ?_⟩
  simp [dynValue]

/-! ## One entry -/

section Entry

variable {base : Addr} {m : Mem} {e : RelocEntry}

theorem RelocEntry.apply_patch (h : archCanPatch e.rInfo = true) :
    e.apply base m = m.write (e.target base) 8 (e.newWord base (m.read (e.target base) 8)) := by
  simp [RelocEntry.apply, h]

theorem RelocEntry.apply_skip (h : ¬ archCanPatch e.rInfo = true) : e.apply base m = m := by
  simp [RelocEntry.apply, h]

/-- An entry that is patched changes its word only, and the others nothing. -/
theorem RelocEntry.apply_frame {x : Addr}
    (h : archCanPatch e.rInfo = true → ¬ Within (e.target base) 8 x) : e.apply base m x = m x := by
  by_cases hp : archCanPatch e.rInfo = true
  · rw [RelocEntry.apply_patch hp]
    exact Lib.Mem.over_outside (h hp)
  · rw [RelocEntry.apply_skip hp]

/-- What the rules relocate is patched. -/
theorem RelocEntry.Relative.canPatch (h : e.Relative) : archCanPatch e.rInfo = true := by
  obtain ⟨htype, hsym⟩ := h
  have hinfo : e.rInfo = 1027 := by
    unfold rSym at hsym
    bv_omega
  rw [hinfo]
  decide

end Entry

/-! ## The tables -/

/-- The entries of a table are its bytes. -/
theorem tableEntries_congr {m m' : Mem} {rela : Bool} {p : Addr} {k : Nat}
    (hk : relSize rela * k ≤ 18446744073709551616) (h : ∀ x, Within p (relSize rela * k) x → m x = m' x) :
    tableEntries m rela p k = tableEntries m' rela p k := by
  induction k generalizing p with
  | zero => rfl
  | succ k ih =>
    rw [Nat.mul_succ] at hk
    have hsize : relSize rela = if rela then 24 else 16 := rfl
    have hword : ∀ i, i + 8 ≤ relSize rela → m.read (p + BitVec.ofNat 64 i) 8 =
        m'.read (p + BitVec.ofNat 64 i) 8 := fun i hi =>
      Lib.Mem.read_congr (by decide) fun x hx => h x (hx.of_part (by rw [Nat.mul_succ]; omega)
        (by rw [Nat.mul_succ]; omega))
    have hentry : readEntry m rela p = readEntry m' rela p := by
      have h0 := hword 0 (by rw [hsize]; split <;> omega)
      have h8 := hword 8 (by rw [hsize]; split <;> omega)
      rw [BitVec.add_zero] at h0
      unfold readEntry
      cases rela with
      | false =>
        rw [h0, show p + 8 = p + BitVec.ofNat 64 8 from rfl, h8, if_neg Bool.false_ne_true, if_neg Bool.false_ne_true]
      | true =>
        have h16 := hword 16 (by decide)
        rw [h0, show p + 8 = p + BitVec.ofNat 64 8 from rfl, h8,
          show p + 16 = p + BitVec.ofNat 64 16 from rfl, h16]
    rw [tableEntries, tableEntries, hentry, ih (by omega) fun x hx =>
      h x (hx.of_part (by rw [Nat.mul_succ]; omega) (by rw [Nat.mul_succ]; omega))]

/-- **A loop over a table** applies its entries in order, if none of them patches the table. -/
theorem relLoop_eq {rela : Bool} {base relEnd : Addr} {k fuel : Nat} {m : Mem} {p : Addr}
    (hend : relEnd = p + BitVec.ofNat 64 (relSize rela * k))
    (hfits : p.toNat + relSize rela * k < 18446744073709551616)
    (hapart : ∀ e ∈ tableEntries m rela p k, archCanPatch e.rInfo = true →
      RegionsApart (e.target base) 8 p (relSize rela * k))
    (hfuel : k < fuel) :
    iterate .diverged (relPass rela base relEnd) fuel (m, p) =
      .ok (applyAll base (tableEntries m rela p k) m) := by
  obtain ⟨fuel, rfl⟩ := Nat.exists_eq_succ_of_ne_zero (show fuel ≠ 0 by omega)
  induction k generalizing m p fuel with
  | zero =>
    refine Lib.iterate_done (if_neg ?_)
    rw [hend, Nat.mul_zero, BitVec.add_zero]
    exact BitVec.lt_irrefl _
  | succ k ih =>
    rw [Nat.mul_succ] at hend hfits hapart
    have hsize : 0 < relSize rela ∧ relSize rela ≤ 24 := by cases rela <;> decide
    have hlt : p < relEnd := by
      rw [hend]
      bv_omega
    have hsame : tableEntries ((readEntry m rela p).apply base m) rela
        (p + BitVec.ofNat 64 (relSize rela)) k =
          tableEntries m rela (p + BitVec.ofNat 64 (relSize rela)) k := by
      refine tableEntries_congr (by omega) fun x hx => RelocEntry.apply_frame fun hpatch hin => ?_
      exact hapart _ List.mem_cons_self hpatch x hin (hx.of_part (by omega) (by omega))
    obtain ⟨fuel, rfl⟩ := Nat.exists_eq_succ_of_ne_zero (show fuel ≠ 0 by omega)
    have hpass : relPass rela base relEnd (m, p) = .ok (.inl ((readEntry m rela p).apply base m,
        p + BitVec.ofNat 64 (relSize rela))) := if_pos hlt
    rw [Lib.iterate_again hpass]
    refine (ih (by rw [hend]; bv_omega) (by bv_omega) ?_ fuel (by omega)).trans ?_
    · rw [hsame]
      intro e he hpatch x hx hin
      exact hapart e (List.mem_cons_of_mem _ he) hpatch x hx (hin.of_part (by omega) (by omega))
    · rw [hsame]
      rfl

/-! ## All entries -/

/-- The entries that are patched do not patch each other's words. -/
def TargetsApart (base : Addr) (es : List RelocEntry) : Prop :=
  (es.filter fun e => archCanPatch e.rInfo).Pairwise fun e e' =>
    RegionsApart (e.target base) 8 (e'.target base) 8

theorem applyAll_frame {base : Addr} {es : List RelocEntry} {m : Mem} {x : Addr}
    (h : ∀ e ∈ es, archCanPatch e.rInfo = true → ¬ Within (e.target base) 8 x) :
    applyAll base es m x = m x := by
  induction es generalizing m with
  | nil => rfl
  | cons e es ih =>
    show applyAll base es (e.apply base m) x = m x
    rw [ih fun e' he' => h e' (List.mem_cons_of_mem _ he')]
    exact RelocEntry.apply_frame (h e List.mem_cons_self)

/-- A word no entry patches is what it was. -/
theorem applyAll_read {base : Addr} {es : List RelocEntry} {m : Mem} {a : Addr}
    (h : ∀ e ∈ es, archCanPatch e.rInfo = true → RegionsApart a 8 (e.target base) 8) :
    (applyAll base es m).read a 8 = m.read a 8 :=
  Lib.Mem.read_congr (by decide) fun x hx => applyAll_frame fun e he hp => h e he hp x hx

/-- Every entry that is patched has been applied, once, to the old memory. -/
theorem applyAll_patched {base : Addr} {es : List RelocEntry} {m : Mem} (h : TargetsApart base es) :
    ∀ e ∈ es, archCanPatch e.rInfo = true → (applyAll base es m).read (e.target base) 8 =
      e.newWord base (m.read (e.target base) 8) := by
  induction es generalizing m with
  | nil => simp
  | cons e es ih =>
    by_cases hp : archCanPatch e.rInfo = true
    · unfold TargetsApart at h
      simp only [List.filter_cons, hp, if_true, List.pairwise_cons] at h
      obtain ⟨hfirst, hrest⟩ := h
      have hlater : ∀ e' ∈ es, archCanPatch e'.rInfo = true →
          RegionsApart (e.target base) 8 (e'.target base) 8 := fun e' he' hp' =>
        hfirst e' (List.mem_filter.2 ⟨he', hp'⟩)
      intro e' he' hp'
      show (applyAll base es (e.apply base m)).read _ 8 = _
      rcases List.mem_cons.1 he' with rfl | he'
      · rw [applyAll_read hlater, RelocEntry.apply_patch hp, Lib.Mem.read_write]
      · rw [ih hrest e' he' hp', RelocEntry.apply_patch hp,
          Lib.Mem.read_write_apart (by decide) (hlater e' he' hp').symm]
    · unfold TargetsApart at h
      simp only [List.filter_cons, hp] at h
      intro e' he' hp'
      show (applyAll base es (e.apply base m)).read _ 8 = _
      rw [RelocEntry.apply_skip hp]
      rcases List.mem_cons.1 he' with rfl | he'
      · exact absurd hp' hp
      · exact ih h e' he' hp'

/-- An entry that writes the word that is there. -/
def RelocEntry.Harmless (e : RelocEntry) (base : Addr) (m : Mem) : Prop :=
  match e.rAddend with
  | none => base = 0
  | some addend => base + addend = m.read (e.target base) 8

theorem RelocEntry.harmless_iff {e : RelocEntry} {base : Addr} {m : Mem} :
    e.Harmless base m ↔
      e.newWord base (m.read (e.target base) 8) = m.read (e.target base) 8 := by
  unfold RelocEntry.Harmless RelocEntry.newWord
  cases e.rAddend with
  | some addend => exact Iff.rfl
  | none =>
    constructor
    · rintro rfl
      exact BitVec.add_zero _
    · intro h
      exact BitVec.add_right_eq_self.1 h

/-- Two entries that are patched and not the same have different words. -/
theorem TargetsApart.apart {base : Addr} {es : List RelocEntry} (h : TargetsApart base es)
    {e e' : RelocEntry} (he : e ∈ es) (hp : archCanPatch e.rInfo = true) (he' : e' ∈ es)
    (hp' : archCanPatch e'.rInfo = true) (hne : e ≠ e') :
    RegionsApart (e.target base) 8 (e'.target base) 8 := by
  have hsymm : Std.Symm fun e e' : RelocEntry => RegionsApart (e.target base) 8 (e'.target base) 8 :=
    ⟨fun _ _ h => h.symm⟩
  have hmem : ∀ {e}, e ∈ es → archCanPatch e.rInfo = true →
      e ∈ es.filter fun e => archCanPatch e.rInfo := fun he hp => List.mem_filter.2 ⟨he, hp⟩
  exact List.Pairwise.forall h (hmem he hp) (hmem he' hp') hne

/-- The rules are kept just if whatever else is patched is harmless. -/
theorem applyAll_relocated_iff {base : Addr} {es : List RelocEntry} {m : Mem}
    (h : TargetsApart base es) :
    Relocated base es m (applyAll base es m) ↔
      ∀ e ∈ es, archCanPatch e.rInfo = true → e.Relative ∨ e.Harmless base m := by
  constructor
  · rintro hrel e he hp
    by_cases hr : e.Relative
    · exact .inl hr
    · right
      rw [RelocEntry.harmless_iff, ← applyAll_patched h e he hp]
      refine Lib.Mem.read_congr (by decide) fun x hx => hrel.frame x fun e' he' hr' => ?_
      refine h.apart he hp he' hr'.canPatch ?_ x hx
      rintro rfl
      exact hr hr'
  · intro hall
    refine ⟨fun e he hr => applyAll_patched h e he hr.canPatch, fun x hx => ?_⟩
    by_cases hpatched : ∃ e ∈ es, archCanPatch e.rInfo = true ∧ Within (e.target base) 8 x
    · obtain ⟨e, he, hp, hin⟩ := hpatched
      have hharmless : e.Harmless base m := (hall e he hp).resolve_left fun hr => hx e he hr hin
      have hread : (applyAll base es m).read (e.target base) 8 = m.read (e.target base) 8 := by
        rw [applyAll_patched h e he hp, RelocEntry.harmless_iff.1 hharmless]
      -- the byte is one of the word's
      have hbyte := @Lib.byteOf_read (applyAll base es m) (e.target base) _ 8 hin le_rfl
      rw [hread, Lib.byteOf_read m hin le_rfl, ← Lib.eq_add_distance] at hbyte
      exact hbyte.symm
    · push Not at hpatched
      exact applyAll_frame fun e he hp => hpatched e he hp

/-! ## Both tables -/

/-- The table a section describes has `k` entries and does not go round. A table that is missing has no size,
and no entries; a size without an address is that of a table at the load base. -/
structure TableAt (base : Addr) (rela : Bool) (table size : BitVec 64) (k : Nat) : Prop where
  size_eq : size.toNat = relSize rela * k
  fits : (table + base).toNat + relSize rela * k < 18446744073709551616

/-- **When the rules are kept.** For every load base, every section and all tables whose words are apart
from each other and from the tables, the function returns, and the rules are kept exactly if every other
entry that `ARCH_CAN_PATCH` admits writes the word that is there already. -/
theorem relFixup_relocated_iff {m : Mem} {dyni base : Addr} {ds : List DynEntry} {k₁ k₂ : Nat}
    (hdyn : DynamicAt m dyni ds)
    (hrel : TableAt base false (dynValue ds DT_REL) (dynValue ds DT_RELSZ) k₁)
    (hrela : TableAt base true (dynValue ds DT_RELA) (dynValue ds DT_RELASZ) k₂)
    {es : List RelocEntry}
    (hes : es = tableEntries m false (dynValue ds DT_REL + base) k₁ ++
      tableEntries m true (dynValue ds DT_RELA + base) k₂)
    (htargets : TargetsApart base es)
    (htables : ∀ e ∈ es, archCanPatch e.rInfo = true →
      RegionsApart (e.target base) 8 (dynValue ds DT_REL + base) (16 * k₁) ∧
        RegionsApart (e.target base) 8 (dynValue ds DT_RELA + base) (24 * k₂)) :
    ∃ m', relFixup m dyni base = .ok m' ∧
      (Relocated base es m m' ↔
        ∀ e ∈ es, archCanPatch e.rInfo = true → e.Relative ∨ e.Harmless base m) := by
  obtain ⟨dyn, hloop, hvalues⟩ := dynLoop_eq hdyn
  have hsize : ∀ {rela table size k}, TableAt base rela table size k →
      table + base + size = table + base + BitVec.ofNat 64 (relSize rela * k) ∧ k < relocFuel := by
    intro rela table size k ht
    have hk : 16 * k ≤ relSize rela * k := Nat.mul_le_mul_right k (by cases rela <;> decide)
    refine ⟨?_, ?_⟩
    · rw [← ht.size_eq, BitVec.ofNat_toNat, BitVec.setWidth_eq]
    · have hfits := ht.fits
      unfold relocFuel
      omega
  have hrel_eq : relLoop false base m dyn[DT_REL] dyn[DT_RELSZ] =
      .ok (applyAll base (tableEntries m false (dynValue ds DT_REL + base) k₁) m) := by
    rw [hvalues, hvalues]
    refine relLoop_eq (hsize hrel).1 hrel.fits (fun e he hp => ?_) (hsize hrel).2
    exact (htables e (by rw [hes]; exact List.mem_append_left _ he) hp).1
  -- the first loop has not touched the second table
  have hsame : tableEntries (applyAll base (tableEntries m false (dynValue ds DT_REL + base) k₁) m) true
      (dynValue ds DT_RELA + base) k₂ = tableEntries m true (dynValue ds DT_RELA + base) k₂ := by
    refine tableEntries_congr (by have hfits := hrela.fits; omega) fun x hx => ?_
    refine applyAll_frame fun e he hp hin => ?_
    exact (htables e (by rw [hes]; exact List.mem_append_left _ he) hp).2 x hin hx
  have hrela_eq : relLoop true base (applyAll base (tableEntries m false (dynValue ds DT_REL + base) k₁) m)
      dyn[DT_RELA] dyn[DT_RELASZ] = .ok (applyAll base es m) := by
    rw [hvalues, hvalues]
    refine (relLoop_eq (hsize hrela).1 hrela.fits (fun e he hp => ?_) (hsize hrela).2).trans ?_
    · rw [hsame] at he
      exact (htables e (by rw [hes]; exact List.mem_append_right _ he) hp).2
    · rw [hsame, hes]
      unfold applyAll
      rw [List.foldl_append]
  refine ⟨_, ?_, applyAll_relocated_iff htargets⟩
  unfold relFixup
  rw [hloop, ok_bind, hrel_eq, ok_bind, hrela_eq]

/-! ## A small image -/

/-- An image at 65536, all zeros but for a section at 65792 and a table with one entry at 66048. -/
def smallImage (rInfo : BitVec 64) : Mem :=
  ((((Mem.write (fun _ => 0) 65792 8 7).write 65800 8 512).write 65808 8 8).write 65816 8 24
    |>.write 66048 8 1024).write 66056 8 rInfo

def smallDynamic : List DynEntry := [⟨DT_RELA, 512⟩, ⟨DT_RELASZ, 24⟩]

theorem smallImage_ok {rInfo : BitVec 64} (h : rInfo = 0 ∨ rInfo = 1027) :
    DynamicAt (smallImage rInfo) 65792 smallDynamic ∧
      TableAt 65536 false (dynValue smallDynamic DT_REL) (dynValue smallDynamic DT_RELSZ) 0 ∧
      TableAt 65536 true (dynValue smallDynamic DT_RELA) (dynValue smallDynamic DT_RELASZ) 1 ∧
      tableEntries (smallImage rInfo) false (dynValue smallDynamic DT_REL + 65536) 0 ++
          tableEntries (smallImage rInfo) true (dynValue smallDynamic DT_RELA + 65536) 1 =
        [⟨1024, rInfo, some 0⟩] ∧
      TargetsApart 65536 [⟨1024, rInfo, some 0⟩] ∧
      ∀ e ∈ [(⟨1024, rInfo, some 0⟩ : RelocEntry)], archCanPatch e.rInfo = true →
        RegionsApart (e.target 65536) 8 (dynValue smallDynamic DT_REL + 65536) (16 * 0) ∧
          RegionsApart (e.target 65536) 8 (dynValue smallDynamic DT_RELA + 65536) (24 * 1) := by
  refine ⟨?_, ⟨by decide, by decide⟩, ⟨by decide, by decide⟩, ?_, ?_, ?_⟩
  · rcases h with rfl | rfl <;>
      exact ⟨by decide +kernel, by decide +kernel, by decide, by decide +kernel⟩
  · rcases h with rfl | rfl <;> decide +kernel
  · unfold TargetsApart
    rw [List.filter_cons]
    split <;> simp
  · intro e he _
    obtain rfl := List.mem_singleton.1 he
    refine ⟨fun x _ => Nat.not_lt_zero _, fun x hx hin => ?_⟩
    have haddr : (RelocEntry.target ⟨1024, rInfo, some 0⟩ 65536) = 66560#64 ∧
        dynValue smallDynamic DT_RELA + 65536 = 66048#64 :=
      ⟨show 1024#64 + 65536#64 = 66560#64 by decide, by decide⟩
    rw [haddr.1] at hx
    rw [haddr.2] at hin
    unfold Within at hx hin
    bv_omega

/-- An image of words. -/
def imageOf (words : List (Addr × BitVec 64)) : Mem := words.foldl (fun m w => m.write w.1 8 w.2) fun _ => 0

/-- An image at 65536 with two tables of two entries. The second entry of the first table has a symbol. -/
def tablesImage : Mem :=
  imageOf [(65792, 17), (65800, 512), (65808, 18), (65816, 32), (65824, 7), (65832, 768), (65840, 8), (65848, 48),
    (66048, 1024), (66056, 1027), (66064, 1040), (66072, 0x500000101),
    (66304, 1056), (66312, 1027), (66320, 4660), (66328, 1072), (66336, 1027), (66344, 8),
    (66560, 4096), (66576, 3), (66592, 5), (66608, 7)]

def tablesDynamic : List DynEntry := [⟨DT_REL, 512⟩, ⟨DT_RELSZ, 32⟩, ⟨DT_RELA, 768⟩, ⟨DT_RELASZ, 48⟩]

/-- The entries of both tables, those with addends last. -/
def tablesEntries : List RelocEntry :=
  [⟨1024, 1027, none⟩, ⟨1040, 0x500000101, none⟩, ⟨1056, 1027, some 4660⟩, ⟨1072, 1027, some 8⟩]

/-- Three words are relocated, the first by what it holds and the others by their addends, and the fourth is left. -/
theorem relFixup_relocated_tables : ∃ m', relFixup tablesImage 65792 65536 = .ok m' ∧
    Relocated 65536 tablesEntries tablesImage m' ∧ m'.read 66560 8 = 69632 ∧ m'.read 66576 8 = 3 ∧
    m'.read 66592 8 = 70196 ∧ m'.read 66608 8 = 65544 := by
  have hdyn : DynamicAt tablesImage 65792 tablesDynamic :=
    ⟨by decide +kernel, by decide +kernel, by decide, by decide +kernel⟩
  have hrel : TableAt 65536 false (dynValue tablesDynamic DT_REL) (dynValue tablesDynamic DT_RELSZ) 2 :=
    ⟨by decide, by decide⟩
  have hrela : TableAt 65536 true (dynValue tablesDynamic DT_RELA) (dynValue tablesDynamic DT_RELASZ) 2 :=
    ⟨by decide, by decide⟩
  have hes : tablesEntries = tableEntries tablesImage false (dynValue tablesDynamic DT_REL + 65536) 2 ++
      tableEntries tablesImage true (dynValue tablesDynamic DT_RELA + 65536) 2 := by decide +kernel
  have htargets : TargetsApart 65536 tablesEntries := by
    refine .cons (fun e he => ?_) (.cons (fun e he => ?_) (.cons (fun e he => ?_) .nil))
    · rcases List.mem_cons.1 he with rfl | he
      · exact .of_le (by decide) (by decide)
      · obtain rfl := List.mem_singleton.1 he
        exact .of_le (by decide) (by decide)
    · obtain rfl := List.mem_singleton.1 he
      exact .of_le (by decide) (by decide)
    · cases he
  have hapart : ∀ e ∈ tablesEntries, 66352 ≤ (e.target 65536).toNat ∧ (e.target 65536).toNat < 66616 := by decide
  have htables : ∀ e ∈ tablesEntries, archCanPatch e.rInfo = true →
      RegionsApart (e.target 65536) 8 (dynValue tablesDynamic DT_REL + 65536) (16 * 2) ∧
        RegionsApart (e.target 65536) 8 (dynValue tablesDynamic DT_RELA + 65536) (24 * 2) := by
    intro e he _
    obtain ⟨hlow, hhigh⟩ := hapart e he
    have hfirst : (dynValue tablesDynamic DT_REL + 65536).toNat + 16 * 2 ≤ 66352 := by decide
    have hsecond : (dynValue tablesDynamic DT_RELA + 65536).toNat + 24 * 2 ≤ 66352 := by decide
    exact ⟨.symm (.of_le (hfirst.trans hlow) (by omega)), .symm (.of_le (hsecond.trans hlow) (by omega))⟩
  obtain ⟨m', hrun, hiff⟩ := relFixup_relocated_iff hdyn hrel hrela hes htargets htables
  have hrelative : ∀ e ∈ tablesEntries, archCanPatch e.rInfo = true → e.Relative := by decide
  have hwords : (relFixup tablesImage 65792 65536).toOption.map
      (fun m' => (m'.read 66560 8, m'.read 66576 8, m'.read 66592 8, m'.read 66608 8)) =
        some (69632, 3, 70196, 65544) := by decide +kernel
  rw [hrun] at hwords
  exact ⟨m', hrun, hiff.2 fun e he hp => .inl (hrelative e he hp), by simpa [Except.toOption] using hwords⟩

/-- An entry of type `R_AARCH64_NONE` is patched: the load base is written over the word it names. -/
theorem relFixup_patches_none : ∃ m dyni base ds k₁ k₂ es m', DynamicAt m dyni ds ∧
    TableAt base false (dynValue ds DT_REL) (dynValue ds DT_RELSZ) k₁ ∧
    TableAt base true (dynValue ds DT_RELA) (dynValue ds DT_RELASZ) k₂ ∧
    tableEntries m false (dynValue ds DT_REL + base) k₁ ++
      tableEntries m true (dynValue ds DT_RELA + base) k₂ = es ∧
    TargetsApart base es ∧
    (∀ e ∈ es, archCanPatch e.rInfo = true →
      RegionsApart (e.target base) 8 (dynValue ds DT_REL + base) (16 * k₁) ∧
        RegionsApart (e.target base) 8 (dynValue ds DT_RELA + base) (24 * k₂)) ∧
    (∀ e ∈ es, e.rInfo = R_AARCH64_NONE) ∧
    relFixup m dyni base = .ok m' ∧ m 66562 = 0 ∧ m' 66562 = 1 ∧ ¬ Relocated base es m m' := by
  obtain ⟨hdyn, hrel, hrela, hes, htargets, htables⟩ := smallImage_ok (.inl rfl)
  have hvalue : (relFixup (smallImage 0) 65792 65536).toOption.map (fun m' => m' 66562) = some 1 := by
    decide +kernel
  obtain ⟨m', hrun, hbyte⟩ := Option.map_eq_some_iff.1 hvalue
  have hold : smallImage 0 66562 = 0 := by decide +kernel
  refine ⟨_, _, _, _, _, _, _, m', hdyn, hrel, hrela, hes, htargets, htables, by simp [R_AARCH64_NONE],
    toOption_eq_some.1 hrun, hold, hbyte, fun hrules => ?_⟩
  have hkept := hrules.frame 66562 fun e he hr => by
    obtain rfl := List.mem_singleton.1 he
    exact absurd hr (by decide)
  rw [hbyte, hold] at hkept
  cases hkept

end GunyahRuntime
