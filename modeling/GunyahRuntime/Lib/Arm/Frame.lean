/-
# GunyahRuntime.Lib.Arm.Frame -- saving registers in a frame on the stack

The instructions of A64 that an exception handler enters and leaves with: loads and stores relative to the stack
pointer, the moves to and from the system registers, and the signing of the return address. What signing computes is
a parameter.

A register that is stored before it is written to is found in the frame as it was (`read_of_savedAt`), and one that
is loaded and not written to after that is what the frame has (`x_of_loadedFrom`). Where each register goes to and
comes from is read off the two listings, so that to compare them is a computation.

Nothing here names a program.
-/
import GunyahRuntime.Lib.Arm.Machine

namespace GunyahRuntime.Lib.Arm

structure SysCpu where
  x : Reg → BitVec 64
  sp : Addr
  elr : BitVec 64
  spsr : BitVec 64
  esr : BitVec 64
  /-- What return addresses are signed with. -/
  key : BitVec 128
  mem : Mem

inductive SysReg where
  | elr
  | spsr
  | esr
  deriving DecidableEq

/-- Signing and authenticating, of a pointer with a key and a modifier. -/
structure Pac where
  sign : BitVec 128 → BitVec 64 → BitVec 64 → BitVec 64
  auth : BitVec 128 → BitVec 64 → BitVec 64 → BitVec 64

/-- Authentication undoes signing. -/
def Pac.Undoes (pac : Pac) (key : BitVec 128) (modifier p : BitVec 64) : Prop :=
  pac.auth key modifier (pac.sign key modifier p) = p

/-- The instructions. Addresses are offsets from the stack pointer. -/
inductive SysOp where
  | stp (rt rt2 : Reg) (imm : Nat)
  | ldp (rt rt2 : Reg) (imm : Nat)
  | ldr (rt : Reg) (imm : Nat)
  | subSp (imm : Nat)
  | addSp (imm : Nat)
  | movSp (rd : Reg)
  | mov (rd rm : Reg)
  | lsr (rd rn : Reg) (amount : Nat)
  | and (rd rn : Reg) (imm : BitVec 64)
  | mrs (rt : Reg) (r : SysReg)
  | msr (r : SysReg) (rt : Reg)
  | paciasp
  | autiasp
  deriving DecidableEq

namespace SysCpu

/-- A register, as an operand. -/
def get (s : SysCpu) (r : Reg) : BitVec 64 := if r = 31 then 0 else s.x r

/-- A register, as a destination. -/
def set (s : SysCpu) (r : Reg) (value : BitVec 64) : SysCpu :=
  if r = 31 then s else { s with x := fun q => if q = r then value else s.x q }

def getSys (s : SysCpu) : SysReg → BitVec 64
  | .elr => s.elr
  | .spsr => s.spsr
  | .esr => s.esr

def setSys (s : SysCpu) (value : BitVec 64) : SysReg → SysCpu
  | .elr => { s with elr := value }
  | .spsr => { s with spsr := value }
  | .esr => { s with esr := value }

/-- The address of an offset. -/
def place (s : SysCpu) (imm : Nat) : Addr := s.sp + BitVec.ofNat 64 imm

/-- Where `eret` goes on, and in which state of the processor. -/
def eret (s : SysCpu) : BitVec 64 × BitVec 64 := (s.elr, s.spsr)

end SysCpu

def SysOp.exec (pac : Pac) (s : SysCpu) : SysOp → SysCpu
  | .stp rt rt2 imm =>
    { s with mem := (s.mem.write (s.place imm) 8 (s.get rt)).write (s.place (imm + 8)) 8 (s.get rt2) }
  | .ldp rt rt2 imm => (s.set rt (s.mem.read (s.place imm) 8)).set rt2 (s.mem.read (s.place (imm + 8)) 8)
  | .ldr rt imm => s.set rt (s.mem.read (s.place imm) 8)
  | .subSp imm => { s with sp := s.sp - BitVec.ofNat 64 imm }
  | .addSp imm => { s with sp := s.sp + BitVec.ofNat 64 imm }
  | .movSp rd => s.set rd s.sp
  | .mov rd rm => s.set rd (s.get rm)
  | .lsr rd rn amount => s.set rd (s.get rn >>> amount)
  | .and rd rn imm => s.set rd (s.get rn &&& imm)
  | .mrs rt r => s.set rt (s.getSys r)
  | .msr r rt => s.setSys (s.get rt) r
  | .paciasp => s.set 30 (pac.sign s.key s.sp (s.x 30))
  | .autiasp => s.set 30 (pac.auth s.key s.sp (s.x 30))

/-- A listing. -/
def execs (pac : Pac) (ops : List SysOp) (s : SysCpu) : SysCpu := ops.foldl (SysOp.exec pac) s

/-! ## What is read off a listing -/

namespace SysOp

/-- The registers written to. -/
def dests : SysOp → List Reg
  | .ldp rt rt2 _ => [rt, rt2]
  | .ldr rt _ => [rt]
  | .movSp rd => [rd]
  | .mov rd _ => [rd]
  | .lsr rd _ _ => [rd]
  | .and rd _ _ => [rd]
  | .mrs rt _ => [rt]
  | .paciasp => [30]
  | .autiasp => [30]
  | .stp .. => []
  | .subSp _ => []
  | .addSp _ => []
  | .msr .. => []

def keepsSp : SysOp → Bool
  | .subSp _ => false
  | .addSp _ => false
  | _ => true

/-- The system register written to. -/
def writesSys : SysOp → Option SysReg
  | .msr r _ => some r
  | _ => none

/-- The offsets stored to, eight bytes each. -/
def stores : SysOp → List Nat
  | .stp _ _ imm => [imm, imm + 8]
  | _ => []

/-- The offsets accessed, with the number of bytes. -/
def accesses : SysOp → List (Nat × Nat)
  | .stp _ _ imm => [(imm, 16)]
  | .ldp _ _ imm => [(imm, 16)]
  | .ldr _ imm => [(imm, 8)]
  | _ => []

/-- The offset that a register is stored to. -/
def storesAt (r : Reg) : SysOp → Option Nat
  | .stp rt rt2 imm => if rt = r then some imm else if rt2 = r then some (imm + 8) else none
  | _ => none

/-- The offset that a register is loaded from. -/
def loadsFrom (r : Reg) : SysOp → Option Nat
  | .ldp rt rt2 imm => if rt2 = r then some (imm + 8) else if rt = r then some imm else none
  | .ldr rt imm => if rt = r then some imm else none
  | _ => none

end SysOp

/-- Where a register is stored before it is written to. -/
def savedAt (r : Reg) : List SysOp → Option Nat
  | [] => none
  | op :: ops =>
    match op.storesAt r with
    | some i => some i
    | none => if r ∈ op.dests then none else savedAt r ops

/-- Where a register is loaded from, to be left alone after that. -/
def loadedFrom (r : Reg) : List SysOp → Option Nat
  | [] => none
  | op :: ops => if ∃ o ∈ ops, r ∈ o.dests then loadedFrom r ops else op.loadsFrom r

/-- The accesses of a listing. -/
def regions (pac : Pac) : List SysOp → SysCpu → List (Addr × Nat)
  | [], _ => []
  | op :: ops, s => op.accesses.map (fun p => (s.place p.1, p.2)) ++ regions pac ops (op.exec pac s)

/-- Two words that have no byte in common. -/
def WordsApart (i j : Nat) : Prop := i + 8 ≤ j ∨ j + 8 ≤ i

instance (i j : Nat) : Decidable (WordsApart i j) := inferInstanceAs (Decidable (_ ∨ _))

/-- A listing that works on a frame of `size` bytes: it stays inside, and stores to no place twice. -/
structure InFrame (size : Nat) (ops : List SysOp) : Prop where
  sp : ∀ op ∈ ops, op.keepsSp = true
  inside : ∀ op ∈ ops, ∀ p ∈ op.accesses, p.1 + p.2 ≤ size
  apart : (ops.flatMap SysOp.stores).Pairwise WordsApart

/-! ## One instruction -/

section

variable {pac : Pac} {s : SysCpu} {op : SysOp} {ops : List SysOp} {r : Reg} {i size : Nat}

namespace SysCpu

theorem get_of_ne (h : r ≠ 31) : s.get r = s.x r := if_neg h

theorem set_x_self {value : BitVec 64} (h : r ≠ 31) : (s.set r value).x r = value := by
  simp [set, h]

theorem set_x_of_ne {q : Reg} {value : BitVec 64} (h : q ≠ r) : (s.set r value).x q = s.x q := by
  by_cases hr : r = 31
  · simp [set, hr]
  · simp [set, hr, h]

@[simp] theorem set_sp {value : BitVec 64} : (s.set r value).sp = s.sp := by
  unfold set; split <;> rfl

@[simp] theorem set_mem {value : BitVec 64} : (s.set r value).mem = s.mem := by
  unfold set; split <;> rfl

@[simp] theorem set_key {value : BitVec 64} : (s.set r value).key = s.key := by
  unfold set; split <;> rfl

theorem set_getSys {value : BitVec 64} (q : SysReg) : (s.set r value).getSys q = s.getSys q := by
  unfold set; split <;> rfl

@[simp] theorem setSys_x {value : BitVec 64} {q : SysReg} : (s.setSys value q).x = s.x := by
  cases q <;> rfl

@[simp] theorem setSys_sp {value : BitVec 64} {q : SysReg} : (s.setSys value q).sp = s.sp := by
  cases q <;> rfl

@[simp] theorem setSys_mem {value : BitVec 64} {q : SysReg} : (s.setSys value q).mem = s.mem := by
  cases q <;> rfl

end SysCpu

theorem exec_x (h : r ∉ op.dests) : (op.exec pac s).x r = s.x r := by
  cases op with
  | ldp rt rt2 imm =>
    simp only [SysOp.dests, List.mem_cons, List.not_mem_nil, or_false, not_or] at h
    exact (SysCpu.set_x_of_ne h.2).trans (SysCpu.set_x_of_ne h.1)
  | stp | subSp | addSp => rfl
  | msr => exact congrFun SysCpu.setSys_x r
  | _ =>
    simp only [SysOp.dests, List.mem_cons, List.not_mem_nil, or_false] at h
    exact SysCpu.set_x_of_ne h

theorem exec_sp (h : op.keepsSp = true) : (op.exec pac s).sp = s.sp := by
  cases op with
  | stp => rfl
  | subSp | addSp => cases h
  | msr => exact SysCpu.setSys_sp
  | ldp => exact SysCpu.set_sp.trans SysCpu.set_sp
  | _ => exact SysCpu.set_sp

theorem exec_place (h : op.keepsSp = true) (imm : Nat) : (op.exec pac s).place imm = s.place imm := by
  unfold SysCpu.place
  rw [exec_sp h]

theorem exec_mem (h : op.stores = []) : (op.exec pac s).mem = s.mem := by
  cases op with
  | stp => cases h
  | subSp | addSp => rfl
  | msr => exact SysCpu.setSys_mem
  | ldp => exact SysCpu.set_mem.trans SysCpu.set_mem
  | _ => exact SysCpu.set_mem

/-- Words of a frame that are apart by their offsets have no byte in common. -/
theorem WordsApart.regionsApart {j : Nat} (h : WordsApart i j) (hi : i + 8 ≤ 18446744073709551616)
    (hj : j + 8 ≤ 18446744073709551616) : RegionsApart (s.place i) 8 (s.place j) 8 := by
  intro x hxi hxj
  unfold WordsApart at h
  unfold Within SysCpu.place at *
  bv_omega

/-- A word apart from what is stored stays. -/
theorem exec_read (h : ∀ j ∈ op.stores, WordsApart i j ∧ j + 8 ≤ size) (hi : i + 8 ≤ size)
    (hsize : size ≤ 18446744073709551616) :
    (op.exec pac s).mem.read (s.place i) 8 = s.mem.read (s.place i) 8 := by
  by_cases hnone : op.stores = []
  · rw [exec_mem hnone]
  · cases op with
    | stp rt rt2 imm =>
      obtain ⟨hfirst, hin⟩ := h imm List.mem_cons_self
      obtain ⟨hlast, hin'⟩ := h (imm + 8) (List.mem_cons_of_mem _ List.mem_cons_self)
      have hapart : RegionsApart (s.place i) 8 (s.place imm) 8 := hfirst.regionsApart (by omega) (by omega)
      have hapart' : RegionsApart (s.place i) 8 (s.place (imm + 8)) 8 := hlast.regionsApart (by omega) (by omega)
      show ((s.mem.write (s.place imm) 8 _).write (s.place (imm + 8)) 8 _).read _ 8 = _
      rw [Mem.read_write_apart (by decide) hapart', Mem.read_write_apart (by decide) hapart]
    | _ => exact absurd rfl hnone

theorem SysOp.mem_stores (h : op.storesAt r = some i) : i ∈ op.stores := by
  cases op with
  | stp rt rt2 imm =>
    simp only [SysOp.storesAt] at h
    split at h
    · obtain rfl := Option.some.inj h
      exact List.mem_cons_self
    · split at h
      · obtain rfl := Option.some.inj h
        exact List.mem_cons_of_mem _ List.mem_cons_self
      · cases h
  | _ => cases h

/-- A word that is stored is found. -/
theorem exec_stored (hr : r ≠ 31) (h : op.storesAt r = some i) (hin : ∀ j ∈ op.stores, j + 8 ≤ size)
    (hsize : size ≤ 18446744073709551616) : (op.exec pac s).mem.read (s.place i) 8 = s.x r := by
  cases op with
  | stp rt rt2 imm =>
    have hlast := hin (imm + 8) (List.mem_cons_of_mem _ List.mem_cons_self)
    have hwords : WordsApart imm (imm + 8) := .inl le_rfl
    have hapart : RegionsApart (s.place imm) 8 (s.place (imm + 8)) 8 := hwords.regionsApart (by omega) (by omega)
    show ((s.mem.write (s.place imm) 8 _).write (s.place (imm + 8)) 8 _).read _ 8 = _
    simp only [SysOp.storesAt] at h
    split at h
    · next hrt =>
      obtain rfl := Option.some.inj h
      rw [Mem.read_write_apart (by decide) hapart, Mem.read_write, hrt, SysCpu.get_of_ne hr]
    · split at h
      · next hrt2 =>
        obtain rfl := Option.some.inj h
        rw [Mem.read_write, hrt2, SysCpu.get_of_ne hr]
      · cases h
  | _ => cases h

/-- A word that is loaded is in the register. -/
theorem exec_loaded (hr : r ≠ 31) (h : op.loadsFrom r = some i) :
    (op.exec pac s).x r = s.mem.read (s.place i) 8 := by
  cases op with
  | ldp rt rt2 imm =>
    simp only [SysOp.loadsFrom] at h
    show ((s.set rt _).set rt2 _).x r = _
    split at h
    · next hrt2 =>
      obtain rfl := Option.some.inj h
      rw [hrt2, SysCpu.set_x_self hr]
    · next hrt2 =>
      split at h
      · next hrt =>
        obtain rfl := Option.some.inj h
        rw [SysCpu.set_x_of_ne (Ne.symm hrt2), hrt, SysCpu.set_x_self hr]
      · cases h
  | ldr rt imm =>
    simp only [SysOp.loadsFrom] at h
    show (s.set rt _).x r = _
    split at h
    · next hrt =>
      obtain rfl := Option.some.inj h
      rw [hrt, SysCpu.set_x_self hr]
    · cases h
  | _ => cases h

end

/-! ## Listings -/

section

variable {pac : Pac} {s : SysCpu} {ops : List SysOp} {r : Reg} {i size : Nat}

theorem execs_cons (op : SysOp) : execs pac (op :: ops) s = execs pac ops (op.exec pac s) := rfl

theorem execs_append (ops' : List SysOp) : execs pac (ops ++ ops') s = execs pac ops' (execs pac ops s) :=
  List.foldl_append

theorem InFrame.of_cons {op : SysOp} (h : InFrame size (op :: ops)) : InFrame size ops where
  sp o ho := h.sp o (List.mem_cons_of_mem _ ho)
  inside o ho := h.inside o (List.mem_cons_of_mem _ ho)
  apart := by
    have happend := h.apart
    rw [List.flatMap_cons, List.pairwise_append] at happend
    exact happend.2.1

theorem execs_x (h : ∀ op ∈ ops, r ∉ op.dests) : (execs pac ops s).x r = s.x r := by
  induction ops generalizing s with
  | nil => rfl
  | cons op ops ih =>
    rw [execs_cons, ih fun o ho => h o (List.mem_cons_of_mem _ ho), exec_x (h op List.mem_cons_self)]

theorem execs_sp (h : ∀ op ∈ ops, op.keepsSp = true) : (execs pac ops s).sp = s.sp := by
  induction ops generalizing s with
  | nil => rfl
  | cons op ops ih =>
    rw [execs_cons, ih fun o ho => h o (List.mem_cons_of_mem _ ho), exec_sp (h op List.mem_cons_self)]

theorem execs_mem (h : ∀ op ∈ ops, op.stores = []) : (execs pac ops s).mem = s.mem := by
  induction ops generalizing s with
  | nil => rfl
  | cons op ops ih =>
    rw [execs_cons, ih fun o ho => h o (List.mem_cons_of_mem _ ho), exec_mem (h op List.mem_cons_self)]

theorem exec_getSys {op : SysOp} {q : SysReg} (h : op.writesSys ≠ some q) : (op.exec pac s).getSys q = s.getSys q := by
  cases op with
  | msr q' rt =>
    have hne : q' ≠ q := fun heq => h (congrArg some heq)
    cases q' <;> cases q <;> first | rfl | exact absurd rfl hne
  | stp | subSp | addSp => rfl
  | ldp => exact (SysCpu.set_getSys q).trans (SysCpu.set_getSys q)
  | _ => exact SysCpu.set_getSys q

/-- A system register that a listing does not write to. -/
theorem execs_getSys {q : SysReg} (h : ∀ op ∈ ops, op.writesSys ≠ some q) :
    (execs pac ops s).getSys q = s.getSys q := by
  induction ops generalizing s with
  | nil => rfl
  | cons op ops ih =>
    rw [execs_cons, ih fun o ho => h o (List.mem_cons_of_mem _ ho), exec_getSys (h op List.mem_cons_self)]

/-- A system register is read by a listing that ends so. -/
theorem execs_mrs {q : SysReg} (h : ∀ op ∈ ops, op.writesSys ≠ some q) (hr : r ≠ 31) :
    (execs pac (ops ++ [.mrs r q]) s).x r = s.getSys q := by
  rw [execs_append]
  show ((execs pac ops s).set r ((execs pac ops s).getSys q)).x r = _
  rw [SysCpu.set_x_self hr, execs_getSys h]

/-- What a listing stores is inside its frame. -/
theorem InFrame.stores_inside (h : InFrame size ops) {j : Nat} (hj : j ∈ ops.flatMap SysOp.stores) : j + 8 ≤ size := by
  obtain ⟨op, hop, hj⟩ := List.mem_flatMap.1 hj
  cases op with
  | stp rt rt2 imm =>
    have hin := h.inside _ hop (imm, 16) List.mem_cons_self
    simp only [SysOp.stores, List.mem_cons, List.not_mem_nil, or_false] at hj
    dsimp only at hin
    omega
  | _ => cases hj

theorem execs_read (h : InFrame size ops) (hi : i + 8 ≤ size) (hsize : size ≤ 18446744073709551616)
    (hapart : ∀ j ∈ ops.flatMap SysOp.stores, WordsApart i j) :
    (execs pac ops s).mem.read (s.place i) 8 = s.mem.read (s.place i) 8 := by
  induction ops generalizing s with
  | nil => rfl
  | cons op ops ih =>
    have hsp := h.sp op List.mem_cons_self
    have hfirst : ∀ j ∈ op.stores, j ∈ (op :: ops).flatMap SysOp.stores := fun j hj =>
      List.mem_flatMap.2 ⟨op, List.mem_cons_self, hj⟩
    have hrest := ih (s := op.exec pac s) h.of_cons fun j hj => hapart j (List.mem_append_right _ hj)
    rw [exec_place hsp] at hrest
    rw [execs_cons, hrest, exec_read (fun j hj => ⟨hapart j (hfirst j hj), h.stores_inside (hfirst j hj)⟩) hi hsize]

theorem mem_of_savedAt (h : savedAt r ops = some i) : i ∈ ops.flatMap SysOp.stores := by
  induction ops with
  | nil => cases h
  | cons op ops ih =>
    unfold savedAt at h
    cases hstore : op.storesAt r with
    | some j =>
      rw [hstore] at h
      obtain rfl := Option.some.inj h
      exact List.mem_append_left _ (SysOp.mem_stores hstore)
    | none =>
      rw [hstore] at h
      dsimp only at h
      split at h
      · cases h
      · exact List.mem_append_right _ (ih h)

/-- **A register that is saved** before it is written to is found in the frame. -/
theorem read_of_savedAt (h : InFrame size ops) (hsize : size ≤ 18446744073709551616) (hr : r ≠ 31)
    (hsaved : savedAt r ops = some i) : (execs pac ops s).mem.read (s.place i) 8 = s.x r := by
  induction ops generalizing s with
  | nil => cases hsaved
  | cons op ops ih =>
    have hsp := h.sp op List.mem_cons_self
    have hfirst : ∀ j ∈ op.stores, j ∈ (op :: ops).flatMap SysOp.stores := fun j hj =>
      List.mem_flatMap.2 ⟨op, List.mem_cons_self, hj⟩
    unfold savedAt at hsaved
    cases hstore : op.storesAt r with
    | some j =>
      rw [hstore] at hsaved
      obtain rfl := Option.some.inj hsaved
      have hj := SysOp.mem_stores hstore
      have hlater : ∀ k ∈ ops.flatMap SysOp.stores, WordsApart j k := by
        have happend := h.apart
        rw [List.flatMap_cons, List.pairwise_append] at happend
        exact happend.2.2 j hj
      have hrest := @execs_read pac (op.exec pac s) _ _ _ h.of_cons (h.stores_inside (hfirst j hj)) hsize hlater
      rw [exec_place hsp] at hrest
      rw [execs_cons, hrest, exec_stored hr hstore (fun k hk => h.stores_inside (hfirst k hk)) hsize]
    | none =>
      rw [hstore] at hsaved
      dsimp only at hsaved
      split at hsaved
      · cases hsaved
      · next hdest =>
        have hrest := ih (s := op.exec pac s) h.of_cons hsaved
        rw [exec_place hsp, exec_x hdest] at hrest
        exact hrest

/-- And so is what it has been given before. -/
theorem read_of_savedAt_drop (h : InFrame size ops) (hsize : size ≤ 18446744073709551616) (hr : r ≠ 31) (n : Nat)
    (hsaved : savedAt r (ops.drop n) = some i) :
    (execs pac ops s).mem.read (s.place i) 8 = (execs pac (ops.take n) s).x r := by
  have hsp : (execs pac (ops.take n) s).sp = s.sp := execs_sp fun op hop => h.sp op (List.mem_of_mem_take hop)
  have hrest : InFrame size (ops.drop n) := by
    refine ⟨fun op hop => h.sp op (List.mem_of_mem_drop hop), fun op hop => h.inside op (List.mem_of_mem_drop hop), ?_⟩
    have hapart := h.apart
    rw [← List.take_append_drop n ops, List.flatMap_append, List.pairwise_append] at hapart
    exact hapart.2.1
  have hread := @read_of_savedAt pac (execs pac (ops.take n) s) _ _ _ _ hrest hsize hr hsaved
  rw [← execs_append, List.take_append_drop] at hread
  unfold SysCpu.place at *
  rwa [hsp] at hread

/-- **A register that is loaded** and not written to afterwards is what the memory has. -/
theorem x_of_loadedFrom (hsp : ∀ op ∈ ops, op.keepsSp = true) (hstores : ∀ op ∈ ops, op.stores = []) (hr : r ≠ 31)
    (hloaded : loadedFrom r ops = some i) : (execs pac ops s).x r = s.mem.read (s.place i) 8 := by
  induction ops generalizing s with
  | nil => cases hloaded
  | cons op ops ih =>
    have hsp' := hsp op List.mem_cons_self
    unfold loadedFrom at hloaded
    rw [execs_cons]
    split at hloaded
    · have hrest := ih (s := op.exec pac s) (fun o ho => hsp o (List.mem_cons_of_mem _ ho))
        (fun o ho => hstores o (List.mem_cons_of_mem _ ho)) hloaded
      rw [hrest, exec_place hsp', exec_mem (hstores op List.mem_cons_self)]
    · next hlast =>
      rw [execs_x fun o ho hdest => hlast ⟨o, ho, hdest⟩, exec_loaded hr hloaded]

/-- What is not in the frame stays. -/
theorem InFrame.mem_outside (h : InFrame size ops) (hsize : size ≤ 18446744073709551616) {a : Addr}
    (ha : ¬ Within s.sp size a) : (execs pac ops s).mem a = s.mem a := by
  induction ops generalizing s with
  | nil => rfl
  | cons op ops ih =>
    have hsp := @exec_sp pac s op (h.sp op List.mem_cons_self)
    rw [execs_cons, ih h.of_cons (by rwa [hsp])]
    by_cases hnone : op.stores = []
    · rw [exec_mem hnone]
    · cases op with
      | stp rt rt2 imm =>
        have hin := h.inside _ List.mem_cons_self (imm, 16) List.mem_cons_self
        dsimp only at hin
        have hfirst : ¬ Within (s.place imm) 8 a := fun hx => ha (hx.of_part (by omega) hsize)
        have hlast : ¬ Within (s.place (imm + 8)) 8 a := fun hx => ha (hx.of_part (by omega) hsize)
        exact (Mem.over_outside hlast).trans (Mem.over_outside hfirst)
      | _ => exact absurd rfl hnone

/-- The accesses of a listing that works on a frame are inside it. -/
theorem InFrame.regions_inside (h : InFrame size ops) {p : Addr × Nat} (hp : p ∈ regions pac ops s) :
    ∃ off, p.1 = s.place off ∧ off + p.2 ≤ size := by
  induction ops generalizing s with
  | nil => cases hp
  | cons op ops ih =>
    rcases List.mem_append.1 hp with hfirst | hrest
    · obtain ⟨q, hq, rfl⟩ := List.mem_map.1 hfirst
      exact ⟨q.1, rfl, h.inside op List.mem_cons_self q hq⟩
    · obtain ⟨off, hoff, hle⟩ := ih h.of_cons hrest
      exact ⟨off, hoff.trans (exec_place (h.sp op List.mem_cons_self) off), hle⟩

theorem regions_append (ops' : List SysOp) :
    regions pac (ops ++ ops') s = regions pac ops s ++ regions pac ops' (execs pac ops s) := by
  induction ops generalizing s with
  | nil => rfl
  | cons op ops ih => rw [List.cons_append, regions, regions, ih, execs_cons, List.append_assoc]

end

/-! ## Saving, and loading later -/

/-- What a frame of `size` bytes needs to be found again: the stack pointer where it was, and the frame as it was. -/
structure KeepsFrame (size : Nat) (s t : SysCpu) : Prop where
  sp : t.sp = s.sp
  mem : ∀ a, Within s.sp size a → t.mem a = s.mem a

section

variable {pac : Pac} {s t : SysCpu} {save load : List SysOp} {r : Reg} {i size : Nat}

/-- What is found in the frame later is what a listing left there. -/
theorem KeepsFrame.read (hsave : InFrame size save) (h : KeepsFrame size (execs pac save s) t) (hi : i + 8 ≤ size)
    (hsize : size ≤ 18446744073709551616) : t.mem.read (t.place i) 8 = (execs pac save s).mem.read (s.place i) 8 := by
  unfold SysCpu.place
  rw [h.sp, execs_sp hsave.sp]
  refine Mem.read_congr (by decide) fun a ha => h.mem a ?_
  rw [execs_sp hsave.sp]
  exact ha.of_part hi hsize

/-- **A register that is loaded from where it was saved** is as it was. -/
theorem x_of_saved_loaded (hsave : InFrame size save) (hsize : size ≤ 18446744073709551616)
    (hsp : ∀ op ∈ load, op.keepsSp = true) (hstores : ∀ op ∈ load, op.stores = []) (hr : r ≠ 31)
    (hsaved : savedAt r save = some i) (hloaded : loadedFrom r load = some i)
    (hkept : KeepsFrame size (execs pac save s) t) : (execs pac load t).x r = s.x r :=
  calc (execs pac load t).x r
      = t.mem.read (t.place i) 8 := x_of_loadedFrom hsp hstores hr hloaded
    _ = (execs pac save s).mem.read (s.place i) 8 := hkept.read hsave (hsave.stores_inside (mem_of_savedAt hsaved)) hsize
    _ = s.x r := read_of_savedAt hsave hsize hr hsaved

end

end GunyahRuntime.Lib.Arm
