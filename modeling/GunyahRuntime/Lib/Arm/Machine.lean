/-
# GunyahRuntime.Lib.Arm.Machine -- a processor for copying and filling loops

The instructions of A64 that such loops are written in: loads and stores of one register or two with the three
addressing modes, arithmetic on immediates and shifted registers, tests and branches, and the pair of
`adr` and `br` that makes a computed jump. Memory is a memory of bytes. The state keeps the regions that
have been loaded from, so that what a program reads is something to be proved about it.

A program is a list of instructions, four bytes each, from the address `base` on. Branches name labels, which
`assemble` turns into positions in the list; only `adr` and `br` see addresses. A hint to the caches changes
nothing, and of the flags there are the three that the signed conditions look at.

Nothing here names a program.
-/
import GunyahRuntime.Lib.Bytes

namespace GunyahRuntime.Lib.Arm

/-- A general register: 0 to 30, and 31 for the zero register. -/
abbrev Reg : Type := Nat

structure Flags where
  n : Bool
  z : Bool
  v : Bool
  deriving DecidableEq

structure Cpu where
  x : Reg → BitVec 64
  flags : Flags
  mem : Mem
  /-- The regions loaded from, the last first. -/
  reads : List (Addr × Nat)

inductive Mode where
  | off (imm : BitVec 64)
  | post (imm : BitVec 64)
  | pre (imm : BitVec 64)
  deriving DecidableEq

inductive Shift where
  | lsl (amount : Nat)
  | lsr (amount : Nat)
  deriving DecidableEq

/-- The instructions that fall through. In `ldr` and `str`, `w` is the number of bytes. -/
inductive Op where
  | ldp (rt rt2 rn : Reg) (mode : Mode)
  | stp (rt rt2 rn : Reg) (mode : Mode)
  | ldr (w : Nat) (rt rn : Reg) (mode : Mode)
  | str (w : Nat) (rt rn : Reg) (mode : Mode)
  | add (rd rn : Reg) (imm : BitVec 64)
  | sub (rd rn : Reg) (imm : BitVec 64)
  | adds (rd rn : Reg) (imm : BitVec 64)
  | subs (rd rn : Reg) (imm : BitVec 64)
  | and (rd rn : Reg) (imm : BitVec 64)
  | bic (rd rn : Reg) (imm : BitVec 64)
  | addReg (rd rn rm : Reg) (shift : Shift)
  | subReg (rd rn rm : Reg) (shift : Shift)
  | orrReg (rd rn rm : Reg) (shift : Shift)
  | lsr (rd rn : Reg) (amount : Nat)
  | mov (rd rm : Reg)
  | neg (rd rm : Reg)
  | prfm (rn : Reg) (imm : BitVec 64)
  /-- `dc zva`, with blocks of `2 ^ bits` bytes. -/
  | dcZva (bits : Nat) (rn : Reg)
  deriving DecidableEq

inductive Cond where
  | eq
  | ne
  | ge
  | lt
  deriving DecidableEq

/-- The instructions, with branches to `L`. -/
inductive Instr (L : Type) where
  | op (o : Op)
  | adr (rd : Reg) (l : L)
  | tbz (rt : Reg) (bit : Nat) (l : L)
  | cbz (rt : Reg) (l : L)
  | cbnz (rt : Reg) (l : L)
  | b (cond : Cond) (l : L)
  | br (rn : Reg)
  | ret
  deriving DecidableEq

/-! ## Programs -/

/-- A line of a listing. -/
inductive Line (L : Type) where
  | label (l : L)
  | instr (i : Instr L)
  deriving DecidableEq

abbrev Line.op {L : Type} (o : Op) : Line L := .instr (.op o)

/-- `.rept`: `count` copies of the lines, the offset of each `step` more than that of the one before. -/
def rept {L : Type} (count : Nat) (offset step : BitVec 64) (body : BitVec 64 → List (Line L)) :
    List (Line L) :=
  match count with
  | 0 => []
  | count + 1 => body offset ++ rept count (offset + step) step body

/-- The position of a label: how many instructions stand before it. -/
def labelPos {L : Type} [DecidableEq L] (l : L) : List (Line L) → Nat
  | [] => 0
  | .label l' :: lines => if l' = l then 0 else labelPos l lines
  | .instr _ :: lines => labelPos l lines + 1

def Instr.map {L M : Type} (f : L → M) : Instr L → Instr M
  | .op o => .op o
  | .adr rd l => .adr rd (f l)
  | .tbz rt bit l => .tbz rt bit (f l)
  | .cbz rt l => .cbz rt (f l)
  | .cbnz rt l => .cbnz rt (f l)
  | .b cond l => .b cond (f l)
  | .br rn => .br rn
  | .ret => .ret

/-- The instructions of a listing, its labels resolved. -/
def assemble {L : Type} [DecidableEq L] (lines : List (Line L)) : List (Instr Nat) :=
  lines.filterMap fun
    | .label _ => none
    | .instr i => some (i.map fun l => labelPos l lines)

/-! ## What falls through -/

/-- A register, as an operand. -/
def Cpu.get (s : Cpu) (r : Reg) : BitVec 64 := if r = 31 then 0 else s.x r

/-- A register, as a destination. -/
def Cpu.set (s : Cpu) (r : Reg) (value : BitVec 64) : Cpu :=
  if r = 31 then s else { s with x := fun q => if q = r then value else s.x q }

/-- The address an instruction accesses. -/
def Cpu.address (s : Cpu) (rn : Reg) : Mode → Addr
  | .off imm => s.x rn + imm
  | .post _ => s.x rn
  | .pre imm => s.x rn + imm

/-- The base register afterwards. -/
def Cpu.writeBack (s : Cpu) (rn : Reg) : Mode → Cpu
  | .off _ => s
  | .post imm => s.set rn (s.x rn + imm)
  | .pre imm => s.set rn (s.x rn + imm)

def Shift.apply (v : BitVec 64) : Shift → BitVec 64
  | .lsl amount => v <<< amount
  | .lsr amount => v >>> amount

/-- The flags of a sum. -/
def addFlags (a b : BitVec 64) : Flags where
  n := (a + b).msb
  z := a + b = 0
  v := a.msb == b.msb && (a + b).msb != a.msb

/-- The flags of a difference. -/
def subFlags (a b : BitVec 64) : Flags where
  n := (a - b).msb
  z := a - b = 0
  v := a.msb != b.msb && (a - b).msb != a.msb

def Op.exec (s : Cpu) : Op → Cpu
  | .ldp rt rt2 rn mode =>
    let a := s.address rn mode
    (({ s with reads := (a, 16) :: s.reads }.set rt (s.mem.read a 8)).set rt2
      (s.mem.read (a + 8) 8)).writeBack rn mode
  | .stp rt rt2 rn mode =>
    let a := s.address rn mode
    { s with mem := (s.mem.write a 8 (s.get rt)).write (a + 8) 8 (s.get rt2) }.writeBack rn mode
  | .ldr w rt rn mode =>
    let a := s.address rn mode
    ({ s with reads := (a, w) :: s.reads }.set rt (s.mem.read a w)).writeBack rn mode
  | .str w rt rn mode =>
    { s with mem := s.mem.write (s.address rn mode) w (s.get rt) }.writeBack rn mode
  | .add rd rn imm => s.set rd (s.get rn + imm)
  | .sub rd rn imm => s.set rd (s.get rn - imm)
  | .adds rd rn imm => { s with flags := addFlags (s.get rn) imm }.set rd (s.get rn + imm)
  | .subs rd rn imm => { s with flags := subFlags (s.get rn) imm }.set rd (s.get rn - imm)
  | .and rd rn imm => s.set rd (s.get rn &&& imm)
  | .bic rd rn imm => s.set rd (s.get rn &&& ~~~imm)
  | .addReg rd rn rm shift => s.set rd (s.get rn + shift.apply (s.get rm))
  | .subReg rd rn rm shift => s.set rd (s.get rn - shift.apply (s.get rm))
  | .orrReg rd rn rm shift => s.set rd (s.get rn ||| shift.apply (s.get rm))
  | .lsr rd rn amount => s.set rd (s.get rn >>> amount)
  | .mov rd rm => s.set rd (s.get rm)
  | .neg rd rm => s.set rd (0 - s.get rm)
  | .prfm _ _ => s
  | .dcZva bits rn =>
    { s with mem := s.mem.over (s.x rn >>> bits <<< bits) (2 ^ bits) fun _ => 0 }

def Cond.holds (f : Flags) : Cond → Bool
  | .eq => f.z
  | .ne => !f.z
  | .ge => f.n == f.v
  | .lt => f.n != f.v

/-! ## Running -/

/-- Where a program goes on. -/
inductive Next where
  | goto (pc : Nat)
  | ret
  deriving DecidableEq

/-- One instruction, at position `pc`. `none`: a jump to an address that is no instruction's. -/
def Instr.exec (base : Addr) (pc : Nat) (s : Cpu) : Instr Nat → Option (Next × Cpu)
  | .op o => some (.goto (pc + 1), o.exec s)
  | .adr rd l => some (.goto (pc + 1), s.set rd (base + BitVec.ofNat 64 (4 * l)))
  | .tbz rt bit l => some (.goto (if (s.get rt).getLsbD bit then pc + 1 else l), s)
  | .cbz rt l => some (.goto (if s.get rt = 0 then l else pc + 1), s)
  | .cbnz rt l => some (.goto (if s.get rt = 0 then pc + 1 else l), s)
  | .b cond l => some (.goto (if cond.holds s.flags then l else pc + 1), s)
  | .br rn =>
    let distance := (s.x rn - base).toNat
    if distance % 4 = 0 then some (.goto (distance / 4), s) else none
  | .ret => some (.ret, s)

/-- Run until the program returns, for at most `fuel` instructions. -/
def run (base : Addr) (prog : List (Instr Nat)) : Nat → Nat → Cpu → Option Cpu
  | 0, _, _ => none
  | fuel + 1, pc, s =>
    match prog[pc]? with
    | none => none
    | some i =>
      match i.exec base pc s with
      | none => none
      | some (.ret, s') => some s'
      | some (.goto pc', s') => run base prog fuel pc' s'

end GunyahRuntime.Lib.Arm
