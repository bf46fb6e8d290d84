/-
# GunyahRuntime.Memset -- `memset` and its assembly (`string.c`, `memset.S`)

Two families of entries, one for zeroing and one for any other value. The first has the size in `x1` and stores the zero
register; where the destination is aligned to the blocks that `dc zva` clears, it clears them. The second has the size in
`x2` and a word in `x1` that repeats the byte, and its entry for any alignment makes that word as it goes.

The entries of a family fall through from the least to the most aligned one. `memsetRequires` says what the comments over
them ask for, and whether a run enters them only so is a question about every state it passes.
-/
import GunyahRuntime.Memcpy

namespace GunyahRuntime

open Lib (Addr)
open Lib.Arm

/-! ## `memset.S` -/

inductive MemsetLabel where
  | memsetZerosBelow32
  | memsetZerosBelow16
  | memsetZerosAlignable
  | memsetZerosAlign16
  | memsetZerosDczva
  | memsetZerosNoDczva
  | localReturn
  | memsetBelow32
  | memsetBelow16
  | memsetAlignable
  | memsetAlign16
  /-- The label `1:`, by its number among those of the file. -/
  | one (i : Nat)
  /-- The label `2:`. -/
  | two
  deriving DecidableEq

/-- `1 << CPU_DCZVA_BITS`. -/
def dczvaSize : BitVec 64 := 1 <<< CPU_DCZVA_BITS

/-- `function memset_zeros_below32`. -/
def memsetZerosBelow32Lines : List (Line MemsetLabel) :=
  [.label .memsetZerosBelow32,
    -- Assume the target is size-aligned and do the largest stores first.
    .instr (.tbz 1 4 .memsetZerosBelow16),
    .op (.stp 31 31 0 (.post 16)),
  .label .memsetZerosBelow16,
    .instr (.tbz 1 3 (.one 0)),
    .op (.str 8 31 0 (.post 8)),
  .label (.one 0),
    .instr (.tbz 1 2 (.one 1)),
    .op (.str 4 31 0 (.post 4)),
  .label (.one 1),
    .instr (.tbz 1 1 (.one 2)),
    .op (.str 2 31 0 (.post 2)),
  .label (.one 2),
    .instr (.tbz 1 0 (.one 3)),
    .op (.str 1 31 0 (.off 0)),
  .label (.one 3),
    .instr .ret]

/-- `function memset_zeros_alignable`, up to where it falls through. -/
def memsetZerosAlignableLines : List (Line MemsetLabel) :=
  [.label .memsetZerosAlignable,
    -- Align up the target address to 16.
    .instr (.tbz 0 0 (.one 4)),
    .op (.str 1 31 0 (.post 1)),
    .op (.sub 1 1 1),
  .label (.one 4),
    .instr (.tbz 0 1 (.one 5)),
    .op (.str 2 31 0 (.post 2)),
    .op (.sub 1 1 2),
  .label (.one 5),
    .instr (.tbz 0 2 (.one 6)),
    .op (.str 4 31 0 (.post 4)),
    .op (.sub 1 1 4),
  .label (.one 6),
    .instr (.tbz 0 3 (.one 7)),
    .op (.str 8 31 0 (.post 8)),
    .op (.sub 1 1 8),
  .label (.one 7)]

/-- `memset_zeros_align16`, up to where it falls through. In the count of the table the shift binds closer than the
minus, as for the assembler. -/
def memsetZerosAlign16Lines : List (Line MemsetLabel) :=
  List.flatten [
  [.label .memsetZerosAlign16,
    .op (.neg 3 0),
    .op (.subs 31 1 dczvaSize),
    .op (.and 2 3 (dczvaSize - 1)),
    .instr (.b .lt .memsetZerosNoDczva),
    -- Align up to the DC ZVA size by calculating a jump into an stp sequence.
    .instr (.adr 5 (.one 8)),
    .op (.subReg 1 1 2 (.lsl 0)),
    .op (.addReg 0 0 2 (.lsl 0)),
    .op (.subReg 6 5 2 (.lsr (4 - 2))),
    .op (.subs 31 1 dczvaSize),
    .instr (.br 6)],
  rept (1 <<< (CPU_DCZVA_BITS - 4) - 1) (16 - dczvaSize) 16 (fun offset =>
    [.op (.stp 31 31 0 (.off offset))]),
  [.label (.one 8),
    .instr (.b .lt .memsetZerosNoDczva)]]

/-- `memset_zeros_dczva`, to the end of the family. -/
def memsetZerosDczvaLines : List (Line MemsetLabel) :=
  List.flatten [
  [.label .memsetZerosDczva,
    .op (.bic 2 1 (dczvaSize - 1)),
    .op (.and 1 1 (dczvaSize - 1)),
  .label (.one 9),
    .op (.subs 2 2 dczvaSize),
    .op (.dcZva CPU_DCZVA_BITS 0),
    .op (.add 0 0 dczvaSize),
    .instr (.b .ne (.one 9)),
    .instr (.cbz 1 .localReturn),
  .label .memsetZerosNoDczva,
    -- Less than one DC ZVA block left.
    .op (.lsr 4 1 4),
    .instr (.adr 5 (.one 10)),
    .op (.subReg 1 1 4 (.lsl 4)),
    .op (.addReg 0 0 4 (.lsl 4)),
    .op (.subReg 6 5 4 (.lsl 2)),
    .instr (.br 6)],
  rept (1 <<< (CPU_DCZVA_BITS - 4) - 1) (16 - dczvaSize) 16 (fun offset =>
    [.op (.stp 31 31 0 (.off offset))]),
  [.label (.one 10),
    -- There must be less than 16 bytes left now.
    .instr (.cbnz 1 .memsetZerosBelow16),
  .label .localReturn,
    .instr .ret]]

/-- `function memset_below32`. -/
def memsetBelow32Lines : List (Line MemsetLabel) :=
  [.label .memsetBelow32,
    .instr (.tbz 2 4 .memsetBelow16),
    .op (.stp 1 1 0 (.post 16)),
  .label .memsetBelow16,
    .instr (.tbz 2 3 (.one 11)),
    .op (.str 8 1 0 (.post 8)),
  .label (.one 11),
    .instr (.tbz 2 2 (.one 12)),
    .op (.str 4 1 0 (.post 4)),
  .label (.one 12),
    .instr (.tbz 2 1 (.one 13)),
    .op (.str 2 1 0 (.post 2)),
  .label (.one 13),
    .instr (.tbz 2 0 (.one 14)),
    .op (.str 1 1 0 (.off 0)),
  .label (.one 14),
    .instr .ret]

/-- `function memset_alignable`, up to where it falls through. -/
def memsetAlignableLines : List (Line MemsetLabel) :=
  [.label .memsetAlignable,
    -- Align up, and simultaneously duplicate the byte to set until we have 16 copies of it.
    .op (.orrReg 3 1 1 (.lsl 8)),
    .instr (.tbz 0 0 (.one 15)),
    .op (.str 1 1 0 (.post 1)),
    .op (.sub 2 2 1),
  .label (.one 15),
    .op (.orrReg 1 3 3 (.lsl 16)),
    .instr (.tbz 0 1 (.one 16)),
    .op (.str 2 3 0 (.post 2)),
    .op (.sub 2 2 2),
  .label (.one 16),
    .op (.orrReg 3 1 1 (.lsl 32)),
    .instr (.tbz 0 2 (.one 17)),
    .op (.str 4 1 0 (.post 4)),
    .op (.sub 2 2 4),
  .label (.one 17),
    .op (.mov 1 3),
    .instr (.tbz 0 3 (.one 18)),
    .op (.str 8 3 0 (.post 8)),
    .op (.sub 2 2 8),
  .label (.one 18),
    .op (.prfm 0 0)]

/-- `LOCAL(chunk)`: 128 bytes, or a line of the cache where that is more. -/
def memsetChunk : Nat := if 0x80 ≤ 1 <<< CPU_L1D_LINE_BITS then 1 <<< CPU_L1D_LINE_BITS else 0x80

/-- `memset_align16`, to the end of the file. -/
def memsetAlign16Lines : List (Line MemsetLabel) :=
  List.flatten [
  [.label .memsetAlign16],
  rept ((memsetChunk >>> CPU_L1D_LINE_BITS) - 1) lineSize lineSize (fun offset =>
    [.op (.prfm 0 offset)]),
  [.op (.subs 3 2 (.ofNat 64 memsetChunk)),
    .op (.and 2 2 (.ofNat 64 (memsetChunk - 1))),
    .instr (.b .lt .two),
  .label (.one 19)],
  rept (memsetChunk >>> CPU_L1D_LINE_BITS) (.ofNat 64 memsetChunk) lineSize (fun offset =>
    [.op (.prfm 0 offset)]),
  rept (memsetChunk / 0x10) 0 0x10 (fun offset =>
    [.op (.stp 1 1 0 (.off offset))]),
  [.op (.subs 3 3 (.ofNat 64 memsetChunk)),
    .op (.add 0 0 (.ofNat 64 memsetChunk)),
    .instr (.b .ge (.one 19)),
  .label .two,
    -- Calculated jump for up to 7 16-byte chunks.
    .op (.lsr 4 2 4),
    .instr (.adr 5 (.one 20)),
    .op (.subReg 2 2 4 (.lsl 4)),
    .op (.addReg 0 0 4 (.lsl 4)),
    .op (.subReg 6 5 4 (.lsl 2)),
    .instr (.br 6)],
  rept (memsetChunk / 0x10 - 1) (0x10 - .ofNat 64 memsetChunk) 0x10 (fun offset =>
    [.op (.stp 1 1 0 (.off offset))]),
  [.label (.one 20),
    .instr (.cbnz 2 .memsetBelow16),
    .instr .ret]]

/-- The listing, in the order of the file. -/
def memsetLines : List (Line MemsetLabel) :=
  memsetZerosBelow32Lines ++ memsetZerosAlignableLines ++ memsetZerosAlign16Lines ++ memsetZerosDczvaLines ++
    memsetBelow32Lines ++ memsetAlignableLines ++ memsetAlign16Lines

def memsetText : List (Instr Nat) := assemble memsetLines

/-- What the comments over the entries ask for. -/
def memsetRequires : MemsetLabel → Cpu → Prop
  | .memsetZerosBelow32, s => (s.x 1).toNat < 32
  | .memsetZerosAlignable, s => 31 ≤ (s.x 1).toNat
  | .memsetZerosAlign16, s => 16 ≤ (s.x 1).toNat ∧ (s.x 0).toNat % 16 = 0
  | .memsetZerosDczva, s => 64 ≤ (s.x 1).toNat ∧ (s.x 0).toNat % 64 = 0
  | .memsetBelow32, s => (s.x 2).toNat < 32
  | .memsetAlignable, s => 31 ≤ (s.x 2).toNat
  | .memsetAlign16, s => 16 ≤ (s.x 2).toNat ∧ (s.x 0).toNat % 16 = 0
  | _, _ => True

/-- An entry is entered as it requires. -/
def MemsetAt (pc : Nat) (s : Cpu) : Prop := ∀ entry, labelPos entry memsetLines = pc → memsetRequires entry s

/-! ## `memset` -/

/-- `cs`: eight copies of the byte. -/
def expandByte (c : BitVec 8) : BitVec 64 :=
  let cs := c.setWidth 64
  let cs := cs ||| cs <<< 8
  let cs := cs ||| cs <<< 16
  cs ||| cs <<< 32

/-- The call that `memset(s, c, n)` makes, if it makes one: the entry and its arguments. The byte for the entry of any
alignment comes without anything above it, as the comment over that entry has it. -/
def memsetCall (s1 : BitVec 64) (c : BitVec 32) (n : BitVec 64) : Option (MemsetLabel × List (BitVec 64)) :=
  if n = 0 then none
  else if c = 0 then
    if n.ult 32 then some (.memsetZerosBelow32, [s1, n])
    else if s1 &&& (dczvaSize - 1) = 0 ∧ (0 : BitVec 64).ult (n >>> CPU_DCZVA_BITS) then
      some (.memsetZerosDczva, [s1, n])
    else if s1 &&& 15 = 0 then some (.memsetZerosAlign16, [s1, n])
    else some (.memsetZerosAlignable, [s1, n])
  else
    let cs := expandByte (c.setWidth 8)
    if n.ult 32 then some (.memsetBelow32, [s1, cs, n])
    else if s1 &&& 15 = 0 then some (.memsetAlign16, [s1, cs, n])
    else some (.memsetAlignable, [s1, (c.setWidth 8).setWidth 64, n])

/-- The arguments of a call, in the registers from `x0` on. -/
def passArguments (s : Cpu) (r : Reg) : List (BitVec 64) → Cpu
  | [] => s
  | arg :: args => passArguments (s.set r arg) (r + 1) args

/-- `memset(s, c, n)` with its assembly at `base`, for at most `fuel` instructions. -/
def memset (base : Addr) (fuel : Nat) (s : Cpu) (s1 : BitVec 64) (c : BitVec 32) (n : BitVec 64) :
    Exec (BitVec 64 × Cpu) := do
  cassert (n.ule compilerSizeofObject)
  match memsetCall s1 c n with
  | none => pure (s1, s)
  | some (entry, args) => do
    let s' ← callText base memsetLines fuel entry (passArguments s 0 args)
    pure (s1, s')

/-- The positions the call passes, each with the state it finds. -/
def memsetTrace (base : Addr) (fuel : Nat) (s : Cpu) (s1 : BitVec 64) (c : BitVec 32) (n : BitVec 64) :
    List (Nat × Cpu) :=
  match memsetCall s1 c n with
  | none => []
  | some (entry, args) => trace base memsetText fuel (labelPos entry memsetLines) (passArguments s 0 args)

end GunyahRuntime
