/-
# GunyahRuntime.Memcpy -- `memcpy` and its assembly (`string.c`, `memcpy.S`)

The C function chooses by size and alignment between three entries of an assembly file. The model has the file
as a listing, line by line, and runs it; of the C function it has the choice.

Every path is a way to go from "`k` bytes are copied" to "`n` bytes are copied". Words go over one at a time, or
in pairs through the sixteen registers `x3` to `x18`. There the loads run up to eight pairs ahead of the stores,
and `Pipe` says which pair stands in which registers. It holds of the main loop, of the last full chunk and of
the two tables that the computed jumps lead into, with other numbers in it.
-/
import GunyahRuntime.Machine
import GunyahRuntime.Lib.Arm.Run

namespace GunyahRuntime

open Lib (Addr)
open Lib.Arm

/-! ## `asm/cpu.h` -/

def CPU_L1D_LINE_BITS : Nat := 6
def CPU_DCZVA_BITS : Nat := 6
def CPU_MEMCPY_STRIDE : BitVec 64 := 256

/-! ## `memcpy.S` -/

inductive MemcpyLabel where
  | memcpyBelow32
  | memcpyBelow16
  | memcpyAlignable
  | memcpyAlign16
  | memcpyChunk128Loop
  | memcpyBelow256
  | memcpyBelow128
  | localReturn
  /-- The label `1:`, by its number among those of the file. -/
  | one (i : Nat)
  deriving DecidableEq

/-- `1 << CPU_L1D_LINE_BITS`. -/
def lineSize : BitVec 64 := 1 <<< CPU_L1D_LINE_BITS

/-- `function memcpy_below32`. -/
def memcpyBelow32Lines : List (Line MemcpyLabel) :=
  [.label .memcpyBelow32,
    -- Assume the target is size-aligned and do the largest copies first.
    .instr (.tbz 2 4 .memcpyBelow16),
    .op (.ldp 3 4 1 (.post 16)),
    .op (.stp 3 4 0 (.post 16)),
  .label .memcpyBelow16,
    .instr (.tbz 2 3 (.one 0)),
    .op (.ldr 8 3 1 (.post 8)),
    .op (.str 8 3 0 (.post 8)),
  .label (.one 0),
    .instr (.tbz 2 2 (.one 1)),
    .op (.ldr 4 3 1 (.post 4)),
    .op (.str 4 3 0 (.post 4)),
  .label (.one 1),
    .instr (.tbz 2 1 (.one 2)),
    .op (.ldr 2 3 1 (.post 2)),
    .op (.str 2 3 0 (.post 2)),
  .label (.one 2),
    .instr (.tbz 2 0 (.one 3)),
    .op (.ldr 1 3 1 (.off 0)),
    .op (.str 1 3 0 (.off 0)),
  .label (.one 3),
    .instr .ret]

/-- `function memcpy_alignable`, up to where it falls through. -/
def memcpyAlignableLines : List (Line MemcpyLabel) :=
  [.label .memcpyAlignable,
    -- Align up the target address to 16.
    .instr (.tbz 0 0 (.one 4)),
    .op (.ldr 1 3 1 (.post 1)),
    .op (.sub 2 2 1),
    .op (.str 1 3 0 (.post 1)),
  .label (.one 4),
    .instr (.tbz 0 1 (.one 5)),
    .op (.ldr 2 3 1 (.post 2)),
    .op (.sub 2 2 2),
    .op (.str 2 3 0 (.post 2)),
  .label (.one 5),
    .instr (.tbz 0 2 (.one 6)),
    .op (.ldr 4 3 1 (.post 4)),
    .op (.sub 2 2 4),
    .op (.str 4 3 0 (.post 4)),
  .label (.one 6),
    .instr (.tbz 0 3 (.one 7)),
    .op (.ldr 8 3 1 (.post 8)),
    .op (.sub 2 2 8),
    .op (.str 8 3 0 (.post 8)),
  .label (.one 7),
    .op (.prfm 1 0),
    .op (.prfm 0 0)]

/-- `memcpy_align16`, up to the loop. -/
def memcpyAlign16Lines : List (Line MemcpyLabel) :=
  List.flatten [
  [.label .memcpyAlign16],
  rept ((0x80 >>> CPU_L1D_LINE_BITS) - 1) lineSize lineSize (fun offset =>
    [.op (.prfm 1 offset),
    .op (.prfm 0 offset)]),
  -- If we don't have at least two chunks to copy, skip the loop.
  [.op (.subs 31 2 0x100),
    .instr (.b .lt .memcpyBelow256)],
  rept (0x80 >>> CPU_L1D_LINE_BITS) 0x80 lineSize (fun offset =>
    [.op (.prfm 1 offset)]),
  -- Offset the destination pointer, and pre-calculate the size after the minimal copy.
  [.op (.add 0 0 0x70),
    .op (.sub 2 2 0x100),
    -- Load the first chunk.
    .op (.ldp 3 4 1 (.off 0x0)),
    .op (.ldp 5 6 1 (.off 0x10)),
    .op (.ldp 7 8 1 (.off 0x20)),
    .op (.ldp 9 10 1 (.off 0x30)),
    .op (.ldp 11 12 1 (.off 0x40)),
    .op (.ldp 13 14 1 (.off 0x50)),
    .op (.ldp 15 16 1 (.off 0x60)),
    .op (.ldp 17 18 1 (.pre 0x70))]]

/-- `memcpy_chunk128_loop`, and what stores the chunk that is left in the registers. -/
def memcpyChunk128LoopLines : List (Line MemcpyLabel) :=
  List.flatten [
  [.label .memcpyChunk128Loop,
    -- If it is still positive we will continue the loop after the next chunk is loaded.
    .op (.subs 2 2 0x80)],
  rept (0x80 >>> CPU_L1D_LINE_BITS) 0 lineSize (fun offset =>
    [.op (.prfm 0 (offset + 0x10)),
    .op (.prfm 1 (offset + 0x90))]),
  -- Interleave the stores and loads.
  [.op (.stp 3 4 0 (.off (-0x70))),
    .op (.ldp 3 4 1 (.off 0x10)),
    .op (.stp 5 6 0 (.off (-0x60))),
    .op (.ldp 5 6 1 (.off 0x20)),
    .op (.stp 7 8 0 (.off (-0x50))),
    .op (.ldp 7 8 1 (.off 0x30)),
    .op (.stp 9 10 0 (.off (-0x40))),
    .op (.ldp 9 10 1 (.off 0x40)),
    .op (.stp 11 12 0 (.off (-0x30))),
    .op (.ldp 11 12 1 (.off 0x50)),
    .op (.stp 13 14 0 (.off (-0x20))),
    .op (.ldp 13 14 1 (.off 0x60)),
    .op (.stp 15 16 0 (.off (-0x10))),
    .op (.ldp 15 16 1 (.off 0x70)),
    .op (.stp 17 18 0 (.post 0x80)),
    .op (.ldp 17 18 1 (.pre 0x80)),
    .instr (.b .ge .memcpyChunk128Loop)],
  rept (0x80 >>> CPU_L1D_LINE_BITS) 0 lineSize (fun offset =>
    [.op (.prfm 0 (offset + 0x10))]),
  -- The size has an offset of -128 at this point; undo it.
  [.op (.adds 2 2 0x80),
    -- Store the last chunk.
    .op (.stp 3 4 0 (.off (-0x70))),
    .op (.stp 5 6 0 (.off (-0x60))),
    .op (.stp 7 8 0 (.off (-0x50))),
    .op (.stp 9 10 0 (.off (-0x40))),
    .op (.stp 11 12 0 (.off (-0x30))),
    .op (.stp 13 14 0 (.off (-0x20))),
    .op (.stp 15 16 0 (.off (-0x10))),
    .op (.stp 17 18 0 (.off 0)),
    .instr (.b .eq .localReturn),
    -- There are 16-byte offsets on both pointers; undo them.
    .op (.add 0 0 16),
    .op (.add 1 1 16)]]

/-- `memcpy_below256`. -/
def memcpyBelow256Lines : List (Line MemcpyLabel) :=
  [.label .memcpyBelow256,
    .op (.subs 31 2 0x80),
    .instr (.b .lt .memcpyBelow128),
    .op (.ldp 3 4 1 (.off 0)),
    .op (.ldp 5 6 1 (.off 0x10)),
    .op (.ldp 7 8 1 (.off 0x20)),
    .op (.ldp 9 10 1 (.off 0x30)),
    .op (.stp 3 4 0 (.off 0)),
    .op (.ldp 11 12 1 (.off 0x40)),
    .op (.stp 5 6 0 (.off 0x10)),
    .op (.ldp 13 14 1 (.off 0x50)),
    .op (.stp 7 8 0 (.off 0x20)),
    .op (.ldp 15 16 1 (.off 0x60)),
    .op (.stp 9 10 0 (.off 0x30)),
    .op (.ldp 17 18 1 (.off 0x70)),
    .op (.stp 11 12 0 (.off 0x40)),
    .op (.stp 13 14 0 (.off 0x50)),
    .op (.stp 15 16 0 (.off 0x60)),
    .op (.stp 17 18 0 (.off 0x70)),
    .op (.add 0 0 0x80),
    .op (.add 1 1 0x80),
    .op (.sub 2 2 0x80)]

/-- `memcpy_below128`, to the end of the file's fast part. -/
def memcpyBelow128Lines : List (Line MemcpyLabel) :=
  [.label .memcpyBelow128,
    -- Up to 7 16-byte blocks are left: jump into an ldp sequence and then an stp sequence.
    .instr (.adr 3 (.one 8)),
    .op (.lsr 4 2 4),
    .op (.addReg 0 0 4 (.lsl 4)),
    .op (.subReg 3 3 4 (.lsl 2)),
    .op (.addReg 1 1 4 (.lsl 4)),
    .op (.subReg 2 2 4 (.lsl 4)),
    .instr (.br 3),
    .op (.ldp 5 6 1 (.off (-0x70))),
    .op (.ldp 7 8 1 (.off (-0x60))),
    .op (.ldp 9 10 1 (.off (-0x50))),
    .op (.ldp 11 12 1 (.off (-0x40))),
    .op (.ldp 13 14 1 (.off (-0x30))),
    .op (.ldp 15 16 1 (.off (-0x20))),
    .op (.ldp 17 18 1 (.off (-0x10))),
  .label (.one 8),
    .instr (.adr 3 (.one 9)),
    .op (.subReg 3 3 4 (.lsl 2)),
    .instr (.br 3),
    .op (.stp 5 6 0 (.off (-0x70))),
    .op (.stp 7 8 0 (.off (-0x60))),
    .op (.stp 9 10 0 (.off (-0x50))),
    .op (.stp 11 12 0 (.off (-0x40))),
    .op (.stp 13 14 0 (.off (-0x30))),
    .op (.stp 15 16 0 (.off (-0x20))),
    .op (.stp 17 18 0 (.off (-0x10))),
  .label (.one 9),
    -- There must be less than 16 bytes left now.
    .instr (.cbnz 2 .memcpyBelow16),
  .label .localReturn,
    .instr .ret]

/-- The listing. The first function has a section of its own; the others are chained. Only branches to labels
cross from one to the other, so nothing depends on where the sections are. -/
def memcpyLines : List (Line MemcpyLabel) :=
  memcpyBelow32Lines ++ memcpyAlignableLines ++ memcpyAlign16Lines ++ memcpyChunk128LoopLines ++
    memcpyBelow256Lines ++ memcpyBelow128Lines

def memcpyText : List (Instr Nat) := assemble memcpyLines

/-! ## `memcpy` -/

/-- `compiler_sizeof_object(ptr)`: nothing is known of an argument, and the built-in says so by its largest value. -/
def compilerSizeofObject : BitVec 64 := -1

/-- The entry that `memcpy(s1, s2, n)` calls, if it calls one. -/
def memcpyCallee (s1 n : BitVec 64) : Option MemcpyLabel :=
  if n = 0 then none
  else if n.ult 32 then some .memcpyBelow32
  else if s1 &&& 15 = 0 then some .memcpyAlign16
  else some .memcpyAlignable

/-- A call: the arguments are in the first registers. -/
def callText {L : Type} [DecidableEq L] (base : Addr) (lines : List (Line L)) (fuel : Nat) (entry : L)
    (s : Cpu) : Exec Cpu :=
  match run base (assemble lines) fuel (labelPos entry lines) s with
  | none => .error .diverged
  | some s' => .ok s'

/-- `memcpy(s1, s2, n)` with its assembly at `base`, for at most `fuel` instructions. -/
def memcpy (base : Addr) (fuel : Nat) (s : Cpu) (s1 s2 n : BitVec 64) : Exec (BitVec 64 × Cpu) := do
  cassert (n.ule compilerSizeofObject)
  cassert (n.ule compilerSizeofObject)
  match memcpyCallee s1 n with
  | none => pure (s1, s)
  | some entry => do
    let s' ← callText base memcpyLines fuel entry (((s.set 0 s1).set 1 s2).set 2 n)
    pure (s1, s')

/-- Each byte of memory is the low byte of its address. -/
def countingCpu : Cpu := ⟨fun _ => 0, ⟨false, false, false⟩, fun x => x.setWidth 8, []⟩

end GunyahRuntime
