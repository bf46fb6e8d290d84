/-
# GunyahRuntime.Str.Snprint -- `snprint` (`string_util.c`, second half)

`snprint` goes through the format descriptor by descriptor: the literal characters before the
descriptor are copied, the next argument is rendered into the room that is left, and the write pointer
steps over both. The buffer object has exactly the `size` bytes the caller passes, and a store outside
it is a fault. The format, the string arguments and the buffer are distinct objects; a string argument
is an address, zero for `NULL`, and `strs` is what stands at the addresses.
-/
import GunyahRuntime.Str.Number

namespace GunyahRuntime

/-! ## Strings -/

/-- `slen`, limited by the precision if there is one. -/
def strLen (s : CString) (info : FmtInfo) : Nat :=
  if info.precise ≠ 0 then utilMin s.strlen info.precise else s.strlen

/-- The padding counts of `stringtoa`, left and right. -/
def strPads (info : FmtInfo) (slen : Nat) : Nat × Nat :=
  let paddingCnt := sub64 (utilMax slen info.minWidth) slen
  match info.alignment with
  | .left => (paddingCnt, 0)
  | .right => (0, paddingCnt)
  | .center => (paddingCnt / 2, sub64 paddingCnt (paddingCnt / 2))
  | _ => (paddingCnt, 0)

/-- `if (p > 0UL) { memset(pos, c, p); }`. -/
def memsetSome (mem : List UInt8) (pos : Nat) (c : UInt8) (p : Nat) : Exec (List UInt8) :=
  if p > 0 then storeBytes mem pos (List.replicate p c) else .ok mem

/-- A stretch of fill characters, as many as there is room for. -/
def fillSome (c : UInt8) (len : Nat) (o : OutBuf) : Exec (OutBuf × Int) := do
  let p := utilMin len o.cur.room
  let mem ← memsetSome o.cur.mem o.cur.pos c p
  let o : OutBuf := { o with cur := ⟨mem, o.cur.pos + p, sub64 o.cur.room p⟩ }
  return (o, o.status)

/-- The characters of the string, as many as there is room for. -/
def copySome (s : CString) (slen : Nat) (o : OutBuf) : Exec (OutBuf × Int) := do
  let (mem, p) ← memscpy o.cur.mem o.cur.pos o.cur.room s.chars 0 slen
  let o : OutBuf := { o with cur := ⟨mem, o.cur.pos + p, sub64 o.cur.room p⟩ }
  return (o, o.status)

/-- `stringtoa(buf, size, val_str, info)`. -/
def stringtoa (strs : Nat → CString) (o : OutBuf) (valStr : Nat) (info : FmtInfo) :
    Exec (OutBuf × Int) :=
  if valStr = 0 then
    .ok (o, ERROR_STRING_MISSING_ARGUMENT)
  else
    let s := strs valStr
    let slen := strLen s info
    let (left, right) := strPads info slen
    let c := paddingChar info ' '.toUInt8
    andThen (fillSome c left) (andThen (copySome s slen) (fillSome c right)) o

/-! ## `gen_str` and `snprint` -/

/-- The switch of `gen_str` on the type. -/
def genArg (strs : Nat → CString) (o : OutBuf) (info : FmtInfo) (arg : UInt64) :
    Exec (OutBuf × Int) :=
  match info.type with
  | .bin => itoa o arg.toNat 2 info true
  | .dec => sitoa o arg.toNat 10 info
  | .octal => itoa o arg.toNat 8 info true
  | .lowHex => itoa o arg.toNat 16 info true
  | .string => stringtoa strs o arg.toNat info
  | .none => .ok (o, ERROR_STRING_INVALID_FORMAT)

/-- `gen_str(buf, size, info, arg, len)`: the last component is what is stored to `*len`. -/
def genStr (strs : Nat → CString) (o : OutBuf) (info : FmtInfo) (arg : UInt64) :
    Exec (OutBuf × Int × Nat) := do
  let (o', ret) ← genArg strs o info arg
  return (o', ret, sub64 o.cur.room o'.cur.room)

/-- `MAX_ARG_CNT`. -/
def MAX_ARG_CNT : Nat := 5

/-- What `snprint` does with the answer of `gen_str`: the buffer steps over a rendering that succeeded,
and stays where it was after one that did not. -/
def settle (o o' : OutBuf) (ret : Int) (consumedLen : Nat) : Exec (OutBuf × Int) :=
  if ret = OK then do
    cassert (consumedLen ≤ o.cur.room)
    return ({ o' with cur :=
      ⟨o'.cur.mem, o.cur.pos + consumedLen, sub64 o.cur.room consumedLen⟩ }, ret)
  else
    .ok ({ o' with cur := ⟨o'.cur.mem, o.cur.pos, o.cur.room⟩ }, ret)

/-- The descriptor's part of one pass of `snprint`. -/
def snprintField (strs : Nat → CString) (args : Vector UInt64 MAX_ARG_CNT) (argIdx : Nat)
    (info : FmtInfo) (o : OutBuf) : Exec (OutBuf × Int) :=
  if info.type = .none then
    .ok (o, OK)
  else
    match args[argIdx]? with
    | none => .ok (o, ERROR_STRING_MISSING_PLACEHOLDER)
    | some arg => do
      let (o', ret, consumedLen) ← genStr strs o info arg
      settle o o' ret consumedLen

/-- The literal's part: copied, and refused if it did not fit. -/
def snprintLiteral (format : CString) (fmt literalLen : Nat) (o : OutBuf) : Exec (OutBuf × Int) := do
  let (mem, _) ← memscpy o.cur.mem o.cur.pos o.cur.room format.chars fmt literalLen
  -- a truncated copy does not move the pointer
  if literalLen > o.cur.room then
    return ({ o with cur.mem := mem }, ERROR_STRING_TRUNCATED)
  else
    return ({ o with cur :=
      ⟨mem, o.cur.pos + literalLen, sub64 o.cur.room literalLen⟩ }, OK)

/-- The loop of `snprint`. The first bound is for each scan of the format, the second for the passes
of the loop itself. -/
def snprintLoop (scans : Nat) (strs : Nat → CString) (format : CString)
    (args : Vector UInt64 MAX_ARG_CNT) : Nat → OutBuf → Nat → Nat → Exec (OutBuf × Int)
  | 0, o, _, _ => if o.cur.room = 0 then .ok (o, OK) else .error .diverged
  | fuel + 1, o, fmt, argIdx =>
    if o.cur.room = 0 then .ok (o, OK)
    else do
      let r ← getNextFmt scans format fmt
      if r.ret ≠ OK then
        return (o, r.ret)
      else
        let (o, ret) ← andThen (snprintLiteral format fmt r.literalLen)
          (snprintField strs args argIdx r.info) o
        if r.atEnd ∨ ret ≠ OK then
          return (o, ret)
        else
          snprintLoop scans strs format args fuel o (fmt + r.consumedLen)
            (if r.info.type = .none then argIdx else argIdx + 1)

/-- What a call of `snprint` leaves: the buffer, and the `size_result_t`. -/
structure Printed where
  mem : List UInt8
  e : Int
  r : Nat
  padsInside : Bool

/-- `snprint(str, size, format, arg0, …, arg4)`, with `size` the length of the buffer. -/
def snprint (fuel : Nat) (strs : Nat → CString) (str : List UInt8) (format : CString)
    (args : Vector UInt64 MAX_ARG_CNT) : Exec Printed := do
  let size := str.length
  let (o, ret) ←
    snprintLoop fuel strs format args fuel ⟨⟨str, 0, sub64 size 1⟩, true⟩ 0 0
  let mem ← storeByte o.cur.mem o.cur.pos 0
  return ⟨mem, ret, if ret ≠ ERROR_STRING_TRUNCATED then sub64 (sub64 size 1) o.cur.room else size,
    o.padsInside⟩

end GunyahRuntime
