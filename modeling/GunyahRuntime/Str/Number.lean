/-
# GunyahRuntime.Str.Number -- writing a number (`itoa` of `string_util.c`)

`itoa` writes a number backwards: the digits from the lowest, padding, the prefix, padding, the sign
and the padding that will stand on the left. Then it reverses what it wrote and pads on the right.
Every piece up to the sign checks the room that is left; the padding on the left does not, and the
padding on the right runs with whatever is left, which may be nothing.

`OutBuf` is the output buffer with the write pointer and the `remaining` counter. Its flag
`padsInside` is not in the source: it records whether every call of `padding` with something to write
had room, so that the fact can be stated.
-/
import GunyahRuntime.Str.Format
import GunyahRuntime.Lib.Cursor

namespace GunyahRuntime

open Lib (Cursor)

structure OutBuf where
  cur : Cursor UInt8
  padsInside : Bool

namespace OutBuf

/-- `*pos = c; pos++; remaining--;`. -/
def emit (o : OutBuf) (c : UInt8) : Exec OutBuf := do
  let mem ← storeByte o.cur.mem o.cur.pos c
  return { o with cur := ⟨mem, o.cur.pos + 1, sub64 o.cur.room 1⟩ }

/-- Write the front of a text that there is room for. -/
def put (o : OutBuf) (l : List UInt8) : OutBuf := { o with cur := o.cur.put l }

/-- `(remaining == 0U) ? ERROR_STRING_TRUNCATED : OK`. -/
def status (o : OutBuf) : Int := if o.cur.room = 0 then ERROR_STRING_TRUNCATED else OK

end OutBuf

/-- `padding(buf, size, fill_char, len)`. The count of what is left is tested after it is decremented,
so a `size` of zero does not stop the loop. -/
def padding (mem : List UInt8) (buf size : Nat) (fillChar : UInt8) : Nat → Exec (List UInt8 × Nat)
  | 0 => .ok (mem, 0)
  | len + 1 => do
    let mem ← storeByte mem buf fillChar
    if sub64 size 1 = 0 then
      return (mem, 1)
    else
      let (mem, ret) ← padding mem (buf + 1) (sub64 size 1) fillChar len
      return (mem, ret + 1)

/-- `padding_ret = padding(pos, remaining, c, len); pos += padding_ret; remaining -= padding_ret;`. -/
def padAt (o : OutBuf) (fillChar : UInt8) (len : Nat) : Exec (OutBuf × Nat) := do
  let (mem, ret) ← padding o.cur.mem o.cur.pos o.cur.room fillChar len
  return (⟨⟨mem, o.cur.pos + ret, sub64 o.cur.room ret⟩,
    o.padsInside && (len == 0 || o.cur.room != 0)⟩, ret)

/-- Does the sign mode show a sign? (`itoa` leaves a place for it out of the padding.) -/
def showsSign (info : FmtInfo) (positive : Bool) : Bool :=
  info.sign = .both ∨ info.sign = .posLeading ∨ (info.sign = .neg ∧ ¬ positive)

/-- `padding_cnt`: the two subtractions are not guarded by its size. -/
def paddingCnt (info : FmtInfo) (base : Nat) (positive : Bool) (contentCnt : Nat) : Nat :=
  let cnt := sub64 (utilMax info.minWidth contentCnt) contentCnt
  let cnt := if cnt > 0 ∧ info.alternateForm ∧ base ≠ 10 then sub64 cnt 2 else cnt
  if cnt > 0 ∧ showsSign info positive then sub64 cnt 1 else cnt

/-- The four padding counts and the padding character. -/
structure Pads where
  left : Nat
  right : Nat
  afterSign : Nat
  afterPrefix : Nat
  char : UInt8

/-- `padding_char = info->fill_char`, if an alignment was given and a character with it. -/
def paddingChar (info : FmtInfo) (char : UInt8) : UInt8 :=
  if info.alignment ≠ .default ∧ info.fillChar ≠ 0 then info.fillChar else char

/-- The counts, from the switch on the alignment. -/
def itoaPads (info : FmtInfo) (base : Nat) (positive : Bool) (contentCnt : Nat) : Pads :=
  let cnt := paddingCnt info base positive contentCnt
  let char := paddingChar info (if info.zeroPadding then '0'.toUInt8 else ' '.toUInt8)
  match info.alignment with
  | .afterSign => ⟨0, 0, cnt, 0, char⟩
  | .left => ⟨0, cnt, 0, 0, char⟩
  | .right => ⟨cnt, 0, 0, 0, char⟩
  | .center => ⟨cnt / 2, sub64 cnt (cnt / 2), 0, 0, char⟩
  | .default => if info.zeroPadding then ⟨0, 0, 0, cnt, char⟩ else ⟨cnt, 0, 0, 0, char⟩

/-- The counts before they are set, as a number whose digits do not fit leaves them. -/
def Pads.unset : Pads := ⟨0, 0, 0, 0, ' '.toUInt8⟩

/-- `digit[i]`. -/
def digitAt (i : Nat) : UInt8 := (Nat.digitChar i).toUInt8

/-- The digit loop, from the lowest. A 64-bit value has at most 64 digits. -/
def itoaDigits (base : Nat) : Nat → OutBuf → Nat → Nat → Exec (OutBuf × Int × Nat)
  | 0, _, _, _ => .error .diverged
  | fuel + 1, o, val, contentCnt => do
    let o ← o.emit (digitAt (val % base))
    if o.cur.room = 0 then
      return (o, ERROR_STRING_TRUNCATED, contentCnt + 1)
    else if val / base ≠ 0 then
      itoaDigits base fuel o (val / base) (contentCnt + 1)
    else
      return (o, OK, contentCnt + 1)

/-- The letter of a base that has one. -/
def baseLetter (base : Nat) : Option UInt8 :=
  match base with
  | 2 => some 'b'.toUInt8
  | 8 => some 'o'.toUInt8
  | 16 => some 'x'.toUInt8
  | _ => none

/-- `itoa_insert_base(base, remaining, pos_ptr)`. -/
def itoaInsertBase (base : Nat) (o : OutBuf) : Exec (OutBuf × Int) :=
  match baseLetter base with
  | none => .ok (o, o.status)
  | some c => do
    let o ← o.emit c
    if o.cur.room = 0 then
      return (o, ERROR_STRING_TRUNCATED)
    else
      let o ← o.emit '0'.toUInt8
      return (o, o.status)

/-- The sign character, if one is written. -/
def signChar (info : FmtInfo) (positive : Bool) : Option UInt8 :=
  match info.sign with
  | .both => some (if positive then '+'.toUInt8 else '-'.toUInt8)
  | .posLeading => some (if positive then ' '.toUInt8 else '-'.toUInt8)
  | .neg => if positive then none else some '-'.toUInt8

/-- `itoa_insert_sign(info, positive, remaining, pos_ptr)`. -/
def itoaInsertSign (info : FmtInfo) (positive : Bool) (o : OutBuf) : Exec (OutBuf × Int) :=
  match signChar info positive with
  | none => .ok (o, o.status)
  | some c => do
    let o ← o.emit c
    return (o, o.status)

/-- A padding that is checked: `if ((remaining == 0U) || (padding_ret < len))`. -/
def padChecked (fillChar : UInt8) (len : Nat) (o : OutBuf) : Exec (OutBuf × Int) := do
  let (o, ret) ← padAt o fillChar len
  return (o, if o.cur.room = 0 ∨ ret < len then ERROR_STRING_TRUNCATED else OK)

/-- The last padding before the reversal, which is not checked. -/
def padLeft (fillChar : UInt8) (len : Nat) (o : OutBuf) : Exec (OutBuf × Int) := do
  let (o, _) ← padAt o fillChar len
  return (o, OK)

/-- `if (info->alternate_form) { ret = itoa_insert_base(…); }`. -/
def insertPrefix (info : FmtInfo) (base : Nat) (o : OutBuf) : Exec (OutBuf × Int) :=
  if info.alternateForm then itoaInsertBase base o else .ok (o, OK)

/-- One piece, then the next unless the first ended in a `goto`. -/
def andThen (f g : OutBuf → Exec (OutBuf × Int)) (o : OutBuf) : Exec (OutBuf × Int) := do
  let (o, ret) ← f o
  if ret ≠ OK then return (o, ret) else g o

/-- The pieces between the digits and the left padding. -/
def itoaMiddle (info : FmtInfo) (base : Nat) (positive : Bool) (pads : Pads) :
    OutBuf → Exec (OutBuf × Int) :=
  andThen (padChecked pads.char pads.afterPrefix) <|
    andThen (insertPrefix info base) <|
      andThen (padChecked pads.char pads.afterSign) <| itoaInsertSign info positive

/-- One exchange of the reversal: the buffer and the two pointers. -/
def reversePass (s : List UInt8 × Nat × Nat) : Exec (List UInt8 × Nat × Nat ⊕ List UInt8) :=
  let (mem, buf, pos) := s
  if buf < pos then do
    let tmp ← loadByte mem buf
    let last ← loadByte mem pos
    let mem ← storeByte mem buf last
    let mem ← storeByte mem pos tmp
    return .inl (mem, buf + 1, pos - 1)
  else
    .ok (.inr mem)

/-- The loop at `reverse_out`, from `buf` to `pos`. -/
def reverse (mem : List UInt8) (buf pos : Nat) : Exec (List UInt8) :=
  Lib.iterate .diverged reversePass (pos + 1) (mem, buf, pos)

/-- From `reverse_out` on: what stands from `buf` on is reversed, and padded on the right. -/
def reverseOut (buf : Nat) (o : OutBuf) (pads : Pads) : Exec OutBuf := do
  let mem ← reverse o.cur.mem buf (o.cur.pos - 1)
  let (o, _) ← padAt { o with cur.mem := mem } pads.char pads.right
  return o

/-- After the digits: the counts, and the pieces up to `reverse_out`. -/
def itoaPieces (base : Nat) (info : FmtInfo) (positive : Bool) (o : OutBuf) (contentCnt : Nat) :
    Exec (OutBuf × Int × Pads) := do
  let pads := itoaPads info base positive contentCnt
  let (o, ret) ← andThen (itoaMiddle info base positive pads) (padLeft pads.char pads.left) o
  return (o, ret, pads)

/-- `itoa(buf, size, val, base, info, positive)`: `buf` is the place of the buffer, `*size` its
room, and both are what the result leaves. -/
def itoa (o : OutBuf) (val base : Nat) (info : FmtInfo) (positive : Bool) :
    Exec (OutBuf × Int) := do
  cassert (base ≤ 16)
  if o.cur.room = 0 then
    return (o, ERROR_STRING_TRUNCATED)
  else
    let buf := o.cur.pos
    let (o, ret, contentCnt) ← itoaDigits base 64 o val 0
    if ret ≠ OK then
      -- the digits that there was room for are reversed all the same
      let o ← reverseOut buf o Pads.unset
      return (o, ret)
    else
      let (o, ret, pads) ← itoaPieces base info positive o contentCnt
      let o ← reverseOut buf o pads
      return (o, ret)

/-- `sitoa(buf, size, val, base, info)`, on the register that holds `val`. The negation is that of the
machine: it takes the least value to itself. -/
def sitoa (o : OutBuf) (val base : Nat) (info : FmtInfo) : Exec (OutBuf × Int) :=
  if toInt64 val < 0 then itoa o (sub64 0 val) base info false
  else itoa o val base info true

end GunyahRuntime
