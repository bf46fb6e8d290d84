/-
# GunyahRuntime.Console -- the console slot and its prefix (`console.c`)

The application registers a callback, and may set a prefix of up to fifteen characters that stands
before each line. `console_write` gives a `NULL` message the meaning "print the prefix", so that the
line discipline can ask for it; a caller that passes on a `NULL` of its own gets the prefix too.

What the callback is called with is recorded, in order: it is what the console shows.
-/
import GunyahRuntime.Memory
import GunyahRuntime.Str.Format

namespace GunyahRuntime

/-- The statics of `console.c`. -/
structure Console where
  /-- The callback, zero for `NULL`. -/
  console : Nat
  /-- `prefix[16]`. -/
  prefixBuf : List UInt8
  prefixLen : Int
  /-- What the callback has been called with. -/
  sent : List UInt8

/-- A call of the callback. -/
def Console.send (c : Console) (msg : List UInt8) : Console := { c with sent := c.sent ++ msg }

/-- `console_write(msg, sz)`, with `none` for a `NULL` message and the `sz` bytes for another. -/
def consoleWrite (c : Console) (msg : Option (List UInt8)) : Exec Console :=
  if c.console ≠ 0 then
    match msg with
    | none =>
      if c.prefixLen > 0 then do
        let bytes ← loadBytes c.prefixBuf 0 c.prefixLen.toNat
        return c.send bytes
      else
        .ok c
    | some bytes => .ok (c.send bytes)
  else
    .ok c

/-- `strscpy(dest, str, count)` (`string.c`), for a destination of `count` bytes. -/
def strscpy (dest : List UInt8) (str : CString) : List UInt8 × Int :=
  let count := dest.length
  if count = 0 then (dest, -E2BIG)
  else
    let n := utilMin str.strlen (count - 1)
    (Lib.patch dest 0 (str.chars.take n ++ [0]), if n < str.strlen then -E2BIG else n)

/-- `IOCTL_SET_PREFIX_CONSOLE`. -/
def consoleSetPrefix (c : Console) (prefixText : CString) : Int × Console :=
  let (prefixBuf, prefixLen) := strscpy c.prefixBuf prefixText
  if prefixLen < 0 then (prefixLen, { c with prefixBuf, prefixLen := 0 })
  else (0, { c with prefixBuf, prefixLen })

/-- `console_register(new_console)`. -/
def consoleRegister (c : Console) (newConsole : Nat) : Int × Console :=
  if c.console ≠ 0 then (-EBUSY, c) else (0, { c with console := newConsole })

/-- `console_deregister()`. -/
def consoleDeregister (c : Console) : Int × Console :=
  if c.console = 0 then (-ENOENT, c) else (0, { c with console := 0 })

/-- A registered console whose prefix lies in its buffer. -/
structure Console.Ok (c : Console) : Prop where
  registered : c.console ≠ 0
  length : c.prefixBuf.length = 16
  fits : c.prefixLen ≤ 15

/-- The prefix a console prints. -/
def Console.linePrefix (c : Console) : List UInt8 := c.prefixBuf.take c.prefixLen.toNat

/-- A copy keeps the length of its destination and answers with less than it. -/
theorem strscpy_fits {dest : List UInt8} (hlen : dest.length ≠ 0) (str : CString) :
    (strscpy dest str).1.length = dest.length ∧ (strscpy dest str).2 < dest.length := by
  have hn : utilMin str.strlen (dest.length - 1) ≤ dest.length - 1 := by
    rw [utilMin_eq]; exact Nat.min_le_right _ _
  unfold strscpy
  dsimp only
  rw [if_neg hlen]
  dsimp only
  constructor
  · apply Lib.length_patch
    rw [List.length_append, List.length_take, List.length_singleton]
    omega
  · unfold E2BIG
    split <;> omega

/-- The prefix is printed, and nothing if there is none. -/
theorem Console.Ok.write_null {c : Console} (h : c.Ok) :
    consoleWrite c none = .ok (c.send c.linePrefix) := by
  have hlen := h.length
  have hfits := h.fits
  unfold consoleWrite
  rw [if_pos h.registered]
  dsimp only
  by_cases hpos : c.prefixLen > 0
  · rw [if_pos hpos, loadBytes_ok (by omega), ok_bind, pure_ok, List.drop_zero]
    rfl
  · have hnil : c.linePrefix = [] := by
      unfold Console.linePrefix
      rw [show c.prefixLen.toNat = 0 by omega, List.take_zero]
    rw [if_neg hpos, hnil, Console.send, List.append_nil]

theorem Console.Ok.write_some {c : Console} (h : c.Ok) (bytes : List UInt8) :
    consoleWrite c (some bytes) = .ok (c.send bytes) := if_pos h.registered

theorem Console.Ok.send {c : Console} (h : c.Ok) (bytes : List UInt8) : (c.send bytes).Ok :=
  ⟨h.registered, h.length, h.fits⟩

end GunyahRuntime
