/-
# GunyahRuntime.Memory -- objects of bytes and the copies between them

A C object of bytes (a buffer, a message, a string) is the list of its bytes. Loads and stores are
checked against its length: what the C standard leaves undefined is a fault here, so "stays inside
the buffer" is a property a run has or lacks, not an assumption of the model.
-/
import GunyahRuntime.Machine
import GunyahRuntime.Lib.Patch

namespace GunyahRuntime

open Lib (patch)

/-- Read `n` bytes of an object from offset `off`. -/
def loadBytes (obj : List UInt8) (off n : Nat) : Exec (List UInt8) :=
  if off + n ≤ obj.length then .ok ((obj.drop off).take n) else .error .badRead

/-- Write `bs` over an object from offset `off`. -/
def storeBytes (obj : List UInt8) (off : Nat) (bs : List UInt8) : Exec (List UInt8) :=
  if off + bs.length ≤ obj.length then .ok (patch obj off bs) else .error .badWrite

/-- `obj[off]`. -/
def loadByte (obj : List UInt8) (off : Nat) : Exec UInt8 :=
  match obj[off]? with
  | some b => .ok b
  | none => .error .badRead

/-- `obj[off] = b`. -/
def storeByte (obj : List UInt8) (off : Nat) (b : UInt8) : Exec (List UInt8) :=
  storeBytes obj off [b]

/-- `memscpy(s1, s1_size, s2, s2_size)` (`string.c`) from offset `src` of one object to offset `dst`
of another: the bytes copied, and how many. -/
def memscpy (s1 : List UInt8) (dst s1Size : Nat) (s2 : List UInt8) (src s2Size : Nat) :
    Exec (List UInt8 × Nat) :=
  let copySize := utilMin s1Size s2Size
  if copySize ≠ 0 then do
    let bs ← loadBytes s2 src copySize
    let s1' ← storeBytes s1 dst bs
    return (s1', copySize)
  else
    .ok (s1, copySize)

theorem loadBytes_ok {obj : List UInt8} {off n : Nat} (h : off + n ≤ obj.length) :
    loadBytes obj off n = .ok ((obj.drop off).take n) := if_pos h

theorem loadByte_ok {obj : List UInt8} {off : Nat} {b : UInt8} (h : obj[off]? = some b) :
    loadByte obj off = .ok b := by
  rw [loadByte, h]

theorem storeBytes_ok {obj bs : List UInt8} {off : Nat} (h : off + bs.length ≤ obj.length) :
    storeBytes obj off bs = .ok (patch obj off bs) := if_pos h

theorem storeByte_ok {obj : List UInt8} {off : Nat} {b : UInt8} (h : off < obj.length) :
    storeByte obj off b = .ok (patch obj off [b]) := if_pos h

/-- **`memscpy` copies the shorter of the two.** With the source and the destination inside their
objects, it patches the destination with the first `min` bytes of the source. -/
theorem memscpy_ok (s1 : List UInt8) (dst s1Size : Nat) (s2 : List UInt8) (src s2Size : Nat)
    (hdst : dst + s1Size ≤ s1.length) (hsrc : src + s2Size ≤ s2.length) :
    memscpy s1 dst s1Size s2 src s2Size =
      .ok (patch s1 dst ((s2.drop src).take (min s1Size s2Size)), min s1Size s2Size) := by
  have hlen : ((s2.drop src).take (min s1Size s2Size)).length = min s1Size s2Size := by
    rw [List.length_take, List.length_drop]; omega
  simp only [memscpy, utilMin_eq]
  by_cases h : min s1Size s2Size = 0
  · simp [h]
  · rw [if_pos h, loadBytes_ok (by omega), ok_bind, storeBytes_ok (by omega)]
    rfl

end GunyahRuntime
