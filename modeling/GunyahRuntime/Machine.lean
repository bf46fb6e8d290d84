/-
# GunyahRuntime.Machine -- what the C code computes with

The runtime is freestanding C for AArch64: `register_t`, `size_t` and `uintptr_t` have 64 bits,
`index_t` and `count_t` have 32. Machine words are natural numbers below their width, and every
operation that can leave the width is followed by `u32` or `u64` (subtraction by `sub32` or `sub64`),
so that the wrap-around of unsigned arithmetic is in the model wherever the source has it.

A run that does not return ends in a `Fault`: a failed `assert`, an access outside an object, or a
loop that never leaves.
-/
import Mathlib.Tactic

namespace GunyahRuntime

/-- What ends a run before it returns. -/
inductive Fault where
  /-- `assert_failed` (`assert.h`): the runtime logs and panics. -/
  | assertion
  /-- A load outside the object it is made to. -/
  | badRead
  /-- A store outside the object it is made to. -/
  | badWrite
  /-- A loop that never leaves. -/
  | diverged
  deriving DecidableEq, Repr

/-- A computation of the runtime: a value, or the fault that ended it. -/
abbrev Exec (α : Type) : Type := Except Fault α

/-- `assert(x)`. -/
def cassert (x : Bool) : Exec Unit :=
  if x then .ok () else .error .assertion

@[simp] theorem cassert_true : cassert true = .ok () := rfl

@[simp] theorem cassert_false : cassert false = .error .assertion := rfl

theorem ok_bind {α β : Type} (a : α) (f : α → Exec β) : ((.ok a : Exec α) >>= f) = f a := rfl

theorem error_bind {α β : Type} (e : Fault) (f : α → Exec β) :
    ((.error e : Exec α) >>= f) = .error e := rfl

theorem pure_ok {α : Type} (a : α) : (pure a : Exec α) = .ok a := rfl

/-- A sequence returns exactly when both halves do. -/
theorem bind_eq_ok {α β : Type} {x : Exec α} {f : α → Exec β} {b : β} :
    (x >>= f) = .ok b ↔ ∃ a, x = .ok a ∧ f a = .ok b := by
  cases x with
  | error e => simp [error_bind]
  | ok a => simp [ok_bind]

/-- A sequence faults in its first half or in its second. -/
theorem bind_eq_error {α β : Type} {x : Exec α} {f : α → Exec β} {e : Fault} :
    (x >>= f) = .error e ↔ x = .error e ∨ ∃ a, x = .ok a ∧ f a = .error e := by
  cases x with
  | error e' => simp [error_bind]
  | ok a => simp [ok_bind]

/-- A sequence of total steps is total. -/
theorem bind_total {α β : Type} {x : Exec α} {f : α → Exec β} (hx : ∃ a, x = .ok a)
    (hf : ∀ a, ∃ b, f a = .ok b) : ∃ b, (x >>= f) = .ok b := by
  obtain ⟨a, rfl⟩ := hx
  exact hf a

theorem toOption_eq_some {α : Type} {x : Exec α} {a : α} : x.toOption = some a ↔ x = .ok a := by
  cases x <;> simp [Except.toOption]

/-! ## Unsigned arithmetic -/

/-- Conversion to a 32-bit unsigned type (`index_t`, `count_t`, `uint32_t`). -/
def u32 (n : Nat) : Nat := n % 4294967296

/-- Conversion to a 64-bit unsigned type (`size_t`, `uintptr_t`, `uint64_t`). -/
def u64 (n : Nat) : Nat := n % 18446744073709551616

/-- 32-bit subtraction. -/
def sub32 (a b : Nat) : Nat := (a + 4294967296 - b) % 4294967296

/-- 64-bit subtraction. -/
def sub64 (a b : Nat) : Nat := (a + 18446744073709551616 - b) % 18446744073709551616

theorem u32_of_lt {n : Nat} (h : n < 4294967296) : u32 n = n := Nat.mod_eq_of_lt h

theorem u64_of_lt {n : Nat} (h : n < 18446744073709551616) : u64 n = n := Nat.mod_eq_of_lt h

theorem u32_lt (n : Nat) : u32 n < 4294967296 := Nat.mod_lt _ (by norm_num)

theorem u64_lt (n : Nat) : u64 n < 18446744073709551616 := Nat.mod_lt _ (by norm_num)

theorem sub32_of_le {a b : Nat} (h : b ≤ a) (ha : a < 4294967296) : sub32 a b = a - b := by
  unfold sub32; omega

theorem sub64_of_le {a b : Nat} (h : b ≤ a) (ha : a < 18446744073709551616) :
    sub64 a b = a - b := by
  unfold sub64; omega

theorem sub64_lt (a b : Nat) : sub64 a b < 18446744073709551616 := Nat.mod_lt _ (by norm_num)

/-- The signed reading of a 64-bit word (`(int64_t)x`, `(intptr_t)x`). -/
def toInt64 (x : Nat) : Int :=
  if x < 9223372036854775808 then (x : Int) else (x : Int) - 18446744073709551616

/-- A signed result fits its 64-bit type. -/
def InInt64 (v : Int) : Prop := -9223372036854775808 ≤ v ∧ v < 9223372036854775808

theorem inInt64_of_lt {n : Nat} (h : n < 9223372036854775808) : InInt64 (n : Int) := by
  unfold InInt64
  omega

theorem toInt64_of_lt {x : Nat} (h : x < 9223372036854775808) : toInt64 x = (x : Int) := by
  simp [toInt64, h]

/-! ## `util.h` -/

/-- `util_max(x, y)`. -/
def utilMax (x y : Nat) : Nat := if x > y then x else y

/-- `util_min(x, y)`. -/
def utilMin (x y : Nat) : Nat := if x < y then x else y

theorem utilMax_eq (x y : Nat) : utilMax x y = max x y := by
  unfold utilMax; split <;> omega

theorem utilMin_eq (x y : Nat) : utilMin x y = min x y := by
  unfold utilMin; split <;> omega

/-- `OK`, of `error_t` (`guest_types.h`). -/
def OK : Int := 0

/-! ## `errno.h` -/

def ENOENT : Int := 2
def EINTR : Int := 4
def E2BIG : Int := 7
def EBADF : Int := 9
def ENOMEM : Int := 12
def EBUSY : Int := 16
def EINVAL : Int := 22
def ENFILE : Int := 23
def ENOSYS : Int := 38

end GunyahRuntime
