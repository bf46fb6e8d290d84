/-
# GunyahRuntime.Lib.Cursor -- writing a text into a buffer with limited room

A cursor is a buffer, the place to write next, and how many elements may still be written. Putting a
text writes as much of its front as there is room for. The algebra is that of a monoid action which
stops: putting two texts one after the other is putting their concatenation, and once the room is gone
nothing that follows matters. Nothing here names a program.
-/
import GunyahRuntime.Lib.Patch

namespace GunyahRuntime.Lib

variable {α : Type*}

/-- A buffer with a place to write and the room left there. -/
structure Cursor (α : Type*) where
  mem : List α
  pos : Nat
  room : Nat

namespace Cursor

/-- The room lies inside the buffer, and one more element after it. -/
def Ok (c : Cursor α) : Prop := c.pos + c.room < c.mem.length

/-- Write the front of `l` that there is room for. -/
def put (c : Cursor α) (l : List α) : Cursor α where
  mem := patch c.mem c.pos (l.take c.room)
  pos := c.pos + min l.length c.room
  room := c.room - l.length

@[simp] theorem room_put (c : Cursor α) (l : List α) : (c.put l).room = c.room - l.length := rfl

@[simp] theorem pos_put (c : Cursor α) (l : List α) :
    (c.put l).pos = c.pos + min l.length c.room := rfl

theorem mem_put (c : Cursor α) (l : List α) :
    (c.put l).mem = patch c.mem c.pos (l.take c.room) := rfl

variable {c : Cursor α}

theorem Ok.fits (h : c.Ok) (l : List α) : c.pos + (l.take c.room).length ≤ c.mem.length := by
  unfold Ok at h
  rw [List.length_take]
  omega

theorem Ok.length_put (h : c.Ok) (l : List α) : (c.put l).mem.length = c.mem.length :=
  length_patch (h.fits l)

/-- The end of the room does not move while there is room. -/
theorem end_put (c : Cursor α) (l : List α) :
    (c.put l).pos + (c.put l).room = c.pos + c.room := by
  rw [pos_put, room_put]
  omega

@[simp] theorem put_nil (c : Cursor α) : c.put [] = c := by
  cases c
  simp [Cursor.put]

/-- Only what there is room for matters. -/
theorem put_take (c : Cursor α) (l : List α) : c.put (l.take c.room) = c.put l := by
  simp only [Cursor.put, List.take_take, List.length_take, Nat.min_self]
  congr 1 <;> omega

/-- With no room nothing is written. -/
theorem put_of_full (h : c.room = 0) (l : List α) : c.put l = c := by
  cases c
  simp only at h
  subst h
  simp [Cursor.put]

/-- **Putting is an action**: one text after the other is their concatenation. -/
theorem Ok.put_put (h : c.Ok) (l m : List α) : (c.put l).put m = c.put (l ++ m) := by
  have hfit : c.pos + (l.take c.room).length + (m.take (c.room - l.length)).length ≤
      c.mem.length := by
    unfold Ok at h
    rw [List.length_take, List.length_take]
    omega
  have hpos : c.pos + min l.length c.room = c.pos + (l.take c.room).length := by
    rw [List.length_take, Nat.min_comm]
  have hmem : ((c.put l).put m).mem = (c.put (l ++ m)).mem := by
    rw [mem_put, mem_put, mem_put, room_put, pos_put, hpos, patch_patch_append hfit,
      List.take_append]
  have hend : ((c.put l).put m).pos = (c.put (l ++ m)).pos := by
    simp only [pos_put, room_put, List.length_append]
    omega
  have hroom : ((c.put l).put m).room = (c.put (l ++ m)).room := by
    simp only [room_put, List.length_append]
    omega
  calc (c.put l).put m
      = ⟨((c.put l).put m).mem, ((c.put l).put m).pos, ((c.put l).put m).room⟩ := rfl
    _ = c.put (l ++ m) := by rw [hmem, hend, hroom]

/-- Once a text has used up the room, what follows it does not matter. -/
theorem Ok.put_append_of_full (h : c.Ok) {l : List α} (hl : c.room ≤ l.length) (m : List α) :
    c.put (l ++ m) = c.put l := by
  rw [← h.put_put, put_of_full (by rw [room_put]; omega)]

/-- What stands before the place is untouched. -/
theorem Ok.take_put (h : c.Ok) (l : List α) : (c.put l).mem.take c.pos = c.mem.take c.pos :=
  take_patch (h.fits l)

end Cursor

end GunyahRuntime.Lib
