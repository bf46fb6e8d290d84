/-
# GunyahRuntime.Str.NumberText -- the text of a number, and what `itoa` makes of it

The text of a number has four parts: the digits from the lowest, what stands between them and the left
padding (in the order `itoa` writes it), and the two paddings. Each checked piece of `itoa` puts its
text at the cursor and reports whether room is left (`Writes`), and two pieces in sequence do the same
with the concatenation. So the whole of `itoa` comes down to one put, one reversal and the padding on
the right (`itoa_eq`).
-/
import GunyahRuntime.Str.Number

namespace GunyahRuntime

open Lib (patch Cursor length_patch patch_patch_append)

/-- The buffer and the counters of `snprint` agree: one place is left after the room, for the
terminator. -/
structure OutBuf.Ok (o : OutBuf) : Prop where
  full : o.cur.pos + o.cur.room + 1 = o.cur.mem.length
  fits : o.cur.mem.length < 18446744073709551616

namespace OutBuf

variable {o : OutBuf}

theorem Ok.cursor (h : o.Ok) : o.cur.Ok := by
  have hfull := h.full
  unfold Cursor.Ok
  omega

theorem Ok.room_lt (h : o.Ok) : o.cur.room < 18446744073709551616 := by
  have hfull := h.full
  have hfits := h.fits
  omega

theorem Ok.put (h : o.Ok) (l : List UInt8) : (o.put l).Ok where
  full := by
    show (o.cur.put l).pos + (o.cur.put l).room + 1 = (o.cur.put l).mem.length
    rw [Cursor.end_put, h.cursor.length_put, h.full]
  fits := by
    show (o.cur.put l).mem.length < _
    rw [h.cursor.length_put]
    exact h.fits

@[simp] theorem room_put (o : OutBuf) (l : List UInt8) :
    (o.put l).cur.room = o.cur.room - l.length := rfl

@[simp] theorem put_nil (o : OutBuf) : o.put [] = o := by
  simp [OutBuf.put]

theorem Ok.put_put (h : o.Ok) (l m : List UInt8) : (o.put l).put m = o.put (l ++ m) := by
  simp only [OutBuf.put, h.cursor.put_put]

theorem Ok.put_append_of_full (h : o.Ok) {l : List UInt8} (hl : o.cur.room ≤ l.length)
    (m : List UInt8) : o.put (l ++ m) = o.put l := by
  simp only [OutBuf.put, h.cursor.put_append_of_full hl]

theorem status_ok_of_pos (h : 0 < o.cur.room) : o.status = OK :=
  if_neg (by omega)

theorem status_put_of_lt {l : List UInt8} (h : l.length < o.cur.room) : (o.put l).status = OK :=
  if_neg (by rw [room_put]; omega)

theorem status_put_of_le {l : List UInt8} (h : o.cur.room ≤ l.length) :
    (o.put l).status = ERROR_STRING_TRUNCATED :=
  if_pos (by rw [room_put]; omega)

theorem Ok.emit_eq (h : o.Ok) (hroom : 0 < o.cur.room) (c : UInt8) :
    o.emit c = .ok (o.put [c]) := by
  have hfull := h.full
  have htake : [c].take o.cur.room = [c] := List.take_of_length_le (by simp; omega)
  have hmin : min 1 o.cur.room = 1 := by omega
  unfold OutBuf.emit
  rw [storeByte_ok (by omega), ok_bind, sub64_of_le hroom h.room_lt, pure_ok]
  simp only [OutBuf.put, Cursor.put, htake, hmin, List.length_singleton]

end OutBuf

/-! ## Padding -/

/-- With room, `padding` writes as many as fit. -/
theorem padding_eq {mem : List UInt8} {buf size : Nat} (c : UInt8) (len : Nat) (hpos : 0 < size)
    (hsize : size < 18446744073709551616) (hfit : buf + size ≤ mem.length) :
    padding mem buf size c len =
      .ok (patch mem buf (List.replicate (min len size) c), min len size) := by
  induction len generalizing mem buf size with
  | zero => simp [padding]
  | succ len ih =>
    rw [padding, storeByte_ok (by omega), ok_bind, sub64_of_le hpos hsize]
    by_cases hlast : size - 1 = 0
    · rw [if_pos hlast, pure_ok, show min (len + 1) size = 1 by omega]
      rfl
    · have hlen : (patch mem buf [c]).length = mem.length := length_patch (by simp; omega)
      rw [if_neg hlast, ih (by omega) (by omega) (by rw [hlen]; omega), ok_bind]
      dsimp only
      rw [pure_ok, show buf + 1 = buf + [c].length from rfl,
        patch_patch_append (by rw [List.length_replicate]; simp; omega),
        show min (len + 1) size = min len (size - 1) + 1 by omega, List.replicate_succ]
      rfl

/-- With nothing to write, nothing happens. -/
theorem padAt_zero (o : OutBuf) (c : UInt8) (hroom : o.cur.room < 18446744073709551616) :
    padAt o c 0 = .ok (o, 0) := by
  have hsub : sub64 o.cur.room 0 = o.cur.room := by rw [sub64_of_le (by omega) hroom]; omega
  unfold padAt
  rw [padding, ok_bind]
  simp [hsub, pure_ok]

namespace OutBuf

variable {o : OutBuf}

theorem Ok.padAt_eq (h : o.Ok) (hroom : 0 < o.cur.room) (c : UInt8) (len : Nat) :
    padAt o c len = .ok (o.put (List.replicate len c), min len o.cur.room) := by
  have hfull := h.full
  have hflag : (o.padsInside && (len == 0 || o.cur.room != 0)) = o.padsInside := by
    have : (o.cur.room != 0) = true := by simp; omega
    rw [this, Bool.or_true, Bool.and_true]
  unfold padAt
  rw [padding_eq c len hroom h.room_lt (by omega), ok_bind]
  dsimp only
  rw [hflag, pure_ok, sub64_of_le (by omega) h.room_lt]
  simp only [OutBuf.put, Cursor.put, List.take_replicate, List.length_replicate,
    show o.cur.room - min len o.cur.room = o.cur.room - len by omega,
    Nat.min_comm o.cur.room len]

/-- **Padding with no room.** One character lands on the place of the terminator and the counter goes
below zero; a second one is outside the buffer. -/
theorem Ok.padAt_full (h : o.Ok) (hroom : o.cur.room = 0) (c : UInt8) {len : Nat} (hlen : len ≠ 0) :
    padAt o c len =
      if len = 1 then .ok (⟨⟨patch o.cur.mem o.cur.pos [c], o.cur.pos + 1, sub64 0 1⟩, false⟩, 1)
      else .error .badWrite := by
  have hfull := h.full
  rw [hroom] at hfull
  obtain ⟨len, rfl⟩ := Nat.exists_eq_succ_of_ne_zero hlen
  have hflag : (o.padsInside && (len.succ == 0 || o.cur.room != 0)) = false := by simp [hroom]
  have hsub : sub64 (sub64 0 1) 1 ≠ 0 := by decide
  unfold padAt
  rw [hflag, hroom, padding, storeByte_ok (by omega), ok_bind, if_neg (by decide)]
  cases len with
  | zero => rw [padding, ok_bind]; rfl
  | succ len =>
    have hout : ¬ (o.cur.pos + 1 + [c].length ≤ (patch o.cur.mem o.cur.pos [c]).length) := by
      rw [length_patch (by simp; omega)]
      simp
      omega
    rw [padding, storeByte, storeBytes, if_neg hout, error_bind, error_bind, error_bind,
      if_neg (by omega)]

end OutBuf

/-! ## Pieces in sequence -/

/-- A piece of `itoa` that puts `l` and reports whether room is left. -/
def Writes (f : OutBuf → Exec (OutBuf × Int)) (l : List UInt8) : Prop :=
  ∀ o : OutBuf, o.Ok → 0 < o.cur.room → f o = .ok (o.put l, (o.put l).status)

/-- **Pieces compose**: a piece that uses up the room skips the next one, which would have written
nothing. -/
theorem Writes.andThen {f g : OutBuf → Exec (OutBuf × Int)} {l m : List UInt8}
    (hf : Writes f l) (hg : Writes g m) : Writes (andThen f g) (l ++ m) := by
  intro o h hroom
  unfold GunyahRuntime.andThen
  rw [hf o h hroom, ok_bind]
  dsimp only
  rcases Nat.lt_or_ge l.length o.cur.room with hlt | hge
  · rw [OutBuf.status_put_of_lt hlt, if_neg (by simp),
      hg _ (h.put l) (by rw [OutBuf.room_put]; omega), h.put_put]
  · rw [OutBuf.status_put_of_le hge, if_pos (by decide), pure_ok, h.put_append_of_full hge,
      OutBuf.status_put_of_le hge]

theorem writes_padChecked (c : UInt8) (len : Nat) :
    Writes (padChecked c len) (List.replicate len c) := by
  intro o h hroom
  unfold padChecked
  rw [h.padAt_eq hroom, ok_bind]
  dsimp only
  rw [pure_ok]
  unfold OutBuf.status
  simp only [OutBuf.room_put, List.length_replicate]
  congr 2
  by_cases hfull : o.cur.room - len = 0
  · rw [if_pos hfull, if_pos (.inl hfull)]
  · rw [if_neg hfull, if_neg (by omega)]

theorem writes_nil {f : OutBuf → Exec (OutBuf × Int)} (hf : ∀ o, f o = .ok (o, o.status)) :
    Writes f [] := by
  intro o _ _
  rw [hf, OutBuf.put_nil]

/-- The prefix of a base, backwards. -/
def basePrefix (base : Nat) : List UInt8 :=
  match baseLetter base with
  | none => []
  | some c => [c, '0'.toUInt8]

theorem writes_itoaInsertBase (base : Nat) : Writes (itoaInsertBase base) (basePrefix base) := by
  unfold itoaInsertBase basePrefix
  cases baseLetter base with
  | none => exact writes_nil fun _ => rfl
  | some c =>
    intro o h hroom
    dsimp only
    rw [h.emit_eq hroom, ok_bind, OutBuf.room_put]
    by_cases hfull : o.cur.room - [c].length = 0
    · have hle : o.cur.room ≤ [c].length := by omega
      rw [if_pos hfull, pure_ok, show [c, '0'.toUInt8] = [c] ++ ['0'.toUInt8] from rfl,
        h.put_append_of_full hle, OutBuf.status_put_of_le hle]
    · rw [if_neg hfull, (h.put [c]).emit_eq (by rw [OutBuf.room_put]; omega), ok_bind, pure_ok,
        h.put_put]
      rfl

/-- The prefix, if the alternate form asks for one. -/
def prefixText (info : FmtInfo) (base : Nat) : List UInt8 :=
  if info.alternateForm then basePrefix base else []

theorem writes_insertPrefix (info : FmtInfo) (base : Nat) :
    Writes (insertPrefix info base) (prefixText info base) := by
  unfold insertPrefix prefixText
  split
  · exact writes_itoaInsertBase base
  · intro o _ hroom
    rw [OutBuf.put_nil, OutBuf.status_ok_of_pos hroom]

theorem writes_itoaInsertSign (info : FmtInfo) (positive : Bool) :
    Writes (itoaInsertSign info positive) (signChar info positive).toList := by
  unfold itoaInsertSign
  cases signChar info positive with
  | none => exact writes_nil fun _ => rfl
  | some c =>
    intro o h hroom
    dsimp only
    rw [h.emit_eq hroom, ok_bind]
    rfl

/-! ## The text of a number -/

/-- The digits of a value, from the lowest; zero has one. -/
def digitsText (base val : Nat) : List UInt8 :=
  if val = 0 then [digitAt 0] else (Nat.digits base val).map digitAt

theorem digitsText_ne_nil (base val : Nat) : digitsText base val ≠ [] := by
  unfold digitsText
  split
  · simp
  · next h => simpa using Nat.digits_ne_nil_iff_ne_zero.2 h

theorem digitsText_succ {base : Nat} (hbase : 2 ≤ base) (val : Nat) :
    digitsText base val = digitAt (val % base) ::
      if val / base ≠ 0 then digitsText base (val / base) else [] := by
  unfold digitsText
  rcases Nat.eq_zero_or_pos val with rfl | hpos
  · simp
  · rw [if_neg hpos.ne', Nat.digits_def' hbase hpos, List.map_cons]
    by_cases hdiv : val / base = 0
    · rw [if_neg (not_not.2 hdiv), hdiv, Nat.digits_zero, List.map_nil]
    · rw [if_pos hdiv, if_neg hdiv]

/-- The digit loop puts the digits. -/
theorem itoaDigits_eq {base : Nat} (hbase : 2 ≤ base) (fuel : Nat) (hfuel : 0 < fuel) (o : OutBuf)
    (h : o.Ok) (hroom : 0 < o.cur.room) (val contentCnt : Nat) (hval : val < base ^ fuel) :
    itoaDigits base fuel o val contentCnt =
      .ok (o.put (digitsText base val), (o.put (digitsText base val)).status,
        contentCnt + min (digitsText base val).length o.cur.room) := by
  induction fuel generalizing o val contentCnt with
  | zero => exact absurd hfuel (Nat.lt_irrefl 0)
  | succ fuel ih =>
    rw [itoaDigits, h.emit_eq hroom, ok_bind, digitsText_succ hbase val, OutBuf.room_put]
    by_cases hfull : o.cur.room - [digitAt (val % base)].length = 0
    · have hle : o.cur.room ≤ [digitAt (val % base)].length := by omega
      rw [if_pos hfull, pure_ok]
      generalize (if val / base ≠ 0 then digitsText base (val / base) else []) = rest
      have hmin : min (digitAt (val % base) :: rest).length o.cur.room = 1 := by
        simp only [List.length_cons, List.length_nil] at hle ⊢
        omega
      have hput : o.put (digitAt (val % base) :: rest) = o.put [digitAt (val % base)] :=
        h.put_append_of_full hle rest
      rw [hmin, hput, OutBuf.status_put_of_le hle]
    · rw [if_neg hfull]
      by_cases hdiv : val / base = 0
      · rw [if_neg (not_not.2 hdiv), if_neg (not_not.2 hdiv), pure_ok,
          OutBuf.status_put_of_lt (by omega), List.length_singleton,
          show min 1 o.cur.room = 1 by omega]
      · have hlt : val / base < base ^ fuel :=
          Nat.div_lt_of_lt_mul (by rw [← Nat.pow_succ']; exact hval)
        -- A quotient that is not zero leaves a pass to write it with.
        have hpos : 0 < fuel := by
          apply Nat.pos_of_ne_zero
          rintro rfl
          exact hdiv (by simpa using hlt)
        rw [if_pos hdiv, if_pos hdiv,
          ih hpos _ (h.put _) (by rw [OutBuf.room_put]; omega) _ _ hlt, h.put_put, OutBuf.room_put]
        simp only [List.singleton_append, List.length_cons, List.length_nil]
        congr 3
        simp only [List.length_singleton] at hfull
        omega

/-- The four parts of a number, in the order `itoa` writes the first three. -/
structure NumText where
  digits : List UInt8
  middle : List UInt8
  left : List UInt8
  right : List UInt8

namespace NumText

/-- What the room is checked for: all but the two outer paddings. -/
def core (t : NumText) : List UInt8 := t.digits ++ t.middle

/-- The finished text. -/
def text (t : NumText) : List UInt8 := (t.core ++ t.left).reverse ++ t.right

end NumText

/-- The text of a number under a descriptor. -/
def numText (val base : Nat) (info : FmtInfo) (positive : Bool) : NumText :=
  let digits := digitsText base val
  let pads := itoaPads info base positive digits.length
  { digits
    middle := List.replicate pads.afterPrefix pads.char ++ (prefixText info base ++
      (List.replicate pads.afterSign pads.char ++ (signChar info positive).toList))
    left := List.replicate pads.left pads.char
    right := List.replicate pads.right pads.char }

theorem writes_itoaMiddle (info : FmtInfo) (base : Nat) (positive : Bool) (val : Nat) :
    Writes (itoaMiddle info base positive
        (itoaPads info base positive (numText val base info positive).digits.length))
      (numText val base info positive).middle :=
  (writes_padChecked _ _).andThen <| (writes_insertPrefix _ _).andThen <|
    (writes_padChecked _ _).andThen (writes_itoaInsertSign _ _)

/-! ## The reversal -/

/-- Two elements exchanged over the ends of a stretch leave the stretch between them. -/
theorem reversePass_ends (pre mid post : List UInt8) (a b : UInt8) :
    reversePass (pre ++ a :: (mid ++ b :: post), pre.length, pre.length + mid.length + 1) =
      .ok (.inl ((pre ++ [b]) ++ (mid ++ (a :: post)), pre.length + 1, pre.length + mid.length)) := by
  have hb : pre.length + mid.length + 1 = (pre ++ a :: mid).length := by simp; omega
  have hfirst : (pre ++ a :: (mid ++ b :: post))[pre.length]? = some a := by simp
  have hlast : (pre ++ a :: (mid ++ b :: post))[pre.length + mid.length + 1]? = some b := by
    rw [hb, show pre ++ a :: (mid ++ b :: post) = (pre ++ a :: mid) ++ b :: post by simp]
    simp
  have hstore : storeByte (pre ++ a :: (mid ++ b :: post)) pre.length b =
      .ok (pre ++ b :: (mid ++ b :: post)) := by
    rw [storeByte_ok (by simp), Lib.patch]
    simp
  have hstore' : storeByte (pre ++ b :: (mid ++ b :: post)) (pre.length + mid.length + 1) a =
      .ok (pre ++ b :: (mid ++ a :: post)) := by
    rw [storeByte_ok (by simp; omega), Lib.patch]
    have htake : (pre ++ b :: (mid ++ b :: post)).take (pre.length + mid.length + 1) =
        pre ++ b :: mid := by
      rw [show pre ++ b :: (mid ++ b :: post) = (pre ++ b :: mid) ++ b :: post by simp,
        List.take_left' (by simp; omega)]
    have hdrop : (pre ++ b :: (mid ++ b :: post)).drop (pre.length + mid.length + 1 + 1) = post := by
      rw [show pre ++ b :: (mid ++ b :: post) = (pre ++ b :: mid ++ [b]) ++ post by simp,
        List.drop_left' (by simp; omega)]
    rw [List.length_singleton, htake, hdrop]
    simp
  unfold reversePass
  dsimp only
  rw [if_pos (by omega), loadByte_ok hfirst, ok_bind, loadByte_ok hlast, ok_bind, hstore, ok_bind,
    hstore', ok_bind]
  simp [pure_ok]

/-- The two pointers meet, and what was between them is reversed. -/
theorem iterate_reversePass (seg : List UInt8) :
    ∀ (pre post : List UInt8) (fuel : Nat), seg.length / 2 < fuel →
      Lib.iterate .diverged reversePass fuel
        (pre ++ (seg ++ post), pre.length, pre.length + seg.length - 1) =
      .ok (pre ++ (seg.reverse ++ post)) := by
  induction seg using List.bidirectionalRec with
  | nil =>
    intro pre post fuel hfuel
    obtain ⟨fuel, rfl⟩ := Nat.exists_eq_succ_of_ne_zero (show fuel ≠ 0 by omega)
    exact Lib.iterate_done (if_neg (by simp))
  | singleton a =>
    intro pre post fuel hfuel
    obtain ⟨fuel, rfl⟩ := Nat.exists_eq_succ_of_ne_zero (show fuel ≠ 0 by omega)
    exact Lib.iterate_done (if_neg (by simp))
  | cons_append a mid b ih =>
    intro pre post fuel hfuel
    obtain ⟨fuel, rfl⟩ := Nat.exists_eq_succ_of_ne_zero (show fuel ≠ 0 by omega)
    simp only [List.length_cons, List.length_append, List.length_nil] at hfuel
    have hpass := reversePass_ends pre mid post a b
    have hrest := ih (pre ++ [b]) (a :: post) fuel (by omega)
    rw [List.length_append, List.length_singleton,
      show pre.length + 1 + mid.length - 1 = pre.length + mid.length by omega] at hrest
    rw [show pre.length + (a :: (mid ++ [b])).length - 1 = pre.length + mid.length + 1 by
        simp; omega,
      show pre ++ (a :: (mid ++ [b]) ++ post) = pre ++ a :: (mid ++ b :: post) by simp,
      Lib.iterate_again hpass, hrest]
    simp

/-- **The reversal** of a stretch that was just written is the reversed text written there. -/
theorem reverse_patch {mem l : List UInt8} {buf : Nat} (hl : l ≠ [])
    (h : buf + l.length ≤ mem.length) :
    reverse (patch mem buf l) buf (buf + l.length - 1) = .ok (patch mem buf l.reverse) := by
  have hpos := List.length_pos_iff.2 hl
  have hlen : (mem.take buf).length = buf := by rw [List.length_take]; omega
  have hrev := iterate_reversePass l (mem.take buf) (mem.drop (buf + l.length))
    (buf + l.length - 1 + 1) (by omega)
  rw [hlen] at hrev
  unfold reverse patch
  rw [List.append_assoc, hrev, List.length_reverse, List.append_assoc]

namespace OutBuf

variable {o : OutBuf}

/-- `reverse_out`: the text that was put is put in reverse, and the right padding follows it with
whatever room is left. -/
theorem Ok.reverseOut_eq (h : o.Ok) (hroom : 0 < o.cur.room) {l : List UInt8} (hl : l ≠ [])
    (pads : Pads) :
    reverseOut o.cur.pos (o.put l) pads =
      padAt (o.put (l.take o.cur.room).reverse) pads.char pads.right >>= fun r => .ok r.1 := by
  have hfull := h.full
  have hpos := List.length_pos_iff.2 hl
  have hlen : (l.take o.cur.room).length = min l.length o.cur.room := by
    rw [List.length_take, Nat.min_comm]
  have hne : l.take o.cur.room ≠ [] := List.length_pos_iff.1 (by omega)
  have hrev := reverse_patch hne (show o.cur.pos + _ ≤ o.cur.mem.length by omega)
  have hput : ({ o.put l with cur.mem := patch o.cur.mem o.cur.pos (l.take o.cur.room).reverse } :
      OutBuf) = o.put (l.take o.cur.room).reverse := by
    have htake : (l.take o.cur.room).reverse.take o.cur.room = (l.take o.cur.room).reverse :=
      List.take_of_length_le (by rw [List.length_reverse, hlen]; omega)
    simp only [OutBuf.put, Cursor.put, htake, List.length_reverse, hlen, Nat.min_assoc, Nat.min_self,
      show o.cur.room - min l.length o.cur.room = o.cur.room - l.length by omega]
  unfold reverseOut
  show reverse (patch o.cur.mem o.cur.pos (l.take o.cur.room)) o.cur.pos
    (o.cur.pos + min l.length o.cur.room - 1) >>= _ = _
  rw [← hlen, hrev, ok_bind, hput]
  rfl

/-- The pieces after the digits, up to the reversal: the left padding is written without a check. -/
theorem Ok.itoaPieces_eq (h : o.Ok) (info : FmtInfo) (base : Nat) (positive : Bool) (val : Nat)
    (hlt : (digitsText base val).length < o.cur.room) :
    let t := numText val base info positive
    itoaPieces base info positive (o.put t.digits) t.digits.length =
      .ok (o.put (t.core ++ t.left), if o.cur.room ≤ t.core.length then ERROR_STRING_TRUNCATED else OK,
        itoaPads info base positive t.digits.length) := by
  intro t
  have hmid : andThen (itoaMiddle info base positive (itoaPads info base positive t.digits.length))
      (padLeft (itoaPads info base positive t.digits.length).char
        (itoaPads info base positive t.digits.length).left) (o.put t.digits) =
      .ok (o.put (t.core ++ t.left),
        if o.cur.room ≤ t.core.length then ERROR_STRING_TRUNCATED else OK) := by
    unfold andThen
    rw [writes_itoaMiddle info base positive val _ (h.put _)
      (show 0 < o.cur.room - t.digits.length from Nat.sub_pos_of_lt hlt), ok_bind, h.put_put,
      show t.digits ++ (numText val base info positive).middle = t.core from rfl]
    dsimp only
    rcases Nat.lt_or_ge t.core.length o.cur.room with hcore | hcore
    · have hroom : 0 < (o.put t.core).cur.room := by rw [room_put]; omega
      rw [status_put_of_lt hcore, if_neg (not_not.2 rfl), if_neg (by omega)]
      unfold padLeft
      show padAt (o.put t.core) _ _ >>= _ = _
      rw [(h.put t.core).padAt_eq hroom, ok_bind, h.put_put]
      rfl
    · rw [status_put_of_le hcore, if_pos (by decide), if_pos hcore, h.put_append_of_full hcore]
      rfl
  unfold itoaPieces
  dsimp only
  rw [hmid, ok_bind, pure_ok]

/-- **What `itoa` leaves**: a number whose digits do not fit is cut and reversed; otherwise what fits
of everything but the right padding is put in reverse, and the right padding runs with the room that
is left, whatever it is. -/
theorem Ok.itoa_eq (h : o.Ok) (hroom : 0 < o.cur.room) {val base : Nat} (hbase : 2 ≤ base)
    (hbase' : base ≤ 16) (hval : val < 18446744073709551616) (info : FmtInfo) (positive : Bool) :
    itoa o val base info positive =
      let t := numText val base info positive
      let pads := itoaPads info base positive t.digits.length
      if o.cur.room ≤ t.digits.length then
        .ok (o.put (t.digits.take o.cur.room).reverse, ERROR_STRING_TRUNCATED)
      else
        padAt (o.put ((t.core ++ t.left).take o.cur.room).reverse) pads.char pads.right >>= fun r =>
          .ok (r.1, if o.cur.room ≤ t.core.length then ERROR_STRING_TRUNCATED else OK) := by
  have hpow : val < base ^ 64 := hval.trans_le (by
    calc 18446744073709551616 = 2 ^ 64 := by norm_num
      _ ≤ base ^ 64 := Nat.pow_le_pow_left hbase 64)
  have hdig := digitsText_ne_nil base val
  have hdigits : (numText val base info positive).digits = digitsText base val := rfl
  unfold itoa
  dsimp only
  rw [decide_eq_true hbase', cassert_true, ok_bind, if_neg hroom.ne',
    itoaDigits_eq hbase 64 (by decide) o h hroom val 0 hpow, ok_bind, hdigits]
  dsimp only
  rcases Nat.lt_or_ge (digitsText base val).length o.cur.room with hlt | hge
  · rw [status_put_of_lt hlt, if_neg (not_not.2 rfl), if_neg (by omega), Nat.zero_add,
      Nat.min_eq_left hlt.le]
    have hne : (numText val base info positive).core ++ (numText val base info positive).left ≠ [] := by
      simp [NumText.core, hdigits, hdig]
    have hpieces := h.itoaPieces_eq info base positive val hlt
    dsimp only at hpieces
    rw [hdigits] at hpieces
    rw [hpieces, ok_bind]
    dsimp only
    rw [h.reverseOut_eq hroom hne]
    cases padAt (o.put ((_ ++ _ : List UInt8).take o.cur.room).reverse) _ _ with
    | error e => rfl
    | ok r => rfl
  · rw [status_put_of_le hge, if_pos (by decide), if_pos hge, h.reverseOut_eq hroom hdig]
    have hput := (h.put ((digitsText base val).take o.cur.room).reverse).room_lt
    unfold Pads.unset
    rw [padAt_zero _ _ hput, ok_bind, ok_bind, pure_ok]

end OutBuf

end GunyahRuntime
