/-
# GunyahRuntime.Str.Layout -- what a format means, and that `snprint` prints it

A format with its arguments stands for a layout: literals, each followed by a piece (nothing, a string,
a number, or a reason to stop), up to the end of the format or the place where scanning it fails. The
layout does not know the size of the buffer. `Layout.render` says what comes out of it in a given room:
the text, the error, and whether every padding stayed inside; and `snprint_eq` says that `snprint` is
this rendering, byte for byte and fault for fault. What follows about buffers of all sizes is then about
layouts.
-/
import GunyahRuntime.Str.NumberText
import GunyahRuntime.Str.Snprint

namespace GunyahRuntime

open Lib (patch Cursor length_patch)

/-- What comes out of a rendering: the text, the error code, and whether every padding with something to
write had room. -/
structure Rendered where
  text : List UInt8
  e : Int
  inside : Bool

/-- What stands between two literals. -/
inductive Piece where
  | none
  | fails (e : Int) (h : e ≠ OK)
  | str (text : List UInt8)
  | num (t : NumText)

/-- What the checked part of a number and its left padding leave for the right padding. -/
def NumText.fitted (t : NumText) (room : Nat) : List UInt8 :=
  ((t.core ++ t.left).take room).reverse ++ t.right.take (room - (t.core ++ t.left).length)

/-- A number in a room. Where the room ends between the digits and the end of the left padding, right
padding runs past it: one character goes to the terminator's place, and is caught by the assertion of
`snprint` if nothing reported the truncation; more of them leave the buffer. -/
def NumText.render (t : NumText) (room : Nat) : Exec Rendered :=
  if room ≤ t.digits.length then
    .ok ⟨[], ERROR_STRING_TRUNCATED, true⟩
  else if t.right ≠ [] ∧ room ≤ (t.core ++ t.left).length then
    if t.right.length ≠ 1 then .error .badWrite
    else if room ≤ t.core.length then .ok ⟨[], ERROR_STRING_TRUNCATED, false⟩
    else .error .assertion
  else if room ≤ t.core.length then
    .ok ⟨[], ERROR_STRING_TRUNCATED, true⟩
  else
    .ok ⟨t.fitted room, OK, true⟩

def Piece.render (room : Nat) : Piece → Exec Rendered
  | .none => .ok ⟨[], OK, true⟩
  | .fails e _ => .ok ⟨[], e, true⟩
  | .str text =>
    if room ≤ text.length then .ok ⟨[], ERROR_STRING_TRUNCATED, true⟩ else .ok ⟨text, OK, true⟩
  | .num t => t.render room

/-- A format with its arguments. A scan that faults reads outside the format or does not end. -/
inductive Layout where
  | done
  | fault (f : Fault) (h : f = .badRead ∨ f = .diverged)
  | bad (e : Int)
  | chunk (lit : List UInt8) (p : Piece) (rest : Layout)

/-- A literal and the piece after it. -/
def renderChunk (lit : List UInt8) (p : Piece) (room : Nat) : Exec Rendered :=
  if room < lit.length then
    .ok ⟨[], ERROR_STRING_TRUNCATED, true⟩
  else
    p.render (room - lit.length) >>= fun r => .ok ⟨lit ++ r.text, r.e, r.inside⟩

def Layout.render : Layout → Nat → Exec Rendered
  | .done, _ => .ok ⟨[], OK, true⟩
  | .fault f _, room => if room = 0 then .ok ⟨[], OK, true⟩ else .error f
  | .bad e, room => if room = 0 then .ok ⟨[], OK, true⟩ else .ok ⟨[], e, true⟩
  | .chunk lit p rest, room =>
    if room = 0 then .ok ⟨[], OK, true⟩
    else
      renderChunk lit p room >>= fun r =>
        if r.e ≠ OK then .ok r
        else
          rest.render (room - r.text.length) >>= fun r' =>
            .ok ⟨r.text ++ r'.text, r'.e, r.inside && r'.inside⟩

/-! ## The layout of a format -/

/-- A string argument under a descriptor. -/
def strText (s : CString) (info : FmtInfo) : List UInt8 :=
  let slen := strLen s info
  let c := paddingChar info ' '.toUInt8
  List.replicate (strPads info slen).1 c ++
    (s.chars.take slen ++ List.replicate (strPads info slen).2 c)

/-- An argument under a descriptor. -/
def argPiece (strs : Nat → CString) (info : FmtInfo) (arg : UInt64) : Piece :=
  match info.type with
  | .bin => .num (numText arg.toNat 2 info true)
  | .dec =>
    if toInt64 arg.toNat < 0 then .num (numText (sub64 0 arg.toNat) 10 info false)
    else .num (numText arg.toNat 10 info true)
  | .octal => .num (numText arg.toNat 8 info true)
  | .lowHex => .num (numText arg.toNat 16 info true)
  | .string =>
    if arg.toNat = 0 then .fails ERROR_STRING_MISSING_ARGUMENT (by decide)
    else .str (strText (strs arg.toNat) info)
  | .none => .fails ERROR_STRING_INVALID_FORMAT (by decide)

/-- A descriptor with the arguments. -/
def fieldPiece (strs : Nat → CString) (args : Vector UInt64 MAX_ARG_CNT) (argIdx : Nat)
    (info : FmtInfo) : Piece :=
  if info.type = .none then .none
  else
    match args[argIdx]? with
    | none => .fails ERROR_STRING_MISSING_PLACEHOLDER (by decide)
    | some arg => argPiece strs info arg

/-- The layout of a format from index `fmt` and argument `argIdx` on. -/
def layoutFrom (scans : Nat) (strs : Nat → CString) (format : CString)
    (args : Vector UInt64 MAX_ARG_CNT) : Nat → Nat → Nat → Layout
  | 0, _, _ => .fault .diverged (.inr rfl)
  | fuel + 1, fmt, argIdx =>
    match h : getNextFmt scans format fmt with
    | .error f => .fault f (getNextFmt_fault h)
    | .ok r =>
      if r.ret ≠ OK then .bad r.ret
      else
        .chunk ((format.chars.drop fmt).take r.literalLen) (fieldPiece strs args argIdx r.info)
          (if r.atEnd then .done
            else layoutFrom scans strs format args fuel (fmt + r.consumedLen)
              (if r.info.type = .none then argIdx else argIdx + 1))

/-- The layout of a format. -/
def layout (fuel : Nat) (strs : Nat → CString) (format : CString)
    (args : Vector UInt64 MAX_ARG_CNT) : Layout :=
  layoutFrom fuel strs format args fuel 0 0

/-! ## Renderings of the code -/

/-- The buffer after a text was written over it from the write pointer on. -/
structure OutBuf.After (o o' : OutBuf) (text : List UInt8) : Prop where
  length : o'.cur.mem.length = o.cur.mem.length
  pos : o'.cur.pos = o.cur.pos + text.length
  room : o'.cur.room + text.length = o.cur.room
  written : o'.cur.mem.take o'.cur.pos = o.cur.mem.take o.cur.pos ++ text

namespace OutBuf

variable {o o' o'' : OutBuf} {l m : List UInt8}

theorem After.refl (o : OutBuf) : o.After o [] := ⟨rfl, rfl, rfl, by simp⟩

theorem After.trans (h : o.After o' l) (h' : o'.After o'' m) : o.After o'' (l ++ m) where
  length := h'.length.trans h.length
  pos := by rw [h'.pos, h.pos, List.length_append]; omega
  room := by
    have h₁ := h.room
    have h₂ := h'.room
    rw [List.length_append]
    omega
  written := by rw [h'.written, h.written, List.append_assoc]

theorem After.ok (h : o.After o' l) (ho : o.Ok) : o'.Ok where
  full := by
    have h₁ := ho.full
    have h₂ := h.room
    rw [h.pos, h.length]
    omega
  fits := by rw [h.length]; exact ho.fits

/-- A text that fits is there after it was put. -/
theorem Ok.after_put (h : o.Ok) (hl : l.length ≤ o.cur.room) : o.After (o.put l) l := by
  have hfull := h.full
  have htake : l.take o.cur.room = l := List.take_of_length_le hl
  refine ⟨h.cursor.length_put l, ?_, ?_, ?_⟩
  · show o.cur.pos + min l.length o.cur.room = _
    rw [Nat.min_eq_left hl]
  · show o.cur.room - l.length + l.length = _
    omega
  · show (patch o.cur.mem o.cur.pos (l.take o.cur.room)).take (o.cur.pos + min l.length o.cur.room) = _
    rw [htake, Nat.min_eq_left hl, patch, List.take_left']
    rw [List.length_append, List.length_take]
    omega

/-- The pointer and the counter put back where they were, after something was written from there on. -/
def restore (o' o : OutBuf) : OutBuf :=
  { o' with cur := ⟨o'.cur.mem, o.cur.pos, o.cur.room⟩ }

theorem Ok.after_restore_put (h : o.Ok) (l : List UInt8) : o.After ((o.put l).restore o) [] :=
  ⟨h.cursor.length_put l, rfl, rfl, by
    rw [List.append_nil]; exact h.cursor.take_put l⟩

end OutBuf

/-- A computation on the buffer does what a rendering says. -/
def Simulates (x : Exec (OutBuf × Int)) (o : OutBuf) : Exec Rendered → Prop
  | .error f => x = .error f
  | .ok r => ∃ o', x = .ok (o', r.e) ∧ o.After o' r.text ∧
      o'.padsInside = (o.padsInside && r.inside)

theorem Simulates.ok {o o' : OutBuf} {text : List UInt8} {e : Int} {inside : Bool}
    (h : o.After o' text) (hflag : o'.padsInside = (o.padsInside && inside)) :
    Simulates (.ok (o', e)) o (.ok ⟨text, e, inside⟩) := ⟨o', rfl, h, hflag⟩

/-! ## Numbers and strings -/

theorem truncated_ne_ok : ERROR_STRING_TRUNCATED ≠ OK := by decide

section Field

variable {o : OutBuf}

/-- A rendering that failed is undone, but for the bytes from the write pointer on. -/
theorem settle_fails {o' : OutBuf} {ret : Int} (hret : ret ≠ OK) (n : Nat) :
    settle o o' ret n = .ok (o'.restore o, ret) := if_neg hret

/-- A rendering that succeeded is stepped over. -/
theorem OutBuf.Ok.settle_put (h : o.Ok) {l : List UInt8} (hl : l.length ≤ o.cur.room) :
    settle o (o.put l) OK (sub64 o.cur.room (o.put l).cur.room) = .ok (o.put l, OK) := by
  have hlt := h.room_lt
  have hlen : sub64 o.cur.room (o.put l).cur.room = l.length := by
    rw [OutBuf.room_put, sub64_of_le (by omega) hlt]
    omega
  unfold settle
  rw [if_pos rfl, hlen, decide_eq_true hl, cassert_true, ok_bind, pure_ok, sub64_of_le hl hlt]
  simp only [OutBuf.put, Cursor.put, Nat.min_eq_left hl]

/-- A byte on the terminator's place lies behind what a failed rendering leaves. -/
theorem OutBuf.Ok.after_restore_stray (h : o.Ok) {x : List UInt8} (hx : x.length ≤ o.cur.room)
    (hroom : o.cur.room ≤ x.length) (c : UInt8) (pos room : Nat) (inside : Bool) :
    o.After (OutBuf.restore ⟨⟨patch (o.put x).cur.mem (o.put x).cur.pos [c], pos, room⟩, inside⟩ o) [] := by
  have hfull := h.full
  have hmem := h.cursor.length_put x
  have hpos : (o.put x).cur.pos = o.cur.pos + o.cur.room := by
    show o.cur.pos + min x.length o.cur.room = _
    omega
  have hlen : (patch (o.put x).cur.mem (o.put x).cur.pos [c]).length = o.cur.mem.length := by
    rw [length_patch]
    · exact hmem
    · rw [hpos, List.length_singleton]
      show _ ≤ (o.cur.put x).mem.length
      omega
  have htake : (patch (o.put x).cur.mem (o.put x).cur.pos [c]).take o.cur.pos =
      o.cur.mem.take o.cur.pos := by
    rw [← h.cursor.take_put x]
    show _ = (o.put x).cur.mem.take o.cur.pos
    rw [patch, List.append_assoc, List.take_append_of_le_length, List.take_take,
      Nat.min_eq_left (by rw [hpos]; omega)]
    rw [List.length_take, hpos]
    show _ ≤ min _ (o.cur.put x).mem.length
    omega
  refine ⟨hlen, rfl, rfl, ?_⟩
  rw [List.append_nil]
  exact htake

/-- The right padding of a number without room for it, and what `snprint` does then. -/
theorem OutBuf.Ok.settle_padAt_full (h : o.Ok) {x : List UInt8} (c : UInt8) {n : Nat} {ret : Int}
    (hx : x.length ≤ o.cur.room) (hret : ret = OK ∨ ret = ERROR_STRING_TRUNCATED) (hn : n ≠ 0)
    (hroom : o.cur.room ≤ x.length) :
    Simulates (padAt (o.put x) c n >>= fun r =>
        settle o r.1 ret (sub64 o.cur.room r.1.cur.room)) o
      (if n ≠ 1 then .error .badWrite else if ret = OK then .error .assertion else .ok ⟨[], ret, false⟩) := by
  have hused : (o.put x).cur.room = 0 := by rw [OutBuf.room_put]; omega
  rw [(h.put x).padAt_full hused c hn]
  by_cases hone : n = 1
  · rw [if_pos hone, if_neg (not_not.2 hone), ok_bind]
    dsimp only
    rcases hret with rfl | rfl
    · -- The counter has gone below zero, and the assertion sees it.
      have hfits := h.fits
      have hfull := h.full
      have hlen : ¬ sub64 o.cur.room (sub64 0 1) ≤ o.cur.room := by
        rw [show sub64 0 1 = 18446744073709551615 from rfl]
        unfold sub64
        omega
      unfold settle
      rw [if_pos rfl, if_pos rfl, decide_eq_false hlen, cassert_false, error_bind]
      rfl
    · rw [if_neg (by decide), settle_fails (by decide)]
      exact Simulates.ok (h.after_restore_stray hx hroom c _ _ _) (Bool.and_false _).symm
  · rw [if_neg hone, if_pos hone, error_bind]
    rfl

/-- With room, or with nothing to write, the right padding is one more put. -/
theorem OutBuf.Ok.settle_padAt_room (h : o.Ok) {x : List UInt8} (c : UInt8) {n : Nat} {ret : Int}
    (hx : x.length ≤ o.cur.room) (hret : ret = OK ∨ ret = ERROR_STRING_TRUNCATED)
    (hroom : n = 0 ∨ x.length < o.cur.room) :
    Simulates (padAt (o.put x) c n >>= fun r =>
        settle o r.1 ret (sub64 o.cur.room r.1.cur.room)) o
      (if ret = OK then .ok ⟨x ++ (List.replicate n c).take (o.cur.room - x.length), OK, true⟩
      else .ok ⟨[], ret, true⟩) := by
  have hput := h.put x
  have hpad : ∃ m, padAt (o.put x) c n = .ok (o.put (x ++ List.replicate n c), m) := by
    rcases Nat.eq_zero_or_pos n with rfl | hn
    · exact ⟨0, by rw [padAt_zero _ _ hput.room_lt, List.replicate_zero, List.append_nil]⟩
    · exact ⟨_, by rw [hput.padAt_eq (by rw [OutBuf.room_put]; omega), h.put_put]⟩
  obtain ⟨m, hpad⟩ := hpad
  rw [hpad, ok_bind]
  dsimp only
  rcases hret with rfl | rfl
  · have hfit : o.put (x ++ List.replicate n c) =
        o.put (x ++ (List.replicate n c).take (o.cur.room - x.length)) := by
      unfold OutBuf.put
      rw [← Cursor.put_take, List.take_append, List.take_of_length_le hx]
    have hlen : (x ++ (List.replicate n c).take (o.cur.room - x.length)).length ≤ o.cur.room := by
      rw [List.length_append, List.length_take]; omega
    rw [if_pos rfl, hfit, h.settle_put hlen]
    exact Simulates.ok (h.after_put hlen) (Bool.and_true _).symm
  · rw [if_neg (by decide), settle_fails (by decide)]
    exact Simulates.ok (h.after_restore_put _) (Bool.and_true _).symm

/-- The right padding of a number, with room or without, and what `snprint` does then. -/
theorem OutBuf.Ok.settle_padAt (h : o.Ok) {x : List UInt8} (c : UInt8) (n : Nat) (ret : Int)
    (hx : x.length ≤ o.cur.room) (hret : ret = OK ∨ ret = ERROR_STRING_TRUNCATED) :
    Simulates (padAt (o.put x) c n >>= fun r =>
        settle o r.1 ret (sub64 o.cur.room r.1.cur.room)) o
      (if n ≠ 0 ∧ o.cur.room ≤ x.length then
        if n ≠ 1 then .error .badWrite
        else if ret = OK then .error .assertion
        else .ok ⟨[], ret, false⟩
      else if ret = OK then .ok ⟨x ++ (List.replicate n c).take (o.cur.room - x.length), OK, true⟩
      else .ok ⟨[], ret, true⟩) := by
  by_cases hover : n ≠ 0 ∧ o.cur.room ≤ x.length
  · rw [if_pos hover]
    exact h.settle_padAt_full c hx hret hover.1 hover.2
  · rw [if_neg hover]
    exact h.settle_padAt_room c hx hret (by omega)

/-- **Numbers.** `itoa` and the step over its result are the rendering of the number's text. -/
theorem OutBuf.Ok.settle_itoa (h : o.Ok) {val base : Nat} (hbase : 2 ≤ base) (hbase' : base ≤ 16)
    (hval : val < 18446744073709551616) (info : FmtInfo) (positive : Bool) :
    Simulates (itoa o val base info positive >>= fun r =>
        settle o r.1 r.2 (sub64 o.cur.room r.1.cur.room)) o
      ((numText val base info positive).render o.cur.room) := by
  generalize ht : numText val base info positive = t
  unfold NumText.render
  rcases Nat.eq_zero_or_pos o.cur.room with hzero | hroom
  · rw [if_pos (by omega)]
    unfold itoa
    rw [decide_eq_true hbase', cassert_true, ok_bind, if_pos hzero, pure_ok, ok_bind,
      settle_fails truncated_ne_ok]
    have hafter : o.After o [] := OutBuf.After.refl o
    exact Simulates.ok hafter (Bool.and_true _).symm
  · rw [h.itoa_eq hroom hbase hbase' hval, ht]
    dsimp only
    by_cases hdig : o.cur.room ≤ t.digits.length
    · rw [if_pos hdig, if_pos hdig, ok_bind, settle_fails truncated_ne_ok]
      exact Simulates.ok (h.after_restore_put _) (Bool.and_true _).symm
    · rw [if_neg hdig, if_neg hdig]
      have hlen : ((t.core ++ t.left).take o.cur.room).reverse.length =
          min o.cur.room (t.core ++ t.left).length := by
        rw [List.length_reverse, List.length_take]
      have hsim := h.settle_padAt (itoaPads info base positive t.digits.length).char
        (itoaPads info base positive t.digits.length).right
        (if o.cur.room ≤ t.core.length then ERROR_STRING_TRUNCATED else OK)
        (show ((t.core ++ t.left).take o.cur.room).reverse.length ≤ o.cur.room by omega)
        (by split <;> simp)
      rw [bind_assoc]
      simp only [ok_bind]
      have hright : t.right = List.replicate (itoaPads info base positive t.digits.length).right
          (itoaPads info base positive t.digits.length).char := by rw [← ht]; rfl
      generalize itoaPads info base positive t.digits.length = pads at hsim hright ⊢
      convert hsim using 1
      unfold NumText.fitted
      rw [hlen, hright, List.length_replicate]
      have hover : (pads.right ≠ 0 ∧ o.cur.room ≤ min o.cur.room (t.core ++ t.left).length) ↔
          (List.replicate pads.right pads.char ≠ [] ∧ o.cur.room ≤ (t.core ++ t.left).length) := by
        rw [Nat.le_min, ne_eq, ne_eq, List.replicate_eq_nil_iff]
        simp
      have hrest : o.cur.room - min o.cur.room (t.core ++ t.left).length =
          o.cur.room - (t.core ++ t.left).length := by omega
      rw [hrest]
      simp only [hover]
      by_cases hcore : o.cur.room ≤ t.core.length
      · simp [hcore, truncated_ne_ok]
      · simp [hcore]

/-! ## Strings -/

theorem OutBuf.Ok.fillSome_eq (h : o.Ok) (c : UInt8) (len : Nat) :
    fillSome c len o = .ok (o.put (List.replicate len c), (o.put (List.replicate len c)).status) := by
  have hfull := h.full
  have hmem : memsetSome o.cur.mem o.cur.pos c (min len o.cur.room) =
      .ok (patch o.cur.mem o.cur.pos ((List.replicate len c).take o.cur.room)) := by
    unfold memsetSome
    rw [List.take_replicate, Nat.min_comm o.cur.room]
    split
    · rw [storeBytes_ok (by rw [List.length_replicate]; omega)]
    · next hz => rw [show min len o.cur.room = 0 by omega, List.replicate_zero, Lib.patch_nil]
  unfold fillSome
  dsimp only
  rw [utilMin_eq, hmem, ok_bind, pure_ok, sub64_of_le (by omega) h.room_lt]
  simp only [OutBuf.put, Cursor.put, List.length_replicate,
    show o.cur.room - min len o.cur.room = o.cur.room - len by omega]

theorem OutBuf.Ok.copySome_eq (h : o.Ok) (s : CString) {slen : Nat} (hslen : slen ≤ s.strlen) :
    copySome s slen o = .ok (o.put (s.chars.take slen), (o.put (s.chars.take slen)).status) := by
  have hfull := h.full
  have hlen : (s.chars.take slen).length = slen := by
    rw [List.length_take]; exact Nat.min_eq_left hslen
  have hcopy := memscpy_ok o.cur.mem o.cur.pos o.cur.room s.chars 0 slen (by omega)
    (by rw [Nat.zero_add]; exact hslen)
  unfold copySome
  rw [hcopy, ok_bind]
  dsimp only
  rw [pure_ok, sub64_of_le (by omega) h.room_lt]
  simp only [OutBuf.put, Cursor.put, List.drop_zero, List.take_take, hlen,
    Nat.min_comm slen o.cur.room,
    show o.cur.room - min o.cur.room slen = o.cur.room - slen by omega]

theorem strLen_le (s : CString) (info : FmtInfo) : strLen s info ≤ s.strlen := by
  unfold strLen
  split
  · rw [utilMin_eq]; exact Nat.min_le_left _ _
  · exact le_rfl

/-- A string argument that is there is put, and the room that is left reported. -/
theorem OutBuf.Ok.stringtoa_eq (h : o.Ok) (strs : Nat → CString) {valStr : Nat} (hval : valStr ≠ 0)
    (info : FmtInfo) :
    stringtoa strs o valStr info =
      .ok (o.put (strText (strs valStr) info), (o.put (strText (strs valStr) info)).status) := by
  have hfill : ∀ c len, Writes (fillSome c len) (List.replicate len c) :=
    fun c len o h _ => h.fillSome_eq c len
  have hcopy : Writes (copySome (strs valStr) (strLen (strs valStr) info))
      ((strs valStr).chars.take (strLen (strs valStr) info)) :=
    fun o h _ => h.copySome_eq _ (strLen_le _ _)
  unfold stringtoa
  rw [if_neg hval]
  dsimp only
  rcases Nat.eq_zero_or_pos o.cur.room with hzero | hroom
  · have hput : ∀ l, o.put l = o := fun l => by
      unfold OutBuf.put
      rw [Cursor.put_of_full hzero]
    unfold andThen
    rw [h.fillSome_eq, ok_bind, hput, hput]
    dsimp only
    rw [show o.status = ERROR_STRING_TRUNCATED from if_pos hzero, if_pos truncated_ne_ok, pure_ok]
  · exact (hfill _ _).andThen (hcopy.andThen (hfill _ _)) o h hroom

/-- A text that was put and reported as `OutBuf.status` does, and the step over it. -/
theorem OutBuf.Ok.settle_status (h : o.Ok) (l : List UInt8) :
    Simulates (settle o (o.put l) (o.put l).status (sub64 o.cur.room (o.put l).cur.room)) o
      ((Piece.str l).render o.cur.room) := by
  unfold Piece.render
  dsimp only
  rcases Nat.lt_or_ge l.length o.cur.room with hlt | hge
  · rw [OutBuf.status_put_of_lt hlt, if_neg (by omega), h.settle_put hlt.le]
    exact Simulates.ok (h.after_put hlt.le) (Bool.and_true _).symm
  · rw [OutBuf.status_put_of_le hge, if_pos hge, settle_fails truncated_ne_ok]
    exact Simulates.ok (h.after_restore_put _) (Bool.and_true _).symm

/-! ## The descriptor -/

/-- A step over a rendering that wrote nothing and failed. -/
theorem simulates_fails (o : OutBuf) {e : Int} (he : e ≠ OK) (n : Nat) :
    Simulates (settle o o e n) o (.ok ⟨[], e, true⟩) := by
  rw [settle_fails he]
  refine Simulates.ok ?_ (Bool.and_true _).symm
  exact OutBuf.After.refl o

theorem OutBuf.Ok.genStr_simulates (h : o.Ok) (strs : Nat → CString) (info : FmtInfo)
    (arg : UInt64) :
    Simulates (genStr strs o info arg >>= fun r => settle o r.1 r.2.1 r.2.2) o
      ((argPiece strs info arg).render o.cur.room) := by
  have harg : arg.toNat < 18446744073709551616 := arg.toNat_lt
  have hgen : (genStr strs o info arg >>= fun r => settle o r.1 r.2.1 r.2.2) =
      genArg strs o info arg >>= fun r => settle o r.1 r.2 (sub64 o.cur.room r.1.cur.room) := by
    unfold genStr
    rw [bind_assoc]
    rfl
  rw [hgen]
  unfold genArg argPiece
  cases info.type with
  | none => exact simulates_fails o (show ERROR_STRING_INVALID_FORMAT ≠ OK by decide) 0
  | bin => exact h.settle_itoa (by decide) (by decide) harg info true
  | dec =>
    unfold sitoa
    dsimp only
    by_cases hneg : toInt64 arg.toNat < 0
    · rw [if_pos hneg, if_pos hneg]
      exact h.settle_itoa (by decide) (by decide) (sub64_lt _ _) info false
    · rw [if_neg hneg, if_neg hneg]
      exact h.settle_itoa (by decide) (by decide) harg info true
  | octal => exact h.settle_itoa (by decide) (by decide) harg info true
  | lowHex => exact h.settle_itoa (by decide) (by decide) harg info true
  | string =>
    dsimp only
    by_cases hnull : arg.toNat = 0
    · rw [if_pos hnull]
      unfold stringtoa
      rw [if_pos hnull]
      exact simulates_fails o (show ERROR_STRING_MISSING_ARGUMENT ≠ OK by decide) 0
    · rw [if_neg hnull, h.stringtoa_eq strs hnull]
      exact h.settle_status _

theorem OutBuf.Ok.snprintField_simulates (h : o.Ok) (strs : Nat → CString)
    (args : Vector UInt64 MAX_ARG_CNT) (argIdx : Nat) (info : FmtInfo) :
    Simulates (snprintField strs args argIdx info o) o
      ((fieldPiece strs args argIdx info).render o.cur.room) := by
  have hnothing : ∀ e, Simulates (.ok (o, e)) o (.ok ⟨[], e, true⟩) := fun e =>
    Simulates.ok (OutBuf.After.refl o) (Bool.and_true _).symm
  unfold snprintField fieldPiece
  by_cases hnone : info.type = .none
  · rw [if_pos hnone, if_pos hnone]
    exact hnothing OK
  · rw [if_neg hnone, if_neg hnone]
    cases args[argIdx]? with
    | none => exact hnothing _
    | some arg => exact h.genStr_simulates strs info arg

end Field

/-! ## The whole format -/

/-- A computation after one that simulates a rendering without error simulates the two renderings. -/
theorem Simulates.andThen {o : OutBuf} {f g : OutBuf → Exec (OutBuf × Int)} {x : Exec Rendered}
    {y : Nat → Exec Rendered} (ho : o.Ok) (hf : Simulates (f o) o x)
    (hg : ∀ o', o'.Ok → Simulates (g o') o' (y o'.cur.room)) :
    Simulates (GunyahRuntime.andThen f g o) o (x >>= fun r =>
      if r.e ≠ OK then .ok r
      else y (o.cur.room - r.text.length) >>= fun r' =>
        .ok ⟨r.text ++ r'.text, r'.e, r.inside && r'.inside⟩) := by
  unfold GunyahRuntime.andThen
  cases x with
  | error e =>
    rw [show f o = .error e from hf, error_bind, error_bind]
    rfl
  | ok r =>
    obtain ⟨o', hrun, hafter, hflag⟩ := hf
    rw [hrun, ok_bind, ok_bind]
    dsimp only
    by_cases he : r.e ≠ OK
    · rw [if_pos he, if_pos he]
      exact ⟨o', rfl, hafter, hflag⟩
    · have hroom := hafter.room
      have hnext := hg o' (hafter.ok ho)
      rw [show o'.cur.room = o.cur.room - r.text.length by omega] at hnext
      rw [if_neg he, if_neg he]
      cases hy : y (o.cur.room - r.text.length) with
      | error e =>
        rw [hy] at hnext
        rw [error_bind]
        exact hnext
      | ok r' =>
        rw [hy] at hnext
        obtain ⟨o'', hrun', hafter', hflag'⟩ := hnext
        rw [ok_bind]
        exact ⟨o'', hrun', hafter.trans hafter', by rw [hflag', hflag, Bool.and_assoc]⟩

section Loop

variable (strs : Nat → CString) (format : CString) (args : Vector UInt64 MAX_ARG_CNT)

/-- The literal: copied, or refused. -/
theorem snprintLiteral_simulates {o : OutBuf} (h : o.Ok) {fmt literalLen : Nat}
    (hlit : fmt + literalLen ≤ format.strlen) :
    Simulates (snprintLiteral format fmt literalLen o) o
      (if o.cur.room < literalLen then .ok ⟨[], ERROR_STRING_TRUNCATED, true⟩
        else .ok ⟨(format.chars.drop fmt).take literalLen, OK, true⟩) := by
  have hfull := h.full
  have hlen : ((format.chars.drop fmt).take literalLen).length = literalLen := by
    rw [List.length_take, List.length_drop]
    unfold CString.strlen at hlit
    omega
  have hcopy := memscpy_ok o.cur.mem o.cur.pos o.cur.room format.chars fmt literalLen (by omega) hlit
  have hput : (o.put ((format.chars.drop fmt).take literalLen)).cur.mem =
      patch o.cur.mem o.cur.pos ((format.chars.drop fmt).take (min o.cur.room literalLen)) := by
    show patch _ _ (List.take _ (List.take _ _)) = _
    rw [List.take_take]
  unfold snprintLiteral
  rw [hcopy, ok_bind]
  dsimp only
  rw [← hput]
  by_cases hfit : o.cur.room < literalLen
  · rw [if_pos hfit, if_pos hfit]
    exact Simulates.ok (h.after_restore_put _) (Bool.and_true _).symm
  · rw [if_neg hfit, if_neg hfit, sub64_of_le (by omega) h.room_lt]
    have hpos : (o.put ((format.chars.drop fmt).take literalLen)).cur.pos =
        o.cur.pos + literalLen := by
      show o.cur.pos + min _ _ = _
      omega
    have hroom : (o.put ((format.chars.drop fmt).take literalLen)).cur.room =
        o.cur.room - literalLen := by
      rw [OutBuf.room_put, hlen]
    rw [← hpos, ← hroom]
    exact Simulates.ok (h.after_put (by omega)) (Bool.and_true _).symm

/-- A literal and its descriptor are the rendering of a chunk. -/
theorem chunk_simulates {o : OutBuf} (h : o.Ok) {fmt literalLen : Nat} (argIdx : Nat)
    (info : FmtInfo) (hlit : fmt + literalLen ≤ format.strlen) :
    Simulates (andThen (snprintLiteral format fmt literalLen) (snprintField strs args argIdx info) o)
      o (renderChunk ((format.chars.drop fmt).take literalLen) (fieldPiece strs args argIdx info)
        o.cur.room) := by
  have hlen : ((format.chars.drop fmt).take literalLen).length = literalLen := by
    rw [List.length_take, List.length_drop]
    unfold CString.strlen at hlit
    omega
  have hsim := Simulates.andThen (y := fun room => (fieldPiece strs args argIdx info).render room) h
    (snprintLiteral_simulates format h hlit)
    (fun o' ho' => ho'.snprintField_simulates strs args argIdx info)
  unfold renderChunk
  rw [hlen]
  by_cases hfit : o.cur.room < literalLen
  · rw [if_pos hfit, ok_bind, if_pos truncated_ne_ok] at hsim
    rw [if_pos hfit]
    exact hsim
  · rw [if_neg hfit, ok_bind, if_neg (not_not.2 rfl)] at hsim
    dsimp only at hsim
    rw [hlen] at hsim
    rw [if_neg hfit]
    simpa only [Bool.true_and] using hsim

theorem layoutFrom_error {scans fuel fmt : Nat} {f : Fault}
    (h : getNextFmt scans format fmt = .error f) (argIdx : Nat) :
    layoutFrom scans strs format args (fuel + 1) fmt argIdx = .fault f (getNextFmt_fault h) := by
  rw [layoutFrom]
  split
  · next f' h' => cases h.symm.trans h'; rfl
  · next r h' => cases h.symm.trans h'

theorem layoutFrom_ok {scans fuel fmt : Nat} {r : NextFmt}
    (h : getNextFmt scans format fmt = .ok r) (argIdx : Nat) :
    layoutFrom scans strs format args (fuel + 1) fmt argIdx =
      if r.ret ≠ OK then .bad r.ret
      else
        .chunk ((format.chars.drop fmt).take r.literalLen) (fieldPiece strs args argIdx r.info)
          (if r.atEnd then .done
            else layoutFrom scans strs format args fuel (fmt + r.consumedLen)
              (if r.info.type = .none then argIdx else argIdx + 1)) := by
  rw [layoutFrom]
  split
  · next f h' => cases h.symm.trans h'
  · next r' h' => cases h.symm.trans h'; rfl

/-- A pass of the loop, as a chunk followed by the rest. -/
theorem snprintLoop_pass {scans fuel fmt argIdx : Nat} {o : OutBuf} {r : NextFmt}
    (hroom : o.cur.room ≠ 0) (hscan : getNextFmt scans format fmt = .ok r) (hret : r.ret = OK) :
    snprintLoop scans strs format args (fuel + 1) o fmt argIdx =
      andThen (andThen (snprintLiteral format fmt r.literalLen) (snprintField strs args argIdx r.info))
        (fun o' => if r.atEnd then .ok (o', OK)
          else snprintLoop scans strs format args fuel o' (fmt + r.consumedLen)
            (if r.info.type = .none then argIdx else argIdx + 1)) o := by
  rw [snprintLoop, if_neg hroom, hscan, ok_bind, if_neg (not_not.2 hret)]
  conv_rhs => rw [andThen]
  cases andThen (snprintLiteral format fmt r.literalLen) (snprintField strs args argIdx r.info) o with
  | error e => rfl
  | ok x =>
    rw [ok_bind, ok_bind]
    dsimp only
    by_cases he : x.2 = OK
    · rw [he, if_neg (not_not.2 rfl)]
      cases r.atEnd <;> simp [pure_ok]
    · rw [if_pos (.inr he), if_pos he]

/-- **The loop prints the layout.** -/
theorem snprintLoop_simulates (scans fuel : Nat) {o : OutBuf} (h : o.Ok) {fmt : Nat}
    (hfmt : fmt ≤ format.strlen) (argIdx : Nat) :
    Simulates (snprintLoop scans strs format args fuel o fmt argIdx) o
      ((layoutFrom scans strs format args fuel fmt argIdx).render o.cur.room) := by
  have hstop : ∀ (o : OutBuf) (e : Int), Simulates (.ok (o, e)) o (.ok ⟨[], e, true⟩) := fun o e =>
    Simulates.ok (OutBuf.After.refl o) (Bool.and_true _).symm
  induction fuel generalizing o fmt argIdx with
  | zero =>
    unfold snprintLoop layoutFrom Layout.render
    split
    · exact hstop o OK
    · rfl
  | succ fuel ih =>
    cases hscan : getNextFmt scans format fmt with
    | error f =>
      rw [snprintLoop, layoutFrom_error strs format args hscan, Layout.render, hscan, error_bind]
      split
      · exact hstop o OK
      · rfl
    | ok r =>
      obtain ⟨hlit, hnext⟩ := getNextFmt_inside hfmt hscan
      rw [layoutFrom_ok strs format args hscan]
      by_cases hret : r.ret = OK
      · rw [if_neg (not_not.2 hret), Layout.render]
        by_cases hroom : o.cur.room = 0
        · rw [snprintLoop, if_pos hroom, if_pos hroom]
          exact hstop o OK
        · rw [snprintLoop_pass strs format args hroom hscan hret, if_neg hroom]
          refine Simulates.andThen h (chunk_simulates strs format args h argIdx r.info hlit)
            (y := fun room => Layout.render _ room) fun o' ho' => ?_
          cases hend : r.atEnd with
          | true => exact hstop o' OK
          | false => exact ih ho' (hnext hret hend) _
      · rw [snprintLoop, hscan, ok_bind, if_pos hret, if_pos hret, pure_ok, Layout.render]
        split
        · exact hstop o OK
        · exact hstop o r.ret

end Loop

/-! ## `snprint` -/

/-- What a call of `snprint` leaves when it shows a rendering: the text with its terminator, the code
and the count. -/
structure Printed.Shows (p : Printed) (size : Nat) (r : Rendered) : Prop where
  e : p.e = r.e
  inside : p.padsInside = r.inside
  length : p.mem.length = size
  fits : r.text.length < size
  written : p.mem.take (r.text.length + 1) = r.text ++ [0]
  count : p.r = if r.e ≠ ERROR_STRING_TRUNCATED then r.text.length else size

/-- A call does what a rendering says: it shows it, or ends in its fault. -/
def Prints (x : Exec Printed) (size : Nat) : Exec Rendered → Prop
  | .error f => x = .error f
  | .ok r => ∃ p, x = .ok p ∧ p.Shows size r

/-- The terminator is written at the place that was left for it. -/
theorem OutBuf.After.terminate {o o' : OutBuf} {text : List UInt8} (h : o.After o' text) (ho : o.Ok)
    (hpos : o.cur.pos = 0) :
    (patch o'.cur.mem o'.cur.pos [0]).length = o.cur.mem.length ∧
      (patch o'.cur.mem o'.cur.pos [0]).take (text.length + 1) = text ++ [0] := by
  have hfull := (h.ok ho).full
  have hat := h.pos
  have hwritten := h.written
  rw [hpos, Nat.zero_add] at hat
  rw [hpos, List.take_zero, List.nil_append] at hwritten
  refine ⟨by rw [length_patch (by rw [List.length_singleton]; omega), h.length], ?_⟩
  rw [patch, hwritten, List.take_left' (by rw [List.length_append, List.length_singleton])]

/-- **`snprint` prints the layout of its format**, into every buffer. -/
theorem snprint_prints (fuel : Nat) (strs : Nat → CString) {str : List UInt8} (hpos : 0 < str.length)
    (hlt : str.length < 18446744073709551616) (format : CString)
    (args : Vector UInt64 MAX_ARG_CNT) :
    Prints (snprint fuel strs str format args) str.length
      ((layout fuel strs format args).render (str.length - 1)) := by
  have hsize : sub64 str.length 1 = str.length - 1 := sub64_of_le hpos hlt
  have hok : (⟨⟨str, 0, str.length - 1⟩, true⟩ : OutBuf).Ok :=
    ⟨by show 0 + (str.length - 1) + 1 = str.length; omega, hlt⟩
  have hloop := snprintLoop_simulates strs format args fuel fuel hok (Nat.zero_le _) 0
  unfold snprint
  dsimp only
  rw [hsize]
  unfold layout
  cases hr : (layoutFrom fuel strs format args fuel 0 0).render (str.length - 1) with
  | error f =>
    have hrun : snprintLoop fuel strs format args fuel ⟨⟨str, 0, str.length - 1⟩, true⟩ 0 0 =
        .error f := by
      rw [hr] at hloop; exact hloop
    show _ = _
    rw [hrun, error_bind]
  | ok r =>
    rw [hr] at hloop
    obtain ⟨o', hrun, hafter, hflag⟩ := hloop
    obtain ⟨hlen, htext⟩ := hafter.terminate hok rfl
    have hfull := (hafter.ok hok).full
    have hroom : o'.cur.room + r.text.length = str.length - 1 := hafter.room
    have hcount : sub64 (str.length - 1) o'.cur.room = r.text.length := by
      rw [sub64_of_le (by omega) (by omega)]; omega
    rw [hrun, ok_bind]
    dsimp only
    rw [storeByte_ok (by omega), ok_bind, pure_ok, hcount]
    exact ⟨_, rfl, rfl, hflag.trans (Bool.true_and _), hlen, by omega, htext, rfl⟩

end GunyahRuntime
