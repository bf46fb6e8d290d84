/-
# GunyahRuntime.LogBuf -- the ring log (`log_buf.c`)

`log_append` keeps the newest `size - 1` bytes ever appended, behind a terminating NUL that sits at
`write_idx`. The invariant is `LogS.Ok`; the abstract view of a log is `LogS.reading`, the circular
read from just after the terminator, and one append is "drop from the front what the message pushes
out" on that view.
-/
import GunyahRuntime.Memory
import GunyahRuntime.Lib.Ring

namespace GunyahRuntime

open Lib (patch length_patch patch_nil getElem?_patch take_patch drop_patch lastN lastN_append lastN_lastN_append getElem?_circular ring_store)

/-- `struct log_s`: the bytes of `buffer` run to the end of the area the log was given. -/
structure LogS where
  writeIdx : Nat
  size : Nat
  buffer : List UInt8
  deriving DecidableEq, Repr

/-- `EARLY_SIZE`. -/
def EARLY_SIZE : Nat := 304

/-- `early_log_buf`. -/
def earlyLogBuf : LogS := ⟨0, EARLY_SIZE, List.replicate EARLY_SIZE 0⟩

/-- `log_set_buffer(new_addr, area_sz)`: `area` is what the `area_sz` bytes at `new_addr` hold. The
two header words of `struct log_s` are the first eight of them. -/
def logSetBuffer (newAddr : Nat) (area : List UInt8) : Exec LogS := do
  let areaSz := area.length
  cassert (newAddr ≠ 0)
  cassert (areaSz > 16)
  cassert (areaSz ≤ 524288)
  return { writeIdx := 0, size := u32 (sub64 (sub64 areaSz 4) 4), buffer := area.drop 8 }

/-- `log_append`, the cut: where in the message the copy starts and how many bytes it takes
(`msg_buf`, `checked_sz`). A message that does not fit is cut to its last `size - 1` bytes. -/
def logCut (log : LogS) (sz : Nat) : Nat × Nat :=
  if sz ≥ log.size ∧ log.size ≠ 0 then (sz - (log.size - 1), sub32 log.size 1) else (0, u32 sz)

/-- `log_append`, the copy: up to the end of the buffer, and the rest from its start. -/
def logCopy (log : LogS) (msg : List UInt8) (msgBuf checkedSz : Nat) : Exec (List UInt8) := do
  let (buffer, firstLen) ←
    memscpy log.buffer log.writeIdx (sub64 log.size log.writeIdx) msg msgBuf checkedSz
  let secondLen := sub64 checkedSz firstLen
  if secondLen > 0 then
    let (buffer, _) ← memscpy buffer 0 log.size msg (msgBuf + firstLen) secondLen
    return buffer
  else
    return buffer

/-- `log_append`, the new `write_idx`. -/
def logAdvance (log : LogS) (checkedSz : Nat) : Nat :=
  let writeIdx := u32 (log.writeIdx + checkedSz)
  if writeIdx ≥ log.size then sub32 writeIdx log.size else writeIdx

/-- `log_append(msg, sz)`. -/
def logAppend (log : LogS) (msg : List UInt8) (sz : Nat) : Exec LogS := do
  cassert (log.size ≠ 0)
  let (msgBuf, checkedSz) := logCut log sz
  let buffer ← logCopy log msg msgBuf checkedSz
  let writeIdx := logAdvance log checkedSz
  -- the terminator; a reader starts behind it
  let buffer ← storeByte buffer writeIdx 0
  return { log with writeIdx, buffer }

/-! ## The abstract view -/

/-- The state of a log that its users rely on: the early buffer and every buffer `log_set_buffer`
accepts have it, whatever bytes they hold. -/
structure LogS.Ok (log : LogS) : Prop where
  one_lt : 1 < log.size
  size_le : log.size ≤ 524288
  idx_lt : log.writeIdx < log.size
  length_eq : log.buffer.length = log.size

/-- The circular read of `size - 1` bytes from just after the terminator. -/
def LogS.reading (log : LogS) : List UInt8 :=
  (List.range (log.size - 1)).map fun k => log.buffer.getD ((log.writeIdx + 1 + k) % log.size) 0

theorem LogS.length_reading (log : LogS) : log.reading.length = log.size - 1 := by
  simp [LogS.reading]

/-- The circular read is the tail of the buffer followed by its head. -/
theorem LogS.Ok.reading_eq {log : LogS} (h : log.Ok) :
    log.reading = log.buffer.drop (log.writeIdx + 1) ++ log.buffer.take log.writeIdx := by
  have hlen := h.length_eq
  have hidx := h.idx_lt
  have hsum : (log.buffer.drop (log.writeIdx + 1) ++ log.buffer.take log.writeIdx).length
      = log.size - 1 := by
    rw [List.length_append, List.length_drop, List.length_take, hlen]; omega
  apply List.ext_getElem?
  intro k
  by_cases hk : k < log.size - 1
  · rw [getElem?_circular (by omega) (by omega), LogS.reading, List.getElem?_map,
      List.getElem?_range hk, Option.map_some, List.getD_eq_getElem?_getD, hlen]
    have hmod : (log.writeIdx + 1 + k) % log.size =
        if log.writeIdx + 1 + k < log.size then log.writeIdx + 1 + k
        else log.writeIdx + 1 + k - log.size := by
      split
      · exact Nat.mod_eq_of_lt ‹_›
      · rw [Nat.mod_eq_sub_mod (by omega), Nat.mod_eq_of_lt (by omega)]
    rw [hmod, List.getElem?_eq_getElem (by split <;> omega), Option.getD_some]
  · rw [List.getElem?_eq_none (by rw [LogS.length_reading]; omega),
      List.getElem?_eq_none (by omega)]

/-! ## One append -/

/-- The part of a message that `log_append` keeps. -/
def LogS.kept (log : LogS) (msg : List UInt8) : List UInt8 := lastN (log.size - 1) msg

/-- The buffer after a copy of `x`, before its terminator. -/
def LogS.copied (log : LogS) (x : List UInt8) : List UInt8 :=
  let first := min (log.size - log.writeIdx) x.length
  patch (patch log.buffer log.writeIdx (x.take first)) 0 (x.drop first)

/-- Where the terminator goes after a copy of `n` bytes. -/
def LogS.moved (log : LogS) (n : Nat) : Nat :=
  if log.writeIdx + n ≥ log.size then log.writeIdx + n - log.size else log.writeIdx + n

/-- What one append leaves behind. -/
def LogS.pushed (log : LogS) (msg : List UInt8) : LogS :=
  let x := log.kept msg
  { log with
    writeIdx := log.moved x.length
    buffer := patch (log.copied x) (log.moved x.length) [0] }

theorem LogS.length_kept (log : LogS) (msg : List UInt8) :
    (log.kept msg).length = min msg.length (log.size - 1) := by
  rw [LogS.kept, Lib.lastN, List.length_drop]
  omega

theorem LogS.drop_kept (log : LogS) (msg : List UInt8) :
    msg.drop (msg.length - (log.kept msg).length) = log.kept msg := by
  rw [LogS.length_kept, LogS.kept, Lib.lastN]
  congr 1
  omega

section Append

variable {log : LogS} (h : log.Ok)

include h

theorem LogS.Ok.length_kept_lt (msg : List UInt8) : (log.kept msg).length < log.size := by
  have := h.one_lt
  rw [LogS.length_kept]
  omega

theorem LogS.Ok.moved_lt {n : Nat} (hn : n < log.size) : log.moved n < log.size := by
  have := h.idx_lt
  unfold LogS.moved
  split <;> omega

theorem LogS.Ok.length_copied {x : List UInt8} (hx : x.length < log.size) :
    (log.copied x).length = log.size := by
  have hlen := h.length_eq
  have hidx := h.idx_lt
  have h₁ : log.writeIdx + (x.take (min (log.size - log.writeIdx) x.length)).length
      ≤ log.buffer.length := by
    rw [List.length_take]; omega
  rw [LogS.copied, length_patch, length_patch h₁, hlen]
  rw [length_patch h₁, List.length_drop]
  omega

theorem logCut_eq (msg : List UInt8) :
    logCut log msg.length = (msg.length - (log.kept msg).length, (log.kept msg).length) := by
  have h1 := h.one_lt
  have hmax := h.size_le
  rw [LogS.length_kept, logCut]
  split
  · rw [sub32_of_le (by omega) (by omega)]
    simp only [Prod.mk.injEq]
    omega
  · rw [u32_of_lt (by omega)]
    simp only [Prod.mk.injEq]
    omega

/-- The copy never leaves the buffer or the message, and takes at most two pieces. -/
theorem logCopy_eq {msg : List UInt8} {off n : Nat} (hoff : off + n = msg.length)
    (hn : n < log.size) : logCopy log msg off n = .ok (log.copied (msg.drop off)) := by
  have hidx := h.idx_lt
  have hlen := h.length_eq
  have hmax := h.size_le
  set x := msg.drop off with hx
  have hxlen : x.length = n := by rw [hx, List.length_drop]; omega
  set first := min (log.size - log.writeIdx) n with hfirst
  have hcopy₁ := memscpy_ok log.buffer log.writeIdx (log.size - log.writeIdx) msg off n
    (by omega) (by omega)
  rw [← hx, ← hfirst] at hcopy₁
  set B₁ := patch log.buffer log.writeIdx (x.take first) with hB₁
  have hB₁len : B₁.length = log.size := by
    rw [hB₁, length_patch (by rw [List.length_take]; omega), hlen]
  have hcopy₂ := memscpy_ok B₁ 0 log.size msg (off + first) (n - first) (by omega) (by omega)
  rw [← List.drop_drop, ← hx, show min log.size (n - first) = n - first by omega,
    List.take_of_length_le (by rw [List.length_drop]; omega)] at hcopy₂
  have hB₂ : log.copied x = patch B₁ 0 (x.drop first) := by rw [LogS.copied, hxlen]
  rw [logCopy, sub64_of_le (by omega) (by omega), hcopy₁, ok_bind]
  dsimp only
  rw [sub64_of_le (by omega) (by omega)]
  split
  · rw [hcopy₂, ok_bind, hB₂, pure_ok]
  · -- the whole message fitted before the end of the buffer
    rw [hB₂, List.drop_eq_nil_of_le (by omega), patch_nil, pure_ok]

theorem logAdvance_eq {n : Nat} (hn : n < log.size) : logAdvance log n = log.moved n := by
  have hidx := h.idx_lt
  have hmax := h.size_le
  rw [logAdvance, LogS.moved, u32_of_lt (by omega)]
  split
  · rw [sub32_of_le (by omega) (by omega)]
  · rfl

/-- **`log_append` is total on a good log**: no `assert` fails, no access leaves the buffer or the
message, and the result is `pushed`. -/
theorem logAppend_eq (msg : List UInt8) :
    logAppend log msg msg.length = .ok (log.pushed msg) := by
  have hlt := h.length_kept_lt msg
  have h1 := h.one_lt
  have hle : (log.kept msg).length ≤ msg.length := by rw [LogS.length_kept]; omega
  have hassert : cassert (decide (log.size ≠ 0)) = .ok () := by
    simp [show log.size ≠ 0 by omega]
  rw [logAppend, hassert, ok_bind, logCut_eq h]
  dsimp only
  rw [logCopy_eq h (by omega) hlt, ok_bind, LogS.drop_kept, logAdvance_eq h hlt,
    storeByte_ok (by rw [h.length_copied hlt]; exact h.moved_lt hlt), ok_bind]
  rfl

theorem LogS.Ok.pushed (msg : List UInt8) : (log.pushed msg).Ok := by
  have hlt := h.length_kept_lt msg
  refine ⟨h.one_lt, h.size_le, h.moved_lt hlt, ?_⟩
  show (patch (log.copied (log.kept msg)) (log.moved (log.kept msg).length) [0]).length = log.size
  have hlen := h.length_copied hlt
  rw [length_patch, hlen]
  rw [hlen]
  exact h.moved_lt hlt

/-- **One append on the abstract view**: the reading takes the message in at its new end and keeps
its length. -/
theorem LogS.Ok.reading_pushed (msg : List UInt8) :
    (log.pushed msg).reading = lastN (log.size - 1) (log.reading ++ msg) := by
  have hlt := h.length_kept_lt msg
  have hlen := h.length_copied hlt
  have hmoved := h.moved_lt hlt
  have hone : log.moved (log.kept msg).length + [(0 : UInt8)].length
      ≤ (log.copied (log.kept msg)).length := by
    rw [hlen]; exact hmoved
  have hstore := ring_store (B := log.buffer) (x := log.kept msg) (w := log.writeIdx)
    (by rw [h.length_eq]; exact h.idx_lt) (by rw [h.length_eq]; exact hlt)
  rw [h.length_eq] at hstore
  rw [(h.pushed msg).reading_eq]
  show (patch (log.copied (log.kept msg)) (log.moved (log.kept msg).length) [0]).drop
      (log.moved (log.kept msg).length + 1) ++
    (patch (log.copied (log.kept msg)) (log.moved (log.kept msg).length) [0]).take
      (log.moved (log.kept msg).length) = _
  rw [drop_patch (n := log.moved (log.kept msg).length + 1) hone le_rfl, take_patch hone]
  refine hstore.trans ?_
  rw [← h.reading_eq, lastN_append log.length_reading, LogS.length_kept]
  congr 1
  -- a message of `size` bytes or more leaves nothing of the old reading
  by_cases hm : msg.length ≤ log.size - 1
  · rw [Nat.min_eq_left hm]
  · rw [List.drop_eq_nil_of_le (by rw [LogS.length_reading]; omega),
      List.drop_eq_nil_of_le (by rw [LogS.length_reading]; omega)]

/-- The byte at `write_idx` is NUL after every append. -/
theorem LogS.Ok.terminated (msg : List UInt8) :
    (log.pushed msg).buffer[(log.pushed msg).writeIdx]? = some 0 := by
  have hlt := h.length_kept_lt msg
  show (patch (log.copied (log.kept msg)) (log.moved (log.kept msg).length) [0])[
    log.moved (log.kept msg).length]? = some 0
  rw [getElem?_patch]
  · simp
  · rw [h.length_copied hlt]; exact h.moved_lt hlt

end Append

/-! ## Runs -/

theorem earlyLogBuf_ok : earlyLogBuf.Ok :=
  ⟨by decide, by decide, by decide, List.length_replicate⟩

/-- The log over a freshly installed area. -/
def installed (area : List UInt8) : LogS := ⟨0, area.length - 8, area.drop 8⟩

/-- An area is accepted when its address and size pass the three asserts of `log_set_buffer`. -/
def AreaAccepted (newAddr : Nat) (area : List UInt8) : Prop :=
  newAddr ≠ 0 ∧ 16 < area.length ∧ area.length ≤ 524288

theorem installed_ok {newAddr : Nat} {area : List UInt8} (h : AreaAccepted newAddr area) :
    (installed area).Ok := by
  obtain ⟨_, h1, h2⟩ := h
  refine ⟨?_, ?_, ?_, ?_⟩ <;> simp only [installed, List.length_drop] <;> omega

theorem logSetBuffer_eq {newAddr : Nat} {area : List UInt8} (h : AreaAccepted newAddr area) :
    logSetBuffer newAddr area = .ok (installed area) := by
  obtain ⟨h0, h1, h2⟩ := h
  simp only [logSetBuffer, h0, h1, h2, ne_eq, not_false_eq_true, decide_true, cassert_true, ok_bind,
    pure_ok, installed]
  rw [sub64_of_le (a := area.length) (by omega) (by omega), sub64_of_le (by omega) (by omega),
    u32_of_lt (by omega), Nat.sub_sub]

/-- The two ways the log is used. -/
inductive LogOp where
  | append (msg : List UInt8)
  | setBuffer (newAddr : Nat) (area : List UInt8)

def LogOp.Accepted : LogOp → Prop
  | .append _ => True
  | .setBuffer newAddr area => AreaAccepted newAddr area

def logStep (log : LogS) : LogOp → Exec LogS
  | .append msg => logAppend log msg msg.length
  | .setBuffer newAddr area => logSetBuffer newAddr area

def logRun (log : LogS) : List LogOp → Exec LogS
  | [] => .ok log
  | op :: ops => do logRun (← logStep log op) ops

/-- Everything a reader of the current buffer could have seen: what the buffer read as when it was
installed, followed by every message since. -/
def logStream (seen : List UInt8) : List LogOp → List UInt8
  | [] => seen
  | .append msg :: ops => logStream (seen ++ msg) ops
  | .setBuffer _ area :: ops => logStream (installed area).reading ops

/-- **The run law.** From a good log whose reading is the newest part of `seen`, every run of accepted
operations ends in a good log whose reading is the newest part of the stream. -/
theorem logRun_reading : ∀ (ops : List LogOp) (log : LogS) (seen : List UInt8), log.Ok →
    log.size - 1 ≤ seen.length → log.reading = lastN (log.size - 1) seen →
    (∀ op ∈ ops, op.Accepted) →
    ∃ log', logRun log ops = .ok log' ∧ log'.Ok ∧
      log'.size - 1 ≤ (logStream seen ops).length ∧
      log'.reading = lastN (log'.size - 1) (logStream seen ops) := by
  intro ops
  induction ops with
  | nil => intro log seen h hle hread _; exact ⟨log, rfl, h, hle, hread⟩
  | cons op ops ih =>
    intro log seen h hle hread hacc
    have hrest : ∀ op ∈ ops, op.Accepted := fun o ho => hacc o (List.mem_cons_of_mem _ ho)
    have hop := hacc op List.mem_cons_self
    cases op with
    | append msg =>
      simp only [logRun, logStep, logAppend_eq h msg, ok_bind, logStream]
      refine ih _ _ (h.pushed msg) ?_ ?_ hrest
      · show log.size - 1 ≤ _
        rw [List.length_append]; omega
      · rw [h.reading_pushed msg, hread, lastN_lastN_append hle]
        rfl
    | setBuffer newAddr area =>
      simp only [logRun, logStep, logSetBuffer_eq hop, ok_bind, logStream]
      refine ih _ _ (installed_ok hop) ?_ ?_ hrest
      · rw [LogS.length_reading]
      · rw [← (installed area).length_reading, Lib.lastN_self]

theorem logRun_append (log : LogS) (ops : List LogOp) (op : LogOp) :
    logRun log (ops ++ [op]) = (logRun log ops >>= fun log' => logStep log' op) := by
  induction ops generalizing log with
  | nil =>
    simp only [List.nil_append, logRun, ok_bind]
    cases logStep log op <;> rfl
  | cons o ops ih =>
    simp only [List.cons_append, logRun]
    cases logStep log o with
    | error e => rfl
    | ok log' => simp only [ok_bind]; exact ih log'

/-- **The ring log keeps exactly the newest bytes.** From any good log, any run of appends of any
messages and of accepted buffer changes returns, and after an append the index is inside the buffer,
the byte there is NUL, and the circular reading is the last `size - 1` bytes of everything seen since
the buffer was installed. Every store of the run was checked against the buffer, which still has
`size` bytes. -/
theorem logRun_keeps_newest (log : LogS) (h : log.Ok) (ops : List LogOp)
    (hops : ∀ op ∈ ops, op.Accepted) (msg : List UInt8) :
    ∃ log', logRun log (ops ++ [.append msg]) = .ok log' ∧
      log'.buffer.length = log'.size ∧ log'.writeIdx < log'.size ∧
      log'.buffer[log'.writeIdx]? = some 0 ∧
      log'.reading = lastN (log'.size - 1) (logStream log.reading (ops ++ [.append msg])) := by
  have hacc : ∀ op ∈ ops ++ [.append msg], op.Accepted := by
    intro op hop
    rcases List.mem_append.mp hop with hop | hop
    · exact hops op hop
    · rw [List.mem_singleton.mp hop]; trivial
  have hself : log.reading = lastN (log.size - 1) log.reading := by
    rw [← log.length_reading, Lib.lastN_self]
  have hle : log.size - 1 ≤ log.reading.length := by rw [log.length_reading]
  obtain ⟨mid, hmid, hmidOk, -⟩ := logRun_reading ops log log.reading h hle hself hops
  obtain ⟨log', hrun, hok, -, hread⟩ := logRun_reading _ log log.reading h hle hself hacc
  have hlast : logRun log (ops ++ [.append msg]) = .ok (mid.pushed msg) := by
    rw [logRun_append, hmid, ok_bind]
    exact logAppend_eq hmidOk msg
  obtain rfl : mid.pushed msg = log' := Except.ok.inj (hlast.symm.trans hrun)
  exact ⟨_, hrun, hok.length_eq, hok.idx_lt, hmidOk.terminated msg, hread⟩

/-- The law at a wrapping message: a 9-byte buffer, installed over the early one, and 20 bytes. -/
theorem logRun_keeps_newest_wrap :
    ∃ log', logRun earlyLogBuf
        ([.append [1, 2, 3], .setBuffer 4096 (List.replicate 17 7), .append [5, 6]] ++
          [.append (List.replicate 20 8)]) = .ok log' ∧
      log'.buffer.length = log'.size ∧ log'.writeIdx < log'.size ∧
      log'.buffer[log'.writeIdx]? = some 0 ∧
      log'.reading = lastN (log'.size - 1) (logStream earlyLogBuf.reading
        ([.append [1, 2, 3], .setBuffer 4096 (List.replicate 17 7), .append [5, 6]] ++
          [.append (List.replicate 20 8)])) := by
  refine logRun_keeps_newest earlyLogBuf earlyLogBuf_ok _ ?_ _
  intro op hop
  simp only [List.mem_cons, List.not_mem_nil, or_false] at hop
  rcases hop with rfl | rfl | rfl
  · trivial
  · exact ⟨by decide, by decide, by decide⟩
  · trivial

end GunyahRuntime
