/-
# GunyahRuntime.Tty -- the line discipline (`tty.c`)

`tty_writev` sends the entries of a `writev` to the console and to the log, a line at a time: at the
start of each line the log gets a timestamp and the console its prefix. Whether a line starts is a
static flag that outlives the call. The loop over an entry is a `do … while`, so it runs once for an
entry of length zero as well: at the start of a line that marks a line nothing is written to, and a
`NULL` base makes `console_write` print the prefix.

A pass of that loop is reasoned about through `Tracks`: from one state to another the bytes of a stretch
went out with their lines marked.
-/
import GunyahRuntime.Console
import GunyahRuntime.LogBuf
import GunyahRuntime.Timer
import GunyahRuntime.Str.Safety
import GunyahRuntime.Lib.Lines

namespace GunyahRuntime

/-- One `struct iovec`: the bytes at its base, and whether the base is `NULL`, which only an entry of
length zero can have. -/
structure IoVec where
  null : Bool
  bytes : List UInt8
  null_empty : null = true → bytes = []

/-- `iov_len`. -/
def IoVec.iovLen (v : IoVec) : Nat := v.bytes.length

/-- What `tty_writev` works on: its static flag, the console, the log, the statics of the timer, and how
often the counter has been read. `logged` records every byte that was appended to the log. -/
structure TtyState where
  eol : Bool
  console : Console
  log : LogS
  logged : List UInt8
  timer : TimerState
  reads : Nat

/-- `memchr(s, c, n)`, as an index, over the bytes it is given. -/
def memchr (c : UInt8) : List UInt8 → Option Nat
  | [] => none
  | b :: s => if b = c then some 0 else (memchr c s).map (· + 1)

/-- `log_append(msg, sz)` on the tty's log. -/
def ttyLog (st : TtyState) (msg : List UInt8) : Exec TtyState := do
  let log ← logAppend st.log msg msg.length
  return { st with log, logged := st.logged ++ msg }

/-- `console_write(msg, sz)` on the tty's console. -/
def ttyConsole (st : TtyState) (msg : Option (List UInt8)) : Exec TtyState := do
  let console ← consoleWrite st.console msg
  return { st with console }

def stampFormat : CString := CString.ofString "{:d}.{:06d}: " (by decide) (by decide)

/-- The characters up to the terminator, for `strlen`. -/
def stringIn (mem : List UInt8) : Exec (List UInt8) :=
  if 0 ∈ mem then .ok (mem.takeWhile (· ≠ 0)) else .error .badRead

/-- The timestamp of a counter reading, as it stands in `stamp[16]`. What was on the stack before does
not matter: `strlen` stops at the terminator. -/
def ttyStamp (timer : TimerState) (curticks : Nat) : Exec (List UInt8) := do
  let ts ← ticksToTimespec timer curticks
  let p ← snprint 32 noStrings (List.replicate 16 0) stampFormat
    #v[UInt64.ofNat ts.tvSec.toNat, UInt64.ofNat (ts.tvNsec.toNat / 1000), 0, 0, 0]
  stringIn p.mem

/-- `if (eol) { … }`: the timestamp and the prefix. `clock` is the counter, reading by reading. -/
def ttyLineStart (clock : Nat → Nat) (st : TtyState) : Exec TtyState :=
  if st.eol then do
    let stamp ← ttyStamp st.timer (clock st.reads)
    let st ← ttyLog { st with reads := st.reads + 1 } stamp
    let st ← ttyConsole st none
    return { st with eol := false }
  else
    .ok st

/-- `len` and `eol`, from what `memchr` found in the rest of the entry. -/
def ttyCut (st : TtyState) (rest : List UInt8) : Nat × TtyState :=
  match memchr 10 rest with
  | none => (rest.length, st)
  | some next => (next + 1, { st with eol := true })

/-- One pass of the inner loop, from offset `head` of the entry. -/
def ttyPass (clock : Nat → Nat) (v : IoVec) (s : TtyState × Nat) :
    Exec (TtyState × Nat ⊕ TtyState) := do
  let (st, head) := s
  let st ← ttyLineStart clock st
  let rest := v.bytes.drop head
  let (len, st) := ttyCut st rest
  -- a `NULL` base makes the console print its prefix
  let st ← ttyConsole st (if v.null then none else some (rest.take len))
  let st ← ttyLog st (rest.take len)
  -- the test is at the end, so an entry of length zero gets here too
  if v.iovLen - (head + len) > 0 then return .inl (st, head + len) else return .inr st

/-- The inner loop, over one entry. -/
def ttyEntry (clock : Nat → Nat) (st : TtyState) (v : IoVec) : Exec TtyState :=
  Lib.iterate .diverged (ttyPass clock v) (v.iovLen + 1) (st, 0)

/-- One pass of the outer loop: `i` is an `index_t` and is compared with a `size_t`. -/
def ttyWritevPass (clock : Nat → Nat) (vecp : List IoVec) (s : Nat × Nat × TtyState) :
    Exec (Nat × Nat × TtyState ⊕ Nat × TtyState) :=
  let (i, retLen, st) := s
  match vecp[i]? with
  | none => .ok (.inr (retLen, st))
  | some v => do
    let st ← ttyEntry clock st v
    return .inl (u32 (i + 1), u64 (retLen + v.iovLen), st)

/-- `tty_writev(vecp, vlen)`. -/
def ttyWritev (clock : Nat → Nat) (st : TtyState) (vecp : List IoVec) : Exec (Int × TtyState) := do
  let (retLen, st) ←
    Lib.iterate .diverged (ttyWritevPass clock vecp) (vecp.length + 1) (0, 0, st)
  return (toInt64 retLen, st)

/-- A run of calls, with what each returned. -/
def ttyRun (clock : Nat → Nat) (st : TtyState) : List (List IoVec) → Exec (List Int × TtyState)
  | [] => .ok ([], st)
  | vecp :: calls => do
    let (ret, st) ← ttyWritev clock st vecp
    let (rets, st) ← ttyRun clock st calls
    return (ret :: rets, st)

/-! ## Timestamps -/

/-- The newline. -/
def isNewline (c : UInt8) : Bool := c = 10

/-- The timestamp of a reading. -/
def stampText (timer : TimerState) (curticks : Nat) : List UInt8 :=
  match ttyStamp timer curticks with
  | .ok stamp => stamp
  | .error _ => []

/-- A reading of the counter that converts to a time. -/
def Readable (timer : TimerState) (curticks : Nat) : Prop :=
  curticks < 18446744073709551616 ∧ Convertible timer.timerFreq curticks

/-- What the two descriptors of the timestamp decode to. -/
def stampSecInfo : FmtInfo := { type := .dec }
def stampUsecInfo : FmtInfo := { type := .dec, zeroPadding := true, minWidth := 6 }

/-- The layout of a timestamp: two numbers that want no padding on the right. -/
theorem stamp_layout (args : Vector UInt64 MAX_ARG_CNT) :
    layout 32 noStrings stampFormat args =
      .chunk [] (fieldPiece noStrings args 0 stampSecInfo)
        (.chunk ['.'.toUInt8] (fieldPiece noStrings args 1 stampUsecInfo)
          (.chunk [':'.toUInt8, ' '.toUInt8] .none .done)) := by
  have hsec : getNextFmt 32 stampFormat 0 = .ok ⟨OK, stampSecInfo, 4, 0, false⟩ := by rfl
  have husec : getNextFmt 32 stampFormat 4 = .ok ⟨OK, stampUsecInfo, 7, 1, false⟩ := by rfl
  have hend : getNextFmt 32 stampFormat 11 = .ok ⟨OK, {}, 3, 2, true⟩ := by rfl
  have hthird : layoutFrom 32 noStrings stampFormat args 30 11 2 =
      .chunk [':'.toUInt8, ' '.toUInt8] .none .done := layoutFrom_ok _ _ _ hend 2
  have hsecond : layoutFrom 32 noStrings stampFormat args 31 4 1 =
      .chunk ['.'.toUInt8] (fieldPiece noStrings args 1 stampUsecInfo)
        (layoutFrom 32 noStrings stampFormat args 30 11 2) := layoutFrom_ok _ _ _ husec 1
  have hfirst : layoutFrom 32 noStrings stampFormat args 32 0 0 =
      .chunk [] (fieldPiece noStrings args 0 stampSecInfo)
        (layoutFrom 32 noStrings stampFormat args 31 4 1) := layoutFrom_ok _ _ _ hsec 0
  rw [hthird] at hsecond
  rw [hsecond] at hfirst
  exact hfirst

theorem fieldPiece_dec_clear (args : Vector UInt64 MAX_ARG_CNT) (argIdx room : Nat) {info : FmtInfo}
    (htype : info.type = .dec) (halign : info.alignment = .default) :
    (fieldPiece noStrings args argIdx info).Clear room := by
  have hright : ∀ val positive, (numText val 10 info positive).right = [] := by
    intro val positive
    show List.replicate (itoaPads info 10 positive _).right _ = []
    unfold itoaPads
    dsimp only
    rw [halign]
    dsimp only
    split <;> rfl
  unfold fieldPiece argPiece
  rw [htype, if_neg (by decide)]
  cases args[argIdx]? with
  | none => trivial
  | some arg =>
    dsimp only
    split
    · exact .inl (hright _ _)
    · exact .inl (hright _ _)

/-- Whatever the two numbers are, the timestamp is printed and terminated. -/
theorem stamp_prints (args : Vector UInt64 MAX_ARG_CNT) :
    ∃ p, snprint 32 noStrings (List.replicate 16 0) stampFormat args = .ok p ∧
      (0 : UInt8) ∈ p.mem := by
  have hprints := snprint_prints 32 noStrings (show 0 < (List.replicate 16 (0 : UInt8)).length by decide)
    (by decide) stampFormat args
  have hscanned : (layout 32 noStrings stampFormat args).Scanned := by
    rw [stamp_layout]
    trivial
  have hclear : (layout 32 noStrings stampFormat args).Clear 15 := by
    rw [stamp_layout]
    exact .inr (.inr ⟨fieldPiece_dec_clear _ _ _ rfl rfl, fun _ =>
      .inr (.inr ⟨fieldPiece_dec_clear _ _ _ rfl rfl, fun _ =>
        .inr (.inr ⟨trivial, fun _ => trivial⟩)⟩)⟩)
  obtain ⟨r, hr⟩ := Layout.render_total hscanned hclear
  have hroom : (List.replicate 16 (0 : UInt8)).length - 1 = 15 := by decide
  rw [hroom, hr] at hprints
  obtain ⟨p, hrun, hp⟩ := hprints
  exact ⟨p, hrun, List.mem_of_getElem? hp.terminated⟩

/-- The timestamp of a readable counter is printed. -/
theorem ttyStamp_eq {timer : TimerState} (ha : timer.Accepted) {curticks : Nat}
    (h : Readable timer curticks) : ttyStamp timer curticks = .ok (stampText timer curticks) := by
  obtain ⟨ts, hts⟩ := ticksToTimespec_reading ha h.1 h.2
  obtain ⟨p, hrun, hmem⟩ := stamp_prints
    #v[UInt64.ofNat ts.tvSec.toNat, UInt64.ofNat (ts.tvNsec.toNat / 1000), 0, 0, 0]
  have hstamp : ttyStamp timer curticks = .ok (p.mem.takeWhile (· ≠ 0)) := by
    unfold ttyStamp
    rw [hts, ok_bind, hrun, ok_bind]
    exact if_pos hmem
  unfold stampText
  rw [hstamp]

/-! ## Marking the lines -/

/-- The parts of the state the line discipline keeps good. -/
structure TtyState.Ok (st : TtyState) : Prop where
  console : st.console.Ok
  log : st.log.Ok
  timer : st.timer.Accepted

/-- `st'` is `st` after the bytes `l` went out with their lines marked. -/
structure Tracks (clock : Nat → Nat) (st st' : TtyState) (l : List UInt8) : Prop where
  ok : st'.Ok
  sent : st'.console.sent = st.console.sent ++
    Lib.markLines isNewline (fun _ => st.console.linePrefix) st.eol st.reads l
  logged : st'.logged = st.logged ++
    Lib.markLines isNewline (fun k => stampText st.timer (clock k)) st.eol st.reads l
  eol : st'.eol = Lib.lineStart isNewline st.eol l
  reads : st'.reads = st.reads + Lib.linesOpened isNewline st.eol l
  linePrefix : st'.console.linePrefix = st.console.linePrefix
  timer : st'.timer = st.timer

/-- The state in which a line has been marked and nothing is written to it yet. -/
def TtyState.marked (clock : Nat → Nat) (st : TtyState) : TtyState :=
  { st with
    eol := false
    console := st.console.send st.console.linePrefix
    log := st.log.pushed (stampText st.timer (clock st.reads))
    logged := st.logged ++ stampText st.timer (clock st.reads)
    reads := st.reads + 1 }

section Marks

variable {clock : Nat → Nat} {st st' st'' : TtyState} {l m : List UInt8}

theorem TtyState.Ok.tracks_refl (h : st.Ok) : Tracks clock st st [] :=
  ⟨h, (List.append_nil _).symm, (List.append_nil _).symm, rfl, rfl, rfl, rfl⟩

theorem TtyState.Ok.marked (h : st.Ok) : (st.marked clock).Ok :=
  ⟨h.console.send _, h.log.pushed _, h.timer⟩

/-- Two stretches of a stream, one after the other. -/
theorem Tracks.trans (h : Tracks clock st st' l) (h' : Tracks clock st' st'' m) :
    Tracks clock st st'' (l ++ m) where
  ok := h'.ok
  sent := by
    rw [h'.sent, h.sent, h.linePrefix, h.eol, h.reads, Lib.markLines_append, List.append_assoc]
  logged := by
    rw [h'.logged, h.logged, h.timer, h.eol, h.reads, Lib.markLines_append, List.append_assoc]
  eol := by rw [h'.eol, h.eol, Lib.lineStart_append]
  reads := by rw [h'.reads, h.reads, h.eol, Lib.linesOpened_append, Nat.add_assoc]
  linePrefix := h'.linePrefix.trans h.linePrefix
  timer := h'.timer.trans h.timer

/-- At the start of a line, marking it first and then writing is writing. -/
theorem Tracks.of_marked (heol : st.eol = true) (hm : m ≠ [])
    (h : Tracks clock (st.marked clock) st' m) : Tracks clock st st' m where
  ok := h.ok
  sent := by
    rw [h.sent, heol, Lib.markLines_start _ _ _ hm]
    exact List.append_assoc _ _ _
  logged := by
    rw [h.logged, heol, Lib.markLines_start _ _ _ hm]
    exact List.append_assoc _ _ _
  eol := by
    rw [h.eol]
    exact Lib.lineStart_of_ne_nil _ _ _ hm
  reads := by
    rw [h.reads, heol, Lib.linesOpened_start _ hm]
    show st.reads + 1 + _ = st.reads + (_ + 1)
    rw [Nat.add_assoc, Nat.add_comm 1]
    rfl
  linePrefix := h.linePrefix
  timer := h.timer

/-- Marking the line does the same to two states that show the same. -/
theorem Tracks.marked (h : Tracks clock st st' []) :
    Tracks clock (st.marked clock) (st'.marked clock) [] := by
  obtain ⟨hok, hsent, hlogged, -, hreads, hprefix, htimer⟩ := h
  have hreads' : st'.reads = st.reads := hreads
  have hsent' : st'.console.sent = st.console.sent := hsent.trans (List.append_nil _)
  have hlogged' : st'.logged = st.logged := hlogged.trans (List.append_nil _)
  refine ⟨hok.marked, ?_, ?_, rfl, ?_, hprefix, htimer⟩
  · show st'.console.sent ++ st'.console.linePrefix = _ ++ []
    rw [hsent', hprefix, List.append_nil]
    rfl
  · show st'.logged ++ stampText st'.timer (clock st'.reads) = _ ++ []
    rw [hlogged', htimer, hreads', List.append_nil]
    rfl
  · show st'.reads + 1 = _
    rw [hreads']
    rfl

end Marks

/-! ## One pass -/

theorem memchr_none {c : UInt8} {s : List UInt8} (h : memchr c s = none) : ∀ b ∈ s, b ≠ c := by
  induction s with
  | nil => intro b hb; cases hb
  | cons a s ih =>
    rw [memchr] at h
    split at h
    · cases h
    · next hne =>
      intro b hb
      rcases List.mem_cons.1 hb with rfl | hb
      · exact hne
      · exact ih (Option.map_eq_none_iff.1 h) b hb

theorem memchr_some {c : UInt8} {s : List UInt8} : ∀ {n : Nat}, memchr c s = some n →
    s[n]? = some c ∧ ∀ b ∈ s.take n, b ≠ c := by
  induction s with
  | nil => intro n h; cases h
  | cons a s ih =>
    intro n h
    rw [memchr] at h
    split at h
    · next heq =>
      obtain rfl : 0 = n := Option.some.inj h
      exact ⟨congrArg some heq, fun b hb => by cases hb⟩
    · next hne =>
      obtain ⟨k, hk, rfl⟩ := Option.map_eq_some_iff.1 h
      obtain ⟨hat, hbefore⟩ := ih hk
      refine ⟨hat, fun b hb => ?_⟩
      rw [List.take_succ_cons] at hb
      rcases List.mem_cons.1 hb with rfl | hb
      · exact hne
      · exact hbefore b hb

/-- A text without newlines starts no line. -/
theorem lineStart_plain {l : List UInt8} (h : ∀ b ∈ l, b ≠ 10) :
    Lib.lineStart isNewline false l = false := by
  induction l with
  | nil => rfl
  | cons a l ih =>
    have ha : isNewline a = false := decide_eq_false (h a List.mem_cons_self)
    show Lib.lineStart isNewline (isNewline a) l = false
    rw [ha]
    exact ih fun b hb => h b (List.mem_cons_of_mem _ hb)

/-- Inside a line, the cut is a segment: all that is left, or up to the first newline. -/
theorem ttyCut_segment {st : TtyState} (heol : st.eol = false) (rest : List UInt8) :
    ∃ len ≤ rest.length, (rest ≠ [] → 0 < len) ∧
      (∀ b ∈ (rest.take len).dropLast, isNewline b = false) ∧
      ttyCut st rest =
        (len, { st with eol := Lib.lineStart isNewline false (rest.take len) }) := by
  unfold ttyCut
  cases hc : memchr 10 rest with
  | none =>
    have hplain := memchr_none hc
    refine ⟨rest.length, le_rfl, List.length_pos_of_ne_nil, ?_, ?_⟩
    · intro b hb
      rw [List.take_length] at hb
      exact decide_eq_false (hplain b (List.dropLast_subset _ hb))
    · rw [List.take_length, lineStart_plain hplain, ← heol]
  | some next =>
    obtain ⟨hat, hbefore⟩ := memchr_some hc
    obtain ⟨hlt, _⟩ := List.getElem?_eq_some_iff.1 hat
    have htake : rest.take (next + 1) = rest.take next ++ [10] := by
      rw [List.take_add_one, hat]
      rfl
    refine ⟨next + 1, hlt, fun _ => Nat.succ_pos _, ?_, ?_⟩
    · rw [htake, List.dropLast_concat]
      intro b hb
      exact decide_eq_false (hbefore b hb)
    · rw [htake, Lib.lineStart_append]
      rfl

section Pass

variable {clock : Nat → Nat} {st st' : TtyState}

theorem TtyState.Ok.log_eq (h : st.Ok) (msg : List UInt8) :
    ttyLog st msg = .ok { st with log := st.log.pushed msg, logged := st.logged ++ msg } := by
  unfold ttyLog
  rw [logAppend_eq h.log, ok_bind, pure_ok]

theorem TtyState.Ok.console_eq (h : st.Ok) (msg : List UInt8) :
    ttyConsole st (some msg) = .ok { st with console := st.console.send msg } := by
  unfold ttyConsole
  rw [h.console.write_some, ok_bind, pure_ok]

theorem TtyState.Ok.console_null (h : st.Ok) :
    ttyConsole st none = .ok { st with console := st.console.send st.console.linePrefix } := by
  unfold ttyConsole
  rw [h.console.write_null, ok_bind, pure_ok]

/-- At the start of a line it is marked. -/
theorem TtyState.Ok.lineStart_marked (h : st.Ok) (heol : st.eol = true)
    (hread : Readable st.timer (clock st.reads)) :
    ttyLineStart clock st = .ok (st.marked clock) := by
  have hcons : ({ st with
      reads := st.reads + 1
      log := st.log.pushed (stampText st.timer (clock st.reads))
      logged := st.logged ++ stampText st.timer (clock st.reads) } : TtyState).Ok :=
    ⟨h.console, h.log.pushed _, h.timer⟩
  have hlog : ({ st with reads := st.reads + 1 } : TtyState).Ok := ⟨h.console, h.log, h.timer⟩
  unfold ttyLineStart
  rw [if_pos heol, ttyStamp_eq h.timer hread, ok_bind, hlog.log_eq, ok_bind, hcons.console_null,
    ok_bind, pure_ok]
  rfl

/-- What a pass does after the start of a line. -/
def TtyState.wrote (st : TtyState) (seg : List UInt8) : TtyState :=
  { st with
    eol := Lib.lineStart isNewline false seg
    console := st.console.send seg
    log := st.log.pushed seg
    logged := st.logged ++ seg }

theorem TtyState.Ok.wrote_tracks (h : st.Ok) (heol : st.eol = false) {seg : List UInt8}
    (hseg : ∀ b ∈ seg.dropLast, isNewline b = false) : Tracks clock st (st.wrote seg) seg where
  ok := ⟨h.console.send _, h.log.pushed _, h.timer⟩
  sent := by
    rw [heol, Lib.markLines_segment _ _ _ hseg]
    rfl
  logged := by
    rw [heol, Lib.markLines_segment _ _ _ hseg]
    rfl
  eol := by
    rw [heol]
    rfl
  reads := by
    rw [heol, Lib.linesOpened_segment _ hseg]
    rfl
  linePrefix := rfl
  timer := rfl

/-- A pass inside a line writes a segment, and goes round while bytes are left. -/
theorem ttyPass_segment (h : st.Ok) (heol : st.eol = false) {v : IoVec} (hnull : v.null = false)
    {head : Nat} (hhead : head < v.iovLen) :
    ∃ len > 0, head + len ≤ v.iovLen ∧
      Tracks clock st (st.wrote ((v.bytes.drop head).take len)) ((v.bytes.drop head).take len) ∧
      ttyPass clock v (st, head) =
        .ok (if v.iovLen - (head + len) > 0 then
            .inl (st.wrote ((v.bytes.drop head).take len), head + len)
          else .inr (st.wrote ((v.bytes.drop head).take len))) := by
  obtain ⟨len, hle, hpos, hseg, hcut⟩ := ttyCut_segment heol (v.bytes.drop head)
  have hrest : (v.bytes.drop head).length = v.iovLen - head := List.length_drop
  have hne : v.bytes.drop head ≠ [] := List.ne_nil_of_length_pos (by omega)
  have hok' : ({ st with
      eol := Lib.lineStart isNewline false ((v.bytes.drop head).take len) } : TtyState).Ok :=
    ⟨h.console, h.log, h.timer⟩
  have hsent : ({ st with
      eol := Lib.lineStart isNewline false ((v.bytes.drop head).take len)
      console := st.console.send ((v.bytes.drop head).take len) } : TtyState).Ok :=
    ⟨h.console.send _, h.log, h.timer⟩
  refine ⟨len, hpos hne, by omega, h.wrote_tracks heol hseg, ?_⟩
  have hstart : ttyLineStart clock st = .ok st := if_neg (by rw [heol]; decide)
  unfold ttyPass
  dsimp only
  rw [hstart, ok_bind]
  rw [hcut]
  dsimp only
  rw [if_neg (by rw [hnull]; decide), hok'.console_eq, ok_bind, hsent.log_eq, ok_bind]
  split
  · rfl
  · rfl

/-- A pass over an empty entry inside a line writes nothing, if the entry does not print the prefix. -/
theorem ttyPass_empty (h : st.Ok) (heol : st.eol = false) {v : IoVec} (hempty : v.bytes = [])
    (hquiet : v.null = true → st.console.linePrefix = []) :
    ttyPass clock v (st, 0) = .ok (.inr (st.wrote [])) := by
  have hstart : ttyLineStart clock st = .ok st := if_neg (by rw [heol]; decide)
  have hcut : ttyCut st (v.bytes.drop 0) = (0, st) := by rw [hempty]; rfl
  have hsend : ttyConsole st (if v.null then none else some ((v.bytes.drop 0).take 0)) =
      .ok { st with console := st.console.send [] } := by
    cases hv : v.null with
    | true =>
      have hnil := hquiet hv
      show ttyConsole st none = _
      rw [h.console_null, hnil]
    | false => exact h.console_eq []
  have hok' : ({ st with console := st.console.send [] } : TtyState).Ok :=
    ⟨h.console.send _, h.log, h.timer⟩
  have hlen : ¬ v.iovLen - (0 + 0) > 0 := by
    show ¬ v.bytes.length - 0 > 0
    rw [hempty]
    exact Nat.lt_irrefl 0
  unfold ttyPass
  dsimp only
  rw [hstart, ok_bind]
  rw [hcut]
  dsimp only
  rw [hsend, ok_bind, List.take_zero, hok'.log_eq, ok_bind, if_neg hlen, pure_ok]
  show (Except.ok (Sum.inr { st with
    console := st.console.send [], log := st.log.pushed [], logged := st.logged ++ [] }) : Exec _) = _
  unfold TtyState.wrote
  rw [← heol]
  rfl

/-- A pass at the start of a line marks it and goes on inside it. -/
theorem ttyPass_start (h : st.Ok) (heol : st.eol = true)
    (hread : Readable st.timer (clock st.reads)) (v : IoVec) (head : Nat) :
    ttyPass clock v (st, head) = ttyPass clock v (st.marked clock, head) := by
  have hmarked : ttyLineStart clock (st.marked clock) = .ok (st.marked clock) := rfl
  unfold ttyPass
  dsimp only
  rw [h.lineStart_marked heol hread, hmarked]

end Pass

end GunyahRuntime
