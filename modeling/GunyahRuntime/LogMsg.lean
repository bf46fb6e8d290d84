/-
# GunyahRuntime.LogMsg -- what a log message sends (`log.c`)

`log_msg` formats into a buffer on its stack and gives the console and the log as many bytes of it as `snprint`
returns. The count is the length of the text except after a truncation: then it is the size of the buffer, and the
terminator and whatever the stack held behind it are sent too. A message is complete (`Layout.Complete`) when nothing
of it that is reached is truncated, and `logMsg_sends_iff` says that these are the messages sent as they should be.
-/
import GunyahRuntime.Console
import GunyahRuntime.LogBuf
import GunyahRuntime.Str.Truncation

namespace GunyahRuntime

/-- `SINGLE_LOG_MSG_SIZE`. -/
def SINGLE_LOG_MSG_SIZE : Nat := 256

/-- What a call of `log_msg` leaves: what `snprint` left in `tmp_log` and returned, the bytes that were sent, and the
console and the log they were sent to. -/
structure Logged where
  printed : Printed
  msg : List UInt8
  console : Console
  log : LogS

/-- `log_msg(level, action, a1, …)`: `tmpLog` is what the stack holds where `tmp_log` lies. -/
def logMsg (fuel : Nat) (strs : Nat → CString) (a1 : CString) (args : Vector UInt64 MAX_ARG_CNT) (console : Console)
    (log : LogS) (tmpLog : Vector UInt8 SINGLE_LOG_MSG_SIZE) : Exec Logged := do
  let ret ← snprint fuel strs tmpLog.toList a1 args
  -- send to console and log: the `ret.r` bytes at `tmp_log`
  let msg ← loadBytes ret.mem 0 ret.r
  let console ← consoleWrite console (some msg)
  let log ← logAppend log msg ret.r
  return ⟨ret, msg, console, log⟩

/-- The promise about a call: what is sent, to the console and to the log, is the terminated text that `snprint` left,
and it is the same whatever was in the buffer before. What a scan that reads outside the format or never ends does
sends nothing. -/
def SendsText (console : Console) (log : LogS) (call : Vector UInt8 SINGLE_LOG_MSG_SIZE → Exec Logged)
    (tmpLog : Vector UInt8 SINGLE_LOG_MSG_SIZE) : Prop :=
  (∃ r, call tmpLog = .ok r ∧ r.msg = r.printed.text ∧
    consoleWrite console (some r.printed.text) = .ok r.console ∧
    logAppend log r.printed.text r.printed.text.length = .ok r.log ∧
    ∀ tmpLog', ∃ r', call tmpLog' = .ok r' ∧ r'.msg = r.msg ∧ r'.console = r.console ∧ r'.log = r.log) ∨
    call tmpLog = .error .badRead ∨ call tmpLog = .error .diverged

/-! ## Complete layouts -/

/-- A piece that is neither truncated nor outside its room. -/
def Piece.Settles (room : Nat) : Piece → Prop
  | .none => True
  | .fails e _ => e ≠ ERROR_STRING_TRUNCATED
  | .str text => text.length < room
  | .num t => t.core.length < room ∧ t.Clear room

/-- Nothing that is reached is truncated: each literal fits, and each piece with it. -/
def Layout.Complete : Layout → Nat → Prop
  | .chunk lit p rest, room =>
    room = 0 ∨ (lit.length ≤ room ∧ p.Settles (room - lit.length) ∧
      (p.GoesOn (room - lit.length) → rest.Complete (room - (lit.length + min p.width (room - lit.length)))))
  | .bad e, room => room = 0 ∨ e ≠ ERROR_STRING_TRUNCATED
  | _, _ => True

instance (room : Nat) : (p : Piece) → Decidable (p.Settles room)
  | .none => inferInstanceAs (Decidable True)
  | .fails e _ => inferInstanceAs (Decidable (e ≠ ERROR_STRING_TRUNCATED))
  | .str text => inferInstanceAs (Decidable (text.length < room))
  | .num t => inferInstanceAs (Decidable (t.core.length < room ∧ t.Clear room))

instance Layout.decidableComplete : (L : Layout) → (room : Nat) → Decidable (L.Complete room)
  | .done, _ => inferInstanceAs (Decidable True)
  | .fault _ _, _ => inferInstanceAs (Decidable True)
  | .bad e, room => inferInstanceAs (Decidable (room = 0 ∨ e ≠ ERROR_STRING_TRUNCATED))
  | .chunk lit p rest, room =>
    have := decidableComplete rest (room - (lit.length + min p.width (room - lit.length)))
    inferInstanceAs (Decidable (_ ∨ (_ ∧ _ ∧ (_ → _))))

/-- A rendering that is not truncated, and stays inside. -/
def RendersComplete : Exec Rendered → Prop
  | .ok r => r.e ≠ ERROR_STRING_TRUNCATED
  | .error e => e = .badRead ∨ e = .diverged

theorem NumText.complete_iff (t : NumText) (room : Nat) :
    RendersComplete (t.render room) ↔ t.core.length < room ∧ t.Clear room := by
  by_cases hclear : t.Clear room
  · rw [render_of_clear hclear]
    by_cases hfit : room ≤ t.core.length
    · rw [if_pos hfit]
      exact iff_of_false (fun h => h rfl) (fun h => Nat.not_lt.2 hfit h.1)
    · rw [if_neg hfit]
      exact iff_of_true (show OK ≠ ERROR_STRING_TRUNCATED by decide) ⟨Nat.lt_of_not_le hfit, hclear⟩
  · rw [render_of_not_clear hclear]
    refine iff_of_false ?_ fun h => hclear h.2
    split
    · rintro (h | h) <;> cases h
    · split
      · exact fun h => h rfl
      · rintro (h | h) <;> cases h

theorem Piece.complete_iff (p : Piece) (room : Nat) : RendersComplete (p.render room) ↔ p.Settles room := by
  cases p with
  | none => exact iff_of_true (show OK ≠ ERROR_STRING_TRUNCATED by decide) trivial
  | fails e h => exact Iff.rfl
  | str text =>
    show RendersComplete (if room ≤ text.length then _ else _) ↔ text.length < room
    split
    · next hfit => exact iff_of_false (fun h => h rfl) (Nat.not_lt.2 hfit)
    · next hfit => exact iff_of_true (show OK ≠ ERROR_STRING_TRUNCATED by decide) (Nat.lt_of_not_le hfit)
  | num t => exact t.complete_iff room

/-- **The complete layouts are those that render without truncation.** -/
theorem Layout.complete_iff (L : Layout) (room : Nat) : RendersComplete (L.render room) ↔ L.Complete room := by
  have hok : RendersComplete (.ok ⟨[], OK, true⟩) := show OK ≠ ERROR_STRING_TRUNCATED by decide
  induction L generalizing room with
  | done => exact iff_of_true hok trivial
  | fault f h =>
    refine iff_of_true ?_ trivial
    unfold Layout.render
    split
    · exact hok
    · exact h
  | bad e =>
    unfold Layout.render Layout.Complete
    split
    · next h => exact iff_of_true hok (.inl h)
    · next h => rw [or_iff_right h]; rfl
  | chunk lit p rest ih =>
    have hpiece := p.complete_iff (room - lit.length)
    have hrenders := Layout.render_chunk lit p rest room
    unfold Layout.Complete
    generalize (Layout.chunk lit p rest).render room = x at hrenders ⊢
    cases hrenders with
    | noRoom hroom => exact iff_of_true hok (.inl hroom)
    | literalCut hroom hlit =>
      rw [or_iff_right hroom]
      exact iff_of_false (fun h => h rfl) fun h => Nat.not_le.2 hlit h.1
    | pieceFaults hroom hlit hr =>
      rw [or_iff_right hroom, and_iff_right hlit]
      rw [hr] at hpiece
      -- a piece that faults has left its room
      have hno := Piece.render_error hr
      exact iff_of_false hno fun h => hno (hpiece.2 h.1)
    | pieceStops hroom hlit hr he =>
      rw [or_iff_right hroom, and_iff_right hlit]
      rw [hr] at hpiece
      obtain ⟨hgo, -⟩ := (Piece.render_ok hr).resolve_left fun h => he h.2.1
      exact ⟨fun h => ⟨hpiece.1 h, fun hgo' => absurd hgo' hgo⟩, fun h => hpiece.2 h.1⟩
    | @goesOn r hroom hlit hr he =>
      rw [or_iff_right hroom, and_iff_right hlit]
      rw [hr] at hpiece
      obtain ⟨hgo, -, -, hlen⟩ := (Piece.render_ok hr).resolve_right fun h => h.2.1 he
      have hsettles : p.Settles (room - lit.length) := hpiece.1 (by
        show r.e ≠ _
        rw [he]
        exact truncated_ne_ok.symm)
      rw [and_iff_right hsettles, forall_prop_of_true hgo, hlen]
      refine Iff.trans ?_ (ih _)
      cases rest.render (room - (lit.length + min p.width (room - lit.length))) with
      | error e => exact Iff.rfl
      | ok r' => exact Iff.rfl

/-! ## Messages -/

section Message

variable {fuel : Nat} {strs : Nat → CString} {a1 : CString} {args : Vector UInt64 MAX_ARG_CNT} {console : Console}
  {log : LogS}

/-- A console takes what it is given. -/
theorem consoleWrite_msg (c : Console) (msg : List UInt8) :
    consoleWrite c (some msg) = .ok (if c.console ≠ 0 then c.send msg else c) := by
  unfold consoleWrite
  split <;> rfl

/-- What a message is sent with: the bytes at `tmp_log` go to the console and to the log. -/
theorem logMsg_parts {tmpLog : Vector UInt8 SINGLE_LOG_MSG_SIZE} {r : Logged}
    (h : logMsg fuel strs a1 args console log tmpLog = .ok r) :
    consoleWrite console (some r.msg) = .ok r.console ∧ logAppend log r.msg r.msg.length = .ok r.log := by
  unfold logMsg at h
  obtain ⟨printed, -, h⟩ := bind_eq_ok.1 h
  obtain ⟨msg, hmsg, h⟩ := bind_eq_ok.1 h
  obtain ⟨console', hwrite, h⟩ := bind_eq_ok.1 h
  obtain ⟨log', hlog, h⟩ := bind_eq_ok.1 h
  obtain rfl := Except.ok.inj h
  have hlen : msg.length = printed.r := by
    unfold loadBytes at hmsg
    split at hmsg
    · obtain rfl := Except.ok.inj hmsg
      rw [List.length_take, List.length_drop]
      omega
    · cases hmsg
  dsimp only
  rw [hlen]
  exact ⟨hwrite, hlog⟩

theorem length_tmpLog (tmpLog : Vector UInt8 SINGLE_LOG_MSG_SIZE) : tmpLog.toList.length = 256 :=
  Vector.length_toList

/-- A message whose format is rendered is sent, as many bytes of it as `snprint` returns, to the console and to the
log. -/
theorem logMsg_ok (hlog : log.Ok) {r : Rendered} (hr : (layout fuel strs a1 args).render 255 = .ok r)
    (tmpLog : Vector UInt8 SINGLE_LOG_MSG_SIZE) :
    ∃ p : Printed, p.Shows SINGLE_LOG_MSG_SIZE r ∧ p.r ≤ p.mem.length ∧
      logMsg fuel strs a1 args console log tmpLog =
        .ok ⟨p, p.mem.take p.r, if console.console ≠ 0 then console.send (p.mem.take p.r) else console,
          log.pushed (p.mem.take p.r)⟩ := by
  have hlen := length_tmpLog tmpLog
  have hprints := snprint_prints fuel strs (show 0 < tmpLog.toList.length by omega) (by omega) a1 args
  rw [hlen, show 256 - 1 = 255 from rfl, hr] at hprints
  obtain ⟨p, hrun, hp⟩ := hprints
  have hmem := hp.length
  have hfits := hp.fits
  have hcount : p.r ≤ p.mem.length := by
    rw [hp.count, hmem]
    split <;> omega
  refine ⟨p, hp, hcount, ?_⟩
  have happend := logAppend_eq hlog (p.mem.take p.r)
  rw [List.length_take, Nat.min_eq_left hcount] at happend
  unfold logMsg
  rw [hrun, ok_bind, loadBytes_ok (by omega), ok_bind, List.drop_zero, consoleWrite_msg, ok_bind, happend, ok_bind,
    pure_ok]

/-- A truncated message: all of the buffer is sent, and the text in it is shorter. -/
theorem not_sendsText_of_truncated (hlog : log.Ok) {r : Rendered}
    (hr : (layout fuel strs a1 args).render 255 = .ok r) (he : r.e = ERROR_STRING_TRUNCATED)
    (tmpLog : Vector UInt8 SINGLE_LOG_MSG_SIZE) : ¬ SendsText console log (logMsg fuel strs a1 args console log) tmpLog := by
  obtain ⟨p, hp, -, hrun⟩ := logMsg_ok hlog hr tmpLog
  unfold SendsText
  rw [hrun]
  rintro (⟨r', hr', hmsg, -, -, -⟩ | h | h)
  swap
  · cases h
  swap
  · cases h
  obtain rfl := Except.ok.inj hr'
  have hnul := Layout.noNul_render (noNul_layoutFrom fuel strs a1 args fuel 0 0) hr
  have hall : p.r = p.mem.length := by
    rw [hp.count, if_neg (not_not.2 he), hp.length]
  have hsent := congrArg List.length hmsg
  dsimp only at hsent
  rw [hall, List.take_length, hp.text_eq hnul, hp.length] at hsent
  have hfits := hp.fits
  omega

/-- Any other message: the text is sent, which is the same in every buffer. -/
theorem sendsText_of_not_truncated (hlog : log.Ok) {r : Rendered}
    (hr : (layout fuel strs a1 args).render 255 = .ok r) (he : r.e ≠ ERROR_STRING_TRUNCATED)
    (tmpLog : Vector UInt8 SINGLE_LOG_MSG_SIZE) : SendsText console log (logMsg fuel strs a1 args console log) tmpLog := by
  have hnul := Layout.noNul_render (noNul_layoutFrom fuel strs a1 args fuel 0 0) hr
  have hmsg : ∀ p : Printed, p.Shows SINGLE_LOG_MSG_SIZE r → p.mem.take p.r = r.text := by
    intro p hp
    have hwritten := congrArg (List.take r.text.length) hp.written
    rw [List.take_take, Nat.min_eq_left (Nat.le_succ _), List.take_left] at hwritten
    rw [hp.count, if_pos he, hwritten]
  obtain ⟨p, hp, -, hrun⟩ := logMsg_ok hlog hr tmpLog
  unfold SendsText
  rw [hrun]
  have htext : p.text = p.mem.take p.r := by rw [hp.text_eq hnul, hmsg p hp]
  obtain ⟨hwrite, happend⟩ := logMsg_parts hrun
  refine .inl ⟨_, rfl, htext.symm, ?_, ?_, fun tmpLog' => ?_⟩
  · dsimp only
    rw [htext]
    exact hwrite
  · dsimp only
    rw [htext]
    exact happend
  · obtain ⟨p', hp', -, hrun'⟩ := logMsg_ok hlog hr tmpLog'
    rw [hmsg p' hp', ← hmsg p hp] at hrun'
    exact ⟨_, hrun', rfl, rfl, rfl⟩

/-- A call sends the text exactly if the layout of its format is rendered without truncation. -/
theorem sendsText_iff_renders (hlog : log.Ok) (tmpLog : Vector UInt8 SINGLE_LOG_MSG_SIZE) :
    SendsText console log (logMsg fuel strs a1 args console log) tmpLog ↔
      RendersComplete ((layout fuel strs a1 args).render 255) := by
  cases hr : (layout fuel strs a1 args).render 255 with
  | error e =>
    have hlen := length_tmpLog tmpLog
    have hprints := snprint_prints fuel strs (show 0 < tmpLog.toList.length by omega) (by omega) a1 args
    rw [hlen, show 256 - 1 = 255 from rfl, hr] at hprints
    have hrun : snprint fuel strs tmpLog.toList a1 args = .error e := hprints
    unfold SendsText logMsg
    rw [hrun, error_bind]
    simp [RendersComplete]
  | ok r =>
    by_cases he : r.e = ERROR_STRING_TRUNCATED
    · exact iff_of_false (not_sendsText_of_truncated hlog hr he tmpLog) fun h => h he
    · exact iff_of_true (sendsText_of_not_truncated hlog hr he tmpLog) he

/-- **What log messages send.** For every format, every five arguments and every console and log: the bytes that
reach the console and the log are the text, and no others, if and only if nothing of the message that is reached is
truncated at 255 characters. -/
theorem logMsg_sends_iff (hlog : log.Ok) (tmpLog : Vector UInt8 SINGLE_LOG_MSG_SIZE) :
    SendsText console log (logMsg fuel strs a1 args console log) tmpLog ↔ (layout fuel strs a1 args).Complete 255 :=
  (sendsText_iff_renders hlog tmpLog).trans (Layout.complete_iff _ 255)

end Message

/-- A console that is registered, before anything has been sent to it. -/
def registeredConsole : Console := ⟨1, List.replicate 16 0, 0, []⟩

/-- A buffer that holds other bytes. -/
def staleLog : Vector UInt8 SINGLE_LOG_MSG_SIZE := .replicate SINGLE_LOG_MSG_SIZE 88

def fortyTwo : Vector UInt64 MAX_ARG_CNT := #v[42, 0, 0, 0, 0]

def shortFormat : CString := CString.ofString "{:d}!" (by decide) (by decide)

/-- A number padded with zeros beyond the buffer. -/
def wideFormat : CString := CString.ofString "{:0256d}" (by decide) (by decide)

/-- A short message, sent from a buffer of other bytes: the console gets `42!`. -/
theorem logMsg_sends_short :
    SendsText registeredConsole earlyLogBuf
      (logMsg 16 noStrings shortFormat fortyTwo registeredConsole earlyLogBuf) staleLog ∧
    (fun r => r.console.sent) <$> logMsg 16 noStrings shortFormat fortyTwo registeredConsole earlyLogBuf staleLog =
      .ok [52, 50, 33] :=
  ⟨(logMsg_sends_iff earlyLogBuf_ok staleLog).2 (by decide +kernel), by decide +kernel⟩

/-- After the truncation of a long one the terminator is sent, and what stood behind it. -/
theorem not_sendsText_wide :
    ¬ ∀ (fuel : Nat) (strs : Nat → CString) (a1 : CString) (args : Vector UInt64 MAX_ARG_CNT) (console : Console)
      (log : LogS) (tmpLog : Vector UInt8 SINGLE_LOG_MSG_SIZE), log.Ok →
      SendsText console log (logMsg fuel strs a1 args console log) tmpLog := by
  intro h
  refine absurd (h 16 noStrings wideFormat fortyTwo registeredConsole earlyLogBuf staleLog earlyLogBuf_ok) ?_
  rw [sendsText_iff_renders earlyLogBuf_ok, Layout.complete_iff]
  decide +kernel

end GunyahRuntime
