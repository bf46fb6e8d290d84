/-
# GunyahRuntime.SyscallFrames -- what a system call changes

The runtime has no privileges to check: who may do what is a matter of which descriptor a call goes through. So the
state is looked at in parts (`Part`), and for every call it is said which parts it may touch (`Call.touches`).
`Changes` is what the functions of the runtime do to the state, one assignment after the other: from it follow that the
other parts are the same (`Changes.kept`), and that the log is appended to and given areas, no more (`Changes.log`).
`aarch64DoSyscall_changes` puts every call in every state under it.
-/
import GunyahRuntime.SyscallSleep

namespace GunyahRuntime

open Lib (lastN)

/-! ## Parts -/

/-- The console without the record of what was sent. -/
def Console.statics (c : Console) : Console := { c with sent := [] }

inductive Part where
  /-- The two tables of descriptors. -/
  | descriptors
  /-- The allocator. -/
  | memory
  /-- The callback of the console and its prefix. -/
  | console
  /-- The table of handlers and the interrupt controller. -/
  | interrupts
  | timer
  /-- The function to call on exit. -/
  | exit
  /-- Whether a line of output starts. -/
  | lines
  /-- Whether any interrupt is let through. -/
  | group
  /-- The size of the buffer of the log. -/
  | buffer
  deriving DecidableEq

/-- The part is the same in both. -/
def Part.Kept (rt rt' : Runtime) : Part → Prop
  | descriptors => rt'.fs = rt.fs
  | memory => rt'.mem = rt.mem
  | console => rt'.tty.console.statics = rt.tty.console.statics
  | interrupts => rt'.irqs = rt.irqs
  | timer => rt'.tty.timer = rt.tty.timer
  | exit => rt'.exitFunc = rt.exitFunc
  | lines => rt'.tty.eol = rt.tty.eol
  | group => rt'.igrpen1 = rt.igrpen1
  | buffer => rt'.tty.log.size = rt.tty.log.size

theorem Part.Kept.refl (rt : Runtime) (p : Part) : p.Kept rt rt := by
  cases p <;> rfl

theorem Part.Kept.trans {p : Part} {rt rt' rt'' : Runtime} (h : p.Kept rt rt') (h' : p.Kept rt' rt'') :
    p.Kept rt rt'' := by
  cases p <;> exact Eq.trans h' h

/-! ## Output -/

/-- What an operation on the log adds to it. -/
def LogOp.text : LogOp → List UInt8
  | .append msg => msg
  | .setBuffer .. => []

theorem logSetBuffer_accepted {buffer : Nat} {area : List UInt8} {log : LogS}
    (h : logSetBuffer buffer area = .ok log) : AreaAccepted buffer area := by
  obtain ⟨hne, h⟩ := of_cassert h
  obtain ⟨hgt, h⟩ := of_cassert h
  obtain ⟨hle, -⟩ := of_cassert h
  exact ⟨of_decide_eq_true hne, of_decide_eq_true hgt, of_decide_eq_true hle⟩

/-- Two runs of the log, one after the other. -/
theorem logRun_two (log : LogS) (ops ops' : List LogOp) :
    logRun log (ops ++ ops') = logRun log ops >>= fun log' => logRun log' ops' := by
  induction ops generalizing log with
  | nil => rfl
  | cons op ops ih =>
    rw [List.cons_append, logRun, logRun]
    cases logStep log op with
    | error e => rfl
    | ok log' => exact ih log'

/-- Messages do not change the size of the buffer. -/
theorem logRun_appends_size {log log' : LogS} {msgs : List (List UInt8)}
    (h : logRun log (msgs.map .append) = .ok log') : log'.size = log.size := by
  induction msgs generalizing log with
  | nil =>
    obtain rfl := Except.ok.inj h
    rfl
  | cons msg msgs ih =>
    obtain ⟨log₁, hstep, h⟩ := bind_eq_ok.1 h
    obtain ⟨_, -, hstep⟩ := bind_eq_ok.1 hstep
    obtain ⟨copied, -, hstep⟩ := bind_eq_ok.1 hstep
    obtain ⟨stored, -, hstep⟩ := bind_eq_ok.1 hstep
    obtain rfl := Except.ok.inj hstep
    exact (ih h).trans rfl

/-- A run of accepted operations keeps the log good, and its buffer reads as the end of everything seen. -/
theorem logRun_reads {log log' : LogS} (hok : log.Ok) {ops : List LogOp} (hacc : ∀ op ∈ ops, op.Accepted)
    (hrun : logRun log ops = .ok log') :
    log'.Ok ∧ log'.reading = lastN (log'.size - 1) (logStream log.reading ops) := by
  have hlen := log.length_reading
  have hself : log.reading = lastN (log.size - 1) log.reading := by rw [← hlen, Lib.lastN_self]
  obtain ⟨log₁, hrun₁, hok₁, -, hread⟩ := logRun_reading ops log log.reading hok hlen.ge hself hacc
  obtain rfl := Except.ok.inj (hrun₁.symm.trans hrun)
  exact ⟨hok₁, hread⟩

/-- Messages only add to what a reader could have seen. -/
theorem logStream_appends {ops : List LogOp} (happends : ∀ op ∈ ops, ∃ msg, op = .append msg) (seen : List UInt8) :
    logStream seen ops = seen ++ ops.flatMap LogOp.text := by
  induction ops generalizing seen with
  | nil => exact (List.append_nil seen).symm
  | cons op ops ih =>
    obtain ⟨msg, rfl⟩ := happends op List.mem_cons_self
    rw [logStream, ih (fun op hop => happends op (List.mem_cons_of_mem _ hop)), List.flatMap_cons, List.append_assoc]
    rfl

/-- `st'` is `st` after some output: the console is asked for nothing but to print, and the log gets messages. -/
structure TtyState.Writes (st st' : TtyState) : Prop where
  timer : st'.timer = st.timer
  console : st'.console.statics = st.console.statics
  log : ∃ msgs : List (List UInt8), logRun st.log (msgs.map .append) = .ok st'.log ∧
    st'.logged = st.logged ++ msgs.flatten

section Writes

variable {st st' st'' : TtyState} {clock : Nat → Nat}

theorem TtyState.Writes.refl (st : TtyState) : st.Writes st :=
  ⟨rfl, rfl, [], rfl, by simp⟩

theorem TtyState.Writes.trans (h : st.Writes st') (h' : st'.Writes st'') : st.Writes st'' := by
  obtain ⟨msgs, hrun, hlogged⟩ := h.log
  obtain ⟨msgs', hrun', hlogged'⟩ := h'.log
  refine ⟨h'.timer.trans h.timer, h'.console.trans h.console, msgs ++ msgs', ?_, ?_⟩
  · rw [List.map_append, logRun_two, hrun, ok_bind, hrun']
  · rw [hlogged', hlogged, List.flatten_append, List.append_assoc]

theorem ttyLog_writes {msg : List UInt8} (h : ttyLog st msg = .ok st') : st.Writes st' := by
  obtain ⟨log, hlog, h⟩ := bind_eq_ok.1 h
  obtain rfl := Except.ok.inj h
  refine ⟨rfl, rfl, [msg], ?_, by simp⟩
  show (logAppend st.log msg msg.length >>= fun log => logRun log []) = _
  rw [hlog]
  rfl

theorem consoleWrite_keeps {console console' : Console} {msg : Option (List UInt8)}
    (h : consoleWrite console msg = .ok console') :
    console'.statics = console.statics := by
  unfold consoleWrite at h
  split at h
  · cases msg with
    | none =>
      dsimp only at h
      split at h
      · obtain ⟨bytes, -, h⟩ := bind_eq_ok.1 h
        obtain rfl := Except.ok.inj h
        rfl
      · obtain rfl := Except.ok.inj h
        rfl
    | some bytes =>
      obtain rfl := Except.ok.inj h
      rfl
  · obtain rfl := Except.ok.inj h
    rfl

theorem ttyConsole_writes {msg : Option (List UInt8)} (h : ttyConsole st msg = .ok st') : st.Writes st' := by
  obtain ⟨console, hconsole, h⟩ := bind_eq_ok.1 h
  obtain rfl := Except.ok.inj h
  exact ⟨rfl, consoleWrite_keeps hconsole, [], rfl, by simp⟩

theorem ttyLineStart_writes (h : ttyLineStart clock st = .ok st') : st.Writes st' := by
  unfold ttyLineStart at h
  split at h
  · obtain ⟨stamp, -, h⟩ := bind_eq_ok.1 h
    obtain ⟨st₁, hlog, h⟩ := bind_eq_ok.1 h
    obtain ⟨st₂, hconsole, h⟩ := bind_eq_ok.1 h
    obtain rfl := Except.ok.inj h
    have hwrites := (ttyLog_writes hlog).trans (ttyConsole_writes hconsole)
    exact ⟨hwrites.timer, hwrites.console, hwrites.log⟩
  · obtain rfl := Except.ok.inj h
    exact .refl _

theorem ttyCut_writes (st : TtyState) (rest : List UInt8) : st.Writes (ttyCut st rest).2 := by
  unfold ttyCut
  split
  · exact .refl _
  · exact ⟨rfl, rfl, [], rfl, by simp⟩

theorem ttyPass_writes {v : IoVec} {head : Nat} {r : TtyState × Nat ⊕ TtyState}
    (h : ttyPass clock v (st, head) = .ok r) :
    r.elim (fun s => st.Writes s.1) fun st' => st.Writes st' := by
  obtain ⟨st₁, hstart, h⟩ := bind_eq_ok.1 h
  have hcut := ttyCut_writes st₁ (v.bytes.drop head)
  dsimp only at h
  generalize ttyCut st₁ (v.bytes.drop head) = cut at h hcut
  obtain ⟨st₂, hconsole, h⟩ := bind_eq_ok.1 h
  obtain ⟨st₃, hlog, h⟩ := bind_eq_ok.1 h
  have hwrites := (((ttyLineStart_writes hstart).trans hcut).trans (ttyConsole_writes hconsole)).trans
    (ttyLog_writes hlog)
  split at h
  · obtain rfl := Except.ok.inj h
    exact hwrites
  · obtain rfl := Except.ok.inj h
    exact hwrites

theorem ttyEntry_writes {v : IoVec} (h : ttyEntry clock st v = .ok st') : st.Writes st' := by
  refine Lib.iterate_post (fun s => st.Writes s.1) (fun st' => st.Writes st') ?_ _ (st, 0) st' (.refl st) h
  intro s r hs hpass
  have hnext := ttyPass_writes hpass
  cases r with
  | inl s' => exact hs.trans hnext
  | inr st' => exact hs.trans hnext

theorem ttyWritev_writes {vecp : List IoVec} {ret : Int} (h : ttyWritev clock st vecp = .ok (ret, st')) :
    st.Writes st' := by
  obtain ⟨⟨retLen, st₁⟩, hloop, h⟩ := bind_eq_ok.1 h
  obtain ⟨-, rfl⟩ := Prod.mk.inj (Except.ok.inj h)
  refine Lib.iterate_post (fun s => st.Writes s.2.2) (fun r => st.Writes r.2) ?_ _ (0, 0, st) _ (.refl st) hloop
  rintro ⟨i, retLen, mid⟩ r hmid hpass
  unfold ttyWritevPass at hpass
  dsimp only at hpass
  split at hpass
  · obtain rfl := Except.ok.inj hpass
    exact hmid
  · obtain ⟨st₂, hentry, hpass⟩ := bind_eq_ok.1 hpass
    obtain rfl := Except.ok.inj hpass
    exact TtyState.Writes.trans hmid (ttyEntry_writes hentry)

end Writes

/-! ## Changes -/

/-- The prefix lies in its buffer, with its terminator. -/
structure Console.Fits (c : Console) : Prop where
  length : c.prefixBuf.length = 16
  fits : c.prefixLen ≤ 15

theorem Console.Fits.of_statics {c c' : Console} (h : c.Fits) (hs : c'.statics = c.statics) : c'.Fits := by
  have hfits : c.statics.Fits := ⟨h.length, h.fits⟩
  rw [← hs] at hfits
  exact ⟨hfits.length, hfits.fits⟩

/-- Setting a prefix keeps it in its buffer, whether or not the string fits. -/
theorem Console.Fits.setPrefix {c : Console} (h : c.Fits) (prefixText : CString) :
    (consoleSetPrefix c prefixText).2.Fits := by
  have hlen := h.length
  obtain ⟨hbuf, hret⟩ := strscpy_fits (show c.prefixBuf.length ≠ 0 by omega) prefixText
  unfold consoleSetPrefix
  generalize strscpy c.prefixBuf prefixText = r at hbuf hret ⊢
  dsimp only
  split
  · exact ⟨hbuf.trans hlen, show (0 : Int) ≤ 15 by decide⟩
  · exact ⟨hbuf.trans hlen, show r.2 ≤ 15 by omega⟩

/-- What no call breaks, on a machine whose counter has the frequency `freq`. -/
structure Runtime.Sound (freq : Nat) (rt : Runtime) : Prop where
  fs : rt.fs.Ok
  console : rt.tty.console.Fits
  log : rt.tty.log.Ok
  timer : rt.tty.timer.Accepted
  timerFreq : rt.tty.timer.timerFreq = freq

/-- What the functions of the runtime do to its state, one assignment after the other; the parts that are assigned to
are in `touched`. -/
inductive Changes (touched : List Part) : Runtime → Runtime → Prop
  | refl (rt : Runtime) : Changes touched rt rt
  | trans {rt rt' rt'' : Runtime} : Changes touched rt rt' → Changes touched rt' rt'' → Changes touched rt rt''
  | output {rt : Runtime} {tty : TtyState} : rt.tty.Writes tty → (.lines ∉ touched → tty.eol = rt.tty.eol) →
      Changes touched rt { rt with tty }
  | setBuffer {rt : Runtime} {buffer : Nat} {area : List UInt8} {log : LogS} :
      .buffer ∈ touched → logSetBuffer buffer area = .ok log → Changes touched rt { rt with tty := { rt.tty with log } }
  | timer {rt : Runtime} (timer : TimerState) : .timer ∈ touched → timer.timerFreq = rt.tty.timer.timerFreq →
      timer.timespecMaxSec = rt.tty.timer.timespecMaxSec → Changes touched rt (rt.setTimer timer)
  | irqs {rt : Runtime} (irqs : IrqState) : .interrupts ∈ touched → Changes touched rt { rt with irqs }
  | mem {rt : Runtime} (mem : Sys) : .memory ∈ touched → Changes touched rt { rt with mem }
  | console {rt : Runtime} (console : Console) : .console ∈ touched → (rt.tty.console.Fits → console.Fits) →
      Changes touched rt (rt.setConsole console)
  | exit {rt : Runtime} (exitFunc : Nat) : .exit ∈ touched → Changes touched rt { rt with exitFunc }
  | fs {rt : Runtime} (fs : FsState) : .descriptors ∈ touched → (rt.fs.Ok → fs.Ok) → Changes touched rt { rt with fs }
  | group {rt : Runtime} (igrpen1 : Bool) : .group ∈ touched → Changes touched rt { rt with igrpen1 }

/-- **The other parts are the same.** -/
theorem Changes.kept {touched : List Part} {rt rt' : Runtime} (h : Changes touched rt rt') {p : Part}
    (hp : p ∉ touched) : p.Kept rt rt' := by
  induction h with
  | refl rt => exact .refl rt p
  | trans _ _ ih ih' => exact ih.trans ih'
  | output hwrites heol =>
    cases p
    case lines => exact heol hp
    case timer => exact hwrites.timer
    case console => exact hwrites.console
    case buffer =>
      obtain ⟨msgs, hrun, -⟩ := hwrites.log
      exact logRun_appends_size hrun
    all_goals rfl
  | setBuffer ht =>
    cases p
    case buffer => exact absurd ht hp
    all_goals rfl
  | timer _ ht =>
    cases p
    case timer => exact absurd ht hp
    all_goals rfl
  | irqs _ ht =>
    cases p
    case interrupts => exact absurd ht hp
    all_goals rfl
  | mem _ ht =>
    cases p
    case memory => exact absurd ht hp
    all_goals rfl
  | console _ ht =>
    cases p
    case console => exact absurd ht hp
    all_goals rfl
  | exit _ ht =>
    cases p
    case exit => exact absurd ht hp
    all_goals rfl
  | fs _ ht =>
    cases p
    case descriptors => exact absurd ht hp
    all_goals rfl
  | group _ ht =>
    cases p
    case group => exact absurd ht hp
    all_goals rfl

/-- **The log is used as it should be**: messages are appended to it, and it is given buffers that it accepts, these
only where the buffer may be touched. -/
theorem Changes.log {touched : List Part} {rt rt' : Runtime} (h : Changes touched rt rt') :
    ∃ ops : List LogOp, (∀ op ∈ ops, op.Accepted) ∧ (.buffer ∉ touched → ∀ op ∈ ops, ∃ msg, op = .append msg) ∧
      logRun rt.tty.log ops = .ok rt'.tty.log ∧ rt'.tty.logged = rt.tty.logged ++ ops.flatMap LogOp.text := by
  have hsame : ∀ {rt rt' : Runtime}, rt'.tty.log = rt.tty.log → rt'.tty.logged = rt.tty.logged →
      ∃ ops : List LogOp, (∀ op ∈ ops, op.Accepted) ∧ (.buffer ∉ touched → ∀ op ∈ ops, ∃ msg, op = .append msg) ∧
        logRun rt.tty.log ops = .ok rt'.tty.log ∧ rt'.tty.logged = rt.tty.logged ++ ops.flatMap LogOp.text := by
    intro rt rt' hlog hlogged
    exact ⟨[], by simp, by simp, by rw [hlog]; rfl, by simp [hlogged]⟩
  induction h with
  | refl rt => exact hsame rfl rfl
  | trans _ _ ih ih' =>
    obtain ⟨ops, hacc, happends, hrun, hlogged⟩ := ih
    obtain ⟨ops', hacc', happends', hrun', hlogged'⟩ := ih'
    refine ⟨ops ++ ops', ?_, ?_, by rw [logRun_two, hrun, ok_bind, hrun'], ?_⟩
    · intro op hop
      exact (List.mem_append.1 hop).elim (hacc op) (hacc' op)
    · intro hno op hop
      exact (List.mem_append.1 hop).elim (happends hno op) (happends' hno op)
    · rw [hlogged', hlogged, List.flatMap_append, List.append_assoc]
  | output hwrites _ =>
    obtain ⟨msgs, hrun, hlogged⟩ := hwrites.log
    refine ⟨msgs.map .append, ?_, ?_, hrun, ?_⟩
    · intro op hop
      obtain ⟨msg, -, rfl⟩ := List.mem_map.1 hop
      trivial
    · intro _ op hop
      obtain ⟨msg, -, rfl⟩ := List.mem_map.1 hop
      exact ⟨msg, rfl⟩
    · rw [hlogged, List.flatMap_map]
      simp [LogOp.text, List.flatMap_def]
  | @setBuffer rt buffer area log ht hset =>
    refine ⟨[.setBuffer buffer area], ?_, fun hno => absurd ht hno, by rw [logRun, logStep, hset]; rfl,
      by simp [LogOp.text]⟩
    intro op hop
    obtain rfl := List.mem_singleton.1 hop
    exact logSetBuffer_accepted hset
  | timer | irqs | mem | console | exit | fs | group => exact hsame rfl rfl

theorem Changes.log_ok {touched : List Part} {rt rt' : Runtime} (h : Changes touched rt rt') (hlog : rt.tty.log.Ok) :
    rt'.tty.log.Ok := by
  obtain ⟨ops, hacc, -, hrun, -⟩ := h.log
  exact (logRun_reads hlog hacc hrun).1

/-- The log keeps the newest text, as long as it keeps its buffer. -/
theorem Changes.reading {touched : List Part} {rt rt' : Runtime} (h : Changes touched rt rt') (hlog : rt.tty.log.Ok)
    (hbuffer : .buffer ∉ touched) :
    ∃ text, rt'.tty.logged = rt.tty.logged ++ text ∧
      rt'.tty.log.reading = lastN (rt.tty.log.size - 1) (rt.tty.log.reading ++ text) := by
  obtain ⟨ops, hacc, happends, hrun, hlogged⟩ := h.log
  have hsize : rt'.tty.log.size = rt.tty.log.size := h.kept hbuffer
  have hread : rt'.tty.log.reading = _ := (logRun_reads hlog hacc hrun).2
  rw [logStream_appends (happends hbuffer), hsize] at hread
  exact ⟨_, hlogged, hread⟩

/-- **Nothing is broken.** -/
theorem Changes.sound {touched : List Part} {rt rt' : Runtime} {freq : Nat} (h : Changes touched rt rt')
    (hs : rt.Sound freq) : rt'.Sound freq := by
  have hlog := h.log_ok hs.log
  induction h with
  | refl => exact hs
  | trans h₁ _ ih ih' => exact ih' (ih hs (h₁.log_ok hs.log)) hlog
  | output hwrites _ =>
    refine ⟨hs.fs, hs.console.of_statics hwrites.console, hlog, ?_, ?_⟩
    · exact (congrArg TimerState.Accepted hwrites.timer).mpr hs.timer
    · exact (congrArg TimerState.timerFreq hwrites.timer).trans hs.timerFreq
  | timer timer _ hfreq hmax =>
    exact ⟨hs.fs, hs.console, hlog, hs.timer.of_statics hfreq hmax, hfreq.trans hs.timerFreq⟩
  | setBuffer | irqs | mem | exit | group => exact ⟨hs.fs, hs.console, hlog, hs.timer, hs.timerFreq⟩
  | console _ _ hfits => exact ⟨hs.fs, hfits hs.console, hlog, hs.timer, hs.timerFreq⟩
  | fs _ _ hok => exact ⟨hok hs.fs, hs.console, hlog, hs.timer, hs.timerFreq⟩

section Frames

variable {env : Env} {c : Call} {rt rt' : Runtime} {a : Answer} {o : Outcome} {touched : List Part}

/-! ## Messages -/

theorem say_changes {m : Message} (h : rt.say env c m = .ok rt') : Changes touched rt rt' := by
  obtain ⟨r, hr, h⟩ := bind_eq_ok.1 h
  obtain rfl := Except.ok.inj h
  obtain ⟨hwrite, hlog⟩ := logMsg_parts hr
  refine .output ⟨rfl, consoleWrite_keeps hwrite, [r.msg], ?_, by simp⟩ fun _ => rfl
  show (logAppend rt.tty.log r.msg r.msg.length >>= fun log => logRun log []) = _
  rw [hlog]
  rfl

theorem sayAll_changes {ms : List Message} (h : rt.sayAll env c ms = .ok rt') : Changes touched rt rt' := by
  induction ms generalizing rt with
  | nil =>
    obtain rfl := Except.ok.inj h
    exact .refl _
  | cons m ms ih =>
    obtain ⟨said, hsay, h⟩ := bind_eq_ok.1 h
    exact (say_changes hsay).trans (ih h)

/-! ## Waiting -/

theorem interruptWait_changes (h : rt.interruptWait env c = .ok rt') : Changes [.interrupts, .timer] rt rt' := by
  obtain ⟨irqs, hwait⟩ := interruptWait_timer env c rt
  obtain rfl := Except.ok.inj (hwait.symm.trans h)
  refine (Changes.timer _ (by simp) ?_ ?_).trans (.irqs irqs (by simp))
  · cases rt.timerTaken env c <;> rfl
  · cases rt.timerTaken env c <;> rfl

theorem currentTicks_changes (env : Env) (rt : Runtime) : Changes touched rt (rt.currentTicks env).2 :=
  .output ⟨rfl, rfl, [], rfl, by simp⟩ fun _ => rfl

theorem storeRemain_changes {remain timeout : Nat} {ret : Int}
    (h : rt.storeRemain env c remain timeout ret = .ok a) : Changes touched rt a.rt := by
  unfold Runtime.storeRemain at h
  split at h
  · obtain rfl := Except.ok.inj h
    exact .refl _
  · obtain ⟨ts, -, h⟩ := bind_eq_ok.1 h
    obtain ⟨_, -, h⟩ := bind_eq_ok.1 h
    obtain rfl := Except.ok.inj h
    exact currentTicks_changes env rt

theorem sleepUntil_changes {remain timeout : Nat} (h : rt.sleepUntil env c remain timeout = .ok a) :
    Changes [.interrupts, .timer] rt a.rt := by
  obtain ⟨woken, hwait, h⟩ := bind_eq_ok.1 h
  have harmed : Changes [.interrupts, .timer] rt (rt.armed timeout) := .timer _ (by simp) rfl rfl
  have hwoken := harmed.trans (interruptWait_changes hwait)
  have hwake : Changes [.interrupts, .timer] woken (woken.setTimer (timerWake woken.tty.timer).2) := by
    refine .timer _ (by simp) ?_ ?_
    · unfold timerWake
      split <;> rfl
    · unfold timerWake
      split <;> rfl
  exact (hwoken.trans hwake).trans (storeRemain_changes h)

theorem timerSetAndWait_changes {relative : Bool} {req remain : Nat}
    (h : rt.timerSetAndWait env c relative req remain = .ok a) : Changes [.interrupts, .timer] rt a.rt := by
  obtain ⟨ts, -, ⟨-, rfl⟩ | ⟨-, ⟨-, rfl⟩ | ⟨-, h⟩⟩⟩ := timerSetAndWait_cases h
  · exact .refl _
  · exact currentTicks_changes env rt
  · exact (currentTicks_changes env rt).trans (sleepUntil_changes h)

/-- Of the calls that sleep. -/
theorem waits_changes {call : Syscall Nat Nat} (h : rt.waits env c call = .ok a) :
    Changes [.interrupts, .timer] rt a.rt := by
  cases call with
  | ret r =>
    obtain rfl := Except.ok.inj h
    exact .refl _
  | poll =>
    obtain ⟨woken, hwait, h⟩ := bind_eq_ok.1 h
    obtain rfl := Except.ok.inj h
    exact interruptWait_changes hwait
  | sleep relative req remain => exact timerSetAndWait_changes h

/-! ## The allocator -/

theorem memRequest_changes {op : Op} {r : Int × Option AllocatorStats × Runtime}
    (h : rt.memRequest env c op = .ok r) : Changes [.memory] rt r.2.2 := by
  obtain ⟨q, -, h⟩ := bind_eq_ok.1 h
  obtain ⟨said, hsaid, h⟩ := bind_eq_ok.1 h
  obtain rfl := Except.ok.inj h
  exact (sayAll_changes hsaid).trans (.mem _ (by simp))

theorem sysMem_changes {op : Op} (h : rt.sysMem env c op = .ok a) : Changes [.memory] rt a.rt := by
  obtain ⟨r, hr, h⟩ := bind_eq_ok.1 h
  obtain rfl := Except.ok.inj h
  exact memRequest_changes hr

/-! ## The devices -/

/-- What `log_set_buffer` installs is the area. -/
theorem ttySetBuffer_accepted {m : AppMem} {buffer size : Nat} {log : LogS}
    (h : ttySetBuffer m buffer size = .ok log) : ∃ area, logSetBuffer buffer area = .ok log := by
  unfold ttySetBuffer at h
  split at h
  · next area _ => exact ⟨area, h⟩
  · split at h <;> cases h

theorem ttyIoctl_changes {cmd arg : Nat} (h : rt.ttyIoctl env c cmd arg = .ok a) :
    Changes (if cmd = TIOCSETBUF then [.buffer] else []) rt a.rt := by
  unfold Runtime.ttyIoctl at h
  split at h
  · obtain ⟨_, -, h⟩ := bind_eq_ok.1 h
    obtain rfl := Except.ok.inj h
    exact .refl _
  split at h
  · next hcmd =>
    obtain ⟨buffer, -, h⟩ := bind_eq_ok.1 h
    obtain ⟨size, -, h⟩ := bind_eq_ok.1 h
    obtain ⟨log, hset, h⟩ := bind_eq_ok.1 h
    obtain rfl := Except.ok.inj h
    obtain ⟨area, hset⟩ := ttySetBuffer_accepted hset
    exact .setBuffer (by simp [hcmd]) hset
  · obtain ⟨said, hsay, h⟩ := bind_eq_ok.1 h
    obtain rfl := Except.ok.inj h
    exact say_changes hsay

theorem consoleIoctl_changes {cmd arg : Nat} (h : rt.consoleIoctl c cmd arg = .ok a) :
    Changes [.console] rt a.rt := by
  unfold Runtime.consoleIoctl at h
  split at h
  · obtain ⟨newConsole, -, h⟩ := bind_eq_ok.1 h
    obtain rfl := Except.ok.inj h
    refine .console _ (by simp) fun hfits => ?_
    unfold consoleRegister
    split
    · exact hfits
    · exact ⟨hfits.length, hfits.fits⟩
  split at h
  · obtain rfl := Except.ok.inj h
    refine .console _ (by simp) fun hfits => ?_
    unfold consoleDeregister
    split
    · exact hfits
    · exact ⟨hfits.length, hfits.fits⟩
  split at h
  · obtain ⟨prefixText, -, h⟩ := bind_eq_ok.1 h
    obtain rfl := Except.ok.inj h
    exact .console _ (by simp) fun hfits => hfits.setPrefix prefixText
  · obtain rfl := Except.ok.inj h
    exact .refl _

theorem exitIoctl_changes {cmd arg : Nat} (h : rt.exitIoctl c cmd arg = .ok a) : Changes [.exit] rt a.rt := by
  unfold Runtime.exitIoctl at h
  split at h
  · obtain ⟨newExitFunc, -, h⟩ := bind_eq_ok.1 h
    obtain rfl := Except.ok.inj h
    exact .exit _ (by simp)
  split at h
  · obtain rfl := Except.ok.inj h
    exact .exit _ (by simp)
  · obtain rfl := Except.ok.inj h
    exact .refl _

theorem irqIoctl_changes {cmd arg : Nat} (h : rt.irqIoctl c cmd arg = .ok a) : Changes [.interrupts] rt a.rt := by
  obtain ⟨q, -, h⟩ := bind_eq_ok.1 h
  obtain ⟨r, -, h⟩ := bind_eq_ok.1 h
  obtain rfl := Except.ok.inj h
  exact .irqs _ (by simp)

theorem memIoctl_changes {cmd arg : Nat} (h : rt.memIoctl env c cmd arg = .ok a) :
    Changes [.memory] rt a.rt := by
  obtain ⟨req, -, h⟩ := bind_eq_ok.1 h
  obtain ⟨r, hr, h⟩ := bind_eq_ok.1 h
  obtain rfl := Except.ok.inj h
  exact memRequest_changes hr

/-- What the ioctls of a file may touch. -/
def File.parts (cmd : Nat) : File → List Part
  | .ttyin | .ttyout => if cmd = TIOCSETBUF then [.buffer] else []
  | .irqFile => [.interrupts]
  | .consoleFile => [.console]
  | .exitFile => [.exit]
  | .memFile => [.memory]

theorem fileIoctl_changes {cmd arg : Nat} {f : File} (h : rt.fileIoctl env c cmd arg f = .ok a) :
    Changes (f.parts cmd) rt a.rt := by
  cases f with
  | ttyin | ttyout => exact ttyIoctl_changes h
  | irqFile => exact irqIoctl_changes h
  | consoleFile => exact consoleIoctl_changes h
  | exitFile => exact exitIoctl_changes h
  | memFile => exact memIoctl_changes h

/-! ## The calls -/

/-- Writing through a descriptor of the line discipline starts and ends lines. -/
theorem sysWritev_changes {fd vec vlen : Nat} (h : rt.sysWritev env c fd vec vlen = .ok a) :
    Changes [.lines] rt a.rt := by
  obtain ⟨r, -, h⟩ := bind_eq_ok.1 h
  cases r with
  | returned ret =>
    obtain rfl := Except.ok.inj h
    exact .refl _
  | handler f =>
    obtain ⟨vecp, -, h⟩ := bind_eq_ok.1 h
    obtain ⟨⟨ret, tty⟩, hwritev, h⟩ := bind_eq_ok.1 h
    obtain rfl := Except.ok.inj h
    exact .output (ttyWritev_writes hwritev) fun hno => absurd List.mem_cons_self hno

/-- The parts of the device behind a descriptor. -/
def fdParts (rt : Runtime) (fd cmd : Nat) : List Part :=
  match sysIoctl rt.fs fd with
  | .ok (.handler f) => f.parts cmd
  | _ => []

theorem sysIoctl_changes {fd cmd arg : Nat} (h : rt.sysIoctl env c fd cmd arg = .ok a) :
    Changes (fdParts rt fd cmd) rt a.rt := by
  obtain ⟨r, hr, h⟩ := bind_eq_ok.1 h
  unfold fdParts
  rw [hr]
  cases r with
  | returned ret =>
    obtain rfl := Except.ok.inj h
    exact .refl _
  | handler f => exact fileIoctl_changes h

theorem sysOpenat_ok {libc : Fcntl} {s s' : FsState} (hs : s.Ok) {dirfd : Int} {pathname : CString}
    {flags mode : BitVec 32} {ret : Int} (h : sysOpenat libc s dirfd pathname flags mode = .ok (ret, s')) : s'.Ok := by
  rcases sysOpenat_cases libc s dirfd pathname flags mode with ⟨e, -, hrefused, -⟩ | ⟨f, -, -, halloc⟩
  · rw [hrefused] at h
    obtain ⟨-, rfl⟩ := Prod.mk.inj (Except.ok.inj h)
    exact hs
  · rw [halloc] at h
    rcases fsAllocFd_spec libc hs f flags with ⟨hfull, -⟩ | ⟨fd, -, s₁, hopened, -, -, hrep, -⟩
    · rw [hfull] at h
      obtain ⟨-, rfl⟩ := Prod.mk.inj (Except.ok.inj h)
      exact hs
    · rw [hopened] at h
      obtain ⟨-, rfl⟩ := Prod.mk.inj (Except.ok.inj h)
      exact hrep.ok

theorem sysClose_ok {s s' : FsState} (hs : s.Ok) {fd : Nat} {ret : Int} (h : sysClose s fd = .ok (ret, s')) :
    s'.Ok := by
  rcases sysClose_spec hs fd with ⟨hbad, -⟩ | ⟨s₁, hclosed, -, hrep⟩
  · rw [hbad] at h
    obtain ⟨-, rfl⟩ := Prod.mk.inj (Except.ok.inj h)
    exact hs
  · rw [hclosed] at h
    obtain ⟨-, rfl⟩ := Prod.mk.inj (Except.ok.inj h)
    exact hrep.ok

theorem sysOpenat_changes {dirfd : Int} {pathname : Nat} {flags mode : BitVec 32}
    (h : rt.sysOpenat env c dirfd pathname flags mode = .ok a) : Changes [.descriptors] rt a.rt := by
  unfold Runtime.sysOpenat at h
  split at h
  · obtain rfl := Except.ok.inj h
    exact .refl _
  · obtain ⟨path, -, h⟩ := bind_eq_ok.1 h
    obtain ⟨r, hr, h⟩ := bind_eq_ok.1 h
    obtain rfl := Except.ok.inj h
    exact .fs _ (by simp) fun hs => sysOpenat_ok hs hr

theorem sysClose_changes {fd : Nat} (h : rt.sysClose fd = .ok a) : Changes [.descriptors] rt a.rt := by
  obtain ⟨r, hr, h⟩ := bind_eq_ok.1 h
  obtain rfl := Except.ok.inj h
  exact .fs _ (by simp) fun hs => sysClose_ok hs hr

theorem exitLoop_changes {ec : Int} (h : rt.exitLoop env c ec = .ok o) : Changes [.group] rt o.rt := by
  obtain ⟨said, hsay, h⟩ := bind_eq_ok.1 h
  obtain rfl := Except.ok.inj h
  exact (say_changes hsay).trans (.group _ (by simp))

/-- What a call may touch. -/
def Call.touches (rt : Runtime) (c : Call) : List Part :=
  match sysNumOf c.sysNum with
  | some .writev => [.lines]
  | some .ppoll | some .clockNanosleep => [.interrupts, .timer]
  | some .ioctl => fdParts rt (c.arg32 0) (c.arg32 1)
  | some .openat | some .close => [.descriptors]
  | some .brk | some .mmap | some .munmap => [.memory]
  | some .tkill | some .exit | some .exitGroup => [.group]
  | some .setTidAddress | none => []

theorem outcome_map {x : Exec Answer} (h : Answer.outcome <$> x = .ok o) : ∃ a, x = .ok a ∧ a.outcome = o := by
  cases x with
  | error e => cases h
  | ok a => exact ⟨a, rfl, Except.ok.inj h⟩

/-- **A call changes what it may touch**, for every call in every state, whether it succeeds or fails. -/
theorem aarch64DoSyscall_changes (h : rt.aarch64DoSyscall env c = .ok o) : Changes (c.touches rt) rt o.rt := by
  unfold Runtime.aarch64DoSyscall at h
  unfold Call.touches
  cases hnum : sysNumOf c.sysNum with
  | none =>
    rw [hnum] at h
    obtain ⟨said, hsay, h⟩ := bind_eq_ok.1 h
    obtain rfl := Except.ok.inj h
    exact say_changes hsay
  | some num =>
    rw [hnum] at h
    cases num with
    | writev =>
      obtain ⟨a, ha, rfl⟩ := outcome_map h
      exact sysWritev_changes ha
    | ppoll =>
      obtain ⟨a, ha, rfl⟩ := outcome_map h
      exact waits_changes ha
    | clockNanosleep =>
      obtain ⟨a, ha, rfl⟩ := outcome_map h
      exact waits_changes ha
    | ioctl =>
      obtain ⟨a, ha, rfl⟩ := outcome_map h
      exact sysIoctl_changes ha
    | openat =>
      obtain ⟨a, ha, rfl⟩ := outcome_map h
      exact sysOpenat_changes ha
    | close =>
      obtain ⟨a, ha, rfl⟩ := outcome_map h
      exact sysClose_changes ha
    | brk | mmap | munmap =>
      obtain ⟨a, ha, rfl⟩ := outcome_map h
      exact sysMem_changes ha
    | setTidAddress =>
      obtain rfl := Except.ok.inj h
      exact .refl _
    | tkill =>
      dsimp only at h
      split at h
      · exact exitLoop_changes h
      · obtain rfl := Except.ok.inj h
        exact .refl _
    | exit | exitGroup => exact exitLoop_changes h

end Frames

end GunyahRuntime
