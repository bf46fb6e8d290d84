/-
# GunyahRuntime.SyscallOutput -- what is said while a call runs

Output is the one effect that a call has besides the parts of the state: a message goes to the log and, if there is one,
to the console. `Reports` says of two states which messages were sent in between, as a whole: the record of the log and
that of the console grew by their texts and by nothing else. `Reports.reading` is what this means for the ring: it
reads as the end of what it read as before, followed by the texts.
-/
import GunyahRuntime.SyscallFrames

namespace GunyahRuntime

open Lib (lastN)

/-- What was said in between: all of it went to the log, and to the console if there was one. A line that the
application has started is still started, and the counter has at most been read. -/
structure Reports (ms : List Message) (rt rt' : Runtime) : Prop where
  logged : rt'.tty.logged = rt.tty.logged ++ ms.flatMap Message.text
  sent : rt'.tty.console.sent =
    rt.tty.console.sent ++ if rt.tty.console.console ≠ 0 then ms.flatMap Message.text else []
  eol : rt'.tty.eol = rt.tty.eol
  reads : rt.tty.reads ≤ rt'.tty.reads

/-! ## Saying it -/

section Say

variable {env : Env} {c : Call} {rt rt' said : Runtime} {ms : List Message}

theorem Reports.quiet (hlogged : rt'.tty.logged = rt.tty.logged) (hsent : rt'.tty.console.sent = rt.tty.console.sent)
    (heol : rt'.tty.eol = rt.tty.eol) (hreads : rt.tty.reads ≤ rt'.tty.reads) : Reports [] rt rt' :=
  ⟨by simp [hlogged], by simp [hsent], heol, hreads⟩

/-- Nothing is said where the line discipline, the console's record and the log's are as they were. -/
theorem Reports.same (htty : rt'.tty = rt.tty) : Reports [] rt rt' := by
  refine .quiet ?_ ?_ ?_ (Nat.le_of_eq ?_)
  all_goals rw [htty]

/-- What is done to the rest of the state afterwards. -/
theorem Reports.then (h : Reports ms rt said) (htty : rt'.tty = said.tty) : Reports ms rt rt' := by
  obtain ⟨hlogged, hsent, heol, hreads⟩ := h
  rw [← htty] at hlogged hsent heol hreads
  exact ⟨hlogged, hsent, heol, hreads⟩

theorem Reports.quiet_then (h : Reports [] rt said) (h' : Reports [] said rt') : Reports [] rt rt' := by
  have hlogged := h.logged
  have hsent := h.sent
  have hlogged' := h'.logged
  have hsent' := h'.sent
  simp only [List.flatMap_nil, List.append_nil, ite_self] at hlogged hsent hlogged' hsent'
  exact .quiet (hlogged'.trans hlogged) (hsent'.trans hsent) (h'.eol.trans h.eol) (h.reads.trans h'.reads)

theorem say_reports (hlog : rt.tty.log.Ok) {m : Message} (h : rt.say env c m = .ok said) :
    Reports [m] rt said ∧ said.tty.log.Ok ∧ said.tty.console.console = rt.tty.console.console := by
  obtain ⟨p, hp⟩ := logMessage_eq env.image m rt.tty.console hlog c.stack
  unfold Runtime.say at h
  rw [hp] at h
  obtain rfl := Except.ok.inj h
  have htext : [m].flatMap Message.text = m.text := by simp
  refine ⟨⟨by rw [htext], ?_, rfl, le_rfl⟩, hlog.pushed m.text, ?_⟩
  · rw [htext]
    dsimp only
    split <;> simp [Console.send]
  · dsimp only
    split <;> rfl

theorem sayAll_reports (hlog : rt.tty.log.Ok) (h : rt.sayAll env c ms = .ok said) : Reports ms rt said := by
  induction ms generalizing rt with
  | nil =>
    obtain rfl := Except.ok.inj h
    exact .same rfl
  | cons m ms ih =>
    obtain ⟨mid, hsay, h⟩ := bind_eq_ok.1 h
    obtain ⟨hfirst, hlog', hconsole⟩ := say_reports hlog hsay
    have hrest := ih hlog' h
    refine ⟨?_, ?_, hrest.eol.trans hfirst.eol, hfirst.reads.trans hrest.reads⟩
    · rw [hrest.logged, hfirst.logged]
      simp
    · rw [hrest.sent, hfirst.sent, hconsole]
      split <;> simp

/-- What was said is what the log has got. -/
theorem Reports.reading {touched : List Part} (h : Reports ms rt rt') (hchanges : Changes touched rt rt')
    (hlog : rt.tty.log.Ok) (hbuffer : .buffer ∉ touched) :
    rt'.tty.log.reading = lastN (rt.tty.log.size - 1) (rt.tty.log.reading ++ ms.flatMap Message.text) := by
  obtain ⟨text, hlogged, hread⟩ := hchanges.reading hlog hbuffer
  obtain rfl := List.append_cancel_left (h.logged.symm.trans hlogged)
  exact hread

end Say

/-! ## Calls that say nothing -/

section Quiet

variable {env : Env} {c : Call} {rt rt' : Runtime} {a : Answer}

theorem interruptWait_quiet (h : rt.interruptWait env c = .ok rt') : Reports [] rt rt' := by
  obtain ⟨irqs, hwait⟩ := interruptWait_timer env c rt
  obtain rfl := Except.ok.inj (hwait.symm.trans h)
  exact .quiet rfl rfl rfl le_rfl

theorem storeRemain_quiet {remain timeout : Nat} {ret : Int}
    (h : rt.storeRemain env c remain timeout ret = .ok a) : Reports [] rt a.rt := by
  unfold Runtime.storeRemain at h
  split at h
  · obtain rfl := Except.ok.inj h
    exact .same rfl
  · obtain ⟨ts, -, h⟩ := bind_eq_ok.1 h
    obtain ⟨_, -, h⟩ := bind_eq_ok.1 h
    obtain rfl := Except.ok.inj h
    exact .quiet rfl rfl rfl (Nat.le_succ _)

theorem timerSetAndWait_quiet {relative : Bool} {req remain : Nat}
    (h : rt.timerSetAndWait env c relative req remain = .ok a) : Reports [] rt a.rt := by
  obtain ⟨ts, -, ⟨-, rfl⟩ | ⟨-, ⟨-, rfl⟩ | ⟨-, h⟩⟩⟩ := timerSetAndWait_cases h
  · exact .same rfl
  · exact .quiet rfl rfl rfl (Nat.le_succ _)
  · obtain ⟨woken, hwait, h⟩ := bind_eq_ok.1 h
    -- arming and disarming the timer says nothing
    have harmed := interruptWait_quiet hwait
    have hdisarmed := storeRemain_quiet h
    have hwoken : Reports [] rt woken := ⟨harmed.logged, harmed.sent, harmed.eol, (Nat.le_succ _).trans harmed.reads⟩
    have hleft : Reports [] woken a.rt := ⟨hdisarmed.logged, hdisarmed.sent, hdisarmed.eol, hdisarmed.reads⟩
    exact hwoken.quiet_then hleft

theorem waits_quiet {call : Syscall Nat Nat} (h : rt.waits env c call = .ok a) : Reports [] rt a.rt := by
  cases call with
  | ret r =>
    obtain rfl := Except.ok.inj h
    exact .same rfl
  | poll =>
    obtain ⟨woken, hwait, h⟩ := bind_eq_ok.1 h
    obtain rfl := Except.ok.inj h
    exact interruptWait_quiet hwait
  | sleep relative req remain => exact timerSetAndWait_quiet h

theorem sysOpenat_quiet {dirfd : Int} {pathname : Nat} {flags mode : BitVec 32}
    (h : rt.sysOpenat env c dirfd pathname flags mode = .ok a) : Reports [] rt a.rt := by
  unfold Runtime.sysOpenat at h
  split at h
  · obtain rfl := Except.ok.inj h
    exact .same rfl
  · obtain ⟨path, -, h⟩ := bind_eq_ok.1 h
    obtain ⟨r, -, h⟩ := bind_eq_ok.1 h
    obtain rfl := Except.ok.inj h
    exact .same rfl

theorem sysClose_quiet {fd : Nat} (h : rt.sysClose fd = .ok a) : Reports [] rt a.rt := by
  obtain ⟨r, -, h⟩ := bind_eq_ok.1 h
  obtain rfl := Except.ok.inj h
  exact .same rfl

theorem consoleIoctl_quiet {cmd arg : Nat} (h : rt.consoleIoctl c cmd arg = .ok a) : Reports [] rt a.rt := by
  unfold Runtime.consoleIoctl at h
  split at h
  · obtain ⟨newConsole, -, h⟩ := bind_eq_ok.1 h
    obtain rfl := Except.ok.inj h
    refine .quiet rfl ?_ rfl le_rfl
    show (consoleRegister rt.tty.console newConsole).2.sent = rt.tty.console.sent
    unfold consoleRegister
    split <;> rfl
  split at h
  · obtain rfl := Except.ok.inj h
    refine .quiet rfl ?_ rfl le_rfl
    show (consoleDeregister rt.tty.console).2.sent = rt.tty.console.sent
    unfold consoleDeregister
    split <;> rfl
  split at h
  · obtain ⟨prefixText, -, h⟩ := bind_eq_ok.1 h
    obtain rfl := Except.ok.inj h
    refine .quiet rfl ?_ rfl le_rfl
    show (consoleSetPrefix rt.tty.console prefixText).2.sent = rt.tty.console.sent
    unfold consoleSetPrefix
    cases strscpy rt.tty.console.prefixBuf prefixText with
    | mk prefixBuf prefixLen =>
      dsimp only
      split <;> rfl
  · obtain rfl := Except.ok.inj h
    exact .same rfl

theorem exitIoctl_quiet {cmd arg : Nat} (h : rt.exitIoctl c cmd arg = .ok a) : Reports [] rt a.rt := by
  unfold Runtime.exitIoctl at h
  split at h
  · obtain ⟨newExitFunc, -, h⟩ := bind_eq_ok.1 h
    obtain rfl := Except.ok.inj h
    exact .same rfl
  split at h
  all_goals
    obtain rfl := Except.ok.inj h
    exact .same rfl

theorem irqIoctl_quiet {cmd arg : Nat} (h : rt.irqIoctl c cmd arg = .ok a) : Reports [] rt a.rt := by
  obtain ⟨q, -, h⟩ := bind_eq_ok.1 h
  obtain ⟨r, -, h⟩ := bind_eq_ok.1 h
  obtain rfl := Except.ok.inj h
  exact .same rfl

end Quiet

/-! ## The allocator and the tty -/

section Messages

variable {env : Env} {c : Call} {rt : Runtime}

theorem ttyIoctl_reports (hlog : rt.tty.log.Ok) {cmd arg : Nat} {ans : Answer} (h : rt.ttyIoctl env c cmd arg = .ok ans) :
    Reports (if cmd ≠ TIOCGWINSZ ∧ cmd ≠ TIOCSETBUF then [.invalidTtyIoctl (UInt64.ofNat cmd)] else []) rt ans.rt := by
  unfold Runtime.ttyIoctl at h
  split at h
  · next hcmd =>
    obtain ⟨_, -, h⟩ := bind_eq_ok.1 h
    obtain rfl := Except.ok.inj h
    rw [if_neg fun hne => hne.1 hcmd]
    exact .same rfl
  split at h
  · next hcmd =>
    obtain ⟨buffer, -, h⟩ := bind_eq_ok.1 h
    obtain ⟨size, -, h⟩ := bind_eq_ok.1 h
    obtain ⟨log, -, h⟩ := bind_eq_ok.1 h
    obtain rfl := Except.ok.inj h
    rw [if_neg fun hne => hne.2 hcmd]
    exact .quiet rfl rfl rfl le_rfl
  · next hwinsz hsetbuf =>
    obtain ⟨said, hsay, h⟩ := bind_eq_ok.1 h
    obtain rfl := Except.ok.inj h
    rw [if_pos ⟨hwinsz, hsetbuf⟩]
    exact (say_reports hlog hsay).1

end Messages

end GunyahRuntime
