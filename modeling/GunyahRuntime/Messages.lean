/-
# GunyahRuntime.Messages -- what the runtime says (`LOG` of `log.h` and its callers)

A call of `LOG` passes a format and up to five arguments to `log_msg`; level and action are not used there. Each call
of the system calls and of `exit_loop` is a `Message` with the values it shows. `Message.format` and `Message.args` are
the call as the source writes it, and `Message.text` is what it is meant to say. `logMessage_eq` says that this is what
is sent: none of these messages is ever cut, whatever the values, and the console and the log get the same bytes.
-/
import GunyahRuntime.LogMsg
import GunyahRuntime.Str.Spelled

namespace GunyahRuntime

open Lib (numeral length_numeral_le)

/-- The constants `__func__` that messages show, where the image has them. -/
structure Rodata where
  strs : Nat → CString
  sysBrk : UInt64
  ttyIoctl : UInt64
  sysBrk_ne : sysBrk ≠ 0
  ttyIoctl_ne : ttyIoctl ≠ 0
  sysBrk_eq : strs sysBrk.toNat = CString.ofString "sys_brk" (by decide) (by decide)
  ttyIoctl_eq : strs ttyIoctl.toNat = CString.ofString "tty_ioctl" (by decide) (by decide)

/-- The messages, with the values they show. -/
inductive Message where
  /-- `aarch64_do_syscall`, for a number it does not know. -/
  | unhandledSyscall (sysNum : UInt64)
  /-- `sys_brk`, for a break outside the heap. -/
  | invalidBrk (brk : UInt64)
  /-- `alloc_mmap`, where neither a gap nor the top of the break is large enough. -/
  | outOfMemory (len total alloc : UInt64)
  /-- `sys_mmap`, for a mapping it does not support: the first four arguments, and the last two. -/
  | mmapInvalid (addr len prot flags : UInt64)
  | mmapInvalidRest (fd off : UInt64)
  /-- `tty_ioctl`, for a command it does not know. -/
  | invalidTtyIoctl (cmd : UInt64)
  /-- `exit_loop`. -/
  | exitCalled

namespace Message

/-- The format. -/
def format : Message → CString
  | unhandledSyscall _ => CString.ofString "Unhandled syscall {:d}\n" (by decide) (by decide)
  | invalidBrk _ => CString.ofString "{:s}: invalid brk {:#x}\n" (by decide) (by decide)
  | outOfMemory .. => CString.ofString "sys_mmap: out of memory {:#x} {:#x} {:#x}\n" (by decide) (by decide)
  | mmapInvalid .. => CString.ofString "sys_mmap invalid: {:#x} {:#x} {:#x} {:#x} " (by decide) (by decide)
  | mmapInvalidRest .. => CString.ofString "{:#x} {:#x}\n" (by decide) (by decide)
  | invalidTtyIoctl _ => CString.ofString "{:s}: invalid tty ioctl cmd{:#x}\n" (by decide) (by decide)
  | exitCalled => CString.ofString "sys_exit/sys_exit_group: called\n" (by decide) (by decide)

/-- The arguments, with zeros for those that are not given. -/
def args (image : Rodata) : Message → Vector UInt64 MAX_ARG_CNT
  | unhandledSyscall sysNum => #v[sysNum, 0, 0, 0, 0]
  | invalidBrk brk => #v[image.sysBrk, brk, 0, 0, 0]
  | outOfMemory len total alloc => #v[len, total, alloc, 0, 0]
  | mmapInvalid addr len prot flags => #v[addr, len, prot, flags, 0]
  | mmapInvalidRest fd off => #v[fd, off, 0, 0, 0]
  | invalidTtyIoctl cmd => #v[image.ttyIoctl, cmd, 0, 0, 0]
  | exitCalled => #v[0, 0, 0, 0, 0]

end Message

/-- Enough for scanning any of the formats. -/
def LOG_SCANS : Nat := 64

/-- `LOG` with a message. -/
def logMessage (image : Rodata) (m : Message) (console : Console) (log : LogS)
    (tmpLog : Vector UInt8 SINGLE_LOG_MSG_SIZE) : Exec Logged :=
  logMsg LOG_SCANS image.strs m.format (m.args image) console log tmpLog

/-! ## What is said -/

/-- Text as bytes. -/
def asciiText (s : String) : List UInt8 := s.toList.map Char.toUInt8

def decimalText64 (v : UInt64) : List UInt8 :=
  signOf .neg (toInt64 v.toNat) ++ numeral 10 digitAt (toInt64 v.toNat).natAbs

def hexText (v : UInt64) : List UInt8 := '0'.toUInt8 :: 'x'.toUInt8 :: numeral 16 digitAt v.toNat

theorem length_hexText (v : UInt64) : (hexText v).length ≤ 18 := by
  have hdigits := @length_numeral_le _ 16 digitAt (by decide) v.toNat 16 (by decide) v.toNat_lt
  simp only [hexText, List.length_cons]
  omega

theorem length_decimalText64 (v : UInt64) : (decimalText64 v).length ≤ 20 := by
  have hlt := v.toNat_lt
  have habs : (toInt64 v.toNat).natAbs < 10 ^ 19 := by
    unfold toInt64
    split <;> omega
  have hdigits := @length_numeral_le _ 10 digitAt (by decide) _ 19 (by decide) habs
  have hsign : (signOf .neg (toInt64 v.toNat)).length ≤ 1 := by
    unfold signOf
    split <;> simp
  simp only [decimalText64, List.length_append]
  omega

section Printed

variable {strs : Nat → CString} {args : Vector UInt64 MAX_ARG_CNT} {last l : Literal}
  {fs : List (Literal × Descriptor)} {argIdx : Nat} {arg : UInt64} {text : List UInt8} {e : Int}

theorem printed_decimal (harg : args[argIdx]? = some arg)
    (hrest : FormatText.printed strs args last fs (argIdx + 1) = (text, e)) :
    FormatText.printed strs args last ((l, .decimal) :: fs) argIdx = (l.val ++ (decimalText64 arg ++ text), e) := by
  rw [FormatText.printed_arg harg (fun h => by cases h), hrest, FormatText.argText_decimal]
  rfl

theorem printed_hashHex (harg : args[argIdx]? = some arg)
    (hrest : FormatText.printed strs args last fs (argIdx + 1) = (text, e)) :
    FormatText.printed strs args last ((l, .hashHex) :: fs) argIdx = (l.val ++ (hexText arg ++ text), e) := by
  rw [FormatText.printed_arg harg (fun h => by cases h), hrest, FormatText.argText_hashHex]
  rfl

theorem printed_str {s : List UInt8} (harg : args[argIdx]? = some arg) (hne : arg ≠ 0)
    (hstr : (strs arg.toNat).chars = s)
    (hrest : FormatText.printed strs args last fs (argIdx + 1) = (text, e)) :
    FormatText.printed strs args last ((l, .str) :: fs) argIdx = (l.val ++ (s ++ text), e) := by
  rw [FormatText.printed_arg harg (fun _ => hne), hrest, FormatText.argText_str strs hne, hstr]

end Printed

namespace Message

def text : Message → List UInt8
  | unhandledSyscall sysNum => asciiText "Unhandled syscall " ++ (decimalText64 sysNum ++ asciiText "\n")
  | invalidBrk brk => asciiText "sys_brk: invalid brk " ++ (hexText brk ++ asciiText "\n")
  | outOfMemory len total alloc => asciiText "sys_mmap: out of memory " ++ (hexText len ++ (asciiText " " ++
      (hexText total ++ (asciiText " " ++ (hexText alloc ++ asciiText "\n")))))
  | mmapInvalid addr len prot flags => asciiText "sys_mmap invalid: " ++ (hexText addr ++ (asciiText " " ++
      (hexText len ++ (asciiText " " ++ (hexText prot ++ (asciiText " " ++ (hexText flags ++ asciiText " ")))))))
  | mmapInvalidRest fd off => hexText fd ++ (asciiText " " ++ (hexText off ++ asciiText "\n"))
  | invalidTtyIoctl cmd => asciiText "tty_ioctl: invalid tty ioctl cmd" ++ (hexText cmd ++ asciiText "\n")
  | exitCalled => asciiText "sys_exit/sys_exit_group: called\n"

/-- The format before it is spelled. -/
def formatText : Message → FormatText
  | unhandledSyscall _ =>
    ⟨[(.ofString "Unhandled syscall " (by decide) (by decide), .decimal)], .newline⟩
  | invalidBrk _ =>
    ⟨[(.nothing, .str), (.ofString ": invalid brk " (by decide) (by decide), .hashHex)],
      .newline⟩
  | outOfMemory .. =>
    ⟨[(.ofString "sys_mmap: out of memory " (by decide) (by decide), .hashHex),
      (.ofString " " (by decide) (by decide), .hashHex), (.ofString " " (by decide) (by decide), .hashHex)],
      .newline⟩
  | mmapInvalid .. =>
    ⟨[(.ofString "sys_mmap invalid: " (by decide) (by decide), .hashHex),
      (.ofString " " (by decide) (by decide), .hashHex), (.ofString " " (by decide) (by decide), .hashHex),
      (.ofString " " (by decide) (by decide), .hashHex)], .ofString " " (by decide) (by decide)⟩
  | mmapInvalidRest .. =>
    ⟨[(.nothing, .hashHex), (.ofString " " (by decide) (by decide), .hashHex)],
      .newline⟩
  | invalidTtyIoctl _ =>
    ⟨[(.nothing, .str),
      (.ofString ": invalid tty ioctl cmd" (by decide) (by decide), .hashHex)],
      .newline⟩
  | exitCalled => ⟨[], .ofString "sys_exit/sys_exit_group: called\n" (by decide) (by decide)⟩

theorem format_spelled (m : Message) : m.format.chars = m.formatText.spelling := by
  cases m <;> rfl

theorem strlen_format (m : Message) : m.format.strlen < 50 := by
  cases m <;> exact of_decide_eq_true rfl

/-- **A message says its text**: the format, read back, with the arguments the source passes. -/
theorem printed_eq (image : Rodata) (m : Message) :
    FormatText.printed image.strs (m.args image) m.formatText.last m.formatText.fields 0 = (m.text, OK) := by
  cases m with
  | unhandledSyscall sysNum => exact printed_decimal rfl rfl
  | invalidBrk brk =>
    exact printed_str rfl image.sysBrk_ne (congrArg CString.chars image.sysBrk_eq) (printed_hashHex rfl rfl)
  | outOfMemory len total alloc => exact printed_hashHex rfl (printed_hashHex rfl (printed_hashHex rfl rfl))
  | mmapInvalid addr len prot flags =>
    exact printed_hashHex rfl (printed_hashHex rfl (printed_hashHex rfl (printed_hashHex rfl rfl)))
  | mmapInvalidRest fd off => exact printed_hashHex rfl (printed_hashHex rfl rfl)
  | invalidTtyIoctl cmd =>
    exact printed_str rfl image.ttyIoctl_ne (congrArg CString.chars image.ttyIoctl_eq) (printed_hashHex rfl rfl)
  | exitCalled => rfl

theorem length_text (m : Message) : m.text.length < 255 := by
  have hhex := length_hexText
  cases m with
  | unhandledSyscall sysNum =>
    have hdec := length_decimalText64 sysNum
    simp only [text, List.length_append, show (asciiText "Unhandled syscall ").length = 18 from rfl,
      show (asciiText "\n").length = 1 from rfl]
    omega
  | invalidBrk brk =>
    have h := hhex brk
    simp only [text, List.length_append, show (asciiText "sys_brk: invalid brk ").length = 21 from rfl,
      show (asciiText "\n").length = 1 from rfl]
    omega
  | outOfMemory len total alloc =>
    have h1 := hhex len
    have h2 := hhex total
    have h3 := hhex alloc
    simp only [text, List.length_append, show (asciiText "sys_mmap: out of memory ").length = 24 from rfl,
      show (asciiText " ").length = 1 from rfl, show (asciiText "\n").length = 1 from rfl]
    omega
  | mmapInvalid addr len prot flags =>
    have h1 := hhex addr
    have h2 := hhex len
    have h3 := hhex prot
    have h4 := hhex flags
    simp only [text, List.length_append, show (asciiText "sys_mmap invalid: ").length = 18 from rfl,
      show (asciiText " ").length = 1 from rfl]
    omega
  | mmapInvalidRest fd off =>
    have h1 := hhex fd
    have h2 := hhex off
    simp only [text, List.length_append, show (asciiText " ").length = 1 from rfl,
      show (asciiText "\n").length = 1 from rfl]
    omega
  | invalidTtyIoctl cmd =>
    have h := hhex cmd
    simp only [text, List.length_append, show (asciiText "tty_ioctl: invalid tty ioctl cmd").length = 32 from rfl,
      show (asciiText "\n").length = 1 from rfl]
    omega
  | exitCalled => exact of_decide_eq_true rfl

end Message

/-! ## What is sent -/

/-- **A spelled format is sent whole**, if its text leaves a place to spare before the terminator. -/
theorem logMsg_spelled (t : FormatText) {a1 : CString} (hat : a1.chars = t.spelling) (hlen : a1.strlen < 4294967296)
    {fuel : Nat} (hfuel : a1.strlen + 10 ≤ fuel) {strs : Nat → CString} {args : Vector UInt64 MAX_ARG_CNT}
    {text : List UInt8} {e : Int} (htext : FormatText.printed strs args t.last t.fields 0 = (text, e))
    (hshort : text.length < 255) (console : Console) {log : LogS} (hlog : log.Ok)
    (tmpLog : Vector UInt8 SINGLE_LOG_MSG_SIZE) :
    ∃ p, logMsg fuel strs a1 args console log tmpLog =
      .ok ⟨p, text, if console.console ≠ 0 then console.send text else console, log.pushed text⟩ := by
  have herror := FormatText.printed_error strs args t.last t.fields 0
  have hrender := FormatText.render_layoutOf strs args t.last t.fields
    (show (FormatText.printed strs args t.last t.fields 0).1.length < 255 by rw [htext]; exact hshort)
  rw [← t.layout_spelled strs args hat hlen hfuel, htext] at hrender
  rw [htext] at herror
  obtain ⟨p, hp, -, hrun⟩ := @logMsg_ok fuel strs a1 args console log hlog _ hrender tmpLog
  have hcount : p.r = text.length := hp.count.trans (if_pos herror)
  have hsent : p.mem.take p.r = text := by
    have hwritten := congrArg (List.take text.length) hp.written
    rw [List.take_take, Nat.min_eq_left (Nat.le_succ _), List.take_left] at hwritten
    rw [hcount, hwritten]
  rw [hsent] at hrun
  exact ⟨p, hrun⟩

/-- **Every message of the runtime is sent as it is meant**, whatever values it shows and whatever was on the stack:
its text goes to the log, and to the console if there is one. -/
theorem logMessage_eq (image : Rodata) (m : Message) (console : Console) {log : LogS} (hlog : log.Ok)
    (tmpLog : Vector UInt8 SINGLE_LOG_MSG_SIZE) :
    ∃ p, logMessage image m console log tmpLog =
      .ok ⟨p, m.text, if console.console ≠ 0 then console.send m.text else console, log.pushed m.text⟩ := by
  have hformat := m.strlen_format
  have hscans : m.format.strlen + 10 ≤ LOG_SCANS := by
    unfold LOG_SCANS
    omega
  exact logMsg_spelled m.formatText m.format_spelled (by omega) hscans (m.printed_eq image) m.length_text console
    hlog tmpLog

/-- An image with the two names at addresses 1 and 2. -/
def twoNames : Rodata where
  strs a :=
    if a = 1 then CString.ofString "sys_brk" (by decide) (by decide)
    else CString.ofString "tty_ioctl" (by decide) (by decide)
  sysBrk := 1
  ttyIoctl := 2
  sysBrk_ne := by decide
  ttyIoctl_ne := by decide
  sysBrk_eq := rfl
  ttyIoctl_eq := rfl

end GunyahRuntime
