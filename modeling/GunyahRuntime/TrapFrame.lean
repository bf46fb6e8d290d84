/-
# GunyahRuntime.TrapFrame -- the last words of the runtime (`panic.c`, `el1.inc`)

An exception that is not handled saves all registers in a `trap_frame_t`, and `dump_trap_frame` prints them before the
runtime stops. Each line is a call of `LOG` with up to four registers under `{:#8x}`, so what is printed depends on
what that descriptor does to a value, and it fails for some: where a value has seven hexadecimal digits, its width
leaves one character for a prefix of two, the padding count wraps, and the fill takes the rest of the line.
`dumpTrapFrame_iff` says that these are the only values with which a register is lost. The second half is about where
the values come from: `fatal_dumps` follows them from the interrupted program through both frames to the console.
-/
import GunyahRuntime.Messages
import GunyahRuntime.Vectors

namespace GunyahRuntime

open Lib Lib.Arm

/-- `trap_frame_t`. -/
structure TrapFrame where
  x : Fin 29 → UInt64
  x30 : UInt64
  spsr : UInt64
  esr : UInt64
  spEl0 : UInt64
  spEl1 : UInt64
  x29 : UInt64
  elr : UInt64

/-- What a call of `LOG` passes on. -/
abbrev LogCall : Type := CString × Vector UInt64 MAX_ARG_CNT

/-- `dump_trap_frame(frame)`, as its calls of `LOG`. -/
def dumpCalls (frame : TrapFrame) : List LogCall :=
  [(CString.ofString "trap frame dump:\n" (by decide) (by decide), .replicate _ 0),
   (CString.ofString "x0: {:#8x}\t x1: {:#8x}\t x2: {:#8x}\t x3: {:#8x}\n" (by decide) (by decide),
     #v[frame.x 0, frame.x 1, frame.x 2, frame.x 3, 0]),
   (CString.ofString "x4: {:#8x}\t x5: {:#8x}\t x6: {:#8x}\t x7: {:#8x}\n" (by decide) (by decide),
     #v[frame.x 4, frame.x 5, frame.x 6, frame.x 7, 0]),
   (CString.ofString "x8: {:#8x}\t x9: {:#8x}\t x10:{:#8x}\t x11:{:#8x}\n" (by decide) (by decide),
     #v[frame.x 8, frame.x 9, frame.x 10, frame.x 11, 0]),
   (CString.ofString "x12:{:#8x}\t x13:{:#8x}\t x14:{:#8x}\t x15:{:#8x}\n" (by decide) (by decide),
     #v[frame.x 12, frame.x 13, frame.x 14, frame.x 15, 0]),
   (CString.ofString "x16:{:#8x}\t x17:{:#8x}\t x18:{:#8x}\t x19:{:#8x}\n" (by decide) (by decide),
     #v[frame.x 16, frame.x 17, frame.x 18, frame.x 19, 0]),
   (CString.ofString "x20:{:#8x}\t x21:{:#8x}\t x22:{:#8x}\t x23:{:#8x}\n" (by decide) (by decide),
     #v[frame.x 20, frame.x 21, frame.x 22, frame.x 23, 0]),
   (CString.ofString "x24:{:#8x}\t x25:{:#8x}\t x26:{:#8x}\t x27:{:#8x}\n" (by decide) (by decide),
     #v[frame.x 24, frame.x 25, frame.x 26, frame.x 27, 0]),
   (CString.ofString "x28:{:#8x}\t x29:{:#8x}\t x30:{:#8x}\n" (by decide) (by decide),
     #v[frame.x 28, frame.x29, frame.x30, 0, 0]),
   (CString.ofString "spsr_el1:{:#8x}\t elr_el1:{:#8x}\t esr_el1:{:#8x}\n" (by decide) (by decide),
     #v[frame.spsr, frame.elr, frame.esr, 0, 0]),
   (CString.ofString "sp_el0:{:#8x}\t sp_el1:{:#8x}\n" (by decide) (by decide),
     #v[frame.spEl0, frame.spEl1, 0, 0, 0])]

/-- Calls of `LOG`, one after the other. What the stack holds before each is its own. -/
def logCalls (strs : Nat → CString) : List LogCall → (Nat → Vector UInt8 SINGLE_LOG_MSG_SIZE) → Console → LogS →
    Exec (Console × LogS)
  | [], _, console, log => .ok (console, log)
  | call :: calls, stack, console, log => do
    let r ← logMsg 100 strs call.1 call.2 console log (stack 0)
    logCalls strs calls (fun i => stack (i + 1)) r.console r.log

/-- `dump_trap_frame(frame)`. -/
def dumpTrapFrame (strs : Nat → CString) (frame : TrapFrame) (stack : Nat → Vector UInt8 SINGLE_LOG_MSG_SIZE)
    (console : Console) (log : LogS) : Exec (Console × LogS) :=
  logCalls strs (dumpCalls frame) stack console log

/-! ## What a dump is meant to say -/

/-- A value in hexadecimal, in eight places at least. -/
def hash8Text (v : UInt64) : List UInt8 :=
  List.replicate (8 - (hexText v).length) ' '.toUInt8 ++ hexText v

/-- A line: values with their labels. -/
structure DumpLine where
  fields : List (Literal × UInt64)
  last : Literal

def fieldsText : List (Literal × UInt64) → List UInt8
  | [] => []
  | f :: fs => f.1.val ++ (hash8Text f.2 ++ fieldsText fs)

def DumpLine.text (line : DumpLine) : List UInt8 := fieldsText line.fields ++ line.last.val

/-- A line with labels and values. -/
def DumpLine.ofLabels (labels : List Literal) (values : List UInt64) (last : Literal) : DumpLine :=
  ⟨labels.zip values, last⟩

/-- The lines of a dump. -/
def dumpLines (frame : TrapFrame) : List DumpLine :=
  [⟨[], .ofString "trap frame dump:\n" (by decide) (by decide)⟩,
   .ofLabels
     [.ofString "x0: " (by decide) (by decide),
      .ofString "\t x1: " (by decide) (by decide),
      .ofString "\t x2: " (by decide) (by decide),
      .ofString "\t x3: " (by decide) (by decide)]
     [frame.x 0, frame.x 1, frame.x 2, frame.x 3]
     .newline,
   .ofLabels
     [.ofString "x4: " (by decide) (by decide),
      .ofString "\t x5: " (by decide) (by decide),
      .ofString "\t x6: " (by decide) (by decide),
      .ofString "\t x7: " (by decide) (by decide)]
     [frame.x 4, frame.x 5, frame.x 6, frame.x 7]
     .newline,
   .ofLabels
     [.ofString "x8: " (by decide) (by decide),
      .ofString "\t x9: " (by decide) (by decide),
      .ofString "\t x10:" (by decide) (by decide),
      .ofString "\t x11:" (by decide) (by decide)]
     [frame.x 8, frame.x 9, frame.x 10, frame.x 11]
     .newline,
   .ofLabels
     [.ofString "x12:" (by decide) (by decide),
      .ofString "\t x13:" (by decide) (by decide),
      .ofString "\t x14:" (by decide) (by decide),
      .ofString "\t x15:" (by decide) (by decide)]
     [frame.x 12, frame.x 13, frame.x 14, frame.x 15]
     .newline,
   .ofLabels
     [.ofString "x16:" (by decide) (by decide),
      .ofString "\t x17:" (by decide) (by decide),
      .ofString "\t x18:" (by decide) (by decide),
      .ofString "\t x19:" (by decide) (by decide)]
     [frame.x 16, frame.x 17, frame.x 18, frame.x 19]
     .newline,
   .ofLabels
     [.ofString "x20:" (by decide) (by decide),
      .ofString "\t x21:" (by decide) (by decide),
      .ofString "\t x22:" (by decide) (by decide),
      .ofString "\t x23:" (by decide) (by decide)]
     [frame.x 20, frame.x 21, frame.x 22, frame.x 23]
     .newline,
   .ofLabels
     [.ofString "x24:" (by decide) (by decide),
      .ofString "\t x25:" (by decide) (by decide),
      .ofString "\t x26:" (by decide) (by decide),
      .ofString "\t x27:" (by decide) (by decide)]
     [frame.x 24, frame.x 25, frame.x 26, frame.x 27]
     .newline,
   .ofLabels
     [.ofString "x28:" (by decide) (by decide),
      .ofString "\t x29:" (by decide) (by decide),
      .ofString "\t x30:" (by decide) (by decide)]
     [frame.x 28, frame.x29, frame.x30]
     .newline,
   .ofLabels
     [.ofString "spsr_el1:" (by decide) (by decide),
      .ofString "\t elr_el1:" (by decide) (by decide),
      .ofString "\t esr_el1:" (by decide) (by decide)]
     [frame.spsr, frame.elr, frame.esr]
     .newline,
   .ofLabels
     [.ofString "sp_el0:" (by decide) (by decide),
      .ofString "\t sp_el1:" (by decide) (by decide)]
     [frame.spEl0, frame.spEl1]
     .newline]

def dumpText (frame : TrapFrame) : List UInt8 := (dumpLines frame).flatMap DumpLine.text

/-- The registers, in the order they are printed. -/
def TrapFrame.registers (frame : TrapFrame) : List UInt64 :=
  List.ofFn frame.x ++ [frame.x29, frame.x30, frame.spsr, frame.elr, frame.esr, frame.spEl0, frame.spEl1]

theorem eight_spelled : 0 < 8 ∧ 8 < 18446744073709551616 := by decide

/-- `{:#8x}`. -/
def Descriptor.hash8 : Descriptor := { Descriptor.hashHex with minWidth := some ⟨8, eight_spelled⟩ }

/-- The format of a line. -/
def DumpLine.formatText (line : DumpLine) : FormatText := ⟨line.fields.map fun f => (f.1, .hash8), line.last⟩

/-- The value is printed over the end of its line. -/
def SevenDigits (v : UInt64) : Prop := 0x1000000 ≤ v.toNat ∧ v.toNat < 0x10000000

instance (v : UInt64) : Decidable (SevenDigits v) := inferInstanceAs (Decidable (_ ∧ _))

/-! ## One value -/

theorem length_hexText_eq (v : UInt64) : (hexText v).length = (digitsText 16 v.toNat).length + 2 := by
  unfold hexText
  rw [← reverse_digitsText, List.length_cons, List.length_cons, List.length_reverse]

theorem sevenDigits_iff (v : UInt64) : SevenDigits v ↔ (digitsText 16 v.toNat).length = 7 := by
  have hle := Nat.digits_length_le_iff (b := 16) (k := 7) (by decide) v.toNat
  have hlt := Nat.lt_digits_length_iff (b := 16) (k := 6) (by decide) v.toNat
  unfold SevenDigits digitsText
  split
  · next hzero =>
    rw [hzero]
    simp
  · rw [List.length_map]
    omega

theorem hash8_right (v : UInt64) : (numText v.toNat 16 Descriptor.hash8.readInfo true).right = [] := rfl

theorem prefixUnderflows_iff (v : UInt64) :
    PrefixUnderflows Descriptor.hash8.readInfo 16 (digitsText 16 v.toNat).length ↔ SevenDigits v := by
  rw [sevenDigits_iff]
  have hwidth : Descriptor.hash8.readInfo.minWidth = 8 := rfl
  unfold PrefixUnderflows
  rw [hwidth]
  constructor
  · rintro ⟨-, -, h⟩
    omega
  · intro h
    exact ⟨rfl, by decide, by omega⟩

/-- The text of a value: its padding, the prefix and the digits. -/
theorem hash8_text (v : UInt64) :
    (numText v.toNat 16 Descriptor.hash8.readInfo true).text =
      List.replicate (paddingCnt Descriptor.hash8.readInfo 16 true (digitsText 16 v.toNat).length) ' '.toUInt8 ++
        hexText v := by
  have horder := numText_order v.toNat 16 Descriptor.hash8.readInfo true
  dsimp only at horder
  rw [horder, hexText, ← reverse_digitsText]
  have hpads : itoaPads Descriptor.hash8.readInfo 16 true (digitsText 16 v.toNat).length =
    ⟨paddingCnt Descriptor.hash8.readInfo 16 true (digitsText 16 v.toNat).length, 0, 0, 0, ' '.toUInt8⟩ := rfl
  rw [hpads]
  have hsign : (signChar Descriptor.hash8.readInfo true).toList = [] := rfl
  have hprefix : (prefixText Descriptor.hash8.readInfo 16).reverse = ['0'.toUInt8, 'x'.toUInt8] := rfl
  rw [hsign, hprefix]
  simp

/-- A value without seven digits is shown as it is meant. -/
theorem hash8_text_of_not {v : UInt64} (h : ¬ SevenDigits v) :
    (numText v.toNat 16 Descriptor.hash8.readInfo true).text = hash8Text v := by
  have hdigits := length_hexText v
  have hlen := length_hexText_eq v
  have hwidth : Descriptor.hash8.readInfo.minWidth = 8 := rfl
  have hsign : (signChar Descriptor.hash8.readInfo true).isSome = false := rfl
  have halt : Descriptor.hash8.readInfo.alternateForm = true := rfl
  obtain ⟨-, hcnt⟩ := @paddingCnt_exact Descriptor.hash8.readInfo 16 _ true
    (fun hunder => h ((prefixUnderflows_iff v).1 hunder)) (by rw [hwidth]; decide)
    (show (digitsText 16 v.toNat).length < 18446744073709551616 by omega)
  rw [hash8_text, hcnt, hash8Text, hlen, hwidth, hsign, halt]
  simp

/-- A value with seven digits is longer than any room. -/
theorem length_hash8_of_sevenDigits {v : UInt64} (h : SevenDigits v) :
    18446744073709551614 ≤ (numText v.toNat 16 Descriptor.hash8.readInfo true).text.length := by
  have hwraps := paddingCnt_wraps true ((prefixUnderflows_iff v).2 h) (by decide)
  rw [hash8_text, List.length_append, List.length_replicate]
  omega

/-- What of a value is not padding. -/
theorem length_hash8_core (v : UInt64) :
    (numText v.toNat 16 Descriptor.hash8.readInfo true).core.length = (hexText v).length := by
  rw [length_hexText_eq]
  show (digitsText 16 v.toNat ++ _).length = _
  rw [List.length_append]
  rfl

/-! ## One line -/

/-- The arguments of a call from `argIdx` on are the values of a line. -/
def ArgsFrom (args : Vector UInt64 MAX_ARG_CNT) : Nat → List (Literal × UInt64) → Prop
  | _, [] => True
  | argIdx, f :: fs => args[argIdx]? = some f.2 ∧ ArgsFrom args (argIdx + 1) fs

/-- A line without a value that is printed over its end. -/
def DumpLine.Clean (line : DumpLine) : Prop := ∀ f ∈ line.fields, ¬ SevenDigits f.2

theorem length_hash8Text (v : UInt64) : (hexText v).length ≤ (hash8Text v).length ∧ (hash8Text v).length ≤ 18 := by
  have hlen := length_hexText v
  unfold hash8Text
  rw [List.length_append, List.length_replicate]
  omega

section Line

variable {strs : Nat → CString} {args : Vector UInt64 MAX_ARG_CNT} {last : Literal} {fs : List (Literal × UInt64)}
  {argIdx room : Nat}

/-- The fields of a format for a line. -/
def hash8Fields (fs : List (Literal × UInt64)) : List (Literal × Descriptor) := fs.map fun f => (f.1, .hash8)

theorem printed_hash8 (hargs : ArgsFrom args argIdx fs) (hclean : ∀ f ∈ fs, ¬ SevenDigits f.2) :
    FormatText.printed strs args last (hash8Fields fs) argIdx = (fieldsText fs ++ last.val, OK) := by
  induction fs generalizing argIdx with
  | nil => rfl
  | cons f fs ih =>
    obtain ⟨harg, hrest⟩ := hargs
    have htext : FormatText.argText strs .hash8 f.2 = hash8Text f.2 :=
      hash8_text_of_not (hclean f List.mem_cons_self)
    have htail := ih hrest fun g hg => hclean g (List.mem_cons_of_mem f hg)
    show FormatText.printed strs args last ((f.1, .hash8) :: hash8Fields fs) argIdx = _
    rw [FormatText.printed_arg harg (fun h => by cases h), htail, htext, fieldsText]
    simp only [List.append_assoc]

/-- A value with seven digits takes the room there is, and nothing comes after it. -/
theorem render_sevenDigits {lit : List UInt8} {v : UInt64} (h : SevenDigits v) (rest : Layout)
    (hfit : lit.length + (hexText v).length < room) (hroom : room < 18446744073709551614) :
    ∃ text, (Layout.chunk lit (argPiece strs Descriptor.hash8.readInfo v) rest).render room = .ok ⟨text, OK, true⟩ ∧
      text.length = room := by
  have hcore := length_hash8_core v
  have hlong := length_hash8_of_sevenDigits h
  have hfitted := NumText.length_fitted (numText v.toNat 16 Descriptor.hash8.readInfo true) (room - lit.length)
  have hrender := @NumText.render_of_clear (numText v.toNat 16 Descriptor.hash8.readInfo true) (room - lit.length)
    (.inl (hash8_right v))
  rw [if_neg (by omega)] at hrender
  have hpiece : (argPiece strs Descriptor.hash8.readInfo v).render (room - lit.length) = .ok _ := hrender
  refine ⟨lit ++ (numText v.toNat 16 Descriptor.hash8.readInfo true).fitted (room - lit.length), ?_, ?_⟩
  · rw [Layout.render_chunk_goesOn (by omega) (by omega) hpiece rfl]
    dsimp only
    rw [show room - (lit.length +
      ((numText v.toNat 16 Descriptor.hash8.readInfo true).fitted (room - lit.length)).length) = 0 by omega,
      Layout.render_zero, ok_bind, List.append_nil]
    rfl
  · rw [List.length_append]
    omega

/-- **A line with such a value is filled up to its end**, and what should follow is missing. -/
theorem render_overrun (hargs : ArgsFrom args argIdx fs) (hseven : ∃ f ∈ fs, SevenDigits f.2)
    (hfit : (fieldsText fs ++ last.val).length < room) (hroom : room < 18446744073709551614) :
    ∃ text, (FormatText.layoutOf strs args last (hash8Fields fs) argIdx).render room = .ok ⟨text, OK, true⟩ ∧
      text.length = room := by
  induction fs generalizing argIdx room with
  | nil =>
    obtain ⟨f, hf, -⟩ := hseven
    exact absurd hf List.not_mem_nil
  | cons f fs ih =>
    obtain ⟨harg, hrest⟩ := hargs
    obtain ⟨hhex, -⟩ := length_hash8Text f.2
    have hpiece : fieldPiece strs args argIdx Descriptor.hash8.readInfo =
        argPiece strs Descriptor.hash8.readInfo f.2 := by
      unfold fieldPiece
      rw [if_neg (by decide), harg]
    simp only [fieldsText, List.append_assoc, List.length_append] at hfit
    show ∃ text, (FormatText.layoutOf strs args last ((f.1, .hash8) :: hash8Fields fs) argIdx).render room = _ ∧ _
    rw [FormatText.layoutOf, hpiece]
    by_cases hv : SevenDigits f.2
    · refine render_sevenDigits hv _ ?_ hroom
      dsimp only
      omega
    · have htail : ∃ g ∈ fs, SevenDigits g.2 := by
        obtain ⟨g, hg, hg'⟩ := hseven
        rcases List.mem_cons.1 hg with rfl | hmem
        · exact absurd hg' hv
        · exact ⟨g, hmem, hg'⟩
      have hnum := hash8_text_of_not hv
      obtain ⟨text, hrun, hlen⟩ := @ih (argIdx + 1) (room - (f.1.val.length + (hash8Text f.2).length)) hrest htail
        (by rw [List.length_append]; omega) (by omega)
      have hwhole : (argPiece strs Descriptor.hash8.readInfo f.2).render (room - f.1.val.length) =
          .ok ⟨hash8Text f.2, OK, true⟩ := by
        rw [← hnum]
        exact NumText.render_whole (by rw [hnum]; omega)
      refine ⟨f.1.val ++ hash8Text f.2 ++ text, ?_, ?_⟩
      · dsimp only
        rw [Layout.render_chunk_goesOn (by omega) (by omega) hwhole rfl, hrun, ok_bind]
        rfl
      · rw [List.length_append, List.length_append]
        omega

end Line

/-! ## The calls -/

/-- A call of `LOG` that is to print a line. -/
structure Spells (call : LogCall) (line : DumpLine) : Prop where
  format : call.1.chars = line.formatText.spelling
  strlen : call.1.strlen < 90
  args : ArgsFrom call.2 0 line.fields
  labels : (line.fields.map fun f => f.1.val.length).sum + 18 * line.fields.length + line.last.val.length < 255

theorem length_fieldsText (fs : List (Literal × UInt64)) :
    (fieldsText fs).length ≤ (fs.map fun f => f.1.val.length).sum + 18 * fs.length := by
  induction fs with
  | nil => exact Nat.le_refl 0
  | cons f fs ih =>
    obtain ⟨-, hv⟩ := length_hash8Text f.2
    simp only [fieldsText, List.length_append, List.map_cons, List.sum_cons, List.length_cons]
    omega

theorem Spells.length_text {call : LogCall} {line : DumpLine} (h : Spells call line) : line.text.length < 255 := by
  have hfields := length_fieldsText line.fields
  have hlabels := h.labels
  rw [DumpLine.text, List.length_append]
  omega

/-- What a call sends for a line: the line, or a full buffer if a value overran. -/
def SentFor (line : DumpLine) (text : List UInt8) : Prop :=
  (line.Clean → text = line.text) ∧ (¬ line.Clean → text.length = 255)

theorem logMsg_line {call : LogCall} {line : DumpLine} (h : Spells call line) (strs : Nat → CString)
    (console : Console) {log : LogS} (hlog : log.Ok) (tmpLog : Vector UInt8 SINGLE_LOG_MSG_SIZE) :
    ∃ p text, SentFor line text ∧ logMsg 100 strs call.1 call.2 console log tmpLog =
      .ok ⟨p, text, if console.console ≠ 0 then console.send text else console, log.pushed text⟩ := by
  have hstrlen := h.strlen
  have hscans : call.1.strlen + 10 ≤ 100 := by omega
  have hshort := h.length_text
  by_cases hclean : line.Clean
  · obtain ⟨p, hrun⟩ := logMsg_spelled line.formatText h.format (by omega) hscans
      (printed_hash8 h.args hclean) hshort console hlog tmpLog
    exact ⟨p, line.text, ⟨fun _ => rfl, fun hno => absurd hclean hno⟩, hrun⟩
  · have hseven : ∃ f ∈ line.fields, SevenDigits f.2 := by
      unfold DumpLine.Clean at hclean
      push Not at hclean
      exact hclean
    obtain ⟨text, hrender, hlen⟩ := @render_overrun strs call.2 line.last line.fields 0 255 h.args hseven hshort
      (by omega)
    have hlayout : layout 100 strs call.1 call.2 = FormatText.layoutOf strs call.2 line.last
      (hash8Fields line.fields) 0 := line.formatText.layout_spelled strs call.2 h.format (by omega) hscans
    rw [← hlayout] at hrender
    obtain ⟨p, hp, hcount, hrun⟩ := @logMsg_ok 100 strs call.1 call.2 console log hlog _ hrender tmpLog
    have hsent : p.r = 255 := (hp.count.trans (if_pos truncated_ne_ok.symm)).trans hlen
    refine ⟨p, p.mem.take p.r, ⟨fun hyes => absurd hyes hclean, fun _ => ?_⟩, hrun⟩
    rw [List.length_take, hsent]
    omega

/-- **A dump sends its lines in order**, each to the console and to the log. -/
theorem logCalls_lines {calls : List LogCall} {lines : List DumpLine} (h : List.Forall₂ Spells calls lines)
    (strs : Nat → CString) (stack : Nat → Vector UInt8 SINGLE_LOG_MSG_SIZE) {console : Console}
    (hconsole : console.console ≠ 0) {log : LogS} (hlog : log.Ok) :
    ∃ texts, List.Forall₂ SentFor lines texts ∧
      logCalls strs calls stack console log = .ok (console.send texts.flatten, texts.foldl LogS.pushed log) := by
  induction h generalizing stack console log with
  | nil =>
    refine ⟨[], .nil, ?_⟩
    rw [logCalls, List.flatten_nil, Console.send, List.append_nil]
    rfl
  | @cons call line calls lines hcall hcalls ih =>
    obtain ⟨p, text, hsent, hrun⟩ := logMsg_line hcall strs console hlog (stack 0)
    obtain ⟨texts, hall, hrest⟩ := ih (fun i => stack (i + 1)) (show (console.send text).console ≠ 0 from hconsole)
      (hlog.pushed text)
    refine ⟨text :: texts, .cons hsent hall, ?_⟩
    rw [logCalls, hrun, ok_bind]
    dsimp only
    rw [if_pos hconsole, hrest, List.flatten_cons, Console.send, Console.send, Console.send, List.append_assoc]
    rfl

/-- A text that is sent is as long as its line, or longer. -/
theorem length_flatten_sent {calls : List LogCall} {lines : List DumpLine} {texts : List (List UInt8)}
    (hcalls : List.Forall₂ Spells calls lines) (hsent : List.Forall₂ SentFor lines texts) :
    (lines.flatMap DumpLine.text).length ≤ texts.flatten.length ∧
      ((lines.flatMap DumpLine.text).length = texts.flatten.length → ∀ line ∈ lines, line.Clean) := by
  induction hsent generalizing calls with
  | nil => simp
  | @cons line text lines texts hline hlines ih =>
    cases hcalls with
    | cons hcall hcalls =>
      obtain ⟨hle, heq⟩ := ih hcalls
      have hshort := hcall.length_text
      have hlen : line.text.length ≤ text.length ∧ (line.text.length = text.length → line.Clean) := by
        by_cases hclean : line.Clean
        · exact ⟨(congrArg List.length (hline.1 hclean)).ge, fun _ => hclean⟩
        · have hfull := hline.2 hclean
          exact ⟨by omega, fun hno => by omega⟩
      rw [List.flatMap_cons, List.flatten_cons, List.length_append, List.length_append]
      refine ⟨by omega, fun hsum => ?_⟩
      refine List.forall_mem_cons.2 ⟨hlen.2 (by omega), heq (by omega)⟩

theorem flatten_sent_iff {calls : List LogCall} {lines : List DumpLine} {texts : List (List UInt8)}
    (hcalls : List.Forall₂ Spells calls lines) (hsent : List.Forall₂ SentFor lines texts) :
    texts.flatten = lines.flatMap DumpLine.text ↔ ∀ line ∈ lines, line.Clean := by
  constructor
  · intro h
    exact (length_flatten_sent hcalls hsent).2 (congrArg List.length h).symm
  · intro hclean
    induction hsent generalizing calls with
    | nil => rfl
    | @cons line text lines texts hline hlines ih =>
      cases hcalls with
      | cons hcall hcalls =>
        obtain ⟨hfirst, hrest⟩ := List.forall_mem_cons.1 hclean
        rw [List.flatten_cons, List.flatMap_cons, hline.1 hfirst, ih hcalls hrest]

/-- A call that is written down with the labels of a line. -/
theorem spells_ofLabels {format : CString} {args : Vector UInt64 MAX_ARG_CNT} {labels : List Literal}
    {values : List UInt64} {last : Literal} (hlen : labels.length = values.length)
    (hformat : format.chars = FormatText.spelling ⟨labels.map fun l => (l, .hash8), last⟩)
    (hstrlen : format.strlen < 90) (hargs : ArgsFrom args 0 (labels.zip values))
    (hlabels : (labels.map fun l => l.val.length).sum + 18 * labels.length + last.val.length < 255) :
    Spells (format, args) (.ofLabels labels values last) := by
  have hfst : (labels.zip values).map Prod.fst = labels := List.map_fst_zip (Nat.le_of_eq hlen)
  have hcount : (labels.zip values).length = labels.length := by
    rw [List.length_zip, ← hlen, Nat.min_self]
  refine ⟨?_, hstrlen, hargs, ?_⟩
  · rw [hformat, ← hfst, List.map_map, hfst]
    rfl
  · rw [← hfst, List.map_map, hfst] at hlabels
    show ((labels.zip values).map _).sum + 18 * (labels.zip values).length + _ < 255
    rw [hcount]
    exact hlabels

/-- The source writes the lines down. -/
theorem dumpCalls_spelled (frame : TrapFrame) : List.Forall₂ Spells (dumpCalls frame) (dumpLines frame) := by
  unfold dumpCalls dumpLines
  refine .cons ⟨by decide +kernel, by decide +kernel, trivial, by decide +kernel⟩ ?_
  refine .cons (spells_ofLabels rfl (by decide +kernel) (by decide +kernel) ⟨rfl, rfl, rfl, rfl, trivial⟩ (by decide +kernel)) ?_
  refine .cons (spells_ofLabels rfl (by decide +kernel) (by decide +kernel) ⟨rfl, rfl, rfl, rfl, trivial⟩ (by decide +kernel)) ?_
  refine .cons (spells_ofLabels rfl (by decide +kernel) (by decide +kernel) ⟨rfl, rfl, rfl, rfl, trivial⟩ (by decide +kernel)) ?_
  refine .cons (spells_ofLabels rfl (by decide +kernel) (by decide +kernel) ⟨rfl, rfl, rfl, rfl, trivial⟩ (by decide +kernel)) ?_
  refine .cons (spells_ofLabels rfl (by decide +kernel) (by decide +kernel) ⟨rfl, rfl, rfl, rfl, trivial⟩ (by decide +kernel)) ?_
  refine .cons (spells_ofLabels rfl (by decide +kernel) (by decide +kernel) ⟨rfl, rfl, rfl, rfl, trivial⟩ (by decide +kernel)) ?_
  refine .cons (spells_ofLabels rfl (by decide +kernel) (by decide +kernel) ⟨rfl, rfl, rfl, rfl, trivial⟩ (by decide +kernel)) ?_
  refine .cons (spells_ofLabels rfl (by decide +kernel) (by decide +kernel) ⟨rfl, rfl, rfl, trivial⟩ (by decide +kernel)) ?_
  refine .cons (spells_ofLabels rfl (by decide +kernel) (by decide +kernel) ⟨rfl, rfl, rfl, trivial⟩ (by decide +kernel)) ?_
  refine .cons (spells_ofLabels rfl (by decide +kernel) (by decide +kernel) ⟨rfl, rfl, trivial⟩ (by decide +kernel)) ?_
  exact .nil

theorem registers_eq (frame : TrapFrame) :
    (dumpLines frame).flatMap (fun line => line.fields.map Prod.snd) = frame.registers := rfl

theorem clean_iff_registers (frame : TrapFrame) :
    (∀ line ∈ dumpLines frame, line.Clean) ↔ ∀ v ∈ frame.registers, ¬ SevenDigits v := by
  rw [← registers_eq]
  simp only [DumpLine.Clean, List.mem_flatMap, List.mem_map]
  constructor
  · rintro h v ⟨line, hline, f, hf, rfl⟩
    exact h line hline f hf
  · intro h line hline f hf
    exact h f.2 ⟨line, hline, f, hf, rfl⟩

/-- **What a dump prints.** For every trap frame, every registered console and whatever was on the stack before each of
the calls: the dump returns, and what it has sent to the console is the whole dump, each register in its line under
its name, if and only if no register holds a value of seven hexadecimal digits. -/
theorem dumpTrapFrame_iff (strs : Nat → CString) (frame : TrapFrame) (stack : Nat → Vector UInt8 SINGLE_LOG_MSG_SIZE)
    {console : Console} (hconsole : console.console ≠ 0) {log : LogS} (hlog : log.Ok) :
    ∃ sent log', dumpTrapFrame strs frame stack console log = .ok (console.send sent, log') ∧
      (sent = dumpText frame ↔ ∀ v ∈ frame.registers, ¬ SevenDigits v) := by
  obtain ⟨texts, hsent, hrun⟩ := logCalls_lines (dumpCalls_spelled frame) strs stack hconsole hlog
  refine ⟨texts.flatten, texts.foldl LogS.pushed log, hrun, ?_⟩
  rw [← clean_iff_registers]
  exact flatten_sent_iff (dumpCalls_spelled frame) hsent

/-! ## The frame -/

def TRAP_FRAME_FULL_SIZE : Nat := 18 * 16

/-- `save_runtime_context_full`, behind the instruction that moves the stack pointer, up to `mrs x0, SP_EL0`. -/
def saveFullRegisters : List SysOp :=
  [.stp 0 1 (0 * 16),
   .stp 2 3 (1 * 16),
   .stp 4 5 (2 * 16),
   .stp 6 7 (3 * 16),
   .stp 8 9 (4 * 16),
   .stp 10 11 (5 * 16),
   .stp 12 13 (6 * 16),
   .stp 14 15 (7 * 16),
   .stp 16 17 (8 * 16),
   .stp 18 19 (9 * 16),
   .stp 20 21 (10 * 16),
   .stp 22 23 (11 * 16),
   .stp 24 25 (12 * 16),
   .stp 26 27 (13 * 16),
   .stp 28 30 (14 * 16),
   .mrs 0 .spsr,
   .mrs 1 .esr,
   .stp 0 1 (15 * 16)]

/-- The rest of it, before `add x29, sp, 17 * 16`. -/
def saveFullPointers : List SysOp := [.stp 0 1 (16 * 16), .mrs 1 .elr, .stp 29 1 (17 * 16)]

/-- `save_runtime_context_full`: `SP_EL0` and the stack pointer before the exception go through `x0` and `x1`. -/
def saveRuntimeContextFull (pac : Pac) (spEl0 : BitVec 64) (s : SysCpu) : SysCpu :=
  let s := execs pac (.subSp TRAP_FRAME_FULL_SIZE :: saveFullRegisters) s
  let s := s.set 0 spEl0
  let s := s.set 1 (s.sp + BitVec.ofNat 64 TRAP_FRAME_FULL_SIZE)
  let s := execs pac saveFullPointers s
  s.set 29 (s.sp + BitVec.ofNat 64 (17 * 16))

/-- A `trap_frame_t` in memory, with the members where the C compiler lays them out. -/
def loadTrapFrame (mem : Mem) (frame : Addr) : TrapFrame where
  x i := .ofBitVec (mem.read (frame + BitVec.ofNat 64 (8 * i.val)) 8)
  x30 := .ofBitVec (mem.read (frame + 232#64) 8)
  spsr := .ofBitVec (mem.read (frame + 240#64) 8)
  esr := .ofBitVec (mem.read (frame + 248#64) 8)
  spEl0 := .ofBitVec (mem.read (frame + 256#64) 8)
  spEl1 := .ofBitVec (mem.read (frame + 264#64) 8)
  x29 := .ofBitVec (mem.read (frame + 272#64) 8)
  elr := .ofBitVec (mem.read (frame + 280#64) 8)

/-- What a frame is to hold: the registers of the interrupted program. -/
def TrapFrame.ofCpu (spEl0 : BitVec 64) (s : SysCpu) : TrapFrame where
  x i := .ofBitVec (s.x i.val)
  x30 := .ofBitVec (s.x 30)
  spsr := .ofBitVec s.spsr
  esr := .ofBitVec s.esr
  spEl0 := .ofBitVec spEl0
  spEl1 := .ofBitVec s.sp
  x29 := .ofBitVec (s.x 29)
  elr := .ofBitVec s.elr

section Save

variable {pac : Pac} {spEl0 : BitVec 64} {s : SysCpu}

theorem saveFullRegisters_inFrame : InFrame TRAP_FRAME_FULL_SIZE saveFullRegisters := ⟨by decide, by decide, by decide⟩

theorem saveFullPointers_inFrame : InFrame TRAP_FRAME_FULL_SIZE saveFullPointers := ⟨by decide, by decide, by decide⟩

/-- The stack pointer down by a frame, as it is while the frame is filled. -/
def enterFull (s : SysCpu) : SysCpu := { s with sp := s.sp - BitVec.ofNat 64 TRAP_FRAME_FULL_SIZE }

/-- Before the last three stores, with what they take from `x0` and `x1`. -/
def withPointers (pac : Pac) (spEl0 : BitVec 64) (s : SysCpu) : SysCpu :=
  let t := (execs pac saveFullRegisters (enterFull s)).set 0 spEl0
  t.set 1 (t.sp + BitVec.ofNat 64 TRAP_FRAME_FULL_SIZE)

theorem saveRuntimeContextFull_eq (pac : Pac) (spEl0 : BitVec 64) (s : SysCpu) :
    saveRuntimeContextFull pac spEl0 s =
      (execs pac saveFullPointers (withPointers pac spEl0 s)).set 29
        ((execs pac saveFullPointers (withPointers pac spEl0 s)).sp + BitVec.ofNat 64 (17 * 16)) := by
  unfold saveRuntimeContextFull withPointers
  rw [execs_cons]
  rfl

theorem withPointers_sp : (withPointers pac spEl0 s).sp = (enterFull s).sp := by
  have hsp : (execs pac saveFullRegisters (enterFull s)).sp = (enterFull s).sp := execs_sp saveFullRegisters_inFrame.sp
  unfold withPointers
  rw [SysCpu.set_sp, SysCpu.set_sp, hsp]

theorem saveRuntimeContextFull_sp : (saveRuntimeContextFull pac spEl0 s).sp = (enterFull s).sp := by
  rw [saveRuntimeContextFull_eq, SysCpu.set_sp, execs_sp saveFullPointers_inFrame.sp, withPointers_sp]

/-- A place of the frame that the last stores leave alone holds what the first ones put there. -/
theorem read_registers {i : Nat} (hi : i + 8 ≤ 16 * 16) :
    (saveRuntimeContextFull pac spEl0 s).mem.read ((enterFull s).place i) 8 =
      (execs pac saveFullRegisters (enterFull s)).mem.read ((enterFull s).place i) 8 := by
  have hapart : ∀ j ∈ saveFullPointers.flatMap SysOp.stores, WordsApart i j := by
    intro j hj
    have hlow : 16 * 16 ≤ j := by
      revert j
      decide
    exact .inl (by omega)
  have hread := @execs_read pac (withPointers pac spEl0 s) _ _ _ saveFullPointers_inFrame
    (show i + 8 ≤ TRAP_FRAME_FULL_SIZE by unfold TRAP_FRAME_FULL_SIZE; omega) (by decide) hapart
  unfold SysCpu.place at *
  rw [withPointers_sp] at hread
  rw [saveRuntimeContextFull_eq, SysCpu.set_mem, hread]
  rfl

/-- A register that is stored first. -/
theorem read_saved {r : Reg} {i : Nat} (hr : r ≠ 31) (hsaved : savedAt r saveFullRegisters = some i)
    (hi : i + 8 ≤ 16 * 16) :
    (saveRuntimeContextFull pac spEl0 s).mem.read ((enterFull s).place i) 8 = s.x r := by
  rw [read_registers hi]
  exact read_of_savedAt saveFullRegisters_inFrame (by decide) hr hsaved

/-- A system register that goes through a general one. -/
theorem read_through {r : Reg} {i : Nat} (hr : r ≠ 31) (n : Nat)
    (hsaved : savedAt r (saveFullRegisters.drop n) = some i) (hi : i + 8 ≤ 16 * 16) :
    (saveRuntimeContextFull pac spEl0 s).mem.read ((enterFull s).place i) 8 =
      (execs pac (saveFullRegisters.take n) (enterFull s)).x r := by
  rw [read_registers hi]
  exact read_of_savedAt_drop saveFullRegisters_inFrame (by decide) hr n hsaved

/-- What the last stores put into the frame. -/
theorem read_pointers {r : Reg} {i : Nat} (hr : r ≠ 31) (n : Nat)
    (hsaved : savedAt r (saveFullPointers.drop n) = some i) :
    (saveRuntimeContextFull pac spEl0 s).mem.read ((enterFull s).place i) 8 =
      (execs pac (saveFullPointers.take n) (withPointers pac spEl0 s)).x r := by
  have hread := @read_of_savedAt_drop pac (withPointers pac spEl0 s) _ _ _ _ saveFullPointers_inFrame (by decide) hr n
    hsaved
  unfold SysCpu.place at *
  rw [withPointers_sp] at hread
  rw [saveRuntimeContextFull_eq, SysCpu.set_mem, hread]

theorem savedAt_x : ∀ i : Fin 29, savedAt i.val saveFullRegisters = some (8 * i.val) := by decide

theorem withPointers_x {r : Reg} (hlow : 2 ≤ r) : (withPointers pac spEl0 s).x r = s.x r := by
  have hdests : ∀ op ∈ saveFullRegisters, r ∉ op.dests := by
    have hscratch : ∀ op ∈ saveFullRegisters, ∀ q ∈ op.dests, q < 2 := by decide
    intro op hop hr
    exact absurd (hscratch op hop r hr) (Nat.not_lt.2 hlow)
  unfold withPointers
  rw [SysCpu.set_x_of_ne (Nat.ne_of_gt (Nat.lt_of_lt_of_le (by decide) hlow)),
    SysCpu.set_x_of_ne (Nat.ne_of_gt (Nat.lt_of_lt_of_le (by decide) hlow)), execs_x hdests]
  rfl

theorem withPointers_getSys (q : SysReg) : (withPointers pac spEl0 s).getSys q = s.getSys q := by
  have hkeeps : ∀ op ∈ saveFullRegisters, op.writesSys ≠ some q := by cases q <;> decide
  unfold withPointers
  rw [SysCpu.set_getSys, SysCpu.set_getSys, execs_getSys hkeeps]
  cases q <;> rfl

theorem withPointers_spEl0 : (withPointers pac spEl0 s).x 0 = spEl0 := by
  unfold withPointers
  rw [SysCpu.set_x_of_ne (show (0 : Reg) ≠ 1 by decide), SysCpu.set_x_self (show (0 : Reg) ≠ 31 by decide)]

theorem withPointers_spEl1 : (withPointers pac spEl0 s).x 1 = s.sp := by
  unfold withPointers
  rw [SysCpu.set_x_self (show (1 : Reg) ≠ 31 by decide), SysCpu.set_sp, execs_sp saveFullRegisters_inFrame.sp]
  exact BitVec.sub_add_cancel _ _

theorem read_spsr_full : (saveRuntimeContextFull pac spEl0 s).mem.read ((enterFull s).place 240) 8 = s.spsr := by
  rw [@read_through pac spEl0 s 0 240 (by decide) 16 (by decide) (by decide)]
  exact @execs_mrs pac (enterFull s) (saveFullRegisters.take 15) 0 .spsr (by decide) (by decide)

theorem read_esr_full : (saveRuntimeContextFull pac spEl0 s).mem.read ((enterFull s).place 248) 8 = s.esr := by
  rw [@read_through pac spEl0 s 1 248 (by decide) 17 (by decide) (by decide)]
  exact @execs_mrs pac (enterFull s) (saveFullRegisters.take 16) 1 .esr (by decide) (by decide)

/-- What is in a register before the last stores. -/
theorem read_withPointers {r : Reg} {i : Nat} (hr : r ≠ 31) (hsaved : savedAt r saveFullPointers = some i) :
    (saveRuntimeContextFull pac spEl0 s).mem.read ((enterFull s).place i) 8 = (withPointers pac spEl0 s).x r := by
  rw [read_pointers hr 0 hsaved, List.take_zero]
  rfl

theorem read_elr_full : (saveRuntimeContextFull pac spEl0 s).mem.read ((enterFull s).place 280) 8 = s.elr := by
  rw [@read_pointers pac spEl0 s 1 280 (by decide) 2 (by decide)]
  have hmrs := @execs_mrs pac (withPointers pac spEl0 s) (saveFullPointers.take 1) 1 .elr (by decide) (by decide)
  exact hmrs.trans (withPointers_getSys .elr)

/-- **The frame holds the interrupted registers.** -/
theorem loadTrapFrame_save :
    loadTrapFrame (saveRuntimeContextFull pac spEl0 s).mem (saveRuntimeContextFull pac spEl0 s).sp =
      .ofCpu spEl0 s := by
  have hx : ∀ i : Fin 29, (saveRuntimeContextFull pac spEl0 s).mem.read ((enterFull s).place (8 * i.val)) 8 =
      s.x i.val := fun i =>
    read_saved (Nat.ne_of_lt (Nat.lt_trans i.isLt (by decide))) (savedAt_x i) (by have := i.isLt; omega)
  have hx30 : (saveRuntimeContextFull pac spEl0 s).mem.read ((enterFull s).place 232) 8 = s.x 30 :=
    @read_saved pac spEl0 s 30 232 (by decide) (by decide) (by decide)
  have hspEl0 := (@read_withPointers pac spEl0 s 0 256 (by decide) (by decide)).trans withPointers_spEl0
  have hspEl1 := (@read_withPointers pac spEl0 s 1 264 (by decide) (by decide)).trans withPointers_spEl1
  have hx29 := (@read_withPointers pac spEl0 s 29 272 (by decide) (by decide)).trans (withPointers_x (by decide))
  have hspsr := @read_spsr_full pac spEl0 s
  have hesr := @read_esr_full pac spEl0 s
  have helr := @read_elr_full pac spEl0 s
  unfold loadTrapFrame TrapFrame.ofCpu
  rw [saveRuntimeContextFull_sp]
  unfold SysCpu.place at *
  rw [hx30, hspsr, hesr, hspEl0, hspEl1, hx29, helr]
  congr 1
  funext i
  rw [hx i]

end Save

/-! ## The way to the dump -/

/-- `vector_el1h_sync` and `handle_el1h_sync` for what is no `svc #0`, up to the call of `dump_trap_frame`: the frame
of a system call is saved, found to be the wrong one and restored, and then everything is saved. -/
def el1hInvalid (pac : Pac) (spEl0 : BitVec 64) (s : SysCpu) : SysCpu :=
  saveRuntimeContextFull pac spEl0
    (execs pac Entry.syscall.restore (execs pac checkSvc (execs pac Entry.syscall.save s)))

/-- What saves the full context and panics: the entries of `vectors_aarch64` but the two that are used, and
`__stack_chk_fail`. -/
inductive PanicEntry where
  | el1tSync
  | el1tIrq
  | el1tFiq
  | el1tSerror
  | el1hFiq
  | el1hSerror
  | guest64SyncPanic
  | guest64IrqPanic
  | guest64FiqPanic
  | guest64SerrorPanic
  | guest32SyncPanic
  | guest32IrqPanic
  | guest32FiqPanic
  | guest32SerrorPanic
  | stackChkFail

/-- `dump_trap_frame` is called before the panic. The entries of the guests have no such call. -/
def PanicEntry.dumps : PanicEntry → Bool
  | .el1tSync | .el1tIrq | .el1tFiq | .el1tSerror | .el1hFiq | .el1hSerror | .stackChkFail => true
  | .guest64SyncPanic | .guest64IrqPanic | .guest64FiqPanic | .guest64SerrorPanic => false
  | .guest32SyncPanic | .guest32IrqPanic | .guest32FiqPanic | .guest32SerrorPanic => false

/-- The ways to a dump, with the state in which `dump_trap_frame` is called. -/
inductive Fatal (pac : Pac) (spEl0 : BitVec 64) (s : SysCpu) : SysCpu → Prop
  /-- An entry that dumps. -/
  | direct (entry : PanicEntry) (hdumps : entry.dumps = true) : Fatal pac spEl0 s (saveRuntimeContextFull pac spEl0 s)
  /-- An exception that has been taken for a system call, and is none. -/
  | sync (hclass : let u := execs pac checkSvc (execs pac Entry.syscall.save s)
      ¬ (u.x 10 = ESR_EC_SVC64 ∧ u.x 11 = 0)) : Fatal pac spEl0 s (el1hInvalid pac spEl0 s)

section Fatal

variable {pac : Pac} {spEl0 : BitVec 64} {s : SysCpu}

theorem checkSvc_aapcs64 (size : Nat) (u : SysCpu) : Aapcs64 size u (execs pac checkSvc u) where
  sp := execs_sp (by decide)
  mem a _ := congrFun (execs_mem (by decide)) a
  x r hlow _ := by
    have hscratch : ∀ op ∈ checkSvc, ∀ q ∈ op.dests, q < 19 := by decide
    exact execs_x fun op hop hr => absurd (hscratch op hop r hr) (Nat.not_lt.2 hlow)
  key := rfl

/-- **The first frame leaves no trace**: after it is restored, the context is the interrupted one again. -/
theorem restored_of_checkSvc
    (hpac : pac.Undoes s.key (s.sp - BitVec.ofNat 64 TRAP_FRAME_SYSCALL_SIZE) s.elr) :
    TrapFrame.ofCpu spEl0 (execs pac Entry.syscall.restore (execs pac checkSvc (execs pac Entry.syscall.save s))) =
      .ofCpu spEl0 s := by
  have hcontext := @Aapcs64.preserves pac .syscall s (execs pac checkSvc (execs pac Entry.syscall.save s))
    (checkSvc_aapcs64 Entry.syscall.frameSize (execs pac Entry.syscall.save s)) hpac
  have hresult : (execs pac checkSvc (execs pac Entry.syscall.save s)).x 0 = s.x 0 := by
    have hkept : ∀ op ∈ Entry.syscall.save ++ checkSvc, (0 : Reg) ∉ op.dests := by decide
    rw [← execs_append, execs_x hkept]
  have hesr : (execs pac Entry.syscall.restore (execs pac checkSvc (execs pac Entry.syscall.save s))).getSys .esr =
      s.getSys .esr := by
    have hkept : ∀ op ∈ Entry.syscall.save ++ (checkSvc ++ Entry.syscall.restore), op.writesSys ≠ some .esr := by
      decide
    rw [← execs_append, ← execs_append, execs_getSys hkept]
  have hx : ∀ r ≤ 30, (execs pac Entry.syscall.restore (execs pac checkSvc (execs pac Entry.syscall.save s))).x r =
      s.x r := by
    intro r hr
    rw [hcontext.x r hr]
    by_cases hzero : r = 0
    · rw [if_pos ⟨rfl, hzero⟩, hzero, hresult]
    · rw [if_neg fun h => hzero h.2]
  unfold TrapFrame.ofCpu
  rw [hx 30 (by decide), hx 29 (by decide), hcontext.sp, hcontext.elr, hcontext.spsr]
  congr 1
  funext i
  rw [hx i.val (Nat.le_of_lt (Nat.lt_trans i.isLt (by decide)))]

theorem checkSvc_x (pac : Pac) (u : SysCpu) : (execs pac checkSvc u).x 10 = u.esr >>> ESR_EC_SHIFT ∧
    (execs pac checkSvc u).x 11 = u.esr &&& ESR_ISS_SVC_IMM16_MASK := ⟨rfl, rfl⟩

/-- What `handle_el1h_sync` looks at is the class of the exception that was taken. -/
theorem Fatal.of_class (hclass : ¬ (s.esr >>> ESR_EC_SHIFT = ESR_EC_SVC64 ∧ s.esr &&& ESR_ISS_SVC_IMM16_MASK = 0)) :
    Fatal pac spEl0 s (el1hInvalid pac spEl0 s) := by
  have hesr : (execs pac Entry.syscall.save s).esr = s.esr := by
    have hkept : ∀ op ∈ Entry.syscall.save, op.writesSys ≠ some .esr := by decide
    exact execs_getSys hkept
  obtain ⟨h10, h11⟩ := checkSvc_x pac (execs pac Entry.syscall.save s)
  refine .sync ?_
  intro u
  rw [h10, h11, hesr]
  exact hclass

theorem Fatal.loadTrapFrame {t : SysCpu} (h : Fatal pac spEl0 s t)
    (hpac : pac.Undoes s.key (s.sp - BitVec.ofNat 64 TRAP_FRAME_SYSCALL_SIZE) s.elr) :
    GunyahRuntime.loadTrapFrame t.mem t.sp = .ofCpu spEl0 s := by
  cases h with
  | direct _ _ => exact loadTrapFrame_save
  | sync _ => exact loadTrapFrame_save.trans (restored_of_checkSvc hpac)

/-- **What a fatal exception prints.** Whatever is interrupted, by an exception whose entry dumps before it panics or
by one that is taken for a system call and is no `svc #0`: if authentication undoes signing, then the dump is that of
the interrupted registers, `SP_EL0` and the stack pointer from before the exception included; and it arrives whole on
the console if and only if none of them has a value of seven hexadecimal digits. -/
theorem fatal_dumps {t : SysCpu} (h : Fatal pac spEl0 s t)
    (hpac : pac.Undoes s.key (s.sp - BitVec.ofNat 64 TRAP_FRAME_SYSCALL_SIZE) s.elr)
    (strs : Nat → CString) (stack : Nat → Vector UInt8 SINGLE_LOG_MSG_SIZE) {console : Console}
    (hconsole : console.console ≠ 0) {log : LogS} (hlog : log.Ok) :
    ∃ sent log', dumpTrapFrame strs (GunyahRuntime.loadTrapFrame t.mem t.sp) stack console log =
        .ok (console.send sent, log') ∧
      (sent = dumpText (.ofCpu spEl0 s) ↔ ∀ v ∈ (TrapFrame.ofCpu spEl0 s).registers, ¬ SevenDigits v) := by
  rw [h.loadTrapFrame hpac]
  exact dumpTrapFrame_iff strs (.ofCpu spEl0 s) stack hconsole hlog

end Fatal

theorem fatal_dumps_distinct :
    ∃ sent log', dumpTrapFrame noStrings
        (loadTrapFrame (el1hInvalid upperBits 0x7f000#64 distinctRegisters).mem
          (el1hInvalid upperBits 0x7f000#64 distinctRegisters).sp)
        (fun _ => staleLog) registeredConsole earlyLogBuf = .ok (registeredConsole.send sent, log') ∧
      (sent = dumpText (.ofCpu 0x7f000#64 distinctRegisters) ↔
        ∀ v ∈ (TrapFrame.ofCpu 0x7f000#64 distinctRegisters).registers, ¬ SevenDigits v) :=
  fatal_dumps (.of_class (by decide)) (by unfold Pac.Undoes; decide) noStrings (fun _ => staleLog)
    (by decide) earlyLogBuf_ok

end GunyahRuntime
