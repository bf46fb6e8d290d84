/-
# GunyahRuntime.Str.ReadBack -- what is printed for a number can be read (`itoa`, `sitoa`)

A reader of numbers takes the sign off, then the prefix, and reads the digits that are left. It gets the
argument back from what `itoa` and `sitoa` write: the unsigned value in the bases 2, 8 and 16, the signed
one in decimal, the least value included. So no two arguments print alike.
-/
import GunyahRuntime.Str.Width
import GunyahRuntime.Lib.Numeral

namespace GunyahRuntime

open Lib (readNumeral numeral)

/-- What `gen_str` calls for a number: `sitoa` in decimal, `itoa` with `positive` set in the other bases. -/
def printNumber (o : OutBuf) (val base : Nat) (info : FmtInfo) : Exec (OutBuf × Int) :=
  if base = 10 then sitoa o val base info else itoa o val base info true

/-- The number that an argument stands for. -/
def argValue (base val : Nat) : Int := if base = 10 then toInt64 val else val

/-- What was written between two positions of the pointer. -/
def OutBuf.written (o o' : OutBuf) : List UInt8 := (o'.cur.mem.drop o.cur.pos).take (o'.cur.pos - o.cur.pos)

/-! ## The reader -/

/-- The sign that a mode asks for. -/
def signOf (sign : Sign) (value : Int) : List UInt8 :=
  if value < 0 then ['-'.toUInt8]
  else
    match sign with
    | .neg => []
    | .both => ['+'.toUInt8]
    | .posLeading => [' '.toUInt8]

/-- The prefix that `#` asks for. -/
def prefixOf (alternate : Bool) (base : Nat) : List UInt8 :=
  match alternate, base with
  | true, 2 => ['0'.toUInt8, 'b'.toUInt8]
  | true, 8 => ['0'.toUInt8, 'o'.toUInt8]
  | true, 16 => ['0'.toUInt8, 'x'.toUInt8]
  | _, _ => []

/-- The value of a digit, if it is one of the base. -/
def digitValue (base : Nat) (c : UInt8) : Option Nat :=
  let d := if c.toNat < 58 then c.toNat - 48 else c.toNat - 87
  if (48 ≤ c.toNat ∧ c.toNat < 58 ∨ 97 ≤ c.toNat) ∧ d < base then some d else none

/-- Takes the sign off. -/
def readSign : List UInt8 → List UInt8 × List UInt8
  | [] => ([], [])
  | c :: text => if c ∈ ['+'.toUInt8, '-'.toUInt8, ' '.toUInt8] then ([c], text) else ([], c :: text)

/-- Takes a prefix off. -/
def readPrefix (lead text : List UInt8) : Option (List UInt8) :=
  if lead.isPrefixOf text then some (text.drop lead.length) else none

/-- Reads a number. -/
def readNumber (alternate : Bool) (base : Nat) (text : List UInt8) : Option Int := do
  let (sign, text) := readSign text
  let digits ← readPrefix (prefixOf alternate base) text
  let n ← readNumeral base (digitValue base) digits
  return if sign = ['-'.toUInt8] then -n else n

/-- A text that shows a value: the sign of its mode, the prefix, and a numeral without leading zeros; and the value
is read from it. -/
structure ReadsBack (info : FmtInfo) (base : Nat) (value : Int) (text : List UInt8) : Prop where
  shown : ∃ digits, text = signOf info.sign value ++ prefixOf info.alternateForm base ++ digits ∧ digits ≠ [] ∧
    (digits.head? = some '0'.toUInt8 → value = 0) ∧ readNumeral base (digitValue base) digits = some value.natAbs
  read : readNumber info.alternateForm base text = some value

/-! ## The numeral -/

theorem reverse_digitsText (base val : Nat) : (digitsText base val).reverse = numeral base digitAt val := rfl

theorem digitValue_digitAt {base : Nat} (hbase : base ≤ 16) : ∀ d < base, digitValue base (digitAt d) = some d := by
  have hall : ∀ d < 16, (48 ≤ (digitAt d).toNat ∧ (digitAt d).toNat < 58 ∨ 97 ≤ (digitAt d).toNat) ∧
      (if (digitAt d).toNat < 58 then (digitAt d).toNat - 48 else (digitAt d).toNat - 87) = d := by decide
  intro d hd
  obtain ⟨hrange, hvalue⟩ := hall d (by omega)
  unfold digitValue
  dsimp only
  rw [hvalue, if_pos ⟨hrange, hd⟩]

theorem digitAt_eq_zero : ∀ d < 16, digitAt d = digitAt 0 → d = 0 := by decide

/-- A numeral starts with a digit, which is no sign. -/
theorem readSign_numeral {base : Nat} (hbase : 1 < base) (hbase' : base ≤ 16) (n : Nat) :
    readSign (numeral base digitAt n) = ([], numeral base digitAt n) := by
  have hdigit : ∀ d < 16, digitAt d ∉ ['+'.toUInt8, '-'.toUInt8, ' '.toUInt8] := by decide
  have hall : ∀ c ∈ numeral base digitAt n, c ∉ ['+'.toUInt8, '-'.toUInt8, ' '.toUInt8] := by
    intro c hc
    unfold numeral at hc
    rw [List.mem_reverse] at hc
    split at hc
    · rw [List.mem_singleton.1 hc]
      exact hdigit 0 (by decide)
    · obtain ⟨d, hd, rfl⟩ := List.mem_map.1 hc
      exact hdigit d ((Nat.digits_lt_base hbase hd).trans_le hbase')
  cases htext : numeral base digitAt n with
  | nil => rfl
  | cons c text =>
    rw [htext] at hall
    exact if_neg (hall c List.mem_cons_self)

theorem readSign_prefix (alternate : Bool) {base : Nat} (hbase : 1 < base) (hbase' : base ≤ 16) (n : Nat) :
    readSign (prefixOf alternate base ++ numeral base digitAt n) =
      ([], prefixOf alternate base ++ numeral base digitAt n) := by
  unfold prefixOf
  split
  · rfl
  · rfl
  · rfl
  · exact readSign_numeral hbase hbase' n

theorem readPrefix_append (lead text : List UInt8) : readPrefix lead (lead ++ text) = some text := by
  unfold readPrefix
  rw [if_pos (List.isPrefixOf_iff_prefix.2 (List.prefix_append lead text)), List.drop_left]

theorem readSign_signOf (sign : Sign) (value : Int) (alternate : Bool) {base : Nat} (hbase : 1 < base)
    (hbase' : base ≤ 16) (n : Nat) :
    readSign (signOf sign value ++ (prefixOf alternate base ++ numeral base digitAt n)) =
      (signOf sign value, prefixOf alternate base ++ numeral base digitAt n) := by
  unfold signOf
  split
  · rfl
  · cases sign with
    | neg => exact readSign_prefix alternate hbase hbase' n
    | both => rfl
    | posLeading => rfl

theorem signOf_eq_minus (sign : Sign) (value : Int) : signOf sign value = ['-'.toUInt8] ↔ value < 0 := by
  unfold signOf
  split
  · next hneg => exact iff_of_true rfl hneg
  · next hpos =>
    refine iff_of_false ?_ hpos
    cases sign <;> decide

/-- The reader takes each part of a number for what it is. -/
theorem readNumber_shown (sign : Sign) (value : Int) (alternate : Bool) {base : Nat} (hbase : 1 < base)
    (hbase' : base ≤ 16) : readNumber alternate base (signOf sign value ++
      (prefixOf alternate base ++ numeral base digitAt value.natAbs)) = some value := by
  unfold readNumber
  rw [readSign_signOf sign value alternate hbase hbase']
  dsimp only
  rw [readPrefix_append, Option.bind_eq_bind, Option.bind_some,
    Lib.readNumeral_numeral hbase (digitValue_digitAt hbase'), Option.bind_eq_bind, Option.bind_some]
  simp only [signOf_eq_minus]
  split
  · next hneg =>
    congr 1
    omega
  · next hpos =>
    congr 1
    omega

/-! ## The text that is printed -/

theorem signChar_toList (info : FmtInfo) (value : Int) :
    (signChar info (decide (0 ≤ value))).toList = signOf info.sign value := by
  unfold signChar signOf
  by_cases hneg : value < 0
  · rw [if_pos hneg, decide_eq_false (by omega)]
    cases info.sign <;> rfl
  · rw [if_neg hneg, decide_eq_true (by omega)]
    cases info.sign <;> rfl

theorem reverse_prefixText (info : FmtInfo) {base : Nat} (hbase : base ∈ [2, 8, 10, 16]) :
    (prefixText info base).reverse = prefixOf info.alternateForm base := by
  simp only [List.mem_cons, List.not_mem_nil, or_false] at hbase
  unfold prefixText
  rcases hbase with rfl | rfl | rfl | rfl <;> cases info.alternateForm <;> rfl

/-- Without a width there is no padding. -/
theorem paddingCnt_eq_zero {info : FmtInfo} (hwidth : info.minWidth = 0) (base : Nat) (positive : Bool) (n : Nat) :
    paddingCnt info base positive n = 0 := by
  have hnone : sub64 (utilMax info.minWidth n) n = 0 := by
    rw [hwidth, utilMax_eq, Nat.zero_max]
    unfold sub64
    omega
  unfold paddingCnt
  dsimp only
  rw [hnone]
  simp

theorem numText_text {info : FmtInfo} (hwidth : info.minWidth = 0) (value : Int) {base : Nat}
    (hbase : base ∈ [2, 8, 10, 16]) :
    (numText value.natAbs base info (decide (0 ≤ value))).text =
      signOf info.sign value ++ (prefixOf info.alternateForm base ++ numeral base digitAt value.natAbs) := by
  obtain ⟨hsum, -⟩ := itoaPads_share info base (decide (0 ≤ value)) (digitsText base value.natAbs).length
  rw [paddingCnt_eq_zero hwidth] at hsum
  have horder := numText_order value.natAbs base info (decide (0 ≤ value))
  dsimp only at hsum horder
  rw [horder]
  generalize itoaPads info base (decide (0 ≤ value)) (digitsText base value.natAbs).length = pads at hsum ⊢
  have hleft : pads.left = 0 := by omega
  have hright : pads.right = 0 := by omega
  have hsign : pads.afterSign = 0 := by omega
  have hprefix : pads.afterPrefix = 0 := by omega
  simp only [hleft, hright, hsign, hprefix, List.replicate_zero, List.nil_append, List.append_nil, List.append_assoc,
    reverse_digitsText, reverse_prefixText info hbase, signChar_toList]

/-- What is printed for a value: its absolute value, with its sign. -/
theorem printNumber_eq (o : OutBuf) {val : Nat} (hval : val < 18446744073709551616) (base : Nat) (info : FmtInfo) :
    printNumber o val base info =
      itoa o (argValue base val).natAbs base info (decide (0 ≤ argValue base val)) := by
  unfold printNumber argValue
  by_cases hdec : base = 10
  · rw [if_pos hdec, if_pos hdec]
    unfold sitoa toInt64
    by_cases hlow : val < 9223372036854775808
    · rw [if_pos hlow, if_neg (by omega), decide_eq_true (by omega), Int.natAbs_natCast]
    · rw [if_neg hlow, if_pos (by omega), decide_eq_false (by omega)]
      -- in 64 bits, also of the least value, whose negative does not fit a signed number
      have hneg : sub64 0 val = ((val : Int) - 18446744073709551616).natAbs := by
        unfold sub64
        omega
      rw [hneg]
  · rw [if_neg hdec, if_neg hdec, decide_eq_true (by omega), Int.natAbs_natCast]

theorem argValue_inj {base val val' : Nat} (hval : val < 18446744073709551616) (hval' : val' < 18446744073709551616)
    (h : argValue base val = argValue base val') : val = val' := by
  unfold argValue toInt64 at h
  split at h
  · split at h <;> split at h <;> omega
  · omega

theorem OutBuf.Ok.written_put {o : OutBuf} (h : o.Ok) {text : List UInt8} (hroom : text.length < o.cur.room) :
    o.written (o.put text) = text := by
  have hfull := h.full
  have htake : (o.cur.mem.take o.cur.pos).length = o.cur.pos := by
    rw [List.length_take]
    omega
  unfold OutBuf.written OutBuf.put
  rw [Lib.Cursor.mem_put, Lib.Cursor.pos_put, Nat.min_eq_left hroom.le, Nat.add_sub_cancel_left,
    List.take_of_length_le hroom.le]
  unfold Lib.patch
  rw [List.append_assoc, List.drop_left' htake, List.take_left]

/-- The room that is needed for a number. -/
def printedWidth (base val : Nat) (info : FmtInfo) : Nat :=
  naturalWidth (argValue base val).natAbs base info (decide (0 ≤ argValue base val))

/-- A number that there is room for is written. -/
theorem OutBuf.Ok.printNumber_written {o : OutBuf} (h : o.Ok) {base : Nat} (hbase : base ∈ [2, 8, 10, 16])
    {info : FmtInfo} (hwidth : info.minWidth = 0) {val : Nat} (hval : val < 18446744073709551616)
    (hroom : printedWidth base val info < o.cur.room) :
    ∃ o', printNumber o val base info = .ok (o', OK) ∧
      o.written o' = signOf info.sign (argValue base val) ++
        (prefixOf info.alternateForm base ++ numeral base digitAt (argValue base val).natAbs) := by
  have hrange : 2 ≤ base ∧ base ≤ 16 := by
    simp only [List.mem_cons, List.not_mem_nil, or_false] at hbase
    omega
  have habs : (argValue base val).natAbs < 18446744073709551616 := by
    unfold argValue toInt64
    split
    · split <;> omega
    · omega
  have hfit : (numText (argValue base val).natAbs base info (decide (0 ≤ argValue base val))).text.length <
      o.cur.room := by
    rw [length_numText _ hbase, paddingCnt_eq_zero hwidth]
    exact hroom
  refine ⟨_, (printNumber_eq o hval base info).trans (h.itoa_put hrange.1 hrange.2 habs _ _ hfit), ?_⟩
  rw [h.written_put hfit, numText_text hwidth _ hbase]

/-- **Numbers print and read back.** For every argument, base, sign mode and `#` setting, without a width and with more
room than the number needs: what is written shows the argument's value with the sign that the mode asks for and no
leading zero, the value is read from it, and another argument is written otherwise. -/
theorem printNumber_readBack {o : OutBuf} (h : o.Ok) {base : Nat} (hbase : base ∈ [2, 8, 10, 16]) {info : FmtInfo}
    (hwidth : info.minWidth = 0) {val : Nat} (hval : val < 18446744073709551616)
    (hroom : printedWidth base val info < o.cur.room) :
    ∃ o', printNumber o val base info = .ok (o', OK) ∧
      ReadsBack info base (argValue base val) (o.written o') ∧
      ∀ (p p' : OutBuf) (other : Nat), p.Ok → other < 18446744073709551616 →
        printedWidth base other info < p.cur.room → printNumber p other base info = .ok (p', OK) →
        p.written p' = o.written o' → other = val := by
  have hrange : 1 < base ∧ base ≤ 16 := by
    simp only [List.mem_cons, List.not_mem_nil, or_false] at hbase
    omega
  have hread : ∀ v, readNumber info.alternateForm base (signOf info.sign (argValue base v) ++
      (prefixOf info.alternateForm base ++ numeral base digitAt (argValue base v).natAbs)) = some (argValue base v) :=
    fun v => readNumber_shown info.sign (argValue base v) info.alternateForm hrange.1 hrange.2
  obtain ⟨o', hrun, hwritten⟩ := h.printNumber_written hbase hwidth hval hroom
  refine ⟨o', hrun, ⟨⟨numeral base digitAt (argValue base val).natAbs, ?_, ?_, fun hzero => ?_, ?_⟩, ?_⟩, ?_⟩
  · rw [hwritten, List.append_assoc]
  · exact Lib.numeral_ne_nil base digitAt _
  · by_contra hne
    exact Lib.head_numeral hrange.1 (fun d hd => digitAt_eq_zero d (by omega)) (Int.natAbs_ne_zero.2 hne) hzero
  · exact Lib.readNumeral_numeral hrange.1 (digitValue_digitAt hrange.2) _
  · rw [hwritten]
    exact hread val
  · intro p p' other hp hother hroom' hrun' hsame
    obtain ⟨q, hq, hqwritten⟩ := hp.printNumber_written hbase hwidth hother hroom'
    obtain rfl : q = p' := (Prod.mk.inj (Except.ok.inj (hq.symm.trans hrun'))).1
    -- both values are read from the one text
    have hval' := hread other
    rw [← hqwritten, hsame, hwritten, hread val] at hval'
    exact argValue_inj hother hval (Option.some.inj hval').symm

/-- The least value has nineteen digits and a sign. -/
theorem printNumber_readBack_min : ∃ o', printNumber ⟨⟨List.replicate 32 0, 0, 31⟩, true⟩ 0x8000000000000000 10 {} =
      .ok (o', OK) ∧
    readNumber false 10 (OutBuf.written ⟨⟨List.replicate 32 0, 0, 31⟩, true⟩ o') = some (-9223372036854775808) := by
  have hok : OutBuf.Ok ⟨⟨List.replicate 32 0, 0, 31⟩, true⟩ := ⟨rfl, by decide⟩
  obtain ⟨o', hrun, hread, -⟩ := @printNumber_readBack _ hok 10 (by decide) {} rfl 0x8000000000000000 (by decide)
    (by decide +kernel)
  exact ⟨o', hrun, hread.read⟩

end GunyahRuntime
