/-
# GunyahRuntime.Str.Meaning -- what a format says, and that `snprint` says it

The meaning of a descriptor in its own terms: a number is its sign, its prefix and its digits, a string is its
characters up to the precision, and the fill that brings either to its width stands where the alignment puts it.
Nothing of it is taken from `itoa` and `stringtoa`. They keep to it except where a prefix meets a gap of one place,
where a string is to stand on one side, and where the fill is a colon; `argText_eq_shows_iff` says that there is no
other exception, and that each of these is one. For all formats without them `snprint_means` follows.
-/
import GunyahRuntime.Str.Alignment
import GunyahRuntime.Str.Spelled

namespace GunyahRuntime

open Lib (numeral)

/-! ## The meaning of a descriptor -/

/-- The digits of a number, the highest first. -/
def digitsOf (base n : Nat) : List UInt8 := numeral base (fun d => (Nat.digitChar d).toUInt8) n

namespace Descriptor

variable (d : Descriptor)

def alignment : Align := (d.align.map fun a => a.2.val).getD .default

def width : Nat := (d.minWidth.map Subtype.val).getD 0

/-- A text brought to its width. The fill stands behind it or before it, half of it on either side, behind the sign,
or, where the descriptor has no alignment, before the text; with the `0` flag before the digits. -/
def laid (c : UInt8) (sign lead body : List UInt8) : List UInt8 :=
  let gap := d.width - (sign ++ lead ++ body).length
  match d.alignment with
  | .left => sign ++ lead ++ body ++ List.replicate gap c
  | .right => List.replicate gap c ++ (sign ++ lead ++ body)
  | .center => List.replicate (gap / 2) c ++ (sign ++ lead ++ body) ++ List.replicate (gap - gap / 2) c
  | .afterSign => sign ++ List.replicate gap c ++ lead ++ body
  | .default =>
    if d.zeroPadding then sign ++ lead ++ List.replicate gap c ++ body
    else List.replicate gap c ++ (sign ++ lead ++ body)

/-- The characters that are written in any case. -/
def bareNumber (base : Nat) (value : Int) : List UInt8 :=
  signOf (d.sign.getD .neg) value ++ prefixOf d.alternateForm base ++ digitsOf base value.natAbs

def numberText (base : Nat) (value : Int) : List UInt8 :=
  d.laid (d.fill.getD (if d.zeroPadding then '0'.toUInt8 else ' '.toUInt8)) (signOf (d.sign.getD .neg) value)
    (prefixOf d.alternateForm base) (digitsOf base value.natAbs)

/-- A string up to the precision. -/
def cut (s : List UInt8) : List UInt8 := (d.precise.map fun n => s.take n.val).getD s

def stringText (s : List UInt8) : List UInt8 := d.laid (d.fill.getD ' '.toUInt8) [] [] (d.cut s)

/-- An argument under its descriptor. A string that is not there is not shown. -/
def shows (strs : Nat → CString) (arg : UInt64) : Option (List UInt8) :=
  match d.type.val with
  | .bin => some (d.numberText 2 arg.toNat)
  | .dec => some (d.numberText 10 arg.toInt64.toInt)
  | .octal => some (d.numberText 8 arg.toNat)
  | .lowHex => some (d.numberText 16 arg.toNat)
  | .string => if arg = 0 then none else some (d.stringText (strs arg.toNat).chars)
  | .none => none

/-- A number that is shown as it should: no prefix meets a gap of one place, and a colon has nothing to fill. -/
structure NumberHonoured (base : Nat) (value : Int) : Prop where
  gap : ¬ (d.alternateForm = true ∧ base ≠ 10 ∧ d.width = (digitsOf base value.natAbs).length + 1)
  colon : d.fill = some ':'.toUInt8 → d.width ≤ (d.bareNumber base value).length

/-- A string that is shown as it should: it is not sent to one side, or there is nothing to fill, or it cannot be told
from the fill; and a colon has nothing to fill. -/
structure StringHonoured (s : List UInt8) : Prop where
  side : d.alignment = .left ∨ d.alignment = .right →
    d.width ≤ (d.cut s).length ∨ ∀ x ∈ d.cut s, x = d.fill.getD ' '.toUInt8
  colon : d.fill = some ':'.toUInt8 → d.width ≤ (d.cut s).length

def Honoured (strs : Nat → CString) (arg : UInt64) : Prop :=
  match d.type.val with
  | .bin => d.NumberHonoured 2 arg.toNat
  | .dec => d.NumberHonoured 10 arg.toInt64.toInt
  | .octal => d.NumberHonoured 8 arg.toNat
  | .lowHex => d.NumberHonoured 16 arg.toNat
  | .string => arg ≠ 0 → d.StringHonoured (strs arg.toNat).chars
  | .none => True

end Descriptor

namespace FormatText

variable (strs : Nat → CString) (args : Vector UInt64 MAX_ARG_CNT) (last : Literal)

/-- What a format says: its literals with the arguments between them, up to the first descriptor that has none. -/
def meaning : List (Literal × Descriptor) → Nat → List UInt8 × Int
  | [], _ => (last.val, OK)
  | f :: fs, argIdx =>
    match args[argIdx]? with
    | none => (f.1.val, ERROR_STRING_MISSING_PLACEHOLDER)
    | some arg =>
      match f.2.shows strs arg with
      | none => (f.1.val, ERROR_STRING_MISSING_ARGUMENT)
      | some text => (f.1.val ++ (text ++ (meaning fs (argIdx + 1)).1), (meaning fs (argIdx + 1)).2)

end FormatText

/-! ## The fill -/

namespace Descriptor

variable {d : Descriptor} {c c' : UInt8} {sign lead body : List UInt8}

theorem width_lt (d : Descriptor) : d.width < 18446744073709551616 := by
  unfold width
  cases d.minWidth with
  | none => decide
  | some n => exact n.property.2

theorem count_laid (x : UInt8) :
    (d.laid c sign lead body).count x =
      (sign ++ lead ++ body).count x + if c = x then d.width - (sign ++ lead ++ body).length else 0 := by
  have hfill : ∀ n, (List.replicate n c).count x = if c = x then n else 0 := by
    intro n
    rw [List.count_replicate]
    simp
  unfold laid
  cases d.alignment <;> simp only [List.count_append, hfill]
  case right => omega
  case center => split <;> omega
  case afterSign => omega
  case default => split <;> simp only [List.count_append, hfill] <;> omega

theorem length_laid (d : Descriptor) (c : UInt8) (sign lead body : List UInt8) :
    (d.laid c sign lead body).length = max d.width (sign ++ lead ++ body).length := by
  unfold laid
  cases d.alignment <;> simp only [List.length_append, List.length_replicate]
  case default => split <;> simp only [List.length_append, List.length_replicate] <;> omega
  all_goals omega

/-- Two fills can be told apart wherever there is something to fill. -/
theorem laid_eq_iff :
    d.laid c sign lead body = d.laid c' sign lead body ↔ c' = c ∨ d.width ≤ (sign ++ lead ++ body).length := by
  constructor
  · intro h
    by_contra hne
    obtain ⟨hchar, hgap⟩ := not_or.1 hne
    have hcount := congrArg (List.count c) h
    rw [count_laid, count_laid, if_pos rfl, if_neg hchar] at hcount
    omega
  · rintro (rfl | hfull)
    · rfl
    · unfold laid
      simp only [Nat.sub_eq_zero_of_le hfull, Nat.zero_div, Nat.sub_zero, List.replicate_zero]

/-- The fill that is used: a colon is not read. -/
theorem paddingChar_readInfo (d : Descriptor) (c : UInt8) :
    paddingChar d.readInfo c = if d.fill = some ':'.toUInt8 then c else d.fill.getD c := by
  unfold paddingChar readInfo fill
  rcases halign : d.align with _ | ⟨_ | f, a⟩
  · simp [info, fill, halign]
  · simp [info, fill, halign]
  · have hf := f.property
    have ha := a.property
    by_cases hcolon : f.val = ':'.toUInt8 <;> simp [info, fill, halign, hcolon, hf, ha]

/-- Whether the fill that is used is the one that is given. -/
theorem paddingChar_eq_iff (d : Descriptor) {c : UInt8} (hc : c ≠ ':'.toUInt8) :
    d.fill.getD c = paddingChar d.readInfo c ↔ d.fill ≠ some ':'.toUInt8 := by
  rw [paddingChar_readInfo]
  by_cases hcolon : d.fill = some ':'.toUInt8
  · rw [if_pos hcolon, hcolon, Option.getD_some]
    exact iff_of_false hc.symm (not_not.2 rfl)
  · rw [if_neg hcolon]
    exact iff_of_true rfl hcolon

end Descriptor

/-! ## Numbers -/

section Numbers

variable {d : Descriptor} {base : Nat} {value : Int}

theorem digitsOf_eq (base n : Nat) : digitsOf base n = (digitsText base n).reverse := rfl

theorem length_digitsText_le (hbase : 1 < base) {n : Nat} (hn : n < 18446744073709551616) :
    (digitsText base n).length ≤ 64 := by
  have hpow : n < base ^ 64 := hn.trans_le (by
    calc 18446744073709551616 = 2 ^ 64 := by norm_num
      _ ≤ base ^ 64 := Nat.pow_le_pow_left hbase 64)
  have hlen := @Lib.length_numeral_le _ base digitAt hbase n 64 (by decide) hpow
  rwa [← reverse_digitsText, List.length_reverse] at hlen

/-- The width of a number by itself is the length of what is written in any case. -/
theorem naturalWidth_eq (d : Descriptor) (hbase : base ∈ [2, 8, 10, 16]) (value : Int) :
    naturalWidth value.natAbs base d.readInfo (decide (0 ≤ value)) = (d.bareNumber base value).length := by
  have hsign := congrArg List.length (signChar_toList d.readInfo value)
  have hlead := congrArg List.length (reverse_prefixText d.readInfo hbase)
  rw [length_signChar] at hsign
  rw [List.length_reverse, length_prefixText d.readInfo hbase] at hlead
  unfold naturalWidth Descriptor.bareNumber
  rw [hsign, hlead, List.length_append, List.length_append, digitsOf_eq, List.length_reverse]
  show _ + (signOf (d.sign.getD .neg) value).length + (prefixOf d.alternateForm base).length = _
  omega

/-- `itoa` lays a number whose padding count does not wrap as it is to be laid, with the fill that it uses. -/
theorem numText_laid (hbase : base ∈ [2, 8, 10, 16]) (hvalue : value.natAbs < 18446744073709551616)
    (hgap : ¬ (d.alternateForm = true ∧ base ≠ 10 ∧ d.width = (digitsOf base value.natAbs).length + 1)) :
    (numText value.natAbs base d.readInfo (decide (0 ≤ value))).text =
      d.laid (numberFill d.readInfo) (signOf (d.sign.getD .neg) value) (prefixOf d.alternateForm base)
        (digitsOf base value.natAbs) := by
  have hone : 1 < base := by
    simp only [List.mem_cons, List.not_mem_nil, or_false] at hbase
    omega
  have hunder : ¬ PrefixUnderflows d.readInfo base (digitsText base value.natAbs).length := by
    rwa [digitsOf_eq, List.length_reverse] at hgap
  have hdigits := length_digitsText_le hone hvalue
  obtain ⟨-, hcnt⟩ := paddingCnt_exact (decide (0 ≤ value)) hunder d.width_lt (show _ < 18446744073709551616 by omega)
  have hcnt' : paddingCnt d.readInfo base (decide (0 ≤ value)) (digitsText base value.natAbs).length =
      d.width - (d.bareNumber base value).length := by
    rw [← naturalWidth_eq d hbase value]
    exact hcnt
  have hlt := paddingCnt_lt d.readInfo base (decide (0 ≤ value)) (digitsText base value.natAbs).length
  have hhalf := sub64_of_le (Nat.div_le_self _ 2) hlt
  obtain ⟨-, hchar⟩ := itoaPads_share d.readInfo base (decide (0 ≤ value)) (digitsText base value.natAbs).length
  have halign : d.readInfo.alignment = d.alignment := rfl
  have hzero : d.readInfo.zeroPadding = d.zeroPadding := rfl
  rw [numText_order, hchar, signChar_toList, reverse_prefixText d.readInfo hbase, ← digitsOf_eq]
  unfold Descriptor.laid itoaPads
  unfold Descriptor.bareNumber at hcnt'
  dsimp only
  rw [hhalf, ← hcnt', halign, hzero]
  cases d.alignment with
  | default => cases d.zeroPadding <;> simp <;> rfl
  | left => simp; rfl
  | right => simp; rfl
  | center => simp; rfl
  | afterSign => simp; rfl

/-- Where the text of a number is the one that is asked for. -/
theorem numText_eq_iff (hbase : base ∈ [2, 8, 10, 16]) (hvalue : value.natAbs < 18446744073709551616) :
    (numText value.natAbs base d.readInfo (decide (0 ≤ value))).text = d.numberText base value ↔
      d.NumberHonoured base value := by
  have hblank : (if d.zeroPadding then '0'.toUInt8 else ' '.toUInt8) ≠ ':'.toUInt8 := by split <;> decide
  have hfill := d.paddingChar_eq_iff hblank
  by_cases hgap : d.alternateForm = true ∧ base ≠ 10 ∧ d.width = (digitsOf base value.natAbs).length + 1
  · refine iff_of_false (fun h => ?_) fun h => h.gap hgap
    -- the count wraps, and the text would be longer than any width
    have hunder : PrefixUnderflows d.readInfo base (digitsText base value.natAbs).length := by
      rwa [digitsOf_eq, List.length_reverse] at hgap
    have hwraps := paddingCnt_wraps (decide (0 ≤ value)) hunder d.width_lt
    have hlength := congrArg List.length h
    rw [length_numText _ hbase, naturalWidth_eq d hbase, Descriptor.numberText, Descriptor.length_laid] at hlength
    have hdigits : (digitsOf base value.natAbs).length ≤ (d.bareNumber base value).length := by
      simp only [Descriptor.bareNumber, List.length_append]
      omega
    unfold Descriptor.bareNumber at hlength hdigits
    omega
  · rw [numText_laid hbase hvalue hgap, Descriptor.numberText, Descriptor.laid_eq_iff]
    show _ = paddingChar d.readInfo (if d.zeroPadding then _ else _) ∨ _ ≤ (d.bareNumber base value).length ↔ _
    rw [hfill]
    constructor
    · intro h
      exact ⟨hgap, fun hcolon => h.resolve_left (not_not.2 hcolon)⟩
    · intro h
      by_cases hcolon : d.fill = some ':'.toUInt8
      · exact .inr (h.colon hcolon)
      · exact .inl hcolon

end Numbers

/-! ## Strings -/

section Strings

variable {d : Descriptor} {s : CString}

theorem take_strLen (d : Descriptor) (s : CString) : s.chars.take (strLen s d.readInfo) = d.cut s.chars := by
  have hprecise : d.readInfo.precise = (d.precise.map Subtype.val).getD 0 := rfl
  unfold strLen Descriptor.cut
  rw [hprecise]
  cases d.precise with
  | none => exact List.take_length
  | some n =>
    have hpos := n.property.1
    simp only [Option.map_some, Option.getD_some]
    rw [if_pos (by omega), utilMin_eq]
    unfold CString.strlen
    rcases Nat.le_total s.chars.length n.val with hle | hle
    · rw [Nat.min_eq_left hle, List.take_length, List.take_of_length_le hle]
    · rw [Nat.min_eq_right hle]

theorem strLen_eq (d : Descriptor) (s : CString) : strLen s d.readInfo = (d.cut s.chars).length := by
  rw [← take_strLen, length_take_strLen]

/-- `stringtoa` lays a string as it is to be laid, with the fill that it uses, unless it is to stand on one side. -/
theorem strText_laid (hleft : d.alignment ≠ .left) (hright : d.alignment ≠ .right) :
    strText s d.readInfo = d.laid (paddingChar d.readInfo ' '.toUInt8) [] [] (d.cut s.chars) := by
  have halign : d.readInfo.alignment = d.alignment := rfl
  have hwidth : d.readInfo.minWidth = d.width := rfl
  unfold strText Descriptor.laid
  dsimp only
  rw [strPads_eq (show _ < _ from d.width_lt), take_strLen, strLen_eq, halign, hwidth]
  cases hside : d.alignment with
  | default => simp
  | afterSign => simp
  | center => simp
  | left => exact absurd hside hleft
  | right => exact absurd hside hright

/-- A fill that was moved to the other side of a text is not noticed if there is none, or if the text consists of it. -/
theorem replicate_append_eq_iff {c c' : UInt8} {p : Nat} {t : List UInt8} :
    List.replicate p c ++ t = t ++ List.replicate p c' ↔ p = 0 ∨ c' = c ∧ ∀ x ∈ t, x = c := by
  by_cases hchar : c' = c
  · subst hchar
    rw [replicate_append_comm_iff, and_iff_right rfl]
  · rw [or_iff_left fun h => hchar h.1]
    constructor
    · intro h
      have hcount := congrArg (List.count c) h
      simp only [List.count_append, List.count_replicate_self, List.count_replicate, beq_iff_eq, if_neg hchar] at hcount
      omega
    · rintro rfl
      simp

/-- A string that is to stand on one side stands on the other. -/
theorem strText_eq_iff_side (hside : d.alignment = .left ∨ d.alignment = .right) :
    strText s d.readInfo = d.stringText s.chars ↔
      d.width ≤ (d.cut s.chars).length ∨
        d.fill ≠ some ':'.toUInt8 ∧ ∀ x ∈ d.cut s.chars, x = d.fill.getD ' '.toUInt8 := by
  have halign : d.readInfo.alignment = d.alignment := rfl
  have hwidth : d.readInfo.minWidth = d.width := rfl
  have hfill := d.paddingChar_eq_iff (show ' '.toUInt8 ≠ ':'.toUInt8 by decide)
  unfold strText Descriptor.stringText Descriptor.laid
  dsimp only
  rw [strPads_eq (show _ < _ from d.width_lt), take_strLen, strLen_eq, halign, hwidth, ← hfill]
  rcases hside with hleft | hright
  · rw [hleft]
    simp only [List.nil_append, List.replicate_zero, List.append_nil]
    rw [replicate_append_eq_iff, Nat.sub_eq_zero_iff_le]
    refine or_congr_right (and_congr_right fun heq => ?_)
    rw [heq]
  · rw [hright]
    simp only [List.nil_append, List.replicate_zero]
    rw [eq_comm, replicate_append_eq_iff, Nat.sub_eq_zero_iff_le]
    refine or_congr_right ?_
    rw [eq_comm]

/-- Where the text of a string is the one that is asked for. -/
theorem strText_eq_iff : strText s d.readInfo = d.stringText s.chars ↔ d.StringHonoured s.chars := by
  by_cases hside : d.alignment = .left ∨ d.alignment = .right
  · rw [strText_eq_iff_side hside]
    constructor
    · rintro (hfull | ⟨hcolon, hsame⟩)
      · exact ⟨fun _ => .inl hfull, fun _ => hfull⟩
      · exact ⟨fun _ => .inr hsame, fun h => absurd h hcolon⟩
    · intro h
      by_cases hcolon : d.fill = some ':'.toUInt8
      · exact .inl (h.colon hcolon)
      · exact (h.side hside).imp_right fun hsame => ⟨hcolon, hsame⟩
  · have hsides := not_or.1 hside
    have hfill := d.paddingChar_eq_iff (show ' '.toUInt8 ≠ ':'.toUInt8 by decide)
    rw [strText_laid hsides.1 hsides.2, Descriptor.stringText, Descriptor.laid_eq_iff, hfill, List.nil_append,
      List.nil_append]
    constructor
    · intro h
      exact ⟨fun hne => absurd hne hside, fun hcolon => h.resolve_left (not_not.2 hcolon)⟩
    · intro h
      by_cases hcolon : d.fill = some ':'.toUInt8
      · exact .inr (h.colon hcolon)
      · exact .inl hcolon

end Strings

/-! ## Arguments and formats -/

namespace FormatText

variable {strs : Nat → CString} {args : Vector UInt64 MAX_ARG_CNT} {last : Literal}

theorem toInt_toInt64 (arg : UInt64) : arg.toInt64.toInt = toInt64 arg.toNat := by
  show arg.toBitVec.toInt = _
  have hlt := arg.toNat_lt
  have hnat : arg.toBitVec.toNat = arg.toNat := rfl
  unfold toInt64
  rw [BitVec.toInt_eq_toNat_cond, hnat]
  split <;> split <;> omega

/-- **When an argument looks as its descriptor says.** For every descriptor and argument, a string that is there or a
number: it does if and only if it is honoured. -/
theorem argText_eq_shows_iff {d : Descriptor} {arg : UInt64} (hthere : d.type.val = .string → arg ≠ 0) :
    some (argText strs d arg) = d.shows strs arg ↔ d.Honoured strs arg := by
  have htype : d.readInfo.type = d.type.val := rfl
  have hlt := arg.toNat_lt
  have hpositive : ∀ base, argPiece strs d.readInfo arg = .num (numText arg.toNat base d.readInfo true) →
      base ∈ [2, 8, 10, 16] →
      (argText strs d arg = d.numberText base arg.toNat ↔ d.NumberHonoured base arg.toNat) := by
    intro base hpiece hbase
    have hnumber := @numText_eq_iff d base arg.toNat hbase (by simpa using hlt)
    rw [decide_eq_true (Int.natCast_nonneg _)] at hnumber
    unfold argText
    rw [hpiece]
    exact hnumber
  unfold Descriptor.shows Descriptor.Honoured
  cases hkind : d.type.val with
  | none => exact absurd hkind d.type.property
  | bin =>
    simp only [Option.some.injEq]
    exact hpositive 2 (by unfold argPiece; rw [htype, hkind]) (by decide)
  | octal =>
    simp only [Option.some.injEq]
    exact hpositive 8 (by unfold argPiece; rw [htype, hkind]) (by decide)
  | lowHex =>
    simp only [Option.some.injEq]
    exact hpositive 16 (by unfold argPiece; rw [htype, hkind]) (by decide)
  | dec =>
    have habs : (toInt64 arg.toNat).natAbs < 18446744073709551616 := by
      unfold toInt64
      split <;> omega
    simp only [Option.some.injEq, toInt_toInt64]
    unfold argText
    rw [argPiece_dec strs (htype.trans hkind)]
    exact numText_eq_iff (by decide) habs
  | string =>
    have hne := hthere hkind
    have hpiece : argPiece strs d.readInfo arg = .str (strText (strs arg.toNat) d.readInfo) := by
      unfold argPiece
      rw [htype, hkind]
      exact if_neg fun hzero => hne (UInt64.toNat_inj.1 hzero)
    dsimp only
    rw [if_neg hne, forall_prop_of_true hne, Option.some.injEq]
    unfold argText
    rw [hpiece]
    exact strText_eq_iff

/-- A descriptor whose argument is honoured prints what it says. -/
theorem printed_eq_meaning (fs : List (Literal × Descriptor)) {argIdx : Nat}
    (h : ∀ (i : Nat) (f : Literal × Descriptor) (arg : UInt64), fs[i]? = some f → args[argIdx + i]? = some arg →
      f.2.Honoured strs arg) :
    printed strs args last fs argIdx = meaning strs args last fs argIdx := by
  induction fs generalizing argIdx with
  | nil => rfl
  | cons f fs ih =>
    have hrest := @ih (argIdx + 1) fun i f' arg hf harg =>
      h (i + 1) f' arg hf (by rwa [Nat.add_right_comm, Nat.add_assoc] at harg)
    have htype : f.2.readInfo.type ≠ .none := f.2.type.property
    unfold meaning
    cases harg : args[argIdx]? with
    | none =>
      unfold printed fieldPiece
      rw [if_neg htype, harg]
    | some arg =>
      by_cases hnull : f.2.type.val = .string ∧ arg = 0
      · have hpiece : fieldPiece strs args argIdx f.2.readInfo = .fails ERROR_STRING_MISSING_ARGUMENT (by decide) := by
          unfold fieldPiece
          rw [if_neg htype, harg]
          show argPiece strs f.2.readInfo arg = _
          unfold argPiece
          rw [show f.2.readInfo.type = .string from hnull.1]
          exact if_pos (congrArg UInt64.toNat hnull.2)
        have hshows : f.2.shows strs arg = none := by
          unfold Descriptor.shows
          rw [hnull.1]
          exact if_pos hnull.2
        unfold printed
        rw [hpiece]
        dsimp only
        rw [hshows]
      · have hthere : f.2.type.val = .string → arg ≠ 0 := fun hkind hzero => hnull ⟨hkind, hzero⟩
        have hshows := (argText_eq_shows_iff hthere).2 (h 0 f arg rfl harg)
        rw [printed_arg harg hthere, hrest]
        dsimp only
        rw [← hshows]

end FormatText

/-- **`snprint` prints what the format says.** For every format that can be spelled (any literals, any descriptors
between them, in any number), all arguments that their descriptors honour, and every buffer with a place to spare: the
meaning of the format is in the buffer, terminated; the count is its length, and the code says whether the end of the
format was reached or an argument was missing. -/
theorem snprint_means (t : FormatText) {format : CString} (hat : format.chars = t.spelling)
    (hlen : format.strlen < 4294967296) {fuel : Nat} (hfuel : format.strlen + 10 ≤ fuel) (strs : Nat → CString)
    (args : Vector UInt64 MAX_ARG_CNT)
    (hhonoured : ∀ (i : Nat) (f : Literal × Descriptor) (arg : UInt64), t.fields[i]? = some f → args[i]? = some arg →
      f.2.Honoured strs arg)
    {str : List UInt8}
    (hroom : (FormatText.meaning strs args t.last t.fields 0).1.length + 1 < str.length)
    (hlt : str.length < 18446744073709551616) :
    ∃ p, snprint fuel strs str format args = .ok p ∧
      p.mem.take (p.r + 1) = (FormatText.meaning strs args t.last t.fields 0).1 ++ [0] ∧
      p.r = (FormatText.meaning strs args t.last t.fields 0).1.length ∧
      p.e = (FormatText.meaning strs args t.last t.fields 0).2 ∧ p.mem.length = str.length ∧ p.padsInside = true := by
  have hprinted := @FormatText.printed_eq_meaning strs args t.last t.fields 0 (by simpa using hhonoured)
  rw [← hprinted] at hroom ⊢
  exact snprint_spelled t hat hlen hfuel strs args hroom hlt

/-- `{:=+9d}`, `{:#010x}` and `{:^7.4s}`. -/
def signedDescriptor : Descriptor :=
  { Descriptor.decimal with
    align := some (none, ⟨.afterSign, by decide⟩)
    sign := some .both
    minWidth := some ⟨9, by decide⟩ }

def zeroesDescriptor : Descriptor :=
  { Descriptor.hashHex with
    zeroPadding := true
    minWidth := some ⟨10, by decide⟩ }

theorem center_ne_default : Align.center ≠ Align.default := by decide

def middleDescriptor : Descriptor :=
  { Descriptor.str with
    align := some (none, ⟨.center, center_ne_default⟩)
    minWidth := some ⟨7, by decide⟩
    precise := some ⟨4, by decide⟩ }

def sampleText : FormatText where
  fields :=
    [(.nothing, signedDescriptor), (.ofString "|" (by decide) (by decide), zeroesDescriptor),
      (.ofString "|" (by decide) (by decide), middleDescriptor)]
  last := .ofString "|" (by decide) (by decide)

def sampleFormat : CString := CString.ofString "{:=+9d}|{:#010x}|{:^7.4s}|" (by decide) (by decide)

/-- The only string is at address 1. -/
def sampleStrings : Nat → CString := fun _ => CString.ofString "hexagon" (by decide) (by decide)

def sampleOutput : List UInt8 := "+      42|0x0000002a| hexa  |".toList.map Char.toUInt8

theorem sample_meaning :
    FormatText.meaning sampleStrings #v[42, 42, 1, 0, 0] sampleText.last sampleText.fields 0 = (sampleOutput, OK) := by
  decide +kernel

theorem snprint_means_sample :
    ∃ p, snprint 60 sampleStrings (List.replicate 40 0) sampleFormat #v[42, 42, 1, 0, 0] = .ok p ∧
      p.mem.take (p.r + 1) = sampleOutput ++ [0] ∧ p.r = sampleOutput.length ∧ p.e = OK := by
  have hnumber : ∀ (d : Descriptor) (base : Nat), d.fill = none →
      ¬ (d.alternateForm = true ∧ base ≠ 10 ∧ d.width = (digitsOf base 42).length + 1) → d.NumberHonoured base 42 :=
    fun d base hfill hgap => ⟨hgap, fun hcolon => by rw [hfill] at hcolon; cases hcolon⟩
  have hstring : middleDescriptor.StringHonoured (sampleStrings 1).chars := by
    refine ⟨fun hside => ?_, fun hcolon => by cases hcolon⟩
    rcases hside with hside | hside <;> cases hside
  have hhonoured : ∀ (i : Nat) (f : Literal × Descriptor) (arg : UInt64), sampleText.fields[i]? = some f →
      (#v[42, 42, 1, 0, 0] : Vector UInt64 MAX_ARG_CNT)[i]? = some arg → f.2.Honoured sampleStrings arg := by
    intro i f arg hf harg
    rcases i with _ | _ | _ | i
    · cases hf
      cases harg
      exact hnumber signedDescriptor 10 rfl (by decide +kernel)
    · cases hf
      cases harg
      exact hnumber zeroesDescriptor 16 rfl (by decide +kernel)
    · cases hf
      cases harg
      exact fun _ => hstring
    · cases hf
  have hroom : (FormatText.meaning sampleStrings #v[42, 42, 1, 0, 0] sampleText.last sampleText.fields 0).1.length + 1 <
      (List.replicate 40 (0 : UInt8)).length := by
    rw [sample_meaning]
    decide +kernel
  have hspelled : sampleFormat.chars = sampleText.spelling := by decide +kernel
  obtain ⟨p, hrun, hmem, hcount, he, -⟩ := snprint_means sampleText hspelled (by decide +kernel)
    (show sampleFormat.strlen + 10 ≤ 60 by decide +kernel) sampleStrings #v[42, 42, 1, 0, 0] hhonoured hroom
    (by decide +kernel)
  rw [sample_meaning] at hmem hcount he
  exact ⟨p, hrun, hmem, hcount, he⟩

end GunyahRuntime
