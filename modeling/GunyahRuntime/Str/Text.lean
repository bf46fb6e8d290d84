/-
# GunyahRuntime.Str.Text -- the text of a format that an index cannot count

The index of `get_next_fmt` has 32 bits. Where `2 ^ 32` characters or more are left of a format it may come back to the
first of them, in the middle of whatever it was doing. A scan that looks for its brace or its colon goes round for ever
if there is none; an alignment that goes round may look before the format; a number that goes round is read again from
a place behind the last of its digits, and far outside.

All of this is decided by the text, and `Scannable` says of a text that none of the three happens. Behind it are the
checks of the scan, as what they answer at a character of a long text.
-/
import GunyahRuntime.Str.Scanning

namespace GunyahRuntime

/-! ## The text -/

/-- The character at `i`, or the terminator. -/
def CString.charAt (s : CString) (i : Nat) : UInt8 := s.chars.getD i 0

/-- What is left of a format. -/
def textFrom (format : CString) (fmt : Nat) (i : Nat) : UInt8 := format.charAt (fmt + i)

/-- The characters of an alignment. -/
def isAlign (c : UInt8) : Bool := (lookup alignTable c).isSome

/-- The flags behind the alignment: a sign, `#` and `0`. -/
def isFlag : Nat → UInt8 → Bool
  | 0, c => (lookup signTable c).isSome
  | 1, c => c = '#'.toUInt8
  | 2, c => c = '0'.toUInt8
  | _, _ => false

section Text

variable (t : Nat → UInt8)

/-- The characters from `i` up to `j` are alignments. -/
def Aligns (i j : Nat) : Prop := ∀ k, i ≤ k → k < j → isAlign (t k) = true

/-- The characters from `i` up to `j` are digits. -/
def Digits (i j : Nat) : Prop := ∀ k, i ≤ k → k < j → isDigit (t k) = true

/-- The brace is the first of the first `2 ^ 32` characters, and the colon the first behind it; or, if there is none
behind it, the first of all. -/
structure OpensAt (brace colon : Nat) : Prop where
  brace_lt : brace < 4294967296
  brace_eq : t brace = '{'.toUInt8
  brace_first : ∀ j < brace, t j ≠ '{'.toUInt8
  colon_lt : colon < 4294967296
  colon_eq : t colon = ':'.toUInt8
  colon_first : (brace < colon ∧ ∀ j, brace < j → j < colon → t j ≠ ':'.toUInt8) ∨
    (colon < brace ∧ (∀ j, brace < j → j < 4294967296 → t j ≠ ':'.toUInt8) ∧ ∀ j < colon, t j ≠ ':'.toUInt8)

/-- The fill and the alignments at `d` end at `a`: none, or one or more, of which the first may be a fill. -/
def AlignEnd (d a : Nat) : Prop :=
  (a = d ∧ isAlign (t d) = false ∧ isAlign (t (d + 1)) = false) ∨
    (d < a ∧ Aligns t (d + 1) a ∧ isAlign (t a) = false ∧ (a = d + 1 → isAlign (t d) = true))

/-- Where the first `k` flags from `a` on end. -/
def flagsEnd (a : Nat) : Nat → Nat
  | 0 => a
  | k + 1 => if isFlag k (t (flagsEnd a k)) then flagsEnd a k + 1 else flagsEnd a k

/-- Digits, or digits, a point and digits, from `e` to the end of what the index can count and one further. -/
def NumberRuns (e : Nat) : Prop :=
  (e < 4294967296 ∧ Digits t e 4294967297) ∨
    ∃ p, e ≤ p ∧ p + 1 < 4294967296 ∧ Digits t e p ∧ t p = '.'.toUInt8 ∧ Digits t (p + 1) 4294967297

/-- The alignments behind the colon come round to the start of the whole format, where one stands alone. -/
def LooksBack (fmt colon : Nat) : Prop :=
  fmt = 0 ∧ Aligns t (colon + 2) 4294967297 ∧ isAlign (t 0) = true ∧ isAlign (t 1) = false

/-- A number behind the colon comes round to a digit. -/
def RunsOn (colon : Nat) : Prop :=
  isDigit (t 0) = true ∧ ∃ a, AlignEnd t (colon + 1) a ∧ NumberRuns t (flagsEnd t a 3)

/-- The descriptor behind the colon can be read. -/
def Legible (fmt colon : Nat) : Prop := ¬ LooksBack t fmt colon ∧ ¬ RunsOn t colon

end Text

/-- What is left of a format is short enough for the index, or opens a descriptor that can be read. -/
def Scannable (format : CString) (fmt : Nat) : Prop :=
  format.strlen < fmt + 4294967296 ∨
    ∃ brace colon, OpensAt (textFrom format fmt) brace colon ∧ Legible (textFrom format fmt) fmt colon

/-! ## The checks of a long text -/

/-- As many characters are left as the index can count, and more. -/
structure LongText (format : CString) (fmt : Nat) (t : Nat → UInt8) : Prop where
  long : fmt + 4294967296 ≤ format.strlen
  reads : ∀ i ≤ 4294967296, format.read (fmt + i) = .ok (t i)
  nonzero : ∀ i < 4294967296, t i ≠ 0

theorem textFrom_long {format : CString} {fmt : Nat} (hlong : fmt + 4294967296 ≤ format.strlen) :
    LongText format fmt (textFrom format fmt) := by
  have hreads : ∀ i ≤ 4294967296, format.read (fmt + i) = .ok (textFrom format fmt i) := by
    intro i hi
    unfold textFrom CString.charAt
    rcases Nat.lt_or_ge (fmt + i) format.strlen with hlt | hge
    · rw [(CString.read_lt hlt).1, List.getD_eq_getElem?_getD, List.getElem?_eq_getElem hlt]
      rfl
    · have hle := hlong
      rw [Nat.le_antisymm (by omega) hge, CString.read_strlen, List.getD_eq_getElem?_getD, CString.strlen,
        List.getElem?_eq_none (Nat.le_refl _)]
      rfl
  refine ⟨hlong, hreads, fun i hi => ?_⟩
  have hlt : fmt + i < format.strlen := by omega
  have hread := hreads i hi.le
  rw [(CString.read_lt hlt).1] at hread
  rw [← Except.ok.inj hread]
  exact (CString.read_lt hlt).2

/-- The info of a check that notes no start of a number. -/
def FmtInfo.SameStarts (info info' : FmtInfo) : Prop :=
  info'.minwidthStart = info.minwidthStart ∧ info'.preciseStart = info.preciseStart

/-- Reading a number again from a place that is too far on ends outside. -/
theorem atodec_overrun {format : CString} (len : Nat) : ∀ (v j : Nat), j ≤ format.strlen →
    format.strlen + 1 < j + len → atodec format v j len = .error .badRead := by
  induction len with
  | zero => exact fun v j hle hover => by omega
  | succ len ih =>
    intro v j hle hover
    obtain ⟨c, hc⟩ := CString.read_total hle
    rw [atodec, hc, ok_bind]
    rcases Nat.lt_or_ge j format.strlen with hlt | hge
    · exact ih _ (j + 1) hlt (by omega)
    · obtain rfl := Nat.le_antisymm hle hge
      cases len with
      | zero => omega
      | succ len =>
        have hread : format.read (format.strlen + 1) = .error .badRead := by
          unfold CString.read CString.strlen
          rw [dif_neg (by omega), if_neg (by omega)]
        rw [atodec, hread]
        rfl

theorem isDigit_point : isDigit '.'.toUInt8 = false := by decide

section Checks

variable {format : CString} {fmt i : Nat} {t : Nat → UInt8} (ht : LongText format fmt t) (info : FmtInfo)
include ht

theorem checkStart_long (hi : i < 4294967296) : checkToken 0 format (fmt + i) info =
    .ok (if t i = '{'.toUInt8 then .found else .nextChar, info) := by
  show checkStart format (fmt + i) info = _
  unfold checkStart
  rw [ht.reads i hi.le]
  rfl

theorem checkSpecifierStart_long (hi : i < 4294967296) : checkToken 1 format (fmt + i) info =
    .ok (if t i = ':'.toUInt8 then .found else .nextChar, info) := by
  show checkSpecifierStart format (fmt + i) info = _
  unfold checkSpecifierStart
  rw [ht.reads i hi.le]
  rfl

/-- An alignment is looked at from the character before it on. -/
theorem checkAlign_long (hi : i < 4294967296) : ∃ info', checkToken 2 format (fmt + i) info =
    (if isAlign (t (i + 1)) then .ok (.nextChar, info')
    else if isAlign (t i) then if fmt + i = 0 then .error .badRead else .ok (.found, info')
    else .ok (.nextStage, info')) ∧ info.SameStarts info' := by
  show ∃ info', checkAlign format (fmt + i) info = _ ∧ _
  unfold checkAlign isAlign
  rw [Nat.add_assoc, ht.reads (i + 1) hi, ok_bind, ht.reads i hi.le, ok_bind]
  split
  · exact ⟨_, rfl, rfl, rfl⟩
  cases lookup alignTable (t i) with
  | none => exact ⟨_, rfl, rfl, rfl⟩
  | some alignment =>
    dsimp only
    cases hprev : fmt + i with
    | zero => exact ⟨info, rfl, rfl, rfl⟩
    | succ j =>
      obtain ⟨prev, hread⟩ := CString.read_total (s := format) (i := j) (by have := ht.long; omega)
      rw [readPrev, hread]
      exact ⟨_, rfl, rfl, rfl⟩

/-- The three flags are alike. -/
theorem checkFlag_long (hi : i < 4294967296) {k : Nat} (hk : k < 3) :
    ∃ info', checkToken (3 + k) format (fmt + i) info = .ok (if isFlag k (t i) then .found else .nextStage, info') ∧
      info.SameStarts info' := by
  obtain rfl | rfl | rfl : k = 0 ∨ k = 1 ∨ k = 2 := by omega
  · have hflag : isFlag 0 (t i) = (lookup signTable (t i)).isSome := rfl
    show ∃ info', checkSign format (fmt + i) info = _ ∧ _
    unfold checkSign
    rw [hflag, ht.reads i hi.le, ok_bind]
    cases lookup signTable (t i) with
    | none => exact ⟨_, rfl, rfl, rfl⟩
    | some sign => exact ⟨_, rfl, rfl, rfl⟩
  · have hflag : isFlag 1 (t i) = decide (t i = '#'.toUInt8) := rfl
    show ∃ info', checkAlternative format (fmt + i) info = _ ∧ _
    unfold checkAlternative
    rw [hflag, ht.reads i hi.le, ok_bind]
    by_cases hc : t i = '#'.toUInt8
    · rw [if_pos hc, if_pos (decide_eq_true hc)]
      exact ⟨_, rfl, rfl, rfl⟩
    · rw [if_neg hc, if_neg (by simpa using hc)]
      exact ⟨_, rfl, rfl, rfl⟩
  · have hflag : isFlag 2 (t i) = decide (t i = '0'.toUInt8) := rfl
    show ∃ info', checkZeropadding format (fmt + i) info = _ ∧ _
    unfold checkZeropadding
    rw [hflag, ht.reads i hi.le, ok_bind]
    by_cases hc : t i = '0'.toUInt8
    · rw [if_pos hc, if_pos (decide_eq_true hc)]
      exact ⟨_, rfl, rfl, rfl⟩
    · rw [if_neg hc, if_neg (by simpa using hc)]
      exact ⟨_, rfl, rfl, rfl⟩

/-- The digits go on. -/
theorem scanDigits_goes_on (hi : i < 4294967296) (hnext : isDigit (t (i + 1)) = true) (start : Option Nat) :
    scanDigits format (fmt + i) start = .ok (start.getD (fmt + i), none) := by
  unfold scanDigits
  rw [Nat.add_assoc, ht.reads (i + 1) hi, ok_bind, if_pos hnext]
  rfl

/-- The last digit of a number that began behind the index. -/
theorem scanDigits_ends (hi : i < 4294967296) {start : Option Nat} (hstart : ∀ m, start = some m → m ≤ fmt + i) :
    isDigit (t (i + 1)) = false → ∃ first v, scanDigits format (fmt + i) start = .ok (first, some v) := by
  intro hnext
  have hlong := ht.long
  have hinside : fmt + i < format.strlen := by omega
  obtain ⟨first, v, hscan, -⟩ := scanDigits_total hinside hstart
  cases v with
  | some v => exact ⟨first, v, hscan⟩
  | none =>
    unfold scanDigits at hscan
    rw [Nat.add_assoc, ht.reads (i + 1) hi, ok_bind, if_neg (by simp [hnext])] at hscan
    obtain ⟨v, -, hscan⟩ := bind_eq_ok.1 hscan
    cases hscan

/-- The last digit of a number that began in front of the index: as many bytes are read as there are addresses. -/
theorem scanDigits_overruns (hi : i < 4294967296) (hnext : isDigit (t (i + 1)) = false) {first : Nat}
    (hfirst : fmt + i + 1 < first) (hle : first ≤ format.strlen) :
    scanDigits format (fmt + i) (some first) = .error .badRead := by
  have hfits := format.fits
  have hcnt : u64 (sub64 (fmt + i) first + 1) = fmt + i + 1 + 18446744073709551616 - first := by
    unfold sub64 u64
    unfold CString.strlen at hle
    omega
  have hover : atodec format 0 first (u64 (sub64 (fmt + i) first + 1)) = .error .badRead := by
    refine atodec_overrun _ 0 first hle ?_
    rw [hcnt]
    unfold CString.strlen at hle ⊢
    omega
  unfold scanDigits
  dsimp only [Option.getD_some]
  rw [hover, Nat.add_assoc, ht.reads (i + 1) hi, ok_bind, if_neg (by simp [hnext])]
  rfl

theorem checkMinwidth_other (hi : i < 4294967296) (hdigit : isDigit (t i) = false) :
    checkToken 6 format (fmt + i) info = .ok (.nextStage, info) := by
  show checkMinwidth format (fmt + i) info = _
  unfold checkMinwidth
  rw [ht.reads i hi.le, ok_bind, if_neg (by simp [hdigit])]
  rfl

theorem checkMinwidth_more (hi : i < 4294967296) (hdigit : isDigit (t i) = true) (hnext : isDigit (t (i + 1)) = true) :
    checkToken 6 format (fmt + i) info =
      .ok (.nextChar, { info with minwidthStart := some (info.minwidthStart.getD (fmt + i)) }) := by
  show checkMinwidth format (fmt + i) info = _
  unfold checkMinwidth
  rw [ht.reads i hi.le, ok_bind, if_pos hdigit, scanDigits_goes_on ht hi hnext]
  rfl

theorem checkMinwidth_last (hi : i < 4294967296) (hdigit : isDigit (t i) = true) (hnext : isDigit (t (i + 1)) = false)
    (hstart : ∀ m, info.minwidthStart = some m → m ≤ fmt + i) :
    ∃ v, checkToken 6 format (fmt + i) info = .ok (.found, { info with minWidth := v, minwidthStart := none }) := by
  obtain ⟨first, v, hscan⟩ := scanDigits_ends ht hi hstart hnext
  refine ⟨v, ?_⟩
  show checkMinwidth format (fmt + i) info = _
  unfold checkMinwidth
  rw [ht.reads i hi.le, ok_bind, if_pos hdigit, hscan]
  rfl

theorem checkMinwidth_overrun (hi : i < 4294967296) (hdigit : isDigit (t i) = true)
    (hnext : isDigit (t (i + 1)) = false) {first : Nat} (hstart : info.minwidthStart = some first)
    (hfirst : fmt + i + 1 < first) (hle : first ≤ format.strlen) :
    checkToken 6 format (fmt + i) info = .error .badRead := by
  show checkMinwidth format (fmt + i) info = _
  unfold checkMinwidth
  rw [ht.reads i hi.le, ok_bind, if_pos hdigit, hstart, scanDigits_overruns ht hi hnext hfirst hle]
  rfl

/-- In front of a digit a point begins the digits of the precision. -/
theorem checkPrecise_point (hi : i < 4294967296) (hpoint : t i = '.'.toUInt8) (hnext : isDigit (t (i + 1)) = true) :
    checkToken 7 format (fmt + i) info = .ok (.nextChar, { info with preciseStart := none }) := by
  show checkPrecise format (fmt + i) info = _
  unfold checkPrecise startsPrecise
  rw [ht.reads i hi.le, ok_bind, if_pos hpoint, Nat.add_assoc, ht.reads (i + 1) hi, ok_bind, hnext]
  rfl

theorem checkPrecise_other (hi : i < 4294967296) (hdigit : isDigit (t i) = false)
    (hpoint : t i = '.'.toUInt8 → isDigit (t (i + 1)) = false) :
    checkToken 7 format (fmt + i) info = .ok (.nextStage, info) := by
  show checkPrecise format (fmt + i) info = _
  unfold checkPrecise startsPrecise
  rw [ht.reads i hi.le, ok_bind, Nat.add_assoc, ht.reads (i + 1) hi]
  by_cases hc : t i = '.'.toUInt8
  · rw [if_pos hc, ok_bind, hpoint hc]
    show (if isDigit (t i) = true then _ else _) = _
    rw [if_neg (by simp [hdigit])]
    rfl
  · rw [if_neg hc]
    show (if isDigit (t i) = true then _ else _) = _
    rw [if_neg (by simp [hdigit])]
    rfl

omit ht in
theorem startsPrecise_digit (hdigit : isDigit (t i) = true) : startsPrecise format (fmt + i) (t i) = .ok false := by
  refine if_neg fun hc => ?_
  rw [hc, isDigit_point] at hdigit
  cases hdigit

theorem checkPrecise_more (hi : i < 4294967296) (hdigit : isDigit (t i) = true) (hnext : isDigit (t (i + 1)) = true) :
    checkToken 7 format (fmt + i) info =
      .ok (.nextChar, { info with preciseStart := some (info.preciseStart.getD (fmt + i)) }) := by
  show checkPrecise format (fmt + i) info = _
  unfold checkPrecise
  rw [ht.reads i hi.le, ok_bind, startsPrecise_digit hdigit, ok_bind, if_neg (by decide), if_pos hdigit,
    scanDigits_goes_on ht hi hnext]
  rfl

theorem checkPrecise_last (hi : i < 4294967296) (hdigit : isDigit (t i) = true) (hnext : isDigit (t (i + 1)) = false)
    (hstart : ∀ m, info.preciseStart = some m → m ≤ fmt + i) :
    ∃ v, checkToken 7 format (fmt + i) info = .ok (.found, { info with precise := v, preciseStart := none }) := by
  obtain ⟨first, v, hscan⟩ := scanDigits_ends ht hi hstart hnext
  refine ⟨v, ?_⟩
  show checkPrecise format (fmt + i) info = _
  unfold checkPrecise
  rw [ht.reads i hi.le, ok_bind, startsPrecise_digit hdigit, ok_bind, if_neg (by decide), if_pos hdigit, hscan]
  rfl

theorem checkPrecise_overrun (hi : i < 4294967296) (hdigit : isDigit (t i) = true)
    (hnext : isDigit (t (i + 1)) = false) {first : Nat} (hstart : info.preciseStart = some first)
    (hfirst : fmt + i + 1 < first) (hle : first ≤ format.strlen) :
    checkToken 7 format (fmt + i) info = .error .badRead := by
  show checkPrecise format (fmt + i) info = _
  unfold checkPrecise
  rw [ht.reads i hi.le, ok_bind, startsPrecise_digit hdigit, ok_bind, if_neg (by decide), if_pos hdigit, hstart,
    scanDigits_overruns ht hi hnext hfirst hle]
  rfl

theorem checkType_long (hi : i < 4294967296) : ∃ ret info', checkToken 8 format (fmt + i) info = .ok (ret, info') ∧
    (ret = .found ∨ ret = .error) := by
  show ∃ ret info', checkType format (fmt + i) info = _ ∧ _
  unfold checkType
  rw [ht.reads i hi.le, ok_bind]
  cases lookup typeTable (t i) with
  | none => exact ⟨_, _, rfl, .inr rfl⟩
  | some type => exact ⟨_, _, rfl, .inl rfl⟩

theorem checkEnd_long (hi : i < 4294967296) : checkToken 9 format (fmt + i) info =
    .ok (if t i = ' '.toUInt8 then .nextChar else if t i = '}'.toUInt8 then .stop else .error, info) := by
  show checkEnd format (fmt + i) info = _
  unfold checkEnd
  rw [ht.reads i hi.le]
  rfl

end Checks

/-! ## What the text says of a descriptor -/

/-- A brace or a colon, which no stage behind the alignment goes past. -/
structure Stops (t : Nat → UInt8) (q : Nat) : Prop where
  pos : 0 < q
  lt : q < 4294967296
  eq : t q = '{'.toUInt8 ∨ t q = ':'.toUInt8

section Stops

variable {t : Nat → UInt8} {q : Nat}

theorem OpensAt.stops {brace colon : Nat} (h : OpensAt t brace colon) : ∃ q, Stops t q := by
  rcases Nat.eq_zero_or_pos brace with hzero | hpos
  · rcases Nat.eq_zero_or_pos colon with hzero' | hpos'
    · have hbrace := h.brace_eq
      rw [hzero, ← hzero', h.colon_eq] at hbrace
      exact absurd hbrace (by decide)
    · exact ⟨colon, hpos', h.colon_lt, .inr h.colon_eq⟩
  · exact ⟨brace, hpos, h.brace_lt, .inl h.brace_eq⟩

theorem Stops.isAlign (h : Stops t q) : isAlign (t q) = false := by
  rcases h.eq with heq | heq <;> rw [heq] <;> decide

theorem Stops.isFlag (h : Stops t q) {k : Nat} (hk : k < 3) : isFlag k (t q) = false := by
  obtain rfl | rfl | rfl : k = 0 ∨ k = 1 ∨ k = 2 := by omega
  all_goals rcases h.eq with heq | heq <;> rw [heq] <;> decide

theorem Stops.isDigit (h : Stops t q) : isDigit (t q) = false := by
  rcases h.eq with heq | heq <;> rw [heq] <;> decide

theorem Stops.ne (h : Stops t q) : t q ≠ '.'.toUInt8 ∧ t q ≠ ' '.toUInt8 := by
  rcases h.eq with heq | heq <;> rw [heq] <;> decide

/-- It is at none of the characters that a number is made of. -/
theorem Stops.ne_of_isDigit (h : Stops t q) {i : Nat} (hdigit : GunyahRuntime.isDigit (t i) = true) : i ≠ q := by
  rintro rfl
  rw [h.isDigit] at hdigit
  cases hdigit

/-- Digits do not go past it. -/
theorem Stops.not_digits (h : Stops t q) {i j : Nat} (hi : i ≤ q) (hd : Digits t i j) : j ≤ q := by
  by_contra hlt
  have hdigit := hd q hi (Nat.not_le.1 hlt)
  rw [h.isDigit] at hdigit
  cases hdigit

end Stops

section Descriptor

variable {t : Nat → UInt8} {fmt colon d a b e i : Nat}

theorem AlignEnd.le (h : AlignEnd t d a) : d ≤ a := by
  rcases h with ⟨rfl, -⟩ | ⟨hlt, -⟩
  · exact Nat.le_refl a
  · exact hlt.le

theorem AlignEnd.not_lt (h : AlignEnd t d a) (h' : AlignEnd t d b) : ¬ a < b := by
  intro hlt
  rcases h' with ⟨rfl, -⟩ | ⟨-, haligns, -, hfirst⟩
  · exact absurd h.le (Nat.not_le.2 hlt)
  rcases h with ⟨rfl, hself, hnext⟩ | ⟨hda, -, hend, -⟩
  · rcases Nat.lt_or_ge (a + 1) b with hmore | hone
    · rw [haligns (a + 1) (Nat.le_refl _) hmore] at hnext
      cases hnext
    · rw [hfirst (by omega)] at hself
      cases hself
  · rw [haligns a hda hlt] at hend
    cases hend

/-- The alignment ends in one place. -/
theorem AlignEnd.unique (h : AlignEnd t d a) (h' : AlignEnd t d b) : a = b :=
  Nat.le_antisymm (Nat.not_lt.1 (h'.not_lt h)) (Nat.not_lt.1 (h.not_lt h'))

theorem flagsEnd_le_succ (t : Nat → UInt8) (a k : Nat) : flagsEnd t a k ≤ flagsEnd t a (k + 1) := by
  rw [flagsEnd]
  split <;> omega

theorem flagsEnd_mono (t : Nat → UInt8) (a : Nat) {k l : Nat} (h : k ≤ l) : flagsEnd t a k ≤ flagsEnd t a l :=
  monotone_nat_of_le_succ (flagsEnd_le_succ t a) h

theorem le_flagsEnd (t : Nat → UInt8) (a k : Nat) : a ≤ flagsEnd t a k := flagsEnd_mono t a (Nat.zero_le k)

theorem NumberRuns.lt (h : NumberRuns t e) : e < 4294967296 := by
  rcases h with ⟨hlt, -⟩ | ⟨p, hle, hlt, -⟩
  · exact hlt
  · omega

/-- Where the digits end there is the point. -/
theorem NumberRuns.pointed (h : NumberRuns t e) (hle : e ≤ i) (hdigits : Digits t e i) (hend : isDigit (t i) = false)
    (hi : i ≤ 4294967296) : t i = '.'.toUInt8 ∧ i + 1 < 4294967296 ∧ Digits t (i + 1) 4294967297 := by
  rcases h with ⟨-, hall⟩ | ⟨p, hp, hlt, hbefore, hpoint, hafter⟩
  · rw [hall i hle (Nat.lt_succ_of_le hi)] at hend
    cases hend
  · rcases Nat.lt_trichotomy i p with hip | rfl | hpi
    · rw [hbefore i hle hip] at hend
      cases hend
    · exact ⟨hpoint, hlt, hafter⟩
    · have hdigit := hdigits p hp hpi
      rw [hpoint, isDigit_point] at hdigit
      cases hdigit

/-- One more alignment. -/
theorem Aligns.snoc {j l : Nat} (h : Aligns t j l) (hl : isAlign (t l) = true) : Aligns t j (l + 1) := by
  intro x hx hxl
  rcases Nat.lt_succ_iff_lt_or_eq.1 hxl with hlt | rfl
  · exact h x hx hlt
  · exact hl

/-- One more digit. -/
theorem Digits.snoc {j l : Nat} (h : Digits t j l) (hl : isDigit (t l) = true) : Digits t j (l + 1) := by
  intro x hx hxl
  rcases Nat.lt_succ_iff_lt_or_eq.1 hxl with hlt | rfl
  · exact h x hx hlt
  · exact hl

theorem digits_self (i : Nat) : Digits t i i := fun _ hx hxi => absurd hx (Nat.not_le.2 hxi)

/-- Once the alignment has ended, all is well with it, and the rest is with the number behind the flags. -/
theorem AlignEnd.legible (h : AlignEnd t (colon + 1) a) (ha : a ≤ 4294967296) (hcolon : colon + 1 < 4294967296)
    (hnumber : isDigit (t 0) = true → ¬ NumberRuns t (flagsEnd t a 3)) : Legible t fmt colon := by
  refine ⟨fun hback => ?_, fun hruns => ?_⟩
  · obtain ⟨-, haligns, -⟩ := hback
    rcases h with ⟨rfl, -, hnext⟩ | ⟨hlt, -, hend, -⟩
    · rw [haligns (colon + 1 + 1) (Nat.le_refl _) (by omega)] at hnext
      cases hnext
    · rw [haligns a hlt (by omega)] at hend
      cases hend
  · obtain ⟨hdigit, b, hb, hruns⟩ := hruns
    rw [← h.unique hb] at hruns
    exact hnumber hdigit hruns

/-- An alignment that has come round and ended in another place than the first. -/
theorem Aligns.legible (haligns : Aligns t (colon + 2) 4294967297) (hback : ¬ LooksBack t fmt colon) :
    Legible t fmt colon := by
  refine ⟨hback, fun hruns => ?_⟩
  obtain ⟨-, a, ha, hnumber⟩ := hruns
  have hlt := (le_flagsEnd t a 3).trans_lt hnumber.lt
  rcases ha with ⟨rfl, -, hnext⟩ | ⟨hda, -, hend, -⟩
  · rw [haligns (colon + 1 + 1) (Nat.le_refl _) (by omega)] at hnext
    cases hnext
  · rw [haligns a hda (by omega)] at hend
    cases hend

end Descriptor

end GunyahRuntime
