/-
# GunyahRuntime.Str.Format -- reading a format (`string_util.c`, first half)

A format is scanned with one index through ten stages, each a small check of the current character,
its right neighbour or its left one. A check either moves to the next character, hands the same
character to the next stage, ends the descriptor or refuses it. The index is an `index_t`: it has 32
bits and wraps, so a format of `2^32` characters or more may be scanned for ever or read before its
first character, and the model keeps both outcomes as faults. `getNextFmt` takes a bound on the number
of passes, and the results about `snprint` hold for every bound.
-/
import GunyahRuntime.Memory
import GunyahRuntime.Lib.Loop

namespace GunyahRuntime

/-- A NUL-terminated string: its characters, none of them NUL. -/
structure CString where
  chars : List UInt8
  no_nul : ∀ c ∈ chars, c ≠ 0
  /-- It lies in a 64-bit address space. -/
  fits : chars.length < 18446744073709551616

namespace CString

-- the search over all bytes that a finite type offers is too slow to evaluate
instance (priority := high) (l : List UInt8) : Decidable (∀ c ∈ l, c ≠ 0) := List.decidableBAll _ l

/-- A string literal. -/
def ofString (s : String) (h : ∀ c ∈ s.toList.map Char.toUInt8, c ≠ 0)
    (h' : (s.toList.map Char.toUInt8).length < 18446744073709551616) : CString := ⟨_, h, h'⟩

/-- `strlen(s)`. -/
def strlen (s : CString) : Nat := s.chars.length

/-- `s[i]`: a character, the terminator, or outside. -/
def read (s : CString) (i : Nat) : Exec UInt8 :=
  if h : i < s.chars.length then .ok (s.chars.get ⟨i, h⟩)
  else if i = s.chars.length then .ok 0
  else .error .badRead

theorem read_ne_zero {s : CString} {i : Nat} {c : UInt8} (h : s.read i = .ok c) (hc : c ≠ 0) :
    i < s.strlen := by
  unfold read at h
  split at h
  · assumption
  · split at h
    · cases h; exact absurd rfl hc
    · cases h

theorem read_lt {s : CString} {i : Nat} (h : i < s.strlen) :
    s.read i = .ok (s.chars.get ⟨i, h⟩) ∧ s.chars.get ⟨i, h⟩ ≠ 0 :=
  ⟨dif_pos h, s.no_nul _ (List.get_mem _ _)⟩

theorem read_strlen (s : CString) : s.read s.strlen = .ok 0 := by
  unfold read strlen
  rw [dif_neg (Nat.lt_irrefl _), if_pos rfl]

theorem read_total {s : CString} {i : Nat} (h : i ≤ s.strlen) : ∃ c, s.read i = .ok c := by
  rcases Nat.lt_or_ge i s.strlen with hlt | hge
  · exact ⟨_, (read_lt hlt).1⟩
  · exact ⟨0, by rw [Nat.le_antisymm h hge]; exact read_strlen s⟩

end CString

/-! ## `error_t` (`guest_types.h`) -/

def ERROR_STRING_TRUNCATED : Int := 90
def ERROR_STRING_INVALID_FORMAT : Int := 92
def ERROR_STRING_MISSING_PLACEHOLDER : Int := 93
def ERROR_STRING_MISSING_ARGUMENT : Int := 94

/-! ## The descriptor -/

/-- `align_t`. -/
inductive Align where
  | default
  | left
  | right
  | afterSign
  | center
  deriving DecidableEq, Repr

/-- `sign_t`. -/
inductive Sign where
  | neg
  | both
  | posLeading
  deriving DecidableEq, Repr

/-- `var_type_t`. -/
inductive VarType where
  | none
  | bin
  | dec
  | octal
  | lowHex
  | string
  deriving DecidableEq, Repr

/-- `fmt_info_t`, all zero to begin with. The two start pointers are indices into the format. -/
structure FmtInfo where
  type : VarType := .none
  fillChar : UInt8 := 0
  alternateForm : Bool := false
  zeroPadding : Bool := false
  alignment : Align := .default
  sign : Sign := .neg
  minWidth : Nat := 0
  precise : Nat := 0
  minwidthStart : Option Nat := none
  preciseStart : Option Nat := none
  deriving DecidableEq, Repr

/-- `ret_token_t`. -/
inductive RetToken where
  | nextChar
  | nextStage
  | stop
  | found
  | error
  deriving DecidableEq, Repr

/-- The index of `c` in `stopper`, as the loops over the small tables find it. -/
def lookup {α : Type} (table : List (Char × α)) (c : UInt8) : Option α :=
  match table with
  | [] => none
  | (k, v) :: rest => if c = k.toUInt8 then some v else lookup rest c

/-- `in_range(c, '0', '9')`. -/
def isDigit (c : UInt8) : Bool := c ≥ '0'.toUInt8 ∧ c ≤ '9'.toUInt8

/-- `atodec(c, len)`, from index `i` of the format, continuing from `v`. -/
def atodec (format : CString) (v : Nat) (i : Nat) : Nat → Exec Nat
  | 0 => .ok v
  | len + 1 => do
    let c ← format.read i
    atodec format (u64 (u64 (v * 10) + sub64 c.toNat '0'.toNat)) (i + 1) len

/-! ## The checks

Each takes the format, the index of the current character and the descriptor so far. -/

def checkStart (format : CString) (fmt : Nat) (info : FmtInfo) : Exec (RetToken × FmtInfo) := do
  let c ← format.read fmt
  return (if c = '{'.toUInt8 then .found else .nextChar, info)

def checkSpecifierStart (format : CString) (fmt : Nat) (info : FmtInfo) :
    Exec (RetToken × FmtInfo) := do
  let c ← format.read fmt
  return (if c = ':'.toUInt8 then .found else .nextChar, info)

/-- The alignment characters (`stopper` and `output` of `check_align`). -/
def alignTable : List (Char × Align) :=
  [('<', .left), ('>', .right), ('=', .afterSign), ('^', .center)]

/-- `fmt[-1]`: an index of zero has no character before it. -/
def readPrev (format : CString) (fmt : Nat) : Exec UInt8 :=
  match fmt with
  | 0 => .error .badRead
  | i + 1 => format.read i

def checkAlign (format : CString) (fmt : Nat) (info : FmtInfo) : Exec (RetToken × FmtInfo) := do
  let next ← format.read (fmt + 1)
  let c ← format.read fmt
  -- this character is the fill character of the alignment that follows
  if (lookup alignTable next).isSome then
    return (.nextChar, info)
  else
    match lookup alignTable c with
    | some alignment => do
      let prev ← readPrev format fmt
      return (.found,
        { info with alignment, fillChar := if prev ≠ ':'.toUInt8 then prev else info.fillChar })
    | none => return (.nextStage, info)

/-- The sign characters (`stopper` and `output` of `check_sign`). -/
def signTable : List (Char × Sign) := [('+', .both), ('-', .neg), (' ', .posLeading)]

def checkSign (format : CString) (fmt : Nat) (info : FmtInfo) : Exec (RetToken × FmtInfo) := do
  let c ← format.read fmt
  match lookup signTable c with
  | some sign => return (.found, { info with sign })
  | none => return (.nextStage, info)

def checkAlternative (format : CString) (fmt : Nat) (info : FmtInfo) :
    Exec (RetToken × FmtInfo) := do
  let c ← format.read fmt
  if c = '#'.toUInt8 then return (.found, { info with alternateForm := true })
  else return (.nextStage, info)

def checkZeropadding (format : CString) (fmt : Nat) (info : FmtInfo) :
    Exec (RetToken × FmtInfo) := do
  let c ← format.read fmt
  if c = '0'.toUInt8 then return (.found, { info with zeroPadding := true })
  else return (.nextStage, info)

/-- The digits of a number, greedily: `start` is where they began, if a pass before this one set it.
The result is the number, once its last digit is reached. -/
def scanDigits (format : CString) (fmt : Nat) (start : Option Nat) : Exec (Nat × Option Nat) := do
  let first := start.getD fmt
  let next ← format.read (fmt + 1)
  if isDigit next then
    return (first, none)
  else
    -- the last digit: the number is read from its first one again
    let v ← atodec format 0 first (u64 (sub64 fmt first + 1))
    return (first, some v)

def checkMinwidth (format : CString) (fmt : Nat) (info : FmtInfo) :
    Exec (RetToken × FmtInfo) := do
  let c ← format.read fmt
  if isDigit c then
    match ← scanDigits format fmt info.minwidthStart with
    | (start, none) => return (.nextChar, { info with minwidthStart := some start })
    | (_, some v) => return (.found, { info with minWidth := v, minwidthStart := none })
  else
    return (.nextStage, info)

/-- `(*fmt == '.') && in_range(fmt[1], '0', '9')`. -/
def startsPrecise (format : CString) (fmt : Nat) (c : UInt8) : Exec Bool :=
  if c = '.'.toUInt8 then do
    let next ← format.read (fmt + 1)
    return isDigit next
  else
    .ok false

def checkPrecise (format : CString) (fmt : Nat) (info : FmtInfo) :
    Exec (RetToken × FmtInfo) := do
  let c ← format.read fmt
  if ← startsPrecise format fmt c then
    -- the point is passed in this stage, and the digits are met in the next pass
    return (.nextChar, { info with preciseStart := none })
  else if isDigit c then
    match ← scanDigits format fmt info.preciseStart with
    | (start, none) => return (.nextChar, { info with preciseStart := some start })
    | (_, some v) => return (.found, { info with precise := v, preciseStart := none })
  else
    return (.nextStage, info)

/-- The type characters (`stopper` and `output` of `check_type`). -/
def typeTable : List (Char × VarType) :=
  [('b', .bin), ('d', .dec), ('o', .octal), ('x', .lowHex), ('s', .string)]

def checkType (format : CString) (fmt : Nat) (info : FmtInfo) : Exec (RetToken × FmtInfo) := do
  let c ← format.read fmt
  match lookup typeTable c with
  | some type => return (.found, { info with type })
  | none => return (.error, info)

def checkEnd (format : CString) (fmt : Nat) (info : FmtInfo) : Exec (RetToken × FmtInfo) := do
  let c ← format.read fmt
  return (if c = ' '.toUInt8 then .nextChar
    else if c = '}'.toUInt8 then .stop
    else .error, info)

/-- `check_token(stage, fmt, info)`. -/
def checkToken (stage : Nat) (format : CString) (fmt : Nat) (info : FmtInfo) :
    Exec (RetToken × FmtInfo) :=
  match stage with
  | 0 => checkStart format fmt info
  | 1 => checkSpecifierStart format fmt info
  | 2 => checkAlign format fmt info
  | 3 => checkSign format fmt info
  | 4 => checkAlternative format fmt info
  | 5 => checkZeropadding format fmt info
  | 6 => checkMinwidth format fmt info
  | 7 => checkPrecise format fmt info
  | 8 => checkType format fmt info
  | 9 => checkEnd format fmt info
  | _ => .ok (.error, info)

/-! ## `get_next_fmt` -/

/-- What `get_next_fmt` returns through its pointers. -/
structure NextFmt where
  ret : Int
  info : FmtInfo
  consumedLen : Nat
  literalLen : Nat
  atEnd : Bool

/-- The locals of the scan. -/
structure Scan where
  idx : Nat
  stage : Nat
  info : FmtInfo
  literalLen : Nat

/-- What is left when the scan reaches the terminator. -/
def Scan.terminated (s : Scan) : NextFmt :=
  if s.stage = 0 then ⟨OK, s.info, s.idx + 1, s.idx, true⟩
  else ⟨OK, s.info, 0, s.literalLen, true⟩

/-- The switch on what a check returned. -/
def Scan.next (s : Scan) : RetToken → FmtInfo → Scan ⊕ NextFmt
  | .nextChar, info => .inl { s with idx := u32 (s.idx + 1), info }
  | .nextStage, info => .inl { s with stage := s.stage + 1, info }
  | .stop, info => .inr ⟨OK, info, s.idx + 1, s.literalLen, false⟩
  | .found, info => .inl
      { idx := u32 (s.idx + 1), stage := s.stage + 1, info
        literalLen := if s.stage = 0 then s.idx else s.literalLen }
  | .error, info => .inr ⟨ERROR_STRING_INVALID_FORMAT, info, 0, s.literalLen, false⟩

/-- One pass of the loop of `get_next_fmt`, on the format from index `fmt` on. -/
def scanPass (format : CString) (fmt : Nat) (s : Scan) : Exec (Scan ⊕ NextFmt) := do
  let c ← format.read (fmt + s.idx)
  if c = 0 then
    return .inr s.terminated
  else
    let (ret, info) ← checkToken s.stage format (fmt + s.idx) s.info
    return s.next ret info

/-- `get_next_fmt(fmt, info, …)`, in at most `fuel` passes. -/
def getNextFmt (fuel : Nat) (format : CString) (fmt : Nat) : Exec NextFmt :=
  Lib.iterate .diverged (scanPass format fmt) fuel ⟨0, 0, {}, 0⟩

/-- What the scan keeps: the index is inside the format, and so is the literal. -/
structure Scan.Inside (format : CString) (fmt : Nat) (s : Scan) : Prop where
  idx : fmt + s.idx ≤ format.strlen
  literal : fmt + s.literalLen ≤ format.strlen

/-- The lengths a finished scan reports lie inside the format, unless it met the terminator. -/
def NextFmt.Inside (format : CString) (fmt : Nat) (r : NextFmt) : Prop :=
  fmt + r.literalLen ≤ format.strlen ∧
    (r.ret = OK → r.atEnd = false → fmt + r.consumedLen ≤ format.strlen)

theorem Scan.next_inside {format : CString} {fmt : Nat} {s : Scan} (hs : s.Inside format fmt)
    (hlt : fmt + s.idx < format.strlen) (ret : RetToken) (info : FmtInfo) :
    Sum.elim (Scan.Inside format fmt) (NextFmt.Inside format fmt) (s.next ret info) := by
  have hidx : u32 (s.idx + 1) ≤ s.idx + 1 := Nat.mod_le _ _
  obtain ⟨h1, h2⟩ := hs
  cases ret with
  | nextChar => exact ⟨by dsimp only; omega, h2⟩
  | nextStage => exact ⟨h1, h2⟩
  | stop => exact ⟨h2, fun _ _ => by dsimp only; omega⟩
  | found =>
    refine ⟨by dsimp only; omega, ?_⟩
    dsimp only
    split
    · exact h1
    · exact h2
  | error => exact ⟨h2, fun h => absurd h (show ERROR_STRING_INVALID_FORMAT ≠ OK by decide)⟩

theorem Scan.terminated_inside {format : CString} {fmt : Nat} {s : Scan}
    (hs : s.Inside format fmt) : s.terminated.Inside format fmt := by
  unfold Scan.terminated
  split
  · exact ⟨hs.1, fun _ h => by cases h⟩
  · exact ⟨hs.2, fun _ h => by cases h⟩

/-- **A scan stays inside the format**: the literal it found lies inside, and so does the place after
the descriptor. -/
theorem getNextFmt_inside {fuel : Nat} {format : CString} {fmt : Nat} {r : NextFmt}
    (hfmt : fmt ≤ format.strlen) (h : getNextFmt fuel format fmt = .ok r) :
    r.Inside format fmt := by
  refine Lib.iterate_post (Scan.Inside format fmt) (NextFmt.Inside format fmt) ?_ fuel _ r
    ⟨by simpa using hfmt, by simpa using hfmt⟩ h
  intro s r hs hpass
  unfold scanPass at hpass
  obtain ⟨c, hc, hpass⟩ := bind_eq_ok.1 hpass
  by_cases h0 : c = 0
  · rw [if_pos h0, pure_ok] at hpass
    cases hpass
    exact Scan.terminated_inside hs
  · rw [if_neg h0] at hpass
    obtain ⟨⟨ret, info⟩, -, hpass⟩ := bind_eq_ok.1 hpass
    dsimp only at hpass
    rw [pure_ok] at hpass
    cases hpass
    exact Scan.next_inside hs (CString.read_ne_zero hc h0) ret info

/-! ## Scanning only reads -/

/-- A computation whose only fault is a read outside an object. -/
def ReadsOnly {α : Type} (x : Exec α) : Prop := ∀ e, x = .error e → e = .badRead

theorem readsOnly_ok {α : Type} (a : α) : ReadsOnly (.ok a : Exec α) := fun _ h => by cases h

theorem ReadsOnly.bind {α β : Type} {x : Exec α} {f : α → Exec β} (hx : ReadsOnly x)
    (hf : ∀ a, ReadsOnly (f a)) : ReadsOnly (x >>= f) := by
  intro e h
  rcases bind_eq_error.1 h with h | ⟨a, -, h⟩
  · exact hx e h
  · exact hf a e h

theorem ReadsOnly.ite {α : Type} {p : Prop} [Decidable p] {x y : Exec α} (hx : ReadsOnly x)
    (hy : ReadsOnly y) : ReadsOnly (if p then x else y) := by
  split
  · exact hx
  · exact hy

theorem readsOnly_read (s : CString) (i : Nat) : ReadsOnly (s.read i) := by
  intro e h
  unfold CString.read at h
  split at h
  · cases h
  · split at h <;> cases h
    rfl

theorem readsOnly_readPrev (s : CString) (i : Nat) : ReadsOnly (readPrev s i) := by
  cases i with
  | zero => intro e h; cases h; rfl
  | succ i => exact readsOnly_read s i

theorem readsOnly_atodec (s : CString) (len : Nat) :
    ∀ v i, ReadsOnly (atodec s v i len) := by
  induction len with
  | zero => intro v i; exact readsOnly_ok v
  | succ len ih => intro v i; exact (readsOnly_read s i).bind fun _ => ih _ _

theorem readsOnly_scanDigits (s : CString) (fmt : Nat) (start : Option Nat) :
    ReadsOnly (scanDigits s fmt start) :=
  (readsOnly_read s _).bind fun _ =>
    (readsOnly_ok _).ite ((readsOnly_atodec s _ _ _).bind fun _ => readsOnly_ok _)

theorem readsOnly_checkAlign (s : CString) (fmt : Nat) (info : FmtInfo) :
    ReadsOnly (checkAlign s fmt info) := by
  refine (readsOnly_read s _).bind fun next => (readsOnly_read s _).bind fun c => ?_
  refine (readsOnly_ok _).ite ?_
  cases lookup alignTable c with
  | none => exact readsOnly_ok _
  | some alignment => exact (readsOnly_readPrev s fmt).bind fun _ => readsOnly_ok _

theorem readsOnly_checkMinwidth (s : CString) (fmt : Nat) (info : FmtInfo) :
    ReadsOnly (checkMinwidth s fmt info) := by
  refine (readsOnly_read s _).bind fun c => ReadsOnly.ite ?_ (readsOnly_ok _)
  refine (readsOnly_scanDigits s _ _).bind fun r => ?_
  obtain ⟨start, v⟩ := r
  cases v <;> exact readsOnly_ok _

theorem readsOnly_startsPrecise (s : CString) (fmt : Nat) (c : UInt8) :
    ReadsOnly (startsPrecise s fmt c) :=
  ReadsOnly.ite ((readsOnly_read s _).bind fun _ => readsOnly_ok _) (readsOnly_ok _)

theorem readsOnly_checkPrecise (s : CString) (fmt : Nat) (info : FmtInfo) :
    ReadsOnly (checkPrecise s fmt info) := by
  refine (readsOnly_read s _).bind fun c => (readsOnly_startsPrecise s _ _).bind fun b => ?_
  refine (readsOnly_ok _).ite (ReadsOnly.ite ?_ (readsOnly_ok _))
  refine (readsOnly_scanDigits s _ _).bind fun r => ?_
  obtain ⟨start, v⟩ := r
  cases v <;> exact readsOnly_ok _

theorem readsOnly_checkToken (stage : Nat) (s : CString) (fmt : Nat) (info : FmtInfo) :
    ReadsOnly (checkToken stage s fmt info) := by
  unfold checkToken
  split
  · exact (readsOnly_read s _).bind fun _ => readsOnly_ok _
  · exact (readsOnly_read s _).bind fun _ => readsOnly_ok _
  · exact readsOnly_checkAlign s fmt info
  · refine (readsOnly_read s _).bind fun c => ?_
    cases lookup signTable c <;> exact readsOnly_ok _
  · exact (readsOnly_read s _).bind fun _ => (readsOnly_ok _).ite (readsOnly_ok _)
  · exact (readsOnly_read s _).bind fun _ => (readsOnly_ok _).ite (readsOnly_ok _)
  · exact readsOnly_checkMinwidth s fmt info
  · exact readsOnly_checkPrecise s fmt info
  · refine (readsOnly_read s _).bind fun c => ?_
    cases lookup typeTable c <;> exact readsOnly_ok _
  · exact (readsOnly_read s _).bind fun _ => readsOnly_ok _
  · exact readsOnly_ok _

/-- A scan that does not return has read outside the format or goes on for ever. -/
theorem getNextFmt_fault {fuel : Nat} {format : CString} {fmt : Nat} {e : Fault}
    (h : getNextFmt fuel format fmt = .error e) : e = .badRead ∨ e = .diverged := by
  refine Lib.iterate_fault_of (fun e => e = .badRead) (fun s e hpass => ?_) fuel _ e h
  unfold scanPass at hpass
  refine ReadsOnly.bind (readsOnly_read format _) (fun c => ?_) e hpass
  refine (readsOnly_ok _).ite ((readsOnly_checkToken _ format _ _).bind fun r => ?_)
  exact readsOnly_ok _

end GunyahRuntime
