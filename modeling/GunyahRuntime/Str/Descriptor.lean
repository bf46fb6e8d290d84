/-
# GunyahRuntime.Str.Descriptor -- what a format descriptor is spelled like, and that it is read back

The header gives a descriptor the grammar `[[fill]align][sign][#][0][minimumwidth][.precision]type`. A `Descriptor`
holds the components that can be chosen, and nothing else can be built; `Descriptor.spelling` writes them down and
`Descriptor.info` is what `get_next_fmt` is to make of it. Each stage of the scan reads its own component and stops
at the first character of the next, so there is one lemma for each stage, about where the scan is before and after
it, and `getNextFmt_spelled_iff` chains them.

One component is not read back: `check_align` takes a colon before an alignment for the one that opens the
descriptor, also where it is the fill character.
-/
import GunyahRuntime.Str.NumberText

namespace GunyahRuntime

/-! ## The grammar -/

/-- A width or a precision that can be given. -/
abbrev SpelledNat : Type := { n : Nat // 0 < n ∧ n < 18446744073709551616 }

/-- The components of a descriptor. A fill character comes with an alignment only. -/
structure Descriptor where
  align : Option (Option { c : UInt8 // c ≠ 0 } × { a : Align // a ≠ .default })
  sign : Option Sign
  alternateForm : Bool
  zeroPadding : Bool
  minWidth : Option SpelledNat
  precise : Option SpelledNat
  type : { t : VarType // t ≠ .none }

def alignSpelling : Align → UInt8
  | .left => '<'.toUInt8
  | .right => '>'.toUInt8
  | .afterSign => '='.toUInt8
  | .center => '^'.toUInt8
  | .default => 0

def signSpelling : Sign → UInt8
  | .both => '+'.toUInt8
  | .neg => '-'.toUInt8
  | .posLeading => ' '.toUInt8

def typeSpelling : VarType → UInt8
  | .bin => 'b'.toUInt8
  | .dec => 'd'.toUInt8
  | .octal => 'o'.toUInt8
  | .lowHex => 'x'.toUInt8
  | .string => 's'.toUInt8
  | .none => 0

/-- A number in decimal, as `itoa` writes it. -/
def decimalText (n : Nat) : List UInt8 := (digitsText 10 n).reverse

namespace Descriptor

/-- The fill character, if one is given. -/
def fill (d : Descriptor) : Option UInt8 := d.align.bind fun a => a.1.map Subtype.val

def alignText (d : Descriptor) : List UInt8 :=
  d.fill.toList ++ (d.align.map fun a => alignSpelling a.2.val).toList

def signText (d : Descriptor) : List UInt8 := (d.sign.map signSpelling).toList

def alternateText (d : Descriptor) : List UInt8 := if d.alternateForm then ['#'.toUInt8] else []

def zeroText (d : Descriptor) : List UInt8 := if d.zeroPadding then ['0'.toUInt8] else []

def widthText (d : Descriptor) : List UInt8 := (d.minWidth.map fun n => decimalText n.val).getD []

def preciseText (d : Descriptor) : List UInt8 := (d.precise.map fun n => '.'.toUInt8 :: decimalText n.val).getD []

def typeText (d : Descriptor) : List UInt8 := [typeSpelling d.type.val]

/-- `{:[[fill]align][sign][#][0][minimumwidth][.precision]type}`. -/
def spelling (d : Descriptor) : List UInt8 :=
  ['{'.toUInt8, ':'.toUInt8] ++ (d.alignText ++ (d.signText ++ (d.alternateText ++ (d.zeroText ++ (d.widthText ++
    (d.preciseText ++ (d.typeText ++ ['}'.toUInt8])))))))

/-- The components as `fmt_info_t` holds them, those that are not given at their defaults. -/
def info (d : Descriptor) : FmtInfo where
  type := d.type.val
  fillChar := d.fill.getD 0
  alternateForm := d.alternateForm
  zeroPadding := d.zeroPadding
  alignment := (d.align.map fun a => a.2.val).getD .default
  sign := d.sign.getD .neg
  minWidth := (d.minWidth.map Subtype.val).getD 0
  precise := (d.precise.map Subtype.val).getD 0

end Descriptor

/-! ## Reading at a place -/

theorem CString.read_drop {s : CString} {i : Nat} {c : UInt8} {l : List UInt8} (h : s.chars.drop i = c :: l) :
    s.read i = .ok c := by
  have hlt : i < s.chars.length := by
    have hlen := congrArg List.length h
    rw [List.length_drop, List.length_cons] at hlen
    omega
  have hget : s.chars.get ⟨i, hlt⟩ = c := by
    rw [List.drop_eq_getElem_cons hlt] at h
    exact (List.cons.inj h).1
  rw [(CString.read_lt hlt).1, hget]

theorem CString.drop_ne_zero {s : CString} {i : Nat} {c : UInt8} {l : List UInt8} (h : s.chars.drop i = c :: l) :
    c ≠ 0 :=
  s.no_nul c (List.mem_of_mem_drop (h ▸ List.mem_cons_self))

theorem drop_append_length {α : Type*} {xs ys zs : List α} {i : Nat} (h : xs.drop i = ys ++ zs) :
    xs.drop (i + ys.length) = zs := by
  rw [← List.drop_drop, h, List.drop_left]

theorem drop_add_length {α : Type*} {xs ys zs : List α} {i j : Nat} (h : xs.drop (i + j) = ys ++ zs) :
    xs.drop (i + (j + ys.length)) = zs := by
  rw [← Nat.add_assoc]
  exact drop_append_length h

theorem drop_succ_of_cons {α : Type*} {xs l : List α} {c : α} {i : Nat} (h : xs.drop i = c :: l) :
    xs.drop (i + 1) = l := by
  rw [← List.drop_drop, h, List.drop_one, List.tail_cons]

/-- A text whose first character satisfies `p`. -/
def Starts (p : UInt8 → Prop) (l : List UInt8) : Prop := ∃ c l', l = c :: l' ∧ p c

theorem Starts.mono {p q : UInt8 → Prop} {l : List UInt8} (h : Starts p l) (hpq : ∀ c, p c → q c) : Starts q l := by
  obtain ⟨c, l', rfl, hc⟩ := h
  exact ⟨c, l', rfl, hpq c hc⟩

/-- A component that may be absent before a text that is there. -/
theorem Starts.append {p : UInt8 → Prop} {x l : List UInt8} (hx : x = [] ∨ Starts p x) (hl : Starts p l) :
    Starts p (x ++ l) := by
  rcases hx with rfl | ⟨c, x', rfl, hc⟩
  · exact hl
  · exact ⟨c, x' ++ l, rfl, hc⟩

/-! ## Passes of the scan -/

section Scan

variable {format : CString} {fmt : Nat}

/-- The scan gets from one state to another in at most `k` passes. -/
def Reaches (format : CString) (fmt k : Nat) (s s' : Scan) : Prop :=
  ∃ n ≤ k, ∀ fuel, Lib.iterate .diverged (scanPass format fmt) (fuel + n) s =
    Lib.iterate .diverged (scanPass format fmt) fuel s'

theorem Reaches.trans {k m : Nat} {s s' s'' : Scan} (h : Reaches format fmt k s s')
    (h' : Reaches format fmt m s' s'') : Reaches format fmt (k + m) s s'' := by
  obtain ⟨n, hn, hrun⟩ := h
  obtain ⟨n', hn', hrun'⟩ := h'
  refine ⟨n' + n, by omega, fun fuel => ?_⟩
  rw [← Nat.add_assoc, hrun, hrun']

theorem reaches_pass {s s' : Scan} (h : scanPass format fmt s = .ok (.inl s')) : Reaches format fmt 1 s s' :=
  ⟨1, Nat.le_refl 1, fun _ => Lib.iterate_again h⟩

/-- One pass at a character that is there. -/
theorem scanPass_eq {s : Scan} {c : UInt8} {l : List UInt8} (hat : format.chars.drop (fmt + s.idx) = c :: l)
    {ret : RetToken} {info : FmtInfo} (hcheck : checkToken s.stage format (fmt + s.idx) s.info = .ok (ret, info)) :
    scanPass format fmt s = .ok (s.next ret info) := by
  unfold scanPass
  rw [CString.read_drop hat, ok_bind, if_neg (CString.drop_ne_zero hat), hcheck]
  rfl

variable {idx stage lit : Nat} {info info' : FmtInfo} {c : UInt8} {l : List UInt8}

theorem reaches_found (hat : format.chars.drop (fmt + idx) = c :: l)
    (hcheck : checkToken stage format (fmt + idx) info = .ok (.found, info')) (hidx : idx + 1 < 4294967296) :
    Reaches format fmt 1 ⟨idx, stage, info, lit⟩ ⟨idx + 1, stage + 1, info', if stage = 0 then idx else lit⟩ := by
  have hpass := scanPass_eq (s := ⟨idx, stage, info, lit⟩) hat hcheck
  have hnext : u32 (idx + 1) = idx + 1 := Nat.mod_eq_of_lt hidx
  refine reaches_pass (hpass.trans ?_)
  simp only [Scan.next, hnext]

theorem reaches_nextChar (hat : format.chars.drop (fmt + idx) = c :: l)
    (hcheck : checkToken stage format (fmt + idx) info = .ok (.nextChar, info')) (hidx : idx + 1 < 4294967296) :
    Reaches format fmt 1 ⟨idx, stage, info, lit⟩ ⟨idx + 1, stage, info', lit⟩ := by
  have hpass := scanPass_eq (s := ⟨idx, stage, info, lit⟩) hat hcheck
  have hnext : u32 (idx + 1) = idx + 1 := Nat.mod_eq_of_lt hidx
  refine reaches_pass (hpass.trans ?_)
  simp only [Scan.next, hnext]

theorem reaches_nextStage (hat : format.chars.drop (fmt + idx) = c :: l)
    (hcheck : checkToken stage format (fmt + idx) info = .ok (.nextStage, info')) :
    Reaches format fmt 1 ⟨idx, stage, info, lit⟩ ⟨idx, stage + 1, info', lit⟩ :=
  reaches_pass (scanPass_eq (s := ⟨idx, stage, info, lit⟩) hat hcheck)

/-! ## Single characters -/

theorem lookup_eq_none {α : Type} {table : List (Char × α)} {c : UInt8} (h : ∀ p ∈ table, c ≠ p.1.toUInt8) :
    lookup table c = none := by
  induction table with
  | nil => rfl
  | cons p table ih =>
    obtain ⟨k, v⟩ := p
    rw [lookup, if_neg (h (k, v) List.mem_cons_self)]
    exact ih fun q hq => h q (List.mem_cons_of_mem _ hq)

/-- What may follow a component: a type or a later one. -/
def AfterFlags (c : UInt8) : Prop := c.toNat = 46 ∨ (49 ≤ c.toNat ∧ c.toNat ≤ 57) ∨ 98 ≤ c.toNat

/-- A component that is one character of a table, or absent. -/
theorem reaches_table {α : Type} (table : List (Char × α)) (k : Nat) (spell : α → UInt8) (set : α → FmtInfo)
    (hcheck : ∀ c, format.read (fmt + idx) = .ok c → checkToken (k + 1) format (fmt + idx) info =
      .ok (((lookup table c).map fun v => (RetToken.found, set v)).getD (.nextStage, info)))
    (hspell : ∀ v, lookup table (spell v) = some v) (o : Option α)
    (hat : format.chars.drop (fmt + idx) = (o.map spell).toList ++ l) (hl : Starts (fun c => lookup table c = none) l)
    (hidx : idx + 1 < 4294967296) (lit : Nat) :
    Reaches format fmt 1 ⟨idx, k + 1, info, lit⟩
      ⟨idx + (o.map spell).toList.length, k + 2, (o.map set).getD info, lit⟩ := by
  cases o with
  | none =>
    obtain ⟨c, l', rfl, hc⟩ := hl
    have hread := hcheck c (CString.read_drop hat)
    rw [hc] at hread
    exact reaches_nextStage hat hread
  | some v =>
    have hread := hcheck (spell v) (CString.read_drop hat)
    rw [hspell] at hread
    exact reaches_found hat hread hidx

theorem reaches_sign (d : Descriptor) (hat : format.chars.drop (fmt + idx) = d.signText ++ l)
    (hl : Starts (fun c => c.toNat = 35 ∨ 46 ≤ c.toNat) l) (hidx : idx + 1 < 4294967296) :
    Reaches format fmt 1 ⟨idx, 3, info, lit⟩
      ⟨idx + d.signText.length, 4, { info with sign := d.sign.getD info.sign }, lit⟩ := by
  have hnone : Starts (fun c => lookup signTable c = none) l := hl.mono fun c hc => lookup_eq_none fun p hp => by
    simp only [signTable, List.mem_cons, List.not_mem_nil, or_false] at hp
    rcases hp with rfl | rfl | rfl <;> rintro rfl <;> revert hc <;> decide
  have hcheck : ∀ c, format.read (fmt + idx) = .ok c → checkToken 3 format (fmt + idx) info =
      .ok (((lookup signTable c).map fun sign => (RetToken.found, { info with sign })).getD (.nextStage, info)) := by
    intro c hc
    show checkSign format (fmt + idx) info = _
    unfold checkSign
    rw [hc, ok_bind]
    cases lookup signTable c <;> rfl
  have hrun := reaches_table signTable 2 signSpelling (fun sign => { info with sign }) hcheck
    (fun v => by cases v <;> rfl) d.sign hat hnone hidx lit
  cases hsign : d.sign <;> simpa [Descriptor.signText, hsign] using hrun

/-- A component that is a fixed character, or absent. -/
theorem reaches_flag (ch : Char) (k : Nat) (set : FmtInfo)
    (hcheck : ∀ c, format.read (fmt + idx) = .ok c → checkToken (k + 1) format (fmt + idx) info =
      if c = ch.toUInt8 then .ok (.found, set) else .ok (.nextStage, info)) (b : Bool)
    (hat : format.chars.drop (fmt + idx) = (if b then [ch.toUInt8] else []) ++ l)
    (hl : Starts (fun c => c ≠ ch.toUInt8) l) (hidx : idx + 1 < 4294967296) (lit : Nat) :
    Reaches format fmt 1 ⟨idx, k + 1, info, lit⟩
      ⟨idx + (if b then [ch.toUInt8] else []).length, k + 2, if b then set else info, lit⟩ := by
  cases b with
  | false =>
    obtain ⟨c, l', rfl, hc⟩ := hl
    have hread := hcheck c (CString.read_drop hat)
    rw [if_neg hc] at hread
    exact reaches_nextStage hat hread
  | true =>
    have hread := hcheck ch.toUInt8 (CString.read_drop hat)
    rw [if_pos rfl] at hread
    exact reaches_found hat hread hidx

theorem reaches_alternate (d : Descriptor) (hat : format.chars.drop (fmt + idx) = d.alternateText ++ l)
    (hl : Starts (fun c => 46 ≤ c.toNat) l) (hidx : idx + 1 < 4294967296) (hinfo : info.alternateForm = false) :
    Reaches format fmt 1 ⟨idx, 4, info, lit⟩
      ⟨idx + d.alternateText.length, 5, { info with alternateForm := d.alternateForm }, lit⟩ := by
  have hne : Starts (fun c => c ≠ '#'.toUInt8) l := hl.mono fun c hc => by
    rintro rfl
    revert hc
    decide
  have hcheck : ∀ c, format.read (fmt + idx) = .ok c → checkToken 4 format (fmt + idx) info =
      if c = '#'.toUInt8 then .ok (.found, { info with alternateForm := true }) else .ok (.nextStage, info) := by
    intro c hc
    show checkAlternative format (fmt + idx) info = _
    unfold checkAlternative
    rw [hc, ok_bind]
    split <;> rfl
  have hrun := reaches_flag '#' 3 { info with alternateForm := true } hcheck d.alternateForm hat hne hidx lit
  have hset : { info with alternateForm := d.alternateForm } =
      if d.alternateForm then { info with alternateForm := true } else info := by
    cases d.alternateForm
    · cases info
      cases hinfo
      rfl
    · rfl
  rw [hset]
  exact hrun

theorem reaches_zero (d : Descriptor) (hat : format.chars.drop (fmt + idx) = d.zeroText ++ l)
    (hl : Starts AfterFlags l) (hidx : idx + 1 < 4294967296) (hinfo : info.zeroPadding = false) :
    Reaches format fmt 1 ⟨idx, 5, info, lit⟩
      ⟨idx + d.zeroText.length, 6, { info with zeroPadding := d.zeroPadding }, lit⟩ := by
  have hne : Starts (fun c => c ≠ '0'.toUInt8) l := hl.mono fun c hc => by
    rintro rfl
    revert hc
    unfold AfterFlags
    decide
  have hcheck : ∀ c, format.read (fmt + idx) = .ok c → checkToken 5 format (fmt + idx) info =
      if c = '0'.toUInt8 then .ok (.found, { info with zeroPadding := true }) else .ok (.nextStage, info) := by
    intro c hc
    show checkZeropadding format (fmt + idx) info = _
    unfold checkZeropadding
    rw [hc, ok_bind]
    split <;> rfl
  have hrun := reaches_flag '0' 4 { info with zeroPadding := true } hcheck d.zeroPadding hat hne hidx lit
  have hset : { info with zeroPadding := d.zeroPadding } =
      if d.zeroPadding then { info with zeroPadding := true } else info := by
    cases d.zeroPadding
    · cases info
      cases hinfo
      rfl
    · rfl
  rw [hset]
  exact hrun

/-! ## Numbers -/

/-- One digit of `atodec`. -/
def decStep (v : Nat) (c : UInt8) : Nat := u64 (u64 (v * 10) + sub64 c.toNat '0'.toNat)

theorem atodec_eq {ds rest : List UInt8} {i : Nat} (hat : format.chars.drop i = ds ++ rest) (v : Nat) :
    atodec format v i ds.length = .ok (ds.foldl decStep v) := by
  induction ds generalizing i v with
  | nil => rfl
  | cons c ds ih =>
    rw [List.length_cons, atodec, CString.read_drop hat, ok_bind, ← decStep, ih (drop_succ_of_cons hat),
      List.foldl_cons]

/-- A digit with another one after it only notes where the number began. -/
theorem scanDigits_more {i : Nat} {next : UInt8} (hread : format.read (i + 1) = .ok next)
    (hnext : isDigit next = true) (start : Option Nat) :
    scanDigits format i start = .ok (start.getD i, none) := by
  unfold scanDigits
  rw [hread, ok_bind, if_pos hnext]
  rfl

/-- The last digit gives the number. -/
theorem scanDigits_last {i : Nat} {next : UInt8} (hread : format.read (i + 1) = .ok next)
    (hnext : isDigit next = false) {start : Option Nat} {ds rest : List UInt8}
    (hat : format.chars.drop (start.getD i) = ds ++ rest) (hlen : start.getD i + ds.length = i + 1) (hds : ds ≠ []) :
    scanDigits format i start = .ok (start.getD i, some (ds.foldl decStep 0)) := by
  have hpos := List.length_pos_iff.2 hds
  have hfits := format.fits
  have hin : ds.length ≤ format.chars.length := by
    have := congrArg List.length hat
    rw [List.length_drop, List.length_append] at this
    omega
  have hi : i < 18446744073709551616 := by
    have := congrArg List.length hat
    rw [List.length_drop, List.length_append] at this
    omega
  have hcnt : u64 (sub64 i (start.getD i) + 1) = ds.length := by
    rw [sub64_of_le (by omega) hi]
    unfold u64
    omega
  unfold scanDigits
  rw [hread, ok_bind, if_neg (by simp [hnext]), hcnt, atodec_eq hat, ok_bind]
  rfl

/-- A stage that scans a number: `going` remembers where its digits start, and `done` takes its value. -/
def ScansDigits (format : CString) (k : Nat) (going : Option Nat → FmtInfo) (done : Nat → FmtInfo) : Prop :=
  ∀ i c start, format.read i = .ok c → isDigit c = true →
    checkToken k format i (going start) = scanDigits format i start >>= fun r =>
      .ok (match r.2 with
        | none => (.nextChar, going (some r.1))
        | some v => (.found, done v))

/-- **A number is scanned to its end**: with the digits `pre` behind it and `ds` before it, the scan gets to the end
of these and holds the number that all of them spell. -/
theorem reaches_digits {k : Nat} {going : Option Nat → FmtInfo} {done : Nat → FmtInfo}
    (hcheck : ScansDigits format k going done) (hk : k ≠ 0) (lit : Nat) (ds : List UInt8) (hds : ds ≠ [])
    (hdigits : ∀ c ∈ ds, isDigit c = true)
    (hl : Starts (fun c => isDigit c = false) l) :
    ∀ (pre : List UInt8) (idx : Nat) (start : Option Nat), start.getD (fmt + idx) + pre.length = fmt + idx →
      format.chars.drop (start.getD (fmt + idx)) = pre ++ (ds ++ l) → idx + ds.length < 4294967296 →
      Reaches format fmt ds.length ⟨idx, k, going start, lit⟩
        ⟨idx + ds.length, k + 1, done ((pre ++ ds).foldl decStep 0), lit⟩ := by
  induction ds with
  | nil => exact absurd rfl hds
  | cons c ds ih =>
    intro pre idx start hstart hat hidx
    have hc := hdigits c List.mem_cons_self
    have hhere : format.chars.drop (fmt + idx) = c :: (ds ++ l) := by
      rw [← hstart]
      exact drop_append_length hat
    have hnext := drop_succ_of_cons hhere
    have hthis := hcheck (fmt + idx) c start (CString.read_drop hhere) hc
    cases ds with
    | nil =>
      obtain ⟨e, l', rfl, he⟩ := hl
      rw [scanDigits_last (CString.read_drop hnext) he
        (by rw [hat, ← List.append_assoc] : _ = (pre ++ [c]) ++ (e :: l'))
        (by rw [List.length_append, List.length_singleton]; omega) (by simp), ok_bind] at hthis
      have hrun := @reaches_found _ _ _ _ lit _ _ _ _ hhere hthis (by simpa using hidx)
      rw [if_neg hk] at hrun
      exact hrun
    | cons c' ds =>
      rw [scanDigits_more (CString.read_drop hnext) (hdigits c' (by simp)), ok_bind] at hthis
      have hrun := @reaches_nextChar _ _ _ _ lit _ _ _ _ hhere hthis
        (by simp only [List.length_cons] at hidx; omega)
      have hrest := ih (by simp) (fun d hd => hdigits d (List.mem_cons_of_mem _ hd)) (pre ++ [c]) (idx + 1)
        (some (start.getD (fmt + idx)))
        (by simp only [Option.getD_some, List.length_append, List.length_singleton]; omega)
        (by rw [Option.getD_some, hat, List.append_assoc, List.singleton_append, List.cons_append])
        (by simp only [List.length_cons] at hidx ⊢; omega)
      have hboth := hrun.trans hrest
      simp only [List.length_cons, List.append_assoc, List.singleton_append] at hboth ⊢
      rw [show idx + (ds.length + 1 + 1) = idx + 1 + (ds.length + 1) by omega,
        show ds.length + 1 + 1 = 1 + (ds.length + 1) by omega]
      exact hboth

/-! ### Decimal numbers -/

theorem toNat_digitAt : ∀ d < 10, (digitAt d).toNat = 48 + d := by decide

/-- The digits spell the number. -/
theorem foldl_decStep_digits (ds : List Nat) (hds : ∀ d ∈ ds, d < 10)
    (hlt : Nat.ofDigits 10 ds < 18446744073709551616) :
    (ds.map digitAt).reverse.foldl decStep 0 = Nat.ofDigits 10 ds := by
  induction ds with
  | nil => rfl
  | cons d ds ih =>
    have hlow := hds d List.mem_cons_self
    have hd := toNat_digitAt d hlow
    rw [Nat.ofDigits_cons] at hlt ⊢
    have hrest := ih (fun e he => hds e (List.mem_cons_of_mem _ he)) (by omega)
    have hshift : u64 (Nat.ofDigits 10 ds * 10) = Nat.ofDigits 10 ds * 10 := u64_of_lt (by omega)
    have hdigit : sub64 (digitAt d).toNat '0'.toNat = d := by
      rw [hd, show '0'.toNat = 48 from rfl, sub64_of_le (by omega) (by omega)]
      omega
    rw [List.map_cons, List.reverse_cons, List.foldl_append, hrest, List.foldl_cons, List.foldl_nil, decStep,
      hshift, hdigit, u64_of_lt (by omega)]
    omega

theorem foldl_decStep_decimal (n : SpelledNat) : (decimalText n.val).foldl decStep 0 = n.val := by
  have hof := Nat.ofDigits_digits 10 n.val
  unfold decimalText digitsText
  rw [if_neg n.property.1.ne', foldl_decStep_digits _ (fun d hd => Nat.digits_lt_base (by decide) hd)
    (by rw [hof]; exact n.property.2), hof]

/-- A number starts with a digit that is not zero, and goes on with digits. -/
theorem decimalText_cons (n : SpelledNat) :
    ∃ c ds, decimalText n.val = c :: ds ∧ (49 ≤ c.toNat ∧ c.toNat ≤ 57) ∧ ∀ e ∈ c :: ds, isDigit e = true := by
  have hne : n.val ≠ 0 := n.property.1.ne'
  have hdigits : Nat.digits 10 n.val ≠ [] := Nat.digits_ne_nil_iff_ne_zero.2 hne
  have hlast := Nat.getLast_digit_ne_zero 10 hne
  have hlt : ∀ d ∈ Nat.digits 10 n.val, d < 10 := fun d hd => Nat.digits_lt_base (by decide) hd
  have htext : decimalText n.val = digitAt ((Nat.digits 10 n.val).getLast hdigits) ::
      ((Nat.digits 10 n.val).dropLast.map digitAt).reverse := by
    unfold decimalText digitsText
    rw [if_neg hne]
    conv_lhs => rw [← List.dropLast_append_getLast hdigits]
    rw [List.map_append, List.reverse_append]
    rfl
  have hhead := toNat_digitAt _ (hlt _ (List.getLast_mem hdigits))
  have hall : ∀ e ∈ decimalText n.val, isDigit e = true := by
    intro e he
    unfold decimalText digitsText at he
    rw [if_neg hne, List.mem_reverse, List.mem_map] at he
    obtain ⟨d, hd, rfl⟩ := he
    exact (by decide : ∀ d < 10, isDigit (digitAt d) = true) d (hlt d hd)
  refine ⟨_, _, htext, ?_, htext ▸ hall⟩
  have := hlt _ (List.getLast_mem hdigits)
  omega

/-- There is room for it in a count of 32 bits. -/
theorem length_decimalText (n : SpelledNat) : (decimalText n.val).length ≤ 20 := by
  have hne : n.val ≠ 0 := n.property.1.ne'
  unfold decimalText digitsText
  rw [if_neg hne, List.length_reverse, List.length_map]
  exact (Nat.digits_length_le_iff (by decide) n.val).2 (Nat.lt_trans n.property.2 (by decide))

/-! ### Width and precision -/

/-- What may follow a width: a precision or a type. -/
def AfterWidth (c : UInt8) : Prop := c.toNat = 46 ∨ 98 ≤ c.toNat

theorem isDigit_eq_false {c : UInt8} (h : AfterWidth c) : isDigit c = false := by
  unfold AfterWidth at h
  unfold isDigit
  rw [decide_eq_false]
  rintro ⟨hlow, hhigh⟩
  rw [ge_iff_le, UInt8.le_iff_toNat_le] at hlow
  rw [UInt8.le_iff_toNat_le] at hhigh
  have h0 : '0'.toUInt8.toNat = 48 := rfl
  have h9 : '9'.toUInt8.toNat = 57 := rfl
  omega

/-- A number, from its first digit. -/
theorem reaches_number {k : Nat} {going : Option Nat → FmtInfo} {done : Nat → FmtInfo}
    (hcheck : ScansDigits format k going done) (hk : k ≠ 0) (lit : Nat) (n : SpelledNat)
    (hat : format.chars.drop (fmt + idx) = decimalText n.val ++ l) (hl : Starts (fun c => isDigit c = false) l)
    (hidx : idx + 20 < 4294967296) :
    Reaches format fmt (decimalText n.val).length ⟨idx, k, going none, lit⟩
      ⟨idx + (decimalText n.val).length, k + 1, done n.val, lit⟩ := by
  have hlen := length_decimalText n
  obtain ⟨c, ds, hcons, -, hdigits⟩ := decimalText_cons n
  have hrun := reaches_digits hcheck hk lit (decimalText n.val) (by rw [hcons]; simp)
    (by rw [hcons]; exact hdigits) hl [] idx none rfl hat (by omega)
  rw [List.nil_append, foldl_decStep_decimal] at hrun
  exact hrun

theorem scansDigits_width (info : FmtInfo) :
    ScansDigits format 6 (fun start => { info with minwidthStart := start })
      (fun v => { info with minWidth := v, minwidthStart := none }) := by
  intro i c start hread hc
  show checkMinwidth format i _ = _
  unfold checkMinwidth
  rw [hread, ok_bind, if_pos hc]
  refine congrArg (scanDigits format i start >>= ·) (funext fun r => ?_)
  obtain ⟨first, v⟩ := r
  cases v <;> rfl

/-- Without a width the stage is passed. -/
theorem reaches_width_none (hat : format.chars.drop (fmt + idx) = l) (hl : Starts AfterWidth l) :
    Reaches format fmt 1 ⟨idx, 6, info, lit⟩ ⟨idx, 7, info, lit⟩ := by
  obtain ⟨c, l', rfl, hc⟩ := hl
  refine reaches_nextStage hat ?_
  show checkMinwidth format (fmt + idx) info = _
  unfold checkMinwidth
  rw [CString.read_drop hat, ok_bind, if_neg (by rw [isDigit_eq_false hc]; decide)]
  rfl

theorem reaches_width (d : Descriptor) (hat : format.chars.drop (fmt + idx) = d.widthText ++ l)
    (hl : Starts AfterWidth l) (hidx : idx + 20 < 4294967296) (hstart : info.minwidthStart = none)
    (hinfo : info.minWidth = 0) :
    Reaches format fmt (d.widthText.length + 1) ⟨idx, 6, info, lit⟩
      ⟨idx + d.widthText.length, 7, { info with minWidth := d.info.minWidth }, lit⟩ := by
  cases hwidth : d.minWidth with
  | none =>
    have htext : d.widthText = [] := by simp [Descriptor.widthText, hwidth]
    have hvalue : d.info.minWidth = 0 := by simp [Descriptor.info, hwidth]
    have hset : { info with minWidth := 0 } = info := by
      cases info
      cases hinfo
      rfl
    rw [htext, List.nil_append] at hat
    rw [htext, hvalue, hset]
    exact reaches_width_none hat hl
  | some n =>
    have htext : d.widthText = decimalText n.val := by simp [Descriptor.widthText, hwidth]
    have hvalue : d.info.minWidth = n.val := by simp [Descriptor.info, hwidth]
    rw [htext] at hat
    rw [htext, hvalue]
    obtain ⟨m, hm, hrun⟩ := reaches_number (scansDigits_width info) (by decide) lit n hat
      (hl.mono fun _ => isDigit_eq_false) hidx
    refine ⟨m, by omega, ?_⟩
    cases info
    cases hstart
    exact hrun

theorem startsPrecise_of_ne {i : Nat} (h : c ≠ '.'.toUInt8) : startsPrecise format i c = .ok false := if_neg h

theorem scansDigits_precise (info : FmtInfo) :
    ScansDigits format 7 (fun start => { info with preciseStart := start })
      (fun v => { info with precise := v, preciseStart := none }) := by
  intro i c start hread hc
  have hne : c ≠ '.'.toUInt8 := by
    rintro rfl
    exact absurd hc (by decide)
  show checkPrecise format i _ = _
  unfold checkPrecise
  rw [hread, ok_bind, startsPrecise_of_ne hne, ok_bind, if_neg (by decide), if_pos hc]
  refine congrArg (scanDigits format i start >>= ·) (funext fun r => ?_)
  obtain ⟨first, v⟩ := r
  cases v <;> rfl

/-- Without a precision the stage is passed. -/
theorem reaches_precise_none (hat : format.chars.drop (fmt + idx) = l) (hl : Starts (fun c => 98 ≤ c.toNat) l) :
    Reaches format fmt 1 ⟨idx, 7, info, lit⟩ ⟨idx, 8, info, lit⟩ := by
  obtain ⟨c, l', rfl, hc⟩ := hl
  have hpoint : c ≠ '.'.toUInt8 := by
    rintro rfl
    exact absurd hc (by decide)
  refine reaches_nextStage hat ?_
  show checkPrecise format (fmt + idx) info = _
  unfold checkPrecise
  rw [CString.read_drop hat, ok_bind, startsPrecise_of_ne hpoint, ok_bind, if_neg (by decide),
    if_neg (by rw [isDigit_eq_false (.inr hc)]; decide)]
  rfl

/-- The point, with a digit after it. -/
theorem reaches_point (hat : format.chars.drop (fmt + idx) = '.'.toUInt8 :: c :: l) (hc : isDigit c = true)
    (hidx : idx + 1 < 4294967296) :
    Reaches format fmt 1 ⟨idx, 7, info, lit⟩ ⟨idx + 1, 7, { info with preciseStart := none }, lit⟩ := by
  refine reaches_nextChar hat ?_ hidx
  have hstarts : startsPrecise format (fmt + idx) '.'.toUInt8 = .ok true := by
    unfold startsPrecise
    rw [if_pos rfl, CString.read_drop (drop_succ_of_cons hat), ok_bind, hc]
    rfl
  show checkPrecise format (fmt + idx) info = _
  unfold checkPrecise
  rw [CString.read_drop hat, ok_bind, hstarts, ok_bind, if_pos rfl]
  rfl

/-- The point is passed, and the digits after it are scanned. -/
theorem reaches_precise (d : Descriptor) (hat : format.chars.drop (fmt + idx) = d.preciseText ++ l)
    (hl : Starts (fun c => 98 ≤ c.toNat) l) (hidx : idx + 21 < 4294967296) (hstart : info.preciseStart = none)
    (hinfo : info.precise = 0) :
    Reaches format fmt (d.preciseText.length + 1) ⟨idx, 7, info, lit⟩
      ⟨idx + d.preciseText.length, 8, { info with precise := d.info.precise }, lit⟩ := by
  cases hprecise : d.precise with
  | none =>
    have htext : d.preciseText = [] := by simp [Descriptor.preciseText, hprecise]
    have hvalue : d.info.precise = 0 := by simp [Descriptor.info, hprecise]
    have hset : { info with precise := 0 } = info := by
      cases info
      cases hinfo
      rfl
    rw [htext, List.nil_append] at hat
    rw [htext, hvalue, hset]
    exact reaches_precise_none hat hl
  | some n =>
    have htext : d.preciseText = '.'.toUInt8 :: decimalText n.val := by simp [Descriptor.preciseText, hprecise]
    have hvalue : d.info.precise = n.val := by simp [Descriptor.info, hprecise]
    rw [htext] at hat
    rw [htext, hvalue]
    obtain ⟨e, ds, hcons, -, hdigits⟩ := decimalText_cons n
    have hpoint : Reaches format fmt 1 ⟨idx, 7, info, lit⟩ ⟨idx + 1, 7, { info with preciseStart := none }, lit⟩ := by
      rw [hcons] at hat
      exact reaches_point hat (hdigits e List.mem_cons_self) (by omega)
    have hrun := reaches_number (scansDigits_precise info) (by decide) lit n
      (by rw [← Nat.add_assoc, drop_succ_of_cons hat]; rfl) (hl.mono fun _ hc => isDigit_eq_false (.inr hc))
      (show idx + 1 + 20 < 4294967296 by omega)
    obtain ⟨m, hm, hboth⟩ := hpoint.trans hrun
    rw [List.length_cons, show idx + ((decimalText n.val).length + 1) = idx + 1 + (decimalText n.val).length by omega]
    refine ⟨m, by omega, ?_⟩
    cases info
    cases hstart
    exact hboth

/-! ### Type and end -/

theorem typeSpelling_ge (t : VarType) (ht : t ≠ .none) : 98 ≤ (typeSpelling t).toNat := by
  cases t with
  | none => exact absurd rfl ht
  | bin => decide
  | dec => decide
  | octal => decide
  | lowHex => decide
  | string => decide

theorem reaches_type (d : Descriptor) (hat : format.chars.drop (fmt + idx) = d.typeText ++ l)
    (hidx : idx + 1 < 4294967296) :
    Reaches format fmt 1 ⟨idx, 8, info, lit⟩ ⟨idx + d.typeText.length, 9, { info with type := d.type.val }, lit⟩ := by
  have hlookup : lookup typeTable (typeSpelling d.type.val) = some d.type.val := by
    obtain ⟨t, ht⟩ := d.type
    cases t with
    | none => exact absurd rfl ht
    | bin => rfl
    | dec => rfl
    | octal => rfl
    | lowHex => rfl
    | string => rfl
  refine reaches_found hat ?_ hidx
  show checkType format (fmt + idx) info = _
  unfold checkType
  rw [CString.read_drop hat, ok_bind, hlookup]
  rfl

theorem iterate_end (fuel : Nat) (hat : format.chars.drop (fmt + idx) = '}'.toUInt8 :: l) :
    Lib.iterate .diverged (scanPass format fmt) (fuel + 1) ⟨idx, 9, info, lit⟩ =
      .ok ⟨OK, info, idx + 1, lit, false⟩ := by
  have hcheck : checkToken 9 format (fmt + idx) info = .ok (.stop, info) := by
    show checkEnd format (fmt + idx) info = _
    unfold checkEnd
    rw [CString.read_drop hat, ok_bind]
    rfl
  exact Lib.iterate_done (scanPass_eq (s := ⟨idx, 9, info, lit⟩) hat hcheck)

/-! ### Alignment -/

theorem lookup_alignSpelling {a : Align} (ha : a ≠ .default) : lookup alignTable (alignSpelling a) = some a := by
  cases a with
  | default => exact absurd rfl ha
  | left => rfl
  | right => rfl
  | afterSign => rfl
  | center => rfl

/-- A text whose first two characters are there and do not align. -/
def StartsUnaligned (l : List UInt8) : Prop :=
  ∃ c e l', l = c :: e :: l' ∧ lookup alignTable c = none ∧ lookup alignTable e = none

/-- The info after the alignment has been read. A colon before it sets no fill character. -/
def Descriptor.alignInfo (d : Descriptor) (info : FmtInfo) : FmtInfo :=
  match d.align with
  | none => info
  | some (fill, a) =>
    { info with
      alignment := a.val
      fillChar := if (fill.map Subtype.val).getD ':'.toUInt8 ≠ ':'.toUInt8 then
        (fill.map Subtype.val).getD ':'.toUInt8 else info.fillChar }

/-- A check at a character that does not align, with one after it that does not either. -/
theorem checkAlign_none (info : FmtInfo) {i : Nat} {e : UInt8} (hat : format.chars.drop i = c :: e :: l)
    (hc : lookup alignTable c = none) (he : lookup alignTable e = none) :
    checkToken 2 format i info = .ok (.nextStage, info) := by
  show checkAlign format i info = _
  unfold checkAlign
  rw [CString.read_drop (drop_succ_of_cons hat), ok_bind, CString.read_drop hat, ok_bind, he, hc]
  rfl

/-- A check at an alignment: the character before it is the fill, if it is not a colon. -/
theorem checkAlign_found (info : FmtInfo) {i : Nat} {prev e : UInt8} {a : Align} (ha : a ≠ .default)
    (hat : format.chars.drop i = prev :: alignSpelling a :: e :: l) (he : lookup alignTable e = none) :
    checkToken 2 format (i + 1) info =
      .ok (.found, { info with alignment := a, fillChar := if prev ≠ ':'.toUInt8 then prev else info.fillChar }) := by
  have hhere := drop_succ_of_cons hat
  show checkAlign format (i + 1) info = _
  unfold checkAlign
  rw [CString.read_drop (drop_succ_of_cons hhere), ok_bind, CString.read_drop hhere, ok_bind, he,
    lookup_alignSpelling ha]
  show readPrev format (i + 1) >>= _ = _
  rw [readPrev, CString.read_drop hat, ok_bind]
  rfl

/-- A check at a fill character. -/
theorem checkAlign_fill (info : FmtInfo) {i : Nat} {a : Align} (ha : a ≠ .default)
    (hat : format.chars.drop i = c :: alignSpelling a :: l) :
    checkToken 2 format i info = .ok (.nextChar, info) := by
  show checkAlign format i info = _
  unfold checkAlign
  rw [CString.read_drop (drop_succ_of_cons hat), ok_bind, CString.read_drop hat, ok_bind, lookup_alignSpelling ha]
  rfl

/-- The alignment is read from after the colon on. -/
theorem reaches_align (d : Descriptor) {p : Nat} (hp : fmt + idx = p + 1)
    (hat : format.chars.drop p = ':'.toUInt8 :: (d.alignText ++ l)) (hl : StartsUnaligned l)
    (hidx : idx + 2 < 4294967296) :
    Reaches format fmt (d.alignText.length + 1) ⟨idx, 2, info, lit⟩
      ⟨idx + d.alignText.length, 3, d.alignInfo info, lit⟩ := by
  have hhere := drop_succ_of_cons hat
  rw [← hp] at hhere
  obtain ⟨c, e, l', rfl, hc, he⟩ := hl
  cases halign : d.align with
  | none =>
    have htext : d.alignText = [] := by simp [Descriptor.alignText, Descriptor.fill, halign]
    rw [htext, List.nil_append] at hhere
    rw [htext, Descriptor.alignInfo, halign]
    exact reaches_nextStage hhere (checkAlign_none info hhere hc he)
  | some fa =>
    obtain ⟨fill, a, ha⟩ := fa
    cases fill with
    | none =>
      have htext : d.alignText = [alignSpelling a] := by simp [Descriptor.alignText, Descriptor.fill, halign]
      rw [htext, List.singleton_append] at hat hhere
      rw [htext, Descriptor.alignInfo, halign]
      have hcheck := checkAlign_found info ha hat hc
      rw [← hp] at hcheck
      have hfound : Reaches format fmt 1 ⟨idx, 2, info, lit⟩ ⟨idx + 1, 3, _, lit⟩ :=
        reaches_found hhere hcheck (by omega)
      obtain ⟨n, hn, hrun⟩ := hfound
      exact ⟨n, by rw [List.length_singleton]; omega, hrun⟩
    | some f =>
      have htext : d.alignText = [f.val, alignSpelling a] := by
        simp [Descriptor.alignText, Descriptor.fill, halign]
      rw [htext] at hhere
      rw [htext, Descriptor.alignInfo, halign]
      have hskip : Reaches format fmt 1 ⟨idx, 2, info, lit⟩ ⟨idx + 1, 2, info, lit⟩ :=
        reaches_nextChar hhere (checkAlign_fill info ha hhere) (by omega)
      have hfound : Reaches format fmt 1 ⟨idx + 1, 2, info, lit⟩ ⟨idx + 1 + 1, 3, _, lit⟩ :=
        reaches_found (drop_succ_of_cons hhere) (checkAlign_found info ha hhere hc) (by omega)
      obtain ⟨n, hn, hrun⟩ := hskip.trans hfound
      exact ⟨n, by simp only [List.length_cons, List.length_nil]; omega, hrun⟩

end Scan

/-! ## What follows a component -/

namespace Descriptor

variable (d : Descriptor) (text : List UInt8)

/-- What follows the width, the flags and so on, up to the end of the format. -/
def fromType : List UInt8 := d.typeText ++ '}'.toUInt8 :: text

def fromPrecise : List UInt8 := d.preciseText ++ d.fromType text

def fromWidth : List UInt8 := d.widthText ++ d.fromPrecise text

def fromZero : List UInt8 := d.zeroText ++ d.fromWidth text

def fromAlternate : List UInt8 := d.alternateText ++ d.fromZero text

def fromSign : List UInt8 := d.signText ++ d.fromAlternate text

theorem spelling_append :
    d.spelling ++ text = '{'.toUInt8 :: ':'.toUInt8 :: (d.alignText ++ d.fromSign text) := by
  simp [spelling, fromSign, fromAlternate, fromZero, fromWidth, fromPrecise, fromType]

theorem starts_fromType : Starts (fun c => 98 ≤ c.toNat) (d.fromType text) :=
  ⟨_, _, rfl, typeSpelling_ge d.type.val d.type.property⟩

theorem starts_fromPrecise : Starts AfterWidth (d.fromPrecise text) := by
  refine Starts.append ?_ ((d.starts_fromType text).mono fun _ => .inr)
  unfold preciseText
  cases d.precise with
  | none => exact .inl rfl
  | some n => exact .inr ⟨_, _, rfl, .inl rfl⟩

theorem starts_fromWidth : Starts AfterFlags (d.fromWidth text) := by
  refine Starts.append ?_ ((d.starts_fromPrecise text).mono fun _ h => h.imp_right .inr)
  unfold widthText
  cases d.minWidth with
  | none => exact .inl rfl
  | some n =>
    obtain ⟨c, ds, hcons, hc, -⟩ := decimalText_cons n
    exact .inr ⟨c, ds, hcons, .inr (.inl hc)⟩

theorem starts_fromZero : Starts (fun c => 46 ≤ c.toNat) (d.fromZero text) := by
  refine Starts.append ?_ ((d.starts_fromWidth text).mono fun c hc => ?_)
  · unfold zeroText
    cases d.zeroPadding with
    | false => exact .inl rfl
    | true => exact .inr ⟨_, _, rfl, by decide⟩
  · unfold AfterFlags at hc
    omega

theorem starts_fromAlternate : Starts (fun c => c.toNat = 35 ∨ 46 ≤ c.toNat) (d.fromAlternate text) := by
  refine Starts.append ?_ ((d.starts_fromZero text).mono fun _ => .inr)
  unfold alternateText
  cases d.alternateForm with
  | false => exact .inl rfl
  | true => exact .inr ⟨_, _, rfl, .inl rfl⟩

/-- A character below the alignments or above them. -/
def Unaligned (c : UInt8) : Prop := c.toNat < 58 ∨ 97 < c.toNat

theorem lookup_of_unaligned {c : UInt8} (h : Unaligned c) : lookup alignTable c = none :=
  lookup_eq_none fun p hp => by
    simp only [alignTable, List.mem_cons, List.not_mem_nil, or_false] at hp
    unfold Unaligned at h
    rcases hp with rfl | rfl | rfl | rfl <;> rintro rfl <;> revert h <;> decide

theorem unaligned_of_isDigit {c : UInt8} (h : isDigit c = true) : Unaligned c := by
  unfold isDigit at h
  have hhigh := UInt8.le_iff_toNat_le.1 (decide_eq_true_iff.1 h).2
  have h9 : '9'.toUInt8.toNat = 57 := rfl
  unfold Unaligned
  omega

theorem unaligned_decimalText (n : SpelledNat) : ∀ c ∈ decimalText n.val, Unaligned c := by
  obtain ⟨c, ds, hcons, -, hdigits⟩ := decimalText_cons n
  rw [hcons]
  exact fun e he => unaligned_of_isDigit (hdigits e he)

/-- The components after the alignment, with the brace at the end. -/
def tail : List UInt8 :=
  d.signText ++ (d.alternateText ++ (d.zeroText ++ (d.widthText ++ (d.preciseText ++ (d.typeText ++ ['}'.toUInt8])))))

theorem fromSign_eq : d.fromSign text = d.tail ++ text := by
  simp [tail, fromSign, fromAlternate, fromZero, fromWidth, fromPrecise, fromType]

/-- None of their characters aligns. -/
theorem unaligned_tail : ∀ c ∈ d.tail, Unaligned c := by
  have hsign : ∀ c ∈ d.signText, Unaligned c := by
    unfold signText
    rcases d.sign with _ | ⟨_ | _ | _⟩ <;> simp [signSpelling, Unaligned] <;> decide
  have halternate : ∀ c ∈ d.alternateText, Unaligned c := by
    unfold alternateText
    cases d.alternateForm with
    | false => simp
    | true => exact List.forall_mem_singleton.2 (.inl (by decide))
  have hzero : ∀ c ∈ d.zeroText, Unaligned c := by
    unfold zeroText
    cases d.zeroPadding with
    | false => simp
    | true => exact List.forall_mem_singleton.2 (.inl (by decide))
  have hwidth : ∀ c ∈ d.widthText, Unaligned c := by
    unfold widthText
    cases d.minWidth with
    | none => simp
    | some n => exact unaligned_decimalText n
  have hprecise : ∀ c ∈ d.preciseText, Unaligned c := by
    unfold preciseText
    cases d.precise with
    | none => simp
    | some n =>
      exact List.forall_mem_cons.2 ⟨.inl (by decide), unaligned_decimalText n⟩
  have htype : ∀ c ∈ d.typeText ++ ['}'.toUInt8], Unaligned c := by
    refine List.forall_mem_cons.2 ⟨.inr (typeSpelling_ge d.type.val d.type.property), ?_⟩
    exact List.forall_mem_singleton.2 (.inr (by decide))
  unfold tail
  simp only [List.forall_mem_append] at *
  exact ⟨hsign, halternate, hzero, hwidth, hprecise, htype⟩

theorem startsUnaligned_fromSign : StartsUnaligned (d.fromSign text) := by
  have htwo : 2 ≤ d.tail.length := by
    unfold tail typeText
    simp only [List.length_append, List.length_cons, List.length_nil]
    omega
  have hall := d.unaligned_tail
  rw [fromSign_eq]
  match hcons : d.tail with
  | [] => simp [hcons] at htwo
  | [c] => simp [hcons] at htwo
  | c :: e :: l =>
    rw [hcons] at hall
    exact ⟨c, e, l ++ text, rfl, lookup_of_unaligned (hall c (by simp)), lookup_of_unaligned (hall e (by simp))⟩

/-- A descriptor is a short text. -/
theorem length_spelling : d.spelling.length ≤ 50 := by
  have hwidth : d.widthText.length ≤ 20 := by
    unfold widthText
    cases d.minWidth with
    | none => simp
    | some n => exact length_decimalText n
  have hprecise : d.preciseText.length ≤ 21 := by
    unfold preciseText
    cases d.precise with
    | none => simp
    | some n => exact Nat.succ_le_succ (length_decimalText n)
  have halign : d.alignText.length ≤ 2 := by
    unfold alignText fill
    rcases d.align with _ | ⟨_ | f, a⟩ <;> simp
  have hsign : d.signText.length ≤ 1 := by
    unfold signText
    cases d.sign <;> simp
  have hflag : ∀ (b : Bool) (c : UInt8), (if b then [c] else []).length ≤ 1 := by
    intro b c
    cases b <;> simp
  have halternate := hflag d.alternateForm '#'.toUInt8
  have hzero := hflag d.zeroPadding '0'.toUInt8
  simp only [spelling, alternateText, zeroText, typeText, List.length_append, List.length_cons, List.length_nil]
  omega

/-- What is read: the components, except that a colon is no fill character. -/
def readInfo : FmtInfo :=
  { d.info with fillChar := if d.fill = some ':'.toUInt8 then 0 else d.info.fillChar }

theorem readInfo_eq_iff : d.readInfo = d.info ↔ d.fill ≠ some ':'.toUInt8 := by
  unfold readInfo
  by_cases hfill : d.fill = some ':'.toUInt8
  · refine iff_of_false (fun h => ?_) (not_not.2 hfill)
    have hchar := congrArg FmtInfo.fillChar h
    have hcolon : d.info.fillChar = ':'.toUInt8 := by simp [info, hfill]
    rw [if_pos hfill, hcolon] at hchar
    exact absurd (show (0 : UInt8) = ':'.toUInt8 from hchar) (by decide)
  · rw [if_neg hfill]
    exact iff_of_true rfl hfill

/-- The stages set the components one after the other. -/
theorem readInfo_eq :
    { d.alignInfo {} with
      sign := d.sign.getD .neg, alternateForm := d.alternateForm, zeroPadding := d.zeroPadding
      minWidth := d.info.minWidth, precise := d.info.precise, type := d.type.val } = d.readInfo := by
  unfold readInfo alignInfo
  have hinfo : d.info.alignment = (d.align.map fun a => a.2.val).getD .default ∧ d.info.fillChar = d.fill.getD 0 :=
    ⟨rfl, rfl⟩
  unfold fill at *
  rcases halign : d.align with _ | ⟨_ | f, a⟩
  · simp [info, fill, halign]
  · simp [info, fill, halign]
  · by_cases hcolon : f.val = ':'.toUInt8 <;> simp [info, fill, halign, hcolon]

end Descriptor

/-! ## Reading a descriptor back -/

/-- **A descriptor is read**, wherever it stands in a format and whatever follows. -/
theorem getNextFmt_reads (d : Descriptor) {format : CString} {fmt : Nat} {text : List UInt8}
    (hat : format.chars.drop fmt = d.spelling ++ text) {fuel : Nat} (hfuel : d.spelling.length + 10 ≤ fuel) :
    getNextFmt fuel format fmt = .ok ⟨OK, d.readInfo, d.spelling.length, 0, false⟩ := by
  have hlen := d.length_spelling
  have hsplit : d.spelling.length = 2 + d.alignText.length + d.signText.length + d.alternateText.length +
      d.zeroText.length + d.widthText.length + d.preciseText.length + d.typeText.length + 1 := by
    simp only [Descriptor.spelling, List.length_append, List.length_cons, List.length_nil]
    omega
  rw [d.spelling_append] at hat
  -- where each component starts
  have h1 : format.chars.drop (fmt + 1) = ':'.toUInt8 :: (d.alignText ++ d.fromSign text) := drop_succ_of_cons hat
  have h2 : format.chars.drop (fmt + 2) = d.alignText ++ d.fromSign text := drop_succ_of_cons h1
  have h3 : format.chars.drop (fmt + _) = d.signText ++ d.fromAlternate text := drop_add_length h2
  have h4 : format.chars.drop (fmt + _) = d.alternateText ++ d.fromZero text := drop_add_length h3
  have h5 : format.chars.drop (fmt + _) = d.zeroText ++ d.fromWidth text := drop_add_length h4
  have h6 : format.chars.drop (fmt + _) = d.widthText ++ d.fromPrecise text := drop_add_length h5
  have h7 : format.chars.drop (fmt + _) = d.preciseText ++ d.fromType text := drop_add_length h6
  have h8 : format.chars.drop (fmt + _) = d.typeText ++ '}'.toUInt8 :: text := drop_add_length h7
  have h9 : format.chars.drop (fmt + _) = '}'.toUInt8 :: text := drop_add_length h8
  -- and how the scan gets from one to the next
  have r1 : Reaches format fmt 1 ⟨0, 0, {}, 0⟩ ⟨1, 1, {}, 0⟩ := by
    refine reaches_found hat ?_ (by decide)
    show checkStart format fmt {} = _
    unfold checkStart
    rw [CString.read_drop hat, ok_bind]
    rfl
  have r2 : Reaches format fmt 1 ⟨1, 1, {}, 0⟩ ⟨2, 2, {}, 0⟩ := by
    refine reaches_found h1 ?_ (by decide)
    show checkSpecifierStart format (fmt + 1) {} = _
    unfold checkSpecifierStart
    rw [CString.read_drop h1, ok_bind]
    rfl
  have hdefaults : (d.alignInfo {}).alternateForm = false ∧ (d.alignInfo {}).zeroPadding = false ∧
      (d.alignInfo {}).minWidth = 0 ∧ (d.alignInfo {}).precise = 0 ∧ (d.alignInfo {}).minwidthStart = none ∧
      (d.alignInfo {}).preciseStart = none ∧ (d.alignInfo {}).sign = .neg := by
    unfold Descriptor.alignInfo
    cases d.align <;> exact ⟨rfl, rfl, rfl, rfl, rfl, rfl, rfl⟩
  obtain ⟨halternate, hzero, hwidth, hprecise, hwidthStart, hpreciseStart, hsign⟩ := hdefaults
  have r3 := (r1.trans r2).trans (reaches_align d (Nat.add_succ fmt 1) h1 (d.startsUnaligned_fromSign text) (by decide))
  have r4 := r3.trans (reaches_sign d h3 (d.starts_fromAlternate text) (by omega))
  have r5 := r4.trans (reaches_alternate d h4 (d.starts_fromZero text) (by omega) halternate)
  have r6 := r5.trans (reaches_zero d h5 (d.starts_fromWidth text) (by omega) hzero)
  have r7 := r6.trans (reaches_width d h6 (d.starts_fromPrecise text) (by omega) hwidthStart hwidth)
  have r8 := r7.trans (reaches_precise d h7 (d.starts_fromType text) (by omega) hpreciseStart hprecise)
  obtain ⟨n, hn, hrun⟩ := r8.trans (reaches_type d h8 (by omega))
  obtain ⟨rest, rfl⟩ : ∃ rest, fuel = rest + 1 + n := ⟨fuel - 1 - n, by omega⟩
  dsimp only at hrun
  rw [hsign, d.readInfo_eq] at hrun
  unfold getNextFmt
  rw [hrun (rest + 1), iterate_end rest h9]
  congr 2
  omega

/-- **When a descriptor is read back.** For every choice of components, every text before and after it: the scan
returns all of them, with no literal and as many characters as the spelling has, if and only if the fill character is
not a colon. -/
theorem getNextFmt_spelled_iff (d : Descriptor) {format : CString} {fmt : Nat} {text : List UInt8}
    (hat : format.chars.drop fmt = d.spelling ++ text) {fuel : Nat} (hfuel : d.spelling.length + 10 ≤ fuel) :
    getNextFmt fuel format fmt = .ok ⟨OK, d.info, d.spelling.length, 0, false⟩ ↔ d.fill ≠ some ':'.toUInt8 := by
  rw [getNextFmt_reads d hat hfuel, ← d.readInfo_eq_iff]
  constructor
  · intro h
    exact congrArg NextFmt.info (Except.ok.inj h)
  · intro h
    rw [h]

/-- `{:*^+#08.3x}`. -/
def starDescriptor : Descriptor where
  align := some (some ⟨'*'.toUInt8, by decide⟩, ⟨.center, by decide⟩)
  sign := some .both
  alternateForm := true
  zeroPadding := true
  minWidth := some ⟨8, by decide⟩
  precise := some ⟨3, by decide⟩
  type := ⟨.lowHex, by decide⟩

def starFormat : CString := CString.ofString "{:*^+#08.3x} and more" (by decide) (by decide)

theorem starFormat_spelled :
    starFormat.chars.drop 0 = starDescriptor.spelling ++ starFormat.chars.drop starDescriptor.spelling.length := by
  decide +kernel

theorem getNextFmt_star :
    getNextFmt 30 starFormat 0 = .ok ⟨OK, starDescriptor.info, starDescriptor.spelling.length, 0, false⟩ :=
  (getNextFmt_spelled_iff starDescriptor starFormat_spelled (by decide +kernel)).2 (by decide)

/-- `{::<d}`: a decimal on the left, filled with colons. -/
def colonDescriptor : Descriptor where
  align := some (some ⟨':'.toUInt8, by decide⟩, ⟨.left, by decide⟩)
  sign := none
  alternateForm := false
  zeroPadding := false
  minWidth := none
  precise := none
  type := ⟨.dec, by decide⟩

/-- A colon is not read as a fill character. -/
theorem not_spelled_colon :
    ¬ ∀ (d : Descriptor) (format : CString) (text : List UInt8) (fuel : Nat), format.chars = d.spelling ++ text →
      d.spelling.length + 10 ≤ fuel →
      getNextFmt fuel format 0 = .ok ⟨OK, d.info, d.spelling.length, 0, false⟩ := by
  intro h
  have hat : (CString.ofString "{::<d}" (by decide) (by decide)).chars = colonDescriptor.spelling ++ [] := by
    decide +kernel
  have hdrop : List.drop 0 (CString.ofString "{::<d}" (by decide) (by decide)).chars = _ ++ [] := hat
  have hreads := getNextFmt_reads colonDescriptor hdrop (Nat.le_refl _)
  have hinfo := congrArg NextFmt.info (Except.ok.inj (hreads.symm.trans (h colonDescriptor _ [] _ hat (Nat.le_refl _))))
  exact absurd (colonDescriptor.readInfo_eq_iff.1 hinfo) (by decide)

end GunyahRuntime
