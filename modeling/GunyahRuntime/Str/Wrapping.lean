/-
# GunyahRuntime.Str.Wrapping -- the scan of a format that an index cannot count

The places that a scan of a long text can be at are listed in `PlaceOf`, each with what has been read on the way there,
and `PlaceOf.leads` says of each what the next pass leads to: a fault if the text is not legible, an end if it is, or
another place. So a text is scanned (`Scannable.returns`), with no read outside (`Scannable.reads`), just if it is
`Scannable` (`scannable_of_ok`).
-/
import GunyahRuntime.Str.Text

namespace GunyahRuntime

open Lib (Passes)

/-! ## The places of a scan -/

section Places

variable (t : Nat → UInt8) (fmt brace colon q : Nat)

/-- Behind the alignment and the flags that end at `a`, the digits up to a point at `p`. -/
structure PointAt (a p : Nat) : Prop where
  align : AlignEnd t (colon + 1) a
  le : flagsEnd t a 3 ≤ p
  digits : Digits t (flagsEnd t a 3) p
  point : t p = '.'.toUInt8

/-- The places of a scan: a stage, an index, and the starts of numbers that are noted. Those that say so are reached
when the index has come round. -/
inductive PlaceOf : (stage idx : Nat) → (minwidthStart preciseStart : Option Nat) → Prop
  | opening {i : Nat} : i ≤ brace → PlaceOf 0 i none none
  | specifier {i : Nat} : brace < i → (∀ j, brace < j → j < i → t j ≠ ':'.toUInt8) → PlaceOf 1 i none none
  | specifierRound {i : Nat} : (∀ j, brace < j → j < 4294967296 → t j ≠ ':'.toUInt8) →
      (∀ j < i, t j ≠ ':'.toUInt8) → PlaceOf 1 i none none
  | align {i : Nat} : colon < i → Aligns t (colon + 2) (i + 1) → PlaceOf 2 i none none
  | alignRound {i : Nat} : Aligns t (colon + 2) 4294967297 → Aligns t 1 (i + 1) → PlaceOf 2 i none none
  | flags {k a : Nat} : k ≤ 3 → AlignEnd t (colon + 1) a → PlaceOf (3 + k) (flagsEnd t a k) none none
  | width {i a : Nat} : AlignEnd t (colon + 1) a → flagsEnd t a 3 ≤ i → Digits t (flagsEnd t a 3) (i + 1) →
      PlaceOf 6 i (some (fmt + flagsEnd t a 3)) none
  | widthRound {i a : Nat} : AlignEnd t (colon + 1) a → flagsEnd t a 3 < 4294967296 →
      Digits t (flagsEnd t a 3) 4294967297 → (0 < i → Digits t 0 (i + 1)) →
      PlaceOf 6 i (some (fmt + flagsEnd t a 3)) none
  | precise {i a : Nat} {m : Option Nat} : AlignEnd t (colon + 1) a → flagsEnd t a 3 ≤ i →
      Digits t (flagsEnd t a 3) i → isDigit (t i) = false → PlaceOf 7 i m none
  | point {a p : Nat} {m : Option Nat} : PointAt t colon a p → isDigit (t (p + 1)) = true → PlaceOf 7 (p + 1) m none
  | fraction {i a p : Nat} {m : Option Nat} : PointAt t colon a p → p < i → Digits t (p + 1) (i + 1) →
      PlaceOf 7 i m (some (fmt + (p + 1)))
  | fractionRound {i a p : Nat} {m : Option Nat} : PointAt t colon a p → p + 1 < 4294967296 →
      Digits t (p + 1) 4294967297 → (0 < i → Digits t 0 (i + 1)) → PlaceOf 7 i m (some (fmt + (p + 1)))
  | round {k i : Nat} {m n : Option Nat} : 3 ≤ k → k ≤ 7 → i ≤ q → Legible t fmt colon →
      (k ≤ 6 → ∀ x, m = some x → x ≤ fmt + i) → (∀ x, n = some x → x ≤ fmt + i) → PlaceOf k i m n
  | closing {k i : Nat} {m n : Option Nat} : 8 ≤ k → k ≤ 9 → Legible t fmt colon → PlaceOf k i m n

/-- The scan is at one of its places. -/
def Scan.AtPlace (s : Scan) : Prop :=
  s.idx < 4294967296 ∧ PlaceOf t fmt brace colon q s.stage s.idx s.info.minwidthStart s.info.preciseStart

/-- A place that the stage does not go past. -/
def stageEnd : Nat → Nat
  | 0 => brace
  | 1 => colon
  | 2 => q - 1
  | _ => q

/-- How many steps there are from one index to another, if need be over the last. -/
def stepsTo (i j : Nat) : Nat := if i ≤ j then j - i else j + 4294967296 - i

/-- How many passes may still come. -/
def Scan.stepsLeft (s : Scan) : Nat := (10 - s.stage) * 4294967297 + stepsTo s.idx (stageEnd brace colon q s.stage)

/-- What a pass of the scan leads to: a fault, for a descriptor that cannot be read; an end, for one that can; or a
place that is nearer to the end. -/
def PassLeads (format : CString) (s : Scan) : Prop :=
  (∃ e, scanPass format fmt s = .error e ∧ ¬ Legible t fmt colon) ∨
    (∃ r, scanPass format fmt s = .ok (.inr r) ∧ Legible t fmt colon) ∨
    ∃ s', scanPass format fmt s = .ok (.inl s') ∧ s'.AtPlace t fmt brace colon q ∧
      s'.stepsLeft brace colon q < s.stepsLeft brace colon q

end Places

section Pass

variable {format : CString} {t : Nat → UInt8} {fmt brace colon q k i lit : Nat} {info info' : FmtInfo}
  {m n : Option Nat}

theorem scanPass_answered (ht : LongText format fmt t) (hi : i < 4294967296) {ret : RetToken}
    (hcheck : checkToken k format (fmt + i) info = .ok (ret, info')) :
    scanPass format fmt ⟨i, k, info, lit⟩ = .ok (Scan.next ⟨i, k, info, lit⟩ ret info') := by
  unfold scanPass
  dsimp only
  rw [ht.reads i hi.le, ok_bind, if_neg (ht.nonzero i hi), hcheck]
  rfl

theorem scanPass_failed (ht : LongText format fmt t) (hi : i < 4294967296) {e : Fault}
    (hcheck : checkToken k format (fmt + i) info = .error e) : scanPass format fmt ⟨i, k, info, lit⟩ = .error e := by
  unfold scanPass
  dsimp only
  rw [ht.reads i hi.le, ok_bind, if_neg (ht.nonzero i hi), hcheck]
  rfl

theorem stepsTo_lt {i j : Nat} (hi : i < 4294967296) (hj : j < 4294967296) : stepsTo i j < 4294967296 := by
  unfold stepsTo
  split <;> omega

theorem stepsTo_next {i j : Nat} (hi : i < 4294967296) (hj : j < 4294967296) (hne : i ≠ j) :
    stepsTo (u32 (i + 1)) j < stepsTo i j := by
  unfold stepsTo u32
  split <;> split <;> omega

theorem stageEnd_lt (ho : OpensAt t brace colon) (hq : Stops t q) (k : Nat) : stageEnd brace colon q k < 4294967296 := by
  have hlt := hq.lt
  unfold stageEnd
  split
  · exact ho.brace_lt
  · exact ho.colon_lt
  · omega
  · exact hlt

/-- The next index, of 32 bits, with what is known if it counts on and if it comes round. -/
theorem u32_succ_cases {P : Nat → Prop} (hi : i < 4294967296) (hnext : i + 1 < 4294967296 → P (i + 1))
    (hround : i + 1 = 4294967296 → P 0) : P (u32 (i + 1)) := by
  rcases Nat.lt_or_ge (i + 1) 4294967296 with hlt | hge
  · rw [u32_of_lt hlt]
    exact hnext hlt
  · have heq : i + 1 = 4294967296 := by omega
    rw [heq]
    exact hround heq

/-- A point with no digit behind it. -/
theorem not_digit_of_point (h : ¬ (t i = '.'.toUInt8 ∧ isDigit (t (i + 1)) = true)) :
    t i = '.'.toUInt8 → isDigit (t (i + 1)) = false := by
  intro hpoint
  rw [and_iff_right hpoint, Bool.not_eq_true] at h
  exact h

section Round

variable (hfirst : 0 < i → Digits t 0 (i + 1))

include hfirst

/-- Digits that have come round are left at the first character only. -/
theorem eq_zero_of_round (h : isDigit (t i) = false) : i = 0 := by
  by_contra hne
  rw [hfirst (Nat.pos_of_ne_zero hne) i (Nat.zero_le i) (Nat.lt_succ_self i)] at h
  cases h

theorem digits_of_round (h : isDigit (t i) = true) : Digits t 0 (i + 1) := by
  rcases Nat.eq_zero_or_pos i with rfl | hpos
  · exact (digits_self 0).snoc h
  · exact hfirst hpos

end Round

/-- A number that starts here, or has started before. -/
theorem start_le {start : Option Nat} {j x : Nat} (h : ∀ y, start = some y → y ≤ j)
    (hx : some (start.getD j) = some x) : x ≤ j := by
  obtain rfl := Option.some.inj hx
  cases hstart : start with
  | none => exact Nat.le_refl j
  | some y => exact h y hstart

theorem PointAt.lt {a p : Nat} (h : PointAt t colon a p) (hp : p < 4294967296) :
    a ≤ 4294967296 ∧ colon + 1 < 4294967296 := by
  have hcolon := h.align.le
  have hale := le_flagsEnd t a 3
  have hle := h.le
  omega

section Leads

variable (ht : LongText format fmt t) (ho : OpensAt t brace colon) (hq : Stops t q) (hi : i < 4294967296)
include ht ho hq hi

theorem leads_nextChar (hcheck : checkToken k format (fmt + i) info = .ok (.nextChar, info'))
    (hne : i ≠ stageEnd brace colon q k)
    (hnext : i + 1 < 4294967296 → PlaceOf t fmt brace colon q k (i + 1) info'.minwidthStart info'.preciseStart)
    (hround : i + 1 = 4294967296 → PlaceOf t fmt brace colon q k 0 info'.minwidthStart info'.preciseStart) :
    PassLeads t fmt brace colon q format ⟨i, k, info, lit⟩ := by
  refine .inr (.inr ⟨_, scanPass_answered ht hi hcheck, ⟨u32_lt _, ?_⟩, ?_⟩)
  · exact u32_succ_cases (P := fun j => PlaceOf t fmt brace colon q k j info'.minwidthStart info'.preciseStart) hi
      hnext hround
  · have hlt := stepsTo_next hi (stageEnd_lt ho hq k) hne
    unfold Scan.stepsLeft
    dsimp only
    omega

theorem leads_found (hk : k ≤ 9) (hcheck : checkToken k format (fmt + i) info = .ok (.found, info'))
    (hnext : i + 1 < 4294967296 → PlaceOf t fmt brace colon q (k + 1) (i + 1) info'.minwidthStart info'.preciseStart)
    (hround : i + 1 = 4294967296 → PlaceOf t fmt brace colon q (k + 1) 0 info'.minwidthStart info'.preciseStart) :
    PassLeads t fmt brace colon q format ⟨i, k, info, lit⟩ := by
  refine .inr (.inr ⟨_, scanPass_answered ht hi hcheck, ⟨u32_lt _, ?_⟩, ?_⟩)
  · exact u32_succ_cases (P := fun j => PlaceOf t fmt brace colon q (k + 1) j info'.minwidthStart info'.preciseStart) hi
      hnext hround
  · have hlt := stepsTo_lt (u32_lt (i + 1)) (stageEnd_lt ho hq (k + 1))
    unfold Scan.stepsLeft
    dsimp only
    omega

theorem leads_nextStage (hk : k ≤ 9) (hcheck : checkToken k format (fmt + i) info = .ok (.nextStage, info'))
    (hnext : PlaceOf t fmt brace colon q (k + 1) i info'.minwidthStart info'.preciseStart) :
    PassLeads t fmt brace colon q format ⟨i, k, info, lit⟩ := by
  refine .inr (.inr ⟨_, scanPass_answered ht hi hcheck, ⟨hi, hnext⟩, ?_⟩)
  have hlt := stepsTo_lt hi (stageEnd_lt ho hq (k + 1))
  unfold Scan.stepsLeft
  dsimp only
  omega

end Leads

/-! ## One pass -/

section OnePass

variable (ht : LongText format fmt t) (ho : OpensAt t brace colon) (hq : Stops t q)
include ht ho hq

theorem opening_leads (h : i ≤ brace) (hm : info.minwidthStart = none) (hn : info.preciseStart = none) :
    PassLeads t fmt brace colon q format ⟨i, 0, info, lit⟩ := by
  have hlt := ho.brace_lt
  have hi := h.trans_lt hlt
  have hcheck := checkStart_long ht info hi
  by_cases hc : t i = '{'.toUInt8
  · obtain rfl : i = brace := by
      by_contra hne
      exact ho.brace_first i (Nat.lt_of_le_of_ne h hne) hc
    rw [if_pos hc] at hcheck
    refine leads_found ht ho hq hi (by decide) hcheck (fun _ => ?_) fun hround => ?_
    · rw [hm, hn]
      exact .specifier (Nat.lt_succ_self i) fun j hj hj' => by omega
    · rw [hm, hn]
      exact .specifierRound (fun j hj hj' => by omega) fun j hj => absurd hj (Nat.not_lt_zero j)
  · rw [if_neg hc] at hcheck
    have hne : i ≠ brace := fun heq => hc (heq ▸ ho.brace_eq)
    refine leads_nextChar ht ho hq hi hcheck hne (fun _ => ?_) fun hround => by omega
    rw [hm, hn]
    exact .opening (by omega)

/-- Behind the colon. -/
theorem colon_leads (hm : info.minwidthStart = none) (hn : info.preciseStart = none) :
    PassLeads t fmt brace colon q format ⟨colon, 1, info, lit⟩ := by
  have hi := ho.colon_lt
  have hcheck := checkSpecifierStart_long ht info hi
  rw [if_pos ho.colon_eq] at hcheck
  refine leads_found ht ho hq hi (by decide) hcheck (fun _ => ?_) fun hround => ?_
  · rw [hm, hn]
    exact .align (Nat.lt_succ_self colon) fun j hj hj' => by omega
  · rw [hm, hn]
    exact .alignRound (fun j hj hj' => by omega) fun j hj hj' => by omega

theorem specifier_leads (hi : i < 4294967296) (hbrace : brace < i)
    (hnone : ∀ j, brace < j → j < i → t j ≠ ':'.toUInt8) (hm : info.minwidthStart = none)
    (hn : info.preciseStart = none) : PassLeads t fmt brace colon q format ⟨i, 1, info, lit⟩ := by
  by_cases hc : t i = ':'.toUInt8
  · obtain rfl : i = colon := by
      rcases ho.colon_first with ⟨hlt, hfirst⟩ | ⟨-, hbehind, -⟩
      · rcases Nat.lt_trichotomy i colon with hic | heq | hci
        · exact absurd hc (hfirst i hbrace hic)
        · exact heq
        · exact absurd ho.colon_eq (hnone colon hlt hci)
      · exact absurd hc (hbehind i hbrace hi)
    exact colon_leads ht ho hq hm hn
  · have hcheck := checkSpecifierStart_long ht info hi
    rw [if_neg hc] at hcheck
    have hne : i ≠ colon := fun heq => hc (heq ▸ ho.colon_eq)
    have hmore : ∀ j, brace < j → j < i + 1 → t j ≠ ':'.toUInt8 := by
      intro j hj hji
      rcases Nat.lt_succ_iff_lt_or_eq.1 hji with hlt | rfl
      · exact hnone j hj hlt
      · exact hc
    refine leads_nextChar ht ho hq hi hcheck hne (fun _ => ?_) fun hround => ?_
    · rw [hm, hn]
      exact .specifier (by omega) hmore
    · rw [hm, hn]
      exact .specifierRound (fun j hj hj' => hmore j hj (by omega)) fun j hj => absurd hj (Nat.not_lt_zero j)

theorem specifierRound_leads (hi : i < 4294967296) (hbehind : ∀ j, brace < j → j < 4294967296 → t j ≠ ':'.toUInt8)
    (hnone : ∀ j < i, t j ≠ ':'.toUInt8) (hm : info.minwidthStart = none)
    (hn : info.preciseStart = none) : PassLeads t fmt brace colon q format ⟨i, 1, info, lit⟩ := by
  have hle : i ≤ colon := Nat.not_lt.1 fun hlt => hnone colon hlt ho.colon_eq
  rcases Nat.eq_or_lt_of_le hle with rfl | hlt
  · exact colon_leads ht ho hq hm hn
  · have hc : t i ≠ ':'.toUInt8 := by
      rcases ho.colon_first with ⟨hbrace, -⟩ | ⟨-, -, hfirst⟩
      · exact absurd ho.colon_eq (hbehind colon hbrace ho.colon_lt)
      · exact hfirst i hlt
    have hcheck := checkSpecifierStart_long ht info hi
    rw [if_neg hc] at hcheck
    have hcolon := ho.colon_lt
    refine leads_nextChar ht ho hq hi hcheck (Nat.ne_of_lt hlt) (fun _ => ?_) fun hround => by omega
    rw [hm, hn]
    refine .specifierRound hbehind fun j hj => ?_
    rcases Nat.lt_succ_iff_lt_or_eq.1 hj with hji | rfl
    · exact hnone j hji
    · exact hc

theorem align_leads (hi : i < 4294967296) (hcolon : colon < i) (haligns : Aligns t (colon + 2) (i + 1))
    (hm : info.minwidthStart = none) (hn : info.preciseStart = none) :
    PassLeads t fmt brace colon q format ⟨i, 2, info, lit⟩ := by
  obtain ⟨info', hcheck, hm', hn'⟩ := checkAlign_long ht info hi
  rw [hm] at hm'
  rw [hn] at hn'
  cases hnext : isAlign (t (i + 1)) with
  | true =>
    rw [if_pos hnext] at hcheck
    have hne : i ≠ q - 1 := by
      have hpos := hq.pos
      intro heq
      rw [heq, show q - 1 + 1 = q by omega, hq.isAlign] at hnext
      cases hnext
    refine leads_nextChar ht ho hq hi hcheck hne (fun _ => ?_) fun hround => ?_
    · rw [hm', hn']
      exact .align (by omega) (haligns.snoc hnext)
    · rw [hm', hn']
      have hall := haligns.snoc hnext
      rw [hround] at hall
      exact .alignRound hall fun j hj hj' => by omega
  | false =>
    rw [if_neg (by simp [hnext])] at hcheck
    cases hself : isAlign (t i) with
    | true =>
      rw [if_pos hself, if_neg (by omega)] at hcheck
      have hend : AlignEnd t (colon + 1) (i + 1) :=
        .inr ⟨by omega, haligns, hnext, fun heq => by rw [show colon + 1 = i by omega]; exact hself⟩
      refine leads_found ht ho hq hi (by decide) hcheck (fun _ => ?_) fun hround => ?_
      · rw [hm', hn']
        exact .flags (k := 0) (by decide) hend
      · rw [hm', hn']
        refine .round (by decide) (by decide) (Nat.zero_le q) (hend.legible (by omega) (by omega) fun _ hnumber => ?_)
          (fun _ _ h => by cases h) fun _ h => by cases h
        exact absurd ((le_flagsEnd t (i + 1) 3).trans_lt hnumber.lt) (by omega)
    | false =>
      rw [if_neg (by simp [hself])] at hcheck
      obtain rfl : colon + 1 = i := by
        by_contra hne
        rw [haligns i (by omega) (Nat.lt_succ_self i)] at hself
        cases hself
      refine leads_nextStage ht ho hq hi (by decide) hcheck ?_
      rw [hm', hn']
      exact .flags (k := 0) (by decide) (.inl ⟨rfl, hself, hnext⟩)

theorem alignRound_leads (hi : i < 4294967296) (haligns : Aligns t (colon + 2) 4294967297) (hround : Aligns t 1 (i + 1))
    (hm : info.minwidthStart = none) (hn : info.preciseStart = none) :
    PassLeads t fmt brace colon q format ⟨i, 2, info, lit⟩ := by
  have hiq : i < q := by
    by_contra hge
    have hpos := hq.pos
    have halign := hround q hpos (by omega)
    rw [hq.isAlign] at halign
    cases halign
  have hqlt := hq.lt
  obtain ⟨info', hcheck, hm', hn'⟩ := checkAlign_long ht info hi
  rw [hm] at hm'
  rw [hn] at hn'
  cases hnext : isAlign (t (i + 1)) with
  | true =>
    rw [if_pos hnext] at hcheck
    have hne : i ≠ q - 1 := by
      intro heq
      rw [heq, show q - 1 + 1 = q by omega, hq.isAlign] at hnext
      cases hnext
    refine leads_nextChar ht ho hq hi hcheck hne (fun _ => ?_) fun hlast => by omega
    rw [hm', hn']
    exact .alignRound haligns (hround.snoc hnext)
  | false =>
    rw [if_neg (by simp [hnext])] at hcheck
    -- the first character is the only one that can stand alone
    have hzero : isAlign (t 1) = false → i = 0 := by
      intro hone
      by_contra hne
      rw [hround 1 (Nat.le_refl 1) (by omega)] at hone
      cases hone
    cases hself : isAlign (t i) with
    | true =>
      rw [if_pos hself] at hcheck
      by_cases hstart : fmt + i = 0
      · rw [if_pos hstart] at hcheck
        obtain rfl : i = 0 := by omega
        exact .inl ⟨_, scanPass_failed ht hi hcheck, fun hlegible => hlegible.1 ⟨by omega, haligns, hself, hnext⟩⟩
      · rw [if_neg hstart] at hcheck
        have hlegible : Legible t fmt colon := haligns.legible fun hback => by
          obtain ⟨hfmt, -, -, hone⟩ := hback
          exact hstart (by rw [hfmt, hzero hone])
        refine leads_found ht ho hq hi (by decide) hcheck (fun _ => ?_) fun hlast => by omega
        rw [hm', hn']
        exact .round (by decide) (by decide) (by omega) hlegible (fun _ _ h => by cases h) fun _ h => by cases h
    | false =>
      rw [if_neg (by simp [hself])] at hcheck
      have hlegible : Legible t fmt colon := haligns.legible fun hback => by
        obtain ⟨-, -, hfirst, hone⟩ := hback
        rw [← hzero hone, hself] at hfirst
        cases hfirst
      refine leads_nextStage ht ho hq hi (by decide) hcheck ?_
      rw [hm', hn']
      exact .round (by decide) (by decide) hiq.le hlegible (fun _ _ h => by cases h) fun _ h => by cases h

theorem flag_leads (hk : k < 3) {a : Nat} (ha : AlignEnd t (colon + 1) a) (hi : flagsEnd t a k < 4294967296)
    (hm : info.minwidthStart = none) (hn : info.preciseStart = none) :
    PassLeads t fmt brace colon q format ⟨flagsEnd t a k, 3 + k, info, lit⟩ := by
  have hcolon := ha.le
  have hle := le_flagsEnd t a k
  obtain ⟨info', hcheck, hm', hn'⟩ := checkFlag_long ht info hi hk
  rw [hm] at hm'
  rw [hn] at hn'
  cases hflag : isFlag k (t (flagsEnd t a k)) with
  | true =>
    have hend : flagsEnd t a (k + 1) = flagsEnd t a k + 1 := if_pos hflag
    rw [if_pos hflag] at hcheck
    refine leads_found ht ho hq hi (by omega) hcheck (fun _ => ?_) fun hround => ?_
    · rw [hm', hn', ← hend]
      exact .flags (k := k + 1) hk ha
    · rw [hm', hn']
      refine .round (by omega) (by omega) (Nat.zero_le q) (ha.legible (by omega) (by omega) fun _ hnumber => ?_)
        (fun _ _ h => by cases h) fun _ h => by cases h
      exact absurd ((flagsEnd_mono t a (show k + 1 ≤ 3 from hk)).trans_lt hnumber.lt) (by omega)
  | false =>
    have hend : flagsEnd t a (k + 1) = flagsEnd t a k := if_neg (by simp [hflag])
    rw [if_neg (by simp [hflag])] at hcheck
    refine leads_nextStage ht ho hq hi (by omega) hcheck ?_
    rw [hm', hn', ← hend]
    exact .flags (k := k + 1) hk ha

/-- At a digit of the width, the first of them or another. -/
theorem digit_leads {a : Nat} (ha : AlignEnd t (colon + 1) a) (hi : i < 4294967296) (hle : flagsEnd t a 3 ≤ i)
    (hdigits : Digits t (flagsEnd t a 3) i) (hdigit : isDigit (t i) = true)
    (hstart : info.minwidthStart.getD (fmt + i) = fmt + flagsEnd t a 3) (hn : info.preciseStart = none) :
    PassLeads t fmt brace colon q format ⟨i, 6, info, lit⟩ := by
  have hcolon := ha.le
  have hale := le_flagsEnd t a 3
  cases hnext : isDigit (t (i + 1)) with
  | true =>
    have hne := hq.ne_of_isDigit hdigit
    refine leads_nextChar ht ho hq hi (checkMinwidth_more ht info hi hdigit hnext) hne (fun _ => ?_) fun hround => ?_
    · dsimp only
      rw [hstart, hn]
      exact .width ha (by omega) ((hdigits.snoc hdigit).snoc hnext)
    · dsimp only
      rw [hstart, hn]
      have hall := (hdigits.snoc hdigit).snoc hnext
      rw [hround] at hall
      exact .widthRound ha (by omega) hall fun h => absurd h (Nat.lt_irrefl 0)
  | false =>
    have hbehind : ∀ m, info.minwidthStart = some m → m ≤ fmt + i := by
      intro m hm
      rw [hm, Option.getD_some] at hstart
      omega
    obtain ⟨v, hcheck⟩ := checkMinwidth_last ht info hi hdigit hnext hbehind
    refine leads_found ht ho hq hi (by decide) hcheck (fun _ => ?_) fun hround => ?_
    · dsimp only
      rw [hn]
      exact .precise ha (by omega) (hdigits.snoc hdigit) hnext
    · dsimp only
      rw [hn]
      refine .round (by decide) (by decide) (Nat.zero_le q) (ha.legible (by omega) (by omega) fun _ hnumber => ?_)
        (fun h => absurd h (by decide)) fun _ h => by cases h
      obtain ⟨-, hlt, -⟩ := hnumber.pointed (by omega) (hdigits.snoc hdigit) hnext (by omega)
      omega

theorem number_leads {a : Nat} (ha : AlignEnd t (colon + 1) a) (hi : flagsEnd t a 3 < 4294967296)
    (hm : info.minwidthStart = none) (hn : info.preciseStart = none) :
    PassLeads t fmt brace colon q format ⟨flagsEnd t a 3, 6, info, lit⟩ := by
  cases hdigit : isDigit (t (flagsEnd t a 3)) with
  | true => exact digit_leads ht ho hq ha hi (Nat.le_refl _) (digits_self _) hdigit (by rw [hm]; rfl) hn
  | false =>
    refine leads_nextStage ht ho hq hi (by decide) (checkMinwidth_other ht info hi hdigit) ?_
    rw [hm, hn]
    exact .precise ha (Nat.le_refl _) (digits_self _) hdigit

theorem widthRound_leads {a : Nat} (ha : AlignEnd t (colon + 1) a) (hi : i < 4294967296)
    (hlt : flagsEnd t a 3 < 4294967296) (hall : Digits t (flagsEnd t a 3) 4294967297)
    (hfirst : 0 < i → Digits t 0 (i + 1)) (hm : info.minwidthStart = some (fmt + flagsEnd t a 3))
    (hn : info.preciseStart = none) :
    PassLeads t fmt brace colon q format ⟨i, 6, info, lit⟩ := by
  have hcolon := ha.le
  have hale := le_flagsEnd t a 3
  have hlong := ht.long
  have hqlt := hq.lt
  cases hdigit : isDigit (t i) with
  | false =>
    obtain rfl := eq_zero_of_round hfirst hdigit
    refine leads_nextStage ht ho hq hi (by decide) (checkMinwidth_other ht info hi hdigit) ?_
    rw [hm, hn]
    refine .round (by decide) (by decide) (Nat.zero_le q) (ha.legible (by omega) (by omega) fun hzero => ?_)
      (fun h => absurd h (by decide)) fun _ h => by cases h
    rw [hdigit] at hzero
    cases hzero
  | true =>
    have hround := digits_of_round hfirst hdigit
    have hiq := hq.not_digits (Nat.zero_le q) hround
    cases hnext : isDigit (t (i + 1)) with
    | true =>
      refine leads_nextChar ht ho hq hi (checkMinwidth_more ht info hi hdigit hnext)
        (show i ≠ q by omega) (fun _ => ?_) fun hlast => by omega
      dsimp only
      rw [hm, hn]
      exact .widthRound ha hlt hall fun _ => hround.snoc hnext
    | false =>
      -- between the digits that are read and where they began there is a character that is none
      have hqe : q < flagsEnd t a 3 := by
        by_contra hge
        have hle := hq.not_digits (Nat.not_lt.1 hge) hall
        omega
      have hcheck := checkMinwidth_overrun ht info hi hdigit hnext hm (by omega) (by omega)
      refine .inl ⟨_, scanPass_failed ht hi hcheck, fun hlegible => hlegible.2 ⟨?_, a, ha, .inl ⟨hlt, hall⟩⟩⟩
      exact hround 0 (Nat.le_refl 0) (Nat.succ_pos i)

/-- Behind the digits of the width. -/
theorem precise_leads {a : Nat} (ha : AlignEnd t (colon + 1) a) (hi : i < 4294967296) (hle : flagsEnd t a 3 ≤ i)
    (hdigits : Digits t (flagsEnd t a 3) i) (hend : isDigit (t i) = false) :
    PassLeads t fmt brace colon q format ⟨i, 7, info, lit⟩ := by
  have hcolon := ha.le
  have hale := le_flagsEnd t a 3
  by_cases hpoint : t i = '.'.toUInt8 ∧ isDigit (t (i + 1)) = true
  · have hne : i ≠ q := by
      rintro rfl
      exact hq.ne.1 hpoint.1
    refine leads_nextChar ht ho hq hi (checkPrecise_point ht info hi hpoint.1 hpoint.2) hne (fun _ => ?_)
      fun hround => ?_
    · exact .point ⟨ha, hle, hdigits, hpoint.1⟩ hpoint.2
    · refine .round (by decide) (by decide) (Nat.zero_le q) (ha.legible (by omega) (by omega) fun _ hnumber => ?_)
        (fun h => absurd h (by decide)) fun _ h => by cases h
      obtain ⟨-, hlt, -⟩ := hnumber.pointed hle hdigits hend hi.le
      omega
  · have hnext := not_digit_of_point hpoint
    refine leads_nextStage ht ho hq hi (by decide) (checkPrecise_other ht info hi hend hnext) ?_
    refine .closing (by decide) (by decide) (ha.legible (by omega) (by omega) fun _ hnumber => ?_)
    obtain ⟨hc, hlt, hrest⟩ := hnumber.pointed hle hdigits hend hi.le
    exact hpoint ⟨hc, hrest (i + 1) (Nat.le_refl _) (by omega)⟩

/-- At a digit of the precision, the first of them or another. -/
theorem fraction_leads {a p : Nat} (hp : PointAt t colon a p) (hi : i < 4294967296) (hle : p < i)
    (hdigits : Digits t (p + 1) i) (hdigit : isDigit (t i) = true)
    (hstart : info.preciseStart.getD (fmt + i) = fmt + (p + 1)) :
    PassLeads t fmt brace colon q format ⟨i, 7, info, lit⟩ := by
  cases hnext : isDigit (t (i + 1)) with
  | true =>
    have hne := hq.ne_of_isDigit hdigit
    refine leads_nextChar ht ho hq hi (checkPrecise_more ht info hi hdigit hnext) hne (fun _ => ?_) fun hround => ?_
    · dsimp only
      rw [hstart]
      exact .fraction hp (by omega) ((hdigits.snoc hdigit).snoc hnext)
    · dsimp only
      rw [hstart]
      have hall := (hdigits.snoc hdigit).snoc hnext
      rw [hround] at hall
      exact .fractionRound hp (by omega) hall fun h => absurd h (Nat.lt_irrefl 0)
  | false =>
    have hbehind : ∀ m, info.preciseStart = some m → m ≤ fmt + i := by
      intro m hm
      rw [hm, Option.getD_some] at hstart
      omega
    obtain ⟨v, hcheck⟩ := checkPrecise_last ht info hi hdigit hnext hbehind
    obtain ⟨hale, hcolon⟩ := hp.lt (show p < 4294967296 by omega)
    have hlegible : Legible t fmt colon := hp.align.legible hale hcolon fun _ hnumber => by
      have hpoint : isDigit (t p) = false := by
        rw [hp.point]
        exact isDigit_point
      obtain ⟨-, -, hrest⟩ := hnumber.pointed hp.le hp.digits hpoint (by omega)
      rw [hrest (i + 1) (by omega) (by omega)] at hnext
      cases hnext
    exact leads_found ht ho hq hi (by decide) hcheck (fun _ => .closing (by decide) (by decide) hlegible)
      fun _ => .closing (by decide) (by decide) hlegible

theorem fractionRound_leads {a p : Nat} (hp : PointAt t colon a p) (hi : i < 4294967296) (hlt : p + 1 < 4294967296)
    (hall : Digits t (p + 1) 4294967297) (hfirst : 0 < i → Digits t 0 (i + 1))
    (hn : info.preciseStart = some (fmt + (p + 1))) : PassLeads t fmt brace colon q format ⟨i, 7, info, lit⟩ := by
  obtain ⟨hale, hcolon⟩ := hp.lt (show p < 4294967296 by omega)
  have hlong := ht.long
  have hqlt := hq.lt
  have hqpos := hq.pos
  cases hdigit : isDigit (t i) with
  | false =>
    obtain rfl := eq_zero_of_round hfirst hdigit
    have hlegible : Legible t fmt colon := hp.align.legible hale hcolon fun hzero => by
      rw [hdigit] at hzero
      cases hzero
    by_cases hpoint : t 0 = '.'.toUInt8 ∧ isDigit (t (0 + 1)) = true
    · refine leads_nextChar ht ho hq hi (checkPrecise_point ht info hi hpoint.1 hpoint.2) (show 0 ≠ q by omega)
        (fun _ => ?_) fun hlast => by omega
      exact .round (by decide) (by decide) hqpos hlegible (fun h => absurd h (by decide)) fun _ h => by cases h
    · have hnext := not_digit_of_point hpoint
      exact leads_nextStage ht ho hq hi (by decide) (checkPrecise_other ht info hi hdigit hnext)
        (.closing (by decide) (by decide) hlegible)
  | true =>
    have hround := digits_of_round hfirst hdigit
    have hiq := hq.not_digits (Nat.zero_le q) hround
    cases hnext : isDigit (t (i + 1)) with
    | true =>
      refine leads_nextChar ht ho hq hi (checkPrecise_more ht info hi hdigit hnext)
        (show i ≠ q by omega) (fun _ => ?_) fun hlast => by omega
      dsimp only
      rw [hn]
      exact .fractionRound hp hlt hall fun _ => hround.snoc hnext
    | false =>
      have hqp : q < p + 1 := by
        by_contra hge
        have hle := hq.not_digits (Nat.not_lt.1 hge) hall
        omega
      have hcheck := checkPrecise_overrun ht info hi hdigit hnext hn (by omega) (by omega)
      have hruns : NumberRuns t (flagsEnd t a 3) := .inr ⟨p, hp.le, hlt, hp.digits, hp.point, hall⟩
      refine .inl ⟨_, scanPass_failed ht hi hcheck, fun hlegible => hlegible.2 ⟨?_, a, hp.align, hruns⟩⟩
      exact hround 0 (Nat.le_refl 0) (Nat.succ_pos i)

/-! ### Once the index has come round -/

theorem roundFlag_leads (hk : k < 3) (hi : i ≤ q) (hlegible : Legible t fmt colon)
    (hm : ∀ x, info.minwidthStart = some x → x ≤ fmt + i) (hn : ∀ x, info.preciseStart = some x → x ≤ fmt + i) :
    PassLeads t fmt brace colon q format ⟨i, 3 + k, info, lit⟩ := by
  have hqlt := hq.lt
  have hlt : i < 4294967296 := by omega
  obtain ⟨info', hcheck, hm', hn'⟩ := checkFlag_long ht info hlt hk
  cases hflag : isFlag k (t i) with
  | true =>
    have hne : i ≠ q := by
      rintro rfl
      rw [hq.isFlag hk] at hflag
      cases hflag
    rw [if_pos hflag] at hcheck
    refine leads_found ht ho hq hlt (by omega) hcheck (fun _ => ?_) fun hround => by omega
    rw [hm', hn']
    exact .round (by omega) (by omega) (by omega) hlegible (fun _ x hx => (hm x hx).trans (by omega))
      fun x hx => (hn x hx).trans (by omega)
  | false =>
    rw [if_neg (by simp [hflag])] at hcheck
    refine leads_nextStage ht ho hq hlt (by omega) hcheck ?_
    rw [hm', hn']
    exact .round (by omega) (by omega) hi hlegible (fun _ => hm) hn

theorem roundWidth_leads (hi : i ≤ q) (hlegible : Legible t fmt colon)
    (hm : ∀ x, info.minwidthStart = some x → x ≤ fmt + i) (hn : ∀ x, info.preciseStart = some x → x ≤ fmt + i) :
    PassLeads t fmt brace colon q format ⟨i, 6, info, lit⟩ := by
  have hqlt := hq.lt
  have hlt : i < 4294967296 := by omega
  cases hdigit : isDigit (t i) with
  | false =>
    refine leads_nextStage ht ho hq hlt (by decide) (checkMinwidth_other ht info hlt hdigit) ?_
    exact .round (by decide) (by decide) hi hlegible (fun h => absurd h (by decide)) hn
  | true =>
    have hne := hq.ne_of_isDigit hdigit
    cases hnext : isDigit (t (i + 1)) with
    | true =>
      refine leads_nextChar ht ho hq hlt (checkMinwidth_more ht info hlt hdigit hnext) hne (fun _ => ?_)
        fun hround => by omega
      refine .round (by decide) (by decide) (by omega) hlegible (fun _ x hx => ?_)
        fun x hx => (hn x hx).trans (by omega)
      exact (start_le hm hx).trans (by omega)
    | false =>
      obtain ⟨v, hcheck⟩ := checkMinwidth_last ht info hlt hdigit hnext hm
      refine leads_found ht ho hq hlt (by decide) hcheck (fun _ => ?_) fun hround => by omega
      exact .round (by decide) (by decide) (by omega) hlegible (fun h => absurd h (by decide))
        fun x hx => (hn x hx).trans (by omega)

theorem roundPrecise_leads (hi : i ≤ q) (hlegible : Legible t fmt colon)
    (hn : ∀ x, info.preciseStart = some x → x ≤ fmt + i) :
    PassLeads t fmt brace colon q format ⟨i, 7, info, lit⟩ := by
  have hqlt := hq.lt
  have hlt : i < 4294967296 := by omega
  cases hdigit : isDigit (t i) with
  | false =>
    by_cases hpoint : t i = '.'.toUInt8 ∧ isDigit (t (i + 1)) = true
    · have hne : i ≠ q := by
        rintro rfl
        exact hq.ne.1 hpoint.1
      refine leads_nextChar ht ho hq hlt (checkPrecise_point ht info hlt hpoint.1 hpoint.2) hne (fun _ => ?_)
        fun hround => by omega
      exact .round (by decide) (by decide) (by omega) hlegible (fun h => absurd h (by decide)) fun _ h => by cases h
    · have hnext := not_digit_of_point hpoint
      exact leads_nextStage ht ho hq hlt (by decide) (checkPrecise_other ht info hlt hdigit hnext)
        (.closing (by decide) (by decide) hlegible)
  | true =>
    have hne := hq.ne_of_isDigit hdigit
    cases hnext : isDigit (t (i + 1)) with
    | true =>
      refine leads_nextChar ht ho hq hlt (checkPrecise_more ht info hlt hdigit hnext) hne (fun _ => ?_)
        fun hround => by omega
      refine .round (by decide) (by decide) (by omega) hlegible (fun h => absurd h (by decide)) fun x hx => ?_
      exact (start_le hn hx).trans (by omega)
    | false =>
      obtain ⟨v, hcheck⟩ := checkPrecise_last ht info hlt hdigit hnext hn
      exact leads_found ht ho hq hlt (by decide) hcheck (fun _ => .closing (by decide) (by decide) hlegible)
        fun _ => .closing (by decide) (by decide) hlegible

/-! ### The type and the end -/

theorem closing_leads (hi : i < 4294967296) (hk : 8 ≤ k) (hk' : k ≤ 9) (hlegible : Legible t fmt colon) :
    PassLeads t fmt brace colon q format ⟨i, k, info, lit⟩ := by
  obtain rfl | rfl : k = 8 ∨ k = 9 := by omega
  · obtain ⟨ret, info', hcheck, rfl | rfl⟩ := checkType_long ht info hi
    · exact leads_found ht ho hq hi (by decide) hcheck (fun _ => .closing (by decide) (by decide) hlegible)
        fun _ => .closing (by decide) (by decide) hlegible
    · exact .inr (.inl ⟨_, scanPass_answered ht hi hcheck, hlegible⟩)
  · have hcheck := checkEnd_long ht info hi
    by_cases hblank : t i = ' '.toUInt8
    · have hne : i ≠ q := by
        rintro rfl
        exact hq.ne.2 hblank
      rw [if_pos hblank] at hcheck
      exact leads_nextChar ht ho hq hi hcheck hne (fun _ => .closing (by decide) (by decide) hlegible)
        fun _ => .closing (by decide) (by decide) hlegible
    · rw [if_neg hblank] at hcheck
      by_cases hbrace : t i = '}'.toUInt8
      · rw [if_pos hbrace] at hcheck
        exact .inr (.inl ⟨_, scanPass_answered ht hi hcheck, hlegible⟩)
      · rw [if_neg hbrace] at hcheck
        exact .inr (.inl ⟨_, scanPass_answered ht hi hcheck, hlegible⟩)

/-- **What a pass leads to**, from every place. -/
theorem PlaceOf.leads (h : PlaceOf t fmt brace colon q k i m n) (hi : i < 4294967296) (hm : info.minwidthStart = m)
    (hn : info.preciseStart = n) : PassLeads t fmt brace colon q format ⟨i, k, info, lit⟩ := by
  cases h with
  | opening hle => exact opening_leads ht ho hq hle hm hn
  | specifier hbrace hnone => exact specifier_leads ht ho hq hi hbrace hnone hm hn
  | specifierRound hbehind hnone => exact specifierRound_leads ht ho hq hi hbehind hnone hm hn
  | align hcolon haligns => exact align_leads ht ho hq hi hcolon haligns hm hn
  | alignRound haligns hround => exact alignRound_leads ht ho hq hi haligns hround hm hn
  | @flags k a hk ha =>
    rcases Nat.lt_or_eq_of_le hk with hlt | rfl
    · exact flag_leads ht ho hq hlt ha hi hm hn
    · exact number_leads ht ho hq ha hi hm hn
  | width ha hle hdigits =>
    refine digit_leads ht ho hq ha hi hle (fun x hx hxi => hdigits x hx (Nat.lt_succ_of_lt hxi))
      (hdigits i hle (Nat.lt_succ_self i)) ?_ hn
    rw [hm]
    rfl
  | widthRound ha hlt hall hfirst => exact widthRound_leads ht ho hq ha hi hlt hall hfirst hm hn
  | precise ha hle hdigits hend => exact precise_leads ht ho hq ha hi hle hdigits hend
  | point hp hdigit =>
    refine fraction_leads ht ho hq hp hi (Nat.lt_succ_self _) (digits_self _) hdigit ?_
    rw [hn]
    rfl
  | fraction hp hle hdigits =>
    refine fraction_leads ht ho hq hp hi hle (fun x hx hxi => hdigits x hx (Nat.lt_succ_of_lt hxi))
      (hdigits i hle (Nat.lt_succ_self i)) ?_
    rw [hn]
    rfl
  | fractionRound hp hlt hall hfirst => exact fractionRound_leads ht ho hq hp hi hlt hall hfirst hn
  | round hk hk' hle hlegible hstart hstart' =>
    rw [← hm] at hstart
    rw [← hn] at hstart'
    obtain hlt | rfl | rfl : k < 6 ∨ k = 6 ∨ k = 7 := by omega
    · obtain ⟨j, rfl⟩ := Nat.exists_eq_add_of_le hk
      exact roundFlag_leads ht ho hq (by omega) hle hlegible (hstart hlt.le) hstart'
    · exact roundWidth_leads ht ho hq hle hlegible (hstart (Nat.le_refl 6)) hstart'
    · exact roundPrecise_leads ht ho hq hle hlegible hstart'
  | closing hk hk' hlegible => exact closing_leads ht ho hq hi hk hk' hlegible

end OnePass

end Pass

/-! ## Which texts are scanned -/

section Scannable

variable {format : CString} {t : Nat → UInt8} {fmt : Nat}

theorem exists_opens (hbrace : ∃ j < 4294967296, t j = '{'.toUInt8) (hcolon : ∃ j < 4294967296, t j = ':'.toUInt8) :
    ∃ brace colon, OpensAt t brace colon := by
  classical
  obtain ⟨hlt, heq⟩ := Nat.find_spec hbrace
  have hfirst : ∀ j < Nat.find hbrace, t j ≠ '{'.toUInt8 := fun j hj hc => Nat.find_min hbrace hj ⟨hj.trans hlt, hc⟩
  by_cases hbehind : ∃ j, Nat.find hbrace < j ∧ j < 4294967296 ∧ t j = ':'.toUInt8
  · obtain ⟨hafter, hlt', heq'⟩ := Nat.find_spec hbehind
    exact ⟨_, _, hlt, heq, hfirst, hlt', heq', .inl ⟨hafter, fun j hj hj' hc =>
      Nat.find_min hbehind hj' ⟨hj, hj'.trans hlt', hc⟩⟩⟩
  · obtain ⟨hlt', heq'⟩ := Nat.find_spec hcolon
    have hnone : ∀ j, Nat.find hbrace < j → j < 4294967296 → t j ≠ ':'.toUInt8 := fun j hj hj' hc =>
      hbehind ⟨j, hj, hj', hc⟩
    have hne : Nat.find hcolon ≠ Nat.find hbrace := fun h => by
      rw [h, heq] at heq'
      exact absurd heq' (by decide)
    have hnot : ¬ Nat.find hbrace < Nat.find hcolon := fun h => hnone _ h hlt' heq'
    exact ⟨_, _, hlt, heq, hfirst, hlt', heq', .inr ⟨by omega, hnone, fun j hj hc =>
      Nat.find_min hcolon hj ⟨hj.trans hlt', hc⟩⟩⟩

/-- Without a brace or a colon the scan of a long text stays in the first two stages. -/
theorem getNextFmt_unopened (ht : LongText format fmt t)
    (hnone : (∀ j < 4294967296, t j ≠ '{'.toUInt8) ∨ ∀ j < 4294967296, t j ≠ ':'.toUInt8) (fuel : Nat) :
    ¬ ∃ r, getNextFmt fuel format fmt = .ok r := by
  rintro ⟨r, hr⟩
  refine Lib.iterate_post (fun s : Scan => s.idx < 4294967296 ∧
    (s.stage = 0 ∨ s.stage = 1 ∧ ∀ j < 4294967296, t j ≠ ':'.toUInt8)) (fun _ => False) ?_ fuel _ r
    ⟨by decide, .inl rfl⟩ hr
  rintro ⟨i, k, info, lit⟩ x ⟨hi, hstage⟩ hpass
  dsimp only at hi hstage
  rcases hstage with rfl | ⟨rfl, hcolon⟩
  · have hcheck := checkStart_long ht info hi
    by_cases hc : t i = '{'.toUInt8
    · rw [if_pos hc] at hcheck
      obtain rfl := Except.ok.inj ((scanPass_answered ht hi hcheck).symm.trans hpass)
      exact ⟨u32_lt _, .inr ⟨rfl, hnone.resolve_left fun hbrace => hbrace i hi hc⟩⟩
    · rw [if_neg hc] at hcheck
      obtain rfl := Except.ok.inj ((scanPass_answered ht hi hcheck).symm.trans hpass)
      exact ⟨u32_lt _, .inl rfl⟩
  · have hcheck := checkSpecifierStart_long ht info hi
    rw [if_neg (hcolon i hi)] at hcheck
    obtain rfl := Except.ok.inj ((scanPass_answered ht hi hcheck).symm.trans hpass)
    exact ⟨u32_lt _, .inr ⟨rfl, hcolon⟩⟩

/-- A scan of a long text is at its places. -/
theorem AtPlace.leads {brace colon q : Nat} (ht : LongText format fmt t) (ho : OpensAt t brace colon) (hq : Stops t q)
    {s : Scan} (hs : s.AtPlace t fmt brace colon q) : PassLeads t fmt brace colon q format s :=
  hs.2.leads ht ho hq hs.1 rfl rfl

theorem Scan.start_atPlace (brace colon q : Nat) : Scan.start.AtPlace t fmt brace colon q :=
  ⟨by decide, .opening (Nat.zero_le brace)⟩

/-- **A scannable text is scanned**, with eleven passes for each character that is left and eleven more. -/
theorem Scannable.returns (h : Scannable format fmt) (hfmt : fmt ≤ format.strlen) {fuel : Nat}
    (hfuel : 11 * (format.strlen + 1) ≤ fuel) : ∃ r, getNextFmt fuel format fmt = .ok r := by
  rcases Nat.lt_or_ge format.strlen (fmt + 4294967296) with hshort | hlong
  · exact getNextFmt_short hfmt hshort hfuel
  obtain ⟨brace, colon, ho, hlegible⟩ := h.resolve_left (Nat.not_lt.2 hlong)
  obtain ⟨q, hq⟩ := ho.stops
  have ht := textFrom_long hlong
  have hpass : ∀ s : Scan, s.AtPlace (textFrom format fmt) fmt brace colon q →
      (∃ r, scanPass format fmt s = .ok (.inr r) ∧ True) ∨
        ∃ s', scanPass format fmt s = .ok (.inl s') ∧ s'.AtPlace (textFrom format fmt) fmt brace colon q ∧
          s'.stepsLeft brace colon q < s.stepsLeft brace colon q := by
    intro s hs
    rcases AtPlace.leads ht ho hq hs with ⟨e, -, hnot⟩ | ⟨r, hr, -⟩ | hnext
    · exact absurd hlegible hnot
    · exact .inl ⟨r, hr, trivial⟩
    · exact .inr hnext
  have hleft : Scan.start.stepsLeft brace colon q < fuel := by
    have hlt := stepsTo_lt (show 0 < 4294967296 by decide) (stageEnd_lt ho hq 0)
    unfold Scan.stepsLeft Scan.start
    dsimp only
    omega
  obtain ⟨r, hr, -⟩ := Lib.iterate_total _ (fun _ => True) _ hpass fuel Scan.start
    (Scan.start_atPlace brace colon q) hleft
  exact ⟨r, hr⟩

/-- **Only a scannable text is scanned.** -/
theorem scannable_of_ok {fuel : Nat} {r : NextFmt} (h : getNextFmt fuel format fmt = .ok r) : Scannable format fmt := by
  rcases Nat.lt_or_ge format.strlen (fmt + 4294967296) with hshort | hlong
  · exact .inl hshort
  have ht := textFrom_long hlong
  have hbrace : ∃ j < 4294967296, textFrom format fmt j = '{'.toUInt8 := by
    by_contra hnone
    push Not at hnone
    exact getNextFmt_unopened ht (.inl hnone) fuel ⟨r, h⟩
  have hcolon : ∃ j < 4294967296, textFrom format fmt j = ':'.toUInt8 := by
    by_contra hnone
    push Not at hnone
    exact getNextFmt_unopened ht (.inr hnone) fuel ⟨r, h⟩
  obtain ⟨brace, colon, ho⟩ := exists_opens hbrace hcolon
  obtain ⟨q, hq⟩ := ho.stops
  refine .inr ⟨brace, colon, ho, ?_⟩
  refine Lib.iterate_post (Scan.AtPlace (textFrom format fmt) fmt brace colon q)
    (fun _ => Legible (textFrom format fmt) fmt colon) (fun s x hs hpass => ?_) fuel _ r
    (Scan.start_atPlace brace colon q) h
  rcases AtPlace.leads ht ho hq hs with ⟨e, he, -⟩ | ⟨r, hr, hlegible⟩ | ⟨s', hs', hplace, -⟩
  · cases he.symm.trans hpass
  · obtain rfl := Except.ok.inj (hr.symm.trans hpass)
    exact hlegible
  · obtain rfl := Except.ok.inj (hs'.symm.trans hpass)
    exact hplace

/-- Every pass of a scan over a scannable text reads inside it. -/
theorem Scannable.reads (h : Scannable format fmt) (hfmt : fmt ≤ format.strlen) {s : Scan}
    (hs : Passes (scanPass format fmt) Scan.start s) : ∃ x, scanPass format fmt s = .ok x := by
  rcases Nat.lt_or_ge format.strlen (fmt + 4294967296) with hshort | hlong
  · rcases (Passes.good hfmt hshort hs).pass hshort with ⟨r, hr⟩ | ⟨s', hs', -⟩
    · exact ⟨_, hr⟩
    · exact ⟨_, hs'⟩
  obtain ⟨brace, colon, ho, hlegible⟩ := h.resolve_left (Nat.not_lt.2 hlong)
  obtain ⟨q, hq⟩ := ho.stops
  have ht := textFrom_long hlong
  have hplace : s.AtPlace (textFrom format fmt) fmt brace colon q := by
    refine hs.inv (Scan.AtPlace (textFrom format fmt) fmt brace colon q) (Scan.start_atPlace brace colon q)
      fun s s' _ hs hpass => ?_
    rcases AtPlace.leads ht ho hq hs with ⟨e, he, -⟩ | ⟨r, hr, -⟩ | ⟨s'', hs'', hplace, -⟩
    · cases he.symm.trans hpass
    · cases hr.symm.trans hpass
    · cases hs''.symm.trans hpass
      exact hplace
  rcases AtPlace.leads ht ho hq hplace with ⟨e, -, hnot⟩ | ⟨r, hr, -⟩ | ⟨s', hs', -⟩
  · exact absurd hlegible hnot
  · exact ⟨_, hr⟩
  · exact ⟨_, hs'⟩

end Scannable

end GunyahRuntime
