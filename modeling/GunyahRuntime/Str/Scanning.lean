/-
# GunyahRuntime.Str.Scanning -- scanning ends, inside the format

A pass of `get_next_fmt` moves to the next character or hands the one it is at to the next stage, and there are ten
stages: so eleven passes for each character are enough. What the passes read lies between the first character and the
terminator, and the digits that were noted as the start of a number lie behind the one that is read. All of this is
`Scan.Good`, which every pass over a text keeps that is short enough for the index, of 32 bits.
-/
import GunyahRuntime.Str.Format

namespace GunyahRuntime

open Lib (Passes)

/-! ## The checks -/

/-- What the scan relies on in the answer of a check, at index `i` of the format. -/
structure CheckOk (stage i : Nat) (ret : RetToken) (info : FmtInfo) : Prop where
  moves : ret = .found → stage ≤ 8
  hands : ret = .nextStage → 2 ≤ stage ∧ stage ≤ 8
  starts : ∀ m, info.minwidthStart = some m ∨ info.preciseStart = some m → m ≤ i

/-- The starts of numbers lie behind the index. -/
def StartsBehind (info : FmtInfo) (i : Nat) : Prop :=
  ∀ m, info.minwidthStart = some m ∨ info.preciseStart = some m → m ≤ i

section Checks

variable {format : CString} {i : Nat} {info : FmtInfo}

theorem atodec_total (len : Nat) : ∀ (v i : Nat), i + len ≤ format.strlen → ∃ n, atodec format v i len = .ok n := by
  induction len with
  | zero => exact fun v _ _ => ⟨v, rfl⟩
  | succ len ih =>
    intro v i hle
    obtain ⟨c, hc⟩ := CString.read_total (show i ≤ format.strlen by omega)
    rw [atodec, hc, ok_bind]
    exact ih _ (i + 1) (by omega)

/-- A digit is scanned from where the number began. -/
theorem scanDigits_total (hi : i < format.strlen) {start : Option Nat} (hstart : ∀ m, start = some m → m ≤ i) :
    ∃ first v, scanDigits format i start = .ok (first, v) ∧ first ≤ i := by
  have hfirst : start.getD i ≤ i := by
    cases start with
    | none => exact Nat.le_refl i
    | some m => exact hstart m rfl
  have hfits : i < 18446744073709551616 := Nat.lt_trans hi format.fits
  obtain ⟨next, hnext⟩ := CString.read_total (show i + 1 ≤ format.strlen from hi)
  unfold scanDigits
  rw [hnext, ok_bind]
  by_cases hdigit : isDigit next = true
  · rw [if_pos hdigit]
    exact ⟨_, none, rfl, hfirst⟩
  · have hcnt : u64 (sub64 i (start.getD i) + 1) = i - start.getD i + 1 := by
      rw [sub64_of_le hfirst hfits, u64_of_lt]
      have := format.fits
      unfold CString.strlen at hi
      omega
    obtain ⟨v, hv⟩ := atodec_total (i - start.getD i + 1) 0 (start.getD i)
      (show _ ≤ format.strlen by omega)
    rw [if_neg hdigit, hcnt, hv, ok_bind]
    exact ⟨_, some v, rfl, hfirst⟩

theorem checkAlign_total (hi : i < format.strlen) (hbehind : 0 < i) (hstarts : StartsBehind info i) :
    ∃ ret info', checkAlign format i info = .ok (ret, info') ∧ CheckOk 2 i ret info' := by
  obtain ⟨next, hnext⟩ := CString.read_total (show i + 1 ≤ format.strlen from hi)
  obtain ⟨c, hc⟩ := CString.read_total hi.le
  obtain ⟨j, rfl⟩ := Nat.exists_eq_succ_of_ne_zero hbehind.ne'
  obtain ⟨prev, hprev⟩ := CString.read_total (show j ≤ format.strlen by omega)
  unfold checkAlign
  rw [hnext, ok_bind, hc, ok_bind]
  split
  · exact ⟨_, _, rfl, ⟨fun _ => by decide, fun _ => by decide, hstarts⟩⟩
  · cases lookup alignTable c with
    | none => exact ⟨_, _, rfl, ⟨fun _ => by decide, fun _ => by decide, hstarts⟩⟩
    | some a =>
      dsimp only
      rw [readPrev, hprev, ok_bind]
      exact ⟨_, _, rfl, ⟨fun _ => by decide, fun _ => by decide, hstarts⟩⟩

theorem checkMinwidth_total (hi : i < format.strlen) (hstarts : StartsBehind info i) :
    ∃ ret info', checkMinwidth format i info = .ok (ret, info') ∧ CheckOk 6 i ret info' := by
  obtain ⟨c, hc⟩ := CString.read_total hi.le
  unfold checkMinwidth
  rw [hc, ok_bind]
  split
  · obtain ⟨first, v, hscan, hfirst⟩ := scanDigits_total hi fun m hm => hstarts m (.inl hm)
    rw [hscan, ok_bind]
    cases v with
    | none =>
      refine ⟨_, _, rfl, ⟨fun _ => by decide, fun _ => by decide, fun m hm => ?_⟩⟩
      rcases hm with hm | hm
      · exact Option.some.inj hm ▸ hfirst
      · exact hstarts m (.inr hm)
    | some v =>
      refine ⟨_, _, rfl, ⟨fun _ => by decide, fun _ => by decide, fun m hm => ?_⟩⟩
      rcases hm with hm | hm
      · cases hm
      · exact hstarts m (.inr hm)
  · exact ⟨_, _, rfl, ⟨fun _ => by decide, fun _ => by decide, hstarts⟩⟩

theorem checkPrecise_total (hi : i < format.strlen) (hstarts : StartsBehind info i) :
    ∃ ret info', checkPrecise format i info = .ok (ret, info') ∧ CheckOk 7 i ret info' := by
  obtain ⟨c, hc⟩ := CString.read_total hi.le
  obtain ⟨b, hb⟩ : ∃ b, startsPrecise format i c = .ok b := by
    unfold startsPrecise
    split
    · obtain ⟨next, hnext⟩ := CString.read_total (show i + 1 ≤ format.strlen from hi)
      exact ⟨_, by rw [hnext, ok_bind]; rfl⟩
    · exact ⟨_, rfl⟩
  unfold checkPrecise
  rw [hc, ok_bind, hb, ok_bind]
  split
  · refine ⟨_, _, rfl, ⟨fun _ => by decide, fun _ => by decide, fun m hm => ?_⟩⟩
    rcases hm with hm | hm
    · exact hstarts m (.inl hm)
    · cases hm
  · split
    · obtain ⟨first, v, hscan, hfirst⟩ := scanDigits_total hi fun m hm => hstarts m (.inr hm)
      rw [hscan, ok_bind]
      cases v with
      | none =>
        refine ⟨_, _, rfl, ⟨fun _ => by decide, fun _ => by decide, fun m hm => ?_⟩⟩
        rcases hm with hm | hm
        · exact hstarts m (.inl hm)
        · exact Option.some.inj hm ▸ hfirst
      | some v =>
        refine ⟨_, _, rfl, ⟨fun _ => by decide, fun _ => by decide, fun m hm => ?_⟩⟩
        rcases hm with hm | hm
        · exact hstarts m (.inl hm)
        · cases hm
    · exact ⟨_, _, rfl, ⟨fun _ => by decide, fun _ => by decide, hstarts⟩⟩

/-- **Every check answers**, at a character that has one before it from the alignment on. -/
theorem checkToken_total {stage : Nat} (hstage : stage ≤ 9) (hi : i < format.strlen) (hbehind : 2 ≤ stage → 0 < i)
    (hstarts : StartsBehind info i) :
    ∃ ret info', checkToken stage format i info = .ok (ret, info') ∧ CheckOk stage i ret info' := by
  obtain ⟨c, hc⟩ := CString.read_total hi.le
  match stage, hstage with
  | 0, _ =>
    refine ⟨_, info, by show checkStart format i info = _; unfold checkStart; rw [hc, ok_bind]; rfl, ?_⟩
    exact ⟨fun _ => by decide, fun h => by (split at h <;> cases h), hstarts⟩
  | 1, _ =>
    refine ⟨_, info, by show checkSpecifierStart format i info = _; unfold checkSpecifierStart; rw [hc, ok_bind]; rfl, ?_⟩
    exact ⟨fun _ => by decide, fun h => by (split at h <;> cases h), hstarts⟩
  | 2, _ => exact checkAlign_total hi (hbehind (by decide)) hstarts
  | 3, _ =>
    show ∃ ret info', checkSign format i info = _ ∧ _
    unfold checkSign
    rw [hc, ok_bind]
    cases lookup signTable c with
    | none => exact ⟨_, _, rfl, ⟨fun _ => by decide, fun _ => by decide, hstarts⟩⟩
    | some sign => exact ⟨_, _, rfl, ⟨fun _ => by decide, fun _ => by decide, hstarts⟩⟩
  | 4, _ =>
    show ∃ ret info', checkAlternative format i info = _ ∧ _
    unfold checkAlternative
    rw [hc, ok_bind]
    split <;> exact ⟨_, _, rfl, ⟨fun _ => by decide, fun _ => by decide, hstarts⟩⟩
  | 5, _ =>
    show ∃ ret info', checkZeropadding format i info = _ ∧ _
    unfold checkZeropadding
    rw [hc, ok_bind]
    split <;> exact ⟨_, _, rfl, ⟨fun _ => by decide, fun _ => by decide, hstarts⟩⟩
  | 6, _ => exact checkMinwidth_total hi hstarts
  | 7, _ => exact checkPrecise_total hi hstarts
  | 8, _ =>
    show ∃ ret info', checkType format i info = _ ∧ _
    unfold checkType
    rw [hc, ok_bind]
    cases lookup typeTable c with
    | none => exact ⟨_, _, rfl, ⟨nofun, nofun, hstarts⟩⟩
    | some type => exact ⟨_, _, rfl, ⟨fun _ => by decide, nofun, hstarts⟩⟩
  | 9, _ =>
    refine ⟨_, info, by show checkEnd format i info = _; unfold checkEnd; rw [hc, ok_bind]; rfl, ?_⟩
    refine ⟨fun h => ?_, fun h => ?_, hstarts⟩ <;>
    · split at h
      · cases h
      · split at h <;> cases h

end Checks

/-! ## The scan -/

/-- What the scan keeps. From the alignment on there is a character before the index. -/
structure Scan.Good (format : CString) (fmt : Nat) (s : Scan) : Prop where
  inside : s.Inside format fmt
  stage : s.stage ≤ 9
  behind : 2 ≤ s.stage → 0 < s.idx
  starts : StartsBehind s.info (fmt + s.idx)

/-- The scan's first state. -/
def Scan.start : Scan := ⟨0, 0, {}, 0⟩

theorem Scan.start_good {format : CString} {fmt : Nat} (hfmt : fmt ≤ format.strlen) : Scan.start.Good format fmt :=
  ⟨⟨hfmt, hfmt⟩, by decide, fun h => absurd h (by decide), fun _ h => by rcases h with h | h <;> cases h⟩

/-- How many passes may still come. -/
def Scan.passesLeft (format : CString) (fmt : Nat) (s : Scan) : Nat :=
  11 * (format.strlen - (fmt + s.idx)) + (10 - s.stage)

section Scan

variable {format : CString} {fmt : Nat} {s : Scan}

/-- **One pass**: it reads inside the format, and finishes or goes on from a good state with fewer passes left. -/
theorem Scan.Good.pass (hs : s.Good format fmt) (hshort : format.strlen < fmt + 4294967296) :
    (∃ r : NextFmt, scanPass format fmt s = .ok (.inr r)) ∨
      ∃ s', scanPass format fmt s = .ok (.inl s') ∧ s'.Good format fmt ∧
        s'.passesLeft format fmt < s.passesLeft format fmt := by
  obtain ⟨hinside, hstage, hbehind, hstarts⟩ := hs
  obtain ⟨c, hc⟩ := CString.read_total hinside.idx
  by_cases hzero : c = 0
  · -- the terminator
    refine .inl ⟨s.terminated, ?_⟩
    unfold scanPass
    rw [hc, ok_bind, if_pos hzero]
    rfl
  · have hlt := CString.read_ne_zero hc hzero
    have hnext : u32 (s.idx + 1) = s.idx + 1 := u32_of_lt (by omega)
    obtain ⟨ret, info, hcheck, hok⟩ :=
      checkToken_total hstage hlt (fun h => by have := hbehind h; omega) hstarts
    have hkeeps := Scan.next_inside hinside hlt ret info
    have hpass : scanPass format fmt s = .ok (s.next ret info) := by
      unfold scanPass
      rw [hc, ok_bind, if_neg hzero, hcheck, ok_bind]
      rfl
    rw [hpass]
    cases ret with
    | nextChar =>
      refine .inr ⟨_, rfl, ⟨hkeeps, hstage, fun _ => ?_, fun m hm => ?_⟩, ?_⟩
      · dsimp only
        omega
      · have := hok.starts m hm
        dsimp only
        omega
      · unfold Scan.passesLeft
        dsimp only
        omega
    | nextStage =>
      obtain ⟨hlow, hhigh⟩ := hok.hands rfl
      refine .inr ⟨_, rfl, ⟨hkeeps, Nat.succ_le_succ hhigh, fun _ => hbehind hlow, hok.starts⟩, ?_⟩
      unfold Scan.passesLeft
      dsimp only
      omega
    | stop => exact .inl ⟨_, rfl⟩
    | found =>
      refine .inr ⟨_, rfl, ⟨hkeeps, Nat.succ_le_succ (hok.moves rfl), fun _ => ?_, fun m hm => ?_⟩, ?_⟩
      · dsimp only
        omega
      · have := hok.starts m hm
        dsimp only
        omega
      · unfold Scan.passesLeft
        dsimp only
        omega
    | error => exact .inl ⟨_, rfl⟩

/-- The states of a scan of a short text are good. -/
theorem Passes.good (hfmt : fmt ≤ format.strlen) (hshort : format.strlen < fmt + 4294967296)
    (h : Passes (scanPass format fmt) Scan.start s) : s.Good format fmt := by
  refine h.inv (Scan.Good format fmt) (Scan.start_good hfmt) fun s s' _ hgood hpass => ?_
  rcases hgood.pass hshort with ⟨r, hr⟩ | ⟨s'', hs'', hgood', -⟩
  · cases hr.symm.trans hpass
  · cases hs''.symm.trans hpass
    exact hgood'

/-- **A scan of a short text ends**, with eleven passes for each character that is left and eleven more. -/
theorem getNextFmt_short (hfmt : fmt ≤ format.strlen) (hshort : format.strlen < fmt + 4294967296) {fuel : Nat}
    (hfuel : 11 * (format.strlen + 1) ≤ fuel) : ∃ r, getNextFmt fuel format fmt = .ok r := by
  have hpass : ∀ s : Scan, s.Good format fmt → (∃ r, scanPass format fmt s = .ok (.inr r) ∧ True) ∨
      ∃ s', scanPass format fmt s = .ok (.inl s') ∧ s'.Good format fmt ∧
        s'.passesLeft format fmt < s.passesLeft format fmt := by
    intro s hs
    rcases hs.pass hshort with ⟨r, hr⟩ | hnext
    · exact .inl ⟨r, hr, trivial⟩
    · exact .inr hnext
  have hleft : Scan.start.passesLeft format fmt < fuel := by
    unfold Scan.passesLeft Scan.start
    dsimp only
    omega
  obtain ⟨r, hr, -⟩ := Lib.iterate_total _ (fun _ => True) _ hpass fuel Scan.start (Scan.start_good hfmt) hleft
  exact ⟨r, hr⟩

/-- What a finished scan reports: it consumed a segment that is not empty and holds the literal, or met the end. -/
structure NextFmt.Consumes (format : CString) (fmt : Nat) (r : NextFmt) : Prop where
  inside : r.Inside format fmt
  nonempty : r.ret = OK → r.atEnd = false → 0 < r.consumedLen

/-- **What a scan reports that returns**, whatever the length of the format. -/
theorem getNextFmt_consumes {fuel : Nat} {r : NextFmt} (hfmt : fmt ≤ format.strlen)
    (h : getNextFmt fuel format fmt = .ok r) : r.Consumes format fmt := by
  refine ⟨getNextFmt_inside hfmt h, ?_⟩
  refine Lib.iterate_post (fun _ => True) (fun r : NextFmt => r.ret = OK → r.atEnd = false → 0 < r.consumedLen) ?_
    fuel _ r trivial h
  intro s x _ hpass
  unfold scanPass at hpass
  obtain ⟨c, -, hpass⟩ := bind_eq_ok.1 hpass
  by_cases hzero : c = 0
  · rw [if_pos hzero] at hpass
    obtain rfl := Except.ok.inj hpass
    unfold Scan.terminated
    split <;> exact fun _ h => by cases h
  · rw [if_neg hzero] at hpass
    obtain ⟨⟨ret, info⟩, -, hpass⟩ := bind_eq_ok.1 hpass
    obtain rfl := Except.ok.inj hpass
    cases ret with
    | nextChar | nextStage | found => trivial
    | stop => exact fun _ _ => Nat.succ_pos _
    | error => exact fun h => absurd h (show ERROR_STRING_INVALID_FORMAT ≠ OK by decide)

end Scan

end GunyahRuntime
