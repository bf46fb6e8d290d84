/-
# GunyahRuntime.Str.Alignment -- on which side the fill goes (`stringtoa` against `itoa`)

One enumeration of alignments serves numbers and strings: "align content to left, add padding to right", says `itoa`.
`stringtoa` counts the padding the same way and then puts it on the other side. That can be seen unless there is
nothing to put there, or the text is made of the fill character, which is what `stringtoa_aligned_iff` says. What
`itoa` does with the same descriptor is beside it: `NumberAligned` is `StringShown` for the text of a number.
-/
import GunyahRuntime.Str.Width

namespace GunyahRuntime

/-- What an alignment means for a padding: how much of it stands on the left, and how much on the right. -/
def Align.sides (cnt : Nat) : Align → Option (Nat × Nat)
  | .left => some (0, cnt)
  | .right => some (cnt, 0)
  | .center => some (cnt / 2, cnt - cnt / 2)
  | _ => none

/-- A string as its descriptor asks for it: its characters, up to the precision, with the fill on the sides that the
alignment gives, and as wide as it is to be. -/
structure StringShown (s : CString) (info : FmtInfo) (text : List UInt8) : Prop where
  width : text.length = max info.minWidth (strLen s info)
  sides : ∀ left right, info.alignment.sides (info.minWidth - strLen s info) = some (left, right) →
    text = List.replicate left (paddingChar info ' '.toUInt8) ++
      (s.chars.take (strLen s info) ++ List.replicate right (paddingChar info ' '.toUInt8))

/-- A number as its descriptor asks for it: sign, prefix and digits, with the fill on the sides that the alignment
gives, and as wide as it is to be. -/
structure NumberAligned (val base : Nat) (info : FmtInfo) (positive : Bool) (text : List UInt8) : Prop where
  width : text.length = max info.minWidth (naturalWidth val base info positive)
  sides : ∀ left right,
    info.alignment.sides (info.minWidth - naturalWidth val base info positive) = some (left, right) →
      text = List.replicate left (numberFill info) ++ ((signChar info positive).toList ++
        (prefixText info base).reverse ++ (digitsText base val).reverse ++ List.replicate right (numberFill info))

/-! ## Numbers -/

/-- An alignment to a side leaves no fill inside of the number. -/
theorem itoaPads_sides {info : FmtInfo} {base : Nat} {positive : Bool} {n left right : Nat}
    (h : info.alignment.sides (paddingCnt info base positive n) = some (left, right)) :
    (itoaPads info base positive n).left = left ∧ (itoaPads info base positive n).right = right ∧
      (itoaPads info base positive n).afterSign = 0 ∧ (itoaPads info base positive n).afterPrefix = 0 := by
  have hhalf := sub64_of_le (Nat.div_le_self (paddingCnt info base positive n) 2) (paddingCnt_lt info base positive n)
  unfold Align.sides at h
  unfold itoaPads
  dsimp only
  cases halign : info.alignment with
  | default => simp [halign] at h
  | afterSign => simp [halign] at h
  | left => simpa [halign] using h
  | right => simpa [halign] using h
  | center => simpa [halign, hhalf] using h

/-- The text of a number whose padding count does not wrap. -/
theorem numText_aligned {val base : Nat} (hbase : base ∈ [2, 8, 10, 16]) {info : FmtInfo} {positive : Bool}
    (hunder : ¬ PrefixUnderflows info base (digitsText base val).length)
    (hwidth : info.minWidth < 18446744073709551616)
    (hnatural : naturalWidth val base info positive < 18446744073709551616) :
    NumberAligned val base info positive (numText val base info positive).text := by
  have hsum : naturalWidth val base info positive = (digitsText base val).length +
      (if (signChar info positive).isSome then 1 else 0) + if info.alternateForm ∧ base ≠ 10 then 2 else 0 := rfl
  have hdigits : (digitsText base val).length < 18446744073709551616 := by omega
  obtain ⟨-, hcnt⟩ := paddingCnt_exact positive hunder hwidth hdigits
  rw [← hsum] at hcnt
  refine ⟨?_, fun left right hsides => ?_⟩
  · rw [length_numText val hbase, hcnt]
    omega
  · rw [← hcnt] at hsides
    obtain ⟨hleft, hright, hsign, hprefix⟩ := itoaPads_sides hsides
    obtain ⟨-, hchar⟩ := itoaPads_share info base positive (digitsText base val).length
    rw [numText_order, hleft, hright, hsign, hprefix, hchar]
    simp only [List.replicate_zero, List.append_nil, List.append_assoc]

/-- `itoa` puts the fill where the alignment says. -/
theorem OutBuf.Ok.itoa_aligned {o : OutBuf} (h : o.Ok) {val base : Nat} (hbase : base ∈ [2, 8, 10, 16])
    (hval : val < 18446744073709551616) {info : FmtInfo} {positive : Bool}
    (hunder : ¬ PrefixUnderflows info base (digitsText base val).length)
    (hroom : max info.minWidth (naturalWidth val base info positive) < o.cur.room) :
    ∃ text, itoa o val base info positive = .ok (o.put text, OK) ∧ NumberAligned val base info positive text := by
  have hbase' := hbase
  simp only [List.mem_cons, List.not_mem_nil, or_false] at hbase'
  have hlt := h.room_lt
  have haligned := numText_aligned hbase hunder (show info.minWidth < 18446744073709551616 by omega)
    (show naturalWidth val base info positive < 18446744073709551616 by omega)
  have hfit : (numText val base info positive).text.length < o.cur.room := haligned.width.symm ▸ hroom
  exact ⟨_, h.itoa_put (by omega) (by omega) hval info positive hfit, haligned⟩

/-! ## Fill on the other side -/

/-- A fill can be moved from one side of a text to the other exactly if there is none, or the text is made of it. -/
theorem replicate_append_comm_iff {α : Type*} (c : α) (p : Nat) (t : List α) :
    List.replicate p c ++ t = t ++ List.replicate p c ↔ p = 0 ∨ ∀ x ∈ t, x = c := by
  constructor
  · intro h
    rcases Nat.eq_zero_or_pos p with hp | hp
    · exact .inl hp
    · right
      induction t with
      | nil => simp
      | cons x t ih =>
        obtain ⟨q, rfl⟩ := Nat.exists_eq_succ_of_ne_zero hp.ne'
        rw [List.replicate_succ, List.cons_append, List.cons_append, List.cons.injEq] at h
        obtain ⟨rfl, h⟩ := h
        -- the fill that is left, and the character before the text, are the fill again
        have hshift : List.replicate (q + 1) c ++ t = t ++ List.replicate (q + 1) c := by
          rw [List.replicate_succ', List.append_assoc, List.singleton_append, h, ← List.replicate_succ',
            List.replicate_succ]
        exact List.forall_mem_cons.2 ⟨rfl, ih hshift⟩
  · rintro (rfl | h)
    · simp
    · obtain ⟨n, rfl⟩ : ∃ n, t = List.replicate n c := ⟨t.length, List.eq_replicate_of_mem h⟩
      rw [List.replicate_append_replicate, List.replicate_append_replicate, Nat.add_comm]

/-! ## Strings -/

theorem length_take_strLen (s : CString) (info : FmtInfo) :
    (s.chars.take (strLen s info)).length = strLen s info := by
  rw [List.length_take]
  exact Nat.min_eq_left (strLen_le s info)

/-- The padding of a string is what it falls short of its width. -/
theorem strPads_eq {s : CString} {info : FmtInfo} (hwidth : info.minWidth < 18446744073709551616) :
    strPads info (strLen s info) =
      match info.alignment with
      | .right => (0, info.minWidth - strLen s info)
      | .center => ((info.minWidth - strLen s info) / 2,
          info.minWidth - strLen s info - (info.minWidth - strLen s info) / 2)
      | _ => (info.minWidth - strLen s info, 0) := by
  have hs : strLen s info < 18446744073709551616 := Nat.lt_of_le_of_lt (strLen_le s info) s.fits
  have hcnt : sub64 (utilMax (strLen s info) info.minWidth) (strLen s info) = info.minWidth - strLen s info := by
    rw [utilMax_eq, sub64_of_le (Nat.le_max_left _ _) (Nat.max_lt.2 ⟨hs, hwidth⟩)]
    omega
  have hhalf : sub64 (info.minWidth - strLen s info) ((info.minWidth - strLen s info) / 2) =
      info.minWidth - strLen s info - (info.minWidth - strLen s info) / 2 :=
    sub64_of_le (Nat.div_le_self _ _) (by omega)
  unfold strPads
  dsimp only
  rw [hcnt, hhalf]
  cases info.alignment <;> rfl

theorem length_strText {s : CString} {info : FmtInfo} (hwidth : info.minWidth < 18446744073709551616) :
    (strText s info).length = max info.minWidth (strLen s info) := by
  unfold strText
  dsimp only
  rw [strPads_eq hwidth, List.length_append, List.length_append, List.length_replicate, List.length_replicate,
    length_take_strLen]
  cases info.alignment <;> dsimp only <;> omega

/-- Where the text of a string is the one that is asked for. -/
theorem strText_shown_iff {s : CString} {info : FmtInfo} (hwidth : info.minWidth < 18446744073709551616) :
    StringShown s info (strText s info) ↔
      (info.alignment ≠ .left ∧ info.alignment ≠ .right) ∨ info.minWidth ≤ strLen s info ∨
        ∀ x ∈ s.chars.take (strLen s info), x = paddingChar info ' '.toUInt8 := by
  have hmoved := replicate_append_comm_iff (paddingChar info ' '.toUInt8) (info.minWidth - strLen s info)
    (s.chars.take (strLen s info))
  rw [Nat.sub_eq_zero_iff_le] at hmoved
  have hshown : StringShown s info (strText s info) ↔
      ∀ left right, info.alignment.sides (info.minWidth - strLen s info) = some (left, right) →
        strText s info = List.replicate left (paddingChar info ' '.toUInt8) ++
          (s.chars.take (strLen s info) ++ List.replicate right (paddingChar info ' '.toUInt8)) :=
    ⟨fun h => h.sides, fun h => ⟨length_strText hwidth, h⟩⟩
  rw [hshown]
  unfold strText
  dsimp only
  rw [strPads_eq hwidth]
  unfold Align.sides
  cases info.alignment with
  | default => simp
  | afterSign => simp
  | center => simp
  | left => simpa using hmoved
  | right => simpa [eq_comm] using hmoved

theorem OutBuf.put_injective {o : OutBuf} (h : o.Ok) {l m : List UInt8} (hl : l.length ≤ o.cur.room)
    (hm : m.length ≤ o.cur.room) (heq : o.put l = o.put m) : l = m := by
  have hafter := h.after_put hl
  have hafter' := h.after_put hm
  rw [heq] at hafter
  exact List.append_cancel_left (hafter.written.symm.trans hafter'.written)

/-- **When strings and numbers are aligned alike.** For every string, descriptor and buffer with more room than the
string needs: `stringtoa` returns without error and leaves the string as wide as it is to be and with the fill on the
sides that the alignment gives, as `itoa` does with the same descriptor for every number whose padding count does not
wrap, if and only if the alignment is neither to the left nor to the right, there is nothing to fill, or the text is
made of the fill character. -/
theorem stringtoa_aligned_iff {o : OutBuf} (h : o.Ok) (strs : Nat → CString) {valStr : Nat} (hval : valStr ≠ 0)
    (info : FmtInfo) (hroom : max info.minWidth (strLen (strs valStr) info) < o.cur.room) :
    ((∃ text, stringtoa strs o valStr info = .ok (o.put text, OK) ∧ StringShown (strs valStr) info text) ∧
        ∀ (o' : OutBuf) (val base : Nat) (positive : Bool), o'.Ok → base ∈ [2, 8, 10, 16] →
          val < 18446744073709551616 → ¬ PrefixUnderflows info base (digitsText base val).length →
          max info.minWidth (naturalWidth val base info positive) < o'.cur.room →
          ∃ text, itoa o' val base info positive = .ok (o'.put text, OK) ∧
            NumberAligned val base info positive text) ↔
      (info.alignment ≠ .left ∧ info.alignment ≠ .right) ∨ info.minWidth ≤ strLen (strs valStr) info ∨
        ∀ x ∈ (strs valStr).chars.take (strLen (strs valStr) info), x = paddingChar info ' '.toUInt8 := by
  have hlt := h.room_lt
  have hwidth : info.minWidth < 18446744073709551616 := by omega
  have hlen : (strText (strs valStr) info).length < o.cur.room := by
    rw [length_strText hwidth]
    exact hroom
  have hrun := h.stringtoa_eq strs hval info
  rw [OutBuf.status_put_of_lt hlen] at hrun
  rw [and_iff_left fun _ _ _ _ ho' hbase hval' hunder hroom' => ho'.itoa_aligned hbase hval' hunder hroom',
    ← strText_shown_iff hwidth]
  constructor
  · rintro ⟨text, hrun', hshown⟩
    have hput := (Prod.mk.inj (Except.ok.inj (hrun.symm.trans hrun'))).1
    rwa [OutBuf.put_injective h hlen.le (by rw [hshown.width]; exact hroom.le) hput]
  · exact fun hshown => ⟨_, hrun, hshown⟩

/-- A string in the middle of six places. -/
def centered : FmtInfo := { type := .string, alignment := .center, minWidth := 6 }

def greeting : CString := CString.ofString "hi" (by decide) (by decide)

theorem stringtoa_aligned_center :
    (∃ text, stringtoa (fun _ => greeting) tenPlaces 4096 centered = .ok (tenPlaces.put text, OK) ∧
        StringShown greeting centered text) ∧
      ∃ text, itoa tenPlaces 42 10 centered true = .ok (tenPlaces.put text, OK) ∧
        NumberAligned 42 10 centered true text := by
  obtain ⟨hstring, hnumber⟩ := (stringtoa_aligned_iff tenPlaces_ok (fun _ => greeting)
    (show 4096 ≠ 0 by decide) centered (by decide)).2 (.inl (by decide))
  exact ⟨hstring, hnumber tenPlaces 42 10 true tenPlaces_ok (by decide) (by decide) (by decide +kernel)
    (by decide +kernel)⟩

/-- A string that is to stand on the left stands on the right. -/
theorem not_stringShown_left :
    ¬ ∀ (o : OutBuf) (strs : Nat → CString) (valStr : Nat) (info : FmtInfo), o.Ok → valStr ≠ 0 →
      max info.minWidth (strLen (strs valStr) info) < o.cur.room →
      ∃ text, stringtoa strs o valStr info = .ok (o.put text, OK) ∧ StringShown (strs valStr) info text := by
  intro h
  obtain ⟨text, hrun, hshown⟩ := h tenPlaces (fun _ => greeting) 4096
    { type := .string, alignment := .left, minWidth := 6 } tenPlaces_ok (by decide) (by decide)
  obtain rfl := hshown.sides 0 4 rfl
  rw [tenPlaces_ok.stringtoa_eq _ (by decide)] at hrun
  have hmem := congrArg (fun r : OutBuf × Int => r.1.cur.mem) (Except.ok.inj hrun)
  exact absurd hmem (by decide +kernel)

end GunyahRuntime
