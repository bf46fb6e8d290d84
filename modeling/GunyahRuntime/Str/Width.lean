/-
# GunyahRuntime.Str.Width -- the minimum width of a number (`itoa` of `string_util.c`)

A number is to be as wide as its descriptor says, or as wide as it is by itself if that is more: the digits, the
sign that is shown and the two characters of the prefix. `itoa` gets the number of fill characters by subtracting
the prefix and the sign from what the digits leave, and tests before each subtraction only that something is left.
For the sign that is enough. For the prefix it is not: where one character is left and two are taken the count
wraps, and the fill runs to the end of the room. `itoa_shown_iff` says that this width is the only one.
-/
import GunyahRuntime.Str.Safety

namespace GunyahRuntime

/-- The width of a number by itself. -/
def naturalWidth (val base : Nat) (info : FmtInfo) (positive : Bool) : Nat :=
  (digitsText base val).length + (if (signChar info positive).isSome then 1 else 0) +
    if info.alternateForm ∧ base ≠ 10 then 2 else 0

/-- The fill character of a number. -/
def numberFill (info : FmtInfo) : UInt8 :=
  paddingChar info (if info.zeroPadding then '0'.toUInt8 else ' '.toUInt8)

/-- A number as its descriptor asks for it: the sign, the prefix and the digits in this order, and between and around
them as many fill characters as make it wide enough. -/
structure NumberShown (val base : Nat) (info : FmtInfo) (positive : Bool) (text : List UInt8) : Prop where
  width : text.length = max info.minWidth (naturalWidth val base info positive)
  order : ∃ a b c d, text =
    List.replicate a (numberFill info) ++ (signChar info positive).toList ++
      List.replicate b (numberFill info) ++ (prefixText info base).reverse ++
      List.replicate c (numberFill info) ++ (digitsText base val).reverse ++ List.replicate d (numberFill info)

/-- A subtraction that notices when it would go below zero. -/
def subChecked (a b : Nat) : Option Nat := if b ≤ a then some (a - b) else none

/-- `padding_cnt` again, with each subtraction checked. -/
def paddingCntChecked (info : FmtInfo) (base : Nat) (positive : Bool) (contentCnt : Nat) : Option Nat :=
  (subChecked (max info.minWidth contentCnt) contentCnt).bind fun cnt =>
    (if cnt > 0 ∧ info.alternateForm ∧ base ≠ 10 then subChecked cnt 2 else some cnt).bind fun cnt =>
      if cnt > 0 ∧ showsSign info positive then subChecked cnt 1 else some cnt

/-! ## The counts -/

theorem showsSign_eq (info : FmtInfo) (positive : Bool) :
    showsSign info positive = (signChar info positive).isSome := by
  unfold showsSign signChar
  cases info.sign <;> cases positive <;> rfl

theorem length_signChar (info : FmtInfo) (positive : Bool) :
    (signChar info positive).toList.length = if (signChar info positive).isSome then 1 else 0 := by
  cases signChar info positive <;> rfl

theorem length_prefixText (info : FmtInfo) {base : Nat} (hbase : base ∈ [2, 8, 10, 16]) :
    (prefixText info base).length = if info.alternateForm ∧ base ≠ 10 then 2 else 0 := by
  simp only [List.mem_cons, List.not_mem_nil, or_false] at hbase
  unfold prefixText
  rcases hbase with rfl | rfl | rfl | rfl <;> cases info.alternateForm <;> rfl

/-- The one case in which a subtraction wraps: the digits leave one character, and the prefix takes two. -/
def PrefixUnderflows (info : FmtInfo) (base contentCnt : Nat) : Prop :=
  info.alternateForm = true ∧ base ≠ 10 ∧ info.minWidth = contentCnt + 1

instance (info : FmtInfo) (base contentCnt : Nat) : Decidable (PrefixUnderflows info base contentCnt) :=
  inferInstanceAs (Decidable (_ ∧ _ ∧ _))

/-- The sign is taken only from a count that is not zero, so the last subtraction is inside. -/
theorem takeSign_exact {cnt : Nat} (hcnt : cnt < 18446744073709551616) (sign : Bool) :
    (if cnt > 0 ∧ sign then subChecked cnt 1 else some cnt) = some (cnt - if sign then 1 else 0) ∧
      (if cnt > 0 ∧ sign then sub64 cnt 1 else cnt) = cnt - if sign then 1 else 0 := by
  by_cases hpos : 0 < cnt
  · cases sign with
    | false => simp
    | true => simp [hpos, subChecked, show 1 ≤ cnt from hpos, sub64_of_le hpos hcnt]
  · obtain rfl : cnt = 0 := by omega
    simp

/-- The prefix is taken from a count that is zero or large enough. -/
theorem takePrefix_exact {cnt : Nat} (hcnt : cnt < 18446744073709551616) {p : Prop} [Decidable p]
    (h : p → cnt ≠ 1) :
    (if cnt > 0 ∧ p then subChecked cnt 2 else some cnt) = some (cnt - if p then 2 else 0) ∧
      (if cnt > 0 ∧ p then sub64 cnt 2 else cnt) = cnt - if p then 2 else 0 := by
  by_cases hp : p
  · rcases Nat.eq_zero_or_pos cnt with rfl | hpos
    · simp
    · have htwo : 2 ≤ cnt := by
        have := h hp
        omega
      simp [hp, hpos, subChecked, htwo, sub64_of_le htwo hcnt]
  · simp [hp]

/-- Otherwise the count is what the number falls short of its width. -/
theorem paddingCnt_exact {info : FmtInfo} {base contentCnt : Nat} (positive : Bool)
    (h : ¬ PrefixUnderflows info base contentCnt) (hwidth : info.minWidth < 18446744073709551616)
    (hcontent : contentCnt < 18446744073709551616) :
    paddingCntChecked info base positive contentCnt = some (paddingCnt info base positive contentCnt) ∧
      paddingCnt info base positive contentCnt = info.minWidth -
        (contentCnt + (if (signChar info positive).isSome then 1 else 0) +
          if info.alternateForm ∧ base ≠ 10 then 2 else 0) := by
  have hmax : max info.minWidth contentCnt < 18446744073709551616 := Nat.max_lt.2 ⟨hwidth, hcontent⟩
  have hle : contentCnt ≤ max info.minWidth contentCnt := Nat.le_max_right _ _
  have hpre : info.alternateForm = true ∧ base ≠ 10 → max info.minWidth contentCnt - contentCnt ≠ 1 := by
    intro hpre hone
    exact h ⟨hpre.1, hpre.2, by omega⟩
  obtain ⟨htaken, htaken'⟩ := takePrefix_exact (show max info.minWidth contentCnt - contentCnt < _ by omega) hpre
  obtain ⟨hsign, hsign'⟩ := takeSign_exact (show max info.minWidth contentCnt - contentCnt -
    (if info.alternateForm = true ∧ base ≠ 10 then 2 else 0) < _ by omega) (signChar info positive).isSome
  have hcnt : paddingCnt info base positive contentCnt = max info.minWidth contentCnt - contentCnt -
      (if info.alternateForm = true ∧ base ≠ 10 then 2 else 0) -
      if (signChar info positive).isSome then 1 else 0 := by
    unfold paddingCnt
    dsimp only
    rw [utilMax_eq, sub64_of_le hle hmax, showsSign_eq, htaken', hsign']
  refine ⟨?_, ?_⟩
  · unfold paddingCntChecked
    rw [show subChecked (max info.minWidth contentCnt) contentCnt = some _ from if_pos hle, showsSign_eq]
    rw [Option.bind_some, htaken, Option.bind_some]
    exact hsign.trans (congrArg some hcnt.symm)
  · have hshort : max info.minWidth contentCnt - contentCnt = info.minWidth - contentCnt := by omega
    rw [hcnt, hshort, Nat.sub_sub, Nat.sub_sub, Nat.add_right_comm, Nat.add_assoc]

theorem paddingCnt_lt (info : FmtInfo) (base : Nat) (positive : Bool) (n : Nat) :
    paddingCnt info base positive n < 18446744073709551616 := by
  have htake : ∀ (cnt k : Nat) (p : Prop) [Decidable p], cnt < 18446744073709551616 →
      (if p then sub64 cnt k else cnt) < 18446744073709551616 := by
    intro cnt k p _ hcnt
    split
    · exact sub64_lt cnt k
    · exact hcnt
  exact htake _ 1 _ (htake _ 2 _ (sub64_lt _ _))

/-- The four counts share out the padding count, whatever it is. -/
theorem itoaPads_share (info : FmtInfo) (base : Nat) (positive : Bool) (n : Nat) :
    let pads := itoaPads info base positive n
    pads.left + pads.right + pads.afterSign + pads.afterPrefix = paddingCnt info base positive n ∧
      pads.char = numberFill info := by
  have hhalf := sub64_of_le (Nat.div_le_self (paddingCnt info base positive n) 2) (paddingCnt_lt info base positive n)
  unfold itoaPads numberFill
  dsimp only
  cases info.alignment with
  | default => cases info.zeroPadding <;> simp
  | center => simp [hhalf]; omega
  | left => simp
  | right => simp
  | afterSign => simp

/-! ## The text -/

/-- The text of a number, in the order it is read. -/
theorem numText_order (val base : Nat) (info : FmtInfo) (positive : Bool) :
    let pads := itoaPads info base positive (digitsText base val).length
    (numText val base info positive).text =
      List.replicate pads.left pads.char ++ (signChar info positive).toList ++
        List.replicate pads.afterSign pads.char ++ (prefixText info base).reverse ++
        List.replicate pads.afterPrefix pads.char ++ (digitsText base val).reverse ++
        List.replicate pads.right pads.char := by
  have hsign : (signChar info positive).toList.reverse = (signChar info positive).toList := by
    cases signChar info positive <;> rfl
  simp only [numText, NumText.text, NumText.core, List.reverse_append, List.reverse_replicate, hsign,
    List.append_assoc]

/-- Its length is the width by itself and the padding count. -/
theorem length_numText (val : Nat) {base : Nat} (hbase : base ∈ [2, 8, 10, 16]) (info : FmtInfo) (positive : Bool) :
    (numText val base info positive).text.length =
      naturalWidth val base info positive + paddingCnt info base positive (digitsText base val).length := by
  obtain ⟨hsum, -⟩ := itoaPads_share info base positive (digitsText base val).length
  have hsign := length_signChar info positive
  have hprefix := length_prefixText info hbase
  rw [numText_order]
  simp only [List.length_append, List.length_replicate, List.length_reverse]
  unfold naturalWidth
  omega

/-- A number that there is room for, with a place to spare, is put as a whole. -/
theorem OutBuf.Ok.itoa_put {o : OutBuf} (h : o.Ok) {val base : Nat} (hbase : 2 ≤ base) (hbase' : base ≤ 16)
    (hval : val < 18446744073709551616) (info : FmtInfo) (positive : Bool)
    (hfit : (numText val base info positive).text.length < o.cur.room) :
    itoa o val base info positive = .ok (o.put (numText val base info positive).text, OK) := by
  rw [h.itoa_eq (by omega) hbase hbase' hval]
  have hlen := (numText val base info positive).length_text
  have hdigits := (numText val base info positive).digits_le_core
  have hleft := (numText val base info positive).core_le_left
  dsimp only
  rw [if_neg (by omega), if_neg (by omega), List.take_of_length_le (by omega),
    (h.put _).padAt_eq (by rw [OutBuf.room_put, List.length_reverse]; omega), ok_bind, h.put_put]
  rfl

/-- Conversely, what `itoa` puts with a place to spare is all of the number. -/
theorem OutBuf.Ok.length_of_itoa_put {o : OutBuf} (h : o.Ok) {val base : Nat} (hbase : 2 ≤ base) (hbase' : base ≤ 16)
    (hval : val < 18446744073709551616) {info : FmtInfo} {positive : Bool} {text : List UInt8}
    (hitoa : itoa o val base info positive = .ok (o.put text, OK)) (hfit : text.length < o.cur.room) :
    (numText val base info positive).text.length = text.length := by
  have hsim := h.settle_itoa hbase hbase' hval info positive
  rw [hitoa, ok_bind, h.settle_put hfit.le] at hsim
  cases hr : (numText val base info positive).render o.cur.room with
  | error e =>
    rw [hr] at hsim
    cases hsim
  | ok r =>
    rw [hr] at hsim
    obtain ⟨o', hrun, hafter, -⟩ := hsim
    obtain ⟨rfl, he⟩ := Prod.mk.inj (Except.ok.inj hrun)
    have hroom := hafter.room
    rw [OutBuf.room_put] at hroom
    rcases Piece.render_ok (p := .num (numText val base info positive)) hr with ⟨-, -, -, hlen⟩ | ⟨-, hne, -⟩
    · have hmin : r.text.length = min (numText val base info positive).text.length o.cur.room := hlen
      omega
    · exact absurd he.symm hne

/-! ## The width -/

/-- Where the prefix is taken from one character, the count wraps: it is larger than any room. -/
theorem paddingCnt_wraps {info : FmtInfo} {base contentCnt : Nat} (positive : Bool)
    (h : PrefixUnderflows info base contentCnt) (hwidth : info.minWidth < 18446744073709551616) :
    18446744073709551614 ≤ paddingCnt info base positive contentCnt := by
  obtain ⟨halt, hbase, hone⟩ := h
  have hcnt : sub64 (max info.minWidth contentCnt) contentCnt = 1 := by
    rw [sub64_of_le (Nat.le_max_right _ _) (Nat.max_lt.2 ⟨hwidth, by omega⟩)]
    omega
  have hpre : (if 1 > 0 ∧ info.alternateForm = true ∧ base ≠ 10 then sub64 1 2 else 1) = sub64 1 2 :=
    if_pos ⟨Nat.one_pos, halt, hbase⟩
  unfold paddingCnt
  dsimp only
  rw [utilMax_eq, hcnt, hpre]
  split <;> decide

/-- **When a number gets its minimum width.** For every value, base, descriptor and sign, and every buffer with more
room than the number needs: `itoa` returns without error and leaves exactly the number, sign, prefix and digits in
this order, as wide as it is to be, and no count wraps on the way, if and only if the minimum width is not one more
than the number of digits of a number with a prefix. -/
theorem itoa_shown_iff {o : OutBuf} (h : o.Ok) {val base : Nat} (hbase : base ∈ [2, 8, 10, 16])
    (hval : val < 18446744073709551616) (info : FmtInfo) (positive : Bool)
    (hroom : max info.minWidth (naturalWidth val base info positive) < o.cur.room) :
    ((∃ text, itoa o val base info positive = .ok (o.put text, OK) ∧ NumberShown val base info positive text) ∧
        paddingCntChecked info base positive (digitsText base val).length =
          some (paddingCnt info base positive (digitsText base val).length)) ↔
      ¬ PrefixUnderflows info base (digitsText base val).length := by
  have hlow : 2 ≤ base := by
    simp only [List.mem_cons, List.not_mem_nil, or_false] at hbase
    omega
  have hhigh : base ≤ 16 := by
    simp only [List.mem_cons, List.not_mem_nil, or_false] at hbase
    omega
  have hlt := h.room_lt
  have hlen := length_numText val hbase info positive
  have hwidth : info.minWidth < 18446744073709551616 := by omega
  constructor
  · rintro ⟨⟨text, hitoa, hshown⟩, -⟩ hunder
    have hwrap := paddingCnt_wraps positive hunder hwidth
    have htext := h.length_of_itoa_put hlow hhigh hval hitoa (by rw [hshown.width]; exact hroom)
    rw [hshown.width] at htext
    have hfull := h.full
    have hfits := h.fits
    omega
  · intro hunder
    have hnatural : naturalWidth val base info positive = (digitsText base val).length +
        (if (signChar info positive).isSome then 1 else 0) + if info.alternateForm ∧ base ≠ 10 then 2 else 0 := rfl
    obtain ⟨hchecked, hcnt⟩ := paddingCnt_exact positive hunder hwidth (by omega)
    rw [← hnatural] at hcnt
    obtain ⟨-, hchar⟩ := itoaPads_share info base positive (digitsText base val).length
    have hmax : (numText val base info positive).text.length =
        max info.minWidth (naturalWidth val base info positive) := by
      rw [hlen, hcnt]
      omega
    refine ⟨⟨_, h.itoa_put hlow hhigh hval info positive (by omega), hmax, ?_⟩, hchecked⟩
    rw [← hchar]
    exact ⟨_, _, _, _, numText_order val base info positive⟩

/-- An empty buffer of ten places and one for the terminator. -/
def tenPlaces : OutBuf := ⟨⟨List.replicate 11 0, 0, 10⟩, true⟩

theorem tenPlaces_ok : tenPlaces.Ok := ⟨rfl, by decide⟩

/-- A number of two digits with a prefix in eight places. -/
theorem itoa_shown_eight :
    (∃ text, itoa tenPlaces 42 16 { alternateForm := true, minWidth := 8 } true = .ok (tenPlaces.put text, OK) ∧
        NumberShown 42 16 { alternateForm := true, minWidth := 8 } true text) ∧
      paddingCntChecked { alternateForm := true, minWidth := 8 } 16 true (digitsText 16 42).length =
        some (paddingCnt { alternateForm := true, minWidth := 8 } 16 true (digitsText 16 42).length) :=
  (itoa_shown_iff tenPlaces_ok (by decide) (by decide) { alternateForm := true, minWidth := 8 } true
    (by decide +kernel)).2 (by decide +kernel)

/-- A number of seven digits with a prefix in eight places: the fill runs to the end of the room. -/
theorem not_numberShown_seven_digits :
    ¬ ∀ (o : OutBuf) (val base : Nat) (info : FmtInfo) (positive : Bool), o.Ok → base ∈ [2, 8, 10, 16] →
      val < 18446744073709551616 → max info.minWidth (naturalWidth val base info positive) < o.cur.room →
      (∃ text, itoa o val base info positive = .ok (o.put text, OK) ∧ NumberShown val base info positive text) ∧
        paddingCntChecked info base positive (digitsText base val).length =
          some (paddingCnt info base positive (digitsText base val).length) := by
  intro h
  obtain ⟨-, hchecked⟩ := h tenPlaces 0x1000000 16 { alternateForm := true, minWidth := 8 } true tenPlaces_ok
    (by decide) (by decide) (by decide +kernel)
  exact absurd hchecked (by decide +kernel)

end GunyahRuntime
