/-
# GunyahRuntime.Str.Safety -- when `snprint` stays inside its buffer

A layout is clear in a room when no number in it overruns: the room a number finds never ends between
its digits and the end of its left padding while it still wants padding on the right. These are exactly
the buffers, formats and arguments for which `snprint` keeps its promise.
-/
import GunyahRuntime.Str.Layout

namespace GunyahRuntime

/-- The length of the finished text of a piece. -/
def Piece.width : Piece → Nat
  | .none => 0
  | .fails _ _ => 0
  | .str text => text.length
  | .num t => t.text.length

/-- A piece after which `snprint` goes on, in a given room. -/
def Piece.GoesOn (room : Nat) : Piece → Prop
  | .none => True
  | .fails _ _ => False
  | .str text => text.length < room
  | .num t => t.core.length < room

/-- The room does not end between the digits of a number and the end of its left padding, unless
nothing is wanted on the right. -/
def NumText.Clear (t : NumText) (room : Nat) : Prop :=
  t.right = [] ∨ room ≤ t.digits.length ∨ (t.core ++ t.left).length < room

def Piece.Clear (room : Nat) : Piece → Prop
  | .num t => t.Clear room
  | _ => True

/-- Every number that is reached is clear in the room it finds. -/
def Layout.Clear : Layout → Nat → Prop
  | .chunk lit p rest, room =>
    room = 0 ∨ room < lit.length ∨
      (p.Clear (room - lit.length) ∧
        (p.GoesOn (room - lit.length) →
          rest.Clear (room - (lit.length + min p.width (room - lit.length)))))
  | _, _ => True

instance (t : NumText) (room : Nat) : Decidable (t.Clear room) :=
  inferInstanceAs (Decidable (_ ∨ _ ∨ _))

instance (room : Nat) : (p : Piece) → Decidable (p.GoesOn room)
  | .none => inferInstanceAs (Decidable True)
  | .fails _ _ => inferInstanceAs (Decidable False)
  | .str text => inferInstanceAs (Decidable (text.length < room))
  | .num t => inferInstanceAs (Decidable (t.core.length < room))

instance (room : Nat) : (p : Piece) → Decidable (p.Clear room)
  | .none => inferInstanceAs (Decidable True)
  | .fails _ _ => inferInstanceAs (Decidable True)
  | .str _ => inferInstanceAs (Decidable True)
  | .num t => inferInstanceAs (Decidable (t.Clear room))

instance Layout.decidableClear : (L : Layout) → (room : Nat) → Decidable (L.Clear room)
  | .done, _ => inferInstanceAs (Decidable True)
  | .fault _ _, _ => inferInstanceAs (Decidable True)
  | .bad _, _ => inferInstanceAs (Decidable True)
  | .chunk lit p rest, room =>
    have := decidableClear rest (room - (lit.length + min p.width (room - lit.length)))
    inferInstanceAs (Decidable (_ ∨ _ ∨ (_ ∧ (_ → _))))

/-- A rendering that does not leave the buffer, fails no assertion, and keeps every padding inside. -/
def RendersInside : Exec Rendered → Prop
  | .ok r => r.inside = true
  | .error e => e = .badRead ∨ e = .diverged

/-! ## Pieces -/

namespace NumText

variable (t : NumText) (room : Nat)

theorem length_text : t.text.length = (t.core ++ t.left).length + t.right.length := by
  rw [NumText.text, List.length_append, List.length_reverse]

theorem length_fitted : (t.fitted room).length = min t.text.length room := by
  rw [fitted, length_text, List.length_append, List.length_reverse, List.length_take,
    List.length_take]
  omega

theorem digits_le_core : t.digits.length ≤ t.core.length := by
  rw [core, List.length_append]; omega

theorem core_le_left : t.core.length ≤ (t.core ++ t.left).length := by
  rw [List.length_append]; omega

/-- In a room it is clear in, a number is truncated or fitted. -/
theorem render_of_clear {t : NumText} {room : Nat} (h : t.Clear room) :
    t.render room = .ok (if room ≤ t.core.length then ⟨[], ERROR_STRING_TRUNCATED, true⟩
      else ⟨t.fitted room, OK, true⟩) := by
  have hdc := t.digits_le_core
  have hover : ¬ (t.right ≠ [] ∧ room ≤ (t.core ++ t.left).length) ∨ room ≤ t.digits.length := by
    rcases h with h | h | h
    · exact .inl fun hr => hr.1 h
    · exact .inr h
    · exact .inl fun hr => by omega
  unfold render
  by_cases hdig : room ≤ t.digits.length
  · rw [if_pos hdig, if_pos (by omega)]
  · rw [if_neg hdig, if_neg (hover.resolve_right hdig)]
    split <;> rfl

/-- In another room it overruns: outside the buffer, into the assertion, or onto the terminator. -/
theorem render_of_not_clear {t : NumText} {room : Nat} (h : ¬ t.Clear room) :
    t.render room = if t.right.length ≠ 1 then .error .badWrite
      else if room ≤ t.core.length then .ok ⟨[], ERROR_STRING_TRUNCATED, false⟩
      else .error .assertion := by
  simp only [Clear, not_or] at h
  unfold render
  rw [if_neg h.2.1, if_pos ⟨h.1, by omega⟩]

end NumText

/-- A number stays inside exactly in the rooms it is clear in. -/
theorem NumText.inside_iff_clear (t : NumText) (room : Nat) :
    RendersInside (t.render room) ↔ t.Clear room := by
  by_cases h : t.Clear room
  · rw [render_of_clear h]
    refine iff_of_true ?_ h
    show (if _ then _ else _ : Rendered).inside = true
    split <;> rfl
  · rw [render_of_not_clear h]
    refine iff_of_false ?_ h
    split
    · rintro (h | h) <;> cases h
    · split
      · exact Bool.false_ne_true
      · rintro (h | h) <;> cases h

theorem Piece.inside_iff_clear (p : Piece) (room : Nat) :
    RendersInside (p.render room) ↔ p.Clear room := by
  cases p with
  | none => exact iff_of_true rfl trivial
  | fails e h => exact iff_of_true rfl trivial
  | str text =>
    refine iff_of_true ?_ trivial
    show RendersInside (if room ≤ text.length then _ else _)
    split <;> rfl
  | num t => exact t.inside_iff_clear room

/-- What is left of a piece: it goes on with its text, or it stops with an error. -/
theorem Piece.render_ok {p : Piece} {room : Nat} {r : Rendered} (h : p.render room = .ok r) :
    (p.GoesOn room ∧ r.e = OK ∧ r.inside = true ∧ r.text.length = min p.width room) ∨
      (¬ p.GoesOn room ∧ r.e ≠ OK ∧ r.text = []) := by
  cases p with
  | none => cases h; exact .inl ⟨trivial, rfl, rfl, (Nat.zero_min room).symm⟩
  | fails e he => cases h; exact .inr ⟨id, he, rfl⟩
  | str text =>
    unfold Piece.render at h
    dsimp only at h
    by_cases hfit : room ≤ text.length
    · rw [if_pos hfit] at h
      cases h
      exact .inr ⟨Nat.not_lt.2 hfit, truncated_ne_ok, rfl⟩
    · rw [if_neg hfit] at h
      cases h
      have hlt := Nat.lt_of_not_le hfit
      exact .inl ⟨hlt, rfl, rfl, (Nat.min_eq_left hlt.le).symm⟩
  | num t =>
    by_cases hclear : t.Clear room
    · have hrun : t.render room = .ok r := h
      rw [NumText.render_of_clear hclear] at hrun
      by_cases hfit : room ≤ t.core.length
      · rw [if_pos hfit] at hrun
        cases hrun
        exact .inr ⟨Nat.not_lt.2 hfit, truncated_ne_ok, rfl⟩
      · rw [if_neg hfit] at hrun
        cases hrun
        exact .inl ⟨Nat.lt_of_not_le hfit, rfl, rfl, t.length_fitted room⟩
    · have hrun : t.render room = .ok r := h
      rw [NumText.render_of_not_clear hclear] at hrun
      split at hrun
      · cases hrun
      · split at hrun
        · next hfit =>
          cases hrun
          exact .inr ⟨Nat.not_lt.2 hfit, truncated_ne_ok, rfl⟩
        · cases hrun

/-- A piece faults only by leaving its room. -/
theorem Piece.render_error {p : Piece} {room : Nat} {e : Fault} (h : p.render room = .error e) :
    ¬ RendersInside (.error e) := by
  rw [← h, p.inside_iff_clear]
  intro hclear
  cases p with
  | none => cases h
  | fails _ _ => cases h
  | str text =>
    have hrun : (if room ≤ text.length then _ else _ : Exec Rendered) = .error e := h
    split at hrun <;> cases hrun
  | num t =>
    have hrun : t.render room = .error e := h
    rw [NumText.render_of_clear hclear] at hrun
    cases hrun

/-! ## Layouts -/

/-- What a chunk and the rest after it render to, case by case. -/
inductive ChunkRenders (lit : List UInt8) (p : Piece) (rest : Layout) (room : Nat) : Exec Rendered → Prop
  | noRoom (hroom : room = 0) : ChunkRenders lit p rest room (.ok ⟨[], OK, true⟩)
  | literalCut (hroom : room ≠ 0) (hlit : room < lit.length) :
      ChunkRenders lit p rest room (.ok ⟨[], ERROR_STRING_TRUNCATED, true⟩)
  | pieceFaults {e : Fault} (hroom : room ≠ 0) (hlit : lit.length ≤ room)
      (hr : p.render (room - lit.length) = .error e) : ChunkRenders lit p rest room (.error e)
  | pieceStops {r : Rendered} (hroom : room ≠ 0) (hlit : lit.length ≤ room)
      (hr : p.render (room - lit.length) = .ok r) (he : r.e ≠ OK) :
      ChunkRenders lit p rest room (.ok ⟨lit ++ r.text, r.e, r.inside⟩)
  | goesOn {r : Rendered} (hroom : room ≠ 0) (hlit : lit.length ≤ room)
      (hr : p.render (room - lit.length) = .ok r) (he : r.e = OK) :
      ChunkRenders lit p rest room (rest.render (room - (lit.length + r.text.length)) >>= fun r' =>
        .ok ⟨lit ++ r.text ++ r'.text, r'.e, r.inside && r'.inside⟩)

theorem Layout.render_chunk (lit : List UInt8) (p : Piece) (rest : Layout) (room : Nat) :
    ChunkRenders lit p rest room ((chunk lit p rest).render room) := by
  unfold Layout.render renderChunk
  by_cases hroom : room = 0
  · rw [if_pos hroom]
    exact .noRoom hroom
  rw [if_neg hroom]
  by_cases hlit : room < lit.length
  · rw [if_pos hlit, ok_bind, if_pos truncated_ne_ok]
    exact .literalCut hroom hlit
  rw [if_neg hlit]
  have hlit' := Nat.le_of_not_lt hlit
  cases hr : p.render (room - lit.length) with
  | error e =>
    rw [error_bind, error_bind]
    exact .pieceFaults hroom hlit' hr
  | ok r =>
    rw [ok_bind, ok_bind]
    by_cases he : r.e = OK
    · rw [if_neg (not_not.2 he), List.length_append]
      exact .goesOn hroom hlit' hr he
    · rw [if_pos he]
      exact .pieceStops hroom hlit' hr he

/-- **The clear layouts are those that render inside.** -/
theorem Layout.inside_iff_clear (L : Layout) (room : Nat) :
    RendersInside (L.render room) ↔ L.Clear room := by
  induction L generalizing room with
  | done => exact iff_of_true rfl trivial
  | fault f h =>
    refine iff_of_true ?_ trivial
    unfold Layout.render
    split
    · rfl
    · exact h
  | bad e =>
    refine iff_of_true ?_ trivial
    unfold Layout.render
    split <;> rfl
  | chunk lit p rest ih =>
    have hpiece := p.inside_iff_clear (room - lit.length)
    have hrenders := Layout.render_chunk lit p rest room
    unfold Layout.Clear
    generalize (Layout.chunk lit p rest).render room = x at hrenders ⊢
    cases hrenders with
    | noRoom hroom => exact iff_of_true rfl (.inl hroom)
    | literalCut _ hlit => exact iff_of_true rfl (.inr (.inl hlit))
    | pieceFaults hroom hlit hr =>
      rw [or_iff_right hroom, or_iff_right (Nat.not_lt.2 hlit)]
      rw [hr] at hpiece
      have hno := Piece.render_error hr
      exact iff_of_false hno fun h => hno (hpiece.2 h.1)
    | pieceStops hroom hlit hr he =>
      rw [or_iff_right hroom, or_iff_right (Nat.not_lt.2 hlit)]
      rw [hr] at hpiece
      obtain ⟨hgo, -⟩ := (Piece.render_ok hr).resolve_left fun h => he h.2.1
      exact ⟨fun h => ⟨hpiece.1 h, fun hgo' => absurd hgo' hgo⟩, fun h => hpiece.2 h.1⟩
    | @goesOn r hroom hlit hr he =>
      rw [or_iff_right hroom, or_iff_right (Nat.not_lt.2 hlit)]
      rw [hr] at hpiece
      obtain ⟨hgo, -, hin, hlen⟩ := (Piece.render_ok hr).resolve_right fun h => h.2.1 he
      rw [and_iff_right (hpiece.1 hin), forall_prop_of_true hgo, ← ih, hlen]
      cases rest.render (room - (lit.length + min p.width (room - lit.length))) with
      | error e => exact Iff.rfl
      | ok r' =>
        rw [ok_bind]
        show (r.inside && r'.inside) = true ↔ r'.inside = true
        rw [hin, Bool.true_and]

/-- A layout whose scan never faulted. -/
def Layout.Scanned : Layout → Prop
  | .fault _ _ => False
  | .chunk _ _ rest => rest.Scanned
  | _ => True

/-- Such a layout faults only by leaving its room. -/
theorem Layout.render_error {L : Layout} (h : L.Scanned) : ∀ {room : Nat} {e : Fault},
    L.render room = .error e → ¬ RendersInside (.error e) := by
  induction L with
  | done => intro room e he; cases he
  | fault f _ => exact absurd h id
  | bad e' =>
    intro room e he
    rw [Layout.render] at he
    split at he <;> cases he
  | chunk lit p rest ih =>
    intro room e he
    have hrenders := Layout.render_chunk lit p rest room
    generalize (Layout.chunk lit p rest).render room = x at hrenders he
    cases hrenders with
    | noRoom | literalCut | pieceStops => cases he
    | pieceFaults _ _ hr =>
      cases he
      exact Piece.render_error hr
    | goesOn =>
      rcases bind_eq_error.1 he with he | ⟨r', -, he⟩
      · exact ih h he
      · cases he

/-- A layout that was scanned renders wherever it is clear. -/
theorem Layout.render_total {L : Layout} {room : Nat} (h : L.Scanned) (hclear : L.Clear room) :
    ∃ r, L.render room = .ok r := by
  cases hr : L.render room with
  | error e =>
    have hin := (L.inside_iff_clear room).2 hclear
    rw [hr] at hin
    exact absurd hin (Layout.render_error h hr)
  | ok r => exact ⟨r, rfl⟩

/-! ## The promise of `snprint` -/

/-- The promise: no store outside the buffer and no failed assertion, every padding inside, and on
return the buffer is as long as it was and holds a terminator. What a scan that reads outside the format
or never ends does is not about the buffer. -/
def SnprintSafe (size : Nat) : Exec Printed → Prop
  | .ok p => p.padsInside = true ∧ p.mem.length = size ∧ ∃ k < size, p.mem[k]? = some 0
  | .error e => e = .badRead ∨ e = .diverged

theorem Printed.Shows.terminated {p : Printed} {size : Nat} {r : Rendered} (h : p.Shows size r) :
    p.mem[r.text.length]? = some 0 := by
  have hget : (p.mem.take (r.text.length + 1))[r.text.length]? = some 0 := by
    rw [h.written, List.getElem?_append_right le_rfl, Nat.sub_self]
    rfl
  rwa [List.getElem?_take_of_lt (Nat.lt_succ_self _)] at hget

theorem snprintSafe_iff_inside {x : Exec Printed} {size : Nat} {y : Exec Rendered}
    (h : Prints x size y) : SnprintSafe size x ↔ RendersInside y := by
  cases y with
  | error e =>
    rw [show x = .error e from h]
    exact Iff.rfl
  | ok r =>
    obtain ⟨p, rfl, hp⟩ := h
    show (p.padsInside = true ∧ _) ↔ r.inside = true
    rw [hp.inside]
    exact ⟨fun h => h.1, fun h => ⟨h, hp.length, _, hp.fits, hp.terminated⟩⟩

/-- **When `snprint` stays inside its buffer.** For every buffer, format and five registers: exactly if
the layout of the format is clear in the room the buffer has before its terminator. -/
theorem snprint_safe_iff (fuel : Nat) (strs : Nat → CString) (str : List UInt8)
    (hpos : 0 < str.length) (hlt : str.length < 18446744073709551616) (format : CString)
    (args : Vector UInt64 MAX_ARG_CNT) :
    SnprintSafe str.length (snprint fuel strs str format args) ↔
      (layout fuel strs format args).Clear (str.length - 1) := by
  rw [snprintSafe_iff_inside (snprint_prints fuel strs hpos hlt format args)]
  exact Layout.inside_iff_clear _ _

/-- The strings at the addresses, where no argument is a string. -/
def noStrings : Nat → CString := fun _ => CString.ofString "" (by decide) (by decide)

/-- A signed, centred number in a buffer that holds it. -/
theorem snprint_safe_centered_eight :
    SnprintSafe 10 (snprint 16 noStrings (List.replicate 10 0)
      (CString.ofString "{:^+8d}" (by decide) (by decide)) #v[5, 0, 0, 0, 0]) := by
  have hiff := snprint_safe_iff 16 noStrings (List.replicate 10 0) (by decide) (by decide)
    (CString.ofString "{:^+8d}" (by decide) (by decide)) #v[5, 0, 0, 0, 0]
  rw [List.length_replicate] at hiff
  rw [hiff]
  decide +kernel

/-- The same width in a buffer of four bytes: the left padding uses up the room, and the right padding
is written after the buffer. -/
theorem not_snprintSafe_centered_four :
    ¬ ∀ (fuel : Nat) (strs : Nat → CString) (str : List UInt8) (format : CString)
      (args : Vector UInt64 MAX_ARG_CNT), 0 < str.length → str.length < 18446744073709551616 →
      SnprintSafe str.length (snprint fuel strs str format args) := by
  intro h
  have hsafe := h 16 noStrings [0, 0, 0, 0] (CString.ofString "{:^8d}" (by decide) (by decide))
    #v[5, 0, 0, 0, 0] (by decide) (by decide)
  have hrun : snprint 16 noStrings [0, 0, 0, 0]
      (CString.ofString "{:^8d}" (by decide) (by decide)) #v[5, 0, 0, 0, 0] = .error .badWrite := by
    rfl
  rw [hrun] at hsafe
  rcases hsafe with h | h <;> cases h

end GunyahRuntime
