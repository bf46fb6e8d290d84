/-
# GunyahRuntime.Str.Truncation -- what `snprint` reports about a buffer that is too small

The header promises that a count of `size` or more indicates a truncated output. The report is exact at
some ends of the room and not at others: a text that fills the room to the last place is reported as
truncated after a string or a bare number, and as complete after an outer padding; an outer padding that
is cut is not reported at all, and neither is a format whose rest is never looked at because the room is
used up. `Layout.Exact` says where the room may end, and `snprint_exact_iff` that this is all.
-/
import GunyahRuntime.Str.Safety

namespace GunyahRuntime

/-- The length of the finished text of a layout. -/
def Layout.width : Layout → Nat
  | .chunk lit p rest => lit.length + p.width + rest.width
  | _ => 0

/-- A piece that is reported as truncated where it does not go on: the right padding of a number that
was cut after its digits is at most the one character that lands on the terminator's place. -/
def Piece.Reported (room : Nat) : Piece → Prop
  | .num t => t.right.length ≤ 1 ∨ room ≤ t.digits.length
  | _ => True

/-- Where the room of the smaller buffer may end for its report to be exact: in a literal; in a piece
that is reported, with something still to come; or at the end of everything, unless the last piece is
one that needs a spare place. -/
def Layout.Exact : Layout → Nat → Prop
  | .chunk lit p rest, room =>
    if room = 0 then lit.length + p.width + rest.width = 0
    else room < lit.length ∨
      ((p.GoesOn (room - lit.length) → p.width ≤ room - lit.length ∧
          rest.Exact (room - lit.length - p.width)) ∧
        (¬ p.GoesOn (room - lit.length) → room - lit.length < p.width + rest.width ∧
          p.Reported (room - lit.length)))
  | _, _ => True

instance (room : Nat) : (p : Piece) → Decidable (p.Reported room)
  | .none => inferInstanceAs (Decidable True)
  | .fails _ _ => inferInstanceAs (Decidable True)
  | .str _ => inferInstanceAs (Decidable True)
  | .num _ => inferInstanceAs (Decidable (_ ∨ _))

instance Layout.decidableExact : (L : Layout) → (room : Nat) → Decidable (L.Exact room)
  | .done, _ => inferInstanceAs (Decidable True)
  | .fault _ _, _ => inferInstanceAs (Decidable True)
  | .bad _, _ => inferInstanceAs (Decidable True)
  | .chunk lit p rest, room =>
    have := decidableExact rest (room - lit.length - p.width)
    inferInstanceAs (Decidable (if room = 0 then lit.length + p.width + rest.width = 0
      else room < lit.length ∨
        ((p.GoesOn (room - lit.length) → p.width ≤ room - lit.length ∧
            rest.Exact (room - lit.length - p.width)) ∧
          (¬ p.GoesOn (room - lit.length) → room - lit.length < p.width + rest.width ∧
            p.Reported (room - lit.length)))))

/-! ## One piece in two rooms -/

/-- A piece whose whole text there is room for, and that goes on, writes all of it. -/
theorem Piece.render_fits {p : Piece} {room room' : Nat} (hgo : p.GoesOn room)
    (hfit : p.width ≤ room) (hle : room ≤ room') : p.render room' = p.render room := by
  cases p with
  | none => rfl
  | fails _ _ => rfl
  | str text =>
    have hlt : text.length < room := hgo
    show (if room' ≤ text.length then _ else _) = (if room ≤ text.length then _ else _)
    rw [if_neg (by omega), if_neg (by omega)]
  | num t =>
    have hcore : t.core.length < room := hgo
    have hwidth : (t.core ++ t.left).length + t.right.length ≤ room := by
      rw [← t.length_text]; exact hfit
    have hclear : ∀ r, room ≤ r → t.Clear r := by
      intro r hr
      by_cases hright : t.right = []
      · exact .inl hright
      · have hpos := List.length_pos_iff.2 hright
        exact .inr (.inr (by omega))
    have hfitted : ∀ r, room ≤ r → t.fitted r = t.text := by
      intro r hr
      rw [NumText.fitted, NumText.text, List.take_of_length_le (by omega),
        List.take_of_length_le (by omega)]
    show t.render room' = t.render room
    rw [NumText.render_of_clear (hclear _ hle), NumText.render_of_clear (hclear _ le_rfl),
      if_neg (by omega), if_neg (by omega), hfitted _ hle, hfitted _ le_rfl]

/-- A piece that does not go on is reported as truncated, or faults. -/
theorem Piece.render_stops {p : Piece} {room room' : Nat} (hstop : ¬ p.GoesOn room)
    (hgo : p.GoesOn room') :
    (p.Reported room ∧ ∃ b, p.render room = .ok ⟨[], ERROR_STRING_TRUNCATED, b⟩) ∨
      (¬ p.Reported room ∧ ∃ e, p.render room = .error e) := by
  cases p with
  | none => exact absurd trivial hstop
  | fails _ _ => exact absurd hgo id
  | str text => exact .inl ⟨trivial, true, if_pos (Nat.not_lt.1 hstop)⟩
  | num t =>
    have hcore : room ≤ t.core.length := Nat.not_lt.1 hstop
    have hleft := t.core_le_left
    by_cases hclear : t.Clear room
    · have hrun := NumText.render_of_clear hclear
      rw [if_pos hcore] at hrun
      refine .inl ⟨?_, true, hrun⟩
      rcases hclear with h | h | h
      · exact .inl (by rw [h]; exact Nat.zero_le 1)
      · exact .inr h
      · exact absurd h (by omega)
    · have hrun := NumText.render_of_not_clear hclear
      simp only [NumText.Clear, not_or] at hclear
      have hpos := List.length_pos_iff.2 hclear.1
      by_cases hone : t.right.length = 1
      · rw [if_neg (not_not.2 hone), if_pos hcore] at hrun
        exact .inl ⟨.inl hone.le, false, hrun⟩
      · rw [if_pos hone] at hrun
        refine .inr ⟨?_, _, hrun⟩
        rintro (h | h)
        · omega
        · exact hclear.2.1 h

/-! ## One chunk -/

namespace Layout

variable {lit : List UInt8} {p : Piece} {rest : Layout} {room : Nat} {R : Rendered}

/-- Past a piece that went on, a chunk renders its rest. -/
theorem render_chunk_goesOn {r : Rendered} (hroom : room ≠ 0) (hlit : lit.length ≤ room)
    (hr : p.render (room - lit.length) = .ok r) (he : r.e = OK) :
    (chunk lit p rest).render room =
      rest.render (room - (lit.length + r.text.length)) >>= fun r' =>
        .ok ⟨lit ++ r.text ++ r'.text, r'.e, r.inside && r'.inside⟩ := by
  rw [Layout.render, if_neg hroom, renderChunk, if_neg (by omega), hr, ok_bind, ok_bind,
    if_neg (not_not.2 he), List.length_append]

/-- A chunk that renders without error has gone on past its literal and its piece. -/
theorem render_chunk_ok (hroom : room ≠ 0) (h : (chunk lit p rest).render room = .ok R)
    (he : R.e = OK) :
    lit.length ≤ room ∧ ∃ r R', p.render (room - lit.length) = .ok r ∧ r.e = OK ∧
      rest.render (room - (lit.length + r.text.length)) = .ok R' ∧ R'.e = OK ∧
      R.text = lit ++ r.text ++ R'.text := by
  have hrenders := render_chunk lit p rest room
  generalize (chunk lit p rest).render room = x at h hrenders
  cases hrenders with
  | noRoom hnone => exact absurd hnone hroom
  | literalCut =>
    cases h
    exact absurd he truncated_ne_ok
  | pieceFaults => cases h
  | pieceStops _ _ _ hre =>
    cases h
    exact absurd he hre
  | goesOn _ hlit hr hre =>
    obtain ⟨R', hR', h⟩ := bind_eq_ok.1 h
    cases h
    exact ⟨hlit, _, R', hr, hre, hR', he, rfl⟩

/-- With no room a layout renders to nothing, without error. -/
theorem render_zero (L : Layout) : L.render 0 = .ok ⟨[], OK, true⟩ := by
  cases L <;> rfl

/-- A rendering without error has the length of the layout, or of the room if that is less. -/
theorem length_text_of_ok (L : Layout) : ∀ {room : Nat} {R : Rendered}, L.render room = .ok R →
    R.e = OK → R.text.length = min L.width room := by
  induction L with
  | done => intro room R h _; cases h; exact (Nat.zero_min _).symm
  | fault f _ =>
    intro room R h _
    rw [Layout.render] at h
    split at h <;> cases h
    exact (Nat.zero_min _).symm
  | bad e =>
    intro room R h _
    rw [Layout.render] at h
    split at h <;> cases h <;> exact (Nat.zero_min _).symm
  | chunk lit p rest ih =>
    intro room R h he
    by_cases hroom : room = 0
    · subst hroom
      rw [render_zero] at h
      cases h
      exact (Nat.min_zero _).symm
    · obtain ⟨hlit, r, R', hr, hre, hR', hRe, htext⟩ := render_chunk_ok hroom h he
      rcases Piece.render_ok hr with ⟨-, -, -, hlen⟩ | ⟨-, hne, -⟩
      · have hrest := ih hR' hRe
        rw [htext, List.length_append, List.length_append, hrest, hlen,
          show (chunk lit p rest).width = lit.length + p.width + rest.width from rfl]
        omega
      · exact absurd hre hne

end Layout

/-! ## Two rooms -/

/-- What the report about a smaller room should be, given the full text. -/
def ReportsExactly (room : Nat) (full : List UInt8) : Exec Rendered → Prop
  | .error _ => False
  | .ok r =>
    if full.length ≤ room then r.e = OK ∧ r.text = full
    else r.e = ERROR_STRING_TRUNCATED ∧ r.text <+: full

/-- A report without error is exact where there was room for all of it, and it is there. -/
theorem reportsExactly_ok {room : Nat} {full text : List UInt8} {b : Bool} :
    ReportsExactly room full (.ok ⟨text, OK, b⟩) ↔ full.length ≤ room ∧ text = full := by
  unfold ReportsExactly
  dsimp only
  split
  · next hle => exact and_congr_left fun _ => iff_of_true rfl hle
  · next hlt => exact iff_of_false (fun h => truncated_ne_ok h.1.symm) (fun h => hlt h.1)

/-- A report of truncation is exact where more was to come than there was room for. -/
theorem reportsExactly_truncated {room : Nat} {full text : List UInt8} {b : Bool} :
    ReportsExactly room full (.ok ⟨text, ERROR_STRING_TRUNCATED, b⟩) ↔
      room < full.length ∧ text <+: full := by
  unfold ReportsExactly
  dsimp only
  split
  · next hle => exact iff_of_false (fun h => truncated_ne_ok h.1) (fun h => absurd hle (Nat.not_le.2 h.1))
  · next hlt => exact and_congr_left fun _ => iff_of_true rfl (Nat.not_le.1 hlt)

/-- The report about a room is the report about what is left of it after a common beginning. -/
theorem reportsExactly_append {room : Nat} {front full : List UInt8} (hfit : front.length ≤ room)
    (x : Exec Rendered) (b : Bool) :
    ReportsExactly room (front ++ full) (x >>= fun r => .ok ⟨front ++ r.text, r.e, b && r.inside⟩) ↔
      ReportsExactly (room - front.length) full x := by
  cases x with
  | error e => exact Iff.rfl
  | ok r =>
    rw [ok_bind]
    unfold ReportsExactly
    dsimp only
    rw [List.length_append]
    by_cases hlen : full.length ≤ room - front.length
    · rw [if_pos hlen, if_pos (by omega), List.append_cancel_left_eq]
    · rw [if_neg hlen, if_neg (by omega), List.prefix_append_right_inj]

section Chunk

variable {lit : List UInt8} {p : Piece} {rest : Layout} {room room' : Nat} {R : Rendered}

/-- The room is used up at once: nothing more may come. -/
theorem Layout.reportsExactly_zero {L : Layout} (hlt : 0 < room') (h : L.render room' = .ok R)
    (he : R.e = OK) : ReportsExactly 0 R.text (L.render 0) ↔ L.width = 0 := by
  have hwidth := Layout.length_text_of_ok _ h he
  rw [Layout.render_zero, reportsExactly_ok]
  constructor
  · rintro ⟨hle, -⟩
    omega
  · intro hzero
    have hnil : R.text = [] := List.length_eq_zero_iff.1 (by omega)
    exact ⟨by rw [hnil]; exact le_rfl, hnil.symm⟩

/-- The room ends in the literal, which is reported. -/
theorem Layout.reportsExactly_literal (hroom : room ≠ 0) (hlit : room < lit.length)
    (hfull : room < R.text.length) : ReportsExactly room R.text ((chunk lit p rest).render room) := by
  rw [Layout.render, if_neg hroom, renderChunk, if_pos hlit, ok_bind, if_pos truncated_ne_ok,
    reportsExactly_truncated]
  exact ⟨hfull, List.nil_prefix⟩

/-- It ends in the outer padding of a piece that goes on, and nothing reports that. -/
theorem Layout.not_reportsExactly_padding (hroom : room ≠ 0) (hlit : lit.length ≤ room)
    (hgo : p.GoesOn (room - lit.length)) (hcut : room - lit.length < p.width)
    (hfull : room < R.text.length) : ¬ ReportsExactly room R.text ((chunk lit p rest).render room) := by
  cases hr : p.render (room - lit.length) with
  | error e =>
    rw [Layout.render, if_neg hroom, renderChunk, if_neg (Nat.not_lt.2 hlit), hr, error_bind, error_bind]
    exact id
  | ok r =>
    obtain ⟨-, hre, -, hlen⟩ := (Piece.render_ok hr).resolve_right fun h => h.1 hgo
    rw [Layout.render_chunk_goesOn hroom hlit hr hre,
      show room - (lit.length + r.text.length) = 0 by omega, Layout.render_zero, ok_bind,
      reportsExactly_ok]
    exact fun h => absurd h.1 (Nat.not_le.2 hfull)

/-- It ends in a piece that does not go on. The piece must be one that is reported, and something must
still have been to come. -/
theorem Layout.reportsExactly_stops {r' : Rendered} {more : List UInt8} (hroom : room ≠ 0)
    (hlit : lit.length ≤ room) (hstop : ¬ p.GoesOn (room - lit.length))
    (hgo' : p.GoesOn (room' - lit.length)) (htext : R.text = lit ++ r'.text ++ more) :
    ReportsExactly room R.text ((chunk lit p rest).render room) ↔
      room < R.text.length ∧ p.Reported (room - lit.length) := by
  rcases Piece.render_stops hstop hgo' with ⟨hrep, b, hr⟩ | ⟨hrep, e, hr⟩
  · rw [and_iff_left hrep, Layout.render, if_neg hroom, renderChunk, if_neg (Nat.not_lt.2 hlit), hr,
      ok_bind, ok_bind, if_pos truncated_ne_ok, reportsExactly_truncated, htext, List.append_nil,
      List.append_assoc]
    exact and_iff_left (List.prefix_append _ _)
  · refine iff_of_false ?_ (fun h => hrep h.2)
    rw [Layout.render, if_neg hroom, renderChunk, if_neg (Nat.not_lt.2 hlit), hr, error_bind, error_bind]
    exact id

end Chunk

/-- **Where the report is exact.** Of two rooms, the larger of which shows a layout without error, the
smaller one reports it exactly where `Layout.Exact` says. -/
theorem Layout.reportsExactly_iff (L : Layout) : ∀ {room room' : Nat} {R : Rendered},
    room < room' → L.render room' = .ok R → R.e = OK →
      (ReportsExactly room R.text (L.render room) ↔ L.Exact room) := by
  induction L with
  | done =>
    intro room room' R _ h _
    cases h
    exact iff_of_true ⟨rfl, rfl⟩ trivial
  | fault f _ =>
    intro room room' R hlt h _
    rw [Layout.render, if_neg (by omega)] at h
    cases h
  | bad e =>
    intro room room' R hlt h he
    rw [Layout.render, if_neg (by omega)] at h
    cases h
    refine iff_of_true ?_ trivial
    rw [Layout.render]
    split
    · exact ⟨rfl, rfl⟩
    · exact ⟨he, rfl⟩
  | chunk lit p rest ih =>
    intro room room' R hlt h he
    have hwidth : R.text.length = min (lit.length + p.width + rest.width) room' :=
      Layout.length_text_of_ok _ h he
    obtain ⟨hlit', r', R', hr', hre', hR', hRe', htext⟩ := render_chunk_ok (by omega) h he
    obtain ⟨hgo', -, -, hlen'⟩ := (Piece.render_ok hr').resolve_right fun h => h.2.1 hre'
    unfold Layout.Exact
    by_cases hroom : room = 0
    · subst hroom
      rw [if_pos rfl]
      exact reportsExactly_zero hlt h he
    rw [if_neg hroom]
    by_cases hlit : room < lit.length
    · exact iff_of_true (reportsExactly_literal hroom hlit (by omega)) (.inl hlit)
    rw [or_iff_right hlit]
    rw [Nat.not_lt] at hlit
    by_cases hgo : p.GoesOn (room - lit.length)
    · rw [and_iff_left (fun hstop => absurd hgo hstop), forall_prop_of_true hgo]
      by_cases hfit : p.width ≤ room - lit.length
      · -- The piece fits, and the rest decides.
        have hr : p.render (room - lit.length) = .ok r' := by
          rw [← Piece.render_fits hgo hfit (show _ ≤ room' - lit.length by omega), hr']
        have hlen : r'.text.length = p.width := by omega
        rw [and_iff_right hfit, Layout.render_chunk_goesOn hroom hlit hr hre', htext,
          reportsExactly_append (by rw [List.length_append]; omega),
          show room - (lit ++ r'.text).length = room - lit.length - p.width by
            rw [List.length_append]; omega,
          show room - (lit.length + r'.text.length) = room - lit.length - p.width by omega]
        exact ih (by omega) hR' hRe'
      · exact iff_of_false
          (not_reportsExactly_padding hroom hlit hgo (by omega) (by omega)) (fun h => hfit h.1)
    · rw [and_iff_right (fun hgo'' => absurd hgo'' hgo), forall_prop_of_true hgo,
        reportsExactly_stops hroom hlit hgo hgo' htext]
      exact and_congr_left fun _ => by omega

/-! ## Texts hold no NUL

So the text in a buffer is what `snprint` put there, up to its own terminator. -/

/-- A text without a NUL. -/
def NoNul (l : List UInt8) : Prop := ∀ c ∈ l, c ≠ 0

theorem NoNul.append {l m : List UInt8} (hl : NoNul l) (hm : NoNul m) : NoNul (l ++ m) := by
  intro c hc
  rcases List.mem_append.1 hc with h | h
  · exact hl c h
  · exact hm c h

theorem NoNul.take {l : List UInt8} (h : NoNul l) (n : Nat) : NoNul (l.take n) :=
  fun c hc => h c (List.mem_of_mem_take hc)

theorem noNul_replicate {c : UInt8} (h : c ≠ 0) (n : Nat) : NoNul (List.replicate n c) := by
  intro d hd
  rw [List.eq_of_mem_replicate hd]
  exact h

theorem noNul_nil : NoNul [] := fun _ h => absurd h List.not_mem_nil

def Piece.NoNul : Piece → Prop
  | .str text => GunyahRuntime.NoNul text
  | .num t => GunyahRuntime.NoNul t.text
  | _ => True

def Layout.NoNul : Layout → Prop
  | .chunk lit p rest => GunyahRuntime.NoNul lit ∧ p.NoNul ∧ rest.NoNul
  | _ => True

theorem NumText.noNul_fitted {t : NumText} (h : NoNul t.text) (room : Nat) :
    NoNul (t.fitted room) := by
  intro c hc
  rcases List.mem_append.1 hc with hc | hc
  · exact h c (List.mem_append_left _ (List.mem_reverse.2 (List.mem_of_mem_take (List.mem_reverse.1 hc))))
  · exact h c (List.mem_append_right _ (List.mem_of_mem_take hc))

theorem Piece.noNul_render {p : Piece} (h : p.NoNul) {room : Nat} {r : Rendered}
    (hr : p.render room = .ok r) : GunyahRuntime.NoNul r.text := by
  rcases Piece.render_ok hr with ⟨hgo, he, hin, -⟩ | ⟨-, -, htext⟩
  · cases p with
    | none => cases hr; exact noNul_nil
    | fails _ _ => exact absurd hgo id
    | str text =>
      have hlt : text.length < room := hgo
      have hrun : (if room ≤ text.length then _ else _ : Exec Rendered) = .ok r := hr
      rw [if_neg (by omega)] at hrun
      cases hrun
      exact h
    | num t =>
      have hlt : t.core.length < room := hgo
      have hclear : t.Clear room := (t.inside_iff_clear room).1 (by
        rw [show t.render room = .ok r from hr]; exact hin)
      have hrun : t.render room = .ok r := hr
      rw [NumText.render_of_clear hclear, if_neg (by omega)] at hrun
      cases hrun
      exact NumText.noNul_fitted h room
  · rw [htext]
    exact noNul_nil

theorem Layout.noNul_render {L : Layout} (h : L.NoNul) : ∀ {room : Nat} {R : Rendered},
    L.render room = .ok R → GunyahRuntime.NoNul R.text := by
  induction L with
  | done => intro room R hR; cases hR; exact noNul_nil
  | fault f _ =>
    intro room R hR
    rw [Layout.render] at hR
    split at hR <;> cases hR
    exact noNul_nil
  | bad e =>
    intro room R hR
    rw [Layout.render] at hR
    split at hR <;> cases hR <;> exact noNul_nil
  | chunk lit p rest ih =>
    intro room R hR
    obtain ⟨hlit, hp, hrest⟩ := h
    have hrenders := Layout.render_chunk lit p rest room
    generalize (Layout.chunk lit p rest).render room = x at hrenders hR
    cases hrenders with
    | noRoom | literalCut =>
      cases hR
      exact noNul_nil
    | pieceFaults => cases hR
    | pieceStops _ _ hr _ =>
      cases hR
      exact hlit.append (Piece.noNul_render hp hr)
    | goesOn _ _ hr _ =>
      obtain ⟨r', hr', hR⟩ := bind_eq_ok.1 hR
      cases hR
      exact (hlit.append (Piece.noNul_render hp hr)).append (ih hrest hr')

/-! ## The layouts of formats -/

theorem paddingChar_ne_zero (info : FmtInfo) {c : UInt8} (hc : c ≠ 0) : paddingChar info c ≠ 0 := by
  unfold paddingChar
  split
  · next h => exact h.2
  · exact hc

theorem itoaPads_char_ne_zero (info : FmtInfo) (base : Nat) (positive : Bool) (n : Nat) :
    (itoaPads info base positive n).char ≠ 0 := by
  have hchar : (itoaPads info base positive n).char =
      paddingChar info (if info.zeroPadding then '0'.toUInt8 else ' '.toUInt8) := by
    unfold itoaPads
    dsimp only
    cases info.alignment <;> first | rfl | (cases info.zeroPadding <;> rfl)
  rw [hchar]
  exact paddingChar_ne_zero info (by split <;> decide)

theorem digitAt_ne_zero (i : Nat) : digitAt i ≠ 0 := by
  rcases Nat.lt_or_ge i 16 with hlt | hge
  · have hall : ∀ i < 16, digitAt i ≠ 0 := by decide
    exact hall i hlt
  · obtain ⟨n, rfl⟩ := Nat.exists_eq_add_of_le hge
    have hstar : Nat.digitChar (16 + n) = '*' := by
      unfold Nat.digitChar
      repeat rw [if_neg (by omega)]
    unfold digitAt
    rw [hstar]
    decide

theorem noNul_digitsText (base val : Nat) : NoNul (digitsText base val) := by
  unfold digitsText
  split
  · intro c hc
    rw [List.mem_singleton.1 hc]
    exact digitAt_ne_zero 0
  · intro c hc
    obtain ⟨i, -, rfl⟩ := List.mem_map.1 hc
    exact digitAt_ne_zero i

theorem noNul_prefixText (info : FmtInfo) (base : Nat) : NoNul (prefixText info base) := by
  have hletter : ∀ c ∈ baseLetter base, c ≠ 0 := by
    unfold baseLetter
    split <;> intro c hc <;> cases hc <;> decide
  unfold prefixText basePrefix
  split
  · cases hbase : baseLetter base with
    | none => exact noNul_nil
    | some c =>
      intro d hd
      rcases List.mem_cons.1 hd with rfl | hd
      · exact hletter d (by rw [hbase]; rfl)
      · rw [List.mem_singleton.1 hd]
        decide
  · exact noNul_nil

theorem noNul_signChar (info : FmtInfo) (positive : Bool) :
    NoNul (signChar info positive).toList := by
  have hsign : ∀ c ∈ signChar info positive, c ≠ 0 := by
    unfold signChar
    cases info.sign <;> cases positive <;> intro c hc <;> cases hc <;> decide
  intro c hc
  exact hsign c (Option.mem_toList.1 hc)

theorem noNul_numText (val base : Nat) (info : FmtInfo) (positive : Bool) :
    NoNul (numText val base info positive).text := by
  have hchar := itoaPads_char_ne_zero info base positive (digitsText base val).length
  have hcore : NoNul ((numText val base info positive).core ++ (numText val base info positive).left) := by
    refine NoNul.append (NoNul.append (noNul_digitsText base val) ?_) (noNul_replicate hchar _)
    refine (noNul_replicate hchar _).append ((noNul_prefixText info base).append ?_)
    exact (noNul_replicate hchar _).append (noNul_signChar info positive)
  refine NoNul.append ?_ (noNul_replicate hchar _)
  exact fun c hc => hcore c (List.mem_reverse.1 hc)

theorem noNul_fieldPiece (strs : Nat → CString) (args : Vector UInt64 MAX_ARG_CNT) (argIdx : Nat)
    (info : FmtInfo) : (fieldPiece strs args argIdx info).NoNul := by
  unfold fieldPiece argPiece
  split
  · trivial
  split
  · trivial
  split
  · exact noNul_numText _ _ _ _
  · split <;> exact noNul_numText _ _ _ _
  · exact noNul_numText _ _ _ _
  · exact noNul_numText _ _ _ _
  · split
    · trivial
    · have hchar := paddingChar_ne_zero info (show ' '.toUInt8 ≠ 0 by decide)
      refine (noNul_replicate hchar _).append (NoNul.append ?_ (noNul_replicate hchar _))
      exact NoNul.take (CString.no_nul _) _
  · trivial

/-- The layout of a format holds no NUL. -/
theorem noNul_layoutFrom (scans : Nat) (strs : Nat → CString) (format : CString)
    (args : Vector UInt64 MAX_ARG_CNT) (fuel : Nat) :
    ∀ fmt argIdx, (layoutFrom scans strs format args fuel fmt argIdx).NoNul := by
  induction fuel with
  | zero => intro fmt argIdx; trivial
  | succ fuel ih =>
    intro fmt argIdx
    cases hscan : getNextFmt scans format fmt with
    | error f => rw [layoutFrom_error strs format args hscan]; trivial
    | ok r =>
      rw [layoutFrom_ok strs format args hscan]
      split
      · trivial
      · refine ⟨?_, noNul_fieldPiece strs args argIdx r.info, ?_⟩
        · exact NoNul.take (fun c hc => format.no_nul c (List.mem_of_mem_drop hc)) _
        · split
          · trivial
          · exact ih _ _

/-! ## The report of `snprint` -/

/-- The NUL-terminated text in a buffer. -/
def Printed.text (p : Printed) : List UInt8 := p.mem.takeWhile (· ≠ 0)

theorem Printed.Shows.text_eq {p : Printed} {size : Nat} {r : Rendered} (h : p.Shows size r)
    (hnul : NoNul r.text) : p.text = r.text := by
  have hsplit : p.mem = r.text ++ 0 :: p.mem.drop (r.text.length + 1) := by
    rw [← List.take_append_drop (r.text.length + 1) p.mem]
    conv_lhs => rw [h.written]
    rw [List.append_assoc, List.take_append_drop]
    rfl
  unfold Printed.text
  rw [hsplit, List.takeWhile_append_of_pos (fun c hc => by simpa using hnul c hc),
    List.takeWhile_cons_of_neg (by simp), List.append_nil]

/-- The exact report of a run into `size` bytes, given the run into a larger buffer that returned
without error: the same text if it fits, the truncation otherwise, and wherever there is no error the
count is the length of the text. -/
def TruncatesExactly (size : Nat) (full : Printed) : Exec Printed → Prop
  | .error _ => False
  | .ok p =>
    (if full.r ≤ size - 1 then p.e = OK ∧ p.text = full.text ∧ p.r = full.r
      else p.e = ERROR_STRING_TRUNCATED ∧ size ≤ p.r ∧ p.text <+: full.text) ∧
    (p.e = OK → p.r = p.text.length) ∧ full.r = full.text.length

/-- The report of a run is the report of the rendering it shows. -/
theorem truncatesExactly_iff {x : Exec Printed} {size : Nat} {y : Exec Rendered} {full : Printed}
    (h : Prints x size y) (hnul : ∀ r, y = .ok r → NoNul r.text)
    (hfull : full.r = full.text.length) :
    TruncatesExactly size full x ↔ ReportsExactly (size - 1) full.text y := by
  cases y with
  | error e =>
    rw [show x = .error e from h]
    exact Iff.rfl
  | ok r =>
    obtain ⟨p, rfl, hp⟩ := h
    have htext := hp.text_eq (hnul r rfl)
    have hcount := hp.count
    have hok : r.e = OK → p.r = r.text.length := fun he => by
      rw [hcount, if_pos (by rw [he]; exact truncated_ne_ok.symm)]
    unfold TruncatesExactly ReportsExactly
    dsimp only
    rw [hfull, hp.e, htext, and_iff_left ⟨hok, rfl⟩]
    by_cases hfit : full.text.length ≤ size - 1
    · rw [if_pos hfit, if_pos hfit]
      exact ⟨fun h => ⟨h.1, h.2.1⟩, fun h => ⟨h.1, h.2, by rw [hok h.1, h.2]⟩⟩
    · rw [if_neg hfit, if_neg hfit]
      refine ⟨fun h => ⟨h.1, h.2.2⟩, fun h => ⟨h.1, ?_, h.2⟩⟩
      rw [hcount, if_neg (not_not.2 h.1)]

/-- **When the truncation report is exact.** For every format, arguments and two buffers of which the
larger one is printed into without error: exactly if the buffers have one size, or the room of the
smaller one ends where `Layout.Exact` says. -/
theorem snprint_exact_iff (fuel : Nat) (strs : Nat → CString) (format : CString)
    (args : Vector UInt64 MAX_ARG_CNT) (str str' : List UInt8) (hpos : 0 < str.length)
    (hle : str.length ≤ str'.length) (hlt : str'.length < 18446744073709551616) (full : Printed)
    (hfull : snprint fuel strs str' format args = .ok full) (he : full.e = OK) :
    TruncatesExactly str.length full (snprint fuel strs str format args) ↔
      str.length = str'.length ∨ (layout fuel strs format args).Exact (str.length - 1) := by
  have hprints := snprint_prints fuel strs hpos (by omega) format args
  have hprints' := snprint_prints fuel strs (show 0 < str'.length by omega) hlt format args
  have hnul : (layout fuel strs format args).NoNul := noNul_layoutFrom fuel strs format args fuel 0 0
  generalize layout fuel strs format args = L at hprints hprints' hnul ⊢
  cases hR : L.render (str'.length - 1) with
  | error e =>
    rw [hR] at hprints'
    rw [show snprint fuel strs str' format args = .error e from hprints'] at hfull
    cases hfull
  | ok R =>
    rw [hR] at hprints'
    obtain ⟨p, hrun, hp⟩ := hprints'
    obtain rfl : full = p := Except.ok.inj (hfull.symm.trans hrun)
    have hRe : R.e = OK := hp.e.symm.trans he
    have htext := hp.text_eq (Layout.noNul_render hnul hR)
    have hcount : full.r = full.text.length := by
      rw [hp.count, if_pos (by rw [hRe]; exact truncated_ne_ok.symm), htext]
    rw [truncatesExactly_iff hprints (fun r hr => Layout.noNul_render hnul hr) hcount, htext]
    rcases Nat.lt_or_ge str.length str'.length with hlt' | hge
    · rw [or_iff_right hlt'.ne]
      exact L.reportsExactly_iff (by omega) hR hRe
    · -- Two buffers of one size show the same rendering.
      have hsize : str.length = str'.length := by omega
      have hfits := hp.fits
      refine iff_of_true ?_ (.inl hsize)
      rw [hsize, hR]
      unfold ReportsExactly
      dsimp only
      rw [if_pos (by omega)]
      exact ⟨hRe, rfl⟩

/-- A number cut at its last digit, with a character still to come: the report is exact. -/
theorem snprint_exact_cut_number :
    TruncatesExactly 3 ⟨[52, 50, 33, 0, 0, 0, 0, 0], OK, 3, true⟩
      (snprint 16 noStrings (List.replicate 3 0) (CString.ofString "{:d}!" (by decide) (by decide))
        #v[42, 0, 0, 0, 0]) :=
  (snprint_exact_iff 16 noStrings _ _ (List.replicate 3 0) (List.replicate 8 0) (by decide)
    (by decide) (by decide) ⟨[52, 50, 33, 0, 0, 0, 0, 0], OK, 3, true⟩ (by rfl) rfl).mpr
    (.inr (by decide +kernel))

/-- A bare number that fits to the last place is complete, and is reported as truncated. -/
theorem not_truncatesExactly_full_number :
    ¬ ∀ (fuel : Nat) (strs : Nat → CString) (format : CString) (args : Vector UInt64 MAX_ARG_CNT)
      (str str' : List UInt8) (full : Printed), 0 < str.length → str.length ≤ str'.length →
      str'.length < 18446744073709551616 → snprint fuel strs str' format args = .ok full →
      full.e = OK → TruncatesExactly str.length full (snprint fuel strs str format args) := by
  intro h
  have hexact := h 16 noStrings (CString.ofString "{:d}" (by decide) (by decide)) #v[42, 0, 0, 0, 0]
    (List.replicate 3 0) (List.replicate 8 0) ⟨[52, 50, 0, 0, 0, 0, 0, 0], OK, 2, true⟩ (by decide)
    (by decide) (by decide) (by rfl) rfl
  have hrun : snprint 16 noStrings (List.replicate 3 0)
      (CString.ofString "{:d}" (by decide) (by decide)) #v[42, 0, 0, 0, 0] =
      .ok ⟨[0, 50, 0], ERROR_STRING_TRUNCATED, 3, true⟩ := by
    rfl
  rw [hrun] at hexact
  have hok : ERROR_STRING_TRUNCATED = OK := hexact.1.1
  exact truncated_ne_ok hok

end GunyahRuntime
