/-
# GunyahRuntime.Str.Spelled -- formats that are written down, and what is printed for them

A format is literal text with descriptors in it. `FormatText` is such a format before it is spelled: a literal before
each descriptor and one at the end, none of which opens a brace. Two things are shown. The scan passes over a literal
without any effect but on the two counts it reports, and this holds for every format and every fault
(`getNextFmt_literal`); so scanning the spelling of a `FormatText` gives back its literals and descriptors in order
(`layout_spelled`), and `snprint` prints the literals with the arguments between them (`snprint_spelled`).
-/
import GunyahRuntime.Str.Descriptor
import GunyahRuntime.Str.ReadBack
import GunyahRuntime.Str.Truncation
import GunyahRuntime.Str.Width

namespace GunyahRuntime

/-! ## Literals -/

/-- Text in which no descriptor starts. -/
def PlainText (l : List UInt8) : Prop := ∀ c ∈ l, c ≠ '{'.toUInt8

/-- What a scan reports behind a literal of `k` characters. -/
def NextFmt.behind (k : Nat) (r : NextFmt) : NextFmt :=
  { r with
    consumedLen := if r.consumedLen = 0 then 0 else r.consumedLen + k
    literalLen := r.literalLen + k }

section Shift

variable {format : CString} {fmt k : Nat}

/-- Two scans at one place of the format, the second of them begun `k` characters earlier. In the first stage neither
has noted a literal. -/
structure Scan.Behind (k : Nat) (s t : Scan) : Prop where
  idx : t.idx = s.idx + k
  stage : t.stage = s.stage
  info : t.info = s.info
  literal : s.stage ≠ 0 → t.literalLen = s.literalLen + k

theorem Scan.Behind.terminated {s t : Scan} (h : s.Behind k t) : t.terminated = s.terminated.behind k := by
  obtain ⟨hidx, hstage, hinfo, hlit⟩ := h
  unfold Scan.terminated NextFmt.behind
  rw [hidx, hstage, hinfo]
  by_cases hzero : s.stage = 0
  · rw [if_pos hzero, if_pos hzero]
    simp only [Nat.add_one_ne_zero, if_false]
    congr 1
    omega
  · rw [if_neg hzero, if_neg hzero, hlit hzero]
    rfl

/-- In its first stage a scan only looks for the brace. -/
theorem checkToken_start {i : Nat} {info info' : FmtInfo} {ret : RetToken}
    (h : checkToken 0 format i info = .ok (ret, info')) : ret = .nextChar ∨ ret = .found := by
  have hcheck : checkStart format i info = .ok (ret, info') := h
  unfold checkStart at hcheck
  obtain ⟨c, -, hc⟩ := bind_eq_ok.1 hcheck
  rw [pure_ok] at hc
  cases hc
  by_cases hbrace : c = '{'.toUInt8
  · exact .inr (if_pos hbrace)
  · exact .inl (if_neg hbrace)

/-- What a check answers has the same effect on both scans. -/
theorem Scan.Behind.next {s t : Scan} (h : s.Behind k t) (hfits : t.idx + 1 < 4294967296) {ret : RetToken}
    (info : FmtInfo) (hret : s.stage = 0 → ret = .nextChar ∨ ret = .found) :
    (∃ r, s.next ret info = .inr r ∧ t.next ret info = .inr (r.behind k)) ∨
      ∃ s' t', s.next ret info = .inl s' ∧ t.next ret info = .inl t' ∧ s'.Behind k t' := by
  obtain ⟨hidx, hstage, hinfo, hlit⟩ := h
  have hs : u32 (s.idx + 1) = s.idx + 1 := Nat.mod_eq_of_lt (by omega)
  have ht : u32 (t.idx + 1) = s.idx + 1 + k := (Nat.mod_eq_of_lt hfits).trans (by omega)
  cases ret with
  | nextChar => exact .inr ⟨_, _, rfl, rfl, by rw [hs]; exact ht, hstage, rfl, hlit⟩
  | nextStage =>
    have hne : s.stage ≠ 0 := fun hzero => by cases hret hzero <;> contradiction
    exact .inr ⟨_, _, rfl, rfl, hidx, congrArg (· + 1) hstage, rfl, fun _ => hlit hne⟩
  | stop =>
    have hne : s.stage ≠ 0 := fun hzero => by cases hret hzero <;> contradiction
    refine .inl ⟨_, rfl, ?_⟩
    show Sum.inr _ = Sum.inr _
    unfold NextFmt.behind
    simp only [Nat.add_one_ne_zero, if_false]
    rw [hidx, hlit hne]
    congr 2
    omega
  | found =>
    refine .inr ⟨_, _, rfl, rfl, by rw [hs]; exact ht, congrArg (· + 1) hstage, rfl, fun _ => ?_⟩
    dsimp only
    rw [hstage]
    by_cases hzero : s.stage = 0
    · rw [if_pos hzero, if_pos hzero, hidx]
    · rw [if_neg hzero, if_neg hzero, hlit hzero]
  | error =>
    have hne : s.stage ≠ 0 := fun hzero => by cases hret hzero <;> contradiction
    refine .inl ⟨_, rfl, ?_⟩
    show Sum.inr _ = Sum.inr _
    unfold NextFmt.behind
    rw [hlit hne]
    rfl

/-- The two scans pass on in step: they are at one character, and so make the same check. -/
theorem Scan.Behind.pass {s t : Scan} (h : s.Behind k t) (hlen : format.strlen < 4294967296) :
    (∃ e, scanPass format (fmt + k) s = .error e ∧ scanPass format fmt t = .error e) ∨
      (∃ r, scanPass format (fmt + k) s = .ok (.inr r) ∧ scanPass format fmt t = .ok (.inr (r.behind k))) ∨
      ∃ s' t', scanPass format (fmt + k) s = .ok (.inl s') ∧ scanPass format fmt t = .ok (.inl t') ∧
        s'.Behind k t' := by
  have hplace : fmt + t.idx = fmt + k + s.idx := by rw [h.idx]; omega
  unfold scanPass
  rw [hplace, h.stage, h.info]
  cases hread : format.read (fmt + k + s.idx) with
  | error e => exact .inl ⟨e, rfl, rfl⟩
  | ok c =>
    rw [ok_bind, ok_bind]
    by_cases hzero : c = 0
    · rw [if_pos hzero, if_pos hzero, h.terminated]
      exact .inr (.inl ⟨_, rfl, rfl⟩)
    · rw [if_neg hzero, if_neg hzero]
      have hinside := CString.read_ne_zero hread hzero
      cases hcheck : checkToken s.stage format (fmt + k + s.idx) s.info with
      | error e => exact .inl ⟨e, rfl, rfl⟩
      | ok r =>
        have hret : s.stage = 0 → r.1 = .nextChar ∨ r.1 = .found := fun hstart => by
          rw [hstart] at hcheck
          exact checkToken_start hcheck
        obtain ⟨ret, info⟩ := r
        rw [ok_bind, ok_bind]
        rcases h.next (by rw [h.idx]; omega) info hret with ⟨r', hr, hr'⟩ | ⟨s', t', hs', ht', hnext⟩
        · exact .inr (.inl ⟨r', congrArg _ hr, congrArg _ hr'⟩)
        · exact .inr (.inr ⟨s', t', congrArg _ hs', congrArg _ ht', hnext⟩)

/-- The first stage goes over plain text. -/
theorem iterate_plain {l rest : List UInt8} {idx : Nat} (hplain : PlainText l)
    (hat : format.chars.drop (fmt + idx) = l ++ rest) (hlen : format.strlen < 4294967296) (fuel : Nat) :
    Lib.iterate .diverged (scanPass format fmt) (fuel + l.length) ⟨idx, 0, {}, 0⟩ =
      Lib.iterate .diverged (scanPass format fmt) fuel ⟨idx + l.length, 0, {}, 0⟩ := by
  induction l generalizing idx with
  | nil => rfl
  | cons c l ih =>
    have hc := hplain c List.mem_cons_self
    have hinside := CString.read_ne_zero (CString.read_drop hat) (CString.drop_ne_zero hat)
    have hcheck : checkToken 0 format (fmt + idx) {} = .ok (.nextChar, {}) := by
      show checkStart format (fmt + idx) {} = _
      unfold checkStart
      rw [CString.read_drop hat, ok_bind, if_neg hc]
      rfl
    have hpass : scanPass format fmt ⟨idx, 0, {}, 0⟩ = .ok (.inl ⟨idx + 1, 0, {}, 0⟩) := by
      have hnext : u32 (idx + 1) = idx + 1 := Nat.mod_eq_of_lt (by omega)
      have heq := scanPass_eq (s := ⟨idx, 0, {}, 0⟩) hat hcheck
      simp only [Scan.next, hnext] at heq
      exact heq
    have hnext : format.chars.drop (fmt + (idx + 1)) = l ++ rest := drop_succ_of_cons hat
    rw [List.length_cons, ← Nat.add_assoc, Lib.iterate_again hpass,
      ih (fun c' hc' => hplain c' (List.mem_cons_of_mem c hc')) hnext]
    congr 2
    omega

/-- **A literal is passed over.** In every format a 32-bit index reaches the end of, a scan that starts with a text
without braces does what the scan behind this text does, fault for fault, and counts the text as literal. -/
theorem getNextFmt_literal {l rest : List UInt8} (hplain : PlainText l) (hat : format.chars.drop fmt = l ++ rest)
    (hlen : format.strlen < 4294967296) (fuel : Nat) :
    getNextFmt (fuel + l.length) format fmt =
      (getNextFmt fuel format (fmt + l.length)).map (NextFmt.behind l.length) := by
  have hstart : format.chars.drop (fmt + 0) = l ++ rest := hat
  unfold getNextFmt
  rw [iterate_plain hplain hstart hlen, Nat.zero_add]
  refine Lib.iterate_sim (Scan.Behind l.length) (NextFmt.behind l.length) (fun s t h => h.pass hlen) fuel _ _ ?_
  exact ⟨(Nat.zero_add _).symm, rfl, rfl, fun h => absurd rfl h⟩

end Shift

/-! ## Formats before they are spelled -/

/-- Literal text: characters of a string, none of which opens a descriptor. -/
abbrev Literal : Type := { l : List UInt8 // PlainText l ∧ ∀ c ∈ l, c ≠ 0 }

/-- A literal before each descriptor, and one behind the last. -/
structure FormatText where
  fields : List (Literal × Descriptor)
  last : Literal

namespace FormatText

def fieldsSpelling : List (Literal × Descriptor) → List UInt8
  | [] => []
  | f :: fs => f.1.val ++ (f.2.spelling ++ fieldsSpelling fs)

/-- The format as it is written down. -/
def spelling (t : FormatText) : List UInt8 := fieldsSpelling t.fields ++ t.last.val

variable (strs : Nat → CString) (args : Vector UInt64 MAX_ARG_CNT) (last : Literal)

def layoutOf : List (Literal × Descriptor) → Nat → Layout
  | [], _ => .chunk last.val .none .done
  | f :: fs, argIdx => .chunk f.1.val (fieldPiece strs args argIdx f.2.readInfo) (layoutOf fs (argIdx + 1))

/-- The finished text of a piece. -/
def pieceText : Piece → List UInt8
  | .str text => text
  | .num t => t.text
  | _ => []

/-- What the descriptors and the literals say, up to the first descriptor that fails, and the error of this one. -/
def printed : List (Literal × Descriptor) → Nat → List UInt8 × Int
  | [], _ => (last.val, OK)
  | f :: fs, argIdx =>
    match fieldPiece strs args argIdx f.2.readInfo with
    | .fails e _ => (f.1.val, e)
    | p => (f.1.val ++ (pieceText p ++ (printed fs (argIdx + 1)).1), (printed fs (argIdx + 1)).2)

end FormatText

section Spelled

variable {format : CString} {fmt : Nat}

/-- The terminator is the end of a format. -/
theorem getNextFmt_end (fuel : Nat) : getNextFmt (fuel + 1) format format.strlen = .ok ⟨OK, {}, 1, 0, true⟩ := by
  refine Lib.iterate_done ?_
  unfold scanPass
  rw [Nat.add_zero, CString.read_strlen, ok_bind, if_pos rfl]
  rfl

/-- The last literal. -/
theorem getNextFmt_last {l : List UInt8} (hplain : PlainText l) (hat : format.chars.drop fmt = l)
    (hfmt : fmt ≤ format.strlen) (hlen : format.strlen < 4294967296) {fuel : Nat} (hfuel : l.length < fuel) :
    ∃ n, getNextFmt fuel format fmt = .ok ⟨OK, {}, n, l.length, true⟩ := by
  obtain ⟨rest, rfl⟩ : ∃ rest, fuel = rest + 1 + l.length := ⟨fuel - 1 - l.length, by omega⟩
  have hend : fmt + l.length = format.strlen := by
    rw [← hat, List.length_drop]
    unfold CString.strlen at hfmt ⊢
    omega
  rw [getNextFmt_literal hplain (hat.trans (List.append_nil l).symm) hlen, hend, getNextFmt_end]
  refine ⟨1 + l.length, ?_⟩
  show Except.ok _ = Except.ok _
  simp [NextFmt.behind]

/-- A literal and the descriptor behind it. -/
theorem getNextFmt_field {l text : List UInt8} (hplain : PlainText l) (d : Descriptor)
    (hat : format.chars.drop fmt = l ++ (d.spelling ++ text)) (hlen : format.strlen < 4294967296) {fuel : Nat}
    (hfuel : l.length + d.spelling.length + 10 ≤ fuel) :
    getNextFmt fuel format fmt = .ok ⟨OK, d.readInfo, l.length + d.spelling.length, l.length, false⟩ := by
  obtain ⟨rest, rfl⟩ : ∃ rest, fuel = rest + l.length := ⟨fuel - l.length, by omega⟩
  have hpos : d.spelling.length ≠ 0 := by simp [Descriptor.spelling]
  rw [getNextFmt_literal hplain hat hlen, getNextFmt_reads d (drop_append_length hat) (by omega)]
  show Except.ok _ = Except.ok _
  simp [NextFmt.behind, hpos, Nat.add_comm]

namespace FormatText

/-- **A spelled format is read back**: its layout consists of its literals and descriptors, in order. -/
theorem layoutFrom_spelled (strs : Nat → CString) (args : Vector UInt64 MAX_ARG_CNT) (last : Literal)
    (hlen : format.strlen < 4294967296) {scans : Nat} (hscans : format.strlen + 10 ≤ scans)
    (fs : List (Literal × Descriptor)) {fuel fmt : Nat} (hfuel : fs.length < fuel) (hfmt : fmt ≤ format.strlen)
    (hat : format.chars.drop fmt = fieldsSpelling fs ++ last.val) (argIdx : Nat) :
    layoutFrom scans strs format args fuel fmt argIdx = layoutOf strs args last fs argIdx := by
  induction fs generalizing fuel fmt argIdx with
  | nil =>
    obtain ⟨fuel, rfl⟩ : ∃ k, fuel = k + 1 := ⟨fuel - 1, by simp at hfuel; omega⟩
    have hlast : format.chars.drop fmt = last.val := hat
    have hshort := congrArg List.length hlast
    rw [List.length_drop] at hshort
    unfold CString.strlen at hscans
    obtain ⟨n, hscan⟩ := getNextFmt_last last.property.1 hlast hfmt hlen (show last.val.length < scans by omega)
    rw [layoutFrom_ok strs format args hscan, if_neg (by simp), hlast]
    simp [layoutOf, fieldPiece]
  | cons f fs ih =>
    obtain ⟨fuel, rfl⟩ : ∃ k, fuel = k + 1 := ⟨fuel - 1, by simp at hfuel; omega⟩
    have hhere : format.chars.drop fmt = f.1.val ++ (f.2.spelling ++ (fieldsSpelling fs ++ last.val)) := by
      rw [hat, fieldsSpelling]
      simp
    have hshort := congrArg List.length hhere
    simp only [List.length_drop, List.length_append] at hshort
    unfold CString.strlen at hscans hfmt ih
    have hscan := getNextFmt_field f.1.property.1 f.2 hhere hlen (show _ ≤ scans by omega)
    have hnext : format.chars.drop (fmt + (f.1.val.length + f.2.spelling.length)) = fieldsSpelling fs ++ last.val := by
      rw [← Nat.add_assoc]
      exact drop_append_length (drop_append_length hhere)
    have htype : f.2.readInfo.type ≠ .none := f.2.type.property
    rw [layoutFrom_ok strs format args hscan, if_neg (by simp), hhere]
    simp only [List.take_left, Bool.false_eq_true, if_false, if_neg htype]
    rw [ih (by simpa using hfuel) (by omega) hnext, layoutOf]

theorem length_fields_le (fs : List (Literal × Descriptor)) : fs.length ≤ (fieldsSpelling fs).length := by
  induction fs with
  | nil => exact Nat.le_refl 0
  | cons f fs ih =>
    have hpos : 0 < f.2.spelling.length := by simp [Descriptor.spelling]
    simp only [List.length_cons, fieldsSpelling, List.length_append]
    omega

/-- The layout of a spelled format. -/
theorem layout_spelled (t : FormatText) (strs : Nat → CString) (args : Vector UInt64 MAX_ARG_CNT)
    (hat : format.chars = t.spelling) (hlen : format.strlen < 4294967296) {fuel : Nat}
    (hfuel : format.strlen + 10 ≤ fuel) :
    layout fuel strs format args = layoutOf strs args t.last t.fields 0 := by
  have hcount := length_fields_le t.fields
  have hlength := congrArg List.length hat
  rw [spelling, List.length_append] at hlength
  unfold CString.strlen at hfuel
  exact layoutFrom_spelled strs args t.last hlen hfuel t.fields (by omega) (Nat.zero_le _) hat 0

end FormatText

end Spelled

/-! ## What is printed -/

/-- A number in a room with a place to spare is written as a whole. -/
theorem NumText.render_whole {t : NumText} {room : Nat} (h : t.text.length < room) :
    t.render room = .ok ⟨t.text, OK, true⟩ := by
  have hlength := t.length_text
  have hcore := t.core_le_left
  have hclear : t.Clear room := .inr (.inr (by omega))
  rw [NumText.render_of_clear hclear, if_neg (by omega), NumText.fitted, NumText.text,
    List.take_of_length_le (by omega), List.take_of_length_le (by omega)]

/-- An argument that cannot be shown is missing, or of no type; none is truncated. -/
theorem fieldPiece_error {strs : Nat → CString} {args : Vector UInt64 MAX_ARG_CNT} {argIdx : Nat} {info : FmtInfo}
    {e : Int} {h : e ≠ OK} (hpiece : fieldPiece strs args argIdx info = .fails e h) : e ≠ ERROR_STRING_TRUNCATED := by
  unfold fieldPiece at hpiece
  split at hpiece
  · cases hpiece
  · split at hpiece
    · cases hpiece
      decide
    · unfold argPiece at hpiece
      split at hpiece
      · cases hpiece
      · split at hpiece <;> cases hpiece
      · cases hpiece
      · cases hpiece
      · split at hpiece <;> cases hpiece
        decide
      · cases hpiece
        decide

namespace FormatText

variable (strs : Nat → CString) (args : Vector UInt64 MAX_ARG_CNT) (last : Literal)

theorem printed_error (fs : List (Literal × Descriptor)) (argIdx : Nat) :
    (printed strs args last fs argIdx).2 ≠ ERROR_STRING_TRUNCATED := by
  induction fs generalizing argIdx with
  | nil => exact truncated_ne_ok.symm
  | cons f fs ih =>
    unfold printed
    split
    · next e h hpiece => exact fieldPiece_error hpiece
    · exact ih (argIdx + 1)

/-- A piece that does not fail is written as a whole where there is a place to spare, and so is what comes after it. -/
theorem render_chunk_whole {lit : List UInt8} {p : Piece} {rest : Layout} {room : Nat} {text : List UInt8} {e : Int}
    (hp : p.render (room - lit.length) = .ok ⟨pieceText p, OK, true⟩)
    (hroom : (lit ++ (pieceText p ++ text)).length < room)
    (hrest : rest.render (room - (lit ++ pieceText p).length) = .ok ⟨text, e, true⟩) :
    (Layout.chunk lit p rest).render room = .ok ⟨lit ++ (pieceText p ++ text), e, true⟩ := by
  rw [List.length_append] at hroom hrest
  rw [Layout.render_chunk_goesOn (by omega) (by omega) hp rfl, hrest, ok_bind, List.append_assoc]
  rfl

/-- **The layout of a spelled format is rendered as a whole** where there is a place to spare. -/
theorem render_layoutOf (fs : List (Literal × Descriptor)) {argIdx room : Nat}
    (hroom : (printed strs args last fs argIdx).1.length < room) :
    (layoutOf strs args last fs argIdx).render room =
      .ok ⟨(printed strs args last fs argIdx).1, (printed strs args last fs argIdx).2, true⟩ := by
  induction fs generalizing argIdx room with
  | nil =>
    have hlast : last.val.length < room := hroom
    have hwhole := @render_chunk_whole last.val .none .done room [] OK rfl (by simpa [pieceText] using hlast) rfl
    simpa [layoutOf, printed, pieceText] using hwhole
  | cons f fs ih =>
    rw [layoutOf]
    unfold printed at hroom ⊢
    cases hpiece : fieldPiece strs args argIdx f.2.readInfo with
    | fails e h =>
      rw [hpiece] at hroom
      have hlit : f.1.val.length < room := hroom
      unfold Layout.render renderChunk Piece.render
      rw [if_neg (by omega), if_neg (by omega), ok_bind, ok_bind, if_pos h, List.append_nil]
    | none =>
      rw [hpiece] at hroom
      exact render_chunk_whole rfl hroom (ih (by simp [pieceText] at hroom ⊢; omega))
    | str text =>
      rw [hpiece] at hroom
      dsimp only [pieceText] at hroom
      have hfit : ¬ room - f.1.val.length ≤ text.length := by simp at hroom; omega
      exact render_chunk_whole (if_neg hfit) hroom (ih (by simp [pieceText] at hroom ⊢; omega))
    | num t =>
      rw [hpiece] at hroom
      dsimp only [pieceText] at hroom
      have hfit : t.text.length < room - f.1.val.length := by simp at hroom; omega
      exact render_chunk_whole (NumText.render_whole hfit) hroom (ih (by simp [pieceText] at hroom ⊢; omega))

end FormatText

/-- **What `snprint` prints.** For every format that can be spelled (any literals, any descriptors between them, in any
number), all arguments, and every buffer with a place to spare: the literals and the arguments under their descriptors
are in the buffer, one after the other and terminated, up to the first descriptor without an argument; the count is
their length, and the code says whether the end was reached. -/
theorem snprint_spelled (t : FormatText) {format : CString} (hat : format.chars = t.spelling)
    (hlen : format.strlen < 4294967296) {fuel : Nat} (hfuel : format.strlen + 10 ≤ fuel) (strs : Nat → CString)
    (args : Vector UInt64 MAX_ARG_CNT) {str : List UInt8}
    (hroom : (FormatText.printed strs args t.last t.fields 0).1.length + 1 < str.length)
    (hlt : str.length < 18446744073709551616) :
    ∃ p, snprint fuel strs str format args = .ok p ∧
      p.mem.take (p.r + 1) = (FormatText.printed strs args t.last t.fields 0).1 ++ [0] ∧
      p.r = (FormatText.printed strs args t.last t.fields 0).1.length ∧
      p.e = (FormatText.printed strs args t.last t.fields 0).2 ∧ p.mem.length = str.length ∧ p.padsInside = true := by
  have hprints := snprint_prints fuel strs (show 0 < str.length by omega) hlt format args
  rw [t.layout_spelled strs args hat hlen hfuel,
    FormatText.render_layoutOf strs args t.last t.fields (show _ < str.length - 1 by omega)] at hprints
  obtain ⟨p, hrun, hp⟩ := hprints
  have hcount := hp.count
  rw [if_pos (FormatText.printed_error strs args t.last t.fields 0)] at hcount
  refine ⟨p, hrun, ?_, hcount, hp.e, hp.length, hp.inside⟩
  rw [hcount]
  exact hp.written

namespace FormatText

/-- What an argument looks like under a descriptor. -/
def argText (strs : Nat → CString) (d : Descriptor) (arg : UInt64) : List UInt8 :=
  pieceText (argPiece strs d.readInfo arg)

/-- A descriptor that has its argument, and a string if it wants one, prints it. -/
theorem printed_arg {strs : Nat → CString} {args : Vector UInt64 MAX_ARG_CNT} {last : Literal}
    {f : Literal × Descriptor} {fs : List (Literal × Descriptor)} {argIdx : Nat} {arg : UInt64}
    (harg : args[argIdx]? = some arg) (hnull : f.2.type.val = .string → arg ≠ 0) :
    printed strs args last (f :: fs) argIdx =
      (f.1.val ++ (argText strs f.2 arg ++ (printed strs args last fs (argIdx + 1)).1),
        (printed strs args last fs (argIdx + 1)).2) := by
  have htype : f.2.readInfo.type = f.2.type.val := rfl
  have hpiece : fieldPiece strs args argIdx f.2.readInfo = argPiece strs f.2.readInfo arg := by
    unfold fieldPiece
    rw [if_neg (by rw [htype]; exact f.2.type.property), harg]
  have hshown : ∀ e h, argPiece strs f.2.readInfo arg ≠ .fails e h := by
    intro e h
    unfold argPiece
    rw [htype]
    cases hkind : f.2.type.val with
    | none => exact absurd hkind f.2.type.property
    | dec => dsimp only; split <;> rintro ⟨⟩
    | bin => rintro ⟨⟩
    | octal => rintro ⟨⟩
    | lowHex => rintro ⟨⟩
    | string =>
      have hne : arg.toNat ≠ 0 := fun hzero => hnull hkind (UInt64.toNat_inj.1 hzero)
      dsimp only
      rw [if_neg hne]
      rintro ⟨⟩
  rw [printed, hpiece]
  split
  · next e h heq => exact absurd heq (hshown e h)
  · rfl

end FormatText

/-! ## Formats of the source -/

instance (l : List UInt8) : Decidable (PlainText l) := List.decidableBAll _ l

/-- Literal text, from a string literal. -/
def Literal.ofString (s : String) (hplain : PlainText (s.toList.map Char.toUInt8))
    (hnul : ∀ c ∈ s.toList.map Char.toUInt8, c ≠ 0) : Literal := ⟨_, hplain, hnul⟩

/-- Nothing, and the end of a line. -/
def Literal.nothing : Literal := ⟨[], by decide, by decide⟩
def Literal.newline : Literal := .ofString "\n" (by decide) (by decide)

namespace Descriptor

/-- `{:t}`: nothing but the type. -/
def bare (type : { t : VarType // t ≠ .none }) : Descriptor where
  align := none
  sign := none
  alternateForm := false
  zeroPadding := false
  minWidth := none
  precise := none
  type

/-- `{:d}`. -/
def decimal : Descriptor := bare ⟨.dec, by simp⟩

/-- `{:s}`. -/
def str : Descriptor := bare ⟨.string, by simp⟩

/-- `{:#x}`. -/
def hashHex : Descriptor := { bare ⟨.lowHex, by simp⟩ with alternateForm := true }

end Descriptor

namespace FormatText

/-- A number in decimal has the sign of its 64 bits. -/
theorem argPiece_dec (strs : Nat → CString) {info : FmtInfo} (hdec : info.type = .dec) (arg : UInt64) :
    argPiece strs info arg =
      .num (numText (toInt64 arg.toNat).natAbs 10 info (decide (0 ≤ toInt64 arg.toNat))) := by
  have hlt : arg.toNat < 18446744073709551616 := arg.toNat_lt
  unfold argPiece
  rw [hdec]
  dsimp only
  unfold toInt64
  by_cases hlow : arg.toNat < 9223372036854775808
  · rw [if_pos hlow, if_neg (by omega), decide_eq_true (by omega), Int.natAbs_natCast]
  · have hneg : sub64 0 arg.toNat = ((arg.toNat : Int) - 18446744073709551616).natAbs := by
      unfold sub64
      omega
    rw [if_neg hlow, if_pos (by omega), decide_eq_false (by omega), hneg]

theorem argText_decimal (strs : Nat → CString) (arg : UInt64) :
    argText strs .decimal arg =
      signOf .neg (toInt64 arg.toNat) ++ Lib.numeral 10 digitAt (toInt64 arg.toNat).natAbs := by
  unfold argText
  rw [argPiece_dec strs rfl]
  exact numText_text rfl _ (by decide)

theorem argText_hashHex (strs : Nat → CString) (arg : UInt64) :
    argText strs .hashHex arg = '0'.toUInt8 :: 'x'.toUInt8 :: Lib.numeral 16 digitAt arg.toNat := by
  have htext := @numText_text Descriptor.hashHex.readInfo rfl arg.toNat 16 (by decide)
  rw [decide_eq_true (Int.natCast_nonneg _)] at htext
  exact htext

/-- A string without width and precision is shown as it is. -/
theorem argText_str (strs : Nat → CString) {arg : UInt64} (h : arg ≠ 0) :
    argText strs .str arg = (strs arg.toNat).chars := by
  have hne : arg.toNat ≠ 0 := fun hzero => h (UInt64.toNat_inj.1 hzero)
  have hlen : strLen (strs arg.toNat) Descriptor.str.readInfo = (strs arg.toNat).chars.length := rfl
  have hpads : strPads Descriptor.str.readInfo (strs arg.toNat).chars.length = (0, 0) := by
    have hfits := (strs arg.toNat).fits
    have hmax : utilMax (strs arg.toNat).chars.length 0 = (strs arg.toNat).chars.length := by
      rw [utilMax_eq, Nat.max_zero]
    show (sub64 (utilMax _ 0) _, 0) = _
    rw [hmax, sub64_of_le (Nat.le_refl _) hfits, Nat.sub_self]
  have hpiece : argPiece strs Descriptor.str.readInfo arg = .str (strText (strs arg.toNat) Descriptor.str.readInfo) :=
    if_neg hne
  unfold argText
  rw [hpiece]
  show strText _ _ = _
  unfold strText
  rw [hlen]
  dsimp only
  rw [hpads]
  simp

end FormatText

end GunyahRuntime
