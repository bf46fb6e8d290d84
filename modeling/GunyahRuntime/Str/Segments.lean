/-
# GunyahRuntime.Str.Segments -- the segments of a format and the arguments of its descriptors

`SnprintRun` is the loop of `snprint` up to one of its passes, with the segments of the format it has gone through and
the calls of `gen_str` it has made. `snprint_scans_iff` says for which formats it ends, its segments follow one another
from the start of the format, and its calls get the arguments in their order, the sixth of which there is none.
-/
import GunyahRuntime.Str.Safety
import GunyahRuntime.Str.Wrapping

namespace GunyahRuntime

open Lib (Passes)

/-! ## Segments -/

/-- Segments that follow one another from `a` to `b`, none of them empty. -/
def Tiles : Nat → List (Nat × Nat) → Nat → Prop
  | a, [], b => a = b
  | a, seg :: segs, b => seg.1 = a ∧ seg.1 < seg.2 ∧ Tiles seg.2 segs b

theorem Tiles.append {a b c : Nat} {segs : List (Nat × Nat)} (h : Tiles a segs b) (hlt : b < c) :
    Tiles a (segs ++ [(b, c)]) c := by
  induction segs generalizing a with
  | nil => exact ⟨h.symm, hlt, rfl⟩
  | cons seg segs ih => exact ⟨h.1, h.2.1, ih h.2.2⟩

theorem Tiles.length_le {a b : Nat} {segs : List (Nat × Nat)} (h : Tiles a segs b) : a + segs.length ≤ b := by
  induction segs generalizing a with
  | nil => exact Nat.le_of_eq h
  | cons seg segs ih =>
    obtain ⟨rfl, hlt, hrest⟩ := h
    have := ih hrest
    rw [List.length_cons]
    omega

/-! ## Runs of `snprint` -/

/-- Calls of `gen_str`: the descriptor and the argument that each is given. -/
abbrev GenCalls : Type := List (FmtInfo × UInt64)

/-- `gen_str`, with a note of what it is given. -/
def genStrNoted (strs : Nat → CString) (o : OutBuf) (info : FmtInfo) (arg : UInt64) :
    Exec ((OutBuf × Int × Nat) × GenCalls) := do
  let r ← genStr strs o info arg
  return (r, [(info, arg)])

/-- `snprintField` with the notes of `gen_str`. -/
def snprintFieldNoted (strs : Nat → CString) (args : Vector UInt64 MAX_ARG_CNT) (argIdx : Nat) (info : FmtInfo)
    (o : OutBuf) : Exec ((OutBuf × Int) × GenCalls) :=
  if info.type = .none then
    .ok ((o, OK), [])
  else
    match args[argIdx]? with
    | none => .ok ((o, ERROR_STRING_MISSING_PLACEHOLDER), [])
    | some arg => do
      let ((o', ret, consumedLen), calls) ← genStrNoted strs o info arg
      let left ← settle o o' ret consumedLen
      return (left, calls)

/-- `snprint` before a pass of its loop, with the segments of the format it has consumed and the calls of `gen_str`
it has made. -/
structure SnprintState where
  o : OutBuf
  fmt : Nat
  argIdx : Nat
  segments : List (Nat × Nat)
  calls : GenCalls

/-- The state after a pass that found `r`, left the buffer `o` and made the calls `calls`. -/
def SnprintState.after (st : SnprintState) (r : NextFmt) (o : OutBuf) (calls : GenCalls) : SnprintState where
  o := o
  fmt := st.fmt + r.consumedLen
  argIdx := if r.info.type = .none then st.argIdx else st.argIdx + 1
  segments := st.segments ++ [(st.fmt, st.fmt + r.consumedLen)]
  calls := st.calls ++ calls

/-- `snprint` at its start. -/
def SnprintState.start (str : List UInt8) : SnprintState := ⟨⟨⟨str, 0, str.length - 1⟩, true⟩, 0, 0, [], []⟩

/-- What a pass does with the format's next segment. -/
def snprintChunk (strs : Nat → CString) (format : CString) (args : Vector UInt64 MAX_ARG_CNT) (st : SnprintState)
    (r : NextFmt) : Exec (OutBuf × Int) :=
  andThen (snprintLiteral format st.fmt r.literalLen) (snprintField strs args st.argIdx r.info) st.o

/-- The same with the notes of `gen_str`. -/
def snprintChunkNoted (strs : Nat → CString) (format : CString) (args : Vector UInt64 MAX_ARG_CNT) (st : SnprintState)
    (r : NextFmt) : Exec ((OutBuf × Int) × GenCalls) := do
  let (o, ret) ← snprintLiteral format st.fmt r.literalLen st.o
  if ret ≠ OK then return ((o, ret), [])
  else snprintFieldNoted strs args st.argIdx r.info o

/-- The states that the passes of a call of `snprint` lead to. -/
inductive SnprintRun (fuel : Nat) (strs : Nat → CString) (str : List UInt8) (format : CString)
    (args : Vector UInt64 MAX_ARG_CNT) : SnprintState → Prop
  | start : SnprintRun fuel strs str format args (.start str)
  | pass {st : SnprintState} {r : NextFmt} {o : OutBuf} {calls : GenCalls} :
      SnprintRun fuel strs str format args st → st.o.cur.room ≠ 0 → getNextFmt fuel format st.fmt = .ok r → r.ret = OK →
      r.atEnd = false → snprintChunkNoted strs format args st r = .ok ((o, OK), calls) →
      SnprintRun fuel strs str format args (st.after r o calls)

/-- What every state of a run has. -/
structure SnprintState.Good (format : CString) (args : Vector UInt64 MAX_ARG_CNT) (st : SnprintState) : Prop where
  ok : st.o.Ok
  inside : st.fmt ≤ format.strlen
  tiles : Tiles 0 st.segments st.fmt
  counted : st.argIdx = st.calls.length
  ordered : st.calls.map Prod.snd = args.toList.take st.calls.length

section Run

variable {fuel : Nat} {strs : Nat → CString} {str : List UInt8} {format : CString} {args : Vector UInt64 MAX_ARG_CNT}
  {st : SnprintState} {r : NextFmt} {o : OutBuf} {ret : Int} {calls : GenCalls}

theorem SnprintState.start_good (hpos : 0 < str.length) (hlt : str.length < 18446744073709551616) :
    (SnprintState.start str).Good format args where
  ok := ⟨show 0 + (str.length - 1) + 1 = str.length by omega, hlt⟩
  inside := Nat.zero_le _
  tiles := rfl
  counted := rfl
  ordered := rfl

/-- The notes change nothing. -/
theorem snprintFieldNoted_fst (argIdx : Nat) (info : FmtInfo) (o : OutBuf) :
    Prod.fst <$> snprintFieldNoted strs args argIdx info o = snprintField strs args argIdx info o := by
  unfold snprintFieldNoted snprintField
  by_cases htype : info.type = .none
  · rw [if_pos htype, if_pos htype]
    rfl
  · rw [if_neg htype, if_neg htype]
    cases args[argIdx]? with
    | none => rfl
    | some arg =>
      unfold genStrNoted
      dsimp only
      cases genStr strs o info arg with
      | error e => rfl
      | ok x =>
        obtain ⟨o', ret, consumedLen⟩ := x
        show Prod.fst <$> (settle o o' ret consumedLen >>= fun left => pure (left, [(info, arg)])) =
          settle o o' ret consumedLen
        cases settle o o' ret consumedLen <;> rfl

theorem snprintChunkNoted_fst (strs : Nat → CString) (format : CString) (args : Vector UInt64 MAX_ARG_CNT)
    (st : SnprintState) (r : NextFmt) :
    Prod.fst <$> snprintChunkNoted strs format args st r = snprintChunk strs format args st r := by
  unfold snprintChunkNoted snprintChunk andThen
  cases snprintLiteral format st.fmt r.literalLen st.o with
  | error e => rfl
  | ok x =>
    obtain ⟨o, ret⟩ := x
    rw [ok_bind, ok_bind]
    dsimp only
    by_cases hret : ret = OK
    · rw [if_neg (not_not.2 hret), if_neg (not_not.2 hret), snprintFieldNoted_fst]
    · rw [if_pos hret, if_pos hret]
      rfl

theorem snprintChunk_of_noted {x : OutBuf × Int} (h : snprintChunkNoted strs format args st r = .ok (x, calls)) :
    snprintChunk strs format args st r = .ok x := by
  rw [← snprintChunkNoted_fst, h]
  rfl

theorem exists_noted {x : OutBuf × Int} (h : snprintChunk strs format args st r = .ok x) :
    ∃ calls, snprintChunkNoted strs format args st r = .ok (x, calls) := by
  rw [← snprintChunkNoted_fst] at h
  cases hnoted : snprintChunkNoted strs format args st r with
  | error e =>
    rw [hnoted] at h
    cases h
  | ok y =>
    rw [hnoted] at h
    obtain rfl := Except.ok.inj h
    exact ⟨y.2, rfl⟩

/-- What `gen_str` is given in a pass: the descriptor that was found, and the argument at the index. -/
theorem snprintChunkNoted_calls {x : OutBuf × Int} (h : snprintChunkNoted strs format args st r = .ok (x, calls)) :
    (calls = [] ∧ (x.2 = OK → r.info.type = .none)) ∨
      r.info.type ≠ .none ∧ ∃ arg, args[st.argIdx]? = some arg ∧ calls = [(r.info, arg)] := by
  obtain ⟨⟨o₁, e⟩, -, h⟩ := bind_eq_ok.1 h
  dsimp only at h
  by_cases he : e = OK
  · rw [if_neg (not_not.2 he)] at h
    unfold snprintFieldNoted at h
    by_cases htype : r.info.type = .none
    · rw [if_pos htype] at h
      obtain ⟨-, rfl⟩ := Prod.mk.inj (Except.ok.inj h)
      exact .inl ⟨rfl, fun _ => htype⟩
    · rw [if_neg htype] at h
      cases harg : args[st.argIdx]? with
      | none =>
        rw [harg] at h
        obtain ⟨rfl, rfl⟩ := Prod.mk.inj (Except.ok.inj h)
        exact .inl ⟨rfl, fun hok => absurd hok (show ERROR_STRING_MISSING_PLACEHOLDER ≠ OK by decide)⟩
      | some arg =>
        rw [harg] at h
        obtain ⟨⟨⟨o', ret, consumedLen⟩, noted⟩, hnoted, h⟩ := bind_eq_ok.1 h
        obtain ⟨left, -, h⟩ := bind_eq_ok.1 h
        obtain ⟨-, rfl⟩ := Prod.mk.inj (Except.ok.inj h)
        obtain ⟨y, -, hy⟩ := bind_eq_ok.1 hnoted
        obtain ⟨-, rfl⟩ := Prod.mk.inj (Except.ok.inj hy)
        exact .inr ⟨htype, arg, rfl, rfl⟩
  · rw [if_pos he] at h
    obtain ⟨rfl, rfl⟩ := Prod.mk.inj (Except.ok.inj h)
    exact .inl ⟨rfl, fun hok => absurd hok he⟩

/-- The calls with those of the next pass: they get the arguments in their order. -/
theorem SnprintState.Good.ordered_next (hst : st.Good format args) {x : OutBuf × Int}
    (h : snprintChunkNoted strs format args st r = .ok (x, calls)) :
    (st.calls ++ calls).map Prod.snd = args.toList.take (st.calls ++ calls).length := by
  rcases snprintChunkNoted_calls h with ⟨rfl, -⟩ | ⟨-, arg, harg, rfl⟩
  · rw [List.append_nil]
    exact hst.ordered
  · have hget : args.toList[st.calls.length]? = some arg := by
      rw [← hst.counted]
      simpa using harg
    simp only [List.map_append, List.map_cons, List.map_nil, List.length_append, List.length_singleton,
      List.take_add_one, hget, Option.toList_some]
    rw [hst.ordered]

/-- What a pass leaves: a buffer as good as before, or a fault that is not one of reading. -/
theorem snprintChunk_cases (hst : st.Good format args) (hr : r.Consumes format st.fmt) :
    (∃ o ret, snprintChunk strs format args st r = .ok (o, ret) ∧ o.Ok) ∨
      ∃ f, snprintChunk strs format args st r = .error f ∧ f ≠ .diverged ∧ f ≠ .badRead := by
  have hsim := chunk_simulates strs format args hst.ok st.argIdx r.info hr.inside.1
  cases hrender : renderChunk ((format.chars.drop st.fmt).take r.literalLen) (fieldPiece strs args st.argIdx r.info)
      st.o.cur.room with
  | ok R =>
    rw [hrender] at hsim
    obtain ⟨o, hrun, hafter, -⟩ := hsim
    exact .inl ⟨o, R.e, hrun, hafter.ok hst.ok⟩
  | error f =>
    rw [hrender] at hsim
    refine .inr ⟨f, hsim, ?_⟩
    unfold renderChunk at hrender
    split at hrender
    · cases hrender
    · rcases bind_eq_error.1 hrender with hpiece | ⟨R, -, hR⟩
      · have hno := Piece.render_error hpiece
        exact ⟨fun h => hno (.inr h), fun h => hno (.inl h)⟩
      · cases hR

/-- **A pass keeps a state good.** -/
theorem SnprintState.Good.after (hst : st.Good format args) (hr : r.Consumes format st.fmt) (hret : r.ret = OK)
    (hend : r.atEnd = false) (hchunk : snprintChunkNoted strs format args st r = .ok ((o, OK), calls)) :
    (st.after r o calls).Good format args := by
  have hpos := hr.nonempty hret hend
  have hok : o.Ok := by
    rcases snprintChunk_cases hst hr with ⟨o', ret, hrun, ho'⟩ | ⟨f, hrun, -⟩
    · rw [(Prod.mk.inj (Except.ok.inj ((snprintChunk_of_noted hchunk).symm.trans hrun))).1]
      exact ho'
    · cases (snprintChunk_of_noted hchunk).symm.trans hrun
  refine ⟨hok, hr.inside.2 hret hend, hst.tiles.append (Nat.lt_add_of_pos_right hpos), ?_, hst.ordered_next hchunk⟩
  unfold SnprintState.after
  dsimp only
  rcases snprintChunkNoted_calls hchunk with ⟨rfl, hnone⟩ | ⟨htype, arg, -, rfl⟩
  · rw [if_pos (hnone rfl), List.append_nil]
    exact hst.counted
  · rw [if_neg htype, List.length_append, List.length_singleton, hst.counted]

/-- The loop from the start is the loop from any state of the run, with one pass less for each segment. -/
theorem SnprintRun.loop (h : SnprintRun fuel strs str format args st) (n : Nat) :
    snprintLoop fuel strs format args (n + st.segments.length) (SnprintState.start str).o 0 0 =
      snprintLoop fuel strs format args n st.o st.fmt st.argIdx := by
  induction h generalizing n with
  | start => rfl
  | @pass st r o calls hst hroom hscan hret hend hnoted ih =>
    have hchunk := snprintChunk_of_noted hnoted
    have hlen : (st.after r o calls).segments.length = st.segments.length + 1 := by
      simp [SnprintState.after]
    rw [hlen, show n + (st.segments.length + 1) = n + 1 + st.segments.length by omega, ih,
      snprintLoop_pass strs format args hroom hscan hret, andThen]
    unfold snprintChunk at hchunk
    rw [hchunk, ok_bind]
    dsimp only
    rw [if_neg (not_not.2 rfl), hend]
    rfl

/-! ## What a run promises -/

/-- The promise about a call of `snprint`: it ends; its scans read inside the format and answer; the segments they
consume follow one another from the start of the format; the calls of `gen_str`, those of the pass that ends the loop
among them, get the arguments in their order; and where a sixth descriptor is reached and there is room for what stands
before it, the call reports it. -/
structure ScansInside (fuel : Nat) (strs : Nat → CString) (str : List UInt8) (format : CString)
    (args : Vector UInt64 MAX_ARG_CNT) : Prop where
  ends : snprint fuel strs str format args ≠ .error .diverged
  reads : ∀ st, SnprintRun fuel strs str format args st → st.o.cur.room ≠ 0 →
    (∀ s, Passes (scanPass format st.fmt) Scan.start s → ∃ x, scanPass format st.fmt s = .ok x) ∧
      ∃ r, getNextFmt fuel format st.fmt = .ok r
  segments : ∀ st, SnprintRun fuel strs str format args st →
    Tiles 0 st.segments st.fmt ∧ st.fmt ≤ format.strlen
  arguments : ∀ st, SnprintRun fuel strs str format args st →
    st.calls.map Prod.snd = args.toList.take st.calls.length ∧
      ∀ r x calls, getNextFmt fuel format st.fmt = .ok r → snprintChunkNoted strs format args st r = .ok (x, calls) →
        (st.calls ++ calls).map Prod.snd = args.toList.take (st.calls ++ calls).length
  sixth : ∀ st r, SnprintRun fuel strs str format args st → st.calls.length = MAX_ARG_CNT → st.o.cur.room ≠ 0 →
    getNextFmt fuel format st.fmt = .ok r → r.ret = OK → r.info.type ≠ .none → r.literalLen ≤ st.o.cur.room →
    ∃ p, snprint fuel strs str format args = .ok p ∧ p.e = ERROR_STRING_MISSING_PLACEHOLDER

/-- Wherever a scan begins, and there is room for what it finds, the text is scannable. -/
def TextScannable (fuel : Nat) (strs : Nat → CString) (str : List UInt8) (format : CString)
    (args : Vector UInt64 MAX_ARG_CNT) : Prop :=
  ∀ st, SnprintRun fuel strs str format args st → st.o.cur.room ≠ 0 → Scannable format st.fmt

/-- The states of a run are good. -/
theorem SnprintRun.good (hpos : 0 < str.length) (hlt : str.length < 18446744073709551616)
    (h : SnprintRun fuel strs str format args st) : st.Good format args := by
  induction h with
  | start => exact SnprintState.start_good hpos hlt
  | pass hst hroom hscan hret hend hchunk ih => exact ih.after (getNextFmt_consumes ih.inside hscan) hret hend hchunk

/-- **The loop ends**: from a state of the run, with a pass for each character that is left and one more. -/
theorem SnprintRun.ends (hpos : 0 < str.length) (hlt : str.length < 18446744073709551616)
    (hfuel : 11 * (format.strlen + 1) ≤ fuel) (htext : TextScannable fuel strs str format args) (n : Nat) :
    ∀ st, SnprintRun fuel strs str format args st → format.strlen - st.fmt < n →
      snprintLoop fuel strs format args n st.o st.fmt st.argIdx ≠ .error .diverged := by
  induction n with
  | zero => exact fun st _ h => absurd h (Nat.not_lt_zero _)
  | succ n ih =>
    intro st hst hleft
    have hgood := hst.good hpos hlt
    by_cases hroom : st.o.cur.room = 0
    · rw [snprintLoop, if_pos hroom]
      rintro ⟨⟩
    · obtain ⟨r, hscan⟩ := (htext st hst hroom).returns hgood.inside hfuel
      have hr := getNextFmt_consumes hgood.inside hscan
      by_cases hret : r.ret = OK
      · rw [snprintLoop_pass strs format args hroom hscan hret, andThen]
        rcases snprintChunk_cases hgood hr with ⟨o, e, hchunk, -⟩ | ⟨f, hchunk, hf, -⟩
        · obtain ⟨calls, hnoted⟩ := exists_noted hchunk
          unfold snprintChunk at hchunk
          rw [hchunk, ok_bind]
          dsimp only
          by_cases he : e = OK
          · subst he
            rw [if_neg (not_not.2 rfl)]
            cases hend : r.atEnd with
            | true =>
              rw [if_pos rfl]
              rintro ⟨⟩
            | false =>
              have hpos' := hr.nonempty hret hend
              have hin := hr.inside.2 hret hend
              exact ih _ (.pass hst hroom hscan hret hend hnoted)
                (show format.strlen - (st.fmt + r.consumedLen) < n by omega)
          · rw [if_pos he]
            rintro ⟨⟩
        · unfold snprintChunk at hchunk
          rw [hchunk, error_bind]
          exact fun h => hf (Except.error.inj h)
      · rw [snprintLoop, if_neg hroom, hscan, ok_bind, if_pos hret]
        rintro ⟨⟩

/-- A call of `snprint` is its loop from the start, and the terminator. -/
theorem snprint_eq_start (hpos : 0 < str.length) (hlt : str.length < 18446744073709551616) :
    snprint fuel strs str format args = (do
      let (o, ret) ← snprintLoop fuel strs format args fuel (SnprintState.start str).o 0 0
      let mem ← storeByte o.cur.mem o.cur.pos 0
      return ⟨mem, ret, if ret ≠ ERROR_STRING_TRUNCATED then sub64 (sub64 str.length 1) o.cur.room else str.length,
        o.padsInside⟩) := by
  unfold snprint SnprintState.start
  dsimp only
  rw [sub64_of_le hpos hlt]

/-- A sixth descriptor that is reached with room for the literal before it is reported. -/
theorem SnprintRun.sixth (hpos : 0 < str.length) (hlt : str.length < 18446744073709551616)
    (hfuel : format.strlen < fuel) (hst : SnprintRun fuel strs str format args st) (hgood : st.Good format args)
    (hfull : st.calls.length = MAX_ARG_CNT) (hroom : st.o.cur.room ≠ 0)
    (hscan : getNextFmt fuel format st.fmt = .ok r) (hr : r.Consumes format st.fmt) (hret : r.ret = OK)
    (htype : r.info.type ≠ .none) (hfit : r.literalLen ≤ st.o.cur.room) :
    ∃ p, snprint fuel strs str format args = .ok p ∧ p.e = ERROR_STRING_MISSING_PLACEHOLDER := by
  have hsim := snprintLiteral_simulates format hgood.ok hr.inside.1
  rw [if_neg (Nat.not_lt.2 hfit)] at hsim
  obtain ⟨o, hlit, hafter, -⟩ := hsim
  have ho := (hafter.ok hgood.ok).full
  have hnone : args[st.argIdx]? = none := by simp [hgood.counted, hfull]
  have hfield : snprintField strs args st.argIdx r.info o = .ok (o, ERROR_STRING_MISSING_PLACEHOLDER) := by
    unfold snprintField
    rw [if_neg htype, hnone]
  have hchunk : andThen (snprintLiteral format st.fmt r.literalLen) (snprintField strs args st.argIdx r.info) st.o =
      .ok (o, ERROR_STRING_MISSING_PLACEHOLDER) := by
    rw [andThen, hlit, ok_bind]
    dsimp only
    rw [if_neg (not_not.2 rfl), hfield]
  -- the passes so far are as many as the segments, and one more is left
  have hsegments := hgood.tiles.length_le
  have hinside := hgood.inside
  obtain ⟨n, hn⟩ : ∃ n, fuel = n + 1 + st.segments.length := ⟨fuel - st.segments.length - 1, by omega⟩
  have hloop : snprintLoop fuel strs format args fuel (SnprintState.start str).o 0 0 =
      .ok (o, ERROR_STRING_MISSING_PLACEHOLDER) := by
    have hrest := hst.loop (n + 1)
    rw [← hn] at hrest
    rw [hrest, snprintLoop_pass strs format args hroom hscan hret, andThen, hchunk, ok_bind]
    rfl
  rw [snprint_eq_start hpos hlt, hloop, ok_bind]
  dsimp only
  rw [storeByte_ok (by omega), ok_bind]
  exact ⟨_, rfl, rfl⟩

/-- **Scanning ends, inside the format**: a call of `snprint` keeps the promise if and only if its scans begin at texts
that are scannable. -/
theorem snprint_scans_iff (fuel : Nat) (strs : Nat → CString) {str : List UInt8} (hpos : 0 < str.length)
    (hlt : str.length < 18446744073709551616) (format : CString) (args : Vector UInt64 MAX_ARG_CNT)
    (hfuel : 11 * (format.strlen + 1) ≤ fuel) :
    ScansInside fuel strs str format args ↔ TextScannable fuel strs str format args := by
  refine ⟨fun h st hst hroom => ?_, fun htext => ⟨?_, fun st hst hroom => ?_, fun st hst => ?_, fun st hst => ?_,
    fun st r hst hfull hroom hscan hret htype hfit => ?_⟩⟩
  · obtain ⟨-, r, hr⟩ := h.reads st hst hroom
    exact scannable_of_ok hr
  · have hloop := SnprintRun.ends hpos hlt hfuel htext fuel (.start str) .start (show format.strlen - 0 < fuel by omega)
    rw [snprint_eq_start hpos hlt]
    intro h
    rcases bind_eq_error.1 h with hdiverged | ⟨⟨o, ret⟩, -, hstore⟩
    · exact hloop hdiverged
    · rcases bind_eq_error.1 hstore with hbyte | ⟨mem, -, hdone⟩
      · unfold storeByte storeBytes at hbyte
        split at hbyte <;> cases hbyte
      · cases hdone
  · have hgood := hst.good hpos hlt
    exact ⟨fun s hs => (htext st hst hroom).reads hgood.inside hs, (htext st hst hroom).returns hgood.inside hfuel⟩
  · have hgood := hst.good hpos hlt
    exact ⟨hgood.tiles, hgood.inside⟩
  · have hgood := hst.good hpos hlt
    exact ⟨hgood.ordered, fun r x calls _ hchunk => hgood.ordered_next hchunk⟩
  · have hgood := hst.good hpos hlt
    exact hst.sixth hpos hlt (by omega) hgood hfull hroom hscan (getNextFmt_consumes hgood.inside hscan) hret htype hfit

end Run

/-- A format of two descriptors, with a character behind each. -/
theorem snprint_scans_two : ScansInside 143 noStrings (List.replicate 8 0)
    (CString.ofString "{:d},{:+06x}" (by decide) (by decide)) #v[42, 255, 0, 0, 0] :=
  (snprint_scans_iff 143 noStrings (by decide) (by decide) _ _ (by decide)).2 fun _ _ _ =>
    .inl (Nat.lt_of_lt_of_le (by decide) (Nat.le_add_left _ _))

/-! ## A format of `2 ^ 32` characters -/

/-- A format that is `n` times the letter `a`. -/
def letters (n : Nat) (hn : n < 18446744073709551616) : CString where
  chars := List.replicate n 97
  no_nul := fun c hc => by rw [List.eq_of_mem_replicate hc]; decide
  fits := by rwa [List.length_replicate]

theorem letters_read {n i : Nat} {hn : n < 18446744073709551616} (hi : i < n) : (letters n hn).read i = .ok 97 := by
  have hlt : i < (letters n hn).strlen := by
    unfold CString.strlen letters
    rwa [List.length_replicate]
  rw [(CString.read_lt hlt).1]
  simp [letters]

/-- **From `2 ^ 32` letters on, the scan never ends**: the index goes from the last one it can count back to the
first. -/
theorem getNextFmt_letters {n : Nat} {hn : n < 18446744073709551616} (hlong : 4294967296 ≤ n) (fuel : Nat) :
    getNextFmt fuel (letters n hn) 0 = .error .diverged := by
  refine Lib.iterate_never (fun s => s.stage = 0 ∧ s.idx < 4294967296) (fun s hs => ?_) fuel _ ⟨rfl, by decide⟩
  obtain ⟨hstage, hidx⟩ := hs
  have hread : (letters n hn).read (0 + s.idx) = .ok 97 := letters_read (by omega)
  have hcheck : checkToken s.stage (letters n hn) (0 + s.idx) s.info = .ok (.nextChar, s.info) := by
    rw [hstage]
    show checkStart (letters n hn) (0 + s.idx) s.info = _
    unfold checkStart
    rw [hread, ok_bind]
    rfl
  refine ⟨{ s with idx := u32 (s.idx + 1) }, ?_, hstage, Nat.mod_lt _ (by decide)⟩
  unfold scanPass
  rw [hread, ok_bind, if_neg (by decide), hcheck, ok_bind]
  rfl

/-- Nor does a call of `snprint` with room for a character. -/
theorem snprint_letters (fuel : Nat) (strs : Nat → CString) {str : List UInt8} (hroom : 1 < str.length)
    (hlt : str.length < 18446744073709551616) {n : Nat} {hn : n < 18446744073709551616} (hlong : 4294967296 ≤ n)
    (args : Vector UInt64 MAX_ARG_CNT) : snprint fuel strs str (letters n hn) args = .error .diverged := by
  have hstart : (SnprintState.start str).o.cur.room ≠ 0 := Nat.sub_ne_zero_of_lt hroom
  rw [snprint_eq_start (by omega) hlt]
  cases fuel with
  | zero => rw [snprintLoop, if_neg hstart, error_bind]
  | succ fuel => rw [snprintLoop, if_neg hstart, getNextFmt_letters hlong, error_bind, error_bind]

/-- Scanning does not end for every format. -/
theorem not_snprint_ends_letters :
    ¬ ∀ (strs : Nat → CString) (str : List UInt8) (format : CString) (args : Vector UInt64 MAX_ARG_CNT),
      0 < str.length → str.length < 18446744073709551616 →
      ∃ fuel, snprint fuel strs str format args ≠ .error .diverged := by
  intro h
  obtain ⟨fuel, hends⟩ := h noStrings [0, 0] (letters 4294967296 (by decide)) #v[0, 0, 0, 0, 0] (by decide) (by decide)
  exact hends (snprint_letters fuel noStrings (by decide) (by decide) (Nat.le_refl _) _)

end GunyahRuntime
