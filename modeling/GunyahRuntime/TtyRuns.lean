/-
# GunyahRuntime.TtyRuns -- runs of `tty_writev`

An entry with bytes comes out with its lines marked. An empty entry at the start of a line marks the line
too early: until the next byte is written, the output is one mark ahead of the stream (`Shows`). A call
is quiet if it does not leave that gap open and prints no prefix for a `NULL` base. `ttyRun_marks` is
about every run of quiet calls, and `not_marked_null_entry` shows what a call that is not quiet does.
-/
import GunyahRuntime.Tty

namespace GunyahRuntime

/-! ## One entry -/

section Entry

variable {clock : Nat → Nat} {st st' : TtyState}

/-- The counter readings for the lines that `l` opens all convert. -/
def Readings (clock : Nat → Nat) (timer : TimerState) (eol : Bool) (reads : Nat) (l : List UInt8) :
    Prop :=
  ∀ k < Lib.linesOpened isNewline eol l, Readable timer (clock (reads + k))

/-- In front of bytes that are still to be written, a reading is left. -/
theorem Readings.here {l m : List UInt8} (hread : Readings clock st.timer st.eol st.reads (l ++ m))
    (h : Tracks clock st st' l) (heol : st'.eol = true) (hm : m ≠ []) :
    Readable st'.timer (clock st'.reads) := by
  have hpos : 0 < Lib.linesOpened isNewline (Lib.lineStart isNewline st.eol l) m := by
    rw [← h.eol, heol]
    exact Lib.linesOpened_pos _ hm
  rw [h.timer, h.reads]
  apply hread
  rw [Lib.linesOpened_append]
  exact Nat.lt_add_of_pos_right hpos

/-- The readings of what follows a stretch. -/
theorem Readings.rest {l m : List UInt8} (hread : Readings clock st.timer st.eol st.reads (l ++ m))
    (h : Tracks clock st st' l) : Readings clock st'.timer st'.eol st'.reads m := by
  intro k hk
  rw [h.timer, h.reads, Nat.add_assoc]
  apply hread
  rw [h.eol] at hk
  rw [Lib.linesOpened_append]
  exact Nat.add_lt_add_left hk _

/-- The next stretch of an entry, inside a line or at the start of one. -/
theorem ttyPass_tracks (h : st.Ok) {v : IoVec} (hnull : v.null = false) {head : Nat}
    (hhead : head < v.iovLen) (hread : st.eol = true → Readable st.timer (clock st.reads)) :
    ∃ st' len, 0 < len ∧ head + len ≤ v.iovLen ∧
      Tracks clock st st' ((v.bytes.drop head).take len) ∧
      ttyPass clock v (st, head) =
        .ok (if v.iovLen - (head + len) > 0 then .inl (st', head + len) else .inr st') := by
  cases heol : st.eol with
  | false =>
    obtain ⟨len, hpos, hle, htracks, hpass⟩ := ttyPass_segment h heol hnull hhead
    exact ⟨_, len, hpos, hle, htracks, hpass⟩
  | true =>
    have hmarked : (st.marked clock).Ok := h.marked
    obtain ⟨len, hpos, hle, htracks, hpass⟩ := ttyPass_segment hmarked rfl hnull hhead
    have hrest : (v.bytes.drop head).length = v.iovLen - head := List.length_drop
    have hne : (v.bytes.drop head).take len ≠ [] :=
      List.ne_nil_of_length_pos (by rw [List.length_take]; omega)
    exact ⟨_, len, hpos, hle, htracks.of_marked heol hne,
      (ttyPass_start h heol (hread heol) v head).trans hpass⟩

/-- **An entry with bytes** is written with its lines marked. -/
theorem ttyEntry_tracks (h : st.Ok) {v : IoVec} (hne : v.bytes ≠ [])
    (hread : Readings clock st.timer st.eol st.reads v.bytes) :
    ∃ st', ttyEntry clock st v = .ok st' ∧ Tracks clock st st' v.bytes := by
  have hnull : v.null = false := by
    cases hv : v.null with
    | true => exact absurd (v.null_empty hv) hne
    | false => rfl
  have hlen : v.iovLen = v.bytes.length := rfl
  have hpos : 0 < v.bytes.length := List.length_pos_of_ne_nil hne
  refine Lib.iterate_total
    (fun s => s.2 < v.iovLen ∧ Tracks clock st s.1 (v.bytes.take s.2))
    (fun st' => Tracks clock st st' v.bytes) (fun s => v.iovLen - s.2) ?_
    (v.iovLen + 1) (st, 0) ⟨hpos, h.tracks_refl⟩ (by dsimp only; omega)
  rintro ⟨mid, head⟩ ⟨hhead, hmid⟩
  dsimp only at hhead hmid
  have hsplit : v.bytes.take head ++ v.bytes.drop head = v.bytes := List.take_append_drop _ _
  have hreadMid : Readings clock st.timer st.eol st.reads (v.bytes.take head ++ v.bytes.drop head) := by
    rw [hsplit]; exact hread
  have hrest : v.bytes.drop head ≠ [] :=
    List.ne_nil_of_length_pos (by rw [List.length_drop]; omega)
  obtain ⟨st', len, hlpos, hle, htracks, hpass⟩ := ttyPass_tracks hmid.ok hnull hhead
    (fun heol => hreadMid.here hmid heol hrest)
  have hsofar : Tracks clock st st' (v.bytes.take (head + len)) := by
    rw [List.take_add]
    exact hmid.trans htracks
  by_cases hmore : v.iovLen - (head + len) > 0
  · right
    rw [if_pos hmore] at hpass
    exact ⟨(st', head + len), hpass, ⟨by dsimp only; omega, hsofar⟩, by dsimp only; omega⟩
  · left
    rw [if_neg hmore] at hpass
    rw [List.take_of_length_le (by omega)] at hsofar
    exact ⟨st', hpass, hsofar⟩

/-- An empty entry inside a line shows nothing. -/
theorem ttyEntry_empty (h : st.Ok) (heol : st.eol = false) {v : IoVec} (hempty : v.bytes = [])
    (hquiet : v.null = true → st.console.linePrefix = []) :
    ∃ st', ttyEntry clock st v = .ok st' ∧ Tracks clock st st' [] :=
  ⟨_, Lib.iterate_done (ttyPass_empty h heol hempty hquiet),
    h.wrote_tracks heol fun b hb => by cases hb⟩

/-- At the start of a line it marks the line, before there is anything to write to it. -/
theorem ttyEntry_empty_start (h : st.Ok) (heol : st.eol = true)
    (hread : Readable st.timer (clock st.reads)) {v : IoVec} (hempty : v.bytes = [])
    (hquiet : v.null = true → st.console.linePrefix = []) :
    ∃ st', ttyEntry clock st v = .ok st' ∧ Tracks clock (st.marked clock) st' [] := by
  have hm : (st.marked clock).Ok := h.marked
  exact ⟨_, Lib.iterate_done ((ttyPass_start h heol hread v 0).trans
      (ttyPass_empty hm rfl hempty hquiet)), hm.wrote_tracks rfl fun b hb => by cases hb⟩

end Entry

/-! ## One call -/

/-- The bytes of a call. -/
def callBytes (vecp : List IoVec) : List UInt8 := vecp.flatMap IoVec.bytes

/-- A call does not end in an empty entry where a line starts. -/
def EndsQuietly (eol : Bool) (vecp : List IoVec) : Prop :=
  ∀ v, vecp.getLast? = some v → v.bytes = [] →
    Lib.lineStart isNewline eol (callBytes vecp) = false

theorem callBytes_cons (v : IoVec) (vs : List IoVec) :
    callBytes (v :: vs) = v.bytes ++ callBytes vs := List.flatMap_cons

/-- What follows an entry ends as the call does. -/
theorem EndsQuietly.tail {eol : Bool} {v : IoVec} {vs : List IoVec}
    (h : EndsQuietly eol (v :: vs)) :
    EndsQuietly (Lib.lineStart isNewline eol v.bytes) vs := by
  intro w hw hempty
  have hlast : (v :: vs).getLast? = some w := by
    cases vs with
    | nil => cases hw
    | cons u us => rw [List.getLast?_cons_cons]; exact hw
  have hend := h w hlast hempty
  rw [callBytes_cons, Lib.lineStart_append] at hend
  exact hend

/-- After an empty entry at the start of a line, bytes follow. -/
theorem EndsQuietly.follow {v : IoVec} {vs : List IoVec} (h : EndsQuietly true (v :: vs))
    (hempty : v.bytes = []) : callBytes vs ≠ [] := by
  intro hnone
  have hall : ∀ w ∈ v :: vs, w.bytes = [] := by
    intro w hw
    rcases List.mem_cons.1 hw with rfl | hw
    · exact hempty
    · exact List.flatMap_eq_nil_iff.1 hnone w hw
  cases hlast : (v :: vs).getLast? with
  | none => cases List.getLast?_eq_none_iff.1 hlast
  | some w =>
    have hend := h w hlast (hall w (List.mem_of_getLast? hlast))
    rw [callBytes_cons, hempty, hnone] at hend
    cases hend

/-- The entries of a call, one after the other. -/
def ttyEntries (clock : Nat → Nat) (st : TtyState) : List IoVec → Exec TtyState
  | [] => .ok st
  | v :: vs => ttyEntry clock st v >>= fun st => ttyEntries clock st vs

section Call

variable {clock : Nat → Nat}

/-- What is shown against the stream so far: `st` shows what `base` does, or a line more is marked, and
then there are bytes to come. -/
def Shows (clock : Nat → Nat) (base st : TtyState) (vs : List IoVec) : Prop :=
  Tracks clock base st [] ∨
    (base.eol = true ∧ callBytes vs ≠ [] ∧ Tracks clock (base.marked clock) st [])

/-- An entry with bytes closes the gap. -/
theorem Shows.entry {base st : TtyState} {v : IoVec} {vs : List IoVec}
    (h : Shows clock base st (v :: vs)) (hne : v.bytes ≠ [])
    (hread : Readings clock base.timer base.eol base.reads (v.bytes ++ callBytes vs)) :
    ∃ st', ttyEntry clock st v = .ok st' ∧ Tracks clock base st' v.bytes := by
  rcases h with hsame | ⟨heol, -, hmarked⟩
  · have hr : Readings clock st.timer st.eol st.reads v.bytes := by
      intro k hk
      rw [hsame.timer, show st.reads = base.reads from hsame.reads]
      apply hread
      rw [Lib.linesOpened_append]
      rw [show st.eol = base.eol from hsame.eol] at hk
      exact Nat.lt_add_right _ hk
    obtain ⟨st', hentry, htracks⟩ := ttyEntry_tracks hsame.ok hne hr
    exact ⟨st', hentry, hsame.trans htracks⟩
  · have hr : Readings clock st.timer st.eol st.reads v.bytes := by
      intro k hk
      rw [hmarked.timer, show st.reads = base.reads + 1 from hmarked.reads, Nat.add_assoc,
        Nat.add_comm 1]
      apply hread
      rw [show st.eol = false from hmarked.eol] at hk
      rw [Lib.linesOpened_append, heol, Lib.linesOpened_start _ hne]
      exact Nat.lt_add_right _ (Nat.succ_lt_succ hk)
    obtain ⟨st', hentry, htracks⟩ := ttyEntry_tracks hmarked.ok hne hr
    exact ⟨st', hentry, (hmarked.trans htracks).of_marked heol hne⟩

/-- An empty entry leaves the gap, or opens it. -/
theorem Shows.empty {base st : TtyState} {v : IoVec} {vs : List IoVec}
    (h : Shows clock base st (v :: vs)) (hempty : v.bytes = [])
    (hquiet : v.null = true → base.console.linePrefix = []) (hends : EndsQuietly base.eol (v :: vs))
    (hread : Readings clock base.timer base.eol base.reads (callBytes vs)) :
    ∃ st', ttyEntry clock st v = .ok st' ∧ Shows clock base st' vs := by
  rcases h with hsame | ⟨heol, hbytes, hmarked⟩
  · have hq : v.null = true → st.console.linePrefix = [] := by
      rw [hsame.linePrefix]; exact hquiet
    cases heol : base.eol with
    | false =>
      obtain ⟨st', hentry, htracks⟩ : ∃ st', ttyEntry clock st v = .ok st' ∧ Tracks clock st st' [] :=
        ttyEntry_empty hsame.ok (hsame.eol.trans heol) hempty hq
      exact ⟨st', hentry, .inl (hsame.trans htracks)⟩
    | true =>
      rw [heol] at hends
      have hfollow := hends.follow hempty
      have hhere : Readable st.timer (clock st.reads) :=
        Readings.here (l := []) hread hsame (hsame.eol.trans heol) hfollow
      obtain ⟨st', hentry, htracks⟩ :=
        ttyEntry_empty_start hsame.ok (hsame.eol.trans heol) hhere hempty hq
      exact ⟨st', hentry, .inr ⟨heol, hfollow, hsame.marked.trans htracks⟩⟩
  · have hq : v.null = true → st.console.linePrefix = [] := by
      rw [hmarked.linePrefix]; exact hquiet
    rw [callBytes_cons, hempty] at hbytes
    obtain ⟨st', hentry, htracks⟩ : ∃ st', ttyEntry clock st v = .ok st' ∧ Tracks clock st st' [] :=
      ttyEntry_empty hmarked.ok hmarked.eol hempty hq
    exact ⟨st', hentry, .inr ⟨heol, hbytes, hmarked.trans htracks⟩⟩

/-- **The entries of a quiet call** come out with their lines marked. The induction is on the entries
that are left; `base` is the state the stream so far asks for, and `Shows` what may differ from it. -/
theorem ttyEntries_tracks (vs : List IoVec) : ∀ {base st : TtyState}, Shows clock base st vs →
    (base.console.linePrefix ≠ [] → ∀ v ∈ vs, v.null = false) → EndsQuietly base.eol vs →
    Readings clock base.timer base.eol base.reads (callBytes vs) →
    ∃ st', ttyEntries clock st vs = .ok st' ∧ Tracks clock base st' (callBytes vs) := by
  induction vs with
  | nil =>
    intro base st h _ _ _
    rcases h with hsame | ⟨-, hbytes, -⟩
    · exact ⟨st, rfl, hsame⟩
    · exact absurd rfl hbytes
  | cons v vs ih =>
    intro base st h hnull hends hread
    rw [callBytes_cons] at hread ⊢
    by_cases hempty : v.bytes = []
    · have hquiet : v.null = true → base.console.linePrefix = [] := by
        intro hv
        by_contra hp
        have hnot := hnull hp v List.mem_cons_self
        rw [hv] at hnot
        cases hnot
      rw [hempty, List.nil_append] at hread
      obtain ⟨mid, hentry, hshows⟩ := h.empty hempty hquiet hends hread
      have htail := hends.tail
      rw [hempty] at htail ⊢
      obtain ⟨st', hrest, htracks⟩ :=
        ih hshows (fun hp w hw => hnull hp w (List.mem_cons_of_mem _ hw)) htail hread
      refine ⟨st', ?_, htracks⟩
      rw [ttyEntries, hentry, ok_bind, hrest]
    · obtain ⟨mid, hentry, htracks⟩ := h.entry hempty hread
      have hnull' : mid.console.linePrefix ≠ [] → ∀ w ∈ vs, w.null = false := by
        rw [htracks.linePrefix]
        exact fun hp w hw => hnull hp w (List.mem_cons_of_mem _ hw)
      have htail : EndsQuietly mid.eol vs := by
        rw [htracks.eol]; exact hends.tail
      obtain ⟨st', hrest, htracks'⟩ :=
        ih (.inl htracks.ok.tracks_refl) hnull' htail (hread.rest htracks)
      refine ⟨st', ?_, htracks.trans htracks'⟩
      rw [ttyEntries, hentry, ok_bind, hrest]

/-- Summed up as `ret_len` does. -/
theorem ttyWritev_loop {vecp : List IoVec} (hlen : vecp.length < 4294967296)
    (hbytes : (callBytes vecp).length < 9223372036854775808) (vs : List IoVec) :
    ∀ (done : List IoVec) (st : TtyState), vecp = done ++ vs →
    Lib.iterate .diverged (ttyWritevPass clock vecp) (vs.length + 1)
        (done.length, (callBytes done).length, st) =
      ttyEntries clock st vs >>= fun st' => .ok ((callBytes vecp).length, st') := by
  induction vs with
  | nil =>
    intro done st hsplit
    rw [List.append_nil] at hsplit
    refine Lib.iterate_done ?_
    rw [ttyWritevPass, hsplit, List.getElem?_eq_none le_rfl]
  | cons v vs ih =>
    intro done st hsplit
    have hat : vecp[done.length]? = some v := by
      rw [hsplit, List.getElem?_append_right le_rfl, Nat.sub_self]
      rfl
    have hcount : vecp.length = done.length + (vs.length + 1) := by
      rw [hsplit, List.length_append, List.length_cons]
    have hdone : callBytes (done ++ [v]) = callBytes done ++ v.bytes := by
      show (done ++ [v]).flatMap IoVec.bytes = _
      rw [List.flatMap_append, List.flatMap_singleton]
      rfl
    have hsum : (callBytes vecp).length =
        (callBytes done).length + v.iovLen + (callBytes vs).length := by
      show (vecp.flatMap IoVec.bytes).length = _
      rw [hsplit, List.flatMap_append, List.flatMap_cons, List.length_append, List.length_append,
        ← Nat.add_assoc]
      rfl
    have hpass : ttyWritevPass clock vecp (done.length, (callBytes done).length, st) =
        ttyEntry clock st v >>= fun st' =>
          .ok (.inl ((done ++ [v]).length, (callBytes (done ++ [v])).length, st')) := by
      rw [ttyWritevPass, hat]
      dsimp only
      rw [u32_of_lt (by omega), u64_of_lt (by omega), hdone, List.length_append, List.length_append]
      rfl
    cases hentry : ttyEntry clock st v with
    | error e =>
      rw [hentry, error_bind] at hpass
      rw [List.length_cons, Lib.iterate_fault hpass, ttyEntries, hentry, error_bind, error_bind]
    | ok st' =>
      rw [hentry, ok_bind] at hpass
      rw [List.length_cons, Lib.iterate_again hpass, ttyEntries, hentry, ok_bind]
      exact ih (done ++ [v]) st' (by rw [hsplit, List.append_assoc]; rfl)

/-- A call that has no more entries and bytes than its types hold returns the sum of its lengths. -/
theorem ttyWritev_eq {vecp : List IoVec} (hlen : vecp.length < 4294967296)
    (hbytes : (callBytes vecp).length < 9223372036854775808) (st : TtyState) :
    ttyWritev clock st vecp =
      ttyEntries clock st vecp >>= fun st' => .ok (((callBytes vecp).length : Int), st') := by
  have hloop : Lib.iterate .diverged (ttyWritevPass clock vecp) (vecp.length + 1) (0, 0, st) =
      ttyEntries clock st vecp >>= fun st' => .ok ((callBytes vecp).length, st') :=
    ttyWritev_loop hlen hbytes vecp [] st rfl
  unfold ttyWritev
  rw [hloop]
  cases ttyEntries clock st vecp with
  | error e => rfl
  | ok st' =>
    rw [ok_bind, ok_bind, ok_bind]
    dsimp only
    rw [toInt64_of_lt hbytes, pure_ok]

end Call

/-! ## Runs of calls -/

/-- A call whose entries and bytes fit their types, which prints no prefix for a `NULL` base, leaves no
line marked before its first byte, and reads a counter that converts to a time. -/
structure CallQuiet (clock : Nat → Nat) (linePrefix : List UInt8) (timer : TimerState) (eol : Bool)
    (reads : Nat) (vecp : List IoVec) : Prop where
  entries : vecp.length < 4294967296
  bytes : (callBytes vecp).length < 9223372036854775808
  null : linePrefix ≠ [] → ∀ v ∈ vecp, v.null = false
  ends : EndsQuietly eol vecp
  readings : Readings clock timer eol reads (callBytes vecp)

/-- A run of such calls, each from where the stream before it leaves the line. -/
def RunQuiet (clock : Nat → Nat) (linePrefix : List UInt8) (timer : TimerState) :
    Bool → Nat → List (List IoVec) → Prop
  | _, _, [] => True
  | eol, reads, vecp :: calls =>
    CallQuiet clock linePrefix timer eol reads vecp ∧
      RunQuiet clock linePrefix timer (Lib.lineStart isNewline eol (callBytes vecp))
        (reads + Lib.linesOpened isNewline eol (callBytes vecp)) calls

/-- The stream that a run is a cutting of. -/
def streamOf (calls : List (List IoVec)) : List UInt8 := calls.flatMap callBytes

section Run

variable {clock : Nat → Nat} {linePrefix : List UInt8} {timer : TimerState}

/-- What a run starts with is a run. -/
theorem RunQuiet.take {calls : List (List IoVec)} : ∀ {eol : Bool} {reads : Nat},
    RunQuiet clock linePrefix timer eol reads calls → ∀ n,
    RunQuiet clock linePrefix timer eol reads (calls.take n) := by
  induction calls with
  | nil =>
    intro eol reads h n
    rw [List.take_nil]
    exact h
  | cons vecp calls ih =>
    intro eol reads h n
    cases n with
    | zero => trivial
    | succ n => exact ⟨h.1, ih h.2 n⟩

/-- **A quiet call** comes out with its lines marked and returns its length. -/
theorem ttyWritev_tracks {st : TtyState} (h : st.Ok) {vecp : List IoVec}
    (hq : CallQuiet clock st.console.linePrefix st.timer st.eol st.reads vecp) :
    ∃ st', ttyWritev clock st vecp = .ok ((callBytes vecp).length, st') ∧
      Tracks clock st st' (callBytes vecp) := by
  obtain ⟨st', hentries, htracks⟩ :=
    ttyEntries_tracks vecp (.inl h.tracks_refl) hq.null hq.ends hq.readings
  refine ⟨st', ?_, htracks⟩
  rw [ttyWritev_eq hq.entries hq.bytes, hentries, ok_bind]

/-- A run of quiet calls, by induction on the calls. -/
theorem ttyRun_tracks (calls : List (List IoVec)) : ∀ {st : TtyState}, st.Ok →
    RunQuiet clock st.console.linePrefix st.timer st.eol st.reads calls →
    ∃ st', ttyRun clock st calls = .ok (calls.map fun vecp => ((callBytes vecp).length : Int), st') ∧
      Tracks clock st st' (streamOf calls) := by
  induction calls with
  | nil =>
    intro st h _
    exact ⟨st, rfl, h.tracks_refl⟩
  | cons vecp calls ih =>
    intro st h hq
    obtain ⟨mid, hcall, htracks⟩ := ttyWritev_tracks h hq.1
    have hrest : RunQuiet clock mid.console.linePrefix mid.timer mid.eol mid.reads calls := by
      rw [htracks.linePrefix, htracks.timer, htracks.eol, htracks.reads]
      exact hq.2
    obtain ⟨st', hrun, htracks'⟩ := ih htracks.ok hrest
    have hstream : streamOf (vecp :: calls) = callBytes vecp ++ streamOf calls := List.flatMap_cons
    refine ⟨st', ?_, ?_⟩
    · rw [ttyRun, hcall, ok_bind]
      dsimp only
      rw [hrun, ok_bind]
      rfl
    · rw [hstream]
      exact htracks.trans htracks'

end Run

/-- What the output is promised to be, from `st` after `calls`: every call returns the sum of its lengths,
and what is sent and what is logged is the stream with its lines marked. What is logged is the record kept
where `log_append` is called; `ttyWritev_writes` ties it to the ring, which is `logRun` of the same messages. -/
def Marked (clock : Nat → Nat) (st : TtyState) (calls : List (List IoVec))
    (x : Exec (List Int × TtyState)) : Prop :=
  ∃ st', x = .ok (calls.map fun vecp => ((vecp.map IoVec.iovLen).sum : Int), st') ∧
    st'.console.sent = st.console.sent ++
      Lib.markLines isNewline (fun _ => st.console.linePrefix) st.eol 0 (streamOf calls) ∧
    st'.logged = st.logged ++
      Lib.markLines isNewline (fun k => stampText st.timer (clock k)) st.eol st.reads
        (streamOf calls)

theorem length_callBytes (vecp : List IoVec) :
    (callBytes vecp).length = (vecp.map IoVec.iovLen).sum := List.length_flatMap

/-- **The output depends on the stream alone.** In every run of quiet calls from a registered console, after
each of the calls, every line of the stream is marked once and nothing else is, on the console and in the
log; and another run of quiet calls that cuts the same stream leaves the same on the console. -/
theorem ttyRun_marks {clock : Nat → Nat} {st : TtyState} (h : st.Ok) {calls : List (List IoVec)}
    (hq : RunQuiet clock st.console.linePrefix st.timer st.eol st.reads calls) :
    (∀ n, Marked clock st (calls.take n) (ttyRun clock st (calls.take n))) ∧
      ∀ calls', streamOf calls' = streamOf calls →
        RunQuiet clock st.console.linePrefix st.timer st.eol st.reads calls' →
        ∃ rets st₁ rets' st₂, ttyRun clock st calls = .ok (rets, st₁) ∧
          ttyRun clock st calls' = .ok (rets', st₂) ∧ st₁.console.sent = st₂.console.sent := by
  constructor
  · intro n
    obtain ⟨st', hrun, htracks⟩ := ttyRun_tracks (calls.take n) h (hq.take n)
    have hrets : ((calls.take n).map fun vecp => ((callBytes vecp).length : Int)) =
        (calls.take n).map fun vecp => ((vecp.map IoVec.iovLen).sum : Int) :=
      List.map_congr_left fun vecp _ => congrArg Int.ofNat (length_callBytes vecp)
    rw [hrets] at hrun
    refine ⟨st', hrun, ?_, htracks.logged⟩
    rw [htracks.sent, Lib.markLines_const _ _ _ 0]
  · intro calls' hstream hq'
    obtain ⟨st₁, hrun₁, htracks₁⟩ := ttyRun_tracks calls h hq
    obtain ⟨st₂, hrun₂, htracks₂⟩ := ttyRun_tracks calls' h hq'
    refine ⟨_, st₁, _, st₂, hrun₁, hrun₂, ?_⟩
    rw [htracks₁.sent, htracks₂.sent, hstream]

/-! ## A tty with a prefix -/

/-- A tty at the start of a line, with the prefix "vm: " and a counter at 19.2 MHz. -/
def vmTty : TtyState where
  eol := true
  console := ⟨4096, ['v', 'm', ':', ' '].map Char.toUInt8 ++ List.replicate 12 0, 4, []⟩
  log := ⟨0, 24, List.replicate 24 0⟩
  logged := []
  timer :=
    { timerFreq := 19200000
      timespecMaxSec := (utilMin (sub64 18446744073709551615 TIMESPEC_MAX_NSEC / 19200000)
        9223372036854775807 : Nat)
      timerFired := false, cntvCtl := 0, cntvCval := 0 }
  reads := 0

theorem vmTty_ok : vmTty.Ok :=
  ⟨⟨by decide, rfl, by decide⟩, ⟨by decide, by decide, by decide, rfl⟩, ⟨by decide, by decide, rfl⟩⟩

/-- A counter that is read once a second. -/
def secondClock (k : Nat) : Nat := 19200000 * k

/-- An entry whose base is not `NULL`. -/
def bytesAt (bytes : List UInt8) : IoVec := ⟨false, bytes, fun h => by cases h⟩

/-- The empty entry with the base `NULL`. -/
def nullVec : IoVec := ⟨true, [], fun _ => rfl⟩

/-- "a\nb", then an empty entry and "\n". -/
def vmRun : List (List IoVec) := [[bytesAt [97, 10, 98]], [bytesAt [], bytesAt [10]]]

/-- The law for a run with a newline inside an entry and an empty entry in mid-line. -/
theorem ttyRun_marks_vmRun :
    (∀ n, Marked secondClock vmTty (vmRun.take n) (ttyRun secondClock vmTty (vmRun.take n))) ∧
      ∀ calls', streamOf calls' = streamOf vmRun →
        RunQuiet secondClock vmTty.console.linePrefix vmTty.timer vmTty.eol vmTty.reads calls' →
        ∃ rets st₁ rets' st₂, ttyRun secondClock vmTty vmRun = .ok (rets, st₁) ∧
          ttyRun secondClock vmTty calls' = .ok (rets', st₂) ∧
          st₁.console.sent = st₂.console.sent := by
  refine ttyRun_marks vmTty_ok ⟨?_, ?_, trivial⟩
  · refine ⟨by decide, by decide, fun _ v hv => ?_, fun v hv h => rfl, fun k hk => ?_⟩
    · obtain rfl := List.mem_singleton.1 hv
      rfl
    · have hk : k < 2 := hk
      have hlt : 19200000 * (0 + k) < 9223372036854775808 := by omega
      exact ⟨hlt.trans (by decide), .inl hlt⟩
  · refine ⟨by decide, by decide, fun _ v hv => ?_, fun v hv h => ?_,
      fun k hk => absurd hk (Nat.not_lt_zero k)⟩
    · rcases List.mem_pair.1 hv with rfl | rfl <;> rfl
    · obtain rfl : bytesAt [10] = v := Option.some.inj hv
      cases h

/-- "a", then an empty entry with the base `NULL`, then "b\n": the console shows "vm: avm: b\n". -/
theorem not_marked_null_entry :
    ¬ Marked secondClock vmTty [[bytesAt [97], nullVec, bytesAt [98, 10]]]
      (ttyRun secondClock vmTty [[bytesAt [97], nullVec, bytesAt [98, 10]]]) := by
  rintro ⟨st', hrun, hsent, -⟩
  have hout : (ttyRun secondClock vmTty [[bytesAt [97], nullVec, bytesAt [98, 10]]]).map
      (fun r => r.2.console.sent) = .ok [118, 109, 58, 32, 97, 118, 109, 58, 32, 98, 10] := by rfl
  rw [hrun] at hout
  have hshown : st'.console.sent = [118, 109, 58, 32, 97, 118, 109, 58, 32, 98, 10] :=
    Except.ok.inj hout
  rw [hshown] at hsent
  revert hsent
  decide

end GunyahRuntime
