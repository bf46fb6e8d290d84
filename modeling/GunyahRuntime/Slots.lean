/-
# GunyahRuntime.Slots -- who may register a callback (`interrupt.c`, `console.c`, `exit_dev.c`)

Three places keep callbacks for the application: the table of interrupt handlers, the console and the exit
device. In each a `NULL` pointer says that the slot is empty, and each has a pair of functions that fill the slot
and empty it. `Agrees` is the protocol they are meant to follow, as a relation between a state and what the answers
so far make one believe about it.

Only the exit device refuses to register `NULL`. `slotRun_protocol_iff` says for every sequence of requests
that it is just this which breaks the protocol.
-/
import GunyahRuntime.Irq.Interrupt
import GunyahRuntime.Console

namespace GunyahRuntime

/-! ## `exit_dev.c` -/

/-- `exit_register(new_exit_func)`, on the static `exit_func`. -/
def exitRegister (exitFunc newExitFunc : Nat) : Int × Nat :=
  if exitFunc ≠ 0 then (-EBUSY, exitFunc)
  else if newExitFunc ≠ 0 then (0, newExitFunc)
  else (-EINVAL, exitFunc)

/-- `exit_deregister()`. -/
def exitDeregister (exitFunc : Nat) : Int × Nat :=
  if exitFunc = 0 then (-ENOENT, exitFunc) else (0, 0)

/-! ## Requests -/

structure SlotState where
  irqs : IrqState
  console : Console
  /-- `exit_func`. -/
  exitFunc : Nat

inductive Slot where
  | isr (irq : Nat)
  | console
  | exit
  deriving DecidableEq

/-- The slots there are. -/
def Slot.Valid : Slot → Prop
  | .isr irq => irq < PLATFORM_NUM_IRQS
  | _ => True

inductive SlotRequest where
  | register (slot : Slot) (callback data : Nat)
  | deregister (slot : Slot)

def SlotRequest.slot : SlotRequest → Slot
  | .register slot _ _ => slot
  | .deregister slot => slot

/-- A request, as the ioctls of the three devices pass it on. The data goes with the handler of an
interrupt. -/
def slotStep (s : SlotState) : SlotRequest → Exec (Int × SlotState)
  | .register (.isr irq) callback data => do
    let (ret, irqs) ← interruptRegisterIsr s.irqs irq callback data
    return (ret, { s with irqs })
  | .register .console callback _ =>
    let (ret, console) := consoleRegister s.console callback
    .ok (ret, { s with console })
  | .register .exit callback _ =>
    let (ret, exitFunc) := exitRegister s.exitFunc callback
    .ok (ret, { s with exitFunc })
  | .deregister (.isr irq) => do
    let (ret, irqs) ← interruptDeregisterIsr s.irqs irq
    return (ret, { s with irqs })
  | .deregister .console =>
    let (ret, console) := consoleDeregister s.console
    .ok (ret, { s with console })
  | .deregister .exit =>
    let (ret, exitFunc) := exitDeregister s.exitFunc
    .ok (ret, { s with exitFunc })

/-- What stands in a slot. -/
def SlotState.occupant (s : SlotState) : Slot → IsrEntry
  | .isr irq => (s.irqs.isrTable[irq]?).getD ⟨0, 0⟩
  | .console => ⟨s.console.console, 0⟩
  | .exit => ⟨s.exitFunc, 0⟩

/-- What a registration puts there. -/
def Slot.entry (slot : Slot) (callback data : Nat) : IsrEntry :=
  match slot with
  | .isr _ => ⟨callback, data⟩
  | _ => ⟨callback, 0⟩

/-! ## The protocol -/

/-- What the answers say about a slot: a registration that returned 0 fills it, a deregistration that returned 0
empties it. -/
def SlotRequest.after (q : SlotRequest) (ret : Int) (held : Slot → Option IsrEntry) : Slot → Option IsrEntry :=
  if ret = 0 then
    match q with
    | .register slot callback data => Function.update held slot (some (slot.entry callback data))
    | .deregister slot => Function.update held slot none
  else held

/-- The slot is as the answers say. An occupied one holds exactly its callback, turns every registration away
and lets go of it when asked; an empty one has nothing to let go of. -/
def AgreesAt (s : SlotState) (slot : Slot) : Option IsrEntry → Prop
  | some entry =>
    s.occupant slot = entry ∧
    (∀ callback data, slotStep s (.register slot callback data) = .ok (-EBUSY, s)) ∧
    ∃ s', slotStep s (.deregister slot) = .ok (0, s')
  | none => slotStep s (.deregister slot) = .ok (-ENOENT, s)

def Agrees (held : Slot → Option IsrEntry) (s : SlotState) : Prop :=
  ∀ slot, slot.Valid → AgreesAt s slot (held slot)

/-- In a run of requests from `s` the answers and the states agree throughout, and each request leaves the
slots of the others alone. -/
def KeepsProtocol : (Slot → Option IsrEntry) → SlotState → List SlotRequest → Prop
  | held, s, [] => Agrees held s
  | held, s, q :: qs => Agrees held s ∧ ∃ ret s', slotStep s q = .ok (ret, s') ∧
      (∀ slot ≠ q.slot, s'.occupant slot = s.occupant slot) ∧ KeepsProtocol (q.after ret held) s' qs

/-- A request that does not put `NULL` into an empty slot of the table or of the console. -/
def SlotRequest.Proper (s : SlotState) : SlotRequest → Prop
  | .register (.isr irq) callback _ =>
    irq < PLATFORM_NUM_IRQS → (s.occupant (.isr irq)).isr = 0 → callback ≠ 0
  | .register .console callback _ => s.console.console = 0 → callback ≠ 0
  | _ => True

/-- Every request of a run is proper in the state it finds. -/
def RunProper : SlotState → List SlotRequest → Prop
  | _, [] => True
  | s, q :: qs => q.Proper s ∧ ∀ ret s', slotStep s q = .ok (ret, s') → RunProper s' qs

/-! ## One request -/

/-- `s'` is `s` with `entry` in one slot. -/
structure SlotState.Puts (s s' : SlotState) (slot : Slot) (entry : IsrEntry) : Prop where
  self : s'.occupant slot = entry
  others : ∀ slot' ≠ slot, s'.occupant slot' = s.occupant slot'

theorem occupant_isr (s : SlotState) {irq : Nat} (h : irq < PLATFORM_NUM_IRQS) :
    s.occupant (.isr irq) = s.irqs.isrTable[irq] := by
  simp [SlotState.occupant, h]

theorem haveIsr_eq (s : SlotState) {irq : Nat} (h : irq < PLATFORM_NUM_IRQS) :
    haveIsr s.irqs irq = .ok (decide ((s.occupant (.isr irq)).isr ≠ 0)) := by
  rw [haveIsr, regLoad_ok _ h, ok_bind, pure_ok, occupant_isr s h]

/-- A store into the table. -/
theorem setIsr_puts (s : SlotState) {irq : Nat} (h : irq < PLATFORM_NUM_IRQS) (entry : IsrEntry) :
    ∃ irqs, setIsr s.irqs irq entry = .ok irqs ∧ s.Puts { s with irqs } (.isr irq) entry := by
  refine ⟨{ s.irqs with isrTable := s.irqs.isrTable.set irq entry }, ?_, ?_, ?_⟩
  · rw [setIsr, regStore_ok _ _ h, ok_bind, pure_ok]
  · simp [SlotState.occupant, h]
  · intro slot' hne
    cases slot' with
    | isr irq' =>
      have hirq : irq ≠ irq' := fun heq => hne (by rw [heq])
      simp [SlotState.occupant, Vector.getElem?_set_ne h hirq]
    | console => rfl
    | exit => rfl

/-- The other two slots are one word each. -/
theorem puts_console (s : SlotState) (callback : Nat) :
    s.Puts { s with console.console := callback } .console ⟨callback, 0⟩ := by
  refine ⟨rfl, fun slot' hne => ?_⟩
  cases slot' with
  | console => exact absurd rfl hne
  | isr irq => rfl
  | exit => rfl

theorem puts_exit (s : SlotState) (callback : Nat) :
    s.Puts { s with exitFunc := callback } .exit ⟨callback, 0⟩ := by
  refine ⟨rfl, fun slot' hne => ?_⟩
  cases slot' with
  | exit => exact absurd rfl hne
  | isr irq => rfl
  | console => rfl

/-- Both functions of the table, for an interrupt that has an entry. -/
theorem registerIsr_eq (s : SlotState) {irq : Nat} (h : irq < PLATFORM_NUM_IRQS) (isr data : Nat) :
    interruptRegisterIsr s.irqs irq isr data =
      if (s.occupant (.isr irq)).isr ≠ 0 then .ok (-EBUSY, s.irqs)
      else setIsr s.irqs irq ⟨isr, data⟩ >>= fun irqs => pure (0, irqs) := by
  unfold interruptRegisterIsr
  rw [if_neg (Nat.not_le.2 h), haveIsr_eq s h, ok_bind]
  simp only [decide_eq_true_eq]
  rfl

theorem deregisterIsr_eq (s : SlotState) {irq : Nat} (h : irq < PLATFORM_NUM_IRQS) :
    interruptDeregisterIsr s.irqs irq =
      if (s.occupant (.isr irq)).isr ≠ 0 then setIsr s.irqs irq ⟨0, 0⟩ >>= fun irqs => pure (0, irqs)
      else .ok (-ENOENT, s.irqs) := by
  unfold interruptDeregisterIsr
  rw [if_neg (Nat.not_le.2 h), haveIsr_eq s h, ok_bind]
  simp only [decide_eq_true_eq]
  rfl

theorem register_spec (s : SlotState) (slot : Slot) (callback data : Nat) :
    (¬ slot.Valid ∧ slotStep s (.register slot callback data) = .ok (-EINVAL, s)) ∨
    (slot.Valid ∧ (s.occupant slot).isr ≠ 0 ∧ slotStep s (.register slot callback data) = .ok (-EBUSY, s)) ∨
    (slot = .exit ∧ callback = 0 ∧ (s.occupant slot).isr = 0 ∧
      slotStep s (.register slot callback data) = .ok (-EINVAL, s)) ∨
    (slot.Valid ∧ (s.occupant slot).isr = 0 ∧ (slot = .exit → callback ≠ 0) ∧
      ∃ s', slotStep s (.register slot callback data) = .ok (0, s') ∧
        s.Puts s' slot (slot.entry callback data)) := by
  cases slot with
  | isr irq =>
    by_cases hirq : irq < PLATFORM_NUM_IRQS
    · right
      have heq := registerIsr_eq s hirq callback data
      by_cases hocc : (s.occupant (.isr irq)).isr = 0
      · obtain ⟨irqs, hset, hputs⟩ := setIsr_puts s hirq ⟨callback, data⟩
        rw [if_neg (not_not.2 hocc), hset, ok_bind] at heq
        exact .inr (.inr ⟨hirq, hocc, by simp, { s with irqs }, by rw [slotStep, heq]; rfl, hputs⟩)
      · rw [if_pos hocc] at heq
        exact .inl ⟨hirq, hocc, by rw [slotStep, heq]; rfl⟩
    · have heq : interruptRegisterIsr s.irqs irq callback data = .ok (-EINVAL, s.irqs) :=
        if_pos (Nat.not_lt.1 hirq)
      exact .inl ⟨hirq, by rw [slotStep, heq]; rfl⟩
  | console =>
    right
    unfold slotStep consoleRegister
    by_cases hocc : s.console.console = 0
    · exact .inr (.inr ⟨trivial, hocc, by simp, _, by simp [hocc], puts_console s callback⟩)
    · exact .inl ⟨trivial, hocc, by simp [hocc]⟩
  | exit =>
    right
    unfold slotStep exitRegister
    by_cases hocc : s.exitFunc = 0
    · right
      -- the exit device checks for `NULL`; the others take it, and stay empty
      by_cases hnull : callback = 0
      · exact .inl ⟨rfl, hnull, hocc, by simp [hnull, if_neg (not_not.2 hocc)]⟩
      · exact .inr ⟨trivial, hocc, fun _ => hnull, _, by simp [hocc, hnull], puts_exit s callback⟩
    · exact .inl ⟨trivial, hocc, by simp [hocc]⟩

theorem deregister_spec (s : SlotState) (slot : Slot) :
    (¬ slot.Valid ∧ slotStep s (.deregister slot) = .ok (-EINVAL, s)) ∨
    (slot.Valid ∧ (s.occupant slot).isr = 0 ∧ slotStep s (.deregister slot) = .ok (-ENOENT, s)) ∨
    (slot.Valid ∧ (s.occupant slot).isr ≠ 0 ∧
      ∃ s', slotStep s (.deregister slot) = .ok (0, s') ∧ s.Puts s' slot ⟨0, 0⟩) := by
  cases slot with
  | isr irq =>
    by_cases hirq : irq < PLATFORM_NUM_IRQS
    · right
      have heq := deregisterIsr_eq s hirq
      by_cases hocc : (s.occupant (.isr irq)).isr = 0
      · rw [if_neg (not_not.2 hocc)] at heq
        exact .inl ⟨hirq, hocc, by rw [slotStep, heq]; rfl⟩
      · obtain ⟨irqs, hset, hputs⟩ := setIsr_puts s hirq ⟨0, 0⟩
        rw [if_pos hocc, hset, ok_bind] at heq
        exact .inr ⟨hirq, hocc, { s with irqs }, by rw [slotStep, heq]; rfl, hputs⟩
    · have heq : interruptDeregisterIsr s.irqs irq = .ok (-EINVAL, s.irqs) := if_pos (Nat.not_lt.1 hirq)
      exact .inl ⟨hirq, by rw [slotStep, heq]; rfl⟩
  | console =>
    right
    unfold slotStep consoleDeregister
    by_cases hocc : s.console.console = 0
    · exact .inl ⟨trivial, hocc, by simp [hocc]⟩
    · exact .inr ⟨trivial, hocc, _, by simp [hocc], puts_console s 0⟩
  | exit =>
    right
    unfold slotStep exitDeregister
    by_cases hocc : s.exitFunc = 0
    · exact .inl ⟨trivial, hocc, by rw [if_pos hocc]⟩
    · exact .inr ⟨trivial, hocc, _, by simp [hocc], puts_exit s 0⟩

/-! ## Runs -/

theorem agreesAt_some {s : SlotState} {slot : Slot} (hslot : slot.Valid) {entry : IsrEntry} :
    AgreesAt s slot (some entry) ↔ s.occupant slot = entry ∧ entry.isr ≠ 0 := by
  constructor
  · rintro ⟨rfl, -, s', hrun⟩
    refine ⟨rfl, fun hempty => ?_⟩
    rcases deregister_spec s slot with ⟨hno, -⟩ | ⟨-, -, hrefused⟩ | ⟨-, hocc, -⟩
    · exact hno hslot
    · rw [hrefused] at hrun
      exact absurd (Prod.mk.inj (Except.ok.inj hrun)).1 (by decide)
    · exact hocc hempty
  · rintro ⟨rfl, hocc⟩
    refine ⟨rfl, fun callback data => ?_, ?_⟩
    · rcases register_spec s slot callback data with ⟨hno, -⟩ | ⟨-, -, hbusy⟩ | ⟨-, -, hempty, -⟩ | ⟨-, hempty, -⟩
      · exact absurd hslot hno
      · exact hbusy
      · exact absurd hempty hocc
      · exact absurd hempty hocc
    · rcases deregister_spec s slot with ⟨hno, -⟩ | ⟨-, hempty, -⟩ | ⟨-, -, s', hrun, -⟩
      · exact absurd hslot hno
      · exact absurd hempty hocc
      · exact ⟨s', hrun⟩

theorem agreesAt_none {s : SlotState} {slot : Slot} (hslot : slot.Valid) :
    AgreesAt s slot none ↔ (s.occupant slot).isr = 0 := by
  rcases deregister_spec s slot with ⟨hno, -⟩ | ⟨-, hempty, hrefused⟩ | ⟨-, hocc, s', hrun, -⟩
  · exact absurd hslot hno
  · exact iff_of_true hrefused hempty
  · refine iff_of_false (fun h : slotStep s _ = _ => ?_) hocc
    rw [hrun] at h
    exact absurd (Prod.mk.inj (Except.ok.inj h)).1 (by decide)

/-- What a slot holds stays true while its occupant does. -/
theorem AgreesAt.congr {s s' : SlotState} {slot : Slot} (hslot : slot.Valid)
    (h : s'.occupant slot = s.occupant slot) {held : Option IsrEntry} (ha : AgreesAt s slot held) :
    AgreesAt s' slot held := by
  cases held with
  | none => rwa [agreesAt_none hslot, h, ← agreesAt_none hslot]
  | some entry => rwa [agreesAt_some hslot, h, ← agreesAt_some hslot]

/-- A request that filled or emptied its slot: the states and the answers go on agreeing exactly if they do on
that slot. -/
theorem Agrees.update {held : Slot → Option IsrEntry} {s s' : SlotState} (ha : Agrees held s) {slot : Slot}
    {entry : IsrEntry} (hputs : s.Puts s' slot entry) (hslot : slot.Valid) (h : Option IsrEntry) :
    Agrees (Function.update held slot h) s' ↔ AgreesAt s' slot h := by
  constructor
  · intro hall
    have hself := hall slot hslot
    rwa [Function.update_self] at hself
  · intro hself slot' hslot'
    by_cases heq : slot' = slot
    · rw [heq, Function.update_self]
      exact hself
    · rw [Function.update_of_ne heq]
      exact (ha slot' hslot').congr hslot' (hputs.others slot' heq)

/-- **One request.** It returns and leaves the other slots alone, and what is believed goes on agreeing with
the state exactly if the request is proper. -/
theorem slotStep_spec {held : Slot → Option IsrEntry} {s : SlotState} (ha : Agrees held s) (q : SlotRequest) :
    ∃ ret s', slotStep s q = .ok (ret, s') ∧ (∀ slot ≠ q.slot, s'.occupant slot = s.occupant slot) ∧
      (Agrees (q.after ret held) s' ↔ q.Proper s) := by
  cases q with
  | register slot callback data =>
    rcases register_spec s slot callback data with ⟨hno, hrun⟩ | ⟨-, hocc, hrun⟩ | ⟨rfl, -, -, hrun⟩ |
        ⟨hslot, hempty, hexit, s', hrun, hputs⟩
    · refine ⟨_, s, hrun, fun _ _ => rfl, iff_of_true ha ?_⟩
      cases slot with
      | isr irq => exact fun hirq => absurd hirq hno
      | console => exact absurd trivial hno
      | exit => exact absurd trivial hno
    · refine ⟨_, s, hrun, fun _ _ => rfl, iff_of_true ha ?_⟩
      cases slot with
      | isr irq => exact fun _ hempty => absurd hempty hocc
      | console => exact fun hempty => absurd hempty hocc
      | exit => trivial
    · exact ⟨_, s, hrun, fun _ _ => rfl, iff_of_true ha trivial⟩
    · refine ⟨0, s', hrun, hputs.others, ?_⟩
      rw [SlotRequest.after, if_pos rfl, ha.update hputs hslot, agreesAt_some hslot, and_iff_right hputs.self]
      cases slot with
      | isr irq => exact ⟨fun h _ _ => h, fun h => h hslot hempty⟩
      | console => exact ⟨fun h _ => h, fun h => h hempty⟩
      | exit => exact iff_of_true (hexit rfl) trivial
  | deregister slot =>
    rcases deregister_spec s slot with ⟨-, hrun⟩ | ⟨-, -, hrun⟩ | ⟨hslot, -, s', hrun, hputs⟩
    · exact ⟨_, s, hrun, fun _ _ => rfl, iff_of_true ha trivial⟩
    · exact ⟨_, s, hrun, fun _ _ => rfl, iff_of_true ha trivial⟩
    · refine ⟨0, s', hrun, hputs.others, ?_⟩
      rw [SlotRequest.after, if_pos rfl, ha.update hputs hslot, agreesAt_none hslot, hputs.self]
      exact iff_of_true rfl trivial

theorem keepsProtocol_iff (qs : List SlotRequest) : ∀ {held : Slot → Option IsrEntry} {s : SlotState},
    Agrees held s → (KeepsProtocol held s qs ↔ RunProper s qs) := by
  induction qs with
  | nil => exact fun ha => iff_of_true ha trivial
  | cons q qs ih =>
    intro held s ha
    obtain ⟨ret, s', hrun, hothers, hproper⟩ := slotStep_spec ha q
    constructor
    · rintro ⟨-, ret', s'', hrun', -, hrest⟩
      rw [hrun] at hrun'
      obtain ⟨rfl, rfl⟩ := Prod.mk.inj (Except.ok.inj hrun')
      have hagrees : Agrees (q.after ret held) s' := by
        cases qs with
        | nil => exact hrest
        | cons q' qs => exact hrest.1
      refine ⟨hproper.1 hagrees, fun ret' s'' hrun' => ?_⟩
      rw [hrun] at hrun'
      obtain ⟨rfl, rfl⟩ := Prod.mk.inj (Except.ok.inj hrun')
      exact (ih hagrees).1 hrest
    · rintro ⟨hq, hrest⟩
      exact ⟨ha, ret, s', hrun, hothers, (ih (hproper.2 hq)).2 (hrest ret s' hrun)⟩

/-- Nothing is registered. -/
def SlotState.boot : SlotState := ⟨IrqState.reset, ⟨0, List.replicate 16 0, 0, []⟩, 0⟩

theorem boot_agrees : Agrees (fun _ => none) SlotState.boot := by
  intro slot hslot
  rw [agreesAt_none hslot]
  cases slot with
  | isr irq =>
    rw [occupant_isr _ hslot]
    simp [SlotState.boot, IrqState.reset]
  | console => rfl
  | exit => rfl

/-- **Exactly the runs that register no `NULL` follow the protocol**: every sequence of requests keeps it,
from the empty slots on, if and only if no registration finds its slot of the table or of the console empty and
puts `NULL` there. -/
theorem slotRun_protocol_iff (qs : List SlotRequest) :
    KeepsProtocol (fun _ => none) SlotState.boot qs ↔ RunProper SlotState.boot qs :=
  keepsProtocol_iff qs boot_agrees

/-- A console registered with `NULL` returns 0, and can be registered again. -/
theorem not_keepsProtocol_null_console :
    ¬ ∀ qs, KeepsProtocol (fun _ => none) SlotState.boot qs := by
  intro h
  obtain ⟨-, ret, s', hrun, -, hagrees⟩ := h [.register .console 0 0]
  obtain ⟨rfl, rfl⟩ := Prod.mk.inj (Except.ok.inj hrun)
  have hbusy := (hagrees .console trivial).2.1 4096 0
  exact absurd (Prod.mk.inj (Except.ok.inj hbusy)).1 (by decide)

end GunyahRuntime
