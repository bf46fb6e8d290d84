/-
# GunyahRuntime.Lib.Loop -- loops that answer, go round again or stop with a fault

A `while` loop is a body on a loop state: one pass either yields the next loop state, or the value
the loop leaves with, or a fault. `iterate` runs the body under a bound on the number of passes, and
reaching the bound is itself a fault, so that a loop which does not end is never mistaken for one
that does. The two rules are the whole proof theory the developments above need: an invariant with a
decreasing measure gives a result (total correctness), and one unfolding gives the pass-by-pass
reading.

Nothing here names a program.
-/
import Mathlib.Tactic.Common

namespace GunyahRuntime.Lib

variable {ε σ β : Type*}

/-- Run `body` from `s` for at most `fuel` passes; `out` is the fault of a loop that is still
going. -/
def iterate (out : ε) (body : σ → Except ε (σ ⊕ β)) : Nat → σ → Except ε β
  | 0, _ => .error out
  | fuel + 1, s =>
    match body s with
    | .error e => .error e
    | .ok (.inr b) => .ok b
    | .ok (.inl s') => iterate out body fuel s'

/-! ## One pass -/

theorem iterate_done {out : ε} {body : σ → Except ε (σ ⊕ β)} {fuel : Nat} {s : σ} {b : β}
    (h : body s = .ok (.inr b)) : iterate out body (fuel + 1) s = .ok b := by
  simp only [iterate, h]

theorem iterate_again {out : ε} {body : σ → Except ε (σ ⊕ β)} {fuel : Nat} {s s' : σ}
    (h : body s = .ok (.inl s')) :
    iterate out body (fuel + 1) s = iterate out body fuel s' := by
  simp only [iterate, h]

theorem iterate_fault {out : ε} {body : σ → Except ε (σ ⊕ β)} {fuel : Nat} {s : σ} {e : ε}
    (h : body s = .error e) : iterate out body (fuel + 1) s = .error e := by
  simp only [iterate, h]

/-! ## Total correctness -/

/-- **The total-correctness rule.** If every pass from a state satisfying `Inv` either leaves with a
value satisfying `Post` or goes round to a state satisfying `Inv` with a smaller measure, then the
loop, given more passes than the measure, leaves with a value satisfying `Post`. -/
theorem iterate_total {out : ε} {body : σ → Except ε (σ ⊕ β)} (Inv : σ → Prop) (Post : β → Prop)
    (measure : σ → Nat)
    (pass : ∀ s, Inv s →
      (∃ b, body s = .ok (.inr b) ∧ Post b) ∨
      (∃ s', body s = .ok (.inl s') ∧ Inv s' ∧ measure s' < measure s)) :
    ∀ (fuel : Nat) (s : σ), Inv s → measure s < fuel →
      ∃ b, iterate out body fuel s = .ok b ∧ Post b := by
  intro fuel
  induction fuel with
  | zero => intro s _ hm; omega
  | succ fuel ih =>
    intro s hs hm
    rcases pass s hs with ⟨b, hb, hpost⟩ | ⟨s', hs', hinv, hlt⟩
    · exact ⟨b, iterate_done hb, hpost⟩
    · rw [iterate_again hs']
      exact ih s' hinv (by omega)

/-- **The partial-correctness rule.** If every pass from a state satisfying `Inv` that does not fault
either leaves with a value satisfying `Post` or keeps `Inv`, then whatever the loop leaves with
satisfies `Post`. -/
theorem iterate_post {out : ε} {body : σ → Except ε (σ ⊕ β)} (Inv : σ → Prop) (Post : β → Prop)
    (pass : ∀ s r, Inv s → body s = .ok r → Sum.elim Inv Post r) :
    ∀ (fuel : Nat) (s : σ) (b : β), Inv s → iterate out body fuel s = .ok b → Post b := by
  intro fuel
  induction fuel with
  | zero => intro s b _ h; cases h
  | succ fuel ih =>
    intro s b hs h
    cases hb : body s with
    | error e => rw [iterate_fault hb] at h; cases h
    | ok r =>
      have hr := pass s r hs hb
      cases r with
      | inl s' => rw [iterate_again hb] at h; exact ih s' b hr h
      | inr b' => rw [iterate_done hb] at h; cases h; exact hr

/-- A loop stops with a fault of one of its passes, or because it was still going. -/
theorem iterate_fault_of {out : ε} {body : σ → Except ε (σ ⊕ β)} (P : ε → Prop)
    (pass : ∀ s e, body s = .error e → P e) :
    ∀ (fuel : Nat) (s : σ) (e : ε), iterate out body fuel s = .error e → P e ∨ e = out := by
  intro fuel
  induction fuel with
  | zero => intro s e h; cases h; exact .inr rfl
  | succ fuel ih =>
    intro s e h
    cases hb : body s with
    | error e' => rw [iterate_fault hb] at h; cases h; exact .inl (pass s _ hb)
    | ok r =>
      cases r with
      | inl s' => rw [iterate_again hb] at h; exact ih s' e h
      | inr b => rw [iterate_done hb] at h; cases h

/-- **The fault rule.** If every pass from a state satisfying `Inv` either stops with `e` or goes
round to a state satisfying `Inv` with a smaller measure, the loop stops with `e`. -/
theorem iterate_faults {out e : ε} {body : σ → Except ε (σ ⊕ β)} (Inv : σ → Prop)
    (measure : σ → Nat)
    (pass : ∀ s, Inv s →
      body s = .error e ∨ (∃ s', body s = .ok (.inl s') ∧ Inv s' ∧ measure s' < measure s)) :
    ∀ (fuel : Nat) (s : σ), Inv s → measure s < fuel →
      iterate out body fuel s = .error e := by
  intro fuel
  induction fuel with
  | zero => intro s _ hm; omega
  | succ fuel ih =>
    intro s hs hm
    rcases pass s hs with he | ⟨s', hs', hinv, hlt⟩
    · exact iterate_fault he
    · rw [iterate_again hs']
      exact ih s' hinv (by omega)

/-- **The divergence rule.** A loop whose every pass goes round uses up whatever passes it is given. -/
theorem iterate_never {out : ε} {body : σ → Except ε (σ ⊕ β)} (Inv : σ → Prop)
    (pass : ∀ s, Inv s → ∃ s', body s = .ok (.inl s') ∧ Inv s') :
    ∀ (fuel : Nat) (s : σ), Inv s → iterate out body fuel s = .error out := by
  intro fuel
  induction fuel with
  | zero => intro s _; rfl
  | succ fuel ih =>
    intro s hs
    obtain ⟨s', hs', hinv⟩ := pass s hs
    rw [iterate_again hs']
    exact ih s' hinv

/-- **The simulation rule.** Where two bodies, from related states, stop with the same fault, leave with corresponding
values or go round to related states, the loops do the same. -/
theorem iterate_sim {τ γ : Type*} {out : ε} {body : σ → Except ε (σ ⊕ β)} {body' : τ → Except ε (τ ⊕ γ)}
    (R : σ → τ → Prop) (f : β → γ)
    (pass : ∀ s t, R s t →
      (∃ e, body s = .error e ∧ body' t = .error e) ∨
      (∃ b, body s = .ok (.inr b) ∧ body' t = .ok (.inr (f b))) ∨
      (∃ s' t', body s = .ok (.inl s') ∧ body' t = .ok (.inl t') ∧ R s' t')) :
    ∀ (fuel : Nat) (s : σ) (t : τ), R s t → iterate out body' fuel t = (iterate out body fuel s).map f := by
  intro fuel
  induction fuel with
  | zero => intro s t _; rfl
  | succ fuel ih =>
    intro s t hst
    rcases pass s t hst with ⟨e, he, he'⟩ | ⟨b, hb, hb'⟩ | ⟨s', t', hs', ht', hst'⟩
    · rw [iterate_fault he, iterate_fault he']
      rfl
    · rw [iterate_done hb, iterate_done hb']
      rfl
    · rw [iterate_again hs', iterate_again ht']
      exact ih s' t' hst'

/-! ## The states of a loop -/

/-- The loop states that passes lead to from `s₀`. -/
inductive Passes (body : σ → Except ε (σ ⊕ β)) (s₀ : σ) : σ → Prop
  | start : Passes body s₀ s₀
  | again {s s' : σ} : Passes body s₀ s → body s = .ok (.inl s') → Passes body s₀ s'

/-- **The invariant rule**: what holds at the start and is kept by each pass from a state of the loop holds in all of
them. -/
theorem Passes.inv {body : σ → Except ε (σ ⊕ β)} {s₀ : σ} (Inv : σ → Prop) (start : Inv s₀)
    (pass : ∀ s s', Passes body s₀ s → Inv s → body s = .ok (.inl s') → Inv s') {s : σ} (h : Passes body s₀ s) :
    Inv s := by
  induction h with
  | start => exact start
  | again hs hpass ih => exact pass _ _ hs ih hpass

end GunyahRuntime.Lib
