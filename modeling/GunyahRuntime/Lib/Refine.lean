/-
# GunyahRuntime.Lib.Refine -- services and what they are meant to answer

A service takes requests: each is answered and leads to the next state, or the service stops with a fault. Its
specification answers every request, and may say which requests it is for. A service refines it if from related states
every request that is allowed is answered by both alike and leads to related states; then every list of allowed requests
is (`Refines.serve`), and the service stops at none of them. So a service whose states are full of pointers and words can
be replaced by a specification that has neither.

Nothing here names a program.
-/
import Mathlib.Tactic.Common

namespace GunyahRuntime.Lib

variable {ε σ τ ρ α : Type*}

/-- Requests one after the other: the answers, and the last state. -/
def serve (step : σ → ρ → Except ε (α × σ)) : σ → List ρ → Except ε (List α × σ)
  | s, [] => .ok ([], s)
  | s, r :: rs => do
    let first ← step s r
    let rest ← serve step first.2 rs
    return (first.1 :: rest.1, rest.2)

/-- What a specification answers, and its last state. -/
def replies (spec : τ → ρ → α × τ) : τ → List ρ → List α × τ
  | t, [] => ([], t)
  | t, r :: rs => ((spec t r).1 :: (replies spec (spec t r).2 rs).1, (replies spec (spec t r).2 rs).2)

/-- Each request is allowed where it is made. -/
def Keeps (spec : τ → ρ → α × τ) (ok : τ → ρ → Prop) : τ → List ρ → Prop
  | _, [] => True
  | t, r :: rs => ok t r ∧ Keeps spec ok (spec t r).2 rs

/-- Allowed requests are answered as the specification says, and `rel` goes on to say what the states stand for. -/
def Refines (step : σ → ρ → Except ε (α × σ)) (spec : τ → ρ → α × τ) (ok : τ → ρ → Prop) (rel : σ → τ → Prop) : Prop :=
  ∀ s t r, rel s t → ok t r → ∃ s', step s r = .ok ((spec t r).1, s') ∧ rel s' (spec t r).2

theorem serve_cons {step : σ → ρ → Except ε (α × σ)} {s s' s'' : σ} {r : ρ} {rs : List ρ} {a : α} {as : List α}
    (hfirst : step s r = .ok (a, s')) (hrest : serve step s' rs = .ok (as, s'')) :
    serve step s (r :: rs) = .ok (a :: as, s'') := by
  unfold serve
  rw [hfirst]
  show (serve step s' rs >>= fun rest => pure (a :: rest.1, rest.2)) = _
  rw [hrest]
  rfl

/-- **The run rule**: what refines a specification answers every list of allowed requests as the specification does. -/
theorem Refines.serve {step : σ → ρ → Except ε (α × σ)} {spec : τ → ρ → α × τ} {ok : τ → ρ → Prop} {rel : σ → τ → Prop}
    (h : Refines step spec ok rel) {s : σ} {t : τ} (hst : rel s t) {rs : List ρ} (hrs : Keeps spec ok t rs) :
    ∃ s', Lib.serve step s rs = .ok ((replies spec t rs).1, s') ∧ rel s' (replies spec t rs).2 := by
  induction rs generalizing s t with
  | nil => exact ⟨s, rfl, hst⟩
  | cons r rs ih =>
    obtain ⟨hok, hrest⟩ := hrs
    obtain ⟨s₁, hstep, hst₁⟩ := h s t r hst hok
    obtain ⟨s₂, hserve, hst₂⟩ := ih hst₁ hrest
    exact ⟨s₂, serve_cons hstep hserve, hst₂⟩

end GunyahRuntime.Lib
