import Mathlib

namespace FiberGateway.Interleaving

variable {σ ε : Type*} (Enabled : σ → ε → Prop) [∀ s e, Decidable (Enabled s e)] (step : σ → ε → Option σ)

/-- Steps of several parties in any order. A step that no party can make now is passed over; a step that goes wrong ends
the run with `none`. -/
def run (s : σ) (events : List ε) : Option σ :=
  events.foldlM (fun s event => if Enabled s event then step s event else some s) s

/-- Every step of the run meets the condition in the state in which it is made. -/
def Through (Calm : σ → ε → Prop) : σ → List ε → Prop
  | _, [] => True
  | s, event :: events =>
    if Enabled s event then Calm s event ∧ ∀ s', step s event = some s' → Through Calm s' events
    else Through Calm s events

variable {Enabled step} {Calm : σ → ε → Prop} {Inv : σ → Prop} {s s' : σ} {event : ε} {events : List ε}

theorem Through.cons (enabled : Enabled s event) (calm : Calm s event) (done : step s event = some s')
    (rest : Through Enabled step Calm s' events) : Through Enabled step Calm s (event :: events) := by
  rw [Through, if_pos enabled]
  refine ⟨calm, fun s'' done' => ?_⟩
  rwa [← Option.some.inj (done.symm.trans done')]

/-- What every calm step keeps, the run keeps, and it does not go wrong. -/
theorem Through.run_invariant
    (keeps : ∀ s event, Inv s → Enabled s event → Calm s event → ∃ s', step s event = some s' ∧ Inv s')
    (calm : Through Enabled step Calm s events) (inv : Inv s) : ∃ s', run Enabled step s events = some s' ∧ Inv s' := by
  induction events generalizing s with
  | nil => exact ⟨s, rfl, inv⟩
  | cons event events ih =>
    rw [Through] at calm
    rw [run, List.foldlM_cons]
    by_cases enabled : Enabled s event
    · rw [if_pos enabled] at calm ⊢
      obtain ⟨s₁, done, inv₁⟩ := keeps s event inv enabled calm.1
      rw [done]
      exact ih (calm.2 s₁ done) inv₁
    · rw [if_neg enabled] at calm ⊢
      exact ih calm inv

theorem through_true (s : σ) (events : List ε) : Through Enabled step (fun _ _ => True) s events := by
  induction events generalizing s with
  | nil => trivial
  | cons event events ih =>
    rw [Through]
    split
    · exact ⟨trivial, fun s' _ => ih s'⟩
    · exact ih s

theorem run_invariant (keeps : ∀ s event, Inv s → Enabled s event → ∃ s', step s event = some s' ∧ Inv s')
    (inv : Inv s) (events : List ε) : ∃ s', run Enabled step s events = some s' ∧ Inv s' :=
  Through.run_invariant (fun s event inv enabled _ => keeps s event inv enabled) (through_true s events) inv

end FiberGateway.Interleaving
