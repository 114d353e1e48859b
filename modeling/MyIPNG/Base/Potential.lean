import MyIPNG.Base.Runs
import Mathlib.Algebra.GroupWithZero.Nat

/-!
# What a run pays for

Every step of a machine has a cost and an income, which may read the event and the outputs of the
step. When the states have a potential and no step costs more than its income and the potential that
it takes away, then no run costs more than its income and the potential of its start.
-/

set_option autoImplicit false
set_option relaxedAutoImplicit false

namespace MyIPNG.Base

variable {σ ε ω : Type*} {step : σ → ε → σ × List ω}

/-- The potential rule. Assumes: the invariant holds at the start and every step keeps it, and a
step from a state with the invariant is paid for. -/
theorem cost_le_of_potential (potential : σ → ℕ) (cost income : ε × List ω → ℕ) {I : σ → Prop}
    (hkeep : ∀ state event, I state → I (step state event).1)
    (hpaid : ∀ state event, I state →
      cost (event, (step state event).2) + potential (step state event).1 ≤
        potential state + income (event, (step state event).2))
    {start : σ} (hstart : I start) (events : List ε) :
    ((run (traced step) start events).2.map cost).sum ≤
      potential start + ((run (traced step) start events).2.map income).sum := by
  induction events generalizing start with
  | nil => exact Nat.zero_le _
  | cons event rest ih =>
    have hfirst := hpaid start event hstart
    have hrest := ih (hkeep start event hstart)
    rw [run_cons]
    simp only [traced, List.map_append, List.map_cons, List.map_nil, List.sum_append,
      List.sum_singleton]
    omega

end MyIPNG.Base
