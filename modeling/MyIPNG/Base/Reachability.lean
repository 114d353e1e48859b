import MyIPNG.Base.Runs

/-!
# What a machine can still reach

`CanReach` says that some events that meet a condition lead from a state to one with a property.
`canReach_of_measure` is the rule for progress: from every state with an invariant and without the
property one can reach a state with the invariant and a smaller measure, so one can reach the
property.
-/

set_option autoImplicit false
set_option relaxedAutoImplicit false

namespace MyIPNG.Base

variable {σ ε ω : Type*} {step : σ → ε → σ × List ω} {ok : σ → ε → Prop} {P Q : σ → Prop}

/-- Some events that meet the condition lead to a state with the property. -/
def CanReach (step : σ → ε → σ × List ω) (ok : σ → ε → Prop) (start : σ) (P : σ → Prop) : Prop :=
  ∃ events, Along step ok start events ∧ P (run step start events).1

theorem CanReach.here {start : σ} (h : P start) : CanReach step ok start P := ⟨[], trivial, h⟩

theorem CanReach.next {start : σ} {event : ε} (hok : ok start event)
    (h : CanReach step ok (step start event).1 P) : CanReach step ok start P := by
  obtain ⟨events, hevents, hreached⟩ := h
  exact ⟨event :: events, ⟨hok, hevents⟩, hreached⟩

theorem CanReach.trans {start : σ} (h : CanReach step ok start P)
    (hnext : ∀ state, P state → CanReach step ok state Q) : CanReach step ok start Q := by
  obtain ⟨events, hevents, hreached⟩ := h
  obtain ⟨more, hmore, hfinal⟩ := hnext _ hreached
  refine ⟨events ++ more, along_append.mpr ⟨hevents, hmore⟩, ?_⟩
  rw [run_append]
  exact hfinal

/-- What every step keeps still holds of what is reached. -/
theorem CanReach.keeps {start : σ} (h : CanReach step ok start P) {I : σ → Prop} (hstart : I start)
    (hkeep : ∀ state event, I state → ok state event → I (step state event).1) :
    CanReach step ok start fun state ↦ P state ∧ I state := by
  obtain ⟨events, hevents, hreached⟩ := h
  refine ⟨events, hevents, hreached, ?_⟩
  exact run_induction (P := fun _ state _ ↦ I state) hstart
    (fun _ state _ event hbefore hok ↦ hkeep state event hbefore hok) hevents

/-- The rule for progress. Assumes: from a state with the invariant and without the property one can
reach a state with the invariant and a smaller measure. -/
theorem canReach_of_measure {I : σ → Prop} (measure : σ → ℕ)
    (hprogress : ∀ state, I state → ¬ P state →
      CanReach step ok state fun next ↦ I next ∧ measure next < measure state)
    {start : σ} (hstart : I start) : CanReach step ok start fun state ↦ I state ∧ P state := by
  induction hsize : measure start using Nat.strongRecOn generalizing start with
  | ind size ih =>
    by_cases hdone : P start
    · exact CanReach.here ⟨hstart, hdone⟩
    · apply (hprogress start hstart hdone).trans
      rintro next ⟨hnext, hsmaller⟩
      exact ih _ (hsize ▸ hsmaller) hnext rfl

end MyIPNG.Base
