import MyIPNG.Base.Link

/-!
# Machines on a network

A link has two ends; here there is a machine for each place of a type, each with its history. What a
network may deliver to a machine is again a condition on an event and on all stations before it.

`network_induction` is the rely-guarantee rule. What a machine guarantees is a property of its own
station; a step of one machine may rely on what all of them guarantee, and has to keep only its own
guarantee. Then all of them hold after every run.
-/

set_option autoImplicit false
set_option relaxedAutoImplicit false

namespace MyIPNG.Base

section Network

variable {ι σ ε ω : Type*}

/-- All that a machine has put out. -/
def Station.outputs (station : Station σ ε ω) : List ω := station.trace.flatMap Prod.snd

@[simp] theorem Station.outputs_start (state : σ) :
    (Station.start state : Station σ ε ω).outputs = [] := rfl

@[simp] theorem Station.outputs_take (step : σ → ε → σ × List ω) (station : Station σ ε ω)
    (event : ε) :
    (station.take step event).outputs = station.outputs ++ (step station.state event).2 := by
  rw [Station.outputs, Station.take, List.flatMap_append, List.flatMap_singleton]
  rfl

variable [DecidableEq ι]

/-- One event at one place of the network. The outputs are told apart by the place. -/
def netStep (step : ι → σ → ε → σ × List ω) (stations : ι → Station σ ε ω) (event : ι × ε) :
    (ι → Station σ ε ω) × List (ι × ω) :=
  (Function.update stations event.1 ((stations event.1).take (step event.1) event.2),
    ((step event.1 (stations event.1).state event.2).2).map fun output ↦ (event.1, output))

variable {step : ι → σ → ε → σ × List ω} {stations : ι → Station σ ε ω} {event : ε}

theorem netStep_self (step : ι → σ → ε → σ × List ω) (stations : ι → Station σ ε ω) (place : ι)
    (event : ε) :
    (netStep step stations (place, event)).1 place = (stations place).take (step place) event :=
  Function.update_self ..

theorem netStep_other (step : ι → σ → ε → σ × List ω) (stations : ι → Station σ ε ω)
    {place other : ι} (h : other ≠ place) (event : ε) :
    (netStep step stations (place, event)).1 other = stations other :=
  Function.update_of_ne h ..

/-- The rely-guarantee rule. Assumes: every machine guarantees its property at the start, and a step
keeps the guarantee of its machine when it may rely on all of them. -/
theorem network_induction {ok : (ι → Station σ ε ω) → ι × ε → Prop}
    {I : ι → Station σ ε ω → Prop} {start : ι → Station σ ε ω}
    (hstart : ∀ place, I place (start place))
    (hstep : ∀ stations place event, (∀ other, I other (stations other)) →
      ok stations (place, event) → I place ((stations place).take (step place) event))
    {events : List (ι × ε)} (h : Along (netStep step) ok start events) (place : ι) :
    I place ((run (netStep step) start events).1 place) := by
  refine run_induction (P := fun _ stations _ ↦ ∀ place, I place (stations place)) hstart ?_ h place
  intro _ stations _ event hall hok place
  obtain ⟨at', event⟩ := event
  by_cases hplace : place = at'
  · rw [hplace, netStep_self]
    exact hstep stations at' event hall hok
  · rw [netStep_other _ _ hplace]
    exact hall place

end Network

end MyIPNG.Base
