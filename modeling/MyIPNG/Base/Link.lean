import MyIPNG.Base.Runs
import Mathlib.Logic.Function.Basic

/-!
# Two machines with a network between them

A station is a machine together with its history: every event with the outputs that it caused. The
two ends of a link are stations, and a run of the link is any interleaving of their events. What a
network may deliver is a condition `ok` on an event and on the stations before it, so a message that
was put out once can be lost, delayed, delivered again and overtaken.

What one direction of a link keeps is a relation `D` between the station that sends and the station
that receives. `link_induction` is the invariant rule: a relation that holds at the start and that
every event at either end keeps holds in both directions after every run.
-/

set_option autoImplicit false
set_option relaxedAutoImplicit false

namespace MyIPNG.Base

/-- The two ends of a link. -/
inductive Side
  | near
  | far
deriving DecidableEq, Repr

/-- The other end. -/
def Side.other : Side → Side
  | near => far
  | far => near

@[simp] theorem Side.other_other (side : Side) : side.other.other = side := by
  cases side <;> rfl

theorem Side.other_ne (side : Side) : side.other ≠ side := by
  cases side <;> simp [Side.other]

section Link

variable {σ ε ω : Type*}

/-- A machine with its history. -/
structure Station (σ ε ω : Type*) where
  state : σ
  trace : List (ε × List ω)

/-- A machine at the begin of its history. -/
def Station.start (state : σ) : Station σ ε ω := ⟨state, []⟩

/-- A station takes an event. -/
def Station.take (step : σ → ε → σ × List ω) (station : Station σ ε ω) (event : ε) :
    Station σ ε ω :=
  ⟨(step station.state event).1, station.trace ++ [(event, (step station.state event).2)]⟩

/-- One event at one end of the link. The outputs are told apart by the end that put them out. -/
def linkStep (step : Side → σ → ε → σ × List ω) (stations : Side → Station σ ε ω)
    (event : Side × ε) : (Side → Station σ ε ω) × List (Side × ω) :=
  (Function.update stations event.1 ((stations event.1).take (step event.1) event.2),
    ((step event.1 (stations event.1).state event.2).2).map fun output ↦ (event.1, output))

variable {step : Side → σ → ε → σ × List ω}

theorem linkStep_self (stations : Side → Station σ ε ω) (side : Side) (event : ε) :
    (linkStep step stations (side, event)).1 side = (stations side).take (step side) event :=
  Function.update_self ..

theorem linkStep_other (stations : Side → Station σ ε ω) {side end' : Side} (h : end' ≠ side)
    (event : ε) : (linkStep step stations (side, event)).1 end' = stations end' :=
  Function.update_of_ne h ..

/-- The invariant rule for a link. Assumes: the relation holds in both directions at the start; an
event at the end that sends keeps it, and so does an event at the end that receives. Then it holds
in both directions after every run whose events all meet the condition. -/
theorem link_induction {ok : (Side → Station σ ε ω) → Side × ε → Prop}
    {D : Side → Station σ ε ω → Station σ ε ω → Prop} {start : Side → Station σ ε ω}
    (hstart : ∀ side, D side (start side) (start side.other))
    (hsender : ∀ stations side event, D side (stations side) (stations side.other) →
      D side.other (stations side.other) (stations side) → ok stations (side, event) →
        D side ((stations side).take (step side) event) (stations side.other))
    (hreceiver : ∀ stations side event, D side (stations side) (stations side.other) →
      D side.other (stations side.other) (stations side) → ok stations (side.other, event) →
        D side (stations side) ((stations side.other).take (step side.other) event))
    {events : List (Side × ε)} (h : Along (linkStep step) ok start events) (side : Side) :
    D side ((run (linkStep step) start events).1 side)
      ((run (linkStep step) start events).1 side.other) := by
  refine run_induction
    (P := fun _ stations _ ↦ ∀ side, D side (stations side) (stations side.other))
    hstart ?_ h side
  intro _ stations _ event hboth hok side
  obtain ⟨at', event⟩ := event
  by_cases hside : side = at'
  · subst hside
    rw [linkStep_self, linkStep_other _ side.other_ne]
    have hback := hboth side.other
    rw [Side.other_other] at hback
    exact hsender stations side event (hboth side) hback hok
  · obtain rfl : at' = side.other := by
      cases side <;> cases at' <;> simp_all [Side.other]
    rw [linkStep_self, linkStep_other _ hside]
    have hback := hboth side.other
    rw [Side.other_other] at hback
    exact hreceiver stations side event (hboth side) hback hok

end Link

end MyIPNG.Base
