import Mathlib.Data.List.Forall2
import Mathlib.Data.List.Induction

/-!
# Runs of a deterministic machine with outputs

A machine is a step function from a state and an event to the next state and the outputs of the
step. `run` executes a list of events. `Along` says that every step of a run meets a condition on
the event and on the state before it.

`run_induction` is the invariant rule: a property of the events so far, the state and the outputs
so far, which holds at the start and which every step that meets the condition keeps, holds after
the whole run; `Along.of_invariant` draws from an invariant what every step of a run does, and
`along_iff_forall_prefixes` has both directions for a condition that the next state shows, and
`along_iff_of_invariant` for two conditions that are the same under the invariant. `traced`
makes the events part of the outputs, `recorded` makes them part of the state, and `observed` adds
to the state what an observer makes of them. `run_lockstep` is the simulation rule for two machines
driven by related events.
-/

set_option autoImplicit false
set_option relaxedAutoImplicit false

namespace MyIPNG.Base

section Runs

variable {σ ε ω : Type*}

/-- The state and the outputs after a list of events. -/
def run (step : σ → ε → σ × List ω) : σ → List ε → σ × List ω
  | state, [] => (state, [])
  | state, event :: rest =>
    let next := step state event
    let final := run step next.1 rest
    (final.1, next.2 ++ final.2)

/-- Every step of the run meets the condition `ok`, which reads the state before the step. -/
def Along (step : σ → ε → σ × List ω) (ok : σ → ε → Prop) : σ → List ε → Prop
  | _, [] => True
  | state, event :: rest => ok state event ∧ Along step ok (step state event).1 rest

instance decidableAlong (step : σ → ε → σ × List ω) (ok : σ → ε → Prop)
    [∀ state event, Decidable (ok state event)] :
    ∀ state events, Decidable (Along step ok state events)
  | _, [] => isTrue trivial
  | state, event :: rest =>
    have := decidableAlong step ok (step state event).1 rest
    inferInstanceAs (Decidable (ok state event ∧ Along step ok (step state event).1 rest))

/-- The machine that reports every event together with the outputs of its step. -/
def traced (step : σ → ε → σ × List ω) (state : σ) (event : ε) : σ × List (ε × List ω) :=
  ((step state event).1, [(event, (step state event).2)])

/-- The machine that keeps the events so far in its state. -/
def recorded (step : σ → ε → σ × List ω) (state : σ × List ε) (event : ε) :
    (σ × List ε) × List ω :=
  (((step state.1 event).1, state.2 ++ [event]), (step state.1 event).2)

/-- The machine together with an observer, which sees every event and the state before it. -/
def observed {γ : Type*} (step : σ → ε → σ × List ω) (observe : σ → γ → ε → γ) (state : σ × γ)
    (event : ε) : (σ × γ) × List ω :=
  (((step state.1 event).1, observe state.1 state.2 event), (step state.1 event).2)

variable (step : σ → ε → σ × List ω)

@[simp] theorem run_nil (state : σ) : run step state [] = (state, []) := rfl

theorem run_cons (state : σ) (event : ε) (rest : List ε) :
    run step state (event :: rest) =
      ((run step (step state event).1 rest).1,
        (step state event).2 ++ (run step (step state event).1 rest).2) := rfl

theorem run_append (state : σ) (first second : List ε) :
    run step state (first ++ second) =
      ((run step (run step state first).1 second).1,
        (run step state first).2 ++ (run step (run step state first).1 second).2) := by
  induction first generalizing state with
  | nil => rfl
  | cons event rest ih =>
    rw [List.cons_append, run_cons, ih, run_cons]
    simp only [List.append_assoc]

/-- A run extended by one event. -/
theorem run_snoc (state : σ) (events : List ε) (event : ε) :
    run step state (events ++ [event]) =
      ((step (run step state events).1 event).1,
        (run step state events).2 ++ (step (run step state events).1 event).2) := by
  rw [run_append]
  simp [run_cons]

/-- A run over translated events is a run of the machine that translates its events. -/
theorem run_map {ε' : Type*} (translate : ε' → ε) (state : σ) (events : List ε') :
    run step state (events.map translate) =
      run (fun state event ↦ step state (translate event)) state events := by
  induction events generalizing state with
  | nil => rfl
  | cons event rest ih => rw [List.map_cons, run_cons, run_cons, ih]

variable {step}

theorem along_append {ok : σ → ε → Prop} {state : σ} {first second : List ε} :
    Along step ok state (first ++ second) ↔
      Along step ok state first ∧ Along step ok (run step state first).1 second := by
  induction first generalizing state with
  | nil => simp [Along]
  | cons event rest ih => simp only [List.cons_append, Along, ih, run_cons, and_assoc]

theorem Along.and {ok ok' : σ → ε → Prop} {state : σ} {events : List ε}
    (h : Along step ok state events) (h' : Along step ok' state events) :
    Along step (fun state event ↦ ok state event ∧ ok' state event) state events := by
  induction events generalizing state with
  | nil => trivial
  | cons event rest ih => exact ⟨⟨h.1, h'.1⟩, ih h.2 h'.2⟩

/-- A condition that does not read the state holds along a run when it holds of every event. -/
theorem along_of_forall {ok : ε → Prop} {events : List ε} (h : ∀ event ∈ events, ok event)
    (state : σ) : Along step (fun _ event ↦ ok event) state events := by
  induction events generalizing state with
  | nil => trivial
  | cons event rest ih =>
    exact ⟨h event List.mem_cons_self,
      ih (fun other hother ↦ h other (List.mem_cons_of_mem _ hother)) _⟩

/-- Every run meets the condition that asks for nothing. -/
theorem along_true (step : σ → ε → σ × List ω) (start : σ) (events : List ε) :
    Along step (fun _ _ ↦ True) start events :=
  along_of_forall (fun _ _ ↦ trivial) start

/-- The invariant rule. Assumes: the property holds of the start with no event and no output, and
a step that meets the condition keeps it. The property holds after every run whose steps all meet
the condition. -/
theorem run_induction {ok : σ → ε → Prop} {start : σ} {P : List ε → σ → List ω → Prop}
    (hstart : P [] start [])
    (hstep : ∀ events state outputs event, P events state outputs → ok state event →
      P (events ++ [event]) (step state event).1 (outputs ++ (step state event).2))
    {events : List ε} (h : Along step ok start events) :
    P events (run step start events).1 (run step start events).2 := by
  induction events using List.reverseRecOn with
  | nil => exact hstart
  | append_singleton events event ih =>
    obtain ⟨hbefore, hlast⟩ := along_append.mp h
    rw [run_snoc]
    exact hstep events _ _ event (ih hbefore) hlast.1

/-- The invariant rule for what a step does. Assumes: the invariant holds at the start, a step that
meets the condition keeps it, and a step that meets the condition in a state with the invariant
also meets `ok'`. -/
theorem Along.of_invariant {ok ok' : σ → ε → Prop} {start : σ} {I : σ → Prop} (hstart : I start)
    (hstep : ∀ state event, I state → ok state event → I (step state event).1)
    (hok : ∀ state event, I state → ok state event → ok' state event)
    {events : List ε} (h : Along step ok start events) : Along step ok' start events := by
  induction events generalizing start with
  | nil => trivial
  | cons event rest ih =>
    exact ⟨hok start event hstart h.1, ih (hstep start event hstart h.1) h.2⟩

/-- The invariant rule in both directions. Assumes: the invariant holds at the start and gives `P`,
a step that meets the condition keeps it, and a step from a state with the invariant to a state with
`P` meets the condition. -/
theorem along_iff_forall_prefixes {ok : σ → ε → Prop} {start : σ} {I P : σ → Prop}
    (hstart : I start)
    (hholds : ∀ state, I state → P state)
    (hstep : ∀ state event, I state → ok state event → I (step state event).1)
    (hneeds : ∀ state event, I state → P (step state event).1 → ok state event)
    (events : List ε) :
    Along step ok start events ↔ ∀ first, first <+: events → P (run step start first).1 := by
  induction events generalizing start with
  | nil =>
    refine ⟨fun _ first hfirst ↦ ?_, fun _ ↦ trivial⟩
    rw [List.prefix_nil.mp hfirst]
    exact hholds start hstart
  | cons event rest ih =>
    constructor
    · rintro ⟨hok, hrest⟩ first hfirst
      rcases List.prefix_cons_iff.mp hfirst with rfl | ⟨later, rfl, hlater⟩
      · exact hholds start hstart
      · exact (ih (hstep start event hstart hok)).mp hrest later hlater
    · intro hall
      have hok : ok start event := hneeds start event hstart (hall [event] (by simp))
      refine ⟨hok, (ih (hstep start event hstart hok)).mpr fun later hlater ↦ ?_⟩
      exact hall (event :: later) (List.cons_prefix_cons.mpr ⟨rfl, hlater⟩)

/-- The invariant rule for two conditions. Assumes: the invariant holds at the start, in a state
with the invariant the two conditions are the same, and a step that meets them keeps it. -/
theorem along_iff_of_invariant {ok ok' : σ → ε → Prop} {domain : ε → Prop} {start : σ}
    {I : σ → Prop} (hstart : I start)
    (hiff : ∀ state event, I state → domain event → (ok state event ↔ ok' state event))
    (hstep : ∀ state event, I state → domain event → ok' state event → I (step state event).1)
    {events : List ε} (hevents : ∀ event ∈ events, domain event) :
    Along step ok start events ↔ Along step ok' start events := by
  induction events generalizing start with
  | nil => exact Iff.rfl
  | cons event rest ih =>
    have hevent := hevents event List.mem_cons_self
    have hsame := hiff start event hstart hevent
    have hrest := fun other hother ↦ hevents other (List.mem_cons_of_mem _ hother)
    constructor
    · rintro ⟨hok, hlater⟩
      exact ⟨hsame.mp hok, (ih (hstep start event hstart hevent (hsame.mp hok)) hrest).mp hlater⟩
    · rintro ⟨hok, hlater⟩
      exact ⟨hsame.mpr hok, (ih (hstep start event hstart hevent hok) hrest).mpr hlater⟩

theorem along_congr {ok ok' : σ → ε → Prop} (h : ∀ state event, ok state event ↔ ok' state event)
    (start : σ) (events : List ε) : Along step ok start events ↔ Along step ok' start events := by
  have hequal : ok = ok' := by
    ext state event
    exact h state event
  rw [hequal]

/-- The lockstep rule. Assumes: related states stay related when the first machine takes a step
that meets the condition and the second machine the translated one, and the outputs of the two
steps agree one by one. Then whole runs are related in the same way. -/
theorem run_lockstep {σ' ε' ω' : Type*} {step' : σ' → ε' → σ' × List ω'} {ok : σ → ε → Prop}
    {related : σ → σ' → Prop} {agrees : ω → ω' → Prop} (translate : ε → ε')
    (hstep : ∀ state state' event, related state state' → ok state event →
      related (step state event).1 (step' state' (translate event)).1 ∧
        List.Forall₂ agrees (step state event).2 (step' state' (translate event)).2)
    {events : List ε} {start : σ} {start' : σ'} (hstart : related start start')
    (h : Along step ok start events) :
    related (run step start events).1 (run step' start' (events.map translate)).1 ∧
      List.Forall₂ agrees (run step start events).2
        (run step' start' (events.map translate)).2 := by
  induction events generalizing start start' with
  | nil => exact ⟨hstart, List.Forall₂.nil⟩
  | cons event rest ih =>
    obtain ⟨hnext, houtput⟩ := hstep start start' event hstart h.1
    obtain ⟨hfinal, hrest⟩ := ih hnext h.2
    exact ⟨hfinal, List.rel_append houtput hrest⟩

end Runs

end MyIPNG.Base
