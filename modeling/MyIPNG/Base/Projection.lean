import MyIPNG.Base.Runs

/-!
# A machine that serves many, seen by one of them

A server keeps something for each of those it serves, and its events and outputs are of the one or
the other. `view` is what it keeps for one of them, `mine` picks the events that are of this one,
and `shown` the outputs. When the other events leave the view and show nothing, and the own events
depend on the view alone, the run of all events shows what the run of the own events shows
(`run_projection`). `translated` is a machine in front of another one, which passes on some of its
events.
-/

set_option autoImplicit false
set_option relaxedAutoImplicit false

namespace MyIPNG.Base

section Projection

variable {σ ε ω τ : Type*} {step : σ → ε → σ × List ω} {ok : σ → ε → Prop} {view : σ → τ}
  {mine : ε → Bool} {shown : ω → Bool}

/-- An event of another one, which meets the condition, leaves the view and shows nothing. -/
def Ignores (step : σ → ε → σ × List ω) (ok : σ → ε → Prop) (view : σ → τ) (mine : ε → Bool)
    (shown : ω → Bool) : Prop :=
  ∀ state event, ok state event → mine event = false →
    view (step state event).1 = view state ∧ (step state event).2.filter shown = []

/-- What an own event does to the view and what it shows depends on the view alone. -/
def Reads (step : σ → ε → σ × List ω) (view : σ → τ) (mine : ε → Bool) (shown : ω → Bool) : Prop :=
  ∀ state state' event, mine event = true → view state = view state' →
    view (step state event).1 = view (step state' event).1 ∧
      (step state event).2.filter shown = (step state' event).2.filter shown

/-- A run is seen as the run of the own events alone, from any state with the same view. -/
theorem run_projection (hignores : Ignores step ok view mine shown)
    (hreads : Reads step view mine shown) {start start' : σ} (hview : view start = view start')
    {events : List ε} (h : Along step ok start events) :
    view (run step start events).1 = view (run step start' (events.filter mine)).1 ∧
      (run step start events).2.filter shown =
        (run step start' (events.filter mine)).2.filter shown := by
  induction events generalizing start start' with
  | nil => exact ⟨hview, rfl⟩
  | cons event rest ih =>
    obtain ⟨hok, hrest⟩ := h
    cases hmine : mine event with
    | true =>
      obtain ⟨hnext, hshown⟩ := hreads start start' event hmine hview
      obtain ⟨hfinal, houtputs⟩ := ih hnext hrest
      rw [List.filter_cons_of_pos hmine, run_cons, run_cons, List.filter_append, hshown, houtputs,
        List.filter_append]
      exact ⟨hfinal, rfl⟩
    | false =>
      obtain ⟨hsame, hnothing⟩ := hignores start event hok hmine
      obtain ⟨hfinal, houtputs⟩ := ih (hsame.trans hview) hrest
      rw [List.filter_cons_of_neg (by simp [hmine]), run_cons, List.filter_append, hnothing,
        houtputs]
      exact ⟨hfinal, rfl⟩

/-- A machine that passes on some of its events, translated, to another one. -/
def translated {ε' : Type*} (translate : ε' → Option ε) (step : σ → ε → σ × List ω) (state : σ)
    (event : ε') : σ × List ω :=
  match translate event with
  | none => (state, [])
  | some event => step state event

/-- A run over events of which some are passed on is a run over those. -/
theorem run_translated {ε' : Type*} (translate : ε' → Option ε) (state : σ) (events : List ε') :
    run (translated translate step) state events = run step state (events.filterMap translate) := by
  induction events generalizing state with
  | nil => rfl
  | cons event rest ih =>
    cases htranslate : translate event with
    | none =>
      rw [List.filterMap_cons_none htranslate, run_cons, translated, htranslate, ih]
      rfl
    | some next =>
      rw [List.filterMap_cons_some htranslate, run_cons, run_cons, translated, htranslate, ih]

/-- The condition on the events that are passed on. -/
theorem along_translated {ε' : Type*} {translate : ε' → Option ε} {state : σ}
    {events : List ε'} :
    Along (translated translate step)
        (fun state event ↦ ∀ next, translate event = some next → ok state next) state events ↔
      Along step ok state (events.filterMap translate) := by
  induction events generalizing state with
  | nil => exact Iff.rfl
  | cons event rest ih =>
    rw [Along, ih]
    cases htranslate : translate event with
    | none =>
      rw [List.filterMap_cons_none htranslate, translated, htranslate]
      simp
    | some next =>
      rw [List.filterMap_cons_some htranslate, translated, htranslate]
      simp [Along]

end Projection

end MyIPNG.Base
