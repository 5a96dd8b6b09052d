import Mathlib.Data.List.Basic

/-!
# Labelled transition systems and their finite runs

A system is given by a partial function `step before action`; what the environment may choose is
part of the action. `Run step start events finish` is a finite execution that keeps every transition
it took, so that a property of a run may speak of the states visited, of the actions taken, or of
both. `Run.invariant` is the usual rule for safety properties, and `Run.goal_iff` is its exact form:
where a step reaches the goal just when a condition on the state before it holds, a run reaches only
goal states just when every step of the run meets the condition. `trace` computes the transitions of
given actions.
-/

namespace Wheespa.Transition

universe u v

/-- A transition that was taken. -/
structure Event (State : Type u) (Action : Type v) where
  before : State
  action : Action
  after : State

variable {State : Type u} {Action : Type v} {step : State → Action → Option State}

/-- A finite execution from `start` to `finish`, with its transitions in the order taken. -/
inductive Run (step : State → Action → Option State) (start : State) :
    List (Event State Action) → State → Prop where
  | refl : Run step start [] start
  | snoc {events : List (Event State Action)} {before after : State} {action : Action} :
      Run step start events before → step before action = some after →
      Run step start (events ++ [⟨before, action, after⟩]) after

/-- A single step is a run. -/
theorem Run.single {start finish : State} {action : Action} (h : step start action = some finish) :
    Run step start [⟨start, action, finish⟩] finish :=
  .snoc .refl h

/-- Runs compose. -/
theorem Run.append {start middle finish : State} {first rest : List (Event State Action)}
    (hfirst : Run step start first middle) (hrest : Run step middle rest finish) :
    Run step start (first ++ rest) finish := by
  induction hrest with
  | refl => simpa using hfirst
  | snoc _ hstep ih =>
      rw [← List.append_assoc]
      exact .snoc ih hstep

/-- The transitions of a list of actions, taken one after the other. -/
def trace (step : State → Action → Option State) (start : State) :
    List Action → Option (List (Event State Action))
  | [] => some []
  | action :: rest =>
      (step start action).bind fun next =>
        (trace step next rest).map fun events => ⟨start, action, next⟩ :: events

/-- The transitions of a list of actions make up a run. -/
theorem Run.of_trace {start : State} {actions : List Action} {events : List (Event State Action)}
    (h : trace step start actions = some events) :
    (∃ finish, Run step start events finish) ∧ events.map Event.action = actions := by
  induction actions generalizing start events with
  | nil =>
      obtain rfl := Option.some.inj h
      exact ⟨⟨start, .refl⟩, rfl⟩
  | cons action rest ih =>
      obtain ⟨next, hstep, hrest⟩ := Option.bind_eq_some_iff.mp h
      obtain ⟨events, htrace, rfl⟩ := Option.map_eq_some_iff.mp hrest
      obtain ⟨⟨finish, hrun⟩, hactions⟩ := ih htrace
      exact ⟨⟨finish, (Run.single hstep).append hrun⟩, by rw [List.map_cons, hactions]⟩

/-- A run on given actions, all of whose transitions have a property that can be computed. -/
theorem Run.exists_of_trace (step : State → Action → Option State) (start : State)
    (actions : List Action) (p : Event State Action → Prop) [DecidablePred p]
    (h : (trace step start actions).any fun events => events.all fun event => p event) :
    ∃ events finish, Run step start events finish ∧ events.map Event.action = actions ∧
      ∀ event ∈ events, p event := by
  obtain ⟨events, htrace, hall⟩ := Option.any_eq_true _ _ |>.mp h
  obtain ⟨⟨finish, hrun⟩, hactions⟩ := Run.of_trace htrace
  refine ⟨events, finish, hrun, hactions, fun event hevent => ?_⟩
  exact of_decide_eq_true (List.all_eq_true.mp hall event hevent)

/-- Every transition that a run records is a step of the system. -/
theorem Run.step_eq {start finish : State} {events : List (Event State Action)}
    (h : Run step start events finish) {event : Event State Action} (hevent : event ∈ events) :
    step event.before event.action = some event.after := by
  induction h with
  | refl => simp at hevent
  | snoc _ hstep ih =>
      rcases List.mem_append.mp hevent with hold | hlast
      · exact ih hold
      · obtain rfl := List.mem_singleton.mp hlast
        exact hstep

/-- The transitions before one of a run are a run to the state in which that one is taken. -/
theorem Run.before_event {start finish : State} {events earlier later : List (Event State Action)}
    {event : Event State Action} (h : Run step start events finish)
    (hevents : events = earlier ++ event :: later) : Run step start earlier event.before := by
  induction h generalizing later with
  | refl => exact absurd hevents.symm (by simp)
  | snoc hrun _ ih =>
      rcases List.eq_nil_or_concat later with rfl | ⟨rest, last, rfl⟩
      · obtain ⟨rfl, hlast⟩ := List.append_inj' hevents rfl
        obtain rfl := List.singleton_injective hlast
        exact hrun
      · rw [List.concat_eq_append, ← List.cons_append, ← List.append_assoc] at hevents
        exact ih (List.append_inj' hevents rfl).1

/-- A property of the start that every step of the run preserves holds throughout the run. -/
theorem Run.invariant (Inv : State → Prop) {start finish : State}
    {events : List (Event State Action)} (h : Run step start events finish) (hstart : Inv start)
    (hstep : ∀ event ∈ events, step event.before event.action = some event.after →
      Inv event.before → Inv event.after) :
    Inv finish ∧ ∀ event ∈ events, Inv event.before ∧ Inv event.after := by
  induction h with
  | refl => exact ⟨hstart, by simp⟩
  | snoc hrun hlast ih =>
      rw [List.forall_mem_append, List.forall_mem_singleton] at hstep ⊢
      obtain ⟨hbefore, hold⟩ := ih hstep.1
      have hafter := hstep.2 hlast hbefore
      exact ⟨hafter, hold, hbefore, hafter⟩

/-- Where a step from inside the invariant reaches the goal exactly under `Cond`, and reaching the
goal keeps the invariant, a run reaches only goal states exactly when each of its steps meets
`Cond`. -/
theorem Run.goal_iff (Inv : State → Prop) {Goal : State → Prop}
    {Cond : State → Action → Prop} {start finish : State} {events : List (Event State Action)}
    (h : Run step start events finish) (hstart : Inv start)
    (hgoal : ∀ before action after, step before action = some after → Inv before →
      (Goal after ↔ Cond before action))
    (hinv : ∀ before action after, step before action = some after → Inv before → Goal after →
      Inv after) :
    (∀ event ∈ events, Goal event.after) ↔
      ∀ event ∈ events, Cond event.before event.action := by
  -- the invariant of the last state is what the next step needs of the goal states before it
  suffices hboth : ((∀ event ∈ events, Goal event.after) → Inv finish) ∧
      ((∀ event ∈ events, Goal event.after) ↔
        ∀ event ∈ events, Cond event.before event.action) from hboth.2
  induction h with
  | refl => simpa using hstart
  | snoc _ hlast ih =>
      obtain ⟨hbefore, hiff⟩ := ih
      simp only [List.forall_mem_append, List.forall_mem_singleton]
      refine ⟨fun hafter => hinv _ _ _ hlast (hbefore hafter.1) hafter.2, ?_⟩
      constructor
      · rintro ⟨hold, hafter⟩
        exact ⟨hiff.mp hold, (hgoal _ _ _ hlast (hbefore hold)).mp hafter⟩
      · rintro ⟨hold, hcond⟩
        have hafter := hiff.mpr hold
        exact ⟨hafter, (hgoal _ _ _ hlast (hbefore hafter)).mpr hcond⟩

end Wheespa.Transition
