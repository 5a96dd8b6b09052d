import Wheespa.Library.Transition

/-!
# Runs of a finer system as runs of a coarser one

`abs` takes the states of a fine system to those of a coarse one, and `label` says which action of
the coarse system a transition stands for, if any. Where every transition of a run is matched
(`Matched`), the run is one of the coarse system (`Run.lifted`), and what the coarse run shows of
its states holds of the fine run's (`Run.of_lifted`). `Run.simulates` takes the matching of single
steps inside an invariant to runs.
-/

namespace Wheespa.Transition

universe u v u' v'

variable {State : Type u} {Action : Type v} {Coarse : Type u'} {CoarseAction : Type v'}
  {step : State → Action → Option State} {coarse : Coarse → CoarseAction → Option Coarse}
  {abs : State → Coarse} {label : Event State Action → Option CoarseAction}

/-- A transition is one of the coarse system, or changes nothing that it sees. -/
def Matched (coarse : Coarse → CoarseAction → Option Coarse) (abs : State → Coarse)
    (label : Event State Action → Option CoarseAction) (event : Event State Action) : Prop :=
  match label event with
  | none => abs event.after = abs event.before
  | some action => coarse (abs event.before) action = some (abs event.after)

/-- The transition of the coarse system. -/
def lift (abs : State → Coarse) (label : Event State Action → Option CoarseAction)
    (event : Event State Action) : Option (Event Coarse CoarseAction) :=
  (label event).map fun action => ⟨abs event.before, action, abs event.after⟩

variable {start finish : State} {events : List (Event State Action)}

/-- A run whose transitions are matched is a run of the coarse system. -/
theorem Run.lifted (hrun : Run step start events finish)
    (hmatched : ∀ event ∈ events, Matched coarse abs label event) :
    Run coarse (abs start) (events.filterMap (lift abs label)) (abs finish) := by
  induction hrun with
  | refl => exact .refl
  | @snoc events before after action hrun hstep ih =>
      rw [List.forall_mem_append, List.forall_mem_singleton] at hmatched
      obtain ⟨hold, hlast⟩ := hmatched
      rw [Matched] at hlast
      rw [List.filterMap_append, List.filterMap_cons, List.filterMap_nil, lift]
      cases hlabel : label ⟨before, action, after⟩ with
      | none =>
          rw [hlabel] at hlast
          have hsame : abs after = abs before := hlast
          rw [hsame, Option.map_none, List.append_nil]
          exact ih hold
      | some action' =>
          rw [hlabel] at hlast
          exact .snoc (ih hold) hlast

/-- What holds of the states of the coarse run holds of those of the fine run. -/
theorem Run.of_lifted {P : Coarse → Prop} (hrun : Run step start events finish)
    (hmatched : ∀ event ∈ events, Matched coarse abs label event) (hstart : P (abs start))
    (h : ∀ event ∈ events.filterMap (lift abs label), P event.after) :
    P (abs finish) ∧ ∀ event ∈ events, P (abs event.after) := by
  induction hrun with
  | refl => exact ⟨hstart, by simp⟩
  | @snoc events before after action hrun hstep ih =>
      rw [List.filterMap_append, List.forall_mem_append] at h
      rw [List.forall_mem_append, List.forall_mem_singleton] at hmatched ⊢
      obtain ⟨hbefore, hold⟩ := ih hmatched.1 h.1
      have hlast := hmatched.2
      have hafter : P (abs after) := by
        rw [Matched] at hlast
        cases hlabel : label ⟨before, action, after⟩ with
        | none =>
            rw [hlabel] at hlast
            have hsame : abs after = abs before := hlast
            rwa [hsame]
        | some action' =>
            refine h.2 ⟨abs before, action', abs after⟩ ?_
            rw [List.filterMap_cons, lift, hlabel]
            exact List.mem_singleton.mpr rfl
      exact ⟨hafter, hold, hafter⟩

/-- Where each step from inside the invariant that meets `Good` stays inside and is matched, every
transition of a run whose steps meet `Good` is matched. -/
theorem Run.simulates (Inv : State → Prop) (Good : State → Action → Prop)
    (hrun : Run step start events finish) (hstart : Inv start)
    (hgood : ∀ event ∈ events, Good event.before event.action)
    (hstep : ∀ event : Event State Action, step event.before event.action = some event.after →
      Inv event.before → Good event.before event.action →
      Inv event.after ∧ Matched coarse abs label event) :
    ∀ event ∈ events, Matched coarse abs label event := by
  have hinv := hrun.invariant Inv hstart fun event hevent htaken hbefore =>
    (hstep event htaken hbefore (hgood event hevent)).1
  intro event hevent
  exact (hstep event (hrun.step_eq hevent) (hinv.2 event hevent).1 (hgood event hevent)).2

end Wheespa.Transition
