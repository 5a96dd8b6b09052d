import Wheespa.Library.Transition

/-!
# A party among others

A party has local variables and takes its steps on a state that it shares with others, who update
that state between any two of them. `Party.step` interleaves the turns of the two sides, so that the
runs of `Wheespa.Library.Transition` are its executions. `Party.rely` is the rule for them: what the
party's own turns keep, and the updates that it can rely on keep too, holds throughout. A party that
only reads leaves the shared state to the others (`Reads.shared_run`), and what it answers is the
answer for a state that they have gone through (`Reads.linearization`). `Alone` is a run without
them.
-/

namespace Wheespa.Interference

open Transition

universe u v w

/-- A program that shares a state. A turn of its own gives `none` where it has come to its end or
goes wrong, and an update gives `none` where it is not possible. -/
structure Party (Shared : Type u) (Local : Type v) (Update : Type w) where
  own : Shared → Local → Option (Shared × Local)
  update : Shared → Update → Option Shared

/-- Whose turn it is. -/
inductive Turn (Update : Type w) where
  | own
  | other (update : Update)

/-- The turn is the party's own. -/
def Turn.isOwn {Update : Type w} : Turn Update → Bool
  | .own => true
  | .other _ => false

namespace Party

variable {Shared : Type u} {Local : Type v} {Update : Type w}

/-- One turn. -/
def step (party : Party Shared Local Update) (state : Shared × Local) :
    Turn Update → Option (Shared × Local)
  | .own => party.own state.1 state.2
  | .other update => (party.update state.1 update).map fun shared => (shared, state.2)

/-- An update is one that the party relies on. -/
def Relied (Rely : Shared → Local → Update → Prop)
    (event : Event (Shared × Local) (Turn Update)) : Prop :=
  match event.action with
  | .own => True
  | .other update => Rely event.before.1 event.before.2 update

instance decidableRelied (Rely : Shared → Local → Update → Prop)
    [∀ shared self update, Decidable (Rely shared self update)]
    (event : Event (Shared × Local) (Turn Update)) : Decidable (Relied Rely event) :=
  match event with
  | ⟨_, .own, _⟩ => .isTrue trivial
  | ⟨before, .other update, _⟩ => inferInstanceAs (Decidable (Rely before.1 before.2 update))

/-- What an update is relied on for can be put together. -/
theorem Relied.and {Rely Rely' : Shared → Local → Update → Prop}
    {event : Event (Shared × Local) (Turn Update)} (h : Relied Rely event)
    (h' : Relied Rely' event) : Relied
      (fun shared self update => Rely shared self update ∧ Rely' shared self update) event := by
  obtain ⟨before, action, after⟩ := event
  cases action with
  | own => trivial
  | other update => exact ⟨h, h'⟩

/-- A run relies on nothing where everything will do. -/
theorem relied_true (event : Event (Shared × Local) (Turn Update)) :
    Relied (fun _ _ _ => True) event := by
  unfold Relied
  split <;> trivial

variable {party : Party Shared Local Update} {start finish : Shared × Local}
  {events : List (Event (Shared × Local) (Turn Update))}

/-- What the party's own turns keep, and the updates in which `Rely` holds keep, holds in every
state of a run in which all updates are such. -/
theorem rely (Inv : Shared → Local → Prop) (Rely : Shared → Local → Update → Prop)
    (hrun : Run party.step start events finish) (hstart : Inv start.1 start.2)
    (hrely : ∀ event ∈ events, Relied Rely event)
    (hown : ∀ shared self shared' self', party.own shared self = some (shared', self') →
      Inv shared self → Inv shared' self')
    (hother : ∀ shared self update shared', party.update shared update = some shared' →
      Rely shared self update → Inv shared self → Inv shared' self) :
    Inv finish.1 finish.2 ∧
      ∀ event ∈ events, Inv event.before.1 event.before.2 ∧ Inv event.after.1 event.after.2 := by
  refine hrun.invariant (fun state => Inv state.1 state.2) hstart fun event hevent hstep hinv => ?_
  have hupdates := hrely event hevent
  obtain ⟨before, action, after⟩ := event
  cases action with
  | own => exact hown _ _ _ _ hstep hinv
  | other update =>
      obtain ⟨shared, hshared, hafter⟩ := Option.map_eq_some_iff.mp hstep
      obtain rfl : (shared, before.2) = after := hafter
      exact hother _ _ _ _ hshared hupdates hinv

/-- The party writes nothing that it shares. -/
def Reads (party : Party Shared Local Update) : Prop :=
  ∀ shared self shared' self', party.own shared self = some (shared', self') → shared' = shared

/-- The number of turns of its own that the party takes. -/
def ownCount (events : List (Event (Shared × Local) (Turn Update))) : Nat :=
  events.countP fun event => event.action.isOwn

/-- The update that a transition makes. -/
def updated? (event : Event (Shared × Local) (Turn Update)) : Option (Event Shared Update) :=
  match event.action with
  | .own => none
  | .other update => some ⟨event.before.1, update, event.after.1⟩

/-- Where the party only reads, the shared state goes through a run of the others. -/
theorem Reads.shared_run (h : party.Reads) (hrun : Run party.step start events finish) :
    Run party.update start.1 (events.filterMap updated?) finish.1 := by
  induction hrun with
  | refl => exact .refl
  | @snoc events before after action hrun hstep ih =>
      rw [List.filterMap_append]
      cases action with
      | own =>
          have hsame : after.1 = before.1 := h _ _ _ _ hstep
          have hnone : [(⟨before, .own, after⟩ : Event (Shared × Local) (Turn Update))].filterMap
              updated? = [] := rfl
          rw [hsame, hnone, List.append_nil]
          exact ih
      | other update =>
          obtain ⟨shared, hshared, rfl⟩ := Option.map_eq_some_iff.mp hstep
          exact .snoc ih hshared

/-- The shared state was `middle` at a moment of the run: the updates of the run lead to it, and
from it to the end. -/
def Passes (party : Party Shared Local Update) (start : Shared × Local)
    (events : List (Event (Shared × Local) (Turn Update))) (finish : Shared × Local)
    (middle : Shared) : Prop :=
  ∃ first rest, Run party.update start.1 first middle ∧ Run party.update middle rest finish.1 ∧
    first ++ rest = events.filterMap updated?

/-- The answer of a party that only reads is one for the shared state at a moment of the run, where
it is one for the state that the party reads last. -/
theorem Reads.linearization {α : Type*} (h : party.Reads) (Inv : Shared → Local → Prop)
    (Rely : Shared → Local → Update → Prop) (answer : Local → Option α) (Spec : Shared → α → Prop)
    (hrun : Run party.step start events finish) (hstart : Inv start.1 start.2)
    (hnone : answer start.2 = none)
    (hrely : ∀ event ∈ events, Relied Rely event)
    (hown : ∀ shared self shared' self', party.own shared self = some (shared', self') →
      Inv shared self → Inv shared' self')
    (hother : ∀ shared self update shared', party.update shared update = some shared' →
      Rely shared self update → Inv shared self → Inv shared' self)
    (hspec : ∀ shared self shared' self' a, party.own shared self = some (shared', self') →
      Inv shared self → answer self' = some a → Spec shared a)
    {a : α} (ha : answer finish.2 = some a) :
    ∃ middle, party.Passes start events finish middle ∧ Spec middle a := by
  induction hrun with
  | refl => exact absurd (hnone.symm.trans ha) (by simp)
  | @snoc events before after action hrun hstep ih =>
      rw [List.forall_mem_append] at hrely
      have hinv := (rely Inv Rely hrun hstart hrely.1 hown hother).1
      cases action with
      | own =>
          -- the answer is given in this turn, and the shared state is as the party has read it
          have hsame : after.1 = before.1 := h _ _ _ _ hstep
          refine ⟨before.1, ⟨_, [], h.shared_run hrun, ?_, ?_⟩, hspec _ _ _ _ _ hstep hinv ha⟩
          · rw [hsame]
            exact .refl
          · rw [List.filterMap_append]
            rfl
      | other update =>
          obtain ⟨shared, hshared, rfl⟩ := Option.map_eq_some_iff.mp hstep
          obtain ⟨middle, ⟨first, rest, hfirst, hrest, happend⟩, hmiddle⟩ := ih hrely.1 ha
          refine ⟨middle, ⟨first, _, hfirst, .snoc hrest hshared, ?_⟩, hmiddle⟩
          rw [← List.append_assoc, happend, List.filterMap_append]
          rfl

/-- All turns of a run are the party's own. -/
def Alone (events : List (Event (Shared × Local) (Turn Update))) : Prop :=
  ∀ event ∈ events, event.action = .own

/-- A turn of the party on its own. -/
theorem alone_single {shared : Shared} {self : Local}
    (hown : party.own shared self = some finish) :
    ∃ events, Run party.step (shared, self) events finish ∧ Alone events :=
  ⟨[⟨(shared, self), .own, finish⟩], .snoc .refl hown, List.forall_mem_singleton.mpr rfl⟩

/-- Two stretches on its own. -/
theorem Alone.trans {middle : Shared × Local}
    (hfirst : ∃ events, Run party.step start events middle ∧ Alone events)
    (hrest : ∃ events, Run party.step middle events finish ∧ Alone events) :
    ∃ events, Run party.step start events finish ∧ Alone events := by
  obtain ⟨first, hfirst, hfirstAlone⟩ := hfirst
  obtain ⟨rest, hrest, hrestAlone⟩ := hrest
  exact ⟨first ++ rest, hfirst.append hrest,
    List.forall_mem_append.mpr ⟨hfirstAlone, hrestAlone⟩⟩

end Party

end Wheespa.Interference
