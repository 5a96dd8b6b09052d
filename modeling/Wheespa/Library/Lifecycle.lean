import Mathlib.Data.List.Basic

/-!
# The life of a resource

A log of what is done with resources: they are acquired, used and released. `Complete` says of what
is done with one of them that it is acquired first, released last and once, and only used in
between. `status` follows a resource through a log, step by step, and `complete_iff` is the
connection: a life is complete exactly where the resource ends up as released. What has been done
wrong once stays wrong, and a released resource with which anything more is done has gone wrong.
-/

namespace Wheespa.Lifecycle

universe u

/-- What is done with a resource. -/
inductive Event where
  | acquire
  | use
  | release
  deriving DecidableEq, Repr

/-- Where a resource is in its life. -/
inductive Status where
  | absent
  | held
  | released
  | violated
  deriving DecidableEq, Repr

/-- The only way through a life: acquired, used, released. -/
def Status.next : Status → Event → Status
  | .absent, .acquire => .held
  | .held, .use => .held
  | .held, .release => .released
  | _, _ => .violated

/-- A life that is acquired first, released last and once, and only used in between. -/
def Complete (events : List Event) : Prop :=
  ∃ n, events = .acquire :: (List.replicate n .use ++ [.release])

@[simp] theorem foldl_violated (events : List Event) :
    events.foldl Status.next .violated = .violated := by
  induction events with
  | nil => rfl
  | cons event events ih =>
      rw [List.foldl_cons]
      cases event <;> exact ih

/-- A released resource is left alone. -/
theorem foldl_released_iff {events : List Event} :
    events.foldl Status.next .released = .released ↔ events = [] := by
  cases events with
  | nil => exact iff_of_true rfl rfl
  | cons event events =>
      have hnext : Status.next .released event = .violated := by cases event <;> rfl
      rw [List.foldl_cons, hnext, foldl_violated]
      exact iff_of_false Status.noConfusion (List.cons_ne_nil _ _)

/-- A held resource is used, and then released. -/
theorem foldl_held_iff {events : List Event} :
    events.foldl Status.next .held = .released ↔
      ∃ n, events = List.replicate n .use ++ [.release] := by
  induction events with
  | nil => exact iff_of_false Status.noConfusion fun ⟨n, h⟩ => by simp at h
  | cons event events ih =>
      rw [List.foldl_cons]
      cases event with
      | acquire =>
          have hnext : Status.next .held .acquire = .violated := rfl
          rw [hnext, foldl_violated]
          refine iff_of_false Status.noConfusion ?_
          rintro ⟨_ | n, h⟩ <;> simp [List.replicate_succ] at h
      | use =>
          have hnext : Status.next .held .use = .held := rfl
          rw [hnext, ih]
          constructor
          · rintro ⟨n, rfl⟩
            exact ⟨n + 1, rfl⟩
          · rintro ⟨_ | n, h⟩
            · simp at h
            · exact ⟨n, (List.cons.inj h).2⟩
      | release =>
          have hnext : Status.next .held .release = .released := rfl
          rw [hnext, foldl_released_iff]
          constructor
          · rintro rfl
            exact ⟨0, rfl⟩
          · rintro ⟨_ | n, h⟩
            · exact (List.cons.inj h).2
            · simp [List.replicate_succ] at h

/-- A life is complete exactly where it ends with the resource released. -/
theorem complete_iff {events : List Event} :
    Complete events ↔ events.foldl Status.next .absent = .released := by
  cases events with
  | nil => exact iff_of_false (fun ⟨n, h⟩ => by simp at h) Status.noConfusion
  | cons event events =>
      rw [List.foldl_cons]
      cases event with
      | acquire =>
          have hnext : Status.next .absent .acquire = .held := rfl
          rw [hnext, foldl_held_iff]
          exact exists_congr fun n => by rw [List.cons.injEq, and_iff_right rfl]
      | use | release =>
          have hnext (event : Event) (h : event ≠ .acquire) :
              Status.next .absent event = .violated := by
            cases event with
            | acquire => exact (h rfl).elim
            | use | release => rfl
          rw [hnext _ (by decide), foldl_violated]
          exact iff_of_false (fun ⟨n, h⟩ => by simp at h) Status.noConfusion

/-! ## Logs -/

/-- What is done with resources, in order. -/
abbrev Log (ρ : Type u) := List (ρ × Event)

variable {ρ : Type u} [DecidableEq ρ]

/-- What is done with one of them. -/
def eventsOf (log : Log ρ) (r : ρ) : List Event :=
  log.filterMap fun entry => if entry.1 = r then some entry.2 else none

/-- Where a log leaves a resource. -/
def status (log : Log ρ) (r : ρ) : Status :=
  (eventsOf log r).foldl Status.next .absent

@[simp] theorem status_nil (r : ρ) : status [] r = .absent := rfl

/-- An entry concerns its own resource. -/
theorem status_snoc (log : Log ρ) (r r' : ρ) (event : Event) :
    status (log ++ [(r, event)]) r' =
      if r = r' then (status log r').next event else status log r' := by
  rw [status, eventsOf, List.filterMap_append, List.foldl_append]
  by_cases h : r = r'
  · simp only [List.filterMap_cons, List.filterMap_nil, h, if_true, List.foldl_cons,
      List.foldl_nil]
    rfl
  · simp only [List.filterMap_cons, List.filterMap_nil, h, if_false, List.foldl_nil]
    rfl

end Wheespa.Lifecycle
