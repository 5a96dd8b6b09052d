import Wheespa.BinaryTree.Live
import Wheespa.Library.Transition
import Wheespa.WheespaTree

/-!
# A visit of the service loop

The service loop of `wheespa_server.cc` reads from the stream of each live node and then handles
what it read, or closes the stream and flags the node when the read throws. It keeps a pointer to
the node for the whole visit and holds no mutex, while the handlers insert and remove. Here a visit
is two steps, and the steps of the handlers come in between in any order. `Visits.outcomes` records
what each finished visit did and on whose stream its read was started.

`attributed_of_kept` is the main result: as long as no insertion puts other data into the node of a
visit that is under way, every string is handled with the identity of the user it was read from,
and every failed read closes and flags that user's entry only. `exists_unattributed` is its
converse.
-/

namespace Wheespa

open Transition

/-- A visit under way: the node, and the data it held when the read was started. -/
structure Visit where
  path : Path
  owner : WheespaConnected
  deriving DecidableEq, Repr

/-- How a visit ended. A string read from the owner's stream was handled with the data of a sender,
or the read failed and a stream was closed and the node of an entry flagged. -/
inductive Outcome where
  | handled (owner sender : WheespaConnected) (recvd : Str)
  | failed (owner : WheespaConnected) (closed : Option SocketStream) (flagged : WheespaConnected)
  deriving DecidableEq, Repr

/-- The tree, the visit under way and the visits that ended. -/
structure Visits where
  tree : WheespaServerTree
  visit : Option Visit
  outcomes : List Outcome
  deriving DecidableEq, Repr

namespace Visits

/-- The steps of the service loop and of the handlers. -/
inductive Action where
  | startRead (path : Path)
  | received (recvd : Str)
  | exception
  | insert (data : WheespaConnected)
  | remove (k : Str)
  deriving DecidableEq, Repr

/-- The server has no users and no visit under way. -/
def start : Visits :=
  ⟨.empty, none, []⟩

/-- One step. A read is started on a live node; what follows uses the data the node holds then. -/
def step (visits : Visits) : Action → Option Visits
  | .startRead path =>
      match visits.visit, visits.tree.node.get? path with
      | none, some (owner, false) => some { visits with visit := some ⟨path, owner⟩ }
      | _, _ => none
  | .received recvd => do
      let visit ← visits.visit
      let (sender, _) ← visits.tree.node.get? visit.path
      let outcomes :=
        if recvd.length > 0 then visits.outcomes ++ [.handled visit.owner sender recvd]
        else visits.outcomes
      some { visits with visit := none, outcomes }
  | .exception => do
      let visit ← visits.visit
      let (entry, _) ← visits.tree.node.get? visit.path
      some {
        tree := visits.tree.markOverwrite visit.path
        visit := none
        outcomes := visits.outcomes ++ [.failed visit.owner entry.sockStream entry] }
  | .insert data => do
      let tree ← visits.tree.insert data
      some { visits with tree }
  | .remove k => some { visits with tree := (visits.tree.remove k).2 }

/-- A string is handled with the key and the flags of the user it was read from, and a failed read
closes that user's stream and flags that user's entry. -/
def Attributed : Outcome → Prop
  | .handled owner sender _ =>
      sender.key = owner.key ∧ sender.isAdmin = owner.isAdmin ∧
        sender.registered = owner.registered
  | .failed owner closed flagged => closed = owner.sockStream ∧ flagged = owner

instance decidableAttributed : (outcome : Outcome) → Decidable (Attributed outcome)
  | .handled .. => inferInstanceAs (Decidable (_ ∧ _))
  | .failed .. => inferInstanceAs (Decidable (_ ∧ _))

/-- An insertion does not put another user's data into the node of the visit under way. -/
def Kept (visits : Visits) : Action → Prop
  | .insert data => ∀ visit ∈ visits.visit,
      visits.tree.node.placeAt data = visit.path → data = visit.owner
  | .startRead _ | .received _ | .exception | .remove _ => True

instance decidableKept (visits : Visits) : (action : Action) → Decidable (visits.Kept action)
  | .insert data => inferInstanceAs (Decidable (∀ visit ∈ visits.visit,
      visits.tree.node.placeAt data = visit.path → data = visit.owner))
  | .startRead _ | .received _ | .exception | .remove _ => isTrue trivial

/-- The node of the visit under way still holds its owner's data, and the visits that ended were
attributed to their owners. -/
structure Faithful (visits : Visits) : Prop where
  held : ∀ visit ∈ visits.visit, ∃ overwrite,
    visits.tree.node.get? visit.path = some (visit.owner, overwrite)
  attributed : ∀ outcome ∈ visits.outcomes, Attributed outcome

/-- Removing a key changes no data. -/
theorem get?_remove {tree : WheespaServerTree} {k : Str} {path : Path} {data : WheespaConnected}
    {overwrite : Bool} (h : tree.node.get? path = some (data, overwrite)) :
    ∃ overwrite', (tree.remove k).2.node.get? path = some (data, overwrite') := by
  cases hfind : tree.find k with
  | none => exact ⟨overwrite, by simpa [BinarySearchTree.remove, hfind] using h⟩
  | some other =>
      simp only [BinarySearchTree.remove, hfind, BinarySearchTree.node_markOverwrite,
        Node.get?_setOverwrite]
      by_cases heq : path = other
      · subst heq
        exact ⟨true, by simp [h]⟩
      · exact ⟨overwrite, by simp [heq, h]⟩

/-- One more attributed outcome keeps all of them attributed. -/
theorem Faithful.attributed_snoc {visits : Visits} (h : visits.Faithful) {outcome : Outcome}
    (hlast : Attributed outcome) :
    ∀ other ∈ visits.outcomes ++ [outcome], Attributed other := by
  rw [List.forall_mem_append, List.forall_mem_singleton]
  exact ⟨h.attributed, hlast⟩

/-- A step that takes over no visited node keeps the visits faithful. -/
theorem Faithful.step {before after : Visits} {action : Action} (h : before.Faithful)
    (hstep : before.step action = some after) (hkept : before.Kept action) : after.Faithful := by
  cases action with
  | startRead path =>
      simp only [Visits.step] at hstep
      split at hstep
      · next owner hvisit hget =>
          obtain rfl := Option.some.inj hstep
          refine ⟨fun visit hvisit => ?_, h.attributed⟩
          obtain rfl := Option.some.inj hvisit
          exact ⟨false, hget⟩
      · simp at hstep
  | received recvd =>
      obtain ⟨visit, hvisit, hstep⟩ := Option.bind_eq_some_iff.mp hstep
      obtain ⟨⟨sender, overwrite⟩, hget, hstep⟩ := Option.bind_eq_some_iff.mp hstep
      obtain rfl := Option.some.inj hstep
      obtain ⟨_, hheld⟩ := h.held visit hvisit
      -- the node still holds the owner, who is the sender and the node that is reported
      obtain ⟨rfl, -⟩ : sender = visit.owner ∧ _ := by simpa [hget] using hheld
      have hlast : Attributed (.handled visit.owner visit.owner recvd) := ⟨rfl, rfl, rfl⟩
      refine ⟨by simp, ?_⟩
      by_cases hlength : recvd.length > 0
      · simpa only [hlength, if_true] using h.attributed_snoc hlast
      · simpa only [hlength, if_false] using h.attributed
  | exception =>
      obtain ⟨visit, hvisit, hstep⟩ := Option.bind_eq_some_iff.mp hstep
      obtain ⟨⟨entry, overwrite⟩, hget, hstep⟩ := Option.bind_eq_some_iff.mp hstep
      obtain rfl := Option.some.inj hstep
      obtain ⟨_, hheld⟩ := h.held visit hvisit
      obtain ⟨rfl, -⟩ : entry = visit.owner ∧ _ := by simpa [hget] using hheld
      have hlast : Attributed (.failed visit.owner visit.owner.sockStream visit.owner) := ⟨rfl, rfl⟩
      exact ⟨by simp, h.attributed_snoc hlast⟩
  | insert data =>
      obtain ⟨tree, hinsert, hstep⟩ := Option.bind_eq_some_iff.mp hstep
      obtain rfl := Option.some.inj hstep
      obtain rfl := BinarySearchTree.insert_eq_place hinsert
      refine ⟨fun visit hvisit => ?_, h.attributed⟩
      obtain ⟨overwrite, hget⟩ := h.held visit hvisit
      by_cases hpath : visit.path = before.tree.node.placeAt data
      · -- an insertion into the visited node writes the owner there again
        obtain rfl := hkept visit hvisit hpath.symm
        exact ⟨false, by simp [Node.get?_place, hpath]⟩
      · exact ⟨overwrite, by simp [Node.get?_place, hpath, hget]⟩
  | remove k =>
      obtain rfl := Option.some.inj hstep
      refine ⟨fun visit hvisit => ?_, h.attributed⟩
      obtain ⟨overwrite, hget⟩ := h.held visit hvisit
      exact get?_remove hget

/-- In every run in which no insertion puts another user's data into the node of a visit under way,
what is read from a user's connection is attributed to that user. -/
theorem attributed_of_kept {events : List (Event Visits Action)} {finish : Visits}
    (hrun : Run step start events finish)
    (hkept : ∀ event ∈ events, event.before.Kept event.action) :
    ∀ outcome ∈ finish.outcomes, Attributed outcome := by
  have hstart : start.Faithful := ⟨by simp [start], by simp [start]⟩
  exact (hrun.invariant Faithful hstart
    (fun event hevent hstep hbefore => hbefore.step hstep (hkept event hevent))).1.attributed

/-- An insertion that puts another user's data into the node of the visit under way lets the run go
on to an outcome that is not attributed to the user read from. -/
theorem exists_unattributed {before after : Visits} {data : WheespaConnected}
    (hstep : before.step (.insert data) = some after) (h : ¬ before.Kept (.insert data)) :
    ∃ finish, after.step .exception = some finish ∧
      ∃ outcome ∈ finish.outcomes, ¬ Attributed outcome := by
  obtain ⟨visit, hvisit, hpath, hother⟩ : ∃ visit ∈ before.visit,
      before.tree.node.placeAt data = visit.path ∧ data ≠ visit.owner := by
    simpa [Kept] using h
  obtain ⟨tree, hinsert, hstep⟩ := Option.bind_eq_some_iff.mp hstep
  obtain rfl := Option.some.inj hstep
  obtain rfl := BinarySearchTree.insert_eq_place hinsert
  have hget : (before.tree.node.place data).get? visit.path = some (data, false) := by
    simp [Node.get?_place, hpath]
  have hvisit : before.visit = some visit := hvisit
  refine ⟨_, by simp [step, hvisit, hget]; rfl, .failed visit.owner data.sockStream data, ?_, ?_⟩
  · simp
  · exact fun hattributed => hother hattributed.2

/-- A visit of ann during which bob logs in and ann is removed, and one of bob during which cat
takes over the node that ann has left. -/
theorem attributed_two_visits : ∃ events finish, Run step start events finish ∧
    events.map Event.action = [.insert ⟨"ann".toList, some 1, false, true, []⟩, .startRead [],
      .insert ⟨"bob".toList, some 2, true, true, []⟩, .remove "ann".toList, .received "hi".toList,
      .startRead [.right], .insert ⟨"cat".toList, some 3, false, true, []⟩, .exception] ∧
    finish.outcomes.length = 2 ∧ ∀ outcome ∈ finish.outcomes, Attributed outcome := by
  have hrun : Run step start
      ([] ++ [⟨_, .insert ⟨"ann".toList, some 1, false, true, []⟩, _⟩] ++ [⟨_, .startRead [], _⟩] ++
        [⟨_, .insert ⟨"bob".toList, some 2, true, true, []⟩, _⟩] ++
        [⟨_, .remove "ann".toList, _⟩] ++ [⟨_, .received "hi".toList, _⟩] ++
        [⟨_, .startRead [.right], _⟩] ++
        [⟨_, .insert ⟨"cat".toList, some 3, false, true, []⟩, _⟩] ++ [⟨_, .exception, _⟩]) _ :=
    .snoc (.snoc (.snoc (.snoc (.snoc (.snoc (.snoc (.snoc .refl rfl) rfl) rfl) rfl) rfl) rfl) rfl)
      rfl
  exact ⟨_, _, hrun, rfl, rfl, attributed_of_kept hrun (by decide)⟩

/-- While the read on ann's stream is under way she is removed and the administrator bob takes over
her node: her string is handled as his, and a failed read closes his stream. -/
theorem take_over_misattributes :
    (∃ finish, [Action.insert ⟨"ann".toList, some 1, false, true, []⟩, .startRead [],
        .remove "ann".toList, .insert ⟨"bob".toList, some 2, true, true, []⟩,
        .received "hi".toList].foldlM step start = some finish ∧
      ∃ outcome ∈ finish.outcomes, ¬ Attributed outcome) ∧
    ∃ finish, [Action.insert ⟨"ann".toList, some 1, false, true, []⟩, .startRead [],
        .remove "ann".toList, .insert ⟨"bob".toList, some 2, true, true, []⟩,
        .exception].foldlM step start = some finish ∧
      ∃ outcome ∈ finish.outcomes, ¬ Attributed outcome := by
  exact ⟨⟨_, rfl, by decide⟩, _, rfl, by decide⟩

end Visits

end Wheespa
