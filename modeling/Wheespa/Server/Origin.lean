import Mathlib.Logic.Function.Basic
import Wheespa.Library.Transition
import Wheespa.WheespaServer

/-!
# Where the data of the nodes come from

`Recorded` runs the server next to a record of its own steps: for each node the request that its
datum was last inserted by, and the keys that anonymous connections were given so far. No step of
the server reads the record. `granted_of_run` is the main result: in every run, the datum of every
node is one that the recorded request was granted.

The memory of a root that has been deleted can get other contents at any time, and the server goes
on to read it as a node (`turn`). As long as no message deletes the root, the turns of a run are the
steps of the server (`run_acts`).
-/

namespace Wheespa

open Sql Transition

/-- The key that an anonymous connection is given by a request. -/
def anonymousKey (preq : ParseRequest) : Option Str :=
  if ParseRequest.rtMap preq.reqType = some .anonymousConnect ∧ preq.anonymousConnect.1 then
    some preq.anonymousConnect.2.conn.key
  else none

/-- The server, the request that each node's datum was inserted by, and the keys of the anonymous
connections in the order they were given. -/
structure Recorded where
  server : Server
  origin : Path → Option ParseRequest
  keys : List Str

namespace Recorded

/-- The server with an empty tree on a database, and an empty record. -/
def start (database : Database) : Recorded :=
  ⟨.start database, fun _ => none, []⟩

/-- One step of the server, recorded. -/
def step (engine : Engine) (sha1 : Sha1) (recorded : Recorded) (action : Action) :
    Option Recorded :=
  (recorded.server.react engine sha1 action).map fun reaction =>
    let preq := recorded.server.parseRequest action
    { server := reaction.server
      origin := match reaction.inserted with
        | some conn =>
            Function.update recorded.origin (recorded.server.tree.node.placeAt conn) preq
        | none => recorded.origin
      keys := recorded.keys ++ (preq.bind anonymousKey).toList }

/-- The datum of every node was granted to the request recorded for it. -/
def Granted (engine : Engine) (sha1 : Sha1) (recorded : Recorded) : Prop :=
  ∀ path conn overwrite, recorded.server.tree.node.get? path = some (conn, overwrite) →
    ∃ preq, recorded.origin path = some preq ∧ preq.ValidParams ∧ preq.Grants engine sha1 conn

variable {engine : Engine} {sha1 : Sha1}

/-- What a recorded step can do to the tree and to the record of its nodes. -/
theorem step_cases {before after : Recorded} {action : Action}
    (h : before.step engine sha1 action = some after) :
    (∃ preq conn, before.server.parseRequest action = some preq ∧ preq.ValidParams ∧
      preq.Grants engine sha1 conn ∧ before.server.tree.find conn.key = none ∧
      after.server.tree = { before.server.tree with node := before.server.tree.node.place conn } ∧
      after.origin = Function.update before.origin (before.server.tree.node.placeAt conn)
        (some preq)) ∨
    (after.origin = before.origin ∧ (after.server.tree = before.server.tree ∨
      ∃ path, after.server.tree = before.server.tree.markOverwrite path)) := by
  obtain ⟨reaction, hreact, rfl⟩ := Option.map_eq_some_iff.mp h
  rcases Server.react_tree hreact with ⟨preq, conn, hpreq, hgrants, hfind, hinserted, htree⟩ |
    ⟨hinserted, htree⟩
  · refine .inl ⟨preq, conn, hpreq, (Server.parseRequest_eq hpreq).1, hgrants, hfind, htree, ?_⟩
    simp only [hinserted, hpreq]
  · refine .inr ⟨?_, htree⟩
    simp only [hinserted]

/-- A node holds after a step what the step inserted there, or what it held before. -/
theorem get?_step {before after : Recorded} {action : Action}
    (hstep : before.step engine sha1 action = some after) {path : Path} {conn : WheespaConnected}
    {overwrite : Bool} (hget : after.server.tree.node.get? path = some (conn, overwrite)) :
    (∃ preq, before.server.parseRequest action = some preq ∧ preq.ValidParams ∧
      preq.Grants engine sha1 conn ∧ before.server.tree.find conn.key = none ∧
      after.origin path = some preq) ∨
    ∃ overwrite', before.server.tree.node.get? path = some (conn, overwrite') ∧
      (overwrite = false → overwrite' = false) ∧ after.origin path = before.origin path := by
  rcases step_cases hstep with ⟨preq, data, hpreq, hvalid, hgrants, hfind, htree, horigin⟩ |
    ⟨horigin, htree | ⟨marked, htree⟩⟩
  · rw [htree, Node.get?_place] at hget
    rw [horigin]
    split at hget
    · next heq =>
        obtain ⟨rfl, _⟩ := Prod.mk.inj (Option.some.inj hget)
        exact .inl ⟨preq, hpreq, hvalid, hgrants, hfind, by rw [heq, Function.update_self]⟩
    · next hne =>
        exact .inr ⟨overwrite, hget, id, Function.update_of_ne hne _ _⟩
  · rw [htree] at hget
    exact .inr ⟨overwrite, hget, id, congrFun horigin path⟩
  · rw [htree, BinarySearchTree.markOverwrite, Node.get?_setOverwrite] at hget
    split at hget
    · next heq =>
        -- the marked node keeps its datum, and is not live any more
        obtain ⟨⟨data, overwrite'⟩, hentry, hget⟩ := Option.map_eq_some_iff.mp hget
        obtain ⟨rfl, rfl⟩ := Prod.mk.inj hget
        exact .inr ⟨overwrite', heq ▸ hentry, by simp, congrFun horigin path⟩
    · exact .inr ⟨overwrite, hget, id, congrFun horigin path⟩

/-- A step keeps the data of the nodes granted. -/
theorem Granted.step {before after : Recorded} {action : Action}
    (hstep : before.step engine sha1 action = some after) (h : before.Granted engine sha1) :
    after.Granted engine sha1 := by
  intro path conn overwrite hget
  rcases get?_step hstep hget with ⟨preq, _, hvalid, hgrants, _, horigin⟩ |
    ⟨overwrite', hbefore, _, horigin⟩
  · exact ⟨preq, horigin, hvalid, hgrants⟩
  · rw [horigin]
    exact h path conn overwrite' hbefore

/-- In every state of a run, the datum of every node was granted to the request that inserted it. -/
theorem granted_of_run {database : Database} {events : List (Event Recorded Action)}
    {finish : Recorded} (hrun : Run (step engine sha1) (start database) events finish) :
    finish.Granted engine sha1 ∧
      ∀ event ∈ events, event.before.Granted engine sha1 ∧ event.after.Granted engine sha1 := by
  refine hrun.invariant (Granted engine sha1) ?_ fun event _ hstep hbefore => hbefore.step hstep
  intro path conn overwrite hget
  cases path <;> simp [start, Server.start, BinarySearchTree.empty] at hget

/-! ## A deleted root -/

/-- The server acts, or the memory of a root that has been deleted gets other contents. -/
inductive Turn where
  | act (action : Action)
  | reuse (node : Node WheespaConnected)

/-- One turn. -/
def turn (engine : Engine) (sha1 : Sha1) (recorded : Recorded) : Turn → Option Recorded
  | .act action => recorded.step engine sha1 action
  | .reuse node =>
      if recorded.server.rootDeleted then
        some { recorded with
          server := { recorded.server with tree := { recorded.server.tree with node } } }
      else none

/-- The turn does not delete the root: it is no message that is handled as the LIST_ONLINE of a
registered user. -/
def Spares (recorded : Recorded) : Turn → Prop
  | .act action => recorded.server.deletesRoot action = false
  | .reuse _ => True

instance (recorded : Recorded) : (turn : Turn) → Decidable (recorded.Spares turn)
  | .act action => inferInstanceAs (Decidable (recorded.server.deletesRoot action = false))
  | .reuse _ => .isTrue trivial

/-- The steps of the server among the turns. -/
def acts (events : List (Event Recorded Turn)) : List (Event Recorded Action) :=
  events.filterMap fun event => match event.action with
    | .act action => some ⟨event.before, action, event.after⟩
    | .reuse _ => none

/-- A step deletes the root where it is a message that does. -/
theorem step_rootDeleted {before after : Recorded} {action : Action}
    (h : before.step engine sha1 action = some after) :
    after.server.rootDeleted =
      (before.server.rootDeleted || before.server.deletesRoot action) := by
  obtain ⟨reaction, hreact, rfl⟩ := Option.map_eq_some_iff.mp h
  exact (Server.react_rootDeleted hreact).1

/-- A turn that spares a root that is intact is a step of the server. -/
theorem turn_spares {before after : Recorded} {turn : Turn}
    (hstep : before.turn engine sha1 turn = some after)
    (hintact : before.server.rootDeleted = false) (hspares : before.Spares turn) :
    ∃ action, turn = .act action ∧ before.step engine sha1 action = some after ∧
      after.server.rootDeleted = false := by
  cases turn with
  | act action =>
      refine ⟨action, rfl, hstep, ?_⟩
      rw [step_rootDeleted hstep, hintact, Bool.false_or]
      exact hspares
  | reuse node => simp [Recorded.turn, hintact] at hstep

/-- A run whose turns spare the root is a run of the steps of the server. -/
theorem run_acts {start finish : Recorded} {events : List (Event Recorded Turn)}
    (hrun : Run (turn engine sha1) start events finish)
    (hintact : start.server.rootDeleted = false)
    (hspares : ∀ event ∈ events, event.before.Spares event.action) :
    Run (step engine sha1) start (acts events) finish ∧ finish.server.rootDeleted = false ∧
      events = (acts events).map fun event => ⟨event.before, .act event.action, event.after⟩ := by
  induction hrun with
  | refl => exact ⟨.refl, hintact, rfl⟩
  | snoc _ hstep ih =>
      rw [List.forall_mem_append, List.forall_mem_singleton] at hspares
      obtain ⟨hrun, hbefore, hevents⟩ := ih hspares.1
      obtain ⟨action, rfl, hstep, hafter⟩ := turn_spares hstep hbefore hspares.2
      rw [acts, List.filterMap_append, List.map_append]
      exact ⟨.snoc hrun hstep, hafter, congrArg (· ++ _) hevents⟩

/-- A root that has been deleted stays so. -/
theorem rootDeleted_of_run {start finish : Recorded} {events : List (Event Recorded Turn)}
    (hrun : Run (turn engine sha1) start events finish) {event : Event Recorded Turn}
    (hevent : event ∈ events) (hdeletes : ¬ event.before.Spares event.action) :
    finish.server.rootDeleted = true := by
  induction hrun with
  | refl => simp at hevent
  | @snoc _ before after action _ hstep ih =>
      have hdeleted : before.server.rootDeleted = true ∨ ¬ before.Spares action := by
        rcases List.mem_append.mp hevent with hold | hlast
        · exact .inl (ih hold)
        · obtain rfl := List.mem_singleton.mp hlast
          exact .inr hdeletes
      cases action with
      | act action =>
          rw [step_rootDeleted hstep, Bool.or_eq_true]
          exact hdeleted.imp_right eq_true_of_ne_false
      | reuse node =>
          obtain ⟨hcond, hstep⟩ := Option.ite_none_right_eq_some.mp hstep
          obtain rfl := Option.some.inj hstep
          exact hcond

end Recorded

end Wheespa
