import Mathlib.Data.Int.Order.Basic
import Mathlib.Logic.Function.Basic
import Wheespa.BinaryTree.FiniteMap
import Wheespa.Library.Transition

/-!
# The connection handlers' find and insert

Each connection handler of `wheespa_server.cc` looks its key up without the mutex, and takes the
mutex only for the `insert` or `remove` that follows. Here any number of handlers take these steps
in any order, together with the marks of the service loop.

`exclusive_iff_absent` is the main result: the handlers keep one live node per key, and follow no
null link, exactly as long as every insertion finds its key still absent when it is made. Two
handlers that look one key up before either inserts break it.
-/

namespace Wheespa

universe u v

/-- Where a connection handler stands: before its `find`; with the node that `find` returned; about
to insert; about to remove; or past its last use of the tree. -/
inductive HandlerPhase (δ : Type u) where
  | reading
  | found (data : δ) (disconnect : Bool) (path : Path)
  | inserting (data : δ)
  | removing (data : δ)
  | done
  deriving DecidableEq, Repr

/-- The tree, the handlers by number, and whether a null pointer has been dereferenced. -/
structure Handlers (δ : Type u) where
  tree : BinarySearchTree δ
  phase : Nat → HandlerPhase δ
  faulted : Bool

namespace Handlers

open Transition

variable {δ : Type u} {κ : Type v}

/-- The steps of the handlers and of the service loop. `find` is made for the data of the request
that has just succeeded and the request's `requestedDisconnect()`. -/
inductive Action (δ : Type u) where
  | find (handler : Nat) (data : δ) (disconnect : Bool)
  | check (handler : Nat)
  | update (handler : Nat)
  | mark (path : Path)

/-- No handler has looked a key up yet. -/
def start : Handlers δ :=
  ⟨.empty, fun _ => .reading, false⟩

variable [LinearOrder κ] [Keyed δ κ]

/-- What a handler does next with the node that `find` returned: it reads `node_tmp->overwrite`. -/
def checked (tree : BinarySearchTree δ) (data : δ) (disconnect : Bool) (path : Path) :
    HandlerPhase δ :=
  match tree.node.get? path with
  | some (_, true) => .inserting data
  | _ => if disconnect then .removing data else .done

/-- One step. Nothing follows a dereferenced null pointer. -/
def step (handlers : Handlers δ) : Action δ → Option (Handlers δ)
  | .find handler data disconnect =>
      match handlers.faulted, handlers.phase handler with
      | false, .reading =>
          let next := match handlers.tree.find (key data) with
            | none => .inserting data
            | some path => .found data disconnect path
          some { handlers with phase := Function.update handlers.phase handler next }
      | _, _ => none
  | .check handler =>
      match handlers.faulted, handlers.phase handler with
      | false, .found data disconnect path =>
          let next := checked handlers.tree data disconnect path
          some { handlers with phase := Function.update handlers.phase handler next }
      | _, _ => none
  | .update handler =>
      match handlers.faulted, handlers.phase handler with
      | false, .inserting data =>
          match handlers.tree.insert data with
          | some tree =>
              some { handlers with tree, phase := Function.update handlers.phase handler .done }
          -- the insertion follows a null link
          | none => some { handlers with faulted := true }
      | false, .removing data =>
          some { handlers with
            tree := (handlers.tree.remove (key data)).2
            phase := Function.update handlers.phase handler .done }
      | _, _ => none
  | .mark path =>
      match handlers.faulted, handlers.tree.node.get? path with
      | false, some (_, false) => some { handlers with tree := handlers.tree.markOverwrite path }
      | _, _ => none

/-- There is at most one live node per key, and no insertion has followed a null link. -/
structure Exclusive (handlers : Handlers δ) : Prop where
  nodup : (handlers.tree.node.live.map key).Nodup
  safe : handlers.faulted = false

/-- The data that a step is about to insert. -/
def insertion (handlers : Handlers δ) : Action δ → Option δ
  | .update handler =>
      match handlers.phase handler with
      | .inserting data => some data
      | _ => none
  | .find .. | .check _ | .mark _ => none

/-- A handler that is about to insert finds its key still absent from the live nodes. -/
def Absent (handlers : Handlers δ) (action : Action δ) : Prop :=
  ∀ data ∈ handlers.insertion action, key data ∉ handlers.tree.node.live.map key

/-- `Absent` is decidable by a search of the live keys. -/
instance decidableAbsent (handlers : Handlers δ) (action : Action δ) :
    Decidable (handlers.Absent action) :=
  inferInstanceAs (Decidable (∀ data ∈ handlers.insertion action, _))

/-- A step is an insertion, or it leaves the live data a part of what they were. -/
theorem step_cases {before after : Handlers δ} {action : Action δ}
    (h : before.step action = some after) :
    (∃ handler data, action = .update handler ∧ before.phase handler = .inserting data ∧
      ((∃ tree, before.tree.insert data = some tree ∧ after.tree = tree ∧
          after.faulted = before.faulted) ∨
        (before.tree.insert data = none ∧ after.faulted = true))) ∨
    (before.Absent action ∧ after.tree.node.live.Sublist before.tree.node.live ∧
      after.faulted = before.faulted) := by
  -- an update inserts or removes, as its handler has found; every other step only flags nodes
  cases action with
  | find handler data disconnect =>
      simp only [step] at h
      split at h
      · obtain rfl := Option.some.inj h
        exact .inr ⟨by simp [Absent, insertion], List.Sublist.refl _, rfl⟩
      · simp at h
  | check handler =>
      simp only [step] at h
      split at h
      · obtain rfl := Option.some.inj h
        exact .inr ⟨by simp [Absent, insertion], List.Sublist.refl _, rfl⟩
      · simp at h
  | update handler =>
      simp only [step] at h
      split at h
      · next data _ hphase =>
          left
          refine ⟨handler, data, rfl, hphase, ?_⟩
          split at h
          · next tree htree =>
              obtain rfl := Option.some.inj h
              exact .inl ⟨tree, htree, rfl, rfl⟩
          · next hnone =>
              obtain rfl := Option.some.inj h
              exact .inr ⟨hnone, rfl⟩
      · next data _ hphase =>
          right
          obtain rfl := Option.some.inj h
          exact ⟨by simp [Absent, insertion, hphase], BinarySearchTree.live_remove_sublist _ _, rfl⟩
      · simp at h
  | mark path =>
      simp only [step] at h
      split at h
      · obtain rfl := Option.some.inj h
        exact .inr ⟨by simp [Absent, insertion], Node.live_setOverwrite_sublist _ _, rfl⟩
      · simp at h

/-- From one live node per key, a step leads to one live node per key exactly when an insertion it
makes finds its key absent. -/
theorem exclusive_iff_of_step {before after : Handlers δ} {action : Action δ}
    (hstep : before.step action = some after) (h : before.Exclusive) :
    after.Exclusive ↔ before.Absent action := by
  obtain ⟨handler, data, rfl, hphase, hinsert⟩ | ⟨habsent, hsublist, hfaulted⟩ :=
    step_cases hstep
  · have habsent : before.Absent (.update handler) ↔
        key data ∉ before.tree.node.live.map key := by
      simp [Absent, insertion, hphase]
    rw [habsent]
    rcases hinsert with ⟨tree, htree, rfl, hfaulted⟩ | ⟨hnone, hfaulted⟩
    · have htree := BinarySearchTree.insert_eq_place htree
      have hperm : (after.tree.node.live.map key).Perm
          (key data :: before.tree.node.live.map key) := by
        rw [htree]
        exact (Node.live_place _ _).map key
      constructor
      · intro hafter
        exact (List.nodup_cons.mp (hperm.nodup_iff.mp hafter.nodup)).1
      · intro hnew
        exact ⟨hperm.nodup_iff.mpr (List.nodup_cons.mpr ⟨hnew, h.nodup⟩),
          hfaulted.trans h.safe⟩
    · have hfault : ¬ after.Exclusive := fun hafter =>
        Bool.false_ne_true (hafter.safe.symm.trans hfaulted)
      refine iff_of_false hfault fun hnew => ?_
      have hfind := Node.find_eq_none_of_not_mem hnew
      simp [BinarySearchTree.insert_of_find hfind] at hnone
  · exact iff_of_true
      ⟨h.nodup.sublist (hsublist.map key), hfaulted.trans h.safe⟩ habsent

/-- In every run of the handlers and the service loop, all states have at most one live node per
key and no insertion follows a null link exactly when every insertion of the run finds its key
absent from the live nodes. -/
theorem exclusive_iff_absent {events : List (Event (Handlers δ) (Action δ))}
    {finish : Handlers δ} (hrun : Run step start events finish) :
    (∀ event ∈ events, event.after.Exclusive) ↔
      ∀ event ∈ events, event.before.Absent event.action := by
  have hstart : (start : Handlers δ).Exclusive :=
    ⟨by simp [start, BinarySearchTree.empty], rfl⟩
  exact hrun.goal_iff Exclusive hstart
    (fun _ _ _ hstep hbefore => exclusive_iff_of_step hstep hbefore)
    (fun _ _ _ _ _ hafter => hafter)

/-- Two handlers that log in different keys keep one live node per key. -/
theorem exclusive_distinct_logins : ∃ events finish,
    Run step (start : Handlers DataX) events finish ∧
    events.map Event.action = [.find 0 ⟨7⟩ false, .find 1 ⟨9⟩ false, .update 0, .update 1] ∧
    ∀ event ∈ events, event.after.Exclusive := by
  obtain ⟨events, finish, hrun, hactions, habsent⟩ := Run.exists_of_trace step
    (start : Handlers DataX) [.find 0 ⟨7⟩ false, .find 1 ⟨9⟩ false, .update 0, .update 1]
    (fun event => event.before.Absent event.action) (by decide)
  exact ⟨events, finish, hrun, hactions, (exclusive_iff_absent hrun).mpr habsent⟩

/-- Two handlers look the same key up before either inserts it: the second insertion goes left of
the equal key and dereferences a null pointer. -/
theorem same_login_faults : ∃ finish,
    [Action.find 0 ⟨7⟩ false, .find 1 ⟨7⟩ false, .update 0, .update 1].foldlM step
      (start : Handlers DataX) = some finish ∧ finish.faulted = true := by
  exact ⟨_, rfl, rfl⟩

end Handlers

end Wheespa
