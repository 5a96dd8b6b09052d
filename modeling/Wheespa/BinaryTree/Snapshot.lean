import Wheespa.BinaryTree.FiniteMap

/-!
# The data array over a history of the tree

`setDataArray` appends to `m_data_array`, which nothing ever clears, so that the array is what all
calls so far have appended (`dataArray_run`). `snapshot_iff` says when it is the live data of the
last call alone.
-/

namespace Wheespa

universe u v

namespace BinarySearchTree

open Transition

variable {δ : Type u} {κ : Type v} [LinearOrder κ] [Keyed δ κ]

/-- The member functions that are called on a tree. -/
inductive Call (δ : Type u) (κ : Type v) where
  | insert (data : δ)
  | remove (k : κ)
  | setDataArray

/-- One call. An insertion is made only for a key that `find` does not find. -/
def step (tree : BinarySearchTree δ) : Call δ κ → Option (BinarySearchTree δ)
  | .insert data => if (tree.find (key data)).isNone then tree.insert data else none
  | .remove k => some (tree.remove k).2
  | .setDataArray => some tree.setDataArray

/-- What a call appends to the array. -/
def appended (tree : BinarySearchTree δ) : Call δ κ → List δ
  | .setDataArray => tree.node.live
  | .insert _ | .remove _ => []

/-- A call appends to the array, and takes nothing away from it. -/
theorem dataArray_step {before after : BinarySearchTree δ} {call : Call δ κ}
    (h : before.step call = some after) :
    after.dataArray = before.dataArray ++ before.appended call := by
  cases call with
  | insert data =>
      obtain ⟨hfind, hinsert⟩ := Option.ite_none_right_eq_some.mp h
      rw [insert_of_find (Option.isNone_iff_eq_none.mp hfind)] at hinsert
      obtain rfl := Option.some.inj hinsert
      exact (List.append_nil _).symm
  | remove k =>
      obtain rfl := Option.some.inj h
      rw [appended, List.append_nil]
      cases hfind : before.find k with
      | none => simp only [remove, hfind]
      | some path =>
          simp only [remove, hfind]
          rfl
  | setDataArray =>
      obtain rfl := Option.some.inj h
      exact Node.setDataArray_eq before.node before.dataArray

/-- After a run the array is what all calls of the run have appended, in order. -/
theorem dataArray_run {events : List (Event (BinarySearchTree δ) (Call δ κ))}
    {start finish : BinarySearchTree δ} (hrun : Run step start events finish) :
    finish.dataArray =
      start.dataArray ++ events.flatMap fun event => event.before.appended event.action := by
  induction hrun with
  | refl => exact (List.append_nil _).symm
  | snoc _ hlast ih =>
      rw [dataArray_step hlast, ih, List.flatMap_append, List.flatMap_singleton, List.append_assoc]

/-- After a call of `setDataArray` in a history of a tree, the array is the list of the data that
are live at the call, in order, exactly if no earlier call of it has found a live datum. -/
theorem snapshot_iff {events : List (Event (BinarySearchTree δ) (Call δ κ))}
    {finish : BinarySearchTree δ} (hrun : Run step empty events finish)
    {earlier later : List (Event (BinarySearchTree δ) (Call δ κ))}
    {event : Event (BinarySearchTree δ) (Call δ κ)} (hevents : events = earlier ++ event :: later)
    (hcall : event.action = .setDataArray) :
    event.after.getDataArray = event.before.node.live ↔
      ∀ call ∈ earlier, call.action = .setDataArray → call.before.node.live = [] := by
  have hstep := hrun.step_eq (show event ∈ events by simp [hevents])
  have harray := dataArray_run (hrun.before_event hevents)
  rw [hcall] at hstep
  rw [getDataArray, dataArray_step hstep, harray, appended, List.append_left_eq_self]
  simp only [empty, List.nil_append, List.flatMap_eq_nil_iff]
  refine forall₂_congr fun call _ => ?_
  cases call.action with
  | setDataArray => simp [appended]
  | insert data => simp [appended]
  | remove k => simp [appended]

/-- The tree with 27 as its only node, and its array. -/
def single (array : List DataX) : BinarySearchTree DataX :=
  ⟨.new ⟨27⟩, array⟩

/-- The first snapshot of a tree is its live data. -/
theorem snapshot_first : ((single []).setDataArray).getDataArray = (single []).node.live := by
  have hrun : Run step (empty : BinarySearchTree DataX) [⟨empty, .insert ⟨27⟩, single []⟩,
      ⟨single [], .setDataArray, single [⟨27⟩]⟩] (single [⟨27⟩]) := .snoc (.snoc .refl rfl) rfl
  refine (@snapshot_iff _ _ _ _ _ _ hrun [_] [] _ rfl rfl).mpr fun call hcall => ?_
  obtain rfl := List.mem_singleton.mp hcall
  intro hinsert
  cases hinsert

/-- The second snapshot of a tree has its live data twice. -/
theorem snapshot_twice : ∃ earlier finish,
    Run step (empty : BinarySearchTree DataX)
      (earlier ++ [⟨single [⟨27⟩], .setDataArray, finish⟩]) finish ∧
    finish.getDataArray = [⟨27⟩, ⟨27⟩] ∧ (single [⟨27⟩]).node.live = [⟨27⟩] := by
  have hfirst : Run step (empty : BinarySearchTree DataX) [⟨empty, .insert ⟨27⟩, single []⟩,
      ⟨single [], .setDataArray, single [⟨27⟩]⟩] (single [⟨27⟩]) := .snoc (.snoc .refl rfl) rfl
  exact ⟨_, single [⟨27⟩, ⟨27⟩], .snoc hfirst rfl, rfl, rfl⟩

end BinarySearchTree

end Wheespa
