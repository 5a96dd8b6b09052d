import Wheespa.BinaryTree.CheckedInsert

/-!
# A removal

`remove` flags the node that `find` returns and changes nothing else. `find` compares keys on its
way and looks at the flag of the node where it stops only, so that every other key is answered as
before, on any tree, ordered or not. `remove_exact` says what a removal does, and what a second one
and a new insertion of the key do after it.
-/

namespace Wheespa

universe u v

variable {δ : Type u} {κ : Type v} [LinearOrder κ] [Keyed δ κ]

namespace Node

/-- The key of a node that is flagged after `find` has returned it is not found any more. -/
theorem find_setOverwrite_self {tree : Node δ} {k : κ} {path : Path}
    (h : tree.find k = some path) : (tree.setOverwrite path).find k = none := by
  induction tree generalizing path with
  | nullptr => rfl
  | node data overwrite left right ihleft ihright =>
      simp only [find] at h
      split_ifs at h with hgt hlt hlive
      · obtain ⟨path, hpath, rfl⟩ := Option.map_eq_some_iff.mp h
        simp [setOverwrite, find, hgt, ihleft hpath]
      · obtain ⟨path, hpath, rfl⟩ := Option.map_eq_some_iff.mp h
        simp [setOverwrite, find, hlt, hlt.not_gt, ihright hpath]
      · obtain rfl := Option.some.inj h
        simp [setOverwrite, find, hgt, hlt]

/-- Flagging the node of a key does not concern the search for another key. -/
theorem find_setOverwrite_of_ne {tree : Node δ} {k k' : κ} {path : Path}
    (h : tree.find k = some path) (hne : k' ≠ k) :
    (tree.setOverwrite path).find k' = tree.find k' := by
  induction tree generalizing path with
  | nullptr => rfl
  | node data overwrite left right ihleft ihright =>
      simp only [find] at h
      split_ifs at h with hgt hlt hlive
      · obtain ⟨path, hpath, rfl⟩ := Option.map_eq_some_iff.mp h
        simp only [setOverwrite, find, ihleft hpath]
      · obtain ⟨path, hpath, rfl⟩ := Option.map_eq_some_iff.mp h
        simp only [setOverwrite, find, ihright hpath]
      · -- the other key is not that of this node, so that its search does not stop here
        obtain rfl := Option.some.inj h
        have hkey : key data = k := le_antisymm (not_lt.mp hgt) (not_lt.mp hlt)
        rcases lt_or_gt_of_ne hne with hbelow | habove
        · have hleft : key data > k' := hkey ▸ hbelow
          simp only [setOverwrite, find, hleft, if_true]
        · have hright : key data < k' := hkey ▸ habove
          simp only [setOverwrite, find, hright.not_gt, hright, if_true, if_false]

end Node

namespace BinarySearchTree

/-- What is taken out of the live data: the datum of the node that is returned. -/
def TakesOut (tree after : BinarySearchTree δ) (k : κ) : Option Path → Prop
  | some path => ∃ data, key data = k ∧ tree.node.get? path = some (data, false) ∧
      after.node.get? path = some (data, true) ∧
      tree.node.live.Perm (data :: after.node.live)
  | none => after = tree

/-- `after` is `tree` with the entry of the key removed: `find` does not find it any more and finds
all other keys where they were, every node has its place and its datum, the flags of the other nodes
are as they were, and the entry that `find` returned is gone from the live data; a second removal
does nothing, and the key is found again after it is inserted again. -/
structure RemovedFrom (tree after : BinarySearchTree δ) (k : κ) : Prop where
  gone : after.find k = none
  others : ∀ k', k' ≠ k → after.find k' = tree.find k'
  data : ∀ path, (after.node.get? path).map Prod.fst = (tree.node.get? path).map Prod.fst
  flags : ∀ path, tree.find k ≠ some path → after.node.get? path = tree.node.get? path
  array : after.dataArray = tree.dataArray
  live : TakesOut tree after k (tree.find k)
  again : after.remove k = (none, after)
  reinserted : ∀ data : δ, key data = k → ∃ final path, after.insert data = some final ∧
    final.find k = some path ∧ final.node.get? path = some (data, false)

/-- After a removal `find` does not find the key. -/
theorem find_remove_self (tree : BinarySearchTree δ) (k : κ) : (tree.remove k).2.find k = none := by
  cases hfind : tree.find k with
  | none =>
      simp only [remove, hfind]
  | some path =>
      simp only [remove, hfind]
      exact Node.find_setOverwrite_self hfind

/-- A removal does not concern the search for another key. -/
theorem find_remove_of_ne (tree : BinarySearchTree δ) {k k' : κ} (hne : k' ≠ k) :
    (tree.remove k).2.find k' = tree.find k' := by
  cases hfind : tree.find k with
  | none => simp only [remove, hfind]
  | some path =>
      simp only [remove, hfind]
      exact Node.find_setOverwrite_of_ne hfind hne

/-- A removal changes the flag of the node that it returns. -/
theorem get?_remove (tree : BinarySearchTree δ) (k : κ) (path : Path) :
    (tree.remove k).2.node.get? path = if tree.find k = some path then
      (tree.node.get? path).map (fun entry => (entry.1, true)) else tree.node.get? path := by
  cases hfind : tree.find k with
  | none => simp [remove, hfind]
  | some found =>
      simp only [remove, hfind, node_markOverwrite, Node.get?_setOverwrite, Option.some.injEq,
        eq_comm (a := path)]
      split
      · next heq => rw [heq]
      · rfl

/-- A removal takes out the entry that `find` returned, and nothing where it returned none. -/
theorem takesOut_remove (tree : BinarySearchTree δ) (k : κ) :
    TakesOut tree (tree.remove k).2 k (tree.find k) := by
  cases hfind : tree.find k with
  | none => simp only [TakesOut, remove, hfind]
  | some path =>
      obtain ⟨data, hdata, hkey⟩ := Node.get?_of_find hfind
      have hlive := Node.live_setOverwrite hdata
      refine ⟨data, hkey, hdata, ?_, ?_⟩
      · rw [get?_remove, if_pos hfind, hdata]
        rfl
      · simp only [remove, hfind, node_markOverwrite]
        exact hlive

/-- Removing a key affects the entry of that key only, on every tree. -/
theorem remove_exact (tree : BinarySearchTree δ) (k : κ) :
    (tree.remove k).1 = tree.find k ∧ RemovedFrom tree (tree.remove k).2 k := by
  have hgone := find_remove_self tree k
  constructor
  · cases hfind : tree.find k <;> simp only [remove, hfind]
  refine ⟨hgone, fun k' hne => find_remove_of_ne tree hne, fun path => ?_,
    fun path hother => ?_, ?_, takesOut_remove tree k, ?_, fun data hkey => ?_⟩
  · rw [get?_remove]
    split
    · cases tree.node.get? path <;> rfl
    · rfl
  · rw [get?_remove, if_neg hother]
  · cases hfind : tree.find k with
    | none => simp only [remove, hfind]
    | some path =>
        simp only [remove, hfind]
        rfl
  · rw [remove, hgone]
  · subst hkey
    -- the datum may land in another flagged node than the one just made
    refine ⟨_, _, insert_of_find hgone, Node.find_place hgone, ?_⟩
    rw [Node.get?_place, if_pos rfl]

end BinarySearchTree

end Wheespa
