import Wheespa.BinaryTree.FiniteMap

/-!
# A checked insertion

The connection loop calls `insert` only where `find` has returned no node. `insert` turns left at an
equal key and `find` stops there, but where `find` has found nothing both walks take the same links
down to the node that is taken over or to the null link, on any tree, ordered or not.
`insert_exact` says what such an insertion does.
-/

namespace Wheespa

universe u v

variable {δ : Type u} {κ : Type v} [LinearOrder κ] [Keyed δ κ]

namespace Node

/-- After an insertion whose key `find` has not found, `find` returns the node that holds the new
datum. -/
theorem find_place {tree : Node δ} {data : δ} (hfind : tree.find (key data) = none) :
    (tree.place data).find (key data) = some (tree.placeAt data) := by
  induction tree with
  | nullptr => simp [place, placeAt, new, find]
  | node data' overwrite left right ihleft ihright =>
      cases overwrite with
      | true => simp [place, placeAt, find]
      | false =>
          -- a live node on the way has another key, or `find` would have stopped there
          rcases lt_trichotomy (key data) (key data') with hlt | heq | hgt
          · have hleft : left.find (key data) = none := by simpa [find, hlt] using hfind
            simp [place, placeAt, find, hlt, hlt.le, ihleft hleft]
          · simp [find, heq] at hfind
          · have hright : right.find (key data) = none := by
              simpa [find, hgt, hgt.not_gt] using hfind
            simp [place, placeAt, find, hgt, hgt.not_gt, hgt.not_ge, ihright hright]

end Node

namespace BinarySearchTree

/-- `after` is `tree` with `data` stored in the node at `path`, which is linked if it was not:
`find` returns that node, the live data are the old ones and the new one, and every live node is
where it was. -/
structure InsertedAt (tree after : BinarySearchTree δ) (data : δ) (path : Path) : Prop where
  found : after.find (key data) = some path
  stored : after.node.get? path = some (data, false)
  live : after.node.live.Perm (data :: tree.node.live)
  kept : ∀ other data', tree.node.get? other = some (data', false) →
    after.node.get? other = some (data', false)
  linked : ∀ other,
    (after.node.get? other).isSome ↔ (tree.node.get? other).isSome ∨ other = path

/-- A checked insertion is safe and exact on every tree: it completes without following a null
child, and stores its datum in one node, which holds no live datum and may be new. -/
theorem insert_exact (tree : BinarySearchTree δ) (data : δ)
    (hfind : tree.find (key data) = none) :
    ∃ after path, tree.insert data = some after ∧ InsertedAt tree after data path := by
  refine ⟨_, tree.node.placeAt data, insert_of_find hfind, Node.find_place hfind, ?_,
    tree.node.live_place data, fun _ _ hlive => Node.get?_place_of_live hlive data,
    fun other => ?_⟩
  · rw [Node.get?_place, if_pos rfl]
  · rw [Node.get?_place]
    by_cases hother : other = tree.node.placeAt data
    · simp [hother]
    · simp [hother]

/-- A tree in which 35 is out of order below 42, as the take-over of a node leaves it. -/
def misplaced : BinarySearchTree DataX :=
  ⟨.node ⟨42⟩ false (.new ⟨14⟩) (.new ⟨35⟩), []⟩

/-- `find` does not find that node, and a second 35 is inserted elsewhere. -/
theorem insert_exact_misplaced :
    ∃ after path, misplaced.insert ⟨35⟩ = some after ∧ InsertedAt misplaced after ⟨35⟩ path :=
  insert_exact misplaced ⟨35⟩ (by decide)

end BinarySearchTree

end Wheespa
