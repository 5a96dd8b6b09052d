import Mathlib.Order.Lattice

/-!
# The binary search tree of `binary_tree.hpp` and `binary_tree.cc`

A `Node<Tp>*` is modelled by the tree of nodes it reaches, and a node is named by the links
followed from the root: no operation ever moves a node, so this name is as stable as the node's
address. The parent link is not needed for any walk and appears only in the store model.

Removal is lazy: it raises the `overwrite` flag of a node and leaves its datum and its subtrees in
place. `insert` stores the new datum in the first flagged node it meets.
-/

namespace Wheespa

universe u v

/-- The stored structure `Tp0` has a `key` of type `Tp1`. -/
class Keyed (δ : Type u) (κ : outParam (Type v)) where
  key : δ → κ

export Keyed (key)

/-- The two child links of a node. -/
inductive Side where
  | left
  | right
  deriving DecidableEq, Repr

/-- The links that lead from the root to a node. -/
abbrev Path := List Side

/-- A `Node<Tp>*`: a null pointer, or a node with its datum, its flag and its two children. -/
inductive Node (δ : Type u) where
  | nullptr
  | node (data : δ) (overwrite : Bool) (left right : Node δ)
  deriving DecidableEq, Repr

namespace Node

variable {δ : Type u} {κ : Type v}

/-- `new Node<Tp0>()` with its datum set: the flag is zero and the links are null. -/
def new (data : δ) : Node δ :=
  .node data false .nullptr .nullptr

/-- The comparison `node == nullptr`. -/
def isNull : Node δ → Bool
  | .nullptr => true
  | .node .. => false

/-- The datum and the `overwrite` flag of the node at `path`, if there is a node there. -/
def get? : Node δ → Path → Option (δ × Bool)
  | .nullptr, _ => none
  | .node data overwrite _ _, [] => some (data, overwrite)
  | .node _ _ left _, .left :: path => left.get? path
  | .node _ _ _ right, .right :: path => right.get? path

/-- The assignment `node->overwrite = true` for the node at `path`. -/
def setOverwrite : Node δ → Path → Node δ
  | .nullptr, _ => .nullptr
  | .node data _ left right, [] => .node data true left right
  | .node data overwrite left right, .left :: path =>
      .node data overwrite (left.setOverwrite path) right
  | .node data overwrite left right, .right :: path =>
      .node data overwrite left (right.setOverwrite path)

/-- The recursive `setDataArray(node)`: it appends to `array` the data of the nodes that are not
flagged, in order. -/
def setDataArray (array : List δ) : Node δ → List δ
  | .nullptr => array
  | .node data overwrite left right =>
      let array := left.setDataArray array
      let array := if !overwrite then array ++ [data] else array
      right.setDataArray array

variable [LinearOrder κ] [Keyed δ κ]

/-- The recursive `find(node, key)`. The node it returns is named by its path. -/
def find : Node δ → κ → Option Path
  | .nullptr, _ => none
  | .node data overwrite left right, k =>
      if key data > k then (left.find k).map (.left :: ·)
      else if key data < k then (right.find k).map (.right :: ·)
      else if !overwrite then some [] else none

/-- The loop of `insert`, entered with `node_ptr` at this node. The result is `none` where the loop
reads through a null `node_ptr`. -/
def insertLoop (data : δ) : Node δ → Option (Node δ)
  | .nullptr => none
  | .node data' overwrite left right =>
      if key data' > key data ∧ left.isNull ∧ !overwrite then
        some (.node data' overwrite (.new data) right)
      else if key data' < key data ∧ right.isNull ∧ !overwrite then
        some (.node data' overwrite left (.new data))
      else if overwrite then
        -- the first flagged node on the way is taken over, whatever the two keys are
        some (.node data false left right)
      else if key data' ≥ key data then
        -- an equal key goes on to the left, also where that link is null
        (left.insertLoop data).map (fun left => .node data' overwrite left right)
      else
        (right.insertLoop data).map (fun right => .node data' overwrite left right)

end Node

/-- The class `BinarySearchTree<Tp0, Tp1>` with its two members `m_node` and `m_data_array`. -/
structure BinarySearchTree (δ : Type u) where
  node : Node δ
  dataArray : List δ
  deriving DecidableEq, Repr

namespace BinarySearchTree

variable {δ : Type u} {κ : Type v}

/-- The constructor `BinarySearchTree()`. -/
def empty : BinarySearchTree δ :=
  ⟨.nullptr, []⟩

/-- `isEmpty()`. -/
def isEmpty (tree : BinarySearchTree δ) : Bool :=
  tree.node.isNull

/-- `setDataArray()`. -/
def setDataArray (tree : BinarySearchTree δ) : BinarySearchTree δ :=
  { tree with dataArray := tree.node.setDataArray tree.dataArray }

/-- `getDataArray()`. -/
def getDataArray (tree : BinarySearchTree δ) : List δ :=
  tree.dataArray

/-- What the service loop does to a node on a disconnect: `node->overwrite = true`. -/
def markOverwrite (tree : BinarySearchTree δ) (path : Path) : BinarySearchTree δ :=
  { tree with node := tree.node.setOverwrite path }

variable [LinearOrder κ] [Keyed δ κ]

/-- `find(key)`. -/
def find (tree : BinarySearchTree δ) (k : κ) : Option Path :=
  tree.node.find k

/-- `insert(data)`, or `none` where it dereferences a null pointer. -/
def insert (tree : BinarySearchTree δ) (data : δ) : Option (BinarySearchTree δ) :=
  if tree.isEmpty then some { tree with node := .new data }
  else (tree.node.insertLoop data).map (fun node => { tree with node })

/-- `remove(in)`: the node it returns and the tree it leaves. -/
def remove (tree : BinarySearchTree δ) (k : κ) : Option Path × BinarySearchTree δ :=
  match tree.find k with
  | some path => (some path, tree.markOverwrite path)
  | none => (none, tree)

end BinarySearchTree

end Wheespa
