import Wheespa.BinaryTree.Live

/-!
# The three traversals

`inOrder`, `preOrder` and `postOrder` follow the links of the tree and call a function on each node
that is not flagged when they come to it. The service loop's function flags nodes while the
recursion is under way. Here a traversal is a fold over the nodes in the order in which they are
tested, and a call concerns its own node only, so that every node is found with the flag that it
had at the start. `traverse_exact` says which calls are made and what tree they leave.
-/

namespace Wheespa

universe u v

/-- The `enum class TraverseOrder`. -/
inductive TraverseOrder where
  | IN
  | PRE
  | POST
  deriving DecidableEq, Repr

/-- A function `void(*f)(Node<Tp0>*)` that writes to no node but the one it is given, and to no
link. It may read the memory outside the tree, all nodes, and its node, which is given with its
place and its datum; it leaves that memory and the datum and the flag of its node. -/
abbrev Callback (σ : Type v) (δ : Type u) := σ → Node δ → Path → δ → σ × δ × Bool

/-- The state of a traversal: the memory outside the tree, the nodes, and the calls so far, each
with its node and the datum that the node held then. -/
structure Walk (σ : Type v) (δ : Type u) where
  memory : σ
  root : Node δ
  calls : List (Path × δ)

variable {σ : Type v} {δ : Type u}

namespace Node

/-- The assignments to `node->data` and `node->overwrite` for the node at `path`. -/
def assign (entry : δ × Bool) : Node δ → Path → Node δ
  | .nullptr, _ => .nullptr
  | .node _ _ left right, [] => .node entry.1 entry.2 left right
  | .node data overwrite left right, .left :: path =>
      .node data overwrite (left.assign entry path) right
  | .node data overwrite left right, .right :: path =>
      .node data overwrite left (right.assign entry path)

/-- The nodes that a pointer reaches, in the order in which a traversal tests their flags. -/
def reached (order : TraverseOrder) : Node δ → List Path
  | .nullptr => []
  | .node _ _ left right =>
      let below := (left.reached order).map (.left :: ·)
      let above := (right.reached order).map (.right :: ·)
      match order with
      | .IN => below ++ [] :: above
      | .PRE => [] :: (below ++ above)
      | .POST => below ++ above ++ [[]]

/-- The call that a traversal makes where it finds the node at `path` as it is in this tree. -/
def callAt (root : Node δ) (path : Path) : Option (Path × δ) :=
  match root.get? path with
  | some (data, false) => some (path, data)
  | _ => none

/-- A node is determined by the data and the flags that its paths lead to. -/
theorem ext_get? {tree other : Node δ} (h : ∀ path, tree.get? path = other.get? path) :
    tree = other := by
  induction tree generalizing other with
  | nullptr =>
      cases other with
      | nullptr => rfl
      | node => simpa using h []
  | node data overwrite left right ihleft ihright =>
      cases other with
      | nullptr => simpa using h []
      | node data' overwrite' left' right' =>
          obtain ⟨rfl, rfl⟩ : data = data' ∧ overwrite = overwrite' := by simpa using h []
          rw [ihleft fun path => h (.left :: path), ihright fun path => h (.right :: path)]

/-- An assignment changes the node at its path only. -/
theorem get?_assign (entry : δ × Bool) (tree : Node δ) (path other : Path) :
    (tree.assign entry path).get? other =
      if other = path then (tree.get? path).map fun _ => entry else tree.get? other := by
  induction tree generalizing path other with
  | nullptr => simp [assign]
  | node data overwrite left right ihleft ihright =>
      match path, other with
      | [], [] => simp [assign]
      | [], .left :: _ | [], .right :: _ => simp [assign]
      | .left :: _, [] | .right :: _, [] => simp [assign]
      | .left :: path, .left :: other => simp [assign, ihleft]
      | .right :: path, .right :: other => simp [assign, ihright]
      | .left :: _, .right :: _ | .right :: _, .left :: _ => simp [assign]

/-- A call is one on a live node, with the datum of that node. -/
theorem callAt_eq_some {root : Node δ} {path : Path} {call : Path × δ} :
    root.callAt path = some call ↔
      call.1 = path ∧ root.get? path = some (call.2, false) := by
  obtain ⟨called, data⟩ := call
  simp only [callAt]
  split <;> grind

/-! ## The order of the tests -/

/-- The three orders are those of the same nodes. -/
theorem reached_perm (tree : Node δ) (order order' : TraverseOrder) :
    (tree.reached order).Perm (tree.reached order') := by
  induction tree with
  | nullptr => exact .refl _
  | node data overwrite left right ihleft ihright =>
      have hbelow := ihleft.map (Side.left :: ·)
      have habove := ihright.map (Side.right :: ·)
      -- each order has the node itself in front of, between or behind the nodes below it
      have hfront (order : TraverseOrder) :
          ((node data overwrite left right).reached order).Perm
            ([] :: ((left.reached order).map (.left :: ·) ++
              (right.reached order).map (.right :: ·))) := by
        cases order with
        | IN => exact List.perm_middle
        | PRE => exact .refl _
        | POST => exact List.perm_append_singleton _ _
      exact (hfront order).trans
        (((hbelow.append habove).cons []).trans (hfront order').symm)

/-- No node is tested twice. -/
theorem nodup_reached (tree : Node δ) (order : TraverseOrder) : (tree.reached order).Nodup := by
  refine (tree.reached_perm order .PRE).nodup_iff.mpr ?_
  induction tree with
  | nullptr => exact List.nodup_nil
  | node data overwrite left right ihleft ihright =>
      have hbelow : ((left.reached .PRE).map (Side.left :: ·)).Nodup :=
        ihleft.map List.cons_injective
      have habove : ((right.reached .PRE).map (Side.right :: ·)).Nodup :=
        ihright.map List.cons_injective
      have hdisjoint : ((left.reached .PRE).map (Side.left :: ·)).Disjoint
          ((right.reached .PRE).map (Side.right :: ·)) := by
        simp [List.Disjoint]
      exact List.nodup_cons.mpr ⟨by simp, hbelow.append habove hdisjoint⟩

/-- The nodes that are tested are those of the tree. -/
theorem mem_reached {tree : Node δ} {order : TraverseOrder} {path : Path} :
    path ∈ tree.reached order ↔ (tree.get? path).isSome := by
  rw [(tree.reached_perm order .PRE).mem_iff]
  induction tree generalizing path with
  | nullptr => simp [reached]
  | node data overwrite left right ihleft ihright =>
      match path with
      | [] => simp [reached]
      | .left :: path => simpa [reached] using ihleft
      | .right :: path => simpa [reached] using ihright

/-- In order, the data of the nodes that are not flagged are the live data. -/
theorem calls_eq_live (tree : Node δ) :
    ((tree.reached .IN).filterMap tree.callAt).map Prod.snd = tree.live := by
  have hdata : (fun path => (tree.callAt path).map Prod.snd) = fun path =>
      (tree.get? path).bind fun entry => if entry.2 then none else some entry.1 := by
    funext path
    simp only [callAt]
    rcases tree.get? path with _ | ⟨data, _ | _⟩ <;> rfl
  rw [List.map_filterMap, hdata]
  clear hdata
  induction tree with
  | nullptr => rfl
  | node data overwrite left right ihleft ihright =>
      simp only [reached, List.filterMap_append, List.filterMap_map, List.filterMap_cons, get?_nil,
        Function.comp_def, get?_left, get?_right, ihleft, ihright]
      cases overwrite <;> rfl

end Node

namespace Walk

/-- The statement `if(!node->overwrite) foo(node)` for the node at `path`. -/
def visit (foo : Callback σ δ) (walk : Walk σ δ) (path : Path) : Walk σ δ :=
  match walk.root.get? path with
  | some (data, false) =>
      let (memory, entry) := foo walk.memory walk.root path data
      { memory, root := walk.root.assign entry path, calls := walk.calls ++ [(path, data)] }
  | _ => walk

/-- The recursive `inOrder(node, foo)` for the node at `path`. No link is ever written, so that the
links are those of the tree at the start; the flags are read when they are tested. -/
def inOrder (foo : Callback σ δ) : Node δ → Path → Walk σ δ → Walk σ δ
  | .nullptr, _, walk => walk
  | .node _ _ left right, path, walk =>
      let walk := inOrder foo left (path ++ [.left]) walk
      let walk := walk.visit foo path
      inOrder foo right (path ++ [.right]) walk

/-- The recursive `preOrder(node, foo)`. -/
def preOrder (foo : Callback σ δ) : Node δ → Path → Walk σ δ → Walk σ δ
  | .nullptr, _, walk => walk
  | .node _ _ left right, path, walk =>
      let walk := walk.visit foo path
      let walk := preOrder foo left (path ++ [.left]) walk
      preOrder foo right (path ++ [.right]) walk

/-- The recursive `postOrder(node, foo)`. -/
def postOrder (foo : Callback σ δ) : Node δ → Path → Walk σ δ → Walk σ δ
  | .nullptr, _, walk => walk
  | .node _ _ left right, path, walk =>
      let walk := postOrder foo left (path ++ [.left]) walk
      let walk := postOrder foo right (path ++ [.right]) walk
      walk.visit foo path

/-! ## The traversals as folds -/

/-- The nodes below a child, named from the root. -/
theorem map_below (path : Path) (side : Side) (paths : List Path) :
    (paths.map (side :: ·)).map (path ++ ·) = paths.map ((path ++ [side]) ++ ·) := by
  rw [List.map_map]
  exact List.map_congr_left fun below _ => List.append_cons path side below

theorem inOrder_eq_foldl (foo : Callback σ δ) (node : Node δ) (path : Path) (walk : Walk σ δ) :
    inOrder foo node path walk = ((node.reached .IN).map (path ++ ·)).foldl (visit foo) walk := by
  induction node generalizing path walk with
  | nullptr => rfl
  | node data overwrite left right ihleft ihright =>
      rw [inOrder, ihleft, ihright, Node.reached, List.map_append, List.map_cons, map_below,
        map_below, List.append_nil, List.foldl_append, List.foldl_cons]

theorem preOrder_eq_foldl (foo : Callback σ δ) (node : Node δ) (path : Path) (walk : Walk σ δ) :
    preOrder foo node path walk = ((node.reached .PRE).map (path ++ ·)).foldl (visit foo) walk := by
  induction node generalizing path walk with
  | nullptr => rfl
  | node data overwrite left right ihleft ihright =>
      rw [preOrder, ihleft, ihright, Node.reached, List.map_cons, List.map_append, map_below,
        map_below, List.append_nil, List.foldl_cons, List.foldl_append]

theorem postOrder_eq_foldl (foo : Callback σ δ) (node : Node δ) (path : Path) (walk : Walk σ δ) :
    postOrder foo node path walk =
      ((node.reached .POST).map (path ++ ·)).foldl (visit foo) walk := by
  induction node generalizing path walk with
  | nullptr => rfl
  | node data overwrite left right ihleft ihright =>
      rw [postOrder, ihleft, ihright, Node.reached, List.map_append, List.map_append, map_below,
        map_below, List.map_singleton, List.append_nil, List.foldl_append, List.foldl_append,
        List.foldl_cons, List.foldl_nil]

/-! ## A fold of calls -/

/-- A test of another node leaves a node as it is. -/
theorem get?_visit_of_ne (foo : Callback σ δ) (walk : Walk σ δ) {path other : Path}
    (h : other ≠ path) : (walk.visit foo path).root.get? other = walk.root.get? other := by
  simp only [visit]
  split
  · simp only [Node.get?_assign, if_neg h]
  · rfl

/-- A test makes the call that the node asks for as it is. -/
theorem calls_visit (foo : Callback σ δ) (walk : Walk σ δ) (path : Path) :
    (walk.visit foo path).calls = walk.calls ++ (walk.root.callAt path).toList := by
  simp only [visit, Node.callAt]
  split
  · rfl
  · exact (List.append_nil _).symm

/-- Tests of distinct nodes make the calls that the nodes ask for at the start: what has happened
to other nodes until a node is tested does not matter to it. -/
theorem calls_foldl (foo : Callback σ δ) {paths : List Path} (h : paths.Nodup) (walk : Walk σ δ) :
    (paths.foldl (visit foo) walk).calls =
      walk.calls ++ paths.filterMap walk.root.callAt := by
  induction paths generalizing walk with
  | nil => exact (List.append_nil _).symm
  | cons path paths ih =>
      obtain ⟨hpath, hpaths⟩ := List.nodup_cons.mp h
      have hlater : paths.filterMap (walk.visit foo path).root.callAt =
          paths.filterMap walk.root.callAt := by
        refine List.filterMap_congr fun other hother => ?_
        rw [Node.callAt, Node.callAt, get?_visit_of_ne foo walk (ne_of_mem_of_not_mem hother hpath)]
      rw [List.foldl_cons, ih hpaths, calls_visit, hlater, List.append_assoc]
      congr 1
      cases hcall : walk.root.callAt path <;> simp [hcall]

end Walk

/-- What the callback does to a node depends on the node alone: on its place and its datum. -/
def DependsOnNode (foo : Callback σ δ) (effect : Path → δ → δ × Bool) : Prop :=
  ∀ memory root path data, root.get? path = some (data, false) →
    (foo memory root path data).2 = effect path data

/-- What a callback of this effect makes of a node that is tested. -/
def served (effect : Path → δ → δ × Bool) (path : Path) : δ × Bool → δ × Bool
  | (data, false) => effect path data
  | (data, true) => (data, true)

namespace Walk

theorem get?_visit_self {foo : Callback σ δ} {effect : Path → δ → δ × Bool}
    (heffect : DependsOnNode foo effect) (walk : Walk σ δ) (path : Path) :
    (walk.visit foo path).root.get? path = (walk.root.get? path).map (served effect path) := by
  simp only [visit]
  split
  · next data hlive =>
      simp only [Node.get?_assign, if_true, hlive, Option.map_some, served,
        heffect walk.memory walk.root path data hlive]
  · next hother =>
      rcases hget : walk.root.get? path with _ | ⟨data, _ | _⟩
      · rfl
      · exact (hother data hget).elim
      · rfl

/-- Tests of distinct nodes serve each of them once. -/
theorem get?_foldl {foo : Callback σ δ} {effect : Path → δ → δ × Bool}
    (heffect : DependsOnNode foo effect) {paths : List Path} (h : paths.Nodup) (walk : Walk σ δ)
    (path : Path) :
    (paths.foldl (visit foo) walk).root.get? path =
      if path ∈ paths then (walk.root.get? path).map (served effect path)
      else walk.root.get? path := by
  induction paths generalizing walk with
  | nil => rfl
  | cons head paths ih =>
      obtain ⟨hhead, hpaths⟩ := List.nodup_cons.mp h
      rw [List.foldl_cons, ih hpaths]
      by_cases hpath : path = head
      · subst hpath
        rw [if_neg hhead, if_pos List.mem_cons_self, get?_visit_self heffect]
      · simp only [get?_visit_of_ne foo walk hpath, List.mem_cons, hpath, false_or]

end Walk

namespace BinarySearchTree

/-- `traverse(f, order)`. -/
def traverse (tree : BinarySearchTree δ) (f : Callback σ δ) (order : TraverseOrder) (memory : σ) :
    Walk σ δ :=
  let walk : Walk σ δ := ⟨memory, tree.node, []⟩
  match order with
  | .IN => Walk.inOrder f tree.node [] walk
  | .PRE => Walk.preOrder f tree.node [] walk
  | .POST => Walk.postOrder f tree.node [] walk

/-- A traversal tests the nodes of the tree in its order. -/
theorem traverse_eq_foldl (tree : BinarySearchTree δ) (f : Callback σ δ) (order : TraverseOrder)
    (memory : σ) :
    tree.traverse f order memory =
      (tree.node.reached order).foldl (Walk.visit f) ⟨memory, tree.node, []⟩ := by
  have hroot (paths : List Path) : paths.map ([] ++ ·) = paths := List.map_id paths
  cases order with
  | IN => rw [traverse, Walk.inOrder_eq_foldl, hroot]
  | PRE => rw [traverse, Walk.preOrder_eq_foldl, hroot]
  | POST => rw [traverse, Walk.postOrder_eq_foldl, hroot]

/-- The calls of a traversal are those that the nodes ask for at its start. -/
theorem calls_traverse (tree : BinarySearchTree δ) (f : Callback σ δ) (order : TraverseOrder)
    (memory : σ) :
    (tree.traverse f order memory).calls =
      (tree.node.reached order).filterMap tree.node.callAt := by
  rw [traverse_eq_foldl, Walk.calls_foldl f (tree.node.nodup_reached order), List.nil_append]

/-- A traversal with a callback whose effect depends on the node alone serves every node once. -/
theorem get?_traverse (tree : BinarySearchTree δ) {f : Callback σ δ}
    {effect : Path → δ → δ × Bool} (heffect : DependsOnNode f effect) (order : TraverseOrder)
    (memory : σ) (path : Path) :
    (tree.traverse f order memory).root.get? path =
      (tree.node.get? path).map (served effect path) := by
  rw [traverse_eq_foldl, Walk.get?_foldl heffect (tree.node.nodup_reached order)]
  split
  · rfl
  · next hpath =>
      rw [Node.mem_reached, Bool.not_eq_true, Option.isSome_eq_false_iff, Option.isNone_iff_eq_none]
        at hpath
      rw [hpath, Option.map_none]

/-- No node is called on twice. -/
theorem nodup_calls_traverse (tree : BinarySearchTree δ) (f : Callback σ δ)
    (order : TraverseOrder) (memory : σ) :
    ((tree.traverse f order memory).calls.map Prod.fst).Nodup := by
  have hsub : (((tree.node.reached order).filterMap tree.node.callAt).map Prod.fst).Sublist
      (tree.node.reached order) := by
    induction tree.node.reached order with
    | nil => exact .slnil
    | cons path paths ih =>
        rw [List.filterMap_cons]
        cases hcall : tree.node.callAt path with
        | none => exact ih.cons path
        | some call =>
            obtain ⟨rfl, -⟩ := Node.callAt_eq_some.mp hcall
            exact ih.cons_cons call.1
  rw [calls_traverse]
  exact hsub.nodup (tree.node.nodup_reached order)

/-- The traversals of a tree with a callback, from some memory. Each calls on every node that is
live at the start, once, and on no other node; the three call on the same nodes, and leave the same
tree where the effect of the callback depends on the node alone; the data of the calls in order are
those that `setDataArray` appends. -/
structure TraversedAlike (tree : BinarySearchTree δ) (f : Callback σ δ) (memory : σ) : Prop where
  once : ∀ order, ((tree.traverse f order memory).calls.map Prod.fst).Nodup
  live : ∀ order path data, (path, data) ∈ (tree.traverse f order memory).calls ↔
    tree.node.get? path = some (data, false)
  permuted : ∀ order order',
    (tree.traverse f order memory).calls.Perm (tree.traverse f order' memory).calls
  served : ∀ effect, DependsOnNode f effect → ∀ order path,
    (tree.traverse f order memory).root.get? path =
      (tree.node.get? path).map (served effect path)
  same : ∀ effect, DependsOnNode f effect → ∀ order order',
    (tree.traverse f order memory).root = (tree.traverse f order' memory).root
  array : tree.setDataArray.getDataArray =
    tree.getDataArray ++ (tree.traverse f .IN memory).calls.map Prod.snd
  unchanged : DependsOnNode f (fun _ data => (data, false)) → ∀ order,
    (tree.traverse f order memory).root = tree.node

/-- The three traversals visit the same nodes, for every tree and every callback that writes to the
node it is given only. -/
theorem traverse_exact (tree : BinarySearchTree δ) (f : Callback σ δ) (memory : σ) :
    TraversedAlike tree f memory where
  once order := tree.nodup_calls_traverse f order memory
  live order path data := by
    rw [calls_traverse, List.mem_filterMap]
    constructor
    · rintro ⟨path', -, hcall⟩
      obtain ⟨rfl, hlive⟩ := Node.callAt_eq_some.mp hcall
      exact hlive
    · intro hlive
      refine ⟨path, Node.mem_reached.mpr ?_, Node.callAt_eq_some.mpr ⟨rfl, hlive⟩⟩
      rw [hlive, Option.isSome_some]
  permuted order order' := by
    rw [calls_traverse, calls_traverse]
    exact (tree.node.reached_perm order order').filterMap _
  served effect heffect order path := tree.get?_traverse heffect order memory path
  same effect heffect order order' :=
    Node.ext_get? fun path => by rw [get?_traverse tree heffect, get?_traverse tree heffect]
  array := by
    rw [calls_traverse, Node.calls_eq_live]
    exact Node.setDataArray_eq tree.node tree.dataArray
  unchanged hunchanged order := by
    refine Node.ext_get? fun path => ?_
    rw [get?_traverse tree hunchanged]
    rcases tree.node.get? path with _ | ⟨data, _ | _⟩ <;> rfl

/-- A callback that flags its node, while the recursion is under way. -/
example :
    let tree : BinarySearchTree Nat := ⟨.node 27 true (.node 14 false (.new 10) (.node 19 false
      .nullptr (.new 23))) (.node 35 false .nullptr (.new 42)), []⟩
    (tree.traverse (fun calls _ _ key => (calls + 1, key, true)) .POST 0).calls.map Prod.snd =
      [10, 23, 19, 14, 42, 35] := by
  decide

end BinarySearchTree

/-! ## The service loop -/

/-- The callback of the service loop in a round in which nothing is received: a node is flagged
where the read from its stream throws. -/
def flagThrowing (throws : δ → Bool) : Callback σ δ := fun memory _ _ data =>
  (memory, data, throws data)

namespace Node

/-- The tree with all nodes flagged whose reads throw. -/
def flagAll (throws : δ → Bool) : Node δ → Node δ
  | .nullptr => .nullptr
  | .node data overwrite left right =>
      .node data (overwrite || throws data) (left.flagAll throws) (right.flagAll throws)

theorem get?_flagAll (throws : δ → Bool) (tree : Node δ) (path : Path) :
    (tree.flagAll throws).get? path =
      (tree.get? path).map fun entry => (entry.1, entry.2 || throws entry.1) := by
  induction tree generalizing path with
  | nullptr => simp [flagAll]
  | node data overwrite left right ihleft ihright =>
      match path with
      | [] => rfl
      | .left :: path => exact ihleft path
      | .right :: path => exact ihright path

/-- The data of the other nodes stay live. -/
theorem live_flagAll (throws : δ → Bool) (tree : Node δ) :
    (tree.flagAll throws).live = tree.live.filter fun data => !throws data := by
  induction tree with
  | nullptr => rfl
  | node data overwrite left right ihleft ihright =>
      cases overwrite with
      | true => simp [flagAll, ihleft, ihright]
      | false => cases hthrows : throws data <;> simp [flagAll, hthrows, ihleft, ihright]

end Node

/-- Such a round takes out of the live data those whose reads throw, whatever the order in which
the nodes are visited. -/
theorem BinarySearchTree.live_traverse_flagThrowing (tree : BinarySearchTree δ)
    (throws : δ → Bool) (order : TraverseOrder) (memory : σ) :
    (tree.traverse (flagThrowing throws) order memory).root.live =
      tree.node.live.filter fun data => !throws data := by
  have heffect : @DependsOnNode σ δ (flagThrowing throws) fun _ data => (data, throws data) :=
    fun _ _ _ _ _ => rfl
  have hroot : (tree.traverse (flagThrowing throws) order memory).root =
      tree.node.flagAll throws := by
    refine Node.ext_get? fun path => ?_
    rw [get?_traverse tree heffect, Node.get?_flagAll]
    rcases tree.node.get? path with _ | ⟨data, _ | _⟩ <;> rfl
  rw [hroot, Node.live_flagAll]

end Wheespa
