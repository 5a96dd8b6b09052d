import Wheespa.BinaryTree.Traversal
import Wheespa.BinaryTree.Writes
import Wheespa.Library.Interference

/-!
# A traversal among the writes of others

The service loop goes through the tree without the mutex: while its recursion is under way, handlers
insert and remove, and what is called on a node flags it. Here the recursion is a list of what it
has still to do, each of its reads of a pointer or of a flag is one turn and each of its calls
another, and the writes come in between in any order; what a callback does to its node is some of
them. `traverse_among_writes` says that no node is called on twice in a pass, that each has been
live at a moment of it, that a node that is live all the time is called on, whatever is inserted
around it, and that a pass that is left alone comes to its end. A node is live when it is called on,
too, as long as no flag is set between the test of it and the call. `alone_traverse` says that a
pass without others is `traverse` of `Wheespa.BinaryTree.Traversal`.
-/

namespace Wheespa

open Transition Interference

universe u v w

variable {δ : Type u}

/-- What a recursion has still to do: the call on the pointer that these links lead to, the test of
the flag of the node there, or the call of `foo` on it. -/
inductive Task where
  | descend (path : Path)
  | test (path : Path)
  | call (path : Path)
  deriving DecidableEq, Repr

/-- The links to the node that the task reads, where there has been one before. -/
def Task.node? : Task → Option Path
  | .descend _ => none
  | .test path | .call path => some path

/-- The body of `inOrder`, `preOrder` or `postOrder` for the node at `path`. -/
def TraverseOrder.body (path : Path) : TraverseOrder → List Task
  | .IN => [.descend (path ++ [.left]), .test path, .descend (path ++ [.right])]
  | .PRE => [.test path, .descend (path ++ [.left]), .descend (path ++ [.right])]
  | .POST => [.descend (path ++ [.left]), .descend (path ++ [.right]), .test path]

/-- The body reads the one node, and it has the node tested before it calls on it. -/
theorem TraverseOrder.node?_of_mem_body {order : TraverseOrder} {above path : Path} {task : Task}
    (h : task ∈ order.body above) : (path ∈ task.node? → path = above) ∧ task ≠ .call path := by
  have htask : task = .test above ∨ ∃ side, task = .descend (above ++ [side]) := by
    cases order <;> simp only [TraverseOrder.body, List.mem_cons] at h <;> grind
  rcases htask with rfl | ⟨side, rfl⟩
  · exact ⟨fun hpath => (Option.some.inj hpath).symm, by simp⟩
  · exact ⟨by simp [Task.node?], by simp⟩

/-- A traversal under way: what is still to be done, and the calls so far, each with its node and
the datum that the node held then. -/
structure Traversing (δ : Type u) where
  todo : List Task
  calls : List (Path × δ)

/-- `traverse` begins with the root. -/
def Traversing.start : Traversing δ :=
  ⟨[.descend []], []⟩

namespace Node

/-- What the pointer that these links lead to reaches. -/
def follow : Node δ → Path → Node δ
  | tree, [] => tree
  | .nullptr, _ :: _ => .nullptr
  | .node _ _ left _, .left :: path => left.follow path
  | .node _ _ _ right, .right :: path => right.follow path

/-- The links below a pointer are followed from it. -/
theorem get?_append (tree : Node δ) (above path : Path) :
    tree.get? (above ++ path) = (tree.follow above).get? path := by
  induction tree generalizing above with
  | nullptr => cases above <;> simp [follow]
  | node data overwrite left right ihleft ihright =>
      rcases above with _ | ⟨_ | _, above⟩
      · rfl
      · exact ihleft above
      · exact ihright above

/-- There is no node below a null pointer. -/
theorem get?_append_of_null {tree : Node δ} {above : Path} (h : tree.get? above = none)
    (path : Path) : tree.get? (above ++ path) = none := by
  have hnull : tree.follow above = .nullptr := by
    rw [← List.append_nil above, get?_append] at h
    cases hbelow : tree.follow above with
    | nullptr => rfl
    | node => simp [hbelow] at h
  rw [get?_append, hnull, get?_nullptr]

/-- A child of what a pointer reaches is reached by one more link. -/
theorem follow_snoc {tree : Node δ} {above : Path} {data : δ} {overwrite : Bool}
    {left right : Node δ} (h : tree.follow above = .node data overwrite left right) :
    tree.follow (above ++ [.left]) = left ∧ tree.follow (above ++ [.right]) = right := by
  induction tree generalizing above with
  | nullptr => cases above <;> simp [follow] at h
  | node data' overwrite' left' right' ihleft ihright =>
      rcases above with _ | ⟨_ | _, above⟩
      · obtain ⟨rfl, rfl, rfl, rfl⟩ := Node.node.inj h
        exact ⟨by cases left' <;> rfl, by cases right' <;> rfl⟩
      · exact ihleft h
      · exact ihright h

end Node

namespace BinarySearchTree

/-- One turn of a traversal, or `none` where it is at its end or a null pointer is read through. -/
def traverseStep (order : TraverseOrder) (tree : BinarySearchTree δ) (self : Traversing δ) :
    Option (BinarySearchTree δ × Traversing δ) :=
  match self.todo with
  | [] => none
  | .descend path :: rest =>
      -- the pointer is read when the call is made
      let todo := if (tree.node.get? path).isSome then order.body path ++ rest else rest
      some (tree, { self with todo })
  | .test path :: rest => do
      let (_, overwrite) ← tree.node.get? path
      let todo := if !overwrite then .call path :: rest else rest
      some (tree, { self with todo })
  | .call path :: rest => do
      let (data, _) ← tree.node.get? path
      some (tree, ⟨rest, self.calls ++ [(path, data)]⟩)

/-- The service loop in a pass, among the writes of others. -/
def traverseParty (order : TraverseOrder) :
    Party (BinarySearchTree δ) (Traversing δ) (NodeWrite δ) :=
  ⟨traverseStep order, write⟩

/-- The write sets no flag of a node that has been tested and is still to be called on. -/
def SparesCalled (_ : BinarySearchTree δ) (self : Traversing δ) : NodeWrite δ → Prop
  | .flag path true => .call path ∉ self.todo
  | .flag _ false | .link .. | .assign .. => True

instance (tree : BinarySearchTree δ) (self : Traversing δ) :
    (write : NodeWrite δ) → Decidable (tree.SparesCalled self write)
  | .flag path true => inferInstanceAs (Decidable (.call path ∉ self.todo))
  | .flag _ false | .link .. | .assign .. => .isTrue trivial

end BinarySearchTree

/-! ## How often a node comes up -/

/-- The task is or leads to the test of the node at `path`, or is the call on it. -/
def Task.covers (path : Path) : Task → Bool
  | .descend above => above.isPrefixOf path
  | .test other | .call other => other == path

namespace Traversing

/-- How often the node at `path` has been called on or is still to be tested. -/
def count (self : Traversing δ) (path : Path) : Nat :=
  self.calls.countP (fun call => call.1 == path) + self.todo.countP (Task.covers path)

/-- A node is below another where it is that node or below one of its children, and only one of
these. -/
theorem covers_node (above path : Path) :
    (Task.covers path (.descend (above ++ [.left]))).toNat +
      (Task.covers path (.test above)).toNat +
      (Task.covers path (.descend (above ++ [.right]))).toNat =
      (Task.covers path (.descend above)).toNat := by
  simp only [Task.covers]
  induction above generalizing path with
  | nil =>
      rcases path with _ | ⟨_ | _, path⟩ <;> rfl
  | cons side above ih =>
      cases path with
      | nil => rfl
      | cons side' path =>
          by_cases h : side = side'
          · subst h
            simpa using ih path
          · have hbeq : (side == side') = false := beq_false_of_ne h
            simp [List.isPrefixOf, hbeq]

/-- Each order has the node and its children once. -/
theorem countP_body (order : TraverseOrder) (above path : Path) :
    (order.body above).countP (Task.covers path) =
      if Task.covers path (.descend above) then 1 else 0 := by
  have hnode := covers_node above path
  cases order <;> simp only [TraverseOrder.body, List.countP_cons, List.countP_nil] <;> grind

/-- A traversal begins with every path once. -/
theorem count_start (path : Path) : (start : Traversing δ).count path = 1 := by
  cases path <;> rfl

/-- A path has been called on at most as often as it has come up. -/
theorem countP_calls_le (self : Traversing δ) (path : Path) :
    (self.calls.map Prod.fst).count path ≤ self.count path := by
  rw [List.count, List.countP_map, count]
  exact Nat.le_add_right _ _

end Traversing

namespace BinarySearchTree

/-- What one turn of a traversal does, as it finds the tree. -/
inductive TraverseTurn (order : TraverseOrder) (tree : BinarySearchTree δ) :
    Traversing δ → Traversing δ → Prop where
  | linked {path : Path} {rest : List Task} {calls : List (Path × δ)}
      (hget : (tree.node.get? path).isSome) :
      TraverseTurn order tree ⟨.descend path :: rest, calls⟩ ⟨order.body path ++ rest, calls⟩
  | null {path : Path} {rest : List Task} {calls : List (Path × δ)}
      (hget : tree.node.get? path = none) :
      TraverseTurn order tree ⟨.descend path :: rest, calls⟩ ⟨rest, calls⟩
  | live {path : Path} {rest : List Task} {calls : List (Path × δ)} {data : δ}
      (hget : tree.node.get? path = some (data, false)) :
      TraverseTurn order tree ⟨.test path :: rest, calls⟩ ⟨.call path :: rest, calls⟩
  | flagged {path : Path} {rest : List Task} {calls : List (Path × δ)} {data : δ}
      (hget : tree.node.get? path = some (data, true)) :
      TraverseTurn order tree ⟨.test path :: rest, calls⟩ ⟨rest, calls⟩
  | called {path : Path} {rest : List Task} {calls : List (Path × δ)} {data : δ}
      {overwrite : Bool} (hget : tree.node.get? path = some (data, overwrite)) :
      TraverseTurn order tree ⟨.call path :: rest, calls⟩ ⟨rest, calls ++ [(path, data)]⟩

/-- A turn of a traversal changes nothing in the tree. -/
theorem traverseStep_turn {order : TraverseOrder} {tree after : BinarySearchTree δ}
    {self self' : Traversing δ} (h : tree.traverseStep order self = some (after, self')) :
    after = tree ∧ TraverseTurn order tree self self' := by
  obtain ⟨todo, calls⟩ := self
  cases todo with
  | nil => simp [traverseStep] at h
  | cons task rest =>
      cases task with
      | descend path =>
          simp only [traverseStep] at h
          split_ifs at h with hget
          · obtain ⟨rfl, rfl⟩ := Prod.mk.inj (Option.some.inj h)
            exact ⟨rfl, .linked hget⟩
          · obtain ⟨rfl, rfl⟩ := Prod.mk.inj (Option.some.inj h)
            exact ⟨rfl, .null (Option.not_isSome_iff_eq_none.mp hget)⟩
      | test path =>
          obtain ⟨⟨data, overwrite⟩, hget, h⟩ := Option.bind_eq_some_iff.mp h
          cases overwrite with
          | false =>
              obtain ⟨rfl, rfl⟩ := Prod.mk.inj (Option.some.inj h)
              exact ⟨rfl, .live hget⟩
          | true =>
              obtain ⟨rfl, rfl⟩ := Prod.mk.inj (Option.some.inj h)
              exact ⟨rfl, .flagged hget⟩
      | call path =>
          obtain ⟨⟨data, overwrite⟩, hget, h⟩ := Option.bind_eq_some_iff.mp h
          obtain ⟨rfl, rfl⟩ := Prod.mk.inj (Option.some.inj h)
          exact ⟨rfl, .called hget⟩

/-- A turn makes no path come up more often, and a path that leads to a live node as often. -/
theorem count_traverseTurn {order : TraverseOrder} {tree : BinarySearchTree δ}
    {self self' : Traversing δ} (h : TraverseTurn order tree self self') (path : Path) :
    self'.count path ≤ self.count path ∧
      ((tree.node.callAt path).isSome → self'.count path = self.count path) := by
  cases h with
  | @linked above rest calls hget =>
      have hcount : (Traversing.mk (order.body above ++ rest) calls).count path =
          (Traversing.mk (.descend above :: rest) calls).count path := by
        simp only [Traversing.count, List.countP_append, Traversing.countP_body, List.countP_cons]
        omega
      exact ⟨hcount.le, fun _ => hcount⟩
  | @null above rest calls hget =>
      simp only [Traversing.count, List.countP_cons]
      refine ⟨by omega, fun hlive => ?_⟩
      have hnot : Task.covers path (.descend above) = false := by
        rw [← Bool.not_eq_true]
        intro hcovers
        obtain ⟨below, rfl⟩ := List.isPrefixOf_iff_prefix.mp hcovers
        simp [Node.callAt, Node.get?_append_of_null hget] at hlive
      simp [hnot]
  | live hget =>
      -- the node is still to be called on
      exact ⟨le_rfl, fun _ => rfl⟩
  | @flagged above rest calls data hget =>
      simp only [Traversing.count, List.countP_cons]
      refine ⟨by omega, fun hlive => ?_⟩
      have hnot : Task.covers path (.test above) = false := by
        refine beq_false_of_ne ?_
        rintro rfl
        simp [Node.callAt, hget] at hlive
      simp [hnot]
  | @called above rest calls data overwrite hget =>
      have hcount : (Traversing.mk rest (calls ++ [(above, data)])).count path =
          (Traversing.mk (.call above :: rest) calls).count path := by
        simp only [Traversing.count, List.countP_append, List.countP_cons, List.countP_nil,
          Task.covers]
        by_cases hsame : above = path
        · simp only [hsame, beq_self_eq_true, if_true]
          omega
        · simp [hsame]
      exact ⟨hcount.le, fun _ => hcount⟩

/-! ## The nodes that are still to be called on -/

/-- Every node that is still to be read is there. -/
def Reaches (tree : BinarySearchTree δ) (self : Traversing δ) : Prop :=
  ∀ task ∈ self.todo, ∀ path ∈ task.node?, (tree.node.get? path).isSome

/-- Every node that has been tested and is still to be called on is live. -/
def CalledLive (tree : BinarySearchTree δ) (self : Traversing δ) : Prop :=
  ∀ path, .call path ∈ self.todo → ∃ data, tree.node.get? path = some (data, false)

variable {order : TraverseOrder} {tree after : BinarySearchTree δ} {self self' : Traversing δ}

/-- A turn that calls has the call to do, and calls on the node as it is. -/
theorem TraverseTurn.of_call (hturn : TraverseTurn order tree self self') {call : Path × δ}
    (hcall : call ∈ self'.calls) : call ∈ self.calls ∨
      .call call.1 ∈ self.todo ∧ ∃ overwrite, tree.node.get? call.1 = some (call.2, overwrite) := by
  cases hturn with
  | linked | null | live | flagged => exact .inl hcall
  | called hget =>
      rcases List.mem_append.mp hcall with hold | hnew
      · exact .inl hold
      · obtain rfl := List.mem_singleton.mp hnew
        exact .inr ⟨List.mem_cons_self, _, hget⟩

/-- A call that a turn leaves to do was left before, or its node is live in this turn. -/
theorem TraverseTurn.of_todo (hturn : TraverseTurn order tree self self') {path : Path}
    (hpath : .call path ∈ self'.todo) :
    .call path ∈ self.todo ∨ ∃ data, tree.node.get? path = some (data, false) := by
  cases hturn with
  | linked =>
      rcases List.mem_append.mp hpath with hbody | hrest
      · exact absurd rfl (TraverseOrder.node?_of_mem_body hbody).2
      · exact .inl (List.mem_cons_of_mem _ hrest)
  | null | flagged | called => exact .inl (List.mem_cons_of_mem _ hpath)
  | live hget =>
      rcases List.mem_cons.mp hpath with hnew | hrest
      · obtain rfl := Task.call.inj hnew
        exact .inr ⟨_, hget⟩
      · exact .inl (List.mem_cons_of_mem _ hrest)

/-- A turn leaves the node that it has read, or what was there. -/
theorem Reaches.turn (h : tree.Reaches self) (hturn : TraverseTurn order tree self self') :
    tree.Reaches self' := by
  cases hturn with
  | linked hget =>
      refine List.forall_mem_append.mpr ⟨fun task htask path hpath => ?_,
        (List.forall_mem_cons.mp h).2⟩
      rw [(TraverseOrder.node?_of_mem_body htask).1 hpath]
      exact hget
  | null | flagged | called => exact (List.forall_mem_cons.mp h).2
  | live => exact List.forall_mem_cons.mpr (List.forall_mem_cons.mp h)

/-- No write takes a node away from a traversal. -/
theorem Reaches.write (h : tree.Reaches self) {write : NodeWrite δ}
    (hstep : tree.write write = some after) : after.Reaches self := by
  intro task htask path hpath
  obtain ⟨⟨data, overwrite⟩, hget⟩ := Option.isSome_iff_exists.mp (h task htask path hpath)
  obtain ⟨data', overwrite', hget', -⟩ := get?_write hstep hget
  rw [hget', Option.isSome_some]

/-- A turn leaves to be called on what it has found live. -/
theorem CalledLive.turn (h : tree.CalledLive self) (hturn : TraverseTurn order tree self self') :
    tree.CalledLive self' :=
  fun path hpath => (hturn.of_todo hpath).elim (h path) id

/-- A node stays live while no write sets its flag. -/
theorem CalledLive.write (h : tree.CalledLive self) {write : NodeWrite δ}
    (hstep : tree.write write = some after) (hspares : tree.SparesCalled self write) :
    after.CalledLive self := by
  intro path hpath
  obtain ⟨data, hget⟩ := h path hpath
  obtain ⟨data', overwrite', hget', -, hflag⟩ := get?_write hstep hget
  cases overwrite' with
  | false => exact ⟨data', hget'⟩
  | true =>
      obtain rfl : write = .flag path true := hflag.resolve_left (by simp)
      exact absurd hpath hspares

/-! ## A pass without others -/

/-- The calls that a task comes to, in the tree as it is. -/
def made (order : TraverseOrder) (tree : BinarySearchTree δ) : Task → List (Path × δ)
  | .descend path =>
      (((tree.node.follow path).reached order).map (path ++ ·)).filterMap tree.node.callAt
  | .test path => (tree.node.callAt path).toList
  | .call path => ((tree.node.get? path).map fun entry => (path, entry.1)).toList

/-- Left alone, a traversal comes to the end of what it has to do. -/
def Completes (order : TraverseOrder) (tree : BinarySearchTree δ) (todo : List Task) : Prop :=
  ∀ rest calls, ∃ events, Run (traverseParty order).step (tree, ⟨todo ++ rest, calls⟩) events
    (tree, ⟨rest, calls ++ todo.flatMap (tree.made order)⟩) ∧ Party.Alone events

theorem Completes.nil : Completes order tree [] :=
  fun rest calls => ⟨[], by simpa using Run.refl, by simp [Party.Alone]⟩

/-- Tasks are done one after the other. -/
theorem Completes.append {first later : List Task} (hfirst : Completes order tree first)
    (hlater : Completes order tree later) : Completes order tree (first ++ later) := by
  intro rest calls
  rw [List.append_assoc first later rest, List.flatMap_append, ← List.append_assoc calls]
  exact Party.Alone.trans (hfirst (later ++ rest) calls) (hlater rest _)

/-- A call is one turn. -/
theorem completes_call (order : TraverseOrder) {path : Path} (hget : (tree.node.get? path).isSome) :
    Completes order tree [.call path] := by
  intro rest calls
  obtain ⟨⟨data, overwrite⟩, hget⟩ := Option.isSome_iff_exists.mp hget
  refine Party.alone_single ?_
  simp [traverseParty, traverseStep, made, hget]

/-- A test is one turn, and another where the node is called on. -/
theorem completes_test (order : TraverseOrder) {path : Path} (hget : (tree.node.get? path).isSome) :
    Completes order tree [.test path] := by
  intro rest calls
  have hcall := completes_call order hget rest calls
  obtain ⟨⟨data, overwrite⟩, hget⟩ := Option.isSome_iff_exists.mp hget
  cases overwrite with
  | true =>
      refine Party.alone_single ?_
      simp [traverseParty, traverseStep, made, Node.callAt, hget]
  | false =>
      have hmade : tree.made order (.test path) = tree.made order (.call path) := by
        simp [made, Node.callAt, hget]
      rw [List.flatMap_singleton, hmade, ← List.flatMap_singleton (tree.made order)]
      refine Party.Alone.trans (Party.alone_single ?_) hcall
      simp [traverseParty, traverseStep, hget]

/-- A call on a pointer makes the calls of the nodes that the pointer reaches. -/
theorem completes_descend (order : TraverseOrder) (tree : BinarySearchTree δ) (path : Path) :
    Completes order tree [.descend path] := by
  obtain ⟨node, hnode⟩ : ∃ node, tree.node.follow path = node := ⟨_, rfl⟩
  induction node generalizing path with
  | nullptr =>
      intro rest calls
      have hnull : tree.node.get? path = none := by
        rw [← List.append_nil path, Node.get?_append, hnode, Node.get?_nullptr]
      have hmade : [Task.descend path].flatMap (tree.made order) = [] := by
        simp [made, hnode, Node.reached]
      rw [hmade, List.append_nil]
      exact Party.alone_single (by simp [traverseParty, traverseStep, hnull])
  | node data overwrite left right ihleft ihright =>
      obtain ⟨hleft, hright⟩ := Node.follow_snoc hnode
      have hlinked : (tree.node.get? path).isSome := by
        rw [← List.append_nil path, Node.get?_append, hnode]
        rfl
      have hbody : Completes order tree (order.body path) := by
        have htest := completes_test order hlinked
        cases order with
        | IN => exact (ihleft _ hleft).append (htest.append (ihright _ hright))
        | PRE => exact htest.append ((ihleft _ hleft).append (ihright _ hright))
        | POST => exact (ihleft _ hleft).append ((ihright _ hright).append htest)
      have hmade : [Task.descend path].flatMap (tree.made order) =
          (order.body path).flatMap (tree.made order) := by
        cases order <;> cases hcall : tree.node.callAt path <;>
          simp [made, TraverseOrder.body, hnode, hleft, hright, Node.reached, Function.comp_def,
            hcall]
      intro rest calls
      rw [hmade]
      refine Party.Alone.trans (Party.alone_single ?_) (hbody rest calls)
      simp [traverseParty, traverseStep, hlinked]

/-- A traversal comes to its end when it is left alone, where the nodes that it has to read are
there. -/
theorem Reaches.completes (order : TraverseOrder) {todo : List Task} {calls : List (Path × δ)}
    (h : tree.Reaches ⟨todo, calls⟩) : Completes order tree todo := by
  induction todo with
  | nil => exact .nil
  | cons task todo ih =>
      obtain ⟨htask, hrest⟩ := List.forall_mem_cons.mp h
      have hlater : Completes order tree todo := ih hrest
      cases task with
      | descend path => exact (completes_descend order tree path).append hlater
      | test path => exact (completes_test order (htask path rfl)).append hlater
      | call path => exact (completes_call order (htask path rfl)).append hlater

/-- A pass without others makes the calls of `traverse`. -/
theorem alone_traverse {σ : Type w} (order : TraverseOrder) (tree : BinarySearchTree δ)
    (f : Callback σ δ) (memory : σ) :
    ∃ events, Run (traverseParty order).step (tree, .start) events
      (tree, ⟨[], (tree.traverse f order memory).calls⟩) ∧ Party.Alone events := by
  have hmade : [Task.descend []].flatMap (tree.made order) =
      (tree.node.reached order).filterMap tree.node.callAt := by
    have hroot : tree.node.follow [] = tree.node := by cases tree.node <;> rfl
    simp [made, hroot]
  have hrun := completes_descend order tree [] [] []
  rwa [hmade, List.nil_append, ← calls_traverse tree f order memory] at hrun

/-! ## Passes -/

/-- What a pass does among the writes of others. It calls on no node twice, and where it calls on
one, the datum is what the node holds then, and a read of its own has found the node live before;
if no flag is set between that read and the call, then the node is live when it is called on. Where
it has come to its end, it has called on every node that was live all the time; and it comes to its
end when it is left alone. -/
structure TraversedOnce (order : TraverseOrder) (tree : BinarySearchTree δ)
    (events : List (Event (BinarySearchTree δ × Traversing δ) (Turn (NodeWrite δ))))
    (finish : BinarySearchTree δ × Traversing δ) : Prop where
  nodup : (finish.2.calls.map Prod.fst).Nodup
  tested : ∀ earlier event later, events = earlier ++ event :: later →
    ∀ call ∈ event.after.2.calls, call ∈ event.before.2.calls ∨
      (∃ overwrite, event.before.1.node.get? call.1 = some (call.2, overwrite)) ∧
        ∃ read ∈ earlier, read.action = .own ∧
          ∃ data, read.before.1.node.get? call.1 = some (data, false)
  live : (∀ event ∈ events, Party.Relied SparesCalled event) →
    ∀ event ∈ events, ∀ call ∈ event.after.2.calls, call ∈ event.before.2.calls ∨
      event.before.1.node.get? call.1 = some (call.2, false)
  once : finish.2.todo = [] → ∀ path, (tree.node.callAt path).isSome →
    (∀ event ∈ events, (event.after.1.node.callAt path).isSome) →
    path ∈ finish.2.calls.map Prod.fst
  ends : ∃ rest finish', Run (traverseParty order).step finish rest finish' ∧ Party.Alone rest ∧
    finish'.2.todo = []

variable {events : List (Event (BinarySearchTree δ × Traversing δ) (Turn (NodeWrite δ)))}
  {finish : BinarySearchTree δ × Traversing δ}

/-- A node that is live all the time, from a state on in which it has come up, comes up to the
end. -/
theorem count_run (hrun : Run (traverseParty order).step (tree, .start) events finish)
    (path : Path) :
    finish.2.count path ≤ 1 ∧ ((tree.node.callAt path).isSome →
      (∀ event ∈ events, (event.after.1.node.callAt path).isSome) → finish.2.count path = 1) := by
  induction hrun with
  | refl => exact ⟨(Traversing.count_start path).le, fun _ _ => Traversing.count_start path⟩
  | @snoc events before after action hrun hstep ih =>
      obtain ⟨hle, heq⟩ := ih
      rw [List.forall_mem_append, List.forall_mem_singleton]
      cases action with
      | own =>
          obtain ⟨hafter, hturn⟩ := traverseStep_turn hstep
          obtain ⟨hless, hsame⟩ := count_traverseTurn hturn path
          refine ⟨hless.trans hle, fun hstart hlive => ?_⟩
          rw [hsame (hafter ▸ hlive.2)]
          exact heq hstart hlive.1
      | other write =>
          obtain ⟨shared, _, rfl⟩ := Option.map_eq_some_iff.mp hstep
          exact ⟨hle, fun hstart hlive => heq hstart hlive.1⟩

/-- Where a call is to be made next, a read of the pass has found the node live. -/
theorem tested_run (hrun : Run (traverseParty order).step (tree, .start) events finish)
    {path : Path} (hpath : .call path ∈ finish.2.todo) :
    ∃ read ∈ events, read.action = .own ∧
      ∃ data, read.before.1.node.get? path = some (data, false) := by
  induction hrun with
  | refl => simp [Traversing.start] at hpath
  | @snoc events before after action hrun hstep ih =>
      have hold (h : .call path ∈ before.2.todo) : ∃ read ∈ events ++ [⟨before, action, after⟩],
          read.action = .own ∧ ∃ data, read.before.1.node.get? path = some (data, false) := by
        obtain ⟨read, hmem, hread⟩ := ih h
        exact ⟨read, List.mem_append_left _ hmem, hread⟩
      cases action with
      | own =>
          rcases (traverseStep_turn hstep).2.of_todo hpath with h | hlive
          · exact hold h
          · exact ⟨_, List.mem_append_right _ List.mem_cons_self, rfl, hlive⟩
      | other write =>
          obtain ⟨shared, _, rfl⟩ := Option.map_eq_some_iff.mp hstep
          exact hold hpath

/-- What is called in a transition was to be called, and the node is called on as it is. -/
theorem of_new_call {event : Event (BinarySearchTree δ × Traversing δ) (Turn (NodeWrite δ))}
    (hstep : (traverseParty order).step event.before event.action = some event.after)
    {call : Path × δ} (hcall : call ∈ event.after.2.calls) : call ∈ event.before.2.calls ∨
      .call call.1 ∈ event.before.2.todo ∧
        ∃ overwrite, event.before.1.node.get? call.1 = some (call.2, overwrite) := by
  obtain ⟨before, action, after⟩ := event
  cases action with
  | own => exact (traverseStep_turn hstep).2.of_call hcall
  | other write =>
      obtain ⟨shared, _, hafter⟩ := Option.map_eq_some_iff.mp hstep
      obtain rfl : (shared, before.2) = after := hafter
      exact .inl hcall

/-- A pass of a traversal, whatever is written to the tree while it is under way. -/
theorem traverse_among_writes {order : TraverseOrder} {tree : BinarySearchTree δ}
    {events : List (Event (BinarySearchTree δ × Traversing δ) (Turn (NodeWrite δ)))}
    {finish : BinarySearchTree δ × Traversing δ}
    (hrun : Run (traverseParty order).step (tree, .start) events finish) :
    TraversedOnce order tree events finish where
  nodup := List.nodup_iff_count_le_one.mpr fun path =>
    (finish.2.countP_calls_le path).trans (count_run hrun path).1
  tested := by
    intro earlier event later hevents call hcall
    have hmem : event ∈ events := hevents ▸ List.mem_append_right _ List.mem_cons_self
    refine (of_new_call (hrun.step_eq hmem) hcall).imp_right fun ⟨htodo, hget⟩ => ⟨hget, ?_⟩
    exact tested_run (hrun.before_event hevents) htodo
  live := by
    intro hspares event hevent call hcall
    have hlive : event.before.1.CalledLive event.before.2 := by
      refine ((Party.rely CalledLive SparesCalled hrun (by simp [CalledLive, Traversing.start])
        hspares (fun _ _ _ _ hstep h => ?_) fun _ _ _ _ hstep h' h => h.write hstep h').2 event
        hevent).1
      obtain ⟨rfl, hturn⟩ := traverseStep_turn hstep
      exact h.turn hturn
    refine (of_new_call (hrun.step_eq hevent) hcall).imp_right fun ⟨htodo, overwrite, hget⟩ => ?_
    obtain ⟨data, hfalse⟩ := hlive call.1 htodo
    obtain ⟨rfl, -⟩ := Prod.mk.inj (Option.some.inj (hfalse.symm.trans hget))
    exact hfalse
  once := by
    intro htodo path hstart hlive
    have hcount := (count_run hrun path).2 hstart hlive
    rw [Traversing.count, htodo, List.countP_nil, Nat.add_zero] at hcount
    obtain ⟨call, hmem, hpath⟩ := List.countP_pos_iff.mp (hcount ▸ Nat.one_pos)
    exact List.mem_map.mpr ⟨call, hmem, beq_iff_eq.mp hpath⟩
  ends := by
    have hreaches : finish.1.Reaches finish.2 := by
      refine (Party.rely Reaches (fun _ _ _ => True) hrun
        (by simp [Reaches, Traversing.start, Task.node?]) (fun event _ => Party.relied_true event)
        (fun _ _ _ _ hstep h => ?_) fun _ _ _ _ hstep _ h => h.write hstep).1
      obtain ⟨rfl, hturn⟩ := traverseStep_turn hstep
      exact h.turn hturn
    obtain ⟨rest, hrest, halone⟩ := hreaches.completes order [] finish.2.calls
    rw [List.append_nil] at hrest
    exact ⟨rest, _, hrest, halone, rfl⟩

/-- While 9 is called on, 7 above it has been called on and flagged, and 8 is put in its place: a
pass that calls on 9 and on no one twice. -/
theorem traverse_among_writes_taken : ∃ events finish,
    Run (traverseParty .PRE).step
      (⟨.node ⟨7⟩ false .nullptr (.new (⟨9⟩ : DataX)), []⟩, .start) events finish ∧
    finish.2.calls.map Prod.snd = [⟨7⟩, ⟨9⟩] ∧
    TraversedOnce .PRE ⟨.node ⟨7⟩ false .nullptr (.new ⟨9⟩), []⟩ events finish ∧
    ∀ event ∈ events, Party.Relied SparesCalled event := by
  have hrun : Run (traverseParty .PRE).step
      (⟨.node ⟨7⟩ false .nullptr (.new (⟨9⟩ : DataX)), []⟩, .start)
      ([] ++ [⟨_, .own, _⟩] ++ [⟨_, .own, _⟩] ++ [⟨_, .own, _⟩] ++
        [⟨_, .other (.flag [] true), _⟩] ++ [⟨_, .other (.assign [] ⟨8⟩), _⟩] ++
        [⟨_, .own, _⟩] ++ [⟨_, .other (.flag [] false), _⟩] ++ [⟨_, .own, _⟩] ++
        [⟨_, .own, _⟩] ++ [⟨_, .other (.link [.left] ⟨3⟩), _⟩] ++ [⟨_, .own, _⟩]) _ :=
    .snoc (.snoc (.snoc (.snoc (.snoc (.snoc (.snoc (.snoc (.snoc (.snoc (.snoc .refl rfl) rfl) rfl)
      rfl) rfl) rfl) rfl) rfl) rfl) rfl) rfl
  exact ⟨_, _, hrun, rfl, traverse_among_writes hrun, by decide⟩

/-- Where a node is flagged between the test of it and the call, it is called on all the same. -/
theorem traverse_flagged : ∃ events finish,
    Run (traverseParty .PRE).step (⟨.new (⟨7⟩ : DataX), []⟩, .start) events finish ∧
    finish.1.node.get? [] = some (⟨7⟩, true) ∧ ([], ⟨7⟩) ∈ finish.2.calls := by
  have hrun : Run (traverseParty .PRE).step (⟨.new (⟨7⟩ : DataX), []⟩, .start)
      ([] ++ [⟨_, .own, _⟩] ++ [⟨_, .own, _⟩] ++ [⟨_, .other (.flag [] true), _⟩] ++
        [⟨_, .own, _⟩]) _ :=
    .snoc (.snoc (.snoc (.snoc .refl rfl) rfl) rfl) rfl
  exact ⟨_, _, hrun, rfl, by decide⟩

end BinarySearchTree

end Wheespa
