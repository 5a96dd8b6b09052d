import Wheespa.BinaryTree.Store
import Wheespa.Library.Transition
import Wheespa.WheespaTree

/-!
# The server's tree in memory

`TreeStore` is the store of nodes together with the server's `WheespaServerTree`, which is the
address of a root. The implicit copy of a tree copies that address and its destructor deletes the
node at that address. The steps are the handlers' `insert` and `remove`, the mark the service loop
leaves on a disconnect, and the messages INTERNAL and LIST_ONLINE.

`handleListOnline` works on a local copy of the tree, and the copy's destructor deletes the root
that the server's tree still points to. `wellFormed_iff_spared` is the main result: the tree is
well formed in every state of a run exactly when no LIST_ONLINE message of a registered user is
handled in it.
-/

namespace Wheespa

open Transition

/-- A `WheespaServerTree` object: its `m_node` and its `m_data_array`. -/
structure StoredTree where
  node : Option Address
  dataArray : List WheespaConnected

/-- The destructor of a tree that is local to a function: `delete m_node`. -/
def Store.destroy (cells : Store WheespaConnected) (tree : StoredTree) : Store WheespaConnected :=
  match tree.node with
  | none => cells
  | some address => Function.update cells address none

/-- The nodes in memory and the server's tree. The number of nodes allocated so far bounds the
walks. -/
structure TreeStore where
  cells : Store WheespaConnected
  tree : StoredTree
  allocated : Nat

namespace TreeStore

/-- Nothing is allocated and the server's tree is empty. -/
def start : TreeStore :=
  ⟨fun _ => none, ⟨none, []⟩, 0⟩

/-- `find(key)` on the server's tree. -/
def find (memory : TreeStore) (k : Str) : Option (Option Address) :=
  memory.cells.find memory.allocated memory.tree.node k

/-- `insert(data)` on the server's tree, `new` having returned the address `tmp`. -/
def insert (memory : TreeStore) (data : WheespaConnected) (tmp : Address) : Option TreeStore :=
  let cells : Store WheespaConnected :=
    Function.update memory.cells tmp (some ⟨data, false, none, none, none⟩)
  let allocated := memory.allocated + 1
  match memory.tree.node with
  | none => some ⟨cells, { memory.tree with node := some tmp }, allocated⟩
  | some root =>
      (cells.insertLoop tmp data allocated (some root)).map fun cells =>
        ⟨cells, memory.tree, allocated⟩

/-- The assignment `node->overwrite = true`. -/
def markOverwrite (memory : TreeStore) (address : Address) : TreeStore :=
  { memory with cells := memory.cells.modify address fun node => { node with overwrite := true } }

/-- `remove(in)` on the server's tree. -/
def remove (memory : TreeStore) (k : Str) : Option TreeStore := do
  let ret ← memory.find k
  match ret with
  | none => some memory
  | some address => some (memory.markOverwrite address)

/-- What `handleInternal` does to memory for the user at `user`: it looks the recipient up. -/
def handleInternal (memory : TreeStore) (user : Address) (recipient : Str) : Option TreeStore := do
  let cell ← memory.cells user
  let _found ← memory.find (if cell.data.registered then recipient else cell.data.connectTo)
  some memory

/-- What `handleListOnline` does to memory for the user at `user`: a registered user gets the list
read off a copy of the tree, which is destroyed on return. -/
def handleListOnline (memory : TreeStore) (user : Address) : Option TreeStore := do
  let cell ← memory.cells user
  if !cell.data.registered then some memory
  else
    let inTree := memory.tree
    let array ← memory.cells.setDataArray memory.allocated inTree.node inTree.dataArray
    let inTree := { inTree with dataArray := array }
    some { memory with cells := memory.cells.destroy inTree }

/-- The operations on the server's tree. A user is named by the path to the user's node. -/
inductive Action where
  | insert (data : WheespaConnected) (tmp : Address)
  | remove (k : Str)
  | mark (path : Path)
  | internal (path : Path) (recipient : Str)
  | listOnline (path : Path)
  deriving DecidableEq, Repr

/-- The node that a path leads to. -/
def nodeAt (memory : TreeStore) (path : Path) : Option Address :=
  memory.cells.follow memory.tree.node path

/-- One step. An insertion is made only when `find` has returned a null pointer, into an address
that is not in use, and only a live node is marked. -/
def step (memory : TreeStore) : Action → Option TreeStore
  | .insert data tmp => do
      let found ← memory.find data.key
      if found.isNone ∧ (memory.cells tmp).isNone then memory.insert data tmp else none
  | .remove k => memory.remove k
  | .mark path => do
      let address ← memory.nodeAt path
      let cell ← memory.cells address
      if !cell.overwrite then some (memory.markOverwrite address) else none
  | .internal path recipient => do
      let user ← memory.nodeAt path
      memory.handleInternal user recipient
  | .listOnline path => do
      let user ← memory.nodeAt path
      memory.handleListOnline user

/-- The server's tree is well formed in its store. -/
structure WellFormed (memory : TreeStore) : Prop where
  allocated : ∀ path address, memory.nodeAt path = some address →
    (memory.cells address).isSome
  parent : ∀ path above cell side below, memory.nodeAt path = some above →
    memory.cells above = some cell → cell.child side = some below →
    ∃ cell', memory.cells below = some cell' ∧ cell'.parent = some above
  once : ∀ path other address, memory.nodeAt path = some address →
    memory.nodeAt other = some address → path = other

/-- The message is not a LIST_ONLINE of a registered user. -/
def Spared (memory : TreeStore) : Action → Prop
  | .listOnline path => ∀ user cell, memory.nodeAt path = some user →
      memory.cells user = some cell → cell.data.registered = false
  | .insert .. | .remove _ | .mark _ | .internal .. => True

/-! ## The tree that the store holds -/

/-- The server's tree is the labelled tree, which nothing else in the store links into. -/
structure Holds (memory : TreeStore) (tree : Node (Address × WheespaConnected)) : Prop where
  root : memory.tree.node = tree.pointer
  represents : tree.Represents memory.cells none
  nodup : tree.addresses.Nodup
  length_le : tree.addresses.length ≤ memory.allocated

/-- Following links in memory is following them in the labelled tree. -/
theorem Holds.nodeAt {memory : TreeStore} {tree : Node (Address × WheespaConnected)}
    (h : memory.Holds tree) (path : Path) :
    memory.nodeAt path = (tree.get? path).map fun entry => entry.1.1 := by
  rw [TreeStore.nodeAt, h.root, Node.follow_represents h.represents]

/-- The node of the labelled tree that a path leads to. -/
theorem Holds.get?_of_nodeAt {memory : TreeStore} {tree : Node (Address × WheespaConnected)}
    (h : memory.Holds tree) {path : Path} {address : Address}
    (hpath : memory.nodeAt path = some address) :
    ∃ data overwrite, tree.get? path = some ((address, data), overwrite) := by
  rw [h.nodeAt, Option.map_eq_some_iff] at hpath
  obtain ⟨⟨⟨_, data⟩, overwrite⟩, hget, rfl⟩ := hpath
  exact ⟨data, overwrite, hget⟩

/-- `find` completes, and returns the node that `find` returns on the tree. -/
theorem Holds.find {memory : TreeStore} {tree : Node (Address × WheespaConnected)}
    (h : memory.Holds tree) (k : Str) :
    memory.find k =
      some ((tree.erase.find k).bind fun path => (tree.get? path).map fun entry => entry.1.1) := by
  rw [TreeStore.find, h.root, Node.find_represents h.represents h.length_le]

/-- `find` returns a null pointer just when it does so on the tree. -/
theorem Holds.find_eq_none {memory : TreeStore} {tree : Node (Address × WheespaConnected)}
    (h : memory.Holds tree) {k : Str} {found : Option Address} (hfound : memory.find k = some found)
    (hnone : found.isNone = true) : tree.erase.find k = none := by
  obtain rfl := Option.some.inj ((h.find k).symm.trans hfound)
  cases hpath : tree.erase.find k with
  | none => rfl
  | some path =>
      obtain ⟨data, hdata, _⟩ := Node.get?_of_find hpath
      rw [Node.get?_erase] at hdata
      obtain ⟨entry, hentry, _⟩ := Option.map_eq_some_iff.mp hdata
      simp [hpath, hentry] at hnone

/-- A tree that a store holds is well formed in it. -/
theorem Holds.wellFormed {memory : TreeStore} {tree : Node (Address × WheespaConnected)}
    (h : memory.Holds tree) : memory.WellFormed where
  allocated path address hpath := by
    obtain ⟨data, overwrite, hget⟩ := h.get?_of_nodeAt hpath
    obtain ⟨cell, hcell, _⟩ := Node.cell_of_get? h.represents hget
    simp [hcell]
  parent path above cell side below hpath hcell hchild := by
    rw [TreeStore.nodeAt, h.root] at hpath
    exact Node.parent_of_child h.represents hpath hcell hchild
  once path other address hpath hother := by
    obtain ⟨data, overwrite, hget⟩ := h.get?_of_nodeAt hpath
    obtain ⟨data', overwrite', hget'⟩ := h.get?_of_nodeAt hother
    have hnodup := h.nodup
    rw [Node.addresses_eq] at hnodup
    exact Node.path_unique hnodup hget hget' rfl rfl

/-- A checked insertion completes, and leaves the tree that it leaves on the labelled tree. -/
theorem Holds.insert {memory : TreeStore} {tree : Node (Address × WheespaConnected)}
    (h : memory.Holds tree) {data : WheespaConnected} {tmp : Address}
    (hfind : tree.erase.find data.key = none) (hfresh : memory.cells tmp = none) :
    ∃ after, memory.insert data tmp = some after ∧ after.Holds (tree.placeStored tmp data) := by
  have htmp : tmp ∉ tree.addresses := by
    intro hmem
    simpa [hfresh] using h.represents.isSome hmem
  have hrep : tree.Represents
      (Function.update memory.cells tmp (some ⟨data, false, none, none, none⟩)) none :=
    h.represents.frame fun address hmem =>
      Function.update_of_ne (ne_of_mem_of_not_mem hmem htmp) _ _
  have hlength := h.length_le
  cases hnull : tree.isNull with
  | true =>
      obtain rfl := Node.isNull_iff.mp hnull
      have hroot : memory.tree.node = none := h.root
      refine ⟨_, by simp [TreeStore.insert, hroot]; rfl, rfl, ?_, ?_, ?_⟩
      · exact ⟨by simp, trivial, trivial⟩
      · simp [Node.placeStored, Node.new, Node.addresses]
      · simp [Node.placeStored, Node.new, Node.addresses]
  | false =>
      obtain ⟨root, hroot⟩ : ∃ root, tree.pointer = some root := by
        rw [← Option.isSome_iff_exists, ← Option.not_isNone, Node.isNone_pointer, hnull]
        rfl
      obtain ⟨cells, hloop, hplaced, -⟩ := Node.insertLoop_represents hrep h.nodup htmp
        (Function.update_self ..) hnull hfind (Nat.le_succ_of_le hlength)
      rw [hroot] at hloop
      refine ⟨⟨cells, memory.tree, memory.allocated + 1⟩, ?_, ?_, hplaced, ?_, ?_⟩
      · simp [TreeStore.insert, h.root, hroot, hloop]
      · rw [Node.pointer_placeStored tmp data hnull, h.root]
      · rcases Node.addresses_placeStored tmp data tree with heq | hperm
        · exact heq ▸ h.nodup
        · exact hperm.nodup_iff.mpr (List.nodup_cons.mpr ⟨htmp, h.nodup⟩)
      · rcases Node.addresses_placeStored tmp data tree with heq | hperm
        · exact heq ▸ Nat.le_succ_of_le hlength
        · simpa [hperm.length_eq] using hlength

/-- Marking a node of the store marks it in the labelled tree. -/
theorem Holds.mark {memory : TreeStore} {tree : Node (Address × WheespaConnected)}
    (h : memory.Holds tree) {path : Path} {address : Address} {data : WheespaConnected}
    {overwrite : Bool} (hget : tree.get? path = some ((address, data), overwrite)) :
    (memory.markOverwrite address).Holds (tree.setOverwrite path) := by
  obtain ⟨hrep, hpointer⟩ := Node.represents_mark h.represents h.nodup hget
  have haddresses := Node.addresses_setOverwrite tree path
  exact ⟨h.root.trans hpointer.symm, hrep, haddresses ▸ h.nodup, haddresses ▸ h.length_le⟩

/-! ## Runs -/

/-- The same operation on the tree without addresses. -/
def Action.apply (tree : WheespaServerTree) : Action → Option WheespaServerTree
  | .insert data _ => if (tree.find data.key).isNone then tree.insert data else none
  | .remove k => some (tree.remove k).2
  | .mark path =>
      match tree.node.get? path with
      | some (_, false) => some (tree.markOverwrite path)
      | _ => none
  | .internal .. | .listOnline _ => some tree

/-- A LIST_ONLINE message of a user that is not registered changes nothing. -/
theorem listOnline_of_spared {memory after : TreeStore} {path : Path}
    (hstep : memory.step (.listOnline path) = some after)
    (hspared : memory.Spared (.listOnline path)) :
    after = memory := by
  obtain ⟨user, huser, hstep⟩ := Option.bind_eq_some_iff.mp hstep
  obtain ⟨cell, hcell, hstep⟩ := Option.bind_eq_some_iff.mp hstep
  simpa [hspared user cell huser hcell, eq_comm] using hstep

/-- A spared step of the store is the same operation on the tree it holds. -/
theorem Holds.step {memory after : TreeStore} {tree : Node (Address × WheespaConnected)}
    (h : memory.Holds tree) {action : Action} (hstep : memory.step action = some after)
    (hspared : memory.Spared action) :
    ∃ tree', after.Holds tree' ∧ action.apply ⟨tree.erase, []⟩ = some ⟨tree'.erase, []⟩ := by
  cases action with
  | insert data tmp =>
      obtain ⟨found, hfound, hstep⟩ := Option.bind_eq_some_iff.mp hstep
      obtain ⟨⟨hnone, hfresh⟩, hinsert⟩ := Option.ite_none_right_eq_some.mp hstep
      have hfind := h.find_eq_none hfound hnone
      -- `find` has returned a null pointer, so that the insertion is an insertion of the tree
      obtain ⟨after', hafter, hholds⟩ := h.insert hfind (Option.isNone_iff_eq_none.mp hfresh)
      obtain rfl := Option.some.inj (hafter.symm.trans hinsert)
      refine ⟨_, hholds, ?_⟩
      rw [Node.erase_placeStored]
      simpa [Action.apply, BinarySearchTree.find, hfind] using
        @BinarySearchTree.insert_of_find _ _ _ _ ⟨tree.erase, []⟩ data hfind
  | remove k =>
      obtain ⟨ret, hret, hstep⟩ := Option.bind_eq_some_iff.mp hstep
      obtain rfl := Option.some.inj ((h.find k).symm.trans hret)
      cases hfind : tree.erase.find k with
      | none =>
          obtain rfl : memory = after := by simpa [hfind] using hstep
          exact ⟨tree, h, by
            simp [Action.apply, BinarySearchTree.remove, BinarySearchTree.find, hfind]⟩
      | some path =>
          obtain ⟨data, hdata, _⟩ := Node.get?_of_find hfind
          rw [Node.get?_erase] at hdata
          obtain ⟨⟨⟨address, _⟩, _⟩, hget, _⟩ := Option.map_eq_some_iff.mp hdata
          obtain rfl : memory.markOverwrite address = after := by
            simpa [hfind, hget] using hstep
          refine ⟨_, h.mark hget, ?_⟩
          simp [Action.apply, BinarySearchTree.remove, BinarySearchTree.find, hfind,
            BinarySearchTree.markOverwrite, Node.erase_setOverwrite]
  | mark path =>
      obtain ⟨address, haddress, hstep⟩ := Option.bind_eq_some_iff.mp hstep
      obtain ⟨cell, hcell, hstep⟩ := Option.bind_eq_some_iff.mp hstep
      obtain ⟨hlive, hstep⟩ := Option.ite_none_right_eq_some.mp hstep
      obtain rfl := Option.some.inj hstep
      obtain ⟨data, overwrite, hget⟩ := h.get?_of_nodeAt haddress
      obtain ⟨cell', hcell', -, rfl⟩ := Node.cell_of_get? h.represents hget
      obtain rfl := Option.some.inj (hcell.symm.trans hcell')
      have hdata : tree.erase.get? path = some (data, false) := by
        simpa [Node.get?_erase, hget] using hlive
      refine ⟨_, h.mark hget, ?_⟩
      simp [Action.apply, hdata, BinarySearchTree.markOverwrite, Node.erase_setOverwrite]
  -- the recipient is only looked up
  | internal path recipient =>
      obtain ⟨user, _, hstep⟩ := Option.bind_eq_some_iff.mp hstep
      obtain ⟨cell, _, hstep⟩ := Option.bind_eq_some_iff.mp hstep
      obtain ⟨found, _, hstep⟩ := Option.bind_eq_some_iff.mp hstep
      obtain rfl := Option.some.inj hstep
      exact ⟨tree, h, rfl⟩
  | listOnline path =>
      obtain rfl := listOnline_of_spared hstep hspared
      exact ⟨tree, h, rfl⟩

/-- The destructor of the copy that LIST_ONLINE makes for a registered user leaves the server's
tree with a root that is not allocated. -/
theorem Holds.spared_of_wellFormed {memory after : TreeStore}
    {tree : Node (Address × WheespaConnected)} (h : memory.Holds tree) {action : Action}
    (hstep : memory.step action = some after) (hafter : after.WellFormed) :
    memory.Spared action := by
  cases action with
  | insert | remove | mark | internal => trivial
  | listOnline path =>
      intro user cell huser hcell
      by_contra hregistered
      obtain ⟨user', huser', hstep⟩ := Option.bind_eq_some_iff.mp hstep
      obtain rfl := Option.some.inj (huser.symm.trans huser')
      obtain ⟨cell', hcell', hstep⟩ := Option.bind_eq_some_iff.mp hstep
      obtain rfl := Option.some.inj (hcell.symm.trans hcell')
      have hcopy := Node.setDataArray_represents h.represents h.length_le memory.tree.dataArray
      rw [← h.root] at hcopy
      obtain rfl : { memory with cells := memory.cells.destroy memory.tree } = after := by
        simpa [hregistered, hcopy, Store.destroy] using hstep
      cases hroot : memory.tree.node with
      | none => cases path <;> simp [TreeStore.nodeAt, hroot, Store.follow] at huser
      | some root =>
          have hdangling :=
            hafter.allocated [] root (by simp [TreeStore.nodeAt, hroot, Store.follow])
          simp [Store.destroy, hroot] at hdangling

/-- The server's tree stays well formed in its store, and LIST_ONLINE leaves it as it was, exactly
in the runs in which no LIST_ONLINE message of a registered user is handled. -/
theorem wellFormed_iff_spared {events : List (Event TreeStore Action)} {finish : TreeStore}
    (hrun : Run step start events finish) :
    (∀ event ∈ events, event.after.WellFormed ∧
      ∀ path, event.action = .listOnline path → event.after = event.before) ↔
      ∀ event ∈ events, event.before.Spared event.action := by
  have hiff : (∀ event ∈ events, event.after.WellFormed) ↔
      ∀ event ∈ events, event.before.Spared event.action := by
    apply hrun.goal_iff (fun memory => ∃ tree, memory.Holds tree)
    · exact ⟨.nullptr, rfl, trivial, List.nodup_nil, le_rfl⟩
    · rintro before action after hstep ⟨tree, h⟩
      refine ⟨h.spared_of_wellFormed hstep, fun hspared => ?_⟩
      obtain ⟨tree', h', -⟩ := h.step hstep hspared
      exact h'.wellFormed
    · rintro before action after hstep ⟨tree, h⟩ hafter
      obtain ⟨tree', h', -⟩ := h.step hstep (h.spared_of_wellFormed hstep hafter)
      exact ⟨tree', h'⟩
  refine ⟨fun hall => hiff.mp fun event hevent => (hall event hevent).1, fun hall event hevent =>
    ⟨hiff.mpr hall event hevent, fun path haction => ?_⟩⟩
  have hstep := hrun.step_eq hevent
  have hspared := hall event hevent
  rw [haction] at hstep hspared
  exact listOnline_of_spared hstep hspared

/-- The list that a user who is not registered asks for, after a message and a disconnect. -/
theorem wellFormed_unregistered_list : ∃ events finish, Run step start events finish ∧
    events.map Event.action =
      [.insert ⟨"bob".toList, some 1, false, true, []⟩ 0,
        .insert ⟨"ann".toList, some 2, false, false, "bob".toList⟩ 1, .internal [.left] [],
        .listOnline [.left], .mark []] ∧
    ∀ event ∈ events, event.after.WellFormed ∧
      ∀ path, event.action = .listOnline path → event.after = event.before := by
  have hrun : Run step start
      (((([] ++ [⟨_, .insert ⟨"bob".toList, some 1, false, true, []⟩ 0, _⟩]) ++
        [⟨_, .insert ⟨"ann".toList, some 2, false, false, "bob".toList⟩ 1, _⟩]) ++
        [⟨_, .internal [.left] [], _⟩]) ++ [⟨_, .listOnline [.left], _⟩] ++ [⟨_, .mark [], _⟩]) _ :=
    .snoc (.snoc (.snoc (.snoc (.snoc .refl rfl) rfl) rfl) rfl) rfl
  refine ⟨_, _, hrun, rfl, (wellFormed_iff_spared hrun).mpr ?_⟩
  simp only [List.nil_append, List.cons_append, List.forall_mem_cons, List.not_mem_nil,
    IsEmpty.forall_iff, implies_true, and_true]
  refine ⟨trivial, trivial, trivial, fun user cell huser hcell => ?_, trivial⟩
  obtain rfl : 1 = user := Option.some.inj huser
  obtain rfl := Option.some.inj hcell
  rfl

/-- A registered user alone on the server asks for the list: the root is freed, and the server's
tree still points to it. -/
theorem listOnline_frees_root :
    ∃ finish, [Action.insert ⟨"bob".toList, some 1, false, true, []⟩ 0,
        .listOnline []].foldlM step start = some finish ∧
      finish.nodeAt [] = some 0 ∧ finish.cells 0 = none ∧ ¬ finish.WellFormed := by
  refine ⟨_, rfl, rfl, rfl, fun h => ?_⟩
  exact Bool.false_ne_true (h.allocated [] 0 rfl)

end TreeStore

end Wheespa
