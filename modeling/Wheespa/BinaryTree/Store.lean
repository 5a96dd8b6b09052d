import Mathlib.Logic.Function.Basic
import Wheespa.BinaryTree.Live

/-!
# The tree as linked nodes in a store

The same operations as in `Basic.lean`, on nodes that are cells of a store and link to each other by
address, with the parent field they have in `binary_tree.hpp`. `Represents store parent tree` says
that the store holds the tree at the addresses the tree is labelled with. `find_represents`,
`insertLoop_represents`, `setDataArray_represents` and `represents_mark` say that the operations on
the store compute what the operations on the tree compute.

A walk is bounded by a number of turns; the theorems show that the number of nodes is enough.
-/

namespace Wheespa

universe v

/-- The address of a node. -/
abbrev Address := Nat

/-- A `Node<Tp>` in memory. -/
structure Cell (δ : Type) where
  data : δ
  overwrite : Bool
  parent : Option Address
  left : Option Address
  right : Option Address
  deriving DecidableEq, Repr

/-- The child link on a side. -/
def Cell.child {δ : Type} (cell : Cell δ) : Side → Option Address
  | .left => cell.left
  | .right => cell.right

/-- The cells that are allocated, by address. -/
abbrev Store (δ : Type) := Address → Option (Cell δ)

namespace Store

variable {δ : Type} {κ : Type v}

/-- An assignment to fields of the node at `address`. -/
def modify (store : Store δ) (address : Address) (f : Cell δ → Cell δ) : Store δ :=
  Function.update store address ((store address).map f)

@[simp] theorem modify_self (store : Store δ) (address : Address) (f : Cell δ → Cell δ) :
    store.modify address f address = (store address).map f := by
  simp [modify]

@[simp] theorem modify_of_ne {address other : Address} (h : other ≠ address) (store : Store δ)
    (f : Cell δ → Cell δ) : store.modify address f other = store other := by
  simp [modify, h]

/-- Assigning to two nodes leaves the others as they were. -/
theorem modify_both_of_ne {tmp address other : Address} (htmp : other ≠ tmp)
    (haddress : other ≠ address) (store : Store δ) (f g : Cell δ → Cell δ) :
    ((store.modify tmp f).modify address g) other = store other := by
  rw [modify_of_ne haddress, modify_of_ne htmp]

/-- The pointer reached from `pointer` by following links, null links and unallocated addresses
leading nowhere. -/
def follow (store : Store δ) : Option Address → Path → Option Address
  | pointer, [] => pointer
  | none, _ :: _ => none
  | some address, side :: path =>
      (store address).bind fun cell => follow store (cell.child side) path

/-- The recursive `setDataArray(node)`, or `none` where it reads an unallocated address or does not
return within the given depth. -/
def setDataArray (store : Store δ) : Nat → Option Address → List δ → Option (List δ)
  | _, none, array => some array
  | 0, some _, _ => none
  | depth + 1, some address, array => do
      let cell ← store address
      let array ← setDataArray store depth cell.left array
      let array := if !cell.overwrite then array ++ [cell.data] else array
      setDataArray store depth cell.right array

variable [LinearOrder κ] [Keyed δ κ]

/-- The recursive `find(node, key)`, or `none` where it reads an unallocated address or does not
return within the given depth. -/
def find (store : Store δ) : Nat → Option Address → κ → Option (Option Address)
  | _, none, _ => some none
  | 0, some _, _ => none
  | depth + 1, some address, k => do
      let cell ← store address
      if key cell.data > k then find store depth cell.left k
      else if key cell.data < k then find store depth cell.right k
      else some (if !cell.overwrite then some address else none)

/-- The loop of `insert` with `tmp_node` at address `tmp`, entered with the given `node_ptr`, or
`none` where it reads through a null pointer or an unallocated address or does not end within the
given number of turns. -/
def insertLoop (store : Store δ) (tmp : Address) (data : δ) :
    Nat → Option Address → Option (Store δ)
  | 0, _ | _, none => none
  | turns + 1, some address => do
      let cell ← store address
      if key cell.data > key data ∧ cell.left.isNone ∧ !cell.overwrite then
        let store := store.modify tmp fun node => { node with parent := some address }
        some (store.modify address fun node => { node with left := some tmp })
      else if key cell.data < key data ∧ cell.right.isNone ∧ !cell.overwrite then
        let store := store.modify tmp fun node => { node with parent := some address }
        some (store.modify address fun node => { node with right := some tmp })
      else if cell.overwrite then
        -- `tmp_node` gets a parent and is linked nowhere
        let store := store.modify tmp fun node => { node with parent := some address }
        some (store.modify address fun node => { node with data := data, overwrite := false })
      else
        insertLoop store tmp data turns
          (if key cell.data ≥ key data then cell.left else cell.right)

/-- The call of `find` on a node. -/
theorem find_succ {store : Store δ} {address : Address} {cell : Cell δ} (depth : Nat)
    (hcell : store address = some cell) (k : κ) :
    store.find (depth + 1) (some address) k =
      if key cell.data > k then store.find depth cell.left k
      else if key cell.data < k then store.find depth cell.right k
      else some (if !cell.overwrite then some address else none) := by
  rw [find, hcell]
  rfl

/-- A turn of the loop of `insert` on a node. -/
theorem insertLoop_succ {store : Store δ} {tmp address : Address} {data : δ} {cell : Cell δ}
    (turns : Nat) (hcell : store address = some cell) :
    store.insertLoop tmp data (turns + 1) (some address) =
      if key cell.data > key data ∧ cell.left.isNone ∧ !cell.overwrite then
        some ((store.modify tmp fun node => { node with parent := some address }).modify address
          fun node => { node with left := some tmp })
      else if key cell.data < key data ∧ cell.right.isNone ∧ !cell.overwrite then
        some ((store.modify tmp fun node => { node with parent := some address }).modify address
          fun node => { node with right := some tmp })
      else if cell.overwrite then
        some ((store.modify tmp fun node => { node with parent := some address }).modify address
          fun node => { node with data := data, overwrite := false })
      else
        store.insertLoop tmp data turns
          (if key cell.data ≥ key data then cell.left else cell.right) := by
  rw [insertLoop, hcell]
  rfl

end Store

namespace Node

variable {δ : Type} {κ : Type v}

/-- The tree without its addresses. -/
def erase : Node (Address × δ) → Node δ
  | .nullptr => .nullptr
  | .node entry overwrite left right => .node entry.2 overwrite left.erase right.erase

/-- The pointer to a labelled tree. -/
def pointer : Node (Address × δ) → Option Address
  | .nullptr => none
  | .node entry _ _ _ => some entry.1

@[simp] theorem pointer_nullptr : (nullptr : Node (Address × δ)).pointer = none := rfl

@[simp] theorem pointer_node (entry : Address × δ) (overwrite : Bool)
    (left right : Node (Address × δ)) :
    (node entry overwrite left right).pointer = some entry.1 := rfl

@[simp] theorem isNone_pointer (tree : Node (Address × δ)) :
    tree.pointer.isNone = tree.isNull := by
  cases tree <;> rfl

/-- The addresses of a labelled tree. -/
def addresses : Node (Address × δ) → List Address
  | .nullptr => []
  | .node entry _ left right => left.addresses ++ entry.1 :: right.addresses

/-- The store holds the labelled tree, and the parent field of its root is `parent`. -/
def Represents (store : Store δ) (parent : Option Address) : Node (Address × δ) → Prop
  | .nullptr => True
  | .node entry overwrite left right =>
      store entry.1 = some ⟨entry.2, overwrite, parent, left.pointer, right.pointer⟩ ∧
        left.Represents store (some entry.1) ∧ right.Represents store (some entry.1)

/-- The addresses of a tree that the store holds are allocated. -/
theorem Represents.isSome {store : Store δ} {parent : Option Address}
    {tree : Node (Address × δ)} (h : tree.Represents store parent) {address : Address}
    (hmem : address ∈ tree.addresses) : (store address).isSome := by
  induction tree generalizing parent with
  | nullptr => simp [addresses] at hmem
  | node entry overwrite left right ihleft ihright =>
      obtain ⟨hcell, hleft, hright⟩ := h
      simp only [addresses, List.mem_append, List.mem_cons] at hmem
      rcases hmem with hmem | rfl | hmem
      · exact ihleft hleft hmem
      · simp [hcell]
      · exact ihright hright hmem

/-- What happens outside a tree's addresses does not concern it. -/
theorem Represents.frame {store store' : Store δ} {parent : Option Address}
    {tree : Node (Address × δ)} (h : tree.Represents store parent)
    (hsame : ∀ address ∈ tree.addresses, store' address = store address) :
    tree.Represents store' parent := by
  induction tree generalizing parent with
  | nullptr => trivial
  | node entry overwrite left right ihleft ihright =>
      obtain ⟨hcell, hleft, hright⟩ := h
      refine ⟨(hsame entry.1 (by simp [addresses])).trans hcell, ihleft hleft ?_,
        ihright hright ?_⟩
      · exact fun address hmem => hsame address (by simp [addresses, hmem])
      · exact fun address hmem => hsame address (by simp [addresses, hmem])

/-- Assigning to a node outside a tree does not concern it. -/
theorem Represents.modify {store : Store δ} {parent : Option Address}
    {tree : Node (Address × δ)} (h : tree.Represents store parent) {address : Address}
    (hmem : address ∉ tree.addresses) (f : Cell δ → Cell δ) :
    tree.Represents (store.modify address f) parent :=
  h.frame fun _ hother => Store.modify_of_ne (ne_of_mem_of_not_mem hother hmem) _ _

/-- The addresses read off the entries. -/
theorem addresses_eq (tree : Node (Address × δ)) :
    tree.addresses = tree.entries.filterMap fun entry => some entry.1.1 := by
  induction tree with
  | nullptr => rfl
  | node entry overwrite left right ihleft ihright => simp [addresses, entries, ihleft, ihright]

/-- The nodes of the tree without addresses are those of the labelled tree. -/
theorem get?_erase (tree : Node (Address × δ)) (path : Path) :
    tree.erase.get? path = (tree.get? path).map fun entry => (entry.1.2, entry.2) := by
  induction tree generalizing path with
  | nullptr => simp [erase]
  | node entry overwrite left right ihleft ihright =>
      match path with
      | [] => simp [erase]
      | .left :: path => simpa [erase] using ihleft path
      | .right :: path => simpa [erase] using ihright path

/-- A labelled tree and its tree without addresses are flagged alike. -/
theorem erase_setOverwrite (tree : Node (Address × δ)) (path : Path) :
    (tree.setOverwrite path).erase = tree.erase.setOverwrite path := by
  induction tree generalizing path with
  | nullptr => rfl
  | node entry overwrite left right ihleft ihright =>
      match path with
      | [] => rfl
      | .left :: path => simp [setOverwrite, erase, ihleft]
      | .right :: path => simp [setOverwrite, erase, ihright]

/-- Flagging a node links no other address. -/
theorem addresses_setOverwrite (tree : Node (Address × δ)) (path : Path) :
    (tree.setOverwrite path).addresses = tree.addresses := by
  induction tree generalizing path with
  | nullptr => rfl
  | node entry overwrite left right ihleft ihright =>
      match path with
      | [] => rfl
      | .left :: path => simp [setOverwrite, addresses, ihleft]
      | .right :: path => simp [setOverwrite, addresses, ihright]

/-- Following links in the store leads to the node at that path of the tree. -/
theorem follow_represents {store : Store δ} {parent : Option Address} {tree : Node (Address × δ)}
    (h : tree.Represents store parent) (path : Path) :
    store.follow tree.pointer path = (tree.get? path).map fun entry => entry.1.1 := by
  induction tree generalizing parent path with
  | nullptr => cases path <;> simp [Store.follow]
  | node entry overwrite left right ihleft ihright =>
      obtain ⟨hcell, hleft, hright⟩ := h
      match path with
      | [] => simp [Store.follow]
      | .left :: path => simpa [Store.follow, hcell, Cell.child] using ihleft hleft path
      | .right :: path =>
          simpa [Store.follow, hcell, Cell.child] using ihright hright path

/-- The cell of the node at a path. -/
theorem cell_of_get? {store : Store δ} {parent : Option Address} {tree : Node (Address × δ)}
    (h : tree.Represents store parent) {path : Path} {address : Address} {data : δ}
    {overwrite : Bool} (hget : tree.get? path = some ((address, data), overwrite)) :
    ∃ cell, store address = some cell ∧ cell.data = data ∧ cell.overwrite = overwrite := by
  induction tree generalizing parent path with
  | nullptr => simp at hget
  | node entry flag left right ihleft ihright =>
      obtain ⟨hcell, hleft, hright⟩ := h
      match path with
      | [] =>
          obtain ⟨rfl, rfl⟩ : entry = (address, data) ∧ flag = overwrite := by simpa using hget
          exact ⟨_, hcell, rfl, rfl⟩
      | .left :: path => exact ihleft hleft hget
      | .right :: path => exact ihright hright hget

/-- The parent field of a child points back to the node whose link leads to it. -/
theorem parent_of_child {store : Store δ} {parent : Option Address} {tree : Node (Address × δ)}
    (h : tree.Represents store parent) {path : Path} {above below : Address} {cell : Cell δ}
    {side : Side} (hpath : store.follow tree.pointer path = some above)
    (hcell : store above = some cell) (hchild : cell.child side = some below) :
    ∃ cell', store below = some cell' ∧ cell'.parent = some above := by
  induction tree generalizing parent path with
  | nullptr => cases path <;> simp [Store.follow] at hpath
  | node entry overwrite left right ihleft ihright =>
      obtain ⟨hroot, hleft, hright⟩ := h
      have hhead {subtree : Node (Address × δ)} (hrep : subtree.Represents store (some entry.1))
          (hpointer : subtree.pointer = some below) :
          ∃ cell', store below = some cell' ∧ cell'.parent = some entry.1 := by
        cases subtree with
        | nullptr => simp [pointer] at hpointer
        | node =>
            obtain rfl := Option.some.inj hpointer
            exact ⟨_, hrep.1, rfl⟩
      -- the link is the root's own, or it lies in the subtree that the path goes into
      match path with
      | [] =>
          obtain rfl := Option.some.inj hpath
          obtain rfl := Option.some.inj (hroot.symm.trans hcell)
          cases side with
          | left => exact hhead hleft hchild
          | right => exact hhead hright hchild
      | .left :: path =>
          exact ihleft hleft (by simpa [Store.follow, hroot, Cell.child] using hpath)
      | .right :: path =>
          exact ihright hright (by simpa [Store.follow, hroot, Cell.child] using hpath)

/-! ## The operations on the store -/

/-- Marking a node in the store marks it in the tree. -/
theorem represents_mark {store : Store δ} {parent : Option Address} {tree : Node (Address × δ)}
    (h : tree.Represents store parent) (hnodup : tree.addresses.Nodup) {path : Path}
    {address : Address} {data : δ} {overwrite : Bool}
    (hget : tree.get? path = some ((address, data), overwrite)) :
    (tree.setOverwrite path).Represents
      (store.modify address fun node => { node with overwrite := true }) parent ∧
    (tree.setOverwrite path).pointer = tree.pointer := by
  induction tree generalizing parent path with
  | nullptr => simp at hget
  | node entry flag left right ihleft ihright =>
      obtain ⟨hcell, hleft, hright⟩ := h
      simp only [addresses, List.nodup_append', List.nodup_cons, List.disjoint_cons_right] at hnodup
      obtain ⟨hnodupleft, ⟨hrootright, hnodupright⟩, hrootleft, hdisjoint⟩ := hnodup
      match path with
      | [] =>
          obtain ⟨rfl, rfl⟩ : entry = (address, data) ∧ flag = overwrite := by simpa using hget
          exact ⟨⟨by simp [hcell], hleft.modify hrootleft _, hright.modify hrootright _⟩, rfl⟩
      | .left :: path =>
          have hmem : address ∈ left.addresses := by
            rw [addresses_eq]
            exact List.mem_filterMap.mpr ⟨_, mem_entries hget, rfl⟩
          obtain ⟨hrep, hpointer⟩ := ihleft hleft hnodupleft hget
          refine ⟨⟨?_, hrep, hright.modify (hdisjoint hmem) _⟩, rfl⟩
          rw [hpointer, Store.modify_of_ne (ne_of_mem_of_not_mem hmem hrootleft).symm]
          exact hcell
      | .right :: path =>
          have hmem : address ∈ right.addresses := by
            rw [addresses_eq]
            exact List.mem_filterMap.mpr ⟨_, mem_entries hget, rfl⟩
          obtain ⟨hrep, hpointer⟩ := ihright hright hnodupright hget
          refine ⟨⟨?_, hleft.modify (fun hother => hdisjoint hother hmem) _, hrep⟩, rfl⟩
          rw [hpointer, Store.modify_of_ne (ne_of_mem_of_not_mem hmem hrootright).symm]
          exact hcell

/-- `setDataArray` on the store appends the live data of the tree. -/
theorem setDataArray_represents {store : Store δ} {parent : Option Address}
    {tree : Node (Address × δ)} (h : tree.Represents store parent) {depth : Nat}
    (hdepth : tree.addresses.length ≤ depth) (array : List δ) :
    store.setDataArray depth tree.pointer array = some (array ++ tree.erase.live) := by
  induction tree generalizing parent depth array with
  | nullptr => cases depth <;> simp [Store.setDataArray, erase]
  | node entry overwrite left right ihleft ihright =>
      obtain ⟨hcell, hleft, hright⟩ := h
      simp only [addresses, List.length_append, List.length_cons] at hdepth
      cases depth with
      | zero => omega
      | succ depth =>
          have hl := @ihleft _ hleft depth (by omega)
          have hr := @ihright _ hright depth (by omega)
          cases overwrite <;> simp [Store.setDataArray, hcell, hl, hr, erase]

variable [LinearOrder κ] [Keyed δ κ]

/-- `find` on the store returns the address of the node that `find` returns on the tree. -/
theorem find_represents {store : Store δ} {parent : Option Address} {tree : Node (Address × δ)}
    (h : tree.Represents store parent) {depth : Nat} (hdepth : tree.addresses.length ≤ depth)
    (k : κ) :
    store.find depth tree.pointer k =
      some ((tree.erase.find k).bind fun path => (tree.get? path).map fun entry => entry.1.1) := by
  induction tree generalizing parent depth with
  | nullptr => cases depth <;> simp [Store.find, erase, Node.find]
  | node entry overwrite left right ihleft ihright =>
      obtain ⟨hcell, hleft, hright⟩ := h
      simp only [addresses, List.length_append, List.length_cons] at hdepth
      cases depth with
      | zero => omega
      | succ depth =>
          have hl := @ihleft _ hleft depth (by omega)
          have hr := @ihright _ hright depth (by omega)
          rw [pointer_node, Store.find_succ depth hcell, hl, hr]
          by_cases hgt : k < key entry.2
          · simp [erase, Node.find, hgt, Option.bind_map, Function.comp_def]
          · by_cases hlt : key entry.2 < k
            · simp [erase, Node.find, hgt, hlt, Option.bind_map, Function.comp_def]
            · cases overwrite <;> simp [erase, Node.find, hgt, hlt]

/-- The labelled tree that a completed insertion leaves: a node taken over keeps its address. -/
def placeStored (tmp : Address) (data : δ) : Node (Address × δ) → Node (Address × δ)
  | .nullptr => .new (tmp, data)
  | .node entry overwrite left right =>
      if overwrite then .node (entry.1, data) false left right
      else if key data ≤ key entry.2 then .node entry false (left.placeStored tmp data) right
      else .node entry false left (right.placeStored tmp data)

theorem erase_placeStored (tmp : Address) (data : δ) (tree : Node (Address × δ)) :
    (tree.placeStored tmp data).erase = tree.erase.place data := by
  induction tree with
  | nullptr => rfl
  | node entry overwrite left right ihleft ihright =>
      cases overwrite with
      | true => simp [placeStored, place, erase]
      | false =>
          by_cases hle : key data ≤ key entry.2
          · simp [placeStored, place, erase, hle, ihleft]
          · simp [placeStored, place, erase, hle, ihright]

/-- An insertion links at most the new address. -/
theorem addresses_placeStored (tmp : Address) (data : δ) (tree : Node (Address × δ)) :
    (tree.placeStored tmp data).addresses = tree.addresses ∨
      (tree.placeStored tmp data).addresses.Perm (tmp :: tree.addresses) := by
  induction tree with
  | nullptr => exact .inr (by simp [placeStored, new, addresses])
  | node entry overwrite left right ihleft ihright =>
      cases overwrite with
      | true => exact .inl (by simp [placeStored, addresses])
      | false =>
          by_cases hle : key data ≤ key entry.2
          · rcases ihleft with heq | hperm
            · exact .inl (by simp [placeStored, addresses, hle, heq])
            · exact .inr (by
                simpa [placeStored, addresses, hle] using hperm.append_right _)
          · rcases ihright with heq | hperm
            · exact .inl (by simp [placeStored, addresses, hle, heq])
            · have hswap : (entry.1 :: (right.placeStored tmp data).addresses).Perm
                  (tmp :: entry.1 :: right.addresses) :=
                (hperm.cons _).trans (List.Perm.swap _ _ _)
              exact .inr (by
                simpa [placeStored, addresses, hle] using
                  (hswap.append_left left.addresses).trans List.perm_middle)

/-- An insertion leaves the root where it was. -/
theorem pointer_placeStored (tmp : Address) (data : δ) {tree : Node (Address × δ)}
    (h : tree.isNull = false) : (tree.placeStored tmp data).pointer = tree.pointer := by
  cases tree with
  | nullptr => simp [isNull] at h
  | node entry overwrite left right =>
      simp only [placeStored]
      split_ifs <;> rfl

/-- A tree keeps its place when `tmp_node` and another node outside it are assigned to. -/
theorem Represents.modify_both {store : Store δ} {parent : Option Address}
    {tree : Node (Address × δ)} (h : tree.Represents store parent) {tmp address : Address}
    (htmp : tmp ∉ tree.addresses) (hmem : address ∉ tree.addresses) (f g : Cell δ → Cell δ) :
    tree.Represents ((store.modify tmp f).modify address g) parent :=
  (h.modify htmp f).modify hmem g

/-- A completed loop on the store leaves the tree that the loop on the tree leaves, and touches no
other node. -/
theorem insertLoop_represents {store : Store δ} {parent : Option Address}
    {tree : Node (Address × δ)} (h : tree.Represents store parent) (hnodup : tree.addresses.Nodup)
    {tmp : Address} {data : δ} (htmp : tmp ∉ tree.addresses)
    (hcell : store tmp = some ⟨data, false, none, none, none⟩) (hnull : tree.isNull = false)
    (hfind : tree.erase.find (key data) = none) {turns : Nat}
    (hturns : tree.addresses.length ≤ turns) :
    ∃ store', store.insertLoop tmp data turns tree.pointer = some store' ∧
      (tree.placeStored tmp data).Represents store' parent ∧
      ∀ address, address ∉ tree.addresses → address ≠ tmp → store' address = store address := by
  induction tree generalizing parent turns with
  | nullptr => simp [isNull] at hnull
  | node entry overwrite left right ihleft ihright =>
      obtain ⟨hroot, hleft, hright⟩ := h
      simp only [addresses, List.nodup_append', List.nodup_cons, List.disjoint_cons_right] at hnodup
      obtain ⟨hnodupleft, ⟨hrootright, hnodupright⟩, hrootleft, hdisjoint⟩ := hnodup
      simp only [addresses, List.mem_append, List.mem_cons, not_or] at htmp
      obtain ⟨htmpleft, htmproot, htmpright⟩ := htmp
      simp only [addresses, List.length_append, List.length_cons] at hturns
      simp only [addresses, List.mem_append, List.mem_cons, not_or]
      cases turns with
      | zero => omega
      | succ turns =>
          rw [pointer_node, Store.insertLoop_succ turns hroot]
          cases overwrite with
          | true =>
              refine ⟨_, by simp; rfl, ?_, fun address hmem hne =>
                Store.modify_both_of_ne hne hmem.2.1 _ _ _⟩
              refine ⟨?_, hleft.modify_both htmpleft hrootleft _ _,
                hright.modify_both htmpright hrootright _ _⟩
              simp [Store.modify_of_ne (Ne.symm htmproot), hroot]
          | false =>
              rcases lt_trichotomy (key data) (key entry.2) with hlt | heq | hgt
              · have hplace : (node entry false left right).placeStored tmp data =
                    node entry false (left.placeStored tmp data) right := by
                  simp [placeStored, hlt.le]
                rw [hplace]
                cases hnullleft : left.isNull with
                | true =>
                    -- `tmp_node` is linked below this node
                    obtain rfl := isNull_iff.mp hnullleft
                    refine ⟨_, by simp [hlt]; rfl, ⟨?_, ⟨?_, trivial, trivial⟩,
                      hright.modify_both htmpright hrootright _ _⟩, fun address hmem hne =>
                      Store.modify_both_of_ne hne hmem.2.1 _ _ _⟩
                    · simp [Store.modify_of_ne (Ne.symm htmproot), hroot, placeStored, new]
                    · simp [Store.modify_of_ne htmproot, hcell]
                | false =>
                    -- the loop goes on in `left`, which shares no address with the rest
                    have hfindleft : left.erase.find (key data) = none := by
                      simpa [erase, Node.find, hlt] using hfind
                    obtain ⟨store', hloop, hrep, hsame⟩ := @ihleft _ hleft hnodupleft htmpleft
                      hnullleft hfindleft turns (by omega)
                    refine ⟨store', by simpa [hlt, hlt.le, hlt.not_gt, hnullleft] using hloop,
                      ⟨?_, hrep, hright.frame fun address hmem => ?_⟩, fun address hmem hne =>
                      hsame address hmem.1 hne⟩
                    · rw [pointer_placeStored tmp data hnullleft,
                        hsame entry.1 hrootleft (Ne.symm htmproot), hroot]
                    · exact hsame address (fun hother => hdisjoint hother hmem)
                        (ne_of_mem_of_not_mem hmem htmpright)
              · simp [erase, Node.find, heq] at hfind
              · have hplace : (node entry false left right).placeStored tmp data =
                    node entry false left (right.placeStored tmp data) := by
                  simp [placeStored, hgt.not_ge]
                rw [hplace]
                cases hnullright : right.isNull with
                | true =>
                    obtain rfl := isNull_iff.mp hnullright
                    refine ⟨_, by simp [hgt, hgt.not_gt, isNull]; rfl, ⟨?_,
                      hleft.modify_both htmpleft hrootleft _ _, ⟨?_, trivial, trivial⟩⟩,
                      fun address hmem hne => Store.modify_both_of_ne hne hmem.2.1 _ _ _⟩
                    · simp [Store.modify_of_ne (Ne.symm htmproot), hroot, placeStored, new]
                    · simp [Store.modify_of_ne htmproot, hcell]
                | false =>
                    have hfindright : right.erase.find (key data) = none := by
                      simpa [erase, Node.find, hgt, hgt.not_gt] using hfind
                    obtain ⟨store', hloop, hrep, hsame⟩ := @ihright _ hright hnodupright htmpright
                      hnullright hfindright turns (by omega)
                    refine ⟨store', by simpa [hgt, hgt.not_ge, hgt.not_gt, hnullright] using hloop,
                      ⟨?_, hleft.frame fun address hmem => ?_, hrep⟩, fun address hmem hne =>
                      hsame address hmem.2.2 hne⟩
                    · rw [pointer_placeStored tmp data hnullright,
                        hsame entry.1 hrootright (Ne.symm htmproot), hroot]
                    · exact hsame address (fun hother => hdisjoint hmem hother)
                        (ne_of_mem_of_not_mem hmem htmpleft)

end Node

end Wheespa
