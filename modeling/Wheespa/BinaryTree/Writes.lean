import Wheespa.BinaryTree.Way

/-!
# Writes to the nodes

What the threads that share the tree write to it, one assignment at a time: a pointer to a new node,
the datum of a node, or a flag. No write takes a node away, and each changes one of these of one
node (`get?_write`); what deletes a node is in `Wheespa.BinaryTree.Store`. The operations of the
tree are made up of such writes (`exists_writes`), so that what holds among all writes holds among
all operations.
-/

namespace Wheespa

universe u v

variable {δ : Type u} {κ : Type v}

/-- A null pointer that the links lead to is assigned a new node; or the datum of the node there is
assigned, or its flag. -/
inductive NodeWrite (δ : Type u) where
  | link (path : Path) (data : δ)
  | assign (path : Path) (data : δ)
  | flag (path : Path) (overwrite : Bool)
  deriving DecidableEq, Repr

/-- A datum that is assigned to a node meets the condition. -/
def NodeWrite.Assigns (P : Path → δ → Prop) : NodeWrite δ → Prop
  | .assign path data => P path data
  | .link .. | .flag .. => True

theorem NodeWrite.Assigns.mono {P Q : Path → δ → Prop} {write : NodeWrite δ}
    (h : write.Assigns P) (hle : ∀ path data, P path data → Q path data) : write.Assigns Q := by
  cases write with
  | assign path data => exact hle path data h
  | link | flag => trivial

instance (P : Path → δ → Prop) [∀ path data, Decidable (P path data)] :
    (write : NodeWrite δ) → Decidable (write.Assigns P)
  | .assign path data => inferInstanceAs (Decidable (P path data))
  | .link .. | .flag .. => .isTrue trivial

namespace Node

/-- The tree with the datum and the flag at the end of the links, in a new node where there is
none. -/
def put (data : δ) (overwrite : Bool) : Node δ → Path → Node δ
  | .nullptr, [] => .node data overwrite .nullptr .nullptr
  | .nullptr, _ :: _ => .nullptr
  | .node _ _ left right, [] => .node data overwrite left right
  | .node data' overwrite' left right, .left :: path =>
      .node data' overwrite' (left.put data overwrite path) right
  | .node data' overwrite' left right, .right :: path =>
      .node data' overwrite' left (right.put data overwrite path)

/-- What was a node still is one, and has changed only where it was written to. -/
theorem get?_put {tree : Node δ} {other : Path} {entry : δ × Bool}
    (h : tree.get? other = some entry) (data : δ) (overwrite : Bool) (path : Path) :
    (tree.put data overwrite path).get? other =
      some (if other = path then (data, overwrite) else entry) := by
  induction tree generalizing other path with
  | nullptr => simp at h
  | node data' overwrite' left right ihleft ihright =>
      rcases other with _ | ⟨_ | _, other⟩
      · rcases path with _ | ⟨_ | _, path⟩
        · rfl
        · simpa [put] using h
        · simpa [put] using h
      · rcases path with _ | ⟨_ | _, path⟩
        · simpa [put] using h
        · simpa [put] using ihleft h path
        · simpa [put] using h
      · rcases path with _ | ⟨_ | _, path⟩
        · simpa [put] using h
        · simpa [put] using h
        · simpa [put] using ihright h path

/-- The last of two writes to a node is what it holds. -/
theorem put_put (tree : Node δ) (data data' : δ) (overwrite overwrite' : Bool) (path : Path) :
    (tree.put data overwrite path).put data' overwrite' path = tree.put data' overwrite' path := by
  induction tree generalizing path with
  | nullptr => cases path <;> rfl
  | node data'' overwrite'' left right ihleft ihright =>
      rcases path with _ | ⟨_ | _, path⟩
      · rfl
      · simp only [put, ihleft]
      · simp only [put, ihright]

/-- Flagging a node is writing its flag. -/
theorem put_true {tree : Node δ} {path : Path} {data : δ} {overwrite : Bool}
    (h : tree.get? path = some (data, overwrite)) :
    tree.put data true path = tree.setOverwrite path := by
  induction tree generalizing path with
  | nullptr => simp at h
  | node data' overwrite' left right ihleft ihright =>
      rcases path with _ | ⟨_ | _, path⟩
      · obtain ⟨rfl, -⟩ : data' = data ∧ _ := by simpa using h
        rfl
      · simp only [put, setOverwrite, ihleft h]
      · simp only [put, setOverwrite, ihright h]

/-- An insertion writes its datum where it places it. -/
theorem put_placeAt [LinearOrder κ] [Keyed δ κ] (tree : Node δ) (data : δ) :
    tree.put data false (tree.placeAt data) = tree.place data := by
  induction tree with
  | nullptr => rfl
  | node data' overwrite left right ihleft ihright =>
      cases overwrite with
      | true => rfl
      | false =>
          by_cases hle : key data ≤ key data'
          · simp [placeAt, place, put, hle, ihleft]
          · simp [placeAt, place, put, hle, ihright]

end Node

namespace BinarySearchTree

/-- A write, or `none` where the pointer is not null or there is no node to write to. -/
def write (tree : BinarySearchTree δ) : NodeWrite δ → Option (BinarySearchTree δ)
  | .link path data =>
      match tree.node.get? path with
      | none => some { tree with node := tree.node.put data false path }
      | some _ => none
  | .assign path data => do
      let (_, overwrite) ← tree.node.get? path
      some { tree with node := tree.node.put data overwrite path }
  | .flag path overwrite => do
      let (data, _) ← tree.node.get? path
      some { tree with node := tree.node.put data overwrite path }

/-- No write takes a node away. What is another datum there has been assigned, and what is another
flag has been written. -/
theorem get?_write {tree after : BinarySearchTree δ} {write : NodeWrite δ}
    (h : tree.write write = some after) {path : Path} {data : δ} {overwrite : Bool}
    (hget : tree.node.get? path = some (data, overwrite)) :
    ∃ data' overwrite', after.node.get? path = some (data', overwrite') ∧
      (data' = data ∨ write = .assign path data') ∧
      (overwrite' = overwrite ∨ write = .flag path overwrite') := by
  cases write with
  | link other new =>
      simp only [BinarySearchTree.write] at h
      split at h
      · next hnull =>
          obtain rfl := Option.some.inj h
          have hne : path ≠ other := by
            rintro rfl
            simp [hget] at hnull
          exact ⟨data, overwrite, by rw [Node.get?_put hget, if_neg hne], .inl rfl, .inl rfl⟩
      · simp at h
  | assign other new =>
      obtain ⟨⟨_, flag⟩, hother, h⟩ := Option.bind_eq_some_iff.mp h
      obtain rfl := Option.some.inj h
      by_cases heq : path = other
      · subst heq
        obtain ⟨-, rfl⟩ := Prod.mk.inj (Option.some.inj (hget.symm.trans hother))
        exact ⟨new, overwrite, by rw [Node.get?_put hget, if_pos rfl], .inr rfl, .inl rfl⟩
      · exact ⟨data, overwrite, by rw [Node.get?_put hget, if_neg heq], .inl rfl, .inl rfl⟩
  | flag other new =>
      obtain ⟨⟨data', _⟩, hother, h⟩ := Option.bind_eq_some_iff.mp h
      obtain rfl := Option.some.inj h
      by_cases heq : path = other
      · subst heq
        obtain ⟨rfl, -⟩ := Prod.mk.inj (Option.some.inj (hget.symm.trans hother))
        exact ⟨data, new, by rw [Node.get?_put hget, if_pos rfl], .inl rfl, .inr rfl⟩
      · exact ⟨data, overwrite, by rw [Node.get?_put hget, if_neg heq], .inl rfl, .inl rfl⟩

/-- A walk stays on its way where a datum that is assigned on it turns it to the same side. -/
theorem followed_write [LinearOrder κ] [Keyed δ κ] {k : κ} {tree after : BinarySearchTree δ}
    {way : Path} (h : tree.node.Followed k way) {write : NodeWrite δ}
    (hstep : tree.write write = some after)
    (hkeeps : write.Assigns fun path data => ∀ side ∈ linkFrom path way, Turns k data side) :
    after.node.Followed k way := by
  intro front side rest heq
  obtain ⟨data, overwrite, hget, hturns⟩ := h front side rest heq
  obtain ⟨data', overwrite', hget', rfl | rfl, -⟩ := get?_write hstep hget
  · exact ⟨data', overwrite', hget', hturns⟩
  · exact ⟨data', overwrite', hget', hkeeps side (linkFrom_eq_some.mpr ⟨rest, heq⟩)⟩

/-- Flagging a node is one write. -/
theorem write_flag {tree : BinarySearchTree δ} {path : Path} {entry : δ × Bool}
    (h : tree.node.get? path = some entry) :
    tree.write (.flag path true) = some (tree.markOverwrite path) := by
  rw [write, h]
  exact congrArg (fun node => some { tree with node }) (Node.put_true h)

/-- An operation is made up of writes, and the only datum that is assigned to a node is the one that
an insertion places there. -/
theorem exists_writes [LinearOrder κ] [Keyed δ κ] {tree after : BinarySearchTree δ}
    {operation : History.Operation δ κ} (h : tree.operate operation = some after) :
    ∃ writes : List (NodeWrite δ), writes.foldlM write tree = some after ∧
      ∀ write ∈ writes, write.Assigns fun path data =>
        operation = .insert data ∧ path = tree.node.placeAt data := by
  cases operation with
  | insert data =>
      obtain rfl := insert_eq_place h
      rw [← Node.put_placeAt]
      cases hget : tree.node.get? (tree.node.placeAt data) with
      | none =>
          refine ⟨[.link (tree.node.placeAt data) data], ?_, List.forall_mem_singleton.mpr trivial⟩
          simp [write, hget]
      | some entry =>
          -- the datum is assigned first, and then the flag
          refine ⟨[.assign (tree.node.placeAt data) data, .flag (tree.node.placeAt data) false], ?_,
            List.forall_mem_cons.mpr ⟨⟨rfl, rfl⟩, List.forall_mem_singleton.mpr trivial⟩⟩
          simp [write, hget, Node.get?_put hget, Node.put_put]
  | remove k =>
      obtain rfl := Option.some.inj h
      cases hfind : tree.find k with
      | none => exact ⟨[], by simp [remove, hfind], by simp⟩
      | some path =>
          obtain ⟨data, hget, _⟩ := Node.get?_of_find hfind
          exact ⟨[.flag path true], by simp [remove, hfind, write_flag hget],
            List.forall_mem_singleton.mpr trivial⟩
  | mark path =>
      simp only [operate] at h
      split at h
      · next entry hget =>
          obtain rfl := Option.some.inj h
          exact ⟨[.flag path true], by simp [write_flag hget],
            List.forall_mem_singleton.mpr trivial⟩
      · simp at h

/-- What each of some writes keeps, they keep together. -/
theorem keeps_writes {P : BinarySearchTree δ → Prop} {writes : List (NodeWrite δ)}
    {tree after : BinarySearchTree δ} (h : writes.foldlM write tree = some after)
    (hwrite : ∀ write ∈ writes, ∀ before middle, before.write write = some middle →
      P before → P middle) (hstart : P tree) : P after := by
  induction writes generalizing tree with
  | nil =>
      obtain rfl := Option.some.inj h
      exact hstart
  | cons write writes ih =>
      rw [List.forall_mem_cons] at hwrite
      obtain ⟨middle, hfirst, hrest⟩ := Option.bind_eq_some_iff.mp h
      exact ih hrest hwrite.2 (hwrite.1 _ _ hfirst hstart)

/-- What is kept by each write that an operation can make is kept by the operation. -/
theorem keeps_operate [LinearOrder κ] [Keyed δ κ] {P : BinarySearchTree δ → Prop}
    {tree after : BinarySearchTree δ} {operation : History.Operation δ κ}
    (h : tree.operate operation = some after)
    (hwrite : ∀ write : NodeWrite δ, (write.Assigns fun path data =>
      operation = .insert data ∧ path = tree.node.placeAt data) →
      ∀ before middle, before.write write = some middle → P before → P middle)
    (hstart : P tree) : P after := by
  obtain ⟨writes, hwrites, hassigns⟩ := exists_writes h
  exact keeps_writes hwrites (fun write hmem => hwrite write (hassigns write hmem)) hstart

end BinarySearchTree

end Wheespa
