import Wheespa.BinaryTree.CheckedInsert
import Wheespa.BinaryTree.Way
import Wheespa.Library.Interference

/-!
# An `insert` among marks

A handler inserts under the mutex, so that no other insertion and no removal comes in between; but
the service loop flags nodes without it. Here each test of the loop of `insert`, with its branch, is
one turn, and marks come in between in any order. `insert_among_marks` says that an insertion whose
key `find` has not found when the mutex is taken follows no null link, ends within a number of turns
that the tree sets, and stores its datum as `insert_exact` has it for the tree of that moment.
-/

namespace Wheespa

open Transition Interference

universe u v

variable {δ : Type u} {κ : Type v}

/-- Where `insert` is: before its call of `isEmpty()`; at one of the three tests of its loop or at
the assignment that follows them, with the links that `node_ptr` was read from; or past its loop,
with the node that holds the datum. -/
inductive Inserting where
  | entered
  | testLeft (path : Path)
  | testRight (path : Path)
  | testFlag (path : Path)
  | advance (path : Path)
  | stored (path : Path)
  deriving DecidableEq, Repr

namespace Node

/-- The datum is written into the node at `path` and its flag cleared, or a new node is linked
there. -/
def store (data : δ) : Node δ → Path → Node δ
  | .nullptr, [] => .new data
  | .nullptr, _ :: _ => .nullptr
  | .node _ _ left right, [] => .node data false left right
  | .node data' overwrite left right, .left :: path =>
      .node data' overwrite (left.store data path) right
  | .node data' overwrite left right, .right :: path =>
      .node data' overwrite left (right.store data path)

/-- The number of nodes on the longest way down. -/
def depth : Node δ → Nat
  | .nullptr => 0
  | .node _ _ left right => max left.depth right.depth + 1

theorem length_lt_depth {tree : Node δ} {path : Path} (h : (tree.get? path).isSome) :
    path.length < tree.depth := by
  induction tree generalizing path with
  | nullptr => simp at h
  | node data overwrite left right ihleft ihright =>
      rcases path with _ | ⟨_ | _, path⟩
      · exact Nat.succ_pos _
      · have hleft := ihleft h
        simp only [List.length_cons, depth]
        omega
      · have hright := ihright h
        simp only [List.length_cons, depth]
        omega

variable [LinearOrder κ] [Keyed δ κ]

/-- Where the walk leads to, storing changes the node there only. -/
theorem get?_store {k : κ} {tree : Node δ} {path : Path} (h : tree.Followed k path) (data : δ)
    (other : Path) :
    (tree.store data path).get? other =
      if other = path then some (data, false) else tree.get? other := by
  induction tree generalizing path other with
  | nullptr =>
      rcases path with _ | ⟨side, path⟩
      · rcases other with _ | ⟨_ | _, other⟩ <;> simp [store, new]
      · obtain ⟨_, _, hget, _⟩ := h [] side path rfl
        simp at hget
  | node data' overwrite left right ihleft ihright =>
      rcases path with _ | ⟨_ | _, path⟩
      · rcases other with _ | ⟨_ | _, other⟩ <;> simp [store]
      · rcases other with _ | ⟨_ | _, other⟩ <;> simp [store, ihleft h.below.2]
      · rcases other with _ | ⟨_ | _, other⟩ <;> simp [store, ihright h.below.2]

/-- Storing in a flagged node or at a null link adds the datum to the live data. -/
theorem live_store {k : κ} {tree : Node δ} {path : Path} (h : tree.Followed k path) (data : δ)
    (hfree : ∀ data', tree.get? path ≠ some (data', false)) :
    (tree.store data path).live.Perm (data :: tree.live) := by
  induction tree generalizing path with
  | nullptr =>
      rcases path with _ | ⟨side, path⟩
      · simp [store, new]
      · obtain ⟨_, _, hget, _⟩ := h [] side path rfl
        simp at hget
  | node data' overwrite left right ihleft ihright =>
      rcases path with _ | ⟨_ | _, path⟩
      · cases overwrite with
        | true => simp [store]
        | false => exact absurd rfl (hfree data')
      · have hleft := ihleft h.below.2 hfree
        cases overwrite <;> simpa [store] using hleft.append_right _
      · have hright := ihright h.below.2 hfree
        cases overwrite with
        | true =>
            simpa [store] using (hright.append_left left.live).trans List.perm_middle
        | false =>
            have hswap : (data' :: (right.store data path).live).Perm
                (data :: data' :: right.live) :=
              (hright.cons data').trans (List.Perm.swap _ _ _)
            simpa [store] using (hswap.append_left left.live).trans List.perm_middle

/-- The way to a node goes through the nodes above it only. -/
theorem Followed.store {k : κ} {tree : Node δ} {path : Path} (h : tree.Followed k path)
    (data : δ) : (tree.store data path).Followed k path := by
  intro front side rest heq
  obtain ⟨data', overwrite, hget, hturns⟩ := h front side rest heq
  refine ⟨data', overwrite, ?_, hturns⟩
  rw [get?_store h, if_neg, hget]
  intro hfront
  simpa [hfront] using congrArg List.length heq

/-- A mark does not make `find` find. -/
theorem find_setOverwrite_none {k : κ} {tree : Node δ} (h : tree.find k = none) (path : Path) :
    (tree.setOverwrite path).find k = none := by
  induction tree generalizing path with
  | nullptr => rfl
  | node data overwrite left right ihleft ihright =>
      simp only [find] at h
      rcases path with _ | ⟨_ | _, path⟩ <;>
        simp only [setOverwrite, find] <;> split_ifs at h ⊢ <;> simp_all

end Node

namespace BinarySearchTree

variable [LinearOrder κ] [Keyed δ κ]

/-- One turn of `insert(data)`, or `none` where a null `node_ptr` is read through, and past the end
of the loop. -/
def insertStep (data : δ) (tree : BinarySearchTree δ) :
    Inserting → Option (BinarySearchTree δ × Inserting)
  | .entered =>
      if tree.isEmpty then some ({ tree with node := tree.node.store data [] }, .stored [])
      else some (tree, .testLeft [])
  | .testLeft path => do
      let (data', overwrite) ← tree.node.get? path
      let child := path ++ [.left]
      if key data' > key data ∧ (tree.node.get? child).isNone ∧ !overwrite then
        some ({ tree with node := tree.node.store data child }, .stored child)
      else some (tree, .testRight path)
  | .testRight path => do
      let (data', overwrite) ← tree.node.get? path
      let child := path ++ [.right]
      if key data' < key data ∧ (tree.node.get? child).isNone ∧ !overwrite then
        some ({ tree with node := tree.node.store data child }, .stored child)
      else some (tree, .testFlag path)
  | .testFlag path => do
      let (_, overwrite) ← tree.node.get? path
      if overwrite then some ({ tree with node := tree.node.store data path }, .stored path)
      else some (tree, .advance path)
  | .advance path => do
      let (data', _) ← tree.node.get? path
      let side : Side := if key data' ≥ key data then .left else .right
      some (tree, .testLeft (path ++ [side]))
  | .stored _ => none

/-- A thread in an `insert` of the datum, among the other operations on the tree. -/
def insertParty (data : δ) : Party (BinarySearchTree δ) Inserting (History.Operation δ κ) :=
  ⟨insertStep data, operate⟩

/-- The operation is one that the mutex does not keep out. -/
def IsMark : History.Operation δ κ → Prop
  | .mark _ => True
  | .insert _ | .remove _ => False

instance decidableIsMark : (operation : History.Operation δ κ) → Decidable (IsMark operation)
  | .mark _ => .isTrue trivial
  | .insert _ | .remove _ => .isFalse id

/-- The walk has come to a node on the way of `find` for the key, which `find` does not find. -/
structure Reached (data : δ) (tree : BinarySearchTree δ) (path : Path) : Prop where
  way : tree.node.Followed (key data) path
  linked : (tree.node.get? path).isSome
  absent : tree.find (key data) = none

/-- If the node is live and the walk turns to this side there, it has a child on that side. -/
def GoesOn (data : δ) (tree : BinarySearchTree δ) (path : Path) (side : Side) : Prop :=
  ∀ data', tree.node.get? path = some (data', false) → Turns (key data) data' side →
    (tree.node.get? (path ++ [side])).isSome

/-- What the tests so far have shown, and no mark takes away. -/
def Walking (data : δ) (tree : BinarySearchTree δ) : Inserting → Prop
  | .entered => tree.find (key data) = none
  | .testLeft path => tree.Reached data path
  | .testRight path => tree.Reached data path ∧ tree.GoesOn data path .left
  | .testFlag path =>
      tree.Reached data path ∧ tree.GoesOn data path .left ∧ tree.GoesOn data path .right
  | .advance path => tree.Reached data path ∧ ∃ data' overwrite side,
      tree.node.get? path = some (data', overwrite) ∧ Turns (key data) data' side ∧
        (tree.node.get? (path ++ [side])).isSome
  | .stored _ => True

/-! ## Marks -/

/-- A mark changes no datum, and clears no flag. -/
theorem get?_mark {tree : BinarySearchTree δ} {marked path : Path} {data : δ} {overwrite : Bool}
    (h : (tree.markOverwrite marked).node.get? path = some (data, overwrite)) :
    ∃ overwrite', tree.node.get? path = some (data, overwrite') ∧
      (overwrite = false → overwrite' = false) := by
  rw [node_markOverwrite, Node.get?_setOverwrite] at h
  split at h
  · next heq =>
      obtain ⟨⟨data', overwrite'⟩, hget, hentry⟩ := Option.map_eq_some_iff.mp h
      obtain ⟨rfl, rfl⟩ := Prod.mk.inj hentry
      exact ⟨overwrite', heq ▸ hget, by simp⟩
  · exact ⟨overwrite, h, id⟩

/-- A mark links nothing. -/
theorem isSome_get?_mark (tree : BinarySearchTree δ) (marked path : Path) :
    ((tree.markOverwrite marked).node.get? path).isSome = (tree.node.get? path).isSome := by
  rw [node_markOverwrite, Node.get?_setOverwrite]
  split
  · next heq => rw [Option.isSome_map, heq]
  · rfl

theorem Reached.mark {data : δ} {tree : BinarySearchTree δ} {path : Path}
    (h : tree.Reached data path) (marked : Path) :
    (tree.markOverwrite marked).Reached data path where
  way := h.way.setOverwrite marked
  linked := by rw [isSome_get?_mark]; exact h.linked
  absent := Node.find_setOverwrite_none h.absent marked

theorem GoesOn.mark {data : δ} {tree : BinarySearchTree δ} {path : Path} {side : Side}
    (h : tree.GoesOn data path side) (marked : Path) :
    (tree.markOverwrite marked).GoesOn data path side := by
  intro data' hget hturns
  obtain ⟨overwrite, hold, hlive⟩ := get?_mark hget
  obtain rfl := hlive rfl
  rw [isSome_get?_mark]
  exact h data' hold hturns

/-- A mark takes away nothing that the walk relies on. -/
theorem Walking.mark {data : δ} {tree : BinarySearchTree δ} {self : Inserting}
    (h : tree.Walking data self) (marked : Path) :
    (tree.markOverwrite marked).Walking data self := by
  cases self with
  | entered => exact Node.find_setOverwrite_none h marked
  | testLeft path => exact Reached.mark h marked
  | testRight path => exact ⟨h.1.mark marked, h.2.mark marked⟩
  | testFlag path => exact ⟨h.1.mark marked, h.2.1.mark marked, h.2.2.mark marked⟩
  | advance path =>
      obtain ⟨hreached, data', overwrite, side, hget, hturns, hchild⟩ := h
      refine ⟨hreached.mark marked, data', ?_⟩
      obtain ⟨⟨data'', overwrite'⟩, hget'⟩ :=
        Option.isSome_iff_exists.mp (hreached.mark marked).linked
      obtain ⟨_, hold, _⟩ := get?_mark hget'
      obtain ⟨rfl, -⟩ := Prod.mk.inj (Option.some.inj (hget.symm.trans hold))
      exact ⟨overwrite', side, hget', hturns, by rwa [isSome_get?_mark]⟩
  | stored path => trivial

/-! ## Turns of the insertion -/

/-- Where the walk leads to and no live node is, the datum is stored as an insertion in one step
stores it. -/
theorem insertedAt_store {tree : BinarySearchTree δ} {data : δ} {path : Path}
    (hway : tree.node.Followed (key data) path)
    (hfree : ∀ data', tree.node.get? path ≠ some (data', false)) :
    InsertedAt tree { tree with node := tree.node.store data path } data path where
  found := by
    have hstored := Node.get?_store hway data path
    rw [if_pos rfl] at hstored
    refine (Node.find_of_followed (hway.store data) fun data' overwrite hget => ?_).trans ?_
    · obtain ⟨rfl, -⟩ := Prod.mk.inj (Option.some.inj (hstored.symm.trans hget))
      rfl
    · rw [hstored]
      rfl
  stored := by rw [Node.get?_store hway, if_pos rfl]
  live := Node.live_store hway data hfree
  kept := fun other data' hlive => by
    rw [Node.get?_store hway, if_neg, hlive]
    rintro rfl
    exact hfree data' hlive
  linked := fun other => by
    rw [Node.get?_store hway]
    by_cases heq : other = path <;> simp [heq]

/-- The turns of its own that an insertion has made when it comes to a place. -/
def ownTurns : Inserting → Nat
  | .entered => 0
  | .testLeft path => 4 * path.length + 1
  | .testRight path => 4 * path.length + 2
  | .testFlag path => 4 * path.length + 3
  | .advance path => 4 * path.length + 4
  | .stored _ => 0

/-- What a turn does: it goes on in the same tree, or it stores the datum. -/
inductive Turned (data : δ) (tree : BinarySearchTree δ) (self : Inserting) :
    BinarySearchTree δ → Inserting → Prop where
  | goes {self' : Inserting} (hturns : ownTurns self' = ownTurns self + 1)
      (hwalking : tree.Walking data self') : Turned data tree self tree self'
  | stores {after : BinarySearchTree δ} {path : Path}
      (hinserted : InsertedAt tree after data path) :
      Turned data tree self after (.stored path)

/-- A turn that ends the loop stores the datum. -/
theorem Turned.inserted {data : δ} {tree after : BinarySearchTree δ} {self self' : Inserting}
    (h : Turned data tree self after self') {path : Path} (hself' : self' = .stored path) :
    InsertedAt tree after data path := by
  cases h with
  | goes hturns =>
      rw [hself', ownTurns] at hturns
      omega
  | stores hinserted =>
      obtain rfl := Inserting.stored.inj hself'
      exact hinserted

/-- A turn that does not end the loop is one more. -/
theorem Turned.ownTurns {data : δ} {tree after : BinarySearchTree δ} {self self' : Inserting}
    (h : Turned data tree self after self') (hself' : ∀ path, self' ≠ .stored path) :
    BinarySearchTree.ownTurns self' = BinarySearchTree.ownTurns self + 1 := by
  cases h with
  | goes hturns => exact hturns
  | stores => exact absurd rfl (hself' _)

/-- A live node that the walk has come to has another key. -/
theorem Reached.key_ne {data data' : δ} {tree : BinarySearchTree δ} {path : Path}
    (h : tree.Reached data path) (hget : tree.node.get? path = some (data', false)) :
    key data' ≠ key data := by
  -- `find` would have returned a live node on its way with the key
  intro heq
  have hfind := Node.find_of_followed h.way fun data'' overwrite hget' => by
    obtain ⟨rfl, -⟩ := Prod.mk.inj (Option.some.inj (hget.symm.trans hget'))
    exact heq
  have habsent : tree.node.find (key data) = none := h.absent
  simp [hfind, hget] at habsent

section Turn

variable {data : δ} {tree : BinarySearchTree δ} {path : Path}

theorem turn_entered (h : tree.find (key data) = none) :
    ∃ after self', tree.insertStep data .entered = some (after, self') ∧
      Turned data tree .entered after self' := by
  cases hempty : tree.isEmpty with
  | true =>
      have hnull : tree.node = .nullptr := Node.isNull_iff.mp hempty
      refine ⟨_, _, by rw [insertStep, if_pos hempty], .stores ?_⟩
      exact insertedAt_store (Node.followed_nil _ _) (by simp [hnull])
  | false =>
      have hlinked : (tree.node.get? []).isSome := by
        cases hnode : tree.node with
        | nullptr => simp [isEmpty, hnode, Node.isNull] at hempty
        | node => rfl
      have hwalking : tree.Walking data (.testLeft []) := ⟨Node.followed_nil _ _, hlinked, h⟩
      exact ⟨tree, .testLeft [], by rw [insertStep, hempty]; rfl, .goes rfl hwalking⟩

theorem Reached.turn_testLeft (h : tree.Reached data path) :
    ∃ after self', tree.insertStep data (.testLeft path) = some (after, self') ∧
      Turned data tree (.testLeft path) after self' := by
  obtain ⟨⟨data', overwrite⟩, hget⟩ := Option.isSome_iff_exists.mp h.linked
  simp only [insertStep, hget, Option.bind_eq_bind, Option.bind_some]
  split_ifs with htest
  · obtain ⟨hgt, hnull, _⟩ := htest
    refine ⟨_, _, rfl, .stores (insertedAt_store (h.way.snoc hget hgt) ?_)⟩
    simp [Option.isNone_iff_eq_none.mp hnull]
  · refine ⟨_, _, rfl, .goes rfl ⟨h, fun data'' hlive hturns => ?_⟩⟩
    obtain ⟨rfl, rfl⟩ := Prod.mk.inj (Option.some.inj (hget.symm.trans hlive))
    have hgt : key data' > key data := hturns
    simpa [hgt, Option.isSome_iff_ne_none] using htest

theorem Reached.turn_testRight (h : tree.Reached data path) (hleft : tree.GoesOn data path .left) :
    ∃ after self', tree.insertStep data (.testRight path) = some (after, self') ∧
      Turned data tree (.testRight path) after self' := by
  obtain ⟨⟨data', overwrite⟩, hget⟩ := Option.isSome_iff_exists.mp h.linked
  simp only [insertStep, hget, Option.bind_eq_bind, Option.bind_some]
  split_ifs with htest
  · obtain ⟨hlt, hnull, _⟩ := htest
    refine ⟨_, _, rfl, .stores (insertedAt_store (h.way.snoc hget hlt) ?_)⟩
    simp [Option.isNone_iff_eq_none.mp hnull]
  · refine ⟨_, _, rfl, .goes rfl ⟨h, hleft, fun data'' hlive hturns => ?_⟩⟩
    obtain ⟨rfl, rfl⟩ := Prod.mk.inj (Option.some.inj (hget.symm.trans hlive))
    have hlt : key data' < key data := hturns
    simpa [hlt, Option.isSome_iff_ne_none] using htest

theorem Reached.turn_testFlag (h : tree.Reached data path) (hleft : tree.GoesOn data path .left)
    (hright : tree.GoesOn data path .right) :
    ∃ after self', tree.insertStep data (.testFlag path) = some (after, self') ∧
      Turned data tree (.testFlag path) after self' := by
  obtain ⟨⟨data', overwrite⟩, hget⟩ := Option.isSome_iff_exists.mp h.linked
  simp only [insertStep, hget, Option.bind_eq_bind, Option.bind_some]
  cases overwrite with
  | true =>
      refine ⟨_, _, rfl, .stores (insertedAt_store h.way ?_)⟩
      simp [hget]
  | false =>
      refine ⟨_, _, rfl, .goes rfl ⟨h, data', false, ?_⟩⟩
      rcases lt_or_gt_of_ne (h.key_ne hget) with hlt | hgt
      · exact ⟨.right, hget, hlt, hright data' hget hlt⟩
      · exact ⟨.left, hget, hgt, hleft data' hget hgt⟩

theorem Reached.turn_advance (h : tree.Reached data path) {data' : δ} {overwrite : Bool}
    {side : Side} (hget : tree.node.get? path = some (data', overwrite))
    (hturns : Turns (key data) data' side)
    (hchild : (tree.node.get? (path ++ [side])).isSome) :
    ∃ after self', tree.insertStep data (.advance path) = some (after, self') ∧
      Turned data tree (.advance path) after self' := by
  have hside : (if key data' ≥ key data then Side.left else .right) = side := by
    cases side with
    | left => exact if_pos (le_of_lt hturns)
    | right => exact if_neg (not_le_of_gt hturns)
  simp only [insertStep, hget, Option.bind_eq_bind, Option.bind_some, hside]
  refine ⟨_, _, rfl, .goes ?_ ⟨h.way.snoc hget hturns, hchild, h.absent⟩⟩
  simp only [ownTurns, List.length_append, List.length_singleton]
  omega

/-- A turn from a place that the walk has come to is possible before the datum is stored. -/
theorem Walking.turn {self : Inserting} (h : tree.Walking data self)
    (hself : ∀ path, self ≠ .stored path) :
    ∃ after self', tree.insertStep data self = some (after, self') ∧
      Turned data tree self after self' := by
  cases self with
  | entered => exact turn_entered h
  | testLeft path => exact Reached.turn_testLeft h
  | testRight path =>
      obtain ⟨hreached, hleft⟩ := h
      exact hreached.turn_testRight hleft
  | testFlag path =>
      obtain ⟨hreached, hleft, hright⟩ := h
      exact hreached.turn_testFlag hleft hright
  | advance path =>
      obtain ⟨hreached, data', overwrite, side, hget, hturns, hchild⟩ := h
      exact hreached.turn_advance hget hturns hchild
  | stored path => exact absurd rfl (hself path)

end Turn

/-! ## Runs of the insertion -/

/-- The walk is on its way, and as long as it has stored nothing the nodes are those of the tree at
the start. -/
structure Inserts (data : δ) (start tree : BinarySearchTree δ) (place : Inserting) : Prop where
  walking : tree.Walking data place
  links : (∀ path, place ≠ .stored path) →
    ∀ path, (tree.node.get? path).isSome = (start.node.get? path).isSome

theorem Inserts.turn {data : δ} {start tree after : BinarySearchTree δ} {self self' : Inserting}
    (h : Inserts data start tree self) (hstep : tree.insertStep data self = some (after, self')) :
    Inserts data start after self' ∧ Turned data tree self after self' := by
  have hself : ∀ path, self ≠ .stored path := by
    rintro path rfl
    simp [insertStep] at hstep
  obtain ⟨after', self'', hturn, hturned⟩ := h.walking.turn hself
  obtain ⟨rfl, rfl⟩ := Prod.mk.inj (Option.some.inj (hturn.symm.trans hstep))
  refine ⟨?_, hturned⟩
  cases hturned with
  | goes _ hwalking => exact ⟨hwalking, fun _ => h.links hself⟩
  | stores => exact ⟨trivial, fun hnot => absurd rfl (hnot _)⟩

theorem Inserts.mark {data : δ} {start tree after : BinarySearchTree δ} {self : Inserting}
    {operation : History.Operation δ κ} (h : Inserts data start tree self)
    (hstep : tree.operate operation = some after) (hmark : IsMark operation) :
    Inserts data start after self := by
  cases operation with
  | insert | remove => exact hmark.elim
  | mark marked =>
      simp only [operate] at hstep
      split at hstep
      · obtain rfl := Option.some.inj hstep
        refine ⟨h.walking.mark marked, fun hself path => ?_⟩
        rw [isSome_get?_mark, h.links hself path]
      · simp at hstep

/-- Before it has stored the datum, an insertion has made no more turns than the longest way down
has tests. -/
theorem Inserts.ownTurns_le {data : δ} {start tree : BinarySearchTree δ} {self : Inserting}
    (h : Inserts data start tree self) (hself : ∀ path, self ≠ .stored path) :
    ownTurns self ≤ 4 * start.node.depth := by
  have hlength {path : Path} (hreached : tree.Reached data path) :
      path.length < start.node.depth := by
    refine Node.length_lt_depth ?_
    rw [← h.links hself path]
    exact hreached.linked
  cases hself' : self with
  | entered => exact Nat.zero_le _
  | testLeft path =>
      subst hself'
      have hlt := hlength h.walking
      simp only [ownTurns]
      omega
  | testRight path | testFlag path | advance path =>
      subst hself'
      have hlt := hlength h.walking.1
      simp only [ownTurns]
      omega
  | stored path => exact absurd hself' (hself path)

/-- What an insertion does among marks: it follows no null link, stores its datum as an insertion in
one step does in the tree of that moment, and comes to its end. -/
structure InsertedAmongMarks (data : δ) (tree : BinarySearchTree δ)
    (events : List (Event (BinarySearchTree δ × Inserting) (Turn (History.Operation δ κ))))
    (finish : BinarySearchTree δ × Inserting) : Prop where
  goesOn : (∀ path, finish.2 ≠ .stored path) → (finish.1.insertStep data finish.2).isSome
  stores : ∀ event ∈ events, event.action = .own → ∀ path, event.after.2 = .stored path →
    InsertedAt event.before.1 event.after.1 data path
  ends : Party.ownCount events ≤ 4 * tree.node.depth + 1

/-- Among marks, an insertion stays as it has to be. -/
theorem Inserts.run {data : δ} {tree : BinarySearchTree δ} (hfind : tree.find (key data) = none)
    {events : List (Event (BinarySearchTree δ × Inserting) (Turn (History.Operation δ κ)))}
    {finish : BinarySearchTree δ × Inserting}
    (hrun : Run (insertParty data).step (tree, .entered) events finish)
    (hmarks : ∀ event ∈ events, Party.Relied (fun _ _ operation => IsMark operation) event) :
    Inserts data tree finish.1 finish.2 ∧ ∀ event ∈ events,
      Inserts data tree event.before.1 event.before.2 ∧
        Inserts data tree event.after.1 event.after.2 :=
  Party.rely (Inserts data tree) _ hrun ⟨hfind, fun _ _ => rfl⟩ hmarks
    (fun _ _ _ _ hstep h => (h.turn hstep).1) (fun _ _ _ _ hstep hmark h => h.mark hstep hmark)

/-- The turns that an insertion has made are those that its place tells, until it has stored its
datum. -/
theorem Inserts.ownCount {data : δ} {tree : BinarySearchTree δ}
    (hfind : tree.find (key data) = none)
    {events : List (Event (BinarySearchTree δ × Inserting) (Turn (History.Operation δ κ)))}
    {finish : BinarySearchTree δ × Inserting}
    (hrun : Run (insertParty data).step (tree, .entered) events finish)
    (hmarks : ∀ event ∈ events, Party.Relied (fun _ _ operation => IsMark operation) event) :
    ((∀ path, finish.2 ≠ .stored path) → Party.ownCount events = ownTurns finish.2) ∧
      Party.ownCount events ≤ 4 * tree.node.depth + 1 := by
  induction hrun with
  | refl => exact ⟨fun _ => rfl, Nat.zero_le _⟩
  | @snoc events before after action hrun hstep ih =>
      rw [List.forall_mem_append] at hmarks
      obtain ⟨hturns, hbound⟩ := ih hmarks.1
      rw [Party.ownCount, List.countP_append]
      cases action with
      | other operation =>
          obtain ⟨shared, _, hafter⟩ := Option.map_eq_some_iff.mp hstep
          obtain rfl : (shared, before.2) = after := hafter
          exact ⟨hturns, hbound⟩
      | own =>
          have hinserts := (Inserts.run hfind hrun hmarks.1).1
          have hturned := (hinserts.turn hstep).2
          have hself : ∀ path, before.2 ≠ .stored path := by
            intro path hpath
            have hnone : (before.1.insertStep data before.2) = none := by rw [hpath]; rfl
            exact absurd (hnone.symm.trans hstep) (by simp)
          have hcount : Party.ownCount events = ownTurns before.2 := hturns hself
          have hle := hinserts.ownTurns_le hself
          rw [Party.ownCount] at hcount
          constructor
          · intro hafter
            rw [hcount, hturned.ownTurns hafter]
            rfl
          · rw [hcount]
            exact Nat.succ_le_succ hle

/-- An insertion whose key `find` does not find when the mutex is taken is safe and exact among the
marks of the service loop. -/
theorem insert_among_marks {data : δ} {tree : BinarySearchTree δ}
    (hfind : tree.find (key data) = none)
    {events : List (Event (BinarySearchTree δ × Inserting) (Turn (History.Operation δ κ)))}
    {finish : BinarySearchTree δ × Inserting}
    (hrun : Run (insertParty data).step (tree, .entered) events finish)
    (hmarks : ∀ event ∈ events, Party.Relied (fun _ _ operation => IsMark operation) event) :
    InsertedAmongMarks data tree events finish := by
  obtain ⟨hfinish, hevents⟩ := Inserts.run hfind hrun hmarks
  refine ⟨fun hself => ?_, fun event hevent hown path hpath => ?_,
    (Inserts.ownCount hfind hrun hmarks).2⟩
  · obtain ⟨after, self', hturn, _⟩ := hfinish.walking.turn hself
    rw [hturn]
    rfl
  · have hstep := hrun.step_eq hevent
    rw [hown] at hstep
    exact ((hevents event hevent).1.turn hstep).2.inserted hpath

/-- An insertion of 9 below 7 that finds 7 flagged when it comes to test the flag, and takes the
node over. -/
theorem insert_among_marks_flagged : ∃ events finish,
    Run (insertParty (⟨9⟩ : DataX)).step (⟨.node ⟨7⟩ false .nullptr (.new ⟨8⟩), []⟩, .entered)
      events finish ∧
    finish.2 = .stored [] ∧
    InsertedAmongMarks ⟨9⟩ ⟨.node ⟨7⟩ false .nullptr (.new ⟨8⟩), []⟩ events finish := by
  have hrun : Run (insertParty (⟨9⟩ : DataX)).step
      (⟨.node ⟨7⟩ false .nullptr (.new ⟨8⟩), []⟩, .entered)
      ([] ++ [⟨_, .own, _⟩] ++ [⟨_, .own, _⟩] ++ [⟨_, .other (.mark []), _⟩] ++ [⟨_, .own, _⟩] ++
        [⟨_, .own, _⟩]) _ :=
    .snoc (.snoc (.snoc (.snoc (.snoc .refl rfl) rfl) rfl) rfl) rfl
  exact ⟨_, _, hrun, rfl, insert_among_marks (by decide) hrun (by decide)⟩

end BinarySearchTree

end Wheespa
