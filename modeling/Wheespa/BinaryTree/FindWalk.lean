import Wheespa.BinaryTree.Writes
import Wheespa.Library.Interference

/-!
# A `find` among the writes of others

`find` holds no mutex: while it goes down the tree, handlers insert and remove and the service loop
flags nodes. Here each of its reads, of a pointer, of a key or of a flag, is one turn, and the
writes of the others come in between in any order.

`find_linearizable` says what the walk returns: a node that was live at a moment of the walk; one
that was live under the key, as long as no datum that takes over the node at which the walk stands
fails the comparisons made there; and what a `find` in one step returns at a moment of the walk, as
long as no datum that takes over a node behind the walk would have turned it to the other side
either. `Handlers` in `Wheespa.Server.FindInsert` has that one step.
-/

namespace Wheespa

open Transition Interference

universe u v

variable {δ : Type u} {κ : Type v}

/-- Where the call `find(node, key)` that is under way stands, with the links that its pointer was
read from: before the test of the pointer, at one of the two comparisons, or at the test of the
flag; or what `find` has returned. -/
inductive Finding where
  | called (path : Path)
  | testGreater (path : Path)
  | testLess (path : Path)
  | testFlag (path : Path)
  | returned (result : Option Path)
  deriving DecidableEq, Repr

namespace Finding

/-- What `find` has returned. -/
def result? : Finding → Option (Option Path)
  | .called _ | .testGreater _ | .testLess _ | .testFlag _ => none
  | .returned result => some result

theorem eq_returned {self : Finding} {result : Option Path} (h : self.result? = some result) :
    self = .returned result := by
  cases self with
  | returned => exact congrArg Finding.returned (Option.some.inj h)
  | called | testGreater | testLess | testFlag => cases h

/-- The links that the pointer of the call was read from. -/
def node? : Finding → Option Path
  | .called path | .testGreater path | .testLess path | .testFlag path => some path
  | .returned _ => none

variable [LinearOrder κ] [Keyed δ κ]

/-- What the comparisons of the call have shown of the datum of its node. -/
def Shown (k : κ) (data : δ) : Finding → Prop
  | .testLess _ => ¬ key data > k
  | .testFlag _ => key data = k
  | .called _ | .testGreater _ | .returned _ => True

instance (k : κ) (data : δ) : (self : Finding) → Decidable (self.Shown k data)
  | .testLess _ => inferInstanceAs (Decidable (¬ _ > _))
  | .testFlag _ => inferInstanceAs (Decidable (_ = _))
  | .called _ | .testGreater _ | .returned _ => .isTrue trivial

/-- A datum that is assigned to the node of the call is as the comparisons have shown. -/
def KeepsNode (k : κ) (self : Finding) (path : Path) (data : δ) : Prop :=
  self.node? = some path → self.Shown k data

/-- A datum that is assigned to a node behind the walk turns it to the side it has gone to. -/
def KeepsWay (k : κ) (self : Finding) (path : Path) (data : δ) : Prop :=
  ∀ way ∈ self.node?, ∀ side ∈ linkFrom path way, Turns k data side

instance (k : κ) (self : Finding) (path : Path) (data : δ) :
    Decidable (self.KeepsNode k path data) :=
  inferInstanceAs (Decidable (_ → _))

instance (k : κ) (self : Finding) (path : Path) (data : δ) :
    Decidable (self.KeepsWay k path data) :=
  inferInstanceAs (Decidable (∀ way ∈ self.node?, ∀ side ∈ linkFrom path way, Turns k data side))

end Finding

open Finding

namespace BinarySearchTree

variable [LinearOrder κ] [Keyed δ κ]

/-- One read of `find(node, key)`, or `none` where a null pointer is read through. -/
def findStep (k : κ) (tree : BinarySearchTree δ) : Finding → Option (BinarySearchTree δ × Finding)
  | .called path =>
      match tree.node.get? path with
      | none => some (tree, .returned none)
      | some _ => some (tree, .testGreater path)
  | .testGreater path => do
      let (data, _) ← tree.node.get? path
      if key data > k then some (tree, .called (path ++ [.left])) else some (tree, .testLess path)
  | .testLess path => do
      let (data, _) ← tree.node.get? path
      if key data < k then some (tree, .called (path ++ [.right])) else some (tree, .testFlag path)
  | .testFlag path => do
      let (_, overwrite) ← tree.node.get? path
      some (tree, .returned (if !overwrite then some path else none))
  | .returned _ => none

/-- A thread in a `find` for the key, among the writes of others. -/
def findParty (k : κ) : Party (BinarySearchTree δ) Finding (NodeWrite δ) :=
  ⟨findStep k, write⟩

/-- A datum that takes over the node of the call is as the comparisons there have shown. -/
def KeepsTests (k : κ) (_ : BinarySearchTree δ) (self : Finding) (write : NodeWrite δ) : Prop :=
  write.Assigns (self.KeepsNode k)

/-- A datum that takes over a node behind the walk turns it to the side it has gone to. -/
def KeepsTurns (k : κ) (_ : BinarySearchTree δ) (self : Finding) (write : NodeWrite δ) : Prop :=
  write.Assigns (self.KeepsWay k)

instance (k : κ) (tree : BinarySearchTree δ) (self : Finding) (write : NodeWrite δ) :
    Decidable (tree.KeepsTests k self write) :=
  inferInstanceAs (Decidable (write.Assigns _))

instance (k : κ) (tree : BinarySearchTree δ) (self : Finding) (write : NodeWrite δ) :
    Decidable (tree.KeepsTurns k self write) :=
  inferInstanceAs (Decidable (write.Assigns _))

/-- What one turn of the walk does, as it finds the tree. -/
inductive FindTurn (k : κ) (tree : BinarySearchTree δ) : Finding → Finding → Prop where
  | null {path : Path} (hget : tree.node.get? path = none) :
      FindTurn k tree (.called path) (.returned none)
  | reached {path : Path} {data : δ} {overwrite : Bool}
      (hget : tree.node.get? path = some (data, overwrite)) :
      FindTurn k tree (.called path) (.testGreater path)
  | left {path : Path} {data : δ} {overwrite : Bool}
      (hget : tree.node.get? path = some (data, overwrite)) (hgt : key data > k) :
      FindTurn k tree (.testGreater path) (.called (path ++ [.left]))
  | notGreater {path : Path} {data : δ} {overwrite : Bool}
      (hget : tree.node.get? path = some (data, overwrite)) (hgt : ¬ key data > k) :
      FindTurn k tree (.testGreater path) (.testLess path)
  | right {path : Path} {data : δ} {overwrite : Bool}
      (hget : tree.node.get? path = some (data, overwrite)) (hlt : key data < k) :
      FindTurn k tree (.testLess path) (.called (path ++ [.right]))
  | notLess {path : Path} {data : δ} {overwrite : Bool}
      (hget : tree.node.get? path = some (data, overwrite)) (hlt : ¬ key data < k) :
      FindTurn k tree (.testLess path) (.testFlag path)
  | answered {path : Path} {data : δ} {overwrite : Bool}
      (hget : tree.node.get? path = some (data, overwrite)) :
      FindTurn k tree (.testFlag path) (.returned (if !overwrite then some path else none))

/-- A turn of the walk changes nothing in the tree. -/
theorem findStep_turn {k : κ} {tree after : BinarySearchTree δ} {self self' : Finding}
    (h : tree.findStep k self = some (after, self')) :
    after = tree ∧ FindTurn k tree self self' := by
  cases self with
  | called path =>
      simp only [findStep] at h
      split at h
      · next hget =>
          obtain ⟨rfl, rfl⟩ := Prod.mk.inj (Option.some.inj h)
          exact ⟨rfl, .null hget⟩
      · next entry hget =>
          obtain ⟨rfl, rfl⟩ := Prod.mk.inj (Option.some.inj h)
          exact ⟨rfl, .reached hget⟩
  | testGreater path =>
      obtain ⟨⟨data, overwrite⟩, hget, h⟩ := Option.bind_eq_some_iff.mp h
      dsimp only at h
      split_ifs at h with hgt
      · obtain ⟨rfl, rfl⟩ := Prod.mk.inj (Option.some.inj h)
        exact ⟨rfl, .left hget hgt⟩
      · obtain ⟨rfl, rfl⟩ := Prod.mk.inj (Option.some.inj h)
        exact ⟨rfl, .notGreater hget hgt⟩
  | testLess path =>
      obtain ⟨⟨data, overwrite⟩, hget, h⟩ := Option.bind_eq_some_iff.mp h
      dsimp only at h
      split_ifs at h with hlt
      · obtain ⟨rfl, rfl⟩ := Prod.mk.inj (Option.some.inj h)
        exact ⟨rfl, .right hget hlt⟩
      · obtain ⟨rfl, rfl⟩ := Prod.mk.inj (Option.some.inj h)
        exact ⟨rfl, .notLess hget hlt⟩
  | testFlag path =>
      obtain ⟨⟨data, overwrite⟩, hget, h⟩ := Option.bind_eq_some_iff.mp h
      obtain ⟨rfl, rfl⟩ := Prod.mk.inj (Option.some.inj h)
      exact ⟨rfl, .answered hget⟩
  | returned result => simp [findStep] at h

/-- `find` writes nothing. -/
theorem reads_findParty (k : κ) : (findParty k : Party (BinarySearchTree δ) _ _).Reads :=
  fun _ _ _ _ h => (findStep_turn h).1

/-! ## What the walk relies on -/

/-- The node of the call is there, once the pointer has been tested. -/
def AtNode (tree : BinarySearchTree δ) : Finding → Prop
  | .testGreater path | .testLess path | .testFlag path => (tree.node.get? path).isSome
  | .called _ | .returned _ => True

/-- What the comparisons of the call have shown holds of its node as it is now. -/
def Tested (k : κ) (tree : BinarySearchTree δ) (self : Finding) : Prop :=
  match self with
  | .testGreater path | .testLess path | .testFlag path =>
      ∃ data overwrite, tree.node.get? path = some (data, overwrite) ∧ self.Shown k data
  | .called _ | .returned _ => True

/-- The walk has followed its way. -/
def OnWay (k : κ) (tree : BinarySearchTree δ) (self : Finding) : Prop :=
  ∀ way ∈ self.node?, tree.node.Followed k way

variable {k : κ} {tree after : BinarySearchTree δ} {self self' : Finding}

/-- A call begins with nothing tested, and with the root. -/
theorem tested_called (path : Path) : tree.Tested k (.called path) :=
  trivial

theorem onWay_called_nil : tree.OnWay k (.called []) := by
  intro way hway
  obtain rfl := Option.some.inj hway
  exact Node.followed_nil k tree.node

/-- A turn leaves the node where it has found it. -/
theorem AtNode.turn (hturn : FindTurn k tree self self') : tree.AtNode self' := by
  cases hturn with
  | null | left | right | answered => trivial
  | reached hget | notGreater hget | notLess hget => exact Option.isSome_of_eq_some hget

omit [LinearOrder κ] [Keyed δ κ] in
/-- No write takes the node of a call away. -/
theorem AtNode.write (h : tree.AtNode self) {write : NodeWrite δ}
    (hstep : tree.write write = some after) : after.AtNode self := by
  have hnode {path : Path} (h : (tree.node.get? path).isSome) :
      (after.node.get? path).isSome := by
    obtain ⟨⟨data, overwrite⟩, hget⟩ := Option.isSome_iff_exists.mp h
    obtain ⟨data', overwrite', hget', -⟩ := get?_write hstep hget
    exact Option.isSome_of_eq_some hget'
  cases self with
  | called | returned => trivial
  | testGreater path | testLess path | testFlag path => exact hnode h

/-- The walk can go on where the node of the call is there. -/
theorem AtNode.exists_findStep (k : κ) (h : tree.AtNode self) (hself : self.result? = none) :
    ∃ next, tree.findStep k self = some next := by
  cases self with
  | returned => cases hself
  | called path =>
      simp only [findStep]
      split
      · exact ⟨_, rfl⟩
      · exact ⟨_, rfl⟩
  | testGreater path | testLess path =>
      obtain ⟨⟨data, overwrite⟩, hget⟩ := Option.isSome_iff_exists.mp h
      simp only [findStep, hget, Option.bind_eq_bind, Option.bind_some]
      split
      · exact ⟨_, rfl⟩
      · exact ⟨_, rfl⟩
  | testFlag path =>
      obtain ⟨⟨data, overwrite⟩, hget⟩ := Option.isSome_iff_exists.mp h
      simp only [findStep, hget, Option.bind_eq_bind, Option.bind_some]
      exact ⟨_, rfl⟩

/-- A turn adds what it has found out. -/
theorem Tested.turn (h : tree.Tested k self) (hturn : FindTurn k tree self self') :
    tree.Tested k self' := by
  cases hturn with
  | null | left | right | answered => trivial
  | reached hget => exact ⟨_, _, hget, trivial⟩
  | notGreater hget hgt => exact ⟨_, _, hget, hgt⟩
  | notLess hget hlt =>
      -- the comparison before has shown that the key is not greater
      obtain ⟨data, overwrite, hget', hgt⟩ := h
      obtain ⟨rfl, rfl⟩ := Prod.mk.inj (Option.some.inj (hget.symm.trans hget'))
      exact ⟨_, _, hget, le_antisymm (not_lt.mp hgt) (not_lt.mp hlt)⟩

/-- A turn stays on the way. -/
theorem OnWay.turn (h : tree.OnWay k self) (hturn : FindTurn k tree self self') :
    tree.OnWay k self' := by
  cases hturn with
  | null | answered => simp [OnWay, node?]
  | reached | notGreater | notLess => exact h
  | left hget hgt =>
      intro way hway
      obtain rfl := Option.some.inj hway
      have hturns : Turns k _ .left := hgt
      exact (h _ rfl).snoc hget hturns
  | right hget hlt =>
      intro way hway
      obtain rfl := Option.some.inj hway
      have hturns : Turns k _ .right := hlt
      exact (h _ rfl).snoc hget hturns

/-- A write that keeps the tests leaves the node of the call as it was shown to be. -/
theorem Tested.write (h : tree.Tested k self) {write : NodeWrite δ}
    (hstep : tree.write write = some after) (hkeeps : write.Assigns (self.KeepsNode k)) :
    after.Tested k self := by
  have hnode {path : Path} (hpath : self.node? = some path)
      (h : ∃ data overwrite, tree.node.get? path = some (data, overwrite) ∧ self.Shown k data) :
      ∃ data overwrite, after.node.get? path = some (data, overwrite) ∧ self.Shown k data := by
    obtain ⟨data, overwrite, hget, hshown⟩ := h
    obtain ⟨data', overwrite', hget', rfl | rfl, -⟩ := get?_write hstep hget
    · exact ⟨data', overwrite', hget', hshown⟩
    · exact ⟨data', overwrite', hget', hkeeps hpath⟩
  cases self with
  | called | returned => trivial
  | testGreater path => exact hnode rfl h
  | testLess path => exact hnode rfl h
  | testFlag path => exact hnode rfl h

/-- A write that keeps the turns leaves the walk on its way. -/
theorem OnWay.write (h : tree.OnWay k self) {write : NodeWrite δ}
    (hstep : tree.write write = some after) (hkeeps : write.Assigns (self.KeepsWay k)) :
    after.OnWay k self :=
  fun way hway => followed_write (h way hway) hstep (hkeeps.mono fun _ _ hturns => hturns way hway)

/-- An operation that takes over no node against the tests and the turns leaves the walk as it
is. -/
theorem tracked_operate {operation : History.Operation δ κ}
    (hstep : tree.operate operation = some after)
    (hkeeps : ∀ data, operation = .insert data →
      self.KeepsNode k (tree.node.placeAt data) data ∧
        self.KeepsWay k (tree.node.placeAt data) data)
    (h : tree.Tested k self ∧ tree.OnWay k self) : after.Tested k self ∧ after.OnWay k self := by
  refine @keeps_operate _ _ _ _ (fun tree => tree.Tested k self ∧ tree.OnWay k self) _ _ _ hstep
    (fun write hassigns before middle hwrite hbefore => ?_) h
  constructor
  · refine hbefore.1.write hwrite (hassigns.mono fun path data hinsert => ?_)
    rw [hinsert.2]
    exact (hkeeps data hinsert.1).1
  · refine hbefore.2.write hwrite (hassigns.mono fun path data hinsert => ?_)
    rw [hinsert.2]
    exact (hkeeps data hinsert.1).2

/-- What the walk returns is a node that is live then. -/
theorem FindTurn.live {result : Option Path} (hturn : FindTurn k tree self (.returned result))
    {path : Path} (hpath : path ∈ result) :
    ∃ data, tree.node.get? path = some (data, false) := by
  cases hturn with
  | null => simp at hpath
  | @answered path' data overwrite hget =>
      obtain ⟨hlive, hsame⟩ := Option.ite_none_right_eq_some.mp hpath
      obtain rfl := Option.some.inj hsame
      obtain rfl : overwrite = false := by simpa using hlive
      exact ⟨data, hget⟩

/-- Where the tests of the call hold now, the node that the walk returns has the key. -/
theorem FindTurn.found {result : Option Path} (hturn : FindTurn k tree self (.returned result))
    (htested : tree.Tested k self) {path : Path} (hpath : path ∈ result) :
    ∃ data, tree.node.get? path = some (data, false) ∧ key data = k := by
  obtain ⟨data, hget⟩ := hturn.live hpath
  cases hturn with
  | null => simp at hpath
  | answered =>
      obtain ⟨_, hsame⟩ := Option.ite_none_right_eq_some.mp hpath
      obtain rfl := Option.some.inj hsame
      obtain ⟨data', overwrite, hget', hkey⟩ := htested
      obtain ⟨rfl, rfl⟩ := Prod.mk.inj (Option.some.inj (hget.symm.trans hget'))
      exact ⟨_, hget, hkey⟩

/-- Where the walk is on its way besides, it returns what a `find` in one step returns now. -/
theorem FindTurn.find_eq {result : Option Path}
    (hturn : FindTurn k tree self (.returned result)) (htested : tree.Tested k self)
    (hway : tree.OnWay k self) : tree.find k = result := by
  cases hturn with
  | @null path hget =>
      have hfind := Node.find_of_followed (hway path rfl) (by simp [hget])
      simpa [find, hget] using hfind
  | @answered path data overwrite hget =>
      obtain ⟨data', overwrite', hget', hkey⟩ := htested
      obtain ⟨rfl, rfl⟩ := Prod.mk.inj (Option.some.inj (hget.symm.trans hget'))
      have hfind := Node.find_of_followed (hway path rfl) fun data' overwrite' hget' => by
        obtain ⟨rfl, rfl⟩ := Prod.mk.inj (Option.some.inj (hget.symm.trans hget'))
        exact hkey
      simpa [find, hget] using hfind

/-! ## Runs -/

variable {finish : BinarySearchTree δ × Finding}
  {events : List (Event (BinarySearchTree δ × Finding) (Turn (NodeWrite δ)))}

/-- In no state of a run does the walk read through a null pointer. -/
theorem atNode_run (hrun : Run (findParty k).step (tree, .called []) events finish) :
    finish.1.AtNode finish.2 := by
  refine (Party.rely AtNode (fun _ _ _ => True) hrun trivial
    (fun event _ => Party.relied_true event) (fun _ _ _ _ hstep _ => ?_)
    fun _ _ _ _ hstep _ h => h.write hstep).1
  obtain ⟨rfl, hturn⟩ := findStep_turn hstep
  exact AtNode.turn hturn

/-- A node that the walk returns was live at a moment of the walk. -/
theorem exists_live (hrun : Run (findParty k).step (tree, .called []) events finish)
    {result : Option Path} (hanswer : finish.2.result? = some result) :
    ∃ middle, (findParty k).Passes (tree, .called []) events finish middle ∧
      ∀ path ∈ result, ∃ data, middle.node.get? path = some (data, false) := by
  refine (reads_findParty k).linearization (fun _ _ => True) (fun _ _ _ => True)
    Finding.result? (fun tree result => ∀ path ∈ result, ∃ data,
      tree.node.get? path = some (data, false)) hrun trivial rfl
    (fun event _ => Party.relied_true event) (fun _ _ _ _ _ _ => trivial)
    (fun _ _ _ _ _ _ _ => trivial) (fun _ _ _ _ _ hstep _ hself path hpath => ?_) hanswer
  obtain rfl := eq_returned hself
  exact (findStep_turn hstep).2.live hpath

/-- It was live under the key, if every datum that takes over a node of a call is as the comparisons
made there have shown. -/
theorem exists_found (hrun : Run (findParty k).step (tree, .called []) events finish)
    {result : Option Path} (hanswer : finish.2.result? = some result)
    (htests : ∀ event ∈ events, Party.Relied (KeepsTests k) event) :
    ∃ middle, (findParty k).Passes (tree, .called []) events finish middle ∧
      ∀ path ∈ result, ∃ data, middle.node.get? path = some (data, false) ∧ key data = k := by
  refine (reads_findParty k).linearization (Tested k) (KeepsTests k) Finding.result?
    (fun tree result => ∀ path ∈ result, ∃ data,
      tree.node.get? path = some (data, false) ∧ key data = k) hrun (tested_called []) rfl htests
    (fun _ _ _ _ hstep htested => ?_)
    (fun _ _ _ _ hstep hkeeps htested => htested.write hstep hkeeps)
    (fun _ _ _ _ _ hstep htested hself path hpath => ?_) hanswer
  · obtain ⟨rfl, hturn⟩ := findStep_turn hstep
    exact htested.turn hturn
  · obtain rfl := eq_returned hself
    exact (findStep_turn hstep).2.found htested hpath

/-- The walk returns what a `find` in one step returns at a moment of it, if also every datum that
takes over a node behind the walk turns it to the side it has gone to. -/
theorem exists_find_eq (hrun : Run (findParty k).step (tree, .called []) events finish)
    {result : Option Path} (hanswer : finish.2.result? = some result)
    (htests : ∀ event ∈ events, Party.Relied (KeepsTests k) event)
    (hturns : ∀ event ∈ events, Party.Relied (KeepsTurns k) event) :
    ∃ middle, (findParty k).Passes (tree, .called []) events finish middle ∧
      middle.find k = result := by
  refine (reads_findParty k).linearization
    (fun tree self => tree.Tested k self ∧ tree.OnWay k self)
    (fun tree self write => tree.KeepsTests k self write ∧ tree.KeepsTurns k self write)
    Finding.result? (fun tree result => tree.find k = result) hrun
    ⟨tested_called [], onWay_called_nil⟩ rfl
    (fun event hevent => (htests event hevent).and (hturns event hevent))
    (fun _ _ _ _ hstep h => ?_)
    (fun _ _ _ _ hstep hkeeps h => ⟨h.1.write hstep hkeeps.1, h.2.write hstep hkeeps.2⟩)
    (fun _ _ _ _ _ hstep h hself => ?_) hanswer
  · obtain ⟨rfl, hturn⟩ := findStep_turn hstep
    exact ⟨h.1.turn hturn, h.2.turn hturn⟩
  · obtain rfl := eq_returned hself
    exact (findStep_turn hstep).2.find_eq h.1 h.2

/-- A `find` among the writes of others. It goes on until it returns. A node that it returns was
live at a moment of the walk. It was live under the key, if every datum that takes over the node of
a call is as the comparisons made there have shown; and `find` returns what it does in one step at a
moment of the walk, if also every datum that takes over a node behind the walk turns it to the side
it has gone to. -/
theorem find_linearizable {k : κ} {tree : BinarySearchTree δ}
    {finish : BinarySearchTree δ × Finding}
    {events : List (Event (BinarySearchTree δ × Finding) (Turn (NodeWrite δ)))}
    (hrun : Run (findParty k).step (tree, .called []) events finish) :
    (finish.2.result? = none → ∃ next, finish.1.findStep k finish.2 = some next) ∧
    ∀ result, finish.2 = .returned result →
      (∃ middle, (findParty k).Passes (tree, .called []) events finish middle ∧
        ∀ path ∈ result, ∃ data, middle.node.get? path = some (data, false)) ∧
      ((∀ event ∈ events, Party.Relied (KeepsTests k) event) →
        ∃ middle, (findParty k).Passes (tree, .called []) events finish middle ∧
          ∀ path ∈ result, ∃ data, middle.node.get? path = some (data, false) ∧ key data = k) ∧
      ((∀ event ∈ events, Party.Relied (KeepsTests k) event) →
        (∀ event ∈ events, Party.Relied (KeepsTurns k) event) →
        ∃ middle, (findParty k).Passes (tree, .called []) events finish middle ∧
          middle.find k = result) := by
  refine ⟨(atNode_run hrun).exists_findStep k, fun result hresult => ?_⟩
  have hanswer : finish.2.result? = some result := by rw [hresult]; rfl
  exact ⟨exists_live hrun hanswer, exists_found hrun hanswer, exists_find_eq hrun hanswer⟩

/-- A walk for 9 that stands at the flagged 7 when 8 is inserted there, and at the link below it
when 9 is inserted. -/
theorem find_linearizable_inserted : ∃ events finish,
    Run (findParty (9 : Int)).step (⟨.node (⟨7⟩ : DataX) true .nullptr .nullptr, []⟩, .called [])
      events finish ∧
    events.map Event.action = [.own, .own, .other (.assign [] ⟨8⟩), .other (.flag [] false), .own,
      .other (.link [.right] ⟨9⟩), .own, .own, .own, .own] ∧
    finish.2 = .returned (some [.right]) ∧
    ∃ middle, (findParty (9 : Int)).Passes (⟨.node ⟨7⟩ true .nullptr .nullptr, []⟩, .called [])
      events finish middle ∧ middle.find (9 : Int) = some [.right] := by
  have hrun : Run (findParty (9 : Int)).step
      (⟨.node (⟨7⟩ : DataX) true .nullptr .nullptr, []⟩, .called [])
      ([] ++ [⟨_, .own, _⟩] ++ [⟨_, .own, _⟩] ++ [⟨_, .other (.assign [] ⟨8⟩), _⟩] ++
        [⟨_, .other (.flag [] false), _⟩] ++ [⟨_, .own, _⟩] ++
        [⟨_, .other (.link [.right] ⟨9⟩), _⟩] ++ [⟨_, .own, _⟩] ++ [⟨_, .own, _⟩] ++
        [⟨_, .own, _⟩] ++ [⟨_, .own, _⟩]) _ :=
    .snoc (.snoc (.snoc (.snoc (.snoc (.snoc (.snoc (.snoc (.snoc (.snoc .refl rfl) rfl) rfl) rfl)
      rfl) rfl) rfl) rfl) rfl) rfl
  exact ⟨_, _, hrun, rfl, rfl, ((find_linearizable hrun).2 _ rfl).2.2 (by decide) (by decide)⟩

/-- Where 7 takes over the flagged node of 9 between the comparisons and the test of the flag, a
walk for 9 returns the node, under which 9 was never live. -/
theorem find_taken_over : ∃ events finish,
    Run (findParty (9 : Int)).step (⟨.node (⟨9⟩ : DataX) true .nullptr .nullptr, []⟩, .called [])
      events finish ∧
    finish.2 = .returned (some []) ∧
    ∀ event ∈ events, event.after.1.node.get? [] ≠ some (⟨9⟩, false) := by
  have hrun : Run (findParty (9 : Int)).step
      (⟨.node (⟨9⟩ : DataX) true .nullptr .nullptr, []⟩, .called [])
      ([] ++ [⟨_, .own, _⟩] ++ [⟨_, .own, _⟩] ++ [⟨_, .own, _⟩] ++
        [⟨_, .other (.assign [] ⟨7⟩), _⟩] ++ [⟨_, .other (.flag [] false), _⟩] ++
        [⟨_, .own, _⟩]) _ :=
    .snoc (.snoc (.snoc (.snoc (.snoc (.snoc .refl rfl) rfl) rfl) rfl) rfl) rfl
  exact ⟨_, _, hrun, rfl, by decide⟩

end BinarySearchTree

end Wheespa
