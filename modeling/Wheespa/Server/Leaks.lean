import Wheespa.Server.TreeStore

/-!
# Nodes that are lost

`insert` allocates a node before it looks for a place for the datum. Where it takes over a flagged
node, the new node is linked nowhere, and nothing deletes it. As long as no LIST_ONLINE message of a
registered user is handled, each node that has been allocated stays linked, or it is lost from the
start: it is lost exactly if its insertion has taken over another one.
-/

namespace Wheespa

open Transition

universe v

namespace Store

variable {δ : Type} {κ : Type v}

theorem isSome_modify (store : Store δ) (address other : Address) (f : Cell δ → Cell δ) :
    (store.modify address f other).isSome = (store other).isSome := by
  by_cases heq : other = address
  · rw [heq, modify_self, Option.isSome_map]
  · rw [modify_of_ne heq]

/-- The loop of `insert` allocates and frees nothing. -/
theorem isSome_insertLoop [LinearOrder κ] [Keyed δ κ] {store after : Store δ} {tmp : Address}
    {data : δ} {turns : Nat} {pointer : Option Address}
    (h : store.insertLoop tmp data turns pointer = some after) (address : Address) :
    (after address).isSome = (store address).isSome := by
  induction turns generalizing pointer with
  | zero => simp [insertLoop] at h
  | succ turns ih =>
      cases pointer with
      | none => simp [insertLoop] at h
      | some node =>
          cases hcell : store node with
          | none => simp [insertLoop, hcell] at h
          | some cell =>
              rw [insertLoop_succ turns hcell] at h
              split_ifs at h
              · obtain rfl := Option.some.inj h
                rw [isSome_modify, isSome_modify]
              · obtain rfl := Option.some.inj h
                rw [isSome_modify, isSome_modify]
              · obtain rfl := Option.some.inj h
                rw [isSome_modify, isSome_modify]
              · exact ih h
              · exact ih h

end Store

/-- The entries of a labelled tree after an insertion. -/
theorem Node.get?_placeStored {δ : Type} {κ : Type v} [LinearOrder κ] [Keyed δ κ] (tmp : Address)
    (data : δ) (tree : Node (Address × δ)) (path : Path) :
    (tree.placeStored tmp data).get? path =
      if path = tree.erase.placeAt data then
        some ((((tree.get? path).map fun entry => entry.1.1).getD tmp, data), false)
      else tree.get? path := by
  induction tree generalizing path with
  | nullptr => rcases path with _ | ⟨_ | _, path⟩ <;> simp [placeStored, erase, placeAt, new]
  | node entry overwrite left right ihleft ihright =>
      cases overwrite with
      | true => rcases path with _ | ⟨_ | _, path⟩ <;> simp [placeStored, erase, placeAt]
      | false =>
          by_cases hle : key data ≤ key entry.2
          · rcases path with _ | ⟨_ | _, path⟩ <;>
              simp [placeStored, erase, placeAt, hle, ihleft]
          · rcases path with _ | ⟨_ | _, path⟩ <;>
              simp [placeStored, erase, placeAt, hle, ihright]

namespace TreeStore

/-- The server's tree links the node. -/
def Linked (memory : TreeStore) (address : Address) : Prop :=
  ∃ path, memory.nodeAt path = some address

/-- The node is allocated, and the server's tree does not link it. -/
def Lost (memory : TreeStore) (address : Address) : Prop :=
  (memory.cells address).isSome ∧ ¬ memory.Linked address

/-- The flag of a node of the server's tree is cleared. -/
def TakesOver (before after : TreeStore) : Prop :=
  ∃ path address, before.nodeAt path = some address ∧
    (before.cells address).any Cell.overwrite = true ∧
    (after.cells address).any Cell.overwrite = false

/-- The node that a step allocates. -/
def Action.new? : Action → Option Address
  | .insert _ tmp => some tmp
  | .remove _ | .mark _ | .internal .. | .listOnline _ => none

/-- What a step does to the nodes: it allocates none and leaves the links, or it allocates one that
it links or loses. -/
inductive Allocates (before after : TreeStore) : Option Address → Prop where
  | nothing (hcells : ∀ address, (after.cells address).isSome = (before.cells address).isSome)
      (hlinks : ∀ path, after.nodeAt path = before.nodeAt path) : Allocates before after none
  | linked {tmp : Address} {place : Path} (hfresh : before.cells tmp = none)
      (hcells : ∀ address, (after.cells address).isSome ↔
        (before.cells address).isSome ∨ address = tmp)
      (hkept : ¬ TakesOver before after) (hplace : before.nodeAt place = none)
      (hlinks : ∀ path, after.nodeAt path =
        if path = place then some tmp else before.nodeAt path) :
      Allocates before after (some tmp)
  | lost {tmp : Address} (hfresh : before.cells tmp = none)
      (hcells : ∀ address, (after.cells address).isSome ↔
        (before.cells address).isSome ∨ address = tmp)
      (htaken : TakesOver before after)
      (hlinks : ∀ path, after.nodeAt path = before.nodeAt path) :
      Allocates before after (some tmp)

/-! ## Steps -/

theorem Holds.flag {memory : TreeStore} {tree : Node (Address × WheespaConnected)}
    (h : memory.Holds tree) {path : Path} {address : Address} {data : WheespaConnected}
    {overwrite : Bool} (hget : tree.get? path = some ((address, data), overwrite)) :
    (memory.cells address).any Cell.overwrite = overwrite := by
  obtain ⟨cell, hcell, -, rfl⟩ := Node.cell_of_get? h.represents hget
  rw [hcell, Option.any_some]

/-- An insertion allocates the new node, and no other. -/
theorem isSome_insert {memory after : TreeStore} {data : WheespaConnected} {tmp : Address}
    (h : memory.insert data tmp = some after) (address : Address) :
    (after.cells address).isSome ↔ (memory.cells address).isSome ∨ address = tmp := by
  have hupdate : (Function.update memory.cells tmp
      (some ⟨data, false, none, none, none⟩) address).isSome ↔
        (memory.cells address).isSome ∨ address = tmp := by
    by_cases heq : address = tmp
    · simp [heq]
    · simp [heq]
  unfold TreeStore.insert at h
  split at h
  · obtain rfl := Option.some.inj h
    exact hupdate
  · obtain ⟨cells, hloop, rfl⟩ := Option.map_eq_some_iff.mp h
    show (cells address).isSome ↔ _
    rw [Store.isSome_insertLoop hloop]
    exact hupdate

/-- An insertion links the new node where the walk comes to a null link, and loses it where it comes
to a flagged node. -/
theorem Holds.allocates_insert {memory after : TreeStore}
    {tree : Node (Address × WheespaConnected)} (h : memory.Holds tree) {data : WheespaConnected}
    {tmp : Address} (hfresh : memory.cells tmp = none)
    (hinsert : memory.insert data tmp = some after)
    (hafter : after.Holds (tree.placeStored tmp data)) : Allocates memory after (some tmp) := by
  have hentry (path : Path) : after.nodeAt path =
      if path = tree.erase.placeAt data then some ((memory.nodeAt path).getD tmp)
      else memory.nodeAt path := by
    rw [hafter.nodeAt, h.nodeAt, Node.get?_placeStored]
    split <;> rfl
  rcases tree.erase.get?_placeAt data with hnone | ⟨taken, hflagged⟩
  · rw [Node.get?_erase, Option.map_eq_none_iff] at hnone
    have hplace : memory.nodeAt (tree.erase.placeAt data) = none := by
      rw [h.nodeAt, hnone]
      rfl
    refine .linked hfresh (isSome_insert hinsert) ?_ hplace fun path => ?_
    · intro ⟨path, address, hpath, hset, hclear⟩
      obtain ⟨data', overwrite, hget⟩ := h.get?_of_nodeAt hpath
      have hne : path ≠ tree.erase.placeAt data := by
        intro heq
        rw [heq, hnone] at hget
        cases hget
      have hget' : (tree.placeStored tmp data).get? path = some ((address, data'), overwrite) := by
        rw [Node.get?_placeStored, if_neg hne, hget]
      rw [h.flag hget] at hset
      rw [hafter.flag hget', hset] at hclear
      cases hclear
    · rw [hentry]
      split
      · next heq => rw [heq, hplace, Option.getD_none]
      · rfl
  · rw [Node.get?_erase] at hflagged
    obtain ⟨⟨⟨address, data'⟩, overwrite⟩, hget, hentry'⟩ := Option.map_eq_some_iff.mp hflagged
    obtain ⟨rfl, rfl⟩ := Prod.mk.inj hentry'
    have hplace : memory.nodeAt (tree.erase.placeAt data) = some address := by
      rw [h.nodeAt, hget]
      rfl
    have hget' : (tree.placeStored tmp data).get? (tree.erase.placeAt data) =
        some ((address, data), false) := by
      rw [Node.get?_placeStored, if_pos rfl, hget]
      rfl
    refine .lost hfresh (isSome_insert hinsert) ⟨_, address, hplace, h.flag hget,
      hafter.flag hget'⟩ fun path => ?_
    rw [hentry]
    split
    · next heq => rw [heq, hplace, Option.getD_some]
    · rfl

/-- A mark allocates nothing. -/
theorem Holds.allocates_mark {memory : TreeStore} {tree : Node (Address × WheespaConnected)}
    (h : memory.Holds tree) {path : Path} {address : Address} {data : WheespaConnected}
    {overwrite : Bool} (hget : tree.get? path = some ((address, data), overwrite)) :
    Allocates memory (memory.markOverwrite address) none := by
  refine .nothing (fun other => Store.isSome_modify ..) fun other => ?_
  rw [(h.mark hget).nodeAt, h.nodeAt, Node.get?_setOverwrite]
  split
  · next heq =>
      rw [heq, Option.map_map]
      rfl
  · rfl

/-- A spared step allocates the node of its insertion, and no other. -/
theorem Holds.allocates {memory after : TreeStore} {tree : Node (Address × WheespaConnected)}
    (h : memory.Holds tree) {action : Action} (hstep : memory.step action = some after)
    (hspared : memory.Spared action) : Allocates memory after action.new? := by
  have hsame : Allocates memory memory none := .nothing (fun _ => rfl) fun _ => rfl
  cases action with
  | insert data tmp =>
      obtain ⟨found, hfound, hstep⟩ := Option.bind_eq_some_iff.mp hstep
      obtain ⟨⟨hnone, hfresh⟩, hinsert⟩ := Option.ite_none_right_eq_some.mp hstep
      have hempty := Option.isNone_iff_eq_none.mp hfresh
      obtain ⟨after', hafter, hholds⟩ := h.insert (h.find_eq_none hfound hnone) hempty
      obtain rfl := Option.some.inj (hafter.symm.trans hinsert)
      exact h.allocates_insert hempty hinsert hholds
  | remove k =>
      obtain ⟨ret, hret, hstep⟩ := Option.bind_eq_some_iff.mp hstep
      obtain rfl := Option.some.inj ((h.find k).symm.trans hret)
      cases hfind : tree.erase.find k with
      | none =>
          obtain rfl : memory = after := by simpa [hfind] using hstep
          exact hsame
      | some path =>
          obtain ⟨data, hdata, _⟩ := Node.get?_of_find hfind
          rw [Node.get?_erase] at hdata
          obtain ⟨⟨⟨address, _⟩, _⟩, hget, _⟩ := Option.map_eq_some_iff.mp hdata
          obtain rfl : memory.markOverwrite address = after := by
            simpa [hfind, hget] using hstep
          exact h.allocates_mark hget
  | mark path =>
      obtain ⟨address, haddress, hstep⟩ := Option.bind_eq_some_iff.mp hstep
      obtain ⟨cell, hcell, hstep⟩ := Option.bind_eq_some_iff.mp hstep
      obtain ⟨_, hstep⟩ := Option.ite_none_right_eq_some.mp hstep
      obtain rfl := Option.some.inj hstep
      obtain ⟨data, overwrite, hget⟩ := h.get?_of_nodeAt haddress
      exact h.allocates_mark hget
  | internal path recipient =>
      obtain ⟨user, _, hstep⟩ := Option.bind_eq_some_iff.mp hstep
      obtain ⟨cell, _, hstep⟩ := Option.bind_eq_some_iff.mp hstep
      obtain ⟨found, _, hstep⟩ := Option.bind_eq_some_iff.mp hstep
      obtain rfl := Option.some.inj hstep
      exact hsame
  | listOnline path =>
      obtain rfl := listOnline_of_spared hstep hspared
      exact hsame

/-! ## Links -/

/-- What a step links. -/
theorem Allocates.linked_iff {before after : TreeStore} {new : Option Address}
    (h : Allocates before after new) (address : Address) :
    after.Linked address ↔
      before.Linked address ∨ new = some address ∧ ¬ TakesOver before after := by
  cases h with
  | nothing _ hlinks => simp [Linked, hlinks]
  | @linked tmp place _ _ hkept hplace hlinks =>
      have hnew : some tmp = some address ∧ ¬ TakesOver before after ↔ tmp = address := by
        simp [hkept]
      rw [hnew]
      constructor
      · intro ⟨path, hpath⟩
        rw [hlinks] at hpath
        split at hpath
        · exact .inr (Option.some.inj hpath)
        · exact .inl ⟨path, hpath⟩
      · intro hor
        rcases hor with ⟨path, hpath⟩ | rfl
        · have hne : path ≠ place := by
            intro heq
            rw [heq, hplace] at hpath
            cases hpath
          exact ⟨path, by rw [hlinks, if_neg hne, hpath]⟩
        · exact ⟨place, by rw [hlinks, if_pos rfl]⟩
  | lost _ _ htaken hlinks => simp [Linked, hlinks, htaken]

/-- What a step loses, where only allocated nodes are linked. -/
theorem Allocates.lost_iff {before after : TreeStore} {new : Option Address}
    (h : Allocates before after new)
    (hallocated : ∀ address, before.Linked address → (before.cells address).isSome)
    (address : Address) :
    after.Lost address ↔ before.Lost address ∨ new = some address ∧ TakesOver before after := by
  rw [Lost, Lost, h.linked_iff]
  cases h with
  | nothing hcells _ => simp [hcells]
  | @linked tmp _ hfresh hcells hkept _ _ =>
      rw [hcells]
      by_cases heq : address = tmp
      · simp [heq, hfresh, hkept]
      · simp [heq, Ne.symm heq]
  | @lost tmp hfresh hcells htaken _ =>
      rw [hcells]
      by_cases heq : address = tmp
      · have hnot : ¬ before.Linked tmp := by
          intro hlinked
          simpa [hfresh] using hallocated tmp hlinked
        simp [heq, hfresh, htaken, hnot]
      · simp [heq, Ne.symm heq]

theorem Allocates.fresh {before after : TreeStore} {address : Address}
    (h : Allocates before after (some address)) : before.cells address = none := by
  cases h with
  | linked hfresh => exact hfresh
  | lost hfresh => exact hfresh

/-! ## Runs -/

/-- The server's tree is a tree in memory, and each node that the run has allocated is linked or
lost: it is lost exactly if its insertion has taken over another one. No node is allocated twice. -/
structure Accounted (events : List (Event TreeStore Action)) (finish : TreeStore) : Prop where
  holds : ∃ tree, finish.Holds tree
  linked : ∀ address, finish.Linked address ↔ ∃ event ∈ events,
    event.action.new? = some address ∧ ¬ TakesOver event.before event.after
  lost : ∀ address, finish.Lost address ↔ ∃ event ∈ events,
    event.action.new? = some address ∧ TakesOver event.before event.after
  nodup : (events.filterMap fun event => event.action.new?).Nodup

theorem Accounted.allocated {events : List (Event TreeStore Action)} {memory : TreeStore}
    (h : Accounted events memory) {address : Address} (hlinked : memory.Linked address) :
    (memory.cells address).isSome := by
  obtain ⟨tree, hholds⟩ := h.holds
  obtain ⟨path, hpath⟩ := hlinked
  exact hholds.wellFormed.allocated path address hpath

/-- A node that is not in use has not been allocated. -/
theorem Accounted.not_mem {events : List (Event TreeStore Action)} {memory : TreeStore}
    (h : Accounted events memory) {address : Address} (hfresh : memory.cells address = none) :
    address ∉ events.filterMap fun event => event.action.new? := by
  intro hmem
  obtain ⟨event, hevent, hnew⟩ := List.mem_filterMap.mp hmem
  have hsome : (memory.cells address).isSome := by
    by_cases htaken : TakesOver event.before event.after
    · exact ((h.lost address).mpr ⟨event, hevent, hnew, htaken⟩).1
    · exact h.allocated ((h.linked address).mpr ⟨event, hevent, hnew, htaken⟩)
  simp [hfresh] at hsome

/-- A step keeps the account. -/
theorem Accounted.snoc {events : List (Event TreeStore Action)} {before after : TreeStore}
    (h : Accounted events before) (hholds : ∃ tree, after.Holds tree) {action : Action}
    (hallocates : Allocates before after action.new?) :
    Accounted (events ++ [⟨before, action, after⟩]) after := by
  have hexists (p : Event TreeStore Action → Prop) : (∃ event ∈ events ++ [⟨before, action, after⟩],
      p event) ↔ (∃ event ∈ events, p event) ∨ p ⟨before, action, after⟩ := by
    simp only [List.mem_append, List.mem_singleton, or_and_right, exists_or, exists_eq_left]
  refine ⟨hholds, fun address => ?_, fun address => ?_, ?_⟩
  · rw [hallocates.linked_iff, h.linked, hexists]
  · rw [hallocates.lost_iff fun _ => h.allocated, h.lost, hexists]
  · rw [List.filterMap_append, List.nodup_append']
    refine ⟨h.nodup, ?_, ?_⟩
    · cases hnew : action.new? <;> simp [hnew]
    · intro address hmem hmem'
      have hnew : action.new? = some address := by simpa using hmem'
      exact h.not_mem (hnew ▸ hallocates).fresh hmem

theorem accounted_start : Accounted [] start := by
  have hlinked (address : Address) : ¬ start.Linked address := by
    intro ⟨path, hpath⟩
    cases path <;> cases hpath
  refine ⟨⟨.nullptr, rfl, trivial, List.nodup_nil, le_rfl⟩, fun address => ?_, fun address => ?_,
    List.nodup_nil⟩
  · simp [hlinked]
  · simp [Lost, start]

/-- In a run in which no LIST_ONLINE message of a registered user is handled, the nodes that are
lost are those whose insertion has taken over another node. -/
theorem accounted_of_run {events : List (Event TreeStore Action)} {finish : TreeStore}
    (hrun : Run step start events finish)
    (hspared : ∀ event ∈ events, event.before.Spared event.action) : Accounted events finish := by
  induction hrun with
  | refl => exact accounted_start
  | @snoc events before after action hrun hstep ih =>
      rw [List.forall_mem_append, List.forall_mem_singleton] at hspared
      have h := ih hspared.1
      obtain ⟨tree, hholds⟩ := h.holds
      obtain ⟨tree', hholds', _⟩ := hholds.step hstep hspared.2
      exact h.snoc ⟨tree', hholds'⟩ (hholds.allocates hstep hspared.2)

/-- Bob disconnects, and ann is put in his node: the node that was allocated for her is lost. -/
theorem accounted_take_over : ∃ events finish, Run step start events finish ∧
    events.map Event.action =
      [.insert ⟨"bob".toList, some 1, false, true, []⟩ 0, .mark [],
        .insert ⟨"ann".toList, some 2, false, true, []⟩ 1] ∧
    finish.Linked 0 ∧ finish.Lost 1 := by
  have hrun : Run step start
      ((([] ++ [⟨_, .insert ⟨"bob".toList, some 1, false, true, []⟩ 0, _⟩]) ++
        [⟨_, .mark [], _⟩]) ++ [⟨_, .insert ⟨"ann".toList, some 2, false, true, []⟩ 1, _⟩]) _ :=
    .snoc (.snoc (.snoc .refl rfl) rfl) rfl
  have haccounted := accounted_of_run hrun (by simp [Spared])
  exact ⟨_, _, hrun, rfl, ⟨[], rfl⟩,
    (haccounted.lost 1).mpr ⟨_, List.mem_concat_self, rfl, [], 0, rfl, rfl, rfl⟩⟩

end TreeStore

end Wheespa
