import Mathlib.Data.Int.Order.Basic
import Mathlib.Logic.Function.Basic
import Wheespa.BinaryTree.Ordered
import Wheespa.Library.Transition

/-!
# The tree of connected users against a finite map

`History` pairs the tree with the abstract map from the keys that are online to the data they were
last inserted with. Its steps are the three operations the server makes: an `insert` whose key
`find` has just not found, a `remove`, and the mark the service loop leaves on a disconnect.

`refines_iff_admits` is the main result. The tree agrees with the map in every state of a run
exactly when no insertion of the run takes over a flagged node between live data it does not
separate (`Node.Admits`); the binary search tree has no such condition of its own.
-/

namespace Wheespa

universe u v

/-- The data that `find(key)` leads to. -/
def BinarySearchTree.lookup {δ : Type u} {κ : Type v} [LinearOrder κ] [Keyed δ κ]
    (tree : BinarySearchTree δ) (k : κ) : Option δ :=
  (tree.find k).bind fun path => (tree.node.get? path).map Prod.fst

/-- The tree and the abstract map of the users that are online. -/
structure History (δ : Type u) (κ : Type v) where
  tree : BinarySearchTree δ
  online : κ → Option δ

namespace History

open Transition

variable {δ : Type u} {κ : Type v}

/-- The operations on the tree of connected users. -/
inductive Operation (δ : Type u) (κ : Type v) where
  | insert (data : δ)
  | remove (k : κ)
  | mark (path : Path)

/-- The empty tree and the empty map. -/
def start : History δ κ :=
  ⟨.empty, fun _ => none⟩

/-- The keys and data of the map are those of the live nodes. -/
def Tracks [Keyed δ κ] (history : History δ κ) : Prop :=
  ∀ k data, history.online k = some data ↔ data ∈ history.tree.node.live ∧ key data = k

variable [LinearOrder κ] [Keyed δ κ]

/-- One operation. An insertion is made only for a key that `find` does not find, and only a live
node is marked. -/
def step (history : History δ κ) : Operation δ κ → Option (History δ κ)
  | .insert data =>
      if (history.tree.find (key data)).isNone then
        (history.tree.insert data).map fun tree =>
          ⟨tree, Function.update history.online (key data) (some data)⟩
      else none
  | .remove k =>
      some ⟨(history.tree.remove k).2, Function.update history.online k none⟩
  | .mark path =>
      match history.tree.node.get? path with
      | some (data, false) =>
          some ⟨history.tree.markOverwrite path, Function.update history.online (key data) none⟩
      | _ => none

/-- A checked insertion completes: no link it follows is null. -/
theorem step_insert {history : History δ κ} {data : δ}
    (hfind : history.tree.find (key data) = none) :
    history.step (.insert data) =
      some ⟨{ history.tree with node := history.tree.node.place data },
        Function.update history.online (key data) (some data)⟩ := by
  simp [step, hfind, BinarySearchTree.insert_of_find hfind]

/-- What a step can do. -/
theorem step_cases {before after : History δ κ} {operation : Operation δ κ}
    (h : before.step operation = some after) :
    (∃ data, operation = .insert data ∧ before.tree.find (key data) = none ∧
      after = ⟨{ before.tree with node := before.tree.node.place data },
        Function.update before.online (key data) (some data)⟩) ∨
    (∃ k, operation = .remove k ∧
      after = ⟨(before.tree.remove k).2, Function.update before.online k none⟩) ∨
    (∃ path data, operation = .mark path ∧ before.tree.node.get? path = some (data, false) ∧
      after = ⟨before.tree.markOverwrite path,
        Function.update before.online (key data) none⟩) := by
  cases operation with
  | insert data =>
      left
      cases hfind : before.tree.find (key data) with
      | none =>
          rw [step_insert hfind] at h
          exact ⟨data, rfl, hfind, (Option.some.inj h).symm⟩
      | some path => simp [step, hfind] at h
  | remove k => exact .inr (.inl ⟨k, rfl, (Option.some.inj h).symm⟩)
  | mark path =>
      right; right
      simp only [step] at h
      split at h
      · next data hdata => exact ⟨path, data, rfl, hdata, (Option.some.inj h).symm⟩
      · simp at h

/-- `find` answers every key as the abstract map does. -/
def Refines (history : History δ κ) : Prop :=
  ∀ k, history.tree.lookup k = history.online k

/-- An insertion that takes over a flagged node has its key between the live data around it. -/
def Admitted (history : History δ κ) : Operation δ κ → Prop
  | .insert data => history.tree.node.Admits data
  | .remove _ | .mark _ => True

instance decidableAdmitted (history : History δ κ) :
    (operation : Operation δ κ) → Decidable (history.Admitted operation)
  | .insert data => inferInstanceAs (Decidable (history.tree.node.Admits data))
  | .remove _ | .mark _ => isTrue trivial

/-- What every reachable state has as long as insertions are admitted. -/
structure Ordered (history : History δ κ) : Prop where
  liveOrdered : history.tree.node.LiveOrdered
  tracks : history.Tracks

/-- The lookup of the key of a live node of an ordered tree returns its datum. -/
theorem lookup_of_liveOrdered {tree : BinarySearchTree δ} (h : tree.node.LiveOrdered) {data : δ}
    (hdata : data ∈ tree.node.live) : tree.lookup (key data) = some data := by
  obtain ⟨path, hpath⟩ := Node.mem_live.mp hdata
  have hfind : tree.find (key data) = some path := h.find hpath
  simp [BinarySearchTree.lookup, hfind, hpath]

/-- A lookup returns a live datum with the key asked for. -/
theorem mem_live_of_lookup {tree : BinarySearchTree δ} {k : κ} {data : δ}
    (h : tree.lookup k = some data) : data ∈ tree.node.live ∧ key data = k := by
  obtain ⟨path, hfind, hpath⟩ := Option.bind_eq_some_iff.mp h
  obtain ⟨found, hfound, hkey⟩ := Node.get?_of_find hfind
  obtain rfl : found = data := by simpa [hfound] using hpath
  exact ⟨Node.mem_live.mpr ⟨path, hfound⟩, hkey⟩

/-- An ordered tree that tracks the map refines it. -/
theorem Ordered.refines {history : History δ κ} (h : history.Ordered) : history.Refines := by
  intro k
  apply Option.ext
  intro data
  rw [h.tracks k data]
  constructor
  · exact mem_live_of_lookup
  · rintro ⟨hdata, rfl⟩
    exact lookup_of_liveOrdered h.liveOrdered hdata

/-- Where the live keys are distinct and tracked, only an ordered tree refines the map. -/
theorem ordered_of_refines {history : History δ κ} (htracks : history.Tracks)
    (hnodup : (history.tree.node.live.map key).Nodup) (h : history.Refines) : history.Ordered := by
  refine ⟨Node.liveOrdered_of_find fun path data hdata => ?_, htracks⟩
  have hlive : data ∈ history.tree.node.live := Node.mem_live.mpr ⟨path, hdata⟩
  have hlookup : history.tree.lookup (key data) = some data := by
    rw [h, htracks]
    exact ⟨hlive, rfl⟩
  obtain ⟨other, hfind, _⟩ := Option.bind_eq_some_iff.mp hlookup
  obtain ⟨found, hfound, hkey⟩ := Node.get?_of_find hfind
  rw [Node.live_path_unique hnodup hdata hfound hkey.symm]
  exact hfind

/-- In an ordered history a key that `find` does not find is the key of no live datum. -/
theorem Ordered.not_mem_of_find {history : History δ κ} (h : history.Ordered) {k : κ}
    (hfind : history.tree.find k = none) : k ∉ history.tree.node.live.map key := by
  intro hmem
  obtain ⟨data, hdata, rfl⟩ := List.mem_map.mp hmem
  have hlookup := lookup_of_liveOrdered h.liveOrdered hdata
  simp [BinarySearchTree.lookup, hfind] at hlookup

/-- A checked insertion into an ordered history keeps the map tracked and the keys distinct. -/
theorem Ordered.place {history : History δ κ} (h : history.Ordered) {data : δ}
    (hfind : history.tree.find (key data) = none) :
    (⟨{ history.tree with node := history.tree.node.place data },
      Function.update history.online (key data) (some data)⟩ : History δ κ).Tracks ∧
    ((history.tree.node.place data).live.map key).Nodup := by
  have hnew := h.not_mem_of_find hfind
  have hperm := Node.live_place history.tree.node data
  constructor
  · intro k other
    have hmem : other ∈ (history.tree.node.place data).live ↔
        other = data ∨ other ∈ history.tree.node.live := by
      rw [hperm.mem_iff, List.mem_cons]
    have hold := h.tracks k other
    -- the key of the new datum is mapped to it, and no other key changes
    by_cases hk : k = key data
    · subst hk
      simp only [Function.update_self, hmem, Option.some.injEq]
      constructor
      · rintro rfl
        exact ⟨.inl rfl, rfl⟩
      · rintro ⟨rfl | hlive, hkey⟩
        · rfl
        · exact absurd (hkey ▸ List.mem_map_of_mem hlive) hnew
    · simp only [Function.update_of_ne hk, hmem]
      rw [hold]
      constructor
      · rintro ⟨hlive, rfl⟩
        exact ⟨.inr hlive, rfl⟩
      · rintro ⟨rfl | hlive, rfl⟩
        · exact absurd rfl hk
        · exact ⟨hlive, rfl⟩
  · rw [(hperm.map key).nodup_iff, List.map_cons, List.nodup_cons]
    exact ⟨hnew, h.liveOrdered.nodup⟩

/-- Marking a live node of an ordered history takes its key offline. -/
theorem Ordered.mark {history : History δ κ} (h : history.Ordered) {path : Path} {data : δ}
    (hdata : history.tree.node.get? path = some (data, false)) :
    (⟨history.tree.markOverwrite path,
      Function.update history.online (key data) none⟩ : History δ κ).Ordered := by
  refine ⟨h.liveOrdered.setOverwrite path, fun k other => ?_⟩
  have hperm := Node.live_setOverwrite hdata
  have hnodup : ((data :: (history.tree.node.setOverwrite path).live).map key).Nodup :=
    (hperm.map key).nodup_iff.mp h.liveOrdered.nodup
  have hgone : key data ∉ (history.tree.node.setOverwrite path).live.map key :=
    (List.nodup_cons.mp hnodup).1
  by_cases hk : k = key data
  · subst hk
    simp only [Function.update_self, reduceCtorEq, false_iff, not_and]
    intro hlive hkey
    exact hgone (hkey ▸ List.mem_map_of_mem hlive)
  · simp only [Function.update_of_ne hk, BinarySearchTree.markOverwrite]
    rw [h.tracks, hperm.mem_iff, List.mem_cons]
    constructor
    · rintro ⟨rfl | hlive, rfl⟩
      · exact absurd rfl hk
      · exact ⟨hlive, rfl⟩
    · rintro ⟨hlive, rfl⟩
      exact ⟨.inr hlive, rfl⟩

/-- Removing a key from an ordered history takes it offline. -/
theorem Ordered.remove {history : History δ κ} (h : history.Ordered) (k : κ) :
    (⟨(history.tree.remove k).2, Function.update history.online k none⟩ : History δ κ).Ordered := by
  cases hfind : history.tree.find k with
  | some path =>
      obtain ⟨data, hdata, rfl⟩ := Node.get?_of_find hfind
      simpa only [BinarySearchTree.remove, hfind] using h.mark hdata
  | none =>
      have hoffline : history.online k = none := by
        rw [← h.refines k]
        simp [BinarySearchTree.lookup, hfind]
      simpa only [BinarySearchTree.remove, hfind, ← hoffline, Function.update_eq_self] using h

/-- From an ordered history, a step leads to an ordered history exactly when it is admitted. -/
theorem ordered_iff_admitted {before after : History δ κ} {operation : Operation δ κ}
    (hstep : before.step operation = some after) (h : before.Ordered) :
    after.Ordered ↔ before.Admitted operation := by
  obtain ⟨data, rfl, hfind, rfl⟩ | ⟨k, rfl, rfl⟩ | ⟨path, data, rfl, hdata, rfl⟩ :=
    step_cases hstep
  · have hiff := Node.liveOrdered_place_iff h.liveOrdered hfind
    exact ⟨fun hafter => hiff.mp hafter.liveOrdered,
      fun hadmits => ⟨hiff.mpr hadmits, (h.place hfind).1⟩⟩
  · exact iff_of_true (h.remove k) trivial
  · exact iff_of_true (h.mark hdata) trivial

/-- From an ordered history, a step that leads to a refining tree leads to an ordered history. -/
theorem ordered_of_step_refines {before after : History δ κ} {operation : Operation δ κ}
    (hstep : before.step operation = some after) (h : before.Ordered)
    (hrefines : after.Refines) : after.Ordered := by
  obtain ⟨data, rfl, hfind, rfl⟩ | ⟨k, rfl, rfl⟩ | ⟨path, data, rfl, hdata, rfl⟩ :=
    step_cases hstep
  · obtain ⟨htracks, hnodup⟩ := h.place hfind
    exact ordered_of_refines htracks hnodup hrefines
  · exact h.remove k
  · exact h.mark hdata

/-- The empty tree is ordered and tracks the empty map. -/
theorem ordered_start : (start : History δ κ).Ordered :=
  ⟨trivial, by simp [start, Tracks, BinarySearchTree.empty]⟩

/-- A run keeps the tree equal to the map of the users that are online exactly when each of its
insertions that takes over a flagged node has a key between the live data around that node. -/
theorem refines_iff_admits {events : List (Event (History δ κ) (Operation δ κ))}
    {finish : History δ κ} (hrun : Run step start events finish) :
    (∀ event ∈ events, event.after.Refines) ↔
      ∀ event ∈ events, event.before.Admitted event.action := by
  apply hrun.goal_iff Ordered ordered_start
  · intro before operation after hstep hbefore
    rw [← ordered_iff_admitted hstep hbefore]
    exact ⟨ordered_of_step_refines hstep hbefore, Ordered.refines⟩
  · intro before operation after hstep hbefore
    exact ordered_of_step_refines hstep hbefore

end History

/-! ## A lost user -/

/-- The structure of the test in `binary_tree.cc`. -/
structure DataX where
  key : Int
  deriving DecidableEq, Repr

instance : Keyed DataX Int :=
  ⟨DataX.key⟩

namespace History

open Transition

/-- A flagged node without children is taken over by any key, and the map is kept. -/
theorem refines_take_over : ∃ events finish, Run step (start : History DataX Int) events finish ∧
    events.map Event.action = [.insert ⟨27⟩, .remove 27, .insert ⟨42⟩] ∧
    ∀ event ∈ events, event.after.Refines := by
  obtain ⟨events, finish, hrun, hactions, hadmitted⟩ := Run.exists_of_trace step
    (start : History DataX Int) [.insert ⟨27⟩, .remove 27, .insert ⟨42⟩]
    (fun event => event.before.Admitted event.action) (by decide)
  exact ⟨events, finish, hrun, hactions, (refines_iff_admits hrun).mpr hadmitted⟩

/-- After 27, 14 and 35 are inserted and 27 is removed, inserting 42 takes over the root: 35 is
online and `find` does not find it. -/
theorem take_over_loses_user :
    ∃ finish, [Operation.insert ⟨27⟩, .insert ⟨14⟩, .insert ⟨35⟩, .remove 27,
        .insert ⟨42⟩].foldlM step (start : History DataX Int) = some finish ∧
      finish.online 35 = some ⟨35⟩ ∧ finish.tree.find 35 = none := by
  exact ⟨_, rfl, by decide, by decide⟩

end History

end Wheespa
