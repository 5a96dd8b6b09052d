import Mathlib.Data.List.Nodup
import Mathlib.Data.List.Pairwise
import Wheespa.BinaryTree.Live

/-!
# When live nodes can be found

`find` reaches a live node exactly when every node above it sends the search to the right side.
`Node.LiveOrdered` says this of every live node; flagged nodes may hold any key as long as they
steer the search to the live nodes below them. `remove` and disconnects keep it. An insertion keeps
it exactly under `Node.Admits`: a flagged node may take the new datum only if the live data below
that node lie on the proper sides of the new key.
-/

namespace Wheespa

universe u v

namespace Node

variable {δ : Type u} {κ : Type v} [LinearOrder κ] [Keyed δ κ]

/-- Every live datum below a node lies on the side to which its key sends `find`. -/
def LiveOrdered : Node δ → Prop
  | .nullptr => True
  | .node data _ left right =>
      (∀ below ∈ left.live, key below < key data) ∧ (∀ below ∈ right.live, key data < key below) ∧
        left.LiveOrdered ∧ right.LiveOrdered

/-- `LiveOrdered` is decidable by a traversal. -/
instance decidableLiveOrdered : (tree : Node δ) → Decidable tree.LiveOrdered
  | .nullptr => isTrue trivial
  | .node _ _ left right =>
      have := decidableLiveOrdered left
      have := decidableLiveOrdered right
      inferInstanceAs (Decidable (_ ∧ _ ∧ _ ∧ _))

/-- If the insertion of `data` ends at a flagged node, the live data to the left of that node have
smaller keys and those to its right have larger keys. -/
def Admits (data : δ) : Node δ → Prop
  | .nullptr => True
  | .node data' overwrite left right =>
      if overwrite then
        (∀ below ∈ left.live, key below < key data) ∧ ∀ below ∈ right.live, key data < key below
      else if key data ≤ key data' then left.Admits data
      else right.Admits data

/-- `Admits` is decidable by the walk of the insertion. -/
instance decidableAdmits (data : δ) : (tree : Node δ) → Decidable (tree.Admits data)
  | .nullptr => isTrue trivial
  | .node data' overwrite left right =>
      have := decidableAdmits data left
      have := decidableAdmits data right
      inferInstanceAs
        (Decidable (if overwrite then _ ∧ _ else if key data ≤ key data' then _ else _))

/-- In an ordered tree `find` finds every live node. -/
theorem LiveOrdered.find {tree : Node δ} (h : tree.LiveOrdered) {path : Path} {data : δ}
    (hdata : tree.get? path = some (data, false)) : tree.find (key data) = some path := by
  induction tree generalizing path with
  | nullptr => simp at hdata
  | node data' overwrite left right ihleft ihright =>
      obtain ⟨hbelow, habove, hleft, hright⟩ := h
      match path with
      | [] =>
          obtain ⟨rfl, rfl⟩ : data' = data ∧ overwrite = false := by simpa using hdata
          simp [Node.find]
      | .left :: path =>
          have hlt : key data < key data' := hbelow data (mem_live.mpr ⟨path, hdata⟩)
          simp [Node.find, hlt, ihleft hleft hdata]
      | .right :: path =>
          have hgt : key data' < key data := habove data (mem_live.mpr ⟨path, hdata⟩)
          have hnot : ¬ key data < key data' := not_lt_of_gt hgt
          simp [Node.find, hgt, hnot, ihright hright hdata]

/-- A tree in which `find` finds every live node is ordered. -/
theorem liveOrdered_of_find {tree : Node δ}
    (h : ∀ path data, tree.get? path = some (data, false) → tree.find (key data) = some path) :
    tree.LiveOrdered := by
  induction tree with
  | nullptr => trivial
  | node data' overwrite left right ihleft ihright =>
      have hleft (path : Path) (data : δ) (hdata : left.get? path = some (data, false)) :
          key data < key data' ∧ left.find (key data) = some path := by
        have hfind := h (.left :: path) data hdata
        simp only [Node.find] at hfind
        split_ifs at hfind with hlt hgt <;> simp_all
      have hright (path : Path) (data : δ) (hdata : right.get? path = some (data, false)) :
          key data' < key data ∧ right.find (key data) = some path := by
        have hfind := h (.right :: path) data hdata
        simp only [Node.find] at hfind
        split_ifs at hfind with hlt hgt <;> simp_all
      refine ⟨?_, ?_, ihleft fun path data hdata => (hleft path data hdata).2,
        ihright fun path data hdata => (hright path data hdata).2⟩
      · intro below hbelow
        obtain ⟨path, hpath⟩ := mem_live.mp hbelow
        exact (hleft path below hpath).1
      · intro below hbelow
        obtain ⟨path, hpath⟩ := mem_live.mp hbelow
        exact (hright path below hpath).1

/-- The live keys of an ordered tree are strictly increasing in order. -/
theorem LiveOrdered.sorted {tree : Node δ} (h : tree.LiveOrdered) :
    (tree.live.map key).Pairwise (· < ·) := by
  induction tree with
  | nullptr => simp
  | node data overwrite left right ihleft ihright =>
      obtain ⟨hbelow, habove, hleft, hright⟩ := h
      rw [List.pairwise_map] at ihleft ihright ⊢
      cases overwrite with
      | false =>
          refine List.pairwise_append.mpr
            ⟨ihleft hleft, List.pairwise_cons.mpr ⟨habove, ihright hright⟩, ?_⟩
          intro first hfirst second hsecond
          rcases List.mem_cons.mp hsecond with rfl | hsecond
          · exact hbelow first hfirst
          · exact (hbelow first hfirst).trans (habove second hsecond)
      | true =>
          refine List.pairwise_append.mpr ⟨ihleft hleft, ihright hright, ?_⟩
          intro first hfirst second hsecond
          exact (hbelow first hfirst).trans (habove second hsecond)

/-- The live keys of an ordered tree are distinct. -/
theorem LiveOrdered.nodup {tree : Node δ} (h : tree.LiveOrdered) : (tree.live.map key).Nodup :=
  h.sorted.imp ne_of_lt

/-- Marking a node keeps the order. -/
theorem LiveOrdered.setOverwrite {tree : Node δ} (h : tree.LiveOrdered) (path : Path) :
    (tree.setOverwrite path).LiveOrdered := by
  induction tree generalizing path with
  | nullptr => trivial
  | node data overwrite left right ihleft ihright =>
      obtain ⟨hbelow, habove, hleft, hright⟩ := h
      match path with
      | [] => exact ⟨hbelow, habove, hleft, hright⟩
      | .left :: path =>
          exact ⟨fun below hmem => hbelow below ((live_setOverwrite_sublist left path).mem hmem),
            habove, ihleft hleft path, hright⟩
      | .right :: path =>
          exact ⟨hbelow,
            fun above hmem => habove above ((live_setOverwrite_sublist right path).mem hmem),
            hleft, ihright hright path⟩

/-- Inserting a key that `find` does not find keeps the order exactly when the tree admits it. -/
theorem liveOrdered_place_iff {tree : Node δ} {data : δ} (h : tree.LiveOrdered)
    (hfind : tree.find (key data) = none) :
    (tree.place data).LiveOrdered ↔ tree.Admits data := by
  induction tree with
  | nullptr => simp [place, new, LiveOrdered, Admits]
  | node data' overwrite left right ihleft ihright =>
      obtain ⟨hbelow, habove, hleft, hright⟩ := h
      cases overwrite with
      | true =>
          -- a takeover keeps both subtrees, so the order asks for just what `Admits` says
          simp [place, Admits, LiveOrdered, hleft, hright]
      | false =>
          rcases lt_trichotomy (key data) (key data') with hlt | heq | hgt
          · have hnone : left.find (key data) = none := by simpa [Node.find, hlt] using hfind
            have hall : ∀ below ∈ (left.place data).live, key below < key data' := by
              intro below hmem
              rcases List.mem_cons.mp ((live_place left data).mem_iff.mp hmem) with rfl | hmem
              · exact hlt
              · exact hbelow below hmem
            have hle : key data ≤ key data' := le_of_lt hlt
            simp only [place, Admits, LiveOrdered, hle, Bool.false_eq_true, if_true, if_false]
            rw [← ihleft hleft hnone]
            exact ⟨fun h => h.2.2.1, fun h => ⟨hall, habove, h, hright⟩⟩
          · simp [Node.find, heq] at hfind
          · have hnot : ¬ key data < key data' := not_lt_of_gt hgt
            have hnone : right.find (key data) = none := by
              simpa [Node.find, hgt, hnot] using hfind
            have hall : ∀ above ∈ (right.place data).live, key data' < key above := by
              intro above hmem
              rcases List.mem_cons.mp ((live_place right data).mem_iff.mp hmem) with rfl | hmem
              · exact hgt
              · exact habove above hmem
            have hnotle : ¬ key data ≤ key data' := not_le_of_gt hgt
            simp only [place, Admits, LiveOrdered, hnotle, Bool.false_eq_true, if_false]
            rw [← ihright hright hnone]
            exact ⟨fun h => h.2.2.2, fun h => ⟨hbelow, hall, hleft, h⟩⟩

/-- An insertion that leaves the live keys sorted was admitted. -/
theorem admits_of_sorted_place {tree : Node δ} {data : δ}
    (h : ((tree.place data).live.map key).Pairwise (· < ·)) : tree.Admits data := by
  rw [List.pairwise_map] at h
  induction tree with
  | nullptr => trivial
  | node data' overwrite left right ihleft ihright =>
      cases overwrite with
      | true =>
          obtain ⟨_, hright, hall⟩ := List.pairwise_append.mp h
          exact ⟨fun below hbelow => hall below hbelow data List.mem_cons_self,
            (List.pairwise_cons.mp hright).1⟩
      | false =>
          by_cases hle : key data ≤ key data'
          · simp only [place, Admits, hle, Bool.false_eq_true, if_true, if_false] at h ⊢
            exact ihleft (List.pairwise_append.mp h).1
          · simp only [place, Admits, hle, Bool.false_eq_true, if_false] at h ⊢
            exact ihright (List.pairwise_cons.mp (List.pairwise_append.mp h).2.1).2

omit [LinearOrder κ] in
/-- Where the live keys are distinct, a key determines the live node that has it. -/
theorem live_path_unique {tree : Node δ} (h : (tree.live.map key).Nodup) {path other : Path}
    {data data' : δ} (hpath : tree.get? path = some (data, false))
    (hother : tree.get? other = some (data', false)) (hkey : key data = key data') :
    path = other := by
  rw [live_map] at h
  exact path_unique h hpath hother rfl (congrArg some hkey.symm)

end Node

end Wheespa
