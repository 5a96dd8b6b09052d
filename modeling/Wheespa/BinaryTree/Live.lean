import Mathlib.Data.List.Nodup
import Mathlib.Data.List.Perm.Basic
import Mathlib.Order.Basic
import Wheespa.BinaryTree.Basic

/-!
# Live nodes

`Node.live` lists the data of the nodes that are not flagged, in order. This module says what each
operation of the tree does to the nodes at every path and to the live data: `setOverwrite` takes
one live datum out, and a completed `insert` puts exactly the new datum in, at the path
`Node.placeAt`. `Node.place` is the tree that a completed `insert` leaves; an `insert` whose key
`find` has just not found always completes.
-/

namespace Wheespa

universe u v

namespace Node

variable {δ : Type u} {κ : Type v}

/-- The data of the nodes that are not flagged, in order. -/
def live : Node δ → List δ
  | .nullptr => []
  | .node data overwrite left right =>
      left.live ++ (if overwrite then right.live else data :: right.live)

@[simp] theorem live_nullptr : (nullptr : Node δ).live = [] := rfl

@[simp] theorem live_node_true (data : δ) (left right : Node δ) :
    (node data true left right).live = left.live ++ right.live := rfl

@[simp] theorem live_node_false (data : δ) (left right : Node δ) :
    (node data false left right).live = left.live ++ data :: right.live := rfl

/-- The data and the flags of all nodes, in order. -/
def entries : Node δ → List (δ × Bool)
  | .nullptr => []
  | .node data overwrite left right => left.entries ++ (data, overwrite) :: right.entries

/-- What is read off the live data is read off the entries that are not flagged. -/
theorem live_map {ι : Type v} (f : δ → ι) (tree : Node δ) :
    tree.live.map f =
      tree.entries.filterMap fun entry => if entry.2 then none else some (f entry.1) := by
  induction tree with
  | nullptr => rfl
  | node data overwrite left right ihleft ihright =>
      cases overwrite <;> simp [entries, ihleft, ihright]

/-- `setDataArray` appends the live data. -/
theorem setDataArray_eq (tree : Node δ) (array : List δ) :
    tree.setDataArray array = array ++ tree.live := by
  induction tree generalizing array with
  | nullptr => simp [setDataArray]
  | node data overwrite left right ihleft ihright =>
      cases overwrite <;> simp [setDataArray, ihleft, ihright]

theorem isNull_iff {tree : Node δ} : tree.isNull = true ↔ tree = .nullptr := by
  cases tree <;> simp [isNull]

@[simp] theorem get?_nullptr (path : Path) : (nullptr : Node δ).get? path = none := by
  cases path <;> rfl

@[simp] theorem get?_nil (data : δ) (overwrite : Bool) (left right : Node δ) :
    (node data overwrite left right).get? [] = some (data, overwrite) := rfl

@[simp] theorem get?_left (data : δ) (overwrite : Bool) (left right : Node δ) (path : Path) :
    (node data overwrite left right).get? (.left :: path) = left.get? path := rfl

@[simp] theorem get?_right (data : δ) (overwrite : Bool) (left right : Node δ) (path : Path) :
    (node data overwrite left right).get? (.right :: path) = right.get? path := rfl

/-- The node at a path has its entry among the entries. -/
theorem mem_entries {tree : Node δ} {path : Path} {entry : δ × Bool}
    (h : tree.get? path = some entry) : entry ∈ tree.entries := by
  induction tree generalizing path with
  | nullptr => simp at h
  | node data overwrite left right ihleft ihright =>
      match path with
      | [] =>
          obtain rfl : (data, overwrite) = entry := by simpa using h
          simp [entries]
      | .left :: path => simp [entries, ihleft h]
      | .right :: path => simp [entries, ihright h]

/-- Where what `f` reads off the entries is distinct, it determines the node it is read from. -/
theorem path_unique {ι : Type v} {f : δ × Bool → Option ι} {tree : Node δ}
    (h : (tree.entries.filterMap f).Nodup) {path other : Path} {entry entry' : δ × Bool} {i : ι}
    (hpath : tree.get? path = some entry) (hother : tree.get? other = some entry')
    (hentry : f entry = some i) (hentry' : f entry' = some i) : path = other := by
  induction tree generalizing path other with
  | nullptr => simp at hpath
  | node data overwrite left right ihleft ihright =>
      have hmem {side : Node δ} {path : Path} {entry : δ × Bool}
          (hpath : side.get? path = some entry) (hentry : f entry = some i) :
          i ∈ side.entries.filterMap f :=
        List.mem_filterMap.mpr ⟨entry, mem_entries hpath, hentry⟩
      have hsplit : (node data overwrite left right).entries.filterMap f =
          left.entries.filterMap f ++
            ((f (data, overwrite)).toList ++ right.entries.filterMap f) := by
        cases hroot : f (data, overwrite) <;> simp [entries, hroot]
      rw [hsplit, List.nodup_append', List.nodup_append', List.disjoint_append_right] at h
      obtain ⟨hleft, ⟨_, hright, hrootright⟩, hrootleft, hdisjoint⟩ := h
      have hroot {entry : δ × Bool} (hget : (node data overwrite left right).get? [] = some entry)
          (hentry : f entry = some i) : i ∈ (f (data, overwrite)).toList := by
        obtain rfl : (data, overwrite) = entry := by simpa using hget
        simp [hentry]
      -- two paths part at some node, and below it what they lead to is in disjoint parts
      match path, other with
      | [], [] => rfl
      | .left :: path, .left :: other => rw [ihleft hleft hpath hother]
      | .right :: path, .right :: other => rw [ihright hright hpath hother]
      | .left :: path, .right :: other =>
          exact (hdisjoint (hmem hpath hentry) (hmem hother hentry')).elim
      | .right :: path, .left :: other =>
          exact (hdisjoint (hmem hother hentry') (hmem hpath hentry)).elim
      | [], .left :: other =>
          exact (hrootleft (hmem hother hentry') (hroot hpath hentry)).elim
      | .left :: path, [] =>
          exact (hrootleft (hmem hpath hentry) (hroot hother hentry')).elim
      | [], .right :: other =>
          exact (hrootright (hroot hpath hentry) (hmem hother hentry')).elim
      | .right :: path, [] =>
          exact (hrootright (hroot hother hentry') (hmem hpath hentry)).elim

/-- A datum is live exactly when some node that is not flagged holds it. -/
theorem mem_live {tree : Node δ} {data : δ} :
    data ∈ tree.live ↔ ∃ path, tree.get? path = some (data, false) := by
  induction tree with
  | nullptr => simp
  | node data' overwrite left right ihleft ihright =>
      constructor
      · intro h
        have hcases : data ∈ left.live ∨ (overwrite = false ∧ data = data') ∨
            data ∈ right.live := by
          cases overwrite <;> simpa [live] using h
        rcases hcases with hleft | ⟨rfl, rfl⟩ | hright
        · obtain ⟨path, hpath⟩ := ihleft.mp hleft
          exact ⟨.left :: path, hpath⟩
        · exact ⟨[], rfl⟩
        · obtain ⟨path, hpath⟩ := ihright.mp hright
          exact ⟨.right :: path, hpath⟩
      · rintro ⟨path, hpath⟩
        match path with
        | [] =>
            obtain ⟨rfl, rfl⟩ : data' = data ∧ overwrite = false := by simpa using hpath
            simp
        | .left :: path =>
            have hleft := ihleft.mpr ⟨path, hpath⟩
            cases overwrite <;> simp [hleft]
        | .right :: path =>
            have hright := ihright.mpr ⟨path, hpath⟩
            cases overwrite <;> simp [hright]

/-! ## Marking a node -/

/-- Marking changes the flag of the named node only. -/
theorem get?_setOverwrite (tree : Node δ) (path other : Path) :
    (tree.setOverwrite path).get? other =
      if other = path then (tree.get? path).map (fun entry => (entry.1, true))
      else tree.get? other := by
  induction tree generalizing path other with
  | nullptr => simp [setOverwrite]
  | node data overwrite left right ihleft ihright =>
      match path, other with
      | [], [] => simp [setOverwrite]
      | [], .left :: _ | [], .right :: _ => simp [setOverwrite]
      | .left :: _, [] | .right :: _, [] => simp [setOverwrite]
      | .left :: path, .left :: other => simp [setOverwrite, ihleft]
      | .right :: path, .right :: other => simp [setOverwrite, ihright]
      | .left :: _, .right :: _ | .right :: _, .left :: _ => simp [setOverwrite]

/-- Marking a live node takes its datum out of the live data. -/
theorem live_setOverwrite {tree : Node δ} {path : Path} {data : δ}
    (h : tree.get? path = some (data, false)) :
    tree.live.Perm (data :: (tree.setOverwrite path).live) := by
  induction tree generalizing path with
  | nullptr => simp at h
  | node data' overwrite left right ihleft ihright =>
      match path with
      | [] =>
          obtain ⟨rfl, rfl⟩ : data' = data ∧ overwrite = false := by simpa using h
          simp [setOverwrite]
      | .left :: path =>
          have hleft := ihleft h
          cases overwrite <;> simpa [setOverwrite] using hleft.append_right _
      | .right :: path =>
          have hright := ihright h
          cases overwrite with
          | false =>
              have hswap : (data' :: right.live).Perm
                  (data :: data' :: (right.setOverwrite path).live) :=
                (hright.cons data').trans (List.Perm.swap _ _ _)
              simpa [setOverwrite] using
                (hswap.append_left left.live).trans List.perm_middle
          | true =>
              simpa [setOverwrite] using
                (hright.append_left left.live).trans List.perm_middle

/-- Marking only removes live data and keeps their order. -/
theorem live_setOverwrite_sublist (tree : Node δ) (path : Path) :
    (tree.setOverwrite path).live.Sublist tree.live := by
  induction tree generalizing path with
  | nullptr => simp [setOverwrite]
  | node data overwrite left right ihleft ihright =>
      match path with
      | [] => cases overwrite <;> simp [setOverwrite]
      | .left :: path =>
          cases overwrite <;> simpa [setOverwrite] using (ihleft path)
      | .right :: path =>
          cases overwrite <;> simpa [setOverwrite] using (ihright path)

/-! ## Finding and inserting -/

variable [LinearOrder κ] [Keyed δ κ]

/-- What `find` returns is a live node with the key asked for. -/
theorem get?_of_find {tree : Node δ} {k : κ} {path : Path} (h : tree.find k = some path) :
    ∃ data, tree.get? path = some (data, false) ∧ key data = k := by
  induction tree generalizing path with
  | nullptr => simp [find] at h
  | node data overwrite left right ihleft ihright =>
      simp only [find] at h
      split_ifs at h with hgt hlt hlive
      · obtain ⟨path, hpath, rfl⟩ := Option.map_eq_some_iff.mp h
        exact ihleft hpath
      · obtain ⟨path, hpath, rfl⟩ := Option.map_eq_some_iff.mp h
        exact ihright hpath
      · obtain rfl := Option.some.inj h
        have hkey : key data = k := le_antisymm (not_lt.mp hgt) (not_lt.mp hlt)
        exact ⟨data, by simpa using hlive, hkey⟩

/-- `find` finds nothing when no live node has the key. -/
theorem find_eq_none_of_not_mem {tree : Node δ} {k : κ} (h : k ∉ tree.live.map key) :
    tree.find k = none := by
  rw [Option.eq_none_iff_forall_ne_some]
  intro path hpath
  obtain ⟨data, hdata, rfl⟩ := get?_of_find hpath
  exact h (List.mem_map_of_mem (mem_live.mpr ⟨path, hdata⟩))

/-- The tree that a completed insertion of `data` leaves. -/
def place (data : δ) : Node δ → Node δ
  | .nullptr => .new data
  | .node data' overwrite left right =>
      if overwrite then .node data false left right
      else if key data ≤ key data' then .node data' false (left.place data) right
      else .node data' false left (right.place data)

/-- The path at which a completed insertion stores `data`: the first flagged node on its way, or
the null link where its way ends. -/
def placeAt (data : δ) : Node δ → Path
  | .nullptr => []
  | .node data' overwrite left right =>
      if overwrite then []
      else if key data ≤ key data' then .left :: left.placeAt data
      else .right :: right.placeAt data

/-- A loop that completes leaves the tree `place`. -/
theorem place_of_insertLoop {tree result : Node δ} {data : δ}
    (h : tree.insertLoop data = some result) : tree.place data = result := by
  induction tree generalizing result with
  | nullptr => simp [insertLoop] at h
  | node data' overwrite left right ihleft ihright =>
      simp only [insertLoop] at h
      split_ifs at h with hleft hright hover hle
      · obtain ⟨hgt, hnull, hlive⟩ := hleft
        obtain rfl := isNull_iff.mp hnull
        simp_all [place, le_of_lt]
      · obtain ⟨hlt, hnull, hlive⟩ := hright
        obtain rfl := isNull_iff.mp hnull
        simp_all [place, not_le_of_gt]
      · simpa [place, hover] using h
      · obtain ⟨left', hleft', rfl⟩ := Option.map_eq_some_iff.mp h
        have hflag : overwrite = false := by simpa using hover
        have hkey : key data ≤ key data' := hle
        simp [place, hflag, hkey, ihleft hleft']
      · obtain ⟨right', hright', rfl⟩ := Option.map_eq_some_iff.mp h
        have hflag : overwrite = false := by simpa using hover
        have hkey : ¬ key data ≤ key data' := hle
        simp [place, hflag, hkey, ihright hright']

/-- At a live node with a larger key the loop takes the left link. -/
theorem insertLoop_of_lt {data data' : δ} (left right : Node δ) (h : key data < key data') :
    (node data' false left right).insertLoop data =
      if left.isNull then some (node data' false (.new data) right)
      else (left.insertLoop data).map (fun left => node data' false left right) := by
  have hnot : ¬ key data' < key data := not_lt_of_gt h
  simp [insertLoop, h, hnot, le_of_lt h]

/-- At a live node with a smaller key the loop takes the right link. -/
theorem insertLoop_of_gt {data data' : δ} (left right : Node δ) (h : key data' < key data) :
    (node data' false left right).insertLoop data =
      if right.isNull then some (node data' false left (.new data))
      else (right.insertLoop data).map (fun right => node data' false left right) := by
  have hnot : ¬ key data < key data' := not_lt_of_gt h
  have hnotle : ¬ key data ≤ key data' := not_le_of_gt h
  simp [insertLoop, h, hnot, hnotle]

/-- The loop completes on every tree in which `find` does not find the key. -/
theorem insertLoop_of_find {tree : Node δ} {data : δ} (hnull : tree.isNull = false)
    (hfind : tree.find (key data) = none) : tree.insertLoop data = some (tree.place data) := by
  induction tree with
  | nullptr => simp [isNull] at hnull
  | node data' overwrite left right ihleft ihright =>
      cases overwrite with
      | true => simp [insertLoop, place]
      | false =>
          rcases lt_trichotomy (key data) (key data') with hlt | heq | hgt
          · have hleft : left.find (key data) = none := by simpa [find, hlt] using hfind
            rw [insertLoop_of_lt left right hlt]
            cases hend : left.isNull with
            | true => simp [isNull_iff.mp hend, place, le_of_lt hlt]
            | false => simp [ihleft hend hleft, place, le_of_lt hlt]
          · simp [find, heq] at hfind
          · have hnot : ¬ key data < key data' := not_lt_of_gt hgt
            have hright : right.find (key data) = none := by simpa [find, hgt, hnot] using hfind
            have hnotle : ¬ key data ≤ key data' := not_le_of_gt hgt
            rw [insertLoop_of_gt left right hgt]
            cases hend : right.isNull with
            | true => simp [isNull_iff.mp hend, place, hnotle]
            | false => simp [ihright hend hright, place, hnotle]

/-- Placing a datum changes the node at `placeAt` only, and that node then holds exactly it. -/
theorem get?_place (tree : Node δ) (data : δ) (path : Path) :
    (tree.place data).get? path =
      if path = tree.placeAt data then some (data, false) else tree.get? path := by
  induction tree generalizing path with
  | nullptr => match path with
    | [] => simp [place, placeAt, new]
    | .left :: _ | .right :: _ => simp [place, placeAt, new]
  | node data' overwrite left right ihleft ihright =>
      cases overwrite with
      | true => match path with
        | [] => simp [place, placeAt]
        | .left :: _ | .right :: _ => simp [place, placeAt]
      | false =>
          by_cases hle : key data ≤ key data'
          · match path with
            | [] => simp [place, placeAt, hle]
            | .left :: path => simp [place, placeAt, hle, ihleft]
            | .right :: path => simp [place, placeAt, hle]
          · match path with
            | [] => simp [place, placeAt, hle]
            | .left :: path => simp [place, placeAt, hle]
            | .right :: path => simp [place, placeAt, hle, ihright]

/-- A datum is placed in a flagged node or where there was no node. -/
theorem get?_placeAt (tree : Node δ) (data : δ) :
    tree.get? (tree.placeAt data) = none ∨
      ∃ data', tree.get? (tree.placeAt data) = some (data', true) := by
  induction tree with
  | nullptr => simp
  | node data' overwrite left right ihleft ihright =>
      cases overwrite with
      | true => simp [placeAt]
      | false =>
          by_cases hle : key data ≤ key data'
          · simpa [placeAt, hle] using ihleft
          · simpa [placeAt, hle] using ihright

/-- An insertion leaves every node that is not flagged as it is. -/
theorem get?_place_of_live {tree : Node δ} {path : Path} {data' : δ}
    (hlive : tree.get? path = some (data', false)) (data : δ) :
    (tree.place data).get? path = some (data', false) := by
  rw [get?_place, if_neg, hlive]
  rintro rfl
  rcases tree.get?_placeAt data with hnone | ⟨_, hflagged⟩
  · simp [hlive] at hnone
  · simp [hlive] at hflagged

/-- Placing a datum adds exactly it to the live data. -/
theorem live_place (tree : Node δ) (data : δ) :
    (tree.place data).live.Perm (data :: tree.live) := by
  induction tree with
  | nullptr => simp [place, new]
  | node data' overwrite left right ihleft ihright =>
      cases overwrite with
      | true => simp [place]
      | false =>
          by_cases hle : key data ≤ key data'
          · simpa [place, hle] using ihleft.append_right (data' :: right.live)
          · have hswap : (data' :: (right.place data).live).Perm
                (data :: data' :: right.live) :=
              (ihright.cons data').trans (List.Perm.swap _ _ _)
            simpa [place, hle] using (hswap.append_left left.live).trans List.perm_middle

end Node

namespace BinarySearchTree

variable {δ : Type u} {κ : Type v}

/-- Only the node tree is marked. -/
@[simp] theorem node_markOverwrite (tree : BinarySearchTree δ) (path : Path) :
    (tree.markOverwrite path).node = tree.node.setOverwrite path := rfl

variable [LinearOrder κ] [Keyed δ κ]

/-- An insertion that completes leaves the tree `place`. -/
theorem insert_eq_place {tree result : BinarySearchTree δ} {data : δ}
    (h : tree.insert data = some result) :
    result = { tree with node := tree.node.place data } := by
  cases hnull : tree.node.isNull with
  | true =>
      have hresult : { tree with node := .new data } = result := by
        simpa [insert, isEmpty, hnull] using h
      rw [← hresult, Node.isNull_iff.mp hnull, Node.place]
  | false =>
      obtain ⟨node, hnode, rfl⟩ : ∃ node, tree.node.insertLoop data = some node ∧
          { tree with node } = result := by
        simpa [insert, isEmpty, hnull] using h
      rw [Node.place_of_insertLoop hnode]

/-- An insertion whose key `find` does not find completes. -/
theorem insert_of_find {tree : BinarySearchTree δ} {data : δ}
    (hfind : tree.find (key data) = none) :
    tree.insert data = some { tree with node := tree.node.place data } := by
  cases hnull : tree.node.isNull with
  | true => simp [insert, isEmpty, Node.isNull_iff.mp hnull, Node.isNull, Node.place]
  | false => simp [insert, isEmpty, hnull, Node.insertLoop_of_find hnull hfind]

/-- `remove` leaves a part of the live data. -/
theorem live_remove_sublist (tree : BinarySearchTree δ) (k : κ) :
    (tree.remove k).2.node.live.Sublist tree.node.live := by
  cases hfind : tree.find k with
  | none => simp [remove, hfind]
  | some path => simpa [remove, hfind] using Node.live_setOverwrite_sublist tree.node path

end BinarySearchTree

end Wheespa
