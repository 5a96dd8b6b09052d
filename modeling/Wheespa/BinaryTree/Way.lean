import Wheespa.BinaryTree.FiniteMap

/-!
# The way of a search

Where a walk of `find` for a key turns at a node depends on the datum of that node alone. `Followed`
says that the links of a path are those that the walk takes, and `find_of_followed` what `find`
returns then. `operate` is an operation that comes in between.
-/

namespace Wheespa

universe u v

variable {δ : Type u} {κ : Type v} [LinearOrder κ] [Keyed δ κ]

/-- At a node that holds `data`, the walk of `find` for `k` goes on to this side. -/
def Turns (k : κ) (data : δ) : Side → Prop
  | .left => k < key data
  | .right => key data < k

/-- `Turns` is decidable by one comparison. -/
instance (k : κ) (data : δ) (side : Side) : Decidable (Turns k data side) :=
  match side with
  | .left => inferInstanceAs (Decidable (k < key data))
  | .right => inferInstanceAs (Decidable (key data < k))

/-- The link that a path takes from the node at `front`, if it goes through that node. -/
def linkFrom : Path → Path → Option Side
  | [], side :: _ => some side
  | side :: front, side' :: path => if side = side' then linkFrom front path else none
  | _, _ => none

theorem linkFrom_eq_some {front path : Path} {side : Side} :
    linkFrom front path = some side ↔ ∃ rest, path = front ++ side :: rest := by
  induction front generalizing path with
  | nil => cases path <;> simp [linkFrom, eq_comm]
  | cons head front ih =>
      cases path with
      | nil => simp [linkFrom]
      | cons head' path =>
          by_cases h : head = head'
          · simp [linkFrom, h, ih]
          · simp [linkFrom, h, Ne.symm h]

/-- A walk goes on from a node to one side at most. -/
theorem Turns.ne {k : κ} {data : δ} {side : Side} (h : Turns k data side) : key data ≠ k := by
  cases side with
  | left => exact ne_of_gt h
  | right => exact ne_of_lt h

namespace Node

/-- The walk of `find` for `k` takes the links of this path. -/
def Followed (k : κ) (tree : Node δ) (path : Path) : Prop :=
  ∀ front side rest, path = front ++ side :: rest →
    ∃ data overwrite, tree.get? front = some (data, overwrite) ∧ Turns k data side

/-- A walk begins at the root. -/
theorem followed_nil (k : κ) (tree : Node δ) : tree.Followed k [] := by
  intro front side rest h
  simp at h

/-- A way goes on where the walk turns at its end. -/
theorem Followed.snoc {k : κ} {tree : Node δ} {path : Path} (h : tree.Followed k path) {data : δ}
    {overwrite : Bool} (hget : tree.get? path = some (data, overwrite)) {side : Side}
    (hturns : Turns k data side) : tree.Followed k (path ++ [side]) := by
  intro front side' rest heq
  rcases List.eq_nil_or_concat rest with rfl | ⟨rest, last, rfl⟩
  · obtain ⟨rfl, hside⟩ := List.append_inj' heq rfl
    obtain rfl := List.singleton_injective hside
    exact ⟨data, overwrite, hget, hturns⟩
  · rw [List.concat_eq_append, ← List.cons_append, ← List.append_assoc] at heq
    exact h front side' rest (List.append_inj' heq rfl).1

/-- A way into a child of the root is one from that child. -/
theorem Followed.below {k : κ} {data : δ} {overwrite : Bool} {left right : Node δ} {side : Side}
    {path : Path} (h : (node data overwrite left right).Followed k (side :: path)) :
    Turns k data side ∧ (match side with
      | .left => left
      | .right => right).Followed k path := by
  constructor
  · obtain ⟨data', overwrite', hget, hturns⟩ := h [] side path rfl
    obtain ⟨rfl, -⟩ : data = data' ∧ _ := by simpa using hget
    exact hturns
  · intro front side' rest heq
    cases side with
    | left => exact h (.left :: front) side' rest (by rw [heq, List.cons_append])
    | right => exact h (.right :: front) side' rest (by rw [heq, List.cons_append])

/-- Where the walk has come to a null pointer, or to a node with the key, `find` returns that node
if it is live. -/
theorem find_of_followed {k : κ} {tree : Node δ} {path : Path} (h : tree.Followed k path)
    (hend : ∀ data overwrite, tree.get? path = some (data, overwrite) → key data = k) :
    tree.find k = if (tree.get? path).any fun entry => !entry.2 then some path else none := by
  induction tree generalizing path with
  | nullptr => simp [find]
  | node data overwrite left right ihleft ihright =>
      rcases path with _ | ⟨_ | _, path⟩
      · have hkey : key data = k := hend data overwrite rfl
        cases overwrite <;> simp [find, hkey]
      · obtain ⟨hturns, hbelow⟩ := h.below
        have hlt : k < key data := hturns
        rw [find, if_pos hlt, ihleft hbelow hend, get?_left]
        split <;> rfl
      · obtain ⟨hturns, hbelow⟩ := h.below
        have hgt : key data < k := hturns
        rw [find, if_neg hgt.not_gt, if_pos hgt, ihright hbelow hend, get?_right]
        split <;> rfl

/-- Flags do not matter to a way. -/
theorem Followed.setOverwrite {k : κ} {tree : Node δ} {path : Path} (h : tree.Followed k path)
    (marked : Path) : (tree.setOverwrite marked).Followed k path := by
  intro front side rest heq
  obtain ⟨data, overwrite, hget, hturns⟩ := h front side rest heq
  rw [get?_setOverwrite]
  by_cases hfront : front = marked
  · exact ⟨data, true, by rw [if_pos hfront, ← hfront, hget]; rfl, hturns⟩
  · exact ⟨data, overwrite, by rw [if_neg hfront, hget], hturns⟩

end Node

namespace BinarySearchTree

/-- An operation of a handler or of the service loop on the tree, whether or not a `find` has come
before it. The result is `none` where a null pointer is dereferenced. -/
def operate (tree : BinarySearchTree δ) :
    History.Operation δ κ → Option (BinarySearchTree δ)
  | .insert data => tree.insert data
  | .remove k => some (tree.remove k).2
  | .mark path =>
      match tree.node.get? path with
      | some _ => some (tree.markOverwrite path)
      | none => none

end BinarySearchTree

end Wheespa
