import Mathlib.Data.List.Basic

/-!
# Erasing collected indices

A scan collects the indices of a list that meet a condition, and a second loop erases them one by
one, each lowered by the number of elements that are gone already. `eraseAll_scan` says that what is
left are the elements whose indices were not collected, and that no erasure is out of the list.
-/

namespace Wheespa.Erasure

universe u v

variable {α : Type u}

/-- The indices below `size` that meet the condition. -/
def scan (cond : Nat → Bool) (size : Nat) : List Nat :=
  (List.range size).filter cond

/-- The elements, counted from `start`, whose indices meet the condition. -/
def keepFrom (start : Nat) (cond : Nat → Bool) (xs : List α) : List α :=
  ((xs.zipIdx start).filter fun entry => cond entry.2).map Prod.fst

/-- The elements whose indices meet the condition. -/
def keep (cond : Nat → Bool) (xs : List α) : List α :=
  keepFrom 0 cond xs

/-- The list after the erasures, `counter` of which are done, or `none` where a position is not in
the list. -/
def eraseAll : List Nat → Nat → List α → Option (List α)
  | [], _, xs => some xs
  | j :: rest, counter, xs =>
      if counter ≤ j ∧ j - counter < xs.length then
        eraseAll rest (counter + 1) (xs.eraseIdx (j - counter))
      else none

@[simp] theorem keepFrom_nil (start : Nat) (cond : Nat → Bool) :
    keepFrom start cond ([] : List α) = [] := rfl

/-- The first element is kept where its index meets the condition. -/
theorem keepFrom_cons (start : Nat) (cond : Nat → Bool) (a : α) (xs : List α) :
    keepFrom start cond (a :: xs) =
      if cond start then a :: keepFrom (start + 1) cond xs else keepFrom (start + 1) cond xs := by
  unfold keepFrom
  rw [List.zipIdx_cons, List.filter_cons]
  split <;> rfl

/-- Erasing the indices collected from the elements of `xs`, in front of which `kept` elements are
left of `kept.length + counter`. -/
theorem eraseAll_range' (cond : Nat → Bool) (kept xs : List α) (counter : Nat) :
    eraseAll ((List.range' (kept.length + counter) xs.length).filter cond) counter (kept ++ xs) =
      some (kept ++ keepFrom (kept.length + counter) (fun i => !cond i) xs) := by
  induction xs generalizing kept counter with
  | nil => rfl
  | cons a xs ih =>
      rw [List.length_cons, List.range'_succ, List.filter_cons, keepFrom_cons]
      cases hcond : cond (kept.length + counter) with
      | true =>
          have hposition : counter ≤ kept.length + counter ∧
              kept.length + counter - counter < (kept ++ a :: xs).length := by
            rw [List.length_append, List.length_cons]
            omega
          have herase : (kept ++ a :: xs).eraseIdx (kept.length + counter - counter) =
              kept ++ xs := by
            rw [Nat.add_sub_cancel, List.eraseIdx_append_of_length_le (Nat.le_refl _),
              Nat.sub_self, List.eraseIdx_cons_zero]
          rw [if_pos rfl, eraseAll, if_pos hposition, herase]
          exact ih kept (counter + 1)
      | false =>
          have hih := ih (kept ++ [a]) counter
          rw [List.length_append, List.length_singleton, Nat.add_right_comm, List.append_assoc,
            List.singleton_append, List.append_assoc] at hih
          simpa using hih

/-- Erasing the collected indices leaves the other elements, in their order. -/
theorem eraseAll_scan (cond : Nat → Bool) (xs : List α) :
    eraseAll (scan cond xs.length) 0 xs = some (keep (fun i => !cond i) xs) := by
  have herase := eraseAll_range' cond [] xs 0
  rw [scan, keep, List.range_eq_range']
  simpa only [List.length_nil, Nat.add_zero, List.nil_append] using herase

/-- Pairs are kept where both of their elements are. -/
theorem keepFrom_zip {β : Type v} (start : Nat) (cond : Nat → Bool) (xs : List α) (ys : List β) :
    (keepFrom start cond xs).zip (keepFrom start cond ys) = keepFrom start cond (xs.zip ys) := by
  induction xs generalizing start ys with
  | nil => rfl
  | cons a xs ih =>
      cases ys with
      | nil => simp
      | cons b ys =>
          rw [List.zip_cons_cons, keepFrom_cons, keepFrom_cons, keepFrom_cons, ← ih]
          cases cond start <;> rfl

/-- What is left of lists of one length is of one length. -/
theorem length_keepFrom {β : Type v} (start : Nat) (cond : Nat → Bool) {xs : List α}
    {ys : List β} (h : xs.length = ys.length) :
    (keepFrom start cond xs).length = (keepFrom start cond ys).length := by
  induction xs generalizing start ys with
  | nil =>
      obtain rfl := List.length_eq_zero_iff.mp h.symm
      rfl
  | cons a xs ih =>
      obtain ⟨b, ys, rfl⟩ := List.exists_cons_of_length_eq_add_one h.symm
      have hrest := ih (start + 1) (Nat.succ.inj h)
      rw [keepFrom_cons, keepFrom_cons]
      cases cond start with
      | true => exact congrArg Nat.succ hrest
      | false => exact hrest

/-- Where all erasures are done, the first of them are, and the next one is at a position of the
list that they leave. -/
theorem eraseAll_append {first rest : List Nat} {j counter : Nat} {xs result : List α}
    (h : eraseAll (first ++ j :: rest) counter xs = some result) :
    ∃ left, eraseAll first counter xs = some left ∧ counter + first.length ≤ j ∧
      j - (counter + first.length) < left.length := by
  induction first generalizing counter xs with
  | nil =>
      obtain ⟨hposition, _⟩ := Option.ite_none_right_eq_some.mp h
      exact ⟨xs, rfl, hposition⟩
  | cons i first ih =>
      obtain ⟨hposition, h⟩ := Option.ite_none_right_eq_some.mp h
      obtain ⟨left, hleft, hnext⟩ := ih h
      rw [Nat.add_right_comm] at hnext
      refine ⟨left, ?_, hnext⟩
      rw [eraseAll, if_pos hposition]
      exact hleft

/-- A condition on the index that depends on the element only is a condition on the element. -/
theorem keepFrom_eq_filter {cond : Nat → Bool} {p : α → Bool} {start : Nat} {xs : List α}
    (h : ∀ i a, xs[i]? = some a → cond (start + i) = p a) :
    keepFrom start cond xs = xs.filter p := by
  induction xs generalizing start with
  | nil => rfl
  | cons a xs ih =>
      have hfirst : cond start = p a := h 0 a rfl
      have hrest : ∀ i b, xs[i]? = some b → cond (start + 1 + i) = p b := by
        intro i b hb
        rw [Nat.add_right_comm]
        exact h (i + 1) b (by simpa using hb)
      rw [keepFrom_cons, List.filter_cons, ih hrest, hfirst]

/-- The elements at the collected indices. -/
theorem filterMap_range' {cond : Nat → Bool} (before xs : List α) :
    ((List.range' before.length xs.length).filter cond).filterMap ((before ++ xs)[·]?) =
      keepFrom before.length cond xs := by
  induction xs generalizing before with
  | nil => rfl
  | cons a xs ih =>
      have hih := ih (before ++ [a])
      rw [List.length_append, List.length_singleton, List.append_assoc,
        List.singleton_append] at hih
      rw [List.length_cons, List.range'_succ, List.filter_cons, keepFrom_cons]
      cases hcond : cond before.length with
      | true =>
          rw [if_pos rfl, if_pos rfl, List.filterMap_cons, hih]
          simp
      | false => simpa using hih

/-- The elements at the collected indices are those that are not left. -/
theorem filterMap_scan (cond : Nat → Bool) (xs : List α) :
    (scan cond xs.length).filterMap (xs[·]?) = keep cond xs := by
  have hrange := @filterMap_range' α cond [] xs
  rw [scan, keep, List.range_eq_range']
  simpa only [List.length_nil, List.nil_append] using hrange

end Wheespa.Erasure
