import Mathlib.Algebra.GroupWithZero.Nat
import Mathlib.Data.List.Basic

/-!
# Lines of columns

A line is a row of fields with a separator before, between and after them. Where the fields of a
number have one width in all lines, they are in one range of all lines, and the lines are of one
length: `length_line` and `field_line` give both from the widths alone.
-/

namespace Wheespa.Columns

universe u

variable {α : Type u}

/-- The fields with a separator before the first and after each. -/
def line (sep : List α) (fields : List (List α)) : List α :=
  sep ++ fields.flatMap (· ++ sep)

/-- Where a field begins in a line whose fields have the given widths. -/
def offset (sep : List α) (widths : List Nat) (i : Nat) : Nat :=
  sep.length + ((widths.take i).map (· + sep.length)).sum

/-- The text is the field, filled up on both sides to a width. -/
structure Filled (fill : α) (field : List α) (width : Nat) (text : List α) : Prop where
  fills : ∃ before after,
    text = List.replicate before fill ++ field ++ List.replicate after fill
  length : text.length = width

/-- The text holds the field in its range of the given start and width. -/
def HoldsWithin (fill : α) (field text : List α) (start width : Nat) : Prop :=
  Filled fill field width ((text.drop start).take width)

theorem offset_zero (sep : List α) (widths : List Nat) : offset sep widths 0 = sep.length := rfl

/-- The first field moves the others by its width and a separator. -/
theorem offset_cons_succ (sep : List α) (width : Nat) (widths : List Nat) (i : Nat) :
    offset sep (width :: widths) (i + 1) = sep.length + width + offset sep widths i := by
  rw [offset, offset, List.take_succ_cons, List.map_cons, List.sum_cons]
  omega

/-- A line is as long as its widths say. -/
theorem length_line (sep : List α) (fields : List (List α)) :
    (line sep fields).length = offset sep (fields.map List.length) fields.length := by
  induction fields with
  | nil => exact List.length_append.trans rfl
  | cons field fields ih =>
      rw [List.map_cons, List.length_cons, offset_cons_succ, ← ih, line, line, List.flatMap_cons]
      simp only [List.length_append]
      omega

/-- The field of a number is in the range that its width and those before it give. -/
theorem field_line {sep : List α} {fields : List (List α)} {i : Nat} {field : List α}
    (h : fields[i]? = some field) :
    ((line sep fields).drop (offset sep (fields.map List.length) i)).take field.length = field := by
  induction fields generalizing i with
  | nil => simp at h
  | cons first fields ih =>
      cases i with
      | zero =>
          obtain rfl : first = field := Option.some.inj h
          rw [offset_zero, line, List.drop_left, List.flatMap_cons, List.append_assoc,
            List.take_left]
      | succ i =>
          have hfront : (line sep (first :: fields)) = (sep ++ first) ++ line sep fields := by
            rw [line, line, List.flatMap_cons, List.append_assoc, List.append_assoc]
          rw [List.map_cons, offset_cons_succ, hfront, ← List.length_append,
            List.drop_length_add_append]
          exact ih h

/-- The range of a field ends before those of the later ones begin. -/
theorem offset_add_le (sep : List α) {widths : List Nat} {i j width : Nat}
    (h : widths[i]? = some width) (hlt : i < j) :
    offset sep widths i + width ≤ offset sep widths j := by
  induction widths generalizing i j with
  | nil => simp at h
  | cons first widths ih =>
      cases j with
      | zero => omega
      | succ j =>
          rw [offset_cons_succ]
          cases i with
          | zero =>
              obtain rfl : first = width := Option.some.inj h
              rw [offset_zero]
              omega
          | succ i =>
              rw [offset_cons_succ]
              have hrest := ih h (Nat.lt_of_succ_lt_succ hlt)
              omega

/-- A line holds what its fields are filled up from in the ranges of these fields. -/
theorem holdsWithin_line {fill : α} {sep field text : List α} {fields : List (List α)} {i : Nat}
    {width : Nat} (h : fields[i]? = some text) (hfilled : Filled fill field width text) :
    HoldsWithin fill field (line sep fields) (offset sep (fields.map List.length) i) width := by
  have hrange := @field_line α sep fields i text h
  rw [hfilled.length] at hrange
  rw [HoldsWithin, hrange]
  exact hfilled

/-- Filling up adds no other element. -/
theorem Filled.not_mem {fill a : α} {field text : List α} {width : Nat}
    (h : Filled fill field width text) (hfill : a ≠ fill) (hfield : a ∉ field) : a ∉ text := by
  obtain ⟨before, after, rfl⟩ := h.fills
  simp only [List.mem_append, List.mem_replicate, not_or, not_and]
  exact ⟨⟨fun _ => hfill, hfield⟩, fun _ => hfill⟩

/-- A line has no element that is neither in the separator nor in a field. -/
theorem not_mem_line {a : α} {sep : List α} {fields : List (List α)} (hsep : a ∉ sep)
    (hfields : ∀ field ∈ fields, a ∉ field) : a ∉ line sep fields := by
  rw [line, List.mem_append, List.mem_flatMap, not_or]
  refine ⟨hsep, fun ⟨field, hmem, h⟩ => ?_⟩
  exact (List.mem_append.mp h).elim (hfields field hmem) hsep

end Wheespa.Columns
