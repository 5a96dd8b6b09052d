import Mathlib.Algebra.Group.Nat.Defs
import Mathlib.Data.Char
import Mathlib.Data.List.Induction
import Mathlib.Data.Nat.Init

/-!
# Canonical decimals

`Nat.ofDigitChars 10` reads digits as a number and `Nat.toDigits 10` writes a number in its
canonical form. `toDigits_ofDigitChars_iff` says which digits are written back as they were read:
those that are canonical, without a leading zero.
-/

namespace Wheespa.Decimal

/-- The digits are the canonical form of a number: a single zero, or no zero comes first. -/
def IsCanonical (digits : List Char) : Prop :=
  digits = ['0'] ∨ digits.head? ≠ some '0'

instance (digits : List Char) : Decidable (IsCanonical digits) :=
  inferInstanceAs (Decidable (digits = ['0'] ∨ digits.head? ≠ some '0'))

/-- The digit of a character, and the character of the digit. -/
theorem digitChar_digit {c : Char} (h : c.isDigit) :
    c.toNat - '0'.toNat < 10 ∧ (c.toNat - '0'.toNat).digitChar = c := by
  obtain ⟨hlow, hhigh⟩ : 48 ≤ c.toNat ∧ c.toNat ≤ 57 := by
    simpa [Char.isDigit, UInt32.le_iff_toNat_le] using h
  obtain ⟨n, hn, hlt⟩ : ∃ n, c.toNat = 48 + n ∧ n < 10 := ⟨c.toNat - 48, by omega, by omega⟩
  have hdigit : c.toNat - '0'.toNat = n := by
    show c.toNat - 48 = n
    omega
  rw [hdigit]
  refine ⟨hlt, Char.toNat_inj.mp ?_⟩
  rw [Nat.toNat_digitChar_of_lt_ten hlt, hn]

/-- Digits that begin with another digit than zero denote a positive number. -/
theorem ofDigitChars_pos {digits : List Char} (hdigits : ∀ c ∈ digits, c.isDigit)
    (hne : digits ≠ []) (hfirst : digits.head? ≠ some '0') :
    0 < Nat.ofDigitChars 10 digits 0 := by
  obtain ⟨c, rest, rfl⟩ := List.exists_cons_of_ne_nil hne
  have hc : c ≠ '0' := by simpa using hfirst
  have hdigit := digitChar_digit (hdigits c List.mem_cons_self)
  have hpos : 0 < c.toNat - '0'.toNat := by
    refine Nat.pos_of_ne_zero fun hzero => hc ?_
    rw [← hdigit.2, hzero]
    rfl
  rw [Nat.ofDigitChars_cons, Nat.mul_zero, Nat.zero_add, Nat.ofDigitChars_eq_ofDigitChars_zero]
  have hpower : 0 < 10 ^ rest.length * (c.toNat - '0'.toNat) :=
    Nat.mul_pos (Nat.pow_pos (by decide)) hpos
  omega

/-- Digits denote less than the power of ten that has one more digit. -/
theorem ofDigitChars_lt {digits : List Char} (hdigits : ∀ c ∈ digits, c.isDigit) :
    Nat.ofDigitChars 10 digits 0 < 10 ^ digits.length := by
  induction digits using List.reverseRecOn with
  | nil => decide
  | append_singleton init c ih =>
      rw [List.forall_mem_append, List.forall_mem_singleton] at hdigits
      have hdigit := (digitChar_digit hdigits.2).1
      have hinit := ih hdigits.1
      rw [Nat.ofDigitChars_append, Nat.ofDigitChars_cons, Nat.ofDigitChars_nil, List.length_append,
        List.length_singleton, Nat.pow_succ]
      omega

/-- Canonical digits are written back as they were read. -/
theorem toDigits_ofDigitChars {digits : List Char} (hdigits : ∀ c ∈ digits, c.isDigit)
    (hne : digits ≠ []) (h : IsCanonical digits) :
    Nat.toDigits 10 (Nat.ofDigitChars 10 digits 0) = digits := by
  induction digits using List.reverseRecOn with
  | nil => exact absurd rfl hne
  | append_singleton init c ih =>
      rw [List.forall_mem_append, List.forall_mem_singleton] at hdigits
      obtain ⟨hlt, hchar⟩ := digitChar_digit hdigits.2
      rw [Nat.ofDigitChars_append, Nat.ofDigitChars_cons, Nat.ofDigitChars_nil]
      cases init with
      | nil =>
          rw [Nat.ofDigitChars_nil, Nat.mul_zero, Nat.zero_add, Nat.toDigits_of_lt_base hlt, hchar]
          rfl
      | cons a init =>
          have hfirst : (a :: init).head? ≠ some '0' := by
            rcases h with hzero | hfirst
            · simp at hzero
            · exact hfirst
          have hpos := ofDigitChars_pos hdigits.1 (List.cons_ne_nil a init) hfirst
          rw [← Nat.toDigits_append_toDigits (by decide) hpos hlt,
            ih hdigits.1 (List.cons_ne_nil a init) (.inr hfirst), Nat.toDigits_of_lt_base hlt,
            hchar]

/-- Digits are written back as they were read exactly when they are canonical. -/
theorem toDigits_ofDigitChars_iff {digits : List Char} (hdigits : ∀ c ∈ digits, c.isDigit)
    (hne : digits ≠ []) :
    Nat.toDigits 10 (Nat.ofDigitChars 10 digits 0) = digits ↔ IsCanonical digits := by
  refine ⟨fun h => ?_, toDigits_ofDigitChars hdigits hne⟩
  by_contra hcanonical
  obtain ⟨hsingle, hfirst⟩ := not_or.mp hcanonical
  obtain ⟨rest, rfl⟩ := List.head?_eq_some_iff.mp (not_not.mp hfirst)
  have hrest : rest ≠ [] := fun hnil => hsingle (by rw [hnil])
  rw [List.forall_mem_cons] at hdigits
  -- the zero is not counted in, so the number has fewer digits than were read
  have hvalue : Nat.ofDigitChars 10 ('0' :: rest) 0 = Nat.ofDigitChars 10 rest 0 := by
    rw [Nat.ofDigitChars_cons]
    rfl
  have hlength := (Nat.length_toDigits_le_iff (by decide) (List.length_pos_iff.mpr hrest)).mpr
    (ofDigitChars_lt hdigits.2)
  rw [← hvalue, h, List.length_cons] at hlength
  omega

end Wheespa.Decimal
