import Mathlib.Data.List.Forall2
import Wheespa.Library.Sql.Lexer

/-!
# Templates

A template is a sequence of tokens of which some are left open for named values. Instances of one
template differ in these tokens only (`agree_instantiate`).

A lexer without escapes ends a quoted token at the next quote character, also where that is doubled.
`lexPlain_eq` says where it reads the tokens that `lex` reads: where no quoted token contains its
own quote character.
-/

namespace Wheespa.Sql

universe u

/-! ## A lexer without escapes -/

namespace Scan

/-- Reading one character, where every quote character ends its token. -/
def stepPlain : Scan → Char → Scan × List Token
  | .closing mark text, c => emit (.quoted mark text) c
  | scan, c => scan.step c

end Scan

/-- The tokens of the rest of a text, for a lexer without escapes. -/
def lexPlainFrom : Scan → List Char → List Token
  | scan, [] => scan.finish
  | scan, c :: text => (scan.stepPlain c).2 ++ lexPlainFrom (scan.stepPlain c).1 text

/-- The tokens of a text, for a lexer without escapes. -/
def lexPlain (text : List Char) : List Token :=
  lexPlainFrom .gap text

/-- A token that is complete: a quoted one does not contain its own quote character. -/
def Token.Complete : Token → Prop
  | .illegal => False
  | .quoted mark text => mark.char ∉ text
  | .word _ | .number _ | .symbol _ => True

instance (token : Token) : Decidable token.Complete := by
  cases token <;> unfold Token.Complete <;> infer_instance

/-- A doubled quote character leaves a token that is not complete. -/
theorem exists_not_complete {mark : Mark} {read : List Char} (hread : mark.char ∈ read)
    (text : List Char) :
    (∃ token ∈ lexFrom (.quote mark read) text, ¬ token.Complete) ∧
      ∃ token ∈ lexFrom (.closing mark read) text, ¬ token.Complete := by
  induction text generalizing read with
  | nil =>
      exact ⟨⟨.illegal, List.mem_singleton_self _, id⟩,
        ⟨.quoted mark read, List.mem_singleton_self _, fun h => h hread⟩⟩
  | cons c text ih =>
      have hmore : mark.char ∈ read ++ [c] := List.mem_append_left _ hread
      by_cases hc : (c == mark.char) = true
      · simp only [lexFrom, Scan.step, hc, if_true, List.nil_append]
        exact ⟨(ih hread).2, (ih hmore).1⟩
      · simp only [lexFrom, Scan.step, hc, if_false, Bool.false_eq_true, List.nil_append, Scan.emit,
          List.cons_append]
        exact ⟨(ih hmore).1, ⟨.quoted mark read, List.mem_cons_self, fun h => h hread⟩⟩

/-- Where all tokens of the rest of a text are complete, no escape is read. -/
theorem lexPlainFrom_eq {scan : Scan} {text : List Char}
    (h : ∀ token ∈ lexFrom scan text, token.Complete) :
    lexPlainFrom scan text = lexFrom scan text := by
  induction text generalizing scan with
  | nil => rfl
  | cons c text ih =>
      have hstep : scan.stepPlain c = scan.step c := by
        cases scan with
        | closing mark read =>
            by_cases hc : c = mark.char
            · -- the escape puts its quote character into the token under way
              subst hc
              obtain ⟨token, htoken, hbad⟩ :=
                (@exists_not_complete mark (read ++ [mark.char]) (by simp) text).1
              refine absurd (h token ?_) hbad
              simpa [lexFrom, Scan.step] using htoken
            · simp [Scan.stepPlain, Scan.step, hc]
        | _ => rfl
      rw [lexFrom] at h ⊢
      rw [lexPlainFrom, hstep, ih fun token htoken => h token (List.mem_append_right _ htoken)]

/-- Where all tokens of a text are complete, a lexer without escapes reads the same ones. -/
theorem lexPlain_eq {text : List Char} (h : ∀ token ∈ lex text, token.Complete) :
    lexPlain text = lex text :=
  lexPlainFrom_eq h

/-! ## Templates and their instances -/

/-- A token of a template: a fixed one; one that holds a value in quotes; or one that holds a value
as a literal, which is a number if the value is all digits. -/
inductive Slot (ι : Type u) where
  | fixed (token : Token)
  | quoted (mark : Mark) (i : ι)
  | literal (i : ι)
  deriving DecidableEq, Repr

/-- The token of a fixed slot. -/
def Slot.fixed? {ι : Type u} : Slot ι → Option Token
  | .fixed token => some token
  | .quoted _ _ | .literal _ => none

/-- The literal of a value. -/
def literalToken (value : List Char) : Token :=
  if value.all Char.isDigit && !value.isEmpty then .number value else .quoted .double value

variable {ι : Type u}

/-- The token with the values filled in. -/
def Slot.fill (values : ι → List Char) : Slot ι → Token
  | .fixed token => token
  | .quoted mark i => .quoted mark (values i)
  | .literal i => literalToken (values i)

/-- The tokens of a template with the values filled in. -/
def instantiate (values : ι → List Char) (template : List (Slot ι)) : List Token :=
  template.map (Slot.fill values)

/-- The token holds the value and nothing else. -/
inductive Holds (value : List Char) : Token → Prop where
  | quoted (mark : Mark) : Holds value (.quoted mark value)
  | number (hdigits : value.all Char.isDigit = true) : Holds value (.number value)

/-- Two tokens are equal, or hold the two values of one name. -/
def Agree (values values' : ι → List Char) (token token' : Token) : Prop :=
  token = token' ∨ ∃ i, Holds (values i) token ∧ Holds (values' i) token'

/-- A literal holds its value. -/
theorem holds_literalToken (value : List Char) : Holds value (literalToken value) := by
  unfold literalToken
  split
  · next h => exact .number (Bool.and_eq_true_iff.mp h).1
  · exact .quoted _

/-- Two instances of a template agree token by token. -/
theorem agree_instantiate (values values' : ι → List Char) (template : List (Slot ι)) :
    List.Forall₂ (Agree values values') (instantiate values template)
      (instantiate values' template) := by
  induction template with
  | nil => exact .nil
  | cons slot template ih =>
      refine .cons ?_ ih
      cases slot with
      | fixed token => exact .inl rfl
      | quoted mark i => exact .inr ⟨i, .quoted mark, .quoted mark⟩
      | literal i => exact .inr ⟨i, holds_literalToken _, holds_literalToken _⟩

/-- A property of the fixed tokens, and of every token that holds a value, is one of all tokens of
an instance. -/
theorem forall_mem_instantiate {p : Token → Prop} {values : ι → List Char}
    {template : List (Slot ι)} (hfixed : ∀ token ∈ template.filterMap Slot.fixed?, p token)
    (hholds : ∀ i token, Holds (values i) token → p token) :
    ∀ token ∈ instantiate values template, p token := by
  intro token htoken
  obtain ⟨slot, hslot, rfl⟩ := List.mem_map.mp htoken
  cases slot with
  | fixed token => exact hfixed token (List.mem_filterMap.mpr ⟨_, hslot, rfl⟩)
  | quoted mark i => exact hholds i _ (.quoted mark)
  | literal i => exact hholds i _ (holds_literalToken _)

end Wheespa.Sql
