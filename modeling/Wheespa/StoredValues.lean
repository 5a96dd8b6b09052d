import Wheespa.Insertion
import Wheespa.Library.Decimal

/-!
# What a registration stores

`vec_to_str` writes a value that is all digits without quotes, so SQLite reads a number and a text
column stores that number's canonical decimal. `stored_iff` is the main result: the values that
are stored as the same strings, which are those that `authenticate` finds again.
-/

namespace Wheespa

open Sql Decimal

/-- What columns of text affinity store for a list of literals, or `none` where the text is no such
list. -/
def storeLiterals (backend : Backend) (text : Str) : Option (List Value) :=
  if text = [] then some []
  else do
    let operands ← (commas (lex text)).mapM operand?
    let terms ← operands.mapM (resolve backend [])
    some (terms.map fun term => Affinity.store backend .text (term.eval []))

/-- A value that is stored as it is: it is empty or not all digits; or it is the canonical decimal
of an integer of 64 bits; or it is beyond these and its number is written with the same digits. -/
def Verbatim (backend : Backend) (value : Str) : Prop :=
  isAllDigit value = true → value ≠ [] →
    if Nat.ofDigitChars 10 value 0 < 2 ^ 63 then IsCanonical value
    else backend.realText value = value

instance (backend : Backend) (value : Str) : Decidable (Verbatim backend value) :=
  inferInstanceAs (Decidable (isAllDigit value = true → value ≠ [] →
    if Nat.ofDigitChars 10 value 0 < 2 ^ 63 then IsCanonical value
    else backend.realText value = value))

/-- Exactly the verbatim values are stored as they are. -/
theorem storedText_eq_iff (backend : Backend) (value : Str) :
    storedText backend value = value ↔ Verbatim backend value := by
  unfold storedText
  by_cases hdigits : isAllDigit value = true ∧ value ≠ []
  · have hcond : (isAllDigit value && !value.isEmpty) = true := by simpa using hdigits
    have hverbatim : Verbatim backend value ↔
        if Nat.ofDigitChars 10 value 0 < 2 ^ 63 then IsCanonical value
        else backend.realText value = value :=
      ⟨fun h => h hdigits.1 hdigits.2, fun h _ _ => h⟩
    rw [if_pos hcond, hverbatim]
    split
    · exact toDigits_ofDigitChars_iff (List.all_eq_true.mp hdigits.1) hdigits.2
    · rfl
  · have hcond : ¬ (isAllDigit value && !value.isEmpty) = true := by simpa using hdigits
    rw [if_neg hcond]
    exact iff_of_true rfl fun hall hne => absurd ⟨hall, hne⟩ hdigits

/-- The operand of the token of a value. -/
theorem operand?_valueToken (value : Str) :
    operand? [valueToken value] = some (valueOperand value) := by
  rcases valueToken_cases value with ⟨htoken, hoperand⟩ | ⟨htoken, hoperand⟩
  · rw [htoken, hoperand]
    rfl
  · rw [htoken, hoperand]
    rfl

/-- The tokens between the commas are those of the values. -/
theorem commas_intersperse {values : List Str} (hne : values ≠ []) :
    commas ((values.map valueToken).intersperse (.symbol ',')) =
      values.map fun value => [valueToken value] := by
  have hvalue (value : Str) : (valueToken value == .symbol ',') = false := by
    rcases valueToken_cases value with ⟨htoken, _⟩ | ⟨htoken, _⟩ <;> rw [htoken] <;> rfl
  induction values with
  | nil => exact absurd rfl hne
  | cons value values ih =>
      cases values with
      | nil => simp [commas, List.splitOnP_cons_eq_if_modifyHead, hvalue]
      | cons next values =>
          have hih := ih (List.cons_ne_nil _ _)
          rw [commas] at hih
          simp only [List.map_cons, List.intersperse_cons_cons] at hih ⊢
          simp [commas, List.splitOnP_cons_eq_if_modifyHead, hvalue, hih]

/-- The text that `vec_to_str` builds for an insertion. -/
def insertLiterals (values : List Str) : Str :=
  (values.flatMap fun value => FlexDB.quoteParam true value ++ [',']).dropLast

/-- `vec_to_str` builds this text for every object. -/
theorem vecToStr_eq (db : FlexDB) (values : List Str) :
    (FlexDB.vecToStr { db with dbQuoteParams := true } values).1 = insertLiterals values := rfl

/-- The text of one value more. -/
theorem insertLiterals_cons_cons (value next : Str) (values : List Str) :
    insertLiterals (value :: next :: values) =
      FlexDB.quoteParam true value ++ ',' :: insertLiterals (next :: values) :=
  literals_cons_cons value next values

/-- The values are stored as the texts of their tokens. -/
theorem storeLiterals_insertLiterals (backend : Backend) {values : List Str}
    (hvalues : ∀ value ∈ values, '"' ∉ value) :
    storeLiterals backend (insertLiterals values) =
      some (values.map fun value => .text (storedText backend value)) := by
  by_cases hempty : values = []
  · subst hempty
    rfl
  have hlex : lex (insertLiterals values) =
      (values.map valueToken).intersperse (.symbol ',') := by
    have hvalues := @lexFrom_values values hvalues hempty [] (by simp)
    simpa [insertLiterals, lex, lexFrom, Scan.finish] using hvalues
  have hne : insertLiterals values ≠ [] := by
    intro hnil
    rw [hnil] at hlex
    cases values with
    | nil => exact hempty rfl
    | cons value values => cases values <;> simp [lex, lexFrom, Scan.finish] at hlex
  have hoperands (values : List Str) : (values.map fun value => [valueToken value]).mapM operand? =
      some (values.map valueOperand) := by
    induction values with
    | nil => rfl
    | cons value values ih => simp [operand?_valueToken, ih]
  have hterms (values : List Str) : ∃ terms,
      (values.map valueOperand).mapM (resolve backend []) = some terms ∧
      (terms.map fun term => Affinity.store backend .text (term.eval [])) =
        values.map fun value => .text (storedText backend value) := by
    induction values with
    | nil => exact ⟨[], rfl, rfl⟩
    | cons value values ih =>
        obtain ⟨terms, hterms, hstored⟩ := ih
        obtain ⟨v, hv, _, hstore⟩ := exists_value backend value
        refine ⟨.literal v :: terms, by simp [hv, hterms], ?_⟩
        rw [List.map_cons, List.map_cons, hstored, Term.eval, hstore]
  obtain ⟨terms, hterms, hstored⟩ := hterms values
  rw [storeLiterals, if_neg hne, hlex, commas_intersperse hempty, hoperands]
  simp only [Option.bind_eq_bind, Option.bind_some, hterms, hstored]

/-- A part without null characters is passed on whole. -/
theorem cStr_append {s : Str} (h : '\x00' ∉ s) (rest : Str) :
    cStr (s ++ rest) = s ++ cStr rest := by
  unfold cStr
  rw [List.takeWhile_append_of_pos]
  intro c hc
  simpa using ne_of_mem_of_not_mem hc h

/-- Nothing after a null character is passed on. -/
theorem cStr_append_of_mem {s : Str} (h : '\x00' ∈ s) (rest : Str) :
    cStr (s ++ rest) = cStr s := by
  induction s with
  | nil => simp at h
  | cons c s ih =>
      unfold cStr at ih ⊢
      rw [List.cons_append, List.takeWhile_cons, List.takeWhile_cons]
      split
      · next hc =>
          have hne : '\x00' ≠ c := by simpa using Ne.symm (bne_iff_ne.mp hc)
          rw [ih ((List.mem_cons.mp h).resolve_left hne)]
      · rfl

/-- A quoted value with a null character is passed on without its closing quote. -/
theorem lex_cStr_quoted {value : Str} (hvalue : '"' ∉ value) (hnul : '\x00' ∈ value) (rest : Str) :
    lex (cStr (FlexDB.quoteParam true value ++ rest)) = [.illegal] := by
  have hdigits : isAllDigit value = false := by
    rw [isAllDigit, List.all_eq_false]
    exact ⟨'\x00', hnul, by decide⟩
  have hquoted : FlexDB.quoteParam true value ++ rest = ['"'] ++ (value ++ ('"' :: rest)) := by
    simp [FlexDB.quoteParam, hdigits]
  have hopen : '"' ∉ cStr value := fun hmem => hvalue (List.takeWhile_subset _ hmem)
  have hlex := @lexFrom_quote .double _ hopen [] []
  rw [hquoted, cStr_append (by decide), cStr_append_of_mem hnul]
  rw [List.append_nil] at hlex
  exact hlex

/-- The text of an insertion with a null character in a value is passed on up to an open quote. -/
theorem illegal_mem_lex {values : List Str} (hvalues : ∀ value ∈ values, '"' ∉ value)
    (hnul : ∃ value ∈ values, '\x00' ∈ value) :
    .illegal ∈ lex (cStr (insertLiterals values)) := by
  induction values with
  | nil => simp at hnul
  | cons value values ih =>
      rw [List.forall_mem_cons] at hvalues
      cases values with
      | nil =>
          have hmem : '\x00' ∈ value := by simpa using hnul
          have hlex := lex_cStr_quoted hvalues.1 hmem []
          rw [List.append_nil] at hlex
          have htext : insertLiterals [value] = FlexDB.quoteParam true value := by
            simp [insertLiterals]
          rw [htext, hlex]
          exact List.mem_singleton_self _
      | cons next values =>
          rw [insertLiterals_cons_cons]
          by_cases hmem : '\x00' ∈ value
          · rw [lex_cStr_quoted hvalues.1 hmem]
            exact List.mem_singleton_self _
          · have hrest := ih hvalues.2 (by simpa [hmem] using hnul)
            have hcomma : cStr (',' :: insertLiterals (next :: values)) =
                ',' :: cStr (insertLiterals (next :: values)) := rfl
            rw [cStr_append (nul_not_mem_quoteParam hmem), hcomma, lex,
              lexFrom_quoteParam hvalues.1 (by simp)]
            exact List.mem_cons_of_mem _ (List.mem_cons_of_mem _ hrest)

/-- The values of an insertion are stored as the same strings exactly when they have no null
characters and are verbatim. -/
theorem storeLiterals_iff (backend : Backend) {values : List Str}
    (hvalues : ∀ value ∈ values, '"' ∉ value) :
    storeLiterals backend (cStr (insertLiterals values)) = some (values.map .text) ↔
      ∀ value ∈ values, '\x00' ∉ value ∧ Verbatim backend value := by
  by_cases hnul : ∃ value ∈ values, '\x00' ∈ value
  · have hillegal := illegal_mem_lex hvalues hnul
    have hne : cStr (insertLiterals values) ≠ [] := by
      intro hnil
      rw [hnil] at hillegal
      exact absurd hillegal (by decide)
    obtain ⟨value, hvalue, hmem⟩ := hnul
    refine iff_of_false ?_ fun h => (h value hvalue).1 hmem
    rw [storeLiterals, if_neg hne, operands_of_illegal hillegal]
    simp
  · have hnot : ∀ value ∈ values, '\x00' ∉ value := fun value hvalue hmem =>
      hnul ⟨value, hvalue, hmem⟩
    have htext : '\x00' ∉ insertLiterals values := nul_not_mem_literals hnot
    rw [cStr_of_not_mem htext, storeLiterals_insertLiterals backend hvalues, Option.some.injEq,
      List.map_inj_left]
    refine forall₂_congr fun value hvalue => ?_
    rw [Value.text.injEq, storedText_eq_iff]
    exact (and_iff_right (hnot value hvalue)).symm

/-- What `vec_to_str` builds for values without double quotes stores each of them as the same string
exactly when it has no null character and is verbatim; and a completed insertion of `registerUser`
adds an account with the name and the digest given exactly when both are verbatim. -/
theorem stored_iff (engine : Engine) (db : FlexDB) :
    (∀ values : List Str, (∀ value ∈ values, '"' ∉ value) →
      (storeLiterals engine.toBackend
          (cStr (FlexDB.vecToStr { db with dbQuoteParams := true } values).1) =
          some (values.map .text) ↔
        ∀ value ∈ values, '\x00' ∉ value ∧ Verbatim engine.toBackend value)) ∧
    ∀ user digest mail : Str, Prepared db.database → IsValue user → IsValue digest →
      IsValue mail →
      let result := db.insert engine "PendingRegistrations".toList
        "W_USER, W_PASS, W_MAIL, W_KEY".toList [user, digest, mail, []]
      result.1.ok = true →
      ((∃ account, accounts result.2.database "PendingRegistrations" =
          accounts db.database "PendingRegistrations" ++ [account] ∧
          account.user = user ∧ account.pass = digest) ↔
        Verbatim engine.toBackend user ∧ Verbatim engine.toBackend digest) := by
  constructor
  · intro values hvalues
    rw [vecToStr_eq]
    exact storeLiterals_iff engine.toBackend hvalues
  · intro user digest mail hdb huser hdigest hmail result hok
    rcases insert_pending engine hdb huser hdigest hmail with
      ⟨hfail, _⟩ | ⟨_, _, _, _, id, hadded⟩
    · exact absurd (hfail.symm.trans hok) Bool.false_ne_true
    · rw [hadded, ← storedText_eq_iff, ← storedText_eq_iff]
      simp only [List.append_cancel_left_eq, List.cons.injEq, and_true]
      constructor
      · rintro ⟨account, rfl, hname, hpass⟩
        exact ⟨hname, hpass⟩
      · rintro ⟨hname, hpass⟩
        exact ⟨_, rfl, hname, hpass⟩

/-- The tables that `prepareDatabase` creates, with no account in them. -/
def emptyTables : Database :=
  Database.set (Database.set (Database.set (fun _ => none)
    "Administrators".toList (.empty administratorSchema))
    "PendingRegistrations".toList (.empty accountSchema))
    "Registered".toList (.empty accountSchema)

theorem prepared_emptyTables : Prepared emptyTables :=
  ⟨⟨_, rfl, rfl⟩, ⟨_, rfl, rfl⟩, ⟨_, rfl, rfl⟩⟩

/-- Values with letters are stored as they are, and so are the name and the digest of an account
that is added. -/
theorem stored_letters :
    storeLiterals Engine.plain.toBackend
      (cStr (FlexDB.vecToStr { FlexDB.openFile emptyTables with dbQuoteParams := true }
        ["alice".toList, "42".toList]).1) = some [.text "alice".toList, .text "42".toList] ∧
    ∃ account, accounts ((FlexDB.openFile emptyTables).insert .plain "PendingRegistrations".toList
        "W_USER, W_PASS, W_MAIL, W_KEY".toList
        ["alice".toList, "ABAB".toList, "a@b.c".toList, []]).2.database "PendingRegistrations" =
        accounts emptyTables "PendingRegistrations" ++ [account] ∧
      account.user = "alice".toList ∧ account.pass = "ABAB".toList :=
  ⟨((stored_iff .plain (.openFile emptyTables)).1 ["alice".toList, "42".toList] (by decide)).mpr
      (by decide),
    ((stored_iff .plain (.openFile emptyTables)).2 "alice".toList "ABAB".toList "a@b.c".toList
      prepared_emptyTables (List.all_eq_true.mp (by decide)) (List.all_eq_true.mp (by decide))
      (List.all_eq_true.mp (by decide)) (by decide +kernel)).mpr (by decide)⟩

/-- A name of digits that begins with zeros is stored without them. -/
theorem stored_leading_zeros : ∃ values : List Str, (∀ value ∈ values, '"' ∉ value) ∧
    values = ["007".toList] ∧
    storeLiterals Engine.plain.toBackend
      (cStr (FlexDB.vecToStr ⟨⟨fun _ => none, false⟩, true, none, []⟩ values).1) =
      some [.text "7".toList] ∧
    storeLiterals Engine.plain.toBackend
      (cStr (FlexDB.vecToStr ⟨⟨fun _ => none, false⟩, true, none, []⟩ values).1) ≠
      some (values.map .text) :=
  ⟨["007".toList], by decide, rfl, by decide +kernel, by decide +kernel⟩

end Wheespa
