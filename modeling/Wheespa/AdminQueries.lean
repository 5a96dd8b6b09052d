import Wheespa.Accounts
import Wheespa.HandleReceived

/-!
# The queries of the administrators

The texts that `ACCEPT_REGISTRATION` and `ADD_ADMIN` hand to SQLite, for any identity of a row. Both
copy a row into a table with two of its columns. In `Registered` that leaves out a column that must
not be null, and `Administrators` does not have one of the two, so neither changes the database
(`exec_acceptQuery`, `exec_addAdminQuery`).
-/

namespace Wheespa

open Sql HandleReceived

/-- The tokens of an integer. -/
def integerTokens : Int → List Token
  | .ofNat n => [.number (Nat.toDigits 10 n)]
  | .negSucc n => [.symbol '-', .number (Nat.toDigits 10 (n + 1))]

/-- The operand that an integer is read as. -/
def integerOperand : Int → Operand
  | .ofNat n => .number false (Nat.toDigits 10 n)
  | .negSucc n => .number true (Nat.toDigits 10 (n + 1))

/-- The digits of different numbers are different. -/
theorem toDigits_injective {n m : Nat} (h : Nat.toDigits 10 n = Nat.toDigits 10 m) : n = m := by
  have hread := congrArg (fun digits => Nat.ofDigitChars 10 digits 0) h
  simpa only [Nat.ofDigitChars_ten_toDigits] using hread

/-- The sign is no digit. -/
theorem toDigits_ne_dash_cons (n : Nat) (text : Str) : Nat.toDigits 10 n ≠ '-' :: text := by
  intro h
  have hmem : '-' ∈ Nat.toDigits 10 n := by
    rw [h]
    exact List.mem_cons_self
  exact absurd (Nat.isDigit_of_mem_toDigits (by decide) (by decide) hmem) (by decide)

/-- Different integers have different texts. -/
theorem integerText_injective {id id' : Int} (h : integerText id = integerText id') : id = id' := by
  cases id with
  | ofNat n =>
      cases id' with
      | ofNat m => exact congrArg Int.ofNat (toDigits_injective h)
      | negSucc m => exact absurd h (toDigits_ne_dash_cons n _)
  | negSucc n =>
      cases id' with
      | ofNat m => exact absurd h.symm (toDigits_ne_dash_cons m _)
      | negSucc m =>
          have hsucc := toDigits_injective (List.cons.inj h).2
          exact congrArg Int.negSucc (Nat.succ.inj hsucc)

/-- Different integers are different operands. -/
theorem integerOperand_injective {id id' : Int} (h : integerOperand id = integerOperand id') :
    id = id' := by
  cases id <;> cases id' <;> simp only [integerOperand, Operand.number.injEq, true_and,
    Bool.false_eq_true, Bool.true_eq_false, false_and] at h
  · exact congrArg Int.ofNat (toDigits_injective h)
  · exact congrArg Int.negSucc (Nat.succ.inj (toDigits_injective h))

/-- The digits of a number are a single token. -/
theorem lexFrom_toDigits (n : Nat) {rest : Str}
    (hrest : ∀ c ∈ rest.head?, isWordChar c = false ∧ c ≠ '.') :
    lexFrom .gap (Nat.toDigits 10 n ++ rest) = .number (Nat.toDigits 10 n) :: lexFrom .gap rest :=
  lexFrom_number Nat.toDigits_ne_nil
    (fun _ => Nat.isDigit_of_mem_toDigits (by decide) (by decide)) hrest

/-- The text of an integer is read as its tokens. -/
theorem lexFrom_integerText (id : Int) {rest : Str}
    (hrest : ∀ c ∈ rest.head?, isWordChar c = false ∧ c ≠ '.') :
    lexFrom .gap (integerText id ++ rest) = integerTokens id ++ lexFrom .gap rest := by
  cases id with
  | ofNat n => exact lexFrom_toDigits n hrest
  | negSucc n =>
      obtain ⟨d, digits, hdigits⟩ := List.exists_cons_of_ne_nil
        (Nat.toDigits_ne_nil : Nat.toDigits 10 (n + 1) ≠ [])
      have hdash : (d == '-') = false := by
        rw [beq_eq_false_iff_ne]
        rintro rfl
        exact toDigits_ne_dash_cons _ _ hdigits
      have hsign (text : Str) :
          lexFrom .gap ('-' :: d :: text) = .symbol '-' :: lexFrom .gap (d :: text) := by
        have hgap : Scan.step .gap '-' = (.dash, []) := by decide
        have hstep : Scan.step .dash d = Scan.emit (.symbol '-') d := by
          simp [Scan.step, hdash]
        rw [lexFrom, hgap, lexFrom, hstep]
        rfl
      have hnumber := lexFrom_toDigits (n + 1) hrest
      rw [integerText, integerTokens, List.cons_append, hdigits, List.cons_append, hsign,
        ← List.cons_append, ← hdigits, hnumber]
      rfl

/-- A fixed part and the text of an integer. -/
theorem lexFrom_head_integer {head : Str} {tokens : List Token}
    (hhead : Scan.readAll .gap head = (.gap, tokens)) (id : Int) {rest : Str}
    (hrest : ∀ c ∈ rest.head?, isWordChar c = false ∧ c ≠ '.') :
    lexFrom .gap (head ++ (integerText id ++ rest)) =
      tokens ++ (integerTokens id ++ lexFrom .gap rest) := by
  rw [lexFrom_append, hhead, lexFrom_integerText id hrest]

/-- The text of an integer has no null character. -/
theorem nul_not_mem_integerText (id : Int) : '\x00' ∉ integerText id := by
  have hdigits (n : Nat) : '\x00' ∉ Nat.toDigits 10 n := fun hmem =>
    absurd (Nat.isDigit_of_mem_toDigits (by decide) (by decide) hmem) (by decide)
  cases id with
  | ofNat n => exact hdigits n
  | negSucc n => simpa [integerText] using hdigits (n + 1)

/-- An integer denotes a value. -/
theorem exists_integerValue (backend : Backend) (scope : Scope) (id : Int) :
    ∃ value, resolve backend scope (integerOperand id) = some (.literal value) := by
  cases id with
  | ofNat n => exact ⟨_, rfl⟩
  | negSucc n => exact ⟨_, rfl⟩

/-- An integer of 64 bits denotes itself. -/
theorem resolve_integerOperand (backend : Backend) (scope : Scope) {id : Int}
    (hid : id.natAbs < 2 ^ 63) :
    resolve backend scope (integerOperand id) = some (.literal (.integer id)) := by
  cases id with
  | ofNat n =>
      have hn : n < 2 ^ 63 := hid
      simp only [integerOperand, resolve, numberValue, Nat.ofDigitChars_ten_toDigits, hn, if_true]
      rfl
  | negSucc n =>
      have hn : n + 1 < 2 ^ 63 := hid
      simp only [integerOperand, resolve, numberValue, Nat.ofDigitChars_ten_toDigits, hn, if_true]
      rfl

/-- The condition on the identity of a row. -/
def idCondition (id : Int) : Condition :=
  [[⟨.column none "W_ID".toList, integerOperand id⟩]]

/-- The condition with its names resolved, for an identity of 64 bits. -/
theorem resolveCondition_idCondition {backend : Backend} {scope : Scope} {term : Term}
    (hcolumn : resolve backend scope (.column none "W_ID".toList) = some term) {id : Int}
    (hid : id.natAbs < 2 ^ 63) :
    resolveCondition backend scope (idCondition id) =
      some [[⟨term, .literal (.integer id)⟩]] := by
  simp only [resolveCondition, idCondition, List.mapM_cons, List.mapM_nil, hcolumn,
    resolve_integerOperand backend _ hid, Option.bind_eq_bind, Option.bind_some, Option.pure_def]

/-- The copy of two columns that both queries make. -/
def copyStatement (target source : String) (id : Int) : Statement :=
  .insertSelect target.toList ["W_USER".toList, "W_PASS".toList]
    ⟨some [.column none "W_USER".toList, .column none "W_PASS".toList],
      [⟨source.toList, source.toList⟩], idCondition id⟩

/-- The statements of `ACCEPT_REGISTRATION`. -/
theorem parse_acceptQuery (id : Int) :
    parse (acceptQuery id) = some [copyStatement "Registered" "PendingRegistrations" id,
      .delete "PendingRegistrations".toList (idCondition id)] := by
  have hinsert : Scan.readAll .gap ("Insert into Registered(W_USER, W_PASS) ".toList ++
      "Select W_USER, W_PASS from PendingRegistrations where W_ID = ".toList) =
      (.gap, [.word "Insert".toList, .word "into".toList, .word "Registered".toList,
        .symbol '(', .word "W_USER".toList, .symbol ',', .word "W_PASS".toList, .symbol ')',
        .word "Select".toList, .word "W_USER".toList, .symbol ',', .word "W_PASS".toList,
        .word "from".toList, .word "PendingRegistrations".toList, .word "where".toList,
        .word "W_ID".toList, .symbol '=']) := by
    repeat rw [String.toList_ofList]
    decide +kernel
  have hdelete : Scan.readAll .gap
      "; Delete from PendingRegistrations where W_ID = ".toList =
      (.gap, [.symbol ';', .word "Delete".toList, .word "from".toList,
        .word "PendingRegistrations".toList, .word "where".toList, .word "W_ID".toList,
        .symbol '=']) := by
    repeat rw [String.toList_ofList]
    rfl
  have hlast := @lexFrom_head_integer _ _ hdelete id [] (by simp)
  have hfirst := @lexFrom_head_integer _ _ hinsert id
    ("; Delete from PendingRegistrations where W_ID = ".toList ++ (integerText id ++ []))
    (by simp [isWordChar, isWordStart])
  have htext : acceptQuery id = "Insert into Registered(W_USER, W_PASS) ".toList ++
      "Select W_USER, W_PASS from PendingRegistrations where W_ID = ".toList ++ (integerText id ++
        ("; Delete from PendingRegistrations where W_ID = ".toList ++ (integerText id ++ []))) := by
    unfold acceptQuery
    simp only [List.append_assoc, List.append_nil]
  unfold parse lex
  rw [htext, hfirst, hlast]
  cases id <;> rfl

/-- The statement of `ADD_ADMIN`. -/
theorem parse_addAdminQuery (id : Int) :
    parse (addAdminQuery id) = some [copyStatement "Administrators" "Registered" id] := by
  have hinsert : Scan.readAll .gap ("Insert into Administrators(W_USER, W_PASS) ".toList ++
      "Select W_USER, W_PASS from Registered where W_ID = ".toList) =
      (.gap, [.word "Insert".toList, .word "into".toList, .word "Administrators".toList,
        .symbol '(', .word "W_USER".toList, .symbol ',', .word "W_PASS".toList, .symbol ')',
        .word "Select".toList, .word "W_USER".toList, .symbol ',', .word "W_PASS".toList,
        .word "from".toList, .word "Registered".toList, .word "where".toList,
        .word "W_ID".toList, .symbol '=']) := by
    repeat rw [String.toList_ofList]
    decide +kernel
  have hlex := @lexFrom_head_integer _ _ hinsert id [] (by simp)
  unfold parse lex addAdminQuery
  rw [← List.append_nil (integerText id), hlex]
  cases id <;> rfl

/-- The query of `ACCEPT_REGISTRATION` has no null character. -/
theorem nul_not_mem_acceptQuery (id : Int) : '\x00' ∉ acceptQuery id := by
  unfold acceptQuery
  simp only [List.mem_append, not_or]
  exact ⟨⟨⟨⟨not_mem_literal (by decide), not_mem_literal (by decide)⟩,
    nul_not_mem_integerText id⟩, not_mem_literal (by decide)⟩, nul_not_mem_integerText id⟩

/-- The query of `ADD_ADMIN` has no null character. -/
theorem nul_not_mem_addAdminQuery (id : Int) : '\x00' ∉ addAdminQuery id := by
  unfold addAdminQuery
  simp only [List.mem_append, not_or]
  exact ⟨⟨not_mem_literal (by decide), not_mem_literal (by decide)⟩,
    nul_not_mem_integerText id⟩

/-- An account cannot be inserted without an address. -/
theorem insertRow_without_mail (backend : Backend) {table : Table}
    (hschema : table.schema = accountSchema) (values : List Value) :
    insertRow backend ["W_USER".toList, "W_PASS".toList] table values = none := by
  have hindices : ["W_USER".toList, "W_PASS".toList].mapM table.schema.lookup? = some [1, 2] := by
    rw [hschema]
    rfl
  by_cases hlength : values.length = 2
  · obtain ⟨user, pass, rfl⟩ := List.length_eq_two.mp hlength
    rw [insertRow_eq backend hindices rfl, Option.bind_eq_none_iff]
    intro row hrow
    have hmail : row[3]? = some .null := by
      rw [hschema] at hrow
      replace hrow : List.mapM _ [(_, 0), (_, 1), (_, 2), (_, 3), (_, 4)] = some row := hrow
      simp only [List.mapM_cons, List.mapM_nil, Option.bind_eq_bind, Option.bind_eq_some_iff,
        Option.pure_def, Option.some.injEq] at hrow
      obtain ⟨_, _, _, ⟨_, _, _, ⟨_, _, _, ⟨mail, hmail, _, _, rfl⟩, rfl⟩, rfl⟩, rfl⟩ := hrow
      exact hmail.symm
    refine dif_neg fun hvalid => ?_
    have hfits := hvalid.fits row (List.mem_append_right _ (List.mem_singleton_self row))
    rw [hschema] at hfits
    obtain ⟨account, rfl⟩ := Account.exists_toRow hfits
    simp [Account.toRow] at hmail
  · simp only [insertRow, hindices, Option.bind_eq_bind, Option.bind_some]
    exact if_neg fun h => hlength h.symm

/-- What the query of a copy finds, in a table of accounts. -/
theorem copyQuery_run (backend : Backend) {database : Database} {source : String} {table : Table}
    (htable : database.table? source.toList = some table) (hschema : table.schema = accountSchema)
    (id : Int) :
    ∃ (equation : Equation) (chosen : List (List Row)),
      resolveCondition backend [(source.toList, accountSchema)] (idCondition id) =
        some [[equation]] ∧
      chosen.Perm ([table.rows].sections.filter (holds backend [[equation]])) ∧
      Query.run backend database ⟨some [.column none "W_USER".toList, .column none "W_PASS".toList],
          [⟨source.toList, source.toList⟩], idCondition id⟩ =
        some (chosen.map fun rows => ["W_USER".toList, "W_PASS".toList].zip
          [Term.eval rows (.column 0 1 .text), Term.eval rows (.column 0 2 .text)]) := by
  obtain ⟨value, hvalue⟩ := exists_integerValue backend [(source.toList, accountSchema)] id
  have hid : resolve backend [(source.toList, accountSchema)] (.column none "W_ID".toList) =
      some (.column 0 0 .integer) := rfl
  have huser : resolve backend [(source.toList, accountSchema)] (.column none "W_USER".toList) =
      some (.column 0 1 .text) := rfl
  have hpass : resolve backend [(source.toList, accountSchema)] (.column none "W_PASS".toList) =
      some (.column 0 2 .text) := rfl
  have hcondition : resolveCondition backend [(source.toList, accountSchema)] (idCondition id) =
      some [[⟨.column 0 0 .integer, .literal value⟩]] := by
    simp only [resolveCondition, idCondition, List.mapM_cons, List.mapM_nil, hvalue, hid]
    rfl
  refine ⟨_, _, hcondition, backend.arrange_perm database
    ⟨some [.column none "W_USER".toList, .column none "W_PASS".toList],
      [⟨source.toList, source.toList⟩], idCondition id⟩ _, ?_⟩
  simp only [Query.run, List.mapM_cons, List.mapM_nil, htable, Option.bind_eq_bind,
    Option.bind_some, Option.pure_def, List.map_cons, List.map_nil, List.zip_cons_cons,
    List.zip_nil_right, hschema, hcondition, huser, hpass]
  rfl

/-- `ACCEPT_REGISTRATION` changes nothing. -/
theorem run_acceptQuery (backend : Backend) {database : Database} (hdb : Prepared database)
    (id : Int) :
    (run backend ⟨database, false⟩ [copyStatement "Registered" "PendingRegistrations" id,
      .delete "PendingRegistrations".toList (idCondition id)]).session = ⟨database, false⟩ := by
  obtain ⟨registered, hregistered, hschema⟩ := hdb.registered
  obtain ⟨pending, hpending, hpendingSchema⟩ := hdb.pending
  obtain ⟨equation, chosen, hcondition, hperm, hquery⟩ :=
    copyQuery_run backend hpending hpendingSchema id
  have hcolumns : ["W_USER".toList, "W_PASS".toList].mapM registered.schema.lookup? =
      some [1, 2] := by
    rw [hschema]
    rfl
  by_cases hchosen : chosen = []
  · -- no row has the identity: nothing is copied and nothing is deleted
    have hcopy : (copyStatement "Registered" "PendingRegistrations" id).run backend
        ⟨database, false⟩ = some (⟨database, false⟩, []) := by
      simp only [copyStatement, Statement.run, hregistered, hcolumns, hquery, hchosen,
        Option.bind_eq_bind, Option.bind_some, List.map_nil, List.foldlM_nil, Option.pure_def,
        Bool.not_false, Bool.true_or, if_true, Database.set_eq_self hregistered]
    have hkept : ∀ row ∈ pending.rows, (!holds backend [[equation]] [row]) = true := by
      intro row hrow
      have hmem : [row] ∈ [pending.rows].sections := by simpa using hrow
      have hnone := List.nil_perm.mp (hchosen ▸ hperm)
      simpa using List.filter_eq_nil_iff.mp hnone [row] hmem
    have hdelete : (Statement.delete "PendingRegistrations".toList (idCondition id)).run backend
        ⟨database, false⟩ = some (⟨database, false⟩, []) := by
      simp only [Statement.run, hpending, hpendingSchema, hcondition, Option.bind_eq_bind,
        Option.bind_some, Table.filter_eq_self hkept, Database.set_eq_self hpending]
      rfl
    simp only [run, hcopy, hdelete]
  · -- the row that is copied has no address, and the rest is not run
    have hcopy : (copyStatement "Registered" "PendingRegistrations" id).run backend
        ⟨database, false⟩ = none := by
      obtain ⟨rows, others, hrows⟩ := List.exists_cons_of_ne_nil hchosen
      simp only [copyStatement, Statement.run, hregistered, hcolumns, hquery, hrows,
        Option.bind_eq_bind, Option.bind_some, List.map_cons, List.foldlM_cons,
        insertRow_without_mail backend hschema, Option.bind_none]
    simp only [run, hcopy]

/-- `ADD_ADMIN` changes nothing. -/
theorem run_addAdminQuery (backend : Backend) {database : Database} (hdb : Prepared database)
    (id : Int) :
    (run backend ⟨database, false⟩ [copyStatement "Administrators" "Registered" id]).session =
      ⟨database, false⟩ := by
  obtain ⟨table, htable, hschema⟩ := hdb.administrators
  have hcolumns : ["W_USER".toList, "W_PASS".toList].mapM table.schema.lookup? = none := by
    rw [hschema]
    rfl
  have hcopy : (copyStatement "Administrators" "Registered" id).run backend ⟨database, false⟩ =
      none := by
    simp only [copyStatement, Statement.run, htable, hcolumns, Option.bind_eq_bind,
      Option.bind_some, Option.bind_none]
  simp only [run, hcopy]

/-- The text of `ACCEPT_REGISTRATION` changes nothing. -/
theorem exec_acceptQuery (engine : Engine) {database : Database} (hdb : Prepared database)
    (id : Int) :
    (engine.exec ⟨database, false⟩ (cStr (acceptQuery id))).session.database = database := by
  rw [cStr_of_not_mem (nul_not_mem_acceptQuery id), engine.exec_eq _ _ _ (parse_acceptQuery id),
    run_acceptQuery engine.toBackend hdb]

/-- The text of `ADD_ADMIN` changes nothing. -/
theorem exec_addAdminQuery (engine : Engine) {database : Database} (hdb : Prepared database)
    (id : Int) :
    (engine.exec ⟨database, false⟩ (cStr (addAdminQuery id))).session.database = database := by
  rw [cStr_of_not_mem (nul_not_mem_addAdminQuery id), engine.exec_eq _ _ _ (parse_addAdminQuery id),
    run_addAdminQuery engine.toBackend hdb]

end Wheespa
