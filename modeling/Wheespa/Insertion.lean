import Wheespa.Accounts

/-!
# Insertions

The text that `FlexDB::insert` builds, read as a statement: a value is a quoted token, or a number
when it is all digits, which a text column then stores in canonical form (`storedText`).
`insert_pending` says what the insertion of `registerUser` does to the account tables.
-/

namespace Wheespa

open Sql

/-- The token that a value of an insertion is read as. -/
def valueToken (value : Str) : Token :=
  if isAllDigit value && !value.isEmpty then .number value else .quoted .double value

/-- The operand that a value of an insertion is read as. -/
def valueOperand (value : Str) : Operand :=
  if isAllDigit value && !value.isEmpty then .number false value else .quoted value

/-- What a text column stores for a value of an insertion. -/
def storedText (backend : Backend) (value : Str) : Str :=
  if isAllDigit value && !value.isEmpty then
    if Nat.ofDigitChars 10 value 0 < 2 ^ 63 then Nat.toDigits 10 (Nat.ofDigitChars 10 value 0)
    else backend.realText value
  else value

/-- A value is read as a number or as a quoted token. -/
theorem valueToken_cases (value : Str) :
    valueToken value = .number value ∧ valueOperand value = .number false value ∨
      valueToken value = .quoted .double value ∧ valueOperand value = .quoted value := by
  unfold valueToken valueOperand
  split
  · exact .inl ⟨rfl, rfl⟩
  · exact .inr ⟨rfl, rfl⟩

/-- A value of an insertion is a single token. -/
theorem lexFrom_quoteParam {value : Str} (hvalue : '"' ∉ value) {rest : Str}
    (hrest : ∀ c ∈ rest.head?, c = ',' ∨ c = ')') :
    lexFrom .gap (FlexDB.quoteParam true value ++ rest) =
      valueToken value :: lexFrom .gap rest := by
  unfold FlexDB.quoteParam valueToken
  rw [if_pos rfl]
  split
  · next hdigits =>
      simp only [isAllDigit, Bool.and_eq_true, List.all_eq_true, Bool.not_eq_true',
        List.isEmpty_eq_false_iff] at hdigits
      refine lexFrom_number hdigits.2 hdigits.1 fun c hc => ?_
      rcases hrest c hc with rfl | rfl <;> simp [isWordChar, isWordStart]
  · have hend : ∀ c ∈ rest.head?, c ≠ Mark.double.char := fun c hc => by
      rcases hrest c hc with rfl | rfl <;> simp [Mark.char]
    have hquote := @lexFrom_head_quoted .double ['"'] value rest [] (by decide) hvalue hend
    simp only [List.cons_append, List.append_assoc, List.nil_append]
    exact hquote

/-- The literals of an insertion of one value more. -/
theorem literals_cons_cons (value next : Str) (values : List Str) :
    ((value :: next :: values).flatMap fun value =>
        FlexDB.quoteParam true value ++ [',']).dropLast =
      FlexDB.quoteParam true value ++ ',' ::
        ((next :: values).flatMap fun value =>
          FlexDB.quoteParam true value ++ [',']).dropLast := by
  have hne : ((next :: values).flatMap fun value =>
      FlexDB.quoteParam true value ++ [',']) ≠ [] := by
    simp
  rw [List.flatMap_cons, List.dropLast_append_of_ne_nil hne, List.append_assoc,
    List.singleton_append]

/-- The values of an insertion are tokens separated by commas. -/
theorem lexFrom_values {values : List Str} (hvalues : ∀ value ∈ values, '"' ∉ value)
    (hne : values ≠ []) {rest : Str} (hrest : ∀ c ∈ rest.head?, c = ',' ∨ c = ')') :
    lexFrom .gap ((values.flatMap fun value =>
        FlexDB.quoteParam true value ++ [',']).dropLast ++ rest) =
      (values.map valueToken).intersperse (.symbol ',') ++ lexFrom .gap rest := by
  induction values with
  | nil => exact absurd rfl hne
  | cons value values ih =>
      rw [List.forall_mem_cons] at hvalues
      cases values with
      | nil => simpa using lexFrom_quoteParam hvalues.1 hrest
      | cons next values =>
          have hih := ih hvalues.2 (List.cons_ne_nil _ _)
          have hfirst (text : Str) : lexFrom .gap (FlexDB.quoteParam true value ++ ',' :: text) =
              valueToken value :: .symbol ',' :: lexFrom .gap text :=
            lexFrom_quoteParam hvalues.1 (by simp)
          rw [literals_cons_cons, List.append_assoc, List.cons_append, hfirst, hih]
          rfl

/-- The text of an insertion. -/
def insertText (table columns : Str) (values : List Str) : Str :=
  "insert into ".toList ++ table ++ "(".toList ++ columns ++ ") values(".toList ++
    (values.flatMap fun value => FlexDB.quoteParam true value ++ [',']).dropLast ++ ")".toList

/-- The tokens of an insertion, from those of its fixed part. -/
theorem lex_insertText {table columns : Str} {tokens : List Token} {values : List Str}
    (hhead : Scan.readAll .gap ("insert into ".toList ++ table ++ "(".toList ++ columns ++
      ") values(".toList) = (.gap, tokens))
    (hvalues : ∀ value ∈ values, '"' ∉ value) (hne : values ≠ []) :
    lex (insertText table columns values) =
      tokens ++ ((values.map valueToken).intersperse (.symbol ',') ++ [.symbol ')']) := by
  have htail := @lexFrom_values values hvalues hne ")".toList (by simp)
  unfold lex insertText
  rw [List.append_assoc _ (List.dropLast _), lexFrom_append, hhead, htail]
  rfl

/-- A text without null characters is inserted as its statements say. -/
theorem insert_eq (engine : Engine) (db : FlexDB) {table columns : Str} {values : List Str}
    {statements : List Statement} (htext : '\x00' ∉ insertText table columns values)
    (hparse : parse (insertText table columns values) = some statements) :
    (db.insert engine table columns values).1 = run engine.toBackend db.dbHandle statements ∧
      (db.insert engine table columns values).2 =
        { db with
          dbHandle := (run engine.toBackend db.dbHandle statements).session
          dbQuoteParams := false
          executed := db.executed ++ [insertText table columns values] } := by
  have hexec : db.insert engine table columns values =
      FlexDB.execQuery engine { db with dbQuoteParams := false }
        (insertText table columns values) := rfl
  rw [hexec, FlexDB.execQuery, cStr_of_not_mem htext, engine.exec_eq _ _ _ hparse]
  exact ⟨rfl, rfl⟩

/-- What is appended for a value has no null character that the value does not have. -/
theorem nul_not_mem_quoteParam {value : Str} (h : '\x00' ∉ value) :
    '\x00' ∉ FlexDB.quoteParam true value := by
  unfold FlexDB.quoteParam
  rw [if_pos rfl]
  split <;> simp [h]

/-- The literals of an insertion have no null character that the values do not have. -/
theorem nul_not_mem_literals {values : List Str} (h : ∀ value ∈ values, '\x00' ∉ value) :
    '\x00' ∉ (values.flatMap fun value => FlexDB.quoteParam true value ++ [',']).dropLast := by
  intro hmem
  obtain ⟨value, hvalue, hmem⟩ := List.mem_flatMap.mp (List.mem_of_mem_dropLast hmem)
  rcases List.mem_append.mp hmem with hmem | hcomma
  · exact nul_not_mem_quoteParam (h value hvalue) hmem
  · exact absurd hcomma (by decide)

/-- The text of an insertion contains no null character that its parts do not contain. -/
theorem not_mem_insertText {table columns : Str} {values : List Str}
    (hhead : '\x00' ∉ "insert into ".toList ++ table ++ "(".toList ++ columns ++
      ") values(".toList) (hvalues : ∀ value ∈ values, '\x00' ∉ value) :
    '\x00' ∉ insertText table columns values := by
  unfold insertText
  rw [List.mem_append, List.mem_append, not_or, not_or]
  exact ⟨⟨hhead, nul_not_mem_literals hvalues⟩, by decide⟩

/-- The tokens of the insertion of `registerUser`. -/
theorem lex_insertPending {user pass mail : Str} (huser : '"' ∉ user) (hpass : '"' ∉ pass)
    (hmail : '"' ∉ mail) :
    lex (insertText "PendingRegistrations".toList "W_USER, W_PASS, W_MAIL, W_KEY".toList
      [user, pass, mail, []]) =
      [.word "insert".toList, .word "into".toList, .word "PendingRegistrations".toList,
        .symbol '(', .word "W_USER".toList, .symbol ',', .word "W_PASS".toList, .symbol ',',
        .word "W_MAIL".toList, .symbol ',', .word "W_KEY".toList, .symbol ')',
        .word "values".toList, .symbol '(', valueToken user, .symbol ',', valueToken pass,
        .symbol ',', valueToken mail, .symbol ',', .quoted .double [], .symbol ')'] := by
  have hhead : Scan.readAll .gap ("insert into ".toList ++ "PendingRegistrations".toList ++
      "(".toList ++ "W_USER, W_PASS, W_MAIL, W_KEY".toList ++ ") values(".toList) =
      (.gap, [.word "insert".toList, .word "into".toList, .word "PendingRegistrations".toList,
        .symbol '(', .word "W_USER".toList, .symbol ',', .word "W_PASS".toList, .symbol ',',
        .word "W_MAIL".toList, .symbol ',', .word "W_KEY".toList, .symbol ')',
        .word "values".toList, .symbol '(']) := by
    repeat rw [String.toList_ofList]
    rfl
  have hvalues : ∀ value ∈ [user, pass, mail, []], '"' ∉ value := by
    simp [huser, hpass, hmail]
  exact lex_insertText hhead hvalues (List.cons_ne_nil _ _)

/-- The statement of the insertion of `registerUser`. -/
theorem parse_insertPending {user pass mail : Str} (huser : '"' ∉ user) (hpass : '"' ∉ pass)
    (hmail : '"' ∉ mail) :
    parse (insertText "PendingRegistrations".toList "W_USER, W_PASS, W_MAIL, W_KEY".toList
      [user, pass, mail, []]) = some [.insertValues "PendingRegistrations".toList
        ["W_USER".toList, "W_PASS".toList, "W_MAIL".toList, "W_KEY".toList]
        [valueOperand user, valueOperand pass, valueOperand mail, .quoted []]] := by
  unfold parse
  rw [lex_insertPending huser hpass hmail]
  -- a value of digits is a number to the lexer, and any other one a quoted text
  rcases valueToken_cases user with ⟨h1, h1'⟩ | ⟨h1, h1'⟩ <;>
    rcases valueToken_cases pass with ⟨h2, h2'⟩ | ⟨h2, h2'⟩ <;>
    rcases valueToken_cases mail with ⟨h3, h3'⟩ | ⟨h3, h3'⟩ <;>
    simp only [h1, h2, h3, h1', h2', h3'] <;> rfl

/-- The text of the insertion of `registerUser` has no null character. -/
theorem nul_not_mem_insertPending {user pass mail : Str} (huser : '\x00' ∉ user)
    (hpass : '\x00' ∉ pass) (hmail : '\x00' ∉ mail) :
    '\x00' ∉ insertText "PendingRegistrations".toList "W_USER, W_PASS, W_MAIL, W_KEY".toList
      [user, pass, mail, []] := by
  refine not_mem_insertText ?_ (by simp [huser, hpass, hmail])
  repeat rw [String.toList_ofList]
  decide

/-- The value that an operand of an insertion has, and what a text column stores for it. -/
theorem exists_value (backend : Backend) (value : Str) :
    ∃ v, resolve backend [] (valueOperand value) = some (.literal v) ∧ v ≠ .null ∧
      Affinity.store backend .text v = .text (storedText backend value) := by
  unfold valueOperand storedText
  split
  · refine ⟨_, rfl, ?_⟩
    by_cases hlt : Nat.ofDigitChars 10 value 0 < 2 ^ 63
    · simp only [numberValue, if_pos hlt]
      exact ⟨Value.noConfusion, rfl⟩
    · simp only [numberValue, if_neg hlt]
      exact ⟨Value.noConfusion, rfl⟩
  · exact ⟨.text value, rfl, by simp, rfl⟩

/-- The row that an insertion without `W_ID` adds to an account table. -/
theorem newRow_account (backend : Backend) {table : Table} (hschema : table.schema = accountSchema)
    {v₁ v₂ v₃ v₄ : Value} (h₁ : v₁ ≠ .null) (h₂ : v₂ ≠ .null) (h₃ : v₃ ≠ .null) (h₄ : v₄ ≠ .null) :
    newRow backend ["W_USER".toList, "W_PASS".toList, "W_MAIL".toList, "W_KEY".toList] table
      [v₁, v₂, v₃, v₄] =
      (backend.newRowid (table.rowids 0)).map fun id =>
        [.integer id, toText v₁, toText v₂, toText v₃, toText v₄] := by
  have hindices : ["W_USER".toList, "W_PASS".toList, "W_MAIL".toList, "W_KEY".toList].mapM
      accountSchema.lookup? = some [1, 2, 3, 4] := rfl
  rw [newRow, hschema, hindices, Option.bind_eq_bind, Option.bind_some]
  show List.mapM _ [(_, 0), (_, 1), (_, 2), (_, 3), (_, 4)] = _
  simp only [List.mapM_cons, List.mapM_nil]
  rw [newValue_rowid backend table rfl rfl, newValue_assigned backend table rfl h₁,
    newValue_assigned backend table rfl h₂, newValue_assigned backend table rfl h₃,
    newValue_assigned backend table rfl h₄]
  cases backend.newRowid (table.rowids 0) <;> rfl

/-- An insertion without `W_ID` into an account table. -/
theorem insertRow_account (backend : Backend) {table : Table}
    (hschema : table.schema = accountSchema)
    {v₁ v₂ v₃ v₄ : Value} (h₁ : v₁ ≠ .null) (h₂ : v₂ ≠ .null) (h₃ : v₃ ≠ .null) (h₄ : v₄ ≠ .null) :
    insertRow backend ["W_USER".toList, "W_PASS".toList, "W_MAIL".toList, "W_KEY".toList] table
      [v₁, v₂, v₃, v₄] =
      (backend.newRowid (table.rowids 0)).bind fun id => table.insert
        [.integer id, toText v₁, toText v₂, toText v₃, toText v₄] := by
  rw [insertRow_eq_newRow backend table rfl, newRow_account backend hschema h₁ h₂ h₃ h₄,
    Option.bind_map]
  rfl

/-- The account that `registerUser` adds for its values. -/
def pendingAccount (backend : Backend) (id : Int) (user pass mail : Str) : Account :=
  ⟨id, storedText backend user, storedText backend pass, storedText backend mail, some []⟩

/-- What the statement of the insertion of `registerUser` does. -/
theorem run_insertPending (backend : Backend) (session : Session) {table : Table}
    (htable : session.database.table? "PendingRegistrations".toList = some table)
    (hschema : table.schema = accountSchema) (user pass mail : Str) :
    Statement.run backend session (.insertValues "PendingRegistrations".toList
      ["W_USER".toList, "W_PASS".toList, "W_MAIL".toList, "W_KEY".toList]
      [valueOperand user, valueOperand pass, valueOperand mail, .quoted []]) =
      ((backend.newRowid (table.rowids 0)).bind fun id =>
        table.insert (pendingAccount backend id user pass mail).toRow).map fun table =>
          ({ session with
            database := session.database.set "PendingRegistrations".toList table }, []) := by
  obtain ⟨v₁, hv₁, hnull₁, hstored₁⟩ := exists_value backend user
  obtain ⟨v₂, hv₂, hnull₂, hstored₂⟩ := exists_value backend pass
  obtain ⟨v₃, hv₃, hnull₃, hstored₃⟩ := exists_value backend mail
  have hterms : [valueOperand user, valueOperand pass, valueOperand mail, .quoted []].mapM
      (resolve backend []) =
      some [.literal v₁, .literal v₂, .literal v₃, .literal (.text [])] := by
    simp only [List.mapM_cons, List.mapM_nil, hv₁, hv₂, hv₃]
    rfl
  have hinsert := insertRow_account backend hschema hnull₁ hnull₂ hnull₃
    (Value.noConfusion : Value.text [] ≠ .null)
  have hrow (id : Int) : [.integer id, toText v₁, toText v₂, toText v₃, toText (.text [])] =
      (pendingAccount backend id user pass mail).toRow := by
    simp only [Affinity.store] at hstored₁ hstored₂ hstored₃
    simp only [hstored₁, hstored₂, hstored₃]
    rfl
  simp only [hrow] at hinsert
  simp only [Statement.run, htable, hterms, Option.bind_eq_bind, Option.bind_some, List.map_cons,
    List.map_nil, Term.eval, hinsert]
  cases hresult : (backend.newRowid (table.rowids 0)).bind fun id =>
      table.insert (pendingAccount backend id user pass mail).toRow with
  | none => rfl
  | some result =>
      obtain ⟨id, _, hinserted⟩ := Option.bind_eq_some_iff.mp hresult
      have hkeys : newKeysHold session.database table result = true :=
        newKeysHold_of_nil session.database hinserted (by rw [hschema]; rfl)
      simp only [hkeys, Bool.or_true, if_true, Option.bind_some, Option.map_some]

/-- Another table `PendingRegistrations` changes the pending accounts only. -/
theorem prepared_setPending {database : Database} (hdb : Prepared database) {table : Table}
    (hschema : table.schema = accountSchema) :
    let after := database.set "PendingRegistrations".toList table
    Prepared after ∧ accounts after "Registered" = accounts database "Registered" ∧
      administrators after = administrators database ∧
      accounts after "PendingRegistrations" = table.rows.filterMap Account.ofRow := by
  intro after
  have htables : HasTables database _ _ _ := ⟨rfl, rfl, rfl⟩
  obtain ⟨hregistered, hpending, hadministrators⟩ := htables.setPending table
  refine ⟨⟨?_, ⟨_, hpending, hschema⟩, ?_⟩, ?_, ?_, ?_⟩
  · rw [hregistered]
    exact hdb.registered
  · rw [hadministrators]
    exact hdb.administrators
  · rw [accounts, hregistered]
    rfl
  · rw [administrators, hadministrators]
    rfl
  · rw [accounts, hpending]

/-- The insertion of `registerUser` adds one account to `PendingRegistrations`, or fails and changes
nothing. -/
theorem insert_pending (engine : Engine) {db : FlexDB} (hdb : Prepared db.database)
    {user pass mail : Str} (huser : IsValue user) (hpass : IsValue pass) (hmail : IsValue mail) :
    let result := db.insert engine "PendingRegistrations".toList
      "W_USER, W_PASS, W_MAIL, W_KEY".toList [user, pass, mail, []]
    (result.1.ok = false ∧ result.2.database = db.database) ∨
      result.1.ok = true ∧ Prepared result.2.database ∧
        accounts result.2.database "Registered" = accounts db.database "Registered" ∧
        administrators result.2.database = administrators db.database ∧
        ∃ id, accounts result.2.database "PendingRegistrations" =
          accounts db.database "PendingRegistrations" ++
            [pendingAccount engine.toBackend id user pass mail] := by
  intro result
  obtain ⟨table, htable, hschema⟩ := hdb.pending
  have htext := nul_not_mem_insertPending huser.not_mem.2.2 hpass.not_mem.2.2 hmail.not_mem.2.2
  obtain ⟨hanswer, hafter⟩ := insert_eq engine db htext
    (parse_insertPending huser.not_mem.1 hpass.not_mem.1 hmail.not_mem.1)
  have hrun := run_insertPending engine.toBackend db.dbHandle htable hschema user pass mail
  -- no row identity is left, or the table refuses the row, and otherwise the row is added
  cases hresult : (engine.newRowid (table.rowids 0)).bind fun id =>
      table.insert (pendingAccount engine.toBackend id user pass mail).toRow with
  | none =>
      rw [hresult, Option.map_none] at hrun
      have hfail := run_singleton_none hrun
      refine .inl ⟨?_, ?_⟩
      · rw [hanswer, hfail]
      · show result.2.dbHandle.database = _
        rw [hafter, hfail]
        rfl
  | some table' =>
      obtain ⟨id, _, hinserted⟩ := Option.bind_eq_some_iff.mp hresult
      obtain ⟨hschema', hrows⟩ := Table.insert_eq_some hinserted
      rw [hresult, Option.map_some] at hrun
      have hdone := run_singleton_some hrun
      have hdatabase : result.2.database =
          db.database.set "PendingRegistrations".toList table' := by
        show result.2.dbHandle.database = _
        rw [hafter, hdone]
        rfl
      obtain ⟨hprepared, hregistered, hadministrators, hpending⟩ :=
        prepared_setPending hdb (hschema'.trans hschema)
      have hbefore : accounts db.database "PendingRegistrations" =
          table.rows.filterMap Account.ofRow := by
        rw [accounts, htable]
      rw [hdatabase]
      refine .inr ⟨by rw [hanswer, hdone], hprepared, hregistered, hadministrators, id, ?_⟩
      rw [hpending, hbefore]
      simp only [hrows, List.filterMap_append, List.filterMap_cons, List.filterMap_nil,
        Account.ofRow_toRow]

end Wheespa
