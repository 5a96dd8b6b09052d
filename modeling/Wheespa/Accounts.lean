import Mathlib.Data.List.TakeWhile
import Wheespa.RequestFormat

/-!
# The account tables

The tables that `prepareDatabase` creates, as rows with named fields, and what the queries of
`handle_request.cc` compute on them. `authenticate_iff`, `checkExists_iff` and `administrator_iff`
give the exact meaning of the three queries, for every username that a request can carry.
-/

namespace Wheespa

open Sql

/-! ## The schema -/

/-- The columns of `Registered` and `PendingRegistrations`. -/
def accountSchema : Schema where
  columns := [
    ⟨"W_ID".toList, .integer, true, true, true⟩,
    ⟨"W_USER".toList, .text, true, true, false⟩,
    ⟨"W_PASS".toList, .text, true, false, false⟩,
    ⟨"W_MAIL".toList, .text, true, false, false⟩,
    ⟨"W_KEY".toList, .text, false, false, false⟩]
  foreignKeys := []

/-- The columns of `Administrators`. -/
def administratorSchema : Schema where
  columns := [
    ⟨"ID".toList, .integer, true, true, true⟩,
    ⟨"W_USER".toList, .text, true, true, false⟩]
  foreignKeys := [⟨"W_USER".toList, "Registered".toList, "W_USER".toList⟩]

/-- A row of `Registered` or `PendingRegistrations`. -/
structure Account where
  id : Int
  user : Str
  pass : Str
  mail : Str
  key : Option Str
  deriving DecidableEq, Repr

namespace Account

/-- The stored row. -/
def toRow (account : Account) : Row :=
  [.integer account.id, .text account.user, .text account.pass, .text account.mail,
    (account.key.map Value.text).getD .null]

/-- The account that a row stores. -/
def ofRow : Row → Option Account
  | [.integer id, .text user, .text pass, .text mail, .text key] =>
      some ⟨id, user, pass, mail, some key⟩
  | [.integer id, .text user, .text pass, .text mail, .null] => some ⟨id, user, pass, mail, none⟩
  | _ => none

@[simp] theorem ofRow_toRow (account : Account) : ofRow account.toRow = some account := by
  obtain ⟨id, user, pass, mail, _ | key⟩ := account <;> rfl

/-- The stored row meets the schema. -/
theorem fits_toRow (account : Account) : List.Forall₂
    (fun column value => column.fits value = true) accountSchema.columns account.toRow := by
  obtain ⟨id, user, pass, mail, _ | key⟩ := account <;>
    simp [accountSchema, toRow, Column.fits]

/-- Every row that meets the schema stores an account. -/
theorem exists_toRow {row : Row} (h : List.Forall₂
    (fun column value => column.fits value = true) accountSchema.columns row) :
    ∃ account : Account, account.toRow = row := by
  simp only [accountSchema, List.forall₂_cons_left_iff, List.forall₂_nil_left_iff] at h
  obtain ⟨id, _, hid, ⟨user, _, huser, ⟨pass, _, hpass, ⟨mail, _, hmail, ⟨key, _, hkey, rfl, rfl⟩,
    rfl⟩, rfl⟩, rfl⟩, rfl⟩ := h
  cases id <;> simp [Column.fits] at hid
  cases user <;> simp [Column.fits] at huser
  cases pass <;> simp [Column.fits] at hpass
  cases mail <;> simp [Column.fits] at hmail
  cases key with
  | null => exact ⟨⟨_, _, _, _, none⟩, rfl⟩
  | integer => simp [Column.fits] at hkey
  | text key => exact ⟨⟨_, _, _, _, some key⟩, rfl⟩

end Account

/-- The rows of an account table. -/
def accounts (database : Database) (table : String) : List Account :=
  match database.table? table.toList with
  | some table => table.rows.filterMap Account.ofRow
  | none => []

/-- The names of an account table. -/
def users (database : Database) (table : String) : List Str :=
  (accounts database table).map Account.user

/-- The name that a row of `Administrators` stores. -/
def administrator : Row → Option Str
  | [.integer _, .text user] => some user
  | _ => none

/-- Every row that meets the schema stores an administrator. -/
theorem exists_administrator {row : Row} (h : List.Forall₂
    (fun column value => column.fits value = true) administratorSchema.columns row) :
    ∃ id name, row = [.integer id, .text name] := by
  simp only [administratorSchema, List.forall₂_cons_left_iff, List.forall₂_nil_left_iff] at h
  obtain ⟨id, _, hid, ⟨name, _, hname, rfl, rfl⟩, rfl⟩ := h
  cases id <;> simp [Column.fits] at hid
  cases name <;> simp [Column.fits] at hname
  exact ⟨_, _, rfl⟩

/-- The names of `Administrators`. -/
def administrators (database : Database) : List Str :=
  match database.table? "Administrators".toList with
  | some table => table.rows.filterMap administrator
  | none => []

/-- The database has the tables that `prepareDatabase` creates. -/
structure Prepared (database : Database) : Prop where
  registered : ∃ table, database.table? "Registered".toList = some table ∧
    table.schema = accountSchema
  pending : ∃ table, database.table? "PendingRegistrations".toList = some table ∧
    table.schema = accountSchema
  administrators : ∃ table, database.table? "Administrators".toList = some table ∧
    table.schema = administratorSchema

/-- The tables of the database are known. -/
structure HasTables (database : Database) (registered pending administrators : Option Table) :
    Prop where
  registered : database.table? "Registered".toList = registered
  pending : database.table? "PendingRegistrations".toList = pending
  administrators : database.table? "Administrators".toList = administrators

namespace HasTables

variable {database : Database} {registered pending administrators : Option Table}

/-- Another table `Registered`. -/
theorem setRegistered (h : HasTables database registered pending administrators) (table : Table) :
    HasTables (database.set "Registered".toList table) (some table) pending administrators :=
  ⟨database.table?_set_self _ _, (Database.table?_set_of_ne (by decide) _ _).trans h.pending,
    (Database.table?_set_of_ne (by decide) _ _).trans h.administrators⟩

/-- Another table `PendingRegistrations`. -/
theorem setPending (h : HasTables database registered pending administrators) (table : Table) :
    HasTables (database.set "PendingRegistrations".toList table) registered (some table)
      administrators :=
  ⟨(Database.table?_set_of_ne (by decide) _ _).trans h.registered, database.table?_set_self _ _,
    (Database.table?_set_of_ne (by decide) _ _).trans h.administrators⟩

/-- Another table `Administrators`. -/
theorem setAdministrators (h : HasTables database registered pending administrators)
    (table : Table) :
    HasTables (database.set "Administrators".toList table) registered pending (some table) :=
  ⟨(Database.table?_set_of_ne (by decide) _ _).trans h.registered,
    (Database.table?_set_of_ne (by decide) _ _).trans h.pending, database.table?_set_self _ _⟩

end HasTables

namespace Prepared

variable {database : Database}

theorem setRegistered (h : Prepared database) (table : Table)
    (hschema : table.schema = accountSchema) :
    Prepared (database.set "Registered".toList table) := by
  have htables : HasTables database _ _ _ := ⟨rfl, rfl, rfl⟩
  obtain ⟨hregistered, hpending, hadministrators⟩ := htables.setRegistered table
  exact ⟨⟨table, hregistered, hschema⟩, hpending ▸ h.pending, hadministrators ▸ h.administrators⟩

theorem setPending (h : Prepared database) (table : Table)
    (hschema : table.schema = accountSchema) :
    Prepared (database.set "PendingRegistrations".toList table) := by
  have htables : HasTables database _ _ _ := ⟨rfl, rfl, rfl⟩
  obtain ⟨hregistered, hpending, hadministrators⟩ := htables.setPending table
  exact ⟨hregistered ▸ h.registered, ⟨table, hpending, hschema⟩,
    hadministrators ▸ h.administrators⟩

theorem setAdministrators (h : Prepared database) (table : Table)
    (hschema : table.schema = administratorSchema) :
    Prepared (database.set "Administrators".toList table) := by
  have htables : HasTables database _ _ _ := ⟨rfl, rfl, rfl⟩
  obtain ⟨hregistered, hpending, hadministrators⟩ := htables.setAdministrators table
  exact ⟨hregistered ▸ h.registered, hpending ▸ h.pending, ⟨table, hadministrators, hschema⟩⟩

end Prepared

/-- The rows of a table with the account schema are its accounts. -/
theorem rows_eq_accounts {database : Database} {name : String} {table : Table}
    (htable : database.table? name.toList = some table) (hschema : table.schema = accountSchema) :
    table.rows = (accounts database name).map Account.toRow := by
  have hrows : ∀ row ∈ table.rows, ∃ account : Account, account.toRow = row := fun row hrow =>
    Account.exists_toRow (hschema ▸ table.valid.fits row hrow)
  simp only [accounts, htable]
  generalize table.rows = rows at hrows
  induction rows with
  | nil => rfl
  | cons row rows ih =>
      rw [List.forall_mem_cons] at hrows
      obtain ⟨⟨account, rfl⟩, hrows⟩ := hrows
      simpa using ih hrows

/-- Accounts meet the schema exactly where they differ in their identities and in their names. -/
theorem valid_accounts_iff (accounts : List Account) :
    accountSchema.Valid (accounts.map Account.toRow) ↔
      (accounts.map Account.id).Nodup ∧ (accounts.map Account.user).Nodup := by
  have hcolumn {f : Account → Value} {index : Nat}
      (hf : ∀ account : Account, account.toRow[index]? = some (f account))
      (hnull : ∀ account, f account ≠ .null) :
      nonNull ((accounts.map Account.toRow).filterMap fun row => row[index]?) =
        accounts.map f := by
    have hvalues : (accounts.map Account.toRow).filterMap (fun row => row[index]?) =
        accounts.map f := by
      simp only [List.filterMap_map, Function.comp_def, hf]
      exact congrFun List.filterMap_eq_map' accounts
    rw [hvalues, nonNull, List.filter_eq_self]
    simpa using fun account _ => hnull account
  have hids := hcolumn (fun account => rfl : ∀ account : Account,
    account.toRow[0]? = some (.integer account.id)) fun _ => Value.noConfusion
  have husers := hcolumn (fun account => rfl : ∀ account : Account,
    account.toRow[1]? = some (.text account.user)) fun _ => Value.noConfusion
  have hid : (accounts.map fun account => Value.integer account.id).Nodup ↔
      (accounts.map Account.id).Nodup := by
    rw [← List.nodup_map_iff (f := Value.integer) fun _ _ => Value.integer.inj, List.map_map]
    rfl
  have huser : (accounts.map fun account => Value.text account.user).Nodup ↔
      (accounts.map Account.user).Nodup := by
    rw [← List.nodup_map_iff (f := Value.text) fun _ _ => Value.text.inj, List.map_map]
    rfl
  constructor
  · intro h
    have h₀ := h.unique (⟨"W_ID".toList, .integer, true, true, true⟩, 0) (.head _) rfl
    have h₁ := h.unique (⟨"W_USER".toList, .text, true, true, false⟩, 1) (.tail _ (.head _)) rfl
    exact ⟨hid.mp (hids ▸ h₀), huser.mp (husers ▸ h₁)⟩
  · rintro ⟨hidNodup, huserNodup⟩
    refine ⟨fun row hrow => ?_, fun column hmem hunique => ?_⟩
    · obtain ⟨account, _, rfl⟩ := List.mem_map.mp hrow
      exact account.fits_toRow
    · simp only [accountSchema, List.zipIdx_cons, List.zipIdx_nil, List.mem_cons,
        List.not_mem_nil, or_false] at hmem
      rcases hmem with rfl | rfl | rfl | rfl | rfl
      · exact hids ▸ hid.mpr hidNodup
      · exact husers ▸ huser.mpr huserNodup
      · exact absurd hunique Bool.false_ne_true
      · exact absurd hunique Bool.false_ne_true
      · exact absurd hunique Bool.false_ne_true

/-! ## Queries -/

/-- A text without null characters is passed on whole. -/
theorem cStr_of_not_mem {s : Str} (h : '\x00' ∉ s) : cStr s = s := by
  rw [cStr, List.takeWhile_eq_self_iff]
  intro c hc
  simpa using ne_of_mem_of_not_mem hc h

/-- A literal has the characters of its list. -/
theorem not_mem_literal {c : Char} {chars : Str} (h : c ∉ chars) :
    c ∉ (String.ofList chars).toList := by
  rwa [String.toList_ofList]

/-- A query whose text is a `select` of the fragment changes nothing, and its callback is called
just when it has a result row. -/
theorem queryExists_select (engine : Engine) (self : ParseRequest) {text : Str} {query : Query}
    (htext : '\x00' ∉ text) (hparse : parse text = some [.select query]) :
    self.queryExists engine text =
      (!((query.run engine.toBackend self.wDb.database).getD []).isEmpty,
        { self with wDb := { self.wDb with executed := self.wDb.executed ++ [text] } }) := by
  simp only [ParseRequest.queryExists, FlexDB.execQuery, cStr_of_not_mem htext,
    engine.exec_eq _ _ _ hparse, run_select]
  rfl

/-- The comparison of `W_USER` with a username in double quotes, on an account: where the username
denotes a column, the value of that column is compared with. -/
def Account.isNamed (backend : Backend) (account : Account) (user : Str) : Bool :=
  match accountSchema.lookup? user with
  | none => account.user == user
  | some 0 => backend.numericOf account.user == some account.id
  | some 1 => true
  | some 2 => account.user == account.pass
  | some 3 => account.user == account.mail
  | some _ => account.key == some account.user

/-- A username that is the name of a column of the account tables, in any case. -/
def IsColumnName (user : Str) : Prop :=
  (accountSchema.index? user).isSome

instance (user : Str) : Decidable (IsColumnName user) :=
  inferInstanceAs (Decidable ((accountSchema.index? user).isSome = true))

/-- A username that denotes a column in a query of one account table: it is the name of a column, or
one of the names of the row identity. -/
def DenotesColumn (user : Str) : Prop :=
  (accountSchema.lookup? user).isSome

instance (user : Str) : Decidable (DenotesColumn user) :=
  inferInstanceAs (Decidable ((accountSchema.lookup? user).isSome = true))

/-- The columns of the account tables by name. -/
theorem lookup?_accountSchema {user : Str} {index : Nat}
    (h : accountSchema.lookup? user = some index) :
    index = 0 ∨ index = 1 ∨ index = 2 ∨ index = 3 ∨ index = 4 := by
  rcases Option.or_eq_some_iff.mp h with hindex | ⟨-, hrowid⟩
  · have hlt : index < 5 := (List.findIdx?_eq_some_iff_findIdx_eq.mp hindex).1
    omega
  · obtain ⟨-, hrowid⟩ := Option.ite_none_right_eq_some.mp hrowid
    have hlt : index < 5 := (List.findIdx?_eq_some_iff_findIdx_eq.mp hrowid).1
    omega

/-- The comparison of `W_USER` with a username is resolved, and its truth on an account. -/
theorem exists_isNamed (backend : Backend) (label : Name) (user : Str) :
    ∃ term, resolve backend [(label, accountSchema)] (.quoted user) = some term ∧
      ∀ account : Account,
        Equation.holds backend [account.toRow] ⟨.column 0 1 .text, term⟩ =
          account.isNamed backend user := by
  cases hindex : accountSchema.lookup? user with
  | none =>
      refine ⟨_, resolve_quoted_string backend hindex, fun account => ?_⟩
      simp [Equation.holds, Term.eval, Term.affinity?, Account.toRow, Account.isNamed, hindex,
        toText]
  | some index =>
      obtain rfl | rfl | rfl | rfl | rfl := lookup?_accountSchema hindex
      · refine ⟨_, resolve_quoted_column backend hindex rfl, fun account => ?_⟩
        cases hnumeric : backend.numericOf account.user with
        | none =>
            simp [Equation.holds, Term.eval, Term.affinity?, Account.toRow, Account.isNamed, hindex,
              toNumeric, hnumeric]
        | some n =>
            simp [Equation.holds, Term.eval, Term.affinity?, Account.toRow, Account.isNamed, hindex,
              toNumeric, hnumeric]
      · exact ⟨_, resolve_quoted_column backend hindex rfl, fun account => by
          simp [Equation.holds, Term.eval, Term.affinity?, Account.toRow, Account.isNamed, hindex]⟩
      · exact ⟨_, resolve_quoted_column backend hindex rfl, fun account => by
          simp [Equation.holds, Term.eval, Term.affinity?, Account.toRow, Account.isNamed, hindex]⟩
      · exact ⟨_, resolve_quoted_column backend hindex rfl, fun account => by
          simp [Equation.holds, Term.eval, Term.affinity?, Account.toRow, Account.isNamed, hindex]⟩
      · refine ⟨_, resolve_quoted_column backend hindex rfl, fun account => ?_⟩
        cases hkey : account.key with
        | none =>
            simp [Equation.holds, Term.eval, Term.affinity?, Account.toRow, Account.isNamed, hindex,
              hkey]
        | some key =>
            simp [Equation.holds, Term.eval, Term.affinity?, Account.toRow, Account.isNamed, hindex,
              hkey, Bool.beq_comm]

/-- The tokens of the query of `authenticate`, for values without double quotes. -/
theorem lex_authenticateQuery {user pass : Str} (huser : '"' ∉ user) (hpass : '"' ∉ pass) :
    lex (ParseRequest.authenticateQuery user pass) =
      [.word "Select".toList, .symbol '*', .word "from".toList, .word "Registered".toList,
        .word "where".toList, .word "W_USER".toList, .symbol '=', .quoted .double user,
        .word "and".toList, .word "W_PASS".toList, .symbol '=', .quoted .double pass] := by
  have hhead : Scan.readAll .gap "Select * from Registered where W_USER = \"".toList =
      (.quote .double [], [.word "Select".toList, .symbol '*', .word "from".toList,
        .word "Registered".toList, .word "where".toList, .word "W_USER".toList, .symbol '=']) := by
    repeat rw [String.toList_ofList]
    rfl
  have hmiddle : Scan.readAll .gap " and W_PASS = \"".toList =
      (.quote .double [], [.word "and".toList, .word "W_PASS".toList, .symbol '=']) := by
    repeat rw [String.toList_ofList]
    rfl
  have hpasspart := @lexFrom_head_quoted .double _ pass [] _ hmiddle hpass (by simp)
  have huserpart := @lexFrom_head_quoted .double _ user
    (" and W_PASS = \"".toList ++ (pass ++ ['"'])) _ hhead huser (by simp [Mark.char])
  unfold lex ParseRequest.authenticateQuery
  simp only [List.append_assoc]
  exact huserpart.trans (congrArg (fun rest => _ ++ Token.quoted .double user :: rest) hpasspart)

/-- The tokens of the query of `adminLogin`, for a value without single quotes. -/
theorem lex_administratorQuery {user : Str} (huser : '\'' ∉ user) :
    lex (ParseRequest.administratorQuery user) =
      [.word "Select".toList, .symbol '*', .word "from".toList, .word "Administrators".toList,
        .word "where".toList, .word "W_USER".toList, .symbol '=', .quoted .single user] := by
  have hhead : Scan.readAll .gap "Select * from Administrators where W_USER = '".toList =
      (.quote .single [], [.word "Select".toList, .symbol '*', .word "from".toList,
        .word "Administrators".toList, .word "where".toList, .word "W_USER".toList,
        .symbol '=']) := by
    repeat rw [String.toList_ofList]
    rfl
  unfold lex ParseRequest.administratorQuery
  simp only [List.append_assoc]
  exact @lexFrom_head_quoted .single _ user [] _ hhead huser (by simp)

/-- The tokens of the query of `checkExists`, for a value without double quotes. -/
theorem lex_checkExistsQuery {user : Str} (huser : '"' ∉ user) :
    lex (ParseRequest.checkExistsQuery user) =
      [.word "Select".toList, .word "R".toList, .symbol '.', .word "W_USER".toList, .symbol ',',
        .word "P".toList, .symbol '.', .word "W_USER".toList, .word "from".toList,
        .word "Registered".toList, .word "R".toList, .symbol ',',
        .word "PendingRegistrations".toList, .word "P".toList, .word "where".toList,
        .word "R".toList, .symbol '.', .word "W_USER".toList, .symbol '=', .quoted .double user,
        .word "OR".toList, .word "P".toList, .symbol '.', .word "W_USER".toList, .symbol '=',
        .quoted .double user] := by
  have hhead : Scan.readAll .gap
      ("Select R.W_USER, P.W_USER from Registered R, PendingRegistrations P ".toList ++
        "where R.W_USER = \"".toList) =
      (.quote .double [], [.word "Select".toList, .word "R".toList, .symbol '.',
        .word "W_USER".toList, .symbol ',', .word "P".toList, .symbol '.', .word "W_USER".toList,
        .word "from".toList, .word "Registered".toList, .word "R".toList, .symbol ',',
        .word "PendingRegistrations".toList, .word "P".toList, .word "where".toList,
        .word "R".toList, .symbol '.', .word "W_USER".toList, .symbol '=']) := by
    repeat rw [String.toList_ofList]
    rfl
  have hmiddle : Scan.readAll .gap " OR P.W_USER = \"".toList =
      (.quote .double [], [.word "OR".toList, .word "P".toList, .symbol '.',
        .word "W_USER".toList, .symbol '=']) := by
    repeat rw [String.toList_ofList]
    rfl
  have hlast := @lexFrom_head_quoted .double _ user [] _ hmiddle huser (by simp)
  have hfirst := @lexFrom_head_quoted .double _ user
    (" OR P.W_USER = \"".toList ++ (user ++ ['"'])) _ hhead huser (by simp [Mark.char])
  unfold lex ParseRequest.checkExistsQuery
  rw [List.append_assoc] at hfirst
  simp only [List.append_assoc]
  exact hfirst.trans (congrArg (fun rest => _ ++ Token.quoted .double user :: rest) hlast)

/-- The query of `authenticate` has no null character that its values do not have. -/
theorem nul_not_mem_authenticateQuery {user pass : Str} (huser : '\x00' ∉ user)
    (hpass : '\x00' ∉ pass) : '\x00' ∉ ParseRequest.authenticateQuery user pass := by
  unfold ParseRequest.authenticateQuery
  simp only [List.mem_append, not_or]
  exact ⟨⟨⟨⟨not_mem_literal (by decide), huser⟩, not_mem_literal (by decide)⟩, hpass⟩,
    not_mem_literal (by decide)⟩

/-- The query of `adminLogin` has no null character that its value does not have. -/
theorem nul_not_mem_administratorQuery {user : Str} (huser : '\x00' ∉ user) :
    '\x00' ∉ ParseRequest.administratorQuery user := by
  unfold ParseRequest.administratorQuery
  simp only [List.mem_append, not_or]
  exact ⟨⟨not_mem_literal (by decide), huser⟩, not_mem_literal (by decide)⟩

/-- The query of `checkExists` has no null character that its value does not have. -/
theorem nul_not_mem_checkExistsQuery {user : Str} (huser : '\x00' ∉ user) :
    '\x00' ∉ ParseRequest.checkExistsQuery user := by
  unfold ParseRequest.checkExistsQuery
  simp only [List.mem_append, not_or]
  exact ⟨⟨⟨⟨⟨not_mem_literal (by decide), not_mem_literal (by decide)⟩, huser⟩,
    not_mem_literal (by decide)⟩, huser⟩, not_mem_literal (by decide)⟩

/-- The statement of `authenticate`. -/
theorem parse_authenticateQuery {user pass : Str} (huser : '"' ∉ user) (hpass : '"' ∉ pass) :
    parse (ParseRequest.authenticateQuery user pass) = some [.select
      ⟨none, [⟨"Registered".toList, "Registered".toList⟩],
        [[⟨.column none "W_USER".toList, .quoted user⟩,
          ⟨.column none "W_PASS".toList, .quoted pass⟩]]⟩] := by
  unfold parse
  rw [lex_authenticateQuery huser hpass]
  rfl

/-- The statement of the query of `adminLogin`. -/
theorem parse_administratorQuery {user : Str} (huser : '\'' ∉ user) :
    parse (ParseRequest.administratorQuery user) = some [.select
      ⟨none, [⟨"Administrators".toList, "Administrators".toList⟩],
        [[⟨.column none "W_USER".toList, .string user⟩]]⟩] := by
  unfold parse
  rw [lex_administratorQuery huser]
  rfl

/-- The statement of `checkExists`. -/
theorem parse_checkExistsQuery {user : Str} (huser : '"' ∉ user) :
    parse (ParseRequest.checkExistsQuery user) = some [.select
      ⟨some [.column (some "R".toList) "W_USER".toList, .column (some "P".toList) "W_USER".toList],
        [⟨"Registered".toList, "R".toList⟩, ⟨"PendingRegistrations".toList, "P".toList⟩],
        [[⟨.column (some "R".toList) "W_USER".toList, .quoted user⟩],
          [⟨.column (some "P".toList) "W_USER".toList, .quoted user⟩]]⟩] := by
  unfold parse
  rw [lex_checkExistsQuery huser]
  rfl

/-- A hexadecimal digit is no underscore and no letter O, in either case. -/
theorem toLower_ne_of_isHexDigit {c : Char} (h : isHexDigit c = true) :
    c.toLower ≠ '_' ∧ c.toLower ≠ 'o' := by
  simp only [isHexDigit, Bool.or_eq_true, List.contains_iff_mem] at h
  rcases h with hdigit | hletter
  · have hupper : ¬ (c.val ≥ 'A'.val ∧ c.val ≤ 'Z'.val) := by
      simp only [Char.isDigit, Bool.and_eq_true, decide_eq_true_eq] at hdigit
      exact fun h => absurd (UInt32.le_trans h.1 hdigit.2) (by decide)
    have hlower : c.toLower = c := dif_neg hupper
    rw [hlower]
    constructor <;> rintro rfl <;> exact absurd hdigit (by decide)
  · have hall : "ABCDEF".toList.all fun c => c.toLower ≠ '_' ∧ c.toLower ≠ 'o' := by decide
    exact of_decide_eq_true (List.all_eq_true.mp hall c hletter)

/-- A hexadecimal text denotes no column: the names of columns have an underscore, and those of the
row identity an O. -/
theorem lookup?_of_hex {s : Str} (h : ∀ c ∈ s, isHexDigit c = true) :
    accountSchema.lookup? s = none := by
  have hnotMem : '_' ∉ fold s ∧ 'o' ∉ fold s := by
    simp only [fold, List.mem_map, not_exists, not_and]
    exact ⟨fun c hc => (toLower_ne_of_isHexDigit (h c hc)).1,
      fun c hc => (toLower_ne_of_isHexDigit (h c hc)).2⟩
  have hcolumns : ∀ column ∈ accountSchema.columns, '_' ∈ fold column.name := by decide
  have hindex : accountSchema.index? s = none := by
    rw [Schema.index?, List.findIdx?_eq_none_iff]
    intro column hcolumn
    rw [beq_eq_false_iff_ne]
    intro heq
    exact hnotMem.1 (heq ▸ hcolumns column hcolumn)
  have hnames : ∀ name ∈ ["rowid".toList, "oid".toList, "_rowid_".toList], 'o' ∈ name := by
    decide
  have hrowid : isRowidName s = false :=
    decide_eq_false fun hmem => hnotMem.2 (hnames _ hmem)
  rw [Schema.lookup?, hindex, hrowid]
  rfl

/-- What a query finds in the tables it names. -/
theorem queryExists_iff (engine : Engine) (self : ParseRequest) {text : Str} {query : Query}
    {tables : List Table} {condition : List (List Equation)} (htext : '\x00' ∉ text)
    (hparse : parse text = some [.select query])
    (htables : query.tables.mapM (fun ref => self.wDb.database.table? ref.table) = some tables)
    (hcondition : resolveCondition engine.toBackend
      ((query.tables.map TableRef.label).zip (tables.map Table.schema)) query.condition =
        some condition)
    (hcolumns : ∀ columns ∈ query.columns, (columns.mapM (resolve engine.toBackend
      ((query.tables.map TableRef.label).zip (tables.map Table.schema)))).isSome) :
    (self.queryExists engine text).1 = true ↔
      ∃ chosen, List.Forall₂ (· ∈ ·) chosen (tables.map Table.rows) ∧
        holds engine.toBackend condition chosen = true := by
  obtain ⟨rows, hrows, hiff⟩ := Query.exists_rows htables hcondition hcolumns
  rw [queryExists_select engine self htext hparse, ← hiff, hrows]
  simp

/-- A query whose condition does not resolve finds nothing. -/
theorem queryExists_of_unresolved (engine : Engine) (self : ParseRequest) {text : Str}
    {query : Query} {tables : List Table} (htext : '\x00' ∉ text)
    (hparse : parse text = some [.select query])
    (htables : query.tables.mapM (fun ref => self.wDb.database.table? ref.table) = some tables)
    (hcondition : resolveCondition engine.toBackend
      ((query.tables.map TableRef.label).zip (tables.map Table.schema)) query.condition = none) :
    (self.queryExists engine text).1 = false := by
  rw [queryExists_select engine self htext hparse, Query.run_eq_none htables hcondition]
  rfl

/-- A choice of one row of a table with the account schema is a choice of an account. -/
theorem exists_chosen_iff {database : Database} {name : String} {table : Table}
    (htable : database.table? name.toList = some table) (hschema : table.schema = accountSchema)
    (p : List Row → Prop) :
    (∃ chosen, List.Forall₂ (· ∈ ·) chosen [table.rows] ∧ p chosen) ↔
      ∃ account ∈ accounts database name, p [account.toRow] := by
  rw [exists_choice_one, rows_eq_accounts htable hschema]
  simp

/-- `authenticate` returns true exactly when some account of `Registered` has the digest, and a name
that the comparison with the username accepts. -/
theorem authenticate_iff (engine : Engine) {self : ParseRequest} (hdb : Prepared self.wDb.database)
    {user pass : Str} (huser : IsValue user) (hpass : ∀ c ∈ pass, isHexDigit c = true) :
    (self.authenticate engine user pass).1 = true ↔
      ∃ account ∈ accounts self.wDb.database "Registered",
        account.isNamed engine.toBackend user = true ∧ account.pass = pass := by
  obtain ⟨table, htable, hschema⟩ := hdb.registered
  obtain ⟨term, hterm, hnamed⟩ := exists_isNamed engine.toBackend "Registered".toList user
  have hdigest := @resolve_quoted_string engine.toBackend "Registered".toList _ _
    (lookup?_of_hex hpass)
  have hnul := nul_not_mem_authenticateQuery huser.not_mem.2.2 (isValue_of_hex hpass).not_mem.2.2
  have htables : [(⟨"Registered".toList, "Registered".toList⟩ : TableRef)].mapM
      (fun ref => self.wDb.database.table? ref.table) = some [table] := by
    simp only [List.mapM_cons, List.mapM_nil, htable]
    rfl
  have hcondition : resolveCondition engine.toBackend [("Registered".toList, table.schema)]
      [[⟨.column none "W_USER".toList, .quoted user⟩,
        ⟨.column none "W_PASS".toList, .quoted pass⟩]] =
      some [[⟨.column 0 1 .text, term⟩, ⟨.column 0 2 .text, .literal (.text pass)⟩]] := by
    have huserColumn : resolve engine.toBackend [("Registered".toList, accountSchema)]
        (.column none "W_USER".toList) = some (.column 0 1 .text) := rfl
    have hpassColumn : resolve engine.toBackend [("Registered".toList, accountSchema)]
        (.column none "W_PASS".toList) = some (.column 0 2 .text) := rfl
    simp only [resolveCondition, hschema, List.mapM_cons, List.mapM_nil, hterm, hdigest,
      huserColumn, hpassColumn]
    rfl
  rw [ParseRequest.authenticate, queryExists_iff engine self hnul
    (parse_authenticateQuery huser.not_mem.1 (isValue_of_hex hpass).not_mem.1) htables hcondition
    (by simp), List.map_singleton,
    exists_chosen_iff htable hschema fun chosen => holds engine.toBackend _ chosen = true]
  have hdigest (account : Account) : Equation.holds engine.toBackend [account.toRow]
      ⟨.column 0 2 .text, .literal (.text pass)⟩ = (account.pass == pass) := by
    simp [Equation.holds, Term.eval, Term.affinity?, Account.toRow, toText]
  simp [holds, hnamed, hdigest]

/-- The query of `adminLogin` finds a row exactly for the names of `Administrators`. -/
theorem administrator_iff (engine : Engine) {self : ParseRequest} (hdb : Prepared self.wDb.database)
    {user : Str} (huser : IsValue user) :
    (self.queryExists engine (ParseRequest.administratorQuery user)).1 = true ↔
      user ∈ administrators self.wDb.database := by
  obtain ⟨table, htable, hschema⟩ := hdb.administrators
  have hnul := nul_not_mem_administratorQuery huser.not_mem.2.2
  have htables : [(⟨"Administrators".toList, "Administrators".toList⟩ : TableRef)].mapM
      (fun ref => self.wDb.database.table? ref.table) = some [table] := by
    simp only [List.mapM_cons, List.mapM_nil, htable]
    rfl
  have hcondition : resolveCondition engine.toBackend [("Administrators".toList, table.schema)]
      [[⟨.column none "W_USER".toList, .string user⟩]] =
      some [[⟨.column 0 1 .text, .literal (.text user)⟩]] := by
    rw [hschema]
    rfl
  rw [queryExists_iff engine self hnul (parse_administratorQuery huser.not_mem.2.1) htables
    hcondition (by simp)]
  rw [List.map_singleton, exists_choice_one, administrators, htable, List.mem_filterMap]
  refine exists_congr fun row => and_congr_right fun hmem => ?_
  obtain ⟨id, name, rfl⟩ := exists_administrator (hschema ▸ table.valid.fits row hmem)
  simp [holds, Equation.holds, Term.eval, Term.affinity?, toText, administrator]

/-- The condition of the query of `checkExists`: a username that names a column is ambiguous between
the two tables, and any other one is a string. -/
theorem resolveCondition_checkExists (backend : Backend) (user : Str) :
    resolveCondition backend [("R".toList, accountSchema), ("P".toList, accountSchema)]
        [[⟨.column (some "R".toList) "W_USER".toList, .quoted user⟩],
          [⟨.column (some "P".toList) "W_USER".toList, .quoted user⟩]] =
      if IsColumnName user then none
      else some [[⟨.column 0 1 .text, .literal (.text user)⟩],
        [⟨.column 1 1 .text, .literal (.text user)⟩]] := by
  have hregistered : resolve backend [("R".toList, accountSchema), ("P".toList, accountSchema)]
      (.column (some "R".toList) "W_USER".toList) = some (.column 0 1 .text) := rfl
  have hpending : resolve backend [("R".toList, accountSchema), ("P".toList, accountSchema)]
      (.column (some "P".toList) "W_USER".toList) = some (.column 1 1 .text) := rfl
  cases hindex : accountSchema.index? user with
  | none =>
      have hstring := @resolve_quoted_string_two backend "R".toList "P".toList _ _ hindex
      have hcolumn : ¬ IsColumnName user := by simp [IsColumnName, hindex]
      rw [if_neg hcolumn]
      simp only [resolveCondition, List.mapM_cons, List.mapM_nil, hstring, hregistered, hpending]
      rfl
  | some index =>
      obtain ⟨column, hcolumn⟩ : ∃ column, accountSchema.columns[index]? = some column :=
        ⟨_, List.getElem?_eq_getElem (List.findIdx?_eq_some_iff_findIdx_eq.mp hindex).1⟩
      have hambiguous := @resolve_quoted_ambiguous backend "R".toList "P".toList _ _ _ _ hindex
        hcolumn
      have hcolumn : IsColumnName user := by simp [IsColumnName, hindex]
      rw [if_pos hcolumn]
      simp only [resolveCondition, List.mapM_cons, hambiguous, hregistered]
      rfl

/-- `checkExists` returns true exactly when the username is no name of a column and some pair of an
account of `Registered` and an account of `PendingRegistrations` has it. -/
theorem checkExists_iff (engine : Engine) {self : ParseRequest} (hdb : Prepared self.wDb.database)
    {user : Str} (huser : IsValue user) :
    (self.checkExists engine user).1 = true ↔
      ¬ IsColumnName user ∧ ∃ registered ∈ accounts self.wDb.database "Registered",
        ∃ pending ∈ accounts self.wDb.database "PendingRegistrations",
          registered.user = user ∨ pending.user = user := by
  obtain ⟨table, htable, hschema⟩ := hdb.registered
  obtain ⟨table', htable', hschema'⟩ := hdb.pending
  have hnul := nul_not_mem_checkExistsQuery huser.not_mem.2.2
  have htables : [(⟨"Registered".toList, "R".toList⟩ : TableRef),
      ⟨"PendingRegistrations".toList, "P".toList⟩].mapM
        (fun ref => self.wDb.database.table? ref.table) = some [table, table'] := by
    simp only [List.mapM_cons, List.mapM_nil, htable, htable']
    rfl
  have hscope : [("R".toList, table.schema), ("P".toList, table'.schema)] =
      [("R".toList, accountSchema), ("P".toList, accountSchema)] := by
    rw [hschema, hschema']
  have hcondition := resolveCondition_checkExists engine.toBackend user
  rw [← hscope] at hcondition
  by_cases hcolumn : IsColumnName user
  · rw [if_pos hcolumn] at hcondition
    rw [ParseRequest.checkExists, queryExists_of_unresolved engine self hnul
      (parse_checkExistsQuery huser.not_mem.1) htables hcondition]
    simp [hcolumn]
  · rw [if_neg hcolumn] at hcondition
    have hcolumns : ([.column (some "R".toList) "W_USER".toList,
        .column (some "P".toList) "W_USER".toList].mapM (resolve engine.toBackend
          [("R".toList, table.schema), ("P".toList, table'.schema)])).isSome := by
      rw [hscope]
      rfl
    -- the join needs a row of both tables, also where the condition is about one of them
    rw [ParseRequest.checkExists, queryExists_iff engine self hnul
      (parse_checkExistsQuery huser.not_mem.1) htables hcondition
      (fun columns h => Option.some.inj h ▸ hcolumns), List.map_cons, List.map_singleton,
      exists_choice_two, rows_eq_accounts htable hschema, rows_eq_accounts htable' hschema']
    simp [holds, Equation.holds, Term.eval, Term.affinity?, toText, Account.toRow, hcolumn]

end Wheespa
