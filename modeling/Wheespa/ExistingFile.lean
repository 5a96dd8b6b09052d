import Wheespa.PrepareDatabase

/-!
# The start on the file of an earlier one

`prepareDatabase` on a file that has its tables. The tables are not created again, and the default
administrator is inserted where its identity and its name are free, so that it comes back after it
has been removed. `prepareDatabase_existing` is the main result: no account and no administrator is
lost. `prepareDatabase_eq_self` is about a file that has the default administrator.
-/

namespace Wheespa

open Sql

/-! ## Administrators -/

/-- The identity and the name that a row of `Administrators` stores. -/
def administratorEntry : Row → Option (Int × Str)
  | [.integer id, .text user] => some (id, user)
  | _ => none

/-- The rows of `Administrators`. -/
def administratorEntries (database : Database) : List (Int × Str) :=
  match database.table? "Administrators".toList with
  | some table => table.rows.filterMap administratorEntry
  | none => []

/-- The stored row. -/
def administratorRow (entry : Int × Str) : Row :=
  [.integer entry.1, .text entry.2]

theorem administratorRow_injective : Function.Injective administratorRow := by
  intro entry entry' h
  obtain ⟨hid, hname⟩ := List.cons.inj h
  exact Prod.ext (Value.integer.inj hid) (Value.text.inj (List.cons.inj hname).1)

/-- The rows of a table with the schema of `Administrators` are its administrators. -/
theorem rows_eq_administratorEntries {database : Database} {table : Table}
    (htable : database.table? "Administrators".toList = some table)
    (hschema : table.schema = administratorSchema) :
    table.rows = (administratorEntries database).map administratorRow := by
  have hrows : ∀ row ∈ table.rows, ∃ id name, row = [.integer id, .text name] := by
    intro row hrow
    exact exists_administrator (hschema ▸ table.valid.fits row hrow)
  simp only [administratorEntries, htable]
  generalize table.rows = rows at hrows
  induction rows with
  | nil => rfl
  | cons row rows ih =>
      rw [List.forall_mem_cons] at hrows
      obtain ⟨⟨id, name, rfl⟩, hrows⟩ := hrows
      have hfirst : administratorEntry [.integer id, .text name] = some (id, name) := rfl
      rw [List.filterMap_cons_some hfirst, List.map_cons, ← ih hrows]
      rfl

/-- The names of the administrators. -/
theorem administrators_eq_entries (database : Database) :
    administrators database = (administratorEntries database).map Prod.snd := by
  have hname (row : Row) : administrator row = (administratorEntry row).map Prod.snd := by
    rcases row with _ | ⟨first, _ | ⟨second, _ | ⟨third, rest⟩⟩⟩
    · rfl
    · cases first <;> rfl
    · cases first <;> cases second <;> rfl
    · cases first <;> cases second <;> rfl
  cases htable : database.table? "Administrators".toList with
  | none => simp only [administrators, administratorEntries, htable, List.map_nil]
  | some table =>
      simp only [administrators, administratorEntries, htable]
      rw [List.map_filterMap]
      exact List.filterMap_congr fun row _ => hname row

/-! ## The insertions -/

/-- The name of the default administrator. -/
def defaultName : Str :=
  "wAdministrator".toList

/-- The statement that inserts the default administrator. -/
def insertAccount (sha1 : Sha1) : Statement :=
  .insertValues "Registered".toList
    ["W_ID".toList, "W_USER".toList, "W_PASS".toList, "W_MAIL".toList, "W_KEY".toList]
    [.number false "1".toList, .quoted defaultName,
      valueOperand (getOutput sha1 "wh33spaAdm1n".toList), .quoted "x@y.z".toList, .quoted []]

/-- The statement that makes the default administrator an administrator. -/
def insertEntry : Statement :=
  .insertValues "Administrators".toList ["ID".toList, "W_USER".toList]
    [.number false "1".toList, .quoted defaultName]

/-- The default administrator is inserted where the table takes its row. -/
theorem run_insertAccount (backend : Backend) (sha1 : Sha1) {session : Session} {table : Table}
    (htable : session.database.table? "Registered".toList = some table)
    (hschema : table.schema = accountSchema) :
    Statement.run backend session (insertAccount sha1) =
      (table.insert (defaultAccount backend sha1).toRow).map fun table' =>
        ({ session with database := session.database.set "Registered".toList table' }, []) := by
  obtain ⟨pass, hpass, hnull, hstored⟩ :=
    exists_value backend (getOutput sha1 "wh33spaAdm1n".toList)
  have hterms : [.number false "1".toList, .quoted defaultName,
      valueOperand (getOutput sha1 "wh33spaAdm1n".toList), .quoted "x@y.z".toList,
      .quoted []].mapM (resolve backend []) =
      some [.literal (.integer 1), .literal (.text defaultName), .literal pass,
        .literal (.text "x@y.z".toList), .literal (.text [])] := by
    simp only [List.mapM_cons, List.mapM_nil, hpass]
    rfl
  have hindices : ["W_ID".toList, "W_USER".toList, "W_PASS".toList, "W_MAIL".toList,
      "W_KEY".toList].mapM table.schema.lookup? = some [0, 1, 2, 3, 4] := by
    rw [hschema]
    rfl
  have hrow : table.schema.columns.zipIdx.mapM (newValue backend table
      ([0, 1, 2, 3, 4].zip [.integer 1, .text defaultName, pass, .text "x@y.z".toList,
        .text []])) = some (defaultAccount backend sha1).toRow := by
    rw [hschema]
    show List.mapM _ [(_, 0), (_, 1), (_, 2), (_, 3), (_, 4)] = _
    simp only [List.mapM_cons, List.mapM_nil]
    rw [newValue_assigned backend table rfl (by simp),
      newValue_assigned backend table rfl (by simp),
      newValue_assigned backend table rfl hnull, newValue_assigned backend table rfl (by simp),
      newValue_assigned backend table rfl (by simp)]
    exact congrArg (fun value => some [.integer 1, .text defaultName, value,
      .text "x@y.z".toList, .text []]) hstored
  have hinsert : insertRow backend ["W_ID".toList, "W_USER".toList, "W_PASS".toList,
      "W_MAIL".toList, "W_KEY".toList] table [.integer 1, .text defaultName, pass,
        .text "x@y.z".toList, .text []] = table.insert (defaultAccount backend sha1).toRow := by
    rw [insertRow_eq backend hindices rfl, hrow, Option.bind_some]
  simp only [insertAccount, Statement.run, htable, hterms, Option.bind_eq_bind, Option.bind_some,
    List.map_cons, List.map_nil, Term.eval, hinsert]
  cases hresult : table.insert (defaultAccount backend sha1).toRow with
  | none => rfl
  | some table' =>
      have hkeys : newKeysHold session.database table table' = true :=
        newKeysHold_of_nil session.database hresult (by rw [hschema]; rfl)
      simp only [hkeys, Bool.or_true, if_true, Option.bind_some, Option.map_some]

/-- The default administrator is made one where the table takes the row and the foreign key of the
row holds. -/
theorem run_insertEntry (backend : Backend) {session : Session}
    (henforced : session.enforced = true)
    {table : Table} (htable : session.database.table? "Administrators".toList = some table)
    (hschema : table.schema = administratorSchema) :
    Statement.run backend session insertEntry =
      ((table.insert (administratorRow (1, defaultName))).filter fun table' =>
        newKeysHold session.database table table').map fun table' =>
          ({ session with
            database := session.database.set "Administrators".toList table' }, []) := by
  have hterms : [.number false "1".toList, .quoted defaultName].mapM (resolve backend []) =
      some [.literal (.integer 1), .literal (.text defaultName)] := rfl
  have hinsert : insertRow backend ["ID".toList, "W_USER".toList] table
      [.integer 1, .text defaultName] = table.insert (administratorRow (1, defaultName)) := by
    have hindices : ["ID".toList, "W_USER".toList].mapM table.schema.lookup? = some [0, 1] := by
      rw [hschema]
      rfl
    have hrow : table.schema.columns.zipIdx.mapM (newValue backend table
        ([0, 1].zip [.integer 1, .text defaultName])) =
        some (administratorRow (1, defaultName)) := by
      rw [hschema]
      show List.mapM _ [(_, 0), (_, 1)] = _
      simp only [List.mapM_cons, List.mapM_nil]
      rw [newValue_assigned backend table rfl (by simp),
        newValue_assigned backend table rfl (by simp)]
      rfl
    rw [insertRow_eq backend hindices rfl, hrow, Option.bind_some]
  simp only [insertEntry, Statement.run, htable, hterms, Option.bind_eq_bind, Option.bind_some,
    List.map_cons, List.map_nil, Term.eval, hinsert, henforced, Bool.not_true, Bool.false_or]
  cases table.insert (administratorRow (1, defaultName)) with
  | none => rfl
  | some table' =>
      rw [Option.bind_some, Option.filter_some]
      split <;> rfl

/-! ## What the tables take -/

/-- The values of a column of stored records. -/
theorem filterMap_column {α β : Type} (toRow : α → Row) {g : α → β} {c : β → Value} {index : Nat}
    (hcolumn : ∀ entry, (toRow entry)[index]? = some (c (g entry))) (entries : List α) :
    (entries.map toRow).filterMap (fun row => row[index]?) = (entries.map g).map c := by
  rw [List.filterMap_map, List.map_map, ← List.filterMap_eq_map']
  exact List.filterMap_congr fun entry _ => hcolumn entry

theorem integer_mem_map (n : Int) (ns : List Int) : .integer n ∈ ns.map Value.integer ↔ n ∈ ns :=
  List.mem_map_of_injective fun _ _ => Value.integer.inj

theorem text_mem_map (t : Str) (ts : List Str) : .text t ∈ ts.map Value.text ↔ t ∈ ts :=
  List.mem_map_of_injective fun _ _ => Value.text.inj

/-- An account table takes an account exactly where its identity and its name are free. -/
theorem valid_account_iff {database : Database} {table : Table} {name : String}
    (htable : database.table? name.toList = some table) (hschema : table.schema = accountSchema)
    (account : Account) :
    table.schema.Valid (table.rows ++ [account.toRow]) ↔
      account.id ∉ (accounts database name).map Account.id ∧
        account.user ∉ users database name := by
  have hids := filterMap_column Account.toRow
    (fun account => (rfl : account.toRow[0]? = some (.integer account.id))) (accounts database name)
  have husers := filterMap_column Account.toRow
    (fun account => (rfl : account.toRow[1]? = some (.text account.user))) (accounts database name)
  rw [table.valid.concat_iff (hschema ▸ account.fits_toRow), hschema,
    rows_eq_accounts htable hschema]
  simp only [accountSchema, List.zipIdx_cons, List.zipIdx_nil, List.forall_mem_cons, Nat.zero_add,
    hids, husers]
  simp [Account.toRow, users, integer_mem_map, text_mem_map, -List.map_map, -List.mem_map]

/-- The row of an administrator fits its table. -/
theorem fits_administratorRow (entry : Int × Str) : List.Forall₂
    (fun column value => column.fits value = true) administratorSchema.columns
      (administratorRow entry) := by
  simp [administratorSchema, administratorRow, Column.fits]

/-- `Administrators` takes a row exactly where its identity and its name are free. -/
theorem valid_administratorRow_iff {database : Database} {table : Table}
    (htable : database.table? "Administrators".toList = some table)
    (hschema : table.schema = administratorSchema) (entry : Int × Str) :
    table.schema.Valid (table.rows ++ [administratorRow entry]) ↔
      entry.1 ∉ (administratorEntries database).map Prod.fst ∧
        entry.2 ∉ (administratorEntries database).map Prod.snd := by
  have hids := filterMap_column administratorRow
    (fun entry => (rfl : (administratorRow entry)[0]? = some (.integer entry.1)))
    (administratorEntries database)
  have hnames := filterMap_column administratorRow
    (fun entry => (rfl : (administratorRow entry)[1]? = some (.text entry.2)))
    (administratorEntries database)
  rw [table.valid.concat_iff (hschema ▸ fits_administratorRow entry), hschema,
    rows_eq_administratorEntries htable hschema]
  simp only [administratorSchema, List.zipIdx_cons, List.zipIdx_nil, List.forall_mem_cons,
    Nat.zero_add, hids, hnames]
  simp [administratorRow, integer_mem_map, text_mem_map, -List.map_map, -List.mem_map]

/-- A column of texts has no null. -/
theorem nonNull_text (ts : List Str) : nonNull (ts.map .text) = ts.map .text := by
  rw [nonNull, List.filter_eq_self]
  simp

/-- The foreign key of a row of `Administrators` holds where its name is registered. -/
theorem foreignKeysHold_iff {database : Database} {parent : Table}
    (hparent : database.table? "Registered".toList = some parent)
    (hregistered : parent.schema = accountSchema) (entry : Int × Str) :
    foreignKeysHold database administratorSchema [administratorRow entry] = true ↔
      entry.2 ∈ users database "Registered" := by
  have husers : parent.column "W_USER".toList =
      (users database "Registered").map .text := by
    have hindex : accountSchema.index? "W_USER".toList = some 1 := rfl
    rw [Table.column, Schema.column, hregistered, hindex, rows_eq_accounts hparent hregistered]
    show nonNull _ = _
    rw [filterMap_column Account.toRow
      (fun account => (rfl : account.toRow[1]? = some (.text account.user))), nonNull_text]
    rfl
  have hname : administratorSchema.column [administratorRow entry] "W_USER".toList =
      [.text entry.2] := rfl
  rw [foreignKeysHold]
  show (([_] : List ForeignKey).all fun foreignKey => _) = true ↔ _
  simp only [List.all_cons, List.all_nil, Bool.and_true, hparent, hname, husers,
    List.contains_iff_mem, text_mem_map]

/-! ## Preparing the file again -/

/-- The identity and the name of the default administrator are free. -/
def isFree {α : Type} (id : α → Int) (user : α → Str) (rows : List α) : Bool :=
  rows.all fun row => id row != 1 && user row != defaultName

theorem isFree_iff {α : Type} {id : α → Int} {user : α → Str} {rows : List α} :
    isFree id user rows = true ↔ 1 ∉ rows.map id ∧ defaultName ∉ rows.map user := by
  simp only [isFree, List.all_eq_true, Bool.and_eq_true, bne_iff_ne, List.mem_map, not_exists,
    not_and, forall_and, ne_eq]

/-- The accounts with the default administrator, where its identity and its name are free. -/
def restoredAccounts (backend : Backend) (sha1 : Sha1) (accounts : List Account) : List Account :=
  if isFree Account.id Account.user accounts then accounts ++ [defaultAccount backend sha1]
  else accounts

/-- The administrators with the default one, where its identity and its name are free and it is
registered. -/
def restoredEntries (users : List Str) (entries : List (Int × Str)) : List (Int × Str) :=
  if isFree Prod.fst Prod.snd entries && users.contains defaultName then
    entries ++ [(1, defaultName)]
  else entries

/-- What preparing a file that has its tables leaves in them. -/
structure Restored (backend : Backend) (sha1 : Sha1) (file database : Database) : Prop where
  prepared : Prepared database
  registered : accounts database "Registered" =
    restoredAccounts backend sha1 (accounts file "Registered")
  pending : database.table? "PendingRegistrations".toList =
    file.table? "PendingRegistrations".toList
  administrators : administratorEntries database =
    restoredEntries (users database "Registered") (administratorEntries file)

/-- A table that is there is not created. -/
theorem dbHandle_createTable (engine : Engine) {db : FlexDB} {session : Session}
    (hsession : db.dbHandle = session) {name : Str} {colmns : List Str} {schema : Schema}
    {table : Table} (htable : session.database.table? name = some table)
    (htext : '\x00' ∉ createText name colmns)
    (hparse : parse (createText name colmns) = some [.createTable name schema]) :
    (db.createTable engine name colmns).2.dbHandle = session := by
  subst hsession
  have hrun : Statement.run engine.toBackend db.dbHandle (.createTable name schema) =
      some (db.dbHandle, []) := by
    rw [Statement.run, htable]
  have hexec := dbHandle_execQuery engine
    (FlexDB.vecToStr { db with dbQuoteParams := false } colmns).2 htext hparse
  exact hexec.trans (congrArg Answer.session (run_singleton_some hrun))

/-- An insertion leaves what its statement does. -/
theorem dbHandle_insert (engine : Engine) {db : FlexDB} {session : Session}
    (hsession : db.dbHandle = session) {table columns : Str} {values : List Str}
    {statement : Statement} (htext : '\x00' ∉ insertText table columns values)
    (hparse : parse (insertText table columns values) = some [statement]) :
    (db.insert engine table columns values).2.dbHandle =
      (run engine.toBackend session [statement]).session := by
  rw [(insert_eq engine db htext hparse).2, hsession]

/-- On a file that has its tables, `prepareDatabase` runs its two insertions. -/
theorem dbHandle_prepareDatabase (engine : Engine) (sha1 : Sha1) {file : Database}
    (hdb : Prepared file) :
    (prepareDatabase engine sha1 file).dbHandle =
      (run engine.toBackend (run engine.toBackend ⟨file, true⟩ [insertAccount sha1]).session
        [insertEntry]).session := by
  have hpragma : '\x00' ∉ "PRAGMA foreign_keys = '1'".toList ∧
      parse "PRAGMA foreign_keys = '1'".toList = some [.foreignKeys true] := by
    rw [String.toList_ofList]
    exact ⟨by decide, rfl⟩
  have hdigest := (isValue_of_hex (getOutput_spec sha1 "wh33spaAdm1n".toList).2).not_mem.2.2
  have htext : '\x00' ∉ insertText "Registered".toList
      "W_ID, W_USER, W_PASS, W_MAIL, W_KEY".toList (defaultAdministrator sha1) := by
    apply not_mem_insertText
    · repeat rw [String.toList_ofList]
      decide
    · simp only [defaultAdministrator, List.forall_mem_cons]
      exact ⟨by decide, by decide, hdigest, by decide, by decide, by simp⟩
  obtain ⟨htext', hparse'⟩ := parse_insertAdministrators
  obtain ⟨_, hregistered, _⟩ := hdb.registered
  obtain ⟨_, hpending, _⟩ := hdb.pending
  obtain ⟨_, hadministrators, _⟩ := hdb.administrators
  -- the handle after each statement
  have hopen : ((FlexDB.openFile file).execQuery engine
      "PRAGMA foreign_keys = '1'".toList).2.dbHandle = ⟨file, true⟩ :=
    dbHandle_execQuery engine (FlexDB.openFile file) hpragma.1 hpragma.2
  obtain ⟨hcreate, hcreate'⟩ := parse_createAccounts _ (.head _)
  have hfirst := dbHandle_createTable engine hopen hregistered hcreate hcreate'
  obtain ⟨hcreate, hcreate'⟩ := parse_createAccounts _ (.tail _ (.head _))
  have hsecond := dbHandle_createTable engine hfirst hpending hcreate hcreate'
  obtain ⟨hcreate, hcreate'⟩ := parse_createAdministrators
  have hthird := dbHandle_createTable engine hsecond hadministrators hcreate hcreate'
  have hfourth := dbHandle_insert engine hthird htext (parse_insertAdministrator sha1)
  exact dbHandle_insert engine hfourth htext' hparse'

/-- The default administrator is registered, where there is room for it. -/
theorem run_insertAccount_outcome (backend : Backend) (sha1 : Sha1) {file : Database}
    (hdb : Prepared file) :
    ∃ database, (run backend ⟨file, true⟩ [insertAccount sha1]).session = ⟨database, true⟩ ∧
      Prepared database ∧
      accounts database "Registered" =
        restoredAccounts backend sha1 (accounts file "Registered") ∧
      database.table? "PendingRegistrations".toList =
        file.table? "PendingRegistrations".toList ∧
      database.table? "Administrators".toList = file.table? "Administrators".toList ∧
      (accounts database "Registered" = accounts file "Registered" → database = file) := by
  obtain ⟨table, htable, hschema⟩ := hdb.registered
  have hrun := @run_insertAccount backend sha1 ⟨file, true⟩ table htable hschema
  have hvalid : _ ↔ 1 ∉ (accounts file "Registered").map Account.id ∧
      defaultName ∉ (accounts file "Registered").map Account.user :=
    valid_account_iff htable hschema (defaultAccount backend sha1)
  by_cases hfree : table.schema.Valid (table.rows ++ [(defaultAccount backend sha1).toRow])
  · have hinsert : table.insert (defaultAccount backend sha1).toRow =
        some ⟨table.schema, _, hfree⟩ := dif_pos hfree
    rw [hinsert, Option.map_some] at hrun
    have htables : HasTables file _ _ _ := ⟨rfl, rfl, rfl⟩
    obtain ⟨hregistered, hpending, hadministrators⟩ :=
      htables.setRegistered ⟨table.schema, _, hfree⟩
    have haccounts : accounts (file.set "Registered".toList ⟨table.schema, _, hfree⟩)
        "Registered" = accounts file "Registered" ++ [defaultAccount backend sha1] := by
      simp only [accounts, hregistered, htable, List.filterMap_append, List.filterMap_cons,
        Account.ofRow_toRow, List.filterMap_nil]
    have hprepared := hdb.setRegistered ⟨table.schema, _, hfree⟩ hschema
    refine ⟨_, by rw [run_singleton_some hrun], hprepared, ?_, hpending, hadministrators, ?_⟩
    · rw [haccounts, restoredAccounts, if_pos (isFree_iff.mpr (hvalid.mp hfree))]
    · intro hsame
      rw [haccounts] at hsame
      simp at hsame
  · have hinsert : table.insert (defaultAccount backend sha1).toRow = none := dif_neg hfree
    rw [hinsert, Option.map_none] at hrun
    refine ⟨file, by rw [run_singleton_none hrun], hdb, ?_, rfl, rfl, fun _ => rfl⟩
    rw [restoredAccounts, if_neg fun h => hfree (hvalid.mpr (isFree_iff.mp h))]

/-- The default administrator is made one, where there is room for it and it is registered. -/
theorem run_insertEntry_outcome (backend : Backend) {file : Database} (hdb : Prepared file) :
    ∃ database, (run backend ⟨file, true⟩ [insertEntry]).session = ⟨database, true⟩ ∧
      Prepared database ∧
      database.table? "Registered".toList = file.table? "Registered".toList ∧
      database.table? "PendingRegistrations".toList =
        file.table? "PendingRegistrations".toList ∧
      administratorEntries database =
        restoredEntries (users file "Registered") (administratorEntries file) ∧
      (1 ∈ (administratorEntries file).map Prod.fst ∨ defaultName ∈ administrators file →
        database = file) := by
  obtain ⟨parent, hparent, hregistered⟩ := hdb.registered
  obtain ⟨table, htable, hschema⟩ := hdb.administrators
  have hrun := @run_insertEntry backend ⟨file, true⟩ rfl table htable hschema
  have hvalid := valid_administratorRow_iff htable hschema (1, defaultName)
  have hkey : foreignKeysHold file administratorSchema [administratorRow (1, defaultName)] = true ↔
      defaultName ∈ users file "Registered" :=
    foreignKeysHold_iff hparent hregistered (1, defaultName)
  by_cases hfree : table.schema.Valid (table.rows ++ [administratorRow (1, defaultName)])
  · have hinsert : table.insert (administratorRow (1, defaultName)) =
        some ⟨table.schema, _, hfree⟩ := dif_pos hfree
    have hnew : ¬ (1 ∈ (administratorEntries file).map Prod.fst ∨
        defaultName ∈ administrators file) := by
      rw [administrators_eq_entries, not_or]
      exact hvalid.mp hfree
    have hholds : newKeysHold file table ⟨table.schema, _, hfree⟩ =
        foreignKeysHold file administratorSchema [administratorRow (1, defaultName)] := by
      rw [newKeysHold_insert file hinsert, hschema]
    rw [hinsert, Option.filter_some, hholds] at hrun
    by_cases hregistered' : defaultName ∈ users file "Registered"
    · rw [if_pos (hkey.mpr hregistered'), Option.map_some] at hrun
      have htables : HasTables file _ _ _ := ⟨rfl, rfl, rfl⟩
      obtain ⟨hsame, hpending, hadministrators⟩ :=
        htables.setAdministrators ⟨table.schema, _, hfree⟩
      have hprepared := hdb.setAdministrators ⟨table.schema, _, hfree⟩ hschema
      refine ⟨_, by rw [run_singleton_some hrun], hprepared, hsame, hpending, ?_,
        fun hused => absurd hused hnew⟩
      have hentries := rows_eq_administratorEntries hadministrators hschema
      have hrows : (⟨table.schema, _, hfree⟩ : Table).rows =
          (administratorEntries file ++ [(1, defaultName)]).map administratorRow := by
        rw [List.map_append, ← rows_eq_administratorEntries htable hschema]
        rfl
      rw [restoredEntries, isFree_iff.mpr (hvalid.mp hfree), Bool.true_and,
        if_pos (List.contains_iff_mem.mpr hregistered')]
      rw [hrows] at hentries
      exact (List.map_injective_iff.mpr administratorRow_injective hentries).symm
    · rw [if_neg fun h => hregistered' (hkey.mp h), Option.map_none] at hrun
      refine ⟨file, by rw [run_singleton_none hrun], hdb, rfl, rfl, ?_, fun _ => rfl⟩
      rw [restoredEntries, if_neg]
      intro h
      exact hregistered' (List.contains_iff_mem.mp (Bool.and_eq_true_iff.mp h).2)
  · have hinsert : table.insert (administratorRow (1, defaultName)) = none := dif_neg hfree
    rw [hinsert] at hrun
    refine ⟨file, by rw [run_singleton_none hrun], hdb, rfl, rfl, ?_, fun _ => rfl⟩
    rw [restoredEntries, if_neg]
    intro h
    exact hfree (hvalid.mpr (isFree_iff.mp (Bool.and_eq_true_iff.mp h).1))

/-- Preparing a file that has its tables loses no account, no registration and no administrator, and
brings the default administrator back. -/
theorem prepareDatabase_existing (engine : Engine) (sha1 : Sha1) {file : Database}
    (hdb : Prepared file) :
    Restored engine.toBackend sha1 file (prepareDatabase engine sha1 file).database := by
  obtain ⟨middle, hfirst, hmiddle, haccounts, hpending, hadministrators, _⟩ :=
    run_insertAccount_outcome engine.toBackend sha1 hdb
  obtain ⟨database, hsecond, hprepared, hregistered, hpending', hentries, _⟩ :=
    run_insertEntry_outcome engine.toBackend hmiddle
  have hdatabase : (prepareDatabase engine sha1 file).database = database := by
    rw [FlexDB.database, dbHandle_prepareDatabase engine sha1 hdb, hfirst, hsecond]
  have hsame : accounts database "Registered" = accounts middle "Registered" := by
    rw [accounts, accounts, hregistered]
  have hold : administratorEntries middle = administratorEntries file := by
    rw [administratorEntries, administratorEntries, hadministrators]
  rw [hdatabase]
  refine ⟨hprepared, hsame.trans haccounts, hpending'.trans hpending, ?_⟩
  rw [hentries, hold, users, users, hsame]

/-- A file with one user, from which the default administrator has been removed. -/
def withoutDefault : Database :=
  ((newFile.set "Registered".toList ⟨accountSchema,
    [Account.toRow ⟨2, "ann".toList, "ABABAB".toList, "a@x.y".toList, some []⟩],
    .singleton (Account.fits_toRow _)⟩).set
    "PendingRegistrations".toList (.empty accountSchema)).set
    "Administrators".toList (.empty administratorSchema)

/-- The default administrator comes back, next to the user. -/
theorem prepareDatabase_without_default :
    (Restored Engine.plain.toBackend constantSha1 withoutDefault
      (prepareDatabase .plain constantSha1 withoutDefault).database) ∧
    (restoredAccounts Engine.plain.toBackend constantSha1
      (accounts withoutDefault "Registered")).map Account.user = ["ann".toList, defaultName] :=
  ⟨prepareDatabase_existing .plain constantSha1 ⟨⟨_, rfl, rfl⟩, ⟨_, rfl, rfl⟩, ⟨_, rfl, rfl⟩⟩,
    by decide⟩

/-- The identity or the name of the default administrator is in use in both of its tables. -/
structure HasDefault (database : Database) : Prop where
  registered : 1 ∈ (accounts database "Registered").map Account.id ∨
    defaultName ∈ users database "Registered"
  administrators : 1 ∈ (administratorEntries database).map Prod.fst ∨
    defaultName ∈ Wheespa.administrators database

/-- Preparing a file that has the default administrator changes nothing. -/
theorem prepareDatabase_eq_self (engine : Engine) (sha1 : Sha1) {file : Database}
    (hdb : Prepared file) (hdefault : HasDefault file) :
    (prepareDatabase engine sha1 file).database = file := by
  obtain ⟨middle, hfirst, _, haccounts, _, _, hmiddle⟩ :=
    run_insertAccount_outcome engine.toBackend sha1 hdb
  have hkept : accounts middle "Registered" = accounts file "Registered" := by
    rw [haccounts, restoredAccounts, if_neg]
    intro h
    obtain ⟨hid, huser⟩ := isFree_iff.mp h
    exact hdefault.registered.elim hid huser
  obtain rfl := hmiddle hkept
  obtain ⟨database, hsecond, _, _, _, _, hdatabase⟩ :=
    run_insertEntry_outcome engine.toBackend hdb
  rw [FlexDB.database, dbHandle_prepareDatabase engine sha1 hdb, hfirst, hsecond]
  exact hdatabase hdefault.administrators

end Wheespa
