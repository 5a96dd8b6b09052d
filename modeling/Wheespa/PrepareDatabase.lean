import Wheespa.Insertion

/-!
# The start of the database

`prepareDatabase` of `wheespa_server.cc` creates the three tables, where the file does not have them
yet, and inserts the default administrator. `database_prepareDatabase` says what it leaves in a new
file.
-/

namespace Wheespa

open Sql

/-- The columns of `Registered` and `PendingRegistrations`, as they are handed to `createTable`. -/
def accountColumns : List Str :=
  ["W_ID integer primary key not NULL".toList, "W_USER char(32) unique not NULL".toList,
    "W_PASS char(40) not NULL".toList, "W_MAIL char(64) not NULL".toList, "W_KEY char(16)".toList]

/-- The columns and the foreign key of `Administrators`. -/
def administratorColumns : List Str :=
  ["ID integer primary key not NULL".toList, "W_USER char(32) unique not NULL".toList,
    ("Foreign Key(W_USER) REFERENCES Registered(W_USER) ".toList ++
      "ON DELETE Cascade ON UPDATE Cascade".toList)]

/-- The values of the default administrator. -/
def defaultAdministrator (sha1 : Sha1) : List Str :=
  ["1".toList, "wAdministrator".toList, getOutput sha1 "wh33spaAdm1n".toList, "x@y.z".toList, []]

/-- `prepareDatabase`. -/
def prepareDatabase (engine : Engine) (sha1 : Sha1) (file : Database) : FlexDB :=
  let db := FlexDB.openFile file
  let db := (db.execQuery engine "PRAGMA foreign_keys = '1'".toList).2
  let db := (db.createTable engine "Registered".toList accountColumns).2
  let db := (db.createTable engine "PendingRegistrations".toList accountColumns).2
  let db := (db.createTable engine "Administrators".toList administratorColumns).2
  let db := (db.insert engine "Registered".toList "W_ID, W_USER, W_PASS, W_MAIL, W_KEY".toList
    (defaultAdministrator sha1)).2
  (db.insert engine "Administrators".toList "ID, W_USER".toList
    ["1".toList, "wAdministrator".toList]).2

/-- The file of a database without tables. -/
def newFile : Database :=
  fun _ => none

/-- What a text without null characters leaves on a connection. -/
theorem dbHandle_execQuery (engine : Engine) (db : FlexDB) {text : Str}
    {statements : List Statement} (htext : '\x00' ∉ text) (hparse : parse text = some statements) :
    (db.execQuery engine text).2.dbHandle =
      (run engine.toBackend db.dbHandle statements).session := by
  rw [FlexDB.execQuery, cStr_of_not_mem htext, engine.exec_eq _ _ _ hparse]

/-- The text of a table creation. -/
def createText (table : Str) (colmns : List Str) : Str :=
  "create table if not exists ".toList ++ table ++ "(".toList ++
    (colmns.flatMap fun value => value ++ [',']).dropLast ++ ")".toList

/-- A table creation creates the table that its text says, if there is none of that name. -/
theorem database_createTable (engine : Engine) {db : FlexDB} {table : Str} {colmns : List Str}
    {schema : Schema} (hnone : db.database.table? table = none)
    (htext : '\x00' ∉ createText table colmns)
    (hparse : parse (createText table colmns) = some [.createTable table schema]) :
    (db.createTable engine table colmns).2.database = db.database.set table (.empty schema) := by
  have hrun : Statement.run engine.toBackend db.dbHandle (.createTable table schema) =
      some ({ db.dbHandle with database := db.database.set table (.empty schema) }, []) := by
    have hnone : db.dbHandle.database.table? table = none := hnone
    rw [Statement.run, hnone]
    rfl
  have hexec := dbHandle_execQuery engine
    (FlexDB.vecToStr { db with dbQuoteParams := false } colmns).2 htext hparse
  exact congrArg Session.database
    (hexec.trans (congrArg Answer.session (run_singleton_some hrun)))

/-- The text of `createTable` for an account table. -/
theorem parse_createAccounts : ∀ table ∈ ["Registered".toList, "PendingRegistrations".toList],
    '\x00' ∉ createText table accountColumns ∧
      parse (createText table accountColumns) = some [.createTable table accountSchema] := by
  simp only [List.forall_mem_cons]
  unfold createText accountColumns
  repeat rw [String.toList_ofList]
  exact ⟨⟨by decide, rfl⟩, ⟨by decide, rfl⟩, by simp⟩

/-- The text of `createTable` for `Administrators`. -/
theorem parse_createAdministrators :
    '\x00' ∉ createText "Administrators".toList administratorColumns ∧
      parse (createText "Administrators".toList administratorColumns) =
        some [.createTable "Administrators".toList administratorSchema] := by
  unfold createText administratorColumns
  repeat rw [String.toList_ofList]
  exact ⟨by decide, rfl⟩

/-- The account of the default administrator. -/
def defaultAccount (backend : Backend) (sha1 : Sha1) : Account :=
  ⟨1, "wAdministrator".toList, storedText backend (getOutput sha1 "wh33spaAdm1n".toList),
    "x@y.z".toList, some []⟩

/-- The statement that inserts the default administrator. -/
theorem parse_insertAdministrator (sha1 : Sha1) :
    parse (insertText "Registered".toList "W_ID, W_USER, W_PASS, W_MAIL, W_KEY".toList
      (defaultAdministrator sha1)) = some [.insertValues "Registered".toList
        ["W_ID".toList, "W_USER".toList, "W_PASS".toList, "W_MAIL".toList, "W_KEY".toList]
        [.number false "1".toList, .quoted "wAdministrator".toList,
          valueOperand (getOutput sha1 "wh33spaAdm1n".toList), .quoted "x@y.z".toList,
          .quoted []]] := by
  have hhead : Scan.readAll .gap ("insert into ".toList ++ "Registered".toList ++
      "(".toList ++ "W_ID, W_USER, W_PASS, W_MAIL, W_KEY".toList ++ ") values(".toList) =
      (.gap, [.word "insert".toList, .word "into".toList, .word "Registered".toList,
        .symbol '(', .word "W_ID".toList, .symbol ',', .word "W_USER".toList, .symbol ',',
        .word "W_PASS".toList, .symbol ',', .word "W_MAIL".toList, .symbol ',',
        .word "W_KEY".toList, .symbol ')', .word "values".toList, .symbol '(']) := by
    repeat rw [String.toList_ofList]
    rfl
  have hdigest := (isValue_of_hex (getOutput_spec sha1 "wh33spaAdm1n".toList).2).not_mem.1
  have hvalues : ∀ value ∈ defaultAdministrator sha1, '"' ∉ value := by
    simp only [defaultAdministrator, List.forall_mem_cons]
    exact ⟨by decide, by decide, hdigest, by decide, by decide, by simp⟩
  have hlex := lex_insertText hhead hvalues (List.cons_ne_nil _ _)
  unfold parse
  rw [hlex]
  unfold defaultAdministrator
  rcases valueToken_cases (getOutput sha1 "wh33spaAdm1n".toList) with ⟨h, h'⟩ | ⟨h, h'⟩ <;>
    simp only [List.map_cons, List.map_nil, h, h'] <;> rfl

/-- The row of the default administrator fits `Registered`. -/
theorem fits_defaultAccount (backend : Backend) (sha1 : Sha1) :
    List.Forall₂ (fun column value => column.fits value = true) accountSchema.columns
      (defaultAccount backend sha1).toRow :=
  (defaultAccount backend sha1).fits_toRow

/-- The row of the default administrator fits `Administrators`. -/
theorem fits_defaultAdministrator :
    List.Forall₂ (fun column value => column.fits value = true) administratorSchema.columns
      [.integer 1, .text "wAdministrator".toList] := by
  simp [administratorSchema, Column.fits]

/-- The table `Registered` with the default administrator. -/
def defaultRegistered (backend : Backend) (sha1 : Sha1) : Table :=
  ⟨accountSchema, [(defaultAccount backend sha1).toRow],
    .singleton (fits_defaultAccount backend sha1)⟩

/-- The table `Administrators` with the default administrator. -/
def defaultAdministrators : Table :=
  ⟨administratorSchema, [[.integer 1, .text "wAdministrator".toList]],
    .singleton fits_defaultAdministrator⟩

/-- What the statement that inserts the default administrator does. -/
theorem run_insertAdministrator (backend : Backend) (sha1 : Sha1) {session : Session}
    (htable : session.database.table? "Registered".toList = some (.empty accountSchema)) :
    Statement.run backend session (.insertValues "Registered".toList
        ["W_ID".toList, "W_USER".toList, "W_PASS".toList, "W_MAIL".toList, "W_KEY".toList]
        [.number false "1".toList, .quoted "wAdministrator".toList,
          valueOperand (getOutput sha1 "wh33spaAdm1n".toList), .quoted "x@y.z".toList,
          .quoted []]) =
      some ({ session with
        database := session.database.set "Registered".toList (defaultRegistered backend sha1) },
        []) := by
  obtain ⟨pass, hpass, hnull, hstored⟩ :=
    exists_value backend (getOutput sha1 "wh33spaAdm1n".toList)
  have hterms : [.number false "1".toList, .quoted "wAdministrator".toList,
      valueOperand (getOutput sha1 "wh33spaAdm1n".toList), .quoted "x@y.z".toList,
      .quoted []].mapM (resolve backend []) =
      some [.literal (.integer 1), .literal (.text "wAdministrator".toList), .literal pass,
        .literal (.text "x@y.z".toList), .literal (.text [])] := by
    simp only [List.mapM_cons, List.mapM_nil, hpass]
    rfl
  have hindices : ["W_ID".toList, "W_USER".toList, "W_PASS".toList, "W_MAIL".toList,
      "W_KEY".toList].mapM accountSchema.lookup? = some [0, 1, 2, 3, 4] := rfl
  have hrow : accountSchema.columns.zipIdx.mapM (newValue backend (.empty accountSchema)
      ([0, 1, 2, 3, 4].zip [.integer 1, .text "wAdministrator".toList, pass,
        .text "x@y.z".toList, .text []])) = some (defaultAccount backend sha1).toRow := by
    show List.mapM _ [(_, 0), (_, 1), (_, 2), (_, 3), (_, 4)] = _
    simp only [List.mapM_cons, List.mapM_nil]
    rw [newValue_assigned backend _ rfl (by simp), newValue_assigned backend _ rfl (by simp),
      newValue_assigned backend _ rfl hnull, newValue_assigned backend _ rfl (by simp),
      newValue_assigned backend _ rfl (by simp)]
    exact congrArg (fun value => some [.integer 1, .text "wAdministrator".toList, value,
      .text "x@y.z".toList, .text []]) hstored
  have hinsert : insertRow backend ["W_ID".toList, "W_USER".toList, "W_PASS".toList,
      "W_MAIL".toList, "W_KEY".toList] (.empty accountSchema) [.integer 1,
        .text "wAdministrator".toList, pass, .text "x@y.z".toList, .text []] =
      some (defaultRegistered backend sha1) := by
    refine (insertRow_eq backend hindices rfl).trans ?_
    refine (congrArg (Option.bind · _) hrow).trans ?_
    exact Table.insert_empty (fits_defaultAccount backend sha1)
  have hkeys : newKeysHold session.database (.empty accountSchema)
      (defaultRegistered backend sha1) = true := rfl
  simp only [Statement.run, htable, hterms, Option.bind_eq_bind, Option.bind_some, List.map_cons,
    List.map_nil, Term.eval, hinsert, hkeys, Bool.or_true, if_true]

/-- The statement that makes the default administrator an administrator. -/
theorem parse_insertAdministrators :
    '\x00' ∉ insertText "Administrators".toList "ID, W_USER".toList
        ["1".toList, "wAdministrator".toList] ∧
      parse (insertText "Administrators".toList "ID, W_USER".toList
        ["1".toList, "wAdministrator".toList]) = some [.insertValues "Administrators".toList
          ["ID".toList, "W_USER".toList]
          [.number false "1".toList, .quoted "wAdministrator".toList]] := by
  unfold insertText
  repeat rw [String.toList_ofList]
  exact ⟨by decide, rfl⟩

/-- What that statement does. -/
theorem run_insertAdministrators (backend : Backend) (sha1 : Sha1) {session : Session}
    (htable : session.database.table? "Administrators".toList = some (.empty administratorSchema))
    (hparent : session.database.table? "Registered".toList =
      some (defaultRegistered backend sha1)) :
    Statement.run backend session (.insertValues "Administrators".toList
        ["ID".toList, "W_USER".toList]
        [.number false "1".toList, .quoted "wAdministrator".toList]) =
      some ({ session with
        database := session.database.set "Administrators".toList defaultAdministrators }, []) := by
  have hinsert : insertRow backend ["ID".toList, "W_USER".toList] (.empty administratorSchema)
      [.integer 1, .text "wAdministrator".toList] = some defaultAdministrators := by
    have hindices : ["ID".toList, "W_USER".toList].mapM administratorSchema.lookup? =
        some [0, 1] := rfl
    have hrow : administratorSchema.columns.zipIdx.mapM (newValue backend
        (.empty administratorSchema) ([0, 1].zip [.integer 1, .text "wAdministrator".toList])) =
        some [.integer 1, .text "wAdministrator".toList] := rfl
    refine (insertRow_eq backend hindices rfl).trans ?_
    refine (congrArg (Option.bind · _) hrow).trans ?_
    exact Table.insert_empty fits_defaultAdministrator
  have hkeys : newKeysHold session.database (.empty administratorSchema) defaultAdministrators =
      true := by
    rw [newKeysHold, foreignKeysHold]
    show (([_] : List ForeignKey).all fun foreignKey => _) = true
    simp only [List.all_cons, List.all_nil, hparent]
    rfl
  have hterms : [.number false "1".toList, .quoted "wAdministrator".toList].mapM
      (resolve backend []) =
      some [.literal (.integer 1), .literal (.text "wAdministrator".toList)] := rfl
  simp only [Statement.run, htable, hterms, Option.bind_eq_bind, Option.bind_some, List.map_cons,
    List.map_nil, Term.eval, hinsert, hkeys, Bool.or_true, if_true]

/-- What an insertion leaves in the database. -/
theorem database_insert (engine : Engine) (db : FlexDB) {table columns : Str} {values : List Str}
    {statement : Statement} {session : Session} (htext : '\x00' ∉ insertText table columns values)
    (hparse : parse (insertText table columns values) = some [statement])
    (hrun : statement.run engine.toBackend db.dbHandle = some (session, [])) :
    (db.insert engine table columns values).2.database = session.database := by
  rw [FlexDB.database, (insert_eq engine db htext hparse).2]
  exact congrArg (fun answer : Answer => answer.session.database) (run_singleton_some hrun)

/-- The steps of `prepareDatabase`, each on the tables that the one before leaves. -/
theorem database_createRegistered (engine : Engine) {db : FlexDB} {file : Database}
    {pending administrators : Option Table} (hfile : db.database = file)
    (h : HasTables file none pending administrators) :
    (db.createTable engine "Registered".toList accountColumns).2.database =
      file.set "Registered".toList (.empty accountSchema) := by
  subst hfile
  obtain ⟨htext, hparse⟩ := parse_createAccounts _ (.head _)
  exact database_createTable engine h.registered htext hparse

theorem database_createPending (engine : Engine) {db : FlexDB} {file : Database}
    {registered administrators : Option Table} (hfile : db.database = file)
    (h : HasTables file registered none administrators) :
    (db.createTable engine "PendingRegistrations".toList accountColumns).2.database =
      file.set "PendingRegistrations".toList (.empty accountSchema) := by
  subst hfile
  obtain ⟨htext, hparse⟩ := parse_createAccounts _ (.tail _ (.head _))
  exact database_createTable engine h.pending htext hparse

theorem database_createAdministrators (engine : Engine) {db : FlexDB} {file : Database}
    {registered pending : Option Table} (hfile : db.database = file)
    (h : HasTables file registered pending none) :
    (db.createTable engine "Administrators".toList administratorColumns).2.database =
      file.set "Administrators".toList (.empty administratorSchema) := by
  subst hfile
  obtain ⟨htext, hparse⟩ := parse_createAdministrators
  exact database_createTable engine h.administrators htext hparse

theorem database_insertRegistered (engine : Engine) (sha1 : Sha1) {db : FlexDB} {file : Database}
    {pending administrators : Option Table} (hfile : db.database = file)
    (h : HasTables file (some (.empty accountSchema)) pending administrators) :
    (db.insert engine "Registered".toList "W_ID, W_USER, W_PASS, W_MAIL, W_KEY".toList
        (defaultAdministrator sha1)).2.database =
      file.set "Registered".toList (defaultRegistered engine.toBackend sha1) := by
  subst hfile
  have hdigest := (isValue_of_hex (getOutput_spec sha1 "wh33spaAdm1n".toList).2).not_mem.2.2
  have htext : '\x00' ∉ insertText "Registered".toList
      "W_ID, W_USER, W_PASS, W_MAIL, W_KEY".toList (defaultAdministrator sha1) := by
    apply not_mem_insertText
    · repeat rw [String.toList_ofList]
      decide
    · simp only [defaultAdministrator, List.forall_mem_cons]
      exact ⟨by decide, by decide, hdigest, by decide, by decide, by simp⟩
  exact database_insert engine db htext (parse_insertAdministrator sha1)
    (run_insertAdministrator engine.toBackend sha1 h.registered)

theorem database_insertAdministrators (engine : Engine) (sha1 : Sha1) {db : FlexDB}
    {file : Database} {pending : Option Table} (hfile : db.database = file)
    (h : HasTables file (some (defaultRegistered engine.toBackend sha1)) pending
      (some (.empty administratorSchema))) :
    (db.insert engine "Administrators".toList "ID, W_USER".toList
        ["1".toList, "wAdministrator".toList]).2.database =
      file.set "Administrators".toList defaultAdministrators := by
  subst hfile
  obtain ⟨htext, hparse⟩ := parse_insertAdministrators
  exact database_insert engine db htext hparse
    (run_insertAdministrators engine.toBackend sha1 h.administrators h.registered)

/-- The three tables with the default administrator, in the order in which they are written. -/
def preparedFile (backend : Backend) (sha1 : Sha1) : Database :=
  ((((newFile.set "Registered".toList (.empty accountSchema)).set
    "PendingRegistrations".toList (.empty accountSchema)).set
    "Administrators".toList (.empty administratorSchema)).set
    "Registered".toList (defaultRegistered backend sha1)).set
    "Administrators".toList defaultAdministrators

/-- What `prepareDatabase` leaves in a new file. -/
theorem database_prepareDatabase (engine : Engine) (sha1 : Sha1) :
    (prepareDatabase engine sha1 newFile).database = preparedFile engine.toBackend sha1 := by
  have hpragma : '\x00' ∉ "PRAGMA foreign_keys = '1'".toList ∧
      parse "PRAGMA foreign_keys = '1'".toList = some [.foreignKeys true] := by
    rw [String.toList_ofList]
    exact ⟨by decide, rfl⟩
  have hopen : ((FlexDB.openFile newFile).execQuery engine
      "PRAGMA foreign_keys = '1'".toList).2.database = newFile := by
    rw [FlexDB.database, dbHandle_execQuery engine _ hpragma.1 hpragma.2]
    rfl
  -- each step needs the tables that the steps before it have left
  have hnew : HasTables newFile none none none := ⟨rfl, rfl, rfl⟩
  have hregistered := hnew.setRegistered (.empty accountSchema)
  have hpending := hregistered.setPending (.empty accountSchema)
  have hadministrators := hpending.setAdministrators (.empty administratorSchema)
  have hinserted := hadministrators.setRegistered (defaultRegistered engine.toBackend sha1)
  have hcreated := database_createAdministrators engine (database_createPending engine
    (database_createRegistered engine hopen hnew) hregistered) hpending
  exact database_insertAdministrators engine sha1
    (database_insertRegistered engine sha1 hcreated hadministrators) hinserted

/-- The three tables of that file. -/
theorem preparedFile_tables (backend : Backend) (sha1 : Sha1) :
    HasTables (preparedFile backend sha1) (some (defaultRegistered backend sha1))
      (some (.empty accountSchema)) (some defaultAdministrators) := by
  have hnew : HasTables newFile none none none := ⟨rfl, rfl, rfl⟩
  have hcreated := ((hnew.setRegistered (.empty accountSchema)).setPending
    (.empty accountSchema)).setAdministrators (.empty administratorSchema)
  exact (hcreated.setRegistered _).setAdministrators _

/-- The accounts in the database that `prepareDatabase` leaves in a new file. -/
theorem accounts_prepareDatabase (engine : Engine) (sha1 : Sha1) :
    let database := (prepareDatabase engine sha1 newFile).database
    Prepared database ∧
      accounts database "Registered" = [defaultAccount engine.toBackend sha1] ∧
      accounts database "PendingRegistrations" = [] ∧
      administrators database = ["wAdministrator".toList] := by
  rw [database_prepareDatabase]
  obtain ⟨hregistered, hpending, hadministrators⟩ := preparedFile_tables engine.toBackend sha1
  refine ⟨⟨⟨_, hregistered, rfl⟩, ⟨_, hpending, rfl⟩, ⟨_, hadministrators, rfl⟩⟩, ?_, ?_, ?_⟩
  · rw [accounts, hregistered]
    rfl
  · rw [accounts, hpending]
    rfl
  · rw [administrators, hadministrators]
    rfl

end Wheespa
