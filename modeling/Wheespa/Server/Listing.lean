import Wheespa.Server.AdminRights
import Wheespa.TableListing

/-!
# Listing a table

The three commands that show a table read all of it into strings. A string cannot be constructed
from the null pointer that stands for a null, and `W_KEY` may be null; the service loop takes the
exception for a disconnect of the administrator. `listed_iff` says when the command is answered.
-/

namespace Wheespa

open Sql

/-- The table that a command shows. -/
def AdminCommand.shown : AdminCommand → Option String
  | .getAdmins => some "Administrators"
  | .getPending => some "PendingRegistrations"
  | .getRegistered => some "Registered"
  | .addAdmin | .acceptRegistration | .openChannel | .removeAdmin | .removeRegistered => none

/-- The text is that of a table with every cell of every row, aligned. The rows come in the order of
the implementation. -/
def Renders (table : Table) (text : Str) : Prop :=
  ∃ (shown : TableSt) (order : List Row), order.Perm table.rows ∧ text = drawTable (some shown) ∧
    shown.rowCount = order.length ∧
    (∀ (i k : Nat) (row : Row) value, order[k]? = some row → row[i]? = some value →
      ∃ column cell, shown.rows[i]? = some column ∧ column[k]? = some cell ∧
        FlexDB.cellText value = some cell) ∧
    ∃ head body start width, Aligned shown text head body start width

/-- A message on the stream `ss` is answered with all rows of the table, and nothing else happens:
no exception is thrown, and the entry of the sender is as it was. -/
def TableListed (engine : Engine) (sha1 : Sha1) (server : Server) (action : Action)
    (ss : SocketStream) (table : Table) : Prop :=
  ∃ reaction text, server.react engine sha1 action = some reaction ∧ reaction.server = server ∧
    reaction.written = [(ss, text)] ∧ Renders table text

/-! ## Reading a table -/

/-- A computation that fails on an element fails on the list. -/
theorem mapM_eq_none {α β : Type} {f : α → Option β} {xs : List α} {x : α} (hx : x ∈ xs)
    (h : f x = none) : xs.mapM f = none := by
  induction xs with
  | nil => cases hx
  | cons first xs ih =>
      rw [List.mapM_cons]
      rcases List.mem_cons.mp hx with rfl | hx
      · rw [h]
        rfl
      · rw [ih hx]
        cases f first <;> rfl

/-- The cell of a value that is not null is a string. -/
theorem exists_cellText {value : Value} (h : value ≠ .null) :
    ∃ cell, FlexDB.cellText value = some cell := by
  cases value with
  | null => exact (h rfl).elim
  | integer n => exact ⟨_, rfl⟩
  | text t => exact ⟨_, rfl⟩

/-- The string at a place of a row, and the empty one where there is none. -/
def cellAt (row : Row) (i : Nat) : Str :=
  (row[i]?.bind FlexDB.cellText).getD []

/-- In a row without nulls every place has its string. -/
theorem cellText_eq_cellAt {row : Row} (hrow : Value.null ∉ row) {i : Nat} {value : Value}
    (h : row[i]? = some value) : FlexDB.cellText value = some (cellAt row i) := by
  have hvalue : value ≠ .null := by
    rintro rfl
    exact hrow (List.mem_of_getElem? h)
  obtain ⟨cell, hcell⟩ := exists_cellText hvalue
  rw [cellAt, h, Option.bind_some, hcell, Option.getD_some]

/-- The names of the columns in an answer: none where there is no row. -/
def shownNames (table : Table) : List Str :=
  if table.rows.isEmpty then [] else table.schema.columns.map Column.name

/-- The columns of a table as strings. -/
def shownColumns (table : Table) : List (Str × List Str) :=
  (List.range (shownNames table).length).map fun i =>
    ((shownNames table).getD i [], table.rows.map fun row => cellAt row i)

/-- The structure that is read from a table without nulls. -/
def listing (table : Table) : TableSt :=
  ⟨shownNames table, (shownColumns table).map Prod.snd, table.rows.length,
    (shownNames table).length⟩

/-- The rows of an answer, with the names of their columns. -/
def answerRows (table : Table) : List (List ResultCell) :=
  table.rows.map fun row => (table.schema.columns.map Column.name).zip row

/-- A row has a value for each column. -/
theorem length_row {table : Table} {row : Row} (h : row ∈ table.rows) :
    row.length = (table.schema.columns.map Column.name).length := by
  rw [List.length_map, (table.valid.fits row h).length_eq]

/-- The names that come with the rows of an answer. -/
theorem head?_answerRows (table : Table) :
    ((answerRows table).head?.map fun row => row.map Prod.fst).getD [] = shownNames table := by
  unfold answerRows shownNames
  cases hrows : table.rows with
  | nil => rfl
  | cons row rows =>
      have hrow := length_row (show row ∈ table.rows by rw [hrows]; exact List.mem_cons_self)
      exact List.map_fst_zip (Nat.le_of_eq hrow.symm)

/-- A row of a table has a value at each of the places that are read. -/
theorem exists_value_at {table : Table} {row : Row} (h : row ∈ table.rows) {i : Nat}
    (hi : i < (shownNames table).length) :
    ∃ value, row[i]? = some value ∧
      (((table.schema.columns.map Column.name).zip row)[i]?.map Prod.snd) = some value := by
  have hnames : shownNames table = table.schema.columns.map Column.name := by
    unfold shownNames
    cases hrows : table.rows with
    | nil =>
        rw [hrows] at h
        cases h
    | cons _ _ => rfl
  rw [hnames] at hi
  have hlength : i < row.length := by rwa [length_row h]
  have hvalue : row[i]? = some row[i] := List.getElem?_eq_getElem hlength
  refine ⟨_, hvalue, ?_⟩
  rw [← List.getElem?_map, List.map_snd_zip (Nat.le_of_eq (length_row h)), hvalue]

/-- The strings of a column are read where none of its values is null. -/
theorem mapM_column {table : Table} (hnull : ∀ row ∈ table.rows, Value.null ∉ row) {i : Nat}
    (hi : i < (shownNames table).length) :
    ((answerRows table).mapM fun row => row[i]?.bind fun cell => FlexDB.cellText cell.2) =
      some (table.rows.map fun row => cellAt row i) := by
  rw [answerRows, List.mapM_map]
  refine mapM_eq_map fun row hrow => ?_
  obtain ⟨value, hvalue, hcell⟩ := exists_value_at hrow hi
  obtain ⟨cell, hat, hsnd⟩ := Option.map_eq_some_iff.mp hcell
  rw [Function.comp_apply, hat, Option.bind_some, hsnd]
  exact cellText_eq_cellAt (hnull row hrow) hvalue

/-- The strings of a column are not read where one of its values is null. -/
theorem mapM_column_of_null {table : Table} {row : Row} (hrow : row ∈ table.rows) {i : Nat}
    (hi : i < (shownNames table).length) (hnull : row[i]? = some .null) :
    ((answerRows table).mapM fun row => row[i]?.bind fun cell => FlexDB.cellText cell.2) =
      none := by
  refine mapM_eq_none (List.mem_map_of_mem hrow) ?_
  obtain ⟨value, hvalue, hcell⟩ := exists_value_at hrow hi
  obtain ⟨cell, hat, hsnd⟩ := Option.map_eq_some_iff.mp hcell
  obtain rfl : Value.null = value := Option.some.inj (hnull.symm.trans hvalue)
  rw [hat, Option.bind_some, hsnd]
  rfl

/-- The tables that are shown. -/
def shownTables : List String :=
  ["Administrators", "PendingRegistrations", "Registered"]

/-- The text that reads a table. -/
def selectAll (name : String) : Str :=
  "select * from ".toList ++ name.toList

/-- The statement of that text. -/
theorem parse_selectAll {name : String} (hname : name ∈ shownTables) :
    cStr (selectAll name) = selectAll name ∧
      parse (selectAll name) = some [.select ⟨none, [⟨name.toList, name.toList⟩], [[]]⟩] := by
  have hall : ∀ name ∈ shownTables, cStr (selectAll name) = selectAll name ∧
      parse (selectAll name) = some [.select ⟨none, [⟨name.toList, name.toList⟩], [[]]⟩] := by
    decide +kernel
  exact hall name hname

section Reading

variable (engine : Engine) {file : Database} {name : String} {table : Table}

/-- The answer to that text. -/
theorem execQuery_selectAll (hname : name ∈ shownTables)
    (htable : file.table? name.toList = some table) :
    ∃ (order : List Row) (hperm : order.Perm table.rows),
      (FlexDB.openFile file).execQuery engine (selectAll name) =
        (⟨⟨file, false⟩, answerRows (table.reorder hperm), true⟩,
          { FlexDB.openFile file with executed := [selectAll name] }) := by
  obtain ⟨htext, hparse⟩ := parse_selectAll hname
  obtain ⟨order, hperm, hquery⟩ := Query.run_all engine.toBackend htable name.toList
  refine ⟨order, hperm, ?_⟩
  simp only [FlexDB.execQuery, FlexDB.openFile, htext, engine.exec_eq _ _ _ hparse, run_select,
    hquery, Option.getD_some, Option.isSome_some, List.nil_append]
  rfl

/-- A table without nulls is read. -/
theorem setTableStructure_listing (hname : name ∈ shownTables)
    (htable : file.table? name.toList = some table)
    (hnull : ∀ row ∈ table.rows, Value.null ∉ row) :
    ∃ (order : List Row) (hperm : order.Perm table.rows),
      (FlexDB.openFile file).setTableStructure engine name.toList =
        (some true, { FlexDB.openFile file with
          dbTable := some (listing (table.reorder hperm)), executed := [selectAll name] }) := by
  obtain ⟨order, hperm, hexec⟩ := execQuery_selectAll engine hname htable
  refine ⟨order, hperm, ?_⟩
  generalize hshown : table.reorder hperm = shown at hexec
  have hnull' : ∀ row ∈ shown.rows, Value.null ∉ row := by
    intro row hrow
    rw [← hshown] at hrow
    exact hnull row (hperm.subset hrow)
  have hcells : ((List.range (shownNames shown).length).mapM fun i =>
      (answerRows shown).mapM fun row => row[i]?.bind fun cell => FlexDB.cellText cell.2) =
      some ((shownColumns shown).map Prod.snd) := by
    rw [shownColumns, List.map_map]
    exact mapM_eq_map fun i hi => mapM_column hnull' (List.mem_range.mp hi)
  unfold selectAll at hexec
  have hcount : (answerRows shown).length = shown.rows.length := List.length_map ..
  simp only [FlexDB.setTableStructure, hexec, Bool.not_true, Bool.false_eq_true, if_false,
    head?_answerRows, hcells, hcount]
  rfl

/-- Reading a table with a null throws. -/
theorem setTableStructure_of_null (hname : name ∈ shownTables)
    (htable : file.table? name.toList = some table) {row : Row} (hrow : row ∈ table.rows)
    (hnull : Value.null ∈ row) :
    (FlexDB.openFile file).setTableStructure engine name.toList =
      (none, { FlexDB.openFile file with executed := [selectAll name] }) := by
  obtain ⟨i, hi⟩ := List.mem_iff_getElem?.mp hnull
  obtain ⟨order, hperm, hexec⟩ := execQuery_selectAll engine hname htable
  have hrow' : row ∈ (table.reorder hperm).rows := hperm.symm.subset hrow
  generalize table.reorder hperm = shown at hexec hrow'
  have hlength : i < (shownNames shown).length := by
    rw [shownNames, if_neg (by simp [List.ne_nil_of_mem hrow']), ← length_row hrow']
    exact (List.getElem?_eq_some_iff.mp hi).1
  have hcells : ((List.range (shownNames shown).length).mapM fun i =>
      (answerRows shown).mapM fun row => row[i]?.bind fun cell => FlexDB.cellText cell.2) = none :=
    mapM_eq_none (List.mem_range.mpr hlength) (mapM_column_of_null hrow' hlength hi)
  unfold selectAll at hexec
  simp only [FlexDB.setTableStructure, hexec, Bool.not_true, Bool.false_eq_true, if_false,
    head?_answerRows, hcells]
  rfl

end Reading

/-- The text of what is read from a table without nulls, in any order, has all its rows. -/
theorem renders_listing {table : Table} {order : List Row} (hperm : order.Perm table.rows)
    (hnull : ∀ row ∈ table.rows, Value.null ∉ row) :
    Renders table (drawTable (some (listing (table.reorder hperm)))) := by
  have hnull' : ∀ row ∈ (table.reorder hperm).rows, Value.null ∉ row :=
    fun row hrow => hnull row (hperm.subset hrow)
  have horder : (table.reorder hperm).rows.Perm table.rows := hperm
  generalize table.reorder hperm = shown at hnull' horder
  have hnames : (shownColumns shown).map Prod.fst = shownNames shown := by
    rw [shownColumns, List.map_map]
    refine List.ext_getElem (by simp) fun i _ hi => ?_
    rw [List.getElem_map, List.getElem_range, Function.comp_apply, List.getD_eq_getElem?_getD,
      List.getElem?_eq_getElem hi]
    rfl
  have hlength : (shownColumns shown).length = (shownNames shown).length := by
    simp [shownColumns]
  refine ⟨listing shown, shown.rows, horder, rfl, rfl, fun i k row value hrow hvalue => ?_, ?_⟩
  · have hmem := List.mem_of_getElem? hrow
    have hi : i < (shownNames shown).length := by
      rw [shownNames, if_neg (by simp [List.ne_nil_of_mem hmem]), ← length_row hmem]
      exact (List.getElem?_eq_some_iff.mp hvalue).1
    refine ⟨shown.rows.map fun row => cellAt row i, cellAt row i, ?_, ?_,
      cellText_eq_cellAt (hnull' row hmem) hvalue⟩
    · simp [listing, shownColumns, List.getElem?_range hi]
    · rw [List.getElem?_map, hrow]
      rfl
  · have haligned := @aligned_drawTable (shownColumns shown) shown.rows.length
      (by simp [shownColumns])
    rw [hnames, hlength] at haligned
    exact ⟨_, _, _, _, haligned⟩

/-! ## Answering -/

/-- What `handleAdmin` does with a command that shows a table. -/
theorem handleAdmin_of_shown {engine : Engine} {memory : Int → Str} {self : HandleReceived}
    (hadmin : self.user.isAdmin = true) {command : AdminCommand}
    (hcommand : self.adminCmd = some command) {name : String} (hshown : command.shown = some name) :
    self.handleAdmin engine memory = self.showTable engine name.toList := by
  simp only [HandleReceived.handleAdmin, hadmin, hcommand, Bool.not_true, Bool.false_eq_true,
    if_false]
  cases command with
  | getAdmins | getPending | getRegistered =>
      obtain rfl := Option.some.inj hshown
      rfl
  | addAdmin | acceptRegistration | openChannel | removeAdmin | removeRegistered => cases hshown

/-- A command that shows a table shows one of the three. -/
theorem AdminCommand.shown_mem {command : AdminCommand} {name : String}
    (h : command.shown = some name) : name ∈ shownTables := by
  cases command with
  | getAdmins | getPending | getRegistered =>
      obtain rfl := Option.some.inj h
      decide
  | addAdmin | acceptRegistration | openChannel | removeAdmin | removeRegistered => cases h

section Answer

variable {recvd digits : Str} {command : AdminCommand} {name : String} {server : Server}
  {table : Table} {path : Path} {user : WheespaConnected} {ss : SocketStream}

/-- A table without nulls is listed. -/
theorem Asks.listed (hasks : Asks recvd command digits) (hshown : command.shown = some name)
    (htable : server.database.table? name.toList = some table)
    (hnull : ∀ row ∈ table.rows, Value.null ∉ row)
    (hget : server.tree.node.get? path = some (user, false)) (hadmin : user.isAdmin = true)
    (hstream : user.sockStream = some ss) (engine : Engine) (sha1 : Sha1)
    (connType : Option ConnectType) (adminCmd : Option AdminCommand) (memory : Int → Str)
    (time : Int) :
    TableListed engine sha1 server (.message path recvd connType adminCmd memory time) ss
      table := by
  obtain ⟨groups, -, hreact⟩ :=
    hasks.react_handleAdmin engine sha1 hget connType adminCmd memory time
  obtain ⟨order, hperm, hread⟩ :=
    setTableStructure_listing engine (AdminCommand.shown_mem hshown) htable hnull
  have hhandle := @handleAdmin_of_shown engine memory
    ⟨some groups, user, .openFile server.database, some .administrate, some command, [], false⟩
    hadmin command rfl name hshown
  simp only [HandleReceived.showTable, hread, HandleReceived.write, hstream, Option.map_some,
    Option.bind_eq_bind, Option.bind_some, List.nil_append] at hhandle
  exact ⟨_, drawTable (some (listing (table.reorder hperm))), hreact _ _ hhandle, rfl, rfl,
    renders_listing hperm hnull⟩

/-- Where the table has a null, nothing is written and the entry of the administrator is flagged. -/
theorem Asks.dropped (hasks : Asks recvd command digits) (hshown : command.shown = some name)
    (htable : server.database.table? name.toList = some table) {row : Row}
    (hrow : row ∈ table.rows) (hnull : Value.null ∈ row)
    (hget : server.tree.node.get? path = some (user, false)) (hadmin : user.isAdmin = true)
    (engine : Engine) (sha1 : Sha1) (connType : Option ConnectType)
    (adminCmd : Option AdminCommand) (memory : Int → Str) (time : Int) :
    server.react engine sha1 (.message path recvd connType adminCmd memory time) =
      some ⟨{ server with tree := server.tree.markOverwrite path }, none, [selectAll name],
        []⟩ := by
  obtain ⟨groups, -, hreact⟩ :=
    hasks.react_handleAdmin engine sha1 hget connType adminCmd memory time
  have hread := setTableStructure_of_null engine (AdminCommand.shown_mem hshown) htable hrow hnull
  have hhandle := @handleAdmin_of_shown engine memory
    ⟨some groups, user, .openFile server.database, some .administrate, some command, [], false⟩
    hadmin command rfl name hshown
  simp only [HandleReceived.showTable, hread] at hhandle
  exact hreact _ _ hhandle

end Answer

/-- The row of an account has a null where the account has no key. -/
theorem null_mem_toRow_iff (account : Account) :
    Value.null ∈ account.toRow ↔ account.key = none := by
  obtain ⟨id, user, pass, mail, _ | key⟩ := account <;> simp [Account.toRow]

/-- The table that is shown, and where it has no null: `W_KEY` is the only column that may be null,
and `Administrators` does not have it. -/
theorem Prepared.shown {database : Database} (hdb : Prepared database) {command : AdminCommand}
    {name : String} (hshown : command.shown = some name) :
    ∃ table, database.table? name.toList = some table ∧
      ((∀ row ∈ table.rows, Value.null ∉ row) ↔ (command ≠ .getAdmins →
        ∀ account ∈ accounts database name, account.key ≠ none)) := by
  have haccounts {name : String} {table : Table}
      (htable : database.table? name.toList = some table) (hschema : table.schema = accountSchema) :
      (∀ row ∈ table.rows, Value.null ∉ row) ↔
        ∀ account ∈ accounts database name, account.key ≠ none := by
    rw [rows_eq_accounts htable hschema, List.forall_mem_map]
    simp only [null_mem_toRow_iff, ne_eq]
  cases command with
  | getAdmins =>
      obtain rfl := Option.some.inj hshown
      obtain ⟨table, htable, hschema⟩ := hdb.administrators
      refine ⟨table, htable, iff_of_true (fun row hrow => ?_) fun h => absurd rfl h⟩
      obtain ⟨id, name, rfl⟩ := exists_administrator (hschema ▸ table.valid.fits row hrow)
      simp
  | getPending =>
      obtain rfl := Option.some.inj hshown
      obtain ⟨table, htable, hschema⟩ := hdb.pending
      exact ⟨table, htable, (haccounts htable hschema).trans
        ⟨fun h _ => h, fun h => h (by decide)⟩⟩
  | getRegistered =>
      obtain rfl := Option.some.inj hshown
      obtain ⟨table, htable, hschema⟩ := hdb.registered
      exact ⟨table, htable, (haccounts htable hschema).trans
        ⟨fun h _ => h, fun h => h (by decide)⟩⟩
  | addAdmin | acceptRegistration | openChannel | removeAdmin | removeRegistered => cases hshown

/-- Over every content of the tables that `prepareDatabase` creates, a live administrator's command
that shows a table is answered with all rows, without an exception and with the entry of the
administrator as it was, exactly where no account of the table has a null key; for `GET_ADMINS`
that is always so. -/
theorem listed_iff {recvd digits : Str} {command : AdminCommand}
    (hasks : Asks recvd command digits) {name : String} (hshown : command.shown = some name)
    (engine : Engine) (sha1 : Sha1) {server : Server} (hdb : Prepared server.database)
    {path : Path} {user : WheespaConnected} {ss : SocketStream}
    (hget : server.tree.node.get? path = some (user, false)) (hadmin : user.isAdmin = true)
    (hstream : user.sockStream = some ss) (connType : Option ConnectType)
    (adminCmd : Option AdminCommand) (memory : Int → Str) (time : Int) :
    ∃ table, server.database.table? name.toList = some table ∧
      (TableListed engine sha1 server (.message path recvd connType adminCmd memory time) ss table ↔
        (command ≠ .getAdmins →
          ∀ account ∈ accounts server.database name, account.key ≠ none)) := by
  obtain ⟨table, htable, hnull⟩ := hdb.shown hshown
  refine ⟨table, htable, ?_⟩
  rw [← hnull]
  constructor
  · rintro ⟨reaction, text, hreact, _, hwritten, _⟩ row hrow hmem
    have hdropped := hasks.dropped hshown htable hrow hmem hget hadmin engine sha1 connType
      adminCmd memory time
    obtain rfl := Option.some.inj (hdropped.symm.trans hreact)
    cases hwritten
  · intro hnone
    exact hasks.listed hshown htable hnone hget hadmin hstream engine sha1 connType adminCmd
      memory time

/-- The users of a server all of whose accounts have a key are listed. -/
theorem listed_twoUsers : ∃ table, twoUsers.table? "Registered".toList = some table ∧
    TableListed .plain constantSha1 twoUsersServer
      (.message [] "WHEESPA_ADMINISTRATE::GET_REGISTERED:::x::::1".toList none none
        (fun _ => []) 0) 0 table := by
  have hasks : Asks "WHEESPA_ADMINISTRATE::GET_REGISTERED:::x::::1".toList .getRegistered
      ['1'] := by
    decide +kernel
  obtain ⟨table, htable, hiff⟩ := @listed_iff _ _ _ hasks _ rfl .plain constantSha1 twoUsersServer
    prepared_twoUsers [] _ _ rfl rfl rfl none none (fun _ => []) 0
  exact ⟨table, htable, hiff.mpr fun _ => by decide +kernel⟩

/-- A user whose account has no key. -/
def keyless : Account :=
  ⟨2, "bob".toList, "ABABAB".toList, "b@x.y".toList, none⟩

/-- The tables that `prepareDatabase` creates, with such a user among the registered ones. -/
def keylessUsers : Database :=
  twoUsers.set "Registered".toList ⟨accountSchema, [keyless.toRow],
    (valid_accounts_iff [_]).mpr (by decide)⟩

/-- An administrator who asks for the users gets nothing and is taken off line. -/
theorem not_listed_keyless : ∃ reaction table,
    (⟨twoUsersServer.tree, keylessUsers, 0, false⟩ : Server).react .plain constantSha1
      (.message [] "WHEESPA_ADMINISTRATE::GET_REGISTERED:::x::::1".toList none none
        (fun _ => []) 0) = some reaction ∧
    reaction.written = [] ∧
    reaction.server.tree.node.get? [] = some (⟨"root".toList, some 0, true, true, []⟩, true) ∧
    Prepared keylessUsers ∧ keylessUsers.table? "Registered".toList = some table ∧
    ¬ TableListed .plain constantSha1 ⟨twoUsersServer.tree, keylessUsers, 0, false⟩
      (.message [] "WHEESPA_ADMINISTRATE::GET_REGISTERED:::x::::1".toList none none
        (fun _ => []) 0) 0 table := by
  have hasks : Asks "WHEESPA_ADMINISTRATE::GET_REGISTERED:::x::::1".toList .getRegistered
      ['1'] := by
    decide +kernel
  have htable := twoUsers.table?_set_self "Registered".toList ⟨accountSchema, [keyless.toRow],
    (valid_accounts_iff [_]).mpr (by decide)⟩
  have hdropped := @Asks.dropped _ _ _ _ ⟨twoUsersServer.tree, keylessUsers, 0, false⟩ _ [] _ hasks
    rfl htable _ (.head _) ((null_mem_toRow_iff keyless).mpr rfl) rfl rfl .plain constantSha1 none
    none (fun _ => []) 0
  refine ⟨_, _, hdropped, rfl, rfl, ⟨⟨_, htable, rfl⟩, ⟨_, rfl, rfl⟩, ⟨_, rfl, rfl⟩⟩, htable, ?_⟩
  rintro ⟨reaction, text, hreact, _, hwritten, _⟩
  obtain rfl := Option.some.inj (hdropped.symm.trans hreact)
  cases hwritten

end Wheespa
