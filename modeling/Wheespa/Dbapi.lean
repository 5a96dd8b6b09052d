import Wheespa.Library.Sql.Semantics
import Wheespa.WheespaTree

/-!
# The database interface of `dbapi.cc`

`FlexDB` builds the texts of its statements and hands them to SQLite, which is an `Sql.Engine`. The
texts handed over are kept in `executed`, in order.
-/

namespace Wheespa

open Sql

/-- The characters of a string up to the first null character, as `c_str()` passes them on. -/
def cStr (s : Str) : Str :=
  s.takeWhile (· != '\x00')

/-- `table_st`: the columns of a table and, for each of them, its cells. -/
structure TableSt where
  columns : List Str
  rows : List (List Str)
  rowCount : Nat
  colCount : Nat
  deriving DecidableEq, Repr

/-- The class `FlexDB`. The connection of `db_handle` is a session of the engine. -/
structure FlexDB where
  dbHandle : Session
  dbQuoteParams : Bool
  dbTable : Option TableSt
  executed : List Str

/-- `is_all_digit`. -/
def isAllDigit (str : Str) : Bool :=
  str.all Char.isDigit

namespace FlexDB

/-- The constructor `FlexDB(db_file_name)`. Foreign keys are not enforced on a new connection. -/
def openFile (database : Database) : FlexDB :=
  ⟨⟨database, false⟩, false, none, []⟩

/-- The content of the database file. -/
def database (db : FlexDB) : Database :=
  db.dbHandle.database

/-- `execQuery`: the answer, whose rows are those that the callback is called with. -/
def execQuery (engine : Engine) (db : FlexDB) (query : Str) : Answer × FlexDB :=
  let answer := engine.exec db.dbHandle (cStr query)
  (answer, { db with dbHandle := answer.session, executed := db.executed ++ [cStr query] })

/-- What `vec_to_str` appends for a value, before the comma. -/
def quoteParam (dbQuoteParams : Bool) (value : Str) : Str :=
  if dbQuoteParams then
    if isAllDigit value && !value.isEmpty then value else '"' :: (value ++ ['"'])
  else value

/-- `vec_to_str`. -/
def vecToStr (db : FlexDB) (vec : List Str) : Str × FlexDB :=
  ((vec.flatMap fun value => quoteParam db.dbQuoteParams value ++ [',']).dropLast,
    { db with dbQuoteParams := false })

/-- `insert`. -/
def insert (engine : Engine) (db : FlexDB) (table columns : Str) (values : List Str) :
    Answer × FlexDB :=
  let (text, db) := vecToStr { db with dbQuoteParams := true } values
  execQuery engine db ("insert into ".toList ++ table ++ "(".toList ++ columns ++
    ") values(".toList ++ text ++ ")".toList)

/-- `deleteRecord`. -/
def deleteRecord (engine : Engine) (db : FlexDB) (table condition : Str) : Answer × FlexDB :=
  execQuery engine db ("delete from ".toList ++ table ++ " where ".toList ++ condition)

/-- `createTable`. -/
def createTable (engine : Engine) (db : FlexDB) (table : Str) (colmns : List Str) :
    Answer × FlexDB :=
  let (text, db) := vecToStr { db with dbQuoteParams := false } colmns
  execQuery engine db ("create table if not exists ".toList ++ table ++ "(".toList ++ text ++
    ")".toList)

/-- The text that `sqlite3_get_table` gives for a value: a null pointer for a null, and a string
that ends at the first null character otherwise. -/
def cellText : Value → Option Str
  | .null => none
  | .integer n => some (integerText n)
  | .text t => some (cStr t)

/-- `setTableStructure`. `sqlite3_get_table` answers with the column names and the cells of the
rows, or with no column where there is no row. The result is `none` where a string is constructed
from a null pointer, which throws. -/
def setTableStructure (engine : Engine) (db : FlexDB) (table : Str) : Option Bool × FlexDB :=
  let (answer, db) := db.execQuery engine ("select * from ".toList ++ table)
  if !answer.ok then (some false, { db with dbTable := none })
  else
    let columns := (answer.rows.head?.map fun row => row.map Prod.fst).getD []
    let cells := (List.range columns.length).mapM fun i => answer.rows.mapM fun row =>
      (row[i]?.bind fun cell => cellText cell.2)
    match cells with
    | none => (none, db)
    | some rows =>
        (some true, { db with dbTable := some ⟨columns, rows, answer.rows.length, columns.length⟩ })

/-- `getTableStructure`. -/
def getTableStructure (db : FlexDB) : Option TableSt :=
  db.dbTable

end FlexDB

/-! ## Drawing a table -/

/-- The function `center` of `dbapi_out.cc`. -/
def center (str : Str) (size : Nat) : Str :=
  if str.length ≥ size then str
  else
    let fill := size - str.length
    List.replicate (fill / 2) ' ' ++ str ++ List.replicate (fill / 2) ' '

/-- A cell cut or filled to the width of its column. -/
def fit (str : Str) (width : Nat) : Str :=
  if str.length > width then str.take width
  else str ++ List.replicate (width - str.length) ' '

/-- The width of a column: its longest cell or its name. -/
def colDraw (name : Str) (cells : List Str) : Nat :=
  (cells.map List.length).foldl max name.length

/-- `operator <<` for a table: its head, its rows and an empty line. -/
def drawTable : Option TableSt → Str
  | none => []
  | some table =>
      let widths := List.zipWith colDraw table.columns table.rows
      let head := (table.columns.zip widths).flatMap fun column =>
        fit (if column.1.length > column.2 then column.1 else center column.1 column.2) column.2 ++
          " | ".toList
      let body := (List.range table.rowCount).flatMap fun j =>
        " | ".toList ++ ((table.rows.zip widths).flatMap fun column =>
          fit (column.1.getD j []) column.2 ++ " | ".toList) ++ ['\n']
      " | ".toList ++ head ++ ['\n'] ++ body ++ ['\n']

end Wheespa
