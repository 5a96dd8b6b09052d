import Mathlib.Algebra.Group.Int.Defs
import Mathlib.Algebra.Group.Nat.Defs
import Mathlib.Data.List.Sections
import Wheespa.Library.Sql.Syntax

/-!
# The meaning of statements

Names are resolved before a statement runs: a column is named without regard to case, a name that
two tables of a query have is ambiguous, the names of the row identity are known where there is a
single table, and a text in double quotes that names no column is a string. A comparison converts
its operands by the affinity of the columns among them. An insertion that breaks a constraint and a
statement that names what does not exist fail and change nothing.

`Backend` collects what the fragment leaves open. An `Engine` is any implementation that runs the
texts of the fragment as `run` says; nothing is assumed about its behaviour on other texts.
-/

namespace Wheespa.Sql

/-- What an implementation decides: how texts and numbers convert, which identity a new row gets, in
which order the rows of a query come and what a deletion does to the tables that reference its
rows. -/
structure Backend where
  /-- The integer that a text converts to under numeric affinity. -/
  numericOf : List Char → Option Int
  /-- A canonical decimal denotes its number. -/
  numericOf_toString : ∀ n : Nat, n < 2 ^ 63 → numericOf (Nat.toDigits 10 n) = some n
  /-- The text of a number written with these digits that exceeds the integers. -/
  realText : List Char → List Char
  /-- The identity of a new row next to rows of the given identities. -/
  newRowid : List Int → Option Int
  /-- A new identity is not in use. -/
  newRowid_fresh : ∀ ids id, newRowid ids = some id → id ∉ ids
  /-- The choices of rows that a query has found, in the order in which they come. -/
  arrange : Database → Query → List (List Row) → List (List Row)
  /-- Each of them comes once. -/
  arrange_perm : ∀ database query chosen, (arrange database query chosen).Perm chosen
  /-- What enforcing foreign keys does after the deletion of rows of a table. -/
  cascade : Database → Name → List Row → Database

/-! ## Names and values -/

/-- An operand after its names have been resolved. -/
inductive Term where
  | column (table index : Nat) (affinity : Affinity)
  | literal (value : Value)
  deriving DecidableEq, Repr

/-- The tables that a condition may refer to, with their labels. -/
abbrev Scope := List (Name × Schema)

/-- The position of the column of a name in one table of a scope. -/
def Scope.find (scope : Scope) (schema : Schema) (name : Name) : Option Nat :=
  if scope.length = 1 then schema.lookup? name else schema.index? name

/-- The columns of a name in a scope. -/
def candidates (scope : Scope) (name : Name) : List Term :=
  scope.zipIdx.filterMap fun entry => do
    let index ← scope.find entry.1.2 name
    let column ← entry.1.2.columns[index]?
    some (.column entry.2 index column.affinity)

/-- The column of a name, if exactly one table of the scope has it. -/
def uniqueColumn (scope : Scope) (name : Name) : Option Term :=
  match candidates scope name with
  | [term] => some term
  | _ => none

/-- The number that digits denote, as a stored value. -/
def numberValue (backend : Backend) (negative : Bool) (digits : List Char) : Value :=
  let n := Nat.ofDigitChars 10 digits 0
  if n < 2 ^ 63 then .integer (if negative then -n else n)
  else .text (backend.realText digits)

/-- Name resolution. The result is `none` where there is no such column or several. -/
def resolve (backend : Backend) (scope : Scope) : Operand → Option Term
  | .column none name => uniqueColumn scope name
  | .column (some table) name =>
      match scope.findIdx? (fun entry => fold entry.1 == fold table) with
      | some i => do
          let entry ← scope[i]?
          let index ← entry.2.lookup? name
          let column ← entry.2.columns[index]?
          some (.column i index column.affinity)
      | none => none
  | .quoted text =>
      -- an ambiguous name is an error, not a string
      if candidates scope text = [] then some (.literal (.text text)) else uniqueColumn scope text
  | .string text => some (.literal (.text text))
  | .number negative digits => some (.literal (numberValue backend negative digits))

/-- The value of a term, for one row of each table of the scope. -/
def Term.eval (rows : List Row) : Term → Value
  | .column table index _ => (rows[table]?.bind fun row => row[index]?).getD .null
  | .literal value => value

/-- The affinity of a term. -/
def Term.affinity? : Term → Option Affinity
  | .column _ _ affinity => some affinity
  | .literal _ => none

/-- The canonical decimal of an integer. -/
def integerText : Int → List Char
  | .ofNat n => Nat.toDigits 10 n
  | .negSucc n => '-' :: Nat.toDigits 10 (n + 1)

/-- Conversion under text affinity. -/
def toText : Value → Value
  | .integer n => .text (integerText n)
  | value => value

/-- Conversion under numeric affinity. -/
def toNumeric (backend : Backend) : Value → Value
  | .text t => ((backend.numericOf t).map Value.integer).getD (.text t)
  | value => value

/-- The value as a column of the affinity stores it. -/
def Affinity.store (backend : Backend) : Affinity → Value → Value
  | .integer => toNumeric backend
  | .text => toText

/-- The values are equal, and not null. -/
def same (a b : Value) : Bool :=
  a != .null && a == b

@[simp] theorem same_text (a b : List Char) : same (.text a) (.text b) = (a == b) := by
  rw [Bool.eq_iff_iff]
  simp [same]

@[simp] theorem same_integer (a b : Int) : same (.integer a) (.integer b) = (a == b) := by
  rw [Bool.eq_iff_iff]
  simp [same]

@[simp] theorem same_null_right (a : Value) : same a .null = false := by
  cases a <;> rfl

@[simp] theorem same_text_integer (a : List Char) (b : Int) :
    same (.text a) (.integer b) = false := rfl

/-- An equation between resolved operands. -/
structure Equation where
  left : Term
  right : Term
  deriving DecidableEq, Repr

/-- The equation is true: the affinity of one side converts the other. -/
def Equation.holds (backend : Backend) (rows : List Row) (equation : Equation) : Bool :=
  let left := equation.left.eval rows
  let right := equation.right.eval rows
  match equation.left.affinity?, equation.right.affinity? with
  | some .integer, some .integer => same left right
  | some .integer, _ => same left (toNumeric backend right)
  | _, some .integer => same (toNumeric backend left) right
  | some .text, none => same left (toText right)
  | none, some .text => same (toText left) right
  | some .text, some .text | none, none => same left right

/-- Name resolution in a condition. -/
def resolveCondition (backend : Backend) (scope : Scope) (condition : Condition) :
    Option (List (List Equation)) :=
  condition.mapM fun part => part.mapM fun comparison => do
    some ⟨← resolve backend scope comparison.left, ← resolve backend scope comparison.right⟩

/-- The condition is true. -/
def holds (backend : Backend) (condition : List (List Equation)) (rows : List Row) : Bool :=
  condition.any fun part => part.all (Equation.holds backend rows)

/-! ## Statements -/

/-- A value of a result row, with the name of its column. -/
abbrev ResultCell := Name × Value

/-- The name of a result column. -/
def Operand.name : Operand → Name
  | .column _ name | .quoted name | .string name | .number _ name => name

/-- The result rows of a query: every choice of one row of each table that meets the condition. -/
def Query.run (backend : Backend) (database : Database) (query : Query) :
    Option (List (List ResultCell)) := do
  let tables ← query.tables.mapM fun ref => database.table? ref.table
  let scope := (query.tables.map TableRef.label).zip (tables.map Table.schema)
  let condition ← resolveCondition backend scope query.condition
  let chosen := backend.arrange database query
    ((tables.map Table.rows).sections.filter (holds backend condition))
  match query.columns with
  | none =>
      let names := tables.flatMap fun table => table.schema.columns.map Column.name
      some (chosen.map fun rows => names.zip rows.flatten)
  | some columns => do
      let terms ← columns.mapM (resolve backend scope)
      some (chosen.map fun rows => (columns.map Operand.name).zip (terms.map (Term.eval rows)))

/-- The integers in a column. -/
def Table.rowids (table : Table) (index : Nat) : List Int :=
  table.rows.filterMap fun (row : Row) =>
    match row[index]? with
    | some (.integer id) => some id
    | _ => none

/-- The value that a column gets in a new row. -/
def newValue (backend : Backend) (table : Table) (assigned : List (Nat × Value))
    (column : Column × Nat) : Option Value :=
  match (assigned.find? fun entry => entry.1 == column.2).map Prod.snd with
  | some .null | none =>
      if column.1.rowid then
        (backend.newRowid (table.rowids column.2)).map .integer
      else some .null
  | some value => some (column.1.affinity.store backend value)

/-- The table with a new row that has the given values in the given columns. -/
def insertRow (backend : Backend) (columns : List Name) (table : Table) (values : List Value) :
    Option Table := do
  let indices ← columns.mapM table.schema.lookup?
  if indices.length = values.length then do
    let row ← table.schema.columns.zipIdx.mapM (newValue backend table (indices.zip values))
    table.insert row
  else none

/-- Every foreign key of the rows is a key of its parent. -/
def foreignKeysHold (database : Database) (schema : Schema) (rows : List Row) : Bool :=
  schema.foreignKeys.all fun foreignKey =>
    (schema.column rows foreignKey.column).all fun value =>
      match database.table? foreignKey.parent with
      | some parent => (parent.column foreignKey.parentColumn).contains value
      | none => false

/-- The foreign keys of the rows that a table has beyond those it had hold. -/
def newKeysHold (database : Database) (table grown : Table) : Bool :=
  foreignKeysHold database grown.schema (grown.rows.drop table.rows.length)

/-- A connection to a database. -/
structure Session where
  database : Database
  enforced : Bool

/-- The effect of a statement and its result rows, or `none` where it fails. -/
def Statement.run (backend : Backend) (session : Session) :
    Statement → Option (Session × List (List ResultCell))
  | .select query => do
      let rows ← query.run backend session.database
      some (session, rows)
  | .insertValues name columns values => do
      let table ← session.database.table? name
      let terms ← values.mapM (resolve backend [])
      let grown ← insertRow backend columns table (terms.map (Term.eval []))
      if !session.enforced || newKeysHold session.database table grown then
        some ({ session with database := session.database.set name grown }, [])
      else none
  | .insertSelect name columns query => do
      let table ← session.database.table? name
      let _ ← columns.mapM table.schema.lookup?
      let rows ← query.run backend session.database
      let grown ← (rows.map (·.map Prod.snd)).foldlM (insertRow backend columns) table
      if !session.enforced || newKeysHold session.database table grown then
        some ({ session with database := session.database.set name grown }, [])
      else none
  | .delete name condition => do
      let table ← session.database.table? name
      let condition ← resolveCondition backend [(name, table.schema)] condition
      let gone := table.rows.filter fun row => holds backend condition [row]
      let database := session.database.set name
        (table.filter fun row => !holds backend condition [row])
      some ({ session with
        database := if session.enforced then backend.cascade database name gone else database }, [])
  | .createTable name schema =>
      match session.database.table? name with
      | some _ => some (session, [])
      | none => some ({ session with
          database := session.database.set name (.empty schema) }, [])
  | .foreignKeys enforced => some ({ session with enforced }, [])

/-- What running a text leaves: the session, the result rows and whether every statement ran. -/
structure Answer where
  session : Session
  rows : List (List ResultCell)
  ok : Bool

/-- Statements run in order, up to the first that fails. -/
def run (backend : Backend) : Session → List Statement → Answer
  | session, [] => ⟨session, [], true⟩
  | session, statement :: rest =>
      match statement.run backend session with
      | none => ⟨session, [], false⟩
      | some (session, rows) =>
          let answer := run backend session rest
          { answer with rows := rows ++ answer.rows }

/-- An implementation: on the texts of the fragment it does what the statements mean. -/
structure Engine extends Backend where
  exec : Session → List Char → Answer
  exec_eq : ∀ session text statements, parse text = some statements →
    exec session text = run toBackend session statements

/-- The identity of a row is at most the largest of the table. -/
theorem le_foldr_max {ids : List Int} {id : Int} (h : id ∈ ids) : id ≤ ids.foldr max 0 := by
  induction ids with
  | nil => simp at h
  | cons first ids ih =>
      rw [List.foldr_cons]
      rcases List.mem_cons.mp h with rfl | h
      · omega
      · have hrest := ih h
        omega

/-- An executable implementation: it does nothing on a text that is not in the fragment. -/
def Engine.reference (cascade : Database → Name → List Row → Database) : Engine :=
  let backend : Backend := {
    numericOf := fun text =>
      if !text.isEmpty && text.all Char.isDigit then some (Nat.ofDigitChars 10 text 0) else none
    numericOf_toString := by
      intro n _
      have hdigits : (Nat.toDigits 10 n).all Char.isDigit = true :=
        List.all_eq_true.mpr fun c hc => Nat.isDigit_of_mem_toDigits (by decide) (by decide) hc
      simp [hdigits, Nat.toDigits_ne_nil]
    realText := id
    newRowid := fun ids => some (ids.foldr max 0 + 1)
    newRowid_fresh := by
      rintro ids id ⟨⟩ hmem
      exact absurd (le_foldr_max hmem) (by omega)
    arrange := fun _ _ chosen => chosen
    arrange_perm := fun _ _ _ => .refl _
    cascade := cascade }
  { backend with
    exec := fun session text =>
      match parse text with
      | some statements => run backend session statements
      | none => ⟨session, [], false⟩
    exec_eq := by
      intro session text statements hparse
      simp [hparse] }

/-- The executable implementation whose deletions do not reach other tables. -/
def Engine.plain : Engine :=
  .reference fun database _ _ => database

/-! ## Rules -/

/-- The executable implementation does nothing on a text that is not in the fragment. -/
theorem Engine.plain_exec_of_none {text : List Char} (h : parse text = none) (session : Session) :
    Engine.plain.exec session text = ⟨session, [], false⟩ := by
  simp only [plain, reference, h]

/-- A query whose names resolve has a result row exactly when some choice of rows meets its
condition. -/
theorem Query.exists_rows {backend : Backend} {database : Database} {query : Query}
    {tables : List Table} {condition : List (List Equation)}
    (htables : query.tables.mapM (fun ref => database.table? ref.table) = some tables)
    (hcondition : resolveCondition backend
      ((query.tables.map TableRef.label).zip (tables.map Table.schema)) query.condition =
        some condition)
    (hcolumns : ∀ columns ∈ query.columns, (columns.mapM (resolve backend
      ((query.tables.map TableRef.label).zip (tables.map Table.schema)))).isSome) :
    ∃ rows, query.run backend database = some rows ∧
      (rows ≠ [] ↔ ∃ chosen, List.Forall₂ (· ∈ ·) chosen (tables.map Table.rows) ∧
        holds backend condition chosen = true) := by
  have hchosen : backend.arrange database query
        ((tables.map Table.rows).sections.filter (holds backend condition)) ≠ [] ↔
      ∃ chosen, List.Forall₂ (· ∈ ·) chosen (tables.map Table.rows) ∧
        holds backend condition chosen = true := by
    simp [List.eq_nil_iff_forall_not_mem, (backend.arrange_perm _ _ _).mem_iff,
      List.mem_sections]
  -- the result columns are computed for each choice, so that they decide nothing
  cases hselected : query.columns with
  | none =>
      refine ⟨_, by
        simp only [Query.run, htables, hcondition, hselected, Option.bind_eq_bind, Option.bind_some]
        rfl, ?_⟩
      rw [Ne, List.map_eq_nil_iff]
      exact hchosen
  | some columns =>
      obtain ⟨terms, hterms⟩ := Option.isSome_iff_exists.mp (hcolumns columns hselected)
      refine ⟨_, by
        simp only [Query.run, htables, hcondition, hselected, hterms, Option.bind_eq_bind,
          Option.bind_some]
        rfl, ?_⟩
      rw [Ne, List.map_eq_nil_iff]
      exact hchosen

/-- A query with a name that does not resolve fails. -/
theorem Query.run_eq_none {backend : Backend} {database : Database} {query : Query}
    {tables : List Table}
    (htables : query.tables.mapM (fun ref => database.table? ref.table) = some tables)
    (hcondition : resolveCondition backend
      ((query.tables.map TableRef.label).zip (tables.map Table.schema)) query.condition = none) :
    query.run backend database = none := by
  simp only [Query.run, htables, hcondition, Option.bind_eq_bind, Option.bind_some,
    Option.bind_none]

/-- A choice from one table is a row of it. -/
theorem exists_choice_one {rows : List Row} {p : List Row → Prop} :
    (∃ chosen, List.Forall₂ (· ∈ ·) chosen [rows] ∧ p chosen) ↔ ∃ row ∈ rows, p [row] := by
  simp only [List.forall₂_cons_right_iff, List.forall₂_nil_right_iff]
  constructor
  · rintro ⟨_, ⟨row, _, hrow, rfl, rfl⟩, hp⟩
    exact ⟨row, hrow, hp⟩
  · rintro ⟨row, hrow, hp⟩
    exact ⟨_, ⟨row, _, hrow, rfl, rfl⟩, hp⟩

/-- A choice from two tables is a pair of rows. -/
theorem exists_choice_two {rows rows' : List Row} {p : List Row → Prop} :
    (∃ chosen, List.Forall₂ (· ∈ ·) chosen [rows, rows'] ∧ p chosen) ↔
      ∃ row ∈ rows, ∃ row' ∈ rows', p [row, row'] := by
  simp only [List.forall₂_cons_right_iff, List.forall₂_nil_right_iff]
  constructor
  · rintro ⟨_, ⟨row, _, hrow, ⟨row', _, hrow', rfl, rfl⟩, rfl⟩, hp⟩
    exact ⟨row, hrow, row', hrow', hp⟩
  · rintro ⟨row, hrow, row', hrow', hp⟩
    exact ⟨_, ⟨row, _, hrow, ⟨row', _, hrow', rfl, rfl⟩, rfl⟩, hp⟩

/-- A single choice comes as it is. -/
theorem Backend.arrange_singleton (backend : Backend) (database : Database) (query : Query)
    (chosen : List Row) : backend.arrange database query [chosen] = [chosen] :=
  List.perm_singleton.mp (backend.arrange_perm database query [chosen])

/-- The choices from one table come as its rows in some order. -/
theorem Backend.exists_arranged (backend : Backend) (database : Database) (query : Query)
    (rows : List Row) :
    ∃ order : List Row, order.Perm rows ∧
      backend.arrange database query (rows.map fun row => [row]) =
        order.map fun row => [row] := by
  have hperm := backend.arrange_perm database query (rows.map fun row => [row])
  have hsingle : ∀ chosen ∈ backend.arrange database query (rows.map fun row => [row]),
      [chosen.headD []] = chosen := by
    intro chosen hmem
    obtain ⟨row, _, rfl⟩ := List.mem_map.mp (hperm.mem_iff.mp hmem)
    rfl
  have hrows : (rows.map fun row => [row]).map (fun chosen => chosen.headD []) = rows := by
    simp [Function.comp_def]
  refine ⟨_, (hperm.map fun chosen => chosen.headD []).trans (.of_eq hrows), ?_⟩
  rw [List.map_map]
  exact (List.map_id _).symm.trans
    (List.map_congr_left fun chosen hmem => (hsingle chosen hmem).symm)

/-- A query for all columns of one table, without a condition, gives its rows in some order. -/
theorem Query.run_all (backend : Backend) {database : Database} {name : Name} {table : Table}
    (htable : database.table? name = some table) (label : Name) :
    ∃ (order : List Row) (hperm : order.Perm table.rows),
      Query.run backend database ⟨none, [⟨name, label⟩], [[]]⟩ =
        some ((table.reorder hperm).rows.map fun row =>
          ((table.reorder hperm).schema.columns.map Column.name).zip row) := by
  obtain ⟨order, hperm, horder⟩ :=
    backend.exists_arranged database ⟨none, [⟨name, label⟩], [[]]⟩ table.rows
  refine ⟨order, hperm, ?_⟩
  rw [Table.reorder]
  have hcondition (scope : Scope) : resolveCondition backend scope [[]] = some [[]] := rfl
  -- there is nothing to hold, so that every row is chosen
  have hchosen : [table.rows].sections.filter (holds backend [[]]) =
      table.rows.map fun row => [row] := by
    have hall : ∀ rows ∈ [table.rows].sections, holds backend [[]] rows = true := fun _ _ => rfl
    rw [List.filter_eq_self.mpr hall]
    simp [List.sections]
  simp only [Query.run, List.mapM_cons, List.mapM_nil, htable, hcondition, Option.bind_eq_bind,
    Option.bind_some, Option.pure_def, List.map_cons, List.map_nil, List.flatMap_cons,
    List.flatMap_nil, List.append_nil, hchosen, horder, List.map_map, Function.comp_def,
    List.flatten_singleton]

/-- Running a single query changes nothing. -/
theorem run_select (backend : Backend) (session : Session) (query : Query) :
    run backend session [.select query] =
      ⟨session, (query.run backend session.database).getD [],
        (query.run backend session.database).isSome⟩ := by
  cases hrun : query.run backend session.database <;> simp [run, Statement.run, hrun]

/-- A single statement that fails changes nothing. -/
theorem run_singleton_none {backend : Backend} {session : Session} {statement : Statement}
    (h : statement.run backend session = none) :
    run backend session [statement] = ⟨session, [], false⟩ := by
  simp [run, h]

/-- A single statement that does not fail has its effect. -/
theorem run_singleton_some {backend : Backend} {session : Session} {statement : Statement}
    {result : Session × List (List ResultCell)} (h : statement.run backend session = some result) :
    run backend session [statement] = ⟨result.1, result.2, true⟩ := by
  simp [run, h]

/-- After a statement that does not fail the rest is run. -/
theorem session_run_cons {backend : Backend} {session : Session} {statement : Statement}
    {result : Session × List (List ResultCell)} (h : statement.run backend session = some result)
    (rest : List Statement) :
    (run backend session (statement :: rest)).session = (run backend result.1 rest).session := by
  simp [run, h]

/-- Without foreign keys, a deletion does not concern the tables of other names. -/
theorem run_delete_other (backend : Backend) {name other : Name} (hne : fold other ≠ fold name)
    (database : Database) (condition : Condition) :
    (run backend ⟨database, false⟩ [.delete name condition]).session.database.table? other =
      database.table? other := by
  cases hrun : (Statement.delete name condition).run backend ⟨database, false⟩ with
  | none => rw [run_singleton_none hrun]
  | some result =>
      rw [run_singleton_some hrun]
      simp only [Statement.run, Option.bind_eq_bind, Option.bind_eq_some_iff,
        Option.some.injEq] at hrun
      obtain ⟨table, _, resolved, _, rfl⟩ := hrun
      exact Database.table?_set_of_ne hne database _

/-- A column that is assigned a value stores it. -/
theorem newValue_assigned (backend : Backend) (table : Table) {assigned : List (Nat × Value)}
    {column : Column × Nat} {index : Nat} {value : Value}
    (h : assigned.find? (fun entry => entry.1 == column.2) = some (index, value))
    (hvalue : value ≠ .null) :
    newValue backend table assigned column = some (column.1.affinity.store backend value) := by
  cases value with
  | null => exact absurd rfl hvalue
  | integer n => simp [newValue, h]
  | text t => simp [newValue, h]

/-- A row identity that is not assigned is new. -/
theorem newValue_rowid (backend : Backend) (table : Table) {assigned : List (Nat × Value)}
    {column : Column × Nat} (h : assigned.find? (fun entry => entry.1 == column.2) = none)
    (hrowid : column.1.rowid = true) :
    newValue backend table assigned column =
      (backend.newRowid (table.rowids column.2)).map .integer := by
  simp [newValue, h, hrowid]

/-- A row is inserted with the values that its columns get. -/
theorem insertRow_eq (backend : Backend) {columns : List Name} {table : Table}
    {values : List Value} {indices : List Nat}
    (hindices : columns.mapM table.schema.lookup? = some indices)
    (hlength : indices.length = values.length) :
    insertRow backend columns table values =
      (table.schema.columns.zipIdx.mapM (newValue backend table (indices.zip values))).bind
        table.insert := by
  simp only [insertRow, hindices, Option.bind_eq_bind, Option.bind_some, hlength, if_true]

/-- There is a result for each element of the list. -/
theorem length_of_mapM {α β : Type} {f : α → Option β} {xs : List α} {ys : List β}
    (h : xs.mapM f = some ys) : ys.length = xs.length := by
  induction xs generalizing ys with
  | nil =>
      obtain rfl := Option.some.inj h
      rfl
  | cons x xs ih =>
      rw [List.mapM_cons] at h
      obtain ⟨y, _, h⟩ := Option.bind_eq_some_iff.mp h
      obtain ⟨rest, hrest, h⟩ := Option.bind_eq_some_iff.mp h
      obtain rfl := Option.some.inj h
      exact congrArg Nat.succ (ih hrest)

/-- The row that an insertion of values into columns of a table adds. -/
def newRow (backend : Backend) (columns : List Name) (table : Table) (values : List Value) :
    Option Row := do
  let indices ← columns.mapM table.schema.lookup?
  table.schema.columns.zipIdx.mapM (newValue backend table (indices.zip values))

/-- One value for each column is inserted as a new row. -/
theorem insertRow_eq_newRow (backend : Backend) {columns : List Name} (table : Table)
    {values : List Value} (hlength : columns.length = values.length) :
    insertRow backend columns table values =
      (newRow backend columns table values).bind table.insert := by
  unfold newRow
  cases hindices : columns.mapM table.schema.lookup? with
  | none => simp [insertRow, hindices]
  | some indices =>
      rw [insertRow_eq backend hindices ((length_of_mapM hindices).trans hlength)]
      rfl

/-- After an insertion the foreign keys of the inserted row are tested. -/
theorem newKeysHold_insert (database : Database) {table grown : Table} {row : Row}
    (h : table.insert row = some grown) :
    newKeysHold database table grown = foreignKeysHold database table.schema [row] := by
  obtain ⟨hschema, hrows⟩ := Table.insert_eq_some h
  rw [newKeysHold, hschema, hrows, List.drop_left]

/-- A table without foreign keys has none to test. -/
theorem newKeysHold_of_nil (database : Database) {table grown : Table} {row : Row}
    (h : table.insert row = some grown) (hnone : table.schema.foreignKeys = []) :
    newKeysHold database table grown = true := by
  rw [newKeysHold_insert database h, foreignKeysHold, hnone, List.all_nil]

/-- A completed insertion into a table appends rows to that table, and changes nothing else. -/
theorem run_insertValues {backend : Backend} {session : Session} {name : Name}
    {columns : List Name} {values : List Operand} {result : Session × List (List ResultCell)}
    (h : Statement.run backend session (.insertValues name columns values) = some result) :
    ∃ table table', session.database.table? name = some table ∧ table.rows <+: table'.rows ∧
      result = ({ session with database := session.database.set name table' }, []) := by
  simp only [Statement.run, Option.bind_eq_bind, Option.bind_eq_some_iff,
    Option.ite_none_right_eq_some, Option.some.injEq] at h
  obtain ⟨table, htable, terms, _, table', hinsert, _, rfl⟩ := h
  refine ⟨table, table', htable, ?_, rfl⟩
  simp only [insertRow, Option.bind_eq_bind, Option.bind_eq_some_iff,
    Option.ite_none_right_eq_some] at hinsert
  obtain ⟨indices, _, _, row, _, hinsert⟩ := hinsert
  rw [(Table.insert_eq_some hinsert).2]
  exact List.prefix_append _ _

/-- In a query of one table, a text in double quotes that names no column is a string. -/
theorem resolve_quoted_string (backend : Backend) {label : Name} {schema : Schema}
    {text : List Char} (h : schema.lookup? text = none) :
    resolve backend [(label, schema)] (.quoted text) = some (.literal (.text text)) := by
  simp [resolve, candidates, Scope.find, h]

/-- In a query of one table, a text in double quotes that names a column is that column. -/
theorem resolve_quoted_column (backend : Backend) {label : Name} {schema : Schema}
    {text : List Char} {index : Nat} {column : Column} (h : schema.lookup? text = some index)
    (hcolumn : schema.columns[index]? = some column) :
    resolve backend [(label, schema)] (.quoted text) =
      some (.column 0 index column.affinity) := by
  simp [resolve, candidates, uniqueColumn, Scope.find, h, hcolumn]

/-- In a query of two tables that both have the column, a text in double quotes that names it is
ambiguous. -/
theorem resolve_quoted_ambiguous (backend : Backend) {label label' : Name} {schema : Schema}
    {text : List Char} {index : Nat} {column : Column} (h : schema.index? text = some index)
    (hcolumn : schema.columns[index]? = some column) :
    resolve backend [(label, schema), (label', schema)] (.quoted text) = none := by
  simp [resolve, candidates, uniqueColumn, Scope.find, List.zipIdx, h, hcolumn]

/-- In a query of two tables without the column, a text in double quotes is a string. -/
theorem resolve_quoted_string_two (backend : Backend) {label label' : Name} {schema : Schema}
    {text : List Char} (h : schema.index? text = none) :
    resolve backend [(label, schema), (label', schema)] (.quoted text) =
      some (.literal (.text text)) := by
  simp [resolve, candidates, Scope.find, List.zipIdx, h]

end Wheespa.Sql
