import Mathlib.Data.List.Nodup
import Mathlib.Logic.Function.Basic

/-!
# Tables

Values, columns and tables. A `Table` carries the proof that its rows meet its schema: every row has
one value for each column, the value fits the column, and the values of a unique column are
distinct. `Table.insert` therefore succeeds exactly when the table with the new row still meets its
constraints, and deleting rows needs no check.
-/

namespace Wheespa.Sql

/-- The name of a table or a column. -/
abbrev Name := List Char

/-- Names are compared without regard to case. -/
def fold (name : Name) : Name :=
  name.map Char.toLower

/-- A stored value. -/
inductive Value where
  | null
  | integer (n : Int)
  | text (t : List Char)
  deriving DecidableEq, Repr

/-- The affinity of a column. -/
inductive Affinity where
  | integer
  | text
  deriving DecidableEq, Repr

/-- A column. A `rowid` column is an integer primary key. -/
structure Column where
  name : Name
  affinity : Affinity
  notNull : Bool
  unique : Bool
  rowid : Bool
  deriving DecidableEq, Repr

/-- The names of the identity of a row. -/
def isRowidName (name : Name) : Bool :=
  fold name ∈ ["rowid".toList, "oid".toList, "_rowid_".toList]

/-- A column whose values are keys of another table. -/
structure ForeignKey where
  column : Name
  parent : Name
  parentColumn : Name
  deriving DecidableEq, Repr

/-- The columns and foreign keys of a table. -/
structure Schema where
  columns : List Column
  foreignKeys : List ForeignKey
  deriving DecidableEq, Repr

/-- A row has its values in the order of the columns. -/
abbrev Row := List Value

/-- The value can be stored in the column. -/
def Column.fits (column : Column) : Value → Bool
  | .null => !column.notNull && !column.rowid
  | .integer _ => column.affinity == .integer
  | .text _ => !column.rowid

/-- The values that are not null. -/
def nonNull (values : List Value) : List Value :=
  values.filter (· != .null)

namespace Schema

/-- The position of a column. -/
def index? (schema : Schema) (name : Name) : Option Nat :=
  schema.columns.findIdx? fun column => fold column.name == fold name

/-- The position of the column that a name denotes in a table: the row identity has names of its
own, where no column has them. -/
def lookup? (schema : Schema) (name : Name) : Option Nat :=
  (schema.index? name).or
    (if isRowidName name then schema.columns.findIdx? Column.rowid else none)

/-- The values of a column that are not null. -/
def column (schema : Schema) (rows : List Row) (name : Name) : List Value :=
  match schema.index? name with
  | some index => nonNull (rows.filterMap fun row => row[index]?)
  | none => []

/-- The rows meet the constraints of the columns. -/
structure Valid (schema : Schema) (rows : List Row) : Prop where
  fits : ∀ row ∈ rows, List.Forall₂ (fun column value => column.fits value = true)
    schema.columns row
  unique : ∀ column ∈ schema.columns.zipIdx, column.1.unique = true →
    (nonNull (rows.filterMap fun row => row[column.2]?)).Nodup

instance (schema : Schema) (rows : List Row) : Decidable (schema.Valid rows) :=
  @decidable_of_iff _
    ((∀ row ∈ rows, List.Forall₂ (fun column value => column.fits value = true)
        schema.columns row) ∧
      ∀ column ∈ schema.columns.zipIdx, column.1.unique = true →
        (nonNull (rows.filterMap fun row => row[column.2]?)).Nodup)
    ⟨fun h => ⟨h.1, h.2⟩, fun h => ⟨h.1, h.2⟩⟩
    (@instDecidableAnd _ _ (List.decidableBAll _ _) (List.decidableBAll _ _))

/-- No row violates a constraint. -/
theorem Valid.nil (schema : Schema) : schema.Valid [] :=
  ⟨by simp, by simp [nonNull]⟩

/-- A single row that fits the columns violates no constraint. -/
theorem Valid.singleton {schema : Schema} {row : Row} (h : List.Forall₂
    (fun column value => column.fits value = true) schema.columns row) : schema.Valid [row] := by
  refine ⟨by simpa using h, fun column _ _ => List.Nodup.filter _ ?_⟩
  cases hvalue : row[column.2]? <;> simp [hvalue]

/-- Rows that are left out violate no constraint. -/
theorem Valid.sublist {schema : Schema} {rows rows' : List Row} (h : schema.Valid rows)
    (hsub : rows'.Sublist rows) : schema.Valid rows' :=
  ⟨fun row hrow => h.fits row (hsub.subset hrow), fun column hcolumn hunique =>
    (h.unique column hcolumn hunique).sublist ((hsub.filterMap _).filter _)⟩

/-- The order of the rows does not matter to the constraints. -/
theorem Valid.perm {schema : Schema} {rows rows' : List Row} (h : schema.Valid rows)
    (hperm : rows'.Perm rows) : schema.Valid rows' :=
  ⟨fun row hrow => h.fits row (hperm.subset hrow), fun column hcolumn hunique =>
    ((hperm.filterMap _).filter _).nodup_iff.mpr (h.unique column hcolumn hunique)⟩

/-- One more row that fits the columns violates no constraint exactly where its values in the unique
columns are new. -/
theorem Valid.concat_iff {schema : Schema} {rows : List Row} {row : Row} (h : schema.Valid rows)
    (hrow : List.Forall₂ (fun column value => column.fits value = true) schema.columns row) :
    schema.Valid (rows ++ [row]) ↔ ∀ column ∈ schema.columns.zipIdx, column.1.unique = true →
      ∀ value ∈ row[column.2]?, value ≠ .null →
        value ∉ rows.filterMap fun row => row[column.2]? := by
  have hcolumn (index : Nat) :
      (nonNull (rows.filterMap fun row => row[index]?)).Nodup →
        ((nonNull ((rows ++ [row]).filterMap fun row => row[index]?)).Nodup ↔
          ∀ value ∈ row[index]?, value ≠ .null →
            value ∉ rows.filterMap fun row => row[index]?) := by
    intro hnodup
    rw [List.filterMap_append, nonNull, List.filter_append]
    cases hvalue : row[index]? with
    | none => simpa [hvalue, nonNull] using hnodup
    | some value =>
        by_cases hnull : value = .null
        · simpa [hvalue, hnull, nonNull] using hnodup
        · have hlast : [row].filterMap (fun row => row[index]?) = [value] := by
            simp [hvalue]
          have hkept : [value].filter (· != .null) = [value] := by
            simp [hnull]
          rw [hlast, hkept, ← List.concat_eq_append, List.nodup_concat]
          simp only [Option.mem_some_iff, forall_eq', List.mem_filter, bne_iff_ne]
          constructor
          · intro hnew _ hmem
            exact hnew.1 ⟨hmem, hnull⟩
          · intro hnew
            exact ⟨fun hmem => hnew hnull hmem.1, hnodup⟩
  constructor
  · intro hvalid column hmem hunique
    exact (hcolumn column.2 (h.unique column hmem hunique)).mp (hvalid.unique column hmem hunique)
  · intro hnew
    refine ⟨?_, fun column hmem hunique => ?_⟩
    · rw [List.forall_mem_append, List.forall_mem_singleton]
      exact ⟨h.fits, hrow⟩
    · exact (hcolumn column.2 (h.unique column hmem hunique)).mpr (hnew column hmem hunique)

end Schema

/-- A table: rows that meet the schema. -/
structure Table where
  schema : Schema
  rows : List Row
  valid : schema.Valid rows

namespace Table

/-- A table without rows. -/
def empty (schema : Schema) : Table :=
  ⟨schema, [], .nil schema⟩

/-- The table with one more row, if no constraint fails. -/
def insert (table : Table) (row : Row) : Option Table :=
  if h : table.schema.Valid (table.rows ++ [row]) then some ⟨table.schema, _, h⟩ else none

/-- The table with the rows that `keep` accepts. -/
def filter (table : Table) (keep : Row → Bool) : Table :=
  ⟨table.schema, table.rows.filter keep, table.valid.sublist List.filter_sublist⟩

/-- The table with its rows in another order. -/
def reorder (table : Table) {rows : List Row} (hperm : rows.Perm table.rows) : Table :=
  ⟨table.schema, rows, table.valid.perm hperm⟩

/-- The values of a column that are not null. -/
def column (table : Table) (name : Name) : List Value :=
  table.schema.column table.rows name

/-- A completed insertion appends its row. -/
theorem insert_eq_some {table result : Table} {row : Row} (h : table.insert row = some result) :
    result.schema = table.schema ∧ result.rows = table.rows ++ [row] := by
  obtain ⟨_, h⟩ := Option.dite_none_right_eq_some.mp h
  obtain rfl := Option.some.inj h
  exact ⟨rfl, rfl⟩

/-- A row that fits the columns can be inserted into a table without rows. -/
theorem insert_empty {schema : Schema} {row : Row} (h : List.Forall₂
    (fun column value => column.fits value = true) schema.columns row) :
    (empty schema).insert row = some ⟨schema, [row], .singleton h⟩ :=
  dif_pos (.singleton h)

/-- Nothing is deleted where every row is kept. -/
theorem filter_eq_self {table : Table} {keep : Row → Bool}
    (h : ∀ row ∈ table.rows, keep row = true) : table.filter keep = table := by
  obtain ⟨schema, rows, valid⟩ := table
  have hrows : rows.filter keep = rows := List.filter_eq_self.mpr h
  simp only [filter, hrows]

/-- Nothing is deleted exactly where every row is kept. -/
theorem filter_eq_self_iff {table : Table} {keep : Row → Bool} :
    table.filter keep = table ↔ ∀ row ∈ table.rows, keep row = true :=
  ⟨fun h => List.filter_eq_self.mp (congrArg Table.rows h), filter_eq_self⟩

/-- What is deleted depends on the rows of the table only. -/
theorem filter_congr {table : Table} {keep keep' : Row → Bool}
    (h : ∀ row ∈ table.rows, keep row = keep' row) : table.filter keep = table.filter keep' := by
  have hrows : table.rows.filter keep = table.rows.filter keep' := List.filter_congr h
  simp only [filter, hrows]

end Table

/-- The tables of a database, by folded name. -/
abbrev Database := Name → Option Table

namespace Database

/-- The table of a name. -/
def table? (database : Database) (name : Name) : Option Table :=
  database (fold name)

/-- The rows of the table of a name. -/
def rows (database : Database) (name : Name) : List Row :=
  ((database.table? name).map Table.rows).getD []

/-- The database with another table for a name. -/
def set (database : Database) (name : Name) (table : Table) : Database :=
  Function.update database (fold name) (some table)

@[simp] theorem table?_set_self (database : Database) (name : Name) (table : Table) :
    (database.set name table).table? name = some table := by
  simp [table?, set]

/-- Assigning to a table does not concern the tables of other names. -/
theorem table?_set_of_ne {name other : Name} (h : fold other ≠ fold name) (database : Database)
    (table : Table) : (database.set name table).table? other = database.table? other := by
  simp [table?, set, h]

/-- Assigning to a table what it is changes nothing. -/
theorem set_eq_self {database : Database} {name : Name} {table : Table}
    (h : database.table? name = some table) : database.set name table = database :=
  Function.update_eq_self_iff.mpr h.symm

end Database

end Wheespa.Sql
