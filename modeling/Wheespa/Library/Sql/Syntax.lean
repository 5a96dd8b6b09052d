import Wheespa.Library.Sql.Lexer
import Wheespa.Library.Sql.Table

/-!
# Statements

The statements of the fragment and their grammar. A text is a sequence of statements separated by
semicolons; `parse` gives `none` for a text that is not in the fragment, whether it is an error in
SQL or not.
-/

namespace Wheespa.Sql

/-- An operand of a comparison, a column of a result or a value of an insertion. A text in double
quotes may turn out to be a column or a string. -/
inductive Operand where
  | column (table : Option Name) (name : Name)
  | quoted (text : List Char)
  | string (text : List Char)
  | number (negative : Bool) (digits : List Char)
  deriving DecidableEq, Repr

/-- An equation between operands. -/
structure Comparison where
  left : Operand
  right : Operand
  deriving DecidableEq, Repr

/-- A disjunction of conjunctions. -/
abbrev Condition := List (List Comparison)

/-- A table of a query and the label it has there. -/
structure TableRef where
  table : Name
  label : Name
  deriving DecidableEq, Repr

/-- A `select`. All columns are selected where none are listed. -/
structure Query where
  columns : Option (List Operand)
  tables : List TableRef
  condition : Condition
  deriving DecidableEq, Repr

/-- A statement. -/
inductive Statement where
  | select (query : Query)
  | insertValues (table : Name) (columns : List Name) (values : List Operand)
  | insertSelect (table : Name) (columns : List Name) (query : Query)
  | delete (table : Name) (condition : Condition)
  | createTable (table : Name) (schema : Schema)
  | foreignKeys (enforced : Bool)
  deriving DecidableEq, Repr

/-! ## The grammar -/

/-- The token is the keyword, in any case. -/
def Token.is (keyword : String) : Token → Bool
  | .word text => fold text == keyword.toList
  | _ => false

/-- Words that are not names. -/
def reserved : List String :=
  ["select", "insert", "into", "values", "delete", "from", "where", "and", "or", "not", "null",
    "create", "table", "if", "exists", "primary", "key", "unique", "foreign", "references", "on",
    "pragma", "as", "join", "limit", "order", "group", "union", "true", "false"]

/-- A name. -/
def name? : Token → Option Name
  | .word text => if reserved.any (fun keyword => Token.is keyword (.word text)) then none
      else some text
  | _ => none

/-- An operand, from all of its tokens. -/
def operand? : List Token → Option Operand
  | [.quoted .double text] => some (.quoted text)
  | [.quoted .single text] => some (.string text)
  | [.number digits] => some (.number false digits)
  | [.symbol '-', .number digits] => some (.number true digits)
  | [name] => (name? name).map (.column none)
  | [table, .symbol '.', name] => do some (.column (some (← name? table)) (← name? name))
  | _ => none

/-- The pieces of a list between commas. -/
def commas (tokens : List Token) : List (List Token) :=
  tokens.splitOnP (· == .symbol ',')

/-- A list of names. -/
def names? (tokens : List Token) : Option (List Name) :=
  (commas tokens).mapM fun
    | [token] => name? token
    | _ => none

/-- An equation. -/
def comparison? (tokens : List Token) : Option Comparison :=
  match tokens.splitOnP (· == .symbol '=') with
  | [left, right] => do some ⟨← operand? left, ← operand? right⟩
  | _ => none

/-- A condition: `and` binds more tightly than `or`. -/
def condition? (tokens : List Token) : Option Condition :=
  (tokens.splitOnP (Token.is "or")).mapM fun part =>
    (part.splitOnP (Token.is "and")).mapM comparison?

/-- A table of a query. -/
def tableRef? : List Token → Option TableRef
  | [table] => do
      let table ← name? table
      some ⟨table, table⟩
  | [table, label] => do some ⟨← name? table, ← name? label⟩
  | _ => none

/-- The selected columns. -/
def columns? : List Token → Option (Option (List Operand))
  | [.symbol '*'] => some none
  | tokens => ((commas tokens).mapM operand?).map some

/-- A query, from the tokens after `select`. -/
def query? (tokens : List Token) : Option Query :=
  match tokens.splitOnP (Token.is "from") with
  | [columns, rest] =>
      match rest.splitOnP (Token.is "where") with
      | [tables] => do
          some ⟨← columns? columns, ← (commas tables).mapM tableRef?, [[]]⟩
      | [tables, condition] => do
          some ⟨← columns? columns, ← (commas tables).mapM tableRef?, ← condition? condition⟩
      | _ => none
  | _ => none

/-- The constraints of a column. -/
def constraints? (column : Column) : List Token → Option Column
  | [] => some column
  | .word a :: .word b :: rest =>
      if Token.is "not" (.word a) && Token.is "null" (.word b) then
        constraints? { column with notNull := true } rest
      else if Token.is "primary" (.word a) && Token.is "key" (.word b) then
        if column.affinity == .integer then
          constraints? { column with unique := true, rowid := true } rest
        else none
      else if Token.is "unique" (.word a) then
        constraints? { column with unique := true } (.word b :: rest)
      else none
  | [.word a] =>
      if Token.is "unique" (.word a) then some { column with unique := true } else none
  | _ => none

/-- The affinity of a column type. -/
def affinity? (type : Token) : Option Affinity :=
  if type.is "integer" then some .integer
  else if type.is "char" || type.is "varchar" || type.is "text" then some .text
  else none

/-- The definition of a column or of a foreign key. -/
def definition? : List Token → Option (Column ⊕ ForeignKey)
  | .word foreign :: .word key :: .symbol '(' :: column :: .symbol ')' :: .word references ::
      parent :: .symbol '(' :: parentColumn :: .symbol ')' :: actions =>
      if Token.is "foreign" (.word foreign) && Token.is "key" (.word key) &&
          Token.is "references" (.word references) &&
          (actions.zip ["on", "delete", "cascade", "on", "update", "cascade"]).all
            (fun action => action.1.is action.2) && actions.length == 6 then do
        some (.inr ⟨← name? column, ← name? parent, ← name? parentColumn⟩)
      else none
  | name :: type :: .symbol '(' :: .number _ :: .symbol ')' :: rest => do
      some (.inl (← constraints? ⟨← name? name, ← affinity? type, false, false, false⟩ rest))
  | name :: type :: rest => do
      some (.inl (← constraints? ⟨← name? name, ← affinity? type, false, false, false⟩ rest))
  | _ => none

/-- A statement, from all of its tokens. -/
def statement? : List Token → Option Statement
  | .word verb :: rest =>
      if Token.is "select" (.word verb) then (query? rest).map .select
      else if Token.is "insert" (.word verb) then
        match rest with
        | into :: table :: .symbol '(' :: rest =>
            if into.is "into" then
              match rest.splitOnP (· == .symbol ')') with
              | [columns, keyword :: .symbol '(' :: values, []] =>
                  if keyword.is "values" then do
                    some (.insertValues (← name? table) (← names? columns)
                      (← (commas values).mapM operand?))
                  else none
              | [columns, keyword :: query] =>
                  if keyword.is "select" then do
                    some (.insertSelect (← name? table) (← names? columns) (← query? query))
                  else none
              | _ => none
            else none
        | _ => none
      else if Token.is "delete" (.word verb) then
        match rest with
        | keyword :: table :: keyword' :: condition =>
            if keyword.is "from" && keyword'.is "where" then do
              some (.delete (← name? table) (← condition? condition))
            else none
        | _ => none
      else if Token.is "create" (.word verb) then
        match rest with
        | keyword :: ifWord :: notWord :: existsWord :: table :: .symbol '(' :: rest =>
            if keyword.is "table" && ifWord.is "if" && notWord.is "not" && existsWord.is "exists" &&
                rest.getLast? == some (.symbol ')') then do
              let definitions ← (commas rest.dropLast).mapM definition?
              let columns := definitions.filterMap Sum.getLeft?
              if columns.any Column.rowid then
                some (.createTable (← name? table) ⟨columns, definitions.filterMap Sum.getRight?⟩)
              else none
            else none
        | _ => none
      else if Token.is "pragma" (.word verb) then
        match rest with
        | [name, .symbol '=', .quoted .single value] =>
            if name.is "foreign_keys" && (value == ['0'] || value == ['1']) then
              some (.foreignKeys (value == ['1']))
            else none
        | _ => none
      else none
  | _ => none

/-- The statements of a text. -/
def parse (text : List Char) : Option (List Statement) :=
  (((lex text).splitOnP (· == .symbol ';')).filter (· != [])).mapM statement?

/-! ## Illegal tokens -/

/-- A member that is no separator is a member of a piece. -/
theorem exists_mem_splitOnP {α : Type} {p : α → Bool} {a : α} {xs : List α} (hmem : a ∈ xs)
    (ha : p a = false) : ∃ piece ∈ xs.splitOnP p, a ∈ piece := by
  induction xs with
  | nil => simp at hmem
  | cons b xs ih =>
      rw [List.splitOnP_cons_eq_if_modifyHead]
      obtain ⟨first, rest, hsplit⟩ := List.exists_cons_of_ne_nil (List.splitOnP_ne_nil p xs)
      rw [hsplit] at ih ⊢
      rcases List.mem_cons.mp hmem with rfl | hmem
      · exact ⟨a :: first, by simp [ha], List.mem_cons_self⟩
      · obtain ⟨piece, hpiece, hin⟩ := ih hmem
        cases hb : p b with
        | true => exact ⟨piece, List.mem_cons_of_mem _ hpiece, hin⟩
        | false =>
            rcases List.mem_cons.mp hpiece with rfl | hrest
            · exact ⟨b :: piece, by simp, List.mem_cons_of_mem b hin⟩
            · exact ⟨piece, by simp [hrest], hin⟩

/-- An illegal token is not in an operand. -/
theorem operand?_of_illegal {tokens : List Token} (h : .illegal ∈ tokens) :
    operand? tokens = none := by
  unfold operand?
  split
  · simp at h
  · simp at h
  · simp at h
  · simp at h
  · rw [← List.mem_singleton.mp h]
    rfl
  · next table name =>
      obtain rfl | rfl : Token.illegal = table ∨ Token.illegal = name := by simpa using h
      · rfl
      · cases name? table <;> rfl
  · rfl

/-- An illegal token is not in a list of operands. -/
theorem operands_of_illegal {tokens : List Token} (h : .illegal ∈ tokens) :
    (commas tokens).mapM operand? = none := by
  obtain ⟨piece, hpiece, hin⟩ := @exists_mem_splitOnP _ (· == .symbol ',') _ _ h rfl
  have hnone := operand?_of_illegal hin
  rw [commas]
  generalize tokens.splitOnP (· == .symbol ',') = pieces at hpiece
  induction pieces with
  | nil => simp at hpiece
  | cons first pieces ih =>
      rcases List.mem_cons.mp hpiece with rfl | hpiece
      · simp [hnone]
      · simp [ih hpiece]

end Wheespa.Sql
