import Wheespa.Dbapi
import Wheespa.Library.Columns

/-!
# The listing of a table

What an administrator gets for `GET_REGISTERED` and the like: `setTableStructure` reads the buffer
of `sqlite3_get_table`, which has the names of the columns and then the cells row by row, into one
vector a column, and `operator <<` writes these out row by row. `listing_aligned` says that no cell
is lost or cut on the way, and that the columns of the text are aligned.
-/

namespace Wheespa

open Sql Columns

/-! ## Reading the buffer -/

/-- The string that is constructed from the pointer at an index of the buffer, or `none` where the
pointer is null or the index is past the end. -/
def readCell (tableBuf : List (Option Str)) (j : Nat) : Option Str :=
  tableBuf[j]?.join

/-- The inner loop of `setTableStructure`, entered with `j` and with so many rows left. -/
def readRows (tableBuf : List (Option Str)) (colCount : Nat) : Nat → Nat → Option (List Str)
  | 0, _ => some []
  | left + 1, j => do
      let cell ← readCell tableBuf j
      let rest ← readRows tableBuf colCount left (j + colCount)
      some (cell :: rest)

/-- The loops of `setTableStructure` on the buffer and the counts that `sqlite3_get_table` gives. -/
def readTable (tableBuf : List (Option Str)) (rowCount colCount : Nat) : Option TableSt := do
  let columns ← (List.range colCount).mapM fun i => do
    let name ← readCell tableBuf i
    let rows ← readRows tableBuf colCount rowCount (i + colCount)
    some (name, rows)
  some ⟨columns.map Prod.fst, columns.map Prod.snd, rowCount, colCount⟩

/-- A buffer without null pointers, whatever follows it in memory, gives its cells. -/
theorem readCell_of_lt {cells : List Str} {j : Nat} (h : j < cells.length)
    (beyond : List (Option Str)) :
    readCell (cells.map some ++ beyond) j = some (cells.getD j []) := by
  rw [readCell, List.getElem?_append_left (by rwa [List.length_map]), List.getElem?_map,
    List.getElem?_eq_getElem h, List.getD_eq_getElem?_getD, List.getElem?_eq_getElem h]
  rfl

/-- The inner loop gives the cells that it steps through. -/
theorem readRows_eq {tableBuf : List (Option Str)} {colCount left j : Nat} {f : Nat → Str}
    (h : ∀ k < left, readCell tableBuf (j + k * colCount) = some (f k)) :
    readRows tableBuf colCount left j = some ((List.range left).map f) := by
  induction left generalizing j f with
  | zero => rfl
  | succ left ih =>
      have hfirst : readCell tableBuf j = some (f 0) := by
        simpa using h 0 (Nat.zero_lt_succ left)
      have hrest : ∀ k < left,
          readCell tableBuf (j + colCount + k * colCount) = some (f (k + 1)) := by
        intro k hk
        rw [← h (k + 1) (Nat.succ_lt_succ hk), Nat.succ_mul]
        congr 1
        omega
      rw [readRows, hfirst, ih hrest, List.range_succ_eq_map, List.map_cons, List.map_map]
      rfl

/-- Computations that agree on the elements of a list agree on the list. -/
theorem mapM_congr {α β : Type} {f g : α → Option β} {xs : List α} (h : ∀ x ∈ xs, f x = g x) :
    xs.mapM f = xs.mapM g := by
  induction xs with
  | nil => rfl
  | cons x xs ih =>
      rw [List.forall_mem_cons] at h
      rw [List.mapM_cons, List.mapM_cons, h.1, ih h.2]

/-- A computation that succeeds on every element succeeds on the list. -/
theorem mapM_eq_map {α β : Type} {f : α → Option β} {g : α → β} {xs : List α}
    (h : ∀ x ∈ xs, f x = some (g x)) : xs.mapM f = some (xs.map g) :=
  (mapM_congr h).trans List.mapM_pure

/-- The cell of a row and a column is in the buffer. -/
theorem index_lt {rowCount colCount i k : Nat} (hi : i < colCount) (hk : k < rowCount) :
    (k + 1) * colCount + i < (rowCount + 1) * colCount := by
  have hrows : (k + 1 + 1) * colCount ≤ (rowCount + 1) * colCount :=
    Nat.mul_le_mul_right colCount (by omega)
  rw [Nat.succ_mul (k + 1)] at hrows
  omega

/-- What `setTableStructure` reads from a buffer with a name for each column and the cells of each
row: the name and the cells of each column. -/
theorem readTable_eq {cells : List Str} {rowCount colCount : Nat}
    (hsize : cells.length = (rowCount + 1) * colCount) (beyond : List (Option Str)) :
    readTable (cells.map some ++ beyond) rowCount colCount = some
      ⟨(List.range colCount).map fun i => cells.getD i [],
        (List.range colCount).map fun i => (List.range rowCount).map fun k =>
          cells.getD ((k + 1) * colCount + i) [],
        rowCount, colCount⟩ := by
  have hcolumn : ∀ i ∈ List.range colCount, (do
      let name ← readCell (cells.map some ++ beyond) i
      let rows ← readRows (cells.map some ++ beyond) colCount rowCount (i + colCount)
      some (name, rows)) = some (cells.getD i [], (List.range rowCount).map fun k =>
        cells.getD ((k + 1) * colCount + i) []) := by
    intro i hi
    have hi : i < colCount := List.mem_range.mp hi
    have hname : i < cells.length := by
      rw [hsize, Nat.succ_mul]
      omega
    have hrows := @readRows_eq (cells.map some ++ beyond) colCount rowCount (i + colCount)
      (fun k => cells.getD ((k + 1) * colCount + i) []) fun k hk => by
        have hindex : i + colCount + k * colCount = (k + 1) * colCount + i := by
          rw [Nat.succ_mul]
          omega
        rw [hindex]
        exact readCell_of_lt (hsize ▸ index_lt hi hk) beyond
    rw [readCell_of_lt hname beyond, hrows]
    rfl
  rw [readTable, mapM_eq_map hcolumn]
  simp

/-- The buffer of `sqlite3_get_table` for an answer: the names of the first row, where there is one,
and then the cells of the rows. -/
def resultBuffer (rows : List (List ResultCell)) : List (Option Str) :=
  ((rows.head?.map fun row => row.map fun cell => some cell.1).getD []) ++
    rows.flatMap fun row => row.map fun cell => FlexDB.cellText cell.2

/-- The inner loop on the cells of rows of one length, where `j` is in the first of them. -/
theorem readRows_flatMap {rows : List (List ResultCell)} {colCount i : Nat}
    (hrows : ∀ row ∈ rows, row.length = colCount) (hi : i < colCount) (front : List (Option Str)) :
    readRows (front ++ rows.flatMap fun row => row.map fun cell => FlexDB.cellText cell.2)
        colCount rows.length (front.length + i) =
      rows.mapM fun row => row[i]?.bind fun cell => FlexDB.cellText cell.2 := by
  induction rows generalizing front with
  | nil => rfl
  | cons row rows ih =>
      rw [List.forall_mem_cons] at hrows
      have hcell : readCell (front ++ (row :: rows).flatMap fun row =>
          row.map fun cell => FlexDB.cellText cell.2) (front.length + i) =
          row[i]?.bind fun cell => FlexDB.cellText cell.2 := by
        rw [readCell, List.getElem?_append_right (Nat.le_add_right _ _), Nat.add_sub_cancel_left,
          List.flatMap_cons, List.getElem?_append_left (by rw [List.length_map]; omega),
          List.getElem?_map]
        cases row[i]? <;> rfl
      have hnext : front.length + i + colCount =
          (front ++ row.map fun cell => FlexDB.cellText cell.2).length + i := by
        rw [List.length_append, List.length_map, hrows.1]
        omega
      rw [List.length_cons, readRows, hcell, List.mapM_cons, hnext, List.flatMap_cons,
        ← List.append_assoc, ih hrows.2]
      rfl

/-- What is computed for each element of a list may be paired with what is known of it. -/
theorem mapM_pair {α β γ : Type} (f : α → Option β) (g : α → γ) (xs : List α) :
    (xs.mapM fun x => (f x).map fun y => (g x, y)) =
      (xs.mapM f).map fun ys => (xs.map g).zip ys := by
  induction xs with
  | nil => rfl
  | cons x xs ih =>
      rw [List.mapM_cons, List.mapM_cons, ih]
      cases f x with
      | none => rfl
      | some y => cases xs.mapM f <;> rfl

/-- The buffer of an answer has the names of its columns in front. -/
theorem readCell_resultBuffer {rows : List (List ResultCell)} {names : List Str}
    (hnames : ((rows.head?.map fun row => row.map Prod.fst).getD []) = names) {i : Nat}
    (hi : i < names.length) :
    resultBuffer rows = names.map some ++
        rows.flatMap (fun row => row.map fun cell => FlexDB.cellText cell.2) ∧
      readCell (resultBuffer rows) i = some (names.getD i []) := by
  have hbuffer : resultBuffer rows = names.map some ++
      rows.flatMap (fun row => row.map fun cell => FlexDB.cellText cell.2) := by
    rw [resultBuffer, ← hnames]
    cases rows with
    | nil => rfl
    | cons row rows =>
        rw [List.head?_cons, Option.map_some, Option.map_some, Option.getD_some, Option.getD_some,
          List.map_map]
        rfl
  rw [hbuffer]
  exact ⟨rfl, readCell_of_lt hi _⟩

/-- `setTableStructure` is these loops on the buffer of the answer, whose rows have a cell for each
column. -/
theorem setTableStructure_eq {engine : Engine} {db : FlexDB} {table : Str} {answer : Answer}
    {after : FlexDB} (hexec : db.execQuery engine ("select * from ".toList ++ table) =
      (answer, after)) (hok : answer.ok = true) {names : List Str}
    (hnames : ((answer.rows.head?.map fun row => row.map Prod.fst).getD []) = names)
    (hrows : ∀ row ∈ answer.rows, row.length = names.length) :
    db.setTableStructure engine table =
      match readTable (resultBuffer answer.rows) answer.rows.length names.length with
      | none => (none, after)
      | some get => (some true, { after with dbTable := some get }) := by
  have hcolumn : ∀ i ∈ List.range names.length, (do
      let name ← readCell (resultBuffer answer.rows) i
      let rows ← readRows (resultBuffer answer.rows) names.length answer.rows.length
        (i + names.length)
      some (name, rows)) = (answer.rows.mapM fun row =>
        row[i]?.bind fun cell => FlexDB.cellText cell.2).map fun rows =>
          (names.getD i [], rows) := by
    intro i hi
    have hi : i < names.length := List.mem_range.mp hi
    obtain ⟨hbuffer, hname⟩ := readCell_resultBuffer hnames hi
    have hcells := readRows_flatMap hrows hi (names.map some)
    rw [← hbuffer, List.length_map, Nat.add_comm] at hcells
    rw [hname, hcells]
    cases answer.rows.mapM fun row => row[i]?.bind fun cell => FlexDB.cellText cell.2 <;> rfl
  have hself : (List.range names.length).map (fun i => names.getD i []) = names := by
    refine List.ext_getElem (by simp) fun i _ hi => ?_
    rw [List.getElem_map, List.getElem_range, List.getD_eq_getElem?_getD,
      List.getElem?_eq_getElem hi]
    rfl
  rw [readTable, mapM_congr hcolumn, mapM_pair, hself]
  simp only [FlexDB.setTableStructure, hexec, hok, Bool.not_true, Bool.false_eq_true, if_false,
    hnames]
  cases hcells : (List.range names.length).mapM fun i => answer.rows.mapM fun row =>
      row[i]?.bind fun cell => FlexDB.cellText cell.2 with
  | none => rfl
  | some rows =>
      have hlength : rows.length = names.length :=
        (length_of_mapM hcells).trans (List.length_range ..)
      have hnames : (names.zip rows).map Prod.fst = names :=
        List.map_fst_zip (Nat.le_of_eq hlength.symm)
      have hrows : (names.zip rows).map Prod.snd = rows :=
        List.map_snd_zip (Nat.le_of_eq hlength)
      simp only [Option.map_some, Option.bind_eq_bind, Option.bind_some, hnames, hrows]

/-! ## Writing the table -/

/-- What is between two fields of a line. -/
def separator : Str := " | ".toList

/-- The name of a column in the head. -/
def headField (column : Str × List Str) : Str :=
  let width := colDraw column.1 column.2
  fit (if column.1.length > width then column.1 else center column.1 width) width

/-- The cell of a column in the line of a row. -/
def bodyField (j : Nat) (column : Str × List Str) : Str :=
  fit (column.2.getD j []) (colDraw column.1 column.2)

/-- The head of a table. -/
def headLine (columns : List (Str × List Str)) : Str :=
  line separator (columns.map headField)

/-- The line of a row. -/
def bodyLine (columns : List (Str × List Str)) (j : Nat) : Str :=
  line separator (columns.map (bodyField j))

/-- The text of a table is made of lines, one for the names and one a row. -/
theorem drawTable_eq (columns : List (Str × List Str)) (rowCount colCount : Nat) :
    drawTable (some ⟨columns.map Prod.fst, columns.map Prod.snd, rowCount, colCount⟩) =
      headLine columns ++ '\n' ::
        ((List.range rowCount).map (bodyLine columns)).flatMap (· ++ ['\n']) ++ ['\n'] := by
  have hwidths : List.zipWith colDraw (columns.map Prod.fst) (columns.map Prod.snd) =
      columns.map fun column => colDraw column.1 column.2 := by
    rw [List.zipWith_map, List.zipWith_self]
  have hnames : (columns.map Prod.fst).zip (columns.map fun column => colDraw column.1 column.2) =
      columns.map fun column => (column.1, colDraw column.1 column.2) :=
    List.zip_map' ..
  have hrows : (columns.map Prod.snd).zip (columns.map fun column => colDraw column.1 column.2) =
      columns.map fun column => (column.2, colDraw column.1 column.2) :=
    List.zip_map' ..
  simp only [drawTable, hwidths, hnames, hrows, List.flatMap_map, headLine, bodyLine, line,
    separator, headField, bodyField, List.append_assoc, List.cons_append, List.nil_append]

/-- No length is above the maximum. -/
theorem le_foldl_max (lengths : List Nat) (first : Nat) :
    first ≤ lengths.foldl max first ∧ ∀ n ∈ lengths, n ≤ lengths.foldl max first := by
  induction lengths generalizing first with
  | nil => exact ⟨Nat.le_refl first, by simp⟩
  | cons n lengths ih =>
      obtain ⟨hfirst, hrest⟩ := ih (max first n)
      rw [List.foldl_cons, List.forall_mem_cons]
      exact ⟨by omega, by omega, hrest⟩

/-- The name of a column fits its width. -/
theorem length_le_colDraw (name : Str) (cells : List Str) : name.length ≤ colDraw name cells :=
  (le_foldl_max _ _).1

/-- A cell of a column fits its width. -/
theorem length_le_colDraw_of_mem (name : Str) {cells : List Str} {cell : Str} (h : cell ∈ cells) :
    cell.length ≤ colDraw name cells :=
  (le_foldl_max _ _).2 _ (List.mem_map_of_mem h)

/-- A text that fits is filled up at its end. -/
theorem fit_of_le {str : Str} {width : Nat} (h : str.length ≤ width) :
    fit str width = str ++ List.replicate (width - str.length) ' ' := by
  rw [fit, if_neg (by omega)]

/-- A text that fits and is filled up to a part of the width has the width in the end. -/
theorem filled_fit {field str : Str} {width before after : Nat}
    (hstr : str = List.replicate before ' ' ++ field ++ List.replicate after ' ')
    (h : str.length ≤ width) : Filled ' ' field width (fit str width) := by
  rw [fit_of_le h]
  refine ⟨⟨before, after + (width - str.length), ?_⟩, ?_⟩
  · rw [List.replicate_add, ← List.append_assoc, ← hstr]
  · rw [List.length_append, List.length_replicate]
    omega

/-- A name is whole in its column, in the middle. -/
theorem filled_headField (column : Str × List Str) :
    Filled ' ' column.1 (colDraw column.1 column.2) (headField column) := by
  have hle := length_le_colDraw column.1 column.2
  rw [headField, if_neg (by omega), center]
  split_ifs with hfull
  · exact @filled_fit _ _ _ 0 0 (by simp) hle
  · refine filled_fit rfl ?_
    simp only [List.length_append, List.length_replicate]
    omega

/-- A cell is whole in its column, on the left. -/
theorem filled_bodyField {column : Str × List Str} {j : Nat} {cell : Str}
    (h : column.2[j]? = some cell) :
    Filled ' ' cell (colDraw column.1 column.2) (bodyField j column) := by
  have hle := length_le_colDraw_of_mem column.1 (List.mem_of_getElem? h)
  rw [bodyField, List.getD_eq_getElem?_getD, h, Option.getD_some]
  exact @filled_fit _ _ _ 0 0 (by simp) hle

/-- The text of the table is one line for the names of the columns, one a row in the order of the
rows, and an empty line; the lines are of one length, and each name and each cell of a column is
whole in the range of that column. -/
structure Aligned (table : TableSt) (text head : Str) (body : List Str) (start width : Nat → Nat) :
    Prop where
  text : text = head ++ '\n' :: body.flatMap (· ++ ['\n']) ++ ['\n']
  rows : body.length = table.rowCount
  lengths : ∀ line ∈ body, line.length = head.length
  names : ∀ (i : Nat) name, table.columns[i]? = some name →
    HoldsWithin ' ' name head (start i) (width i)
  cells : ∀ (i k : Nat) column cell line, table.rows[i]? = some column →
    column[k]? = some cell → body[k]? = some line → HoldsWithin ' ' cell line (start i) (width i)
  apart : ∀ i j, i < j → i < table.colCount → start i + width i ≤ start j
  unbroken : (∀ name ∈ table.columns, '\n' ∉ name) →
    (∀ column ∈ table.rows, ∀ cell ∈ column, '\n' ∉ cell) → ∀ line ∈ head :: body, '\n' ∉ line

/-- The widths of the columns. -/
def widths (columns : List (Str × List Str)) : List Nat :=
  columns.map fun column => colDraw column.1 column.2

/-- The fields of the head have the widths of the columns. -/
theorem length_headField (columns : List (Str × List Str)) :
    (columns.map headField).map List.length = widths columns := by
  rw [List.map_map]
  exact List.map_congr_left fun column _ => (filled_headField column).length

/-- The fields of a row have the widths of the columns. -/
theorem length_bodyField {columns : List (Str × List Str)} {rowCount j : Nat}
    (hrows : ∀ column ∈ columns, column.2.length = rowCount) (hj : j < rowCount) :
    (columns.map (bodyField j)).map List.length = widths columns := by
  rw [List.map_map]
  refine List.map_congr_left fun column hmem => ?_
  have hlt : j < column.2.length := by rwa [hrows column hmem]
  exact (filled_bodyField (List.getElem?_eq_getElem hlt)).length

/-- The head holds the name of a column in the range of the column. -/
theorem holdsWithin_headLine {columns : List (Str × List Str)} {i : Nat} {column : Str × List Str}
    (h : columns[i]? = some column) :
    HoldsWithin ' ' column.1 (headLine columns) (offset separator (widths columns) i)
      (colDraw column.1 column.2) := by
  rw [headLine, ← length_headField]
  exact holdsWithin_line (by rw [List.getElem?_map, h]; rfl) (filled_headField column)

/-- The line of a row holds the cell of a column in the range of the column. -/
theorem holdsWithin_bodyLine {columns : List (Str × List Str)} {rowCount i j : Nat}
    {column : Str × List Str} {cell : Str}
    (hrows : ∀ column ∈ columns, column.2.length = rowCount) (h : columns[i]? = some column)
    (hcell : column.2[j]? = some cell) :
    HoldsWithin ' ' cell (bodyLine columns j) (offset separator (widths columns) i)
      (colDraw column.1 column.2) := by
  have hj : j < rowCount := by
    rw [← hrows column (List.mem_of_getElem? h)]
    exact (List.getElem?_eq_some_iff.mp hcell).1
  rw [bodyLine, ← length_bodyField hrows hj]
  exact holdsWithin_line (by rw [List.getElem?_map, h]; rfl) (filled_bodyField hcell)

/-- The line of a row is as long as the head. -/
theorem length_bodyLine {columns : List (Str × List Str)} {rowCount j : Nat}
    (hrows : ∀ column ∈ columns, column.2.length = rowCount) (hj : j < rowCount) :
    (bodyLine columns j).length = (headLine columns).length := by
  rw [bodyLine, headLine, length_line, length_line, length_bodyField hrows hj, length_headField,
    List.length_map, List.length_map]

/-- Where no name has a line break, the head has none. -/
theorem not_mem_headLine {columns : List (Str × List Str)}
    (hnames : ∀ column ∈ columns, '\n' ∉ column.1) : '\n' ∉ headLine columns := by
  refine not_mem_line (by decide) fun field hmem => ?_
  obtain ⟨column, hcolumn, rfl⟩ := List.mem_map.mp hmem
  exact (filled_headField column).not_mem (by decide) (hnames column hcolumn)

/-- Where no cell has a line break, the line of a row has none. -/
theorem not_mem_bodyLine {columns : List (Str × List Str)} {rowCount j : Nat}
    (hrows : ∀ column ∈ columns, column.2.length = rowCount) (hj : j < rowCount)
    (hcells : ∀ column ∈ columns, ∀ cell ∈ column.2, '\n' ∉ cell) :
    '\n' ∉ bodyLine columns j := by
  refine not_mem_line (by decide) fun field hmem => ?_
  obtain ⟨column, hcolumn, rfl⟩ := List.mem_map.mp hmem
  have hlt : j < column.2.length := by rwa [hrows column hcolumn]
  exact (filled_bodyField (List.getElem?_eq_getElem hlt)).not_mem (by decide)
    (hcells column hcolumn _ (List.getElem_mem hlt))

/-- The text of a table whose columns have a cell for each row is aligned. -/
theorem aligned_drawTable {columns : List (Str × List Str)} {rowCount : Nat}
    (hrows : ∀ column ∈ columns, column.2.length = rowCount) :
    Aligned ⟨columns.map Prod.fst, columns.map Prod.snd, rowCount, columns.length⟩
      (drawTable (some ⟨columns.map Prod.fst, columns.map Prod.snd, rowCount, columns.length⟩))
      (headLine columns) ((List.range rowCount).map (bodyLine columns))
      (offset separator (widths columns)) fun i => (widths columns).getD i 0 := by
  have hwidth {i : Nat} {column : Str × List Str} (h : columns[i]? = some column) :
      (widths columns)[i]? = some (colDraw column.1 column.2) := by
    rw [widths, List.getElem?_map, h]
    rfl
  have hgetD {i : Nat} {column : Str × List Str} (h : columns[i]? = some column) :
      (widths columns).getD i 0 = colDraw column.1 column.2 := by
    rw [List.getD_eq_getElem?_getD, hwidth h]
    rfl
  constructor
  · exact drawTable_eq columns rowCount columns.length
  · simp
  · intro text htext
    obtain ⟨j, hj, rfl⟩ := List.mem_map.mp htext
    exact length_bodyLine hrows (List.mem_range.mp hj)
  · intro i name hname
    rw [List.getElem?_map] at hname
    obtain ⟨column, hcolumn, rfl⟩ := Option.map_eq_some_iff.mp hname
    rw [hgetD hcolumn]
    exact holdsWithin_headLine hcolumn
  · intro i k cells cell text hcells hcell htext
    rw [List.getElem?_map] at hcells htext
    obtain ⟨column, hcolumn, rfl⟩ := Option.map_eq_some_iff.mp hcells
    obtain ⟨j, hj, rfl⟩ := Option.map_eq_some_iff.mp htext
    obtain ⟨_, rfl⟩ := List.getElem?_eq_some_iff.mp hj
    rw [hgetD hcolumn, List.getElem_range]
    exact holdsWithin_bodyLine hrows hcolumn hcell
  · intro i j hlt hi
    have hcolumn : columns[i]? = some columns[i] := List.getElem?_eq_getElem hi
    rw [hgetD hcolumn]
    exact offset_add_le separator (hwidth hcolumn) hlt
  · intro hnames hcells text htext
    rw [List.forall_mem_map] at hnames hcells
    rcases List.mem_cons.mp htext with rfl | hbody
    · exact not_mem_headLine hnames
    · obtain ⟨j, hj, rfl⟩ := List.mem_map.mp hbody
      exact not_mem_bodyLine hrows (List.mem_range.mp hj) hcells

/-- The vectors hold the names and the cells of the buffer: each name, and below it the cell of
each row. -/
structure Transposed (cells : List Str) (table : TableSt) : Prop where
  columns : table.columns.length = table.colCount
  rows : table.rows.length = table.colCount
  name : ∀ i < table.colCount, table.columns[i]? = cells[i]?
  cell : ∀ i < table.colCount, ∃ column, table.rows[i]? = some column ∧
    column.length = table.rowCount ∧
    ∀ k < table.rowCount, column[k]? = cells[(k + 1) * table.colCount + i]?

/-- The listing of a table is complete and aligned: from a buffer of a name for each column and then
the cells of each row, none of which is null, `setTableStructure` reads the cells of the buffer and
nothing past them, and leaves each name and each cell in its place; and the text of the table has
all of them, aligned. -/
theorem listing_aligned {cells : List Str} {rowCount colCount : Nat}
    (hsize : cells.length = (rowCount + 1) * colCount) :
    ∃ table, (∀ beyond, readTable (cells.map some ++ beyond) rowCount colCount = some table) ∧
      table.rowCount = rowCount ∧ table.colCount = colCount ∧ Transposed cells table ∧
      ∃ head body start width,
        Aligned table (drawTable (some table)) head body start width := by
  have hgetD {j : Nat} (hj : j < cells.length) : some (cells.getD j []) = cells[j]? := by
    rw [List.getD_eq_getElem?_getD, List.getElem?_eq_getElem hj]
    rfl
  refine ⟨_, readTable_eq hsize, rfl, rfl, ⟨by simp, by simp, ?_, ?_⟩, ?_⟩
  · intro i hi
    have hi : i < colCount := hi
    rw [List.getElem?_map, List.getElem?_range hi]
    exact hgetD (by rw [hsize, Nat.succ_mul]; omega)
  · intro i hi
    have hi : i < colCount := hi
    refine ⟨_, by rw [List.getElem?_map, List.getElem?_range hi]; rfl, by simp, fun k hk => ?_⟩
    have hk : k < rowCount := hk
    rw [List.getElem?_map, List.getElem?_range hk]
    exact hgetD (hsize ▸ index_lt hi hk)
  · -- the columns as pairs of a name and its cells
    have haligned := @aligned_drawTable ((List.range colCount).map fun i =>
      (cells.getD i [], (List.range rowCount).map fun k => cells.getD ((k + 1) * colCount + i) []))
      rowCount (by simp)
    rw [List.map_map, List.map_map, List.length_map, List.length_range] at haligned
    exact ⟨_, _, _, _, haligned⟩

/-- A table of one row. -/
theorem listing_aligned_one : ∃ table,
    (∀ beyond, readTable
      (["W_ID".toList, "W_USER".toList, "1".toList, "alice".toList].map some ++ beyond) 1 2 =
        some table) ∧
      table.rowCount = 1 ∧ table.colCount = 2 ∧
      Transposed ["W_ID".toList, "W_USER".toList, "1".toList, "alice".toList] table ∧
      ∃ head body start width,
        Aligned table (drawTable (some table)) head body start width :=
  listing_aligned (by rfl)

/-- The text of that table. -/
example : drawTable (some ⟨["W_ID".toList, "W_USER".toList], [["1".toList], ["alice".toList]], 1,
    2⟩) = " | W_ID | W_USER | \n | 1    | alice  | \n\n".toList := by decide

end Wheespa
