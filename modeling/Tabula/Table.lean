import Tabula.Text.Quoted

/-!
# Tables

A table has a header, the names of its columns, and rows. A row has its cells under the names of
their columns, so that it can be read and changed without its table. A table keeps its rows in step
with its header; the two can disagree only where column names are repeated. Column names are told
apart by letter case.

Row operations fail on a row that lacks the column asked for. Edits of a table also fail when the
table lacks the column, or has it already. An edit that fails may have changed the table.
-/

namespace Tabula

/-- What is asked of a row or of a table that has not the shape for it. -/
inductive ShapeError
  | valueCount (expected given : Nat)
  | noColumn (name : String)
  | noRowToChange
  | noRowToDelete
  /-- An index of more than 64 bits. -/
  | indexTooLarge
  deriving DecidableEq, Repr

def ShapeError.message : ShapeError → String
  | valueCount expected given => s!"Expected {expected} values, got {given}"
  | noColumn name => name
  | noRowToChange => "list index out of range"
  | noRowToDelete => "list assignment index out of range"
  | indexTooLarge => "cannot fit 'int' into an index-sized integer"

structure Row where
  cells : List (String × String)
  deriving DecidableEq, Repr

namespace Row

def headers (r : Row) : List String := r.cells.map Prod.fst

def values (r : Row) : List String := r.cells.map Prod.snd

def ofValues (headers values : List String) : Except ShapeError Row :=
  if headers.length = values.length then .ok ⟨headers.zip values⟩
  else .error (.valueCount headers.length values.length)

/-- The cell of a column, the first one if the name is repeated. -/
def get (r : Row) (column : String) : Except ShapeError String :=
  match r.cells.lookup column with
  | some value => .ok value
  | none => .error (.noColumn column)

/-- The row with a new value in every cell of a column. -/
def withValue (r : Row) (column value : String) : Except ShapeError Row :=
  if column ∈ r.headers then
    .ok ⟨r.cells.map fun (h, v) => (h, if h = column then value else v)⟩
  else .error (.noColumn column)

def withColumn (r : Row) (column value : String) : Row := ⟨r.cells ++ [(column, value)]⟩

/-- The row without the cells of a column. -/
def withoutColumn (r : Row) (column : String) : Except ShapeError Row :=
  if column ∈ r.headers then .ok ⟨r.cells.filter fun (h, _) => h ≠ column⟩
  else .error (.noColumn column)

/-- The cells of some columns, in the order asked for. -/
def pick (r : Row) (columns : List String) : Except ShapeError (List String) :=
  columns.mapM r.get

theorem headers_zip {headers values : List String} (h : headers.length = values.length) :
    (⟨headers.zip values⟩ : Row).headers = headers :=
  List.map_fst_zip (Nat.le_of_eq h)

theorem values_zip {headers values : List String} (h : headers.length = values.length) :
    (⟨headers.zip values⟩ : Row).values = values :=
  List.map_snd_zip (Nat.le_of_eq h.symm)

/-- Values make a row exactly when there is one for each header. -/
theorem ofValues_eq_ok_iff {headers values : List String} {r : Row} :
    ofValues headers values = .ok r ↔
      headers.length = values.length ∧ r = ⟨headers.zip values⟩ := by
  unfold ofValues
  by_cases h : headers.length = values.length
  · simp [h, eq_comm]
  · simp [h]

@[simp] theorem headers_withColumn (r : Row) (column value : String) :
    (r.withColumn column value).headers = r.headers ++ [column] := by
  simp [withColumn, headers]

@[simp] theorem values_withColumn (r : Row) (column value : String) :
    (r.withColumn column value).values = r.values ++ [value] := by
  simp [withColumn, values]

theorem headers_of_withValue {r r' : Row} {column value : String}
    (h : r.withValue column value = .ok r') : r'.headers = r.headers := by
  unfold withValue at h
  split at h
  · cases h
    simp [headers, Function.comp_def]
  · cases h

theorem headers_of_withoutColumn {r r' : Row} {column : String}
    (h : r.withoutColumn column = .ok r') : r'.headers = r.headers.filter (· ≠ column) := by
  unfold withoutColumn at h
  split at h
  · cases h
    simp [headers, List.filter_map, Function.comp_def]
  · cases h

end Row

structure Table where
  name : String
  headers : List String
  rows : List Row
  deriving DecidableEq, Repr

inductive TableError
  | columnExists (column : String)
  | columnMissing (column : String)
  /-- A line of the table's file has too few fields. -/
  | malformedRow (line : Nat) (table : String) (expected got : Nat)
  | shape (e : ShapeError)
  deriving DecidableEq, Repr

def TableError.message : TableError → String
  | columnExists column => s!"Attribute already exists: {column}"
  | columnMissing column => s!"Attribute not found: {column}"
  | malformedRow line table expected got =>
    s!"Malformed row on line {line} of table {table}: expected {expected} fields, got {got}"
  | shape e => e.message

namespace Table

/-- The column that numbers the rows. -/
def idColumn : String := "id"

/-- A table without rows. -/
def empty (name : String) (headers : List String) : Table := ⟨name, headers, []⟩

/-- A table in one line, as a debugging aid. -/
def describe (t : Table) (encoding : Text.Encoding) : String :=
  let names := ", ".intercalate (t.headers.map (Text.quoted encoding))
  s!"Table({Text.quoted encoding t.name}, headers=[{names}], rows={t.rows.length})"

def hasColumn (t : Table) (column : String) : Bool := t.headers.contains column

/-- The table with only the columns named, in the order they have in the table. -/
def project (t : Table) (names : List String) : Except TableError Table :=
  match names.find? fun n => !t.hasColumn n with
  | some n => .error (.columnMissing n)
  | none =>
    let kept := t.headers.filter names.contains
    match t.rows.mapM fun r => do Row.ofValues kept (← r.pick kept) with
    | .error e => .error (.shape e)
    | .ok rows => .ok ⟨t.name, kept, rows⟩

/-- The row at a place; `absent` is the error if there is none. -/
def row (t : Table) (place : Nat) (absent : ShapeError) : Except ShapeError Row :=
  match t.rows[place]? with
  | some r => .ok r
  | none => .error absent

/-- The places of the rows that are selected, the first row of all being at `place`. -/
def placesFrom (place : Nat) : List Bool → List Nat
  | [] => []
  | chosen :: selected =>
    if chosen then place :: placesFrom (place + 1) selected else placesFrom (place + 1) selected

def places (selected : List Bool) : List Nat := placesFrom 0 selected

/-- The rows that are selected. -/
def rowsWhere (t : Table) (selected : List Bool) : Except ShapeError (List Row) :=
  (places selected).mapM fun place => t.row place .noRowToChange

/-! ### Edits -/

/-- A change of a table; one that fails leaves the table as far as it got. -/
abbrev Edit (α : Type) := EStateM TableError Table α

def liftShape {α : Type} : Except ShapeError α → Edit α
  | .ok a => pure a
  | .error e => throw (.shape e)

/-- Give the table a last column, empty in all rows. -/
def addColumn (column : String) : Edit Unit := do
  let t ← get
  if t.hasColumn column then throw (.columnExists column)
  set { t with
    headers := t.headers ++ [column], rows := t.rows.map fun r : Row => r.withColumn column "" }

/-- Take a column from the header, once, and from all rows. -/
def deleteColumn (column : String) : Edit Unit := do
  let t ← get
  unless t.hasColumn column do throw (.columnMissing column)
  set { t with headers := t.headers.erase column }
  let rows ← liftShape (t.rows.mapM fun r => r.withoutColumn column)
  modify fun t => { t with rows := rows }

/-- Add a last row, with one value for each column. -/
def addRow (values : List String) : Edit Row := do
  let t ← get
  let row ← liftShape (Row.ofValues t.headers values)
  set { t with rows := t.rows ++ [row] }
  return row

/-- The place that an index means; a negative index counts from the end. The error for an index that
is too far down is `absent`, if the index has no more than 64 bits. -/
def placeOf (t : Table) (index : Int) (absent : ShapeError) : Except ShapeError Nat :=
  if index < -9223372036854775808 ∨ 9223372036854775807 < index then .error .indexTooLarge
  else
    let place := if index < 0 then index + t.rows.length else index
    if place < 0 then .error absent else .ok place.toNat

def deleteRow (place : Nat) : Edit Unit := do
  let t ← get
  let _ ← liftShape (t.row place .noRowToDelete)
  set { t with rows := t.rows.eraseIdx place }

def deleteRowAt (index : Int) : Edit Unit := do
  deleteRow (← liftShape ((← get).placeOf index .noRowToDelete))

def changeCell (place : Nat) (column value : String) : Edit Unit := do
  let t ← get
  unless t.hasColumn column do throw (.columnMissing column)
  let r ← liftShape (t.row place .noRowToChange)
  let changed ← liftShape (r.withValue column value)
  set { t with rows := t.rows.set place changed }

def updateCell (index : Int) (column value : String) : Edit Unit := do
  let t ← get
  unless t.hasColumn column do throw (.columnMissing column)
  changeCell (← liftShape (t.placeOf index .noRowToChange)) column value

/-- Make assignments in the row at a place, one after the other. -/
def changeRow (place : Nat) : List (String × String) → Edit Unit
  | [] => pure ()
  | (column, value) :: rest => do
    changeCell place column value
    changeRow place rest

/-- Make assignments in the rows at some places. -/
def changeRows (assignments : List (String × String)) : List Nat → Edit Unit
  | [] => pure ()
  | place :: places => do
    changeRow place assignments
    changeRows assignments places

/-- Delete the rows at some places, one after the other. -/
def deleteEach : List Nat → Edit Unit
  | [] => pure ()
  | place :: places => do
    deleteRow place
    deleteEach places

/-- Make assignments in the rows that are selected. -/
def updateRows (selected : List Bool) (assignments : List (String × String)) : Edit Unit :=
  changeRows assignments (places selected)

/-- Delete the rows that are selected, the last one first: the places before it stay as they are. -/
def deleteRows (selected : List Bool) : Edit Unit := deleteEach (places selected).reverse

end Table

end Tabula
