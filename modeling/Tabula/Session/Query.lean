import Tabula.Session.Schema

/-!
# Queries

Selection, projection and joining of tables. No query changes a file.
-/

namespace Tabula.Operation

/-- On which rows of a table a condition is true, and the faults noted. -/
def rowsSelected (c : Condition) (t : Table) : Operation (List Bool × List ConditionError) :=
  lift .condition (c.evaluateAll t.headers [] (t.rows.map Row.values))

/-- Make sure that a condition can be asked of a table's rows. -/
def validate (c : Condition) (t : Table) : Operation Unit :=
  lift .condition (c.validate t.headers)

def project (t : Table) : Projection → Operation Table
  | .all => return t
  | .columns names => lift .table (t.project names)

def selectFrom (name : String) (columns : Projection) (condition : Option String) :
    Operation Answer := do
  let t ← load name (← tablePath name)
  let c := Condition.read condition
  validate c t
  let shown ← project t columns
  let (selected, faults) ← rowsSelected c t
  let rows ← lift (.table ∘ .shape) (shown.rowsWhere selected)
  return {
    columns := shown.headers
    rows := rows.map Row.values
    warnings := faults.map ConditionError.message }

/-! ### Joins -/

/-- One side of a join: a table, the column it is joined on, and the columns that are shown. -/
structure JoinSide where
  table : Table
  key : String
  deriving DecidableEq, Repr

namespace JoinSide

/-- The columns shown: neither the row number nor the column the tables are joined on. -/
def shown (s : JoinSide) : List String :=
  s.table.headers.filter fun h => h ≠ Table.idColumn && h ≠ s.key

def columns (s : JoinSide) : List String := s.shown.map fun h => s.table.name ++ "." ++ h

end JoinSide

/-- The cells shown of a left row and each right row with the same key. -/
def joinRow (left right : JoinSide) (l : Row) : Except ShapeError (List (List String)) := do
  let key ← l.get left.key
  let rows ← right.table.rows.mapM fun r => do
    if (← r.get right.key) = key then
      return some ((← l.pick left.shown) ++ (← r.pick right.shown))
    else return none
  return rows.filterMap id

/-- The cells shown of all pairs of rows with the same key, by the left row and then the right. -/
def joinRows (left right : JoinSide) : Except ShapeError (List (List String)) :=
  return (← left.table.rows.mapM (joinRow left right)).flatten

/-- Rows with their numbers in front. -/
def numbered (rows : List (List String)) : List (List String) :=
  rows.zipIdx.map fun (row, i) => toString (i + 1) :: row

/-- A table as one side of a join. -/
def joinSide (t : Table) (key : String) : Operation JoinSide := do
  unless t.hasColumn key do fail (.noColumnToJoin key t.name)
  return ⟨t, key⟩

def join (leftTable rightTable leftColumn rightColumn : String) : Operation Answer := do
  let leftTable ← load leftTable (← tablePath leftTable)
  let rightTable ← load rightTable (← tablePath rightTable)
  let left ← joinSide leftTable leftColumn
  let right ← joinSide rightTable rightColumn
  let rows ← lift (.table ∘ .shape) (joinRows left right)
  return {
    columns := Table.idColumn :: left.columns ++ right.columns
    rows := numbered rows }

end Tabula.Operation
