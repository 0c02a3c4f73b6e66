import Tabula.Session.Query

/-!
# Changes of rows

Insertion, update and deletion. A table's file is written only after all else has gone well.
-/

namespace Tabula.Operation

/-- Add a row with the values under all columns but the first, which gets a number: one more than
there are rows. A number may come again after rows have been deleted. -/
def insertInto (name : String) (values : List String) : Operation Answer := do
  let path ← tablePath name
  let t ← load name path
  let expected := t.headers.length - 1
  if values.length ≠ expected then fail (.valueCount name expected values.length)
  store (← edit t (Table.addRow (toString (t.rows.length + 1) :: values))) path
  return {}

/-- Make sure that values can be assigned to these columns of a table. -/
def checkColumns (t : Table) : List String → Operation Unit
  | [] => return ()
  | column :: columns => do
    if column = Table.idColumn then fail .idUpdated
    unless t.hasColumn column do fail (.noColumnToUpdate column)
    checkColumns t columns

def updateTable (name : String) (assignments : List (String × String)) (condition : String) :
    Operation Answer := do
  let path ← tablePath name
  let t ← load name path
  checkColumns t (assignments.map Prod.fst)
  let c := Condition.read condition
  validate c t
  let (selected, faults) ← rowsSelected c t
  store (← edit t (Table.updateRows selected assignments)) path
  return { warnings := faults.map ConditionError.message }

def deleteFrom (name : String) (condition : String) : Operation Answer := do
  let path ← tablePath name
  let t ← load name path
  let c := Condition.read condition
  validate c t
  let (selected, faults) ← rowsSelected c t
  store (← edit t (Table.deleteRows selected)) path
  return { warnings := faults.map ConditionError.message }

end Tabula.Operation
