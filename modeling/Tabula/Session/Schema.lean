import Tabula.Session

/-!
# Operations on tables as wholes

The tables of the selected database are made, altered, dropped and listed here, and are read and
written for all other operations.
-/

namespace Tabula.Operation

/-- What the name of a table's file ends in. -/
def tableSuffix : String := ".tab"

def tablePath (name : String) : Operation Path := do
  match (← get).session.selected with
  | none => fail .noDatabaseSelected
  | some s => return s.path.join (name ++ tableSuffix)

/-- The table in a file, which must be there. -/
def load (name : String) (path : Path) : Operation Table := do
  unless ← query (·.isFile path) do fail (.tableMissing name)
  match (← get).files.readFile path with
  | .error e => fail (.unreadable name e)
  | .ok content =>
    match content.read with
    | .error fault => fail (.undecodable name fault)
    | .ok text => lift .table (Table.read name text)

/-- Write a table to a file, in place of what the file held. Only what the system refuses is
reported. -/
def store (t : Table) (path : Path) : Operation Unit := do
  let (outcome, files) := (← get).files.writeFile path t.fileText
  modify fun w => { w with files := files }
  match outcome with
  | .ok _ => return ()
  | .error e =>
    if e.refusal.isOfSystem then fail (.unwritable t.name e) else throw (.file e)

/-- The columns of a new table: `id` comes first, declared or not. -/
def columnsOf (declared : List String) : List String := declared.filter (· ≠ Table.idColumn)

/-- The first name that stands in a list for the second time. -/
def repeated? : List String → List String → Option String
  | _, [] => none
  | seen, n :: ns => if n ∈ seen then some n else repeated? (n :: seen) ns

def createTable (name : String) (declared : List String) : Operation Answer := do
  let path ← tablePath name
  if ← query (·.hasEntry path) then fail (.tableExists name)
  let columns := columnsOf declared
  match repeated? [] columns with
  | some column => fail (.repeatedColumn column)
  | none =>
    store (Table.empty name (Table.idColumn :: columns)) path
    return {}

def dropTable (name : String) : Operation Answer := do
  let path ← tablePath name
  unless ← query (·.isFile path) do fail (.tableMissing name)
  change (·.deleteFile path)
  return {}

def alterTable (name : String) (alteration : Alteration) (column : String) : Operation Answer := do
  let path ← tablePath name
  let t ← load name path
  match alteration with
  | .add => store (← edit t (Table.addColumn column)) path
  | .drop =>
    if column = Table.idColumn then fail .idDropped
    store (← edit t (Table.deleteColumn column)) path
  | .other word => fail (.unknownAlteration word)
  return {}

/-- The name of the table in a file, if a table's file can have this name. -/
def tableOfFile? (file : String) : Option String :=
  let s := file.toList
  if tableSuffix.toList.isSuffixOf s then
    some (if file = tableSuffix then file
      else String.ofList (s.take (s.length - tableSuffix.length)))
  else none

/-- The names of all tables of the selected database in order. -/
def tables : Operation (List String) := do
  match (← get).session.selected with
  | none => return []
  | some s =>
    if ← query (·.isDirectory s.path) then
      let children ← query (·.list s.path)
      return (children.filterMap fun (file, _) => tableOfFile? file).mergeSort (· ≤ ·)
    else return []

end Tabula.Operation
