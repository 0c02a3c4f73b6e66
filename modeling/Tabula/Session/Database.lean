import Tabula.Session

/-!
# Operations on databases
-/

namespace Tabula.Operation

def databasePath (name : String) : Operation Path := return (← get).session.root.join name

/-- Select a database, or none. -/
def select (s : Option Selection) : Operation Unit :=
  modify fun w => { w with session := { w.session with selected := s } }

def useDatabase (name : String) : Operation Answer := do
  let path ← databasePath name
  unless ← query (·.isDirectory path) do fail (.databaseMissing name)
  select (some ⟨name, path⟩)
  return {}

/-- Make a database and select it. -/
def createDatabase (name : String) : Operation Answer := do
  let path ← databasePath name
  if ← query (·.hasEntry path) then fail (.databaseExists name)
  change (·.makeDirectory path)
  select (some ⟨name, path⟩)
  return {}

/-- Remove a directory with all that is in it. -/
def removeTree (path : Path) : Operation Unit := do
  let (outcome, files) := (← get).files.removeTree path
  modify fun w => { w with files := files }
  lift .file outcome

/-- Remove a database. If it is selected, none is selected after that. -/
def dropDatabase (name : String) : Operation Answer := do
  let path ← databasePath name
  unless ← query (·.isDirectory path) do fail (.databaseMissing name)
  removeTree path
  if (← get).session.selected.any (·.database = name) then select none
  return {}

/-- Those of the names in a directory that its directories have. Each is asked for by its path,
which can be too long although the name is there. -/
def directories (path : Path) : List String → Operation (List String)
  | [] => return []
  | n :: ns => do
    let there ← query (·.isDirectory (path.join n))
    let names ← directories path ns
    return if there then n :: names else names

/-- The names of all databases in order. -/
def databases : Operation (List String) := do
  let root := (← get).session.root
  let children ← query (·.list root)
  return (← directories root (children.map Prod.fst)).mergeSort (· ≤ ·)

end Tabula.Operation
