import Tabula.Command.Parser
import Tabula.Condition
import Tabula.FileTree
import Tabula.Session.Answer
import Tabula.Table.File

/-!
# Sessions

A session works on the databases below one root directory and may have one of them selected. A
database is a directory below the root; a table is a file in the directory of its database. Nothing
is kept between statements but the selection: a table is read from its file by each statement that
names it and written back by each that changes it.

An operation works on the session and on the files, and may fail. Most failures are reported in the
response to the statement. Those that say that a row or a table has the wrong shape are not, nor
that a name can be no part of a path: no statement leads to them. Nor is a text that cannot be
encoded, and a statement can have one.
-/

namespace Tabula

/-- A selected database, and the directory it had when it was selected. -/
structure Selection where
  database : String
  path : Path
  deriving DecidableEq, Repr

structure Session where
  root : Path
  selected : Option Selection
  deriving DecidableEq, Repr

/-- Why a command that is well formed cannot be carried out. -/
inductive OperationError
  | noDatabaseSelected
  | databaseMissing (name : String)
  | databaseExists (name : String)
  | tableMissing (name : String)
  | tableExists (name : String)
  | repeatedColumn (column : String)
  | idDropped
  | idUpdated
  | unknownAlteration (word : String)
  | valueCount (table : String) (expected given : Nat)
  | noColumnToUpdate (column : String)
  | noColumnToJoin (column table : String)
  | undecodable (table : String) (fault : Text.Utf8.Fault)
  | unreadable (table : String) (e : FileError)
  | unwritable (table : String) (e : FileError)
  deriving DecidableEq, Repr

def OperationError.message : OperationError → String
  | noDatabaseSelected => "No database selected"
  | databaseMissing name => s!"Database doesn't exist: {name}"
  | databaseExists name => s!"Database already exists: {name}"
  | tableMissing name => s!"Table does not exist: {name}"
  | tableExists name => s!"Table already exists: {name}"
  | repeatedColumn column => s!"Duplicate attribute name: {column}"
  | idDropped => "Cannot drop the id attribute"
  | idUpdated => "Cannot update the id attribute"
  | unknownAlteration word => s!"Unknown alteration type: {word}"
  | valueCount table expected given => s!"Table {table} expects {expected} values, got {given}"
  | noColumnToUpdate column => s!"Update failed, attribute not found: {column}"
  | noColumnToJoin column table => s!"Attribute not found: {column} in {table}"
  | undecodable table fault => s!"Error occurred while reading table {table}: {fault.message}"
  | unreadable table e => s!"Error occurred while reading table {table}: {e.report}"
  | unwritable table e => s!"Error occurred while writing table {table}: {e.report}"

inductive Failure
  | statement (e : StatementError)
  | operation (e : OperationError)
  | condition (e : ConditionError)
  | table (e : TableError)
  | file (e : FileError)
  deriving DecidableEq, Repr

namespace Failure

def message : Failure → String
  | statement e => e.message
  | operation e => e.message
  | condition e => e.message
  | table e => e.message
  | file e => e.refusal.message

/-- Whether a response reports the failure. -/
def isReported : Failure → Bool
  | table (.shape _) => false
  | file e => e.refusal.isOfSystem
  | _ => true

end Failure

/-- What an operation works on. -/
structure World where
  session : Session
  files : FileTree
  deriving DecidableEq, Repr

/-- An operation that fails leaves the world as far as it got. -/
abbrev Operation (α : Type) := EStateM Failure World α

namespace Operation

variable {α : Type}

def fail (e : OperationError) : Operation α := throw (.operation e)

def lift {ε : Type} (failure : ε → Failure) : Except ε α → Operation α
  | .ok a => pure a
  | .error e => throw (failure e)

/-- Ask the files. -/
def query (question : FileTree → Except FileError α) : Operation α := do
  lift .file (question (← get).files)

/-- Change the files. -/
def change (action : FileTree → Except FileError FileTree) : Operation Unit := do
  let files ← query action
  modify fun w => { w with files := files }

/-- Carry out an edit on a table. -/
def edit (t : Table) (action : Table.Edit α) : Operation Table :=
  match action.run t with
  | .ok _ t => pure t
  | .error e _ => throw (.table e)

end Operation

/-- The session on a root directory, which is made if it is missing. -/
def Session.start (root : Path) (files : FileTree) : Except FileError Session × FileTree :=
  match files.makeDirectories root with
  | (.ok _, files) => (.ok ⟨root, none⟩, files)
  | (.error e, files) => (.error e, files)

end Tabula
