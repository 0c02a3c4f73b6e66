import Tabula.Script
import Tabula.Session.Execute
import Tabula.Shell.Output

/-!
# Running statements

A list of statements is run in order up to the first that fails. What a run does to the files stays
done, and what it prints stays printed, even when it breaks off.
-/

namespace Tabula

/-- Why a run breaks off. -/
inductive Crash
  /-- No response reports the failure. -/
  | failure (e : Failure)
  /-- What is read is no text. -/
  | undecodable (fault : Text.Utf8.Fault)
  /-- What is to be printed cannot be encoded. -/
  | unprintable (fault : Text.EncodeFault)
  deriving DecidableEq, Repr

def Crash.message : Crash → String
  | failure e => e.message
  | undecodable fault => fault.message
  | unprintable fault => fault.message

structure Shell.State where
  world : World
  output : List Emission
  deriving DecidableEq, Repr

/-- An action of the shell works on the world and prints. -/
abbrev Shell (α : Type) := EStateM Crash Shell.State α

namespace Shell

def emit (es : List Emission) : Shell Unit := fun s =>
  match Emission.print s.world.files.encoding es with
  | (printed, none) => .ok () { s with output := s.output ++ printed }
  | (printed, some fault) => .error (.unprintable fault) { s with output := s.output ++ printed }

def perform {α : Type} (operation : Operation α) : Shell α := fun s =>
  match operation.run s.world with
  | .ok a w => .ok a { s with world := w }
  | .error e w => .error (.failure e) { s with world := w }

/-- A statement as it is shown before it is run. -/
def echo (text : String) : List Emission :=
  match (text.toList.splitOn '\n').map String.ofList with
  | [] => []
  | first :: rest =>
    Emission.line (">>> " ++ first) :: rest.map fun l => Emission.line ("... " ++ l)

def isError (response : String) : Bool := "[ERROR]".toList.isPrefixOf response.toList

/-- Run a statement and print the response; whether it went well. -/
def runStatement (verbose : Bool) (text : String) : Shell Bool := do
  if verbose then emit (echo text)
  let response ← perform (Operation.respond text)
  emit (Emission.response response)
  return !isError response

/-- Run statements up to the first that fails; whether all went well. -/
def runStatements (verbose : Bool) : List String → Shell Bool
  | [] => return true
  | s :: ss => do
    if ← runStatement verbose s then runStatements verbose ss else return false

/-- Run all statements of a script. -/
def runScript (verbose : Bool) (script : String) : Shell Bool :=
  runStatements verbose ((Script.statements script).map Statement.text)

end Shell

end Tabula
