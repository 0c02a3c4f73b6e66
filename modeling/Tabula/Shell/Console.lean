import Tabula.Shell.Batch
import Tabula.Shell.Help
import Tabula.Text.Case

/-!
# The console

The console reads lines. A line is a word of the console's own, which asks for help, shows what
there is or ends the session, or it begins a statement. A statement goes on in the next lines until
it is complete, or until a blank line or the end of the input leaves it as it is.
-/

namespace Tabula.Console

/-- What the console reads next. -/
inductive Input
  | line (s : String)
  | endOfInput
  | interrupt
  /-- The input goes on with bytes that are no text. -/
  | undecodable (fault : Text.Utf8.Fault)
  deriving DecidableEq, Repr

/-- What the console waits for: a new line, more of a statement, or nothing any more. -/
inductive Mode
  | ready
  | continuing (statement : String)
  | closed
  deriving DecidableEq, Repr

def prompt : Mode → List Emission
  | .ready => [⟨.output, "tabdb> "⟩]
  | .continuing _ => [⟨.output, "...> "⟩]
  | .closed => []

/-- The words of the console's own. -/
inductive Word
  | exit
  | help
  | databases
  | tables
  deriving DecidableEq, Repr

def semicolonsOff (s : List Char) : List Char := (s.reverse.dropWhile (· = ';')).reverse

/-- The word that a line is, in any letter case and with semicolons after it or not. -/
def Word.ofLine? (line : String) : Option Word :=
  let word := String.ofList (Text.trim (semicolonsOff (Text.lower line).toList))
  if word = "exit" ∨ word = "quit" then some exit
  else if word = "help" then some help
  else if word = "databases" then some databases
  else if word = "tables" then some tables
  else none

def emitLines (lines : List String) : Shell Unit := Shell.emit (lines.map Emission.line)

def answer : Word → Shell Mode
  | .exit => return .closed
  | .help => do
    emitLines Shell.help
    return .ready
  | .databases => do
    emitLines (← Shell.perform Operation.databases)
    emitLines [""]
    return .ready
  | .tables => do
    if (← get).world.session.selected.isNone then emitLines ["No database selected."]
    emitLines (← Shell.perform Operation.tables)
    emitLines [""]
    return .ready

/-- Run all that has been read of a statement. It may be several statements. -/
def finish (statement : String) : Shell Mode := do
  let _ ← Shell.runScript false statement
  emitLines [""]
  return .ready

/-- Wait for more of a statement if it goes on, and run it otherwise. -/
def consider (statement : String) : Shell Mode :=
  if Script.isUnfinished statement then return .continuing statement else finish statement

/-- Take in what is read, and say what to wait for next. -/
def react : Mode → Input → Shell Mode
  | .closed, _ => return .closed
  | _, .undecodable fault => throw (.undecodable fault)
  | _, .interrupt => do
    emitLines [""]
    return .closed
  | .ready, .endOfInput => do
    emitLines [""]
    return .closed
  | .continuing statement, .endOfInput => finish statement
  | .ready, .line s =>
    let line := Text.strip s
    if line = "" then return .ready
    else match Word.ofLine? line with
      | some word => answer word
      | none => consider line
  | .continuing statement, .line s =>
    let line := Text.strip s
    if line = "" then finish statement else consider (statement ++ " " ++ line)

/-- Take in what is read and ask for more. -/
def step (mode : Mode) (input : Input) : Shell Mode := do
  let next ← react mode input
  Shell.emit (prompt next)
  return next

/-- Take in one input after the other. -/
def steps (mode : Mode) : List Input → Shell Mode
  | [] => return mode
  | i :: is => do steps (← step mode i) is

end Tabula.Console
