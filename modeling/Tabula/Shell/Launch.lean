import Tabula.Shell.Arguments
import Tabula.Shell.Console

/-!
# Running the program

A run executes a script from a file, executes statements given as an argument, or is a session at
the console. It ends with a code, zero if all went well and one if not, unless it breaks off.
-/

namespace Tabula

/-- What is left of a run: how it ended, what it printed and the files. -/
structure Report where
  code : Except Crash Nat
  output : List Emission
  files : FileTree

namespace Launch

/-- A run that ends with a message on the stream for errors. -/
def refused (message : String) (files : FileTree) : Report :=
  ⟨.ok 1, (Emission.print files.encoding [Emission.errorLine message]).1, files⟩

/-- The report of an action in a session, given the code of the run if the action ends. -/
def report {α : Type} (code : α → Nat) (action : Shell α) (session : Session)
    (files : FileTree) : Report :=
  match action.run ⟨⟨session, files⟩, []⟩ with
  | .ok a s => ⟨.ok (code a), s.output, s.world.files⟩
  | .error crash s => ⟨.error crash, s.output, s.world.files⟩

/-- A run that finds its root directory unusable. A failure that no response reports breaks it
off. -/
def unopened (message : String) (e : FileError) (files : FileTree) : Report :=
  if (Failure.file e).isReported then refused (message ++ e.report) files
  else ⟨.error (.failure (.file e)), [], files⟩

/-- Run statements in a new session. -/
def batch (options : Options) (statements : List String) (reason : String) (files : FileTree) :
    Report :=
  match Session.start options.root files with
  | (.error e, files) => unopened reason e files
  | (.ok session, files) =>
    report (fun good => if good then 0 else 1)
      (Shell.runStatements options.verbose statements) session files

/-- The statements of a script, the lines of which are comments or not. -/
def scriptStatements (content : String) : List String :=
  let text := String.ofList (Text.unifyBreaks content.toList)
  (Script.statements (Script.withoutComments text)).map Statement.text

/-- Run the script in a file. -/
def file (options : Options) (path : Path) (files : FileTree) : Report :=
  match files.hasEntry path with
  | .error e => ⟨.error (.failure (.file e)), [], files⟩
  | .ok false => refused s!"Error: File not found: {path}" files
  | .ok true =>
    match files.readFile path with
    | .error e => refused s!"Error reading file: {e.report}" files
    | .ok content =>
      match content.read with
      | .error fault => ⟨.error (.undecodable fault), [], files⟩
      | .ok text =>
        match scriptStatements text with
        | [] => refused "No statements found in file" files
        | statements => batch options statements "Error opening database root: " files

/-- Run the statements in a text. -/
def text (options : Options) (statements : String) (files : FileTree) : Report :=
  batch options ((Script.statements statements).map Statement.text) "Error: " files

/-- A run that may still have to be given input. -/
inductive Start
  | done (r : Report)
  /-- A session at the console that has greeted and asks for its first line. -/
  | console (output : List Emission) (session : Session) (files : FileTree)

def console (options : Options) (files : FileTree) : Start :=
  let greeting := (Shell.greeting (toString options.root)).map Emission.line
  match Emission.print files.encoding greeting with
  | (greeting, some fault) => .done ⟨.error (.unprintable fault), greeting, files⟩
  | (greeting, none) =>
    match Session.start options.root files with
    | (.error e, files) =>
      let r := unopened "Error opening database root: " e files
      .done { r with output := greeting ++ r.output }
    | (.ok session, files) => .console (greeting ++ Console.prompt .ready) session files

def start (options : Options) (files : FileTree) : Start :=
  match options.file with
  | some path => .done (file options path files)
  | none =>
    match options.command with
    | none | some "" => console options files
    | some statements => .done (text options statements files)

/-- A whole run, given all lines of the input and what comes after the last one. -/
def run (options : Options) (lines : List String) (ending : Console.Input) (files : FileTree) :
    Report :=
  match start options files with
  | .done r => r
  | .console output session files =>
    let r := report (fun _ => 0)
      (Console.steps .ready (lines.map .line ++ [ending, ending])) session files
    { r with output := output ++ r.output }

end Launch

end Tabula
