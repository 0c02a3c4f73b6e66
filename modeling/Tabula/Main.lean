import Tabula.Shell.Launch

/-!
# The program

The part of the file system that a run is about is read into a tree of files, and what the run
changes in the tree is written back: at once for a script, and after each line at the console.
-/

namespace Tabula.Main

def usage : String := "usage: tabdb [-h] [-c COMMAND] [-f FILE] [-v] [root_dir]"

/-- The entry at a place, and if `deep` all that are below it. -/
partial def entriesAt (deep : Bool) (place : List String) : IO (List (List String × Entry)) := do
  let path := (← IO.currentDir) / ("/" ++ "/".intercalate place)
  if ← path.isDir then
    let names ← if deep then pure ((← path.readDir).toList.map (·.fileName)) else pure []
    let below ← names.mapM fun n => entriesAt deep (place ++ [n])
    return (place, .directory) :: below.flatten
  else if ← path.pathExists then
    return [(place, .file (Content.ofBytes (← IO.FS.readBinFile path).toList))]
  else return []

/-- The place that a path leads to from a working directory. -/
def placeOf (workingDirectory : List String) (p : Path) : List String :=
  p.names.foldl (fun place n => if n = ".." then place.dropLast else place ++ [n])
    (if p.slashes = 0 then workingDirectory else [])

/-- The entries on the way to a place. -/
def entriesAbove (place : List String) : IO (List (List String × Entry)) := do
  let places := (List.range place.length).tail.map place.take
  return (← places.mapM (entriesAt false)).flatten

/-- The files that a run is about: the script, and all that is below the root of the databases. -/
def load (options : Options) : IO FileTree := do
  let workingDirectory := (Path.ofString (toString (← IO.currentDir))).names
  let root := placeOf workingDirectory options.root
  let mut entries := (← entriesAt false workingDirectory) ++ (← entriesAbove workingDirectory) ++
    (← entriesAbove root) ++ (← entriesAt true root)
  if let some script := options.file then
    let script := placeOf workingDirectory script
    entries := entries ++ (← entriesAbove script) ++ (← entriesAt false script)
  return entries.foldl (fun t (place, e) => if place = [] then t else t.put place e)
    ⟨workingDirectory, [], .utf8⟩

/-- Make the file system what a tree has become. -/
def store (before after : FileTree) : IO Unit := do
  for (place, e) in before.entries.reverse do
    if (after.at? place).isNone then
      let path := "/" ++ "/".intercalate place
      match e with
      | .directory => IO.FS.removeDir path
      | .file _ => IO.FS.removeFile path
  for (place, e) in after.entries do
    if before.at? place ≠ some e then
      let path := "/" ++ "/".intercalate place
      match e with
      | .directory => IO.FS.createDir path
      | .file (.text s) => IO.FS.writeFile path s
      | .file (.binary bytes) => IO.FS.writeBinFile path ⟨bytes.toArray⟩

def print (output : List Emission) : IO Unit := do
  for e in output do
    match e.stream with
    | .output => IO.print e.text
    | .error => IO.eprint e.text
  (← IO.getStdout).flush

def crashed (message : String) : IO UInt32 := do
  IO.eprintln message
  return 1

/-- The bytes of the next line, with its line feed. There are none at the end of the input. -/
partial def lineBytes (stdin : IO.FS.Stream) : IO (List UInt8) := do
  match (← stdin.read 1).toList with
  | [] => return []
  | b :: _ => if b = 10 then return [b] else return b :: (← lineBytes stdin)

def input (bytes : List UInt8) : Console.Input :=
  if bytes.isEmpty then .endOfInput
  else
    match Text.Utf8.decode (bytes.filter (· ≠ 10)) with
    | .ok s => .line s
    | .error fault => .undecodable fault

/-- A session at the console, from its first line on. -/
partial def interact (mode : Console.Mode) (world : World) : IO UInt32 := do
  if mode = .closed then return 0
  let bytes ← lineBytes (← IO.getStdin)
  match (Console.step mode (input bytes)).run ⟨world, []⟩ with
  | .ok mode s =>
    store world.files s.world.files
    print s.output
    interact mode s.world
  | .error crash s =>
    store world.files s.world.files
    print s.output
    crashed crash.message

def run (options : Options) : IO UInt32 := do
  let files ← load options
  match Launch.start options files with
  | .console output session after =>
    store files after
    print output
    interact .ready ⟨session, after⟩
  | .done r =>
    store files r.files
    print r.output
    match r.code with
    | .ok code => return UInt32.ofNat code
    | .error crash => crashed crash.message

def start (args : List String) : IO UInt32 := do
  match Arguments.parse args with
  | .help =>
    IO.println usage
    return 0
  | .misuse =>
    IO.eprintln usage
    return 2
  | .run options => run options

end Tabula.Main

def main (args : List String) : IO UInt32 := Tabula.Main.start args
