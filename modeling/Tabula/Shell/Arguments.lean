import Tabula.FileTree.Path
import Tabula.Text.Digit

/-!
# Arguments

The arguments of a run are flags and at most one plain argument, the root of the databases, in any
order. A flag has a short form of one letter and a long form. The value of a flag may follow it in
the same argument, after an equals sign or (for a short flag) right away, or in the next one. Short
flags may be joined in one argument; the first may be cut off by an equals sign, and after any other
an equals sign belongs to the value. A long flag may be cut short as long as it is clear which is
meant. All that follows two hyphens is plain.
-/

namespace Tabula

/-- What a run is asked for. -/
structure Options where
  root : Path := Path.ofString "databases"
  command : Option String := none
  file : Option Path := none
  verbose : Bool := false
  deriving DecidableEq, Repr

/-- What arguments come to. -/
inductive Invocation
  | run (options : Options)
  /-- The usage is asked for. -/
  | help
  | misuse
  deriving DecidableEq, Repr

namespace Arguments

inductive Flag
  | help
  | command
  | file
  | verbose
  deriving DecidableEq, Repr

namespace Flag

def all : List Flag := [help, command, file, verbose]

def letter : Flag → Char
  | help => 'h'
  | command => 'c'
  | file => 'f'
  | verbose => 'v'

def name : Flag → String
  | help => "help"
  | command => "command"
  | file => "file"
  | verbose => "verbose"

def takesValue : Flag → Bool
  | command | file => true
  | help | verbose => false

def ofLetter? (c : Char) : Option Flag := all.find? (·.letter = c)

end Flag

/-! ### Single arguments -/

/-- What an argument is taken for. -/
inductive Word
  | plain (s : String)
  /-- A short flag, and what follows it in the same argument, an equals sign between them left
  out. -/
  | short (f : Flag) (rest : Option (List Char))
  /-- A long flag, and what follows the equals sign. -/
  | long (f : Flag) (value : Option String)
  | unknown
  deriving DecidableEq, Repr

/-- Whether what follows a hyphen writes a number, so that the argument is plain. -/
def isNumber (s : List Char) : Bool :=
  let s := if s.getLast? = some '\n' then s.dropLast else s
  match s.dropWhile Text.isDigit with
  | [] => !s.isEmpty
  | '.' :: fraction => !fraction.isEmpty && fraction.all Text.isDigit
  | _ => false

/-- An argument that starts with a hyphen and is no flag. -/
def noFlag (s : String) : Word :=
  if isNumber s.toList.tail || s.contains ' ' then .plain s else .unknown

/-- What a long flag is taken for, given what follows the hyphens. None if it is not clear. -/
def longWord? (s : String) (body : List Char) : Option Word :=
  let name := body.takeWhile (· ≠ '=')
  let value := match body.dropWhile (· ≠ '=') with
    | _ :: value => some (String.ofList value)
    | [] => none
  match Flag.all.filter fun f => name.isPrefixOf f.name.toList with
  | [] => some (noFlag s)
  | [f] => some (.long f value)
  | _ => none

/-- What follows a short flag in the same argument, without an equals sign in front. -/
def afterShort : List Char → Option (List Char)
  | [] => none
  | '=' :: s => some s
  | s => some s

/-- What an argument is taken for. None if that is not clear. -/
def word? (s : String) : Option Word :=
  match s.toList with
  | '-' :: '-' :: body => longWord? s body
  | '-' :: c :: rest =>
    match Flag.ofLetter? c with
    | some f => some (.short f (afterShort rest))
    | none => some (noFlag s)
  | _ => some (.plain s)

/-! ### Flags -/

/-- What the flags of one argument come to. -/
structure Joined where
  /-- The flags without a value. -/
  flags : List Flag := []
  /-- The last flag, if it takes a value, and the value if it is there. -/
  valued : Option (Flag × Option String) := none
  deriving DecidableEq, Repr

/-- Short flags joined in one argument: `f`, and the letters after it. None if a letter is neither a
flag nor part of a value. -/
def joined? (f : Flag) : List Char → Option Joined
  | [] => if f.takesValue then some { valued := some (f, none) } else some { flags := [f] }
  | c :: s =>
    if f.takesValue then some { valued := some (f, some (String.ofList (c :: s))) }
    else do
      let j ← joined? (← Flag.ofLetter? c) s
      return { j with flags := f :: j.flags }

/-- A flag that no other is joined to, as joined flags are given. None if it has a value that it
does not take. -/
def alone? (f : Flag) (value : Option String) : Option Joined :=
  if f.takesValue then some { valued := some (f, value) }
  else if value.isSome then none
  else some { flags := [f] }

/-- A short flag and what follows it. An equals sign with nothing after it gives an empty value. -/
def short? (f : Flag) : Option (List Char) → Option Joined
  | none => joined? f []
  | some [] => alone? f (some "")
  | some rest => joined? f rest

/-! ### All arguments -/

/-- How far the arguments have been read. -/
structure Progress where
  options : Options := {}
  /-- Whether the root has been given, and whether it was the last argument read. -/
  rooted : Bool := false
  rootLast : Bool := false
  /-- Whether there was an argument that nothing is known of. -/
  excess : Bool := false
  deriving DecidableEq, Repr

/-- Take a plain argument: the root if none has been given. -/
def Progress.plain (p : Progress) (s : String) : Progress :=
  if p.rooted then { p with rootLast := false, excess := true }
  else
    { p with
      options := { p.options with root := Path.ofString s }, rooted := true, rootLast := true }

/-- Set a flag to a value. Two hyphens are no value: the flag is then as if it had never been
given. -/
def setValue (o : Options) (f : Flag) (word : String) : Options :=
  let value := if word = "--" then none else some word
  match f with
  | .command => { o with command := value }
  | .file => { o with file := value.map Path.ofString }
  | .help | .verbose => o

/-- Take the flags without a value of one argument. None if they ask for help. -/
def setFlags (o : Options) : List Flag → Option Options
  | [] => some o
  | .help :: _ => none
  | .verbose :: fs => setFlags { o with verbose := true } fs
  | _ :: fs => setFlags o fs

/-- The value of the last flag of an argument, given the next argument. It is asked for before any
of the flags is taken. -/
def value? (j : Joined) (next : Option Word) : Option (Option (Flag × String)) :=
  match j.valued with
  | none => some none
  | some (f, some s) => some (some (f, s))
  | some (f, none) =>
    match next with
    | some (.plain s) => some (some (f, s))
    | _ => none

/-- Take the flags of one argument, or say what comes of them instead. -/
def Progress.flags (p : Progress) (j : Joined) (next : Option Word) :
    Except Invocation Progress :=
  match value? j next with
  | none => .error .misuse
  | some value =>
    match setFlags p.options j.flags with
    | none => .error .help
    | some o =>
      let o := match value with
        | some (f, s) => setValue o f s
        | none => o
      .ok { p with options := o, rootLast := false }

/-- Whether the flags of an argument take the next argument as a value. -/
def Joined.takesNext (j : Joined) : Bool :=
  match j.valued with
  | some (_, none) => true
  | _ => false

/-- What follows two hyphens. The root that has just been given, or is still to be given, may have
them beside it; anywhere else they are one argument too many. -/
def Progress.close (p : Progress) : Option (List String) → Invocation
  | none => if p.excess then .misuse else .run p.options
  | some plain =>
    let p := if p.rooted && !p.rootLast then { p with excess := true } else p
    let p := plain.foldl Progress.plain p
    if p.excess then .misuse else .run p.options

/-- Read what the arguments before two hyphens are taken for, and then those after them; `taken`
says that the first argument is the value of a flag and has been read. -/
def read (p : Progress) (taken : Bool) (rest : Option (List String)) : List Word → Invocation
  | [] => p.close rest
  | w :: ws =>
    if taken then read p false rest ws
    else
      let flags (j? : Option Joined) : Except Invocation (Progress × Bool) :=
        match j? with
        | none => .error .misuse
        | some j => (p.flags j ws.head?).map fun p => (p, j.takesNext)
      let next : Except Invocation (Progress × Bool) := match w with
        | .plain s => .ok (p.plain s, false)
        | .unknown => .ok ({ p with rootLast := false, excess := true }, false)
        | .short f text => flags (short? f text)
        | .long f value => flags (alone? f value)
      match next with
      | .error outcome => outcome
      | .ok (p, taken) => read p taken rest ws

/-- What the arguments of a run come to. -/
def parse (args : List String) : Invocation :=
  let before := args.takeWhile (· ≠ "--")
  let rest := if args.contains "--" then some (args.dropWhile (· ≠ "--")).tail else none
  match before.mapM word? with
  | none => .misuse
  | some words => read {} false rest words

end Arguments

end Tabula
