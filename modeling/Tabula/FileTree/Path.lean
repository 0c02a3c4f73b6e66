/-!
# Paths

A path is a list of names, each to be looked up in the directory that the names before it lead to.
A path that starts with a slash is looked up from the root of all files, and keeps its one or two
slashes. Empty names and names of one dot lead nowhere and are dropped; the empty path is the
working directory.
-/

namespace Tabula

structure Path where
  slashes : Nat
  names : List String
  deriving DecidableEq, Repr

namespace Path

/-- The slashes that count at the start of a path: more than two are as good as one. -/
def leadingSlashes (s : List Char) : Nat :=
  let n := (s.takeWhile (· = '/')).length
  if n ≤ 2 then n else 1

def ofString (s : String) : Path where
  slashes := leadingSlashes s.toList
  names := ((s.toList.splitOn '/').map String.ofList).filter fun n => n ≠ "" && n ≠ "."

instance : ToString Path where
  toString p :=
    let s := String.ofList (List.replicate p.slashes '/') ++ "/".intercalate p.names
    if s = "" then "." else s

/-- The path that `s` leads to from `p`. -/
def join (p : Path) (s : String) : Path :=
  let q := ofString s
  if q.slashes = 0 then { p with names := p.names ++ q.names } else q

def parent (p : Path) : Path := { p with names := p.names.dropLast }

end Path

end Tabula
