import Tabula.Text.Blank
import Tabula.Text.Line

/-!
# Scripts

A script is a text of several statements. It is cut after every semicolon that stands outside
quotes, and each piece that is not blank is a statement, without the blanks around it. What follows
the last semicolon is a statement too, so that its reader can say what is missing.

A line that begins with two hyphens is a comment. It is blanked out rather than removed, which
leaves every offset as it was.
-/

namespace Tabula

/-- A statement of a script, with the offset of its first character. -/
structure Statement where
  offset : Nat
  text : String
  deriving DecidableEq, Repr

namespace Script

/-- The pieces of a text, the last one after the last semicolon outside quotes. -/
def pieces (inQuotes : Bool) : List Char → List (List Char)
  | [] => [[]]
  | c :: s =>
    if c = '\'' then Text.consFirst c (pieces (!inQuotes) s)
    else if c = ';' && !inQuotes then [c] :: pieces inQuotes s
    else Text.consFirst c (pieces inQuotes s)

def statementsFrom (offset : Nat) : List (List Char) → List Statement
  | [] => []
  | p :: ps =>
    let body := Text.trimStart p
    let statements := statementsFrom (offset + p.length) ps
    if body.isEmpty then statements
    else ⟨offset + (p.length - body.length), String.ofList (Text.trimEnd body)⟩ :: statements

def statements (script : String) : List Statement :=
  statementsFrom 0 (pieces false script.toList)

def isComment (line : List Char) : Bool := ['-', '-'].isPrefixOf (Text.trim line)

def blankOut (line : List Char) : List Char :=
  if isComment line then List.replicate line.length ' ' else line

/-- A script with its comments blanked out. -/
def withoutComments (script : String) : String :=
  String.ofList (List.intercalate ['\n'] ((script.toList.splitOn '\n').map blankOut))

/-- Whether a line is the beginning of a statement that goes on: it is not blank, and does not end
in a semicolon after an even number of quotes. -/
def isUnfinished (line : String) : Bool :=
  let s := Text.trim line.toList
  !s.isEmpty && !(s.getLast? = some ';' && s.count '\'' % 2 = 0)

/-- Nothing is lost when a text is cut into pieces. -/
theorem flatten_pieces (q : Bool) (s : List Char) : (pieces q s).flatten = s := by
  fun_induction pieces q s <;> simp_all

end Script

end Tabula
