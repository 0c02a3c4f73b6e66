import Tabula.Command.Parser
import Tabula.Editor.Position
import Tabula.Script

/-!
# Diagnostics

Each statement of a document that cannot be parsed is marked at the character where its error is.
-/

namespace Tabula.Editor

/-- A message on the characters from `first` to `last`, the last one not included. -/
structure Diagnostic where
  first : Position
  last : Position
  message : String
  deriving DecidableEq, Repr

/-- The error of a statement, as an offset in the script and a message. -/
def statementError? (s : Statement) : Option (Nat × String) :=
  match Command.parse s.text with
  | .ok _ => none
  | .error e => some (s.offset + e.position, e.message)

def diagnostic (source : String) (offset : Nat) (message : String) : Diagnostic :=
  let first := position source (min offset source.length)
  ⟨first, { first with character := first.character + 1 }, message⟩

/-- The diagnostics of all statements of a document, in order. -/
def diagnostics (source : String) : List Diagnostic :=
  ((Script.statements (Script.withoutComments source)).filterMap statementError?).map
    fun (offset, message) => diagnostic source offset message

end Tabula.Editor
