/-!
# Answers

The answer to a statement is a table, which has no columns if the statement shows none, and the
warnings that came up.
-/

namespace Tabula

structure Answer where
  columns : List String := []
  rows : List (List String) := []
  warnings : List String := []
  deriving DecidableEq, Repr

namespace Answer

/-- The lines of a response: that all went well, the table with its header, the warnings. -/
def lines (a : Answer) : List String :=
  let table :=
    if a.columns = [] then []
    else "\t".intercalate a.columns :: a.rows.map fun row => "\t".intercalate row
  "[OK]" :: table ++ a.warnings.map fun w => s!"[WARNING] {w}"

/-- The response, each line ended by a line break. -/
def text (a : Answer) : String := String.join (a.lines.map (· ++ "\n"))

end Answer

end Tabula
