import Tabula.Table
import Tabula.Text.Line

/-!
# Table files

The file of a table has the header in its first line and a row in each line after it, the cells
parted by tabs. Nothing is escaped, so a cell that holds a tab or a line break is read back as more
than one.

A row may lack its last cell if that is empty, as editors cut blanks off the ends of lines; the
cells that it has too many are dropped. An empty file is a table with nothing but an `id` column.
-/

namespace Tabula.Table

/-- Cells as a line of the file has them. -/
def line (cells : List String) : String := "\t".intercalate cells

/-- The cells of a line. -/
def fields (line : String) : List String :=
  (line.toList.splitOn '\t').map String.ofList

/-- The lines of a table, the last one without a line break. -/
def text (t : Table) : String :=
  "\n".intercalate (line t.headers :: t.rows.map fun r => line r.values)

/-- What the file of a table holds. -/
def fileText (t : Table) : String := t.text ++ "\n"

/-- The row that line `number` states. -/
def readRow (table : String) (headers : List String) (number : Nat) (line : String) :
    Except TableError Row :=
  let given := fields line
  let values := if given.length < headers.length then given ++ [""] else given
  if values.length < headers.length then
    .error (.malformedRow number table headers.length given.length)
  else (Row.ofValues headers (values.take headers.length)).mapError .shape

/-- The rows of the lines from line `number` on. -/
def readRows (table : String) (headers : List String) (number : Nat) :
    List String → Except TableError (List Row)
  | [] => .ok []
  | l :: ls => do
    let row ← readRow table headers number l
    return row :: (← readRows table headers (number + 1) ls)

/-- The table that a file states; the text is that of the file as it is. -/
def read (name content : String) : Except TableError Table :=
  match (Text.lines (Text.unifyBreaks content.toList)).map String.ofList with
  | [] => .ok (empty name [idColumn])
  | first :: rest => do
    let headers := fields first
    return ⟨name, headers, ← readRows name headers 2 rest⟩

end Tabula.Table
