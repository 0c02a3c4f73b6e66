import Tabula.Text.Case

/-!
# Commands

What a statement asks for. Names of databases, tables and columns and the values of cells are
texts; a condition is kept as the text it is written in and read when the command runs.
-/

namespace Tabula

/-- What an alteration of a table does with a column. A word that names neither way is kept, and is
refused when the command runs. -/
inductive Alteration
  | add
  | drop
  | other (word : String)
  deriving DecidableEq, Repr

namespace Alteration

/-- The alteration that a word names, in any letter case. -/
def ofWord (word : String) : Alteration :=
  if Text.upper word = "ADD" then add else if Text.upper word = "DROP" then drop else other word

end Alteration

/-- The columns that a query shows. -/
inductive Projection
  | all
  | columns (names : List String)
  deriving DecidableEq, Repr

namespace Projection

/-- A list that holds nothing but a star shows every column. -/
def ofNames (names : List String) : Projection := if names = ["*"] then all else columns names

def names : Projection → List String
  | all => ["*"]
  | columns names => names

@[simp] theorem names_ofNames (names : List String) : (ofNames names).names = names := by
  unfold ofNames
  split <;> simp_all [Projection.names]

end Projection

inductive Command
  | use (database : String)
  | createDatabase (database : String)
  | createTable (table : String) (columns : List String)
  | dropDatabase (database : String)
  | dropTable (table : String)
  | alterTable (table : String) (alteration : Alteration) (column : String)
  | insert (table : String) (values : List String)
  | select (table : String) (columns : Projection) (condition : Option String)
  | update (table : String) (assignments : List (String × String)) (condition : String)
  | delete (table : String) (condition : String)
  | join (leftTable rightTable leftAttribute rightAttribute : String)
  deriving DecidableEq, Repr

end Tabula
