import Tabula.Text.Case

/-!
# The vocabulary of the query language

The words that an editor offers and explains.
-/

namespace Tabula.Editor

/-- A word in small letters, with what it means. -/
structure Explanation where
  word : String
  meaning : String
  deriving DecidableEq, Repr

def vocabulary : List Explanation := [
  ⟨"use", "Select a database for the following statements"⟩,
  ⟨"create", "Create a database or a table"⟩,
  ⟨"database", "Used with 'create', 'drop' and 'use'"⟩,
  ⟨"table", "Used with 'create table', 'alter table' and 'drop table'"⟩,
  ⟨"drop", "Delete a database or a table"⟩,
  ⟨"alter", "Add or remove a table column"⟩,
  ⟨"add", "Used with 'alter table … add'"⟩,
  ⟨"insert", "Append a row to a table"⟩,
  ⟨"into", "Used with 'insert into'"⟩,
  ⟨"values", "Row values of an insert"⟩,
  ⟨"select", "Query rows, optionally projecting columns"⟩,
  ⟨"from", "Source table of a select or delete"⟩,
  ⟨"where", "Filter clause — restricts rows by a condition"⟩,
  ⟨"update", "Modify columns on rows matching a condition"⟩,
  ⟨"set", "Used with 'update … set'"⟩,
  ⟨"delete", "Remove rows matching a condition"⟩,
  ⟨"join", "Equi-join two tables on one attribute each"⟩,
  ⟨"on", "Join attributes of a join"⟩,
  ⟨"and", "Logical AND of grouped conditions, or join separator"⟩,
  ⟨"or", "Logical OR of grouped conditions"⟩,
  ⟨"like", "Substring match operator"⟩,
  ⟨"null", "Absence-of-value literal"⟩,
  ⟨"true", "Boolean literal"⟩,
  ⟨"false", "Boolean literal"⟩]

/-- The explanation of a word, in any letter case. -/
def explanation? (word : String) : Option Explanation :=
  vocabulary.find? (·.word = Text.lower word)

end Tabula.Editor
