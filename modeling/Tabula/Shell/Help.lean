/-!
# The greeting and the help text of the shell
-/

namespace Tabula.Shell

/-- What the shell says first, given the root of its databases. -/
def greeting (root : String) : List String :=
  ["tabdb REPL", "Database root: " ++ root, "Type 'help' for commands, 'exit' to quit.", ""]

def help : List String := [
  "",
  "tabdb statements (keywords are case-insensitive, end each with ';'):",
  "",
  "DATABASES:",
  "  CREATE DATABASE <db>;                      Create and select a database",
  "  USE <db>;                                  Select a database",
  "  DROP DATABASE <db>;                        Delete a database and its tables",
  "",
  "TABLES:",
  "  CREATE TABLE <t> [(<col>, ...)];           Create a table ('id' is added first)",
  "  ALTER TABLE <t> ADD|DROP <col>;            Add or remove a column",
  "  DROP TABLE <t>;                            Delete a table",
  "",
  "ROWS:",
  "  INSERT INTO <t> VALUES (<value>, ...);     Append a row (id is assigned)",
  "  SELECT *|<col>, ... FROM <t> [WHERE <c>];  Query rows",
  "  UPDATE <t> SET <col> = <value>, ... WHERE <c>;",
  "  DELETE FROM <t> WHERE <c>;",
  "  JOIN <t1> AND <t2> ON <col1> AND <col2>;   Equi-join two tables",
  "",
  "CONDITIONS:",
  "  <col> <op> <value>                         op is one of == != > < >= <= LIKE",
  "  (<term>) AND (<term>) ...                  Grouped terms, all AND or all OR",
  "",
  "VALUES:",
  "  'text'  42  -1.5  TRUE  FALSE  NULL",
  "",
  "OTHER:",
  "  databases                Show all databases",
  "  tables                   Show tables of the selected database",
  "  help                     Show this help",
  "  exit, quit               Exit the REPL",
  "",
  "Statements can span multiple lines. End with a semicolon or press Enter on an empty line.",
  ""]

end Tabula.Shell
