import Tabula.Session.Change
import Tabula.Session.Database

/-!
# Statements

A statement is parsed and its command carried out. The response says what came of it, in lines.
-/

namespace Tabula

def Command.run : Command → Operation Answer
  | use database => Operation.useDatabase database
  | createDatabase database => Operation.createDatabase database
  | createTable table columns => Operation.createTable table columns
  | dropDatabase database => Operation.dropDatabase database
  | dropTable table => Operation.dropTable table
  | alterTable table alteration column => Operation.alterTable table alteration column
  | insert table values => Operation.insertInto table values
  | select table columns condition => Operation.selectFrom table columns condition
  | update table assignments condition => Operation.updateTable table assignments condition
  | delete table condition => Operation.deleteFrom table condition
  | join leftTable rightTable leftColumn rightColumn =>
    Operation.join leftTable rightTable leftColumn rightColumn

namespace Operation

/-- Carry out the statement that a text is. -/
def execute (text : String) : Operation Answer := do
  let command ← lift .statement (Command.parse text)
  command.run

/-- The response to a statement. A failure that no response reports remains one. -/
def respond (text : String) : Operation String := do
  try
    return (← execute text).text
  catch failure =>
    if failure.isReported then return s!"[ERROR] {failure.message}\n" else throw failure

end Operation

end Tabula
