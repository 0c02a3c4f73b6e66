import Tabula.Command
import Tabula.Text.Case
import Tabula.Token.Cursor
import Tabula.Token.Lexer

/-!
# From tokens to commands

A statement is read from left to right with one token of lookahead, by this grammar:

    use       USE name
    create    CREATE DATABASE name | CREATE TABLE name [ "(" names ")" ]
    drop      DROP DATABASE name | DROP TABLE name
    alter     ALTER TABLE name (ADD | DROP) name
    insert    INSERT INTO name VALUES "(" literal ("," literal)* ")"
    select    SELECT ("*" | names) FROM name [ WHERE condition ]
    update    UPDATE name SET name "=" literal ("," name "=" literal)* WHERE condition
    delete    DELETE FROM name WHERE condition
    join      JOIN name AND name ON name AND name
    names     name ("," name)*

The first word is recognised by its text in capitals and every other token by its kind. A condition
is all that stands before the terminator, at least one token. The terminator ends the statement,
and nothing after it is looked at. An error names what is wanted in place of the token at its
position.
-/

namespace Tabula

/-- What a statement lacks at some token. -/
inductive Wanted
  | databaseName (after : List Keyword)
  | tableName (after : List Keyword)
  | databaseOrTable (after : Keyword)
  | attributeName (place : String)
  | starOrAttributeName
  | keyword (k : Keyword) (after : String)
  | openParen
  | closeParen (place : String)
  | andBetween (what : String)
  | alteration
  | assignment (column : String)
  | literal (found : String)
  /-- A part of the statement is missing altogether. -/
  | part (what : String)
  | terminator
  deriving DecidableEq, Repr

def Wanted.message : Wanted → String
  | databaseName after => s!"Expected database name after {words after}"
  | tableName after => s!"Expected table name after {words after}"
  | databaseOrTable after => s!"Expected DATABASE or TABLE after {after.spelling}"
  | attributeName place => s!"Expected attribute name in {place}"
  | starOrAttributeName => "Expected '*' or attribute name after SELECT"
  | keyword k after => s!"Expected {k.spelling} after {after}"
  | openParen => "Expected '(' after VALUES"
  | closeParen place => s!"Missing closing parenthesis in {place}"
  | andBetween what => s!"Expected AND between {what}"
  | alteration => "Missing alteration type, expected ADD or DROP"
  | assignment column => s!"Expected '=' after {column}"
  | literal found => s!"Expected a literal value, got '{found}'"
  | part what => s!"Missing {what}"
  | terminator => "Expected ';' at end of statement"
where
  words (ks : List Keyword) : String := String.intercalate " " (ks.map Keyword.spelling)

/-- Why a text is no statement. -/
inductive StatementError
  | lexical (e : LexicalError)
  /-- The first word starts no command. -/
  | unknownCommand (word : String) (pos : Nat)
  | grammar (wanted : Wanted) (pos : Nat)
  deriving DecidableEq, Repr

namespace StatementError

def message : StatementError → String
  | lexical e => e.message
  | unknownCommand word _ => s!"Invalid command type: {word}"
  | grammar wanted _ => wanted.message

def position : StatementError → Nat
  | lexical e => e.position
  | unknownCommand _ pos | grammar _ pos => pos

end StatementError

/-- A parser reads at a cursor and moves it past what it has read. -/
abbrev Parser (α : Type) := StateT (Cursor Kind) (Except StatementError) α

namespace Parser

/-- Pass over a token of kind `k`. -/
def take (k : Kind) (wanted : Wanted) : Parser (Token Kind) := do
  let c ← get
  match c.expect k with
  | .ok t =>
    set c.advance
    return t
  | .error u => throw (.grammar wanted u.found.pos)

/-- Pass over a token of kind `k` if the cursor is at one. -/
def skip (k : Kind) : Parser Bool := do
  let c ← get
  if c.isAt k then
    set c.advance
    return true
  else return false

def fail {α : Type} (wanted : Wanted) : Parser α := do
  throw (.grammar wanted (← get).current.pos)

def name (wanted : Wanted) : Parser String := return (← take .identifier wanted).text

def literal : Parser String := do
  let c ← get
  if c.current.kind.isLiteral then
    set c.advance
    return c.current.text
  else fail (.literal c.current.describe)

/-- One item, then another one after each comma. -/
def commaList {α : Type} (item : Parser α) :
    Cursor Kind → Except StatementError (List α × Cursor Kind) := fun c =>
  match item c with
  | .error e => .error e
  | .ok (a, d) =>
    if d.isAt .comma then
      if _h : d.advance.ahead.length < c.ahead.length then
        match commaList item d.advance with
        | .error e => .error e
        | .ok (as, e) => .ok (a :: as, e)
      else .ok ([a], d)
    else .ok ([a], d)
termination_by c => c.ahead.length

def names (wanted : Wanted) : Parser (List String) := commaList (name wanted)

def literals : Parser (List String) := commaList literal

def assignment : Parser (String × String) := do
  let column ← name (.attributeName "SET clause")
  let _ ← take .assign (.assignment column)
  return (column, ← literal)

def assignments : Parser (List (String × String)) := commaList assignment

def inCondition (t : Token Kind) : Bool := t.kind ≠ .terminator && t.kind ≠ .endOfText

/-- A token as a condition text has it: strings are in quotes again. -/
def spelled (t : Token Kind) : String := if t.kind = .string then s!"'{t.text}'" else t.text

def condition : Parser String := do
  let c ← get
  let texts := (c.ahead.takeWhile inCondition).map spelled
  if texts.isEmpty then fail (.part "condition after WHERE")
  set { c with ahead := c.ahead.dropWhile inCondition }
  return String.intercalate " " texts

def use : Parser Command := return .use (← name (.databaseName [.USE]))

def create : Parser Command := do
  if ← skip (.keyword .DATABASE) then
    return .createDatabase (← name (.databaseName [.CREATE, .DATABASE]))
  else
    let _ ← take (.keyword .TABLE) (.databaseOrTable .CREATE)
    let table ← name (.tableName [.CREATE, .TABLE])
    if ← skip .openParen then
      let columns ← names (.attributeName "CREATE TABLE")
      let _ ← take .closeParen (.closeParen "CREATE TABLE")
      return .createTable table columns
    else return .createTable table []

def drop : Parser Command := do
  if ← skip (.keyword .DATABASE) then
    return .dropDatabase (← name (.databaseName [.DROP, .DATABASE]))
  else
    let _ ← take (.keyword .TABLE) (.databaseOrTable .DROP)
    return .dropTable (← name (.tableName [.DROP, .TABLE]))

def alteration : Parser Alteration := do
  if ← skip (.keyword .ADD) then return .add
  else if ← skip (.keyword .DROP) then return .drop
  else fail .alteration

def alter : Parser Command := do
  let _ ← take (.keyword .TABLE) (.keyword .TABLE "ALTER")
  let table ← name (.tableName [.ALTER, .TABLE])
  let alteration ← alteration
  return .alterTable table alteration (← name (.part "attribute name in ALTER TABLE"))

def insert : Parser Command := do
  let _ ← take (.keyword .INTO) (.keyword .INTO "INSERT")
  let table ← name (.tableName [.INSERT, .INTO])
  let _ ← take (.keyword .VALUES) (.keyword .VALUES "table name")
  let _ ← take .openParen .openParen
  let values ← literals
  let _ ← take .closeParen (.closeParen "INSERT")
  return .insert table values

def projection : Parser Projection := do
  if ← skip .star then return .all
  else return .columns (← names .starOrAttributeName)

def select : Parser Command := do
  let columns ← projection
  let _ ← take (.keyword .FROM) (.keyword .FROM "attribute list")
  let table ← name (.tableName [.FROM])
  if ← skip (.keyword .WHERE) then return .select table columns (some (← condition))
  else return .select table columns none

def update : Parser Command := do
  let table ← name (.tableName [.UPDATE])
  let _ ← take (.keyword .SET) (.keyword .SET "table name")
  let assignments ← assignments
  let _ ← take (.keyword .WHERE) (.keyword .WHERE "assignments")
  return .update table assignments (← condition)

def delete : Parser Command := do
  let _ ← take (.keyword .FROM) (.keyword .FROM "DELETE")
  let table ← name (.tableName [.DELETE, .FROM])
  let _ ← take (.keyword .WHERE) (.keyword .WHERE "table name")
  return .delete table (← condition)

def join : Parser Command := do
  let leftTable ← name (.part "table name after JOIN")
  let _ ← take (.keyword .AND) (.andBetween "table names")
  let rightTable ← name (.part "second table name")
  let _ ← take (.keyword .ON) (.keyword .ON "table names")
  let leftAttribute ← name (.part "attribute name after ON")
  let _ ← take (.keyword .AND) (.andBetween "attribute names")
  return .join leftTable rightTable leftAttribute (← name (.part "second attribute name"))

/-- The parser of what follows the first word of a command. -/
def body? : Keyword → Option (Parser Command)
  | .USE => some use
  | .CREATE => some create
  | .DROP => some drop
  | .ALTER => some alter
  | .INSERT => some insert
  | .SELECT => some select
  | .UPDATE => some update
  | .DELETE => some delete
  | .JOIN => some join
  | _ => none

def statement : Parser Command := do
  let c ← get
  let first := c.current
  match (Keyword.ofSpelling? (Text.upper first.text)).bind body? with
  | none => throw (.unknownCommand first.text first.pos)
  | some body =>
    set c.advance
    let command ← body
    let _ ← take .terminator .terminator
    return command

end Parser

/-- The command that a text states. -/
def Command.parse (text : String) : Except StatementError Command := do
  let tokens ← (statementTokens text).mapError .lexical
  let (command, _) ← Parser.statement.run ⟨tokens, endToken text⟩
  return command

end Tabula
