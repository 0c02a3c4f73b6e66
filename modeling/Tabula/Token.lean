/-!
# Tokens

A statement is a list of tokens. A token has a kind, a text and the offset of its first character.
The kinds of the query language are the words and symbols of its grammar; what reads tokens without
knowing the grammar, such as a cursor, takes any type of kinds.
-/

namespace Tabula

structure Token (κ : Type) where
  kind : κ
  text : String
  pos : Nat
  deriving DecidableEq, Repr

/-- A type of token kinds: each has a name, and one of them marks the end of the text. -/
class TokenKind (κ : Type) where
  label : κ → String
  endOfText : κ

/-- A token as an error message names it. -/
def Token.describe {κ : Type} [TokenKind κ] [DecidableEq κ] (t : Token κ) : String :=
  if t.kind = TokenKind.endOfText then "end of input" else t.text

/-- Kinds may be given by their names alone. -/
instance : TokenKind String := ⟨id, "EOF"⟩

/-- The reserved words that the grammar asks for by name. -/
inductive Keyword
  | USE | CREATE | DATABASE | TABLE | DROP | ALTER | INSERT | INTO | VALUES | SELECT | FROM | WHERE
  | UPDATE | SET | DELETE | JOIN | AND | OR | ON | ADD | LIKE
  deriving DecidableEq, Repr

namespace Keyword

def all : List Keyword :=
  [USE, CREATE, DATABASE, TABLE, DROP, ALTER, INSERT, INTO, VALUES, SELECT, FROM, WHERE, UPDATE,
    SET, DELETE, JOIN, AND, OR, ON, ADD, LIKE]

def spelling : Keyword → String
  | USE => "USE"
  | CREATE => "CREATE"
  | DATABASE => "DATABASE"
  | TABLE => "TABLE"
  | DROP => "DROP"
  | ALTER => "ALTER"
  | INSERT => "INSERT"
  | INTO => "INTO"
  | VALUES => "VALUES"
  | SELECT => "SELECT"
  | FROM => "FROM"
  | WHERE => "WHERE"
  | UPDATE => "UPDATE"
  | SET => "SET"
  | DELETE => "DELETE"
  | JOIN => "JOIN"
  | AND => "AND"
  | OR => "OR"
  | ON => "ON"
  | ADD => "ADD"
  | LIKE => "LIKE"

/-- The keyword written in these capitals. -/
def ofSpelling? (s : String) : Option Keyword := all.find? (·.spelling = s)

theorem mem_all (k : Keyword) : k ∈ all := by cases k <;> decide

end Keyword

/-- The kinds of tokens of the query language. -/
inductive Kind
  | identifier
  | float
  | integer
  | string
  | boolean
  | null
  | keyword (k : Keyword)
  | terminator
  | openParen
  | closeParen
  | comma
  | assign
  | equal
  | notEqual
  | less
  | lessEqual
  | greater
  | greaterEqual
  | star
  | endOfText
  deriving DecidableEq, Repr

namespace Kind

def label : Kind → String
  | identifier => "IDENTIFIER"
  | float => "FLOAT"
  | integer => "INTEGER"
  | string => "STRING"
  | boolean => "BOOLEAN"
  | null => "NULL"
  | keyword k => k.spelling
  | terminator => "END"
  | openParen => "LPAREN"
  | closeParen => "RPAREN"
  | comma => "COMMA"
  | assign => "EQ"
  | equal => "EQEQ"
  | notEqual => "NEQ"
  | less => "LT"
  | lessEqual => "LTE"
  | greater => "GT"
  | greaterEqual => "GTE"
  | star => "STAR"
  | endOfText => "EOF"

instance : TokenKind Kind := ⟨label, endOfText⟩

/-- Whether a token of this kind stands for a value. -/
def isLiteral : Kind → Bool
  | string | integer | float | boolean | null => true
  | _ => false

/-- The kind of a word that is reserved, given in capitals. -/
def reserved? (word : String) : Option Kind :=
  match Keyword.ofSpelling? word with
  | some k => some (keyword k)
  | none =>
    if word = "NULL" then some null
    else if word = "TRUE" || word = "FALSE" then some boolean
    else none

end Kind

end Tabula
