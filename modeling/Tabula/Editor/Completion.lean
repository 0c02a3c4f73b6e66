import Tabula.Editor.Vocabulary
import Tabula.Text.Blank
import Tabula.Text.Word

/-!
# Completion

An editor offers the words of the query language and the tables that a document mentions. A table is
taken to be mentioned wherever a name follows one of the words that a table stands after, be it in a
statement, a comment or a quoted text.
-/

namespace Tabula.Editor

/-- The words that the name of a table follows. -/
def tableWords : List String := ["table", "into", "from", "update"]

/-- The name that follows `word` at the start of a text, and the length of all that. -/
def nameAfter? (word : String) (s : List Char) : Option (List Char × Nat) :=
  let length := word.length
  let rest := s.drop length
  let blanks := rest.takeWhile Text.isBlank
  let name := (rest.dropWhile Text.isBlank).takeWhile Text.isWordChar
  if (s.take length).map Text.foldChar = word.toList && !blanks.isEmpty &&
      name.head?.any Text.isLetter then
    some (name, length + blanks.length + name.length)
  else none

/-- The names that a text mentions. The first `skip` characters belong to a mention already found,
and `inWord` says that a word character comes before the text. -/
def mentions (skip : Nat) (inWord : Bool) : List Char → List (List Char)
  | [] => []
  | c :: s =>
    match skip with
    | skip + 1 => mentions skip (Text.isWordChar c) s
    | 0 =>
      match if inWord then none else tableWords.findSome? fun w => nameAfter? w (c :: s) with
      | some (name, length) => name :: mentions (length - 1) (Text.isWordChar c) s
      | none => mentions 0 (Text.isWordChar c) s

/-- The names, each once, of the tables that a document mentions. -/
def tableNames (source : String) : List String :=
  let names := (mentions 0 false source.toList).map String.ofList
  (names.filter fun n => (explanation? n).isNone).foldl
    (fun found n => if n ∈ found then found else found ++ [n]) []

/-- An offer to complete what is written. -/
inductive Completion
  | keyword (word meaning : String)
  | table (name : String)
  deriving DecidableEq, Repr

/-- All that is offered in a document. -/
def completions (source : String) : List Completion :=
  (vocabulary.map fun e => .keyword (Text.upper e.word) e.meaning) ++
    (tableNames source).map .table

end Tabula.Editor
