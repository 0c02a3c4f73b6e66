import Tabula.Editor.Position
import Tabula.Editor.Vocabulary
import Tabula.Text.Line
import Tabula.Text.Word

/-!
# Explaining the word under the cursor

The lines of a document are cut here at every kind of line break, not at line feeds alone.
-/

namespace Tabula.Editor

/-- The word characters at the end of a text. -/
def wordEnd (s : List Char) : List Char := (s.reverse.takeWhile Text.isWordChar).reverse

/-- The word that a character of a line belongs to. It is empty if the character is no word
character, or if there is none with this index. -/
def wordAt (line : String) (character : Int) : String :=
  let s := line.toList
  let i := character.toNat
  if character < 0 || !(s[i]?.any Text.isWordChar) then ""
  else String.ofList (wordEnd (s.take i) ++ (s.drop i).takeWhile Text.isWordChar)

/-- What is shown about a word, as marked-up text. -/
def hoverText? (word : String) : Option String :=
  (explanation? word).map fun e => s!"**{Text.upper e.word}** — {e.meaning}"

/-- What is shown about the word at a place in a document. -/
def hover? (source : String) (p : Position) : Option String :=
  match (Text.linesWithBreaks source.toList)[p.line]? with
  | none => none
  | some l =>
    let word := wordAt (String.ofList l) p.character
    if word = "" then none else hoverText? word

end Tabula.Editor
