import Tabula.Text.CharSet

/-!
# Blank characters

The blank characters are the white space of Unicode and the four separators `U+001C` to `U+001F`.
Trimming takes blanks off the ends of a text and leaves those inside.
-/

namespace Tabula.Text

def blanks : CharSet :=
  ⟨[(0x09, 0x0D), (0x1C, 0x20), (0x85, 0x85), (0xA0, 0xA0), (0x1680, 0x1680), (0x2000, 0x200A),
    (0x2028, 0x2029), (0x202F, 0x202F), (0x205F, 0x205F), (0x3000, 0x3000)]⟩

def isBlank (c : Char) : Bool := blanks.contains c

def trimStart (s : List Char) : List Char := s.dropWhile isBlank

def trimEnd (s : List Char) : List Char := (s.reverse.dropWhile isBlank).reverse

def trim (s : List Char) : List Char := trimEnd (trimStart s)

/-- A text without the blanks at its two ends. -/
def strip (s : String) : String := String.ofList (trim s.toList)

@[simp] theorem toList_strip (s : String) : (strip s).toList = trim s.toList :=
  String.toList_ofList

@[simp] theorem trim_nil : trim [] = [] := rfl

end Tabula.Text
