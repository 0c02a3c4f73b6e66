/-!
# Lines

A text is cut into lines at its line breaks; a carriage return followed by a line feed is one
break. The last line needs no break, and a text that ends in a break has no empty line after it.

`unifyBreaks` is what reading a file does before the text is seen: every carriage return, alone or
before a line feed, becomes one line feed. The other breaks stay as they are.
-/

namespace Tabula.Text

def isLineBreak (c : Char) : Bool :=
  c == '\n' || c == '\r' || c == '\x0b' || c == '\x0c' || c == '\x1c' || c == '\x1d' ||
    c == '\x1e' || c == '\u0085' || c == '\u2028' || c == '\u2029'

/-- Put a character at the start of the first line. -/
def consFirst (c : Char) : List (List Char) → List (List Char)
  | [] => [[c]]
  | l :: ls => (c :: l) :: ls

/-- The lines of a text, without their breaks. -/
def lines : List Char → List (List Char)
  | [] => []
  | '\r' :: '\n' :: s => [] :: lines s
  | c :: s => if isLineBreak c then [] :: lines s else consFirst c (lines s)

/-- The lines of a text, each with the break that ends it. -/
def linesWithBreaks : List Char → List (List Char)
  | [] => []
  | '\r' :: '\n' :: s => ['\r', '\n'] :: linesWithBreaks s
  | c :: s => if isLineBreak c then [c] :: linesWithBreaks s else consFirst c (linesWithBreaks s)

def unifyBreaks : List Char → List Char
  | [] => []
  | '\r' :: '\n' :: s => '\n' :: unifyBreaks s
  | c :: s => (if c = '\r' then '\n' else c) :: unifyBreaks s

/-- The lines of a string, without their breaks. -/
def stringLines (s : String) : List String := (lines s.toList).map String.ofList

@[simp] theorem flatten_consFirst (c : Char) (ls : List (List Char)) :
    (consFirst c ls).flatten = c :: ls.flatten := by
  cases ls <;> rfl

@[simp] theorem consFirst_ne_nil (c : Char) (ls : List (List Char)) : consFirst c ls ≠ [] := by
  cases ls <;> simp [consFirst]

/-- Nothing is lost when the breaks are kept. -/
theorem flatten_linesWithBreaks (s : List Char) : (linesWithBreaks s).flatten = s := by
  fun_induction linesWithBreaks s <;> simp_all

end Tabula.Text
