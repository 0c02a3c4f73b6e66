/-!
# Positions in a document

An editor gives a place in a document as a line and a character in it, both counted from zero, and
counts no further than a limit. Here lines end at line feeds and nowhere else.
-/

namespace Tabula.Editor

structure Position where
  line : Nat
  character : Nat
  deriving DecidableEq, Repr

/-- The start of the line that an offset is in. -/
def lineStart (source : String) (offset : Nat) : Nat :=
  let before := source.toList.take offset
  before.length - (before.reverse.takeWhile (· ≠ '\n')).length

/-- The position of an offset. One past the end counts on in the last line. -/
def position (source : String) (offset : Nat) : Position where
  line := (source.toList.take offset).count '\n'
  character := offset - lineStart source offset

/-! ### Numbers from outside -/

/-- The largest number that an editor counts up to. -/
def maxCount : Nat := 2147483647

/-- A number that no position has. -/
inductive PositionError
  | line (n : Int)
  | character (n : Int)
  deriving DecidableEq, Repr

def PositionError.message : PositionError → String
  | line n => s!"Position.line should be in range [0:{maxCount}], but was {n}."
  | character n => s!"Position.character should be in range [0:{maxCount}], but was {n}."

/-- Whether an editor counts up to a number. -/
def isCount (n : Int) : Bool := 0 ≤ n && n ≤ maxCount

/-- The position with these numbers. -/
def Position.ofNumbers (line character : Int) : Except PositionError Position :=
  if !isCount line then .error (.line line)
  else if !isCount character then .error (.character character)
  else .ok ⟨line.toNat, character.toNat⟩

/-- The position of an offset that may be out of bounds. A negative one is counted from the end to
find its line, but from the start of that line it is negative still, and so has no position. -/
def positionOf (source : String) (offset : Int) : Except PositionError Position :=
  let reached := if offset < 0 then (source.length + offset).toNat else offset.toNat
  Position.ofNumbers (position source reached).line (offset - lineStart source reached)

end Tabula.Editor
