import Tabula.Number
import Tabula.Text.Case
import Tabula.Text.Search

/-!
# Comparing a cell with a value

A cell and a value are compared as numbers if both read as numbers, and otherwise as texts, in the
order of code points. An operator that no comparison goes by is never true.
-/

namespace Tabula

inductive Comparison
  | equal
  | notEqual
  | greaterEqual
  | lessEqual
  | greater
  | less
  /-- The value occurs in the cell. Numbers have no such comparison. -/
  | like
  deriving DecidableEq, Repr

namespace Comparison

def all : List Comparison := [equal, notEqual, greaterEqual, lessEqual, greater, less, like]

def symbol : Comparison → String
  | equal => "=="
  | notEqual => "!="
  | greaterEqual => ">="
  | lessEqual => "<="
  | greater => ">"
  | less => "<"
  | like => "LIKE"

/-- The comparison that an operator goes by, in any letter case. -/
def ofText? (operator : String) : Option Comparison :=
  all.find? (·.symbol = Text.upper operator)

def onNumbers : Comparison → Number → Number → Bool
  | equal, x, y => x.eq y
  | notEqual, x, y => !x.eq y
  | greaterEqual, x, y => y.le x
  | lessEqual, x, y => x.le y
  | greater, x, y => y.lt x
  | less, x, y => x.lt y
  | like, _, _ => false

def onTexts : Comparison → String → String → Bool
  | equal, s, t => s = t
  | notEqual, s, t => s ≠ t
  | greaterEqual, s, t => t ≤ s
  | lessEqual, s, t => s ≤ t
  | greater, s, t => t < s
  | less, s, t => s < t
  | like, s, t => Text.occurs t.toList s.toList

def holds (c : Comparison) (cell value : String) : Bool :=
  match Number.read? cell, Number.read? value with
  | some x, some y => c.onNumbers x y
  | _, _ => c.onTexts cell value

end Comparison

/-- Whether an operator, given as it is written, holds between a cell and a value. -/
def compare (cell operator value : String) : Bool :=
  match Comparison.ofText? operator with
  | some c => c.holds cell value
  | none => false

end Tabula
