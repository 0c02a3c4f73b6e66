/-!
# Sets of characters

A set of characters is written as the list of its ranges of code points. Blank characters, word
characters and printable characters are such sets, each in a module of its own.
-/

namespace Tabula.Text

/-- A set of characters: the code points from `first` to `last`, both included, of every range. -/
structure CharSet where
  ranges : List (Nat × Nat)

namespace CharSet

def contains (s : CharSet) (c : Char) : Bool :=
  s.ranges.any fun r => decide (r.1 ≤ c.toNat) && decide (c.toNat ≤ r.2)

theorem contains_iff (s : CharSet) (c : Char) :
    s.contains c = true ↔ ∃ r ∈ s.ranges, r.1 ≤ c.toNat ∧ c.toNat ≤ r.2 := by
  simp [contains]

end CharSet

end Tabula.Text
