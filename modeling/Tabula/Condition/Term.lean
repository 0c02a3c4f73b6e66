import Tabula.Condition.Comparison
import Tabula.Text.Blank

/-!
# Terms

A term is a column, an operator and a value, with blanks around and between them. A value may
hold blanks, operators and all else, and needs no blank before it, so a text can be cut in more than
one way. The cuts are tried in a fixed order and the first that leaves a value is taken: the longest
column, then the first operator in the order of `Comparison.all`, then the most blanks before the
value, then the shortest value that leaves only blanks behind.

So the column gives way when it has to: `nameLIKEx` is `name`, `LIKE` and `x`. The operator does
too: in `a >=`, where nothing is left for a value after `>=`, the value is `=`.
-/

namespace Tabula

structure Term where
  column : String
  operator : String
  value : String
  deriving DecidableEq, Repr

namespace Term

/-- The first success of `k` on the ways of cutting a text in two after characters that satisfy
`p`, the longest first part first. -/
def afterMost {α : Type} (p : Char → Bool) (k : List Char → List Char → Option α) :
    List Char → Option α
  | [] => k [] []
  | c :: s =>
    if p c then afterMost p (fun taken rest => k (c :: taken) rest) s <|> k [] (c :: s)
    else k [] (c :: s)

/-- There is a success exactly if `k` succeeds on one of the cuts. -/
theorem afterMost_isSome_iff {α : Type} {p : Char → Bool} {s : List Char}
    {k : List Char → List Char → Option α} :
    (afterMost p k s).isSome ↔
      ∃ taken rest, s = taken ++ rest ∧ (∀ c ∈ taken, p c) ∧ (k taken rest).isSome := by
  induction s generalizing k with
  | nil =>
    constructor
    · exact fun h => ⟨[], [], rfl, by simp, h⟩
    · rintro ⟨taken, rest, hs, _, hk⟩
      obtain ⟨rfl, rfl⟩ := List.append_eq_nil_iff.1 hs.symm
      exact hk
  | cons c s ih =>
    unfold afterMost
    constructor
    · intro h
      split at h
      · rename_i hc
        simp only [Option.orElse_eq_orElse, Option.orElse_eq_or, Option.isSome_or,
          Bool.or_eq_true, ih] at h
        rcases h with ⟨taken, rest, rfl, hp, hk⟩ | hk
        · exact ⟨c :: taken, rest, rfl, by simpa [hc] using hp, hk⟩
        · exact ⟨[], c :: s, rfl, by simp, hk⟩
      · exact ⟨[], c :: s, rfl, by simp, h⟩
    · rintro ⟨taken, rest, hs, hp, hk⟩
      cases taken with
      | nil =>
        obtain rfl : rest = c :: s := by simpa using hs.symm
        split <;> simp [hk]
      | cons d taken =>
        simp only [List.cons_append, List.cons.injEq] at hs
        obtain ⟨rfl, rfl⟩ := hs
        have hc : p c = true := hp c (by simp)
        simp only [hc, if_true, Option.orElse_eq_orElse, Option.orElse_eq_or, Option.isSome_or,
          Bool.or_eq_true, ih]
        exact .inl ⟨taken, rest, rfl, fun x hx => hp x (by simp [hx]), hk⟩

/-- The shortest beginning of a text, of one character at least, with only blanks after it. -/
def shortestValue? : List Char → Option (List Char)
  | [] => none
  | c :: s => if s.all Text.isBlank then some [c] else (shortestValue? s).map (c :: ·)

/-- A value after blanks, as few characters of it as there can be. -/
def value? (s : List Char) : Option (List Char) :=
  afterMost Text.isBlank (fun _ rest => shortestValue? rest) s

/-- Whether an operator is written as a symbol says, letters in any case. -/
def isWritten (symbol operator : List Char) : Bool :=
  operator.map Text.foldChar = symbol.map Text.foldChar

/-- The first operator, in the order of the comparisons, that a value can follow; with the value. -/
def operatorAndValue? (s : List Char) : Option (List Char × List Char) :=
  Comparison.all.findSome? fun c =>
    let symbol := c.symbol.toList
    let operator := s.take symbol.length
    if isWritten symbol operator then
      (value? (s.drop symbol.length)).map fun value => (operator, value)
    else none

def isColumnStart (c : Char) : Bool := Text.isLetter c || c == '_'

def isColumnPart (c : Char) : Bool := isColumnStart c || c.isDigit

/-- A value without the single quotes around it. -/
def unquote (value : List Char) : List Char :=
  if 2 ≤ value.length ∧ value.head? = some '\'' ∧ value.getLast? = some '\'' then
    value.tail.dropLast
  else value

/-- The column at the start of a text, with the operator and the value that follow it. -/
def fromColumn? : List Char → Option Term
  | [] => none
  | c :: s =>
    if isColumnStart c then
      afterMost isColumnPart (fun column rest =>
        afterMost Text.isBlank (fun _ rest =>
          (operatorAndValue? rest).map fun (operator, value) =>
            { column := String.ofList (c :: column)
              operator := String.ofList operator
              value := String.ofList (unquote value) }) rest) s
    else none

/-- The term that a text is. -/
def split? (s : String) : Option Term :=
  afterMost Text.isBlank (fun _ rest => fromColumn? rest) s.toList

end Term

end Tabula
