import Tabula.Condition.Term
import Tabula.Text.Search

/-!
# Conditions

A condition says which rows of a table a statement is about. It is a single term, or terms in
parentheses; these are joined by OR if the word stands anywhere in the condition, and by AND
otherwise. What stands outside the parentheses has no other meaning. A blank condition holds of
every row.

A fault of a single term is an error. A fault of a term in parentheses is noted, once, and the term
is false. Terms are looked at only until the outcome is known, so a fault behind that point goes
unseen.
-/

namespace Tabula

/-- What is wrong with a term. -/
inductive ConditionError
  | columnNotFound (column : String)
  | malformed (term : String)
  deriving DecidableEq, Repr

def ConditionError.message : ConditionError → String
  | columnNotFound column => s!"Condition attribute not found: {column}"
  | malformed term => s!"Invalid condition format: {term}"

inductive Condition
  | always
  | single (term : String)
  | anyOf (terms : List String)
  | allOf (terms : List String)
  deriving DecidableEq, Repr

namespace Condition

/-! ### Reading -/

def hasParenthesis (text : String) : Bool := text.toList.any fun c => c == '(' || c == ')'

/-- The texts between an opening parenthesis and the next closing one, the empty ones left out.
While such a text is read, `inside` holds what has been read of it, the last character first. -/
def groups (inside : Option (List Char)) : List Char → List (List Char)
  | [] => []
  | c :: s =>
    match inside with
    | none => groups (if c = '(' then some [] else none) s
    | some read =>
      if c ≠ ')' then groups (some (c :: read)) s
      else if read.isEmpty then groups none s
      else read.reverse :: groups none s

def readText (text : String) : Condition :=
  if Text.strip text = "" then always
  else
    match (groups none text.toList).map fun g => String.ofList (Text.trim g) with
    | [] => single text
    | terms =>
      if Text.occurs " OR ".toList (Text.upper text).toList then anyOf terms else allOf terms

/-- The condition that a text states; without a text every row is meant. -/
def read : Option String → Condition
  | none => always
  | some text => readText text

/-! ### Truth on a row -/

/-- The place of a column in a header, letter case ignored. -/
def columnIndex? (column : String) (header : List String) : Option Nat :=
  header.findIdx? fun name => Text.lower name = Text.lower column

/-- A term, with the place of its column. -/
def resolve (header : List String) (text : String) : Except ConditionError (Term × Nat) :=
  match Term.split? text with
  | none => .error (.malformed (Text.strip text))
  | some term =>
    match columnIndex? term.column header with
    | none => .error (.columnNotFound term.column)
    | some i => .ok (term, i)

/-- Whether a term is true on a row. A cell that the row lacks is empty. -/
def holds (header row : List String) (text : String) : Except ConditionError Bool :=
  (resolve header text).map fun (term, i) =>
    compare (row.getD i "") term.operator term.value

/-- Note a fault, unless it is noted already. -/
def note (noted : List ConditionError) (e : ConditionError) : List ConditionError :=
  if e ∈ noted then noted else noted ++ [e]

theorem nodup_note {noted : List ConditionError} (h : noted.Nodup) (e : ConditionError) :
    (note noted e).Nodup := by
  unfold note
  split
  · exact h
  · rename_i he
    refine List.nodup_append.2 ⟨h, by simp, ?_⟩
    intro a ha b hb
    rw [List.mem_singleton.1 hb]
    exact fun hab => he (hab ▸ ha)

theorem mem_note_self (noted : List ConditionError) (e : ConditionError) : e ∈ note noted e := by
  unfold note
  split
  · assumption
  · simp

/-- Whether one of the terms is true, and the faults noted on the way. -/
def someHolds (judge : String → Except ConditionError Bool) (noted : List ConditionError) :
    List String → Bool × List ConditionError
  | [] => (false, noted)
  | t :: ts =>
    match judge t with
    | .ok true => (true, noted)
    | .ok false => someHolds judge noted ts
    | .error e => someHolds judge (note noted e) ts

/-- Whether all the terms are true, and the faults noted on the way. -/
def allHold (judge : String → Except ConditionError Bool) (noted : List ConditionError) :
    List String → Bool × List ConditionError
  | [] => (true, noted)
  | t :: ts =>
    match judge t with
    | .ok true => allHold judge noted ts
    | .ok false => (false, noted)
    | .error e => (false, note noted e)

/-- Whether a condition can be asked of the rows under a header at all. -/
def validate (header : List String) : Condition → Except ConditionError Unit
  | single term => (resolve header term).map fun _ => ()
  | _ => .ok ()

/-- Whether a condition is true on a row, and the faults noted so far. -/
def evaluate (header row : List String) (noted : List ConditionError) :
    Condition → Except ConditionError (Bool × List ConditionError)
  | always => .ok (true, noted)
  | single term => (holds header row term).map fun truth => (truth, noted)
  | anyOf terms => .ok (someHolds (holds header row) noted terms)
  | allOf terms => .ok (allHold (holds header row) noted terms)

/-- On which of the rows a condition is true, and the faults noted on all of them. -/
def evaluateAll (c : Condition) (header : List String) (noted : List ConditionError) :
    List (List String) → Except ConditionError (List Bool × List ConditionError)
  | [] => .ok ([], noted)
  | row :: rows => do
    let (truth, noted) ← c.evaluate header row noted
    let (truths, noted) ← c.evaluateAll header noted rows
    return (truth :: truths, noted)

end Condition

end Tabula
