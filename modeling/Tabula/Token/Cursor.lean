import Tabula.Token

/-!
# Cursors

A cursor reads a list of tokens from the first to the last and never goes back. It holds the tokens
still to be passed and the last token of all, which it never passes: beyond the others, the last
token is read again and again.
-/

namespace Tabula

structure Cursor (κ : Type) where
  ahead : List (Token κ)
  last : Token κ

/-- Another kind of token stands where one of kind `wanted` was asked for. -/
structure Unexpected (κ : Type) where
  wanted : κ
  found : Token κ

namespace Cursor

variable {κ : Type}

/-- A cursor at the first of the tokens; there must be one. -/
def ofList? : List (Token κ) → Option (Cursor κ)
  | [] => none
  | t :: ts => some ⟨(t :: ts).dropLast, (t :: ts).getLast (by simp)⟩

def current (c : Cursor κ) : Token κ := c.ahead.head?.getD c.last

def next (c : Cursor κ) : Token κ := c.ahead.tail.head?.getD c.last

def advance (c : Cursor κ) : Cursor κ := { c with ahead := c.ahead.tail }

@[simp] theorem current_nil (t : Token κ) : (⟨[], t⟩ : Cursor κ).current = t := rfl

@[simp] theorem current_cons (t last : Token κ) (ts : List (Token κ)) :
    (⟨t :: ts, last⟩ : Cursor κ).current = t := rfl

@[simp] theorem advance_nil (t : Token κ) : (⟨[], t⟩ : Cursor κ).advance = ⟨[], t⟩ := rfl

@[simp] theorem advance_cons (t last : Token κ) (ts : List (Token κ)) :
    (⟨t :: ts, last⟩ : Cursor κ).advance = ⟨ts, last⟩ := rfl

@[simp] theorem current_advance (c : Cursor κ) : c.advance.current = c.next := by
  obtain ⟨ahead, last⟩ := c
  rfl

variable [DecidableEq κ]

def isAt (c : Cursor κ) (k : κ) : Bool := c.current.kind = k

/-- The current token, if it is of the kind asked for. -/
def expect (c : Cursor κ) (k : κ) : Except (Unexpected κ) (Token κ) :=
  if c.current.kind = k then .ok c.current else .error ⟨k, c.current⟩

end Cursor

/-- The wording given, or the general one if none or an empty one is given. -/
def Unexpected.message {κ : Type} [TokenKind κ] [DecidableEq κ] (u : Unexpected κ)
    (wording : Option String) : String :=
  match wording with
  | some w =>
    if w = "" then s!"Expected {TokenKind.label u.wanted}, got '{u.found.describe}'" else w
  | none => s!"Expected {TokenKind.label u.wanted}, got '{u.found.describe}'"

end Tabula
