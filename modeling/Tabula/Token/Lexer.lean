import Tabula.Text.Digit
import Tabula.Token

/-!
# From text to tokens

At each offset of a statement the first rule that matches gives the next token: a word, a number,
a string between single quotes, then the symbols, those of two characters before those of one. A
word is taken as a whole and then looked up among the reserved words, which may be written in any
letter case. Spaces, tabs, carriage returns and line feeds between tokens are skipped.

A statement has exactly one terminator. Tokens may follow it; a sentinel that marks the end of the
text is always the last token.
-/

namespace Tabula

inductive LexicalError
  /-- No token starts with the character at this offset. -/
  | unrecognized (c : Char) (pos : Nat)
  | noTerminator (pos : Nat)
  | secondTerminator (pos : Nat)
  deriving DecidableEq, Repr

namespace LexicalError

def message : LexicalError → String
  | unrecognized c pos => s!"Unrecognized character '{c}' at position {pos}"
  | noTerminator _ => "Invalid syntax: ';' is expected"
  | secondTerminator _ => "Invalid syntax: more than one ';' found"

def position : LexicalError → Nat
  | unrecognized _ pos | noTerminator pos | secondTerminator pos => pos

end LexicalError

/-- A token at the start of a text, with the characters it is written in. -/
structure Lexeme where
  kind : Kind
  text : String
  source : List Char
  deriving DecidableEq, Repr

namespace Lexeme

def isWordTail (c : Char) : Bool := c.isAlphanum || c == '_'

/-- The lexeme of a whole word; a reserved word has its capitals as its text. -/
def ofWord (source : List Char) : Lexeme :=
  let capitals := String.ofList (source.map Char.toUpper)
  match Kind.reserved? capitals with
  | some kind => ⟨kind, capitals, source⟩
  | none => ⟨.identifier, String.ofList source, source⟩

def word? : List Char → Option Lexeme
  | [] => none
  | c :: s => if c.isAlpha then some (ofWord (c :: s.takeWhile isWordTail)) else none

def sign : List Char → List Char
  | '+' :: _ => ['+']
  | '-' :: _ => ['-']
  | _ => []

/-- A number has digits after its sign; a point belongs to it if digits follow the point. -/
def number? (s : List Char) : Option Lexeme :=
  let sign := sign s
  let whole := (s.drop sign.length).takeWhile Text.isDigit
  if whole.isEmpty then none
  else
    let source := sign ++ whole
    let integer : Lexeme := ⟨.integer, String.ofList source, source⟩
    match s.drop source.length with
    | '.' :: r =>
      let fraction := r.takeWhile Text.isDigit
      if fraction.isEmpty then some integer
      else
        let source := source ++ '.' :: fraction
        some ⟨.float, String.ofList source, source⟩
    | _ => some integer

/-- A string holds any characters but the quote; its text is without the quotes. -/
def string? : List Char → Option Lexeme
  | '\'' :: s =>
    let body := s.takeWhile (· ≠ '\'')
    if body.length < s.length then
      some ⟨.string, String.ofList body, '\'' :: body ++ ['\'']⟩
    else none
  | _ => none

def symbol? : List Char → Option Lexeme
  | '=' :: '=' :: _ => some ⟨.equal, "==", ['=', '=']⟩
  | '!' :: '=' :: _ => some ⟨.notEqual, "!=", ['!', '=']⟩
  | '<' :: '=' :: _ => some ⟨.lessEqual, "<=", ['<', '=']⟩
  | '>' :: '=' :: _ => some ⟨.greaterEqual, ">=", ['>', '=']⟩
  | '(' :: _ => some ⟨.openParen, "(", ['(']⟩
  | ')' :: _ => some ⟨.closeParen, ")", [')']⟩
  | '*' :: _ => some ⟨.star, "*", ['*']⟩
  | ';' :: _ => some ⟨.terminator, ";", [';']⟩
  | ',' :: _ => some ⟨.comma, ",", [',']⟩
  | '=' :: _ => some ⟨.assign, "=", ['=']⟩
  | '<' :: _ => some ⟨.less, "<", ['<']⟩
  | '>' :: _ => some ⟨.greater, ">", ['>']⟩
  | _ => none

/-- The token at the start of a text. -/
def first? (s : List Char) : Option Lexeme :=
  word? s <|> number? s <|> string? s <|> symbol? s

@[simp] theorem source_ofWord (source : List Char) : (ofWord source).source = source := by
  unfold ofWord
  dsimp only
  split <;> rfl

theorem source_ne_nil_of_word? {s : List Char} {l : Lexeme} (h : word? s = some l) :
    l.source ≠ [] := by
  cases s with
  | nil => simp [word?] at h
  | cons c s =>
    simp only [word?, Option.ite_none_right_eq_some, Option.some.injEq] at h
    simp [← h.2]

theorem source_ne_nil_of_number? {s : List Char} {l : Lexeme} (h : number? s = some l) :
    l.source ≠ [] := by
  unfold number? at h
  dsimp only at h
  split at h
  · simp at h
  · rename_i hw
    have hw := mt List.isEmpty_iff.2 hw
    split at h
    · split at h
      · cases h
        exact List.append_ne_nil_of_right_ne_nil _ hw
      · cases h
        exact List.append_ne_nil_of_right_ne_nil _ (List.cons_ne_nil _ _)
    · cases h
      exact List.append_ne_nil_of_right_ne_nil _ hw

theorem source_ne_nil_of_string? {s : List Char} {l : Lexeme} (h : string? s = some l) :
    l.source ≠ [] := by
  unfold string? at h
  split at h
  · simp only [Option.ite_none_right_eq_some, Option.some.injEq] at h
    simp [← h.2]
  · simp at h

theorem source_ne_nil_of_symbol? {s : List Char} {l : Lexeme} (h : symbol? s = some l) :
    l.source ≠ [] := by
  unfold symbol? at h
  split at h <;> simp at h <;> subst h <;> simp

theorem source_ne_nil {s : List Char} {l : Lexeme} (h : first? s = some l) : l.source ≠ [] := by
  unfold first? at h
  cases hw : word? s with
  | some m => exact source_ne_nil_of_word? (hw.trans (by simpa [hw] using h))
  | none =>
    cases hn : number? s with
    | some m => exact source_ne_nil_of_number? (hn.trans (by simpa [hw, hn] using h))
    | none =>
      cases hq : string? s with
      | some m => exact source_ne_nil_of_string? (hq.trans (by simpa [hw, hn, hq] using h))
      | none => exact source_ne_nil_of_symbol? (by simpa [hw, hn, hq] using h)

end Lexeme

def isSkipped (c : Char) : Bool := c == ' ' || c == '\t' || c == '\r' || c == '\n'

/-- The tokens of a text whose first character is at offset `pos`. -/
def scan (pos : Nat) (s : List Char) : Except LexicalError (List (Token Kind)) :=
  match s with
  | [] => .ok []
  | c :: r =>
    if isSkipped c then scan (pos + 1) r
    else
      match _h : Lexeme.first? (c :: r) with
      | none => .error (.unrecognized c pos)
      | some l =>
        (scan (pos + l.source.length) ((c :: r).drop l.source.length)).map
          (⟨l.kind, l.text, pos⟩ :: ·)
termination_by s.length
decreasing_by
  · simp
  · have := List.length_pos_iff.2 (Lexeme.source_ne_nil _h)
    simp
    omega

/-- The tokens of one statement: exactly one of them is a terminator. -/
def statementTokens (text : String) : Except LexicalError (List (Token Kind)) := do
  let tokens ← scan 0 text.toList
  match tokens.filter (·.kind = .terminator) with
  | [] => .error (.noTerminator text.length)
  | [_] => .ok tokens
  | _ :: t :: _ => .error (.secondTerminator t.pos)

/-- The sentinel at the end of a text. -/
def endToken (text : String) : Token Kind := ⟨.endOfText, "", text.length⟩

/-- The tokens of one statement and the sentinel after them. -/
def tokenize (text : String) : Except LexicalError (List (Token Kind)) :=
  (statementTokens text).map (· ++ [endToken text])

end Tabula
