/-!
# Texts as bytes

Decoding of UTF-8. The bytes that no text encodes are reported by their first fault: where it
starts, the bytes that belong to it and what is wrong. A fault takes the bytes of a character as
far as they are right, so it never runs into the next character.
-/

namespace Tabula.Text.Utf8

inductive Reason
  /-- No character starts with this byte. -/
  | startByte
  /-- The byte after the fault cannot continue the character. -/
  | continuationByte
  /-- The bytes end inside a character. -/
  | endOfData
  deriving DecidableEq, Repr

structure Fault where
  offset : Nat
  first : UInt8
  length : Nat
  reason : Reason
  deriving DecidableEq, Repr

def Reason.message : Reason → String
  | .startByte => "invalid start byte"
  | .continuationByte => "invalid continuation byte"
  | .endOfData => "unexpected end of data"

/-- A byte as two hexadecimal digits. -/
def hexByte (b : UInt8) : String :=
  String.ofList [Nat.digitChar (b.toNat / 16), Nat.digitChar (b.toNat % 16)]

def Fault.message (f : Fault) : String :=
  let place :=
    if f.length = 1 then s!"byte 0x{hexByte f.first} in position {f.offset}"
    else s!"bytes in position {f.offset}-{f.offset + f.length - 1}"
  s!"'utf-8' codec can't decode {place}: {f.reason.message}"

/-- How many bytes follow the first byte of a character. -/
def following? (b : UInt8) : Option Nat :=
  if b < 0x80 then some 0
  else if 0xC2 ≤ b && b ≤ 0xDF then some 1
  else if 0xE0 ≤ b && b ≤ 0xEF then some 2
  else if 0xF0 ≤ b && b ≤ 0xF4 then some 3
  else none

def isContinuation (b : UInt8) : Bool := 0x80 ≤ b && b ≤ 0xBF

/-- Whether `b` can be the second byte of a character that starts with `first`: the shortest
encoding is asked for, and no surrogate and nothing past the last code point is encoded. -/
def isSecond (first b : UInt8) : Bool :=
  isContinuation b &&
    (if first = 0xE0 then 0xA0 ≤ b
     else if first = 0xED then b ≤ 0x9F
     else if first = 0xF0 then 0x90 ≤ b
     else if first = 0xF4 then b ≤ 0x8F
     else true)

/-- The bytes, at most `count`, that do continue a character that starts with `first`. -/
def continuation (first : UInt8) (count : Nat) : List UInt8 → List UInt8
  | [] => []
  | b :: bs =>
    if 0 < count && isSecond first b then b :: (bs.take (count - 1)).takeWhile isContinuation
    else []

/-- The character of a first byte and its continuation. -/
def character (first : UInt8) (tail : List UInt8) : Char :=
  let lead :=
    if tail.length = 0 then first.toNat
    else if tail.length = 1 then first.toNat % 0x20
    else if tail.length = 2 then first.toNat % 0x10
    else first.toNat % 0x08
  Char.ofNat (tail.foldl (fun n b => n * 0x40 + b.toNat % 0x40) lead)

/-- The text that the bytes encode, the first of them at `offset`. -/
def decodeFrom (offset : Nat) (bytes : List UInt8) : Except Fault (List Char) :=
  match bytes with
  | [] => .ok []
  | first :: rest =>
    match following? first with
    | none => .error ⟨offset, first, 1, .startByte⟩
    | some count =>
      let tail := continuation first count rest
      if tail.length = count then
        (decodeFrom (offset + 1 + count) (rest.drop count)).map (character first tail :: ·)
      else
        let reason := if tail.length = rest.length then .endOfData else .continuationByte
        .error ⟨offset, first, 1 + tail.length, reason⟩
termination_by bytes.length
decreasing_by simp only [List.length_cons, List.length_drop]; omega

def decode (bytes : List UInt8) : Except Fault String := (decodeFrom 0 bytes).map String.ofList

end Tabula.Text.Utf8
