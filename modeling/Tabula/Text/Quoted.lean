import Tabula.Text.Encoding
import Tabula.Text.Printable

/-!
# Quoted texts

A quoted text stands between single quotes, or between double quotes if it holds a single quote and
no double one. Inside, the quote in use and the backslash are escaped by a backslash, and a
character that is not printable is written by name (tab, line feed, carriage return) or by its code
point, with the fewest of two, four or eight hexadecimal digits that hold it. So is an undecoded
byte.
-/

namespace Tabula.Text.Quoted

/-- The last `width` hexadecimal digits of a number. -/
def hex : Nat → Nat → List Char
  | 0, _ => []
  | width + 1, n => hex width (n / 16) ++ [Nat.digitChar (n % 16)]

def escape (encoding : Encoding) (quote c : Char) : List Char :=
  let n := encoding.codePoint c
  if c = quote || c = '\\' then ['\\', c]
  else if c = '\t' then ['\\', 't']
  else if c = '\n' then ['\\', 'n']
  else if c = '\r' then ['\\', 'r']
  else if isPrintable c then [c]
  else if n < 0x100 then '\\' :: 'x' :: hex 2 n
  else if n < 0x10000 then '\\' :: 'u' :: hex 4 n
  else '\\' :: 'U' :: hex 8 n

def quoteFor (s : List Char) : Char :=
  if s.contains '\'' && !s.contains '"' then '"' else '\''

def encode (encoding : Encoding) (s : List Char) : List Char :=
  let quote := quoteFor s
  quote :: s.flatMap (escape encoding quote) ++ [quote]

end Quoted

/-- A text in quotes. -/
def quoted (encoding : Encoding) (s : String) : String :=
  String.ofList (Quoted.encode encoding s.toList)

end Tabula.Text
