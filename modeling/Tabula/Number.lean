import Tabula.Text.Blank
import Tabula.Text.Digit

/-!
# Numbers

Some texts read as numbers: decimal numbers with a sign, a point and an exponent, in the digits of
any script, and the words for infinity and for the value that is no number. The number read is the
double-precision one nearest to the number written.

Every finite double-precision number is a whole multiple of `2 ^ (-1074)`, so a number is
represented by that multiple, and the order of numbers is that of the integers. Infinity is
represented by `2 ^ 2098`, the first multiple that is too large to be finite: rounding to infinity
is the same as stopping there.
-/

namespace Tabula

inductive Number
  /-- The value that is no number: it is unequal to all, itself included, and in no order. -/
  | nan
  | units (n : Int)
  deriving DecidableEq, Repr

namespace Number

/-- The multiple of the smallest positive number that stands for infinity. -/
def infinity : Nat := Nat.pow 2 2098

def eq : Number → Number → Bool
  | units m, units n => decide (m = n)
  | _, _ => false

def lt : Number → Number → Bool
  | units m, units n => decide (m < n)
  | _, _ => false

def le : Number → Number → Bool
  | units m, units n => decide (m ≤ n)
  | _, _ => false

/-! ### Rounding -/

/-- The natural number nearest to `a / b`; of two that are equally near, the even one. -/
def nearest (a b : Nat) : Nat :=
  if 2 * (a % b) < b ∨ (2 * (a % b) = b ∧ a / b % 2 = 0) then a / b else a / b + 1

/-- The number of 53 significant binary digits nearest to `a / b`. -/
def round (a b : Nat) : Nat :=
  let step := Nat.pow 2 ((a / b).log2 - 52)
  nearest a (b * step) * step

/-- The number that decimal digits write. -/
def ofDigits (ds : List Nat) : Nat := ds.foldl (fun n d => n * 10 + d) 0

/-- The units of the number with these digits, the last of them counting `10 ^ exponent`. A number
that is far too large or too small is not worked out. -/
def magnitude (digits : List Nat) (exponent : Int) : Nat :=
  let significant := digits.dropWhile (· = 0)
  let top := significant.length + exponent
  if significant = [] ∨ top < -324 then 0
  else if top > 310 then infinity
  else
    let n := ofDigits significant * Nat.pow 2 1074
    min infinity (if 0 ≤ exponent then round (n * Nat.pow 10 exponent.toNat) 1
      else round n (Nat.pow 10 (-exponent).toNat))

/-! ### Reading -/

/-- Whether a number may stand between such blanks: the separators `U+001C` to `U+001F` are none. -/
def isSpace (c : Char) : Bool := Text.isBlank c && !(0x1C ≤ c.toNat && c.toNat ≤ 0x1F)

def trim (s : List Char) : List Char :=
  ((s.dropWhile isSpace).reverse.dropWhile isSpace).reverse

/-- Whether there is a minus sign at the start, and what follows the sign. -/
def sign : List Char → Bool × List Char
  | '-' :: s => (true, s)
  | '+' :: s => (false, s)
  | s => (false, s)

/-- The digits at the start, and what follows them. One underscore may stand between two digits;
`inside` says that a digit has come before. -/
def digitRun (inside : Bool) : List Char → List Nat × List Char
  | [] => ([], [])
  | c :: s =>
    if inside && c = '_' && s.head?.any Text.isDigit then digitRun false s
    else match Text.digitValue? c with
      | some d => let (ds, rest) := digitRun true s; (d :: ds, rest)
      | none => ([], c :: s)

/-- The exponent that is all of a text. -/
def exponent? : List Char → Option Int
  | [] => some 0
  | c :: s =>
    if c = 'e' ∨ c = 'E' then
      let (negative, s) := sign s
      match digitRun false s with
      | ([], _) | (_, _ :: _) => none
      | (ds, []) => some (if negative then -ofDigits ds else ofDigits ds)
    else none

/-- The number, in units, that a text without a sign writes in digits. -/
def decimal? (s : List Char) : Option Nat :=
  let (whole, s) := digitRun false s
  let (fraction, s) := match s with
    | '.' :: s => digitRun false s
    | s => ([], s)
  if whole = [] ∧ fraction = [] then none
  else (exponent? s).map fun e => magnitude (whole ++ fraction) (e - fraction.length)

def read? (s : String) : Option Number :=
  let (negative, body) := sign (trim s.toList)
  let word := String.ofList (body.map Char.toLower)
  if word = "nan" then some nan
  else
    let size? := if word = "inf" ∨ word = "infinity" then some infinity else decimal? body
    size?.map fun n => units (if negative then -n else n)

theorem lt_iff_not_le (m n : Int) : lt (units m) (units n) = !le (units n) (units m) := by
  by_cases h : m < n
  · simp [lt, le, h, Int.not_le.2 h]
  · simp [lt, le, h, Int.not_lt.1 h]

end Number

end Tabula
