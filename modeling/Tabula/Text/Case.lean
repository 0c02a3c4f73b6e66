/-!
# Letter case

Case mapping as far as ASCII words can tell: each character whose capital or small form holds an
ASCII character is mapped to that form, and every other character is left alone. A text mapped in
this way equals an ASCII word exactly when its full case mapping does.
-/

namespace Tabula.Text

/-- The capital form of a character; some small letters have one of several characters. -/
def upperChar (c : Char) : List Char :=
  if c.toNat < 0x80 then [c.toUpper]
  else match c with
    | '\u00df' => ['S', 'S']
    | '\u0131' => ['I']
    | '\u0149' => ['\u02bc', 'N']
    | '\u017f' => ['S']
    | '\u01f0' => ['J', '\u030c']
    | '\u1e96' => ['H', '\u0331']
    | '\u1e97' => ['T', '\u0308']
    | '\u1e98' => ['W', '\u030a']
    | '\u1e99' => ['Y', '\u030a']
    | '\u1e9a' => ['A', '\u02be']
    | '\ufb00' => ['F', 'F']
    | '\ufb01' => ['F', 'I']
    | '\ufb02' => ['F', 'L']
    | '\ufb03' => ['F', 'F', 'I']
    | '\ufb04' => ['F', 'F', 'L']
    | '\ufb05' => ['S', 'T']
    | '\ufb06' => ['S', 'T']
    | _ => [c]

/-- The small form of a character; the capital `I` with a dot keeps its dot as a second one. -/
def lowerChar (c : Char) : List Char :=
  if c.toNat < 0x80 then [c.toLower]
  else match c with
    | '\u0130' => ['i', '\u0307']
    | '\u212a' => ['k']
    | _ => [c]

def upper (s : String) : String := String.ofList (s.toList.flatMap upperChar)

def lower (s : String) : String := String.ofList (s.toList.flatMap lowerChar)

/-- The small ASCII letter that a character equals when case is ignored, or the character itself.
Besides the two forms of the letter it may be the long s, the sign for kelvin, or an i of the
Turkish alphabet. -/
def foldChar (c : Char) : Char :=
  match c with
  | '\u0130' | '\u0131' => 'i'
  | '\u017f' => 's'
  | '\u212a' => 'k'
  | _ => c.toLower

/-- Whether a character is an ASCII letter when case is ignored. -/
def isLetter (c : Char) : Bool := 'a' ≤ foldChar c && foldChar c ≤ 'z'

@[simp] theorem toList_upper (s : String) : (upper s).toList = s.toList.flatMap upperChar :=
  String.toList_ofList

@[simp] theorem toList_lower (s : String) : (lower s).toList = s.toList.flatMap lowerChar :=
  String.toList_ofList

end Tabula.Text
