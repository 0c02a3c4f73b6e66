import Tabula.Text.Encoding
import Tabula.Text.Line

/-!
# Output

What a run prints, in order, on two streams: its output, and the stream for errors, which also
takes the warning lines of responses. Both streams are encoded. A text for the output that cannot be
encoded is not printed; on the stream for errors undecoded bytes are written out.
-/

namespace Tabula

inductive Stream
  | output
  | error
  deriving DecidableEq, Repr

/-- A text printed on a stream. -/
structure Emission where
  stream : Stream
  text : String
  deriving DecidableEq, Repr

namespace Emission

/-- All that is printed on a stream. -/
def textOn (s : Stream) (es : List Emission) : String :=
  String.join ((es.filter (·.stream = s)).map Emission.text)

def line (s : String) : Emission := ⟨.output, s ++ "\n"⟩

def errorLine (s : String) : Emission := ⟨.error, s ++ "\n"⟩

def isWarning (s : String) : Bool := "[WARNING]".toList.isPrefixOf s.toList

/-- A response line by line, the warnings on the stream for errors. -/
def response (s : String) : List Emission :=
  (Text.stringLines s).map fun l => if isWarning l then errorLine l else line l

/-- A text as it is printed. -/
def encoded (e : Text.Encoding) (x : Emission) : Except Text.EncodeFault Emission :=
  match x.stream with
  | .error => .ok ⟨.error, e.escaped x.text⟩
  | .output =>
    match e.fault? x.text with
    | none => .ok x
    | some fault => .error fault

/-- What is printed of these texts, which is all in front of the first that cannot be encoded, and
what keeps that one from it. -/
def print (e : Text.Encoding) : List Emission → List Emission × Option Text.EncodeFault
  | [] => ([], none)
  | x :: xs =>
    match x.encoded e with
    | .error fault => ([], some fault)
    | .ok y =>
      let (ys, fault?) := print e xs
      (y :: ys, fault?)

end Emission

end Tabula
