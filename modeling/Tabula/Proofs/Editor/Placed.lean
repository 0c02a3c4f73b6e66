import Tabula.Editor.Diagnostic
import Tabula.Proofs.Command.Refused
import Tabula.Proofs.Editor.Position
import Tabula.Proofs.Script.Comment

/-!
# Where diagnostics stand

Comments are blanked out and blanks trimmed off before a statement is parsed, but the offset of the
statement and the place of its error in it still add up to the place of the error in the document
(`Marks`). Each statement that cannot be parsed has one diagnostic, and no two of them stand at one
place: a statement with another one behind it is refused before its end (`marks_diagnostics`).

## Main definitions

* `Fault` — a statement of a document that cannot be parsed, and its error.
* `Marks` — a diagnostic stands where a fault is.
-/

namespace Tabula

namespace Script

/-- A statement with another one behind it has a semicolon outside quotes. -/
theorem Parted.pairwise_terminated {start : Nat} {s : List Char} {parts : List Statement}
    (h : Parted start s parts) :
    parts.Pairwise fun p _ => outside false 0 p.text.toList ≠ [] := by
  induction h with
  | blank => exact .nil
  | unfinished => exact List.pairwise_singleton ..
  | closed _ _ _ hquoted _ ih =>
    refine List.pairwise_cons.2 ⟨fun _ _ => ?_, ih⟩
    rw [String.toList_ofList, outside_append, hquoted]
    simp [outside]

end Script

namespace Editor

/-- A statement that cannot be parsed. -/
structure Fault where
  statement : Statement
  error : StatementError

/-- The place of the error in the document. -/
def Fault.offset (f : Fault) : Nat := f.statement.offset + f.error.position

def fault? (s : Statement) : Option Fault :=
  match Command.parse s.text with
  | .ok _ => none
  | .error e => some ⟨s, e⟩

/-- The statements of a document that cannot be parsed, in order. -/
def faults (source : String) : List Fault :=
  (Script.statements (Script.withoutComments source)).filterMap fault?

/-- A diagnostic stands where a fault is. -/
structure Marks (source : String) (f : Fault) (d : Diagnostic) : Prop where
  message : d.message = f.error.message
  start_le : f.statement.offset ≤ f.offset
  le_stop : f.offset ≤ f.statement.stop
  stop_le : f.statement.stop ≤ source.length
  first : d.first.Denotes source f.offset
  only : ∀ offset ≤ source.length, d.first.Denotes source offset → offset = f.offset
  last : d.last = ⟨d.first.line, d.first.character + 1⟩
  counted : source.length < maxCount →
    isCount d.last.line = true ∧ isCount d.last.character = true
  unrecognized : ∀ c pos, d.message = (LexicalError.unrecognized c pos).message →
    source.toList[f.offset]? = some c

variable {source : String} {s : Statement} {f : Fault}

theorem fault?_eq_some_iff :
    fault? s = some f ↔ f.statement = s ∧ Command.parse s.text = .error f.error := by
  obtain ⟨statement, error⟩ := f
  unfold fault?
  cases Command.parse s.text <;> simp [eq_comm]

theorem mem_faults_iff : f ∈ faults source ↔
    f.statement ∈ Script.statements (Script.withoutComments source) ∧
      Command.parse f.statement.text = .error f.error := by
  simp only [faults, List.mem_filterMap, fault?_eq_some_iff]
  grind

theorem diagnostics_eq (source : String) : diagnostics source =
    (faults source).map fun f => diagnostic source f.offset f.error.message := by
  have herror (s : Statement) :
      statementError? s = (fault? s).map fun f => (f.offset, f.error.message) := by
    unfold statementError? fault?
    cases Command.parse s.text <;> rfl
  rw [diagnostics, faults, funext herror, List.map_filterMap, List.map_filterMap]
  simp only [Option.map_map]
  rfl

/-- The error of a statement is in the statement or at its end, and the statement in the
document. -/
theorem offset_bounds (h : f ∈ faults source) :
    f.offset ≤ f.statement.stop ∧ f.statement.stop ≤ source.length := by
  obtain ⟨hstatement, hparse⟩ := mem_faults_iff.1 h
  have hparted := Script.parted_statements (Script.withoutComments source)
  have hstop := (hparted.bounds hstatement).2
  rw [String.length_toList, Script.length_withoutComments] at hstop
  have hposition := (refused_of_parse_error hparse).position_lt_or
  simp only [Fault.offset, Statement.stop] at hstop ⊢
  omega

/-- The document has the unrecognized character of a statement at its place. -/
theorem getElem?_offset {c : Char} {pos : Nat} (h : f ∈ faults source)
    (herror : f.error = .lexical (.unrecognized c pos)) : source.toList[f.offset]? = some c := by
  obtain ⟨hstatement, hparse⟩ := mem_faults_iff.1 h
  have hunreadable := (herror ▸ refused_of_parse_error hparse).unreadable
  have hparted := Script.parted_statements (Script.withoutComments source)
  obtain ⟨front, back, hsplit, hoffset⟩ := hparted.slice hstatement
  refine Script.getElem?_of_withoutComments ?_ fun hc => ?_
  · have hc : f.statement.text.toList[pos]? = some c := hunreadable.at_pos
    have hplace : f.offset = front.length + pos := by
      rw [Fault.offset, herror, hoffset, Nat.zero_add]
      rfl
    obtain ⟨hlt, -⟩ := List.getElem?_eq_some_iff.1 hc
    rw [hsplit, List.append_assoc, hplace, List.getElem?_append_right (by omega),
      Nat.add_sub_cancel_left, List.getElem?_append_left hlt, hc]
  · exact absurd (hc ▸ hunreadable.not_skipped) (by decide)

theorem marks_diagnostic (h : f ∈ faults source) :
    Marks source f (diagnostic source f.offset f.error.message) := by
  obtain ⟨hle, hstop⟩ := offset_bounds h
  have hinside := hle.trans hstop
  have hdenotes := denotes_position hinside
  simp only [diagnostic, Nat.min_eq_left hinside]
  exact {
    message := rfl
    start_le := Nat.le_add_right ..
    le_stop := hle
    stop_le := hstop
    first := hdenotes
    only := fun offset ho hsame => hsame.unique hdenotes ho hinside
    last := rfl
    counted := by
      intro hlength
      obtain ⟨hline, hcharacter⟩ := hdenotes.le hinside
      simp only [isCount, Bool.and_eq_true, decide_eq_true_eq]
      omega
    unrecognized := by
      intro c pos hmessage
      obtain ⟨pos', herror⟩ := StatementError.eq_unrecognized_of_message hmessage
      exact getElem?_offset h herror }

/-- Each statement of a document that cannot be parsed has a diagnostic, in order, at the place of
its error, and each further one stands at a later place. -/
theorem marks_diagnostics (source : String) :
    List.Forall₂ (Marks source) (faults source) (diagnostics source) ∧
      (faults source).Pairwise fun f g => f.offset < g.offset := by
  constructor
  · rw [diagnostics_eq, List.forall₂_map_right_iff, List.forall₂_same]
    exact fun f hf => marks_diagnostic hf
  have hparted := Script.parted_statements (Script.withoutComments source)
  have hordered := hparted.pairwise_terminated.and hparted.ordered
  rw [faults]
  refine hordered.filterMap fault? ?_
  rintro s t ⟨hsemicolon, hordered⟩ f hf g hg
  obtain ⟨rfl, hparse⟩ := fault?_eq_some_iff.1 hf
  obtain ⟨rfl, -⟩ := fault?_eq_some_iff.1 hg
  have hposition := (refused_of_parse_error hparse).position_lt_or
  simp only [Statement.stop, Fault.offset] at hordered ⊢
  grind

/-- An error behind a comment and another one at the end of the document. -/
example : (faults "-- ;\n USE ?;\nUSE d").map Fault.offset = [10, 18] := by decide +kernel

end Editor

end Tabula
