import Tabula.Proofs.Session.Shown
import Tabula.Shell.Output

/-!
# Responses on two streams

A response is cut into its lines again when it is printed, and a line goes to the stream for errors
if it begins as a warning does. So the warnings of an answer go there, but so does every line of the
table whose first cell begins like a warning (`Emission.response_streams`). The table is on the
output as a whole exactly if it has no such cell, neither in its header nor in its rows.
-/

namespace Tabula

namespace Answer

/-- The header and the rows of the table that an answer shows. -/
def table (a : Answer) : List (List String) := if a.columns = [] then [] else a.columns :: a.rows

def rowLine (row : List String) : String := "\t".intercalate row

def warningLine (warning : String) : String := s!"[WARNING] {warning}"

/-- No text in an answer has a line break. -/
def Unbroken (a : Answer) : Prop :=
  ∀ s ∈ a.columns ++ a.rows.flatten ++ a.warnings, ∀ c ∈ s.toList, Text.isLineBreak c = false

theorem lines_eq (a : Answer) :
    a.lines = "[OK]" :: a.table.map rowLine ++ a.warnings.map warningLine := by
  unfold lines table
  split <;> rfl

theorem rowLine_cons_cons (s r : String) (row : List String) :
    rowLine (s :: r :: row) = s ++ "\t" ++ rowLine (r :: row) :=
  String.intercalate_cons_cons

/-- Tabs between texts without line breaks make no line break. -/
theorem not_break_rowLine {row : List String}
    (h : ∀ s ∈ row, ∀ c ∈ s.toList, Text.isLineBreak c = false) :
    ∀ c ∈ (rowLine row).toList, Text.isLineBreak c = false := by
  induction row with
  | nil => nofun
  | cons s row ih =>
    obtain ⟨hs, hrow⟩ := List.forall_mem_cons.1 h
    cases row with
    | nil => simpa [rowLine] using hs
    | cons r row =>
      have htab : ∀ c ∈ "\t".toList, Text.isLineBreak c = false := by simp [Text.isLineBreak]
      rw [rowLine_cons_cons, String.toList_append, String.toList_append]
      exact List.forall_mem_append.2 ⟨List.forall_mem_append.2 ⟨hs, htab⟩, ih hrow⟩

theorem Unbroken.not_break_line {a : Answer} (h : a.Unbroken) {l : String} (hl : l ∈ a.lines) :
    ∀ c ∈ l.toList, Text.isLineBreak c = false := by
  obtain ⟨htable, hwarnings⟩ := List.forall_mem_append.1 h
  obtain ⟨hcolumns, hrows⟩ := List.forall_mem_append.1 htable
  have hshown : ∀ row ∈ a.table, ∀ s ∈ row, ∀ c ∈ s.toList, Text.isLineBreak c = false := by
    intro row hrow s hs
    unfold table at hrow
    split at hrow
    · cases hrow
    · rcases List.mem_cons.1 hrow with rfl | hrow
      · exact hcolumns s hs
      · exact hrows s (List.mem_flatten.2 ⟨row, hrow, hs⟩)
  rw [lines_eq, List.mem_append, List.mem_cons, List.mem_map, List.mem_map] at hl
  rcases hl with (rfl | ⟨row, hrow, rfl⟩) | ⟨w, hw, rfl⟩
  · simp [Text.isLineBreak]
  · exact not_break_rowLine (hshown row hrow)
  · have htag : ∀ c ∈ "[WARNING] ".toList, Text.isLineBreak c = false := by
      simp [Text.isLineBreak]
    have hwarning : warningLine w = "[WARNING] " ++ w := rfl
    rw [hwarning, String.toList_append]
    exact List.forall_mem_append.2 ⟨htag, hwarnings w hw⟩

/-- The lines of a response are those of its answer. -/
theorem Unbroken.stringLines_text {a : Answer} (h : a.Unbroken) :
    Text.stringLines a.text = a.lines := by
  have hlines : ∀ l ∈ a.lines.map String.toList, ∀ c ∈ l, Text.isLineBreak c = false :=
    List.forall_mem_map.2 fun l hl => h.not_break_line hl
  rw [Text.stringLines, toList_text, Text.lines_flatMap_newline hlines, List.map_map]
  simp

end Answer

/-! ### Lines that begin like a warning -/

/-- What begins a text up to a character is not changed by a beginning without the character. -/
theorem isPrefixOf_append_cons {tag s t : List Char} {x : Char} (h : x ∉ tag) :
    tag.isPrefixOf (s ++ x :: t) = tag.isPrefixOf s := by
  induction tag generalizing s with
  | nil => simp
  | cons c tag ih =>
    simp only [List.mem_cons, not_or] at h
    cases s with
    | nil => simp [List.isPrefixOf, Ne.symm h.1]
    | cons d s => simp [List.isPrefixOf, ih h.2]

namespace Emission

open Answer (rowLine warningLine)

theorem isWarning_warningLine (w : String) : isWarning (warningLine w) = true := by
  have hwarning : warningLine w = "[WARNING]" ++ (" " ++ w) := by
    rw [← String.append_assoc]
    rfl
  rw [isWarning, hwarning, String.toList_append, List.isPrefixOf_iff_prefix]
  exact List.prefix_append _ _

/-- Whether a line of a table is taken for a warning is decided by its first cell. -/
theorem isWarning_rowLine (row : List String) :
    isWarning (rowLine row) = row.head?.any isWarning := by
  cases row with
  | nil => decide
  | cons s row =>
    cases row with
    | nil => simp [rowLine]
    | cons r row =>
      have hcons : (rowLine (s :: r :: row)).toList =
          s.toList ++ '\t' :: (rowLine (r :: row)).toList := by
        simp [Answer.rowLine_cons_cons]
      simp only [isWarning, hcons, List.head?_cons, Option.any_some]
      exact isPrefixOf_append_cons (by decide)

/-! ### What is printed -/

/-- The text of these lines, each ended by a line feed. -/
def printed (ls : List String) : String := String.join (ls.map (· ++ "\n"))

theorem printed_append (ls ms : List String) : printed (ls ++ ms) = printed ls ++ printed ms := by
  rw [← String.toList_inj]
  simp [printed]

theorem printed_eq_empty_iff {ls : List String} : printed ls = "" ↔ ls = [] := by
  rw [← String.toList_inj]
  cases ls <;> simp [printed]

/-- Lines that are sent to one of the two streams each are printed there in order. -/
theorem textOn_map (p : String → Bool) (ls : List String) :
    textOn .error (ls.map fun l => if p l then errorLine l else line l) = printed (ls.filter p) ∧
    textOn .output (ls.map fun l => if p l then errorLine l else line l) =
      printed (ls.filter (!p ·)) := by
  have htext : ∀ l, (if p l then errorLine l else line l).text = l ++ "\n" := by
    intro l
    split <;> rfl
  have herror : ∀ l, decide ((if p l then errorLine l else line l).stream = .error) = p l := by
    intro l
    cases p l <;> rfl
  have houtput : ∀ l, decide ((if p l then errorLine l else line l).stream = .output) = !p l := by
    intro l
    cases p l <;> rfl
  simp only [textOn, printed, List.filter_map, List.map_map, Function.comp_def, htext, herror,
    houtput, and_self]

/-- The lines of an answer on the stream for errors and on the output. -/
theorem filter_lines (a : Answer) :
    a.lines.filter isWarning =
      (a.table.map rowLine).filter isWarning ++ a.warnings.map warningLine ∧
    a.lines.filter (!isWarning ·) = "[OK]" :: (a.table.map rowLine).filter (!isWarning ·) := by
  have hok : isWarning "[OK]" = false := by decide
  have hwarnings : ∀ l ∈ a.warnings.map warningLine, isWarning l = true :=
    List.forall_mem_map.2 fun w _ => isWarning_warningLine w
  have hnone : (a.warnings.map warningLine).filter (!isWarning ·) = [] :=
    List.filter_eq_nil_iff.2 fun l hl => by simp [hwarnings l hl]
  rw [Answer.lines_eq, List.filter_append, List.filter_append, List.filter_eq_self.2 hwarnings,
    hnone]
  simp [hok]

/-- The stream for errors has the lines of the table that begin like a warning and then all
warnings, and the output has the other lines. The warnings are alone and the table is complete
exactly if no first cell of the table begins like a warning. -/
theorem response_streams {a : Answer} (h : a.Unbroken) :
    textOn .error (response a.text) =
      printed ((a.table.map rowLine).filter isWarning ++ a.warnings.map warningLine) ∧
    textOn .output (response a.text) =
      printed ("[OK]" :: (a.table.map rowLine).filter (!isWarning ·)) ∧
    (textOn .error (response a.text) = printed (a.warnings.map warningLine) ∧
        textOn .output (response a.text) = printed ("[OK]" :: a.table.map rowLine) ↔
      ∀ row ∈ a.table, ∀ cell ∈ row.head?, isWarning cell = false) := by
  obtain ⟨herror, houtput⟩ := textOn_map isWarning a.lines
  rw [(filter_lines a).1] at herror
  rw [(filter_lines a).2] at houtput
  have hresponse : response a.text =
      a.lines.map fun l => if isWarning l then errorLine l else line l := by
    rw [response, h.stringLines_text]
  rw [hresponse, herror, houtput]
  refine ⟨rfl, rfl, ?_⟩
  have hcells : (∀ row ∈ a.table, ∀ cell ∈ row.head?, isWarning cell = false) ↔
      (a.table.map rowLine).filter isWarning = [] := by
    simp only [List.filter_eq_nil_iff, List.forall_mem_map, isWarning_rowLine]
    refine forall₂_congr fun row _ => ?_
    cases row.head? <;> simp
  rw [hcells]
  constructor
  · rintro ⟨halone, -⟩
    rw [printed_append, ← String.toList_inj, String.toList_append,
      List.append_left_eq_self] at halone
    exact printed_eq_empty_iff.1 (String.toList_inj.1 halone)
  · intro hnone
    have hall : (a.table.map rowLine).filter (!isWarning ·) = a.table.map rowLine := by
      simpa [List.filter_eq_nil_iff] using hnone
    rw [hnone, hall]
    exact ⟨rfl, rfl⟩

/-- The answer to a query for one column, with a cell that begins like a warning. -/
def lowAnswer : Answer := ⟨["a"], [["[WARNING] low"]], ["Condition attribute not found: b"]⟩

theorem run_select_low :
    (Command.select "t" (.columns ["a"]) (some "(b == 'x') OR (a != 'x')")).run.run
      (.sample "id\ta\n1\t[WARNING] low\n") =
        .ok lowAnswer (.sample "id\ta\n1\t[WARNING] low\n") := by
  have hread : Table.read "t" "id\ta\n1\t[WARNING] low\n" =
      .ok ⟨"t", ["id", "a"], [⟨[("id", "1"), ("a", "[WARNING] low")]⟩]⟩ := rfl
  rw [Command.run, Operation.run_selectFrom, World.table_sample, hread]
  rfl

/-- A query prints a row among the warnings, and the output lacks it. -/
theorem response_streams_low :
    (Command.select "t" (.columns ["a"]) (some "(b == 'x') OR (a != 'x')")).run.run
      (.sample "id\ta\n1\t[WARNING] low\n") =
        .ok lowAnswer (.sample "id\ta\n1\t[WARNING] low\n") ∧
    lowAnswer.Unbroken ∧
    textOn .error (response lowAnswer.text) =
      "[WARNING] low\n[WARNING] Condition attribute not found: b\n" ∧
    textOn .output (response lowAnswer.text) = "[OK]\na\n" ∧
    ¬ (textOn .error (response lowAnswer.text) = printed (lowAnswer.warnings.map warningLine) ∧
      textOn .output (response lowAnswer.text) =
        printed ("[OK]" :: lowAnswer.table.map rowLine)) := by
  have hunbroken : lowAnswer.Unbroken := by simp [Answer.Unbroken, lowAnswer, Text.isLineBreak]
  obtain ⟨herror, houtput, hiff⟩ := response_streams hunbroken
  refine ⟨run_select_low, hunbroken, herror.trans rfl, houtput.trans rfl, fun hapart => ?_⟩
  have hcell : isWarning "[WARNING] low" = false :=
    hiff.1 hapart ["[WARNING] low"] (by decide) "[WARNING] low" rfl
  cases hcell

end Emission

end Tabula
