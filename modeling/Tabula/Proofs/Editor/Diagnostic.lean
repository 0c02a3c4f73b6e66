import Tabula.Editor.Diagnostic
import Tabula.Proofs.Shell.Launch
import Tabula.Proofs.Text.Plain

/-!
# The editor and the runner

The editor marks the statements of a document that cannot be parsed, and the runner executes the
statements of the same document up to the first that fails. So a script without a mark fails in its
commands at most, and one with a mark is never run to its end (`Launch.file_diagnostics`).
-/

namespace Tabula

open Shell (Executed)

namespace Editor

theorem statementError?_eq_none_iff {s : Statement} :
    statementError? s = none ↔ ∃ command, Command.parse s.text = .ok command := by
  unfold statementError?
  cases Command.parse s.text <;> simp

/-- A document has no mark exactly if all its statements can be parsed. -/
theorem diagnostics_eq_nil_iff (source : String) : diagnostics source = [] ↔
    ∀ s ∈ Script.statements (Script.withoutComments source),
      ∃ command, Command.parse s.text = .ok command := by
  simp only [diagnostics, List.map_eq_nil_iff, List.filterMap_eq_nil_iff,
    statementError?_eq_none_iff]

end Editor

namespace Launch

variable {options : Options} {files : FileTree} {path : Path} {c : Content} {content : String}

/-- The runner has the statements of the editor, as there is no break to unify. -/
theorem diagnostics_eq_nil_iff (hreturn : '\r' ∉ content.toList) :
    Editor.diagnostics content = [] ↔
      ∀ text ∈ scriptStatements content, ∃ command, Command.parse text = .ok command := by
  rw [Editor.diagnostics_eq_nil_iff, scriptStatements, Text.unifyBreaks_of_not_mem hreturn,
    String.ofList_toList, List.forall_mem_map]

/-- Of a script that the editor does not mark, no statement that is executed fails as a statement,
but only in its command and for a reason that is reported. A script that it marks ends with the code
for a failure. -/
theorem file_diagnostics (hroot : options.root.NullFree) (hfile : files.readFile path = .ok c)
    (hread : c.read = .ok content) (hreturn : '\r' ∉ content.toList) :
    (Editor.diagnostics content = [] → ∀ session files',
      Session.start options.root files = (.ok session, files') → ∀ text w,
      Executed options.verbose (scriptStatements content) ⟨⟨session, files'⟩, []⟩ text w →
      ∀ e w', (Operation.execute text).run w = .error e w' →
        e.isReported = true ∧ ∀ s, e ≠ .statement s) ∧
    (Editor.diagnostics content ≠ [] → (file options path files).code = .ok 1) := by
  rw [ne_eq, diagnostics_eq_nil_iff hreturn]
  constructor
  · intro hparse session files' hstart text w hexecuted e w' hfailed
    obtain ⟨command, hcommand⟩ := hparse text hexecuted.mem
    have hlive : w.Live files.encoding := hexecuted.live (.start hstart)
    have hencodes := (not_breaks_of_readFile hfile hread hstart hexecuted).1
    have hencoded := Command.encoded_of_parse hencodes hcommand
    rcases Operation.isOfCommand_of_execute_error hlive.reachable.nullFree hcommand hfailed with
      hreported | ⟨-, v, hv, hnot⟩
    · exact Failure.isOfCommand_iff.1 hreported
    · exact absurd (hencoded v (command.values_subset_texts hv)) hnot
  · intro hmarked
    obtain ⟨good, hcode, hgood⟩ := exists_code_file hroot hfile hread
    cases good with
    | false => exact hcode
    | true =>
      obtain ⟨-, session, files', hstart, hall⟩ := hgood.1 rfl
      refine absurd (fun text htext => ?_) hmarked
      have hcalm : ∀ statement w, Executed options.verbose (scriptStatements content)
          ⟨⟨session, files'⟩, []⟩ statement w → ¬ Shell.Breaks options.verbose w statement :=
        fun _ _ hexecuted => (not_breaks_of_readFile hfile hread hstart hexecuted).2
      obtain ⟨w, hexecuted⟩ := Shell.exists_executed (s := ⟨⟨session, files'⟩, []⟩)
        (.start hstart) hcalm hall htext
      obtain ⟨a, w', hexecute⟩ := hall text w hexecuted
      cases hparse : Command.parse text with
      | ok command => exact ⟨command, rfl⟩
      | error e =>
        rw [Operation.run_execute, hparse] at hexecute
        cases hexecute

/-- Two scripts, the first of which can be parsed. -/
def sampleScripts : FileTree :=
  ⟨[], [(["a.sql"], .file (.text "USE e;")), (["b.sql"], .file (.text "USE e"))], .utf8⟩

def sampleOptions : Options := { root := ⟨0, ["r"]⟩ }

/-- The world in which they are run. -/
def sampleWorld : World := ⟨⟨⟨0, ["r"]⟩, none⟩, sampleScripts.put ["r"] .directory⟩

theorem parse_sampleScripts : Command.parse "USE e;" = .ok (.use "e") := by decide +kernel

theorem diagnostics_sampleScripts :
    Editor.diagnostics "USE e;" = [] ∧ Editor.diagnostics "USE e" ≠ [] := by
  have hclean : scriptStatements "USE e;" = ["USE e;"] := rfl
  have hmarked : scriptStatements "USE e" = ["USE e"] := rfl
  have hfailed : Command.parse "USE e" = .error (.lexical (.noTerminator 5)) := by decide +kernel
  rw [ne_eq, diagnostics_eq_nil_iff (by decide), diagnostics_eq_nil_iff (by decide), hclean,
    hmarked]
  simp [parse_sampleScripts, hfailed]

theorem execute_sampleScripts : (Operation.execute "USE e;").run sampleWorld =
    .error (.operation (.databaseMissing "e")) sampleWorld := by
  rw [Operation.run_execute_of_parse parse_sampleScripts]
  rfl

/-- A statement that fails although the editor does not mark it, and one that it marks. -/
theorem file_diagnostics_sample :
    (Editor.diagnostics "USE e;" = [] ∧
      Session.start sampleOptions.root sampleScripts =
        (.ok sampleWorld.session, sampleWorld.files) ∧
      Executed false (scriptStatements "USE e;") ⟨sampleWorld, []⟩ "USE e;" sampleWorld ∧
      ∃ e w', (Operation.execute "USE e;").run sampleWorld = .error e w' ∧
        e.isReported = true ∧ ∀ s, e ≠ .statement s) ∧
    Editor.diagnostics "USE e" ≠ [] ∧
      (file sampleOptions ⟨0, ["b.sql"]⟩ sampleScripts).code = .ok 1 := by
  obtain ⟨hclean, hmarked⟩ := diagnostics_sampleScripts
  have hroot : sampleOptions.root.NullFree := by decide
  have hstart : Session.start sampleOptions.root sampleScripts =
      (.ok sampleWorld.session, sampleWorld.files) := by decide +kernel
  have hstatements : scriptStatements "USE e;" = ["USE e;"] := rfl
  have hexecuted : Executed false (scriptStatements "USE e;") ⟨sampleWorld, []⟩ "USE e;"
      sampleWorld := hstatements ▸ Shell.executed_head false "USE e;" [] ⟨sampleWorld, []⟩
  have hfirst : sampleScripts.readFile ⟨0, ["a.sql"]⟩ = .ok (.text "USE e;") := rfl
  have hsecond : sampleScripts.readFile ⟨0, ["b.sql"]⟩ = .ok (.text "USE e") := rfl
  refine ⟨⟨hclean, hstart, hexecuted, _, _, execute_sampleScripts, ?_⟩, hmarked, ?_⟩
  · exact (file_diagnostics hroot hfirst rfl (by decide)).1
      hclean _ _ hstart _ _ hexecuted _ _ execute_sampleScripts
  · exact (file_diagnostics hroot hsecond rfl (by decide)).2 hmarked

end Launch

end Tabula
