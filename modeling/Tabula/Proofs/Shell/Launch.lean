import Tabula.Proofs.Script.Comment
import Tabula.Proofs.Script.Partition
import Tabula.Proofs.Shell.Batch
import Tabula.Shell.Launch

/-!
# How runs of statements end

A run of statements on a root directory whose path has no null character ends with a code if no
statement breaks it off (`Launch.exists_code_batch`), as is the case with the statements of a script
(`Launch.exists_code_file`). The code is zero exactly if the root directory can be opened and each
statement that is executed goes well.
-/

namespace Tabula

open Shell (Executed)

/-- A root directory that cannot be opened is reported. -/
theorem isReported_of_start_error {root : Path} {files files' : FileTree} {e : FileError}
    (hroot : root.NullFree) (h : Session.start root files = (.error e, files')) :
    (Failure.file e).isReported = true := by
  unfold Session.start at h
  split at h
  · cases h
  · rename_i hmake
    cases h
    exact FileTree.isOfSystem_of_makeDirectories_error hroot hmake

namespace Launch

variable {options : Options} {files : FileTree} {statements : List String}

theorem code_unopened {message : String} {e : FileError}
    (he : (Failure.file e).isReported = true) : (unopened message e files).code = .ok 1 := by
  rw [unopened, if_pos he]
  rfl

/-- Statements that do not break the run off end with a code. -/
theorem exists_code_batch (hroot : options.root.NullFree) (reason : String)
    (hcalm : ∀ session files', Session.start options.root files = (.ok session, files') →
      ∀ text w, Executed options.verbose statements ⟨⟨session, files'⟩, []⟩ text w →
        ¬ Shell.Breaks options.verbose w text) :
    ∃ good : Bool, (batch options statements reason files).code = .ok (if good then 0 else 1) ∧
      (good = true ↔ ∃ session files', Session.start options.root files = (.ok session, files') ∧
        ∀ text w, Executed options.verbose statements ⟨⟨session, files'⟩, []⟩ text w →
          ∃ a w', (Operation.execute text).run w = .ok a w') := by
  unfold batch
  cases hstart : Session.start options.root files with
  | mk result files' =>
    cases result with
    | error e =>
      refine ⟨false, code_unopened (isReported_of_start_error hroot hstart), ?_⟩
      simp
    | ok session =>
      obtain ⟨good, s, hrun, -, hgood⟩ := Shell.exists_runStatements
        (s := ⟨⟨session, files'⟩, []⟩) (.start hstart) (hcalm session files' hstart)
      refine ⟨good, by simp only [report, hrun], hgood.trans ⟨fun hall => ?_, ?_⟩⟩
      · exact ⟨session, files', rfl, hall⟩
      · rintro ⟨_, _, hsame, hall⟩
        cases hsame
        exact hall

/-- A statement that breaks off breaks the run off. -/
theorem exists_crash_batch {session : Session} {files' : FileTree} {text : String} {w : World}
    (hstart : Session.start options.root files = (.ok session, files'))
    (hexecuted : Executed options.verbose statements ⟨⟨session, files'⟩, []⟩ text w)
    (hbreaks : Shell.Breaks options.verbose w text) (reason : String) :
    ∃ crash, (batch options statements reason files).code = .error crash := by
  obtain ⟨crash, s, hrun⟩ := hexecuted.exists_error (.start hstart) hbreaks
  exact ⟨crash, by simp only [batch, hstart, report, hrun]⟩

/-! ### Scripts -/

/-- A file that can be read is there. -/
theorem hasEntry_of_readFile {path : Path} {content : Content}
    (h : files.readFile path = .ok content) : files.hasEntry path = .ok true := by
  obtain ⟨place, hplace, h⟩ := bind_eq_ok_iff.1 h
  rw [FileTree.hasEntry_eq (mapError_eq_ok_iff.1 hplace)]
  split at h
  · cases h
  · cases h
  · simp_all

theorem encodes_withoutComments {e : Text.Encoding} {script : String} (h : e.Encodes script) :
    e.Encodes (Script.withoutComments script) := by
  intro c hc
  obtain ⟨i, hi⟩ := List.mem_iff_getElem?.1 hc
  by_cases hblank : c = ' '
  · exact Text.Encoding.byte?_eq_none (.inl (by simp [hblank]))
  · exact h c (List.mem_of_getElem? (Script.getElem?_of_withoutComments hi hblank))

/-- The statements of a text that can be encoded can be encoded. -/
theorem encodes_of_mem_scriptStatements {e : Text.Encoding} {content statement : String}
    (hcontent : e.Encodes content) (h : statement ∈ scriptStatements content) :
    e.Encodes statement := by
  have hunified : e.Encodes (String.ofList (Text.unifyBreaks content.toList)) := by
    intro c hc
    rw [String.toList_ofList] at hc
    rcases Text.mem_of_mem_unifyBreaks hc with hc | rfl
    · exact hcontent c hc
    · exact Text.Encoding.byte?_eq_none (.inl (by decide))
  obtain ⟨s, hs, rfl⟩ := List.mem_map.1 h
  obtain ⟨front, back, htext, -⟩ := (Script.parted_statements _).slice hs
  refine (encodes_withoutComments hunified).of_subset fun c hc => ?_
  rw [htext]
  exact List.mem_append_left back (List.mem_append_right front hc)

/-- No statement of a script breaks the run off. -/
theorem not_breaks_of_readFile {path : Path} {content : Content} {text statement : String}
    {session : Session} {files' : FileTree} {w : World}
    (hfile : files.readFile path = .ok content) (hread : content.read = .ok text)
    (hstart : Session.start options.root files = (.ok session, files'))
    (hexecuted : Executed options.verbose (scriptStatements text) ⟨⟨session, files'⟩, []⟩
      statement w) :
    w.files.encoding.Encodes statement ∧ ¬ Shell.Breaks options.verbose w statement := by
  have hlive : w.Live files.encoding := hexecuted.live (.start hstart)
  have hencodes : w.files.encoding.Encodes statement := by
    rw [hlive.encoding]
    exact encodes_of_mem_scriptStatements (FileTree.encodes_of_readFile hfile hread) hexecuted.mem
  exact ⟨hencodes, fun hbreaks => hbreaks.not_encodes hlive hencodes⟩

/-- A script that can be read ends with a code. -/
theorem exists_code_file (hroot : options.root.NullFree) {path : Path} {content : Content}
    {text : String} (hfile : files.readFile path = .ok content) (hread : content.read = .ok text) :
    ∃ good : Bool, (file options path files).code = .ok (if good then 0 else 1) ∧
      (good = true ↔ scriptStatements text ≠ [] ∧
        ∃ session files', Session.start options.root files = (.ok session, files') ∧
        ∀ statement w,
          Executed options.verbose (scriptStatements text) ⟨⟨session, files'⟩, []⟩ statement w →
          ∃ a w', (Operation.execute statement).run w = .ok a w') := by
  have hthere := hasEntry_of_readFile hfile
  have hcalm : ∀ session files', Session.start options.root files = (.ok session, files') →
      ∀ statement w, Executed options.verbose (scriptStatements text) ⟨⟨session, files'⟩, []⟩
        statement w → ¬ Shell.Breaks options.verbose w statement :=
    fun _ _ hstart _ _ hexecuted => (not_breaks_of_readFile hfile hread hstart hexecuted).2
  cases hstatements : scriptStatements text with
  | nil =>
    have hrun : file options path files = refused "No statements found in file" files := by
      simp only [file, hthere, hfile, hread, hstatements]
    exact ⟨false, by rw [hrun]; rfl, by simp⟩
  | cons t ts =>
    have hrun : file options path files =
        batch options (t :: ts) "Error opening database root: " files := by
      simp only [file, hthere, hfile, hread, hstatements]
    obtain ⟨good, hcode, hgood⟩ :=
      exists_code_batch hroot "Error opening database root: " (hstatements ▸ hcalm)
    exact ⟨good, by rw [hrun, hcode], by simp [hgood]⟩

end Launch

end Tabula
