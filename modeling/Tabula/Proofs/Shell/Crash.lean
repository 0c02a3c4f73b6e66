import Tabula.Proofs.Shell.Arguments
import Tabula.Proofs.Shell.Console
import Tabula.Proofs.Shell.Launch

/-!
# Runs that break off

A run ends with the code zero or one unless the path of its script is too long to be looked up, its
script is no text, a statement in an argument breaks it off, or the console cannot greet or is
broken off by an input (`Launch.Breaks`). Each of these breaks it off, and nothing else does
(`Launch.code_run_iff`).
-/

namespace Tabula

open Shell (Executed)

/-- The run is a session at the console. -/
def Options.AtConsole (options : Options) : Prop :=
  options.file = none ∧ (options.command = none ∨ options.command = some "")

namespace Launch

variable {options : Options} {files : FileTree} {lines : List String} {ending : Console.Input}

/-- What breaks a run off. -/
inductive Breaks (options : Options) (inputs : List Console.Input) (files : FileTree) : Prop
  /-- The path of the script, or a name in it, is too long to be looked up. -/
  | unfindable {path : Path} :
      options.file = some path → files.locate path = .error .nameTooLong →
      Breaks options inputs files
  /-- The script is no text. -/
  | undecodable {path : Path} {content : Content} {fault : Text.Utf8.Fault} :
      options.file = some path → files.readFile path = .ok content →
      content.read = .error fault → Breaks options inputs files
  /-- A statement of the argument cannot be shown, or its table cannot be encoded, or its response
  cannot be printed. -/
  | statement {statements text : String} {session : Session} {files' : FileTree} {w : World} :
      options.file = none → options.command = some statements →
      Session.start options.root files = (.ok session, files') →
      Executed options.verbose ((Script.statements statements).map Statement.text)
        ⟨⟨session, files'⟩, []⟩ text w →
      Shell.Breaks options.verbose w text → Breaks options inputs files
  /-- The path of the root directory cannot be printed. -/
  | greeting :
      options.AtConsole → ¬ files.encoding.Encodes (toString options.root) →
      Breaks options inputs files
  /-- An input at the console breaks the session off. -/
  | input {session : Session} {files' : FileTree} {input : Console.Input} {mode : Console.Mode}
      {s : Shell.State} :
      options.AtConsole → Session.start options.root files = (.ok session, files') →
      Console.Reads .ready inputs ⟨⟨session, files'⟩, []⟩ input mode s →
      Console.Breaks s mode input → Breaks options inputs files

theorem code_of_good {r : Report} {good : Bool} (h : r.code = .ok (if good then 0 else 1)) :
    r.code = .ok 0 ∨ r.code = .ok 1 := by
  cases good
  · exact .inr h
  · exact .inl h

/-! ### Scripts -/

theorem hasEntry_error_iff {path : Path} :
    (∃ e, files.hasEntry path = .error e) ↔ files.locate path = .error .nameTooLong := by
  unfold FileTree.hasEntry FileTree.find?
  cases files.locate path with
  | ok place => simp [Except.map]
  | error r => cases r <;> simp [Except.map]

/-- A script from a file ends with a code if it can be looked up and is a text. -/
theorem code_file_iff (hroot : options.root.NullFree) (path : Path) (files : FileTree) :
    (file options path files).code = .ok 0 ∨ (file options path files).code = .ok 1 ↔
      files.locate path ≠ .error .nameTooLong ∧
        ∀ content fault, files.readFile path = .ok content → content.read ≠ .error fault := by
  rw [ne_eq, ← hasEntry_error_iff]
  cases hthere : files.hasEntry path with
  | error e =>
    have hrun : (file options path files).code = .error (.failure (.file e)) := by
      simp only [file, hthere]
    simp [hrun]
  | ok there =>
    cases hfile : files.readFile path with
    | error e =>
      have hrun : (file options path files).code = .ok 1 := by
        cases there <;> simp only [file, hthere, hfile] <;> rfl
      simp [hrun]
    | ok content =>
      obtain rfl : there = true := Except.ok.inj (hthere.symm.trans (hasEntry_of_readFile hfile))
      cases hread : content.read with
      | error fault =>
        have hrun : (file options path files).code = .error (.undecodable fault) := by
          simp only [file, hthere, hfile, hread]
        simp [hrun, hread]
      | ok text =>
        obtain ⟨good, hcode, -⟩ := exists_code_file hroot hfile hread
        refine iff_of_true (code_of_good hcode) ⟨by simp, fun content' fault hsame => ?_⟩
        cases hsame
        simp [hread]

/-! ### Sessions at the console -/

theorem start_of_atConsole (h : options.AtConsole) (files : FileTree) :
    start options files = console options files := by
  obtain ⟨hfile, hcommand | hcommand⟩ := h <;> simp only [start, hfile, hcommand]

theorem printable_greeting_iff {e : Text.Encoding} {root : String} :
    Emission.Printable e ((Shell.greeting root).map Emission.line) ↔ e.Encodes root := by
  have hfixed {s : String} (hs : Text.isLow s) : e.Encodes s :=
    Text.Encoding.encodes_of_isLow hs
  rw [Emission.printable_lines_iff, Shell.greeting, List.forall_mem_cons, List.forall_mem_cons,
    Text.Encoding.encodes_append, and_iff_right (hfixed (by decide)),
    and_iff_right (hfixed (by decide)),
    and_iff_left (Text.Encoding.forall_encodes_of_isLow (by decide))]

/-- A session at the console that cannot greet breaks off. -/
theorem exists_crash_greeting (h : options.AtConsole)
    (hroot : ¬ files.encoding.Encodes (toString options.root)) (lines : List String)
    (ending : Console.Input) : ∃ crash, (run options lines ending files).code = .error crash := by
  rw [← printable_greeting_iff, ← Emission.print_snd_eq_none_iff] at hroot
  obtain ⟨fault, hfault⟩ := Option.ne_none_iff_exists'.1 hroot
  cases hprint : Emission.print files.encoding
      ((Shell.greeting (toString options.root)).map Emission.line) with
  | mk greeting fault? =>
    rw [hprint] at hfault
    subst hfault
    exact ⟨.unprintable fault, by simp only [run, start_of_atConsole h, console, hprint]⟩

/-- After the greeting the inputs are read if the root directory can be opened. -/
theorem code_run_of_greeted (h : options.AtConsole)
    (hroot : files.encoding.Encodes (toString options.root)) :
    (run options lines ending files).code = match Session.start options.root files with
      | (.error e, files') => (unopened "Error opening database root: " e files').code
      | (.ok session, files') => (report (fun _ => 0) (Console.steps .ready
          (lines.map .line ++ [ending, ending])) session files').code := by
  rw [← printable_greeting_iff, ← Emission.print_snd_eq_none_iff] at hroot
  cases hprint : Emission.print files.encoding
      ((Shell.greeting (toString options.root)).map Emission.line) with
  | mk greeting fault? =>
    rw [hprint] at hroot
    obtain rfl : fault? = none := hroot
    simp only [run, start_of_atConsole h, console, hprint]
    cases Session.start options.root files with
    | mk result files' => cases result <;> rfl

/-- A session at the console ends with a code if it can greet and no input breaks it off. -/
theorem code_console_iff (hroot : options.root.NullFree) (h : options.AtConsole) :
    (run options lines ending files).code = .ok 0 ∨ (run options lines ending files).code = .ok 1 ↔
      files.encoding.Encodes (toString options.root) ∧
      ∀ session files', Session.start options.root files = (.ok session, files') →
        ∀ input mode s, Console.Reads .ready (lines.map .line ++ [ending, ending])
          ⟨⟨session, files'⟩, []⟩ input mode s → ¬ Console.Breaks s mode input := by
  by_cases hgreeted : files.encoding.Encodes (toString options.root)
  · rw [code_run_of_greeted h hgreeted, and_iff_right hgreeted]
    cases hstart : Session.start options.root files with
    | mk result files' =>
      cases result with
      | error e =>
        have hcode : (unopened "Error opening database root: " e files').code = .ok 1 :=
          code_unopened (isReported_of_start_error hroot hstart)
        simp [hcode]
      | ok session =>
        have hlive : World.Live ⟨session, files'⟩ files.encoding := .start hstart
        dsimp only
        constructor
        · intro hcode session' files'' hsame input mode s hreads hbreaks
          cases hsame
          obtain ⟨crash, s', hrun⟩ := hreads.exists_error hlive hbreaks
          rw [report, hrun] at hcode
          rcases hcode with hcode | hcode <;> cases hcode
        · intro hcalm
          obtain ⟨mode, s, hrun, -⟩ := Console.completes_steps (s := ⟨⟨session, files'⟩, []⟩) hlive
            (hcalm session files' rfl)
          rw [report, hrun]
          exact .inl rfl
  · obtain ⟨crash, hcode⟩ := exists_crash_greeting h hgreeted lines ending
    simp [hcode, hgreeted]

/-! ### Statements from an argument -/

/-- Statements from an argument end with a code if none of them breaks the run off. -/
theorem code_text_iff (hroot : options.root.NullFree) (statements : String) (files : FileTree) :
    (text options statements files).code = .ok 0 ∨ (text options statements files).code = .ok 1 ↔
      ∀ session files', Session.start options.root files = (.ok session, files') → ∀ t w,
        Executed options.verbose ((Script.statements statements).map Statement.text)
          ⟨⟨session, files'⟩, []⟩ t w → ¬ Shell.Breaks options.verbose w t := by
  unfold text
  constructor
  · intro hcode session files' hstart t w hexecuted hbreaks
    obtain ⟨crash, hcrash⟩ := exists_crash_batch hstart hexecuted hbreaks "Error: "
    rw [hcrash] at hcode
    rcases hcode with hcode | hcode <;> cases hcode
  · intro hcalm
    obtain ⟨good, hcode, -⟩ := exists_code_batch hroot "Error: " hcalm
    exact code_of_good hcode

/-! ### All runs -/

section

variable {inputs : List Console.Input}

theorem breaks_file_iff {path : Path} (hfile : options.file = some path) :
    Breaks options inputs files ↔ files.locate path = .error .nameTooLong ∨
      ∃ content fault, files.readFile path = .ok content ∧ content.read = .error fault := by
  constructor
  · intro h
    cases h with
    | unfindable hpath hlong =>
      cases hpath.symm.trans hfile
      exact .inl hlong
    | undecodable hpath hcontent hfault =>
      cases hpath.symm.trans hfile
      exact .inr ⟨_, _, hcontent, hfault⟩
    | statement hnone => cases hnone.symm.trans hfile
    | greeting hconsole => cases hconsole.1.symm.trans hfile
    | input hconsole => cases hconsole.1.symm.trans hfile
  · rintro (hlong | ⟨content, fault, hcontent, hfault⟩)
    · exact .unfindable hfile hlong
    · exact .undecodable hfile hcontent hfault

theorem breaks_text_iff (hfile : options.file = none) {statements : String}
    (hcommand : options.command = some statements) (hne : statements ≠ "") :
    Breaks options inputs files ↔
      ∃ session files', Session.start options.root files = (.ok session, files') ∧ ∃ t w,
        Executed options.verbose ((Script.statements statements).map Statement.text)
          ⟨⟨session, files'⟩, []⟩ t w ∧ Shell.Breaks options.verbose w t := by
  have hnot : ¬ options.AtConsole := by
    rintro ⟨-, hnone | hempty⟩
    · cases hcommand.symm.trans hnone
    · cases hcommand.symm.trans hempty
      exact hne rfl
  constructor
  · intro h
    cases h with
    | unfindable hpath => cases hpath.symm.trans hfile
    | undecodable hpath => cases hpath.symm.trans hfile
    | statement _ hsame hstart hexecuted hbreaks =>
      cases hsame.symm.trans hcommand
      exact ⟨_, _, hstart, _, _, hexecuted, hbreaks⟩
    | greeting hconsole => exact absurd hconsole hnot
    | input hconsole => exact absurd hconsole hnot
  · rintro ⟨session, files', hstart, t, w, hexecuted, hbreaks⟩
    exact .statement hfile hcommand hstart hexecuted hbreaks

theorem breaks_console_iff (h : options.AtConsole) :
    Breaks options inputs files ↔ ¬ files.encoding.Encodes (toString options.root) ∨
      ∃ session files', Session.start options.root files = (.ok session, files') ∧
        ∃ input mode s, Console.Reads .ready inputs ⟨⟨session, files'⟩, []⟩ input mode s ∧
          Console.Breaks s mode input := by
  constructor
  · intro hbreaks
    cases hbreaks with
    | unfindable hpath => cases hpath.symm.trans h.1
    | undecodable hpath => cases hpath.symm.trans h.1
    | statement _ hstatements _ hexecuted =>
      -- An empty argument has no statement that could break the run off.
      have hempty := h.2.resolve_left (by simp [hstatements])
      cases hstatements.symm.trans hempty
      have hnone : (Script.statements "").map Statement.text = [] := by decide
      exact absurd (hnone ▸ hexecuted.mem) List.not_mem_nil
    | greeting _ hencodes => exact .inl hencodes
    | input _ hstart hreads hinput => exact .inr ⟨_, _, hstart, _, _, _, hreads, hinput⟩
  · rintro (hencodes | ⟨session, files', hstart, input, mode, s, hreads, hinput⟩)
    · exact .greeting h hencodes
    · exact .input h hstart hreads hinput

end

/-- A run ends with the code zero or one exactly if nothing breaks it off. -/
theorem code_run_iff {args : List String} (hargs : ∀ s ∈ args, '\x00' ∉ s.toList)
    (hparse : Arguments.parse args = .run options) (lines : List String) (ending : Console.Input)
    (files : FileTree) :
    (run options lines ending files).code = .ok 0 ∨ (run options lines ending files).code = .ok 1 ↔
      ¬ Breaks options (lines.map .line ++ [ending, ending]) files := by
  have hroot : options.root.NullFree := (Arguments.givesRoot_of_parse hparse).nullFree hargs
  cases hfile : options.file with
  | some path =>
    have hrun : run options lines ending files = file options path files := by
      simp only [run, start, hfile]
    rw [hrun, code_file_iff hroot, breaks_file_iff hfile]
    simp only [not_or, not_exists, not_and, ne_eq]
  | none =>
    by_cases hconsole : options.command = none ∨ options.command = some ""
    · rw [code_console_iff hroot ⟨hfile, hconsole⟩, breaks_console_iff ⟨hfile, hconsole⟩]
      simp only [not_or, not_not, not_exists, not_and]
    · obtain ⟨hsome, hnonempty⟩ := not_or.1 hconsole
      obtain ⟨statements, hcommand⟩ := Option.ne_none_iff_exists'.1 hsome
      have hne : statements ≠ "" := fun hempty => hnonempty (hempty ▸ hcommand)
      have hrun : run options lines ending files = text options statements files := by
        simp only [run, start, hfile, hcommand]
      rw [hrun, code_text_iff hroot, breaks_text_iff hfile hcommand hne]
      simp only [not_exists, not_and]

def scriptOptions : Options := { file := some ⟨0, ["s.sql"]⟩ }

/-- A script of one byte, with which no text starts. -/
def undecodableScript : FileTree := ⟨[], [(["s.sql"], .file (.binary [0xff]))], .utf8⟩

/-- A script that is no text breaks the run off. -/
theorem code_run_iff_undecodable :
    Arguments.parse ["-f", "s.sql"] = .run scriptOptions ∧
    (∀ s ∈ ["-f", "s.sql"], '\x00' ∉ s.toList) ∧
    Breaks scriptOptions [.endOfInput, .endOfInput] undecodableScript ∧
    ¬ ((run scriptOptions [] .endOfInput undecodableScript).code = .ok 0 ∨
      (run scriptOptions [] .endOfInput undecodableScript).code = .ok 1) := by
  have hparse : Arguments.parse ["-f", "s.sql"] = .run scriptOptions := rfl
  have hargs : ∀ s ∈ ["-f", "s.sql"], '\x00' ∉ s.toList := by decide
  have hfile : undecodableScript.readFile ⟨0, ["s.sql"]⟩ = .ok (.binary [0xff]) := by decide +kernel
  have hread : (Content.binary [0xff]).read = .error ⟨0, 0xff, 1, .startByte⟩ := by decide +kernel
  have hbreaks : Breaks scriptOptions [.endOfInput, .endOfInput] undecodableScript :=
    .undecodable rfl hfile hread
  refine ⟨hparse, hargs, hbreaks, ?_⟩
  rw [code_run_iff hargs hparse, not_not]
  exact hbreaks

end Launch

end Tabula
