import Tabula.Proofs.Session.Listing
import Tabula.Proofs.Shell.Batch
import Tabula.Shell.Console

/-!
# Sessions at the console

An action of the console comes to an end if the session can be reached (`Shell.Completes`), unless
its input breaks the session off (`Console.Breaks`): it is no text, it asks for a list that cannot
be made or cannot be printed, or it completes a statement that breaks off. So a session at the
console comes to an end if no input that is read does this (`Console.completes_steps`), and breaks
off where one does (`Console.Reads.exists_error`).
-/

namespace Tabula

open Operation
open Text (Encoding)

variable {α β : Type} {e : Encoding} {s s' : Shell.State}

namespace Shell

/-- An action comes to an end, and the session can still be reached. -/
def Completes (e : Encoding) (action : Shell α) (s : State) : Prop :=
  ∃ a s', action.run s = .ok a s' ∧ s'.world.Live e

theorem completes_pure (hs : s.world.Live e) (a : α) : Completes e (pure a) s :=
  ⟨a, s, rfl, hs⟩

theorem Completes.bind {action : Shell α} {f : α → Shell β} (h : Completes e action s)
    (hf : ∀ a s', action.run s = .ok a s' → s'.world.Live e → Completes e (f a) s') :
    Completes e (action >>= f) s := by
  obtain ⟨a, s₁, hrun, hs₁⟩ := h
  obtain ⟨b, s₂, hrest, hs₂⟩ := hf a s₁ hrun hs₁
  exact ⟨b, s₂, by rw [EStateM.run_bind, hrun]; exact hrest, hs₂⟩

theorem completes_emit {es : List Emission} (hs : s.world.Live e)
    (h : Emission.Printable e es) : Completes e (emit es) s := by
  obtain ⟨output, hrun⟩ := exists_run_emit (s := s) (hs.encoding ▸ h)
  exact ⟨(), _, hrun, hs⟩

theorem completes_runScript (hs : s.world.Live e) {verbose : Bool} {script : String}
    (h : ∀ text w, Executed verbose ((Script.statements script).map Statement.text) s text w →
      ¬ Breaks verbose w text) : Completes e (runScript verbose script) s := by
  obtain ⟨good, s', hrun, hs', -⟩ := exists_runStatements hs h
  exact ⟨good, s', hrun, hs'⟩

end Shell

namespace Console

open Shell (Completes completes_pure Executed)

variable {mode mode' : Mode} {input i : Input} {inputs is : List Input} {lines : List String}

/-! ### Words -/

theorem completes_emitLines (hs : s.world.Live e) (h : ∀ l ∈ lines, e.Encodes l) :
    Completes e (emitLines lines) s :=
  Shell.completes_emit hs (Emission.printable_lines_iff.2 h)

theorem completes_blank (hs : s.world.Live e) : Completes e (emitLines [""]) s :=
  completes_emitLines hs (Encoding.forall_encodes_of_isLow (by decide))

/-- Print what is listed. -/
def list (listing : Operation (List String)) : Shell Mode := do
  emitLines (← Shell.perform listing)
  emitLines [""]
  return .ready

/-- The list that a word asks for. -/
def Word.listing? : Word → Option (Operation (List String))
  | .databases => some Operation.databases
  | .tables => some Operation.tables
  | _ => none

variable {listing : Operation (List String)} {names : List String}

theorem completes_list (hs : s.world.Live e) (hrun : listing.run s.world = .ok names s.world)
    (hnames : ∀ n ∈ names, e.Encodes n) : Completes e (list listing) s := by
  have hperform : (Shell.perform listing).run s = .ok names s := by rw [Shell.run_perform, hrun]
  refine Completes.bind ⟨names, s, hperform, hs⟩ fun names' s' hsame hs => ?_
  cases hperform.symm.trans hsame
  refine (completes_emitLines hs hnames).bind fun _ _ _ hs => ?_
  exact (completes_blank hs).bind fun _ _ _ hs => completes_pure hs _

theorem exists_list_error (hrun : ∀ names w, listing.run s.world = .ok names w →
      w = s.world ∧ ∃ n ∈ names, ¬ s.world.files.encoding.Encodes n) :
    ∃ c s', (list listing).run s = .error c s' := by
  rw [list, EStateM.run_bind, Shell.run_perform]
  cases hlisting : listing.run s.world with
  | error f w => exact ⟨_, _, rfl⟩
  | ok names w =>
    obtain ⟨rfl, n, hn, hencodes⟩ := hrun names w hlisting
    have hnames : ¬ Emission.Printable s.world.files.encoding (names.map Emission.line) := by
      rw [Emission.printable_lines_iff]
      exact fun hall => hencodes (hall n hn)
    obtain ⟨fault, s', hfailed⟩ := Shell.exists_run_emit_error hnames
    exact ⟨.unprintable fault, s', by simp only [EStateM.run_bind, emitLines, hfailed]⟩

/-- What is said before the tables are listed. -/
theorem answer_tables (s : Shell.State) : ∃ output,
    (answer .tables).run s = (list Operation.tables).run ⟨s.world, output⟩ := by
  have hsaid : Emission.Printable s.world.files.encoding
      (["No database selected."].map Emission.line) :=
    Emission.printable_lines_iff.2 (Encoding.forall_encodes_of_isLow (by decide))
  obtain ⟨output, hrun⟩ := Shell.exists_run_emit hsaid
  have hget : (get : Shell Shell.State).run s = .ok s s := rfl
  rw [answer, EStateM.run_bind, hget]
  dsimp only
  split
  · refine ⟨output, ?_⟩
    rw [EStateM.run_bind, emitLines, hrun]
    rfl
  · exact ⟨s.output, rfl⟩

/-- Every word has an answer, the one for a list if it can be made and printed. -/
theorem completes_answer (hs : s.world.Live e) {word : Word}
    (hlisted : word = .databases → s.world.Listable)
    (hnames : ∀ listing names, word.listing? = some listing →
      listing.run s.world = .ok names s.world → ∀ n ∈ names, e.Encodes n) :
    Completes e (answer word) s := by
  cases word with
  | exit => exact completes_pure hs _
  | help =>
    refine (completes_emitLines hs ?_).bind fun _ _ _ hs => completes_pure hs _
    exact Encoding.forall_encodes_of_isLow (by decide +kernel)
  | databases =>
    obtain ⟨names, hrun⟩ := exists_databases (hlisted rfl)
    exact completes_list hs hrun (hnames _ _ rfl hrun)
  | tables =>
    obtain ⟨names, hrun⟩ := exists_tables (hs.encoding.symm ▸ hs.reachable)
    obtain ⟨output, hanswer⟩ := answer_tables s
    obtain ⟨mode, s', hlist, hlive⟩ := completes_list (s := ⟨s.world, output⟩) hs hrun
      (hnames _ _ rfl hrun)
    exact ⟨mode, s', hanswer.trans hlist, hlive⟩

/-- A word breaks the session off if it asks for a list that cannot be made or printed. -/
theorem exists_answer_error {word : Word} (hlisting : word.listing? = some listing)
    (hrun : ∀ names w, listing.run s.world = .ok names w →
      w = s.world ∧ ∃ n ∈ names, ¬ s.world.files.encoding.Encodes n) :
    ∃ c s', (answer word).run s = .error c s' := by
  cases word with
  | databases =>
    cases hlisting
    exact exists_list_error hrun
  | tables =>
    cases hlisting
    obtain ⟨output, hanswer⟩ := answer_tables s
    rw [hanswer]
    exact exists_list_error (s := ⟨s.world, output⟩) hrun
  | _ => cases hlisting

/-! ### Statements -/

theorem completes_finish (hs : s.world.Live e) {script : String}
    (h : ∀ text w, Executed false ((Script.statements script).map Statement.text) s text w →
      ¬ Shell.Breaks false w text) : Completes e (finish script) s := by
  refine (Shell.completes_runScript hs h).bind fun _ _ _ hs => ?_
  exact (completes_blank hs).bind fun _ _ _ hs => completes_pure hs _

/-- The input completes a statement. -/
inductive Finishes : Mode → Input → String → Prop
  | line {line : String} :
      Text.strip line ≠ "" → Word.ofLine? (Text.strip line) = none →
      Script.isUnfinished (Text.strip line) = false →
      Finishes .ready (.line line) (Text.strip line)
  | lastLine {statement line : String} :
      Text.strip line ≠ "" → Script.isUnfinished (statement ++ " " ++ Text.strip line) = false →
      Finishes (.continuing statement) (.line line) (statement ++ " " ++ Text.strip line)
  | blankLine {statement line : String} :
      Text.strip line = "" → Finishes (.continuing statement) (.line line) statement
  | endOfInput {statement : String} : Finishes (.continuing statement) .endOfInput statement

theorem Finishes.react_eq {script : String} (h : Finishes mode input script) :
    react mode input = finish script := by
  cases h with
  | line hline hword hfinished =>
    simp only [react, hline, hword, consider, hfinished, if_false, Bool.false_eq_true]
  | lastLine hline hfinished =>
    simp only [react, hline, consider, hfinished, if_false, Bool.false_eq_true]
  | blankLine hline => simp only [react, hline, if_true]
  | endOfInput => rfl

/-! ### One input -/

/-- What breaks the session off when an input is read. -/
inductive Breaks (s : Shell.State) : Mode → Input → Prop
  /-- The input is no text. -/
  | undecodable {mode : Mode} {fault : Text.Utf8.Fault} :
      mode ≠ .closed → Breaks s mode (.undecodable fault)
  /-- The databases are asked for and cannot be listed. -/
  | unlisted {line : String} :
      Word.ofLine? (Text.strip line) = some .databases → ¬ s.world.Listable →
      Breaks s .ready (.line line)
  /-- A list is asked for, and a name in it cannot be printed. -/
  | unprintable {line name : String} {word : Word} {listing : Operation (List String)}
      {names : List String} :
      Word.ofLine? (Text.strip line) = some word → word.listing? = some listing →
      listing.run s.world = .ok names s.world → name ∈ names →
      ¬ s.world.files.encoding.Encodes name → Breaks s .ready (.line line)
  /-- A statement that is executed breaks the run of statements off. -/
  | statement {mode : Mode} {input : Input} {script text : String} {w : World} :
      Finishes mode input script →
      Executed false ((Script.statements script).map Statement.text) s text w →
      Shell.Breaks false w text → Breaks s mode input

theorem completes_react (hs : s.world.Live e) (h : ¬ Breaks s mode input) :
    Completes e (react mode input) s := by
  have hfinish : ∀ script, Finishes mode input script → Completes e (react mode input) s := by
    intro script hscript
    rw [hscript.react_eq]
    exact completes_finish hs fun text w hexecuted hbreaks =>
      h (.statement hscript hexecuted hbreaks)
  cases mode with
  | closed => exact completes_pure hs _
  | ready =>
    cases input with
    | undecodable fault => exact absurd (.undecodable nofun) h
    | interrupt => exact (completes_blank hs).bind fun _ _ _ hs => completes_pure hs _
    | endOfInput => exact (completes_blank hs).bind fun _ _ _ hs => completes_pure hs _
    | line line =>
      by_cases hline : Text.strip line = ""
      · simp only [react, hline, if_true]
        exact completes_pure hs _
      · cases hword : Word.ofLine? (Text.strip line) with
        | some word =>
          simp only [react, hline, hword, if_false]
          refine completes_answer hs (fun hdatabases => ?_)
            fun listing names hlisting hrun n hn => ?_
          · exact by_contra fun hunlisted => h (.unlisted (hdatabases ▸ hword) hunlisted)
          · rw [← hs.encoding]
            exact by_contra fun hencodes => h (.unprintable hword hlisting hrun hn hencodes)
        | none =>
          cases hunfinished : Script.isUnfinished (Text.strip line) with
          | false => exact hfinish _ (.line hline hword hunfinished)
          | true =>
            simp only [react, hline, hword, consider, hunfinished, if_false, if_true]
            exact completes_pure hs _
  | continuing statement =>
    cases input with
    | undecodable fault => exact absurd (.undecodable nofun) h
    | interrupt => exact (completes_blank hs).bind fun _ _ _ hs => completes_pure hs _
    | endOfInput => exact hfinish _ .endOfInput
    | line line =>
      by_cases hline : Text.strip line = ""
      · exact hfinish _ (.blankLine hline)
      · cases hunfinished : Script.isUnfinished (statement ++ " " ++ Text.strip line) with
        | false => exact hfinish _ (.lastLine hline hunfinished)
        | true =>
          simp only [react, hline, consider, hunfinished, if_false, if_true]
          exact completes_pure hs _

theorem printable_prompt (mode : Mode) : Emission.Printable e (prompt mode) := by
  cases mode with
  | closed => nofun
  | _ => exact List.forall_mem_singleton.2 fun _ => Encoding.encodes_of_isLow (by decide)

theorem completes_step (hs : s.world.Live e) (h : ¬ Breaks s mode input) :
    Completes e (step mode input) s := by
  refine (completes_react hs h).bind fun next _ _ hs => ?_
  exact (Shell.completes_emit hs (printable_prompt next)).bind fun _ _ _ hs => completes_pure hs _

theorem exists_react_error (hs : s.world.Live e) (h : Breaks s mode input) :
    ∃ c s', (react mode input).run s = .error c s' := by
  have hanswer {line : String} {word : Word} (hword : Word.ofLine? (Text.strip line) = some word) :
      react .ready (.line line) = answer word := by
    have hline : Text.strip line ≠ "" := by
      intro hempty
      have hnone : Word.ofLine? "" = none := by decide
      rw [hempty, hnone] at hword
      cases hword
    simp only [react, if_neg hline, hword]
  cases h with
  | undecodable hmode =>
    cases mode with
    | closed => exact absurd rfl hmode
    | _ => exact ⟨_, s, rfl⟩
  | unlisted hword hunlisted =>
    obtain ⟨f, hrun⟩ := exists_databases_error hunlisted
    rw [hanswer hword]
    refine exists_answer_error rfl fun names w hlisted => ?_
    cases hrun.symm.trans hlisted
  | unprintable hword hlisting hrun hn hencodes =>
    rw [hanswer hword]
    refine exists_answer_error hlisting fun names' w hlisted => ?_
    cases hrun.symm.trans hlisted
    exact ⟨rfl, _, hn, hencodes⟩
  | statement hscript hexecuted hbreaks =>
    obtain ⟨c, s', hrun⟩ := hexecuted.exists_error hs hbreaks
    refine ⟨c, s', ?_⟩
    rw [hscript.react_eq, finish, EStateM.run_bind, Shell.runScript, hrun]

theorem exists_step_error (hs : s.world.Live e) (h : Breaks s mode input) :
    ∃ c s', (step mode input).run s = .error c s' := by
  obtain ⟨c, s', hrun⟩ := exists_react_error hs h
  exact ⟨c, s', by rw [step, EStateM.run_bind, hrun]⟩

/-! ### All inputs -/

/-- An input is read in a mode and a state if the inputs in front of it lead there. -/
def Reads (mode : Mode) (inputs : List Input) (s : Shell.State) (input : Input) (mode' : Mode)
    (s' : Shell.State) : Prop :=
  ∃ before after, inputs = before ++ input :: after ∧
    (steps mode before).run s = .ok mode' s'

theorem run_steps_cons (mode : Mode) (i : Input) (is : List Input) (s : Shell.State) :
    (steps mode (i :: is)).run s = match (step mode i).run s with
      | .ok mode' s' => (steps mode' is).run s'
      | .error e s' => .error e s' := by
  rw [steps, EStateM.run_bind]
  cases (step mode i).run s <;> rfl

theorem reads_head (mode : Mode) (i : Input) (is : List Input) (s : Shell.State) :
    Reads mode (i :: is) s i mode s := ⟨[], is, rfl, rfl⟩

/-- What is read after the first input. -/
theorem Reads.cons {mode₁ : Mode} {s₁ : Shell.State} (hfirst : (step mode i).run s = .ok mode₁ s₁)
    (h : Reads mode₁ is s₁ input mode' s') : Reads mode (i :: is) s input mode' s' := by
  obtain ⟨before, after, rfl, hrun⟩ := h
  exact ⟨i :: before, after, rfl, by rw [run_steps_cons, hfirst]; exact hrun⟩

/-- A session comes to an end if no input that is read breaks it off. -/
theorem completes_steps (hs : s.world.Live e)
    (h : ∀ input mode' s', Reads mode inputs s input mode' s' → ¬ Breaks s' mode' input) :
    Completes e (steps mode inputs) s := by
  induction inputs generalizing mode s with
  | nil => exact completes_pure hs _
  | cons i is ih =>
    obtain ⟨mode₁, s₁, hfirst, hs₁⟩ := completes_step hs (h i mode s (reads_head mode i is s))
    obtain ⟨last, s', hrest, hs'⟩ := ih hs₁ fun input mode' s' hreads =>
      h input mode' s' (hreads.cons hfirst)
    exact ⟨last, s', by rw [run_steps_cons, hfirst]; exact hrest, hs'⟩

/-- An input that is read and breaks off breaks the session off. -/
theorem Reads.exists_error (hreads : Reads mode inputs s input mode' s') (hs : s.world.Live e)
    (hbreaks : Breaks s' mode' input) : ∃ c s'', (steps mode inputs).run s = .error c s'' := by
  obtain ⟨before, after, rfl, hrun⟩ := hreads
  induction before generalizing mode s with
  | nil =>
    cases hrun
    obtain ⟨c, s'', hstep⟩ := exists_step_error hs hbreaks
    exact ⟨c, s'', by rw [List.nil_append, run_steps_cons, hstep]⟩
  | cons i before ih =>
    rw [run_steps_cons] at hrun
    split at hrun
    · rename_i mode₁ s₁ hfirst
      have hs₁ : s₁.world.Live e := by
        by_cases hi : Breaks s mode i
        · obtain ⟨c, s₂, hstep⟩ := exists_step_error hs hi
          cases hfirst.symm.trans hstep
        · obtain ⟨mode₂, s₂, hstep, hlive⟩ := completes_step hs hi
          cases hfirst.symm.trans hstep
          exact hlive
      obtain ⟨c, s'', hrest⟩ := ih hs₁ hrun
      exact ⟨c, s'', by rw [List.cons_append, run_steps_cons, hfirst]; exact hrest⟩
    · cases hrun

end Console

end Tabula
