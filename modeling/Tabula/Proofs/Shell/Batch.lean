import Tabula.Proofs.Session.Reply
import Tabula.Proofs.Session.Response
import Tabula.Proofs.Shell.Printed

/-!
# Lists of statements

A list of statements is run up to the first that fails, so a statement is executed if all those in
front of it go well (`Shell.Executed`). A session that can be reached stays one, whatever the
statements are. The run of a list breaks off if a statement that is executed cannot be shown, or is
not answered, or has a response that cannot be printed (`Shell.Breaks`). If none does, the run is
good exactly if each statement that is executed goes well (`Shell.exists_runStatements`). No
statement that can be encoded breaks the run off (`Shell.Breaks.not_encodes`).
-/

namespace Tabula

open Text (Encoding)

variable {e : Encoding} {w w' : World}

/-! ### One statement -/

/-- The session of a world can be reached on files with this encoding, and its files have it. -/
structure World.Live (w : World) (e : Encoding) : Prop where
  reachable : w.session.Reachable e
  encoding : w.files.encoding = e

namespace World.Live

theorem start {root : Path} {files files' : FileTree} {s : Session}
    (h : Session.start root files = (.ok s, files')) :
    World.Live ⟨s, files'⟩ files.encoding := by
  refine ⟨.start rfl h, ?_⟩
  have hencoding := files.encoding_makeDirectories root
  unfold Session.start at h
  split at h
  · rename_i hmake
    cases h
    rwa [hmake] at hencoding
  · cases h

theorem run (hw : w.Live e) (command : Command) : Ends (·.Live e) (command.run.run w) := by
  cases hrun : command.run.run w with
  | ok a w' =>
    exact ⟨.answered hw.encoding hw.reachable hrun, (encoding_of_run_ok hrun).trans hw.encoding⟩
  | error f w' =>
    exact ⟨.failed hw.encoding hw.reachable hrun, (encoding_of_run_error hrun).trans hw.encoding⟩

theorem respond (hw : w.Live e) (text : String) :
    Ends (·.Live e) ((Operation.respond text).run w) :=
  ends_respond hw fun command _ => hw.run command

end World.Live

namespace Shell

open Operation

theorem isError_answer (a : Answer) : isError a.text = false := by
  rw [isError, Bool.eq_false_iff]
  exact fun h => a.not_error_prefix (List.isPrefixOf_iff_prefix.1 h)

theorem isError_report (message : String) : isError s!"[ERROR] {message}\n" = true := by
  rw [isError, List.isPrefixOf_iff_prefix]
  exact ⟨(" " ++ message ++ "\n").toList, by simp [toString]⟩

/-- What breaks the run of a statement off. -/
inductive Breaks (verbose : Bool) (w : World) (text : String) : Prop
  /-- The statement is to be shown and cannot be printed. -/
  | echo : verbose = true → ¬ w.files.encoding.Encodes text → Breaks verbose w text
  /-- The table that it changes cannot be encoded. -/
  | table {f : Failure} {w' : World} :
      (execute text).run w = .error f w' → f.isOfEncoding = true → Breaks verbose w text
  /-- A line of the response that is no warning cannot be printed. -/
  | line {response l : String} {w' : World} :
      (respond text).run w = .ok response w' → l ∈ Text.stringLines response →
      Emission.isWarning l = false → ¬ w.files.encoding.Encodes l → Breaks verbose w text

/-- A statement that can be encoded does not break a run off. -/
theorem Breaks.not_encodes {verbose : Bool} {text : String} (hw : w.Live e)
    (h : Breaks verbose w text) : ¬ w.files.encoding.Encodes text := by
  intro htext
  cases h with
  | echo _ hencodes => exact hencodes htext
  | table hexecute hencoding =>
    rcases isReported_of_execute_error hw.reachable.nullFree hexecute with
      hreported | ⟨-, command, hparse, v, hv, hencodes⟩
    · rw [Failure.isReported_of_isOfEncoding hencoding] at hreported
      cases hreported
    · exact hencodes (Command.encoded_of_parse htext hparse v (command.values_subset_texts hv))
  | line hrespond hl _ hencodes =>
    exact hencodes (Text.encodes_of_mem_stringLines (encodes_of_respond htext hrespond) hl)

/-- A statement has a response if its table can be encoded. The response is an error exactly if the
statement fails. -/
theorem exists_respond (hw : w.Live e) (text : String)
    (h : ∀ f w', (execute text).run w = .error f w' → f.isOfEncoding = false) :
    ∃ response w', (respond text).run w = .ok response w' ∧ w'.Live e ∧
      (isError response = false ↔ ∃ a w'', (execute text).run w = .ok a w'') := by
  have hends := hw.respond text
  cases hexecute : (execute text).run w with
  | ok a w' =>
    have hrespond := run_respond_of_ok hexecute
    rw [hrespond] at hends
    exact ⟨a.text, w', hrespond, hends, by simp [isError_answer]⟩
  | error f w' =>
    have hreported : f.isReported = true := by
      rcases isReported_of_execute_error hw.reachable.nullFree hexecute with
        hreported | ⟨hencoding, -⟩
      · exact hreported
      · cases (h f w' hexecute).symm.trans hencoding
    have hrespond := run_respond_of_error hexecute hreported
    rw [hrespond] at hends
    exact ⟨_, w', hrespond, hends, by simp [isError_report]⟩

/-! ### Actions -/

variable {s s' : State} {verbose : Bool} {text t : String} {ts us : List String}

theorem run_perform {α : Type} (operation : Operation α) (s : State) :
    (perform operation).run s = match operation.run s.world with
      | .ok a w => .ok a { s with world := w }
      | .error f w => .error (.failure f) { s with world := w } := rfl

/-- What is shown of a statement before it is run. -/
def shown (verbose : Bool) (text : String) : List Emission := if verbose then echo text else []

theorem printable_shown_iff :
    Emission.Printable e (shown verbose text) ↔ (verbose = true → e.Encodes text) := by
  cases verbose with
  | false => exact iff_of_true nofun nofun
  | true => simpa [shown] using printable_echo_iff

/-- A statement is shown and run, and its response is printed. -/
theorem runStatement_eq (verbose : Bool) (text : String) : runStatement verbose text = (do
    emit (shown verbose text)
    let response ← perform (respond text)
    emit (Emission.response response)
    return !isError response) := by
  cases verbose with
  | true => rfl
  | false =>
    rw [shown, if_neg Bool.false_ne_true, emit_nil, pure_bind]
    rfl

/-- A statement that does not break the run off is run, and its response printed. -/
theorem exists_runStatement (hs : s.world.Live e) (h : ¬ Breaks verbose s.world text) :
    ∃ good s', (runStatement verbose text).run s = .ok good s' ∧ s'.world.Live e ∧
      (good = true ↔ ∃ a w', (execute text).run s.world = .ok a w') := by
  have hshown : Emission.Printable s.world.files.encoding (shown verbose text) :=
    printable_shown_iff.2 fun hverbose => by_contra fun hencodes => h (.echo hverbose hencodes)
  obtain ⟨output, hshown⟩ := exists_run_emit hshown
  obtain ⟨response, w', hrespond, hw', hgood⟩ := exists_respond hs text
    fun f w' hexecute => Bool.eq_false_iff.2 fun hencoding => h (.table hexecute hencoding)
  have hprintable : Emission.Printable w'.files.encoding (Emission.response response) := by
    rw [Emission.printable_response_iff, hw'.encoding, ← hs.encoding]
    exact fun l hl hwarning => by_contra fun hencodes => h (.line hrespond hl hwarning hencodes)
  obtain ⟨output', hprint⟩ := exists_run_emit (s := ⟨w', output⟩) hprintable
  refine ⟨!isError response, ⟨w', output'⟩, ?_, hw', by simp [hgood]⟩
  simp only [runStatement_eq, EStateM.run_bind, run_perform, hshown, hrespond, hprint]
  rfl

theorem exists_runStatement_error (hs : s.world.Live e) (h : Breaks verbose s.world text) :
    ∃ c s', (runStatement verbose text).run s = .error c s' := by
  rw [runStatement_eq, EStateM.run_bind]
  by_cases hshown : Emission.Printable s.world.files.encoding (shown verbose text)
  · obtain ⟨output, hrun⟩ := exists_run_emit hshown
    simp only [hrun, EStateM.run_bind, run_perform]
    cases hrespond : (respond text).run s.world with
    | error f w => exact ⟨_, _, rfl⟩
    | ok response w =>
      have hends := hs.respond text
      rw [hrespond] at hends
      have hprintable : ¬ Emission.Printable w.files.encoding (Emission.response response) := by
        rw [Emission.printable_response_iff, hends.encoding, ← hs.encoding]
        intro hlines
        cases h with
        | echo hverbose hencodes => exact hencodes (printable_shown_iff.1 hshown hverbose)
        | table hexecute hencoding =>
          rw [run_respond, hexecute] at hrespond
          simp [Failure.isReported_of_isOfEncoding hencoding] at hrespond
        | line hrespond' hl hwarning hencodes =>
          cases hrespond.symm.trans hrespond'
          exact hencodes (hlines _ hl hwarning)
      obtain ⟨fault, s', hfailed⟩ := exists_run_emit_error (s := ⟨w, output⟩) hprintable
      exact ⟨.unprintable fault, s', by simp only [hfailed]⟩
  · obtain ⟨fault, s', hfailed⟩ := exists_run_emit_error hshown
    exact ⟨.unprintable fault, s', by simp only [hfailed]⟩

/-! ### Lists of statements -/

theorem run_runStatements_cons (verbose : Bool) (t : String) (ts : List String) (s : State) :
    (runStatements verbose (t :: ts)).run s = match (runStatement verbose t).run s with
      | .ok true s' => (runStatements verbose ts).run s'
      | .ok false s' => .ok false s'
      | .error c s' => .error c s' := by
  rw [runStatements, EStateM.run_bind]
  cases (runStatement verbose t).run s with
  | ok good s' => cases good <;> rfl
  | error c s' => rfl

/-- A statement of a list is executed in the world that the statements in front of it leave, if all
of these go well. -/
def Executed (verbose : Bool) (ts : List String) (s : State) (text : String) (w : World) : Prop :=
  ∃ before after s', ts = before ++ text :: after ∧
    (runStatements verbose before).run s = .ok true s' ∧ s'.world = w

theorem executed_head (verbose : Bool) (t : String) (ts : List String) (s : State) :
    Executed verbose (t :: ts) s t s.world := ⟨[], ts, s, rfl, rfl, rfl⟩

theorem executed_cons_iff : Executed verbose (t :: ts) s text w ↔ t = text ∧ s.world = w ∨
    ∃ s', (runStatement verbose t).run s = .ok true s' ∧ Executed verbose ts s' text w := by
  constructor
  · rintro ⟨before, after, s', hsplit, hrun, hw⟩
    cases before with
    | nil =>
      obtain ⟨rfl, rfl⟩ := List.cons.inj hsplit
      cases hrun
      exact .inl ⟨rfl, hw⟩
    | cons u before =>
      obtain ⟨rfl, rfl⟩ := List.cons.inj hsplit
      rw [run_runStatements_cons] at hrun
      split at hrun
      · exact .inr ⟨_, by assumption, before, after, s', rfl, hrun, hw⟩
      · cases hrun
      · cases hrun
  · rintro (⟨rfl, rfl⟩ | ⟨s₁, hfirst, before, after, s', rfl, hrun, hw⟩)
    · exact executed_head verbose t ts s
    · exact ⟨t :: before, after, s', rfl, by rw [run_runStatements_cons, hfirst]; exact hrun, hw⟩

/-- If no statement that is executed breaks the run off, the run is good exactly if each of them
goes well. -/
theorem exists_runStatements (hs : s.world.Live e)
    (hcalm : ∀ text w, Executed verbose ts s text w → ¬ Breaks verbose w text) :
    ∃ good s', (runStatements verbose ts).run s = .ok good s' ∧ s'.world.Live e ∧
      (good = true ↔
        ∀ text w, Executed verbose ts s text w → ∃ a w', (execute text).run w = .ok a w') := by
  induction ts generalizing s with
  | nil =>
    refine ⟨true, s, rfl, hs, iff_of_true rfl ?_⟩
    rintro text w ⟨before, after, s', hsplit, -⟩
    simp at hsplit
  | cons t ts ih =>
    obtain ⟨good, s₁, hfirst, hlive, hgood⟩ :=
      exists_runStatement hs (hcalm t s.world (executed_head verbose t ts s))
    cases good with
    | false =>
      refine ⟨false, s₁, by rw [run_runStatements_cons, hfirst], hlive, iff_of_false nofun ?_⟩
      exact fun hall => absurd (hgood.2 (hall t s.world (executed_head verbose t ts s))) nofun
    | true =>
      obtain ⟨good, s', hrest, hlive', hgood'⟩ := ih hlive fun text w hlater =>
        hcalm text w (executed_cons_iff.2 (.inr ⟨s₁, hfirst, hlater⟩))
      refine ⟨good, s', by rw [run_runStatements_cons, hfirst]; exact hrest, hlive', ?_⟩
      rw [hgood']
      constructor
      · rintro hall text w hexecuted
        rcases executed_cons_iff.1 hexecuted with ⟨rfl, rfl⟩ | ⟨s₂, hsame, hlater⟩
        · exact hgood.1 rfl
        · cases hfirst.symm.trans hsame
          exact hall text w hlater
      · exact fun hall text w hlater =>
          hall text w (executed_cons_iff.2 (.inr ⟨s₁, hfirst, hlater⟩))

theorem Executed.mem (h : Executed verbose ts s text w) : text ∈ ts := by
  obtain ⟨before, after, -, rfl, -⟩ := h
  simp

/-- A run that has come to an end was not broken off. -/
theorem live_of_runStatement {good : Bool} (hs : s.world.Live e)
    (h : (runStatement verbose t).run s = .ok good s') : s'.world.Live e := by
  by_cases hbreaks : Breaks verbose s.world t
  · obtain ⟨c, s₁, hrun⟩ := exists_runStatement_error hs hbreaks
    cases h.symm.trans hrun
  · obtain ⟨good', s₁, hrun, hlive, -⟩ := exists_runStatement hs hbreaks
    cases h.symm.trans hrun
    exact hlive

theorem Executed.live (h : Executed verbose ts s text w) (hs : s.world.Live e) : w.Live e := by
  induction ts generalizing s with
  | nil => cases h.mem
  | cons t ts ih =>
    rcases executed_cons_iff.1 h with ⟨-, rfl⟩ | ⟨s₁, hfirst, hlater⟩
    · exact hs
    · exact ih hlater (live_of_runStatement hs hfirst)

/-- A statement that is executed and breaks off breaks the run of the list off. -/
theorem Executed.exists_error (h : Executed verbose ts s text w) (hs : s.world.Live e)
    (hbreaks : Breaks verbose w text) : ∃ c s', (runStatements verbose ts).run s = .error c s' := by
  induction ts generalizing s with
  | nil => cases h.mem
  | cons t ts ih =>
    rw [run_runStatements_cons]
    rcases executed_cons_iff.1 h with ⟨rfl, rfl⟩ | ⟨s₁, hfirst, hlater⟩
    · obtain ⟨c, s', hrun⟩ := exists_runStatement_error hs hbreaks
      exact ⟨c, s', by rw [hrun]⟩
    · rw [hfirst]
      exact ih hlater (live_of_runStatement hs hfirst)

/-- If all statements that are executed go well and none breaks the run off, all statements of the
list are executed. -/
theorem exists_executed (hs : s.world.Live e)
    (hcalm : ∀ text w, Executed verbose ts s text w → ¬ Breaks verbose w text)
    (hall : ∀ text w, Executed verbose ts s text w → ∃ a w', (execute text).run w = .ok a w')
    (htext : text ∈ ts) : ∃ w, Executed verbose ts s text w := by
  obtain ⟨before, after, rfl⟩ := List.append_of_mem htext
  have hfront : ∀ u w, Executed verbose before s u w →
      Executed verbose (before ++ text :: after) s u w := by
    rintro u w ⟨front, rest, s₁, rfl, hfront, hw⟩
    exact ⟨front, rest ++ text :: after, s₁, by simp, hfront, hw⟩
  obtain ⟨good, s', hrun, -, hgood⟩ := exists_runStatements hs fun u w hu =>
    hcalm u w (hfront u w hu)
  have hbefore : good = true := hgood.2 fun u w hu => hall u w (hfront u w hu)
  exact ⟨s'.world, before, after, s', rfl, hbefore ▸ hrun, rfl⟩

end Shell

end Tabula
