import Tabula.Proofs.Session.Encoded
import Tabula.Proofs.Session.Selection

/-!
# Which statements are answered

Whatever the text, the session and the files, a statement has a response, which reports the answer
or the failure, unless a value in it cannot be encoded (`exists_response`). A table read from a file
is aligned, so no command on it fails for its shape; and a path of a session to a name has no null
character, so no operation on files is refused for one. What is left of the failures that no
response reports is that a table cannot be encoded.
-/

namespace Tabula

/-! ### Failures that are reported -/

/-- Whether a failure is one that a command ends in: a response reports it, and the statement is not
at fault. -/
def Failure.isOfCommand : Failure → Bool
  | statement _ => false
  | e => e.isReported

theorem Failure.isOfCommand_iff {e : Failure} :
    e.isOfCommand = true ↔ e.isReported = true ∧ ∀ s, e ≠ .statement s := by
  cases e <;> simp [isOfCommand, isReported]

theorem Failure.isReported_of_isOfEncoding {e : Failure} (h : e.isOfEncoding = true) :
    e.isReported = false := by
  unfold isOfEncoding at h
  split at h
  · rfl
  · cases h

theorem Failure.isOfCommand_of_isOfNames {e : Failure} (h : e.isOfNames = true) :
    e.isOfCommand = true := by
  unfold isOfNames at h
  split at h <;> first | rfl | cases h

theorem Failure.isOfCommand_of_isOfTable {e : Failure} (h : e.isOfTable = true) :
    e.isOfCommand = true := by
  unfold isOfTable at h
  split at h <;> first | rfl | cases h

theorem Failure.isOfCommand_of_isOfTables {e : Failure} (h : e.isOfTables = true) :
    e.isOfCommand = true := by
  rcases Bool.or_eq_true_iff.1 h with hreading | hrows
  · unfold isOfReading at hreading
    split at hreading <;> first | rfl | cases hreading
  · unfold isOfRows at hrows
    split at hrows
    · rfl
    · exact isOfCommand_of_isOfTable hrows

/-! ### Commands -/

/-- The path of a table's file has no null character. -/
theorem Session.NullFree.tablePath {s : Session} (hs : s.NullFree) {name : String}
    (hname : IsName name) {path : Path} (h : s.tablePath name = .ok path) : path.NullFree := by
  obtain ⟨d, hselected, rfl⟩ := Session.exists_selected_of_tablePath h
  exact (hs.selected d hselected).join hname.isPart_file

namespace Operation

variable {w w' : World} {e : Failure}

/-- A command that names what can be named fails for a reported reason, or because the table that it
writes cannot be encoded. -/
theorem isOfCommand_of_run_error {command : Command} (hs : w.session.NullFree)
    (hnames : ∀ n ∈ command.databases ++ command.tables, IsName n)
    (h : command.run.run w = .error e w') :
    e.isOfCommand = true ∨ e.isOfEncoding = true ∧ ∃ path t, command.Saves w path t ∧
      ¬ w.files.encoding.Encodes t.fileText := by
  have hdatabase : ∀ d ∈ command.databases, (w.session.root.join d).NullFree := fun d hd =>
    hs.root.join (hnames d (List.mem_append_left _ hd)).isPart
  have htable : ∀ n ∈ command.tables, ∀ path, w.session.tablePath n = .ok path → path.NullFree :=
    fun n hn _ hpath => hs.tablePath (hnames n (List.mem_append_right _ hn)) hpath
  obtain ⟨files, rfl, hfails⟩ := Command.fails_of_run h
  cases hfails with
  | unselected => exact .inl rfl
  | names he => exact .inl (Failure.isOfCommand_of_isOfNames he)
  | tables he => exact .inl (Failure.isOfCommand_of_isOfTables he)
  | @makeDirectory d _ hmake =>
    have hpath := hdatabase d (by simp [Command.databases])
    exact .inl (FileTree.isOfSystem_of_makeDirectory_error hpath hmake)
  | @removeTree d _ _ hremove =>
    have hpath := hdatabase d (by simp [Command.databases])
    exact .inl (FileTree.isOfSystem_of_removeTree_error hpath hremove)
  | @deleteFile n _ _ hpath hdelete =>
    have hpath := htable n (by simp [Command.tables]) _ hpath
    exact .inl (FileTree.isOfSystem_of_deleteFile_error hpath hdelete)
  | saveNull hsaves hnull =>
    obtain ⟨n, hn, hpath⟩ := hsaves.exists_tablePath
    exact absurd (htable n hn _ hpath) hnull
  | write => exact .inl rfl
  | encode hsaves _ _ hfault =>
    refine .inr ⟨rfl, _, _, hsaves, fun hencodes => ?_⟩
    cases hfault.symm.trans (Text.Encoding.fault?_eq_none_iff.2 hencodes)

/-! ### Statements -/

/-- A statement that can be parsed fails only as its command does, or because a value in it cannot
be encoded. -/
theorem isOfCommand_of_execute_error {text : String} {command : Command} (hs : w.session.NullFree)
    (hparse : Command.parse text = .ok command) (h : (execute text).run w = .error e w') :
    e.isOfCommand = true ∨ e.isOfEncoding = true ∧
      ∃ v ∈ command.values, ¬ w.files.encoding.Encodes v := by
  rw [run_execute_of_parse hparse] at h
  rcases isOfCommand_of_run_error hs
      (fun n hn => isName_of_parse hparse (List.mem_append_left _ hn)) h with
    hcommand | ⟨hencoding, path, t, hsaves, hencodes⟩
  · exact .inl hcommand
  · exact .inr ⟨hencoding, hsaves.exists_value hparse hencodes⟩

/-- A statement that fails is answered with the failure, or a value in it cannot be encoded. -/
theorem isReported_of_execute_error {text : String} (hs : w.session.NullFree)
    (h : (execute text).run w = .error e w') :
    e.isReported = true ∨ e.isOfEncoding = true ∧ ∃ command, Command.parse text = .ok command ∧
      ∃ v ∈ command.values, ¬ w.files.encoding.Encodes v := by
  cases hparse : Command.parse text with
  | error e =>
    rw [run_execute, hparse] at h
    cases h
    exact .inl rfl
  | ok command =>
    rcases isOfCommand_of_execute_error hs hparse h with hcommand | ⟨hencoding, hvalue⟩
    · exact .inl (Failure.isOfCommand_iff.1 hcommand).1
    · exact .inr ⟨hencoding, command, rfl, hvalue⟩

/-- Every statement has a response, which says that all went well or reports a failure, unless it
fails because a value in it cannot be encoded. Nothing is ever asked of a row or a table that has
not the shape for it. -/
theorem exists_response {s : Session} (files : FileTree)
    (hs : Session.Reachable files.encoding s) (text : String) :
    ((∃ response w', (respond text).run ⟨s, files⟩ = .ok response w' ∧
        ("[OK]\n".toList <+: response.toList ∨ "[ERROR] ".toList <+: response.toList)) ∨
      ∃ command e w', Command.parse text = .ok command ∧
        (∃ v ∈ command.values, ¬ files.encoding.Encodes v) ∧ e.isOfEncoding = true ∧
        (respond text).run ⟨s, files⟩ = .error e w') ∧
    ∀ e w', (execute text).run ⟨s, files⟩ ≠ .error (.table (.shape e)) w' := by
  refine ⟨?_, fun e w' hexecute => ?_⟩
  · rw [run_respond]
    cases hexecute : (execute text).run ⟨s, files⟩ with
    | ok a w' => exact .inl ⟨a.text, w', rfl, .inl a.ok_prefix⟩
    | error e w' =>
      rcases isReported_of_execute_error (w := ⟨s, files⟩) hs.nullFree hexecute with
        hreported | ⟨hencoding, command, hparse, hvalue⟩
      · refine .inl ⟨s!"[ERROR] {e.message}\n", w', by simp [hreported], .inr ?_⟩
        refine ⟨(e.message ++ "\n").toList, ?_⟩
        simp [toString]
      · refine .inr ⟨command, e, w', hparse, hvalue, hencoding, if_neg ?_⟩
        rw [Failure.isReported_of_isOfEncoding hencoding]
        exact Bool.false_ne_true
  · rcases isReported_of_execute_error (w := ⟨s, files⟩) hs.nullFree hexecute with
      hreported | ⟨hencoding, -⟩
    · cases hreported
    · cases hencoding

/-- The session of the small world can be reached. -/
theorem reachable_sample :
    Session.Reachable .lastByte ⟨⟨0, ["r"]⟩, some ⟨"d", ⟨0, ["r", "d"]⟩⟩⟩ := by
  have hstart : Session.start ⟨0, ["r"]⟩ ⟨[], [], .lastByte⟩ =
      (.ok ⟨⟨0, ["r"]⟩, none⟩, ⟨[], [(["r"], .directory)], .lastByte⟩) := by decide +kernel
  have hcreate : (Command.createDatabase "d").run.run
        ⟨⟨⟨0, ["r"]⟩, none⟩, ⟨[], [(["r"], .directory)], .lastByte⟩⟩ =
      .ok {} ⟨⟨⟨0, ["r"]⟩, some ⟨"d", ⟨0, ["r", "d"]⟩⟩⟩,
        ⟨[], [(["r"], .directory), (["r", "d"], .directory)], .lastByte⟩⟩ := rfl
  have hencoding : (⟨[], [(["r"], .directory)], .lastByte⟩ : FileTree).encoding = .lastByte := rfl
  have hstarted : Session.Reachable .lastByte ⟨⟨0, ["r"]⟩, none⟩ := .start rfl hstart
  exact .answered hencoding hstarted hcreate

/-- An insertion of an undecoded byte leaves the file of its table empty. -/
theorem run_insert_undecoded :
    (Command.insert "t" ["\uf8ff"]).run.run (.sampleWith .lastByte "id\ta\n1\tx\n") =
      .error (.file ⟨.unencodable ⟨11, 0xff, 1⟩, ⟨0, ["r", "d", "t.tab"]⟩, .lastByte⟩)
        (.sampleWith .lastByte "") := by
  have hread : Table.read "t" "id\ta\n1\tx\n" =
      .ok ⟨"t", ["id", "a"], [⟨[("id", "1"), ("a", "x")]⟩]⟩ := rfl
  have hinsert : Table.inserted "t" ["\uf8ff"]
      ⟨"t", ["id", "a"], [⟨[("id", "1"), ("a", "x")]⟩]⟩ = .ok (⟨"t", ["id", "a"],
        [⟨[("id", "1"), ("a", "x")]⟩, ⟨[("id", "2"), ("a", "\uf8ff")]⟩]⟩, {}) := rfl
  have htext : (⟨"t", ["id", "a"], [⟨[("id", "1"), ("a", "x")]⟩,
      ⟨[("id", "2"), ("a", "\uf8ff")]⟩]⟩ : Table).fileText = "id\ta\n1\tx\n2\t\uf8ff\n" := rfl
  have hfault : Text.Encoding.lastByte.fault? "id\ta\n1\tx\n2\t\uf8ff\n" =
      some ⟨11, 0xff, 1⟩ := by decide
  rw [Command.run, insertInto_eq, run_changeTable, World.tablePath_sampleWith]
  dsimp only
  rw [World.fileTable_sampleWith (by decide), hread, mapError_ok, ok_bind, hinsert]
  dsimp only
  rw [run_store, htext, World.writeFile_sampleWith, hfault]
  rfl

/-- An insertion of an undecoded byte is not answered. -/
theorem exists_response_undecoded :
    (∀ response w', (respond "INSERT INTO t VALUES ('\uf8ff');").run
      (.sampleWith .lastByte "id\ta\n1\tx\n") ≠ .ok response w') ∧
    ∃ command e w', Command.parse "INSERT INTO t VALUES ('\uf8ff');" = .ok command ∧
      (∃ v ∈ command.values, ¬ Text.Encoding.lastByte.Encodes v) ∧ e.isOfEncoding = true ∧
      (respond "INSERT INTO t VALUES ('\uf8ff');").run
        (.sampleWith .lastByte "id\ta\n1\tx\n") = .error e w' := by
  have hparse : Command.parse "INSERT INTO t VALUES ('\uf8ff');" =
      .ok (.insert "t" ["\uf8ff"]) := by decide +kernel
  have hnone : ∀ response w', (respond "INSERT INTO t VALUES ('\uf8ff');").run
      (.sampleWith .lastByte "id\ta\n1\tx\n") ≠ .ok response w' := by
    rw [run_respond, run_execute_of_parse hparse, run_insert_undecoded]
    intro response w' h
    cases h
  have hanswered := (exists_response (World.sampleWith .lastByte "id\ta\n1\tx\n").files
    reachable_sample "INSERT INTO t VALUES ('\uf8ff');").1
  refine ⟨hnone, hanswered.resolve_left ?_⟩
  rintro ⟨response, w', hrespond, -⟩
  exact hnone _ _ hrespond

end Operation

end Tabula
