import Tabula.Proofs.Session.Reason

/-!
# Failed statements

A statement that is answered with an error changes nothing: neither the files nor the session. Every
command makes its one change of the files last, or before a selection that cannot fail. The removal
of a directory is a change of several steps, and is assumed to fail without a trace
(`respond_error_unchanged`). So is the writing of a table, which leaves an empty file if the table
cannot be encoded (`cases_of_run_error`); but then there is no answer.
-/

namespace Tabula.Operation

variable {w w' : World} {e : Failure}

/-! ### Commands and statements -/

/-- A command that fails leaves the world as it was, or it is a removal of a directory that has
failed on the way, or it has left the file of a table empty that cannot be encoded. -/
theorem cases_of_run_error {command : Command} (h : command.run.run w = .error e w') :
    w' = w ∨
    (∃ database fault files, command = .dropDatabase database ∧
      w.files.removeTree (w.session.root.join database) = (.error fault, files) ∧
        w' = { w with files := files }) ∨
    ∃ path t place fault, command.Saves w path t ∧ w.files.locate path = .ok place ∧
      w.files.at? place ≠ some .directory ∧ w.files.encoding.fault? t.fileText = some fault ∧
      e = .file ⟨.unencodable fault, path, w.files.encoding⟩ ∧
      w' = { w with files := w.files.put place (.file (.text "")) } := by
  obtain ⟨files, rfl, hfails⟩ := Command.fails_of_run h
  cases hfails with
  | removeTree hremove => exact .inr (.inl ⟨_, _, _, rfl, hremove, rfl⟩)
  | encode hsaves hlocate hplace hfault =>
    exact .inr (.inr ⟨_, _, _, _, hsaves, hlocate, hplace, hfault, rfl, rfl⟩)
  | _ => exact .inl rfl

/-- A command that fails for a reason that is reported leaves the world as it was, if a removal that
fails leaves no trace. -/
theorem eq_of_run_error {command : Command} (hreported : e.isReported = true)
    (hremove : ∀ database, command = .dropDatabase database → ∀ e files,
      w.files.removeTree (w.session.root.join database) = (.error e, files) → files = w.files)
    (h : command.run.run w = .error e w') : w' = w := by
  rcases cases_of_run_error h with hsame | ⟨database, fault, files, hdrop, hfailed, rfl⟩ |
    ⟨path, t, place, fault, -, -, -, -, rfl, -⟩
  · exact hsame
  · rw [hremove database hdrop fault files hfailed]
  · cases hreported

/-- A statement that is answered with an error leaves all files and the session as they were, if a
removal of the directory that it names leaves no trace when it fails. -/
theorem respond_error_unchanged {text response : String}
    (hremove : ∀ database, Command.parse text = .ok (.dropDatabase database) → ∀ e files,
      w.files.removeTree (w.session.root.join database) = (.error e, files) → files = w.files)
    (hrespond : (respond text).run w = .ok response w')
    (herror : "[ERROR]".toList <+: response.toList) : w' = w := by
  rw [run_respond, run_execute] at hrespond
  cases hparse : Command.parse text with
  | error e =>
    rw [hparse] at hrespond
    cases hrespond
    rfl
  | ok command =>
    rw [hparse] at hrespond
    dsimp only at hrespond
    cases hrun : command.run.run w with
    | ok a after =>
      rw [hrun] at hrespond
      cases hrespond
      exact absurd herror a.not_error_prefix
    | error e after =>
      rw [hrun] at hrespond
      dsimp only at hrespond
      split at hrespond
      · rename_i hreported
        cases hrespond
        refine eq_of_run_error hreported (fun database hdrop => hremove database ?_) hrun
        rw [hparse, hdrop]
      · cases hrespond

/-! ### Statements that fail -/

theorem parse_update_sample : Command.parse "UPDATE t SET a = 1, b = 2 WHERE id == 1;" =
    .ok (.update "t" [("a", "1"), ("b", "2")] "id == 1") := by
  decide +kernel

/-- An update of a column that the table has not leaves the other assignments undone. -/
theorem run_respond_update_sample :
    (respond "UPDATE t SET a = 1, b = 2 WHERE id == 1;").run (.sample "id\ta\n1\tx\n") =
      .ok "[ERROR] Update failed, attribute not found: b\n" (.sample "id\ta\n1\tx\n") := by
  have hread : Table.read "t" "id\ta\n1\tx\n" =
      .ok ⟨"t", ["id", "a"], [⟨[("id", "1"), ("a", "x")]⟩]⟩ := rfl
  refine run_respond_of_error (e := .operation (.noColumnToUpdate "b")) ?_ rfl
  rw [run_execute_of_parse parse_update_sample, Command.run, updateTable_eq, run_changeTable,
    World.tablePath_sample]
  dsimp only
  rw [World.fileTable_sample, hread]
  rfl

/-- The same update, and the removal of a database that is not there. -/
theorem respond_error_unchanged_sample :
    (∃ response w', (respond "UPDATE t SET a = 1, b = 2 WHERE id == 1;").run
        (.sample "id\ta\n1\tx\n") = .ok response w' ∧
      "[ERROR]".toList <+: response.toList ∧ w' = .sample "id\ta\n1\tx\n") ∧
    ∃ response w', (respond "DROP DATABASE u;").run (.sample "") = .ok response w' ∧
      "[ERROR]".toList <+: response.toList ∧ w' = .sample "" := by
  constructor
  · have hdrop : ∀ database, Command.parse "UPDATE t SET a = 1, b = 2 WHERE id == 1;" ≠
        .ok (.dropDatabase database) := by
      intro database h
      rw [parse_update_sample] at h
      cases h
    refine ⟨_, _, run_respond_update_sample, by decide, ?_⟩
    exact respond_error_unchanged (fun database h => absurd h (hdrop database))
      run_respond_update_sample (by decide)
  · have hparse : Command.parse "DROP DATABASE u;" = .ok (.dropDatabase "u") := by decide +kernel
    have hpath : (World.sample "").session.root.join "u" = ⟨0, ["r", "u"]⟩ := rfl
    have hmissing : (World.sample "").files.isDirectory ⟨0, ["r", "u"]⟩ = .ok false := rfl
    have hremove : (World.sample "").files.removeTree ⟨0, ["r", "u"]⟩ =
        (.error ⟨.missing, ⟨0, ["r", "u"]⟩, .utf8⟩, (World.sample "").files) := rfl
    have hrespond : (respond "DROP DATABASE u;").run (.sample "") =
        .ok "[ERROR] Database doesn't exist: u\n" (.sample "") := by
      refine run_respond_of_error (e := .operation (.databaseMissing "u")) ?_ rfl
      rw [run_execute_of_parse hparse, Command.run, run_dropDatabase, hpath, hmissing]
    refine ⟨_, _, hrespond, by decide, respond_error_unchanged ?_ hrespond (by decide)⟩
    intro database h e files hfailed
    rw [hparse] at h
    cases h
    rw [hpath, hremove] at hfailed
    cases hfailed
    rfl

end Tabula.Operation
