import Tabula.Proofs.Command.Grammar
import Tabula.Proofs.Session.Run

/-!
# Commands that go well

A command goes well exactly if what it asks of the files is so and its change of the files succeeds
(`Command.run_eq_ok_iff`). What is shown of commands that go well is shown for the cases of
`Command.Succeeds`, where all changes of a table are one case, and all queries. The session after
such a command depends on the command only (`Session.after`).
-/

namespace Tabula

open Operation

variable {w w' : World} {command : Command} {a : Answer} {n : String}

/-- The session after a command that goes well. -/
def Session.after (s : Session) : Command → Session
  | .use database | .createDatabase database =>
    { s with selected := some ⟨database, s.root.join database⟩ }
  | .dropDatabase database => { s with selected := s.selected.filter (·.database ≠ database) }
  | _ => s

namespace Command

/-- A command goes well with this answer and leaves these files. -/
inductive Succeeds (w : World) : Command → Answer → FileTree → Prop
  | use {d : String} (hdirectory : w.files.isDirectory (w.session.root.join d) = .ok true) :
      Succeeds w (.use d) {} w.files
  | createDatabase {d : String} {files : FileTree}
      (hfree : w.files.hasEntry (w.session.root.join d) = .ok false)
      (hmake : w.files.makeDirectory (w.session.root.join d) = .ok files) :
      Succeeds w (.createDatabase d) {} files
  | dropDatabase {d : String} {u : Unit} {files : FileTree}
      (hdirectory : w.files.isDirectory (w.session.root.join d) = .ok true)
      (hremove : w.files.removeTree (w.session.root.join d) = (.ok u, files)) :
      Succeeds w (.dropDatabase d) {} files
  | createTable {n : String} {columns : List String} {path : Path} {t : Table} {files : FileTree}
      (hpath : w.session.tablePath n = .ok path) (hfree : w.files.hasEntry path = .ok false)
      (hnew : newTable n columns = .ok t)
      (hwrite : w.files.writeFile path t.fileText = (.ok (), files)) :
      Succeeds w (.createTable n columns) {} files
  | dropTable {n : String} {path : Path} {files : FileTree}
      (hpath : w.session.tablePath n = .ok path) (hfile : w.files.isFile path = .ok true)
      (hdelete : w.files.deleteFile path = .ok files) : Succeeds w (.dropTable n) {} files
  | change {command : Command} {n : String} {f : Table → Except Failure (Table × Answer)}
      {path : Path} {t t' : Table} {a : Answer} {files : FileTree}
      (hchange : command.change? = some (n, f)) (hpath : w.session.tablePath n = .ok path)
      (ht : w.files.table n path = .ok t) (hf : f t = .ok (t', a))
      (hwrite : w.files.writeFile path t'.fileText = (.ok (), files)) : Succeeds w command a files
  | query {command : Command} {answer : (String → Except Failure Table) → Except Failure Answer}
      {a : Answer} (hquery : command.query? = some answer) (ha : answer w.table = .ok a) :
      Succeeds w command a w.files

/-! ### Changes and queries -/

theorem mem_tables_of_change? {f : Table → Except Failure (Table × Answer)}
    (h : command.change? = some (n, f)) : n ∈ command.tables := by
  cases command <;> cases h <;> simp [tables]

theorem after_of_change? {change : String × (Table → Except Failure (Table × Answer))}
    (h : command.change? = some change) (s : Session) : s.after command = s := by
  cases command <;> first | rfl | cases h

section

variable {answer : (String → Except Failure Table) → Except Failure Answer}
  (h : command.query? = some answer)

include h

theorem tables_ne_nil_of_query? : command.tables ≠ [] := by
  cases command <;> cases h <;> simp [tables]

theorem after_of_query? (s : Session) : s.after command = s := by
  cases command <;> first | rfl | cases h

/-- A query looks at the tables only that it names. -/
theorem query?_congr {find find' : String → Except Failure Table}
    (hfind : ∀ n ∈ command.tables, find n = find' n) : answer find = answer find' := by
  cases command with
  | select table columns condition =>
    cases h
    dsimp only
    rw [hfind table (by simp [tables])]
  | join leftTable rightTable leftColumn rightColumn =>
    cases h
    dsimp only
    rw [hfind leftTable (by simp [tables]), hfind rightTable (by simp [tables])]
  | _ => cases h

/-- A query fails as the first table does that it asks for. -/
theorem query?_eq_error {find : String → Except Failure Table} {e : Failure}
    (hfind : ∀ n, find n = .error e) : answer find = .error e := by
  cases command <;> cases h
  · dsimp only
    rw [hfind]
    rfl
  · dsimp only
    rw [hfind]
    rfl

end

/-! ### Runs -/

theorem succeeds_of_run (h : command.run.run w = .ok a w') :
    ∃ files, w' = ⟨w.session.after command, files⟩ ∧ command.Succeeds w a files := by
  cases command using casesOnEffect with
  | use d =>
    rw [run, run_useDatabase] at h
    split at h <;> cases h
    rename_i hdirectory
    exact ⟨_, rfl, .use hdirectory⟩
  | createDatabase d =>
    rw [run, run_createDatabase] at h
    split at h
    · cases h
    · cases h
    · rename_i hfree
      split at h <;> cases h
      rename_i hmake
      exact ⟨_, rfl, .createDatabase hfree hmake⟩
  | dropDatabase d =>
    rw [run, run_dropDatabase] at h
    split at h
    · cases h
    · cases h
    · rename_i hdirectory
      split at h <;> cases h
      rename_i hremove
      exact ⟨_, rfl, .dropDatabase hdirectory hremove⟩
  | createTable n columns =>
    rw [run, run_createTable] at h
    split at h
    · cases h
    · rename_i path hpath
      split at h
      · cases h
      · cases h
      · rename_i hfree
        split at h
        · cases h
        · rename_i t hnew
          rw [run_store] at h
          split at h <;> cases h
          rename_i hwrite
          exact ⟨_, rfl, .createTable hpath hfree hnew hwrite⟩
  | dropTable n =>
    rw [run, run_dropTable] at h
    split at h
    · cases h
    · rename_i path hpath
      split at h
      · cases h
      · cases h
      · rename_i hfile
        split at h <;> cases h
        rename_i hdelete
        exact ⟨_, rfl, .dropTable hpath hfile hdelete⟩
  | change command n f hchange =>
    rw [run_of_change? hchange] at h
    obtain ⟨path, t, t', files, hpath, ht, hf, hwrite, rfl⟩ := exists_of_changeTable_ok h
    rw [after_of_change? hchange]
    exact ⟨files, rfl, .change hchange hpath ht hf hwrite⟩
  | query command answer hquery =>
    rw [run_of_query? hquery] at h
    obtain ⟨ha, rfl⟩ := run_settle_eq_ok_iff.1 h
    rw [after_of_query? hquery]
    exact ⟨_, rfl, .query hquery ha⟩

theorem run_of_succeeds {files : FileTree} (h : command.Succeeds w a files) :
    command.run.run w = .ok a ⟨w.session.after command, files⟩ := by
  cases h with
  | use hdirectory => rw [run, run_useDatabase, hdirectory]; rfl
  | createDatabase hfree hmake =>
    rw [run, run_createDatabase, hfree]
    dsimp only
    rw [hmake]
    rfl
  | dropDatabase hdirectory hremove =>
    rw [run, run_dropDatabase, hdirectory]
    dsimp only
    rw [hremove]
    rfl
  | createTable hpath hfree hnew hwrite =>
    rw [run, run_createTable, hpath]
    dsimp only
    rw [hfree, hnew]
    dsimp only
    rw [run_store, hwrite]
    rfl
  | dropTable hpath hfile hdelete =>
    rw [run, run_dropTable, hpath]
    dsimp only
    rw [hfile]
    dsimp only
    rw [hdelete]
    rfl
  | change hchange hpath ht hf hwrite =>
    rw [run_of_change? hchange, run_changeTable, hpath, after_of_change? hchange]
    dsimp only
    rw [ht, ok_bind, hf]
    dsimp only
    rw [run_store, hwrite]
  | query hquery ha =>
    rw [run_of_query? hquery, after_of_query? hquery, ha]
    rfl

/-- When a command goes well, and what it does then. -/
theorem run_eq_ok_iff : command.run.run w = .ok a w' ↔
    ∃ files, w' = ⟨w.session.after command, files⟩ ∧ command.Succeeds w a files := by
  refine ⟨succeeds_of_run, ?_⟩
  rintro ⟨files, rfl, hsucceeds⟩
  exact run_of_succeeds hsucceeds

end Command

end Tabula
