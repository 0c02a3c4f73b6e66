import Tabula.Proofs.FileTree.Place
import Tabula.Proofs.Session.Aligned
import Tabula.Proofs.Session.Success

/-!
# Why commands fail

A step of a command fails for few reasons. A table is not there or cannot be read
(`Failure.isOfReading`); what is asked does not fit its columns (`Failure.isOfTable`); or a
condition is at fault (`Failure.isOfRows` is this or the one before). A table that has been read is
aligned, and on such a table nothing fails for a shape. What else is said of failures follows from
these reasons (`FailsFor.mono`). A command fails for one of them, or because no database is
selected, what it names is there or is not, its change of the files is refused, or the table that it
writes cannot be encoded (`Command.fails_of_run`).
-/

namespace Tabula

variable {α β : Type}

/-- If it fails, then for such a reason. -/
def FailsFor (p : Failure → Bool) (x : Except Failure α) : Prop := ∀ e, x = .error e → p e = true

namespace FailsFor

variable {p q : Failure → Bool}

theorem ok (a : α) : FailsFor p (.ok a) := nofun

theorem error {e : Failure} (he : p e = true) : FailsFor p (.error e : Except Failure α) := by
  rintro _ ⟨⟩
  exact he

theorem bind {x : Except Failure α} {f : α → Except Failure β} (hx : FailsFor p x)
    (hf : ∀ a, x = .ok a → FailsFor p (f a)) : FailsFor p (x >>= f) := by
  intro e h
  rcases bind_eq_error_iff.1 h with h | ⟨a, ha, h⟩
  · exact hx e h
  · exact hf a ha e h

theorem mapError {ε : Type} {failure : ε → Failure} {x : Except ε α}
    (h : ∀ e, x = .error e → p (failure e) = true) : FailsFor p (x.mapError failure) := by
  intro _ herror
  obtain ⟨e, hx, rfl⟩ := mapError_eq_error_iff.1 herror
  exact h e hx

theorem mono {x : Except Failure α} (h : FailsFor p x) (hpq : ∀ e, p e = true → q e = true) :
    FailsFor q x := fun e he => hpq e (h e he)

end FailsFor

/-! ### Reasons -/

namespace Failure

/-- What is named is not there, or is already there, or cannot be looked up. -/
def isOfNames : Failure → Bool
  | operation (.databaseMissing _) | operation (.databaseExists _) => true
  | operation (.tableMissing _) | operation (.tableExists _) => true
  | file ⟨.nameTooLong, _, _⟩ => true
  | _ => false

/-- A table is not there, or its file cannot be read. -/
def isOfReading : Failure → Bool
  | operation (.tableMissing _) | operation (.undecodable _ _) | operation (.unreadable _ _) => true
  | table (.malformedRow _ _ _ _) | file ⟨.nameTooLong, _, _⟩ => true
  | _ => false

/-- A table cannot be encoded. -/
def isOfEncoding : Failure → Bool
  | file ⟨.unencodable _, _, _⟩ => true
  | _ => false

/-- What is asked of a table does not fit its columns. -/
def isOfTable : Failure → Bool
  | operation (.repeatedColumn _) | operation .idDropped | operation .idUpdated => true
  | operation (.unknownAlteration _) | operation (.valueCount _ _ _) => true
  | operation (.noColumnToUpdate _) | operation (.noColumnToJoin _ _) => true
  | table (.columnExists _) | table (.columnMissing _) => true
  | _ => false

/-- A condition is at fault, or what is asked does not fit the columns. -/
def isOfRows : Failure → Bool
  | condition _ => true
  | e => e.isOfTable

/-- A table cannot be read, or not be asked what a command asks. -/
def isOfTables (e : Failure) : Bool := e.isOfReading || e.isOfRows

/-- What a path leads to is not found only if a name is too long. -/
theorem isOfNames_of_map_find? {α : Type} {t : FileTree} {p : Path} {f : Option Entry → α}
    {e : FileError} (h : (t.find? p).map f = .error e) : (file e).isOfNames = true := by
  obtain ⟨refusal, path, encoding⟩ := e
  obtain rfl : refusal = .nameTooLong := FileTree.nameTooLong_of_map_find? h
  rfl

variable {e : Failure}

theorem isOfRows_of_isOfTable (h : e.isOfTable = true) : e.isOfRows = true := by
  cases e with
  | condition => rfl
  | _ => exact h

theorem isOfTables_of_isOfReading (h : e.isOfReading = true) : e.isOfTables = true := by
  simp [isOfTables, h]

theorem isOfTables_of_isOfRows (h : e.isOfRows = true) : e.isOfTables = true := by
  simp [isOfTables, h]

end Failure

/-! ### Reading -/

namespace FileTree

variable {t : FileTree} {name : String} {path : Path}

theorem failsFor_table (t : FileTree) (name : String) (path : Path) :
    FailsFor Failure.isOfReading (t.table name path) := by
  refine FailsFor.bind (.mapError fun e he => ?_) fun there _ => ?_
  · obtain ⟨refusal, p, encoding⟩ := e
    obtain rfl : refusal = .nameTooLong := nameTooLong_of_map_find? he
    rfl
  · cases there with
    | false => exact .error rfl
    | true =>
      refine FailsFor.bind (.mapError fun e _ => rfl) fun content _ => ?_
      refine FailsFor.bind (.mapError fun fault _ => rfl) fun text _ => ?_
      refine FailsFor.mapError fun e he => ?_
      obtain ⟨line, expected, got, rfl⟩ := Table.malformed_of_read_error he
      rfl

/-- A table that is read can be stored. -/
theorem storable_of_table {tab : Table} (h : t.table name path = .ok tab) :
    tab.Storable ∧ tab.name = name := by
  obtain ⟨there, -, h⟩ := bind_eq_ok_iff.1 h
  cases there with
  | false => cases h
  | true =>
    obtain ⟨content, -, h⟩ := bind_eq_ok_iff.1 h
    obtain ⟨text, -, h⟩ := bind_eq_ok_iff.1 h
    exact Table.storable_of_read (mapError_eq_ok_iff.1 h)

end FileTree

theorem storable_of_worldTable {w : World} {name : String} {t : Table}
    (h : w.table name = .ok t) : t.Storable ∧ t.name = name := by
  obtain ⟨path, -, h⟩ := bind_eq_ok_iff.1 h
  exact FileTree.storable_of_table h

/-- With a selected database a table is missed only as its file is. -/
theorem World.failsFor_table {w : World} (hselected : w.session.selected ≠ none) (name : String) :
    FailsFor Failure.isOfReading (w.table name) := by
  refine FailsFor.bind (fun e he => ?_) fun path _ => w.files.failsFor_table name path
  exact absurd (Session.tablePath_eq_error_iff.1 he).1 hselected

/-! ### What commands do with tables -/

theorem Operation.failsFor_newTable (name : String) (columns : List String) :
    FailsFor Failure.isOfTable (newTable name columns) := by
  unfold newTable
  split
  · exact .error rfl
  · exact .ok _

namespace Table

variable {t : Table}

theorem failsFor_validated (t : Table) (c : Condition) :
    FailsFor Failure.isOfRows (t.validated c) := .mapError fun _ _ => rfl

theorem failsFor_judged (t : Table) (c : Condition) : FailsFor Failure.isOfRows (t.judged c) :=
  .mapError fun _ _ => rfl

theorem failsFor_shown (ht : t.Aligned) (columns : Projection) :
    FailsFor Failure.isOfTable (t.shown columns) := by
  cases columns with
  | all => exact .ok t
  | columns names =>
    refine .mapError fun e he => ?_
    rw [project_eq ht] at he
    split at he <;> cases he
    rfl

theorem failsFor_queried (ht : t.Aligned) (columns : Projection) (condition : Option String) :
    FailsFor Failure.isOfRows (t.queried columns condition) := by
  rw [queried_eq ht]
  refine (t.failsFor_validated _).bind fun _ _ => ?_
  refine ((failsFor_shown ht columns).mono fun _ => Failure.isOfRows_of_isOfTable).bind
    fun s _ => ?_
  exact (t.failsFor_judged _).bind fun result _ => .ok _

theorem failsFor_sideOf (t : Table) (key : String) :
    FailsFor Failure.isOfTable (t.sideOf key) := by
  unfold sideOf
  split
  · exact .ok _
  · exact .error rfl

theorem failsFor_joined {l r : Table} (hl : l.Aligned) (hr : r.Aligned)
    (leftColumn rightColumn : String) :
    FailsFor Failure.isOfTable (joined leftColumn rightColumn l r) := by
  rw [Operation.joined_eq hl hr]
  refine (l.failsFor_sideOf _).bind fun left _ => ?_
  exact (r.failsFor_sideOf _).bind fun right _ => .ok _

theorem failsFor_assignable (t : Table) (columns : List String) :
    FailsFor Failure.isOfTable (t.assignable columns) := by
  induction columns with
  | nil => exact .ok ()
  | cons column columns ih =>
    rw [assignable]
    split
    · exact .error rfl
    · split
      · exact ih
      · exact .error rfl

theorem failsFor_updated (ht : t.Aligned) (assignments : List (String × String))
    (condition : String) : FailsFor Failure.isOfRows (t.updated assignments condition) := by
  rw [updated_eq ht]
  refine ((t.failsFor_assignable _).mono fun _ => Failure.isOfRows_of_isOfTable).bind
    fun _ _ => ?_
  refine (t.failsFor_validated _).bind fun _ _ => ?_
  exact (t.failsFor_judged _).bind fun result _ => .ok _

theorem failsFor_deleted (t : Table) (condition : String) :
    FailsFor Failure.isOfRows (t.deleted condition) := by
  rw [deleted_eq]
  refine (t.failsFor_validated _).bind fun _ _ => ?_
  exact (t.failsFor_judged _).bind fun result _ => .ok _

theorem failsFor_inserted (ht : t.headers ≠ []) (name : String) (values : List String) :
    FailsFor Failure.isOfTable (t.inserted name values) := by
  rw [inserted_eq ht]
  split
  · exact .error rfl
  · exact .ok _

theorem failsFor_altered (ht : t.Aligned) (alteration : Alteration) (column : String) :
    FailsFor Failure.isOfTable (t.altered alteration column) := by
  rw [altered_eq ht]
  split
  · split
    · exact .error rfl
    · exact .ok _
  · split
    · exact .error rfl
    · split
      · exact .ok _
      · exact .error rfl
  · exact .error rfl

end Table

/-! ### Changes and queries -/

/-- A change of a table fails because no database is selected, because the table cannot be read or
changed, or because it cannot be written. -/
theorem Operation.cases_of_changeTable_error {w w' : World} {name : String} {e : Failure}
    {f : Table → Except Failure (Table × Answer)}
    (h : (changeTable name f).run w = .error e w') :
    (w' = w ∧ w.session.tablePath name = .error e) ∨
    (w' = w ∧ ∃ path, (w.files.table name path >>= f) = .error e) ∨
    ∃ path t t' a, w.session.tablePath name = .ok path ∧ w.files.table name path = .ok t ∧
      f t = .ok (t', a) ∧
      (do store t' path; return a : Operation Answer).run w = .error e w' := by
  rw [run_changeTable] at h
  split at h
  · rename_i hpath
    cases h
    exact .inl ⟨rfl, hpath⟩
  · rename_i path hpath
    split at h
    · rename_i hfailed
      cases h
      exact .inr (.inl ⟨rfl, path, hfailed⟩)
    · rename_i hchanged
      obtain ⟨t, ht, hf⟩ := bind_eq_ok_iff.1 hchanged
      exact .inr (.inr ⟨path, t, _, _, hpath, ht, hf, h⟩)

namespace Command

open Operation

variable {command : Command}

theorem failsFor_of_change? {name : String} {f : Table → Except Failure (Table × Answer)}
    (h : command.change? = some (name, f)) {t : Table} (ht : t.Storable) :
    FailsFor Failure.isOfRows (f t) := by
  cases command <;> cases h
  · exact (Table.failsFor_altered ht.aligned _ _).mono fun _ => Failure.isOfRows_of_isOfTable
  · exact (Table.failsFor_inserted ht.headers_ne_nil _ _).mono fun _ =>
      Failure.isOfRows_of_isOfTable
  · exact Table.failsFor_updated ht.aligned _ _
  · exact t.failsFor_deleted _

/-- A query of the tables of a world fails for a reason that lies in them. -/
theorem failsFor_of_query? {answer : (String → Except Failure Table) → Except Failure Answer}
    (h : command.query? = some answer) {w : World} (hselected : w.session.selected ≠ none) :
    FailsFor Failure.isOfTables (answer w.table) := by
  have haligned : ∀ {n t}, w.table n = .ok t → t.Aligned := fun ht =>
    (storable_of_worldTable ht).1.aligned
  have htable : ∀ n, FailsFor Failure.isOfTables (w.table n) := fun n =>
    (World.failsFor_table hselected n).mono fun _ => Failure.isOfTables_of_isOfReading
  cases command <;> cases h
  · refine (htable _).bind fun t ht => ?_
    exact (Table.failsFor_queried (haligned ht) _ _).mono fun _ => Failure.isOfTables_of_isOfRows
  · refine (htable _).bind fun left hleft => (htable _).bind fun right hright => ?_
    exact (Table.failsFor_joined (haligned hleft) (haligned hright) _ _).mono fun _ he =>
      Failure.isOfTables_of_isOfRows (Failure.isOfRows_of_isOfTable he)

/-! ### Commands -/

/-- A command has got as far as to write this table to the file of the path. -/
inductive Saves (w : World) : Command → Path → Table → Prop
  | createTable {n : String} {columns : List String} {path : Path} {t : Table}
      (hpath : w.session.tablePath n = .ok path) (hfree : w.files.hasEntry path = .ok false)
      (hnew : newTable n columns = .ok t) : Saves w (.createTable n columns) path t
  | change {command : Command} {n : String} {f : Table → Except Failure (Table × Answer)}
      {path : Path} {t t' : Table} {a : Answer} (hchange : command.change? = some (n, f))
      (hpath : w.session.tablePath n = .ok path) (ht : w.files.table n path = .ok t)
      (hf : f t = .ok (t', a)) : Saves w command path t'

/-- A command fails for this reason and leaves these files. -/
inductive Fails (w : World) : Command → Failure → FileTree → Prop
  | unselected {command : Command} (hselected : w.session.selected = none)
      (htables : command.tables ≠ []) :
      Fails w command (.operation .noDatabaseSelected) w.files
  | names {command : Command} {e : Failure} (he : e.isOfNames = true) : Fails w command e w.files
  | tables {command : Command} {e : Failure} (he : e.isOfTables = true) : Fails w command e w.files
  | makeDirectory {d : String} {fault : FileError}
      (hmake : w.files.makeDirectory (w.session.root.join d) = .error fault) :
      Fails w (.createDatabase d) (.file fault) w.files
  | removeTree {d : String} {fault : FileError} {files : FileTree}
      (hremove : w.files.removeTree (w.session.root.join d) = (.error fault, files)) :
      Fails w (.dropDatabase d) (.file fault) files
  | deleteFile {n : String} {path : Path} {fault : FileError}
      (hpath : w.session.tablePath n = .ok path)
      (hdelete : w.files.deleteFile path = .error fault) :
      Fails w (.dropTable n) (.file fault) w.files
  | saveNull {command : Command} {t : Table} {path : Path} {fault : FileError}
      (hsaves : Saves w command path t) (hnull : ¬ path.NullFree) :
      Fails w command (.file fault) w.files
  | write {command : Command} {name : String} {fault : FileError} :
      Fails w command (.operation (.unwritable name fault)) w.files
  | encode {command : Command} {t : Table} {path : Path} {place : List String}
      {fault : Text.EncodeFault} (hsaves : Saves w command path t)
      (hlocate : w.files.locate path = .ok place) (hplace : w.files.at? place ≠ some .directory)
      (hfault : w.files.encoding.fault? t.fileText = some fault) :
      Fails w command (.file ⟨.unencodable fault, path, w.files.encoding⟩)
        (w.files.put place (.file (.text "")))

variable {w w' : World} {e : Failure}

theorem fails_of_tablePath {n : String} (hn : n ∈ command.tables)
    (h : w.session.tablePath n = .error e) : command.Fails w e w.files := by
  obtain ⟨hselected, rfl⟩ := Session.tablePath_eq_error_iff.1 h
  exact .unselected hselected (List.ne_nil_of_mem hn)

theorem Saves.exists_tablePath {path : Path} {t : Table} (h : command.Saves w path t) :
    ∃ n ∈ command.tables, w.session.tablePath n = .ok path := by
  cases h with
  | createTable hpath => exact ⟨_, by simp [Command.tables], hpath⟩
  | change hchange hpath => exact ⟨_, mem_tables_of_change? hchange, hpath⟩

theorem fails_of_store {path : Path} {t : Table} {a : Answer} (hsaves : command.Saves w path t)
    (h : (do store t path; return a : Operation Answer).run w = .error e w') :
    ∃ files, w' = ⟨w.session, files⟩ ∧ command.Fails w e files := by
  rw [run_store] at h
  obtain ⟨fault, hwrite, hsystem⟩ |
      ⟨place, hlocate, hplace, ⟨-, hwrite⟩ | ⟨fault, hfault, hwrite⟩⟩ :=
    w.files.writeFile_cases path t.fileText
  · rw [hwrite] at h
    cases h
    refine ⟨_, rfl, ?_⟩
    cases hreported : fault.refusal.isOfSystem with
    | true => exact .write
    | false =>
      exact .saveNull hsaves fun hnull => Bool.false_ne_true (hreported.symm.trans (hsystem hnull))
  · rw [hwrite] at h
    cases h
  · rw [hwrite] at h
    cases h
    exact ⟨_, rfl, .encode hsaves hlocate hplace hfault⟩

theorem fails_of_useDatabase {d : String} (h : (useDatabase d).run w = .error e w') :
    ∃ files, w' = ⟨w.session, files⟩ ∧ (use d).Fails w e files := by
  rw [run_useDatabase] at h
  split at h <;> cases h
  · rename_i hquery
    exact ⟨_, rfl, .names (Failure.isOfNames_of_map_find? hquery)⟩
  · exact ⟨_, rfl, .names rfl⟩

theorem fails_of_createDatabase {d : String}
    (h : (Operation.createDatabase d).run w = .error e w') :
    ∃ files, w' = ⟨w.session, files⟩ ∧ (createDatabase d).Fails w e files := by
  rw [run_createDatabase] at h
  split at h
  · rename_i hquery
    cases h
    exact ⟨_, rfl, .names (Failure.isOfNames_of_map_find? hquery)⟩
  · cases h
    exact ⟨_, rfl, .names rfl⟩
  · split at h <;> cases h
    rename_i hmake
    exact ⟨_, rfl, .makeDirectory hmake⟩

theorem fails_of_dropDatabase {d : String} (h : (Operation.dropDatabase d).run w = .error e w') :
    ∃ files, w' = ⟨w.session, files⟩ ∧ (dropDatabase d).Fails w e files := by
  rw [run_dropDatabase] at h
  split at h
  · rename_i hquery
    cases h
    exact ⟨_, rfl, .names (Failure.isOfNames_of_map_find? hquery)⟩
  · cases h
    exact ⟨_, rfl, .names rfl⟩
  · split at h <;> cases h
    rename_i hremove
    exact ⟨_, rfl, .removeTree hremove⟩

theorem fails_of_createTable {n : String} {columns : List String}
    (h : (Operation.createTable n columns).run w = .error e w') :
    ∃ files, w' = ⟨w.session, files⟩ ∧ (createTable n columns).Fails w e files := by
  rw [run_createTable] at h
  split at h
  · rename_i hpath
    cases h
    exact ⟨_, rfl, fails_of_tablePath (by simp [Command.tables]) hpath⟩
  · rename_i path hpath
    split at h
    · rename_i hquery
      cases h
      exact ⟨_, rfl, .names (Failure.isOfNames_of_map_find? hquery)⟩
    · cases h
      exact ⟨_, rfl, .names rfl⟩
    · rename_i hfree
      split at h
      · rename_i hnew
        cases h
        have htable := Failure.isOfRows_of_isOfTable (failsFor_newTable n columns _ hnew)
        exact ⟨_, rfl, .tables (Failure.isOfTables_of_isOfRows htable)⟩
      · rename_i hnew
        exact fails_of_store (.createTable hpath hfree hnew) h

theorem fails_of_dropTable {n : String} (h : (Operation.dropTable n).run w = .error e w') :
    ∃ files, w' = ⟨w.session, files⟩ ∧ (dropTable n).Fails w e files := by
  have hn : n ∈ (dropTable n).tables := by simp [Command.tables]
  rw [run_dropTable] at h
  split at h
  · rename_i hpath
    cases h
    exact ⟨_, rfl, fails_of_tablePath hn hpath⟩
  · rename_i path hpath
    split at h
    · rename_i hquery
      cases h
      exact ⟨_, rfl, .names (Failure.isOfNames_of_map_find? hquery)⟩
    · cases h
      exact ⟨_, rfl, .names rfl⟩
    · split at h <;> cases h
      rename_i hdelete
      exact ⟨_, rfl, .deleteFile hpath hdelete⟩

theorem fails_of_change {n : String} {f : Table → Except Failure (Table × Answer)}
    (hchange : command.change? = some (n, f)) (h : command.run.run w = .error e w') :
    ∃ files, w' = ⟨w.session, files⟩ ∧ command.Fails w e files := by
  have hn := mem_tables_of_change? hchange
  rw [run_of_change? hchange] at h
  rcases cases_of_changeTable_error h with
    ⟨rfl, hpath⟩ | ⟨rfl, path, hfailed⟩ | ⟨path, t, t', a, hpath, ht, hf, hstore⟩
  · exact ⟨_, rfl, fails_of_tablePath hn hpath⟩
  · refine ⟨_, rfl, .tables (FailsFor.bind ?_ (fun t ht => ?_) _ hfailed)⟩
    · exact (FileTree.failsFor_table _ n path).mono fun _ => Failure.isOfTables_of_isOfReading
    · exact (failsFor_of_change? hchange (FileTree.storable_of_table ht).1).mono fun _ =>
        Failure.isOfTables_of_isOfRows
  · exact fails_of_store (.change hchange hpath ht hf) hstore

theorem fails_of_query {answer : (String → Except Failure Table) → Except Failure Answer}
    (hquery : command.query? = some answer) (h : command.run.run w = .error e w') :
    ∃ files, w' = ⟨w.session, files⟩ ∧ command.Fails w e files := by
  rw [run_of_query? hquery] at h
  obtain ⟨hfailed, hsame⟩ := run_settle_eq_error_iff.1 h
  refine ⟨w.files, hsame, ?_⟩
  by_cases hselected : w.session.selected = none
  · cases hfailed.symm.trans (query?_eq_error hquery (World.table_eq_error hselected))
    exact .unselected hselected (tables_ne_nil_of_query? hquery)
  · exact .tables (failsFor_of_query? hquery hselected e hfailed)

/-- Why a command fails. -/
theorem fails_of_run (h : command.run.run w = .error e w') :
    ∃ files, w' = ⟨w.session, files⟩ ∧ command.Fails w e files := by
  cases command using casesOnEffect with
  | use d => exact fails_of_useDatabase h
  | createDatabase d => exact fails_of_createDatabase h
  | dropDatabase d => exact fails_of_dropDatabase h
  | createTable n columns => exact fails_of_createTable h
  | dropTable n => exact fails_of_dropTable h
  | change command n f hchange => exact fails_of_change hchange h
  | query command answer hquery => exact fails_of_query hquery h

end Command

end Tabula
