import Tabula.Proofs.Command.Value
import Tabula.Proofs.FileTree.Directory
import Tabula.Proofs.Session.Selection
import Tabula.Proofs.Table.Identity

/-!
# What commands do below a directory

A session whose root is an empty directory, whatever happens below it, works below it only. A path
may be too long for the files, or a database may be gone when a session looks for a table in it; but
where such a path leads anywhere, it leads to the place that its names stand for
(`Ground.place_of_locate_table`). So each command that goes well does one thing to the files below
the directory (`Ground.effect_of_run`), and one that fails does nothing, unless it is a table that
cannot be encoded: then the file of this table is empty (`Ground.cases_of_run_error`).
-/

namespace Tabula

open Operation (tableSuffix)
open FileTree (SameOutside)

/-! ### Where names lead -/

namespace FileTree

variable {t t' : FileTree} {p : Path} {place q : List String} {s : String}

/-- The place that the names of a path lead to, however long the path is. -/
def leads (t : FileTree) (p : Path) : Except Refusal (List String) :=
  t.follow (if p.slashes = 0 then t.workingDirectory else []) p.names

theorem leads_of_locate (h : t.locate p = .ok place) : t.leads p = .ok place :=
  (locate_eq_ok_iff.1 h).2.2

theorem follow_singleton (hs : s ≠ "..") : t.follow place [s] = .ok q ↔
    t.at? place = some .directory ∧ t.encoding.size s ≤ maxName ∧ q = place ++ [s] := by
  rw [follow]
  cases t.at? place with
  | none => simp
  | some e =>
    cases e with
    | file c => simp
    | directory =>
      dsimp only
      rw [if_neg hs, follow]
      by_cases hsize : maxName < t.encoding.size s
      · simp [hsize, Nat.not_le.2 hsize]
      · simp [hsize, Nat.not_lt.1 hsize, eq_comm]

/-- A part of a path leads from a directory to what has its name there. -/
theorem leads_join_eq_ok_iff (hs : Path.IsPart s) : t.leads (p.join s) = .ok q ↔
    ∃ place, t.leads p = .ok place ∧ t.at? place = some .directory ∧
      t.encoding.size s ≤ maxName ∧ q = place ++ [s] := by
  have hjoin : t.leads (p.join s) = (t.leads p).bind fun place => t.follow place [s] := by
    rw [leads, Path.join_of_isPart hs]
    exact follow_append t _ p.names s
  rw [hjoin]
  cases t.leads p with
  | error r => simp [Except.bind]
  | ok place => simp [Except.bind, follow_singleton hs.ne_dots]

/-- A removal follows the path twice. -/
theorem exists_places_of_removeTree {u : Unit} (h : t.removeTree p = (.ok u, t')) :
    ∃ place place', t.locate p = .ok place ∧ (t.clear place).locate p = .ok place' ∧
      t' = (t.clear place).erase place' := by
  unfold removeTree at h
  split at h
  · cases h
  · rename_i place hplace
    split at h
    · cases h
    · cases h
    · dsimp only at h
      split at h
      · cases h
      · split at h
        · cases h
        · rename_i place' hplace'
          cases h
          exact ⟨place, place', mapError_eq_ok_iff.1 hplace, mapError_eq_ok_iff.1 hplace', rfl⟩

/-- A removal that fails leaves the tree as it was, if the path leads to the same place when all
below the place is gone. -/
theorem eq_of_removeTree_error {e : FileError} (hnames : p.names ≠ [])
    (hcleared : ∀ place, t.locate p = .ok place → (t.clear place).locate p = .ok place)
    (h : t.removeTree p = (.error e, t')) : t' = t := by
  unfold removeTree at h
  cases hlocate : t.locate p with
  | error r =>
    have hplace : t.place p = .error ⟨r, p, t.encoding⟩ := by simp [FileTree.place, hlocate]
    rw [hplace] at h
    cases h
    rfl
  | ok place =>
    rw [place_eq hlocate] at h
    dsimp only at h
    split at h
    · cases h
      rfl
    · cases h
      rfl
    · rw [if_neg hnames, place_eq (hcleared place hlocate)] at h
      cases h

end FileTree

/-! ### Sessions below a directory -/

/-- A directory with nothing below it. -/
structure Ground where
  files : FileTree
  place : List String
  directory : files.at? place = some .directory
  empty : ∀ q ≠ [], files.at? (place ++ q) = none

namespace Ground

variable {G : Ground} {s : Session} {files : FileTree} {d n : String}

/-- The root of a session is the directory, and what it has selected has the path that its name has
below the root. -/
structure Hosts (G : Ground) (s : Session) : Prop where
  root : G.files.locate s.root = .ok G.place
  selected : ∀ d ∈ s.selected, IsName d.database ∧ d.path = s.root.join d.database

/-- The place of a table's file. -/
def tablePlace (G : Ground) (d n : String) : List String := G.place ++ [d, n ++ tableSuffix]

/-- The file of a table of a database is read as this table. -/
def Stores (G : Ground) (files : FileTree) (d n : String) (t : Table) : Prop :=
  ∃ c text, files.at? (G.tablePlace d n) = some (.file c) ∧ c.read = .ok text ∧
    Table.read n text = .ok t

section

variable (hs : G.Hosts s) (hsame : SameOutside G.place G.files files)

include hs hsame

theorem locate_root : files.locate s.root = .ok G.place :=
  FileTree.locate_of_kept (hsame.kept G.empty) hs.root

theorem place_of_locate_database (hd : IsName d) {q : List String}
    (h : files.locate (s.root.join d) = .ok q) : q = G.place ++ [d] := by
  obtain ⟨place, hplace, -, -, rfl⟩ :=
    (FileTree.leads_join_eq_ok_iff hd.isPart).1 (FileTree.leads_of_locate h)
  have hroot := FileTree.leads_of_locate (locate_root hs hsame)
  obtain rfl : G.place = place := Except.ok.inj (hroot.symm.trans hplace)
  rfl

theorem place_of_locate_table (hd : IsName d) (hn : IsName n) {q : List String}
    (h : files.locate ((s.root.join d).join (n ++ tableSuffix)) = .ok q) :
    q = G.tablePlace d n := by
  obtain ⟨r, hr, -, -, rfl⟩ :=
    (FileTree.leads_join_eq_ok_iff hn.isPart_file).1 (FileTree.leads_of_locate h)
  obtain ⟨place, hplace, -, -, rfl⟩ := (FileTree.leads_join_eq_ok_iff hd.isPart).1 hr
  have hroot := FileTree.leads_of_locate (locate_root hs hsame)
  obtain rfl : G.place = place := Except.ok.inj (hroot.symm.trans hplace)
  simp [tablePlace]

/-- A removal of a database leaves no trace if it fails. -/
theorem eq_of_removeTree_error (hd : IsName d) {e : FileError} {files' : FileTree}
    (h : files.removeTree (s.root.join d) = (.error e, files')) : files' = files := by
  refine FileTree.eq_of_removeTree_error ?_ (fun q hq => ?_) h
  · rw [Path.join_of_isPart hd.isPart]
    simp
  · obtain rfl := place_of_locate_database hs hsame hd hq
    have hcleared : SameOutside G.place G.files (files.clear (G.place ++ [d])) :=
      hsame.trans (SameOutside.clear files (by simp))
    obtain ⟨hnull, hpath, hleads⟩ := FileTree.locate_eq_ok_iff.1 hq
    obtain ⟨_, -, -, hsize, -⟩ := (FileTree.leads_join_eq_ok_iff hd.isPart).1 hleads
    refine FileTree.locate_eq_ok_iff.2 ⟨hnull, hpath, ?_⟩
    refine (FileTree.leads_join_eq_ok_iff hd.isPart).2 ⟨G.place, ?_, ?_, hsize, rfl⟩
    · exact FileTree.leads_of_locate (locate_root hs hcleared)
    · exact (hcleared.kept G.empty).directory _ G.directory

end

/-! ### What a command does -/

variable {w w' : World} {command : Command} {a : Answer} {e : Failure}

/-- What a command that goes well does to the files when a database is selected. -/
inductive Effect (G : Ground) (selected : Option String) (files : FileTree) :
    Command → FileTree → Prop
  | none {command : Command} : Effect G selected files command files
  | createDatabase {d : String} :
      Effect G selected files (.createDatabase d) (files.put (G.place ++ [d]) .directory)
  | dropDatabase {d : String} :
      Effect G selected files (.dropDatabase d) (files.remove (G.place ++ [d]))
  | createTable {d n : String} {columns : List String} {t : Table} :
      d ∈ selected → files.at? (G.tablePlace d n) = .none →
      Operation.newTable n columns = .ok t → files.encoding.Encodes t.fileText →
      Effect G selected files (.createTable n columns)
        (files.put (G.tablePlace d n) (.file (.text t.fileText)))
  | dropTable {d n : String} : d ∈ selected →
      Effect G selected files (.dropTable n) (files.erase (G.tablePlace d n))
  | change {command : Command} {d n : String} {f : Table → Except Failure (Table × Answer)}
      {t t' : Table} {a : Answer} :
      d ∈ selected → command.change? = some (n, f) → G.Stores files d n t → f t = .ok (t', a) →
      files.encoding.Encodes t'.fileText →
      Effect G selected files command (files.put (G.tablePlace d n) (.file (.text t'.fileText)))

/-- A table that is read from a file is stored in it. -/
theorem stores_of_table {files : FileTree} {d n : String} {path : Path} {t : Table}
    (hplace : ∀ q, files.locate path = .ok q → q = G.tablePlace d n)
    (h : files.table n path = .ok t) : G.Stores files d n t := by
  unfold FileTree.table at h
  obtain ⟨there, -, h⟩ := bind_eq_ok_iff.1 h
  cases there with
  | false => cases h
  | true =>
    obtain ⟨c, hfound, h⟩ := bind_eq_ok_iff.1 h
    obtain ⟨text, hdecode, hread⟩ := bind_eq_ok_iff.1 h
    have hfile := mapError_eq_ok_iff.1 hfound
    unfold FileTree.readFile at hfile
    obtain ⟨q, hq, hfile⟩ := bind_eq_ok_iff.1 hfile
    obtain rfl := hplace q (mapError_eq_ok_iff.1 hq)
    split at hfile
    · cases hfile
    · cases hfile
    · rename_i c hentry
      cases hfile
      obtain ⟨hdecode, -⟩ := Content.read_found_eq_ok_iff.1 (mapError_eq_ok_iff.1 hdecode)
      exact ⟨c, text, hentry, hdecode, mapError_eq_ok_iff.1 hread⟩

variable (hw : G.Hosts w.session) (hsame : SameOutside G.place G.files w.files)

include hw

/-- A selected database and the path to the file of a table of it. -/
theorem exists_of_tablePath {n : String} {path : Path} (h : w.session.tablePath n = .ok path) :
    ∃ d ∈ w.session.selected.map (·.database), IsName d ∧
      path = (w.session.root.join d).join (n ++ tableSuffix) := by
  obtain ⟨d, hselected, rfl⟩ := Session.exists_selected_of_tablePath h
  obtain ⟨hname, hpath⟩ := hw.selected d hselected
  exact ⟨d.database, by rw [hselected]; rfl, hname, by rw [hpath]⟩

include hsame

/-- A command that goes well has its effect. -/
theorem effect_of_run
    (hnames : ∀ n ∈ command.databases ++ command.tables ++ command.newColumns, IsName n)
    (h : command.run.run w = .ok a w') :
    G.Effect (w.session.selected.map (·.database)) w.files command w'.files := by
  have htable : ∀ n ∈ command.tables, IsName n := fun n hn => hnames n (by simp [hn])
  obtain ⟨files, rfl, hsucceeds⟩ := Command.run_eq_ok_iff.1 h
  cases hsucceeds with
  | use => exact .none
  | @createDatabase d _ _ hmake =>
    have hd : IsName d := hnames _ (by simp [Command.databases])
    obtain ⟨q, hq, rfl⟩ := FileTree.exists_place_of_makeDirectory hmake
    obtain rfl := place_of_locate_database hw hsame hd hq
    exact .createDatabase
  | @dropDatabase d _ _ _ hremove =>
    have hd : IsName d := hnames _ (by simp [Command.databases])
    obtain ⟨q, q', hq, hq', rfl⟩ := FileTree.exists_places_of_removeTree hremove
    obtain rfl := place_of_locate_database hw hsame hd hq
    have hcleared : SameOutside G.place G.files (w.files.clear (G.place ++ [d])) :=
      hsame.trans (SameOutside.clear w.files (by simp))
    obtain rfl := place_of_locate_database hw hcleared hd hq'
    exact .dropDatabase
  | @createTable n _ _ _ _ hpath hfree hnew hwrite =>
    obtain ⟨d, hd, hname, rfl⟩ := exists_of_tablePath hw hpath
    obtain ⟨q, hq, -, hencodes, rfl⟩ := FileTree.exists_place_of_writeFile hwrite
    obtain rfl := place_of_locate_table hw hsame hname (htable n (by simp [Command.tables])) hq
    rw [FileTree.hasEntry_eq hq] at hfree
    have hnone : w.files.at? (G.tablePlace d n) = .none := by simpa using hfree
    exact .createTable hd hnone hnew hencodes
  | @dropTable n _ _ hpath _ hdelete =>
    obtain ⟨d, hd, hname, rfl⟩ := exists_of_tablePath hw hpath
    obtain ⟨q, hq, rfl⟩ := FileTree.exists_place_of_deleteFile hdelete
    obtain rfl := place_of_locate_table hw hsame hname (htable n (by simp [Command.tables])) hq
    exact .dropTable hd
  | change hchange hpath ht hf hwrite =>
    have hn := htable _ (Command.mem_tables_of_change? hchange)
    obtain ⟨d, hd, hname, rfl⟩ := exists_of_tablePath hw hpath
    obtain ⟨q, hq, -, hencodes, rfl⟩ := FileTree.exists_place_of_writeFile hwrite
    have hplace : ∀ q, w.files.locate _ = .ok q → q = _ :=
      fun _ => place_of_locate_table hw hsame hname hn
    obtain rfl := hplace q hq
    exact .change hd hchange (stores_of_table hplace ht) hf hencodes
  | query => exact .none

/-- A command that fails does nothing to the files, or the file of a table is empty that it could
not encode. -/
theorem cases_of_run_error
    (hnames : ∀ n ∈ command.databases ++ command.tables ++ command.newColumns, IsName n)
    (h : command.run.run w = .error e w') : w' = w ∨ e.isOfEncoding = true ∧
      ∃ d ∈ w.session.selected.map (·.database), ∃ n ∈ command.tables, ∃ path t,
        command.Saves w path t ∧ ¬ w.files.encoding.Encodes t.fileText ∧
        w.files.locate ((w.session.root.join d).join (n ++ tableSuffix)) =
          .ok (G.tablePlace d n) ∧
        w' = { w with files := w.files.put (G.tablePlace d n) (.file (.text "")) } := by
  rcases Operation.cases_of_run_error h with rfl | ⟨d, fault, files, hdrop, hremove, rfl⟩ |
    ⟨path, t, q, fault, hsaves, hq, -, hfault, rfl, rfl⟩
  · exact .inl rfl
  · have hd : IsName d := hnames d (by simp [hdrop, Command.databases])
    rw [eq_of_removeTree_error hw hsame hd hremove]
    exact .inl rfl
  · obtain ⟨n, hn, hpath⟩ := hsaves.exists_tablePath
    obtain ⟨d, hd, hname, rfl⟩ := exists_of_tablePath hw hpath
    obtain rfl := place_of_locate_table hw hsame hname (hnames n (by simp [hn])) hq
    refine .inr ⟨rfl, d, hd, n, hn, _, t, hsaves, fun hencodes => ?_, hq, rfl⟩
    cases hfault.symm.trans (Text.Encoding.fault?_eq_none_iff.2 hencodes)

/-! ### What an effect leaves -/

namespace Effect

omit hw hsame

variable {selected : Option String} {files files' : FileTree} {d f : String} {entry : Entry}

theorem sameOutside (h : G.Effect selected files command files') :
    SameOutside G.place files files' := by
  cases h with
  | none => exact SameOutside.refl _ _
  | createDatabase => exact SameOutside.put _ (by simp) _
  | dropDatabase => exact SameOutside.remove _ (by simp)
  | createTable => exact SameOutside.put _ (by simp) _
  | dropTable => exact SameOutside.erase _ (by simp)
  | change => exact SameOutside.put _ (by simp) _

/-- What stands in a database after a command was there before, or is the file of a table of the
selected database that the command has made where there was nothing, or has changed. -/
theorem entry_cases (h : G.Effect selected files command files')
    (hentry : files'.at? (G.place ++ [d, f]) = some entry) :
    files.at? (G.place ++ [d, f]) = some entry ∨
    (∃ n columns t, d ∈ selected ∧ command = .createTable n columns ∧ f = n ++ tableSuffix ∧
      files.at? (G.tablePlace d n) = .none ∧ Operation.newTable n columns = .ok t ∧
      files.encoding.Encodes t.fileText ∧ entry = .file (.text t.fileText)) ∨
    ∃ n change t t' a, d ∈ selected ∧ command.change? = some (n, change) ∧ f = n ++ tableSuffix ∧
      G.Stores files d n t ∧ change t = .ok (t', a) ∧ files.encoding.Encodes t'.fileText ∧
      entry = .file (.text t'.fileText) := by
  cases h with
  | none => exact .inl hentry
  | createDatabase =>
    rw [FileTree.at?_put_of_ne _ (by simp)] at hentry
    exact .inl hentry
  | dropDatabase =>
    rw [FileTree.at?_remove _ (by simp)] at hentry
    split at hentry
    · cases hentry
    · exact .inl hentry
  | @createTable d' n columns t hselected hnone hnew hencodes =>
    by_cases hplace : G.place ++ [d, f] = G.tablePlace d' n
    · rw [hplace, FileTree.at?_put_self _ (by simp [tablePlace])] at hentry
      cases hentry
      obtain ⟨rfl, rfl⟩ : d = d' ∧ f = n ++ tableSuffix := by simpa [tablePlace] using hplace
      exact .inr (.inl ⟨n, columns, t, hselected, rfl, rfl, hnone, hnew, hencodes, rfl⟩)
    · rw [FileTree.at?_put_of_ne _ hplace] at hentry
      exact .inl hentry
  | @dropTable d' n _ =>
    by_cases hplace : G.place ++ [d, f] = G.tablePlace d' n
    · rw [hplace, FileTree.at?_erase_self _ (by simp [tablePlace])] at hentry
      cases hentry
    · rw [FileTree.at?_erase_of_ne _ hplace] at hentry
      exact .inl hentry
  | @change command d' n change t t' a hselected hchange hstores hf hencodes =>
    by_cases hplace : G.place ++ [d, f] = G.tablePlace d' n
    · rw [hplace, FileTree.at?_put_self _ (by simp [tablePlace])] at hentry
      cases hentry
      obtain ⟨rfl, rfl⟩ : d = d' ∧ f = n ++ tableSuffix := by simpa [tablePlace] using hplace
      exact .inr (.inr
        ⟨n, change, t, t', a, hselected, hchange, rfl, hstores, hf, hencodes, rfl⟩)
    · rw [FileTree.at?_put_of_ne _ hplace] at hentry
      exact .inl hentry

end Effect

end Ground

end Tabula
