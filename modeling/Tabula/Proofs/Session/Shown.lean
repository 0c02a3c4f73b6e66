import Tabula.Proofs.Command.RoundTrip
import Tabula.Proofs.Session.Durable
import Tabula.Proofs.Session.Selected

/-!
# Tables as they are shown

A response shows a table in the lines of its file (`Answer.text_eq_fileText`). Sessions that start
on an empty directory leave files in it that are those of tables, each with a name for the table in
a statement and a path that leads there (`Ground.Reached`). Each file has been written as its table
is, or is empty because a value could not be encoded (`Ground.Written`). So the response to a query
of a whole table is the text of its file if this is not empty (`Shared.selectAll_of_run`).
-/

namespace Tabula

open FileTree (Kept SameOutside)
open Operation (tableSuffix)
open Text (Plain)

/-! ### Responses and files -/

namespace Answer

theorem toList_text (a : Answer) :
    a.text.toList = (a.lines.map String.toList).flatMap (· ++ ['\n']) := by
  rw [text, String.toList_join, List.flatMap_map, List.flatMap_map]
  simp

/-- All columns and rows of a table are shown in the lines of its file. -/
theorem text_eq_fileText {t : Table} (hne : t.headers ≠ []) :
    text { columns := t.headers, rows := t.rows.map Row.values } = "[OK]\n" ++ t.fileText := by
  have hlines : lines { columns := t.headers, rows := t.rows.map Row.values } =
      "[OK]" :: t.fileLines := by
    simp [lines, hne, Table.fileLines, Table.line, Function.comp_def]
  rw [← String.toList_inj, toList_text, hlines, String.toList_append, Table.toList_fileText]
  rfl

end Answer

/-- The query of a whole table. -/
theorem parse_selectAll {n : String} (hn : IsName n) :
    Command.parse ("SELECT * FROM " ++ n ++ ";") = .ok (.select n .all none) := by
  have hwritable : (Command.select n .all none).Writable := ⟨hn, trivial, by simp⟩
  have htext : (Command.select n .all none).text = "SELECT * FROM " ++ n ++ ";" := by
    rw [← String.toList_inj]
    simp [Command.text, Command.words, sentence, Projection.text, Projection.names, listed]
  obtain ⟨ts, hwrites, hderives⟩ := hwritable.exists_derives
  rw [← htext]
  exact hwrites.parse_eq hderives

/-! ### Files and their paths -/

namespace Ground

variable {G : Ground} {root : Path} {files files' : FileTree} {d f : String}

/-- A name in a database is that of a table's file, and its path from the root leads to it. -/
structure Reaches (G : Ground) (root : Path) (files : FileTree) (d f : String) : Prop where
  database : IsName d
  table : ∃ n, IsName n ∧ f = n ++ tableSuffix
  locate : files.locate ((root.join d).join f) = .ok (G.place ++ [d, f])

/-- The root reaches every file in a database. -/
def Reached (G : Ground) (root : Path) (files : FileTree) : Prop :=
  ∀ d f e, files.at? (G.place ++ [d, f]) = some e → G.Reaches root files d f

theorem reached_files (G : Ground) (root : Path) : G.Reached root G.files := by
  intro d f e he
  rw [G.empty _ (by simp)] at he
  cases he

theorem Reaches.of_kept (h : G.Reaches root files d f) (hkept : Kept files files') :
    G.Reaches root files' d f :=
  ⟨h.database, h.table, FileTree.locate_of_kept hkept h.locate⟩

/-- A path leads on as long as its database is there: the way to the root is outside. -/
theorem Reaches.of_directory (h : G.Reaches root files d f)
    (hroot : G.files.locate root = .ok G.place) (hsame : SameOutside G.place G.files files)
    (hsame' : SameOutside G.place G.files files')
    (hdirectory : files.at? (G.place ++ [d]) = some .directory →
      files'.at? (G.place ++ [d]) = some .directory) : G.Reaches root files' d f := by
  obtain ⟨hd, ⟨n, hn, rfl⟩, hlocate⟩ := h
  refine ⟨hd, ⟨n, hn, rfl⟩, ?_⟩
  have hkept := hsame.kept G.empty
  have hkept' := hsame'.kept G.empty
  have hbefore := FileTree.leads_of_locate (FileTree.locate_of_kept hkept hroot)
  have hafter := FileTree.leads_of_locate (FileTree.locate_of_kept hkept' hroot)
  have hencoding : files'.encoding = files.encoding := hsame'.encoding.trans hsame.encoding.symm
  obtain ⟨hnull, hlength, hleads⟩ := FileTree.locate_eq_ok_iff.1 hlocate
  obtain ⟨q, hdatabase, hq, hsize, -⟩ := (FileTree.leads_join_eq_ok_iff hn.isPart_file).1 hleads
  obtain ⟨place, hplace, -, hsize', rfl⟩ := (FileTree.leads_join_eq_ok_iff hd.isPart).1 hdatabase
  obtain rfl : G.place = place := Except.ok.inj (hbefore.symm.trans hplace)
  rw [← hencoding] at hlength hsize hsize'
  refine FileTree.locate_eq_ok_iff.2 ⟨hnull, hlength, ?_⟩
  refine (FileTree.leads_join_eq_ok_iff hn.isPart_file).2 ⟨_, ?_, hdirectory hq, hsize, by simp⟩
  exact (FileTree.leads_join_eq_ok_iff hd.isPart).2
    ⟨_, hafter, hkept'.directory _ G.directory, hsize', rfl⟩

/-- A removal of a database leaves the paths to the files in the others. -/
theorem Reached.remove (h : G.Reached root files) (hroot : G.files.locate root = .ok G.place)
    (hsame : SameOutside G.place G.files files) (d' : String) :
    G.Reached root (files.remove (G.place ++ [d'])) := by
  intro d f e he
  rw [FileTree.at?_remove _ (by simp)] at he
  split at he
  · cases he
  · rename_i hother
    have hsame' := hsame.trans (SameOutside.remove files (q := [d']) (by simp))
    refine (h d f e he).of_directory hroot hsame hsame' fun hdirectory => ?_
    rw [FileTree.at?_remove _ (by simp), if_neg, hdirectory]
    intro hbelow
    exact hother (hbelow.trans (by simp))

/-- A file may be replaced where its path leads. -/
theorem Reached.put (h : G.Reached root files) {n : String} (hd : IsName d) (hn : IsName n)
    (hlocate : files.locate ((root.join d).join (n ++ tableSuffix)) = .ok (G.tablePlace d n))
    (hplace : files.at? (G.tablePlace d n) ≠ some .directory) (c : Content) :
    G.Reached root (files.put (G.tablePlace d n) (.file c)) := by
  have hkept := FileTree.kept_put hplace (.file c)
  intro d' f e he
  by_cases hsame : G.place ++ [d', f] = G.tablePlace d n
  · obtain ⟨rfl, rfl⟩ : d' = d ∧ f = n ++ tableSuffix := by simpa [tablePlace] using hsame
    exact ⟨hd, ⟨n, hn, rfl⟩, FileTree.locate_of_kept hkept hlocate⟩
  · rw [FileTree.at?_put_of_ne _ hsame] at he
    exact (h d' f e he).of_kept hkept

/-- Only a new table makes a new file. -/
theorem Effect.createTable_of_new {selected : Option String} {command : Command}
    (h : G.Effect selected files command files') (hbefore : files.at? (G.place ++ [d, f]) = .none)
    {e : Entry} (he : files'.at? (G.place ++ [d, f]) = some e) :
    ∃ n columns, command = .createTable n columns ∧ d ∈ selected ∧ f = n ++ tableSuffix := by
  rcases h.entry_cases he with hkept | ⟨n, columns, t, hselected, hcommand, hf, -⟩ |
    ⟨n, change, t, t', a, -, -, rfl, ⟨c, _, hfile, -⟩, -⟩
  · rw [hbefore] at hkept
    cases hkept
  · exact ⟨n, columns, hcommand, hselected, hf⟩
  · cases hbefore.symm.trans hfile

/-- Every file in a database is that of a tidy table, as the table is written, or it is empty
because a value was lost. -/
def Written (G : Ground) (files : FileTree) (lost : Prop) : Prop :=
  ∀ d f e, files.at? (G.place ++ [d, f]) = some e →
    ∃ t : Table, f = t.name ++ tableSuffix ∧ t.Tidy ∧ (e = .file (.text t.fileText) ∨
      lost ∧ e = .file (.text ""))

theorem written_files (G : Ground) (lost : Prop) : G.Written G.files lost := by
  intro d f e he
  rw [G.empty _ (by simp)] at he
  cases he

theorem Written.mono {lost lost' : Prop} (h : G.Written files lost) (himp : lost → lost') :
    G.Written files lost' := by
  intro d f e he
  obtain ⟨t, hname, ht, hwritten | ⟨hlost, hempty⟩⟩ := h d f e he
  · exact ⟨t, hname, ht, .inl hwritten⟩
  · exact ⟨t, hname, ht, .inr ⟨himp hlost, hempty⟩⟩

theorem Written.emptied {lost : Prop} (h : G.Written files lost) (hlost : lost) (d n : String) :
    G.Written (files.put (G.tablePlace d n) (.file (.text ""))) lost := by
  intro d' f e he
  by_cases hplace : G.place ++ [d', f] = G.tablePlace d n
  · rw [hplace, FileTree.at?_put_self _ (by simp [tablePlace])] at he
    cases he
    obtain ⟨-, rfl⟩ : d' = d ∧ f = n ++ tableSuffix := by simpa [tablePlace] using hplace
    exact ⟨.empty n [Table.idColumn], rfl, Table.tidy_empty n, .inr ⟨hlost, rfl⟩⟩
  · rw [FileTree.at?_put_of_ne _ hplace] at he
    exact h d' f e he

theorem Written.effect {selected : Option String} {command : Command} {lost : Prop}
    (h : G.Written files lost) (htidy : G.Tidy files)
    (heffect : G.Effect selected files command files')
    (hcolumns : ∀ c ∈ command.newColumns, Plain c) (hvalues : ∀ v ∈ command.values, Plain v) :
    G.Written files' lost := by
  intro d f e he
  rcases htidy.entry_cases heffect hcolumns hvalues he with hkept | ⟨t, hname, hentry, -, ht⟩
  · exact h d f e hkept
  · exact ⟨t, hname, ht, .inl hentry⟩

end Ground

open Operation

variable {w w' : World} {command : Command} {a : Answer} {G : Ground} {root : Path}

/-- The file of a new table is where its path leads. -/
theorem Operation.exists_of_createTable_ok {n : String} {columns : List String}
    (h : (createTable n columns).run w = .ok a w') :
    ∃ path q, w.session.tablePath n = .ok path ∧ w.files.locate path = .ok q := by
  change (Command.createTable n columns).run.run w = .ok a w' at h
  obtain ⟨files, -, hsucceeds⟩ := Command.run_eq_ok_iff.1 h
  cases hsucceeds with
  | @createTable _ _ path _ _ hpath _ _ hwrite =>
    obtain ⟨q, hq, -⟩ := FileTree.exists_place_of_writeFile hwrite
    exact ⟨path, q, hpath, hq⟩
  | change hchange => cases hchange
  | query hquery => cases hquery

/-- A command that goes well leaves or makes files where their paths lead. -/
theorem Ground.Reached.run (h : G.Reached root w.files) (hw : G.Hosts w.session)
    (hroot : w.session.root = root) (htidy : G.Tidy w.files)
    (hnames : ∀ n ∈ command.databases ++ command.tables ++ command.newColumns, IsName n)
    (hrun : command.run.run w = .ok a w') : G.Reached root w'.files := by
  have heffect := Ground.effect_of_run hw htidy.outside hnames hrun
  by_cases hdrop : ∃ d, command = .dropDatabase d
  · obtain ⟨d, rfl⟩ := hdrop
    generalize w'.files = files' at heffect
    cases heffect with
    | none => exact h
    | dropDatabase => exact h.remove (hroot ▸ hw.root) htidy.outside d
    | change _ hchange => cases hchange
  · have hkept := Command.kept_of_run (fun d hd => hdrop ⟨d, hd⟩) hrun
    intro d f e he
    cases hbefore : w.files.at? (G.place ++ [d, f]) with
    | some e' => exact (h d f e' hbefore).of_kept hkept
    | none =>
      obtain ⟨n, columns, rfl, hselected, rfl⟩ := heffect.createTable_of_new hbefore he
      have hn : IsName n := hnames n (by simp [Command.tables])
      obtain ⟨path, q, hpath, hq⟩ := exists_of_createTable_ok hrun
      obtain ⟨d', hd', hname, rfl⟩ := Ground.exists_of_tablePath hw hpath
      obtain rfl : d = d' := Option.some.inj (hselected.symm.trans hd')
      obtain rfl := Ground.place_of_locate_table hw htidy.outside hname hn hq
      rw [hroot] at hq
      exact ⟨hname, ⟨n, hn, rfl⟩, FileTree.locate_of_kept hkept hq⟩

/-! ### Sessions on an empty directory -/

theorem Session.root_after (s : Session) (command : Command) : (s.after command).root = s.root := by
  cases command <;> rfl

namespace Shared

variable {S : Shared} {e : Event}

/-- If the statement is one that is carried out, its values that are strings can be encoded. -/
def Event.Encodes (encoding : Text.Encoding) (e : Event) : Prop :=
  ∀ tokens command, statementTokens e.text = .ok tokens → Command.parse e.text = .ok command →
    ∀ t ∈ tokens, t.kind = .string → t.text ∈ command.values → encoding.Encodes t.text

theorem Event.Encodes.values {encoding : Text.Encoding} (h : e.Encodes encoding)
    {command : Command} (hparse : Command.parse e.text = .ok command) :
    ∀ v ∈ command.values, encoding.Encodes v := by
  obtain ⟨_, _, _, _, _, htokens, -⟩ := exists_production_of_parse hparse
  exact encodes_values htokens hparse (h _ command htokens hparse)

/-- All sessions work below a directory by the same path, this leads to every file in it, and each
file is written as its table is, or is empty because a value was lost. -/
structure Along (S : Shared) (G : Ground) (root : Path) (lost : Prop) : Prop
    extends S.Below G where
  root_eq : ∀ s ∈ S.sessions, s.root = root
  reached : G.Reached root S.files
  written : G.Written S.files lost

theorem Along.step {lost : Prop} (h : S.Along G root lost) (hclean : e.Clean) :
    (S.step e).Along G root (lost ∨ ¬ e.Encodes G.files.encoding) := by
  have hbelow := h.toBelow.step hclean
  have hwritten := h.written.mono (Or.inl (b := ¬ e.Encodes G.files.encoding))
  rcases h.toBelow.hosted.step_cases e with hsame |
    ⟨d, n, ⟨s, command, error, hs, hd, hparse, hn, ⟨v, hv, hnot⟩, -⟩, ⟨s', hs', hlocate⟩, hstep⟩ |
    ⟨s, command, a, w, hs, hparse, hexecute, heffect, hstep⟩
  · rw [hsame]
    exact ⟨h.toBelow, h.root_eq, h.reached, hwritten⟩
  · have hlost : ¬ e.Encodes G.files.encoding := fun hencodes => by
      rw [h.tidy.outside.encoding] at hnot
      exact hnot (hencodes.values hparse v hv)
    obtain ⟨d', hd', rfl⟩ := Option.map_eq_some_iff.1 hd
    obtain ⟨hdatabase, -⟩ := (h.hosts s (List.mem_of_getElem? hs)).selected d' hd'
    rw [h.root_eq s' hs'] at hlocate
    rw [hstep] at hbelow ⊢
    refine ⟨hbelow, h.root_eq, ?_, hwritten.emptied (.inr hlost) _ n⟩
    refine h.reached.put hdatabase (isName_of_parse hparse (by simp [hn])) hlocate
      (fun hdirectory => ?_) _
    obtain ⟨_, _, _, -, hentry, -⟩ := h.tidy.table _ _ _ hdirectory
    cases hentry
  · have hmem := List.mem_of_getElem? hs
    have hnames := fun n hn => isName_of_parse hparse (n := n) hn
    have hcolumns : ∀ c ∈ command.newColumns, Plain c := fun c hc => (hnames c (by simp [hc])).plain
    rw [Operation.run_execute_of_parse hparse] at hexecute
    rw [hstep] at hbelow ⊢
    refine ⟨hbelow, fun s' hs' => ?_, ?_, hwritten.effect h.tidy heffect hcolumns
      (hclean.plain hparse)⟩
    · rcases List.mem_or_eq_of_mem_set hs' with hs' | rfl
      · exact h.root_eq s' hs'
      · rw [Session.root_after, h.root_eq s hmem]
    · exact Ground.Reached.run (w := ⟨s, S.files⟩) h.reached (h.hosts s hmem) (h.root_eq s hmem)
        h.tidy hnames hexecute

theorem Along.run {lost : Prop} (h : S.Along G root lost) {events : List Event}
    (hclean : ∀ e ∈ events, e.Clean) :
    (S.run events).Along G root (lost ∨ ∃ e ∈ events, ¬ e.Encodes G.files.encoding) := by
  induction events generalizing S lost with
  | nil => exact ⟨h.toBelow, h.root_eq, h.reached, h.written.mono Or.inl⟩
  | cons e events ih =>
    have hrest := ih (h.step (hclean e (by simp))) fun e' he' =>
      hclean e' (List.mem_cons_of_mem e he')
    rw [List.exists_mem_cons_iff, ← or_assoc]
    exact hrest

/-- A session shows a table of its database as its file has it, unless the file is empty. -/
theorem Along.run_selectAll {lost : Prop} (h : S.Along G root lost) {s : Session}
    (hs : s ∈ S.sessions) {d : Selection} (hd : s.selected = some d) {n : String}
    {content : Content}
    (hfile : S.files.at? (G.tablePlace d.database n) = some (.file content)) :
    ∃ text, content = .text text ∧
      S.files.readFile (d.path.join (n ++ tableSuffix)) = .ok content ∧
      ((respond ("SELECT * FROM " ++ n ++ ";")).run ⟨s, S.files⟩ =
          .ok ("[OK]\n" ++ text) ⟨s, S.files⟩ ∨
        text = "" ∧ lost ∧ (respond ("SELECT * FROM " ++ n ++ ";")).run ⟨s, S.files⟩ =
          .ok "[OK]\nid\n" ⟨s, S.files⟩) := by
  obtain ⟨-, hpath⟩ := (h.hosts s hs).selected d hd
  obtain ⟨t, hname, ht, hwritten⟩ := h.written _ _ _ hfile
  obtain ⟨m, text, u, hm, htext, hencodes, hu, -⟩ := h.tidy.table _ _ _ hfile
  obtain rfl : n = t.name := by simpa using hname
  obtain rfl : t.name = m := by simpa using hm
  obtain ⟨-, ⟨n, hn, hsame⟩, hlocate⟩ := h.reached _ _ _ hfile
  obtain rfl : t.name = n := by simpa using hsame
  cases htext
  rw [h.root_eq s hs] at hpath
  rw [← hpath] at hlocate
  have hread := FileTree.readFile_eq_text hlocate hfile hencodes
  have hrespond : (respond ("SELECT * FROM " ++ t.name ++ ";")).run ⟨s, S.files⟩ =
      .ok ("[OK]\n" ++ u.fileText) ⟨s, S.files⟩ := by
    have htable : World.table ⟨s, S.files⟩ t.name = .ok u := by
      rw [World.table_of_selected hd,
        FileTree.table_of_readFile (FileTree.isFile_of_file hlocate hfile) hread, hu.read_eq,
        mapError_ok]
    have hne : u.headers ≠ [] := fun hnil => by simpa [hnil] using hu.id_first
    rw [run_respond_of_ok (run_execute_selectAll (parse_selectAll hn) htable),
      Answer.text_eq_fileText hne]
  refine ⟨text, rfl, hread, ?_⟩
  rcases hwritten with hentry | ⟨hlost, hentry⟩
  · cases hentry
    have hsame := (Table.read_fileText ht.toStorable).symm.trans hu.read_eq
    rw [← Except.ok.inj hsame] at hrespond
    exact .inl hrespond
  · cases hentry
    have hempty := (Table.wellWritten_empty t.name).read_eq.symm.trans hu.read_eq
    rw [← Except.ok.inj hempty] at hrespond
    exact .inr ⟨rfl, hlost, hrespond⟩

/-- Sessions start on an empty directory, and respond to any statements with plain values in any
order. After this a session that has a database selected responds to the query of a whole table with
the text of its file, and changes nothing. Only if a value could not be encoded may the file be
empty, and then the response has the column `id`. -/
theorem selectAll_of_run {sessions : List Session} {events : List Event}
    (hroot : G.files.locate root = .ok G.place) (hstart : ∀ s ∈ sessions, s = ⟨root, none⟩)
    (hclean : ∀ e ∈ events, e.Clean) :
    let S := run ⟨sessions, G.files⟩ events
    ∀ s ∈ S.sessions, ∀ d ∈ s.selected, ∀ n content,
      S.files.at? (G.tablePlace d.database n) = some (.file content) →
        ∃ text, content.read = .ok text ∧
          S.files.readFile (d.path.join (n ++ tableSuffix)) = .ok content ∧
          ((respond ("SELECT * FROM " ++ n ++ ";")).run ⟨s, S.files⟩ =
              .ok ("[OK]\n" ++ text) ⟨s, S.files⟩ ∨
            text = "" ∧ (∃ e ∈ events, ¬ e.Encodes G.files.encoding) ∧
              (respond ("SELECT * FROM " ++ n ++ ";")).run ⟨s, S.files⟩ =
                .ok "[OK]\nid\n" ⟨s, S.files⟩) := by
  intro S s hs d hd n content hfile
  have hbegin : (⟨sessions, G.files⟩ : Shared).Along G root False := by
    refine ⟨⟨fun s hs => ?_, G.tidy_files⟩, fun s hs => ?_, G.reached_files root,
      G.written_files False⟩
    · obtain rfl := hstart s hs
      exact ⟨hroot, by simp⟩
    · rw [hstart s hs]
  obtain ⟨text, rfl, hread, hrun⟩ := (hbegin.run hclean).run_selectAll hs hd hfile
  rw [false_or] at hrun
  exact ⟨text, rfl, hread, hrun⟩

theorem clean_of_parse {text : String} (command : Command)
    (hparse : Command.parse text = .ok command) (hplain : ∀ v ∈ command.values, Plain v) (i : Nat) :
    Event.Clean ⟨i, text⟩ := by
  intro _ command' _ hparse' t _ _ ht
  cases hparse.symm.trans hparse'
  exact hplain _ ht

/-- A table that gets a column, which is empty in the row that was there. -/
def sampleChanges : List Event :=
  [⟨0, "CREATE DATABASE d;"⟩, ⟨0, "CREATE TABLE t (a);"⟩, ⟨0, "INSERT INTO t VALUES ('x');"⟩,
    ⟨0, "ALTER TABLE t ADD b;"⟩, ⟨0, "INSERT INTO t VALUES ('', 'y');"⟩]

def sampleSessions : List Session := [⟨⟨0, ["r"]⟩, none⟩]

/-- The session and the files after the changes. -/
def sampleChanged : World :=
  ⟨⟨⟨0, ["r"]⟩, some ⟨"d", ⟨0, ["r", "d"]⟩⟩⟩, ⟨[], [(["r"], .directory), (["r", "d"], .directory),
    (["r", "d", "t.tab"], .file (.text "id\ta\tb\n1\tx\t\n2\t\ty\n"))], .utf8⟩⟩

theorem clean_sampleChanges : ∀ e ∈ sampleChanges, e.Clean := by
  intro e he
  simp only [sampleChanges, List.mem_cons, List.not_mem_nil, or_false] at he
  rcases he with rfl | rfl | rfl | rfl | rfl
  · exact clean_of_parse (.createDatabase "d") (by with_unfolding_all rfl) (by decide) 0
  · exact clean_of_parse (.createTable "t" ["a"]) (by with_unfolding_all rfl) (by decide) 0
  · exact clean_of_parse (.insert "t" ["x"]) (by with_unfolding_all rfl) (by decide) 0
  · exact clean_of_parse (.alterTable "t" .add "b") (by with_unfolding_all rfl) (by decide) 0
  · exact clean_of_parse (.insert "t" ["", "y"]) (by with_unfolding_all rfl) (by decide) 0

/-- The same directory, with a byte that may be left undecoded. -/
def undecodedGround : Ground where
  files := ⟨[], [(["r"], .directory)], .lastByte⟩
  place := ["r"]
  directory := rfl
  empty q hq := by
    cases q with
    | nil => exact absurd rfl hq
    | cons n q => rfl

def undecodedChanges : List Event :=
  [⟨0, "CREATE DATABASE d;"⟩, ⟨0, "CREATE TABLE t (a);"⟩, ⟨0, "INSERT INTO t VALUES ('\uf8ff');"⟩]

def undecodedChanged : World :=
  ⟨⟨⟨0, ["r"]⟩, some ⟨"d", ⟨0, ["r", "d"]⟩⟩⟩, ⟨[], [(["r"], .directory), (["r", "d"], .directory),
    (["r", "d", "t.tab"], .file (.text ""))], .lastByte⟩⟩

/-- The empty cells are shown as the file has them, at the end of a line too. A value that cannot be
encoded leaves an empty file, and a column is shown that is not in it. -/
theorem selectAll_of_run_sample :
    (run ⟨sampleSessions, sampleGround.files⟩ sampleChanges =
        ⟨[sampleChanged.session], sampleChanged.files⟩ ∧
      (respond "SELECT * FROM t;").run sampleChanged =
        .ok "[OK]\nid\ta\tb\n1\tx\t\n2\t\ty\n" sampleChanged) ∧
    run ⟨sampleSessions, undecodedGround.files⟩ undecodedChanges =
        ⟨[undecodedChanged.session], undecodedChanged.files⟩ ∧
      (respond "SELECT * FROM t;").run undecodedChanged =
        .ok "[OK]\nid\n" undecodedChanged := by
  have hrun : run ⟨sampleSessions, sampleGround.files⟩ sampleChanges =
      ⟨[sampleChanged.session], sampleChanged.files⟩ := by decide +kernel
  have hemptied : run ⟨sampleSessions, undecodedGround.files⟩ undecodedChanges =
      ⟨[undecodedChanged.session], undecodedChanged.files⟩ := by decide +kernel
  have hparse : Command.parse "SELECT * FROM t;" = .ok (.select "t" .all none) := by decide +kernel
  have hempty : (respond "SELECT * FROM t;").run undecodedChanged =
      .ok "[OK]\nid\n" undecodedChanged := by
    rw [run_respond, run_execute_of_parse hparse]
    rfl
  refine ⟨⟨hrun, ?_⟩, hemptied, hempty⟩
  have hroot : sampleGround.files.locate ⟨0, ["r"]⟩ = .ok sampleGround.place := rfl
  have hstart : ∀ s ∈ sampleSessions, s = ⟨⟨0, ["r"]⟩, none⟩ := by simp [sampleSessions]
  have hshown := selectAll_of_run hroot hstart clean_sampleChanges
  rw [hrun] at hshown
  obtain ⟨text, hread, -, hrespond | ⟨hempty, -⟩⟩ :=
    hshown sampleChanged.session (by simp) ⟨"d", ⟨0, ["r", "d"]⟩⟩ rfl "t" _ rfl
  · obtain rfl := Except.ok.inj hread
    exact hrespond
  · obtain rfl := Except.ok.inj hread
    exact absurd hempty (by decide)

end Shared

end Tabula
