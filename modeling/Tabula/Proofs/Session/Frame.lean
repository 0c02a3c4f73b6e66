import Tabula.Proofs.Session.Selected

/-!
# What a statement can change

A command names places: a database its directory with all that is below it, a table its file in the
selected database. Whatever comes of a statement, the files are afterwards as they were at all other
places (`Frame`), and at the places named there is nothing but what the command is there for
(`Command.Replaces`). A removal that fails half-way is no exception.

The names of a statement are parts of paths, so no name leads out of the directory in which it is
looked up, and different names lead to different places.
-/

namespace Tabula

open FileTree (placeOf)
open Operation (tableSuffix)

/-! ### Edits of trees -/

namespace FileTree

variable {R : List String → Option Entry → Option Entry → Prop} {t t' : FileTree} {p : Path}
  {place q : List String}

/-- One tree comes from another by edits: where an entry is not what it was, the edit is one of
those allowed at its place. -/
structure Edited (R : List String → Option Entry → Option Entry → Prop) (t t' : FileTree) :
    Prop where
  workingDirectory : t'.workingDirectory = t.workingDirectory
  at?_eq : ∀ q, t'.at? q = t.at? q ∨ R q (t.at? q) (t'.at? q)

theorem Edited.refl (R : List String → Option Entry → Option Entry → Prop) (t : FileTree) :
    Edited R t t := ⟨rfl, fun _ => .inl rfl⟩

theorem Edited.put (hplace : place ≠ []) {e : Entry} (h : R place (t.at? place) (some e)) :
    Edited R t (t.put place e) := by
  refine ⟨rfl, fun q => ?_⟩
  by_cases hq : q = place
  · subst hq
    rw [at?_put_self t hplace]
    exact .inr h
  · exact .inl (at?_put_of_ne t hq e)

theorem Edited.erase (hplace : place ≠ []) (h : R place (t.at? place) none) :
    Edited R t (t.erase place) := by
  refine ⟨rfl, fun q => ?_⟩
  by_cases hq : q = place
  · subst hq
    rw [at?_erase_self t hplace]
    exact .inr h
  · exact .inl (at?_erase_of_ne t hq)

/-- A removal takes away all that is at a place and below, only what is below, or nothing. -/
theorem removeTree_cases (t : FileTree) (p : Path) :
    (t.removeTree p).2 = t ∨ (t.removeTree p).2 = t.clear (placeOf t.workingDirectory p) ∨
      (t.removeTree p).2 = t.remove (placeOf t.workingDirectory p) := by
  unfold removeTree
  cases hlocate : t.locate p with
  | error r =>
    simp only [FileTree.place, hlocate, mapError_error]
    exact .inl trivial
  | ok place =>
    obtain rfl := eq_placeOf_of_locate hlocate
    rw [place_eq hlocate]
    dsimp only
    split
    · exact .inl rfl
    · exact .inl rfl
    · split
      · exact .inr (.inl rfl)
      · split
        · exact .inr (.inl rfl)
        · -- the path stands for the same place when it is followed again
          rename_i hagain
          obtain rfl := eq_placeOf_of_locate (mapError_eq_ok_iff.1 hagain)
          exact .inr (.inr rfl)

theorem Edited.removeTree (hplace : placeOf t.workingDirectory p ≠ [])
    (h : ∀ q, placeOf t.workingDirectory p <+: q → R q (t.at? q) none) :
    Edited R t (t.removeTree p).2 := by
  rcases removeTree_cases t p with hremove | hremove | hremove
  · rw [hremove]
    exact .refl R t
  · rw [hremove]
    refine ⟨rfl, fun q => ?_⟩
    rw [at?_clear]
    by_cases hq : q = placeOf t.workingDirectory p ∨ ¬ placeOf t.workingDirectory p <+: q
    · exact .inl (if_pos hq)
    · rw [if_neg hq]
      exact .inr (h q (not_not.1 fun hout => hq (.inr hout)))
  · rw [hremove]
    refine ⟨rfl, fun q => ?_⟩
    rw [at?_remove t hplace]
    by_cases hq : placeOf t.workingDirectory p <+: q
    · rw [if_pos hq]
      exact .inr (h q hq)
    · exact .inl (if_neg hq)

theorem edited_of_deleteFile (h : t.deleteFile p = .ok t')
    (hR : ∀ c, R (placeOf t.workingDirectory p) (some (.file c)) none) : Edited R t t' := by
  obtain ⟨place, hplace, h⟩ := bind_eq_ok_iff.1 h
  obtain rfl := eq_placeOf_of_locate (mapError_eq_ok_iff.1 hplace)
  split at h
  · cases h
  · cases h
  · rename_i c hfile
    cases h
    refine .erase (fun hroot => ?_) (hfile ▸ hR c)
    rw [hroot] at hfile
    cases hfile

theorem edited_of_makeDirectory (h : t.makeDirectory p = .ok t')
    (hR : R (placeOf t.workingDirectory p) none (some .directory)) : Edited R t t' := by
  obtain ⟨place, hplace, h⟩ := bind_eq_ok_iff.1 h
  obtain rfl := eq_placeOf_of_locate (mapError_eq_ok_iff.1 hplace)
  split at h
  · rename_i hnone
    cases h
    refine .put (fun hroot => ?_) (hnone ▸ hR)
    rw [hroot] at hnone
    cases hnone
  · cases h

/-- What is read as a table is a file at the place of its path. -/
theorem exists_file_of_table {name : String} {tab : Table} (h : t.table name p = .ok tab) :
    ∃ c, t.at? (placeOf t.workingDirectory p) = some (.file c) := by
  have hfile := isFile_of_table h
  rw [isFile, find?] at hfile
  cases hlocate : t.locate p with
  | error r => cases r <;> simp [hlocate, Except.map] at hfile
  | ok place =>
    obtain rfl := eq_placeOf_of_locate hlocate
    cases hentry : t.at? (placeOf t.workingDirectory p) with
    | none => simp [hlocate, hentry, Except.map] at hfile
    | some e =>
      cases e with
      | directory => simp [hlocate, hentry, Except.map] at hfile
      | file c => exact ⟨c, rfl⟩

end FileTree

/-! ### What commands name -/

/-- The place of a database below the root of the session. -/
def World.databasePlace (w : World) (d : String) : List String :=
  placeOf w.files.workingDirectory w.session.root ++ [d]

/-- Whether a place is that of a table's file. There is one if a database is selected. -/
def World.IsTablePlace (w : World) (n : String) (q : List String) : Prop :=
  ∃ d ∈ w.session.selected, q = placeOf w.files.workingDirectory d.path ++ [n ++ tableSuffix]

namespace Command

/-- The places that a command is there to change. -/
def Names (w : World) (q : List String) : Command → Prop
  | use _ | select _ _ _ | join _ _ _ _ => False
  | createDatabase d => q = w.databasePlace d
  | dropDatabase d => w.databasePlace d <+: q
  | createTable n _ | dropTable n | alterTable n _ _ | insert n _ | update n _ _ | delete n _ =>
    w.IsTablePlace n q

/-- What a command puts in the place of what. -/
inductive Replaces : Command → Option Entry → Option Entry → Prop
  | createDatabase (d : String) : Replaces (.createDatabase d) none (some .directory)
  | dropDatabase (d : String) (e : Option Entry) : Replaces (.dropDatabase d) e none
  | createTable (n : String) (columns : List String) (c : Content) :
      Replaces (.createTable n columns) none (some (.file c))
  | dropTable (n : String) (c : Content) : Replaces (.dropTable n) (some (.file c)) none
  | change {command : Command} (h : command.change?.isSome) (c c' : Content) :
      Replaces command (some (.file c)) (some (.file c'))

/-- The edits of the files that a command may make. -/
def Edits (command : Command) (w : World) : FileTree → FileTree → Prop :=
  FileTree.Edited fun q e e' => command.Names w q ∧ command.Replaces e e'

/-- The commands that only look at the files. -/
def Looks : Command → Prop
  | use _ | select _ _ _ | join _ _ _ _ => True
  | _ => False

/-- How a command can change the session: what it selects, or that nothing is selected any more. -/
inductive Selects (s : Session) : Command → Session → Prop
  | use (d : String) : Selects s (.use d) { s with selected := some ⟨d, s.root.join d⟩ }
  | createDatabase (d : String) :
      Selects s (.createDatabase d) { s with selected := some ⟨d, s.root.join d⟩ }
  | dropDatabase {d : Selection} (h : d ∈ s.selected) :
      Selects s (.dropDatabase d.database) { s with selected := none }

end Command

/-- A command leaves the world as it was, but for what it names. -/
structure Frame (w : World) (command : Command) (w' : World) : Prop where
  files : command.Edits w w.files w'.files
  same : command.Looks → w'.files = w.files
  session : w'.session = w.session ∨ command.Selects w.session w'.session

open Operation

variable {w w' : World} {command : Command} {a : Answer} {e : Failure} {n : String}

/-! ### Operations -/

theorem Session.after_eq_or_selects (s : Session) (command : Command) :
    s.after command = s ∨ command.Selects s (s.after command) := by
  cases command with
  | use d => exact .inr (.use d)
  | createDatabase d => exact .inr (.createDatabase d)
  | dropDatabase d =>
    obtain ⟨root, selected⟩ := s
    cases selected with
    | none => exact .inl rfl
    | some x =>
      by_cases hx : x.database = d
      · subst hx
        have hafter : Session.after ⟨root, some x⟩ (.dropDatabase x.database) = ⟨root, none⟩ := by
          simp [Session.after, Option.filter]
        rw [hafter]
        exact .inr (.dropDatabase (s := ⟨root, some x⟩) rfl)
      · exact .inl (by simp [Session.after, Option.filter, hx])
  | _ => exact .inl rfl

/-- A name stands for one place in its directory. -/
theorem World.isTablePlace_of_tablePath (hn : IsName n) {path : Path}
    (hpath : w.session.tablePath n = .ok path) :
    w.IsTablePlace n (placeOf w.files.workingDirectory path) := by
  obtain ⟨d, hd, rfl⟩ := Session.exists_selected_of_tablePath hpath
  exact ⟨d, hd, FileTree.placeOf_join hn.isPart_file⟩

theorem World.placeOf_database {d : String} (hd : IsName d) (w : World) :
    placeOf w.files.workingDirectory (w.session.root.join d) = w.databasePlace d :=
  FileTree.placeOf_join hd.isPart

theorem Command.names_of_change? {f : Table → Except Failure (Table × Answer)}
    (h : command.change? = some (n, f)) {q : List String} (hq : w.IsTablePlace n q) :
    command.Names w q := by
  cases command <;> cases h <;> exact hq

namespace Command

theorem not_looks_of_change? {change : String × (Table → Except Failure (Table × Answer))}
    (h : command.change? = some change) : ¬ command.Looks := by
  cases command <;> first | exact id | cases h

/-- A command that only looks at the files leaves them as they are. -/
theorem files_of_looks (hlooks : command.Looks) (h : command.run.run w = .ok a w') :
    w'.files = w.files := by
  obtain ⟨files, rfl, hsucceeds⟩ := Command.run_eq_ok_iff.1 h
  cases hsucceeds with
  | use => rfl
  | query => rfl
  | change hchange => exact absurd hlooks (not_looks_of_change? hchange)
  | _ => cases hlooks

/-- A removal edits the tree in the same way whether it goes well or fails. -/
theorem edits_removeTree {d : String} (hd : IsName d) (w : World) :
    (Command.dropDatabase d).Edits w w.files (w.files.removeTree (w.session.root.join d)).2 := by
  have hplace := World.placeOf_database hd w
  refine FileTree.Edited.removeTree ?_ fun q hq => ⟨?_, .dropDatabase _ _⟩
  · simp [hplace, World.databasePlace]
  · rw [hplace] at hq
    exact hq

/-- A command that has got as far as to write a table may put a file in its place, whether this is
the table or is empty. -/
theorem edits_of_saves (hnames : ∀ n ∈ command.tables, IsName n) {path : Path} {t : Table}
    {place : List String} (h : command.Saves w path t) (hlocate : w.files.locate path = .ok place)
    (c : Content) : command.Edits w w.files (w.files.put place (.file c)) := by
  cases h with
  | createTable hpath hfree _ =>
    have hnone : w.files.at? place = none := by simpa [FileTree.hasEntry_eq hlocate] using hfree
    obtain rfl := FileTree.eq_placeOf_of_locate hlocate
    refine .put (fun hroot => ?_) ⟨?_, hnone ▸ .createTable _ _ _⟩
    · rw [hroot] at hnone
      cases hnone
    · exact World.isTablePlace_of_tablePath (hnames _ (by simp [tables])) hpath
  | change hchange hpath ht _ =>
    obtain ⟨c', hfile⟩ := FileTree.exists_file_of_table ht
    obtain rfl := FileTree.eq_placeOf_of_locate hlocate
    refine .put (fun hroot => ?_) ⟨?_, hfile ▸ .change (by rw [hchange]; rfl) _ _⟩
    · rw [hroot] at hfile
      cases hfile
    · have hn := hnames _ (mem_tables_of_change? hchange)
      exact names_of_change? hchange (World.isTablePlace_of_tablePath hn hpath)

/-- A command that goes well edits the files as it may. -/
theorem edits_of_succeeds (hnames : ∀ n ∈ command.databases ++ command.tables, IsName n)
    {files : FileTree} (h : command.Succeeds w a files) : command.Edits w w.files files := by
  have htables : ∀ n ∈ command.tables, IsName n := fun n hn => hnames n (by simp [hn])
  cases h with
  | use => exact .refl _ _
  | @createDatabase d _ _ hmake =>
    refine FileTree.edited_of_makeDirectory hmake ⟨?_, .createDatabase _⟩
    exact World.placeOf_database (hnames d (by simp [databases])) w
  | @dropDatabase d _ _ _ hremove =>
    have hedits := edits_removeTree (hnames d (by simp [databases])) w
    rwa [hremove] at hedits
  | createTable hpath hfree hnew hwrite =>
    obtain ⟨place, hlocate, -, -, rfl⟩ := FileTree.exists_place_of_writeFile hwrite
    exact edits_of_saves htables (.createTable hpath hfree hnew) hlocate _
  | dropTable hpath _ hdelete =>
    refine FileTree.edited_of_deleteFile hdelete fun c => ⟨?_, .dropTable _ _⟩
    exact World.isTablePlace_of_tablePath (htables _ (by simp [tables])) hpath
  | change hchange hpath ht hf hwrite =>
    obtain ⟨place, hlocate, -, -, rfl⟩ := FileTree.exists_place_of_writeFile hwrite
    exact edits_of_saves htables (.change hchange hpath ht hf) hlocate _
  | query => exact .refl _ _

/-- Whether a command goes well or fails, it edits the files as it may. -/
theorem edits_of_run (hnames : ∀ n ∈ command.databases ++ command.tables, IsName n) :
    Ends (fun w' => command.Edits w w.files w'.files) (command.run.run w) := by
  cases hrun : command.run.run w with
  | ok a w' =>
    obtain ⟨files, rfl, hsucceeds⟩ := run_eq_ok_iff.1 hrun
    exact edits_of_succeeds hnames hsucceeds
  | error e w' =>
    rcases cases_of_run_error hrun with rfl | ⟨d, _, files, rfl, hremove, rfl⟩ |
      ⟨path, t, place, _, hsaves, hlocate, -, -, -, rfl⟩
    · exact .refl _ _
    · have hedits := edits_removeTree (hnames d (by simp [databases])) w
      rwa [hremove] at hedits
    · exact edits_of_saves (fun n hn => hnames n (by simp [hn])) hsaves hlocate _

end Command

/-! ### Statements -/

theorem Frame.of_run (hnames : ∀ n ∈ command.databases ++ command.tables, IsName n) :
    Ends (Frame w command) (command.run.run w) := by
  have hedits := Command.edits_of_run (w := w) hnames
  cases hrun : command.run.run w with
  | ok a w' =>
    rw [hrun] at hedits
    refine ⟨hedits, fun hlooks => Command.files_of_looks hlooks hrun, ?_⟩
    rw [session_of_run_ok hrun]
    exact w.session.after_eq_or_selects command
  | error e w' =>
    rw [hrun] at hedits
    refine ⟨hedits, fun hlooks => ?_, .inl (session_of_run_error hrun)⟩
    rcases cases_of_run_error hrun with rfl | ⟨d, _, _, rfl, -⟩ | ⟨_, _, _, _, hsaves, -⟩
    · rfl
    · cases hlooks
    · cases hsaves with
      | createTable => cases hlooks
      | change hchange => exact absurd hlooks (Command.not_looks_of_change? hchange)

/-- The world after a response is the world after the statement. -/
theorem World.next_eq (w : World) (text : String) :
    w.next text = match (execute text).run w with | .ok _ w' | .error _ w' => w' := by
  unfold next
  rw [run_respond]
  cases (execute text).run w with
  | ok a w' => rfl
  | error e w' => cases hreported : e.isReported <;> simp [hreported]

/-- A database that is made is empty if nothing was below its place. -/
theorem Frame.empty_database {d : String} (h : Frame w (.createDatabase d) w')
    (hnone : ∀ q, w.files.at? (w.databasePlace d ++ q) = none) {q : List String} (hq : q ≠ []) :
    w'.files.at? (w.databasePlace d ++ q) = none := by
  rcases h.files.at?_eq (w.databasePlace d ++ q) with hsame | ⟨hplace, -⟩
  · rw [hsame, hnone]
  · exact absurd (List.append_right_eq_self.1 hplace) hq

theorem World.next_of_parse_error {text : String} {e : StatementError}
    (h : Command.parse text = .error e) (w : World) : w.next text = w := by
  rw [next_eq, run_execute, h]

theorem Frame.of_parse {text : String} (h : Command.parse text = .ok command) (w : World) :
    Frame w command (w.next text) := by
  have hends := Frame.of_run (w := w) fun n hn => isName_of_parse h (List.mem_append_left _ hn)
  rw [World.next_eq, run_execute_of_parse h]
  cases hrun : command.run.run w <;> rwa [hrun] at hends

/-- Whether a statement of a run names a place, each in the world that it comes to. -/
def World.NamedIn (w : World) (q : List String) : List String → Prop
  | [] => False
  | text :: texts => (∃ command, Command.parse text = .ok command ∧ command.Names w q) ∨
    (w.next text).NamedIn q texts

/-- What no statement of a run names stays through the run. -/
theorem at?_run_of_not_namedIn {q : List String} {texts : List String}
    (h : ¬ w.NamedIn q texts) : (w.run texts).files.at? q = w.files.at? q := by
  induction texts generalizing w with
  | nil => rfl
  | cons text texts ih =>
    simp only [World.NamedIn, not_or] at h
    have hstep : (w.next text).files.at? q = w.files.at? q := by
      cases hparse : Command.parse text with
      | error e => rw [World.next_of_parse_error hparse]
      | ok command =>
        have hedit := (Frame.of_parse hparse w).files.at?_eq q
        exact hedit.resolve_right fun hq => h.1 ⟨command, hparse, hq.1⟩
    exact (ih h.2).trans hstep

/-- A statement changes no more than what its command names, and the session only if it is answered.
One that is no command changes nothing. -/
theorem frame_of_next (w : World) (text : String) :
    (∀ e, Command.parse text = .error e → w.next text = w) ∧
    ∀ command, Command.parse text = .ok command →
      Frame w command (w.next text) ∧
      ((w.next text).session = w.session ∨
        ∃ a : Answer, (respond text).run w = .ok a.text (w.next text)) ∧
      ∀ d, command = .createDatabase d →
        (∀ q, w.files.at? (w.databasePlace d ++ q) = none) →
        ∀ q ≠ [], (w.next text).files.at? (w.databasePlace d ++ q) = none := by
  refine ⟨fun e hparse => World.next_of_parse_error hparse w, fun command hparse => ?_⟩
  refine ⟨Frame.of_parse hparse w, ?_, ?_⟩
  · cases hrun : command.run.run w with
    | ok a w' =>
      have hexecute := (run_execute_of_parse hparse w).trans hrun
      have hnext : w.next text = w' := by rw [World.next_eq, hexecute]
      exact .inr ⟨a, hnext ▸ run_respond_of_ok hexecute⟩
    | error e w' =>
      have hexecute := (run_execute_of_parse hparse w).trans hrun
      have hnext : w.next text = w' := by rw [World.next_eq, hexecute]
      exact .inl (hnext ▸ session_of_run_error hrun)
  · rintro d rfl hnone q hq
    exact (Frame.of_parse hparse w).empty_database hnone hq

/-- A world with two databases, the second one selected. -/
def World.sampleTwo : World where
  session := ⟨⟨0, ["r"]⟩, some ⟨"b", ⟨0, ["r", "b"]⟩⟩⟩
  files := ⟨[], [(["r"], .directory), (["r", "a"], .directory),
    (["r", "a", "t.tab"], .file (.text "id\n")), (["r", "b"], .directory)], .utf8⟩

/-- The removal of the selected database leaves the other one, and nothing selected. -/
theorem frame_of_next_dropDatabase :
    (World.sampleTwo.next "DROP DATABASE b;").session.selected = none ∧
      (World.sampleTwo.next "DROP DATABASE b;").files.at? ["r", "b"] = none ∧
      (World.sampleTwo.next "DROP DATABASE b;").files.at? ["r", "a", "t.tab"] =
        some (.file (.text "id\n")) := by
  have hparse : Command.parse "DROP DATABASE b;" = .ok (.dropDatabase "b") := by decide +kernel
  have hplace : World.sampleTwo.databasePlace "b" = ["r", "b"] := rfl
  obtain ⟨hframe, -, -⟩ := (frame_of_next World.sampleTwo "DROP DATABASE b;").2 _ hparse
  refine ⟨by decide +kernel, by decide +kernel, ?_⟩
  rcases hframe.files.at?_eq ["r", "a", "t.tab"] with hsame | ⟨hnamed, -⟩
  · rw [hsame]
    rfl
  · change World.sampleTwo.databasePlace "b" <+: _ at hnamed
    rw [hplace] at hnamed
    exact absurd hnamed (by decide)

end Tabula
