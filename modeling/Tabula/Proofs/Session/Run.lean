import Mathlib.Data.List.Basic
import Tabula.Proofs.FileTree.Place
import Tabula.Proofs.Session.Effect

/-!
# Running operations

What each operation does to the world, as an equation for its run. An operation that only looks at
the world is written as `settle` of what it finds there.
-/

namespace Tabula

/-- The file of a table of the selected database. -/
def Session.tablePath (s : Session) (name : String) : Except Failure Path :=
  match s.selected with
  | none => .error (.operation .noDatabaseSelected)
  | some d => .ok (d.path.join (name ++ Operation.tableSuffix))

theorem Session.exists_selected_of_tablePath {s : Session} {name : String} {path : Path}
    (h : s.tablePath name = .ok path) :
    ∃ d, s.selected = some d ∧ path = d.path.join (name ++ Operation.tableSuffix) := by
  unfold tablePath at h
  split at h
  · cases h
  · rename_i d hselected
    cases h
    exact ⟨d, hselected, rfl⟩

theorem Session.tablePath_eq_error_iff {s : Session} {n : String} {e : Failure} :
    s.tablePath n = .error e ↔ s.selected = none ∧ e = .operation .noDatabaseSelected := by
  unfold tablePath
  cases s.selected <;> simp [eq_comm]

theorem IsName.isPart_file {name : String} (h : IsName name) :
    Path.IsPart (name ++ Operation.tableSuffix) :=
  h.isPart_append (by decide) (by decide)

/-- The table in a file. -/
def FileTree.table (files : FileTree) (name : String) (path : Path) : Except Failure Table := do
  if ← (files.isFile path).mapError .file then
    let content ← (files.readFile path).mapError fun e => .operation (.unreadable name e)
    let text ← content.read.mapError fun fault => .operation (.undecodable name fault)
    (Table.read name text).mapError .table
  else .error (.operation (.tableMissing name))

/-- A table of the selected database. -/
def World.table (w : World) (name : String) : Except Failure Table := do
  w.files.table name (← w.session.tablePath name)

theorem World.table_eq_error {w : World} (hselected : w.session.selected = none) (name : String) :
    w.table name = .error (.operation .noDatabaseSelected) := by
  rw [World.table, Session.tablePath_eq_error_iff.2 ⟨hselected, rfl⟩]
  rfl

theorem World.table_of_selected {w : World} {d : Selection} (hd : w.session.selected = some d)
    (name : String) :
    w.table name = w.files.table name (d.path.join (name ++ Operation.tableSuffix)) := by
  have hpath : w.session.tablePath name =
      .ok (d.path.join (name ++ Operation.tableSuffix)) := by rw [Session.tablePath, hd]
  rw [World.table, hpath, ok_bind]

namespace Answer

theorem text_eq (a : Answer) : ∃ rest, a.text = "[OK]\n" ++ rest := by
  refine ⟨String.join (a.lines.tail.map (· ++ "\n")), ?_⟩
  simp [text, lines]

/-- The response to a statement that goes well begins with a line that says so. -/
theorem ok_prefix (a : Answer) : "[OK]\n".toList <+: a.text.toList := by
  obtain ⟨rest, hrest⟩ := a.text_eq
  rw [hrest, String.toList_append]
  exact List.prefix_append _ _

theorem not_error_prefix (a : Answer) : ¬ "[ERROR]".toList <+: a.text.toList := by
  obtain ⟨rest, hrest⟩ := a.text_eq
  rw [hrest, String.toList_append]
  simp

end Answer

namespace Operation

variable {α β : Type} {w w' : World}

/-! ### Looking at the world -/

theorem run_settle (x : Except Failure α) (w : World) :
    (settle x).run w = match x with | .ok a => .ok a w | .error e => .error e w := by
  cases x <;> rfl

theorem run_settle_eq_ok_iff {x : Except Failure α} {a : α} :
    (settle x).run w = .ok a w' ↔ x = .ok a ∧ w' = w := by
  rw [run_settle]
  cases x <;> simp [eq_comm]

theorem run_settle_eq_error_iff {x : Except Failure α} {e : Failure} :
    (settle x).run w = .error e w' ↔ x = .error e ∧ w' = w := by
  rw [run_settle]
  cases x <;> simp [eq_comm]

theorem run_settle_bind (x : Except Failure α) (f : α → Operation β) (w : World) :
    (settle x >>= f).run w = match x with | .ok a => (f a).run w | .error e => .error e w := by
  cases x <;> rfl

theorem run_query (question : FileTree → Except FileError α) (w : World) :
    (query question).run w = (settle ((question w.files).mapError .file)).run w := by
  rw [← lift_eq]
  rfl

theorem run_tablePath (name : String) (w : World) :
    (tablePath name).run w = (settle (w.session.tablePath name)).run w := by
  unfold tablePath Session.tablePath
  rw [EStateM.run_bind, EStateM.run_get]
  dsimp only
  cases w.session.selected <;> rfl

theorem run_load (name : String) (path : Path) (w : World) :
    (load name path).run w = (settle (w.files.table name path)).run w := by
  unfold load FileTree.table
  rw [EStateM.run_bind, run_query]
  cases w.files.isFile path with
  | error e => rfl
  | ok there =>
    cases there with
    | false => rfl
    | true =>
      cases hread : w.files.readFile path with
      | error e => simp [settle_ok, hread, fail, settle_error]
      | ok content =>
        cases hdecode : content.read with
        | error fault => simp [settle_ok, hread, hdecode, fail, settle_error]
        | ok text => simp [settle_ok, hread, hdecode, lift_eq]

theorem run_readTable (name : String) (w : World) :
    (readTable name).run w = (settle (w.table name)).run w := by
  unfold readTable World.table
  rw [EStateM.run_bind, run_tablePath]
  cases w.session.tablePath name with
  | error e => rfl
  | ok path => exact run_load name path w

theorem run_selectFrom (name : String) (columns : Projection) (condition : Option String)
    (w : World) : (selectFrom name columns condition).run w =
      (settle (w.table name >>= Table.queried columns condition)).run w := by
  rw [selectFrom_eq, EStateM.run_bind, run_readTable]
  cases w.table name <;> rfl

theorem run_join (leftTable rightTable leftColumn rightColumn : String) (w : World) :
    (join leftTable rightTable leftColumn rightColumn).run w = (settle (do
      let left ← w.table leftTable
      let right ← w.table rightTable
      Table.joined leftColumn rightColumn left right)).run w := by
  rw [join_eq, EStateM.run_bind, run_readTable]
  cases w.table leftTable with
  | error e => rfl
  | ok left =>
    rw [settle_ok, EStateM.run_pure]
    dsimp only
    rw [EStateM.run_bind, run_readTable]
    simp only [ok_bind]
    cases w.table rightTable <;> rfl

theorem run_of_query? {command : Command}
    {answer : (String → Except Failure Table) → Except Failure Answer}
    (h : command.query? = some answer) (w : World) :
    command.run.run w = (settle (answer w.table)).run w := by
  cases command <;> cases h
  · exact run_selectFrom _ _ _ w
  · exact run_join _ _ _ _ w

/-! ### Changing the world -/

/-- A table is written, or the file cannot be or is left empty. -/
theorem run_store (t : Table) (path : Path) (a : α) (w : World) :
    (do store t path; return a : Operation α).run w =
      match w.files.writeFile path t.fileText with
      | (.ok _, files) => .ok a { w with files := files }
      | (.error e, files) => .error
        (if e.refusal.isOfSystem then .operation (.unwritable t.name e) else .file e)
        { w with files := files } := by
  rw [EStateM.run_bind]
  cases hwrite : w.files.writeFile path t.fileText with
  | mk outcome files =>
    cases outcome with
    | ok u => simp [store, hwrite]
    | error e => cases hsystem : e.refusal.isOfSystem <;> simp [store, hwrite, hsystem, fail]

theorem run_changeTable (name : String) (f : Table → Except Failure (Table × Answer)) (w : World) :
    (changeTable name f).run w =
      match w.session.tablePath name with
      | .error e => .error e w
      | .ok path =>
        match w.files.table name path >>= f with
        | .error e => .error e w
        | .ok (t, a) => (do store t path; return a : Operation Answer).run w := by
  unfold changeTable
  rw [EStateM.run_bind, run_tablePath]
  cases w.session.tablePath name with
  | error e => rfl
  | ok path =>
    rw [settle_ok, EStateM.run_pure]
    dsimp only
    rw [EStateM.run_bind, run_load]
    cases w.files.table name path with
    | error e => rfl
    | ok t =>
      rw [settle_ok, EStateM.run_pure, ok_bind]
      dsimp only
      rw [run_settle_bind]
      cases f t <;> rfl

/-- What a change of a table that goes well has read and written. -/
theorem exists_of_changeTable_ok {name : String} {f : Table → Except Failure (Table × Answer)}
    {a : Answer} (h : (changeTable name f).run w = .ok a w') :
    ∃ path t t' files, w.session.tablePath name = .ok path ∧ w.files.table name path = .ok t ∧
      f t = .ok (t', a) ∧ w.files.writeFile path t'.fileText = (.ok (), files) ∧
      w' = { w with files := files } := by
  rw [run_changeTable] at h
  split at h
  · cases h
  · rename_i path hpath
    split at h
    · cases h
    · rename_i t' b heffect
      obtain ⟨t, ht, hf⟩ := bind_eq_ok_iff.1 heffect
      rw [run_store] at h
      split at h
      · rename_i u files hwrite
        cases h
        exact ⟨path, t, t', files, hpath, ht, hf, hwrite, rfl⟩
      · cases h

theorem run_change (action : FileTree → Except FileError FileTree) (w : World) :
    (change action).run w =
      match action w.files with
      | .ok files => .ok () { w with files := files }
      | .error e => .error (.file e) w := by
  unfold change
  rw [EStateM.run_bind, run_query]
  cases action w.files <;> rfl

/-! ### Commands on databases -/

theorem run_useDatabase (name : String) (w : World) :
    (useDatabase name).run w =
      match w.files.isDirectory (w.session.root.join name) with
      | .error e => .error (.file e) w
      | .ok false => .error (.operation (.databaseMissing name)) w
      | .ok true => .ok {} { w with session := { w.session with
          selected := some ⟨name, w.session.root.join name⟩ } } := by
  unfold useDatabase databasePath
  simp only [EStateM.run_bind, EStateM.run_get, EStateM.run_pure, run_query]
  cases w.files.isDirectory (w.session.root.join name) with
  | error e => rfl
  | ok there => cases there <;> rfl

theorem run_createDatabase (name : String) (w : World) :
    (createDatabase name).run w =
      match w.files.hasEntry (w.session.root.join name) with
      | .error e => .error (.file e) w
      | .ok true => .error (.operation (.databaseExists name)) w
      | .ok false =>
        match w.files.makeDirectory (w.session.root.join name) with
        | .error e => .error (.file e) w
        | .ok files => .ok {} ⟨{ w.session with
            selected := some ⟨name, w.session.root.join name⟩ }, files⟩ := by
  unfold createDatabase databasePath
  simp only [EStateM.run_bind, EStateM.run_get, EStateM.run_pure, run_query]
  cases w.files.hasEntry (w.session.root.join name) with
  | error e => rfl
  | ok there =>
    cases there with
    | true => rfl
    | false =>
      simp only [mapError_ok, settle_ok, EStateM.run_pure, Bool.false_eq_true, if_false,
        EStateM.run_bind, run_change]
      cases w.files.makeDirectory (w.session.root.join name) <;> rfl

theorem run_createDatabase_of_error {name : String} {w : World} {e : FileError}
    (h : w.files.hasEntry (w.session.root.join name) = .error e) :
    (createDatabase name).run w = .error (.file e) w := by
  rw [run_createDatabase, h]

theorem run_removeTree (path : Path) (w : World) :
    (removeTree path).run w =
      match w.files.removeTree path with
      | (.error e, files) => .error (.file e) { w with files := files }
      | (.ok _, files) => .ok () { w with files := files } := by
  unfold removeTree
  rw [EStateM.run_bind, EStateM.run_get]
  dsimp only
  cases w.files.removeTree path with
  | mk outcome files => cases outcome <;> rfl

theorem run_dropDatabase (name : String) (w : World) :
    (dropDatabase name).run w =
      match w.files.isDirectory (w.session.root.join name) with
      | .error e => .error (.file e) w
      | .ok false => .error (.operation (.databaseMissing name)) w
      | .ok true =>
        match w.files.removeTree (w.session.root.join name) with
        | (.error e, files) => .error (.file e) { w with files := files }
        | (.ok _, files) => .ok {} ⟨{ w.session with
            selected := w.session.selected.filter (·.database ≠ name) }, files⟩ := by
  obtain ⟨⟨root, selected⟩, files⟩ := w
  unfold dropDatabase databasePath
  simp only [EStateM.run_bind, EStateM.run_get, EStateM.run_pure, run_query]
  cases files.isDirectory (root.join name) with
  | error e => rfl
  | ok there =>
    cases there with
    | false => rfl
    | true =>
      simp only [mapError_ok, settle_ok, EStateM.run_pure, if_true]
      rw [EStateM.run_bind, run_removeTree]
      dsimp only
      cases files.removeTree (root.join name) with
      | mk outcome after =>
        cases outcome with
        | error e => rfl
        | ok u =>
          dsimp only
          rw [EStateM.run_bind, EStateM.run_get]
          dsimp only
          cases selected with
          | none => rfl
          | some d =>
            rw [Option.any_some, Option.filter]
            by_cases hname : d.database = name
            · rw [if_pos (decide_eq_true hname), if_neg (by simpa using hname)]
              rfl
            · rw [if_neg (by simpa using hname), if_pos (decide_eq_true hname)]
              rfl

/-! ### The names of databases -/

/-- Each name is asked about in the files as they are. -/
theorem run_directories_cons (path : Path) (n : String) (ns : List String) (w : World) :
    (directories path (n :: ns)).run w =
      match w.files.isDirectory (path.join n) with
      | .error e => .error (.file e) w
      | .ok there =>
        match (directories path ns).run w with
        | .ok names w' => .ok (if there then n :: names else names) w'
        | .error e w' => .error e w' := by
  rw [directories, EStateM.run_bind, run_query]
  cases w.files.isDirectory (path.join n) with
  | error e => rfl
  | ok there =>
    rw [mapError_ok, settle_ok, EStateM.run_pure]
    dsimp only
    rw [EStateM.run_bind]
    cases (directories path ns).run w <;> rfl

theorem run_directories {path : Path} {p : String → Bool} {ns : List String} {w : World}
    (h : ∀ n ∈ ns, w.files.isDirectory (path.join n) = .ok (p n)) :
    (directories path ns).run w = .ok (ns.filter p) w := by
  induction ns with
  | nil => rfl
  | cons n ns ih =>
    rw [run_directories_cons, h n (by simp), ih fun m hm => h m (List.mem_cons_of_mem n hm)]
    cases hn : p n with
    | false => simp [hn]
    | true => simp [hn]

/-- The databases are listed if the root is. -/
theorem run_databases (w : World) :
    databases.run w =
      match w.files.list w.session.root with
      | .error e => .error (.file e) w
      | .ok children =>
        match (directories w.session.root (children.map Prod.fst)).run w with
        | .ok names w' => .ok (names.mergeSort (· ≤ ·)) w'
        | .error e w' => .error e w' := by
  unfold databases
  simp only [EStateM.run_bind, EStateM.run_get, run_query]
  cases w.files.list w.session.root with
  | error e => rfl
  | ok children =>
    simp only [mapError_ok, settle_ok, EStateM.run_pure]
    cases (directories w.session.root (children.map Prod.fst)).run w <;> rfl

/-! ### Commands on whole tables -/

/-- The table that is made of declared columns. -/
def newTable (name : String) (declared : List String) : Except Failure Table :=
  match repeated? [] (columnsOf declared) with
  | some column => .error (.operation (.repeatedColumn column))
  | none => .ok (Table.empty name (Table.idColumn :: columnsOf declared))

theorem run_createTable (name : String) (declared : List String) (w : World) :
    (createTable name declared).run w =
      match w.session.tablePath name with
      | .error e => .error e w
      | .ok path =>
        match w.files.hasEntry path with
        | .error e => .error (.file e) w
        | .ok true => .error (.operation (.tableExists name)) w
        | .ok false =>
          match newTable name declared with
          | .error e => .error e w
          | .ok t => (do store t path; return {} : Operation Answer).run w := by
  unfold createTable
  rw [EStateM.run_bind, run_tablePath]
  cases w.session.tablePath name with
  | error e => rfl
  | ok path =>
    simp only [settle_ok, EStateM.run_pure, EStateM.run_bind, run_query]
    cases w.files.hasEntry path with
    | error e => rfl
    | ok there =>
      cases there with
      | true => rfl
      | false =>
        unfold newTable
        simp only [mapError_ok, settle_ok, EStateM.run_pure, Bool.false_eq_true, if_false]
        cases repeated? [] (columnsOf declared) <;> rfl

theorem run_dropTable (name : String) (w : World) :
    (dropTable name).run w =
      match w.session.tablePath name with
      | .error e => .error e w
      | .ok path =>
        match w.files.isFile path with
        | .error e => .error (.file e) w
        | .ok false => .error (.operation (.tableMissing name)) w
        | .ok true =>
          match w.files.deleteFile path with
          | .error e => .error (.file e) w
          | .ok files => .ok {} { w with files := files } := by
  unfold dropTable
  rw [EStateM.run_bind, run_tablePath]
  cases w.session.tablePath name with
  | error e => rfl
  | ok path =>
    simp only [settle_ok, EStateM.run_pure, EStateM.run_bind, run_query]
    cases w.files.isFile path with
    | error e => rfl
    | ok there =>
      cases there with
      | false => rfl
      | true =>
        simp only [mapError_ok, settle_ok, EStateM.run_pure, if_true, EStateM.run_bind,
          run_change]
        cases w.files.deleteFile path <;> rfl

/-- No table is listed of a database that is gone. -/
theorem run_tables (w : World) :
    tables.run w =
      match w.session.selected with
      | none => .ok [] w
      | some d =>
        match w.files.isDirectory d.path with
        | .error e => .error (.file e) w
        | .ok false => .ok [] w
        | .ok true =>
          match w.files.list d.path with
          | .error e => .error (.file e) w
          | .ok children =>
            .ok ((children.filterMap fun c => tableOfFile? c.1).mergeSort (· ≤ ·)) w := by
  unfold tables
  simp only [EStateM.run_bind, EStateM.run_get]
  cases w.session.selected with
  | none => rfl
  | some d =>
    simp only [EStateM.run_bind, run_query]
    cases w.files.isDirectory d.path with
    | error e => rfl
    | ok there =>
      cases there with
      | false => rfl
      | true =>
        simp only [mapError_ok, settle_ok, EStateM.run_pure, if_true, EStateM.run_bind, run_query]
        cases w.files.list d.path <;> rfl

/-! ### Statements -/

theorem run_execute (text : String) (w : World) :
    (execute text).run w =
      match Command.parse text with
      | .error e => .error (.statement e) w
      | .ok command => command.run.run w := by
  unfold execute
  rw [lift_eq, run_settle_bind]
  cases Command.parse text <;> rfl

theorem run_execute_of_parse {text : String} {command : Command}
    (h : Command.parse text = .ok command) (w : World) :
    (execute text).run w = command.run.run w := by
  rw [run_execute, h]

/-- A response reports the answer, or the failure if it is one that responses report. -/
theorem run_respond (text : String) (w : World) :
    (respond text).run w =
      match (execute text).run w with
      | .ok a w' => .ok a.text w'
      | .error e w' =>
        if e.isReported then .ok s!"[ERROR] {e.message}\n" w' else .error e w' := by
  unfold respond
  cases h : execute text w with
  | ok a w' =>
    simp only [EStateM.run, bind, EStateM.bind, tryCatch, tryCatchThe, MonadExceptOf.tryCatch,
      EStateM.tryCatch, h]
    rfl
  | error e w' =>
    cases hreported : e.isReported with
    | false =>
      simp only [EStateM.run, bind, EStateM.bind, tryCatch, tryCatchThe, MonadExceptOf.tryCatch,
        EStateM.tryCatch, h, hreported, Bool.false_eq_true, if_false]
      rfl
    | true =>
      simp only [EStateM.run, bind, EStateM.bind, tryCatch, tryCatchThe, MonadExceptOf.tryCatch,
        EStateM.tryCatch, h, hreported, if_true]
      rfl

theorem run_respond_of_ok {text : String} {a : Answer} (h : (execute text).run w = .ok a w') :
    (respond text).run w = .ok a.text w' := by
  rw [run_respond, h]

theorem run_respond_of_error {text : String} {e : Failure}
    (h : (execute text).run w = .error e w') (he : e.isReported = true) :
    (respond text).run w = .ok s!"[ERROR] {e.message}\n" w' := by
  rw [run_respond, h]
  exact if_pos he

/-- Only an answer is reported in a response that begins with `[OK]`. -/
theorem exists_answer_of_respond {text response : String}
    (h : (respond text).run w = .ok response w') (hok : "[OK]".toList <+: response.toList) :
    ∃ a, (execute text).run w = .ok a w' ∧ response = a.text := by
  rw [run_respond] at h
  split at h
  · rename_i a after hexecute
    cases h
    exact ⟨a, hexecute, rfl⟩
  · split at h
    · cases h
      simp [toString] at hok
    · cases h

end Operation

/-! ### What holds in the end -/

/-- A property of the world in the end, whether an operation goes well or fails. -/
def Ends (P : World → Prop) {α : Type} : EStateM.Result Failure World α → Prop
  | .ok _ w | .error _ w => P w

/-- A response leaves the world as the command has left it. -/
theorem ends_respond {P : World → Prop} {w : World} {text : String} (hw : P w)
    (hrun : ∀ command, Command.parse text = .ok command → Ends P (command.run.run w)) :
    Ends P ((Operation.respond text).run w) := by
  rw [Operation.run_respond, Operation.run_execute]
  cases hparse : Command.parse text with
  | error e => exact hw
  | ok command =>
    have hends := hrun command hparse
    dsimp only
    cases hresult : command.run.run w with
    | ok a w' => rwa [hresult] at hends
    | error e w' =>
      rw [hresult] at hends
      dsimp only
      split <;> exact hends

/-! ### Reading what was written -/

namespace FileTree

variable {t t' : FileTree} {path : Path}

theorem table_of_readFile {text : String} (hfile : t.isFile path = .ok true)
    (hread : t.readFile path = .ok (.text text)) (name : String) :
    t.table name path = (Table.read name text).mapError .table := by
  unfold table
  simp [hfile, hread, Content.read]

theorem table_of_file {tab : Table} (htab : tab.Storable) (hfile : t.isFile path = .ok true)
    (hread : t.readFile path = .ok (.text tab.fileText)) :
    t.table tab.name path = .ok tab := by
  rw [table_of_readFile hfile hread, Table.read_fileText htab]
  rfl

/-- What is read as a table is a file. -/
theorem isFile_of_table {name : String} {tab : Table} (h : t.table name path = .ok tab) :
    t.isFile path = .ok true := by
  obtain ⟨there, hfile, h⟩ := bind_eq_ok_iff.1 h
  cases there with
  | false => cases h
  | true => exact mapError_eq_ok_iff.1 hfile

/-- What is read back is what the text that was written states. -/
theorem table_eq_of_writeFile {text : String} {u : Unit} (h : t.writeFile path text = (.ok u, t'))
    (name : String) : t'.table name path = (Table.read name text).mapError .table := by
  obtain ⟨hfile, hread⟩ := readFile_writeFile h
  exact table_of_readFile hfile hread name

/-- A table that can be stored is read back from the file that it was written to. -/
theorem table_of_writeFile {tab : Table} {u : Unit} (htab : tab.Storable)
    (h : t.writeFile path tab.fileText = (.ok u, t')) : t'.table tab.name path = .ok tab := by
  rw [table_eq_of_writeFile h, Table.read_fileText htab]
  rfl

end FileTree

/-! ### A small world -/

/-- A world with one database, which is selected, and one file in it. -/
def World.sampleWith (encoding : Text.Encoding) (content : String) : World where
  session := ⟨⟨0, ["r"]⟩, some ⟨"d", ⟨0, ["r", "d"]⟩⟩⟩
  files := ⟨[], [(["r"], .directory), (["r", "d"], .directory),
    (["r", "d", "t.tab"], .file (.text content))], encoding⟩

/-- The same world without undecoded bytes. -/
def World.sample (content : String) : World := sampleWith .utf8 content

namespace World

theorem tablePath_sampleWith (e : Text.Encoding) (content : String) :
    (sampleWith e content).session.tablePath "t" = .ok ⟨0, ["r", "d", "t.tab"]⟩ := by
  rfl

theorem locate_sampleWith (e : Text.Encoding) (content : String) :
    (sampleWith e content).files.locate ⟨0, ["r", "d", "t.tab"]⟩ = .ok ["r", "d", "t.tab"] := by
  have hpath : (toString (⟨0, ["r", "d", "t.tab"]⟩ : Path)).utf8ByteSize ≤ FileTree.maxPath := by
    decide
  have hnames : ∀ n ∈ ["r", "d", "t.tab"], n.utf8ByteSize ≤ FileTree.maxName := by decide
  have hshort : ∀ n ∈ ["r", "d", "t.tab"], ¬ FileTree.maxName < e.size n := fun n hn =>
    Nat.not_lt.2 (Nat.le_trans (e.size_le n) (hnames n hn))
  refine FileTree.locate_eq_ok_iff.2 ⟨by decide, Nat.le_trans (e.size_le _) hpath, ?_⟩
  simp only [List.forall_mem_cons] at hshort
  simp [sampleWith, FileTree.follow, FileTree.at?, List.lookup_cons, hshort]

theorem at?_sampleWith (e : Text.Encoding) (content : String) :
    (sampleWith e content).files.at? ["r", "d", "t.tab"] = some (.file (.text content)) := rfl

theorem fileTable_sampleWith {e : Text.Encoding} {content : String} (h : e.Encodes content) :
    (sampleWith e content).files.table "t" ⟨0, ["r", "d", "t.tab"]⟩ =
      (Table.read "t" content).mapError .table := by
  unfold FileTree.table
  rw [FileTree.isFile_of_file (locate_sampleWith e content) (at?_sampleWith e content),
    FileTree.readFile_eq (locate_sampleWith e content) (at?_sampleWith e content)]
  change (do
    let text ← ((Content.text content).found e).read.mapError fun fault =>
      Failure.operation (.undecodable "t" fault)
    (Table.read "t" text).mapError Failure.table) = _
  rw [Content.found_text h]
  rfl

theorem writeFile_sampleWith (e : Text.Encoding) (content s : String) :
    (sampleWith e content).files.writeFile ⟨0, ["r", "d", "t.tab"]⟩ s = match e.fault? s with
      | none => (.ok (), (sampleWith e s).files)
      | some fault => (.error ⟨.unencodable fault, ⟨0, ["r", "d", "t.tab"]⟩, e⟩,
        (sampleWith e "").files) := by
  rw [FileTree.writeFile_eq_match (locate_sampleWith e content) s
    (by rw [at?_sampleWith]; simp)]
  rfl

theorem tablePath_sample (content : String) :
    (sample content).session.tablePath "t" = .ok ⟨0, ["r", "d", "t.tab"]⟩ :=
  tablePath_sampleWith _ content

theorem fileTable_sample (content : String) :
    (sample content).files.table "t" ⟨0, ["r", "d", "t.tab"]⟩ =
      (Table.read "t" content).mapError .table :=
  fileTable_sampleWith (Text.Encoding.encodes_utf8 content)

theorem table_sample (content : String) :
    (sample content).table "t" = (Table.read "t" content).mapError .table := by
  unfold World.table
  rw [tablePath_sample, ok_bind, fileTable_sample]

theorem writeFile_sample (content s : String) :
    (sample content).files.writeFile ⟨0, ["r", "d", "t.tab"]⟩ s = (.ok (), (sample s).files) := by
  rw [sample, writeFile_sampleWith,
    Text.Encoding.fault?_eq_none_iff.2 (Text.Encoding.encodes_utf8 s)]
  rfl

end World

end Tabula
