import Mathlib.Algebra.GroupWithZero.Nat
import Tabula.Proofs.Session.Site

/-!
# Files as memory

A session on an empty directory does what the same statements do with databases in memory: each
statement has the same outcome, and the names that are listed are those in memory
(`executeAll_eq_memory`). Each command does with the files what it does in memory
(`Site.Holds.agrees_run`), since a table is read back as it was written.

This goes as far as the paths are short enough for the files and the values can be encoded. A
database with a path that is too long is made in memory only, and so is a row with a value that has
an undecoded byte (`executeAll_ne_memory`).
-/

namespace Tabula

open Operation (tableSuffix)
open FileTree (SameOutside)

namespace Site

variable {S : Site} {w : World} {m : Memory} {d n : String}

/-! ### Commands -/

/-- A session has the same outcome as memory, and its files hold what is in memory then. -/
def Agrees (S : Site) (m : Memory) (result : EStateM.Result Failure World Answer) :
    Except Failure (Answer × Memory) → Prop
  | .ok (a, m') => ∃ w', result = .ok a w' ∧ S.Holds w' m'
  | .error e => ∃ w', result = .error e w' ∧ S.Holds w' m

/-- There is room for the databases and tables that a command names, and its values are plain and
can be encoded. -/
structure Admits (S : Site) (command : Command) : Prop where
  databases : ∀ d ∈ command.databases, d ∈ S.databases
  tables : ∀ n ∈ command.tables, n ∈ S.tables
  isName : ∀ n ∈ command.databases ++ command.tables ++ command.newColumns, IsName n
  plain : ∀ v ∈ command.values, Text.Plain v
  encodes : ∀ v ∈ command.values, S.files.encoding.Encodes v

namespace Holds

open Operation

variable {a : Answer} {e : Failure}

section

variable (h : S.Holds w m)

include h

theorem agrees_settle (x : Except Failure Answer) :
    S.Agrees m ((settle x).run w) (do return (← x, m)) := by
  cases x with
  | error e => exact ⟨w, rfl, h⟩
  | ok a => exact ⟨w, rfl, h⟩

theorem agrees_useDatabase (hd : d ∈ S.databases) (hname : IsName d) :
    S.Agrees m ((Operation.useDatabase d).run w) (m.run (.use d)) := by
  rw [run_useDatabase, h.isDirectory_database hd hname, Memory.run]
  by_cases hmem : d ∈ m.databases
  · rw [if_pos hmem, decide_eq_true hmem]
    exact ⟨_, rfl, h.useDatabase d⟩
  · rw [if_neg hmem, decide_eq_false hmem]
    exact ⟨w, rfl, h⟩

theorem agrees_createDatabase (hd : d ∈ S.databases) (hname : IsName d) :
    S.Agrees m ((Operation.createDatabase d).run w) (m.run (.createDatabase d)) := by
  rw [run_createDatabase, h.hasEntry_database hd hname, Memory.run]
  by_cases hmem : d ∈ m.databases
  · rw [if_pos hmem, decide_eq_true hmem]
    exact ⟨w, rfl, h⟩
  · have hentry : w.files.at? (S.place ++ [d]) = none := by rw [h.database, if_neg hmem]
    rw [if_neg hmem, decide_eq_false hmem,
      FileTree.makeDirectory_eq (h.locate_database hd hname) hentry]
    exact ⟨_, rfl, h.createDatabase hd hmem⟩

/-- What is above a database stays while the database is cleared. -/
theorem removeTree_eq (hmem : d ∈ m.databases) (hname : IsName d) :
    w.files.removeTree (w.session.root.join d) = (.ok (), w.files.remove (S.place ++ [d])) := by
  have hd := h.known d hmem
  have hdirectory : w.files.at? (S.place ++ [d]) = some .directory := by
    rw [h.database, if_pos hmem]
  have hsame : SameOutside S.place w.files (w.files.clear (S.place ++ [d])) :=
    SameOutside.clear w.files (by simp)
  have hcleared : (w.files.clear (S.place ++ [d])).locate (w.session.root.join d) =
      .ok (S.place ++ [d]) := by
    obtain ⟨hsize, hpath⟩ := S.room.database d hd
    have hroot := (h.outside.trans hsame).kept S.empty
    rw [← hroot.encoding] at hsize hpath
    rw [h.root]
    exact FileTree.locate_join (FileTree.locate_of_kept hroot S.locate_root)
      (hroot.directory _ S.directory) hname.isPart hsize hpath
  refine FileTree.removeTree_eq (h.locate_database hd hname) hdirectory ?_ hcleared
  rw [Path.join_of_isPart hname.isPart]
  simp

theorem agrees_dropDatabase (hd : d ∈ S.databases) (hname : IsName d) :
    S.Agrees m ((Operation.dropDatabase d).run w) (m.run (.dropDatabase d)) := by
  rw [run_dropDatabase, h.isDirectory_database hd hname, Memory.run]
  by_cases hmem : d ∈ m.databases
  · rw [if_pos hmem, decide_eq_true hmem]
    dsimp only
    rw [h.removeTree_eq hmem hname]
    exact ⟨_, rfl, h.dropDatabase⟩
  · rw [if_neg hmem, decide_eq_false hmem]
    exact ⟨w, rfl, h⟩

variable (hm : m.Sound) (hn : n ∈ S.tables) (hname : IsName n)

include hm hn hname

/-- The file of a table is read back as the table. -/
theorem fileTable_eq (hd : d ∈ m.databases) : w.files.table n (S.tablePath d n) =
    match m.table? d n with
    | none => .error (.operation (.tableMissing n))
    | some t => .ok t := by
  have hlocate := h.locate_table hd (hm.isName_database d hd) hn hname
  have hentry := h.table d n
  cases hfound : m.table? d n with
  | none =>
    rw [hfound] at hentry
    unfold FileTree.table
    rw [FileTree.isFile_of_not_file hlocate (by simp [hentry])]
    rfl
  | some t =>
    rw [hfound] at hentry
    obtain rfl := hm.name_eq hfound
    have hencodes := Table.encodes_fileText_iff.2 (h.encoded hfound)
    rw [← h.outside.encoding] at hencodes
    exact FileTree.table_of_file (hm.sound_table hfound).toStorable
      (FileTree.isFile_of_file hlocate hentry) (FileTree.readFile_eq_text hlocate hentry hencodes)

theorem table_eq : w.table n = m.table n := by
  unfold World.table Memory.table Memory.current
  cases hselected : m.selected with
  | none => rw [h.tablePath_eq_error hselected]; rfl
  | some d =>
    rw [h.tablePath_eq hselected, ok_bind, ok_bind]
    exact h.fileTable_eq hm hn hname (hm.mem_of_selected d hselected)

theorem agrees_store (hd : d ∈ m.databases) {t : Table} (ht : t.Encoded S.files.encoding)
    (a : Answer) :
    S.Agrees m ((do store t (S.tablePath d n); return a : Operation Answer).run w)
      (.ok (a, m.setTable d n t)) := by
  have hlocate := h.locate_table hd (hm.isName_database d hd) hn hname
  have hentry : w.files.at? (S.place ++ [d, n ++ tableSuffix]) ≠ some .directory := by
    rw [h.table]
    cases m.table? d n <;> simp
  have hencodes := Table.encodes_fileText_iff.2 ht
  rw [← h.outside.encoding] at hencodes
  rw [run_store, FileTree.writeFile_eq hlocate hencodes hentry]
  exact ⟨_, rfl, h.setTable hd n ht⟩

theorem agrees_changeTable {f : Table → Except Failure (Table × Answer)}
    (hf : ∀ {t t' a}, t.Sound → t.Encoded S.files.encoding → f t = .ok (t', a) →
      t'.Encoded S.files.encoding) :
    S.Agrees m ((changeTable n f).run w) (m.change n f) := by
  rw [run_changeTable]
  unfold Memory.change Memory.table Memory.current
  cases hselected : m.selected with
  | none =>
    rw [h.tablePath_eq_error hselected]
    exact ⟨w, rfl, h⟩
  | some d =>
    have hd := hm.mem_of_selected d hselected
    rw [h.tablePath_eq hselected]
    simp only [ok_bind]
    rw [h.fileTable_eq hm hn hname hd]
    cases hfound : m.table? d n with
    | none => exact ⟨w, rfl, h⟩
    | some t =>
      simp only [ok_bind]
      cases hft : f t with
      | error e => exact ⟨w, rfl, h⟩
      | ok result =>
        exact h.agrees_store hm hn hname hd (hf (hm.sound_table hfound) (h.encoded hfound) hft)
          result.2

theorem agrees_createTable {columns : List String}
    (hcolumns : ∀ c ∈ columns, S.files.encoding.Encodes c) :
    S.Agrees m ((Operation.createTable n columns).run w) (m.run (.createTable n columns)) := by
  rw [run_createTable]
  unfold Memory.run Memory.current
  cases hselected : m.selected with
  | none =>
    rw [h.tablePath_eq_error hselected]
    exact ⟨w, rfl, h⟩
  | some d =>
    have hd := hm.mem_of_selected d hselected
    rw [h.tablePath_eq hselected]
    dsimp only
    rw [FileTree.hasEntry_eq (h.locate_table hd (hm.isName_database d hd) hn hname), h.table,
      Option.isSome_map, ok_bind]
    cases (m.table? d n).isSome with
    | true => exact ⟨w, rfl, h⟩
    | false =>
      cases hnew : newTable n columns with
      | error e => exact ⟨w, rfl, h⟩
      | ok t =>
        exact h.agrees_store hm hn hname hd (Table.encoded_of_newTable hcolumns hnew) {}

theorem agrees_dropTable :
    S.Agrees m ((Operation.dropTable n).run w) (m.run (.dropTable n)) := by
  rw [run_dropTable]
  unfold Memory.run Memory.current
  cases hselected : m.selected with
  | none =>
    rw [h.tablePath_eq_error hselected]
    exact ⟨w, rfl, h⟩
  | some d =>
    have hd := hm.mem_of_selected d hselected
    have hlocate := h.locate_table hd (hm.isName_database d hd) hn hname
    have hentry := h.table d n
    rw [h.tablePath_eq hselected]
    dsimp only [ok_bind]
    cases hfound : m.table? d n with
    | none =>
      rw [hfound] at hentry
      rw [FileTree.isFile_of_not_file hlocate (by simp [hentry])]
      exact ⟨w, rfl, h⟩
    | some t =>
      rw [hfound] at hentry
      rw [FileTree.isFile_of_file hlocate hentry]
      dsimp only
      rw [FileTree.deleteFile_eq hlocate hentry]
      exact ⟨_, rfl, h.eraseTable hd n⟩

end

/-- Each command does with the files what it does in memory. -/
theorem agrees_run (h : S.Holds w m) (hm : m.Sound) {command : Command} (hc : S.Admits command) :
    S.Agrees m (command.run.run w) (m.run command) := by
  have hdatabase : ∀ d ∈ command.databases, d ∈ S.databases ∧ IsName d :=
    fun d hd => ⟨hc.databases d hd, hc.isName d (by simp [hd])⟩
  have htable : ∀ n ∈ command.tables, n ∈ S.tables ∧ IsName n :=
    fun n hn => ⟨hc.tables n hn, hc.isName n (by simp [hn])⟩
  have hcolumns : ∀ c ∈ command.newColumns, S.files.encoding.Encodes c :=
    fun c hcolumn => (hc.isName c (by simp [hcolumn])).encodes
  cases command using Command.casesOnEffect with
  | use d =>
    obtain ⟨hd, hname⟩ := hdatabase d (by simp [Command.databases])
    exact h.agrees_useDatabase hd hname
  | createDatabase d =>
    obtain ⟨hd, hname⟩ := hdatabase d (by simp [Command.databases])
    exact h.agrees_createDatabase hd hname
  | dropDatabase d =>
    obtain ⟨hd, hname⟩ := hdatabase d (by simp [Command.databases])
    exact h.agrees_dropDatabase hd hname
  | createTable n columns =>
    obtain ⟨hn, hname⟩ := htable n (by simp [Command.tables])
    exact h.agrees_createTable hm hn hname hcolumns
  | dropTable n =>
    obtain ⟨hn, hname⟩ := htable n (by simp [Command.tables])
    exact h.agrees_dropTable hm hn hname
  | change command n f hchange =>
    obtain ⟨hn, hname⟩ := htable n (Command.mem_tables_of_change? hchange)
    rw [Command.run_of_change? hchange, Memory.run_of_change? hchange]
    exact h.agrees_changeTable hm hn hname fun ht hencoded hf =>
      Command.encoded_of_change? hchange ht.toStorable hencoded hcolumns hc.encodes hf
  | query command answer hquery =>
    have htables := Command.query?_congr hquery
      fun n hn => h.table_eq hm (htable n hn).1 (htable n hn).2
    rw [run_of_query? hquery, Memory.run_of_query? hquery, htables]
    exact h.agrees_settle _

end Holds

/-! ### Statements -/

theorem Holds.agrees_execute (h : S.Holds w m) (hm : m.Sound) {text : String}
    (hadmits : ∀ command, Command.parse text = .ok command → S.Admits command) :
    S.Agrees m ((Operation.execute text).run w) (m.execute text) := by
  rw [Operation.run_execute]
  unfold Memory.execute
  cases hparse : Command.parse text with
  | error e => exact ⟨w, rfl, h⟩
  | ok command => exact h.agrees_run hm (hadmits command hparse)

theorem Admits.sound_execute {text : String} {a : Answer} {m' : Memory}
    (hadmits : ∀ command, Command.parse text = .ok command → S.Admits command) (hm : m.Sound)
    (h : m.execute text = .ok (a, m')) : m'.Sound := by
  obtain ⟨command, hparse, h⟩ := bind_eq_ok_iff.1 h
  have hc := hadmits command (mapError_eq_ok_iff.1 hparse)
  exact hm.run hc.isName hc.plain h

end Site

namespace Operation

/-- What comes of statements, one after the other, and the world after them. -/
def executeAll : List String → World → List (Except Failure Answer) × World
  | [], w => ([], w)
  | text :: texts, w =>
    match (execute text).run w with
    | .ok a w' =>
      let (outcomes, after) := executeAll texts w'
      (.ok a :: outcomes, after)
    | .error e w' =>
      let (outcomes, after) := executeAll texts w'
      (.error e :: outcomes, after)

end Operation

open Operation (executeAll)

namespace Site

variable {S : Site} {w : World} {m : Memory}

/-- Statements have the same outcomes as in memory, and the files hold what is in memory after
them. -/
theorem Holds.executeAll (h : S.Holds w m) (hm : m.Sound) {texts : List String}
    (hadmits : ∀ text ∈ texts, ∀ command, Command.parse text = .ok command → S.Admits command) :
    (executeAll texts w).1 = (m.executeAll texts).1 ∧
      S.Holds (executeAll texts w).2 (m.executeAll texts).2 ∧ (m.executeAll texts).2.Sound := by
  induction texts generalizing w m with
  | nil => exact ⟨rfl, h, hm⟩
  | cons text texts ih =>
    have htext := hadmits text (by simp)
    have htexts := fun t ht => hadmits t (List.mem_cons_of_mem text ht)
    have hagrees := h.agrees_execute hm htext
    rw [Operation.executeAll, Memory.executeAll]
    cases hexecute : m.execute text with
    | error e =>
      rw [hexecute] at hagrees
      obtain ⟨w', hrun, h'⟩ := hagrees
      obtain ⟨houtcomes, hrest⟩ := ih h' hm htexts
      rw [hrun]
      exact ⟨congrArg _ houtcomes, hrest⟩
    | ok result =>
      rw [hexecute] at hagrees
      obtain ⟨w', hrun, h'⟩ := hagrees
      have hm' := Admits.sound_execute htext hm hexecute
      obtain ⟨houtcomes, hrest⟩ := ih h' hm' htexts
      rw [hrun]
      exact ⟨congrArg _ houtcomes, hrest⟩

end Site

/-! ### Sessions on an empty directory -/

/-- The path leads to a directory with nothing below it. -/
def FileTree.IsEmptyAt (t : FileTree) (p : Path) : Prop :=
  ∃ place, t.locate p = .ok place ∧ t.at? place = some .directory ∧
    ∀ q ≠ [], t.at? (place ++ q) = none

namespace Operation

/-- The commands that texts are, those that are commands. -/
def commands (texts : List String) : List Command :=
  texts.filterMap fun text => (Command.parse text).toOption

theorem mem_commands {texts : List String} {text : String} (htext : text ∈ texts)
    {command : Command} (h : Command.parse text = .ok command) : command ∈ commands texts :=
  List.mem_filterMap.2 ⟨text, htext, by rw [h]; rfl⟩

theorem session_of_start {root : Path} {files t : FileTree} {s : Session}
    (h : Session.start root files = (.ok s, t)) : s = ⟨root, none⟩ := by
  unfold Session.start at h
  split at h
  · cases h
    rfl
  · cases h

/-- A session that starts on an empty directory answers any statements as memory does, and lists the
names that are in memory, if there is room for the databases and tables that are named, and the
values are plain and can be encoded. -/
theorem executeAll_eq_memory {root : Path} {files t : FileTree} {s : Session}
    (hstart : Session.start root files = (.ok s, t)) (hempty : t.IsEmptyAt root)
    {texts : List String} (hplain : ∀ c ∈ commands texts, ∀ v ∈ c.values, Text.Plain v)
    (hencodes : ∀ c ∈ commands texts, ∀ v ∈ c.values, t.encoding.Encodes v)
    (hroom : Room t.encoding root ((commands texts).flatMap Command.databases)
      ((commands texts).flatMap Command.tables)) :
    let (outcomes, w) := executeAll texts ⟨s, t⟩
    let (expected, m) := Memory.empty.executeAll texts
    outcomes = expected ∧ databases.run w = .ok m.databaseNames w ∧
      tables.run w = .ok m.tableNames w := by
  obtain rfl := session_of_start hstart
  obtain ⟨place, hlocate, hdirectory, hbelow⟩ := hempty
  let S : Site := ⟨root, t, place, _, _, hlocate, hdirectory, hbelow, hroom⟩
  have hadmits : ∀ text ∈ texts, ∀ command, Command.parse text = .ok command →
      S.Admits command := by
    intro text htext command hparse
    have hmem := mem_commands htext hparse
    exact ⟨fun d hd => List.mem_flatMap.2 ⟨command, hmem, hd⟩,
      fun n hn => List.mem_flatMap.2 ⟨command, hmem, hn⟩,
      fun n hn => isName_of_parse hparse hn, hplain command hmem, hencodes command hmem⟩
  obtain ⟨houtcomes, hholds, hsound⟩ := S.holds_empty.executeAll Memory.sound_empty hadmits
  exact ⟨houtcomes, hholds.run_databases hsound, hholds.run_tables hsound⟩

/-- Statements on a new database, the last of which fails. -/
def sampleStatements : List String :=
  ["CREATE DATABASE d;", "CREATE TABLE t (a);", "INSERT INTO t VALUES ('two words');",
    "SELECT * FROM t;", "SELECT * FROM u;"]

theorem commands_sample : commands sampleStatements =
    [.createDatabase "d", .createTable "t" ["a"], .insert "t" ["two words"],
      .select "t" .all none, .select "u" .all none] := by
  decide +kernel

theorem executeAll_eq_memory_sample : ∃ s t,
    Session.start ⟨0, ["r"]⟩ .empty = (.ok s, t) ∧ t.IsEmptyAt ⟨0, ["r"]⟩ ∧
    (executeAll sampleStatements ⟨s, t⟩).1 = [.ok {}, .ok {}, .ok {},
      .ok { columns := ["id", "a"], rows := [["1", "two words"]] },
      .error (.operation (.tableMissing "u"))] := by
  have hstart : Session.start ⟨0, ["r"]⟩ .empty =
      (.ok ⟨⟨0, ["r"]⟩, none⟩, ⟨[], [(["r"], .directory)], .utf8⟩) := by decide +kernel
  have hlocate : (⟨[], [(["r"], .directory)], .utf8⟩ : FileTree).locate ⟨0, ["r"]⟩ =
      .ok ["r"] := rfl
  have hempty : (⟨[], [(["r"], .directory)], .utf8⟩ : FileTree).IsEmptyAt ⟨0, ["r"]⟩ := by
    refine ⟨["r"], hlocate, rfl, fun q hq => ?_⟩
    cases q with
    | nil => exact absurd rfl hq
    | cons n q => rfl
  have hplain : ∀ c ∈ commands sampleStatements, ∀ v ∈ c.values, Text.Plain v := by
    rw [commands_sample]
    decide
  have hroom : Room .utf8 ⟨0, ["r"]⟩ ((commands sampleStatements).flatMap Command.databases)
      ((commands sampleStatements).flatMap Command.tables) := by
    rw [commands_sample]
    exact ⟨by decide, by decide⟩
  have hmemory : (Memory.empty.executeAll sampleStatements).1 = [.ok {}, .ok {}, .ok {},
      .ok { columns := ["id", "a"], rows := [["1", "two words"]] },
      .error (.operation (.tableMissing "u"))] := by decide +kernel
  obtain ⟨houtcomes, -⟩ := executeAll_eq_memory hstart hempty hplain
    (fun _ _ v _ => Text.Encoding.encodes_utf8 v) hroom
  exact ⟨_, _, hstart, hempty, houtcomes.trans hmemory⟩

end Operation

/-! ### A path that is too long -/

theorem Path.utf8ByteSize_intercalate (n : String) (names : List String) :
    ("/".intercalate (n :: names)).utf8ByteSize + 1 =
      ((n :: names).map fun n => n.utf8ByteSize + 1).sum := by
  induction names generalizing n with
  | nil => simp
  | cons m names ih =>
    have hslash : "/".utf8ByteSize = 1 := rfl
    rw [String.intercalate_cons_cons, String.utf8ByteSize_append, String.utf8ByteSize_append,
      List.map_cons, List.sum_cons, ← ih m, hslash]
    omega

/-- A path has the bytes of its names and those of the slashes between them. -/
theorem Path.utf8ByteSize_toString {n : String} (hn : n ≠ "") (names : List String) :
    (toString (⟨0, n :: names⟩ : Path)).utf8ByteSize + 1 =
      ((n :: names).map fun n => n.utf8ByteSize + 1).sum := by
  have hne : "/".intercalate (n :: names) ≠ "" := by
    intro h
    cases names with
    | nil => exact hn (by simpa using h)
    | cons m names => simp [String.intercalate_cons_cons] at h
  rw [← utf8ByteSize_intercalate]
  change (if "" ++ "/".intercalate (n :: names) = "" then "."
    else "" ++ "/".intercalate (n :: names)).utf8ByteSize + 1 = _
  rw [String.empty_append, if_neg hne]

/-- A session starts on a directory that is there. -/
theorem Session.start_of_directory {root : Path} {files : FileTree} {place : List String}
    (hlocate : files.locate root = .ok place) (h : files.at? place = some .directory) :
    Session.start root files = (.ok ⟨root, none⟩, files) := by
  unfold Session.start
  rw [FileTree.makeDirectories, FileTree.makeDirectory_eq_error hlocate h]
  simp [FileTree.makeDirectories.settle, FileTree.isDirectory_eq hlocate, h]

/-- A name as long as names can be. -/
def longName : String := String.ofList (List.replicate 255 'a')

/-- A path as long as paths can be. -/
def longRoot : Path := ⟨0, List.replicate 16 longName⟩

theorem toList_longName : longName.toList = List.replicate 255 'a' := String.toList_ofList

theorem utf8ByteSize_longName : longName.utf8ByteSize = 255 := by
  have hsize : ∀ k, (String.ofList (List.replicate k 'a')).utf8ByteSize = k := by
    intro k
    induction k with
    | zero => rfl
    | succ k ih =>
      have ha : (String.singleton 'a').utf8ByteSize = 1 := by decide
      rw [List.replicate_succ, String.ofList_cons, String.utf8ByteSize_append, ih, ha]
      omega
  exact hsize 255

theorem not_mem_longName {c : Char} (hc : c ≠ 'a') : c ∉ longName.toList := by
  rw [toList_longName]
  exact fun h => hc (List.eq_of_mem_replicate h)

theorem longName_ne {s : String} (hs : 'a' ∉ s.toList) : longName ≠ s := by
  rintro rfl
  rw [toList_longName] at hs
  exact hs (List.mem_replicate.2 ⟨by decide, rfl⟩)

theorem utf8ByteSize_longRoot : (toString longRoot).utf8ByteSize = FileTree.maxPath := by
  have hsize := Path.utf8ByteSize_toString (longName_ne (s := "") (by simp))
    (List.replicate 15 longName)
  rw [← List.replicate_succ, List.map_replicate, List.sum_replicate_nat,
    utf8ByteSize_longName] at hsize
  change (toString longRoot).utf8ByteSize + 1 = _ at hsize
  simp only [FileTree.maxPath]
  omega

theorem utf8ByteSize_longRoot_join : (toString (longRoot.join "d")).utf8ByteSize = 4097 := by
  have hsize := Path.utf8ByteSize_toString (longName_ne (s := "") (by simp))
    (List.replicate 15 longName ++ ["d"])
  have hpart : Path.IsPart "d" := ⟨by decide, by decide, by decide, by decide, by decide⟩
  have hd : "d".utf8ByteSize = 1 := rfl
  rw [← List.cons_append, ← List.replicate_succ, List.map_append, List.map_replicate,
    List.sum_append_nat, List.sum_replicate_nat, utf8ByteSize_longName, List.map_singleton,
    List.sum_singleton, hd] at hsize
  rw [Path.join_of_isPart hpart]
  change (toString (⟨0, longRoot.names ++ ["d"]⟩ : Path)).utf8ByteSize + 1 = _ at hsize
  change (toString (⟨0, longRoot.names ++ ["d"]⟩ : Path)).utf8ByteSize = _
  omega

theorem nullFree_longRoot : longRoot.NullFree := by
  rw [Path.nullFree_iff]
  intro n hn
  rw [List.eq_of_mem_replicate hn]
  exact not_mem_longName (by decide)

theorem locate_longRoot :
    (FileTree.nested longName 16).locate longRoot = .ok (List.replicate 16 longName) := by
  have hpath : (FileTree.nested longName 16).encoding.size (toString longRoot) ≤
      FileTree.maxPath := by
    rw [FileTree.encoding_nested, Text.Encoding.size_utf8, utf8ByteSize_longRoot]
  refine FileTree.locate_eq_ok_iff.2 ⟨nullFree_longRoot, hpath, ?_⟩
  have hdots : longName ≠ ".." := longName_ne (by decide)
  have hsize : longName.utf8ByteSize ≤ FileTree.maxName := Nat.le_of_eq utf8ByteSize_longName
  exact FileTree.follow_nested hdots hsize (i := 0) (Nat.le_refl 16)

theorem isEmptyAt_longRoot : (FileTree.nested longName 16).IsEmptyAt longRoot := by
  refine ⟨_, locate_longRoot, ?_, fun q hq => ?_⟩
  · rw [FileTree.at?_nested, if_pos]
    simp
  · have hpos := List.length_pos_iff.2 hq
    rw [FileTree.at?_nested, if_neg]
    simp only [List.length_append, List.length_replicate, not_and]
    omega

namespace Operation

theorem parse_createDatabase_d :
    Command.parse "CREATE DATABASE d;" = .ok (.createDatabase "d") := by
  decide +kernel

/-- A directory below the longest path cannot be made. -/
theorem execute_long : (execute "CREATE DATABASE d;").run
    ⟨⟨longRoot, none⟩, .nested longName 16⟩ =
      .error (.file ⟨.nameTooLong, longRoot.join "d", .utf8⟩)
        ⟨⟨longRoot, none⟩, .nested longName 16⟩ := by
  have hname : IsName "d" := isName_of_parse parse_createDatabase_d (by simp [Command.databases])
  have hnull := nullFree_longRoot.join hname.isPart
  have hencoding := @FileTree.encoding_nested longName 16
  have hlong : FileTree.maxPath < (FileTree.nested longName 16).encoding.size
      (toString (longRoot.join "d")) := by
    rw [hencoding, Text.Encoding.size_utf8, utf8ByteSize_longRoot_join]
    decide
  have hentry : (FileTree.nested longName 16).hasEntry (longRoot.join "d") =
      .error ⟨.nameTooLong, longRoot.join "d", .utf8⟩ := by
    rw [FileTree.hasEntry, FileTree.find?, FileTree.locate_eq_nameTooLong hnull hlong, hencoding,
      Except.map]
  rw [run_execute_of_parse parse_createDatabase_d, Command.run]
  exact run_createDatabase_of_error hentry

/-- An empty directory, on a system that may leave the last byte undecoded. -/
def undecodedFiles : FileTree := ⟨[], [(["r"], .directory)], .lastByte⟩

def undecodedStatements : List String :=
  ["CREATE DATABASE d;", "CREATE TABLE t (a);", "INSERT INTO t VALUES ('\uf8ff');"]

/-- A session on an empty directory does not make a database that memory makes, as its path is too
long; nor does one keep a value that memory keeps, as it cannot be encoded. -/
theorem executeAll_ne_memory :
    (Session.start longRoot (.nested longName 16) =
        (.ok ⟨longRoot, none⟩, .nested longName 16) ∧
      (FileTree.nested longName 16).IsEmptyAt longRoot ∧
      commands ["CREATE DATABASE d;"] = [.createDatabase "d"] ∧
      IsName "d" ∧ "d".utf8ByteSize ≤ FileTree.maxName ∧
      (executeAll ["CREATE DATABASE d;"] ⟨⟨longRoot, none⟩, .nested longName 16⟩).1 =
        [.error (.file ⟨.nameTooLong, longRoot.join "d", .utf8⟩)] ∧
      (Memory.empty.executeAll ["CREATE DATABASE d;"]).1 = [.ok {}]) ∧
    Session.start ⟨0, ["r"]⟩ undecodedFiles = (.ok ⟨⟨0, ["r"]⟩, none⟩, undecodedFiles) ∧
      undecodedFiles.IsEmptyAt ⟨0, ["r"]⟩ ∧
      commands undecodedStatements =
        [.createDatabase "d", .createTable "t" ["a"], .insert "t" ["\uf8ff"]] ∧
      Text.Plain "\uf8ff" ∧
      (executeAll undecodedStatements ⟨⟨⟨0, ["r"]⟩, none⟩, undecodedFiles⟩).1 =
        [.ok {}, .ok {},
          .error (.file ⟨.unencodable ⟨7, 0xff, 1⟩, ⟨0, ["r", "d", "t.tab"]⟩, .lastByte⟩)] ∧
      (Memory.empty.executeAll undecodedStatements).1 = [.ok {}, .ok {}, .ok {}] := by
  constructor
  · have hname : IsName "d" := isName_of_parse parse_createDatabase_d (by simp [Command.databases])
    refine ⟨?_, isEmptyAt_longRoot, by decide +kernel, hname, by decide, ?_, ?_⟩
    · obtain ⟨place, hlocate, hdirectory, -⟩ := isEmptyAt_longRoot
      exact Session.start_of_directory hlocate hdirectory
    · rw [executeAll, execute_long]
      rfl
    · simp only [Memory.executeAll, Memory.execute, parse_createDatabase_d]
      rfl
  · have hempty : undecodedFiles.IsEmptyAt ⟨0, ["r"]⟩ := by
      refine ⟨["r"], rfl, rfl, fun q hq => ?_⟩
      cases q with
      | nil => exact absurd rfl hq
      | cons n q => rfl
    exact ⟨by decide +kernel, hempty, by decide +kernel, by decide, by decide +kernel,
      by decide +kernel⟩

end Operation

end Tabula
