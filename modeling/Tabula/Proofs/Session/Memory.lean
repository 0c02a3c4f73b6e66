import Mathlib.Data.List.AList
import Tabula.Proofs.Session.Sound
import Tabula.Proofs.Session.Success

/-!
# Databases in memory

Commands on databases that are kept as tables and are never written as texts. With tables the
commands do what they do in a session; only where a table is found and what becomes of it is
different. A command that fails leaves the databases as they were.

All tables in memory are sound, and are kept under their own names (`Memory.Sound.run`).
-/

namespace Tabula

abbrev Tables := AList fun _ : String => Table

structure Memory where
  databases : AList fun _ : String => Tables
  selected : Option String

namespace Memory

def empty : Memory := ⟨∅, none⟩

/-! ### Tables -/

def tablesOf (m : Memory) (database : String) : Tables := (m.databases.lookup database).getD ∅

def table? (m : Memory) (database name : String) : Option Table :=
  (m.tablesOf database).lookup name

def setTable (m : Memory) (database name : String) (t : Table) : Memory :=
  { m with databases := m.databases.insert database ((m.tablesOf database).insert name t) }

def eraseTable (m : Memory) (database name : String) : Memory :=
  { m with databases := m.databases.insert database ((m.tablesOf database).erase name) }

/-- The name of the selected database. -/
def current (m : Memory) : Except Failure String :=
  match m.selected with
  | none => .error (.operation .noDatabaseSelected)
  | some database => .ok database

/-- A table of the selected database. -/
def table (m : Memory) (name : String) : Except Failure Table := do
  match m.table? (← m.current) name with
  | none => .error (.operation (.tableMissing name))
  | some t => .ok t

/-- Answer from a table and keep the table in its place that it becomes. -/
def change (m : Memory) (name : String) (f : Table → Except Failure (Table × Answer)) :
    Except Failure (Answer × Memory) := do
  let database ← m.current
  let (t, a) ← f (← m.table name)
  return (a, m.setTable database name t)

/-! ### Commands -/

def run (m : Memory) : Command → Except Failure (Answer × Memory)
  | .use database =>
    if database ∈ m.databases then .ok ({}, { m with selected := some database })
    else .error (.operation (.databaseMissing database))
  | .createDatabase database =>
    if database ∈ m.databases then .error (.operation (.databaseExists database))
    else .ok ({}, ⟨m.databases.insert database ∅, some database⟩)
  | .dropDatabase database =>
    if database ∈ m.databases then
      .ok ({}, ⟨m.databases.erase database, m.selected.filter (· ≠ database)⟩)
    else .error (.operation (.databaseMissing database))
  | .createTable name columns => do
    let database ← m.current
    if (m.table? database name).isSome then .error (.operation (.tableExists name))
    else return ({}, m.setTable database name (← Operation.newTable name columns))
  | .dropTable name => do
    let database ← m.current
    if (m.table? database name).isSome then return ({}, m.eraseTable database name)
    else .error (.operation (.tableMissing name))
  | .alterTable name alteration column => m.change name (Table.altered alteration column)
  | .insert name values => m.change name (Table.inserted name values)
  | .update name assignments condition => m.change name (Table.updated assignments condition)
  | .delete name condition => m.change name (Table.deleted condition)
  | .select name columns condition => do
    return (← Table.queried columns condition (← m.table name), m)
  | .join leftTable rightTable leftColumn rightColumn => do
    let left ← m.table leftTable
    let right ← m.table rightTable
    return (← Table.joined leftColumn rightColumn left right, m)

/-- Carry out the statement that a text is. -/
def execute (m : Memory) (text : String) : Except Failure (Answer × Memory) := do
  m.run (← (Command.parse text).mapError .statement)

/-- What comes of statements, one after the other, and the databases after them. -/
def executeAll (m : Memory) : List String → List (Except Failure Answer) × Memory
  | [] => ([], m)
  | text :: texts =>
    match m.execute text with
    | .ok (a, m') =>
      let (outcomes, after) := m'.executeAll texts
      (.ok a :: outcomes, after)
    | .error e =>
      let (outcomes, after) := m.executeAll texts
      (.error e :: outcomes, after)

/-- The names of all databases in order. -/
def databaseNames (m : Memory) : List String := m.databases.keys.mergeSort (· ≤ ·)

/-- The names of all tables of the selected database in order. -/
def tableNames (m : Memory) : List String :=
  match m.selected with
  | none => []
  | some database => (m.tablesOf database).keys.mergeSort (· ≤ ·)

/-! ### Finding tables -/

variable {m m' : Memory} {a : Answer} {d d' n n' : String} {t : Table}

theorem table?_eq_none (h : d ∉ m.databases) : m.table? d n = none := by
  simp [table?, tablesOf, AList.lookup_eq_none.2 h]

theorem table?_insert_empty (h : d ∉ m.databases) (selected : Option String) :
    table? ⟨m.databases.insert d ∅, selected⟩ d' n = m.table? d' n := by
  unfold table? tablesOf
  by_cases hd : d' = d
  · subst hd
    simp [AList.lookup_eq_none.2 h]
  · simp [AList.lookup_insert_ne hd]

theorem table?_erase (selected : Option String) :
    table? ⟨m.databases.erase d, selected⟩ d' n = if d' = d then none else m.table? d' n := by
  unfold table? tablesOf
  by_cases hd : d' = d
  · subst hd
    simp
  · simp [AList.lookup_erase_ne hd, hd]

theorem table?_setTable : (m.setTable d n t).table? d' n' =
    if d' = d ∧ n' = n then some t else m.table? d' n' := by
  unfold table? setTable tablesOf
  by_cases hd : d' = d
  · subst hd
    by_cases hn : n' = n
    · subst hn
      simp
    · simp [AList.lookup_insert_ne hn, hn]
  · simp [AList.lookup_insert_ne hd, hd]

theorem table?_eraseTable : (m.eraseTable d n).table? d' n' =
    if d' = d ∧ n' = n then none else m.table? d' n' := by
  unfold table? eraseTable tablesOf
  by_cases hd : d' = d
  · subst hd
    by_cases hn : n' = n
    · subst hn
      simp
    · simp [AList.lookup_erase_ne hn, hn]
  · simp [AList.lookup_insert_ne hd, hd]

theorem mem_setTable (h : d ∈ m.databases) :
    d' ∈ (m.setTable d n t).databases ↔ d' ∈ m.databases := by
  simp only [setTable, AList.mem_insert, or_iff_right_iff_imp]
  rintro rfl
  exact h

theorem mem_eraseTable (h : d ∈ m.databases) :
    d' ∈ (m.eraseTable d n).databases ↔ d' ∈ m.databases := by
  simp only [eraseTable, AList.mem_insert, or_iff_right_iff_imp]
  rintro rfl
  exact h

theorem selected_of_current (h : m.current = .ok d) : m.selected = some d := by
  unfold current at h
  split at h
  · cases h
  · rename_i hselected
    exact hselected.trans (congrArg some (Except.ok.inj h))

theorem exists_of_table_eq_ok (h : m.table n = .ok t) :
    ∃ d, m.selected = some d ∧ m.table? d n = some t := by
  obtain ⟨d, hd, h⟩ := bind_eq_ok_iff.1 h
  refine ⟨d, selected_of_current hd, ?_⟩
  split at h
  · cases h
  · rename_i hfound
    exact hfound.trans (congrArg some (Except.ok.inj h))

theorem exists_of_change_eq_ok {f : Table → Except Failure (Table × Answer)}
    (h : m.change n f = .ok (a, m')) :
    ∃ d t t', m.selected = some d ∧ m.table? d n = some t ∧ f t = .ok (t', a) ∧
      m' = m.setTable d n t' := by
  obtain ⟨d, hd, h⟩ := bind_eq_ok_iff.1 h
  obtain ⟨t, ht, h⟩ := bind_eq_ok_iff.1 h
  obtain ⟨⟨t', b⟩, hf, h⟩ := bind_eq_ok_iff.1 h
  cases h
  obtain ⟨d', hselected, hfound⟩ := exists_of_table_eq_ok ht
  obtain rfl : d = d' := Option.some.inj ((selected_of_current hd).symm.trans hselected)
  exact ⟨d, t, t', hselected, hfound, hf, rfl⟩

/-! ### Soundness -/

/-- A database is selected only if it is there, and each table is sound and has the name that it is
kept under. -/
structure Sound (m : Memory) : Prop where
  mem_of_selected : ∀ d ∈ m.selected, d ∈ m.databases
  isName_database : ∀ d ∈ m.databases, IsName d
  isName_table : ∀ {d n t}, m.table? d n = some t → IsName n
  name_eq : ∀ {d n t}, m.table? d n = some t → t.name = n
  sound_table : ∀ {d n t}, m.table? d n = some t → t.Sound

theorem sound_empty : Sound empty where
  mem_of_selected := by simp [empty]
  isName_database := by simp [empty]
  isName_table h := by simp [table?_eq_none, empty] at h
  name_eq h := by simp [table?_eq_none, empty] at h
  sound_table h := by simp [table?_eq_none, empty] at h

theorem Sound.setTable (hm : m.Sound) (hd : d ∈ m.databases) (hn : IsName n) (ht : t.Sound)
    (hname : t.name = n) : (m.setTable d n t).Sound where
  mem_of_selected e he := (mem_setTable hd).2 (hm.mem_of_selected e he)
  isName_database e he := hm.isName_database e ((mem_setTable hd).1 he)
  isName_table {e k u} h := by
    rw [table?_setTable] at h
    split at h
    · rename_i heq
      exact heq.2 ▸ hn
    · exact hm.isName_table h
  name_eq {e k u} h := by
    rw [table?_setTable] at h
    split at h
    · rename_i heq
      cases h
      exact hname.trans heq.2.symm
    · exact hm.name_eq h
  sound_table {e k u} h := by
    rw [table?_setTable] at h
    split at h
    · cases h
      exact ht
    · exact hm.sound_table h

/-- No table is added, and no database is gone unless it is not selected. -/
theorem Sound.of_fewer (hm : m.Sound) (hselected : ∀ d ∈ m'.selected, d ∈ m'.databases)
    (hdatabases : ∀ d ∈ m'.databases, IsName d)
    (htables : ∀ {d n t}, m'.table? d n = some t → m.table? d n = some t) : m'.Sound where
  mem_of_selected := hselected
  isName_database := hdatabases
  isName_table h := hm.isName_table (htables h)
  name_eq h := hm.name_eq (htables h)
  sound_table h := hm.sound_table (htables h)

theorem Sound.eraseTable (hm : m.Sound) (hd : d ∈ m.databases) : (m.eraseTable d n).Sound := by
  refine hm.of_fewer (fun e he => ?_) (fun e he => ?_) fun h => ?_
  · exact (mem_eraseTable hd).2 (hm.mem_of_selected e he)
  · exact hm.isName_database e ((mem_eraseTable hd).1 he)
  · rw [table?_eraseTable] at h
    split at h
    · cases h
    · exact h

theorem Sound.use (hm : m.Sound) (hd : d ∈ m.databases) :
    Sound { m with selected := some d } := by
  refine hm.of_fewer (fun d' hd' => ?_) hm.isName_database id
  obtain rfl : d = d' := by simpa using hd'
  exact hd

theorem Sound.createDatabase (hm : m.Sound) (hd : d ∉ m.databases) (hname : IsName d) :
    Sound ⟨m.databases.insert d ∅, some d⟩ := by
  refine hm.of_fewer (fun d' hd' => ?_) (fun d' hd' => ?_) fun h => ?_
  · obtain rfl : d = d' := by simpa using hd'
    simp
  · rcases (AList.mem_insert _).1 hd' with rfl | hd'
    · exact hname
    · exact hm.isName_database d' hd'
  · rwa [table?_insert_empty hd] at h

theorem Sound.dropDatabase (hm : m.Sound) :
    Sound ⟨m.databases.erase d, m.selected.filter (· ≠ d)⟩ := by
  refine hm.of_fewer (fun d' hd' => ?_) (fun d' hd' => ?_) fun h => ?_
  · obtain ⟨hd', hne⟩ := Option.mem_filter_iff.1 hd'
    exact AList.mem_erase.2 ⟨by simpa using hne, hm.mem_of_selected d' hd'⟩
  · exact hm.isName_database d' (AList.mem_erase.1 hd').2
  · rw [table?_erase] at h
    split at h
    · cases h
    · exact h

theorem Sound.change (hm : m.Sound) {f : Table → Except Failure (Table × Answer)}
    (hf : ∀ {t t' a}, t.Sound → f t = .ok (t', a) → t'.Sound ∧ t'.name = t.name)
    (h : m.change n f = .ok (a, m')) : m'.Sound := by
  obtain ⟨d, t, t', hselected, hfound, hft, rfl⟩ := exists_of_change_eq_ok h
  obtain ⟨hsound, hname⟩ := hf (hm.sound_table hfound) hft
  exact hm.setTable (hm.mem_of_selected d hselected) (hm.isName_table hfound) hsound
    (hname.trans (hm.name_eq hfound))

/-! ### Soundness of commands -/

variable {command : Command}

theorem run_of_change? {f : Table → Except Failure (Table × Answer)}
    (h : command.change? = some (n, f)) (m : Memory) : m.run command = m.change n f := by
  cases command <;> cases h <;> rfl

theorem run_of_query? {answer : (String → Except Failure Table) → Except Failure Answer}
    (h : command.query? = some answer) (m : Memory) :
    m.run command = do return (← answer m.table, m) := by
  cases command <;> cases h
  · rw [run, bind_assoc]
  · simp only [run, bind_assoc]

/-- A change with plain names and values leads from sound tables to sound ones. -/
theorem sound_of_change? {f : Table → Except Failure (Table × Answer)}
    (h : command.change? = some (n, f)) (hcolumns : ∀ c ∈ command.newColumns, IsName c)
    (hvalues : ∀ v ∈ command.values, Text.Plain v) {t t' : Table} (ht : t.Sound)
    (hf : f t = .ok (t', a)) : t'.Sound ∧ t'.name = t.name := by
  cases command with
  | alterTable table alteration column =>
    cases h
    exact Table.sound_of_altered ht (hcolumns column (by simp [Command.newColumns])).plain hf
  | insert table values =>
    cases h
    exact Table.sound_of_inserted ht hvalues hf
  | update table assignments condition =>
    cases h
    exact Table.sound_of_updated ht hvalues hf
  | delete table condition =>
    cases h
    exact Table.sound_of_deleted ht hf
  | _ => cases h

/-- A command whose names are names and whose values are plain keeps the memory sound. -/
theorem Sound.run (hm : m.Sound)
    (hnames : ∀ n ∈ command.databases ++ command.tables ++ command.newColumns, IsName n)
    (hvalues : ∀ v ∈ command.values, Text.Plain v) (h : m.run command = .ok (a, m')) :
    m'.Sound := by
  have hcolumns : ∀ c ∈ command.newColumns, IsName c := fun c hc => hnames c (by simp [hc])
  cases command using Command.casesOnEffect with
  | use database =>
    rw [Memory.run] at h
    split at h <;> cases h
    rename_i hmem
    exact hm.use hmem
  | createDatabase database =>
    rw [Memory.run] at h
    split at h <;> cases h
    rename_i hnot
    exact hm.createDatabase hnot (hnames database (by simp [Command.databases]))
  | dropDatabase database =>
    rw [Memory.run] at h
    split at h <;> cases h
    exact hm.dropDatabase
  | createTable name columns =>
    obtain ⟨d, hd, h⟩ := bind_eq_ok_iff.1 h
    split at h
    · cases h
    · obtain ⟨t, hnew, h⟩ := bind_eq_ok_iff.1 h
      cases h
      obtain ⟨hsound, hname⟩ := Table.sound_of_newTable (fun c hc => (hcolumns c hc).plain) hnew
      exact hm.setTable (hm.mem_of_selected d (selected_of_current hd))
        (hnames name (by simp [Command.tables])) hsound hname
  | dropTable name =>
    obtain ⟨d, hd, h⟩ := bind_eq_ok_iff.1 h
    split at h <;> cases h
    exact hm.eraseTable (hm.mem_of_selected d (selected_of_current hd))
  | change command n f hchange =>
    rw [run_of_change? hchange] at h
    exact hm.change (sound_of_change? hchange hcolumns hvalues) h
  | query command answer hquery =>
    rw [run_of_query? hquery] at h
    obtain ⟨b, -, h⟩ := bind_eq_ok_iff.1 h
    cases h
    exact hm

end Memory

end Tabula
