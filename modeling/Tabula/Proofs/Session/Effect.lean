import Tabula.Proofs.Table.File
import Tabula.Session.Execute

/-!
# What commands do with tables

Between reading its tables and writing one back a command works on tables alone. Here this part of
each command is a function of the tables, which fails or gives the answer and the table to be
written. The command itself reads, applies the function and writes (`insertInto_eq` and the other
equations); so what is shown of reading and writing is shown for all commands at once.
-/

namespace Tabula

namespace Table

variable {α : Type}

/-- The table after an edit. -/
def edited (t : Table) (action : Edit α) : Except Failure Table :=
  match action.run t with
  | .ok _ t => .ok t
  | .error e _ => .error (.table e)

/-! ### Queries -/

def validated (t : Table) (c : Condition) : Except Failure Unit :=
  (c.validate t.headers).mapError .condition

/-- On which rows a condition is true, and the faults noted. -/
def judged (t : Table) (c : Condition) : Except Failure (List Bool × List ConditionError) :=
  (c.evaluateAll t.headers [] (t.rows.map Row.values)).mapError .condition

/-- The table with the columns that a query shows. -/
def shown (t : Table) : Projection → Except Failure Table
  | .all => .ok t
  | .columns names => (t.project names).mapError .table

def queried (columns : Projection) (condition : Option String) (t : Table) :
    Except Failure Answer := do
  t.validated (Condition.read condition)
  let shown ← t.shown columns
  let (selected, faults) ← t.judged (Condition.read condition)
  let rows ← (shown.rowsWhere selected).mapError (.table ∘ .shape)
  return {
    columns := shown.headers
    rows := rows.map Row.values
    warnings := faults.map ConditionError.message }

/-- A table as one side of a join. -/
def sideOf (t : Table) (key : String) : Except Failure Operation.JoinSide :=
  if t.hasColumn key then .ok ⟨t, key⟩ else .error (.operation (.noColumnToJoin key t.name))

def joined (leftColumn rightColumn : String) (leftTable rightTable : Table) :
    Except Failure Answer := do
  let left ← leftTable.sideOf leftColumn
  let right ← rightTable.sideOf rightColumn
  let rows ← (Operation.joinRows left right).mapError (.table ∘ .shape)
  return {
    columns := idColumn :: left.columns ++ right.columns
    rows := Operation.numbered rows }

/-! ### Changes -/

def altered (alteration : Alteration) (column : String) (t : Table) :
    Except Failure (Table × Answer) :=
  match alteration with
  | .add => return (← t.edited (addColumn column), {})
  | .drop =>
    if column = idColumn then .error (.operation .idDropped)
    else return (← t.edited (deleteColumn column), {})
  | .other word => .error (.operation (.unknownAlteration word))

def inserted (name : String) (values : List String) (t : Table) :
    Except Failure (Table × Answer) :=
  if values.length ≠ t.headers.length - 1 then
    .error (.operation (.valueCount name (t.headers.length - 1) values.length))
  else return (← t.edited (addRow (toString (t.rows.length + 1) :: values)), {})

/-- Whether values can be assigned to these columns. -/
def assignable (t : Table) : List String → Except Failure Unit
  | [] => .ok ()
  | column :: columns =>
    if column = idColumn then .error (.operation .idUpdated)
    else if t.hasColumn column then t.assignable columns
    else .error (.operation (.noColumnToUpdate column))

def updated (assignments : List (String × String)) (condition : String) (t : Table) :
    Except Failure (Table × Answer) := do
  t.assignable (assignments.map Prod.fst)
  t.validated (Condition.read condition)
  let (selected, faults) ← t.judged (Condition.read condition)
  return (← t.edited (updateRows selected assignments),
    { warnings := faults.map ConditionError.message })

def deleted (condition : String) (t : Table) : Except Failure (Table × Answer) := do
  t.validated (Condition.read condition)
  let (selected, faults) ← t.judged (Condition.read condition)
  return (← t.edited (deleteRows selected),
    { warnings := faults.map ConditionError.message })

end Table

namespace Operation

open Table

variable {α β : Type}

/-- An outcome as an operation that has it. -/
def settle : Except Failure α → Operation α := lift id

theorem settle_pure (a : α) : settle (pure a) = pure a := rfl

theorem settle_ok (a : α) : settle (.ok a) = pure a := rfl

theorem settle_error (e : Failure) : settle (.error e : Except Failure α) = throw e := rfl

@[simp] theorem throw_bind (e : Failure) (f : α → Operation β) :
    ((throw e : Operation α) >>= f) = throw e := rfl

theorem settle_bind (x : Except Failure α) (f : α → Except Failure β) :
    settle (x >>= f) = settle x >>= fun a => settle (f a) := by
  cases x <;> rfl

theorem lift_eq {ε : Type} (failure : ε → Failure) (x : Except ε α) :
    lift failure x = settle (x.mapError failure) := by
  cases x <;> rfl

theorem edit_eq (t : Table) (action : Edit α) : edit t action = settle (t.edited action) := by
  unfold edit edited
  cases action.run t <;> rfl

theorem project_eq (t : Table) (columns : Projection) :
    project t columns = settle (t.shown columns) := by
  cases columns with
  | all => rfl
  | columns names => exact lift_eq _ _

theorem joinSide_eq (t : Table) (key : String) : joinSide t key = settle (t.sideOf key) := by
  unfold joinSide sideOf
  cases t.hasColumn key <;> rfl

theorem checkColumns_eq (t : Table) (columns : List String) :
    checkColumns t columns = settle (t.assignable columns) := by
  induction columns with
  | nil => rfl
  | cons column columns ih =>
    rw [checkColumns, assignable]
    by_cases hid : column = idColumn
    · simp only [hid, if_true]
      rfl
    · cases t.hasColumn column
      · simp [hid, fail, settle_error]
      · simp [hid, ih]

/-! ### Commands on tables -/

/-- Read a table of the selected database. -/
def readTable (name : String) : Operation Table := do
  load name (← tablePath name)

/-- Answer from a table and write the table back that it becomes. -/
def changeTable (name : String) (f : Table → Except Failure (Table × Answer)) :
    Operation Answer := do
  let path ← tablePath name
  let t ← load name path
  let (t', a) ← settle (f t)
  store t' path
  return a

theorem selectFrom_eq (name : String) (columns : Projection) (condition : Option String) :
    selectFrom name columns condition = (do
      let t ← readTable name
      settle (queried columns condition t)) := by
  simp only [selectFrom, readTable, queried, validate, rowsSelected, project_eq, lift_eq,
    settle_bind, settle_pure, validated, judged, bind_assoc]

theorem insertInto_eq (name : String) (values : List String) :
    insertInto name values = changeTable name (inserted name values) := by
  refine bind_congr fun path => bind_congr fun t => ?_
  by_cases hlength : values.length ≠ t.headers.length - 1
  · simp [inserted, hlength, fail, settle_error]
  · simp only [inserted, hlength, if_false, pure_bind, edit_eq, settle_bind, settle_pure,
      bind_assoc]

theorem updateTable_eq (name : String) (assignments : List (String × String)) (condition : String) :
    updateTable name assignments condition =
      changeTable name (updated assignments condition) := by
  refine bind_congr fun path => bind_congr fun t => ?_
  simp only [updated, validate, rowsSelected, checkColumns_eq, edit_eq, lift_eq, settle_bind,
    settle_pure, validated, judged, bind_assoc, pure_bind]

theorem deleteFrom_eq (name condition : String) :
    deleteFrom name condition = changeTable name (deleted condition) := by
  refine bind_congr fun path => bind_congr fun t => ?_
  simp only [deleted, validate, rowsSelected, edit_eq, lift_eq, settle_bind, settle_pure,
    validated, judged, bind_assoc, pure_bind]

theorem alterTable_eq (name : String) (alteration : Alteration) (column : String) :
    alterTable name alteration column = changeTable name (altered alteration column) := by
  refine bind_congr fun path => bind_congr fun t => ?_
  cases alteration with
  | add => simp only [altered, edit_eq, settle_bind, settle_pure, bind_assoc, pure_bind]
  | drop =>
    by_cases hid : column = idColumn
    · simp [altered, hid, fail, settle_error]
    · simp only [altered, hid, if_false, edit_eq, settle_bind, settle_pure, bind_assoc, pure_bind]
  | other word => rfl

theorem join_eq (leftTable rightTable leftColumn rightColumn : String) :
    join leftTable rightTable leftColumn rightColumn = (do
      let left ← readTable leftTable
      let right ← readTable rightTable
      settle (joined leftColumn rightColumn left right)) := by
  simp only [join, readTable, joined, joinSide_eq, lift_eq, settle_bind, settle_pure, bind_assoc]

end Operation

/-! ### Changes and queries -/

namespace Command

/-- The table that a command changes, and the change. -/
def change? : Command → Option (String × (Table → Except Failure (Table × Answer)))
  | alterTable table alteration column => some (table, Table.altered alteration column)
  | insert table values => some (table, Table.inserted table values)
  | update table assignments condition => some (table, Table.updated assignments condition)
  | delete table condition => some (table, Table.deleted condition)
  | _ => none

/-- The answer of a command that only looks at tables, from the tables that the names stand for. -/
def query? : Command → Option ((String → Except Failure Table) → Except Failure Answer)
  | select table columns condition => some fun find => do
    Table.queried columns condition (← find table)
  | join leftTable rightTable leftColumn rightColumn => some fun find => do
    let left ← find leftTable
    let right ← find rightTable
    Table.joined leftColumn rightColumn left right
  | _ => none

/-- The commands by what they do: all changes of a table are one case, and all queries. -/
@[elab_as_elim]
theorem casesOnEffect {motive : Command → Prop} (command : Command)
    (use : ∀ database, motive (.use database))
    (createDatabase : ∀ database, motive (.createDatabase database))
    (dropDatabase : ∀ database, motive (.dropDatabase database))
    (createTable : ∀ table columns, motive (.createTable table columns))
    (dropTable : ∀ table, motive (.dropTable table))
    (change : ∀ command table f, change? command = some (table, f) → motive command)
    (query : ∀ command q, query? command = some q → motive command) : motive command := by
  cases command with
  | use database => exact use database
  | createDatabase database => exact createDatabase database
  | dropDatabase database => exact dropDatabase database
  | createTable table columns => exact createTable table columns
  | dropTable table => exact dropTable table
  | alterTable => exact change _ _ _ rfl
  | insert => exact change _ _ _ rfl
  | update => exact change _ _ _ rfl
  | delete => exact change _ _ _ rfl
  | select => exact query _ _ rfl
  | join => exact query _ _ rfl

variable {command : Command} {table : String}

theorem run_of_change? {f : Table → Except Failure (Table × Answer)}
    (h : command.change? = some (table, f)) : command.run = Operation.changeTable table f := by
  cases command <;> cases h
  · exact Operation.alterTable_eq _ _ _
  · exact Operation.insertInto_eq _ _
  · exact Operation.updateTable_eq _ _ _
  · exact Operation.deleteFrom_eq _ _

end Command

end Tabula
