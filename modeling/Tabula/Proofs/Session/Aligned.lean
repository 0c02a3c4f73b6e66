import Tabula.Proofs.Session.Effect
import Tabula.Proofs.Table.Column

/-!
# Commands on aligned tables

On an aligned table no command asks a row for what it has not. What each command does with such a
table is given here in closed form, with the failures that are left: those of conditions and those
that the commands check for. What a change that goes well makes of the table is read off that
(`Table.inserted_eq_ok_iff`, `Table.judged_of_deleted`, `Table.judged_of_updated`,
`Table.altered_eq_ok_iff`).
-/

namespace Tabula

/-! ### Conditions -/

/-- There is one truth value for each row. -/
theorem Condition.length_of_evaluateAll {c : Condition} {header : List String}
    {noted faults : List ConditionError} {rows : List (List String)} {selected : List Bool}
    (h : c.evaluateAll header noted rows = .ok (selected, faults)) :
    selected.length = rows.length := by
  induction rows generalizing noted selected with
  | nil =>
    cases h
    rfl
  | cons row rows ih =>
    rw [evaluateAll] at h
    obtain ⟨⟨truth, noted'⟩, -, h⟩ := bind_eq_ok_iff.1 h
    obtain ⟨⟨rest, faults'⟩, hrest, h⟩ := bind_eq_ok_iff.1 h
    cases h
    exact congrArg (· + 1) (ih hrest)

namespace Table

variable {t : Table}

theorem length_of_judged {c : Condition} {selected : List Bool} {faults : List ConditionError}
    (h : t.judged c = .ok (selected, faults)) : selected.length = t.rows.length := by
  simpa using Condition.length_of_evaluateAll (mapError_eq_ok_iff.1 h)

/-! ### Queries -/

/-- The columns that a query shows are shown of every row. -/
theorem length_of_shown (ht : t.Aligned) {columns : Projection} {s : Table}
    (h : t.shown columns = .ok s) : s.rows.length = t.rows.length := by
  cases columns with
  | all =>
    cases h
    rfl
  | columns names =>
    simp only [shown, project_eq ht] at h
    split at h
    · cases h
    · cases h
      simp [projection]

/-- A query shows the rows on which its condition is true. -/
theorem queried_eq (ht : t.Aligned) (columns : Projection) (condition : Option String) :
    t.queried columns condition = (do
      t.validated (Condition.read condition)
      let shown ← t.shown columns
      let (selected, faults) ← t.judged (Condition.read condition)
      return {
        columns := shown.headers
        rows := (chosen selected shown.rows).map Row.values
        warnings := faults.map ConditionError.message }) := by
  refine bind_eq_bind fun _ _ => bind_eq_bind fun s hs => bind_eq_bind fun result hresult => ?_
  obtain ⟨selected, faults⟩ := result
  have hlength : selected.length = s.rows.length :=
    (length_of_judged hresult).trans (length_of_shown ht hs).symm
  dsimp only
  rw [rowsWhere_eq hlength]
  rfl

end Table

/-! ### Joins -/

namespace Operation

open Table

/-- The cells shown of a left row and each right row with an equal cell in the column joined on. -/
def matching (left right : JoinSide) (l : Row) : List (List String) :=
  (right.table.rows.filter fun r => r.cell right.key = l.cell left.key).map fun r =>
    left.shown.map l.cell ++ right.shown.map r.cell

theorem pick_shown {side : JoinSide} {r : Row} (hr : r.headers = side.table.headers) :
    r.pick side.shown = .ok (side.shown.map r.cell) :=
  Row.pick_eq fun _ hc => hr ▸ (List.mem_filter.1 hc).1

theorem joinRow_eq {left right : JoinSide} {l : Row} (hl : l.headers = left.table.headers)
    (hright : right.table.Aligned) (hleftKey : left.key ∈ left.table.headers)
    (hrightKey : right.key ∈ right.table.headers) :
    joinRow left right l = .ok (matching left right l) := by
  have hrows : right.table.rows.mapM (fun r => do
        if (← r.get right.key) = l.cell left.key then
          return some ((← l.pick left.shown) ++ (← r.pick right.shown))
        else return none) =
      .ok (right.table.rows.map fun r =>
        if r.cell right.key = l.cell left.key then
          some (left.shown.map l.cell ++ right.shown.map r.cell)
        else none) := by
    refine mapM_eq_ok fun r hr => ?_
    have hheaders := hright r hr
    rw [Row.get_eq (hheaders ▸ hrightKey), pick_shown hl, pick_shown hheaders]
    simp only [ok_bind]
    split <;> rfl
  unfold joinRow
  rw [Row.get_eq (hl ▸ hleftKey), ok_bind, hrows, ok_bind]
  clear hrows
  refine congrArg Except.ok ?_
  unfold matching
  induction right.table.rows with
  | nil => rfl
  | cons r rows ih =>
    by_cases hkey : r.cell right.key = l.cell left.key
    · simpa [hkey] using ih
    · simpa [hkey] using ih

theorem joinRows_eq {left right : JoinSide} (hleft : left.table.Aligned)
    (hright : right.table.Aligned) (hleftKey : left.key ∈ left.table.headers)
    (hrightKey : right.key ∈ right.table.headers) :
    joinRows left right = .ok (left.table.rows.flatMap (matching left right)) := by
  have hrows : left.table.rows.mapM (joinRow left right) =
      .ok (left.table.rows.map (matching left right)) :=
    mapM_eq_ok fun l hl => joinRow_eq (hleft l hl) hright hleftKey hrightKey
  unfold joinRows
  rw [hrows]
  rfl

theorem sideOf_eq_ok {t : Table} {key : String} {side : JoinSide}
    (h : t.sideOf key = .ok side) : side = ⟨t, key⟩ ∧ key ∈ t.headers := by
  unfold sideOf at h
  split at h
  · rename_i hkey
    cases h
    exact ⟨rfl, hasColumn_iff.1 hkey⟩
  · cases h

/-- A join shows all pairs of rows with equal cells in the columns joined on. -/
theorem joined_eq {l r : Table} (hl : l.Aligned) (hr : r.Aligned)
    (leftColumn rightColumn : String) :
    joined leftColumn rightColumn l r = (do
      let left ← l.sideOf leftColumn
      let right ← r.sideOf rightColumn
      return {
        columns := idColumn :: left.columns ++ right.columns
        rows := numbered (left.table.rows.flatMap (matching left right)) }) := by
  refine bind_eq_bind fun left hleft => bind_eq_bind fun right hright => ?_
  obtain ⟨rfl, hleftKey⟩ := sideOf_eq_ok hleft
  obtain ⟨rfl, hrightKey⟩ := sideOf_eq_ok hright
  rw [joinRows_eq hl hr hleftKey hrightKey]
  rfl

end Operation

namespace Table

variable {t : Table}

/-! ### Changes -/

theorem edited_eq {action : Edit α} {t' : Table} {a : α} (h : action.run t = .ok a t') :
    t.edited action = .ok t' := by
  unfold edited
  rw [h]

/-- An insertion adds a row, with a number in front, if there is a value for each other column. -/
theorem inserted_eq (ht : t.headers ≠ []) (name : String) (values : List String) :
    t.inserted name values =
      if values.length ≠ t.headers.length - 1 then
        .error (.operation (.valueCount name (t.headers.length - 1) values.length))
      else .ok ({ t with rows := t.rows ++
        [⟨t.headers.zip (toString (t.rows.length + 1) :: values)⟩] }, {}) := by
  unfold inserted
  by_cases hlength : values.length ≠ t.headers.length - 1
  · rw [if_pos hlength, if_pos hlength]
  · have hpos := List.length_pos_iff.2 ht
    have hrow : t.headers.length = (toString (t.rows.length + 1) :: values).length := by
      simp only [List.length_cons]
      omega
    rw [if_neg hlength, if_neg hlength, edited_eq (run_addRow hrow)]
    rfl

/-- A deletion leaves the rows on which its condition is not true. -/
theorem deleted_eq (condition : String) : t.deleted condition = (do
    t.validated (Condition.read condition)
    let (selected, faults) ← t.judged (Condition.read condition)
    return ({ t with rows := chosen (selected.map not) t.rows },
      { warnings := faults.map ConditionError.message })) := by
  refine bind_eq_bind fun _ _ => bind_eq_bind fun result hresult => ?_
  obtain ⟨selected, faults⟩ := result
  dsimp only
  rw [edited_eq (run_deleteRows (length_of_judged hresult))]
  rfl

theorem assignable_eq_ok_iff {columns : List String} : t.assignable columns = .ok () ↔
    ∀ c ∈ columns, c ∈ t.headers ∧ c ≠ idColumn := by
  induction columns with
  | nil => simp [assignable]
  | cons column columns ih =>
    rw [assignable, List.forall_mem_cons, ← ih, ← hasColumn_iff]
    by_cases hid : column = idColumn
    · simp [hid]
    · by_cases hcolumn : t.hasColumn column = true <;> simp [hid, hcolumn]

/-- An update makes its assignments in the rows on which its condition is true. -/
theorem updated_eq (ht : t.Aligned) (assignments : List (String × String)) (condition : String) :
    t.updated assignments condition = (do
      t.assignable (assignments.map Prod.fst)
      t.validated (Condition.read condition)
      let (selected, faults) ← t.judged (Condition.read condition)
      return ({ t with rows := overwritten selected assignments t.rows },
        { warnings := faults.map ConditionError.message })) := by
  refine bind_eq_bind fun _ hassignable => bind_eq_bind fun _ _ => ?_
  refine bind_eq_bind fun result hresult => ?_
  obtain ⟨selected, faults⟩ := result
  have hcolumns : ∀ a ∈ assignments, a.1 ∈ t.headers := fun a ha =>
    (assignable_eq_ok_iff.1 hassignable a.1 (List.mem_map_of_mem ha)).1
  dsimp only
  rw [edited_eq (run_updateRows ht (length_of_judged hresult) hcolumns)]
  rfl

/-- A column is added last, and a column other than `id` is dropped with its cells. -/
theorem altered_eq (ht : t.Aligned) (alteration : Alteration) (column : String) :
    t.altered alteration column =
      match alteration with
      | .add =>
        if column ∈ t.headers then .error (.table (.columnExists column))
        else .ok (t.extended column, {})
      | .drop =>
        if column = idColumn then .error (.operation .idDropped)
        else if column ∈ t.headers then .ok (t.reduced column, {})
        else .error (.table (.columnMissing column))
      | .other word => .error (.operation (.unknownAlteration word)) := by
  cases alteration with
  | add =>
    by_cases hcolumn : column ∈ t.headers
    · simp only [altered, edited, run_addColumn_of_mem hcolumn, if_pos hcolumn]
      rfl
    · simp only [altered, edited, run_addColumn hcolumn, if_neg hcolumn]
      rfl
  | drop =>
    by_cases hid : column = idColumn
    · simp only [altered, if_pos hid]
    · by_cases hcolumn : column ∈ t.headers
      · simp only [altered, if_neg hid, edited, run_deleteColumn ht hcolumn, if_pos hcolumn]
        rfl
      · simp only [altered, if_neg hid, edited, run_deleteColumn_of_not_mem hcolumn,
          if_neg hcolumn]
        rfl
  | other word => rfl

/-! ### Changes that go well -/

variable {t' : Table} {a : Answer} {condition : String}

theorem inserted_eq_ok_iff (ht : t.headers ≠ []) {name : String} {values : List String} :
    t.inserted name values = .ok (t', a) ↔
      t.headers.length = (toString (t.rows.length + 1) :: values).length ∧
        t' = { t with rows := t.rows ++
          [⟨t.headers.zip (toString (t.rows.length + 1) :: values)⟩] } ∧ a = {} := by
  have hpos := List.length_pos_iff.2 ht
  rw [inserted_eq ht, List.length_cons]
  by_cases hlength : values.length = t.headers.length - 1
  · rw [if_neg (not_not_intro hlength)]
    have hrow : t.headers.length = values.length + 1 := by omega
    simp [hrow, eq_comm]
  · rw [if_pos hlength]
    have hrow : t.headers.length ≠ values.length + 1 := by omega
    simp [hrow]

theorem judged_of_deleted (h : t.deleted condition = .ok (t', a)) :
    ∃ selected faults, t.validated (Condition.read condition) = .ok () ∧
      t.judged (Condition.read condition) = .ok (selected, faults) ∧
      t' = { t with rows := chosen (selected.map not) t.rows } ∧
      a.warnings = faults.map ConditionError.message := by
  rw [deleted_eq] at h
  obtain ⟨⟨⟩, hvalidated, h⟩ := bind_eq_ok_iff.1 h
  obtain ⟨⟨selected, faults⟩, hjudged, h⟩ := bind_eq_ok_iff.1 h
  cases h
  exact ⟨selected, faults, hvalidated, hjudged, rfl, rfl⟩

theorem judged_of_updated (ht : t.Aligned) {assignments : List (String × String)}
    (h : t.updated assignments condition = .ok (t', a)) :
    t.assignable (assignments.map Prod.fst) = .ok () ∧
    ∃ selected faults, t.validated (Condition.read condition) = .ok () ∧
      t.judged (Condition.read condition) = .ok (selected, faults) ∧
      t' = { t with rows := overwritten selected assignments t.rows } ∧
      a.warnings = faults.map ConditionError.message := by
  rw [updated_eq ht] at h
  obtain ⟨_, hassignable, h⟩ := bind_eq_ok_iff.1 h
  obtain ⟨⟨⟩, hvalidated, h⟩ := bind_eq_ok_iff.1 h
  obtain ⟨⟨selected, faults⟩, hjudged, h⟩ := bind_eq_ok_iff.1 h
  cases h
  exact ⟨hassignable, selected, faults, hvalidated, hjudged, rfl, rfl⟩

/-- An alteration that goes well adds a new column or drops one that is there. -/
theorem altered_eq_ok_iff (ht : t.Aligned) {alteration : Alteration} {column : String} :
    t.altered alteration column = .ok (t', a) ↔
      (alteration = .add ∧ column ∉ t.headers ∧ t' = t.extended column ∧ a = {}) ∨
      (alteration = .drop ∧ (column ∈ t.headers ∧ column ≠ idColumn) ∧
        t' = t.reduced column ∧ a = {}) := by
  rw [altered_eq ht]
  cases alteration with
  | add => by_cases hcolumn : column ∈ t.headers <;> simp [hcolumn, eq_comm]
  | drop =>
    by_cases hid : column = idColumn
    · simp [hid]
    · by_cases hcolumn : column ∈ t.headers <;> simp [hcolumn, hid, eq_comm]
  | other word => simp

end Table

end Tabula
