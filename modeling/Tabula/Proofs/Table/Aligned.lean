import Tabula.Proofs.Outcome
import Tabula.Table

/-!
# Aligned tables

A table is aligned if every row has its cells under the columns of the table, in their order. An
edit of an aligned table finds the columns and the places that it looks for, so it fails only for a
reason that it checks beforehand: a row lacks no column that its table has, and no place that comes
from a choice of rows is past the last row.

The edits go through the rows place by place. Here each is shown to be one function of all rows.
-/

namespace Tabula

/-- The items at the places where a list of choices is true. -/
def chosen {α : Type} : List Bool → List α → List α
  | b :: bs, a :: as => if b then a :: chosen bs as else chosen bs as
  | _, _ => []

theorem mem_of_mem_chosen {α : Type} {a : α} {bs : List Bool} {as : List α}
    (h : a ∈ chosen bs as) : a ∈ as := by
  fun_induction chosen bs as <;> grind

namespace Row

theorem zip_headers_values (r : Row) : r.headers.zip r.values = r.cells :=
  (List.zip_of_prod rfl rfl).symm

@[simp] theorem length_values (r : Row) : r.values.length = r.headers.length := by
  simp [values, headers]

/-! ### Reading cells -/

/-- The first cell of a column; empty if there is none. -/
def cell (r : Row) (column : String) : String := (r.cells.lookup column).getD ""

theorem exists_lookup {r : Row} {column : String} (h : column ∈ r.headers) :
    ∃ v ∈ r.values, r.cells.lookup column = some v := by
  obtain ⟨cells⟩ := r
  simp only [headers, values] at h ⊢
  induction cells with
  | nil => simp at h
  | cons x cells ih =>
    obtain ⟨c, v⟩ := x
    by_cases hc : column = c
    · subst hc
      exact ⟨v, by simp⟩
    · obtain ⟨w, hw, hlookup⟩ := ih (by simpa [hc] using h)
      have hb : (column == c) = false := by simpa using hc
      exact ⟨w, by simp [hw], by rw [List.lookup_cons, hb, hlookup]⟩

theorem get_eq {r : Row} {column : String} (h : column ∈ r.headers) :
    r.get column = .ok (r.cell column) := by
  obtain ⟨v, -, hv⟩ := exists_lookup h
  simp [get, cell, hv]

theorem pick_eq {r : Row} {columns : List String} (h : ∀ c ∈ columns, c ∈ r.headers) :
    r.pick columns = .ok (columns.map r.cell) :=
  mapM_eq_ok fun c hc => get_eq (h c hc)

@[simp] theorem cell_cons_self (column value : String) (cells : List (String × String)) :
    cell ⟨(column, value) :: cells⟩ column = value := by
  simp [cell]

theorem cell_cons_of_ne {column other : String} (h : other ≠ column) (value : String)
    (cells : List (String × String)) :
    cell ⟨(column, value) :: cells⟩ other = cell ⟨cells⟩ other := by
  have hb : (other == column) = false := by simpa using h
  rw [cell, cell, List.lookup_cons, hb]

/-- If no name is repeated, the cells of some of the columns are those that stand under their
names. -/
theorem map_cell_filter {r : Row} (h : r.headers.Nodup) (p : String → Bool) :
    (r.headers.filter p).map r.cell = (r.cells.filter fun x => p x.1).map Prod.snd := by
  obtain ⟨cells⟩ := r
  induction cells with
  | nil => rfl
  | cons x cells ih =>
    obtain ⟨column, value⟩ := x
    obtain ⟨hcolumn, hrest⟩ := List.nodup_cons.1 h
    have hlater : ((cells.map Prod.fst).filter p).map (cell ⟨(column, value) :: cells⟩) =
        ((cells.map Prod.fst).filter p).map (cell ⟨cells⟩) := by
      refine List.map_congr_left fun c hc => cell_cons_of_ne ?_ value cells
      rintro rfl
      exact hcolumn (List.mem_filter.1 hc).1
    have hrows := ih hrest
    by_cases hp : p column = true <;> simp_all [headers]

/-! ### Changing cells -/

/-- The row with a value in every cell of a column. -/
def setColumn (r : Row) (column value : String) : Row :=
  ⟨r.cells.map fun (h, v) => (h, if h = column then value else v)⟩

/-- The row with the values assigned to columns, one assignment after the other. -/
def overwrite (r : Row) (assignments : List (String × String)) : Row :=
  assignments.foldl (fun r a => r.setColumn a.1 a.2) r

@[simp] theorem headers_setColumn (r : Row) (column value : String) :
    (r.setColumn column value).headers = r.headers := by
  simp [setColumn, headers, Function.comp_def]

@[simp] theorem headers_overwrite (r : Row) (assignments : List (String × String)) :
    (r.overwrite assignments).headers = r.headers := by
  induction assignments generalizing r with
  | nil => rfl
  | cons a assignments ih => exact (ih _).trans (headers_setColumn r a.1 a.2)

theorem withValue_eq {r : Row} {column : String} (h : column ∈ r.headers) (value : String) :
    r.withValue column value = .ok (r.setColumn column value) := by
  simp [withValue, h, setColumn]

theorem mem_values_setColumn {r : Row} {column value v : String}
    (h : v ∈ (r.setColumn column value).values) : v = value ∨ v ∈ r.values := by
  simp only [setColumn, values, List.map_map, List.mem_map, Function.comp_apply] at h
  obtain ⟨⟨c, w⟩, hmem, rfl⟩ := h
  by_cases hc : c = column
  · exact .inl (by simp [hc])
  · refine .inr (List.mem_map.2 ⟨(c, w), hmem, by simp [hc]⟩)

theorem mem_values_overwrite {r : Row} {assignments : List (String × String)} {v : String}
    (h : v ∈ (r.overwrite assignments).values) : v ∈ assignments.map Prod.snd ∨ v ∈ r.values := by
  induction assignments generalizing r with
  | nil => exact .inr h
  | cons a assignments ih =>
    rcases ih h with h | h
    · exact .inl (by simp [h])
    · rcases mem_values_setColumn h with rfl | h
      · exact .inl (by simp)
      · exact .inr h

/-- The row without the cells of a column. -/
def dropColumn (r : Row) (column : String) : Row := ⟨r.cells.filter fun (h, _) => h ≠ column⟩

@[simp] theorem headers_dropColumn (r : Row) (column : String) :
    (r.dropColumn column).headers = r.headers.filter (· ≠ column) := by
  simp [dropColumn, headers, List.filter_map, Function.comp_def]

theorem mem_values_dropColumn {r : Row} {column v : String}
    (h : v ∈ (r.dropColumn column).values) : v ∈ r.values := by
  obtain ⟨x, hx, rfl⟩ := List.mem_map.1 h
  exact List.mem_map_of_mem (List.mem_filter.1 hx).1

theorem withoutColumn_eq {r : Row} {column : String} (h : column ∈ r.headers) :
    r.withoutColumn column = .ok (r.dropColumn column) := by
  simp [withoutColumn, h, dropColumn]

/-! ### Cells that stay -/

section

variable {r : Row} {column other value : String}

theorem cell_setColumn_of_ne (h : other ≠ column) :
    (r.setColumn column value).cell other = r.cell other := by
  obtain ⟨cells⟩ := r
  induction cells with
  | nil => rfl
  | cons x cells ih =>
    obtain ⟨c, v⟩ := x
    by_cases hc : other = c
    · subst hc
      simp [setColumn, h]
    · exact (cell_cons_of_ne hc _ _).trans (ih.trans (cell_cons_of_ne hc v cells).symm)

theorem cell_overwrite_of_not_mem {assignments : List (String × String)}
    (h : other ∉ assignments.map Prod.fst) :
    (r.overwrite assignments).cell other = r.cell other := by
  induction assignments generalizing r with
  | nil => rfl
  | cons a assignments ih =>
    simp only [List.map_cons, List.mem_cons, not_or] at h
    exact (ih h.2).trans (cell_setColumn_of_ne h.1)

theorem cell_withColumn (h : other ∈ r.headers) :
    (r.withColumn column value).cell other = r.cell other := by
  obtain ⟨v, -, hv⟩ := exists_lookup h
  simp [cell, withColumn, List.lookup_append, hv]

/-- The last cell is the first one of its column if the row has no other. -/
theorem cell_withColumn_self (h : column ∉ r.headers) :
    (r.withColumn column value).cell column = value := by
  have hnone : r.cells.lookup column = none := by
    rw [List.lookup_eq_none_iff]
    intro x hx
    have hne : column ≠ x.1 := by
      rintro rfl
      exact h (List.mem_map_of_mem hx)
    simpa using hne
  simp [cell, withColumn, List.lookup_append, hnone]

theorem cell_dropColumn_of_ne (h : other ≠ column) :
    (r.dropColumn column).cell other = r.cell other := by
  obtain ⟨cells⟩ := r
  induction cells with
  | nil => rfl
  | cons x cells ih =>
    obtain ⟨c, v⟩ := x
    by_cases hdrop : c = column
    · subst hdrop
      have hrest := ih.trans (cell_cons_of_ne h v cells).symm
      simpa [dropColumn] using hrest
    · by_cases hc : other = c
      · subst hc
        simp [dropColumn, hdrop]
      · have hrest := ih.trans (cell_cons_of_ne hc v cells).symm
        simpa [dropColumn, hdrop, cell_cons_of_ne hc] using hrest

/-- A column that was added is taken away without a trace. -/
theorem dropColumn_withColumn (h : column ∉ r.headers) :
    (r.withColumn column value).dropColumn column = r := by
  obtain ⟨cells⟩ := r
  have hkept : cells.filter (fun x => x.1 ≠ column) = cells := by
    rw [List.filter_eq_self]
    intro x hx
    have hne : x.1 ≠ column := by
      rintro rfl
      exact h (List.mem_map_of_mem hx)
    simpa using hne
  simpa [dropColumn, withColumn] using hkept

end

end Row

namespace Table

/-- Every row has its cells under the columns of the table, in their order. -/
def Aligned (t : Table) : Prop := ∀ r ∈ t.rows, r.headers = t.headers

/-- The cells of a column, from the first row to the last. -/
def column (t : Table) (name : String) : List String := t.rows.map (·.cell name)

@[simp] theorem hasColumn_iff {t : Table} {column : String} :
    t.hasColumn column = true ↔ column ∈ t.headers := by
  simp [hasColumn]

/-! ### Choosing rows -/

theorem row_eq {t : Table} {place : Nat} (h : place < t.rows.length) (absent : ShapeError) :
    t.row place absent = .ok t.rows[place] := by
  simp [row, List.getElem?_eq_getElem h]

theorem mapM_placesFrom {t : Table} {selected : List Bool} (place : Nat)
    (h : place + selected.length = t.rows.length) :
    (placesFrom place selected).mapM (fun p => t.row p .noRowToChange) =
      .ok (chosen selected (t.rows.drop place)) := by
  induction selected generalizing place with
  | nil => cases hd : t.rows.drop place <;> rfl
  | cons b bs ih =>
    have hplace : place < t.rows.length := by
      simp only [List.length_cons] at h
      omega
    have hrest := ih (place + 1) (by simp only [List.length_cons] at h; omega)
    rw [List.drop_eq_getElem_cons hplace]
    cases b with
    | false => simpa [placesFrom, chosen] using hrest
    | true =>
      simp only [placesFrom, chosen, if_true, List.mapM_cons, row_eq hplace, hrest]
      rfl

/-- With one choice for each row, the chosen rows are found. -/
theorem rowsWhere_eq {t : Table} {selected : List Bool} (h : selected.length = t.rows.length) :
    t.rowsWhere selected = .ok (chosen selected t.rows) :=
  mapM_placesFrom 0 (by omega)

/-! ### Projection -/

/-- The table with only the columns named, in the order they have in the table. -/
def projection (t : Table) (names : List String) : Table :=
  let kept := t.headers.filter names.contains
  ⟨t.name, kept, t.rows.map fun r => ⟨kept.zip (kept.map r.cell)⟩⟩

/-- A projection of an aligned table fails only on a column that the table has not. -/
theorem project_eq {t : Table} (ht : t.Aligned) (names : List String) :
    t.project names =
      match names.find? fun n => !t.hasColumn n with
      | some n => .error (.columnMissing n)
      | none => .ok (t.projection names) := by
  have hrows : (t.rows.mapM fun r => do
      Row.ofValues (t.headers.filter names.contains)
        (← r.pick (t.headers.filter names.contains))) = .ok (t.projection names).rows := by
    refine mapM_eq_ok fun r hr => ?_
    have hpick : r.pick (t.headers.filter names.contains) =
        .ok ((t.headers.filter names.contains).map r.cell) :=
      Row.pick_eq fun c hc => ht r hr ▸ (List.mem_filter.1 hc).1
    rw [hpick]
    exact Row.ofValues_eq_ok_iff.2 ⟨by simp, rfl⟩
  unfold project
  dsimp only
  rw [hrows]
  rfl

/-! ### Edits -/

theorem run_addColumn {t : Table} {column : String} (h : column ∉ t.headers) :
    (addColumn column).run t = .ok () { t with
      headers := t.headers ++ [column], rows := t.rows.map fun r => r.withColumn column "" } := by
  simp [addColumn, hasColumn_iff, h]

theorem run_addColumn_of_mem {t : Table} {column : String} (h : column ∈ t.headers) :
    (addColumn column).run t = .error (.columnExists column) t := by
  simp [addColumn, hasColumn_iff, h]

theorem run_deleteColumn {t : Table} (ht : t.Aligned) {column : String} (h : column ∈ t.headers) :
    (deleteColumn column).run t = .ok () { t with
      headers := t.headers.erase column, rows := t.rows.map fun r => r.dropColumn column } := by
  have hrows : (t.rows.mapM fun r => r.withoutColumn column) =
      .ok (t.rows.map fun r => r.dropColumn column) :=
    mapM_eq_ok fun r hr => Row.withoutColumn_eq (ht r hr ▸ h)
  simp [deleteColumn, hasColumn_iff, h, hrows, liftShape]

theorem run_deleteColumn_of_not_mem {t : Table} {column : String} (h : column ∉ t.headers) :
    (deleteColumn column).run t = .error (.columnMissing column) t := by
  simp [deleteColumn, hasColumn_iff, h]

theorem run_addRow {t : Table} {values : List String} (h : t.headers.length = values.length) :
    (addRow values).run t =
      .ok ⟨t.headers.zip values⟩ { t with rows := t.rows ++ [⟨t.headers.zip values⟩] } := by
  have hrow : Row.ofValues t.headers values = .ok ⟨t.headers.zip values⟩ :=
    Row.ofValues_eq_ok_iff.2 ⟨h, rfl⟩
  rw [addRow, EStateM.run_bind, EStateM.run_get]
  dsimp only
  rw [hrow]
  rfl

theorem run_changeCell {t : Table} {place : Nat} (hplace : place < t.rows.length) {column : String}
    (hrow : t.rows[place].headers = t.headers) (h : column ∈ t.headers) (value : String) :
    (changeCell place column value).run t =
      .ok () { t with rows := t.rows.set place (t.rows[place].setColumn column value) } := by
  have hchanged := Row.withValue_eq (hrow ▸ h) value
  simp [changeCell, hasColumn_iff, h, row_eq hplace, hchanged, liftShape]

theorem run_changeRow {t : Table} {place : Nat} (hplace : place < t.rows.length)
    (hrow : t.rows[place].headers = t.headers) {assignments : List (String × String)}
    (h : ∀ a ∈ assignments, a.1 ∈ t.headers) :
    (changeRow place assignments).run t =
      .ok () { t with rows := t.rows.set place (t.rows[place].overwrite assignments) } := by
  induction assignments generalizing t with
  | nil => simp [changeRow, Row.overwrite]
  | cons a assignments ih =>
    obtain ⟨column, value⟩ := a
    rw [changeRow, EStateM.run_bind, run_changeCell hplace hrow (h (column, value) (by simp))]
    have hrest := ih (t := { t with
      rows := t.rows.set place (t.rows[place].setColumn column value) }) (by simpa using hplace)
      (by simpa using hrow) fun a ha => h a (List.mem_cons_of_mem _ ha)
    dsimp only at hrest ⊢
    rw [hrest]
    simp [Row.overwrite]

theorem Aligned.set {t : Table} (ht : t.Aligned) (place : Nat) {r : Row}
    (hr : r.headers = t.headers) : Aligned { t with rows := t.rows.set place r } := by
  intro s hs
  rcases List.mem_or_eq_of_mem_set hs with hs | rfl
  · exact ht s hs
  · exact hr

/-- The rows with the assignments made in the chosen ones. -/
def overwritten (selected : List Bool) (assignments : List (String × String)) (rows : List Row) :
    List Row :=
  List.zipWith (fun b r => if b then r.overwrite assignments else r) selected rows

theorem run_changeRows_placesFrom {t : Table} (ht : t.Aligned) {selected : List Bool} (place : Nat)
    (hlength : place + selected.length = t.rows.length) {assignments : List (String × String)}
    (h : ∀ a ∈ assignments, a.1 ∈ t.headers) :
    (changeRows assignments (placesFrom place selected)).run t = .ok () { t with
      rows := t.rows.take place ++ overwritten selected assignments (t.rows.drop place) } := by
  induction selected generalizing place t with
  | nil =>
    have : t.rows.take place = t.rows := List.take_of_length_le (by simp at hlength; omega)
    simp [placesFrom, changeRows, overwritten, this]
  | cons b bs ih =>
    simp only [List.length_cons] at hlength
    have hplace : place < t.rows.length := by omega
    have htake : ∀ r, (t.rows.set place r).take (place + 1) = t.rows.take place ++ [r] := by
      intro r
      rw [List.take_add_one, List.take_set_of_le (Nat.le_refl place)]
      simp [hplace]
    cases b with
    | false =>
      have := ih ht (place + 1) (by omega) h
      have hsame := htake t.rows[place]
      rw [List.set_getElem_self] at hsame
      rw [placesFrom, if_neg (by simp), this, hsame, List.drop_eq_getElem_cons hplace,
        List.append_assoc]
      rfl
    | true =>
      have hrow := ht _ (List.getElem_mem hplace)
      rw [placesFrom, if_pos rfl, changeRows, EStateM.run_bind, run_changeRow hplace hrow h]
      have hset : (t.rows[place].overwrite assignments).headers = t.headers := by simpa using hrow
      have hrest := ih (ht.set place hset) (place + 1) (by simp; omega) h
      dsimp only at hrest ⊢
      rw [hrest, htake, List.drop_set_of_lt (Nat.lt_succ_self place),
        List.drop_eq_getElem_cons hplace, List.append_assoc]
      rfl

/-- With one choice for each row, the assignments are made in the chosen rows. -/
theorem run_updateRows {t : Table} (ht : t.Aligned) {selected : List Bool}
    (hlength : selected.length = t.rows.length) {assignments : List (String × String)}
    (h : ∀ a ∈ assignments, a.1 ∈ t.headers) :
    (updateRows selected assignments).run t =
      .ok () { t with rows := overwritten selected assignments t.rows } := by
  exact run_changeRows_placesFrom ht 0 (by omega) h

theorem deleteEach_append (ps qs : List Nat) :
    deleteEach (ps ++ qs) = (do deleteEach ps; deleteEach qs) := by
  induction ps with
  | nil => rfl
  | cons p ps ih => simp only [List.cons_append, deleteEach, ih, bind_assoc]

theorem run_deleteRow {t : Table} {place : Nat} (hplace : place < t.rows.length) :
    (deleteRow place).run t = .ok () { t with rows := t.rows.eraseIdx place } := by
  simp [deleteRow, row_eq hplace, liftShape]

theorem run_deleteEach_placesFrom {t : Table} {selected : List Bool} (place : Nat)
    (hlength : place + selected.length = t.rows.length) :
    (deleteEach (placesFrom place selected).reverse).run t = .ok () { t with
      rows := t.rows.take place ++ chosen (selected.map not) (t.rows.drop place) } := by
  induction selected generalizing place with
  | nil =>
    have : t.rows.take place = t.rows := List.take_of_length_le (by simp at hlength; omega)
    simp [placesFrom, deleteEach, chosen, this]
  | cons b bs ih =>
    simp only [List.length_cons] at hlength
    have hplace : place < t.rows.length := by omega
    have hrest := ih (place + 1) (by omega)
    have htake : t.rows.take (place + 1) = t.rows.take place ++ [t.rows[place]] := by
      rw [List.take_add_one, List.getElem?_eq_getElem hplace, Option.toList_some]
    cases b with
    | false =>
      rw [placesFrom, if_neg (by simp), hrest, htake, List.drop_eq_getElem_cons hplace,
        List.append_assoc]
      rfl
    | true =>
      rw [placesFrom, if_pos rfl, List.reverse_cons, deleteEach_append, EStateM.run_bind, hrest]
      have herase : (t.rows.take place ++ [t.rows[place]] ++
          chosen (bs.map not) (t.rows.drop (place + 1))).eraseIdx place =
          t.rows.take place ++ chosen (bs.map not) (t.rows.drop (place + 1)) := by
        have hbefore : (t.rows.take place).length = place :=
          List.length_take_of_le (Nat.le_of_lt hplace)
        rw [List.append_assoc, List.eraseIdx_append_of_length_le (Nat.le_of_eq hbefore), hbefore,
          Nat.sub_self]
        rfl
      have hlast : place < (t.rows.take (place + 1) ++
          chosen (bs.map not) (t.rows.drop (place + 1))).length := by
        rw [List.length_append, List.length_take]
        omega
      dsimp only
      rw [deleteEach, EStateM.run_bind, run_deleteRow hlast, htake, herase,
        List.drop_eq_getElem_cons hplace]
      rfl

/-- With one choice for each row, the rows that are not chosen stay. -/
theorem run_deleteRows {t : Table} {selected : List Bool}
    (hlength : selected.length = t.rows.length) :
    (deleteRows selected).run t = .ok () { t with rows := chosen (selected.map not) t.rows } := by
  exact run_deleteEach_placesFrom 0 (by omega)

end Table

end Tabula
