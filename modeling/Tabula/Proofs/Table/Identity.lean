import Tabula.Proofs.Session.Sound

/-!
# Row numbers

The first column of a table is `id`, and the cell of a row under it never changes: an insertion adds
a number after those that are there, a deletion takes rows with their numbers away, and every other
change leaves the numbers as they are (`Table.Extends`). A table from which no row is deleted
is numbered from one on (`Table.Numbered`).
-/

namespace Tabula

open Text (Plain)

theorem sublist_of_chosen {α : Type} (bs : List Bool) (as : List α) :
    (chosen bs as).Sublist as := by
  fun_induction chosen bs as with
  | case1 bs a as ih => exact ih.cons_cons a
  | case2 b bs a as hb ih => exact ih.cons a
  | case3 => exact List.nil_sublist _

namespace Table

variable {t t' : Table} {a : Answer}

/-- The numbers of the rows, in order. -/
def ids (t : Table) : List String := t.rows.map (·.cell idColumn)

/-- The rows are numbered from one on. -/
def Numbered (t : Table) : Prop := t.ids = (List.range t.rows.length).map fun i => toString (i + 1)

/-- A sound table with the column `id` in front. -/
structure Tidy (t : Table) : Prop extends Sound t where
  id_first : t.headers.head? = some idColumn

/-- A text that a table is read from by its name, with the column `id` in front, no column name
repeated, and as many cells in each line as there are columns. -/
structure WellWritten (name text : String) (t : Table) : Prop where
  read_eq : read name text = .ok t
  id_first : t.headers.head? = some idColumn
  nodup_headers : t.headers.Nodup
  aligned : t.Aligned
  length_fields : ∀ l ∈ (Text.lines (Text.unifyBreaks text.toList)).map String.ofList,
    (fields l).length = t.headers.length

theorem Tidy.wellWritten (ht : t.Tidy) : WellWritten t.name t.fileText t where
  read_eq := read_fileText ht.toStorable
  id_first := ht.id_first
  nodup_headers := ht.nodup_headers
  aligned := ht.aligned
  length_fields l hl := by
    rw [lines_fileText ht.toStorable] at hl
    rcases List.mem_cons.1 hl with rfl | hl
    · rw [fields_line ht.headers_ne_nil ht.plain_headers]
    · obtain ⟨r, hr, rfl⟩ := List.mem_map.1 hl
      have hlength : r.values.length = t.headers.length := by
        rw [Row.length_values, ht.aligned r hr]
      have hvalues : r.values ≠ [] := by
        intro hnil
        rw [hnil] at hlength
        exact ht.headers_ne_nil (List.length_eq_zero_iff.1 hlength.symm)
      rw [fields_line hvalues (ht.plain_values r hr), hlength]

/-- What a change other than a deletion does to a table. -/
structure Extends (t t' : Table) : Prop where
  tidy : t'.Tidy
  name_eq : t'.name = t.name
  ids : t.ids <+: t'.ids
  numbered : t.Numbered → t'.Numbered

theorem Tidy.extends_refl (ht : t.Tidy) : t.Extends t :=
  ⟨ht, rfl, List.prefix_refl _, id⟩

/-- A change of the rows that keeps them in place, with their numbers. -/
theorem Tidy.extends_of_ids_eq (htidy : t'.Tidy) (hname : t'.name = t.name)
    (hids : t'.ids = t.ids) : t.Extends t' := by
  have hlength : t'.rows.length = t.rows.length := by
    simpa [Table.ids] using congrArg List.length hids
  exact ⟨htidy, hname, hids ▸ List.prefix_refl _, fun h => by rw [Numbered, hids, hlength]; exact h⟩

theorem tidy_of_newTable {name : String} {declared : List String}
    (hplain : ∀ c ∈ declared, Plain c) (h : Operation.newTable name declared = .ok t) :
    t.Tidy ∧ t.name = name ∧ t.Numbered := by
  obtain ⟨hsound, hname⟩ := sound_of_newTable hplain h
  unfold Operation.newTable at h
  split at h
  · cases h
  · cases h
    exact ⟨⟨hsound, rfl⟩, hname, rfl⟩

/-- An empty text is read as a table without rows, with the column `id` only. -/
theorem wellWritten_empty (name : String) : WellWritten name "" (empty name [idColumn]) where
  read_eq := rfl
  id_first := rfl
  nodup_headers := List.pairwise_singleton _ _
  aligned := nofun
  length_fields := nofun

theorem tidy_empty (name : String) : (empty name [idColumn]).Tidy := by
  have hnone : ∀ c ∈ ([] : List String), Plain c := nofun
  exact (tidy_of_newTable hnone rfl).1

theorem extends_of_inserted (ht : t.Tidy) {name : String} {values : List String}
    (hplain : ∀ v ∈ values, Plain v) (h : t.inserted name values = .ok (t', a)) :
    t.Extends t' := by
  obtain ⟨hsound, hname⟩ := sound_of_inserted ht.toSound hplain h
  obtain ⟨-, rfl, -⟩ := (inserted_eq_ok_iff ht.headers_ne_nil).1 h
  obtain ⟨rest, hheaders⟩ := List.head?_eq_some_iff.1 ht.id_first
  have hids : ({ t with rows := t.rows ++
      [⟨t.headers.zip (toString (t.rows.length + 1) :: values)⟩] } : Table).ids =
        t.ids ++ [toString (t.rows.length + 1)] := by
    simp [ids, hheaders, Row.cell]
  refine ⟨⟨hsound, ht.id_first⟩, hname, ?_, fun hnumbered => ?_⟩
  · rw [hids]
    exact List.prefix_append _ _
  · rw [Numbered, hids, hnumbered]
    simp [List.range_succ]

/-- Assignments to other columns leave the numbers of the rows as they are. -/
theorem map_cell_overwritten {assignments : List (String × String)}
    (h : idColumn ∉ assignments.map Prod.fst) {selected : List Bool} {rows : List Row}
    (hlength : selected.length = rows.length) :
    (overwritten selected assignments rows).map (·.cell idColumn) =
      rows.map (·.cell idColumn) := by
  induction selected generalizing rows with
  | nil =>
    obtain rfl := List.length_eq_zero_iff.1 hlength.symm
    rfl
  | cons b selected ih =>
    obtain ⟨r, rows, rfl⟩ := List.exists_cons_of_length_eq_add_one hlength.symm
    have hrest : selected.length = rows.length := by simpa using hlength
    have hcell : (if b then r.overwrite assignments else r).cell idColumn = r.cell idColumn := by
      cases b with
      | false => rfl
      | true => exact Row.cell_overwrite_of_not_mem h
    change (if b then r.overwrite assignments else r).cell idColumn :: _ = _
    rw [hcell]
    exact congrArg (r.cell idColumn :: ·) (ih hrest)

theorem extends_of_updated (ht : t.Tidy) {assignments : List (String × String)}
    {condition : String} (hplain : ∀ v ∈ assignments.map Prod.snd, Plain v)
    (h : t.updated assignments condition = .ok (t', a)) : t.Extends t' := by
  obtain ⟨hsound, hname⟩ := sound_of_updated ht.toSound hplain h
  obtain ⟨hassignable, selected, faults, -, hjudged, rfl, -⟩ := judged_of_updated ht.aligned h
  refine Tidy.extends_of_ids_eq ⟨hsound, ht.id_first⟩ hname ?_
  have hid : idColumn ∉ assignments.map Prod.fst := fun hmem =>
    (assignable_eq_ok_iff.1 hassignable _ hmem).2 rfl
  exact map_cell_overwritten hid (length_of_judged hjudged)

theorem extends_of_altered (ht : t.Tidy) {alteration : Alteration} {column : String}
    (hplain : Plain column) (h : t.altered alteration column = .ok (t', a)) : t.Extends t' := by
  obtain ⟨hsound, hname⟩ := sound_of_altered ht.toSound hplain h
  rcases (altered_eq_ok_iff ht.aligned).1 h with ⟨-, -, rfl, -⟩ | ⟨-, ⟨-, hid⟩, rfl, -⟩
  · refine Tidy.extends_of_ids_eq ⟨hsound, ?_⟩ hname ?_
    · simp [extended, List.head?_append, ht.id_first]
    · exact column_extended_of_mem ht.aligned ht.id_mem_headers
  · refine Tidy.extends_of_ids_eq ⟨hsound, ?_⟩ hname ?_
    · obtain ⟨rest, hheaders⟩ := List.head?_eq_some_iff.1 ht.id_first
      have hne : ¬ (idColumn == column) = true := by simpa using Ne.symm hid
      simp [reduced, hheaders, List.erase_cons_tail hne]
    · exact column_reduced_of_ne (Ne.symm hid)

/-- A deletion takes rows away and changes nothing else. -/
theorem sublist_of_deleted (ht : t.Tidy) {condition : String}
    (h : t.deleted condition = .ok (t', a)) :
    t'.Tidy ∧ t'.name = t.name ∧ t'.headers = t.headers ∧ t'.rows.Sublist t.rows := by
  obtain ⟨hsound, hname⟩ := sound_of_deleted ht.toSound h
  obtain ⟨selected, faults, -, -, rfl, -⟩ := judged_of_deleted h
  exact ⟨⟨hsound, ht.id_first⟩, hname, rfl, sublist_of_chosen _ _⟩

end Table

end Tabula
