import Tabula.Proofs.Table.File

/-!
# Columns that come and go

A column that is added is last and empty in all rows, and a column that is taken away goes with its
cells. Neither moves a cell of another column, and a column that was added can be taken away without
a trace (`Table.reduced_extended`).

A table without columns is not read back as it was: its lines are empty, and an empty line is read
as one empty cell. So a table that loses its only column keeps its rows and is left with one column
that has no name (`Table.remainder`).
-/

namespace Tabula.Table

open Text (Plain)

/-- The table with a new last column, empty in all rows. -/
def extended (t : Table) (column : String) : Table :=
  { t with headers := t.headers ++ [column], rows := t.rows.map fun r => r.withColumn column "" }

/-- The table without a column: its name goes from the header once, its cells go from all rows. -/
def reduced (t : Table) (column : String) : Table :=
  { t with headers := t.headers.erase column, rows := t.rows.map fun r => r.dropColumn column }

/-- As many rows under one column that has no name, all of them empty. -/
def nameless (t : Table) : Table := ⟨t.name, [""], t.rows.map fun _ => ⟨[("", "")]⟩⟩

/-- What is read back of a table without one of its columns. -/
def remainder (t : Table) (column : String) : Table :=
  if t.headers = [column] then t.nameless else t.reduced column

variable {t : Table} {column other : String}

/-! ### Cells of other columns -/

theorem column_extended_of_mem (ht : t.Aligned) (h : other ∈ t.headers) :
    (t.extended column).column other = t.column other := by
  rw [Table.column, extended, List.map_map]
  exact List.map_congr_left fun r hr => Row.cell_withColumn (ht r hr ▸ h)

theorem column_extended_self (ht : t.Aligned) (h : column ∉ t.headers) :
    (t.extended column).column column = List.replicate t.rows.length "" := by
  rw [Table.column, extended, List.map_map, ← List.map_const']
  exact List.map_congr_left fun r hr => Row.cell_withColumn_self (ht r hr ▸ h)

theorem column_reduced_of_ne (h : other ≠ column) :
    (t.reduced column).column other = t.column other := by
  rw [Table.column, reduced, List.map_map]
  exact List.map_congr_left fun _ _ => Row.cell_dropColumn_of_ne h

/-- A column that was added is taken away without a trace. -/
theorem reduced_extended (ht : t.Aligned) (h : column ∉ t.headers) :
    (t.extended column).reduced column = t := by
  obtain ⟨name, headers, rows⟩ := t
  have hheaders : (headers ++ [column]).erase column = headers := by
    rw [List.erase_append_right _ h, List.erase_cons_head, List.append_nil]
  have hrows : (rows.map fun r => r.withColumn column "").map (fun r => r.dropColumn column) =
      rows := by
    rw [List.map_map]
    refine (List.map_congr_left fun r hr => ?_).trans (List.map_id rows)
    exact Row.dropColumn_withColumn (ht r hr ▸ h)
  rw [extended, reduced, hheaders, hrows]

/-! ### Through the file -/

/-- A name that is plain can be given to a new column. -/
theorem Storable.extended (ht : t.Storable) (hplain : Plain column) :
    (t.extended column).Storable where
  headers_ne_nil := by simp [Table.extended]
  plain_headers c hc := by
    rcases List.mem_append.1 hc with hc | hc
    · exact ht.plain_headers c hc
    · obtain rfl := List.mem_singleton.1 hc
      exact hplain
  aligned r hr := by
    obtain ⟨s, hs, rfl⟩ := List.mem_map.1 hr
    rw [Row.headers_withColumn, ht.aligned s hs]
    rfl
  plain_values r hr v hv := by
    obtain ⟨s, hs, rfl⟩ := List.mem_map.1 hr
    rw [Row.values_withColumn] at hv
    rcases List.mem_append.1 hv with hv | hv
    · exact ht.plain_values s hs v hv
    · obtain rfl := List.mem_singleton.1 hv
      exact Text.plain_empty

theorem headers_reduced (hnodup : t.headers.Nodup) :
    (t.reduced column).headers = t.headers.filter (· ≠ column) := by
  rw [reduced, hnodup.erase_eq_filter]
  exact List.filter_congr fun c _ => by by_cases h : c = column <;> simp [h]

/-- Without repeated names, the header loses the one name under which the rows lose their cells. -/
theorem Storable.reduced (ht : t.Storable) (hnodup : t.headers.Nodup)
    (hne : (t.reduced column).headers ≠ []) : (t.reduced column).Storable where
  headers_ne_nil := hne
  plain_headers c hc := ht.plain_headers c (List.mem_of_mem_erase hc)
  aligned r hr := by
    obtain ⟨s, hs, rfl⟩ := List.mem_map.1 hr
    rw [Row.headers_dropColumn, ht.aligned s hs, headers_reduced hnodup]
  plain_values r hr v hv := by
    obtain ⟨s, hs, rfl⟩ := List.mem_map.1 hr
    exact ht.plain_values s hs v (Row.mem_values_dropColumn hv)

theorem storable_nameless (t : Table) : t.nameless.Storable where
  headers_ne_nil := by simp [nameless]
  plain_headers := by simp [nameless, Text.plain_empty]
  aligned r hr := by
    obtain ⟨s, -, rfl⟩ := List.mem_map.1 hr
    rfl
  plain_values r hr v hv := by
    obtain ⟨s, -, rfl⟩ := List.mem_map.1 hr
    obtain rfl : v = "" := by simpa [Row.values] using hv
    exact Text.plain_empty

theorem storable_remainder (ht : t.Storable) (hnodup : t.headers.Nodup) :
    (t.remainder column).Storable := by
  unfold remainder
  split
  · exact storable_nameless t
  · rename_i hother
    refine ht.reduced hnodup fun hnil => hother ?_
    exact (List.erase_eq_nil_iff.1 hnil).resolve_left ht.headers_ne_nil

/-- The lines of a table without columns are those of a table with one column that is empty. -/
theorem fileText_remainder (ht : t.Aligned) :
    (t.remainder column).fileText = (t.reduced column).fileText := by
  unfold remainder
  split
  · rename_i hheaders
    have hrows : t.nameless.rows.map (fun r => line r.values) =
        (t.reduced column).rows.map fun r => line r.values := by
      rw [nameless, reduced, List.map_map, List.map_map]
      refine List.map_congr_left fun r hr => ?_
      have hvalues : (r.dropColumn column).values = [] := by
        rw [← List.length_eq_zero_iff, Row.length_values, Row.headers_dropColumn, ht r hr, hheaders]
        simp
      rw [Function.comp_apply, Function.comp_apply, hvalues]
      rfl
    rw [fileText, fileText, text, text, hrows, reduced, hheaders, List.erase_cons_head]
    rfl
  · rfl

theorem name_remainder (t : Table) (column : String) : (t.remainder column).name = t.name := by
  unfold remainder
  split <;> rfl

theorem remainder_extended (ht : t.Storable) (h : column ∉ t.headers) :
    (t.extended column).remainder column = t := by
  have hother : (t.extended column).headers ≠ [column] := fun hheaders =>
    ht.headers_ne_nil (List.append_left_eq_self.1 hheaders)
  rw [remainder, if_neg hother, reduced_extended ht.aligned h]

end Tabula.Table
