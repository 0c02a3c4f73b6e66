import Tabula.Proofs.Session.Repeated

/-!
# Queries that show some of the columns

A query that shows some of the columns shows the rows that the query for all columns shows, each
with only the cells of those columns (`select_projected`). The rows are chosen with all their cells
at hand, so a condition may ask for a column that is not shown.
-/

namespace Tabula

/-- The values that stand under some of the columns of a header. -/
def restricted (header names values : List String) : List String :=
  ((header.zip values).filter fun x => x.1 ∈ names).map Prod.snd

namespace Table

variable {t : Table} {names : List String}

/-- Without repeated names, a row of the projection has the values under the columns named. -/
theorem values_projection (hnodup : t.headers.Nodup) {r : Row} (hr : r.headers = t.headers) :
    (t.headers.filter names.contains).map r.cell = restricted t.headers names r.values := by
  have hcells := Row.map_cell_filter (r := r) (hr ▸ hnodup) names.contains
  rw [restricted, ← hr, hcells, Row.zip_headers_values]
  simp only [List.contains_eq_mem]

theorem shown_ofNames (ht : t.Aligned) (hstar : names ≠ ["*"])
    (hnames : ∀ n ∈ names, n ∈ t.headers) :
    t.shown (.ofNames names) = .ok (t.projection names) := by
  have hmissing : (names.find? fun n => !t.hasColumn n) = none := by
    rw [List.find?_eq_none]
    intro n hn
    simpa using hnames n hn
  rw [Projection.ofNames, if_neg hstar]
  simp only [shown, project_eq ht, hmissing]
  rfl

end Table

variable {w : World} {name : String} {t : Table} {names : List String} {condition : Option String}

/-- A query for some columns of a table shows them once each, in the order they have in the table,
whatever the order they are asked for in. It has the warnings of the query for all columns and shows
the same rows, each restricted to the columns asked for. A list of words is never the list that
holds nothing but a star. -/
theorem select_projected (ht : w.table name = .ok t) (hnodup : t.headers.Nodup)
    (hnames : ∀ n ∈ names, n ∈ t.headers) (hstar : names ≠ ["*"])
    (hvalidate : (Condition.read condition).validate t.headers = .ok ()) :
    ∃ all shown : Answer,
      (Command.select name .all condition).run.run w = .ok all w ∧
      all.columns = t.headers ∧
      all.rows = (t.rows.filter fun r =>
        (Condition.read condition).trueOn t.headers r.values).map Row.values ∧
      (Command.select name (.ofNames names) condition).run.run w = .ok shown w ∧
      shown.warnings = all.warnings ∧
      shown.columns = t.headers.filter (· ∈ names) ∧
      shown.columns.Nodup ∧ (∀ n, n ∈ shown.columns ↔ n ∈ names) ∧
      shown.rows = all.rows.map (restricted t.headers names) := by
  have haligned := (storable_of_worldTable ht).1.aligned
  obtain ⟨path, faults, -, -, hpasses⟩ := exists_passesRows_trueOn ht hvalidate
  have hall := hpasses.select .all t rfl
  have hshown := hpasses.select (.ofNames names) _ (Table.shown_ofNames haligned hstar hnames)
  have hkept : (t.projection names).headers = t.headers.filter (· ∈ names) :=
    List.filter_congr fun n _ => List.contains_eq_mem n names
  refine ⟨_, _, hall, rfl, ?_, hshown, rfl, hkept, ?_, fun n => ?_, ?_⟩
  · exact congrArg (·.map Row.values) (chosen_map_self _ _)
  · exact hkept ▸ hnodup.filter _
  · dsimp only
    rw [hkept, List.mem_filter, decide_eq_true_eq]
    exact ⟨And.right, fun hn => ⟨hnames n hn, hn⟩⟩
  · dsimp only
    rw [chosen_map_self, Table.projection, chosen_map, List.map_map, List.map_map]
    refine List.map_congr_left fun r hr => ?_
    have hheaders := haligned r (List.mem_filter.1 hr).1
    rw [Function.comp_apply, Function.comp_apply, Row.values_zip (by simp)]
    exact Table.values_projection hnodup hheaders

/-- A query that repeats a column, names columns out of order, and asks for one that it does not
show. -/
theorem select_projected_sample :
    ∃ all shown : Answer,
      (Command.select "t" .all (some "a == 'x'")).run.run (.sample sampleRows.fileText) =
        .ok all (.sample sampleRows.fileText) ∧
      (Command.select "t" (.ofNames ["b", "id", "b"]) (some "a == 'x'")).run.run
        (.sample sampleRows.fileText) = .ok shown (.sample sampleRows.fileText) ∧
      all.rows = [["1", "x", "p"], ["2", "x", "p"]] ∧
      shown.columns = ["id", "b"] ∧ shown.rows = [["1", "p"], ["2", "p"]] := by
  have hnames : ∀ n ∈ ["b", "id", "b"], n ∈ sampleRows.headers := by decide
  have hvalidate : (Condition.read (some "a == 'x'")).validate sampleRows.headers = .ok () := rfl
  obtain ⟨all, shown, hall, -, hrows, hshown, -, hcolumns, -, -, hrestricted⟩ :=
    select_projected table_sampleRows (by decide) hnames (by decide) hvalidate
  have hrows : all.rows = [["1", "x", "p"], ["2", "x", "p"]] := hrows.trans rfl
  refine ⟨all, shown, hall, hshown, hrows, hcolumns.trans rfl, ?_⟩
  rw [hrestricted, hrows]
  rfl

end Tabula
