import Tabula.Proofs.Condition.Noted
import Tabula.Proofs.Session.Repeated

/-!
# Warnings about groups

A query, an update and a deletion under a condition with groups go well whatever the groups are, and
give the same warnings: the messages of the faults that are noted on the rows of the table
(`warnings_of_groups`). So a group that is no term of the table is warned about if on some row no
group in front of it decides, and only then: `(age > 1) OR (mark > 60)` gives a warning for a table
without a column `age`, while `(mark > 60) OR (age > 1)` gives one only if the mark of some row is
not above 60.
-/

namespace Tabula

open Operation

variable {w : World} {name condition : String} {t : Table}

theorem Condition.validate_of_hasGroup (header : List String)
    (hgroup : HasGroup condition.toList) :
    (read (some condition)).validate header = .ok () := by
  rw [read, validate_readText, if_neg (strip_ne_empty_of_hasGroup hgroup),
    if_pos ⟨hasParenthesis_of_hasGroup hgroup, hgroup⟩]

/-- Writing a table that can be encoded over the one in its file goes well. -/
theorem exists_run_store {path : Path} {t' : Table} (ht : w.files.table name path = .ok t)
    (ht' : t'.Encoded w.files.encoding) (a : Answer) :
    ∃ w', (do store t' path; return a : Operation Answer).run w = .ok a w' := by
  obtain ⟨w', hstore⟩ := exists_store_of_table ht ht'
  exact ⟨w', run_store_eq_ok_iff.2 ⟨rfl, hstore⟩⟩

/-- The commands about the rows of a table under a condition with groups go well, with any values
that can be encoded, and have the same warnings, each once. These are the messages of the groups at
fault that are reached on some row. -/
theorem warnings_of_groups (ht : w.table name = .ok t)
    (hgroup : Condition.HasGroup condition.toList) :
    ∃ gs warnings, Condition.Found condition.toList gs ∧
      (∀ columns shown, t.shown columns = .ok shown →
        ∃ rows, (Command.select name columns (some condition)).run.run w =
          .ok { columns := shown.headers, rows := rows, warnings := warnings } w) ∧
      (∀ assignments : List (String × String),
        (∀ a ∈ assignments, a.1 ∈ t.headers ∧ a.1 ≠ Table.idColumn) →
        (∀ a ∈ assignments, w.files.encoding.Encodes a.2) →
        ∃ w', (Command.update name assignments condition).run.run w =
          .ok { warnings := warnings } w') ∧
      (∃ w', (Command.delete name condition).run.run w = .ok { warnings := warnings } w') ∧
      warnings.Nodup ∧
      ∀ m, m ∈ warnings ↔ ∃ e : ConditionError, m = e.message ∧
        ∃ r ∈ t.rows, Condition.NotedOn t.headers r.values condition gs e := by
  have hvalidate := Condition.validate_of_hasGroup t.headers hgroup
  obtain ⟨path, hpath, hfile⟩ := World.exists_tablePath ht
  obtain ⟨selected, faults, hevaluate⟩ :=
    Condition.exists_evaluateAll hvalidate [] (t.rows.map Row.values)
  have hpasses := PassesRows.of_evaluateAll hpath hfile hvalidate hevaluate
  have hencoded := FileTree.encoded_of_table hfile
  refine ⟨_, faults.map ConditionError.message, Condition.found_iff.2 rfl, ?_, ?_, ?_, ?_, ?_⟩
  · exact fun columns shown hshown => ⟨_, hpasses.select columns shown hshown⟩
  · intro assignments hassignments hencodes
    have hvalues := List.forall_mem_map.2 hencodes
    have hassignable : t.assignable (assignments.map Prod.fst) = .ok () :=
      Table.assignable_eq_ok_iff.2 (List.forall_mem_map.2 hassignments)
    rw [hpasses.update condition rfl assignments hassignable]
    exact exists_run_store hfile (hencoded.overwritten selected hvalues) _
  · rw [hpasses.delete condition rfl]
    exact exists_run_store hfile (hencoded.chosen _) _
  · exact (Condition.Grows.evaluateAll hevaluate).nodup_messages List.nodup_nil
  · intro m
    simp only [List.mem_map, Condition.mem_of_evaluateAll_groups hgroup hevaluate,
      List.not_mem_nil, false_or, exists_exists_and_eq_and]
    exact exists_congr fun e => by rw [and_comm, eq_comm]

/-- A table of one row. -/
def sampleSimon : Table := ⟨"t", ["id", "name"], [⟨[("id", "1"), ("name", "Simon")]⟩]⟩

theorem table_sampleSimon :
    (World.sample "id\tname\n1\tSimon\n").table "t" = .ok sampleSimon := by
  have hread : Table.read "t" "id\tname\n1\tSimon\n" = .ok sampleSimon := rfl
  rw [World.table_sample, hread]
  rfl

theorem run_select_sampleSimon {a : Answer}
    (h : sampleSimon.queried .all (some condition) = .ok a) :
    (Command.select "t" .all (some condition)).run.run (.sample "id\tname\n1\tSimon\n") =
      .ok a (.sample "id\tname\n1\tSimon\n") := by
  rw [Command.run, run_selectFrom, table_sampleSimon, ok_bind, h]
  rfl

/-- A group at fault goes unseen behind a group that decides, and is warned about in front of it. -/
theorem warnings_of_groups_sample :
    Condition.TermFault ["id", "name"] "age == 7" (.columnNotFound "age") ∧
    (∃ warnings, (Command.select "t" .all (some "(name == 'Simon') OR (age == 7)")).run.run
        (.sample "id\tname\n1\tSimon\n") =
          .ok ⟨["id", "name"], [["1", "Simon"]], warnings⟩ (.sample "id\tname\n1\tSimon\n") ∧
      warnings = []) ∧
    ∃ warnings, (Command.select "t" .all (some "(age == 7) OR (name == 'Simon')")).run.run
        (.sample "id\tname\n1\tSimon\n") =
          .ok ⟨["id", "name"], [["1", "Simon"]], warnings⟩ (.sample "id\tname\n1\tSimon\n") ∧
      "Condition attribute not found: age" ∈ warnings := by
  have hfault : Condition.TermFault ["id", "name"] "age == 7" (.columnNotFound "age") :=
    Condition.resolve_eq_error_iff_termFault.1 rfl
  have hhidden : (Command.select "t" .all (some "(name == 'Simon') OR (age == 7)")).run.run
      (.sample "id\tname\n1\tSimon\n") =
        .ok ⟨["id", "name"], [["1", "Simon"]], []⟩ (.sample "id\tname\n1\tSimon\n") :=
    run_select_sampleSimon rfl
  have hseen : (Command.select "t" .all (some "(age == 7) OR (name == 'Simon')")).run.run
      (.sample "id\tname\n1\tSimon\n") =
        .ok ⟨["id", "name"], [["1", "Simon"]], ["Condition attribute not found: age"]⟩
          (.sample "id\tname\n1\tSimon\n") :=
    run_select_sampleSimon rfl
  refine ⟨hfault, ?_, ?_⟩
  · have hgroup : Condition.HasGroup "(name == 'Simon') OR (age == 7)".toList := by decide
    obtain ⟨gs, warnings, -, hselect, -⟩ := warnings_of_groups table_sampleSimon hgroup
    obtain ⟨rows, hrun⟩ := hselect .all sampleSimon rfl
    cases hrun.symm.trans hhidden
    exact ⟨[], hrun, rfl⟩
  · have hgroup : Condition.HasGroup "(age == 7) OR (name == 'Simon')".toList := by decide
    obtain ⟨gs, warnings, hfound, hselect, -, -, -, hmem⟩ :=
      warnings_of_groups table_sampleSimon hgroup
    obtain ⟨rows, hrun⟩ := hselect .all sampleSimon rfl
    have hgs : gs = ["age == 7".toList, "name == 'Simon'".toList] :=
      (Condition.found_iff.1 hfound).symm.trans rfl
    have hreached : Condition.Reached ["id", "name"] ["1", "Simon"]
        "(age == 7) OR (name == 'Simon')" [] := by simp [Condition.Reached]
    have hnoted := (hmem "Condition attribute not found: age").2 ⟨.columnNotFound "age", rfl, _,
      List.mem_singleton_self _, [], _, _, hgs, hreached, hfault⟩
    cases hrun.symm.trans hseen
    exact ⟨_, hrun, hnoted⟩

end Tabula
