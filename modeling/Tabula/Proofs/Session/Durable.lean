import Tabula.Proofs.Session.Response

/-!
# What an insertion keeps

The rows of a table are still there after an insertion, in the same order, and the new row is the
last one. The file of a table escapes nothing, so the new row is what was inserted exactly if no
literal has a tab or a line break (`select_after_insert_iff`).
-/

namespace Tabula

/-! ### Selecting all rows -/

namespace Table

theorem judged_always (t : Table) :
    t.judged .always = .ok (t.rows.map fun _ => true, []) := by
  have hall : ∀ rows : List (List String), Condition.evaluateAll .always t.headers [] rows =
      .ok (rows.map fun _ => true, []) := by
    intro rows
    induction rows with
    | nil => rfl
    | cons row rows ih =>
      rw [Condition.evaluateAll, Condition.evaluate, ok_bind]
      dsimp only
      rw [ih]
      rfl
  simp [judged, hall]

theorem chosen_map_true {α : Type} (l : List α) : chosen (l.map fun _ => true) l = l := by
  induction l with
  | nil => rfl
  | cons a l ih => rw [List.map_cons, chosen, if_pos rfl, ih]

theorem queried_all {t : Table} (ht : t.Aligned) :
    t.queried .all none = .ok { columns := t.headers, rows := t.rows.map Row.values } := by
  have hread : Condition.read none = .always := rfl
  rw [queried_eq ht, hread, judged_always]
  simp only [validated, Condition.validate, shown, mapError_ok, ok_bind, chosen_map_true]
  rfl

end Table

namespace Operation

variable {w w' : World}

/-- The answer to a query of all rows is the table. -/
theorem run_selectAll (table : String) (w : World) :
    (selectFrom table .all none).run w = (settle (do
      let t ← w.table table
      return { columns := t.headers, rows := t.rows.map Row.values })).run w := by
  rw [run_selectFrom]
  congr 2
  refine bind_eq_bind fun t ht => ?_
  exact Table.queried_all (storable_of_worldTable ht).1.aligned

theorem run_execute_selectAll {query table : String}
    (hquery : Command.parse query = .ok (.select table .all none)) {t : Table}
    (ht : w.table table = .ok t) :
    (execute query).run w = .ok { columns := t.headers, rows := t.rows.map Row.values } w := by
  rw [run_execute, hquery]
  change (selectFrom table .all none).run w = _
  rw [run_selectAll, ht]
  rfl

/-- What is known of a selection of all rows that goes well. -/
theorem exists_table_of_selectAll {query table : String} {a : Answer}
    (hquery : Command.parse query = .ok (.select table .all none))
    (h : (execute query).run w = .ok a w') :
    ∃ t, w.table table = .ok t ∧ a = { columns := t.headers, rows := t.rows.map Row.values } := by
  rw [run_execute, hquery] at h
  change (selectFrom table .all none).run w = _ at h
  rw [run_selectAll] at h
  obtain ⟨t, ht, h⟩ := bind_eq_ok_iff.1 (run_settle_eq_ok_iff.1 h).1
  exact ⟨t, ht, (Except.ok.inj h).symm⟩

/-! ### Inserting -/

/-- What an insertion that goes well has read and written. -/
theorem exists_table_of_insertInto {table : String} {values : List String} {a : Answer}
    (h : (insertInto table values).run w = .ok a w') :
    ∃ path t files, w.session.tablePath table = .ok path ∧ w.files.table table path = .ok t ∧
      values.length + 1 = t.headers.length ∧
      w.files.writeFile path { t with rows := t.rows ++
        [⟨t.headers.zip (toString (t.rows.length + 1) :: values)⟩] : Table }.fileText =
          (.ok (), files) ∧
      w' = { w with files := files } := by
  rw [insertInto_eq] at h
  obtain ⟨path, t, t', files, hpath, ht, hinserted, hwrite, hw⟩ := exists_of_changeTable_ok h
  have hstorable := (FileTree.storable_of_table ht).1
  obtain ⟨hlength, rfl, -⟩ := (Table.inserted_eq_ok_iff hstorable.headers_ne_nil).1 hinserted
  exact ⟨path, t, files, hpath, ht, hlength.symm, hwrite, hw⟩

/-- After an insertion that goes well, all rows are those of before and the row inserted, with its
number in front, exactly if no literal of the statement has a tab or a line break. -/
theorem select_after_insert_iff {text query table response : String} {values : List String}
    {tokens : List (Token Kind)} (htokens : statementTokens text = .ok tokens)
    (hinsert : Command.parse text = .ok (.insert table values))
    (hquery : Command.parse query = .ok (.select table .all none))
    (hrespond : (respond text).run w = .ok response w')
    (hok : "[OK]".toList <+: response.toList) :
    ∃ before, (execute query).run w = .ok before w ∧
      ((∃ after, (execute query).run w' = .ok after w' ∧ after.columns = before.columns ∧
          after.warnings = [] ∧ after.rows = before.rows ++
            [toString (before.rows.length + 1) :: literals tokens]) ↔
        ∀ v ∈ literals tokens, Text.Plain v) := by
  rw [insert_literals hinsert htokens]
  obtain ⟨a, hexecute, -⟩ := exists_answer_of_respond hrespond hok
  rw [run_execute, hinsert] at hexecute
  obtain ⟨path, t, files, hpath, ht, hlength, hwrite, rfl⟩ := exists_table_of_insertInto hexecute
  obtain ⟨hstorable, hname⟩ := FileTree.storable_of_table ht
  have htable : w.table table = .ok t := by
    unfold World.table
    rw [hpath, ok_bind, ht]
  have hrow : t.headers.length = (toString (t.rows.length + 1) :: values).length := by
    rw [List.length_cons, hlength]
  refine ⟨_, run_execute_selectAll hquery htable, ?_, fun hplain => ?_⟩
  · -- every cell that is read from a file is plain
    rintro ⟨after, hafter, -, -, hrows⟩ v hv
    obtain ⟨t', ht', rfl⟩ := exists_table_of_selectAll hquery hafter
    have hlast : toString (t.rows.length + 1) :: values ∈ t'.rows.map Row.values := by
      dsimp only at hrows
      rw [hrows]
      simp
    obtain ⟨r, hr, hvalues⟩ := List.mem_map.1 hlast
    exact (storable_of_worldTable ht').1.plain_values r hr v (by simp [hvalues, hv])
  · -- the table that was written is read back
    have hcells : ∀ v ∈ toString (t.rows.length + 1) :: values, Text.Plain v := by
      intro v hv
      rcases List.mem_cons.1 hv with rfl | hv
      · exact Text.plain_toString _
      · exact hplain v hv
    have hread := FileTree.table_of_writeFile (hstorable.addRow hrow hcells) hwrite
    have htable' : World.table { w with files := files } table = .ok { t with
        rows := t.rows ++ [⟨t.headers.zip (toString (t.rows.length + 1) :: values)⟩] } := by
      unfold World.table
      dsimp only at hread ⊢
      rw [hpath, ok_bind, ← hname, hread]
    refine ⟨_, run_execute_selectAll hquery htable', rfl, rfl, ?_⟩
    simp only [List.map_append, List.map_cons, List.map_nil, Row.values_zip hrow, List.length_map]

/-! ### A literal with a tab -/

theorem run_respond_sample {text content : String} {t : Table} {values : List String}
    (hinsert : Command.parse text = .ok (.insert "t" values))
    (hread : Table.read "t" content = .ok t) (hcount : values.length = t.headers.length - 1) :
    (respond text).run (.sample content) =
      .ok "[OK]\n" (.sample (Table.fileText { t with
        rows := t.rows ++ [⟨t.headers.zip (toString (t.rows.length + 1) :: values)⟩] })) := by
  refine run_respond_of_ok (a := {}) ?_
  rw [run_execute_of_parse hinsert, Command.run, insertInto_eq, run_changeTable,
    World.tablePath_sample]
  dsimp only
  rw [World.fileTable_sample, hread]
  simp only [mapError_ok, ok_bind]
  rw [Table.inserted_eq (Table.storable_of_read hread).1.headers_ne_nil, if_neg (by simp [hcount])]
  dsimp only
  rw [run_store, World.writeFile_sample]
  rfl

theorem read_sample : Table.read "t" "id\ta\n1\tx\n" =
    .ok ⟨"t", ["id", "a"], [⟨[("id", "1"), ("a", "x")]⟩]⟩ := rfl

/-- Two words are kept. -/
theorem select_after_insert_words : ∃ w' tokens,
    statementTokens "INSERT INTO t VALUES ('two words');" = .ok tokens ∧
    (respond "INSERT INTO t VALUES ('two words');").run (.sample "id\ta\n1\tx\n") =
      .ok "[OK]\n" w' ∧
    ∃ before after, (execute "SELECT * FROM t;").run (.sample "id\ta\n1\tx\n") =
        .ok before (.sample "id\ta\n1\tx\n") ∧
      (execute "SELECT * FROM t;").run w' = .ok after w' ∧
      after.rows = before.rows ++ [toString (before.rows.length + 1) :: literals tokens] := by
  have hinsert : Command.parse "INSERT INTO t VALUES ('two words');" =
      .ok (.insert "t" ["two words"]) := by with_unfolding_all rfl
  have hquery : Command.parse "SELECT * FROM t;" = .ok (.select "t" .all none) := by
    with_unfolding_all rfl
  obtain ⟨first, k, body, terminator, rest, htokens, -⟩ := exists_production_of_parse hinsert
  obtain ⟨before, hbefore, hafter⟩ := select_after_insert_iff htokens hinsert hquery
    (run_respond_sample hinsert read_sample rfl) (by decide)
  have hplain : ∀ v ∈ literals (first :: body ++ terminator :: rest), Text.Plain v := by
    rw [insert_literals hinsert htokens]
    decide
  obtain ⟨after, hrun, -, -, hrows⟩ := hafter.2 hplain
  exact ⟨_, _, htokens, run_respond_sample hinsert read_sample rfl, before, after, hbefore, hrun,
    hrows⟩

/-- A tab in a literal cuts its cell in two, and the second piece is lost. -/
theorem select_after_insert_tab :
    (respond "INSERT INTO t VALUES ('x\ty');").run (.sample "id\ta\n1\tx\n") =
        .ok "[OK]\n" (.sample "id\ta\n1\tx\n2\tx\ty\n") ∧
      (execute "SELECT * FROM t;").run (.sample "id\ta\n1\tx\n") =
        .ok ⟨["id", "a"], [["1", "x"]], []⟩ (.sample "id\ta\n1\tx\n") ∧
      (execute "SELECT * FROM t;").run (.sample "id\ta\n1\tx\n2\tx\ty\n") =
        .ok ⟨["id", "a"], [["1", "x"], ["2", "x"]], []⟩ (.sample "id\ta\n1\tx\n2\tx\ty\n") ∧
      [["1", "x"], ["2", "x"]] ≠ [["1", "x"]] ++ [["2", "x\ty"]] := by
  have hinsert : Command.parse "INSERT INTO t VALUES ('x\ty');" =
      .ok (.insert "t" ["x\ty"]) := by with_unfolding_all rfl
  have hquery : Command.parse "SELECT * FROM t;" = .ok (.select "t" .all none) := by
    with_unfolding_all rfl
  have hread : Table.read "t" "id\ta\n1\tx\n2\tx\ty\n" = .ok ⟨"t", ["id", "a"],
      [⟨[("id", "1"), ("a", "x")]⟩, ⟨[("id", "2"), ("a", "x")]⟩]⟩ := rfl
  refine ⟨?_, ?_, ?_, by decide⟩
  · rw [run_respond_sample hinsert read_sample rfl]
    rfl
  · exact run_execute_selectAll hquery (by rw [World.table_sample, read_sample]; rfl)
  · exact run_execute_selectAll hquery (by rw [World.table_sample, hread]; rfl)

end Operation

end Tabula
