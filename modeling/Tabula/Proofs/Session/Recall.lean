import Tabula.Proofs.Condition.Equality
import Tabula.Proofs.Session.Durable
import Tabula.Proofs.Session.Enforced

/-!
# Finding what was inserted

A query that asks the column of a literal for this literal finds the row that was inserted with it,
if the row is still there as it was inserted and the literal does not read as the value that is no
number (`Operation.select_where_after_insert`). Such a literal, the string `nan` for one, is unequal
to the cell that holds it. A literal with a tab or a line break moves the cells behind it.
-/

namespace Tabula

open Text (Plain)

/-! ### Cells of a row -/

/-- The cell of a column that is the only one of its name is the value in its place. -/
theorem lookup_zip {p : String → Bool} {header cells : List String} {column v : String} {i : Nat}
    (honly : header.filter p = [column]) (hcolumn : header[i]? = some column)
    (hv : cells[i]? = some v) : (header.zip cells).lookup column = some v := by
  have hp : p column = true := by
    have hmem : column ∈ header.filter p := by simp [honly]
    exact (List.mem_filter.1 hmem).2
  induction header generalizing cells i with
  | nil => cases honly
  | cons name header ih =>
    cases cells with
    | nil => simp at hv
    | cons cell cells =>
      cases i with
      | zero => simp_all
      | succ i =>
        simp only [List.getElem?_cons_succ] at hcolumn hv
        have hmem : column ∈ header.filter p :=
          List.mem_filter.2 ⟨List.mem_of_getElem? hcolumn, hp⟩
        have hname : ¬ p name = true := by
          intro hname
          rw [List.filter_cons_of_pos hname] at honly
          rw [(List.cons.inj honly).2] at hmem
          cases hmem
        have hne : (column == name) = false := by
          rw [beq_eq_false_iff_ne]
          rintro rfl
          exact hname hp
        rw [List.filter_cons_of_neg hname] at honly
        rw [List.zip_cons_cons, List.lookup_cons, hne]
        exact ih honly hcolumn hv

theorem Row.cell_zip {header cells : List String} {column v : String} {i : Nat}
    (honly : Condition.HasOnly header column) (hcolumn : header[i]? = some column)
    (hv : cells[i]? = some v) : (⟨header.zip cells⟩ : Row).cell column = v := by
  rw [Row.cell, lookup_zip honly hcolumn hv]
  rfl

namespace Operation

variable {w w' : World}

/-! ### Tables after an insertion -/

/-- An insertion keeps the header. If its values are plain, it adds them as a row behind the others,
with the number of the row in front. -/
theorem table_of_insertInto {table : String} {values : List String} {a : Answer}
    (h : (insertInto table values).run w = .ok a w') :
    ∃ t, w.table table = .ok t ∧
      (∀ t', w'.table table = .ok t' → t'.headers = t.headers) ∧
      ((∀ v ∈ values, Plain v) → ∃ t', w'.table table = .ok t' ∧
        t'.rows[t.rows.length]? =
          some ⟨t.headers.zip (toString (t.rows.length + 1) :: values)⟩ ∧
        t.headers.length = values.length + 1) := by
  obtain ⟨path, t, files, hpath, ht, hlength, hwrite, rfl⟩ := exists_table_of_insertInto h
  obtain ⟨hstorable, hname⟩ := FileTree.storable_of_table ht
  have hread : World.table { w with files := files } table =
      files.table table path := by
    rw [World.table]
    dsimp only
    rw [hpath, ok_bind]
  refine ⟨t, by rw [World.table, hpath, ok_bind, ht], fun t' ht' => ?_, fun hplain => ?_⟩
  · rw [hread, FileTree.table_eq_of_writeFile hwrite] at ht'
    exact Table.headers_of_read_fileText (t := { t with rows := t.rows ++ [_] })
      hstorable.headers_ne_nil hstorable.plain_headers (mapError_eq_ok_iff.1 ht')
  · have hcells : ∀ v ∈ toString (t.rows.length + 1) :: values, Plain v :=
      List.forall_mem_cons.2 ⟨Text.plain_toString _, hplain⟩
    have hadd := hstorable.addRow (by rw [List.length_cons, hlength]) hcells
    have hback := FileTree.table_of_writeFile hadd hwrite
    dsimp only at hback
    rw [hname] at hback
    exact ⟨_, hread.trans hback, by simp, hlength.symm⟩

/-! ### Asking for a literal -/

/-- A query for the rows in which a column is equal to a literal answers with these. -/
theorem run_select_literal {query table column condition : String} {words : List (Token Kind)}
    {word sign literal : Token Kind} {t : Table}
    (hquery : Command.parse query = .ok (.select table .all (some condition)))
    (hwords : statementTokens query = .ok words)
    (hclause : whereClause words = [word, sign, literal])
    (hword : word.kind.isWord = true) (hname : Text.lower word.text = Text.lower column)
    (hsign : sign.kind = .equal) (hliteral : literal.kind.isLiteral = true)
    (hparen : literal.kind = .string →
      '(' ∉ literal.text.toList ∧ ')' ∉ literal.text.toList)
    (ht : w.table table = .ok t) (honly : Condition.HasOnly t.headers column) :
    (execute query).run w = .ok { columns := t.headers, rows := (t.rows.filter fun r =>
      compare (r.cell column) "==" literal.text).map Row.values } w := by
  obtain ⟨words', hwords', rfl, -, hgiven⟩ := exists_whereClause hquery rfl
  cases hwords.symm.trans hwords'
  rw [hclause] at hgiven
  have hasks : Asks word sign literal := ⟨hgiven, hword, hsign, hliteral, hparen⟩
  have haligned := (storable_of_worldTable ht).1.aligned
  have hpicks : t.Picks (clauseText [word, sign, literal])
      fun r => compare (r.cell column) "==" literal.text :=
    Table.picks_of_evaluate haligned (hasks.validate_eq hname honly)
      fun r hr => hasks.evaluate_eq hname (hr ▸ honly) []
  rw [run_execute_of_parse hquery, Command.run, run_selectFrom, ht, ok_bind, hclause,
    Table.queried_of_picks haligned hpicks]
  rfl

/-- The row that an insertion has added is found again by a query for one of its literals, if it is
still there with the literal in its column, exactly if the literal does not read as the value that
is no number. It is there if all literals that were inserted are plain. -/
theorem select_where_after_insert {text query table column condition response : String}
    {values : List String} {tokens words : List (Token Kind)} {word sign literal : Token Kind}
    {place : Nat} (htokens : statementTokens text = .ok tokens)
    (hinsert : Command.parse text = .ok (.insert table values))
    (hrespond : (respond text).run w = .ok response w')
    (hok : "[OK]".toList <+: response.toList)
    (hstored : (literals tokens)[place]? = some literal.text)
    (hcolumn : ∀ t, w.table table = .ok t →
      t.headers[place + 1]? = some column ∧ Condition.HasOnly t.headers column)
    (hquery : Command.parse query = .ok (.select table .all (some condition)))
    (hwords : statementTokens query = .ok words)
    (hclause : whereClause words = [word, sign, literal])
    (hword : word.kind.isWord = true) (hname : Text.lower word.text = Text.lower column)
    (hsign : sign.kind = .equal) (hliteral : literal.kind.isLiteral = true)
    (hparen : literal.kind = .string →
      '(' ∉ literal.text.toList ∧ ')' ∉ literal.text.toList) :
    ∃ t, w.table table = .ok t ∧
      ((∀ v ∈ literals tokens, Plain v) → ∃ t' r, w'.table table = .ok t' ∧
        t'.rows[t.rows.length]? = some r ∧ r.cell column = literal.text ∧
        r.values = toString (t.rows.length + 1) :: literals tokens) ∧
      (∀ t' r, w'.table table = .ok t' → t'.rows[t.rows.length]? = some r →
        r.cell column = literal.text → ∃ a, (execute query).run w' = .ok a w' ∧
          a.columns = t.headers ∧ a.warnings = [] ∧
          (r.values ∈ a.rows ↔ Number.read? literal.text ≠ some .nan)) ∧
      (compare literal.text "==" literal.text = true ∧
          compare literal.text "!=" literal.text = false ↔
        Number.read? literal.text ≠ some .nan) := by
  rw [insert_literals hinsert htokens] at hstored ⊢
  obtain ⟨a, hexecute, -⟩ := exists_answer_of_respond hrespond hok
  rw [run_execute, hinsert] at hexecute
  obtain ⟨t, ht, hheaders, hadded⟩ := table_of_insertInto hexecute
  obtain ⟨hplace, honly⟩ := hcolumn t ht
  refine ⟨t, ht, fun hplain => ?_, fun t' r ht' hr hcell => ?_, ?_⟩
  · obtain ⟨t', ht', hrow, hlength⟩ := hadded hplain
    refine ⟨t', _, ht', hrow, Row.cell_zip honly hplace (by simpa using hstored), ?_⟩
    exact Row.values_zip (by rw [hlength, List.length_cons])
  · have honly' : Condition.HasOnly t'.headers column := hheaders t' ht' ▸ honly
    have hselect := run_select_literal hquery hwords hclause hword hname hsign hliteral hparen ht'
      honly'
    refine ⟨_, hselect, hheaders t' ht', rfl, ?_⟩
    rw [← compare_equal_self]
    constructor
    · intro hmem
      obtain ⟨s, hs, hvalues⟩ := List.mem_map.1 hmem
      obtain ⟨hsmem, hequal⟩ := List.mem_filter.1 hs
      -- rows with the same values are the same, as they have the same header
      have haligned := (storable_of_worldTable ht').1.aligned
      have hsame : s = r := by
        have hzip := congrArg₂ List.zip
          ((haligned s hsmem).trans (haligned r (List.mem_of_getElem? hr)).symm) hvalues
        rw [Row.zip_headers_values, Row.zip_headers_values] at hzip
        cases s
        cases r
        exact congrArg Row.mk hzip
      rwa [hsame, hcell] at hequal
    · intro hequal
      refine List.mem_map_of_mem (List.mem_filter.2 ⟨List.mem_of_getElem? hr, ?_⟩)
      rwa [hcell]
  · rw [compare_notEqual, Bool.not_eq_false', and_self, compare_equal_self]

theorem parse_select_words : Command.parse "SELECT * FROM t WHERE A == 'two words';" =
    .ok (.select "t" .all (some "A == 'two words'")) := by
  with_unfolding_all rfl

theorem statementTokens_select_words : ∃ words,
    statementTokens "SELECT * FROM t WHERE A == 'two words';" = .ok words ∧
    whereClause words =
      [⟨.identifier, "A", 22⟩, ⟨.equal, "==", 24⟩, ⟨.string, "two words", 27⟩] := by
  have hwords : statementTokens "SELECT * FROM t WHERE A == 'two words';" =
      .ok [⟨.keyword .SELECT, "SELECT", 0⟩, ⟨.star, "*", 7⟩, ⟨.keyword .FROM, "FROM", 9⟩,
        ⟨.identifier, "t", 14⟩, ⟨.keyword .WHERE, "WHERE", 16⟩, ⟨.identifier, "A", 22⟩,
        ⟨.equal, "==", 24⟩, ⟨.string, "two words", 27⟩, ⟨.terminator, ";", 38⟩] := by
    with_unfolding_all rfl
  exact ⟨_, hwords, by decide⟩

/-- A text of two words is found. -/
theorem select_where_after_insert_words : ∃ w' a,
    (respond "INSERT INTO t VALUES ('two words');").run (.sample "id\ta\n1\tx\n") =
      .ok "[OK]\n" w' ∧
    (execute "SELECT * FROM t WHERE A == 'two words';").run w' = .ok a w' ∧ a.warnings = [] ∧
    ["2", "two words"] ∈ a.rows := by
  have hinsert : Command.parse "INSERT INTO t VALUES ('two words');" =
      .ok (.insert "t" ["two words"]) := by with_unfolding_all rfl
  obtain ⟨first, k, body, terminator, rest, htokens, -⟩ := exists_production_of_parse hinsert
  have hliterals := insert_literals hinsert htokens
  have hstored : (literals (first :: body ++ terminator :: rest))[0]? = some "two words" := by
    rw [hliterals]
    rfl
  obtain ⟨words, hwords, hclause⟩ := statementTokens_select_words
  have htable : (World.sample "id\ta\n1\tx\n").table "t" =
      .ok ⟨"t", ["id", "a"], [⟨[("id", "1"), ("a", "x")]⟩]⟩ := by
    rw [World.table_sample, read_sample]
    rfl
  have hcolumn : ∀ t, (World.sample "id\ta\n1\tx\n").table "t" = .ok t →
      t.headers[0 + 1]? = some "a" ∧ Condition.HasOnly t.headers "a" := by
    intro t ht
    cases htable.symm.trans ht
    decide
  obtain ⟨t, ht, hadded, hfound, -⟩ := select_where_after_insert htokens hinsert
    (run_respond_sample hinsert read_sample rfl) (by decide) hstored hcolumn parse_select_words
    hwords hclause (by decide) (by decide) rfl rfl (by decide)
  rw [hliterals] at hadded
  cases htable.symm.trans ht
  obtain ⟨t', r, ht', hr, hcell, hvalues⟩ := hadded (by decide)
  obtain ⟨a, hrun, -, hwarnings, hmem⟩ := hfound t' r ht' hr hcell
  have hnan : Number.read? "two words" ≠ some .nan := by decide
  exact ⟨_, a, run_respond_sample hinsert read_sample rfl, hrun, hwarnings, hvalues ▸ hmem.2 hnan⟩

/-- The row with `nan` is not found; nor is one whose cells a tab has moved. -/
theorem select_where_after_insert_nan :
    ((respond "INSERT INTO t VALUES ('nan');").run (.sample "id\ta\n1\tx\n") =
        .ok "[OK]\n" (.sample "id\ta\n1\tx\n2\tnan\n") ∧
      (execute "SELECT * FROM t WHERE a == 'nan';").run (.sample "id\ta\n1\tx\n2\tnan\n") =
        .ok ⟨["id", "a"], [], []⟩ (.sample "id\ta\n1\tx\n2\tnan\n") ∧
      compare "nan" "==" "nan" = false ∧ compare "nan" "!=" "nan" = true) ∧
    ((respond "INSERT INTO t VALUES ('x\ty', 5);").run (.sample "id\ta\tb\n") =
        .ok "[OK]\n" (.sample "id\ta\tb\n1\tx\ty\t5\n") ∧
      (execute "SELECT * FROM t WHERE b == 5;").run (.sample "id\ta\tb\n1\tx\ty\t5\n") =
        .ok ⟨["id", "a", "b"], [], []⟩ (.sample "id\ta\tb\n1\tx\ty\t5\n")) := by
  have hinsert : Command.parse "INSERT INTO t VALUES ('nan');" = .ok (.insert "t" ["nan"]) := by
    with_unfolding_all rfl
  have hmoved : Command.parse "INSERT INTO t VALUES ('x\ty', 5);" =
      .ok (.insert "t" ["x\ty", "5"]) := by
    with_unfolding_all rfl
  have hempty : Table.read "t" "id\ta\tb\n" = .ok ⟨"t", ["id", "a", "b"], []⟩ := rfl
  refine ⟨⟨run_respond_sample hinsert read_sample rfl, ?_, rfl, rfl⟩,
    run_respond_sample hmoved hempty rfl, ?_⟩
  · have hquery : Command.parse "SELECT * FROM t WHERE a == 'nan';" =
        .ok (.select "t" .all (some "a == 'nan'")) := by with_unfolding_all rfl
    have hread : Table.read "t" "id\ta\n1\tx\n2\tnan\n" = .ok ⟨"t", ["id", "a"],
        [⟨[("id", "1"), ("a", "x")]⟩, ⟨[("id", "2"), ("a", "nan")]⟩]⟩ := rfl
    exact run_select_sample hquery hread rfl
  · have hquery : Command.parse "SELECT * FROM t WHERE b == 5;" =
        .ok (.select "t" .all (some "b == 5")) := by with_unfolding_all rfl
    have hread : Table.read "t" "id\ta\tb\n1\tx\ty\t5\n" = .ok ⟨"t", ["id", "a", "b"],
        [⟨[("id", "1"), ("a", "x"), ("b", "y")]⟩]⟩ := rfl
    exact run_select_sample hquery hread rfl

end Operation

end Tabula
