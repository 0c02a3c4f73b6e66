import Tabula.Proofs.Condition.Examined
import Tabula.Proofs.Session.Where

/-!
# Statements that neither fail nor warn

If a statement with a WHERE clause runs without an error and without a warning, its clause has been
understood on all rows of the table (`Operation.execute_where_understood`): it is one term, or those
of its groups that were looked at are terms. What stands outside the groups can be anything
(`Operation.execute_where_irregular`), and so can what stands in a group that was not looked at.
-/

namespace Tabula

/-! ### The tokens of a WHERE clause -/

/-- The tokens between the WHERE and the terminator of a statement. -/
def whereClause (tokens : List (Token Kind)) : List (Token Kind) :=
  (tokens.tail.dropWhile (·.kind ≠ .keyword .WHERE)).tail.takeWhile (·.kind ≠ .terminator)

/-- The table and the condition of a command about the rows on which a condition is true. -/
def Command.restriction? : Command → Option (String × String)
  | select name _ (some condition) | update name _ condition | delete name condition =>
    some (name, condition)
  | _ => none

theorem whereClause_append {first w stop : Token Kind} {front clause rest : List (Token Kind)}
    (hfront : ∀ t ∈ front, t.kind ≠ .keyword .WHERE) (hw : w.kind = .keyword .WHERE)
    (hclause : ∀ t ∈ clause, t.kind ≠ .terminator) (hstop : stop.kind = .terminator) :
    whereClause (first :: (front ++ w :: clause) ++ stop :: rest) = clause := by
  have hskip : (front ++ (w :: (clause ++ stop :: rest))).dropWhile
      (·.kind ≠ .keyword .WHERE) = w :: (clause ++ stop :: rest) := by
    rw [List.dropWhile_append_of_pos (by simpa using hfront),
      List.dropWhile_cons_of_neg (by simp [hw])]
  have htext : (first :: (front ++ w :: clause) ++ stop :: rest).tail =
      front ++ (w :: (clause ++ stop :: rest)) := by simp
  rw [whereClause, htext, hskip, List.tail_cons,
    List.takeWhile_append_of_pos (by simpa using hclause),
    List.takeWhile_cons_of_neg (by simp [hstop]), List.append_nil]

theorem forall_mem_of_commaList {α : Type} {item : List (Token Kind) → α → Prop}
    {p : Token Kind → Prop} (hitem : ∀ ts a, item ts a → ∀ t ∈ ts, p t)
    (hcomma : ∀ t : Token Kind, t.kind = .comma → p t) {ts : List (Token Kind)} {as : List α}
    (h : CommaList item ts as) : ∀ t ∈ ts, p t := by
  induction h with
  | one h => exact hitem _ _ h
  | cons h hc _ ih =>
    exact List.forall_mem_append.2 ⟨hitem _ _ h, List.forall_mem_cons.2 ⟨hcomma _ hc, ih⟩⟩

/-- Between its first word and the WHERE, a statement has no other one. -/
theorem Production.exists_where {k : Keyword} {body : List (Token Kind)} {command : Command}
    {name condition : String} (h : Production k body command)
    (hcommand : command.restriction? = some (name, condition)) :
    ∃ front w clause, body = front ++ w :: clause ∧ (∀ t ∈ front, t.kind ≠ .keyword .WHERE) ∧
      w.kind = .keyword .WHERE ∧ IsCondition clause condition := by
  cases h with
  | @selectWhere f n w ts us columns condition hcolumns hf hn hw hcondition =>
    cases hcommand
    refine ⟨ts ++ [f, n], w, us, by simp, ?_, hw, hcondition⟩
    have hts : ∀ t ∈ ts, t.kind ≠ .keyword .WHERE := by
      cases hcolumns with
      | all hstar => simp [hstar]
      | columns hnames =>
        refine forall_mem_of_commaList ?_ (fun t ht => by simp [ht]) hnames
        rintro _ _ ⟨t, rfl, ht, -⟩
        simp [ht]
    exact List.forall_mem_append.2 ⟨hts, by simp [hf, hn]⟩
  | @update n s w ts us assignments condition hn hs hassignments hw hcondition =>
    cases hcommand
    refine ⟨n :: s :: ts, w, us, rfl, ?_, hw, hcondition⟩
    have hts : ∀ t ∈ ts, t.kind ≠ .keyword .WHERE := by
      refine forall_mem_of_commaList ?_ (fun t ht => by simp [ht]) hassignments
      rintro _ _ ⟨column, sign, value, rfl, hcolumn, hsign, hvalue, -⟩
      have hliteral : value.kind ≠ .keyword .WHERE := by
        intro hkind
        rw [hkind] at hvalue
        cases hvalue
      simp [hcolumn, hsign, hliteral]
    exact List.forall_mem_cons.2 ⟨by simp [hn], List.forall_mem_cons.2 ⟨by simp [hs], hts⟩⟩
  | @delete f n w us condition hf hn hw hcondition =>
    cases hcommand
    exact ⟨[f, n], w, us, rfl, by simp [hf, hn], hw, hcondition⟩
  | _ => cases hcommand

/-- The condition of a statement is the text of the tokens behind its WHERE. -/
theorem exists_whereClause {text name condition : String} {command : Command}
    (hparse : Command.parse text = .ok command)
    (hcommand : command.restriction? = some (name, condition)) :
    ∃ tokens, statementTokens text = .ok tokens ∧ condition = clauseText (whereClause tokens) ∧
      whereClause tokens ≠ [] ∧ ∀ t ∈ whereClause tokens, t.Given := by
  obtain ⟨first, k, body, stop, rest, htokens, -, hbody, hstop⟩ :=
    exists_production_of_parse hparse
  obtain ⟨front, w, clause, rfl, hfront, hw, hne, hclause, rfl⟩ := hbody.exists_where hcommand
  have hterminator : ∀ t ∈ clause, t.kind ≠ .terminator := by
    intro t ht
    have hin := hclause t ht
    simp only [Parser.inCondition, Bool.and_eq_true, decide_eq_true_eq] at hin
    exact hin.1
  have hwhere : whereClause (first :: (front ++ w :: clause) ++ stop :: rest) = clause :=
    whereClause_append hfront hw hterminator hstop
  refine ⟨_, htokens, ?_, ?_, ?_⟩
  · rw [hwhere]
    rfl
  · rw [hwhere]
    exact hne
  · rw [hwhere]
    exact fun t ht => Lexeme.exists_gives_of_mem htokens (by simp [ht])

/-! ### What a command has found on the rows -/

/-- A command about rows that goes well has validated its condition and evaluated it on all rows. -/
theorem Operation.exists_judged {command : Command} {name condition : String} {w w' : World}
    {a : Answer} (hcommand : command.restriction? = some (name, condition))
    (hrun : command.run.run w = .ok a w') :
    ∃ t selected faults, w.table name = .ok t ∧
      t.validated (Condition.read (some condition)) = .ok () ∧
      t.judged (Condition.read (some condition)) = .ok (selected, faults) ∧
      a.warnings = faults.map ConditionError.message := by
  cases command with
  | select _ columns c =>
    cases c with
    | none => cases hcommand
    | some c =>
      cases hcommand
      rw [Command.run, run_selectFrom] at hrun
      obtain ⟨t, ht, hquery⟩ := bind_eq_ok_iff.1 (run_settle_eq_ok_iff.1 hrun).1
      rw [Table.queried_eq (storable_of_worldTable ht).1.aligned] at hquery
      obtain ⟨⟨⟩, hvalidated, hquery⟩ := bind_eq_ok_iff.1 hquery
      obtain ⟨shown, -, hquery⟩ := bind_eq_ok_iff.1 hquery
      obtain ⟨⟨selected, faults⟩, hjudged, hquery⟩ := bind_eq_ok_iff.1 hquery
      cases hquery
      exact ⟨t, selected, faults, ht, hvalidated, hjudged, rfl⟩
  | update _ assignments _ =>
    cases hcommand
    rw [Command.run, updateTable_eq] at hrun
    obtain ⟨path, t, t', files, hpath, ht, hchange, -, -⟩ := exists_of_changeTable_ok hrun
    obtain ⟨-, selected, faults, hvalidated, hjudged, -, hwarnings⟩ :=
      Table.judged_of_updated (FileTree.storable_of_table ht).1.aligned hchange
    exact ⟨t, selected, faults, bind_eq_ok_iff.2 ⟨path, hpath, ht⟩, hvalidated, hjudged, hwarnings⟩
  | delete _ _ =>
    cases hcommand
    rw [Command.run, deleteFrom_eq] at hrun
    obtain ⟨path, t, t', files, hpath, ht, hchange, -, -⟩ := exists_of_changeTable_ok hrun
    obtain ⟨selected, faults, hvalidated, hjudged, -, hwarnings⟩ := Table.judged_of_deleted hchange
    exact ⟨t, selected, faults, bind_eq_ok_iff.2 ⟨path, hpath, ht⟩, hvalidated, hjudged, hwarnings⟩
  | _ => cases hcommand

namespace Operation

/-- If a statement with a WHERE clause runs without an error and without a warning, its clause has
been understood on the rows of the table. -/
theorem execute_where_understood {text name condition : String} {command : Command}
    {world world' : World} {a : Answer} {t : Table} (hparse : Command.parse text = .ok command)
    (hcommand : command.restriction? = some (name, condition))
    (htable : world.table name = .ok t) (hrun : (execute text).run world = .ok a world')
    (hwarnings : a.warnings = []) :
    ∃ tokens, statementTokens text = .ok tokens ∧ condition = clauseText (whereClause tokens) ∧
      Condition.Understood t.headers (t.rows.map Row.values) (whereClause tokens) := by
  rw [run_execute_of_parse hparse] at hrun
  obtain ⟨u, selected, faults, hu, hvalidated, hjudged, hfaults⟩ := exists_judged hcommand hrun
  obtain rfl : u = t := Except.ok.inj (hu.symm.trans htable)
  obtain ⟨tokens, htokens, rfl, hne, hgiven⟩ := exists_whereClause hparse hcommand
  obtain rfl : faults = [] := List.map_eq_nil_iff.1 (hfaults.symm.trans hwarnings)
  exact ⟨tokens, htokens, rfl, Condition.understood_of_evaluateAll hgiven hne
    (mapError_eq_ok_iff.1 hvalidated) (mapError_eq_ok_iff.1 hjudged)⟩

/-- Two groups are terms, and are looked at on the one row of the table. -/
theorem execute_where_understood_sample :
    (execute "SELECT * FROM t WHERE (a == 'v') AND (a != 'w');").run (.sample "id\ta\n1\tv\n") =
      .ok ⟨["id", "a"], [["1", "v"]], []⟩ (.sample "id\ta\n1\tv\n") ∧
    ∃ tokens, statementTokens "SELECT * FROM t WHERE (a == 'v') AND (a != 'w');" = .ok tokens ∧
      Condition.Understood ["id", "a"] [["1", "v"]] (whereClause tokens) := by
  have hparse : Command.parse "SELECT * FROM t WHERE (a == 'v') AND (a != 'w');" =
      .ok (.select "t" .all (some "( a == 'v' ) AND ( a != 'w' )")) := by with_unfolding_all rfl
  have hread : Table.read "t" "id\ta\n1\tv\n" = .ok (oneRow "a" "v") := rfl
  have hquery : (oneRow "a" "v").queried .all (some "( a == 'v' ) AND ( a != 'w' )") =
      .ok ⟨["id", "a"], [["1", "v"]], []⟩ := rfl
  have hrun : (execute "SELECT * FROM t WHERE (a == 'v') AND (a != 'w');").run
      (.sample "id\ta\n1\tv\n") = .ok ⟨["id", "a"], [["1", "v"]], []⟩
        (.sample "id\ta\n1\tv\n") := run_select_sample hparse hread hquery
  have htable : (World.sample "id\ta\n1\tv\n").table "t" = .ok (oneRow "a" "v") := by
    rw [World.table_sample, hread]
    rfl
  obtain ⟨tokens, htokens, -, hunderstood⟩ :=
    execute_where_understood hparse rfl htable hrun rfl
  exact ⟨hrun, tokens, htokens, hunderstood⟩

/-! ### Clauses that are none -/

/-- Whether tokens are a word, an operator and a value of one token or more, and no parenthesis. -/
def isBareTerm : List (Token Kind) → Bool
  | w :: o :: v :: vs => w.kind.isWord && o.kind.isOperator &&
      (v :: vs).all fun u => decide (u.kind ≠ .openParen ∧ u.kind ≠ .closeParen)
  | _ => false

/-- Whether tokens are such terms, each in parentheses, that are joined by AND and OR. While a term
is read, `inside` holds what has been read of it, the last token first. -/
def isTermList (inside : Option (List (Token Kind))) : List (Token Kind) → Bool
  | [] => false
  | t :: ts =>
    match inside with
    | none => decide (t.kind = .openParen) && isTermList (some []) ts
    | some read =>
      if t.kind ≠ .closeParen then isTermList (some (t :: read)) ts
      else isBareTerm read.reverse &&
        match ts with
        | [] => true
        | link :: ts => decide (link.kind = .keyword .AND ∨ link.kind = .keyword .OR) &&
            isTermList none ts

/-- Whether the WHERE clause of a statement is one such term, or terms in parentheses. -/
def isRegular (text : String) : Except LexicalError Bool :=
  (statementTokens text).map fun tokens =>
    isBareTerm (whereClause tokens) || isTermList none (whereClause tokens)

theorem run_select_oneRow {text : String} (condition : String) {rows : List (List String)}
    (hparse : Command.parse text = .ok (.select "t" .all (some condition)))
    (hquery : (oneRow "a" "v").queried .all (some condition) = .ok ⟨["id", "a"], rows, []⟩) :
    (execute text).run (.sample "id\ta\n1\tv\n") =
      .ok ⟨["id", "a"], rows, []⟩ (.sample "id\ta\n1\tv\n") := by
  have hread : Table.read "t" "id\ta\n1\tv\n" = .ok (oneRow "a" "v") := rfl
  exact run_select_sample hparse hread hquery

/-- Clauses that are no terms. -/
theorem not_regular : ∀ text ∈ ["SELECT * FROM t WHERE x (a == 'v');",
      "SELECT * FROM t WHERE (a == 'v') (a != 'w');",
      "SELECT * FROM t WHERE (a != 'v') AND (b);",
      "SELECT * FROM t WHERE a >=;",
      "SELECT * FROM t WHERE a likely;",
      "SELECT * FROM t WHERE alikev;",
      "SELECT * FROM t WHERE a != (;"], isRegular text = .ok false := by
  decide +kernel

/-- A token outside the group. -/
theorem run_before_group :
    (execute "SELECT * FROM t WHERE x (a == 'v');").run (.sample "id\ta\n1\tv\n") =
        .ok ⟨["id", "a"], [["1", "v"]], []⟩ (.sample "id\ta\n1\tv\n") ∧
      isRegular "SELECT * FROM t WHERE x (a == 'v');" = .ok false :=
  ⟨run_select_oneRow "x ( a == 'v' )" (by with_unfolding_all rfl) rfl, not_regular _ (by simp)⟩

/-- Nothing between two groups. -/
theorem run_between_groups :
    (execute "SELECT * FROM t WHERE (a == 'v') (a != 'w');").run (.sample "id\ta\n1\tv\n") =
        .ok ⟨["id", "a"], [["1", "v"]], []⟩ (.sample "id\ta\n1\tv\n") ∧
      isRegular "SELECT * FROM t WHERE (a == 'v') (a != 'w');" = .ok false :=
  ⟨run_select_oneRow "( a == 'v' ) ( a != 'w' )" (by with_unfolding_all rfl) rfl,
    not_regular _ (by simp)⟩

/-- A group that is not looked at. -/
theorem run_group_not_reached :
    (execute "SELECT * FROM t WHERE (a != 'v') AND (b);").run (.sample "id\ta\n1\tv\n") =
        .ok ⟨["id", "a"], [], []⟩ (.sample "id\ta\n1\tv\n") ∧
      isRegular "SELECT * FROM t WHERE (a != 'v') AND (b);" = .ok false :=
  ⟨run_select_oneRow "( a != 'v' ) AND ( b )" (by with_unfolding_all rfl) rfl,
    not_regular _ (by simp)⟩

/-- No value. -/
theorem run_without_value :
    (execute "SELECT * FROM t WHERE a >=;").run (.sample "id\ta\n1\tv\n") =
        .ok ⟨["id", "a"], [["1", "v"]], []⟩ (.sample "id\ta\n1\tv\n") ∧
      isRegular "SELECT * FROM t WHERE a >=;" = .ok false :=
  ⟨run_select_oneRow "a >=" (by with_unfolding_all rfl) rfl, not_regular _ (by simp)⟩

/-- An operator that is a part of a word. -/
theorem run_like_in_word :
    (execute "SELECT * FROM t WHERE a likely;").run (.sample "id\ta\n1\tv\n") =
        .ok ⟨["id", "a"], [], []⟩ (.sample "id\ta\n1\tv\n") ∧
      isRegular "SELECT * FROM t WHERE a likely;" = .ok false :=
  ⟨run_select_oneRow "a likely" (by with_unfolding_all rfl) rfl, not_regular _ (by simp)⟩

/-- An operator in the one word there is. -/
theorem run_like_in_column :
    (execute "SELECT * FROM t WHERE alikev;").run (.sample "id\ta\n1\tv\n") =
        .ok ⟨["id", "a"], [["1", "v"]], []⟩ (.sample "id\ta\n1\tv\n") ∧
      isRegular "SELECT * FROM t WHERE alikev;" = .ok false :=
  ⟨run_select_oneRow "alikev" (by with_unfolding_all rfl) rfl, not_regular _ (by simp)⟩

/-- A value that is a parenthesis. -/
theorem run_parenthesis_in_value :
    (execute "SELECT * FROM t WHERE a != (;").run (.sample "id\ta\n1\tv\n") =
        .ok ⟨["id", "a"], [["1", "v"]], []⟩ (.sample "id\ta\n1\tv\n") ∧
      isRegular "SELECT * FROM t WHERE a != (;" = .ok false :=
  ⟨run_select_oneRow "a != (" (by with_unfolding_all rfl) rfl, not_regular _ (by simp)⟩

/-- A term that has a group in a string is read as this group. -/
theorem run_group_in_value :
    (execute "SELECT * FROM t WHERE a == '(a != w)';").run (.sample "id\ta\n1\tv\n") =
        .ok ⟨["id", "a"], [["1", "v"]], []⟩ (.sample "id\ta\n1\tv\n") ∧
      compare "v" "==" "(a != w)" = false :=
  ⟨run_select_oneRow "a == '(a != w)'" (by with_unfolding_all rfl) rfl, rfl⟩

/-- Clauses that are no terms, and neither fail nor warn: with a token outside the group, with
nothing between two groups, with a word in a group that is not looked at, without a value, with LIKE
in a part of a word, and with a parenthesis in a value. A group in a string makes a clause that is a
term mean something else. -/
theorem execute_where_irregular :
    ((execute "SELECT * FROM t WHERE x (a == 'v');").run (.sample "id\ta\n1\tv\n") =
        .ok ⟨["id", "a"], [["1", "v"]], []⟩ (.sample "id\ta\n1\tv\n") ∧
      isRegular "SELECT * FROM t WHERE x (a == 'v');" = .ok false) ∧
    ((execute "SELECT * FROM t WHERE (a == 'v') (a != 'w');").run (.sample "id\ta\n1\tv\n") =
        .ok ⟨["id", "a"], [["1", "v"]], []⟩ (.sample "id\ta\n1\tv\n") ∧
      isRegular "SELECT * FROM t WHERE (a == 'v') (a != 'w');" = .ok false) ∧
    ((execute "SELECT * FROM t WHERE (a != 'v') AND (b);").run (.sample "id\ta\n1\tv\n") =
        .ok ⟨["id", "a"], [], []⟩ (.sample "id\ta\n1\tv\n") ∧
      isRegular "SELECT * FROM t WHERE (a != 'v') AND (b);" = .ok false) ∧
    ((execute "SELECT * FROM t WHERE a >=;").run (.sample "id\ta\n1\tv\n") =
        .ok ⟨["id", "a"], [["1", "v"]], []⟩ (.sample "id\ta\n1\tv\n") ∧
      isRegular "SELECT * FROM t WHERE a >=;" = .ok false) ∧
    ((execute "SELECT * FROM t WHERE a likely;").run (.sample "id\ta\n1\tv\n") =
        .ok ⟨["id", "a"], [], []⟩ (.sample "id\ta\n1\tv\n") ∧
      isRegular "SELECT * FROM t WHERE a likely;" = .ok false) ∧
    ((execute "SELECT * FROM t WHERE alikev;").run (.sample "id\ta\n1\tv\n") =
        .ok ⟨["id", "a"], [["1", "v"]], []⟩ (.sample "id\ta\n1\tv\n") ∧
      isRegular "SELECT * FROM t WHERE alikev;" = .ok false) ∧
    ((execute "SELECT * FROM t WHERE a != (;").run (.sample "id\ta\n1\tv\n") =
        .ok ⟨["id", "a"], [["1", "v"]], []⟩ (.sample "id\ta\n1\tv\n") ∧
      isRegular "SELECT * FROM t WHERE a != (;" = .ok false) ∧
    ((execute "SELECT * FROM t WHERE a == '(a != w)';").run (.sample "id\ta\n1\tv\n") =
        .ok ⟨["id", "a"], [["1", "v"]], []⟩ (.sample "id\ta\n1\tv\n") ∧
      compare "v" "==" "(a != w)" = false) :=
  ⟨run_before_group, run_between_groups, run_group_not_reached, run_without_value,
    run_like_in_word, run_like_in_column, run_parenthesis_in_value, run_group_in_value⟩

end Operation

end Tabula
