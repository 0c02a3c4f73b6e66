import Tabula.Proofs.Command.Acceptance
import Tabula.Proofs.Condition.Clause
import Tabula.Proofs.Session.Response

/-!
# Statements about some rows

A query, an update or a deletion is about the rows on which the condition behind its WHERE is true.
If the condition is true or not of each row and notes no fault, the statement does what it would do
with the rows picked beforehand (`Command.onRows`). So does every statement whose condition compares
columns with texts, if no text has a part that is read as something else
(`Operation.execute_where`).
-/

namespace Tabula

/-! ### Rows that are picked -/

theorem chosen_map {α β : Type} (p : α → Bool) (f : α → β) (l : List α) :
    chosen (l.map p) (l.map f) = (l.filter p).map f := by
  induction l with
  | nil => rfl
  | cons a l ih =>
    rw [List.map_cons, List.map_cons, chosen, ih]
    by_cases ha : p a = true
    · rw [if_pos ha, List.filter_cons_of_pos ha, List.map_cons]
    · rw [if_neg ha, List.filter_cons_of_neg ha]

theorem chosen_map_self {α : Type} (p : α → Bool) (l : List α) :
    chosen (l.map p) l = l.filter p := by
  simpa using chosen_map p id l

namespace Table

variable {t : Table} {condition : String} {picked : Row → Bool}

theorem overwritten_map_self (p : Row → Bool) (assignments : List (String × String))
    (rows : List Row) : overwritten (rows.map p) assignments rows =
      rows.map fun r => if p r then r.overwrite assignments else r := by
  rw [overwritten, List.zipWith_map_left, List.zipWith_self]

/-- A condition is true of the rows picked and of no other, and is at fault on none. -/
structure Picks (t : Table) (condition : String) (picked : Row → Bool) : Prop where
  validated : t.validated (Condition.read (some condition)) = .ok ()
  judged : t.judged (Condition.read (some condition)) = .ok (t.rows.map picked, [])

/-- The table with only the rows picked. -/
def onlyRows (t : Table) (picked : Row → Bool) : Table := { t with rows := t.rows.filter picked }

theorem Aligned.onlyRows (ht : t.Aligned) (picked : Row → Bool) : (t.onlyRows picked).Aligned :=
  fun r hr => ht r (List.mem_of_mem_filter hr)

theorem queried_of_picks (ht : t.Aligned) (h : t.Picks condition picked) (columns : Projection) :
    t.queried columns (some condition) = (do
      let shown ← (t.onlyRows picked).shown columns
      return { columns := shown.headers, rows := shown.rows.map Row.values }) := by
  rw [queried_eq ht, h.validated, h.judged, ok_bind]
  cases columns with
  | all =>
    simp only [shown, ok_bind, chosen_map_self]
    rfl
  | columns names =>
    have hcolumn : (t.onlyRows picked).hasColumn = t.hasColumn := rfl
    simp only [shown, project_eq ht, project_eq (ht.onlyRows picked), hcolumn]
    split
    · rfl
    · simp only [mapError_ok, ok_bind, projection, chosen_map]
      rfl

theorem updated_of_picks (ht : t.Aligned) (h : t.Picks condition picked)
    (assignments : List (String × String)) :
    t.updated assignments condition = (do
      t.assignable (assignments.map Prod.fst)
      return ({ t with
        rows := t.rows.map fun r => if picked r then r.overwrite assignments else r }, {})) := by
  rw [updated_eq ht, h.validated, h.judged, ok_bind, ok_bind]
  dsimp only
  rw [overwritten_map_self]
  rfl

theorem deleted_of_picks (h : t.Picks condition picked) :
    t.deleted condition = .ok (t.onlyRows fun r => !picked r, {}) := by
  rw [deleted_eq, h.validated, h.judged, ok_bind, ok_bind]
  dsimp only
  rw [List.map_map, chosen_map_self]
  rfl

/-- A condition that can be asked, and notes no fault, picks the rows on which it is true. -/
theorem picks_of_evaluate (ht : t.Aligned)
    (hvalidate : (Condition.read (some condition)).validate t.headers = .ok ())
    (hevaluate : ∀ r : Row, r.headers = t.headers →
      (Condition.read (some condition)).evaluate r.headers r.values [] = .ok (picked r, [])) :
    t.Picks condition picked where
  validated := by rw [Table.validated, hvalidate]; rfl
  judged := by
    have hrows : List.Forall₂ (fun row truth =>
        (Condition.read (some condition)).evaluate t.headers row [] = .ok (truth, []))
        (t.rows.map Row.values) (t.rows.map picked) := by
      rw [List.forall₂_map_left_iff, List.forall₂_map_right_iff, List.forall₂_same]
      intro r hr
      rw [← ht r hr]
      exact hevaluate r (ht r hr)
    rw [Table.judged, Condition.evaluateAll_eq hrows]
    rfl

/-- A clause picks the rows of which all its comparisons are true. -/
theorem picks_of_clause (ht : t.Aligned) {xs : List Term} {ws : List String} (h : Clause xs ws)
    (hcolumns : ∀ x ∈ xs, Condition.HasOnly t.headers x.column) :
    t.Picks (" ".intercalate ws) fun r => xs.all fun x => x.isTrueOn r :=
  picks_of_evaluate ht (h.validate_eq hcolumns) fun _ hr =>
    h.evaluate_eq (fun x hx => hr.symm ▸ hcolumns x hx) []

end Table

/-! ### Commands about rows that are picked -/

open Operation

/-- What a command with a condition does if the rows of which it is true are picked beforehand. -/
def Command.onRows (picked : Row → Bool) : Command → Operation Answer
  | select name columns (some _) => do
    let t ← readTable name
    let shown ← settle ((t.onlyRows picked).shown columns)
    return { columns := shown.headers, rows := shown.rows.map Row.values }
  | update name assignments _ => changeTable name fun t => do
    t.assignable (assignments.map Prod.fst)
    return ({ t with
      rows := t.rows.map fun r => if picked r then r.overwrite assignments else r }, {})
  | delete name _ => changeTable name fun t => .ok (t.onlyRows fun r => !picked r, {})
  | command => command.run

/-- The tokens between the first word of a statement and its WHERE, with the table that it is about
and the command that it is for each condition. -/
inductive Head : Keyword → List (Token Kind) → String → (String → Command) → Prop
  | select {f n : Token Kind} {ts : List (Token Kind)} {columns : Projection} :
      IsProjection ts columns → f.kind = .keyword .FROM → n.kind = .identifier →
      Head .SELECT (ts ++ [f, n]) n.text fun condition => .select n.text columns (some condition)
  | update {n s : Token Kind} {ts : List (Token Kind)} {assignments : List (String × String)} :
      n.kind = .identifier → s.kind = .keyword .SET → CommaList IsAssignment ts assignments →
      Head .UPDATE (n :: s :: ts) n.text (.update n.text assignments)
  | delete {f n : Token Kind} : f.kind = .keyword .FROM → n.kind = .identifier →
      Head .DELETE [f, n] n.text (.delete n.text)

namespace Head

variable {k : Keyword} {head us : List (Token Kind)} {w : Token Kind} {name condition : String}
  {command : String → Command}

theorem production (h : Head k head name command) (hw : w.kind = .keyword .WHERE)
    (hcondition : IsCondition us condition) :
    Production k (head ++ w :: us) (command condition) := by
  cases h with
  | select hcolumns hfrom hname =>
    simpa using Production.selectWhere hcolumns hfrom hname hw hcondition
  | update hname hset hassignments => exact .update hname hset hassignments hw hcondition
  | delete hfrom hname => exact .delete hfrom hname hw hcondition

theorem run_changeTable_congr {w : World} {f g : Table → Except Failure (Table × Answer)}
    (h : ∀ t, w.table name = .ok t → f t = g t) :
    (changeTable name f).run w = (changeTable name g).run w := by
  rw [run_changeTable, run_changeTable]
  cases hpath : w.session.tablePath name with
  | error e => rfl
  | ok path =>
    dsimp only
    rw [bind_eq_bind fun t ht => h t (by rw [World.table, hpath, ok_bind]; exact ht)]

theorem run_onRows_select (name : String) (columns : Projection) (condition : String)
    (picked : Row → Bool) (w : World) :
    ((Command.select name columns (some condition)).onRows picked).run w = (settle (do
      let t ← w.table name
      let shown ← (t.onlyRows picked).shown columns
      return { columns := shown.headers, rows := shown.rows.map Row.values })).run w := by
  rw [Command.onRows, EStateM.run_bind, run_readTable]
  cases w.table name with
  | error e => rfl
  | ok t =>
    rw [settle_ok, EStateM.run_pure, ok_bind]
    dsimp only
    rw [settle_bind]
    rfl

/-- If the condition picks rows of the table, the command is about these. -/
theorem run_eq (h : Head k head name command) {w : World} {picked : Row → Bool}
    (hpicks : ∀ t, w.table name = .ok t → t.Picks condition picked) :
    (command condition).run.run w = ((command condition).onRows picked).run w := by
  have haligned : ∀ t, w.table name = .ok t → t.Aligned := fun t ht =>
    (storable_of_worldTable ht).1.aligned
  cases h with
  | @select f n ts columns =>
    rw [Command.run, run_selectFrom, run_onRows_select]
    congr 2
    exact bind_eq_bind fun t ht => Table.queried_of_picks (haligned t ht) (hpicks t ht) columns
  | update =>
    rw [Command.run, updateTable_eq]
    exact run_changeTable_congr fun t ht =>
      Table.updated_of_picks (haligned t ht) (hpicks t ht) _
  | delete =>
    rw [Command.run, deleteFrom_eq]
    exact run_changeTable_congr fun t ht => Table.deleted_of_picks (hpicks t ht)

end Head

/-! ### Failures that are none of the condition -/

/-- Whether a failure is no fault of a condition. -/
def Failure.isUnconditional : Failure → Bool
  | condition _ => false
  | _ => true

theorem Failure.isUnconditional_of_isOfReading {e : Failure} (h : e.isOfReading = true) :
    e.isUnconditional = true := by
  cases e with
  | condition => cases h
  | _ => rfl

theorem Failure.isUnconditional_of_isOfTable {e : Failure} (h : e.isOfTable = true) :
    e.isUnconditional = true := by
  cases e with
  | condition => cases h
  | _ => rfl

/-- If a table can be changed without a condition at fault, then also in its file. -/
theorem Operation.isUnconditional_of_changeTable_error {w w' : World} {name : String} {e : Failure}
    {f : Table → Except Failure (Table × Answer)} (hf : ∀ t, FailsFor Failure.isUnconditional (f t))
    (h : (changeTable name f).run w = .error e w') : e.isUnconditional = true := by
  rcases cases_of_changeTable_error h with
    ⟨-, hpath⟩ | ⟨-, path, hfailed⟩ | ⟨path, t, t', a, -, -, -, hstore⟩
  · obtain ⟨-, rfl⟩ := Session.tablePath_eq_error_iff.1 hpath
    rfl
  · refine FailsFor.bind ?_ (fun t _ => hf t) e hfailed
    exact (w.files.failsFor_table name path).mono fun _ => Failure.isUnconditional_of_isOfReading
  · rw [run_store] at hstore
    split at hstore <;> cases hstore
    split <;> rfl

namespace Head

variable {k : Keyword} {head : List (Token Kind)} {name condition : String}
  {command : String → Command} {picked : Row → Bool} {w w' : World}

theorem warnings_eq_nil (h : Head k head name command) {a : Answer}
    (hrun : ((command condition).onRows picked).run w = .ok a w') : a.warnings = [] := by
  cases h with
  | select =>
    rw [run_onRows_select] at hrun
    obtain ⟨t, -, hrun⟩ := bind_eq_ok_iff.1 (run_settle_eq_ok_iff.1 hrun).1
    obtain ⟨shown, -, hrun⟩ := bind_eq_ok_iff.1 hrun
    cases hrun
    rfl
  | update =>
    obtain ⟨_, _, _, _, -, -, hchange, -, -⟩ := exists_of_changeTable_ok hrun
    obtain ⟨-, -, hchange⟩ := bind_eq_ok_iff.1 hchange
    cases hchange
    rfl
  | delete =>
    obtain ⟨_, _, _, _, -, -, hchange, -, -⟩ := exists_of_changeTable_ok hrun
    cases hchange
    rfl

theorem isUnconditional_of_error (h : Head k head name command) {e : Failure}
    (hrun : ((command condition).onRows picked).run w = .error e w') :
    e.isUnconditional = true := by
  have hassigned : ∀ (t : Table) (columns : List String) (x : Table × Answer),
      FailsFor Failure.isUnconditional (do t.assignable columns; return x) := fun t columns x =>
    ((t.failsFor_assignable columns).mono fun _ => Failure.isUnconditional_of_isOfTable).bind
      fun _ _ => .ok x
  cases h with
  | @select f n ts columns =>
    rw [run_onRows_select] at hrun
    have hfailed := (run_settle_eq_error_iff.1 hrun).1
    by_cases hselected : w.session.selected = none
    · rw [World.table_eq_error hselected] at hfailed
      cases hfailed
      rfl
    · refine FailsFor.bind ?_ (fun t ht => ?_) e hfailed
      · exact (World.failsFor_table hselected n.text).mono fun _ =>
          Failure.isUnconditional_of_isOfReading
      · have haligned := (storable_of_worldTable ht).1.aligned.onlyRows picked
        exact ((Table.failsFor_shown haligned columns).mono fun _ =>
          Failure.isUnconditional_of_isOfTable).bind fun _ _ => .ok _
  | update => exact isUnconditional_of_changeTable_error (fun t => hassigned t _ _) hrun
  | delete => exact isUnconditional_of_changeTable_error (fun t => .ok _) hrun

theorem ne_condition (h : Head k head name command) (c : ConditionError) :
    ((command condition).onRows picked).run w ≠ .error (.condition c) w' := by
  intro hrun
  cases h.isUnconditional_of_error hrun

end Head

/-! ### Statements that compare columns with texts -/

theorem Clause.words_ne_nil {xs : List Term} {ws : List String} (h : Clause xs ws) : ws ≠ [] := by
  cases h with
  | single hx _ => exact hx.ne_nil
  | @conjunction xs wss hne hstated _ _ =>
    cases hstated with
    | nil => exact absurd rfl hne
    | @cons x us xs wss _ _ => cases wss <;> simp [conjoined]

namespace Operation

/-- A statement whose condition is a clause is about the rows of which all comparisons of the clause
are true. Its condition fails on no row and gives no warning. -/
theorem execute_where {text : String} {k : Keyword} {first w stop : Token Kind}
    {head clause rest : List (Token Kind)} {name : String} {command : String → Command}
    {xs : List Term} {world : World}
    (htokens : statementTokens text = .ok (first :: head ++ w :: clause ++ stop :: rest))
    (hfirst : Text.upper first.text = k.spelling)
    (hhead : Head k head name command) (hw : w.kind = .keyword .WHERE)
    (hclause : Clause xs (clause.map Parser.spelled)) (hstop : stop.kind = .terminator)
    (hcolumns : ∀ t, world.table name = .ok t →
      ∀ x ∈ xs, Condition.HasOnly t.headers x.column) :
    ∃ condition, Command.parse text = .ok (command condition) ∧
      (execute text).run world =
        ((command condition).onRows fun r => xs.all fun x => x.isTrueOn r).run world ∧
      (∀ a w', (execute text).run world = .ok a w' → a.warnings = []) ∧
      ∀ e w', (execute text).run world ≠ .error (.condition e) w' := by
  have hne : clause ≠ [] := fun hnil => hclause.words_ne_nil (by rw [hnil]; rfl)
  have hcondition : IsCondition clause (" ".intercalate (clause.map Parser.spelled)) := by
    refine ⟨hne, fun t ht => ?_, rfl⟩
    have hend := kind_ne_endOfText htokens (t := t) (by simp [ht])
    have hfront := eq_front_of_statementTokens htokens hstop
    have hterminator : t.kind ≠ .terminator := by
      have hmem : t ∈ (first :: head ++ w :: clause ++ stop :: rest).takeWhile
          (·.kind ≠ .terminator) := by
        rw [← hfront]
        simp [ht]
      simpa using List.mem_takeWhile_imp hmem
    simp [Parser.inCondition, hend, hterminator]
  have hderives : Derives (first :: (head ++ w :: clause) ++ [stop])
      (command (" ".intercalate (clause.map Parser.spelled))) :=
    ⟨hfirst, hhead.production hw hcondition, hstop⟩
  have hstatement : statementTokens text =
      .ok ((first :: (head ++ w :: clause) ++ [stop]) ++ rest) := by
    rw [htokens]
    simp
  have hparse := parse_of_derives hstatement hderives
  have hrun : (execute text).run world =
      ((command (" ".intercalate (clause.map Parser.spelled))).onRows
        fun r => xs.all fun x => x.isTrueOn r).run world := by
    rw [run_execute_of_parse hparse]
    exact hhead.run_eq fun t ht =>
      Table.picks_of_clause (storable_of_worldTable ht).1.aligned hclause (hcolumns t ht)
  refine ⟨_, hparse, hrun, fun a w' h => ?_, fun e w' => ?_⟩
  · rw [hrun] at h
    exact hhead.warnings_eq_nil h
  · rw [hrun]
    exact hhead.ne_condition e

/-- A parenthesis that stays open in a text, and an OR at its end, are part of the text. -/
theorem execute_where_parenthesis :
    (execute "SELECT * FROM t WHERE (a == 'p (q') AND (A != 'x OR');").run
        (.sample "id\ta\n1\tp (q\n2\tz\n") =
      .ok ⟨["id", "a"], [["1", "p (q"]], []⟩ (.sample "id\ta\n1\tp (q\n2\tz\n") := by
  have htokens : statementTokens "SELECT * FROM t WHERE (a == 'p (q') AND (A != 'x OR');" =
      .ok (⟨.keyword .SELECT, "SELECT", 0⟩ ::
        [⟨.star, "*", 7⟩, ⟨.keyword .FROM, "FROM", 9⟩, ⟨.identifier, "t", 14⟩] ++
        ⟨.keyword .WHERE, "WHERE", 16⟩ :: [⟨.openParen, "(", 22⟩, ⟨.identifier, "a", 23⟩,
          ⟨.equal, "==", 25⟩, ⟨.string, "p (q", 28⟩, ⟨.closeParen, ")", 34⟩,
          ⟨.keyword .AND, "AND", 36⟩, ⟨.openParen, "(", 40⟩, ⟨.identifier, "A", 41⟩,
          ⟨.notEqual, "!=", 43⟩, ⟨.string, "x OR", 46⟩, ⟨.closeParen, ")", 52⟩] ++
        ⟨.terminator, ";", 53⟩ :: []) := by with_unfolding_all rfl
  have hread : Table.read "t" "id\ta\n1\tp (q\n2\tz\n" = .ok ⟨"t", ["id", "a"],
      [⟨[("id", "1"), ("a", "p (q")]⟩, ⟨[("id", "2"), ("a", "z")]⟩]⟩ := rfl
  have hword : ∀ word ∈ [['a'], ['A']], IsWord word := by
    intro word hword
    simp only [List.mem_cons, List.not_mem_nil, or_false] at hword
    rcases hword with rfl | rfl <;> exact ⟨⟨_, rfl, by decide⟩, by simp⟩
  have hstated : List.Forall₂ Term.Stated [⟨"a", "==", "p (q"⟩, ⟨"a", "!=", "x OR"⟩]
      [["a", "==", "'p (q'"], ["A", "!=", "'x OR'"]] :=
    .cons (.mk (c := .equal) (hword _ (by simp)) rfl rfl)
      (.cons (.mk (c := .notEqual) (hword _ (by simp)) (by decide) rfl) .nil)
  have hclause := Clause.conjunction (by simp) hstated (by decide) (by decide)
  have htable : (World.sample "id\ta\n1\tp (q\n2\tz\n").table "t" = .ok ⟨"t", ["id", "a"],
      [⟨[("id", "1"), ("a", "p (q")]⟩, ⟨[("id", "2"), ("a", "z")]⟩]⟩ := by
    rw [World.table_sample, hread]
    rfl
  obtain ⟨condition, -, hrun, -⟩ := execute_where htokens (by decide)
    (.select (.all rfl) rfl rfl) rfl hclause rfl
    (fun t ht => by cases htable.symm.trans ht; decide)
  rw [hrun, Head.run_onRows_select, htable]
  rfl

/-- A table with one row, which has one cell besides its number. -/
def oneRow (column cell : String) : Table :=
  ⟨"t", ["id", column], [⟨[("id", "1"), (column, cell)]⟩]⟩

/-- What a query of the sample answers, or why it does not. -/
theorem run_select_sample {text condition content : String} {t : Table} {x : Except Failure Answer}
    (hparse : Command.parse text = .ok (.select "t" .all (some condition)))
    (hread : Table.read "t" content = .ok t) (hquery : t.queried .all (some condition) = x) :
    (execute text).run (.sample content) = (settle x).run (.sample content) := by
  rw [run_execute_of_parse hparse, Command.run, run_selectFrom, World.table_sample, hread, ← hquery]
  rfl

/-- A group in a text is read as a term. -/
theorem run_group_in_text :
    (execute "SELECT * FROM t WHERE a == '(x)';").run (.sample "id\ta\n1\t(x)\n") =
      .ok ⟨["id", "a"], [], ["Invalid condition format: x"]⟩ (.sample "id\ta\n1\t(x)\n") := by
  have hparse : Command.parse "SELECT * FROM t WHERE a == '(x)';" =
      .ok (.select "t" .all (some "a == '(x)'")) := by with_unfolding_all rfl
  have hread : Table.read "t" "id\ta\n1\t(x)\n" = .ok (oneRow "a" "(x)") := rfl
  have hquery : (oneRow "a" "(x)").queried .all (some "a == '(x)'") =
      .ok ⟨["id", "a"], [], ["Invalid condition format: x"]⟩ := rfl
  exact run_select_sample hparse hread hquery

/-- A closing parenthesis in a text ends the group. -/
theorem run_parenthesis_in_text :
    (execute "SELECT * FROM t WHERE (a == 'x)');").run (.sample "id\ta\n1\tx)\n") =
      .ok ⟨["id", "a"], [], []⟩ (.sample "id\ta\n1\tx)\n") := by
  have hparse : Command.parse "SELECT * FROM t WHERE (a == 'x)');" =
      .ok (.select "t" .all (some "( a == 'x)' )")) := by with_unfolding_all rfl
  have hread : Table.read "t" "id\ta\n1\tx)\n" = .ok (oneRow "a" "x)") := rfl
  have hquery : (oneRow "a" "x)").queried .all (some "( a == 'x)' )") =
      .ok ⟨["id", "a"], [], []⟩ := rfl
  exact run_select_sample hparse hread hquery

/-- The word OR in a text joins the terms. -/
theorem run_or_in_text :
    (execute "SELECT * FROM t WHERE (a == 'p OR q') AND (a != 'p OR q');").run
        (.sample "id\ta\n1\tp OR q\n") =
      .ok ⟨["id", "a"], [["1", "p OR q"]], []⟩ (.sample "id\ta\n1\tp OR q\n") := by
  have hparse : Command.parse "SELECT * FROM t WHERE (a == 'p OR q') AND (a != 'p OR q');" =
      .ok (.select "t" .all (some "( a == 'p OR q' ) AND ( a != 'p OR q' )")) := by
    with_unfolding_all rfl
  have hread : Table.read "t" "id\ta\n1\tp OR q\n" = .ok (oneRow "a" "p OR q") := rfl
  have hquery : (oneRow "a" "p OR q").queried .all
      (some "( a == 'p OR q' ) AND ( a != 'p OR q' )") =
      .ok ⟨["id", "a"], [["1", "p OR q"]], []⟩ := rfl
  exact run_select_sample hparse hread hquery

/-- So does a column of this name. -/
theorem run_or_column :
    (execute "SELECT * FROM t WHERE (or == 'x') AND (or != 'x');").run
        (.sample "id\tor\n1\tx\n") =
      .ok ⟨["id", "or"], [["1", "x"]], []⟩ (.sample "id\tor\n1\tx\n") := by
  have hparse : Command.parse "SELECT * FROM t WHERE (or == 'x') AND (or != 'x');" =
      .ok (.select "t" .all (some "( OR == 'x' ) AND ( OR != 'x' )")) := by
    with_unfolding_all rfl
  have hread : Table.read "t" "id\tor\n1\tx\n" = .ok (oneRow "or" "x") := rfl
  have hquery : (oneRow "or" "x").queried .all (some "( OR == 'x' ) AND ( OR != 'x' )") =
      .ok ⟨["id", "or"], [["1", "x"]], []⟩ := rfl
  exact run_select_sample hparse hread hquery

/-- No term has a column of two words. -/
theorem run_column_of_two_words :
    (execute "SELECT * FROM t WHERE x y == 'v';").run (.sample "id\tx y\n1\tv\n") =
      .error (.condition (.malformed "x y == 'v'")) (.sample "id\tx y\n1\tv\n") := by
  have hparse : Command.parse "SELECT * FROM t WHERE x y == 'v';" =
      .ok (.select "t" .all (some "x y == 'v'")) := by with_unfolding_all rfl
  have hread : Table.read "t" "id\tx y\n1\tv\n" = .ok (oneRow "x y" "v") := rfl
  have hquery : (oneRow "x y" "v").queried .all (some "x y == 'v'") =
      .error (.condition (.malformed "x y == 'v'")) := rfl
  exact run_select_sample hparse hread hquery

/-- Comparisons that are true of a row although it is not picked, or the other way about. -/
theorem execute_where_misread :
    ((execute "SELECT * FROM t WHERE a == '(x)';").run (.sample "id\ta\n1\t(x)\n") =
        .ok ⟨["id", "a"], [], ["Invalid condition format: x"]⟩ (.sample "id\ta\n1\t(x)\n") ∧
      compare "(x)" "==" "(x)" = true) ∧
    ((execute "SELECT * FROM t WHERE (a == 'x)');").run (.sample "id\ta\n1\tx)\n") =
        .ok ⟨["id", "a"], [], []⟩ (.sample "id\ta\n1\tx)\n") ∧
      compare "x)" "==" "x)" = true) ∧
    ((execute "SELECT * FROM t WHERE (a == 'p OR q') AND (a != 'p OR q');").run
        (.sample "id\ta\n1\tp OR q\n") =
        .ok ⟨["id", "a"], [["1", "p OR q"]], []⟩ (.sample "id\ta\n1\tp OR q\n") ∧
      compare "p OR q" "!=" "p OR q" = false) ∧
    ((execute "SELECT * FROM t WHERE (or == 'x') AND (or != 'x');").run
        (.sample "id\tor\n1\tx\n") =
        .ok ⟨["id", "or"], [["1", "x"]], []⟩ (.sample "id\tor\n1\tx\n") ∧
      compare "x" "!=" "x" = false) ∧
    ((execute "SELECT * FROM t WHERE x y == 'v';").run (.sample "id\tx y\n1\tv\n") =
        .error (.condition (.malformed "x y == 'v'")) (.sample "id\tx y\n1\tv\n") ∧
      compare "v" "==" "v" = true) :=
  ⟨⟨run_group_in_text, rfl⟩, ⟨run_parenthesis_in_text, rfl⟩, ⟨run_or_in_text, rfl⟩,
    ⟨run_or_column, rfl⟩, run_column_of_two_words, rfl⟩

end Operation

end Tabula
