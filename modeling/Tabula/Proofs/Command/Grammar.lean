import Tabula.Command.Parser
import Tabula.Proofs.Outcome
import Tabula.Proofs.Token.Name

/-!
# The grammar of commands

`Production` states the grammar with the tokens as its terminals: which tokens may follow the first
word of a command, and which command they then state. `exists_production_of_parse` shows that the
parser reads a command only from tokens that a production derives it from. So what a command names
are identifiers, and what it stores are literals (`isName_of_parse`, `insert_literals`).
-/

namespace Tabula

/-! ### Productions -/

/-- Items parted by commas; an item is stated by one or more tokens. -/
inductive CommaList {α : Type} (item : List (Token Kind) → α → Prop) :
    List (Token Kind) → List α → Prop
  | one {ts : List (Token Kind)} {a : α} : item ts a → CommaList item ts [a]
  | cons {ts us : List (Token Kind)} {comma : Token Kind} {a : α} {as : List α} :
      item ts a → comma.kind = .comma → CommaList item us as →
      CommaList item (ts ++ comma :: us) (a :: as)

/-- The tokens are one identifier, with this text. -/
def IsIdentifier (ts : List (Token Kind)) (s : String) : Prop :=
  ∃ t, ts = [t] ∧ t.kind = .identifier ∧ s = t.text

/-- The tokens are one literal, with this text. -/
def IsLiteral (ts : List (Token Kind)) (s : String) : Prop :=
  ∃ t, ts = [t] ∧ t.kind.isLiteral = true ∧ s = t.text

/-- The tokens assign a literal to a column. -/
def IsAssignment (ts : List (Token Kind)) (a : String × String) : Prop :=
  ∃ column sign value, ts = [column, sign, value] ∧ column.kind = .identifier ∧
    sign.kind = .assign ∧ value.kind.isLiteral = true ∧ a = (column.text, value.text)

/-- The tokens are the condition with this text. -/
def IsCondition (ts : List (Token Kind)) (s : String) : Prop :=
  ts ≠ [] ∧ (∀ t ∈ ts, Parser.inCondition t = true) ∧
    s = String.intercalate " " (ts.map Parser.spelled)

/-- The tokens state what columns are shown. -/
inductive IsProjection : List (Token Kind) → Projection → Prop
  | all {t : Token Kind} : t.kind = .star → IsProjection [t] .all
  | columns {ts : List (Token Kind)} {names : List String} :
      CommaList IsIdentifier ts names → IsProjection ts (.columns names)

/-- The tokens that may follow the first word of a command, up to the terminator. -/
inductive Production : Keyword → List (Token Kind) → Command → Prop
  | use {n : Token Kind} : n.kind = .identifier → Production .USE [n] (.use n.text)
  | createDatabase {k n : Token Kind} :
      k.kind = .keyword .DATABASE → n.kind = .identifier →
      Production .CREATE [k, n] (.createDatabase n.text)
  | createTable {k n : Token Kind} :
      k.kind = .keyword .TABLE → n.kind = .identifier →
      Production .CREATE [k, n] (.createTable n.text [])
  | createTableWith {k n o c : Token Kind} {ts : List (Token Kind)} {columns : List String} :
      k.kind = .keyword .TABLE → n.kind = .identifier → o.kind = .openParen →
      CommaList IsIdentifier ts columns → c.kind = .closeParen →
      Production .CREATE (k :: n :: o :: ts ++ [c]) (.createTable n.text columns)
  | dropDatabase {k n : Token Kind} :
      k.kind = .keyword .DATABASE → n.kind = .identifier →
      Production .DROP [k, n] (.dropDatabase n.text)
  | dropTable {k n : Token Kind} :
      k.kind = .keyword .TABLE → n.kind = .identifier →
      Production .DROP [k, n] (.dropTable n.text)
  | alterAdd {k n a c : Token Kind} :
      k.kind = .keyword .TABLE → n.kind = .identifier → a.kind = .keyword .ADD →
      c.kind = .identifier → Production .ALTER [k, n, a, c] (.alterTable n.text .add c.text)
  | alterDrop {k n a c : Token Kind} :
      k.kind = .keyword .TABLE → n.kind = .identifier → a.kind = .keyword .DROP →
      c.kind = .identifier → Production .ALTER [k, n, a, c] (.alterTable n.text .drop c.text)
  | insert {i n v o c : Token Kind} {ts : List (Token Kind)} {values : List String} :
      i.kind = .keyword .INTO → n.kind = .identifier → v.kind = .keyword .VALUES →
      o.kind = .openParen → CommaList IsLiteral ts values → c.kind = .closeParen →
      Production .INSERT (i :: n :: v :: o :: ts ++ [c]) (.insert n.text values)
  | select {f n : Token Kind} {ts : List (Token Kind)} {columns : Projection} :
      IsProjection ts columns → f.kind = .keyword .FROM → n.kind = .identifier →
      Production .SELECT (ts ++ [f, n]) (.select n.text columns none)
  | selectWhere {f n w : Token Kind} {ts us : List (Token Kind)} {columns : Projection}
      {condition : String} :
      IsProjection ts columns → f.kind = .keyword .FROM → n.kind = .identifier →
      w.kind = .keyword .WHERE → IsCondition us condition →
      Production .SELECT (ts ++ f :: n :: w :: us) (.select n.text columns (some condition))
  | update {n s w : Token Kind} {ts us : List (Token Kind)} {assignments : List (String × String)}
      {condition : String} :
      n.kind = .identifier → s.kind = .keyword .SET → CommaList IsAssignment ts assignments →
      w.kind = .keyword .WHERE → IsCondition us condition →
      Production .UPDATE (n :: s :: ts ++ w :: us) (.update n.text assignments condition)
  | delete {f n w : Token Kind} {us : List (Token Kind)} {condition : String} :
      f.kind = .keyword .FROM → n.kind = .identifier → w.kind = .keyword .WHERE →
      IsCondition us condition →
      Production .DELETE (f :: n :: w :: us) (.delete n.text condition)
  | join {l a r o la b ra : Token Kind} :
      l.kind = .identifier → a.kind = .keyword .AND → r.kind = .identifier →
      o.kind = .keyword .ON → la.kind = .identifier → b.kind = .keyword .AND →
      ra.kind = .identifier →
      Production .JOIN [l, a, r, o, la, b, ra] (.join l.text r.text la.text ra.text)

/-! ### Reading by one parser after the other -/

/-- A cursor has passed over tokens, and is now at the place of another one. -/
def Cursor.Passed (ts : List (Token Kind)) (c d : Cursor Kind) : Prop :=
  c.ahead = ts ++ d.ahead ∧ d.last = c.last

namespace Parser

variable {α β : Type}

/-- Whenever a parser reads at a cursor whose tokens end in the sentinel, it passes over tokens
that state its result. -/
def Reads (p : Parser α) (states : List (Token Kind) → α → Prop) : Prop :=
  ∀ ⦃c a d⦄, c.last.kind = .endOfText → p.run c = .ok (a, d) → ∃ ts, c.Passed ts d ∧ states ts a

theorem reads_return {a : α} {P : List (Token Kind) → α → Prop} (h : P [] a) :
    Reads (pure a) P := by
  intro c b d _ hrun
  cases hrun
  exact ⟨[], ⟨rfl, rfl⟩, h⟩

/-- What one parser and then another one reads. -/
theorem Reads.bind {p : Parser α} {f : α → Parser β} {P : List (Token Kind) → α → Prop}
    {Q : List (Token Kind) → β → Prop} (hp : Reads p P)
    (hf : ∀ ts a, P ts a → Reads (f a) fun us b => Q (ts ++ us) b) : Reads (p >>= f) Q := by
  intro c b e hlast hrun
  rw [StateT.run_bind] at hrun
  cases hfirst : p.run c with
  | error error =>
    rw [hfirst] at hrun
    cases hrun
  | ok result =>
    obtain ⟨a, d⟩ := result
    rw [hfirst] at hrun
    obtain ⟨ts, ⟨hc, hd⟩, hts⟩ := hp hlast hfirst
    obtain ⟨us, ⟨hd', he⟩, hus⟩ := hf ts a hts (hd ▸ hlast) hrun
    exact ⟨ts ++ us, ⟨by rw [hc, hd', List.append_assoc], he.trans hd⟩, hus⟩

theorem reads_fail (wanted : Wanted) (P : List (Token Kind) → α → Prop) :
    Reads (fail wanted) P := by
  intro c a d _ hrun
  cases hrun

theorem reads_take {k : Kind} (hk : k ≠ .endOfText) (wanted : Wanted) :
    Reads (take k wanted) fun ts t => ts = [t] ∧ t.kind = k := by
  intro c t d hlast hrun
  obtain ⟨ahead, last⟩ := c
  cases ahead with
  | nil =>
    have hne : last.kind ≠ k := fun h => hk (h ▸ hlast)
    simp [take, Cursor.expect, hne] at hrun
    cases hrun
  | cons u us =>
    by_cases hu : u.kind = k
    · simp [take, Cursor.expect, hu] at hrun
      cases hrun
      exact ⟨[_], ⟨rfl, rfl⟩, rfl, hu⟩
    · simp [take, Cursor.expect, hu] at hrun
      cases hrun

theorem reads_skip {k : Kind} (hk : k ≠ .endOfText) :
    Reads (skip k) fun ts b =>
      (b = true ∧ ∃ t, ts = [t] ∧ t.kind = k) ∨ (b = false ∧ ts = []) := by
  intro c b d hlast hrun
  obtain ⟨ahead, last⟩ := c
  cases ahead with
  | nil =>
    have hne : last.kind ≠ k := fun h => hk (h ▸ hlast)
    simp [skip, Cursor.isAt, hne] at hrun
    cases hrun
    exact ⟨[], ⟨rfl, rfl⟩, .inr ⟨rfl, rfl⟩⟩
  | cons u us =>
    by_cases hu : u.kind = k
    · simp [skip, Cursor.isAt, hu] at hrun
      cases hrun
      exact ⟨[u], ⟨rfl, rfl⟩, .inl ⟨rfl, u, rfl, hu⟩⟩
    · simp [skip, Cursor.isAt, hu] at hrun
      cases hrun
      exact ⟨[], ⟨rfl, rfl⟩, .inr ⟨rfl, rfl⟩⟩

section

variable {f : Token Kind → Parser β} {g : String → Parser β} {h : Bool → Parser β}
  {Q : List (Token Kind) → β → Prop}

theorem reads_take_bind {k : Kind} (hk : k ≠ .endOfText) {wanted : Wanted}
    (hf : ∀ t, t.kind = k → Reads (f t) fun us b => Q (t :: us) b) :
    Reads (take k wanted >>= f) Q := by
  refine (reads_take hk wanted).bind fun ts t hts => ?_
  obtain ⟨rfl, ht⟩ := hts
  exact hf t ht

theorem reads_name_bind {wanted : Wanted}
    (hg : ∀ t, t.kind = .identifier → Reads (g t.text) fun us b => Q (t :: us) b) :
    Reads (name wanted >>= g) Q := by
  rw [name, bind_assoc]
  exact reads_take_bind (by decide) hg

/-- A token is passed over if it is there. -/
theorem reads_skip_bind {k : Kind} (hk : k ≠ .endOfText)
    (hthen : ∀ t, t.kind = k → Reads (h true) fun us b => Q (t :: us) b)
    (helse : Reads (h false) Q) : Reads (skip k >>= h) Q := by
  refine (reads_skip hk).bind fun ts b hts => ?_
  rcases hts with ⟨rfl, t, rfl, ht⟩ | ⟨rfl, rfl⟩
  · exact hthen t ht
  · exact helse

end

theorem reads_name (wanted : Wanted) : Reads (name wanted) IsIdentifier := by
  rw [← bind_pure (name wanted)]
  exact reads_name_bind fun t ht => reads_return ⟨t, rfl, ht, rfl⟩

theorem reads_literal : Reads literal IsLiteral := by
  intro c s d hlast hrun
  obtain ⟨ahead, last⟩ := c
  cases ahead with
  | nil =>
    have hne : last.kind.isLiteral = false := by rw [hlast]; rfl
    simp [literal, fail, hne] at hrun
    cases hrun
  | cons u us =>
    cases hu : u.kind.isLiteral with
    | true =>
      simp [literal, hu] at hrun
      cases hrun
      exact ⟨[u], ⟨rfl, rfl⟩, u, rfl, hu, rfl⟩
    | false =>
      simp [literal, fail, hu] at hrun
      cases hrun

theorem reads_commaList {item : Parser α} {P : List (Token Kind) → α → Prop}
    (hitem : Reads item P) : Reads (commaList item) (CommaList P) := by
  intro c as e hlast hrun
  change commaList item c = .ok (as, e) at hrun
  fun_induction commaList item c generalizing as e with
  | case1 c error hfirst => cases hrun
  | case2 c a d hfirst hcomma hshorter error hrest ih => cases hrun
  | case3 c a d hfirst hcomma hshorter as' e' hrest ih =>
    cases hrun
    obtain ⟨ts, ⟨hc, hd⟩, hts⟩ := hitem hlast hfirst
    obtain ⟨ahead, last⟩ := d
    cases ahead with
    | nil =>
      -- the sentinel is no comma
      have hkind : last.kind = .comma := of_decide_eq_true hcomma
      dsimp only at hd
      rw [hd, hlast] at hkind
      cases hkind
    | cons comma rest =>
      have hkind : comma.kind = .comma := of_decide_eq_true hcomma
      obtain ⟨us, ⟨hrest', he⟩, hus⟩ := ih (hd ▸ hlast) hrest
      refine ⟨ts ++ comma :: us, ⟨?_, he.trans hd⟩, .cons hts hkind hus⟩
      simp only [Cursor.advance_cons] at hrest'
      simp [hc, hrest']
  | case4 c a d hfirst hcomma hnot =>
    cases hrun
    obtain ⟨ts, hpassed, hts⟩ := hitem hlast hfirst
    exact ⟨ts, hpassed, .one hts⟩
  | case5 c a d hfirst hcomma =>
    cases hrun
    obtain ⟨ts, hpassed, hts⟩ := hitem hlast hfirst
    exact ⟨ts, hpassed, .one hts⟩

theorem reads_assignment : Reads assignment IsAssignment := by
  refine reads_name_bind fun c hc => ?_
  refine reads_take_bind (by decide) fun sign hsign => ?_
  refine reads_literal.bind fun ts value hvalue => ?_
  obtain ⟨v, rfl, hv, rfl⟩ := hvalue
  exact reads_return ⟨c, sign, v, rfl, hc, hsign, hv, rfl⟩

theorem reads_condition : Reads condition IsCondition := by
  intro c s d _ hrun
  have hsplit : c.ahead = c.ahead.takeWhile inCondition ++ c.ahead.dropWhile inCondition :=
    List.takeWhile_append_dropWhile.symm
  have hall : ∀ t ∈ c.ahead.takeWhile inCondition, inCondition t = true :=
    List.all_eq_true.1 List.all_takeWhile
  unfold condition at hrun
  rw [StateT.run_bind, StateT.run_get, pure_bind] at hrun
  cases hspan : c.ahead.takeWhile inCondition with
  | nil =>
    rw [hspan] at hrun
    cases hrun
  | cons t ts =>
    rw [hspan] at hrun hsplit hall
    cases hrun
    exact ⟨t :: ts, ⟨hsplit, rfl⟩, List.cons_ne_nil t ts, hall, rfl⟩

theorem reads_projection : Reads projection IsProjection := by
  refine reads_skip_bind (by decide) (fun t ht => reads_return (.all ht)) ?_
  refine (reads_commaList (reads_name _)).bind fun ts names hnames => ?_
  exact reads_return (by simpa using IsProjection.columns hnames)

/-! ### Soundness of the commands -/

theorem reads_use : Reads use (Production .USE) :=
  reads_name_bind fun _ hn => reads_return (.use hn)

theorem reads_create : Reads create (Production .CREATE) := by
  refine reads_skip_bind (by decide) (fun k hk => ?_) ?_
  · exact reads_name_bind fun n hn => reads_return (.createDatabase hk hn)
  · refine reads_take_bind (by decide) fun k hk => ?_
    refine reads_name_bind fun n hn => ?_
    refine reads_skip_bind (by decide) (fun o ho => ?_) ?_
    · refine (reads_commaList (reads_name _)).bind fun ts columns hcolumns => ?_
      refine reads_take_bind (by decide) fun c hc => ?_
      exact reads_return (.createTableWith hk hn ho hcolumns hc)
    · exact reads_return (.createTable hk hn)

theorem reads_drop : Reads drop (Production .DROP) := by
  refine reads_skip_bind (by decide) (fun k hk => ?_) ?_
  · exact reads_name_bind fun n hn => reads_return (.dropDatabase hk hn)
  · refine reads_take_bind (by decide) fun k hk => ?_
    exact reads_name_bind fun n hn => reads_return (.dropTable hk hn)

theorem reads_alteration : Reads alteration fun ts a =>
    ∃ t, ts = [t] ∧ (t.kind = .keyword .ADD ∧ a = .add ∨ t.kind = .keyword .DROP ∧ a = .drop) := by
  refine reads_skip_bind (by decide) (fun t ht => reads_return ⟨t, rfl, .inl ⟨ht, rfl⟩⟩) ?_
  refine reads_skip_bind (by decide) (fun t ht => reads_return ⟨t, rfl, .inr ⟨ht, rfl⟩⟩) ?_
  exact reads_fail _ _

theorem reads_alter : Reads alter (Production .ALTER) := by
  refine reads_take_bind (by decide) fun k hk => ?_
  refine reads_name_bind fun n hn => ?_
  refine reads_alteration.bind fun ts alteration halteration => ?_
  obtain ⟨a, rfl, ha⟩ := halteration
  refine reads_name_bind fun c hc => ?_
  rcases ha with ⟨ha, rfl⟩ | ⟨ha, rfl⟩
  · exact reads_return (.alterAdd hk hn ha hc)
  · exact reads_return (.alterDrop hk hn ha hc)

theorem reads_insert : Reads insert (Production .INSERT) := by
  refine reads_take_bind (by decide) fun i hi => ?_
  refine reads_name_bind fun n hn => ?_
  refine reads_take_bind (by decide) fun v hv => ?_
  refine reads_take_bind (by decide) fun o ho => ?_
  refine (reads_commaList reads_literal).bind fun ts values hvalues => ?_
  refine reads_take_bind (by decide) fun c hc => ?_
  exact reads_return (.insert hi hn hv ho hvalues hc)

theorem reads_select : Reads select (Production .SELECT) := by
  refine reads_projection.bind fun ts columns hcolumns => ?_
  refine reads_take_bind (by decide) fun f hf => ?_
  refine reads_name_bind fun n hn => ?_
  refine reads_skip_bind (by decide) (fun w hw => ?_) ?_
  · refine reads_condition.bind fun us condition hcondition => ?_
    exact reads_return (by simpa using Production.selectWhere hcolumns hf hn hw hcondition)
  · exact reads_return (.select hcolumns hf hn)

theorem reads_update : Reads update (Production .UPDATE) := by
  refine reads_name_bind fun n hn => ?_
  refine reads_take_bind (by decide) fun s hs => ?_
  refine (reads_commaList reads_assignment).bind fun ts assignments hassignments => ?_
  refine reads_take_bind (by decide) fun w hw => ?_
  refine reads_condition.bind fun us condition hcondition => ?_
  exact reads_return (by simpa using Production.update hn hs hassignments hw hcondition)

theorem reads_delete : Reads delete (Production .DELETE) := by
  refine reads_take_bind (by decide) fun f hf => ?_
  refine reads_name_bind fun n hn => ?_
  refine reads_take_bind (by decide) fun w hw => ?_
  refine reads_condition.bind fun us condition hcondition => ?_
  exact reads_return (by simpa using Production.delete hf hn hw hcondition)

theorem reads_join : Reads join (Production .JOIN) := by
  refine reads_name_bind fun l hl => ?_
  refine reads_take_bind (by decide) fun a ha => ?_
  refine reads_name_bind fun r hr => ?_
  refine reads_take_bind (by decide) fun o ho => ?_
  refine reads_name_bind fun la hla => ?_
  refine reads_take_bind (by decide) fun b hb => ?_
  refine reads_name_bind fun ra hra => ?_
  exact reads_return (.join hl ha hr ho hla hb hra)

theorem reads_body {k : Keyword} {body : Parser Command} (h : body? k = some body) :
    Reads body (Production k) := by
  cases k <;> cases h
  · exact reads_use
  · exact reads_create
  · exact reads_drop
  · exact reads_alter
  · exact reads_insert
  · exact reads_select
  · exact reads_update
  · exact reads_delete
  · exact reads_join

/-- After the first word there are the tokens of a production and the terminator. -/
theorem reads_statement : Reads statement fun ts command =>
    ∃ first k body terminator, ts = first :: body ++ [terminator] ∧
      Keyword.ofSpelling? (Text.upper first.text) = some k ∧ Production k body command ∧
      terminator.kind = .terminator := by
  intro c command d hlast hrun
  cases hk : (Keyword.ofSpelling? (Text.upper c.current.text)).bind body? with
  | none =>
    simp [statement, hk] at hrun
    cases hrun
  | some body =>
    obtain ⟨k, hword, hbody⟩ := Option.bind_eq_some_iff.1 hk
    have hrest : Reads (do
        let command ← body
        let _ ← take .terminator .terminator
        return command) fun ts command =>
          ∃ us t, ts = us ++ [t] ∧ Production k us command ∧ t.kind = .terminator := by
      refine (reads_body hbody).bind fun us command hcommand => ?_
      refine reads_take_bind (by decide) fun t ht => ?_
      exact reads_return ⟨us, t, rfl, hcommand, ht⟩
    have hafter : (do
        let command ← body
        let _ ← take .terminator .terminator
        return command : Parser Command).run c.advance = .ok (command, d) := by
      simpa [statement, hk] using hrun
    have hlast' : c.advance.last.kind = .endOfText := hlast
    obtain ⟨ts, ⟨hahead, hd⟩, us, t, rfl, hcommand, ht⟩ := hrest hlast' hafter
    obtain ⟨ahead, last⟩ := c
    cases ahead with
    | nil => simp at hahead
    | cons first rest =>
      exact ⟨first :: us ++ [t], ⟨congrArg (first :: ·) hahead, hd⟩, first, k, us, t, rfl, hword,
        hcommand, ht⟩

end Parser

/-- A command is read only from tokens that a production derives it from. What follows the
terminator is not looked at. -/
theorem exists_production_of_parse {text : String} {command : Command}
    (h : Command.parse text = .ok command) :
    ∃ first k body terminator rest,
      statementTokens text = .ok (first :: body ++ terminator :: rest) ∧
      Keyword.ofSpelling? (Text.upper first.text) = some k ∧ Production k body command ∧
      terminator.kind = .terminator := by
  obtain ⟨tokens, htokens, h⟩ := bind_eq_ok_iff.1 h
  obtain ⟨⟨result, d⟩, hrun, h⟩ := bind_eq_ok_iff.1 h
  cases h
  obtain ⟨ts, ⟨hahead, -⟩, first, k, body, terminator, rfl, hk, hbody, hterminator⟩ :=
    Parser.reads_statement rfl hrun
  refine ⟨first, k, body, terminator, d.ahead, ?_, hk, hbody, hterminator⟩
  have htext : tokens = first :: body ++ [terminator] ++ d.ahead := hahead
  rw [mapError_eq_ok_iff.1 htokens, htext, List.append_assoc]
  rfl

/-! ### Names and values of commands -/

namespace Command

/-- The names of databases in a command. -/
def databases : Command → List String
  | use database | createDatabase database | dropDatabase database => [database]
  | _ => []

/-- The names of tables in a command. -/
def tables : Command → List String
  | createTable table _ | dropTable table | alterTable table _ _ | insert table _
  | select table _ _ | update table _ _ | delete table _ => [table]
  | join leftTable rightTable _ _ => [leftTable, rightTable]
  | _ => []

/-- The names of columns in a command that it may add to a table. -/
def newColumns : Command → List String
  | createTable _ columns => columns
  | alterTable _ _ column => [column]
  | _ => []

/-- The values in a command that it may put in cells. -/
def values : Command → List String
  | insert _ values => values
  | update _ assignments _ => assignments.map Prod.snd
  | _ => []

end Command

theorem mem_of_commaList_isIdentifier {ts : List (Token Kind)} {names : List String}
    (h : CommaList IsIdentifier ts names) {n : String} (hn : n ∈ names) :
    ∃ t ∈ ts, t.kind = .identifier ∧ n = t.text := by
  induction h with
  | one hitem =>
    obtain ⟨t, rfl, hkind, rfl⟩ := hitem
    exact ⟨t, by simp, hkind, by simpa using hn⟩
  | cons hitem _ _ ih =>
    obtain ⟨t, rfl, hkind, rfl⟩ := hitem
    rcases List.mem_cons.1 hn with rfl | hn
    · exact ⟨t, by simp, hkind, rfl⟩
    · obtain ⟨u, hu, hku⟩ := ih hn
      exact ⟨u, by simp [hu], hku⟩

/-- The names in a command are texts of identifiers. -/
theorem Production.exists_identifier {k : Keyword} {body : List (Token Kind)} {command : Command}
    (h : Production k body command) {n : String}
    (hn : n ∈ command.databases ++ command.tables ++ command.newColumns) :
    ∃ t ∈ body, t.kind = .identifier ∧ n = t.text := by
  cases h with
  | createTableWith hk hname ho hcolumns hc =>
    simp only [Command.databases, Command.tables, Command.newColumns, List.nil_append,
      List.mem_append, List.mem_singleton] at hn
    rcases hn with rfl | hn
    · exact ⟨_, by simp, hname, rfl⟩
    · obtain ⟨t, ht, hkind⟩ := mem_of_commaList_isIdentifier hcolumns hn
      exact ⟨t, by simp [ht], hkind⟩
  | _ =>
    simp only [Command.databases, Command.tables, Command.newColumns, List.nil_append,
      List.append_nil, List.cons_append, List.mem_cons, List.not_mem_nil, or_false] at hn
    grind

/-- The names in a statement are names. -/
theorem isName_of_parse {text : String} {command : Command}
    (h : Command.parse text = .ok command) {n : String}
    (hn : n ∈ command.databases ++ command.tables ++ command.newColumns) : IsName n := by
  obtain ⟨first, k, body, terminator, rest, htokens, -, hbody, -⟩ := exists_production_of_parse h
  obtain ⟨t, ht, hkind, rfl⟩ := hbody.exists_identifier hn
  exact isName_of_mem_statementTokens htokens (by simp [ht]) hkind

/-- The texts of the literals of a statement, those behind its first word and before its
terminator. -/
def literals (tokens : List (Token Kind)) : List String :=
  ((tokens.tail.takeWhile (·.kind ≠ .terminator)).filter (·.kind.isLiteral)).map (·.text)

theorem literals_of_commaList {ts : List (Token Kind)} {values : List String}
    (h : CommaList IsLiteral ts values) :
    (∀ t ∈ ts, t.kind ≠ .terminator) ∧ (ts.filter (·.kind.isLiteral)).map (·.text) = values := by
  induction h with
  | one hitem =>
    obtain ⟨t, rfl, hkind, rfl⟩ := hitem
    refine ⟨?_, by simp [hkind]⟩
    rintro u hu hterminator
    obtain rfl := List.mem_singleton.1 hu
    simp [hterminator, Kind.isLiteral] at hkind
  | @cons _ us comma _ _ hitem hcomma _ ih =>
    obtain ⟨t, rfl, hkind, rfl⟩ := hitem
    have hnot : comma.kind.isLiteral = false := by rw [hcomma]; rfl
    refine ⟨?_, by simp [hkind, hnot, ih.2]⟩
    rintro u hu hterminator
    simp only [List.singleton_append, List.mem_cons] at hu
    rcases hu with rfl | rfl | hu
    · simp [hterminator, Kind.isLiteral] at hkind
    · simp [hterminator] at hcomma
    · exact ih.1 u hu hterminator

/-- An insertion stores the texts of its literals. -/
theorem insert_literals {text table : String} {values : List String}
    {tokens : List (Token Kind)} (h : Command.parse text = .ok (.insert table values))
    (htokens : statementTokens text = .ok tokens) : literals tokens = values := by
  obtain ⟨first, k, body, terminator, rest, htokens', -, hbody, hterminator⟩ :=
    exists_production_of_parse h
  obtain rfl : tokens = first :: body ++ terminator :: rest := by simpa [htokens] using htokens'
  cases hbody with
  | @insert i n v o c ts _ hi hn hv ho hvalues hc =>
    obtain ⟨hnot, htexts⟩ := literals_of_commaList hvalues
    have hbody : ∀ t ∈ i :: n :: v :: o :: ts ++ [c], decide (t.kind ≠ .terminator) = true := by
      intro t ht
      simp only [List.cons_append, List.mem_cons, List.mem_append, List.not_mem_nil,
        or_false] at ht
      rcases ht with rfl | rfl | rfl | rfl | ht | rfl
      · simp [hi]
      · simp [hn]
      · simp [hv]
      · simp [ho]
      · simpa using hnot t ht
      · simp [hc]
    rw [literals, List.cons_append, List.tail_cons, List.takeWhile_append_of_pos hbody,
      List.takeWhile_cons_of_neg (by simp [hterminator]), List.append_nil]
    have hplain : ∀ {t : Token Kind}, ∀ k, t.kind = k → k.isLiteral = false →
        (t.kind.isLiteral = false) := fun k ht hk => ht ▸ hk
    simp [hplain _ hi rfl, hplain _ hn rfl, hplain _ hv rfl, hplain _ ho rfl, hplain _ hc rfl,
      htexts]

end Tabula
