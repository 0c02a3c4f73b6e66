import Tabula.Proofs.Command.Layout
import Tabula.Proofs.Condition.Token

/-!
# Commands as texts

A command is written by the grammar: its words with a blank between them, lists with commas, every
value in quotes, and a semicolon at the end (`Command.text`). If it can be written
(`Command.Writable`), reading what is written gives the command again (`Command.parse_text`). The
tokens of a text are put together as the text is (`Writes`), and they are what the grammar derives
the command from (`Command.Writable.exists_derives`).
-/

namespace Tabula

/-! ### Texts of commands -/

/-- Words with a blank between them. -/
def sentence (words : List String) : String := " ".intercalate words

/-- Items with a comma between them. -/
def listed (items : List String) : String := ", ".intercalate items

def inQuotes (value : String) : String := "'" ++ value ++ "'"

namespace Alteration

def text : Alteration → String
  | add => "ADD"
  | drop => "DROP"
  | other word => word

end Alteration

namespace Projection

def text (columns : Projection) : String := listed columns.names

end Projection

namespace Command

def assignmentText (a : String × String) : String := sentence [a.1, "=", inQuotes a.2]

/-- The words of a command; a list of items counts as one. -/
def words : Command → List String
  | use database => ["USE", database]
  | createDatabase database => ["CREATE", "DATABASE", database]
  | createTable table [] => ["CREATE", "TABLE", table]
  | createTable table columns => ["CREATE", "TABLE", table, "(" ++ listed columns ++ ")"]
  | dropDatabase database => ["DROP", "DATABASE", database]
  | dropTable table => ["DROP", "TABLE", table]
  | alterTable table alteration column => ["ALTER", "TABLE", table, alteration.text, column]
  | insert table values =>
    ["INSERT", "INTO", table, "VALUES", "(" ++ listed (values.map inQuotes) ++ ")"]
  | select table columns none => ["SELECT", columns.text, "FROM", table]
  | select table columns (some condition) =>
    ["SELECT", columns.text, "FROM", table, "WHERE", condition]
  | update table assignments condition =>
    ["UPDATE", table, "SET", listed (assignments.map assignmentText), "WHERE", condition]
  | delete table condition => ["DELETE", "FROM", table, "WHERE", condition]
  | join leftTable rightTable leftAttribute rightAttribute =>
    ["JOIN", leftTable, "AND", rightTable, "ON", leftAttribute, "AND", rightAttribute]

/-- A command as it is written. -/
def text (command : Command) : String := sentence command.words ++ ";"

end Command

/-- A text of tokens none of which ends the statement, with a blank between them. -/
def IsClause (s : String) : Prop :=
  ∃ ts : List (Token Kind), ts ≠ [] ∧ (∀ t ∈ ts, t.Given ∧ t.kind ≠ .terminator) ∧ s = clauseText ts

/-- A value that can stand between quotes. -/
def IsQuotable (s : String) : Prop := '\'' ∉ s.toList

instance (s : String) : Decidable (IsQuotable s) := inferInstanceAs (Decidable (¬ _))

/-- The columns can be named one after another. -/
def Projection.Writable : Projection → Prop
  | .all => True
  | .columns names => names ≠ [] ∧ ∀ n ∈ names, IsName n

/-- A command that the grammar has a text for. -/
def Command.Writable : Command → Prop
  | use database | createDatabase database | dropDatabase database => IsName database
  | createTable table columns => IsName table ∧ ∀ n ∈ columns, IsName n
  | dropTable table => IsName table
  | alterTable table alteration column =>
    IsName table ∧ (alteration = .add ∨ alteration = .drop) ∧ IsName column
  | insert table values => IsName table ∧ values ≠ [] ∧ ∀ v ∈ values, IsQuotable v
  | select table columns condition =>
    IsName table ∧ columns.Writable ∧ ∀ s ∈ condition, IsClause s
  | update table assignments condition =>
    IsName table ∧ assignments ≠ [] ∧ (∀ a ∈ assignments, IsName a.1 ∧ IsQuotable a.2) ∧
      IsClause condition
  | delete table condition => IsName table ∧ IsClause condition
  | join leftTable rightTable leftAttribute rightAttribute =>
    IsName leftTable ∧ IsName rightTable ∧ IsName leftAttribute ∧ IsName rightAttribute

/-! ### Tokens as they are written -/

namespace Token

def ofKeyword (k : Keyword) : Token Kind := ⟨.keyword k, k.spelling, 0⟩

def ofName (s : String) : Token Kind := ⟨.identifier, s, 0⟩

def ofValue (s : String) : Token Kind := ⟨.string, s, 0⟩

def ofSymbol (kind : Kind) (spelling : String) : Token Kind := ⟨kind, spelling, 0⟩

/-- A token as a lexeme that is spelled as in a condition. -/
def lexeme (t : Token Kind) : Lexeme := ⟨t.kind, t.text, t.chars⟩

theorem map_token_lexeme (ts : List (Token Kind)) :
    (ts.map lexeme).map (·.token 0) = ts.map unplaced :=
  List.map_map

variable {t : Token Kind}

theorem given_ofKeyword (k : Keyword) : (ofKeyword k).Given := by
  have hword : IsWord k.spelling.toList := by
    rw [← isWord_iff]
    cases k <;> decide
  have hcapitals : String.ofList (k.spelling.toList.map Char.toUpper) = k.spelling := by
    cases k <;> decide
  have hkind : Kind.reserved? (String.ofList (k.spelling.toList.map Char.toUpper)) =
      some (.keyword k) := by
    cases k <;> decide
  have hstops : Stops Lexeme.isWordTail [] := nofun
  have hgives := Rule.Gives.reserved hword hstops hkind
  rw [hcapitals] at hgives
  exact ⟨.word, by simp [rules], _, [], hgives⟩

theorem given_ofName {s : String} (h : IsName s) : (ofName s).Given := by
  have hstops : Stops Lexeme.isWordTail [] := nofun
  have hgives := Rule.Gives.name (isWord_iff.1 h.word) hstops h.free
  rw [String.ofList_toList] at hgives
  exact ⟨.word, by simp [rules], _, [], hgives⟩

theorem given_ofValue {s : String} (h : IsQuotable s) : (ofValue s).Given := by
  have hgives := @Rule.Gives.string s.toList [] h
  rw [String.ofList_toList] at hgives
  exact ⟨.string, by simp [rules], _, [], hgives⟩

theorem given_ofSymbol {kind : Kind} {spelling : String}
    (h : Rule.symbol kind spelling.toList ∈ rules) : (ofSymbol kind spelling).Given := by
  have hgives := @Rule.Gives.symbol kind spelling.toList []
  rw [String.ofList_toList] at hgives
  exact ⟨_, h, _, [], hgives⟩

/-- A rule gives a token as it is spelled in a condition. -/
theorem Given.exists_gives (h : t.Given) : ∃ r ∈ rules, ∃ rest, r.Gives t.lexeme rest := by
  obtain ⟨kind, text, pos⟩ := t
  obtain ⟨r, hr, source, rest, hgives⟩ := h
  dsimp only at hgives
  refine ⟨r, hr, rest, ?_⟩
  have hplain : kind ≠ .string → lexeme ⟨kind, text, pos⟩ = ⟨kind, text, text.toList⟩ :=
    fun hkind => congrArg (Lexeme.mk kind text) (chars_of_ne_string hkind)
  cases hgives with
  | reserved hword hrest hkind =>
    have hstring : kind ≠ .string := by
      obtain ⟨k, rfl⟩ | rfl | rfl := Kind.reserved?_cases hkind <;> simp
    have hcapitals := hword.map_toUpper_map
    have hupper := Rule.Gives.reserved hword.map_toUpper hrest (hcapitals.symm ▸ hkind)
    rw [hcapitals] at hupper
    rw [hplain hstring, String.toList_ofList]
    exact hupper
  | name hword hrest hkind =>
    rw [hplain (by simp), String.toList_ofList]
    exact .name hword hrest hkind
  | float hsign hwhole hfraction hrest =>
    rw [hplain (by simp), String.toList_ofList]
    exact .float hsign hwhole hfraction hrest
  | integer hsign hwhole hrest =>
    rw [hplain (by simp), String.toList_ofList]
    exact .integer hsign hwhole hrest
  | @string body _ hbody =>
    have hquoted : lexeme ⟨.string, String.ofList body, pos⟩ =
        ⟨.string, String.ofList body, '\'' :: body ++ ['\'']⟩ := by
      simp [lexeme, chars_of_string, Term.quoted]
    rw [hquoted]
    exact .string hbody
  | symbol =>
    have hp := forall_symbol (p := fun kind _ => kind != .string) (by decide) hr
    rw [hplain (by simpa using hp), String.toList_ofList]
    exact .symbol

theorem Given.kind_ne_endOfText (h : t.Given) : t.kind ≠ .endOfText := by
  cases h.form with
  | word _ _ hkind =>
    intro hend
    have hword := isWord_of_kind hkind
    rw [hend] at hword
    cases hword
  | number hkind => rcases hkind with hkind | hkind <;> simp [hkind]
  | string hkind => simp [hkind]
  | symbol _ hsymbol =>
    simpa using forall_symbol (p := fun kind _ => kind != .endOfText) (by decide) hsymbol

end Token

/-! ### Texts and their tokens -/

/-- A text is read as these tokens. -/
def Writes (s : String) (ts : List (Token Kind)) : Prop :=
  Layout s.toList (ts.map Token.lexeme) []

theorem Token.Given.writes {t : Token Kind} (h : t.Given) : Writes (Parser.spelled t) [t] := by
  obtain ⟨r, hr, rest, hgives⟩ := h.exists_gives
  have hpicked := hgives.picked_of_loose hr loose_nil
  have hlayout : Layout (t.chars ++ []) [t.lexeme] [] := .cons hpicked .nil
  rwa [List.append_nil] at hlayout

namespace Writes

variable {s r : String} {ts us : List (Token Kind)}

/-- A text goes on with another one that makes no token longer. -/
theorem append (hs : Writes s ts) (hr : Writes r us) (hloose : Loose r.toList) :
    Writes (s ++ r) (ts ++ us) := by
  rw [Writes, String.toList_append, List.map_append]
  exact (hs.loosen (by rwa [List.append_nil])).append hr

theorem append_space (hs : Writes s ts) (hr : Writes r us) : Writes (s ++ " " ++ r) (ts ++ us) := by
  rw [String.append_assoc]
  refine hs.append ?_ (by rw [String.toList_append]; exact loose_of_isSkipped (by decide) _)
  rw [Writes, String.toList_append]
  exact .skip (by decide) hr

theorem sentence {words : List String} {tss : List (List (Token Kind))}
    (h : List.Forall₂ Writes words tss) : Writes (sentence words) tss.flatten := by
  induction h with
  | nil => exact Layout.nil
  | @cons s ts words tss hs hwords ih =>
    cases hwords with
    | nil => simpa [Tabula.sentence] using hs
    | @cons r us words tss hr hwords =>
      have hcons : Tabula.sentence (s :: r :: words) = s ++ " " ++ Tabula.sentence (r :: words) :=
        String.intercalate_cons_cons
      rw [hcons]
      exact hs.append_space ih

/-- Tokens are read from their spellings. -/
theorem of_given (hts : ∀ t ∈ ts, t.Given) : Writes (clauseText ts) ts := by
  have hwords : List.Forall₂ Writes (ts.map Parser.spelled) (ts.map ([·])) := by
    simpa [List.forall₂_same] using fun t ht => (hts t ht).writes
  have hflat : (ts.map ([·])).flatten = ts := by
    rw [← List.flatMap_def, List.flatMap_singleton']
  have hwrites := sentence hwords
  rwa [hflat] at hwrites

theorem symbol {kind : Kind} {symbol : String} (h : Rule.symbol kind symbol.toList ∈ rules)
    (hkind : kind ≠ .string) : Writes symbol [Token.ofSymbol kind symbol] := by
  have hspelled : Parser.spelled (Token.ofSymbol kind symbol) = symbol := if_neg hkind
  simpa [hspelled] using (Token.given_ofSymbol h).writes

theorem parenthesized (hs : Writes s ts) : Writes ("(" ++ s ++ ")")
    (Token.ofSymbol .openParen "(" :: ts ++ [Token.ofSymbol .closeParen ")"]) := by
  have hclose : Writes ")" [Token.ofSymbol .closeParen ")"] := symbol (by simp [rules]) (by decide)
  have hinside := hs.append hclose (loose_cons (by decide) [])
  have hgives : (Rule.symbol .openParen ['(']).Gives ⟨.openParen, "(", ['(']⟩ [] := .symbol
  rw [String.append_assoc, Writes, String.toList_append]
  exact .cons (hgives.picked (by simp [rules]) trivial) hinside

/-- A list is read as its items with commas between them. -/
theorem exists_listed {α : Type} {item : List (Token Kind) → α → Prop} {text : α → String}
    {as : List α} (hne : as ≠ []) (h : ∀ a ∈ as, ∃ ts, Writes (text a) ts ∧ item ts a) :
    ∃ ts, Writes (listed (as.map text)) ts ∧ CommaList item ts as := by
  induction as with
  | nil => exact absurd rfl hne
  | cons a as ih =>
    obtain ⟨ts, hwrites, hitem⟩ := h a (by simp)
    cases as with
    | nil => exact ⟨ts, by simpa [listed] using hwrites, .one hitem⟩
    | cons b as =>
      obtain ⟨us, hrest, hlist⟩ := ih (by simp) fun c hc => h c (List.mem_cons_of_mem a hc)
      have hcomma : Writes "," [Token.ofSymbol .comma ","] := symbol (by simp [rules]) (by decide)
      refine ⟨ts ++ Token.ofSymbol .comma "," :: us, ?_, .cons hitem rfl hlist⟩
      have hcons : listed (text a :: text b :: as.map text) =
          text a ++ ("," ++ " " ++ listed (text b :: as.map text)) := by
        rw [← String.append_assoc]
        exact String.intercalate_cons_cons
      rw [List.map_cons, List.map_cons, hcons]
      refine hwrites.append (hcomma.append_space hrest) ?_
      simp only [String.toList_append]
      exact loose_cons (by decide) _

theorem keyword (k : Keyword) : Writes k.spelling [Token.ofKeyword k] :=
  (Token.given_ofKeyword k).writes

theorem name (h : IsName s) : Writes s [Token.ofName s] := (Token.given_ofName h).writes

theorem value (h : IsQuotable s) : Writes (inQuotes s) [Token.ofValue s] :=
  (Token.given_ofValue h).writes

/-! ### Parts of commands -/

theorem exists_names {names : List String} (hne : names ≠ []) (h : ∀ n ∈ names, IsName n) :
    ∃ ts, Writes (listed names) ts ∧ CommaList IsIdentifier ts names := by
  have hitems : ∀ n ∈ names, ∃ ts, Writes (id n) ts ∧ IsIdentifier ts n := fun n hn =>
    ⟨_, name (h n hn), _, rfl, rfl, rfl⟩
  have hlist := exists_listed hne hitems
  rwa [List.map_id] at hlist

theorem exists_values {values : List String} (hne : values ≠ [])
    (h : ∀ v ∈ values, IsQuotable v) :
    ∃ ts, Writes (listed (values.map inQuotes)) ts ∧ CommaList IsLiteral ts values :=
  exists_listed hne fun v hv => ⟨_, value (h v hv), _, rfl, rfl, rfl⟩

theorem exists_assignments {assignments : List (String × String)} (hne : assignments ≠ [])
    (h : ∀ a ∈ assignments, IsName a.1 ∧ IsQuotable a.2) :
    ∃ ts, Writes (listed (assignments.map Command.assignmentText)) ts ∧
      CommaList IsAssignment ts assignments := by
  refine exists_listed hne fun a ha => ?_
  have hequals : Writes "=" [Token.ofSymbol .assign "="] := symbol (by simp [rules]) (by decide)
  exact ⟨_, sentence (.cons (name (h a ha).1) (.cons hequals (.cons (value (h a ha).2) .nil))),
    _, _, _, rfl, rfl, rfl, rfl, rfl⟩

theorem exists_condition {condition : String} (h : IsClause condition) :
    ∃ ts, Writes condition ts ∧ IsCondition ts condition := by
  obtain ⟨ts, hne, hts, rfl⟩ := h
  refine ⟨ts, of_given fun t ht => (hts t ht).1, hne, fun t ht => ?_, rfl⟩
  simp [Parser.inCondition, (hts t ht).2, (hts t ht).1.kind_ne_endOfText]

theorem exists_projection {columns : Projection} (h : columns.Writable) :
    ∃ ts, Writes columns.text ts ∧ IsProjection ts columns := by
  cases columns with
  | all =>
    have hstar : Writes "*" [Token.ofSymbol .star "*"] := symbol (by simp [rules]) (by decide)
    exact ⟨_, hstar, .all rfl⟩
  | columns names =>
    obtain ⟨ts, hwrites, hnames⟩ := exists_names h.1 h.2
    exact ⟨ts, hwrites, .columns hnames⟩

/-- A text states what the grammar derives from its tokens. -/
theorem parse_eq {command : Command} (hs : Writes s ts) (hderives : Derives ts command) :
    Command.parse s = .ok command := by
  have hplaced : ((ts.map Token.lexeme).map (·.token 0)).map Token.unplaced =
      ts.map Token.unplaced := by
    rw [Token.map_token_lexeme, List.map_map]
    rfl
  exact Layout.parse_eq hs (placeFree_derives hplaced hderives)

end Writes

/-! ### Commands -/

namespace Command

variable {command : Command}

/-- The words of a command are read as tokens that a production derives it from. -/
theorem Writable.exists_production (h : command.Writable) : ∃ k body,
    Writes (sentence command.words) (Token.ofKeyword k :: body) ∧ Production k body command := by
  cases command with
  | use database =>
    exact ⟨.USE, _, .sentence (.cons (.keyword .USE) (.cons (.name h) .nil)), .use rfl⟩
  | createDatabase database =>
    exact ⟨.CREATE, _, .sentence (.cons (.keyword .CREATE) (.cons (.keyword .DATABASE)
      (.cons (.name h) .nil))), .createDatabase rfl rfl⟩
  | createTable table columns =>
    cases columns with
    | nil =>
      exact ⟨.CREATE, _, .sentence (.cons (.keyword .CREATE) (.cons (.keyword .TABLE)
        (.cons (.name h.1) .nil))), .createTable rfl rfl⟩
    | cons column columns =>
      obtain ⟨ts, hwrites, hcolumns⟩ := Writes.exists_names (List.cons_ne_nil _ _) h.2
      have hwords := Writes.sentence (.cons (.keyword .CREATE) (.cons (.keyword .TABLE)
        (.cons (.name h.1) (.cons hwrites.parenthesized .nil))))
      simp only [List.flatten_cons, List.flatten_nil, List.append_nil, List.cons_append,
        List.nil_append] at hwords
      exact ⟨_, _, hwords, .createTableWith rfl rfl rfl hcolumns rfl⟩
  | dropDatabase database =>
    exact ⟨.DROP, _, .sentence (.cons (.keyword .DROP) (.cons (.keyword .DATABASE)
      (.cons (.name h) .nil))), .dropDatabase rfl rfl⟩
  | dropTable table =>
    exact ⟨.DROP, _, .sentence (.cons (.keyword .DROP) (.cons (.keyword .TABLE)
      (.cons (.name h) .nil))), .dropTable rfl rfl⟩
  | alterTable table alteration column =>
    obtain ⟨htable, rfl | rfl, hcolumn⟩ := h
    · exact ⟨.ALTER, _, .sentence (.cons (.keyword .ALTER) (.cons (.keyword .TABLE)
        (.cons (.name htable) (.cons (.keyword .ADD) (.cons (.name hcolumn) .nil))))),
        .alterAdd rfl rfl rfl rfl⟩
    · exact ⟨.ALTER, _, .sentence (.cons (.keyword .ALTER) (.cons (.keyword .TABLE)
        (.cons (.name htable) (.cons (.keyword .DROP) (.cons (.name hcolumn) .nil))))),
        .alterDrop rfl rfl rfl rfl⟩
  | insert table values =>
    obtain ⟨htable, hne, hvalues⟩ := h
    obtain ⟨ts, hwrites, hlist⟩ := Writes.exists_values hne hvalues
    have hwords := Writes.sentence (.cons (.keyword .INSERT) (.cons (.keyword .INTO)
      (.cons (.name htable) (.cons (.keyword .VALUES) (.cons hwrites.parenthesized .nil)))))
    simp only [List.flatten_cons, List.flatten_nil, List.append_nil, List.cons_append,
      List.nil_append] at hwords
    exact ⟨_, _, hwords, .insert rfl rfl rfl rfl hlist rfl⟩
  | select table columns condition =>
    obtain ⟨htable, hcolumns, hcondition⟩ := h
    obtain ⟨ts, hwrites, hshown⟩ := Writes.exists_projection hcolumns
    cases condition with
    | none =>
      have hwords := Writes.sentence (.cons (.keyword .SELECT) (.cons hwrites
        (.cons (.keyword .FROM) (.cons (.name htable) .nil))))
      simp only [List.flatten_cons, List.flatten_nil, List.append_nil, List.cons_append,
        List.nil_append] at hwords
      exact ⟨_, _, hwords, .select hshown rfl rfl⟩
    | some condition =>
      obtain ⟨us, hwhere, hclause⟩ := Writes.exists_condition (hcondition condition rfl)
      have hwords := Writes.sentence (.cons (.keyword .SELECT) (.cons hwrites
        (.cons (.keyword .FROM) (.cons (.name htable) (.cons (.keyword .WHERE)
        (.cons hwhere .nil))))))
      simp only [List.flatten_cons, List.flatten_nil, List.append_nil, List.cons_append,
        List.nil_append] at hwords
      exact ⟨_, _, hwords, .selectWhere hshown rfl rfl rfl hclause⟩
  | update table assignments condition =>
    obtain ⟨htable, hne, hassignments, hcondition⟩ := h
    obtain ⟨ts, hwrites, hlist⟩ := Writes.exists_assignments hne hassignments
    obtain ⟨us, hwhere, hclause⟩ := Writes.exists_condition hcondition
    have hwords := Writes.sentence (.cons (.keyword .UPDATE) (.cons (.name htable)
      (.cons (.keyword .SET) (.cons hwrites (.cons (.keyword .WHERE) (.cons hwhere .nil))))))
    simp only [List.flatten_cons, List.flatten_nil, List.append_nil, List.cons_append,
      List.nil_append] at hwords
    exact ⟨_, _, hwords, .update rfl rfl hlist rfl hclause⟩
  | delete table condition =>
    obtain ⟨htable, hcondition⟩ := h
    obtain ⟨us, hwhere, hclause⟩ := Writes.exists_condition hcondition
    have hwords := Writes.sentence (.cons (.keyword .DELETE) (.cons (.keyword .FROM)
      (.cons (.name htable) (.cons (.keyword .WHERE) (.cons hwhere .nil)))))
    simp only [List.flatten_cons, List.flatten_nil, List.append_nil, List.cons_append,
      List.nil_append] at hwords
    exact ⟨_, _, hwords, .delete rfl rfl rfl hclause⟩
  | join leftTable rightTable leftAttribute rightAttribute =>
    obtain ⟨hleft, hright, hleftAttribute, hrightAttribute⟩ := h
    exact ⟨.JOIN, _, .sentence (.cons (.keyword .JOIN) (.cons (.name hleft) (.cons (.keyword .AND)
      (.cons (.name hright) (.cons (.keyword .ON) (.cons (.name hleftAttribute)
      (.cons (.keyword .AND) (.cons (.name hrightAttribute) .nil)))))))),
      .join rfl rfl rfl rfl rfl rfl rfl⟩

theorem Writable.exists_derives (h : command.Writable) :
    ∃ ts, Writes command.text ts ∧ Derives ts command := by
  obtain ⟨k, body, hwrites, hproduction⟩ := h.exists_production
  have hend : Writes ";" [Token.ofSymbol .terminator ";"] := .symbol (by simp [rules]) (by decide)
  have hword : Text.upper (Token.ofKeyword k).text = k.spelling := by cases k <;> decide
  exact ⟨_, hwrites.append hend (loose_cons (by decide) _), .intro hword hproduction rfl⟩

/-- A command that can be written is read again from its text. -/
theorem parse_text (h : command.Writable) : parse command.text = .ok command := by
  obtain ⟨ts, hwrites, hderives⟩ := h.exists_derives
  exact hwrites.parse_eq hderives

/-- A value with a semicolon, and a condition with two groups and a parenthesis in a string. -/
theorem parse_text_update :
    (update "t" [("a", "x;"), ("b", "")] "( c == 'y (z' ) AND ( d < -1.5 )").Writable ∧
      (update "t" [("a", "x;"), ("b", "")] "( c == 'y (z' ) AND ( d < -1.5 )").text =
        "UPDATE t SET a = 'x;', b = '' WHERE ( c == 'y (z' ) AND ( d < -1.5 );" ∧
      parse "UPDATE t SET a = 'x;', b = '' WHERE ( c == 'y (z' ) AND ( d < -1.5 );" =
        .ok (update "t" [("a", "x;"), ("b", "")] "( c == 'y (z' ) AND ( d < -1.5 )") := by
  have hclause : IsClause "( c == 'y (z' ) AND ( d < -1.5 )" := by
    have htokens : statementTokens "( c == 'y (z' ) AND ( d < -1.5 );" =
        .ok ([⟨.openParen, "(", 0⟩, ⟨.identifier, "c", 2⟩, ⟨.equal, "==", 4⟩,
          ⟨.string, "y (z", 7⟩, ⟨.closeParen, ")", 14⟩, ⟨.keyword .AND, "AND", 16⟩,
          ⟨.openParen, "(", 20⟩, ⟨.identifier, "d", 22⟩, ⟨.less, "<", 24⟩, ⟨.float, "-1.5", 26⟩,
          ⟨.closeParen, ")", 31⟩] ++ [⟨.terminator, ";", 32⟩]) := by decide +kernel
    refine ⟨_, ?_, fun t ht =>
      ⟨Lexeme.exists_gives_of_mem htokens (List.mem_append_left _ ht), ?_⟩, ?_⟩
    · simp
    · revert t
      decide
    · rfl
  have hwritable : (update "t" [("a", "x;"), ("b", "")]
      "( c == 'y (z' ) AND ( d < -1.5 )").Writable :=
    ⟨by decide, by simp, by decide, hclause⟩
  have htext : (update "t" [("a", "x;"), ("b", "")] "( c == 'y (z' ) AND ( d < -1.5 )").text =
      "UPDATE t SET a = 'x;', b = '' WHERE ( c == 'y (z' ) AND ( d < -1.5 );" := rfl
  exact ⟨hwritable, htext, htext ▸ parse_text hwritable⟩

end Command

end Tabula
