import Tabula.Proofs.Command.Named
import Tabula.Proofs.Command.Spaced

/-!
# How a statement opens

Every production of the grammar begins with a keyword (`Command.keyword`), and the parser finds the
production by the text of the first token in capitals, whatever kind of token it is. So a statement
opens with this keyword, or with a string that reads like it, and each such string may stand in
place of the keyword (`Command.opening_of_parse`).

## Main definitions

* `Command.keyword` — the keyword that the production of a command begins with.
* `withFirst` — a statement with another text in place of its first token.
-/

namespace Tabula

/-- The keyword that the production of a command begins with. -/
def Command.keyword : Command → Keyword
  | use _ => .USE
  | createDatabase _ | createTable _ _ => .CREATE
  | dropDatabase _ | dropTable _ => .DROP
  | alterTable _ _ _ => .ALTER
  | insert _ _ => .INSERT
  | select _ _ _ => .SELECT
  | update _ _ _ => .UPDATE
  | delete _ _ => .DELETE
  | join _ _ _ _ => .JOIN

/-- A statement with another text in place of its first token. -/
def withFirst (text : String) (first : Token Kind) (source : String) : String :=
  String.ofList
    (text.toList.take first.pos ++ (source.toList ++ text.toList.drop (first.pos + first.width)))

variable {text text' quoted : String} {first first' : Token Kind} {later later' : List (Token Kind)}
  {command : Command}

theorem Production.keyword_eq {k : Keyword} {body : List (Token Kind)}
    (h : Production k body command) : command.keyword = k := by
  cases h <;> rfl

theorem Command.keyword_mem (command : Command) : command.keyword.spelling ∈ commandWords := by
  cases command <;> dsimp only [keyword] <;> decide

/-! ### The first token -/

/-- The first token of a statement has the text of the keyword. -/
theorem Command.upper_of_parse (h : parse text = .ok command)
    (htokens : statementTokens text = .ok (first :: later)) :
    Text.upper first.text = command.keyword.spelling := by
  obtain ⟨first', k, body, stop, rest, hsame, hword, hbody, -⟩ := exists_production_of_parse h
  obtain ⟨rfl, -⟩ : first = first' ∧ later = body ++ stop :: rest := by simpa [htokens] using hsame
  rw [hbody.keyword_eq]
  exact Keyword.ofSpelling?_eq_some_iff.1 hword

/-- If two statements have the same tokens behind the first one, and one of them states a command,
then so does the other if its first token has the text of the keyword, and only then. -/
theorem Command.parse_iff_of_later (h : parse text = .ok command)
    (htokens : statementTokens text = .ok (first :: later))
    (htokens' : statementTokens text' = .ok (first' :: later'))
    (hlater : later'.map Token.unplaced = later.map Token.unplaced) :
    parse text' = .ok command ↔ Text.upper first'.text = command.keyword.spelling := by
  refine ⟨fun h' => upper_of_parse h' htokens', fun hupper => ?_⟩
  obtain ⟨f, k, body, stop, rest, hsame, -, hbody, hstop⟩ := exists_production_of_parse h
  obtain ⟨rfl, rfl⟩ : first = f ∧ later = body ++ stop :: rest := by simpa [htokens] using hsame
  simp only [List.map_append, List.map_cons, List.map_eq_append_iff, List.map_eq_cons_iff,
    Token.unplaced_eq_iff] at hlater
  obtain ⟨body', _, rfl, hbody', stop', rest', rfl, ⟨hstop', -⟩, -⟩ := hlater
  have hderives : Derives (first' :: body' ++ [stop']) command :=
    .intro (hbody.keyword_eq ▸ hupper) (placeFree_production k hbody' hbody) (hstop'.trans hstop)
  exact parse_of_derives (by simpa using htokens') hderives

/-- What has the text of a command word is a string if it begins with a quote, and only then. -/
theorem Lexeme.Picked.kind_eq_string_iff {s : List Char} {l : Lexeme} (h : Picked s l)
    (hword : Text.upper l.text ∈ commandWords) : l.kind = .string ↔ s.head? = some '\'' := by
  obtain ⟨r, hr, rest, rfl, -⟩ := h.exists_gives
  rcases h.word_or_string hword with ⟨hsource, hl, -⟩ | ⟨hkind, -, hsource⟩
  · have hne := source_ne_nil (first?_eq_some_iff.2 h)
    have hkind : l.kind ≠ .string := by
      intro hkind
      have hspells := h.spells 0
      simp only [Token.Spells, Lexeme.token, hkind] at hspells
      exact (hsource.unmarked '\'' (by simp [hspells.2])).1 rfl
    have hhead : (l.source ++ rest).head? ≠ some '\'' := by
      intro hhead
      rw [List.head?_append_of_ne_nil _ hne] at hhead
      exact (hsource.unmarked '\'' (List.mem_of_head? hhead)).1 rfl
    simp only [hkind, hhead]
  · simp [hkind, hsource]

/-! ### Another first token -/

/-- In front of the first token there are only blanks. -/
theorem Covers.allSkipped_take {s : List Char} {stop : Nat}
    (h : Covers s 0 stop (first :: later)) : AllSkipped (s.take first.pos) := by
  obtain ⟨hbefore, -⟩ := List.pairwise_cons.1 h.ordered
  have hstop := (h.inside first (by simp)).2
  intro c hc
  obtain ⟨p, hp, rfl⟩ := List.getElem_of_mem hc
  have hp : p < first.pos := by
    rw [List.length_take] at hp
    omega
  have hout : ∀ t ∈ first :: later, ¬ (t.pos ≤ p ∧ p < t.pos + t.width) := by
    refine List.forall_mem_cons.2 ⟨by omega, fun t ht => ?_⟩
    have := (hbefore t ht).1
    omega
  obtain ⟨d, hd, hblank⟩ := h.skipped p (Nat.zero_le p) (by omega) hout
  obtain ⟨hlt, rfl⟩ := List.getElem?_eq_some_iff.1 hd
  rwa [List.getElem_take]

/-- Behind the first token the other ones cover the text. -/
theorem Covers.tail {s : List Char} {start stop : Nat} (h : Covers s start stop (first :: later)) :
    Covers s (first.pos + first.width) stop later := by
  obtain ⟨hbefore, -⟩ := List.pairwise_cons.1 h.ordered
  have hfirst := h.inside first (by simp)
  rw [← List.singleton_append] at h
  exact (h.cut (by omega) hfirst.2 (by simp) fun t ht => (hbefore t ht).2).2

/-- A string in place of the first token is the first token, and the others are as before. -/
theorem exists_statementTokens_withFirst (htokens : statementTokens text = .ok (first :: later))
    (hfirst : first.kind ≠ .terminator) (hquoted : IsQuotable quoted) :
    ∃ first' later', statementTokens (withFirst text first (inQuotes quoted)) =
        .ok (first' :: later') ∧ first'.kind = .string ∧ first'.text = quoted ∧
      later'.map Token.unplaced = later.map Token.unplaced := by
  have hcovers := covers_iff.2 (scan_of_statementTokens htokens)
  obtain ⟨ls, hlayout, hls⟩ := hcovers.tail.exists_layout
  rw [← String.length_toList, ← List.length_drop, List.take_length, List.drop_length] at hlayout
  have hgives := @Rule.Gives.string quoted.toList [] hquoted
  have hpicked := @Rule.Gives.picked _ _ _ (text.toList.drop (first.pos + first.width) ++ []) hgives
    (by simp [rules]) trivial
  have hwhole := (Layout.cons hpicked hlayout).skips hcovers.allSkipped_take
  have htext : (withFirst text first (inQuotes quoted)).toList = text.toList.take first.pos ++
      (('\'' :: quoted.toList ++ ['\'']) ++ text.toList.drop (first.pos + first.width)) := by
    simp [withFirst, inQuotes]
  rw [← htext] at hwhole
  have hone : (ls.filter (·.kind = .terminator)).length = 1 := by
    obtain ⟨t, ht⟩ := filter_of_statementTokens htokens
    rw [List.filter_cons_of_neg (by simpa using hfirst)] at ht
    rw [← length_terminators_eq hls, ht, List.length_singleton]
  obtain ⟨tokens, hstatement, hunplaced⟩ := hwhole.exists_statementTokens (by simpa using hone)
  rw [List.map_cons, List.map_eq_cons_iff, ← hls] at hunplaced
  obtain ⟨first', later', rfl, hfirst', hlater'⟩ := hunplaced
  obtain ⟨hkind, hspelled⟩ := Lexeme.token_eq_unplaced_iff.1 hfirst'.symm
  exact ⟨first', later', hstatement, hkind.symm, by simpa using hspelled.symm, hlater'⟩

/-- A statement opens with the keyword of its command, or with a string that has the same letters,
and blanks at most in front of it. Any string that has the same letters may stand there, and no
other one. -/
theorem Command.opening_of_parse (h : parse text = .ok command) :
    ∃ first later, tokenize text = .ok (first :: later) ∧
      AllSkipped (text.toList.take first.pos) ∧
      Text.upper first.text = command.keyword.spelling ∧
      (first.kind = .keyword command.keyword ∨ first.kind = .string) ∧
      (first.kind = .string ↔ text.toList[first.pos]? = some '\'') ∧
      ∀ quoted, IsQuotable quoted →
        (parse (withFirst text first (inQuotes quoted)) = .ok command ↔
          Text.upper quoted = command.keyword.spelling) := by
  obtain ⟨first, k, body, stop, rest, htokens, -⟩ := exists_production_of_parse h
  have hcovers := covers_iff.2 (scan_of_statementTokens htokens)
  have hupper := upper_of_parse h htokens
  have hkind := kind_of_upper htokens (by simp) command.keyword_mem hupper
  refine ⟨first, _, tokenize_eq_ok_iff.2 ⟨_, htokens, rfl⟩, hcovers.allSkipped_take, hupper, hkind,
    ?_, fun quoted hquoted => ?_⟩
  · obtain ⟨l, hl, htoken, -⟩ := hcovers.picked first (by simp)
    have hword : Text.upper l.text ∈ commandWords := by
      have htext : first.text = l.text := congrArg Token.text htoken
      rw [← htext, hupper]
      exact command.keyword_mem
    rw [← List.head?_drop, ← hl.kind_eq_string_iff hword]
    exact iff_of_eq (congrArg (·.kind = .string) htoken)
  · have hfirst : first.kind ≠ .terminator := by
      rcases hkind with hkind | hkind <;> simp [hkind]
    obtain ⟨first', later', htokens', -, rfl, hlater⟩ :=
      exists_statementTokens_withFirst htokens hfirst hquoted
    exact parse_iff_of_later h htokens htokens' hlater

/-- A string in letters that no keyword is written in. -/
theorem Command.opening_of_parse_use :
    parse "USE d;" = .ok (.use "d") ∧ IsQuotable "uſe" ∧ parse "'uſe' d;" = .ok (.use "d") := by
  have hparse : parse "USE d;" = .ok (.use "d") := by decide +kernel
  have hread : tokenize "USE d;" = .ok [⟨.keyword .USE, "USE", 0⟩, ⟨.identifier, "d", 4⟩,
    ⟨.terminator, ";", 5⟩, ⟨.endOfText, "", 6⟩] := by decide +kernel
  obtain ⟨first, later, htokens, -, -, -, -, hquoted⟩ := opening_of_parse hparse
  obtain ⟨rfl, -⟩ := List.cons.inj (Except.ok.inj (hread.symm.trans htokens))
  have htext : withFirst "USE d;" ⟨.keyword .USE, "USE", 0⟩ (inQuotes "uſe") = "'uſe' d;" := by
    decide
  have hfree : IsQuotable "uſe" := by decide
  refine ⟨hparse, hfree, ?_⟩
  rw [← htext, hquoted "uſe" hfree]
  decide

end Tabula
