import Tabula.Proofs.Command.RoundTrip
import Tabula.Proofs.Session.Enforced

/-!
# Conditions put together again

The condition of a command is a text that the parser puts together from the tokens behind the WHERE,
with a blank between them. This text has the same tokens, and it may stand in the statement in place
of what stood there: the statement then states the same command (`Command.tokenize_condition`).

## Main definitions

* `withCondition` — a statement with another text between its WHERE and its terminator.
-/

namespace Tabula

/-- A text with another one, and a blank at both of its ends, between two tokens. -/
def withCondition (text : String) (w stop : Token Kind) (condition : String) : String :=
  String.ofList (text.toList.take (w.pos + w.width) ++ ' ' :: condition.toList ++
    ' ' :: text.toList.drop stop.pos)

/-- A keyword has its spelling as its text. -/
theorem Token.Given.text_of_keyword {t : Token Kind} {k : Keyword} (h : t.Given)
    (hkind : t.kind = .keyword k) : t.text = k.spelling := by
  obtain ⟨kind, text, pos⟩ := t
  obtain rfl : kind = .keyword k := hkind
  obtain ⟨r, hr, source, rest, hgives⟩ := h
  have hspelling {word : String} (hword : Kind.reserved? word = some (.keyword k)) :
      word = k.spelling := by
    rw [← Keyword.ofSpelling?_eq_some_iff]
    grind [Kind.reserved?]
  cases hgives with
  | reserved _ _ hreserved => exact hspelling hreserved
  | symbol => simp [rules] at hr

section Rejoined

variable {text : String} {clause : List (Token Kind)}

/-- The text of tokens, with a semicolon behind it, is read as these tokens. -/
theorem exists_tokenize_clauseText (hgiven : ∀ t ∈ clause, t.Given)
    (hclause : ∀ t ∈ clause, t.kind ≠ .terminator) :
    ∃ tokens, tokenize (clauseText clause ++ " ;") = .ok tokens ∧
      tokens.map Token.unplaced =
        clause.map Token.unplaced ++ [⟨.terminator, ";", 0⟩, ⟨.endOfText, "", 0⟩] := by
  have hend : Writes ";" [Token.ofSymbol .terminator ";"] := .symbol (by simp [rules]) (by decide)
  have hwrites := (Writes.of_given hgiven).append_space hend
  rw [String.append_assoc] at hwrites
  have hone : (((clause ++ [Token.ofSymbol .terminator ";"]).map Token.lexeme).filter
      (·.kind = .terminator)).length = 1 := by
    have hnone : (clause.map Token.lexeme).filter (·.kind = .terminator) = [] := by
      simpa [List.filter_eq_nil_iff, Token.lexeme] using hclause
    rw [List.map_append, List.filter_append, hnone]
    rfl
  obtain ⟨tokens, htokens, hunplaced⟩ := Layout.exists_statementTokens hwrites hone
  refine ⟨_, tokenize_eq_ok_iff.2 ⟨tokens, htokens, rfl⟩, ?_⟩
  rw [List.map_append, hunplaced, Token.map_token_lexeme, List.map_append, List.append_assoc]
  rfl

/-- A text with tokens between two of its tokens left for others is laid out from the others. -/
theorem exists_layout_withCondition {before later : List (Token Kind)} {w stop : Token Kind}
    {condition : String} {us : List (Token Kind)}
    (h : Covers text.toList 0 text.length (before ++ w :: clause ++ stop :: later))
    (hcondition : Writes condition us) :
    ∃ ls, Layout (withCondition text w stop condition).toList ls [] ∧
      ls.map (·.token 0) = (before ++ w :: us ++ stop :: later).map Token.unplaced := by
  rw [List.append_assoc, List.cons_append] at h
  obtain ⟨fs, hfront, hfs⟩ := h.front.exists_layout
  rw [← List.cons_append, ← List.append_assoc] at h
  obtain ⟨bs, hback, hbs⟩ := h.back.exists_layout
  rw [List.drop_zero, Nat.sub_zero] at hfront
  rw [← String.length_toList, ← List.length_drop, List.take_length, List.drop_length] at hback
  have hblank : isSkipped ' ' = true := by decide
  have hmiddle : Layout (' ' :: condition.toList) (us.map Token.lexeme)
      (' ' :: text.toList.drop stop.pos ++ []) :=
    .skip hblank (hcondition.loosen (loose_of_isSkipped hblank _))
  have hrest := hmiddle.append (.skip hblank hback)
  refine ⟨fs ++ (us.map Token.lexeme ++ bs), ?_, ?_⟩
  · rw [withCondition, String.toList_ofList, List.append_assoc]
    exact (hfront.loosen (loose_of_isSkipped hblank _)).append hrest
  · rw [List.map_append, List.map_append, ← hfs, ← hbs, Token.map_token_lexeme]
    simp

end Rejoined

/-- The condition of a command has the tokens between the WHERE and the terminator of its statement,
and the statement with this text in their place states the same command. -/
theorem Command.tokenize_condition {text name condition : String} {command : Command}
    (h : parse text = .ok command) (hcommand : command.restriction? = some (name, condition)) :
    ∃ before w clause stop later, tokenize text = .ok (before ++ w :: clause ++ stop :: later) ∧
      (∀ t ∈ before, t.kind ≠ .keyword .WHERE) ∧ w.kind = .keyword .WHERE ∧
      (∀ t ∈ clause, t.kind ≠ .terminator) ∧ stop.kind = .terminator ∧
      (∃ tokens, tokenize (condition ++ " ;") = .ok tokens ∧
        tokens.map Token.unplaced =
          clause.map Token.unplaced ++ [⟨.terminator, ";", 0⟩, ⟨.endOfText, "", 0⟩]) ∧
      parse (withCondition text w stop condition) = .ok command := by
  obtain ⟨first, k, body, stop, rest, htokens, hword, hbody, hstop⟩ :=
    exists_production_of_parse h
  obtain ⟨front, w, clause, rfl, hfront, hw, -, hin, rfl⟩ := hbody.exists_where hcommand
  have hclause : ∀ t ∈ clause, t.kind ≠ .terminator := by
    intro t ht
    have hcondition : t.kind ≠ .terminator ∧ t.kind ≠ .endOfText := by
      simpa [Parser.inCondition] using hin t ht
    exact hcondition.1
  have hgiven : ∀ t ∈ first :: (front ++ w :: clause) ++ stop :: rest, t.Given := fun t ht =>
    Lexeme.exists_gives_of_mem htokens ht
  have hfirst : first.kind ≠ .keyword .WHERE := by
    intro hkind
    rw [(hgiven first (by simp)).text_of_keyword hkind] at hword
    obtain rfl : Keyword.WHERE = k := Option.some.inj hword
    cases hbody
  have hcovers := covers_iff.2 (scan_of_statementTokens htokens)
  have hsplit : first :: (front ++ w :: clause) ++ stop :: rest =
      (first :: front) ++ w :: clause ++ stop :: rest := by simp
  rw [hsplit] at hcovers
  have hwrites : Writes (clauseText clause) clause :=
    .of_given fun t ht => hgiven t (by simp [ht])
  obtain ⟨ls, hlayout, hls⟩ := exists_layout_withCondition hcovers hwrites
  refine ⟨first :: front, w, clause, stop, rest ++ [endToken text], ?_,
    List.forall_mem_cons.2 ⟨hfirst, hfront⟩, hw, hclause, hstop,
    exists_tokenize_clauseText (fun t ht => hgiven t (by simp [ht])) hclause,
    Layout.parse_congr htokens h hlayout (by rw [hls, hsplit])⟩
  exact tokenize_eq_ok_iff.2 ⟨_, htokens, by simp⟩

/-- A number with a sign behind a comparison, and a string with a semicolon. -/
theorem Command.tokenize_condition_update :
    parse "UPDATE t SET a = 1 WHERE b>=-5 and c=='x;';" =
        .ok (.update "t" [("a", "1")] "b >= -5 AND c == 'x;'") ∧
      ∃ w stop : Token Kind, w.kind = .keyword .WHERE ∧ stop.kind = .terminator ∧
        (∃ tokens, tokenize "b >= -5 AND c == 'x;' ;" = .ok tokens) ∧
        parse (withCondition "UPDATE t SET a = 1 WHERE b>=-5 and c=='x;';" w stop
          "b >= -5 AND c == 'x;'") = .ok (.update "t" [("a", "1")] "b >= -5 AND c == 'x;'") := by
  have hparse : parse "UPDATE t SET a = 1 WHERE b>=-5 and c=='x;';" =
      .ok (.update "t" [("a", "1")] "b >= -5 AND c == 'x;'") := by decide +kernel
  obtain ⟨before, w, clause, stop, later, -, -, hw, -, hstop, ⟨tokens, hread, -⟩, hsame⟩ :=
    tokenize_condition hparse rfl
  exact ⟨hparse, w, stop, hw, hstop, ⟨tokens, hread⟩, hsame⟩

end Tabula
