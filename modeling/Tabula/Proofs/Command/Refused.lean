import Tabula.Proofs.Command.Viable

/-!
# Where a statement is refused

A text that is no statement is refused at a character that no rule of the lexer reads, at its end if
it lacks a terminator, or at one of its tokens (`Refused`). So the place of the error is in the text
or at its end, and at its end only if no semicolon stands outside quotes (`Refused.position_lt_or`).
-/

namespace Tabula

/-- The reasons for which a text is refused, with what stands at their places. -/
inductive Refused (text : String) : StatementError → Prop
  | character {c : Char} {pos : Nat} : Unreadable text.toList pos c →
      Refused text (.lexical (.unrecognized c pos))
  | unterminated : Script.outside false 0 text.toList = [] →
      Refused text (.lexical (.noTerminator text.length))
  | token {tokens : List (Token Kind)} {t : Token Kind} {e : StatementError} :
      Covers text.toList 0 text.length tokens → t ∈ tokens → e.position = t.pos →
      (∀ c pos, e ≠ .lexical (.unrecognized c pos)) → Refused text e

variable {text : String} {e : StatementError}

theorem parse_of_statementTokens_error {e : LexicalError} (h : statementTokens text = .error e) :
    Command.parse text = .error (.lexical e) := by
  rw [Command.parse, h, mapError_error, error_bind]

/-- The parser has its own errors alone, and each is at a token. -/
theorem refused_of_statementTokens {tokens : List (Token Kind)}
    (htokens : statementTokens text = .ok tokens) (h : Command.parse text = .error e) :
    Refused text e := by
  obtain ⟨t, ht⟩ := filter_of_statementTokens htokens
  obtain ⟨hmem, hkind⟩ := List.mem_filter.1 (ht ▸ List.mem_singleton_self t)
  have hkind : t.kind = .terminator := by simpa using hkind
  have hrun : Parser.statement.run ⟨tokens, endToken text⟩ = .error e := by
    rw [parse_eq htokens] at h
    cases hrun : Parser.statement.run ⟨tokens, endToken text⟩ with
    | error e' => simpa [hrun, Except.map] using h
    | ok r => simp [hrun, Except.map] at h
  obtain ⟨before, k, after, hsplit, hpos, -⟩ :=
    Parser.exists_turn (fun u => text_of_terminator htokens) ⟨t, hmem, hkind⟩ rfl hrun
  refine .token (covers_iff.2 (scan_of_statementTokens htokens)) (by simp [hsplit]) hpos ?_
  obtain ⟨front, rest, rfl⟩ := List.append_of_mem hmem
  have hupTo : statementTokens text = .ok (front ++ [t] ++ rest) := by simpa using htokens
  obtain ⟨first, -, outcome, hsame, houtcome⟩ := exists_outcome hupTo ⟨t, by simp, hkind⟩
  rintro c pos rfl
  obtain rfl := h.symm.trans (hsame text rest hupTo)
  simp at houtcome

theorem refused_of_parse_error (h : Command.parse text = .error e) : Refused text e := by
  have hlexical {e' : LexicalError} (herror : statementTokens text = .error e') :
      e = .lexical e' :=
    Except.error.inj (h.symm.trans (parse_of_statementTokens_error herror))
  cases hscan : scan 0 text.toList with
  | error e' =>
    obtain ⟨pos, c, -, rfl, -, hc⟩ := scan_eq_error_iff.1 hscan
    obtain rfl := hlexical (by rw [statementTokens, hscan, error_bind])
    exact .character hc
  | ok tokens =>
    have hcovers := covers_iff.2 hscan
    cases hterminators : tokens.filter (·.kind = .terminator) with
    | nil =>
      obtain rfl := hlexical (by rw [statementTokens, hscan, ok_bind, hterminators])
      refine .unterminated ?_
      rw [← pos_terminators_of_scan hscan, hterminators, List.map_nil]
    | cons t later =>
      cases later with
      | nil =>
        exact refused_of_statementTokens
          (by rw [statementTokens, hscan, ok_bind, hterminators]) h
      | cons u later =>
        obtain rfl := hlexical (by rw [statementTokens, hscan, ok_bind, hterminators])
        have hu : u ∈ tokens.filter (·.kind = .terminator) := by simp [hterminators]
        exact .token hcovers (List.mem_filter.1 hu).1 rfl (by simp)

/-- A text is refused at one of its characters, or at its end if no semicolon in it stands outside
quotes. -/
theorem Refused.position_lt_or (h : Refused text e) : e.position < text.length ∨
    e.position = text.length ∧ Script.outside false 0 text.toList = [] := by
  cases h with
  | character hc =>
    left
    rw [← String.length_toList]
    exact (List.getElem?_eq_some_iff.1 hc.at_pos).1
  | unterminated hnone => exact .inr ⟨rfl, hnone⟩
  | token hcovers ht hpos =>
    have hinside := (hcovers.inside _ ht).2
    have hwidth := hcovers.width_pos ht
    omega

/-- A character that is said to be unrecognized stands at its place, and is no blank. -/
theorem Refused.unreadable {c : Char} {pos : Nat}
    (h : Refused text (.lexical (.unrecognized c pos))) : Unreadable text.toList pos c := by
  cases h with
  | character hc => exact hc
  | token _ _ _ hne => exact absurd rfl (hne c pos)

/-! ### Messages -/

theorem head?_toList_append {s t : String} {c : Char} (h : s.toList.head? = some c) :
    (s ++ t).toList.head? = some c := by
  rw [String.toList_append, List.head?_append, h]
  rfl

theorem Wanted.head?_message (w : Wanted) :
    w.message.toList.head? = some 'E' ∨ w.message.toList.head? = some 'M' := by
  cases w with
  | alteration => exact .inr rfl
  | part | closeParen => exact .inr (head?_toList_append rfl)
  | starOrAttributeName | openParen | terminator => exact .inl rfl
  | databaseName | tableName | databaseOrTable | attributeName | andBetween | assignment =>
    exact .inl (head?_toList_append rfl)
  | literal => exact .inl (head?_toList_append (head?_toList_append rfl))
  | keyword => exact .inl (head?_toList_append (head?_toList_append (head?_toList_append rfl)))

theorem LexicalError.toList_message_unrecognized (c : Char) (pos : Nat) :
    (unrecognized c pos).message.toList =
      "Unrecognized character '".toList ++ c :: ("' at position " ++ toString pos).toList := by
  have hmessage : (unrecognized c pos).message =
      "Unrecognized character '" ++ (toString c ++ ("' at position " ++ toString pos)) := by
    rw [← String.append_assoc, ← String.append_assoc]
    rfl
  have hchar : (toString c).toList = [c] := String.toList_singleton c
  rw [hmessage, String.toList_append, String.toList_append, hchar]
  rfl

/-- Only the message of an unrecognized character reads like one, and it names this character. -/
theorem StatementError.eq_unrecognized_of_message {c : Char} {pos : Nat}
    (h : e.message = (LexicalError.unrecognized c pos).message) :
    ∃ pos', e = .lexical (.unrecognized c pos') := by
  have hfirst : e.message.toList.head? = some 'U' := by
    rw [h, LexicalError.toList_message_unrecognized]
    rfl
  cases e with
  | lexical e =>
    cases e with
    | unrecognized d pos' =>
      have hmessage : (LexicalError.unrecognized d pos').message.toList =
          (LexicalError.unrecognized c pos).message.toList := congrArg String.toList h
      have hlist := (LexicalError.toList_message_unrecognized d pos').symm.trans
        (hmessage.trans (LexicalError.toList_message_unrecognized c pos))
      obtain ⟨rfl, -⟩ := List.cons.inj (List.append_cancel_left hlist)
      exact ⟨pos', rfl⟩
    | noTerminator =>
      have hmessage : "Invalid syntax: ';' is expected".toList.head? = some 'U' := hfirst
      exact absurd hmessage (by decide)
    | secondTerminator =>
      have hmessage : "Invalid syntax: more than one ';' found".toList.head? = some 'U' := hfirst
      exact absurd hmessage (by decide)
  | unknownCommand word pos' =>
    have hword : (unknownCommand word pos').message.toList.head? = some 'I' :=
      head?_toList_append rfl
    exact absurd (hword.symm.trans hfirst) (by decide)
  | grammar wanted pos' =>
    have hwanted : wanted.message.toList.head? = some 'U' := hfirst
    rcases wanted.head?_message with hw | hw
    · exact absurd (hw.symm.trans hwanted) (by decide)
    · exact absurd (hw.symm.trans hwanted) (by decide)

end Tabula
