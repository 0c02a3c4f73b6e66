import Tabula.Proofs.Condition.Token

/-!
# Terms in the tokens of a statement

A term that is read from the text of tokens is a word, an operator and a value of one token or more,
except where an operator is found in a part of a token: in `>=` with nothing behind it, or in a word
that has LIKE in it (`TermOf`, `termOf_of_split?`).
-/

namespace Tabula

variable {ts us : List (Token Kind)}

/-- What a text is read as where a value stands. -/
def valueOf (s : List Char) : String := String.ofList (Term.unquote (Text.trimStart s))

/-- Tokens that a term is read from. -/
inductive TermOf : Term → List (Token Kind) → Prop
  /-- A word, an operator and a value. -/
  | stated {w o : Token Kind} {values : List (Token Kind)} : w.kind.isWord = true →
      o.kind.isOperator = true → values ≠ [] →
      TermOf ⟨w.text, o.text, valueOf (clauseText values).toList⟩ (w :: o :: values)
  /-- With nothing behind it, the second character of the operator is the value. -/
  | greater {w o : Token Kind} : w.kind.isWord = true → o.kind = .greaterEqual →
      TermOf ⟨w.text, ">", "="⟩ [w, o]
  | less {w o : Token Kind} : w.kind.isWord = true → o.kind = .lessEqual →
      TermOf ⟨w.text, "<", "="⟩ [w, o]
  /-- The second word begins with the operator. -/
  | inSecond {w o : Token Kind} {like more : List Char} {values : List (Token Kind)} :
      w.kind.isWord = true → o.kind.isWord = true → o.text.toList = like ++ more →
      like.map Char.toUpper = "LIKE".toList → more ≠ [] →
      TermOf ⟨w.text, String.ofList like, valueOf (more ++ behind values)⟩ (w :: o :: values)
  /-- The first word has the operator behind the column. -/
  | inFirst {w : Token Kind} {column like more : List Char} {values : List (Token Kind)} :
      w.kind.isWord = true → w.text.toList = column ++ (like ++ more) → column ≠ [] →
      like.map Char.toUpper = "LIKE".toList → more ≠ [] ∨ values ≠ [] →
      TermOf ⟨String.ofList column, String.ofList like, valueOf (more ++ behind values)⟩
        (w :: values)

section Operator

variable {operator value rest word : List Char}

/-- The value behind an operator in a text that ends in no blank is the rest of the text. -/
theorem unquote_of_value? {front : List Char} (hread : Term.value? rest = some value)
    (hend : Stops Text.isBlank (front ++ rest).reverse) :
    rest ≠ [] ∧ String.ofList (Term.unquote value) = valueOf rest := by
  have hne : rest ≠ [] := by
    rintro rfl
    cases hread
  rw [stops_reverse_append hne] at hend
  rw [Term.value?_eq hne hend] at hread
  cases hread
  exact ⟨hne, rfl⟩

/-- The only operator at the start of a word is LIKE. -/
theorem map_toUpper_of_isWritten {c : Comparison}
    (h : Term.isWritten c.symbol.toList operator = true)
    (hword : ∀ d ∈ operator, Lexeme.isWordTail d = true) :
    c = .like ∧ operator.map Char.toUpper = "LIKE".toList := by
  rcases Term.isWritten_cases h with ⟨hlike, rfl⟩ | ⟨rfl, -⟩
  · cases c with
    | like => exact absurd rfl hlike
    | _ => exact absurd (hword _ (List.mem_cons_self)) (by decide)
  · refine ⟨rfl, ?_⟩
    have hfold : operator.map Text.foldChar = "LIKE".toList.map Text.foldChar := by
      simpa [Term.isWritten, Comparison.symbol] using h
    have hupper : operator.map Char.toUpper = (operator.map Text.foldChar).map Char.toUpper := by
      rw [List.map_map]
      refine List.map_congr_left fun d hd => ?_
      have hp := forall_isWordTail (p := fun d => d.toUpper == (Text.foldChar d).toUpper)
        (by decide) (hword d hd)
      exact beq_iff_eq.1 hp
    rw [hupper, hfold]
    decide

/-- An operator behind a column in the first word. -/
theorem termOf_inFirst {w : Token Kind} {us : List (Token Kind)} {column more between : List Char}
    (hw : IsWord w.text.toList) (hkind : w.kind.isWord = true)
    (hcut : w.text.toList = column ++ more) (hcolumn : column ≠ []) (hmore : more ≠ [])
    (hblanks : ∀ c ∈ between, Text.isBlank c = true)
    (hrest : between ++ rest = more ++ behind us)
    (hend : Stops Text.isBlank (more ++ behind us).reverse)
    (hread : Term.operatorAndValue? rest = some (operator, value)) :
    TermOf ⟨String.ofList column, String.ofList operator, String.ofList (Term.unquote value)⟩
      (w :: us) := by
  have hword : ∀ d ∈ more, Lexeme.isWordTail d = true := fun d hd =>
    hw.isWordTail (by rw [hcut]; exact List.mem_append_right column hd)
  have hstops : Stops Text.isBlank (more ++ behind us) :=
    stops_append hmore (fun d hd => isBlank_of_isWordTail (hword d (List.mem_of_mem_head? hd))) _
  obtain rfl := eq_nil_of_append_eq hrest hblanks hstops
  rw [List.nil_append] at hrest
  subst hrest
  obtain ⟨c, rest', hrest', hwritten, hvalue⟩ := Term.exists_of_operatorAndValue? hread
  obtain ⟨tail, rfl, rfl⟩ := exists_of_append_eq_append_behind hrest' fun d hd =>
    Term.isBlank_of_isWritten hwritten hd
  obtain ⟨rfl, hupper⟩ := map_toUpper_of_isWritten hwritten fun d hd => hword d (by simp [hd])
  rw [List.append_assoc] at hend
  obtain ⟨hne, hunquote⟩ := unquote_of_value? hvalue hend
  rw [hunquote]
  refine .inFirst hkind hcut hcolumn hupper ?_
  by_contra hnone
  simp only [not_or, not_not] at hnone
  rw [hnone.1, hnone.2] at hne
  exact hne rfl

theorem valueOf_behind (v : Token Kind) (vs : List (Token Kind)) :
    valueOf (behind (v :: vs)) = valueOf (clauseText (v :: vs)).toList := by
  rw [behind_cons, valueOf, Text.trimStart, List.dropWhile_cons_of_pos (by decide)]
  rfl

/-- An operator has letters and the characters of symbols only. -/
theorem mem_of_isWritten {c : Comparison} (h : Term.isWritten c.symbol.toList operator = true)
    {d : Char} (hd : d ∈ operator) : Text.isLetter d = true ∨ d ∈ ['=', '!', '<', '>'] := by
  rcases Term.isWritten_cases h with ⟨hlike, rfl⟩ | ⟨-, -, hletters⟩
  · right
    have hsymbol : c == .like || c.symbol.toList.all fun d => ['=', '!', '<', '>'].contains d := by
      cases c <;> decide
    rw [beq_false_of_ne hlike, Bool.false_or] at hsymbol
    exact List.contains_iff_mem.1 (List.all_eq_true.1 hsymbol d hd)
  · exact .inl (hletters d hd)

/-- A symbol at which an operator begins is an operator, and the whole of it is if a value is
behind it. -/
theorem termOf_symbol {w o : Token Kind} {values : List (Token Kind)} {c : Comparison}
    {more : List Char} (hkind : w.kind.isWord = true) (hchars : o.chars = o.text.toList)
    (hsymbol : Rule.symbol o.kind o.chars ∈ rules) (hvalues : ∀ v ∈ values, v.Given)
    (hcut : o.chars = operator ++ more)
    (hwritten : Term.isWritten c.symbol.toList operator = true)
    (hread : Term.operatorAndValue? (o.chars ++ behind values) = some (operator, value)) :
    TermOf ⟨w.text, String.ofList operator, String.ofList (Term.unquote value)⟩
      (w :: o :: values) := by
  cases values with
  | nil =>
    have hp := forall_symbol (p := fun kind spelling =>
      (Term.operatorAndValue? spelling).all fun read =>
        kind == .greaterEqual && read == (['>'], ['=']) ||
        kind == .lessEqual && read == (['<'], ['='])) (by decide) hsymbol
    have hnil : o.chars ++ behind [] = o.chars := List.append_nil _
    rw [← hnil, hread] at hp
    simp only [Option.all_some, Bool.or_eq_true, Bool.and_eq_true, beq_iff_eq,
      Prod.mk.injEq] at hp
    rcases hp with ⟨ho, rfl, rfl⟩ | ⟨ho, rfl, rfl⟩
    · exact .greater hkind ho
    · exact .less hkind ho
  | cons v vs =>
    have hp := forall_symbol (p := fun kind spelling => Comparison.all.all fun c =>
      c == .like || !c.symbol.toList.isPrefixOf spelling ||
        kind.isOperator && Comparison.all.any fun c => spelling == c.symbol.toList)
      (by decide) hsymbol
    have hletters := forall_symbol (p := fun _ spelling => spelling.all fun d =>
      !Text.isLetter d) (by decide) hsymbol
    obtain ⟨hlike, hoperator⟩ : c ≠ .like ∧ operator = c.symbol.toList := by
      rcases Term.isWritten_cases hwritten with h | ⟨-, -, h⟩
      · exact h
      · obtain ⟨first, hfirst⟩ := List.exists_mem_of_ne_nil operator
          (Term.ne_nil_of_isWritten hwritten)
        have hno := List.all_eq_true.1 hletters first
          (by rw [hcut]; exact List.mem_append_left more hfirst)
        rw [h first hfirst] at hno
        cases hno
    have hc : c ∈ Comparison.all := by cases c <;> decide
    have hprefix : c.symbol.toList <+: o.chars := ⟨more, by rw [hcut, hoperator]⟩
    obtain ⟨ho, c', -, hspelling⟩ : o.kind.isOperator = true ∧
        ∃ c' ∈ Comparison.all, o.chars = c'.symbol.toList := by
      simpa [hlike, List.isPrefixOf_iff_prefix.2 hprefix] using List.all_eq_true.1 hp c hc
    have hend : Stops Text.isBlank (' ' :: (clauseText (v :: vs)).toList).reverse :=
      (stops_reverse_append (a := [' ']) ((hvalues v (by simp)).toList_clauseText_ne_nil vs)).2
        (stops_reverse_clauseText hvalues)
    have hvalue := Term.value?_eq (List.cons_ne_nil _ _) hend
    rw [behind_cons, hspelling, Term.operatorAndValue?_append c' hvalue] at hread
    obtain ⟨rfl, rfl⟩ := Prod.mk.inj (Option.some.inj hread)
    rw [← hspelling, hchars, String.ofList_toList, ← behind_cons]
    change TermOf ⟨w.text, o.text, valueOf (behind (v :: vs))⟩ _
    rw [valueOf_behind]
    exact .stated hkind ho (List.cons_ne_nil v vs)

/-- A word at which an operator begins is LIKE, or has it in front. -/
theorem termOf_word {w o : Token Kind} {values : List (Token Kind)} {c : Comparison}
    {more : List Char} (hkind : w.kind.isWord = true) (hword : IsWord o.text.toList)
    (hreserved : o.kind =
      (Kind.reserved? (String.ofList (o.text.toList.map Char.toUpper))).getD .identifier)
    (hcut : o.text.toList = operator ++ more)
    (hwritten : Term.isWritten c.symbol.toList operator = true)
    (hvalue : more ++ behind values ≠ []) :
    TermOf ⟨w.text, String.ofList operator, valueOf (more ++ behind values)⟩
      (w :: o :: values) := by
  obtain ⟨rfl, hupper⟩ := map_toUpper_of_isWritten hwritten fun d hd =>
    hword.isWordTail (by rw [hcut]; exact List.mem_append_left more hd)
  cases more with
  | nil =>
    rw [List.append_nil] at hcut
    have hlike : o.kind = .keyword .LIKE := by
      rw [hreserved, hcut, hupper]
      decide
    cases values with
    | nil => exact absurd rfl hvalue
    | cons v vs =>
      rw [List.nil_append, valueOf_behind, ← hcut, String.ofList_toList]
      exact .stated hkind (by rw [hlike]; rfl) (List.cons_ne_nil v vs)
  | cons d more =>
    exact .inSecond hkind (Token.isWord_of_kind hreserved) hcut hupper (List.cons_ne_nil d more)

/-- One blank stands in front of the token that an operator is read from. -/
theorem eq_append_of_behind {o : Token Kind} {values : List (Token Kind)}
    {between rest : List Char} (ho : o.Given) (hblanks : ∀ c ∈ between, Text.isBlank c = true)
    (hne : operator ≠ []) (hsolid : ∀ c ∈ operator, Text.isBlank c = false)
    (h : between ++ (operator ++ rest) = behind (o :: values)) :
    o.chars ++ behind values = operator ++ rest := by
  cases between with
  | nil =>
    obtain ⟨d, s, rfl⟩ := List.exists_cons_of_ne_nil hne
    obtain ⟨rfl, -⟩ := List.cons.inj h
    exact absurd (hsolid ' ' (by simp)) (by decide)
  | cons d between =>
    have hrest : between ++ (operator ++ rest) = o.chars ++ behind values := (List.cons.inj h).2
    have hstops := stops_append ho.stops.1 ho.stops.2.1 (behind values)
    obtain rfl := eq_nil_of_append_eq hrest (fun d hd => hblanks d (by simp [hd])) hstops
    exact hrest.symm

/-- The first word is the column. -/
theorem termOf_behind {w : Token Kind} {us : List (Token Kind)} {between : List Char}
    (hus : ∀ u ∈ us, u.Given) (hkind : w.kind.isWord = true)
    (hblanks : ∀ c ∈ between, Text.isBlank c = true) (hrest : between ++ rest = behind us)
    (hread : Term.operatorAndValue? rest = some (operator, value)) :
    TermOf ⟨w.text, String.ofList operator, String.ofList (Term.unquote value)⟩ (w :: us) := by
  obtain ⟨c, rest', rfl, hwritten, hvalue⟩ := Term.exists_of_operatorAndValue? hread
  have hne := Term.ne_nil_of_isWritten hwritten
  have hsolid : ∀ d ∈ operator, Text.isBlank d = false := fun d hd =>
    Term.isBlank_of_isWritten hwritten hd
  cases us with
  | nil => exact absurd (List.append_eq_nil_iff.1 (List.append_eq_nil_iff.1 hrest).2).1 hne
  | cons o values =>
    have ho := hus o (by simp)
    have hvalues : ∀ v ∈ values, v.Given := fun v hv => hus v (by simp [hv])
    have hchars := eq_append_of_behind ho hblanks hne hsolid hrest
    obtain ⟨more, hcut, rfl⟩ := exists_of_append_eq_append_behind hchars hsolid
    have hend : Stops Text.isBlank (operator ++ (more ++ behind values)).reverse := by
      rw [← hchars, ← toList_clauseText]
      exact stops_reverse_clauseText hus
    obtain ⟨hvalue_ne, hunquote⟩ := unquote_of_value? hvalue hend
    -- the first character of the operator is one of the token
    obtain ⟨first, hfirst⟩ := List.exists_mem_of_ne_nil operator hne
    have hmem : first ∈ o.chars := by
      rw [hcut]
      exact List.mem_append_left more hfirst
    cases ho.form with
    | word hword hspelled hreserved =>
      rw [hspelled] at hcut
      rw [hunquote]
      exact termOf_word hkind hword hreserved hcut hwritten hvalue_ne
    | number _ _ hnumeral =>
      have hno := hnumeral first hmem
      rcases mem_of_isWritten hwritten hfirst with hletter | hsymbol
      · rw [Token.isNumeral_of_isLetter hletter] at hno
        cases hno
      · have hsymbols : ['=', '!', '<', '>'].all fun d => isNumeral d == false := by decide
        rw [beq_iff_eq.1 (List.all_eq_true.1 hsymbols first hsymbol)] at hno
        cases hno
    | string _ hquoted =>
      obtain ⟨d, s, rfl⟩ := List.exists_cons_of_ne_nil hne
      rw [hquoted] at hcut
      obtain ⟨rfl, -⟩ := List.cons.inj hcut
      exact absurd (mem_of_isWritten hwritten List.mem_cons_self) (by decide)
    | symbol hspelled hsymbol =>
      rw [← hchars] at hread
      exact termOf_symbol hkind hspelled hsymbol hvalues hcut hwritten hread

end Operator

/-- A term that is read from the text of tokens is one of them. -/
theorem termOf_of_split? {x : Term} (hts : ∀ t ∈ ts, t.Given)
    (h : Term.split? (clauseText ts) = some x) : TermOf x ts := by
  cases ts with
  | nil => cases h
  | cons w us =>
    obtain ⟨before, column, between, rest, operator, value, htext, hbefore, ⟨c, hc, hstart⟩,
      hcolumn, hbetween, hread, rfl⟩ := Term.exists_cut h
    have hw := hts w (by simp)
    have hus : ∀ u ∈ us, u.Given := fun u hu => hts u (by simp [hu])
    have hend := stops_reverse_clauseText hts
    rw [toList_clauseText] at htext hend
    have hstops := stops_append hw.stops.1 hw.stops.2.1 (behind us)
    obtain rfl := eq_nil_of_append_eq htext.symm hbefore hstops
    rw [List.nil_append] at htext
    obtain ⟨more, hcut, hrest⟩ := exists_of_append_eq_append_behind htext fun d hd =>
      Token.isBlank_of_isColumnPart (hcolumn d hd)
    have hmem : c ∈ w.chars := by
      rw [hcut]
      exact List.mem_append_left more (List.mem_of_mem_head? hc)
    cases hw.form with
    | word hword hspelled hreserved =>
      have hkind := Token.isWord_of_kind hreserved
      rw [hspelled] at hcut hend
      cases more with
      | nil =>
        rw [List.append_nil] at hcut
        rw [← hcut, String.ofList_toList]
        exact termOf_behind hus hkind hbetween hrest hread
      | cons d more =>
        rw [hcut, List.append_assoc, stops_reverse_append (by simp)] at hend
        exact termOf_inFirst hword hkind hcut (List.ne_nil_of_mem (List.mem_of_mem_head? hc))
          (List.cons_ne_nil d more) hbetween hrest hend hread
    | number _ _ hnumeral =>
      have hno := hnumeral c hmem
      rw [Token.isNumeral_of_isColumnStart hstart] at hno
      cases hno
    | string _ hquoted =>
      obtain ⟨column, rfl⟩ := List.head?_eq_some_iff.1 hc
      rw [hquoted] at hcut
      obtain ⟨rfl, -⟩ := List.cons.inj hcut
      exact absurd hstart (by decide)
    | symbol hspelled hsymbol =>
      have hletters := forall_symbol (p := fun _ spelling => spelling.all fun d =>
        !Term.isColumnStart d) (by decide) hsymbol
      have hno := List.all_eq_true.1 hletters c hmem
      rw [hstart] at hno
      cases hno

end Tabula
