import Tabula.Proofs.Condition.TokenTerm

/-!
# Terms that ask for a literal

A column, the operator of equality and a literal are read as they stand, whether the literal is a
string in quotes or not (`Asks.split?_eq`), and are true of a row if the cell is equal to the text
of the literal (`Asks.evaluate_eq`). A text is equal to itself unless it reads as the value that is
no number (`compare_equal_self`).
-/

namespace Tabula

/-! ### Equality -/

@[simp] theorem Number.eq_self (x : Number) : x.eq x = decide (x ≠ .nan) := by
  cases x <;> simp [Number.eq]

theorem compare_equal (s t : String) : compare s "==" t = Comparison.equal.holds s t := by
  have hequal : Comparison.ofText? "==" = some .equal := by decide
  rw [compare, hequal]

/-- The opposite of equal is unequal, of numbers and of texts. -/
theorem compare_notEqual (s t : String) : compare s "!=" t = !compare s "==" t := by
  have hnot : Comparison.ofText? "!=" = some .notEqual := by decide
  rw [compare_equal, compare, hnot]
  unfold Comparison.holds
  cases Number.read? s with
  | none => simp [Comparison.onTexts]
  | some x =>
    cases Number.read? t with
    | none => simp [Comparison.onTexts]
    | some y => rfl

theorem compare_equal_self (s : String) :
    compare s "==" s = true ↔ Number.read? s ≠ some .nan := by
  rw [compare_equal, Comparison.holds]
  cases Number.read? s with
  | none => simp [Comparison.onTexts]
  | some x => simp [Comparison.onNumbers]

/-! ### Tokens of a term -/

namespace Token

variable {t : Token Kind}

/-- A token that is a word by its kind is one by its text. -/
theorem Given.isWord (h : t.Given) (hkind : t.kind.isWord = true) :
    IsWord t.text.toList ∧ t.chars = t.text.toList := by
  cases h.form with
  | word hword hchars _ => exact ⟨hword, hchars⟩
  | number hnumber =>
    rcases hnumber with hnumber | hnumber <;> simp [hnumber, Kind.isWord] at hkind
  | string hstring => simp [hstring, Kind.isWord] at hkind
  | symbol _ hsymbol =>
    have hnot := forall_symbol (p := fun kind _ => !kind.isWord) (by decide) hsymbol
    simp [hkind] at hnot

theorem Given.chars_of_equal (h : t.Given) (hkind : t.kind = .equal) :
    t.chars = Comparison.equal.symbol.toList := by
  cases h.form with
  | word _ _ hreserved =>
    have hword := isWord_of_kind hreserved
    simp [hkind, Kind.isWord] at hword
  | number hnumber => simp [hkind] at hnumber
  | string hstring => simp [hkind] at hstring
  | symbol _ hsymbol =>
    have hspelling := forall_symbol (p := fun kind spelling =>
      kind != .equal || spelling == Comparison.equal.symbol.toList) (by decide) hsymbol
    simpa [hkind] using hspelling

/-- A token begins with a quote only if it is a string. -/
theorem Given.head?_chars (h : t.Given) (hstring : t.kind ≠ .string)
    (hliteral : t.kind.isLiteral = true) : t.chars.head? ≠ some '\'' := by
  intro hquote
  have hmem := List.mem_of_mem_head? (Option.mem_def.2 hquote)
  cases h.form with
  | word hword hchars _ =>
    rw [hchars] at hmem
    exact absurd (hword.isWordTail hmem) (by decide)
  | number _ _ hnumeral => exact absurd (hnumeral _ hmem) (by decide)
  | string hkind => exact hstring hkind
  | symbol _ hsymbol =>
    have hnot := forall_symbol (p := fun kind _ => !kind.isLiteral) (by decide) hsymbol
    simp [hliteral] at hnot

/-- Where a value stands, a literal is read as its text. -/
theorem Given.valueOf_literal (h : t.Given) (hliteral : t.kind.isLiteral = true) :
    valueOf t.chars = t.text := by
  have htrim : Text.trimStart t.chars = t.chars := by
    obtain ⟨c, s, hchars⟩ := List.exists_cons_of_ne_nil h.stops.1
    have hc := h.stops.2.1 c (by rw [hchars]; rfl)
    rw [hchars, Text.trimStart, List.dropWhile_cons_of_neg (by simp [hc])]
  rw [valueOf, htrim]
  by_cases hstring : t.kind = .string
  · rw [chars_of_string hstring, Term.unquote_quoted, String.ofList_toList]
  · have hquote := h.head?_chars hstring hliteral
    rw [Term.unquote, if_neg (fun hboth => hquote hboth.2.1), chars_of_ne_string hstring,
      String.ofList_toList]

end Token

/-! ### Reading -/

/-- Tokens that ask a column for a literal, which has no parenthesis. -/
structure Asks (word sign literal : Token Kind) : Prop where
  given : ∀ t ∈ [word, sign, literal], t.Given
  isWord : word.kind.isWord = true
  isEqual : sign.kind = .equal
  isLiteral : literal.kind.isLiteral = true
  noParen : literal.kind = .string → '(' ∉ literal.text.toList ∧ ')' ∉ literal.text.toList

namespace Asks

variable {word sign literal : Token Kind} {column : String} {r : Row} {header : List String}

/-- The three tokens are read as they stand there. -/
theorem split?_eq (h : Asks word sign literal) :
    Term.split? (clauseText [word, sign, literal]) = some ⟨word.text, "==", literal.text⟩ := by
  obtain ⟨hword, hsign, hliteral⟩ : word.Given ∧ sign.Given ∧ literal.Given := by
    simpa using h.given
  have htext : (clauseText [word, sign, literal]).toList =
      word.text.toList ++ ' ' :: (Comparison.equal.symbol.toList ++ ' ' :: literal.chars) := by
    rw [toList_clauseText, (hword.isWord h.isWord).2, behind, List.flatMap_cons, List.flatMap_cons,
      hsign.chars_of_equal h.isEqual]
    simp
  have hend : Stops Text.isBlank (' ' :: literal.chars).reverse :=
    (stops_reverse_append (a := [' ']) hliteral.stops.1).2 hliteral.stops.2.2
  have hread := Term.split?_append (hword.isWord h.isWord).1 .equal
    (Term.value?_eq (List.cons_ne_nil _ _) hend)
  have hblank : Text.trimStart (' ' :: literal.chars) = Text.trimStart literal.chars :=
    List.dropWhile_cons_of_pos (by decide)
  have hvalue := hliteral.valueOf_literal h.isLiteral
  rw [valueOf, ← hblank] at hvalue
  rw [← htext, String.ofList_toList, String.ofList_toList, hvalue] at hread
  exact hread

theorem read_eq (h : Asks word sign literal) :
    Condition.read (some (clauseText [word, sign, literal])) =
      .single (clauseText [word, sign, literal]) := by
  have hopen : word.kind ≠ .openParen ∧ literal.kind ≠ .openParen := by
    constructor <;> intro hkind
    · simpa [hkind, Kind.isWord] using h.isWord
    · simpa [hkind, Kind.isLiteral] using h.isLiteral
  have hfree : ParenFree [word, sign, literal] := by
    intro t ht hstring
    simp only [List.mem_cons, List.not_mem_nil, or_false] at ht
    rcases ht with rfl | rfl | rfl
    · simpa [hstring, Kind.isWord] using h.isWord
    · simpa [hstring] using h.isEqual
    · exact h.noParen hstring
  have hgroups : groupTexts (clauseText [word, sign, literal]).toList = [] := by
    rw [groupTexts_clauseText h.given hfree]
    simp [tokenGroups, hopen, h.isEqual]
  have hstrip := strip_clauseText_ne_empty h.given (by simp)
  exact Condition.readText_of_groups_eq_nil hstrip (List.map_eq_nil_iff.1 hgroups)

theorem validate_eq (h : Asks word sign literal)
    (hcolumn : Text.lower word.text = Text.lower column) (honly : Condition.HasOnly header column) :
    (Condition.read (some (clauseText [word, sign, literal]))).validate header = .ok () := by
  obtain ⟨i, hresolve⟩ := Condition.exists_resolve (x := ⟨word.text, "==", literal.text⟩)
    honly hcolumn h.split?_eq
  rw [h.read_eq, Condition.validate, hresolve]
  rfl

/-- The condition is true where the cell of the column is equal to the literal. -/
theorem evaluate_eq (h : Asks word sign literal)
    (hcolumn : Text.lower word.text = Text.lower column)
    (honly : Condition.HasOnly r.headers column) (noted : List ConditionError) :
    (Condition.read (some (clauseText [word, sign, literal]))).evaluate r.headers r.values noted =
      .ok (compare (r.cell column) "==" literal.text, noted) := by
  have hholds := Condition.holds_eq (x := ⟨word.text, "==", literal.text⟩) honly hcolumn h.split?_eq
  rw [h.read_eq, Condition.evaluate, hholds]
  rfl

end Asks

end Tabula
