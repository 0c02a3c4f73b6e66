import Tabula.Proofs.Condition.Term

/-!
# How terms are cut

What is read as a term is blanks, a column, blanks, an operator and a value, in this order
(`Term.exists_cut`). The value is all that stands behind the operator, without the blanks around it
(`Term.value?_eq`). The operator in front of a blank is the one that is written there
(`Term.operatorAndValue?_append`); otherwise it may be a part of what is written.
-/

namespace Tabula

namespace Text

/-! ### Letters -/

/-- A capital letter of ASCII becomes a small one, and every other character is left alone. -/
theorem toLower_cases (c : Char) :
    c.toNat < 128 ∧ 'a' ≤ c.toLower ∧ c.toLower ≤ 'z' ∨ c.toLower = c := by
  by_cases hupper : c.val ≥ 'A'.val ∧ c.val ≤ 'Z'.val
  · left
    have hval : c.toNat = c.val.toNat := rfl
    have hlower : c.toLower.val = c.val + ('a'.val - 'A'.val) := by
      delta Char.toLower
      rw [dif_pos hupper]
    rw [Char.le_def, Char.le_def, hlower]
    simp only [ge_iff_le, UInt32.le_iff_toNat_le, UInt32.toNat_add] at hupper ⊢
    have hlimits : 'A'.val.toNat = 65 ∧ 'Z'.val.toNat = 90 ∧ 'a'.val.toNat = 97 ∧
        'z'.val.toNat = 122 ∧ ('a'.val - 'A'.val).toNat = 32 := by decide
    omega
  · right
    delta Char.toLower
    rw [dif_neg hupper]

/-- A letter is a character of ASCII, or one of the four others that letters are written with. -/
theorem isLetter_cases {c : Char} (h : isLetter c = true) :
    c.toNat < 128 ∨ c ∈ ['\u0130', '\u0131', '\u017f', '\u212a'] := by
  unfold isLetter foldChar at h
  split at h
  · simp
  · simp
  · simp
  · simp
  · left
    rcases toLower_cases c with ⟨hlt, -⟩ | hsame
    · exact hlt
    · rw [hsame] at h
      have hle : c ≤ 'z' := by simpa using (Bool.and_eq_true_iff.1 h).2
      have hval : c.toNat = c.val.toNat := rfl
      rw [Char.le_def, UInt32.le_iff_toNat_le] at hle
      exact hval ▸ Nat.lt_of_le_of_lt hle (by decide)

/-- There are few enough letters to look at each. -/
theorem forall_isLetter {p : Char → Bool}
    (hascii : (List.range 128).all
      (fun n => !isLetter (Char.ofNat n) || p (Char.ofNat n)) = true)
    (hother : ['\u0130', '\u0131', '\u017f', '\u212a'].all p = true)
    {c : Char} (hc : isLetter c = true) : p c = true := by
  rcases isLetter_cases hc with hlt | hmem
  · simpa [Char.ofNat_toNat, hc] using List.all_eq_true.1 hascii c.toNat (List.mem_range.2 hlt)
  · exact List.all_eq_true.1 hother c hmem

/-- Letter case is a matter of letters. -/
theorem foldChar_of_not_isLetter {c : Char} (h : isLetter c = false) : foldChar c = c := by
  unfold isLetter foldChar at h
  unfold foldChar
  split at h
  · cases h
  · cases h
  · cases h
  · cases h
  · rcases toLower_cases c with ⟨-, hle, hle'⟩ | hsame
    · simp [hle, hle'] at h
    · exact hsame

end Text

namespace Term

variable {α : Type} {s : List Char}

/-! ### Cutting -/

/-- A success is one on some cut. -/
theorem exists_of_afterMost {p : Char → Bool} {k : List Char → List Char → Option α} {a : α}
    (h : afterMost p k s = some a) :
    ∃ taken rest, s = taken ++ rest ∧ (∀ c ∈ taken, p c = true) ∧ k taken rest = some a := by
  induction s generalizing k with
  | nil => exact ⟨[], [], rfl, by simp, h⟩
  | cons c s ih =>
    rw [afterMost] at h
    split at h
    · rename_i hc
      rw [Option.orElse_eq_orElse, Option.orElse_eq_or, Option.or_eq_some_iff] at h
      rcases h with h | ⟨-, h⟩
      · obtain ⟨taken, rest, rfl, htaken, hk⟩ := ih h
        exact ⟨c :: taken, rest, rfl, List.forall_mem_cons.2 ⟨hc, htaken⟩, hk⟩
      · exact ⟨[], c :: s, rfl, by simp, h⟩
    · exact ⟨[], c :: s, rfl, by simp, h⟩

/-- The value of a text that does not end in a blank is the text without the blanks in front. -/
theorem value?_eq (hne : s ≠ []) (hend : Stops Text.isBlank s.reverse) :
    value? s = some (Text.trimStart s) := by
  obtain ⟨front, c, rfl⟩ : ∃ front c, s = front ++ [c] :=
    ⟨_, _, (List.dropLast_concat_getLast hne).symm⟩
  have hc : Text.isBlank c = false := hend c (by simp)
  -- the last character is not among the blanks in front
  have htrim : Text.trimStart (front ++ [c]) = front.dropWhile Text.isBlank ++ [c] := by
    rw [Text.trimStart, List.dropWhile_append]
    split
    · rename_i hempty
      rw [List.isEmpty_iff.1 hempty, List.dropWhile_cons_of_neg (by simp [hc])]
      rfl
    · rfl
  have hsplit : front ++ [c] =
      (front ++ [c]).takeWhile Text.isBlank ++ (front.dropWhile Text.isBlank ++ [c]) := by
    rw [← htrim, Text.trimStart, List.takeWhile_append_dropWhile]
  have hshortest := shortestValue?_append (front.dropWhile Text.isBlank) hc
  rw [htrim, value?]
  conv_lhs => rw [hsplit]
  refine (afterMost_append (List.all_eq_true.1 List.all_takeWhile) ?_ ?_).trans hshortest
  · rw [← htrim]
    exact stops_dropWhile _ _
  · rw [hshortest]
    rfl

/-- What is cut off as an operator is one, in some letter case, and a value follows it. -/
theorem exists_of_operatorAndValue? {operator value : List Char}
    (h : operatorAndValue? s = some (operator, value)) :
    ∃ (c : Comparison) (rest : List Char), s = operator ++ rest ∧
      isWritten c.symbol.toList operator = true ∧ value? rest = some value := by
  obtain ⟨c, -, hc⟩ := List.exists_of_findSome?_eq_some h
  dsimp only at hc
  split at hc
  · rename_i hwritten
    obtain ⟨v, hv, hpair⟩ := Option.map_eq_some_iff.1 hc
    obtain ⟨rfl, rfl⟩ := Prod.mk.inj hpair
    exact ⟨c, s.drop c.symbol.toList.length, (List.take_append_drop _ s).symm, hwritten, hv⟩
  · cases hc

/-- What is read as a term is a column with an operator and a value behind it. -/
theorem exists_cut {text : String} {x : Term} (h : split? text = some x) :
    ∃ before column between rest operator value,
      text.toList = before ++ (column ++ (between ++ rest)) ∧
      (∀ c ∈ before, Text.isBlank c = true) ∧ (∃ c ∈ column.head?, isColumnStart c = true) ∧
      (∀ c ∈ column, isColumnPart c = true) ∧ (∀ c ∈ between, Text.isBlank c = true) ∧
      operatorAndValue? rest = some (operator, value) ∧
      x = ⟨String.ofList column, String.ofList operator, String.ofList (unquote value)⟩ := by
  obtain ⟨before, s, htext, hbefore, hs⟩ := exists_of_afterMost h
  cases s with
  | nil => cases hs
  | cons c s =>
    dsimp only [fromColumn?] at hs
    split at hs
    · rename_i hc
      obtain ⟨column, s', rfl, hcolumn, hs⟩ := exists_of_afterMost hs
      obtain ⟨between, rest, rfl, hbetween, hs⟩ := exists_of_afterMost hs
      obtain ⟨⟨operator, value⟩, hread, rfl⟩ := Option.map_eq_some_iff.1 hs
      refine ⟨before, c :: column, between, rest, operator, value, htext, hbefore, ⟨c, rfl, hc⟩,
        ?_, hbetween, hread, rfl⟩
      exact List.forall_mem_cons.2 ⟨by simp [isColumnPart, hc], hcolumn⟩
    · cases hs

/-! ### Operators -/

section Written

variable {c : Comparison} {operator : List Char}

/-- An operator is a symbol, or LIKE in some letter case. -/
theorem isWritten_cases (h : isWritten c.symbol.toList operator = true) :
    c ≠ .like ∧ operator = c.symbol.toList ∨
    c = .like ∧ operator.length = 4 ∧ ∀ d ∈ operator, Text.isLetter d = true := by
  have hfold : operator.map Text.foldChar = c.symbol.toList.map Text.foldChar := by
    simpa [isWritten] using h
  by_cases hlike : c = .like
  · subst hlike
    have hlower : Comparison.like.symbol.toList.map Text.foldChar = ['l', 'i', 'k', 'e'] := by
      decide
    rw [hlower] at hfold
    refine .inr ⟨rfl, by simpa using congrArg List.length hfold, fun d hd => ?_⟩
    have hmem : Text.foldChar d ∈ ['l', 'i', 'k', 'e'] := hfold ▸ List.mem_map_of_mem hd
    have hletters : ['l', 'i', 'k', 'e'].all fun e => decide ('a' ≤ e) && decide (e ≤ 'z') := by
      decide
    exact List.all_eq_true.1 hletters _ hmem
  · refine .inl ⟨hlike, ?_⟩
    have hsymbol : c.symbol.toList.map Text.foldChar = c.symbol.toList := by
      cases c with
      | like => exact absurd rfl hlike
      | _ => rfl
    have hletters : c.symbol.toList.all fun e =>
        (decide ('a' ≤ e) && decide (e ≤ 'z')) == false := by
      cases c <;> decide
    rw [hsymbol] at hfold
    -- no character of a symbol is a letter in some other case
    have hsame : operator.map Text.foldChar = operator.map id := by
      refine List.map_congr_left fun d hd => ?_
      have hmem : Text.foldChar d ∈ c.symbol.toList := hfold ▸ List.mem_map_of_mem hd
      exact Text.foldChar_of_not_isLetter (beq_iff_eq.1 (List.all_eq_true.1 hletters _ hmem))
    rw [← hfold, hsame, List.map_id]

theorem isBlank_of_isLetter {d : Char} (h : Text.isLetter d = true) : Text.isBlank d = false := by
  have hp := Text.forall_isLetter (p := fun d => !Text.isBlank d) (by decide) (by decide) h
  simpa using hp

/-- An operator has no blanks. -/
theorem isBlank_of_isWritten (h : isWritten c.symbol.toList operator = true) {d : Char}
    (hd : d ∈ operator) : Text.isBlank d = false := by
  rcases isWritten_cases h with ⟨-, rfl⟩ | ⟨-, -, hletters⟩
  · have hsymbol : c.symbol.toList.all fun d => Text.isBlank d == false := by
      cases c <;> decide
    exact beq_iff_eq.1 (List.all_eq_true.1 hsymbol d hd)
  · exact isBlank_of_isLetter (hletters d hd)

theorem ne_nil_of_isWritten (h : isWritten c.symbol.toList operator = true) : operator ≠ [] := by
  rintro rfl
  rcases isWritten_cases h with ⟨-, hnil⟩ | ⟨-, hlength, -⟩
  · cases c <;> cases hnil
  · cases hlength

end Written

end Term

end Tabula
