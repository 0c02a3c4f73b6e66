import Tabula.Proofs.Condition.Fold
import Tabula.Proofs.Token.Piece

/-!
# Terms as they are spelled

A name, an operator in any letter case and any text, with one blank between them, are a term with
this name for its column and this operator (`Term.exists_split?_spelled`). Nothing that stands in
the text makes it another term: the operator is read where it is written, in front of a blank, and
any text behind it leaves a value. A term is about the first column of its name in a header, letter
case ignored, and that need not be the column that is spelled as the term has it
(`Condition.IsPlaceOf.eq_iff`).
-/

namespace Tabula

namespace Term

variable {s operator value core before after : List Char} {c : Comparison}

/-! ### Operators in front of a blank -/

theorem stops_operator (h : isWritten c.symbol.toList operator = true) (s : List Char) :
    Stops Text.isBlank (operator ++ s) :=
  stops_append (ne_nil_of_isWritten h)
    (fun _ hd => isBlank_of_isWritten h (List.mem_of_mem_head? hd)) s

/-- No symbol is written with letters. -/
theorem not_isWritten_of_isLetter {d : Char} (hd : Text.isLetter d = true) (hc : c ≠ .like)
    (s : List Char) : isWritten c.symbol.toList ((d :: s).take c.symbol.toList.length) = false := by
  by_contra h
  rw [Bool.not_eq_false] at h
  rcases isWritten_cases h with ⟨-, hsymbol⟩ | ⟨hlike, -⟩
  · have hhead : c.symbol.toList.head? = some d := by
      rw [← hsymbol]
      cases c <;> rfl
    have hletters : c.symbol.toList.head?.all fun e => Text.isLetter e == false := by
      cases c with
      | like => exact absurd rfl hc
      | _ => decide
    rw [hhead] at hletters
    simp [hd] at hletters
  · exact hc hlike

/-- The operator in front of a blank and a value is the one that is written there, in any letter
case. -/
theorem operatorAndValue?_of_isWritten (h : isWritten c.symbol.toList operator = true)
    (hvalue : value? (' ' :: s) = some value) :
    operatorAndValue? (operator ++ ' ' :: s) = some (operator, value) := by
  rcases isWritten_cases h with ⟨-, rfl⟩ | ⟨rfl, hlength, hletters⟩
  · exact operatorAndValue?_append c hvalue
  · obtain ⟨d, more, rfl⟩ := List.exists_cons_of_ne_nil (ne_nil_of_isWritten h)
    have hletter : Text.isLetter d = true := hletters d (by simp)
    have hall : Comparison.all = Comparison.all.dropLast ++ [.like] := rfl
    have hearlier : ∀ c ∈ Comparison.all.dropLast, c ≠ .like := by decide
    have htake :
        (d :: (more ++ ' ' :: s)).take Comparison.like.symbol.toList.length = d :: more := by
      rw [← List.cons_append]
      exact List.take_left' hlength
    have hdrop :
        (d :: (more ++ ' ' :: s)).drop Comparison.like.symbol.toList.length = ' ' :: s := by
      rw [← List.cons_append]
      exact List.drop_left' hlength
    rw [List.cons_append, operatorAndValue?, hall, List.findSome?_append,
      List.findSome?_eq_none_iff.2]
    · simp [htake, hdrop, h, hvalue]
    · intro c hc
      rw [if_neg]
      rw [not_isWritten_of_isLetter hletter (hearlier c hc)]
      exact Bool.false_ne_true

/-! ### Values -/

theorem shortestValue?_isSome (h : s ≠ []) : (shortestValue? s).isSome := by
  induction s with
  | nil => exact absurd rfl h
  | cons c s ih =>
    rw [shortestValue?]
    split
    · rfl
    · rename_i hblank
      have hne : s ≠ [] := by
        rintro rfl
        exact hblank rfl
      simpa using ih hne

/-- What stands behind an operator and a blank leaves a value, which is the text without the blanks
around it if there is more than blanks. -/
theorem exists_value? (s : List Char) : ∃ value, value? (' ' :: s) = some value ∧
    (¬ AllBlank s → value = Text.trim s) := by
  rcases Text.allBlank_or_exists_trimmed s with hblank |
    ⟨before, core, after, rfl, hbefore, hafter, hne, hcore⟩
  · have hsome : (value? (' ' :: s)).isSome :=
      afterMost_isSome_iff.2 ⟨[], ' ' :: s, rfl, by simp, shortestValue?_isSome nofun⟩
    obtain ⟨value, hvalue⟩ := Option.isSome_iff_exists.1 hsome
    exact ⟨value, hvalue, fun hnot => absurd hblank hnot⟩
  · refine ⟨core, ?_, fun _ => (hcore.trim_padded hne hbefore hafter).symm⟩
    obtain ⟨front, c, rfl⟩ : ∃ front c, core = front ++ [c] :=
      ⟨_, _, (List.dropLast_concat_getLast hne).symm⟩
    have hshortest := shortestValue?_append_blanks front (hcore.back c (by simp)) hafter
    rw [List.append_cons] at hshortest
    calc value? (' ' :: (before ++ (front ++ [c]) ++ after))
        = value? ((' ' :: before) ++ (front ++ [c] ++ after)) := by simp
      _ = shortestValue? (front ++ [c] ++ after) :=
          afterMost_append (hbefore.cons (by decide)) (stops_append hne hcore.front after)
            (by rw [hshortest]; rfl)
      _ = some (front ++ [c]) := hshortest

/-- A name, an operator and a text are a term. -/
theorem exists_split?_spelled {column op : String} (hcolumn : IsWord column.toList)
    (h : isWritten c.symbol.toList op.toList = true) (text : String) :
    ∃ value, split? (column ++ " " ++ op ++ " " ++ text) = some ⟨column, op, value⟩ ∧
      (Text.strip text ≠ "" → value = String.ofList (unquote (Text.trim text.toList))) := by
  obtain ⟨value, hvalue, htrim⟩ := exists_value? text.toList
  have hread := split?_of_operatorAndValue? hcolumn (stops_operator h (' ' :: text.toList))
    (operatorAndValue?_of_isWritten h hvalue)
  have hspelled : column ++ " " ++ op ++ " " ++ text =
      String.ofList (column.toList ++ ' ' :: (op.toList ++ ' ' :: text.toList)) := by
    simp [← String.toList_inj]
  rw [hspelled, hread, String.ofList_toList, String.ofList_toList]
  refine ⟨_, rfl, fun hstrip => ?_⟩
  rw [htrim (mt Text.allBlank_iff_strip_eq.1 hstrip)]

end Term

namespace Condition

variable {header : List String} {column first text : String} {i : Nat} {x : Term} {r : Row}

/-! ### The column that a term is about -/

theorem exists_isPlaceOf (h : column ∈ header) : ∃ i, IsPlaceOf header column i := by
  cases hindex : columnIndex? column header with
  | none => exact absurd rfl (columnIndex?_eq_none_iff.1 hindex column h)
  | some i => exact ⟨i, columnIndex?_eq_some_iff.1 hindex⟩

/-- A name stands for its own column unless one in front of it has the same name in another letter
case. -/
theorem IsPlaceOf.eq_iff (h : IsPlaceOf header column i) (hnodup : header.Nodup)
    (hcolumn : column ∈ header) (hfirst : header[i]? = some first) :
    first = column ↔ ∀ before after, header = before ++ column :: after →
      ∀ other ∈ before, Text.lower other ≠ Text.lower column := by
  obtain ⟨hlt, hlower, hearlier⟩ := h
  constructor
  · rintro rfl before after rfl other hother
    have hi : i = before.length :=
      (List.getElem?_inj hlt hnodup).1 (hfirst.trans (by simp))
    obtain ⟨j, hj, rfl⟩ := List.getElem_of_mem hother
    have hne := hearlier j (by omega)
    rwa [List.getElem_append_left hj] at hne
  · intro halone
    obtain ⟨before, after, rfl⟩ := List.append_of_mem hcolumn
    have halone := halone before after rfl
    rcases Nat.lt_trichotomy i before.length with hi | rfl | hi
    · rw [List.getElem_append_left hi] at hlower
      exact absurd hlower (halone _ (List.getElem_mem hi))
    · simpa using hfirst.symm
    · have hne := hearlier before.length hi
      simp at hne

theorem cell_of_isPlaceOf (h : IsPlaceOf r.headers column i) (hfirst : r.headers[i]? = some first) :
    r.values.getD i "" = r.cell first :=
  getD_of_findIdx? (columnIndex?_eq_some_iff.2 h) hfirst

theorem strip_ne_empty_of_split? (h : Term.split? text = some x) : Text.strip text ≠ "" := by
  obtain ⟨before, word, between, rest, operator, value, htext, -, ⟨c, hc, -⟩, hword, -, -, -⟩ :=
    Term.exists_cut h
  have hmem := List.mem_of_mem_head? hc
  exact Text.strip_ne_empty (c := c) (by simp [htext, hmem])
    (Token.isBlank_of_isColumnPart (hword c hmem))

/-- A single term can be asked under a header that has its column. -/
theorem validate_of_split? (hgroup : ¬ HasGroup text.toList) (h : Term.split? text = some x)
    (hplace : IsPlaceOf header x.column i) : (read (some text)).validate header = .ok () := by
  rw [read, readText_of_groups_eq_nil (strip_ne_empty_of_split? h) (groups_eq_nil_iff.2 hgroup),
    validate, resolve, h]
  dsimp only
  rw [columnIndex?_eq_some_iff.2 hplace]
  rfl

/-- A single term compares the cell in the first column of its name. -/
theorem evaluate_of_split? (hgroup : ¬ HasGroup text.toList) (h : Term.split? text = some x)
    (hplace : IsPlaceOf r.headers x.column i) (hfirst : r.headers[i]? = some first)
    (noted : List ConditionError) :
    (read (some text)).evaluate r.headers r.values noted =
      .ok (compare (r.cell first) x.operator x.value, noted) := by
  rw [read, readText_of_groups_eq_nil (strip_ne_empty_of_split? h) (groups_eq_nil_iff.2 hgroup),
    evaluate, holds, resolve, h]
  dsimp only
  rw [columnIndex?_eq_some_iff.2 hplace, ← cell_of_isPlaceOf hplace hfirst]
  rfl

end Condition

end Tabula
