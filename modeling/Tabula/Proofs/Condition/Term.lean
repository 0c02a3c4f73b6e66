import Tabula.Condition
import Tabula.Proofs.Table.Aligned
import Tabula.Proofs.Token.Rule

/-!
# Terms that compare with a text

A term is cut in the first way that leaves a value, and there are many ways to cut one. Of a word,
an operator and a text in quotes, with one blank between them, the first way gives these three back,
whatever the text holds (`Term.split?_spelling`): the word ends at a blank, no operator that is
tried before is written there, and the value cannot end before its last quote, which is no blank.
-/

namespace Tabula

theorem isBlank_of_isWordTail {c : Char} (h : Lexeme.isWordTail c = true) :
    Text.isBlank c = false := by
  have hblank := forall_isWordTail (p := fun c => !Text.isBlank c) (by decide) h
  simpa using hblank

theorem IsWord.stops_isBlank {word : List Char} (h : IsWord word) (s : List Char) :
    Stops Text.isBlank (word ++ s) := by
  obtain ⟨c, hc, -⟩ := h.letter
  obtain ⟨rest, rfl⟩ := List.head?_eq_some_iff.1 hc
  intro d hd
  cases hd
  exact isBlank_of_isWordTail (h.isWordTail (List.mem_of_mem_head? hc))

namespace Term

/-! ### The first way to cut -/

/-- If it succeeds, the first cut is the one after all characters that can be taken. -/
theorem afterMost_append {α : Type} {p : Char → Bool} {k : List Char → List Char → Option α}
    {taken rest : List Char} (htaken : ∀ c ∈ taken, p c = true) (hrest : Stops p rest)
    (hk : (k taken rest).isSome) : afterMost p k (taken ++ rest) = k taken rest := by
  induction taken generalizing k with
  | nil =>
    cases rest with
    | nil => rfl
    | cons c rest => simp [afterMost, hrest c rfl]
  | cons c taken ih =>
    obtain ⟨a, ha⟩ := Option.isSome_iff_exists.1 hk
    have hafter := ih (k := fun taken rest => k (c :: taken) rest)
      (fun d hd => htaken d (List.mem_cons_of_mem c hd)) hk
    simp [afterMost, htaken c (by simp), hafter, ha]

/-- A value ends with the last character that is no blank. -/
theorem shortestValue?_append_blanks (s : List Char) {c : Char} (hc : Text.isBlank c = false)
    {after : List Char} (hafter : ∀ d ∈ after, Text.isBlank d = true) :
    shortestValue? (s ++ c :: after) = some (s ++ [c]) := by
  induction s with
  | nil => exact if_pos (List.all_eq_true.2 hafter)
  | cons d s ih => simp [shortestValue?, hc, ih]

theorem shortestValue?_append (s : List Char) {c : Char} (hc : Text.isBlank c = false) :
    shortestValue? (s ++ [c]) = some (s ++ [c]) :=
  shortestValue?_append_blanks s hc nofun

/-- A text in quotes. -/
def quoted (s : List Char) : List Char := '\'' :: s ++ ['\'']

theorem stops_quoted (s : List Char) : Stops Text.isBlank (quoted s) := by
  intro c hc
  cases hc
  decide

theorem value?_quoted (s : List Char) : value? (' ' :: quoted s) = some (quoted s) := by
  have hshortest : shortestValue? (quoted s) = some (quoted s) :=
    shortestValue?_append ('\'' :: s) (by decide)
  have hcut : afterMost Text.isBlank (fun _ rest => shortestValue? rest) ([' '] ++ quoted s) =
      shortestValue? (quoted s) :=
    afterMost_append (List.forall_mem_singleton.2 rfl) (stops_quoted s) (by simp [hshortest])
  exact hcut.trans hshortest

@[simp] theorem unquote_quoted (s : List Char) : unquote (quoted s) = s := by
  have hlast : (quoted s).getLast? = some '\'' := List.getLast?_concat ..
  unfold unquote
  rw [if_pos ⟨by simp [quoted], rfl, hlast⟩]
  simp [quoted]

/-- The operator in front of a blank and a value is the one that is written there. -/
theorem operatorAndValue?_append (c : Comparison) {s value : List Char}
    (hvalue : value? (' ' :: s) = some value) :
    operatorAndValue? (c.symbol.toList ++ ' ' :: s) = some (c.symbol.toList, value) := by
  unfold operatorAndValue? Comparison.all
  cases c <;> simp [Comparison.symbol, isWritten, Text.foldChar, hvalue]

/-! ### Terms as they are written -/

/-- A term with a text for its value, as it is written. -/
def spelling (x : Term) : List Char :=
  x.column.toList ++ ' ' :: (x.operator.toList ++ ' ' :: quoted x.value.toList)

theorem isColumnPart_of_isWordTail {c : Char} (hc : Lexeme.isWordTail c = true) :
    isColumnPart c = true :=
  forall_isWordTail (by decide) hc

theorem isColumnStart_of_isAlpha {c : Char} (hc : c.isAlpha = true) : isColumnStart c = true := by
  have hword : Lexeme.isWordTail c = true := by simp [Lexeme.isWordTail, Char.isAlphanum, hc]
  simpa [hc] using
    forall_isWordTail (p := fun c => !c.isAlpha || isColumnStart c) (by decide) hword

theorem stops_symbol (c : Comparison) (s : List Char) :
    Stops Text.isBlank (c.symbol.toList ++ s) := by
  cases c <;> simp [Stops, Comparison.symbol] <;> decide

section Read

variable {word rest : List Char} {read : List Char × List Char} (hword : IsWord word)
  (hrest : Stops Text.isBlank rest) (hread : operatorAndValue? rest = some read)

include hrest hread

/-- Behind the column, one blank is skipped, and the operator and the value are read. -/
theorem afterMost_operatorAndValue? (f : List Char × List Char → Term) :
    afterMost Text.isBlank (fun _ rest => (operatorAndValue? rest).map f) (' ' :: rest) =
      some (f read) := by
  have hcut : afterMost Text.isBlank (fun _ rest => (operatorAndValue? rest).map f)
      ([' '] ++ rest) = (operatorAndValue? rest).map f :=
    afterMost_append (List.forall_mem_singleton.2 rfl) hrest (by simp [hread])
  exact hcut.trans (by rw [hread]; rfl)

include hword

theorem fromColumn?_append : fromColumn? (word ++ ' ' :: rest) =
    some ⟨String.ofList word, String.ofList read.1, String.ofList (unquote read.2)⟩ := by
  obtain ⟨first, hfirst, hletter⟩ := hword.letter
  obtain ⟨tail, rfl⟩ := List.head?_eq_some_iff.1 hfirst
  have htail : ∀ d ∈ tail, isColumnPart d = true := fun d hd =>
    isColumnPart_of_isWordTail (hword.tail d hd)
  rw [List.cons_append, fromColumn?, if_pos (isColumnStart_of_isAlpha hletter)]
  refine (afterMost_append htail (by intro d hd; cases hd; decide) ?_).trans ?_
  · rw [afterMost_operatorAndValue? hrest hread]
    rfl
  · rw [afterMost_operatorAndValue? hrest hread]

/-- A word in front of a blank is the column, if an operator and a value are read behind it. -/
theorem split?_of_operatorAndValue? : split? (String.ofList (word ++ ' ' :: rest)) =
    some ⟨String.ofList word, String.ofList read.1, String.ofList (unquote read.2)⟩ := by
  have hcolumn := fromColumn?_append hword hrest hread
  have hcut : afterMost Text.isBlank (fun _ rest => fromColumn? rest)
      ([] ++ (word ++ ' ' :: rest)) = fromColumn? (word ++ ' ' :: rest) :=
    afterMost_append (by simp) (hword.stops_isBlank _) (by simp [hcolumn])
  unfold split?
  rw [String.toList_ofList]
  exact hcut.trans hcolumn

end Read

/-- A column, an operator and a value with one blank between them are read as they stand there. -/
theorem split?_append {word s value : List Char} (hword : IsWord word) (c : Comparison)
    (hvalue : value? (' ' :: s) = some value) :
    split? (String.ofList (word ++ ' ' :: (c.symbol.toList ++ ' ' :: s))) =
      some ⟨String.ofList word, c.symbol, String.ofList (unquote value)⟩ := by
  have hread := split?_of_operatorAndValue? hword (stops_symbol c (' ' :: s))
    (operatorAndValue?_append c hvalue)
  rwa [String.ofList_toList] at hread

/-- A term is read back as it is written. -/
theorem split?_spelling {x : Term} {c : Comparison} (hcolumn : IsWord x.column.toList)
    (hoperator : x.operator = c.symbol) : split? (String.ofList x.spelling) = some x := by
  obtain ⟨column, operator, value⟩ := x
  dsimp only at hcolumn hoperator
  subst hoperator
  have hread := split?_append hcolumn c (value?_quoted value.toList)
  simpa [spelling] using hread

end Term

namespace Condition

/-! ### Columns -/

/-- A header has a column of this name, and none that differs from it in letter case only. -/
def HasOnly (header : List String) (column : String) : Prop :=
  header.filter (fun name => Text.lower name = Text.lower column) = [column]

instance (header : List String) (column : String) : Decidable (HasOnly header column) :=
  inferInstanceAs (Decidable (_ = _))

/-- The cell at the place of the first column that has a property. -/
theorem getD_of_findIdx? {p : String → Bool} {cells : List (String × String)} {i : Nat}
    {first : String} (hi : (cells.map Prod.fst).findIdx? p = some i)
    (hfirst : (cells.map Prod.fst)[i]? = some first) :
    (cells.map Prod.snd).getD i "" = (cells.lookup first).getD "" := by
  induction cells generalizing i with
  | nil => cases hi
  | cons x cells ih =>
    obtain ⟨name, value⟩ := x
    rw [List.map_cons, List.findIdx?_cons] at hi
    split at hi
    · cases hi
      obtain rfl : name = first := by simpa using hfirst
      simp
    · rename_i hname
      obtain ⟨j, hj, rfl⟩ := Option.map_eq_some_iff.1 hi
      have hfirst : (cells.map Prod.fst)[j]? = some first := by simpa using hfirst
      have hp : p first = true := by
        obtain ⟨hlt, hp, -⟩ := List.findIdx?_eq_some_iff_getElem.1 hj
        rwa [(List.getElem?_eq_some_iff.1 hfirst).2] at hp
      have hne : (first == name) = false := by
        rw [beq_eq_false_iff_ne]
        rintro rfl
        exact hname hp
      simpa [List.lookup_cons, hne] using ih hj hfirst

/-- The column that is found by a property is the only one that has it, with its cell. -/
theorem exists_findIdx? {p : String → Bool} {cells : List (String × String)} {column : String}
    (h : (cells.map Prod.fst).filter p = [column]) :
    ∃ i, (cells.map Prod.fst).findIdx? p = some i ∧
      (cells.map Prod.snd).getD i "" = (cells.lookup column).getD "" := by
  have hmem : column ∈ (cells.map Prod.fst).filter p := by simp [h]
  obtain ⟨hcolumn, hp⟩ := List.mem_filter.1 hmem
  obtain ⟨i, hi⟩ := Option.isSome_iff_exists.1
    ((List.findIdx?_isSome).trans (List.any_eq_true.2 ⟨column, hcolumn, hp⟩))
  obtain ⟨hlt, hfound, -⟩ := List.findIdx?_eq_some_iff_getElem.1 hi
  have hfirst : (cells.map Prod.fst)[i] = column := by
    have hmem := List.mem_filter.2 ⟨List.getElem_mem hlt, hfound⟩
    rw [h] at hmem
    exact List.mem_singleton.1 hmem
  exact ⟨i, hi, getD_of_findIdx? hi (List.getElem?_eq_some_iff.2 ⟨hlt, hfirst⟩)⟩

variable {r : Row} {header : List String} {text : String} {x : Term} {column : String}

/-- A column may be written in any letter case. -/
theorem exists_columnIndex? (h : HasOnly r.headers column)
    (hcolumn : Text.lower x.column = Text.lower column) :
    ∃ i, columnIndex? x.column r.headers = some i ∧ r.values.getD i "" = r.cell column := by
  unfold columnIndex?
  rw [hcolumn]
  exact exists_findIdx? h

theorem exists_resolve (h : HasOnly header column)
    (hcolumn : Text.lower x.column = Text.lower column) (hread : Term.split? text = some x) :
    ∃ i, resolve header text = .ok (x, i) := by
  -- a row of empty cells has this header
  have hrow : (⟨header.map fun name => (name, "")⟩ : Row).headers = header := by
    simp [Row.headers, Function.comp_def]
  obtain ⟨i, hi, -⟩ := exists_columnIndex? (hrow.symm ▸ h) hcolumn
  rw [hrow] at hi
  exact ⟨i, by simp [resolve, hread, hi]⟩

/-- A term is true on a row if its comparison is true of the cell in its column. -/
theorem holds_eq (h : HasOnly r.headers column)
    (hcolumn : Text.lower x.column = Text.lower column) (hread : Term.split? text = some x) :
    holds r.headers r.values text = .ok (compare (r.cell column) x.operator x.value) := by
  obtain ⟨i, hi, hcell⟩ := exists_columnIndex? h hcolumn
  simp only [holds, resolve, hread, hi, Except.map, hcell]

end Condition

end Tabula
