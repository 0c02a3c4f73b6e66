import Tabula.Proofs.Condition.Spelled

/-!
# Terms described directly

The search for a term tries one cut after another, but the cut that it ends with can be said without
the search (`Term.split?_described`). Blanks are never given back, since nothing that comes next
begins with one, but for the last of a text of blanks, which is then the value. Of the longest
name at the start, something is given back only if no operator fits behind it, and then for LIKE,
as all other operators begin with a character that no name has.

## Main definitions

* `Term.Fits` — an operator stands at the start of a text with something behind it.
* `Term.LongestName` — the longest name that a text begins with.
* `Term.ColumnEnds` — the column is all of this name, or what stands in front of a LIKE in it.
* `Term.Described` — the term that a text is.
-/

namespace Tabula

namespace Term

variable {α : Type} {p : Char → Bool} {k : List Char → List Char → Option α}
  {s w behind column rest operator value after : List Char} {c : Comparison} {a : α}

/-! ### The first success -/

/-- The first success is the one after the most characters. -/
theorem afterMost_eq_some_iff : afterMost p k s = some a ↔
    ∃ taken rest, s = taken ++ rest ∧ (∀ c ∈ taken, p c = true) ∧ k taken rest = some a ∧
      ∀ more rest', rest = more ++ rest' → more ≠ [] → (∀ c ∈ more, p c = true) →
        k (taken ++ more) rest' = none := by
  induction s generalizing k with
  | nil => simp [afterMost]
  | cons c s ih =>
    -- no cut behind the first character succeeds exactly if the search there does not
    have hnone : (afterMost p (fun taken rest => k (c :: taken) rest) s = none) ↔
        ∀ more rest', s = more ++ rest' → (∀ c ∈ more, p c = true) →
          k (c :: more) rest' = none := by
      rw [← Option.not_isSome_iff_eq_none, afterMost_isSome_iff]
      simp only [not_exists, not_and, Option.not_isSome_iff_eq_none]
    cases hc : p c with
    | false =>
      simp only [afterMost, hc, Bool.false_eq_true, if_false]
      constructor
      · intro h
        refine ⟨[], c :: s, rfl, by simp, h, fun more rest' hmore hne hall => ?_⟩
        obtain ⟨d, more, rfl⟩ := List.exists_cons_of_ne_nil hne
        obtain rfl := (List.cons.inj hmore).1
        simp [hc] at hall
      · rintro ⟨taken, rest, hs, hall, hk, -⟩
        cases taken with
        | nil => exact hs ▸ hk
        | cons d taken =>
          obtain rfl := (List.cons.inj hs).1
          simp [hc] at hall
    | true =>
      simp only [afterMost, hc, if_true, Option.orElse_eq_orElse, Option.orElse_eq_or,
        Option.or_eq_some_iff, ih, hnone]
      constructor
      · rintro (⟨taken, rest, rfl, hall, hk, hmost⟩ | ⟨hnone, hk⟩)
        · exact ⟨c :: taken, rest, rfl, List.forall_mem_cons.2 ⟨hc, hall⟩, hk, hmost⟩
        · refine ⟨[], c :: s, rfl, by simp, hk, fun more rest' hmore hne hall => ?_⟩
          obtain ⟨d, more, rfl⟩ := List.exists_cons_of_ne_nil hne
          obtain ⟨rfl, rfl⟩ := List.cons.inj hmore
          exact hnone more rest' rfl fun e he => hall e (List.mem_cons_of_mem _ he)
      · rintro ⟨taken, rest, hs, hall, hk, hmost⟩
        cases taken with
        | nil =>
          rw [List.nil_append] at hs
          subst hs
          refine .inr ⟨fun more rest' hs hmore => ?_, hk⟩
          exact hmost (c :: more) rest' (by rw [hs]; rfl) (List.cons_ne_nil c more)
            (List.forall_mem_cons.2 ⟨hc, hmore⟩)
        | cons d taken =>
          obtain ⟨rfl, rfl⟩ := List.cons.inj hs
          exact .inl ⟨taken, rest, rfl, (List.forall_mem_cons.1 hall).2, hk, hmost⟩

/-- If there is no success in front of a character that can be taken, all of them are taken. -/
theorem afterMost_of_stops
    (hk : ∀ taken c rest, p c = true → k taken (c :: rest) = none) :
    afterMost p k s = k (s.takeWhile p) (s.dropWhile p) := by
  induction s generalizing k with
  | nil => rfl
  | cons c s ih =>
    cases hc : p c with
    | false => simp [afterMost, hc]
    | true =>
      simp only [afterMost, hc, if_true, hk [] c s hc, List.takeWhile_cons_of_pos,
        List.dropWhile_cons_of_pos]
      rw [ih fun taken d rest hd => hk (c :: taken) d rest hd]
      simp

/-! ### Values -/

/-- The value in a text: the text without the blanks around it, or the last of nothing but
blanks. -/
def valueIn (s : List Char) : List Char :=
  if s.all Text.isBlank then s.getLast?.toList else Text.trim s

/-- All that is not empty leaves a value. -/
theorem value?_eq_ite (s : List Char) : value? s = if s = [] then none else some (valueIn s) := by
  rcases Text.allBlank_or_exists_trimmed s with hblank |
    ⟨before, core, after, rfl, hbefore, hafter, hne, hcore⟩
  · rcases List.eq_nil_or_concat' s with rfl | ⟨front, c, rfl⟩
    · rfl
    -- the last blank is given back, and none before it
    have hall : (front ++ [c]).all Text.isBlank = true := List.all_eq_true.2 hblank
    rw [if_neg (by simp), valueIn, if_pos hall, List.getLast?_concat]
    refine afterMost_eq_some_iff.2 ⟨front, [c], rfl, fun d hd => hblank d (by simp [hd]), rfl, ?_⟩
    intro more rest hcut hmore _
    obtain ⟨d, more, rfl⟩ := List.exists_cons_of_ne_nil hmore
    obtain rfl : rest = [] := (List.append_eq_nil_iff.1 (List.cons.inj hcut).2.symm).2
    rfl
  · have hall : (before ++ core ++ after).all Text.isBlank = false := by
      rw [Bool.eq_false_iff, ne_eq, List.all_eq_true]
      exact hcore.not_allBlank hne
    rw [if_neg (by simp [hne]), valueIn, hall, if_neg Bool.false_ne_true,
      hcore.trim_padded hne hbefore hafter]
    obtain ⟨front, c, rfl⟩ : ∃ front c, core = front ++ [c] :=
      ⟨_, _, (List.dropLast_concat_getLast hne).symm⟩
    have hshortest := shortestValue?_append_blanks front (hcore.back c (by simp)) hafter
    rw [List.append_cons] at hshortest
    rw [value?, List.append_assoc, afterMost_append hbefore (stops_append hne hcore.front after)
      (by rw [hshortest]; rfl), hshortest]

/-- A text without one pair of quotes around it, if it has one. -/
def Unquotes (s value : List Char) : Prop := s = quoted value ∨ value = s ∧ ∀ t, s ≠ quoted t

theorem exists_quoted_iff :
    (2 ≤ s.length ∧ s.head? = some '\'' ∧ s.getLast? = some '\'') ↔ ∃ t, s = quoted t := by
  constructor
  · rintro ⟨hlength, hfirst, hlast⟩
    obtain ⟨tail, rfl⟩ := List.head?_eq_some_iff.1 hfirst
    have hne : tail ≠ [] := by
      rintro rfl
      simp at hlength
    rw [List.getLast?_cons_of_ne_nil hne] at hlast
    obtain ⟨t, rfl⟩ := List.getLast?_eq_some_iff.1 hlast
    exact ⟨t, rfl⟩
  · rintro ⟨t, rfl⟩
    exact ⟨by simp [quoted], rfl, List.getLast?_concat ..⟩

theorem unquotes_iff : Unquotes s value ↔ value = unquote s := by
  by_cases hquoted : ∃ t, s = quoted t
  · obtain ⟨t, rfl⟩ := hquoted
    rw [unquote_quoted]
    constructor
    · rintro (heq | ⟨-, hnot⟩)
      · rw [← unquote_quoted t, heq, unquote_quoted]
      · exact absurd rfl (hnot t)
    · rintro rfl
      exact .inl rfl
  · rw [unquote, if_neg (mt exists_quoted_iff.1 hquoted)]
    exact ⟨fun h => h.elim (fun heq => absurd ⟨_, heq⟩ hquoted) And.left,
      fun h => .inr ⟨h, not_exists.1 hquoted⟩⟩

/-! ### Operators -/

/-- How an operator is written: as its symbol, and in any letter case if it is LIKE. -/
def Spells (c : Comparison) (operator : List Char) : Prop :=
  operator = c.symbol.toList ∨ c = .like ∧ operator.map Text.foldChar = ['l', 'i', 'k', 'e']

/-- An operator stands at the start of a text, and something follows it. -/
structure Fits (c : Comparison) (s operator rest : List Char) : Prop where
  text : s = operator ++ rest
  spells : Spells c operator
  ne_nil : rest ≠ []

/-- Whether an operator fits a text at all. -/
def CanFit (c : Comparison) (s : List Char) : Prop := ∃ operator rest, Fits c s operator rest

/-- The first operator that fits, in the order in which they are tried. -/
def FirstFits (s operator rest : List Char) : Prop :=
  ∃ earlier c later, Comparison.all = earlier ++ c :: later ∧ Fits c s operator rest ∧
    ∀ d ∈ earlier, ¬ CanFit d s

theorem isWritten_iff_spells : isWritten c.symbol.toList operator = true ↔ Spells c operator := by
  have hlike : Comparison.like.symbol.toList.map Text.foldChar = ['l', 'i', 'k', 'e'] := by decide
  rw [isWritten, decide_eq_true_iff, Spells]
  constructor
  · intro h
    rcases isWritten_cases (c := c) (by simpa [isWritten] using h) with ⟨-, hsymbol⟩ | ⟨rfl, -, -⟩
    · exact .inl hsymbol
    · exact .inr ⟨rfl, h.trans hlike⟩
  · rintro (rfl | ⟨rfl, h⟩)
    · rfl
    · exact h.trans hlike.symm

theorem Spells.length_eq (h : Spells c operator) : operator.length = c.symbol.toList.length := by
  rcases h with rfl | ⟨rfl, h⟩
  · rfl
  · have hlength := congrArg List.length h
    rw [List.length_map] at hlength
    exact hlength.trans (by decide)

/-- What is read if one operator is tried. -/
def withOperator? (c : Comparison) (s : List Char) : Option (List Char × List Char) :=
  let symbol := c.symbol.toList
  if isWritten symbol (s.take symbol.length) then
    (value? (s.drop symbol.length)).map fun value => (s.take symbol.length, value)
  else none

theorem operatorAndValue?_eq (s : List Char) :
    operatorAndValue? s = Comparison.all.findSome? fun c => withOperator? c s := rfl

theorem withOperator?_eq_some_iff : withOperator? c s = some (operator, value) ↔
    ∃ rest, Fits c s operator rest ∧ value = valueIn rest := by
  rw [withOperator?, Option.ite_none_right_eq_some, isWritten_iff_spells, value?_eq_ite]
  constructor
  · rintro ⟨hspells, hvalue⟩
    split at hvalue
    · cases hvalue
    · rename_i hne
      cases hvalue
      exact ⟨_, ⟨(List.take_append_drop ..).symm, hspells, hne⟩, rfl⟩
  · rintro ⟨rest, ⟨rfl, hspells, hne⟩, rfl⟩
    rw [← hspells.length_eq, List.take_left, List.drop_left, if_neg hne]
    exact ⟨hspells, rfl⟩

theorem withOperator?_eq_none_iff : withOperator? c s = none ↔ ¬ CanFit c s := by
  rw [Option.eq_none_iff_forall_ne_some, CanFit]
  constructor
  · rintro hnone ⟨operator, rest, h⟩
    exact hnone _ (withOperator?_eq_some_iff.2 ⟨rest, h, rfl⟩)
  · rintro hnot ⟨operator, value⟩ hsome
    obtain ⟨rest, h, -⟩ := withOperator?_eq_some_iff.1 hsome
    exact hnot ⟨operator, rest, h⟩

theorem operatorAndValue?_eq_some_iff : operatorAndValue? s = some (operator, value) ↔
    ∃ rest, FirstFits s operator rest ∧ value = valueIn rest := by
  simp only [operatorAndValue?_eq, List.findSome?_eq_some_iff, withOperator?_eq_some_iff,
    withOperator?_eq_none_iff, FirstFits]
  constructor
  · rintro ⟨earlier, c, later, hall, ⟨rest, hfits, rfl⟩, hnot⟩
    exact ⟨rest, ⟨earlier, c, later, hall, hfits, hnot⟩, rfl⟩
  · rintro ⟨rest, ⟨earlier, c, later, hall, hfits, hnot⟩, rfl⟩
    exact ⟨earlier, c, later, hall, ⟨rest, hfits, rfl⟩, hnot⟩

theorem operatorAndValue?_eq_none_iff : operatorAndValue? s = none ↔ ∀ c, ¬ CanFit c s := by
  simp only [operatorAndValue?_eq, List.findSome?_eq_none_iff, withOperator?_eq_none_iff]
  exact ⟨fun h c => h c (by cases c <;> decide), fun h c _ => h c⟩

/-- No operator begins with a blank. -/
theorem CanFit.stops (h : CanFit c s) : Stops Text.isBlank s := by
  obtain ⟨operator, rest, rfl, hspells, -⟩ := h
  exact stops_operator (isWritten_iff_spells.2 hspells) rest

/-- LIKE is the only operator that begins with a character of a name. -/
theorem CanFit.eq_like {d : Char} (h : CanFit c (d :: s)) (hd : isColumnPart d = true) :
    c = .like := by
  obtain ⟨operator, rest, htext, hspells, -⟩ := h
  rcases hspells with rfl | ⟨rfl, -⟩
  · cases c with
    | like => rfl
    | _ =>
      obtain rfl := (List.cons.inj htext).1
      exact absurd hd (by decide)
  · rfl

/-! ### Columns -/

/-- A name of a column: letters, in any case, digits and underscores, and no digit first. -/
structure IsColumn (w : List Char) : Prop where
  start : ∃ c ∈ w.head?, isColumnStart c = true
  part : ∀ c ∈ w, isColumnPart c = true

/-- The longest name at the start of a text, which is empty if there is none, and what follows. -/
structure LongestName (s w behind : List Char) : Prop where
  text : s = w ++ behind
  isColumn : w ≠ [] → IsColumn w
  longest : ∀ v rest, s = v ++ rest → IsColumn v → v.length ≤ w.length

/-- Where the column ends, if `w` is the longest name and `behind` follows it; then the text that an
operator is read from. -/
inductive ColumnEnds (w behind : List Char) : List Char → List Char → Prop
  /-- An operator fits behind the name and blanks. -/
  | behind : w ≠ [] → (∃ c, CanFit c (Text.trimStart behind)) →
      ColumnEnds w behind w (Text.trimStart behind)
  /-- None fits there, but LIKE does in the name, and not further back. -/
  | inside {column more : List Char} : (∀ c, ¬ CanFit c (Text.trimStart behind)) →
      w = column ++ more → column ≠ [] → more ≠ [] → CanFit .like (more ++ behind) →
      (∀ longer shorter, more = longer ++ shorter → longer ≠ [] → shorter ≠ [] →
        ¬ CanFit .like (shorter ++ behind)) →
      ColumnEnds w behind column (more ++ behind)

/-- The term that is described by the longest name of a text and what follows it. -/
inductive Described (w behind : List Char) : Term → Prop
  | intro {column rest operator after value : List Char} : ColumnEnds w behind column rest →
      FirstFits rest operator after → Unquotes (valueIn after) value →
      Described w behind ⟨String.ofList column, String.ofList operator, String.ofList value⟩

theorem longestName_of_stops (h : Stops isColumnStart s) : LongestName s [] s where
  text := rfl
  isColumn := fun hne => absurd rfl hne
  longest := by
    rintro v rest rfl ⟨⟨c, hc, hstart⟩, -⟩
    have hnot := h c (List.mem_head?_append_of_mem_head? hc)
    rw [hstart] at hnot
    cases hnot

section Cons

variable {d : Char} {tail : List Char}

theorem isColumn_cons (hd : isColumnStart d = true) (htail : ∀ c ∈ tail, isColumnPart c = true) :
    IsColumn (d :: tail) :=
  ⟨⟨d, rfl, hd⟩, List.forall_mem_cons.2 ⟨by simp [isColumnPart, hd], htail⟩⟩

/-- Characters of a name that are taken in front of what is none leave the others. -/
theorem exists_of_append_eq_append {taken : List Char} (h : taken ++ rest = tail ++ behind)
    (htaken : ∀ c ∈ taken, isColumnPart c = true) (hbehind : Stops isColumnPart behind) :
    ∃ more, tail = taken ++ more ∧ rest = more ++ behind := by
  rcases List.append_eq_append_iff.1 h with ⟨more, rfl, rfl⟩ | ⟨further, rfl, hfurther⟩
  · exact ⟨more, rfl, rfl⟩
  · cases further with
    | nil => exact ⟨[], by simp, by simpa using hfurther.symm⟩
    | cons c further =>
      have hnot := hbehind c (by rw [hfurther]; rfl)
      rw [htaken c (by simp)] at hnot
      cases hnot

theorem longestName_cons (hd : isColumnStart d = true)
    (htail : ∀ c ∈ tail, isColumnPart c = true) (hbehind : Stops isColumnPart behind) :
    LongestName (d :: (tail ++ behind)) (d :: tail) behind where
  text := rfl
  isColumn := fun _ => isColumn_cons hd htail
  longest := by
    rintro v rest htext ⟨⟨c, hc, -⟩, hpart⟩
    obtain ⟨v, rfl⟩ := List.head?_eq_some_iff.1 hc
    obtain ⟨rfl, hrest⟩ := List.cons.inj htext
    have hrest : v ++ rest = tail ++ behind := hrest.symm
    obtain ⟨more, rfl, -⟩ := exists_of_append_eq_append hrest (List.forall_mem_cons.1 hpart).2
      hbehind
    simp

end Cons

/-! ### The search and the description -/

/-- The term that is read if the column ends in front of `rest`. -/
def behindColumn? (column rest : List Char) : Option Term :=
  (operatorAndValue? (Text.trimStart rest)).map fun (operator, value) =>
    ⟨String.ofList column, String.ofList operator, String.ofList (unquote value)⟩

theorem behindColumn?_eq_some_iff {x : Term} : behindColumn? column rest = some x ↔
    ∃ operator after value, FirstFits (Text.trimStart rest) operator after ∧
      Unquotes (valueIn after) value ∧
      x = ⟨String.ofList column, String.ofList operator, String.ofList value⟩ := by
  rw [behindColumn?, Option.map_eq_some_iff]
  constructor
  · rintro ⟨⟨operator, value⟩, hread, rfl⟩
    obtain ⟨after, hfirst, rfl⟩ := operatorAndValue?_eq_some_iff.1 hread
    exact ⟨operator, after, _, hfirst, unquotes_iff.2 rfl, rfl⟩
  · rintro ⟨operator, after, value, hfirst, hvalue, rfl⟩
    obtain rfl := unquotes_iff.1 hvalue
    exact ⟨_, operatorAndValue?_eq_some_iff.2 ⟨after, hfirst, rfl⟩, rfl⟩

theorem behindColumn?_eq_none_iff :
    behindColumn? column rest = none ↔ ∀ c, ¬ CanFit c (Text.trimStart rest) := by
  rw [behindColumn?, Option.map_eq_none_iff, operatorAndValue?_eq_none_iff]

theorem split?_eq_fromColumn? (text : String) :
    split? text = fromColumn? (Text.trimStart text.toList) := by
  refine afterMost_of_stops fun _ c rest hc => if_neg ?_
  intro hstart
  have hblank := Token.isBlank_of_isColumnPart (c := c) (by simp [isColumnPart, hstart])
  rw [hc] at hblank
  cases hblank

theorem fromColumn?_of_stops (h : Stops isColumnStart s) : fromColumn? s = none := by
  cases s with
  | nil => rfl
  | cons c s => exact if_neg (by simp [h c rfl])

theorem fromColumn?_cons {d : Char} (hd : isColumnStart d = true) (s : List Char) :
    fromColumn? (d :: s) =
      afterMost isColumnPart (fun column rest => behindColumn? (d :: column) rest) s := by
  have hblanks (f : List Char × List Char → Term) (rest : List Char) :
      afterMost Text.isBlank (fun _ rest => (operatorAndValue? rest).map f) rest =
        (operatorAndValue? (Text.trimStart rest)).map f := by
    refine afterMost_of_stops fun _ c rest hc => ?_
    rw [Option.map_eq_none_iff, operatorAndValue?_eq_none_iff]
    intro operator hfits
    have hblank := hfits.stops c rfl
    rw [hc] at hblank
    cases hblank
  rw [fromColumn?, if_pos hd]
  simp only [hblanks]
  rfl

theorem trimStart_part {more : List Char} (hne : more ≠ [])
    (hmore : ∀ c ∈ more, isColumnPart c = true) (behind : List Char) :
    Text.trimStart (more ++ behind) = more ++ behind :=
  Text.trimStart_of_stops (stops_append hne
    (fun c hc => Token.isBlank_of_isColumnPart (hmore c (List.mem_of_mem_head? hc))) behind)

/-- In a name, an operator fits only if LIKE does. -/
theorem exists_canFit_iff {more : List Char} (hne : more ≠ [])
    (hmore : ∀ c ∈ more, isColumnPart c = true) :
    (∃ c, CanFit c (Text.trimStart (more ++ behind))) ↔ CanFit .like (more ++ behind) := by
  rw [trimStart_part hne hmore]
  refine ⟨?_, fun h => ⟨.like, h⟩⟩
  rintro ⟨c, hfits⟩
  obtain ⟨d, more, rfl⟩ := List.exists_cons_of_ne_nil hne
  exact CanFit.eq_like hfits (hmore d (by simp)) ▸ hfits

theorem FirstFits.exists_canFit (h : FirstFits s operator rest) : ∃ c, CanFit c s := by
  obtain ⟨-, c, -, -, hfits, -⟩ := h
  exact ⟨c, operator, rest, hfits⟩

section Name

variable {d : Char} {tail : List Char} {x : Term} (hd : isColumnStart d = true)
  (htail : ∀ c ∈ tail, isColumnPart c = true) (hbehind : Stops isColumnPart behind)

include hd htail hbehind

theorem fromColumn?_isSome_iff : (fromColumn? (d :: (tail ++ behind))).isSome ↔
    ∃ taken more, tail = taken ++ more ∧ (behindColumn? (d :: taken) (more ++ behind)).isSome := by
  rw [fromColumn?_cons hd, afterMost_isSome_iff]
  constructor
  · rintro ⟨taken, rest, htext, htaken, hread⟩
    obtain ⟨more, rfl, rfl⟩ := exists_of_append_eq_append htext.symm htaken hbehind
    exact ⟨taken, more, rfl, hread⟩
  · rintro ⟨taken, more, rfl, hread⟩
    exact ⟨taken, more ++ behind, by simp, (List.forall_mem_append.1 htail).1, hread⟩

/-- The column is the longest with a success behind it. -/
theorem fromColumn?_eq_some_iff : fromColumn? (d :: (tail ++ behind)) = some x ↔
    ∃ taken more, tail = taken ++ more ∧ behindColumn? (d :: taken) (more ++ behind) = some x ∧
      ∀ longer shorter, more = longer ++ shorter → longer ≠ [] →
        ∀ c, ¬ CanFit c (Text.trimStart (shorter ++ behind)) := by
  rw [fromColumn?_cons hd, afterMost_eq_some_iff]
  simp only [behindColumn?_eq_none_iff]
  constructor
  · rintro ⟨taken, rest, htext, htaken, hread, hmost⟩
    obtain ⟨more, rfl, rfl⟩ := exists_of_append_eq_append htext.symm htaken hbehind
    refine ⟨taken, more, rfl, hread, ?_⟩
    rintro longer shorter rfl hne
    exact hmost longer (shorter ++ behind) (by simp) hne fun c hc => htail c (by simp [hc])
  · rintro ⟨taken, more, rfl, hread, hmost⟩
    obtain ⟨htaken, hmore⟩ := List.forall_mem_append.1 htail
    refine ⟨taken, more ++ behind, by simp, htaken, hread, fun longer rest htext hne hlonger => ?_⟩
    obtain ⟨shorter, rfl, rfl⟩ := exists_of_append_eq_append htext.symm hlonger hbehind
    exact hmost longer shorter rfl hne

theorem fromColumn?_isSome_iff_canFit : (fromColumn? (d :: (tail ++ behind))).isSome ↔
    (∃ c, CanFit c (Text.trimStart behind)) ∨ ∃ column more, d :: tail = column ++ more ∧
      column ≠ [] ∧ more ≠ [] ∧ CanFit .like (more ++ behind) := by
  have hread (column rest : List Char) :
      (behindColumn? column rest).isSome ↔ ∃ c, CanFit c (Text.trimStart rest) := by
    rw [Option.isSome_iff_ne_none, ne_eq, behindColumn?_eq_none_iff]
    simp
  rw [fromColumn?_isSome_iff hd htail hbehind]
  constructor
  · rintro ⟨taken, more, rfl, hsome⟩
    have hfits := (hread _ _).1 hsome
    rcases eq_or_ne more [] with rfl | hne
    · exact .inl hfits
    · have hmore := (List.forall_mem_append.1 htail).2
      exact .inr ⟨d :: taken, more, rfl, nofun, hne, (exists_canFit_iff hne hmore).1 hfits⟩
  · rintro (hfits | ⟨column, more, hcut, hcolumn, hne, hlike⟩)
    · exact ⟨tail, [], by simp, (hread _ _).2 hfits⟩
    · obtain ⟨e, taken, rfl⟩ := List.exists_cons_of_ne_nil hcolumn
      obtain ⟨-, rfl⟩ := List.cons.inj hcut
      have hmore := (List.forall_mem_append.1 htail).2
      exact ⟨taken, more, rfl, (hread _ _).2 ((exists_canFit_iff hne hmore).2 hlike)⟩

theorem fromColumn?_eq_some_iff_described :
    fromColumn? (d :: (tail ++ behind)) = some x ↔ Described (d :: tail) behind x := by
  rw [fromColumn?_eq_some_iff hd htail hbehind]
  constructor
  · rintro ⟨taken, more, rfl, hread, hmost⟩
    have hmore := (List.forall_mem_append.1 htail).2
    obtain ⟨operator, after, value, hfirst, hvalue, rfl⟩ := behindColumn?_eq_some_iff.1 hread
    rcases eq_or_ne more [] with rfl | hne
    · refine .intro ?_ hfirst hvalue
      simpa using ColumnEnds.behind (List.cons_ne_nil d taken) hfirst.exists_canFit
    · have hlike := (exists_canFit_iff hne hmore).1 hfirst.exists_canFit
      rw [trimStart_part hne hmore] at hfirst
      refine .intro (.inside ?_ rfl (List.cons_ne_nil d taken) hne hlike ?_) hfirst hvalue
      · exact hmost more [] (by simp) hne
      · rintro longer shorter rfl hlonger hshorter hfits
        have hpart : ∀ c ∈ shorter, isColumnPart c = true := fun c hc => hmore c (by simp [hc])
        obtain ⟨c, hfits⟩ := (exists_canFit_iff hshorter hpart).2 hfits
        exact hmost longer shorter rfl hlonger c hfits
  · rintro ⟨hends, hfirst, hvalue⟩
    cases hends with
    | behind _ _ =>
      refine ⟨tail, [], by simp, ?_, fun longer shorter hcut hlonger => ?_⟩
      · exact behindColumn?_eq_some_iff.2 ⟨_, _, _, hfirst, hvalue, rfl⟩
      · exact absurd (List.append_eq_nil_iff.1 hcut.symm).1 hlonger
    | @inside column more hnone hcut hcolumn hne _ hfurther =>
      obtain ⟨e, taken, rfl⟩ := List.exists_cons_of_ne_nil hcolumn
      obtain ⟨rfl, rfl⟩ := List.cons.inj hcut
      have hmore := (List.forall_mem_append.1 htail).2
      refine ⟨taken, more, rfl, ?_, ?_⟩
      · rw [← trimStart_part hne hmore] at hfirst
        exact behindColumn?_eq_some_iff.2 ⟨_, _, _, hfirst, hvalue, rfl⟩
      · rintro longer shorter rfl hlonger c hfits
        rcases eq_or_ne shorter [] with rfl | hshorter
        · exact hnone c hfits
        · have hpart : ∀ c ∈ shorter, isColumnPart c = true := fun c hc => hmore c (by simp [hc])
          exact hfurther longer shorter rfl hlonger hshorter
            ((exists_canFit_iff hshorter hpart).1 ⟨c, hfits⟩)

end Name

/-- A text that begins with no name is no term. -/
theorem not_described_nil (behind : List Char) (x : Term) : ¬ Described [] behind x := by
  rintro ⟨hends, -, -⟩
  cases hends with
  | behind hne _ => exact hne rfl
  | inside _ hcut hcolumn => exact hcolumn (List.append_eq_nil_iff.1 hcut.symm).1

/-- A text is a term if it begins with a name, behind blanks, and an operator fits behind the name
and further blanks, or LIKE fits right behind a part of the name. The term is then the one that is
described: its column is the name, or the longest such part if no operator fits behind the name, its
operator is the first that fits, and its value is the rest without the blanks around it, or the last
of nothing but blanks, and without a pair of quotes. -/
theorem split?_described (text : String) :
    ∃ w behind, LongestName (Text.trimStart text.toList) w behind ∧
      ((split? text).isSome ↔ w ≠ [] ∧
        ((∃ c, CanFit c (Text.trimStart behind)) ∨ ∃ column more, w = column ++ more ∧
          column ≠ [] ∧ more ≠ [] ∧ CanFit .like (more ++ behind))) ∧
      ∀ x, split? text = some x ↔ Described w behind x := by
  rw [split?_eq_fromColumn?]
  by_cases hstop : Stops isColumnStart (Text.trimStart text.toList)
  · refine ⟨[], _, longestName_of_stops hstop, ?_⟩
    rw [fromColumn?_of_stops hstop]
    simp [not_described_nil]
  · obtain ⟨d, hhead, hd⟩ : ∃ d ∈ (Text.trimStart text.toList).head?, isColumnStart d = true := by
      simpa [Stops] using hstop
    obtain ⟨s, hs⟩ := List.head?_eq_some_iff.1 hhead
    have htail : ∀ c ∈ s.takeWhile isColumnPart, isColumnPart c = true :=
      List.all_eq_true.1 List.all_takeWhile
    have hbehind := stops_dropWhile isColumnPart s
    rw [hs, ← List.takeWhile_append_dropWhile (p := isColumnPart) (l := s)]
    refine ⟨_, _, longestName_cons hd htail hbehind, ?_, fun x => ?_⟩
    · rw [fromColumn?_isSome_iff_canFit hd htail hbehind]
      exact ⟨fun h => ⟨List.cons_ne_nil _ _, h⟩, And.right⟩
    · exact fromColumn?_eq_some_iff_described hd htail hbehind

/-- An operator gives way to a value, and a name to an operator. -/
example : split? "a >=" = some ⟨"a", ">", "="⟩ ∧ split? "nameLIKEx" = some ⟨"name", "LIKE", "x"⟩ ∧
    split? "a ==  " = some ⟨"a", "==", " "⟩ ∧ split? "likelike" = none := by decide +kernel

end Term

end Tabula
