import Tabula.Proofs.Condition.Group
import Tabula.Proofs.Condition.Term

/-!
# Clauses that compare columns with texts

A clause compares a column with a text, or is a conjunction of such comparisons in parentheses. A
condition is read from the bare text of the clause, in which nothing tells the characters of a value
from those of the clause: a closing parenthesis ends a group, and the word OR joins the groups,
wherever they stand. A clause without these in its values is true of the rows of which all its
comparisons are true (`Clause.evaluate_eq`).
-/

namespace Tabula

namespace Term

/-- Words that compare a column, written in any letter case, with a text in quotes. -/
inductive Stated (x : Term) : List String → Prop
  | mk {word : String} {c : Comparison} : IsWord word.toList →
      Text.lower word = Text.lower x.column → x.operator = c.symbol →
      Stated x [word, x.operator, "'" ++ x.value ++ "'"]

/-- The column is the word OR, or the word stands between blanks in the value. -/
def MentionsOr (x : Term) : Prop :=
  Text.lower x.column = "or" ∨ Condition.mentionsOr x.value.toList = true

instance (x : Term) : Decidable x.MentionsOr := inferInstanceAs (Decidable (_ ∨ _))

def isTrueOn (x : Term) (r : Row) : Bool := compare (r.cell x.column) x.operator x.value

end Term

/-- Groups of words, each in parentheses, joined by AND. -/
def conjoined : List (List String) → List String
  | [] => []
  | [ws] => "(" :: ws ++ [")"]
  | ws :: wss => "(" :: ws ++ ")" :: "AND" :: conjoined wss

/-- The words of a clause that compares columns with texts. A single comparison has no group in its
value. In a conjunction no value has a closing parenthesis, and it does not mention the word OR. -/
inductive Clause : List Term → List String → Prop
  | single {x : Term} {ws : List String} :
      x.Stated ws → Condition.groups none x.value.toList = [] → Clause [x] ws
  | conjunction {xs : List Term} {wss : List (List String)} :
      xs ≠ [] → List.Forall₂ Term.Stated xs wss → (∀ x ∈ xs, ')' ∉ x.value.toList) →
      (1 < xs.length → ∀ x ∈ xs, ¬ x.MentionsOr) → Clause xs (conjoined wss)

namespace Term.Stated

variable {x : Term} {ws : List String} {r : Row}

/-! ### One comparison -/

theorem ne_nil (h : x.Stated ws) : ws ≠ [] := by
  cases h
  simp

/-- The words are written as a term is that differs in the letter case of its column at most. -/
theorem exists_spelling (h : x.Stated ws) : ∃ word c, IsWord word.toList ∧
    Text.lower word = Text.lower x.column ∧ x.operator = Comparison.symbol c ∧
    (" ".intercalate ws).toList = ({ x with column := word } : Term).spelling := by
  cases h with
  | @mk word c hword hcolumn hoperator =>
    refine ⟨word, c, hword, hcolumn, hoperator, ?_⟩
    simp [spelling, quoted, String.intercalate_cons_cons]

theorem split?_eq (h : x.Stated ws) : ∃ word, Text.lower word = Text.lower x.column ∧
    split? (" ".intercalate ws) = some { x with column := word } := by
  obtain ⟨word, c, hword, hcolumn, hoperator, hspelling⟩ := h.exists_spelling
  refine ⟨word, hcolumn, ?_⟩
  rw [← split?_spelling (x := { x with column := word }) hword hoperator, ← hspelling,
    String.ofList_toList]

theorem holds_eq (h : x.Stated ws) (hcolumn : Condition.HasOnly r.headers x.column) :
    Condition.holds r.headers r.values (" ".intercalate ws) = .ok (x.isTrueOn r) := by
  obtain ⟨word, hword, hread⟩ := h.split?_eq
  exact Condition.holds_eq (x := { x with column := word }) hcolumn hword hread

theorem exists_resolve {header : List String} (h : x.Stated ws)
    (hcolumn : Condition.HasOnly header x.column) :
    ∃ y, Condition.resolve header (" ".intercalate ws) = .ok y := by
  obtain ⟨word, hword, hread⟩ := h.split?_eq
  obtain ⟨i, hresolve⟩ :=
    Condition.exists_resolve (x := { x with column := word }) hcolumn hword hread
  exact ⟨_, hresolve⟩

end Term.Stated

/-! ### The characters of one comparison -/

/-- What stands in front of the value of a comparison. -/
def Comparison.front (c : Comparison) (word : List Char) : List Char :=
  word ++ ' ' :: (c.symbol.toList ++ [' '])

section Front

variable {word : List Char} (hword : IsWord word)

include hword

theorem lower_eq_or (hupper : word.flatMap Text.upperChar = ['O', 'R']) :
    word.flatMap Text.lowerChar = ['o', 'r'] := by
  have hmap : word.flatMap Text.upperChar = word.map Char.toUpper := by
    rw [← List.flatMap_pure_eq_map]
    refine List.flatMap_congr fun c hc => ?_
    have hsingle := forall_isWordTail (p := fun c => Text.upperChar c == [c.toUpper]) (by decide)
      (hword.isWordTail hc)
    exact beq_iff_eq.1 hsingle
  rw [hmap] at hupper
  obtain ⟨o, rest, rfl, ho, hrest⟩ := List.map_eq_cons_iff.1 hupper
  obtain ⟨r, rest, rfl, hr, hrest⟩ := List.map_eq_cons_iff.1 hrest
  obtain rfl := List.map_eq_nil_iff.1 hrest
  have hlowerO := forall_isWordTail
    (p := fun c => c.toUpper != 'O' || Text.lowerChar c == ['o']) (by decide)
    (hword.isWordTail (c := o) (by simp))
  have hlowerR := forall_isWordTail
    (p := fun c => c.toUpper != 'R' || Text.lowerChar c == ['r']) (by decide)
    (hword.isWordTail (c := r) (by simp))
  simp only [ho, hr, bne_self_eq_false, Bool.false_or, beq_iff_eq] at hlowerO hlowerR
  simp [hlowerO, hlowerR]

theorem not_mem_front (c : Comparison) {d : Char} (hd : d = '(' ∨ d = ')') : d ∉ c.front word := by
  have hnot : d ∉ word := by
    intro hmem
    have := hword.isWordTail hmem
    rcases hd with rfl | rfl <;> exact absurd this (by decide)
  have hsymbol : d ∉ c.symbol.toList := by
    rcases hd with rfl | rfl <;> cases c <;> decide
  have hblank : d ≠ ' ' := by
    rcases hd with rfl | rfl <;> decide
  simp [Comparison.front, hnot, hsymbol, hblank]

/-- The word OR stands in front of a value only if it is the column. -/
theorem mentionsOr_front (c : Comparison) (hor : word.flatMap Text.lowerChar ≠ ['o', 'r']) :
    Condition.mentionsOr (' ' :: c.front word) = false := by
  have hcolumn : Condition.mentionsOr (' ' :: (word ++ [' '])) = false := by
    rw [Bool.eq_false_iff]
    intro h
    have hblank : ' ' ∉ word.flatMap Text.upperChar := by
      intro hblank
      obtain ⟨d, hd, hblank⟩ := List.mem_flatMap.1 hblank
      have hnot := forall_isWordTail (p := fun d => !(Text.upperChar d).contains ' ') (by decide)
        (hword.isWordTail hd)
      simp [hblank] at hnot
    have hcut : Text.occurs (' ' :: (['O', 'R'] ++ [' ']))
        (' ' :: (word.flatMap Text.upperChar ++ [' '])) = true := by
      simpa [Condition.mentionsOr, Text.upperChar] using h
    exact hor (lower_eq_or hword (Text.eq_of_occurs_padded hblank hcut))
  -- the first character of the operator is not in the word, nor is it in what is left of it
  obtain ⟨o, os, hsymbol, hupper, hnot, hrest⟩ : ∃ o os, c.symbol.toList = o :: os ∧
      Text.upperChar o = [o] ∧ o ∉ " OR ".toList ∧
      Condition.mentionsOr (os ++ [' ']) = false := by
    cases c with
    | equal => exact ⟨'=', ['='], by decide, by decide, by decide, by decide⟩
    | notEqual => exact ⟨'!', ['='], by decide, by decide, by decide, by decide⟩
    | greaterEqual => exact ⟨'>', ['='], by decide, by decide, by decide, by decide⟩
    | lessEqual => exact ⟨'<', ['='], by decide, by decide, by decide, by decide⟩
    | greater => exact ⟨'>', [], by decide, by decide, by decide, by decide⟩
    | less => exact ⟨'<', [], by decide, by decide, by decide, by decide⟩
    | like => exact ⟨'L', ['I', 'K', 'E'], by decide, by decide, by decide, by decide⟩
  have hcut : ' ' :: c.front word = (' ' :: (word ++ [' '])) ++ o :: (os ++ [' ']) := by
    simp [Comparison.front, hsymbol]
  rw [hcut, Condition.mentionsOr_append_cons hupper hnot, hcolumn, hrest]
  rfl

end Front

namespace Term.Stated

variable {x : Term} {ws : List String}

/-- The words have nothing but their value in quotes where a group or the word OR may stand. -/
theorem exists_front (h : x.Stated ws) : ∃ front,
    (" ".intercalate ws).toList = front ++ quoted x.value.toList ∧ '(' ∉ front ∧ ')' ∉ front ∧
    Stops Text.isBlank front ∧ front ≠ [] ∧
    (Text.lower x.column ≠ "or" → Condition.mentionsOr (' ' :: front) = false) := by
  cases h with
  | @mk word c hword hcolumn hoperator =>
    refine ⟨c.front word.toList, ?_, not_mem_front hword c (.inl rfl),
      not_mem_front hword c (.inr rfl), hword.stops_isBlank _, by simp [Comparison.front],
      fun hor => ?_⟩
    · simp [hoperator, Comparison.front, quoted, String.intercalate_cons_cons]
    · refine mentionsOr_front hword c fun hlower => hor ?_
      rw [← hcolumn, Text.lower, hlower]

theorem groups_eq_nil (h : x.Stated ws) (hvalue : Condition.groups none x.value.toList = []) :
    Condition.groups none (" ".intercalate ws).toList = [] := by
  obtain ⟨front, htext, hopen, -⟩ := h.exists_front
  rw [htext, Condition.groups_append hopen]
  exact Condition.groups_concat hvalue (by decide)

theorem not_mem_close (h : x.Stated ws) (hvalue : ')' ∉ x.value.toList) :
    ')' ∉ (" ".intercalate ws).toList := by
  obtain ⟨front, htext, -, hclose, -⟩ := h.exists_front
  simp [htext, hclose, quoted, hvalue]

/-- The blanks around the words are trimmed, and no more. -/
theorem trim_padded (h : x.Stated ws) :
    Text.trim (' ' :: ((" ".intercalate ws).toList ++ [' '])) = (" ".intercalate ws).toList := by
  obtain ⟨front, htext, -, -, hstops, hne, -⟩ := h.exists_front
  refine Text.trim_padded ?_ ?_
  · rw [htext]
    obtain ⟨d, front, rfl⟩ := List.exists_cons_of_ne_nil hne
    exact hstops
  · rw [htext]
    intro d hd
    obtain rfl : '\'' = d := by simpa [quoted] using hd
    decide

theorem strip_ne_empty (h : x.Stated ws) {s : String}
    (hs : ∀ c ∈ (" ".intercalate ws).toList, c ∈ s.toList) : Text.strip s ≠ "" := by
  obtain ⟨front, htext, -⟩ := h.exists_front
  exact Text.strip_ne_empty (c := '\'') (hs _ (by simp [htext, quoted])) (by decide)

end Term.Stated

/-! ### The characters of a conjunction -/

/-- Between the parentheses stand the words of one comparison; what follows begins with a blank and
AND, or is nothing. -/
theorem toList_conjoined {ws : List String} (hws : ws ≠ []) (wss : List (List String)) :
    ∃ link, (" ".intercalate (conjoined (ws :: wss))).toList =
        '(' :: ((' ' :: ((" ".intercalate ws).toList ++ [' '])) ++
          ')' :: (link ++ (" ".intercalate (conjoined wss)).toList)) ∧
      '(' ∉ link ∧ Condition.mentionsOr link = false := by
  have hgroup : (" ".intercalate ("(" :: ws ++ [")"])).toList =
      '(' :: ((' ' :: ((" ".intercalate ws).toList ++ [' '])) ++ [')']) := by
    rw [String.intercalate_append_of_ne_nil (by simp) (by simp), ← List.singleton_append,
      String.intercalate_append_of_ne_nil (by simp) hws]
    simp
  cases wss with
  | nil =>
    refine ⟨[], ?_, by simp, by decide⟩
    have hone : conjoined [ws] = "(" :: ws ++ [")"] := rfl
    rw [hone, hgroup]
    simp [conjoined]
  | cons us wss =>
    refine ⟨" AND ".toList, ?_, by decide, by decide⟩
    have hsplit : conjoined (ws :: us :: wss) =
        ("(" :: ws ++ [")"]) ++ ("AND" :: conjoined (us :: wss)) := by
      simp [conjoined]
    have hne : conjoined (us :: wss) ≠ [] := by
      cases wss <;> simp [conjoined]
    rw [hsplit, String.intercalate_append_of_ne_nil (by simp) (by simp), String.toList_append,
      String.toList_append, hgroup, ← List.singleton_append (l := conjoined (us :: wss)),
      String.intercalate_append_of_ne_nil (by simp) hne]
    simp

/-- The groups are the comparisons. -/
theorem groups_conjoined {xs : List Term} {wss : List (List String)}
    (h : List.Forall₂ Term.Stated xs wss) (hclose : ∀ x ∈ xs, ')' ∉ x.value.toList) :
    (Condition.groups none (" ".intercalate (conjoined wss)).toList).map
        (fun g => String.ofList (Text.trim g)) =
      wss.map fun ws => " ".intercalate ws := by
  induction h with
  | nil => rfl
  | @cons x ws xs wss hx _ ih =>
    obtain ⟨link, htext, hlink, -⟩ := toList_conjoined hx.ne_nil wss
    have hinside : ')' ∉ ' ' :: ((" ".intercalate ws).toList ++ [' ']) := by
      simpa using hx.not_mem_close (hclose x (by simp))
    rw [htext, Condition.groups_paren hinside (by simp), Condition.groups_append hlink,
      List.map_cons, List.map_cons, hx.trim_padded, String.ofList_toList,
      ih fun y hy => hclose y (List.mem_cons_of_mem x hy)]

theorem strip_conjoined_ne_empty {xs : List Term} {wss : List (List String)} (hne : xs ≠ [])
    (h : List.Forall₂ Term.Stated xs wss) : Text.strip (" ".intercalate (conjoined wss)) ≠ "" := by
  cases h with
  | nil => exact absurd rfl hne
  | @cons x ws xs wss hx _ =>
    obtain ⟨link, htext, -⟩ := toList_conjoined hx.ne_nil wss
    refine hx.strip_ne_empty fun c hc => ?_
    rw [htext]
    simp only [List.mem_cons, List.mem_append]
    exact .inr (.inl (.inr (.inl hc)))

/-- The word OR is in a conjunction only where a column or a value has it. -/
theorem mentionsOr_conjoined {xs : List Term} {wss : List (List String)}
    (h : List.Forall₂ Term.Stated xs wss) (hor : ∀ x ∈ xs, ¬ x.MentionsOr) {front : List Char}
    (hfront : Condition.mentionsOr front = false) :
    Condition.mentionsOr (front ++ (" ".intercalate (conjoined wss)).toList) = false := by
  induction h generalizing front with
  | nil => simpa [conjoined] using hfront
  | @cons x ws xs wss hx _ ih =>
    obtain ⟨hcolumn, hvalue⟩ := not_or.1 (hor x (by simp))
    obtain ⟨link, htext, -, hlink⟩ := toList_conjoined hx.ne_nil wss
    obtain ⟨before, hwords, -, -, -, -, hbefore⟩ := hx.exists_front
    have hrest := ih (fun y hy => hor y (List.mem_cons_of_mem x hy)) hlink
    -- the quotes and the parentheses part what is in front of the value, the value and the rest
    have hcut : front ++ (" ".intercalate (conjoined (ws :: wss))).toList =
        front ++ '(' :: (' ' :: before ++ '\'' :: (x.value.toList ++ '\'' :: ([' '] ++
          ')' :: (link ++ (" ".intercalate (conjoined wss)).toList)))) := by
      simp [htext, hwords, Term.quoted]
    rw [hcut]
    rw [Condition.mentionsOr_append_cons (d := '(') (by decide) (by decide),
      Condition.mentionsOr_append_cons (d := '\'') (by decide) (by decide),
      Condition.mentionsOr_append_cons (d := '\'') (by decide) (by decide),
      Condition.mentionsOr_append_cons (d := ')') (by decide) (by decide), hfront, hbefore hcolumn,
      hrest]
    simp only [Bool.not_eq_true] at hvalue
    rw [hvalue]
    decide

/-! ### The truth of a clause -/

namespace Clause

variable {xs : List Term} {ws : List String} {r : Row}

/-- What a clause is read as: a term, or terms of which all are to be true. It makes no difference
if a single term is read as terms of which some is to be true. -/
theorem read_cases (h : Clause xs ws) :
    (∃ x, xs = [x] ∧ x.Stated ws ∧
      Condition.read (some (" ".intercalate ws)) = .single (" ".intercalate ws)) ∨
    ∃ wss, List.Forall₂ Term.Stated xs wss ∧
      (Condition.read (some (" ".intercalate ws)) = .allOf (wss.map fun ws => " ".intercalate ws) ∨
        xs.length = 1 ∧ Condition.read (some (" ".intercalate ws)) =
          .anyOf (wss.map fun ws => " ".intercalate ws)) := by
  cases h with
  | @single x ws hx hvalue =>
    exact .inl ⟨x, rfl, hx, Condition.readText_of_groups_eq_nil
      (hx.strip_ne_empty fun _ hc => hc) (hx.groups_eq_nil hvalue)⟩
  | @conjunction xs wss hne hstated hclose hor =>
    refine .inr ⟨wss, hstated, ?_⟩
    have hgroups := groups_conjoined hstated hclose
    have hlength := hstated.length_eq
    have hpos := List.length_pos_iff.2 hne
    have hread := Condition.readText_of_groups_ne_nil (strip_conjoined_ne_empty hne hstated) hgroups
      (by rw [ne_eq, List.map_eq_nil_iff, ← List.length_eq_zero_iff]; omega)
    by_cases hmany : 1 < xs.length
    · left
      have hall : Condition.mentionsOr ([] ++ (" ".intercalate (conjoined wss)).toList) = false :=
        mentionsOr_conjoined hstated (hor hmany) (by decide)
      rw [List.nil_append] at hall
      rw [Condition.read, hread, hall]
      rfl
    · rw [Condition.read, hread]
      split
      · exact .inr ⟨by omega, rfl⟩
      · exact .inl rfl

theorem forall₂_holds {wss : List (List String)} (h : List.Forall₂ Term.Stated xs wss)
    (hcolumns : ∀ x ∈ xs, Condition.HasOnly r.headers x.column) :
    List.Forall₂ (fun text truth => Condition.holds r.headers r.values text = .ok truth)
      (wss.map fun ws => " ".intercalate ws) (xs.map fun x => x.isTrueOn r) := by
  induction h with
  | nil => exact .nil
  | cons hx _ ih =>
    exact .cons (hx.holds_eq (hcolumns _ (by simp)))
      (ih fun y hy => hcolumns y (List.mem_cons_of_mem _ hy))

/-- A clause is true of a row if all its comparisons are, and nothing is noted. -/
theorem evaluate_eq (h : Clause xs ws) (hcolumns : ∀ x ∈ xs, Condition.HasOnly r.headers x.column)
    (noted : List ConditionError) :
    (Condition.read (some (" ".intercalate ws))).evaluate r.headers r.values noted =
      .ok (xs.all fun x => x.isTrueOn r, noted) := by
  rcases h.read_cases with ⟨x, rfl, hx, hread⟩ | ⟨wss, hstated, hread | ⟨hone, hread⟩⟩
  · rw [hread, Condition.evaluate, hx.holds_eq (hcolumns x (by simp))]
    simp [Except.map]
  · rw [hread, Condition.evaluate, Condition.allHold_eq (forall₂_holds hstated hcolumns),
      List.all_map]
    rfl
  · obtain ⟨x, rfl⟩ := List.length_eq_one_iff.1 hone
    rw [hread, Condition.evaluate, Condition.someHolds_eq (forall₂_holds hstated hcolumns)]
    simp

/-- A clause can be asked of every table that has its columns. -/
theorem validate_eq {header : List String} (h : Clause xs ws)
    (hcolumns : ∀ x ∈ xs, Condition.HasOnly header x.column) :
    (Condition.read (some (" ".intercalate ws))).validate header = .ok () := by
  rcases h.read_cases with ⟨x, rfl, hx, hread⟩ | ⟨wss, -, hread | ⟨-, hread⟩⟩
  · obtain ⟨y, hresolve⟩ := hx.exists_resolve (hcolumns x (by simp))
    rw [hread, Condition.validate, hresolve]
    rfl
  · rw [hread]
    rfl
  · rw [hread]
    rfl

end Clause

end Tabula
