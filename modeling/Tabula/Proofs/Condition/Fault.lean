import Tabula.Proofs.Condition.Group

/-!
# Faults of a condition

A condition can be at fault only if it is a single term: if its text is not blank and has no group
(`Condition.HasGroup`). The fault is then one of the text and the header, and not of a row
(`Condition.Faulty`): it is found when the condition is validated (`validate_eq_error_iff`) and
again on each row on which it is evaluated (`evaluate_eq_error_iff`), and by neither otherwise.
-/

namespace Tabula.Condition

/-! ### Texts with a group -/

/-- A text has an opening parenthesis and a later closing one, with characters between them of which
none is a closing one. -/
def HasGroup (s : List Char) : Prop :=
  ∃ before inner after, s = before ++ '(' :: (inner ++ ')' :: after) ∧ inner ≠ [] ∧ ')' ∉ inner

theorem groups_ne_nil_of_paren {inner : List Char} (hne : inner ≠ []) (hclose : ')' ∉ inner)
    (before after : List Char) (inside : Option (List Char)) :
    groups inside (before ++ '(' :: (inner ++ ')' :: after)) ≠ [] := by
  induction before generalizing inside with
  | nil =>
    cases inside with
    | none => simp [groups_paren hclose hne]
    | some read => simp [groups, groups_some hclose (.inr hne)]
  | cons c before ih =>
    cases inside with
    | none => exact ih _
    | some read =>
      rw [List.cons_append, groups]
      split
      · exact ih _
      · split
        · exact ih _
        · exact List.cons_ne_nil _ _

/-- If groups are found, one is in the text, or the one that has been begun is closed in it. -/
theorem hasGroup_of_groups_ne_nil {inside : Option (List Char)} {s : List Char}
    (h : groups inside s ≠ []) :
    HasGroup s ∨ ∃ read ∈ inside, ∃ inner after, s = inner ++ ')' :: after ∧
      (read ≠ [] ∨ inner ≠ []) ∧ ')' ∉ inner := by
  -- a group that is found behind a character is behind it in the whole text too
  have hcons : ∀ {c s}, HasGroup s → HasGroup (c :: s) := by
    rintro c s ⟨before, inner, after, rfl, hinner⟩
    exact ⟨c :: before, inner, after, rfl, hinner⟩
  fun_induction groups inside s with
  | case1 => exact absurd rfl h
  | case2 c s ih =>
    left
    rcases ih h with hgroup | ⟨read, hread, inner, after, rfl, hinner, hclose⟩
    · exact hcons hgroup
    · by_cases hc : c = '('
      · subst hc
        obtain rfl : [] = read := by simpa using hread
        exact ⟨[], inner, after, rfl, by simpa using hinner, hclose⟩
      · simp [hc] at hread
  | case3 c s read hc ih =>
    rcases ih h with hgroup | ⟨read', hread', inner, after, rfl, -, hclose⟩
    · exact .inl (hcons hgroup)
    · refine .inr ⟨read, rfl, c :: inner, after, rfl, .inr (by simp), ?_⟩
      simpa [eq_comm] using ⟨hc, hclose⟩
  | case4 c s read hc hempty ih =>
    rcases ih h with hgroup | ⟨read', hread', -⟩
    · exact .inl (hcons hgroup)
    · simp at hread'
  | case5 c s read hc hempty ih =>
    obtain rfl : c = ')' := by simpa using hc
    exact .inr ⟨read, rfl, [], s, rfl, .inl (by simpa using hempty), by simp⟩

/-- All groups are passed over only if there is none. -/
theorem groups_eq_nil_iff {s : List Char} : groups none s = [] ↔ ¬ HasGroup s := by
  constructor
  · rintro h ⟨before, inner, after, rfl, hne, hclose⟩
    exact groups_ne_nil_of_paren hne hclose before after none h
  · intro h
    by_contra hne
    rcases hasGroup_of_groups_ne_nil hne with hgroup | ⟨read, hread, -⟩
    · exact h hgroup
    · cases hread

theorem map_groups_ne_nil {α : Type} (f : List Char → α) {s : List Char} (h : HasGroup s) :
    (groups none s).map f ≠ [] := by
  intro hnil
  exact groups_eq_nil_iff.1 (List.map_eq_nil_iff.1 hnil) h

/-- Where there is a group there are parentheses. -/
theorem hasParenthesis_of_hasGroup {text : String} (h : HasGroup text.toList) :
    hasParenthesis text = true := by
  obtain ⟨before, inner, after, htext, -⟩ := h
  simp [hasParenthesis, htext]

/-! ### The two ways a text is looked at

Validation looks for one group, evaluation for all of them, and each first looks for a parenthesis
at all. They agree on which texts have no group and are single terms. -/

variable {text : String} {header row : List String} {noted : List ConditionError}
  {condition : Option String} {e : ConditionError}

instance (s : List Char) : Decidable (HasGroup s) :=
  decidable_of_iff (groups none s ≠ []) (by rw [ne_eq, groups_eq_nil_iff, not_not])

theorem validate_readText (header : List String) (text : String) :
    (readText text).validate header =
      if Text.strip text = "" then .ok ()
      else if hasParenthesis text = true ∧ HasGroup text.toList then .ok ()
      else (resolve header text).map fun _ => () := by
  by_cases hstrip : Text.strip text = ""
  · rw [readText, if_pos hstrip, if_pos hstrip]
    rfl
  · rw [if_neg hstrip]
    by_cases hgroup : HasGroup text.toList
    · rw [if_pos ⟨hasParenthesis_of_hasGroup hgroup, hgroup⟩]
      have hne := map_groups_ne_nil (fun g => String.ofList (Text.trim g)) hgroup
      rw [readText_of_groups_ne_nil hstrip rfl hne]
      split <;> rfl
    · have hnil := groups_eq_nil_iff.2 hgroup
      rw [if_neg fun h => hgroup h.2, readText_of_groups_eq_nil hstrip hnil]
      rfl

theorem evaluate_readText (header row : List String) (noted : List ConditionError) (text : String) :
    (readText text).evaluate header row noted =
      if Text.strip text = "" then .ok (true, noted)
      else if hasParenthesis text = false then
        (holds header row text).map fun truth => (truth, noted)
      else
        let terms := (groups none text.toList).map fun g => String.ofList (Text.trim g)
        if terms = [] then (holds header row text).map fun truth => (truth, noted)
        else if mentionsOr text.toList then .ok (someHolds (holds header row) noted terms)
        else .ok (allHold (holds header row) noted terms) := by
  by_cases hstrip : Text.strip text = ""
  · rw [readText, if_pos hstrip, if_pos hstrip]
    rfl
  · rw [if_neg hstrip]
    by_cases hgroup : HasGroup text.toList
    · rw [if_neg (by simp [hasParenthesis_of_hasGroup hgroup])]
      have hne := map_groups_ne_nil (fun g => String.ofList (Text.trim g)) hgroup
      dsimp only
      rw [readText_of_groups_ne_nil hstrip rfl hne, if_neg hne]
      split <;> rfl
    · have hnil := groups_eq_nil_iff.2 hgroup
      rw [readText_of_groups_eq_nil hstrip hnil, hnil]
      split <;> rfl

/-! ### Faults -/

theorem columnIndex?_eq_none_iff {column : String} :
    columnIndex? column header = none ↔ ∀ name ∈ header, Text.lower name ≠ Text.lower column := by
  simp [columnIndex?]

/-- What is wrong with a text as a term of a header. -/
inductive TermFault (header : List String) (text : String) : ConditionError → Prop
  | malformed : Term.split? text = none → TermFault header text (.malformed (Text.strip text))
  | columnNotFound {x : Term} : Term.split? text = some x →
      (∀ name ∈ header, Text.lower name ≠ Text.lower x.column) →
      TermFault header text (.columnNotFound x.column)

theorem resolve_eq_error_iff_termFault :
    resolve header text = .error e ↔ TermFault header text e := by
  constructor
  · intro h
    unfold resolve at h
    split at h
    · cases h
      exact .malformed ‹_›
    · rename_i x hx
      split at h
      · cases h
        exact .columnNotFound hx (columnIndex?_eq_none_iff.1 ‹_›)
      · cases h
  · intro h
    cases h with
    | malformed hsplit => simp [resolve, hsplit]
    | columnNotFound hsplit hcolumn => simp [resolve, hsplit, columnIndex?_eq_none_iff.2 hcolumn]

/-- The fault of a condition under a header. -/
inductive Faulty (header : List String) : Option String → ConditionError → Prop
  | malformed {text : String} : Text.strip text ≠ "" → ¬ HasGroup text.toList →
      Term.split? text = none → Faulty header (some text) (.malformed (Text.strip text))
  | columnNotFound {text : String} {x : Term} : Text.strip text ≠ "" → ¬ HasGroup text.toList →
      Term.split? text = some x → (∀ name ∈ header, Text.lower name ≠ Text.lower x.column) →
      Faulty header (some text) (.columnNotFound x.column)

/-- A text that is not blank and has no group is at fault where it is no term of the header. -/
theorem resolve_eq_error_iff (hstrip : Text.strip text ≠ "") (hgroup : ¬ HasGroup text.toList) :
    resolve header text = .error e ↔ Faulty header (some text) e := by
  rw [resolve_eq_error_iff_termFault]
  constructor
  · rintro (hsplit | ⟨hsplit, hcolumn⟩)
    · exact .malformed hstrip hgroup hsplit
    · exact .columnNotFound hstrip hgroup hsplit hcolumn
  · rintro (⟨-, -, hsplit⟩ | ⟨-, -, hsplit, hcolumn⟩)
    · exact .malformed hsplit
    · exact .columnNotFound hsplit hcolumn

/-- A text that is blank or has a group is not at fault. -/
theorem not_faulty_of (h : Text.strip text = "" ∨ HasGroup text.toList) :
    ¬ Faulty header (some text) e := by
  intro hfaulty
  cases hfaulty <;> simp_all

theorem map_eq_error_iff {α β : Type} {f : α → β} {x : Except ConditionError α} :
    x.map f = .error e ↔ x = .error e := by
  cases x <;> simp [Except.map]

theorem holds_eq_error_iff : holds header row text = .error e ↔ TermFault header text e := by
  rw [holds, map_eq_error_iff, resolve_eq_error_iff_termFault]

/-- Validation finds the fault. -/
theorem validate_eq_error_iff :
    (read condition).validate header = .error e ↔ Faulty header condition e := by
  cases condition with
  | none => exact ⟨nofun, nofun⟩
  | some text =>
    rw [read, validate_readText]
    by_cases hstrip : Text.strip text = ""
    · simp [hstrip, not_faulty_of (.inl hstrip)]
    · rw [if_neg hstrip]
      by_cases hgroup : HasGroup text.toList
      · simp [hasParenthesis_of_hasGroup hgroup, hgroup, not_faulty_of (.inr hgroup)]
      · rw [if_neg (fun h => hgroup h.2), map_eq_error_iff]
        exact resolve_eq_error_iff hstrip hgroup

/-- Evaluation finds it on every row, whatever has been noted. -/
theorem evaluate_eq_error_iff :
    (read condition).evaluate header row noted = .error e ↔ Faulty header condition e := by
  cases condition with
  | none => exact ⟨nofun, nofun⟩
  | some text =>
    rw [read, evaluate_readText]
    by_cases hstrip : Text.strip text = ""
    · simp [hstrip, not_faulty_of (.inl hstrip)]
    · rw [if_neg hstrip]
      by_cases hgroup : HasGroup text.toList
      · have hne := mt groups_eq_nil_iff.1 (not_not_intro hgroup)
        rw [if_neg (by simp [hasParenthesis_of_hasGroup hgroup])]
        simp only [List.map_eq_nil_iff, if_neg hne, not_faulty_of (.inr hgroup)]
        split <;> simp
      · simp only [groups_eq_nil_iff.2 hgroup, List.map_nil, if_true, ite_self]
        rw [map_eq_error_iff, holds, map_eq_error_iff]
        exact resolve_eq_error_iff hstrip hgroup

end Tabula.Condition
