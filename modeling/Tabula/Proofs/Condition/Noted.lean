import Tabula.Proofs.Condition.Fold

/-!
# Faults that are noted

The groups of a condition are looked at in order, and no further than to the first that decides: a
true one if they are joined by OR, one that is not true otherwise (`Condition.Reached`). The faults
that are noted on a row are those of the groups that are reached on it, so a fault behind a group
that decides on every row is noted nowhere (`Condition.mem_of_evaluateAll_groups`).
-/

namespace Tabula.Condition

variable {header row : List String} {rows : List (List String)} {text : String} {truth : Bool}
  {selected : List Bool} {noted noted' : List ConditionError} {e : ConditionError}

namespace Grows

theorem evaluate {c : Condition} (h : c.evaluate header row noted = .ok (truth, noted')) :
    Grows noted noted' := by
  cases c with
  | always =>
    cases h
    exact refl noted
  | single term =>
    rw [Condition.evaluate] at h
    cases hholds : holds header row term with
    | error e =>
      rw [hholds] at h
      cases h
    | ok b =>
      rw [hholds] at h
      cases h
      exact refl _
  | anyOf terms =>
    obtain rfl := congrArg Prod.snd (Except.ok.inj h)
    exact someHolds _ _ _
  | allOf terms =>
    obtain rfl := congrArg Prod.snd (Except.ok.inj h)
    exact allHold _ _ _

theorem evaluateAll {c : Condition}
    (h : c.evaluateAll header noted rows = .ok (selected, noted')) : Grows noted noted' := by
  induction rows generalizing noted selected with
  | nil =>
    cases h
    exact refl _
  | cons row rows ih =>
    rw [Condition.evaluateAll] at h
    obtain ⟨⟨truth, noted₁⟩, hrow, h⟩ := bind_eq_ok_iff.1 h
    obtain ⟨⟨truths, noted₂⟩, hrows, h⟩ := bind_eq_ok_iff.1 h
    cases h
    exact (evaluate hrow).trans (ih hrows)

end Grows

/-- On a row, none of these groups of a condition decides. -/
def Reached (header row : List String) (text : String) (earlier : List (List Char)) : Prop :=
  if Text.occurs " OR ".toList (Text.upper text).toList then
    ∀ g ∈ earlier, ¬ IsTrueTerm header row (String.ofList (Text.trim g))
  else ∀ g ∈ earlier, IsTrueTerm header row (String.ofList (Text.trim g))

/-- A group of a condition is reached on a row, and is at fault. -/
def NotedOn (header row : List String) (text : String) (gs : List (List Char))
    (e : ConditionError) : Prop :=
  ∃ before g after, gs = before ++ g :: after ∧ Reached header row text before ∧
    TermFault header (String.ofList (Text.trim g)) e

theorem reached_iff {earlier : List (List Char)} : Reached header row text earlier ↔
    ∀ g ∈ earlier, counted (holds header row (String.ofList (Text.trim g))) ≠
      mentionsOr text.toList := by
  have hor : Text.occurs " OR ".toList (Text.upper text).toList = mentionsOr text.toList := by
    rw [Text.toList_upper]
    rfl
  rw [Reached, hor]
  cases mentionsOr text.toList <;> simp [← counted_holds_iff]

/-- The faults noted on a row are those of the groups that are reached. -/
theorem mem_of_evaluate_groups (hgroup : HasGroup text.toList)
    (h : (readText text).evaluate header row noted = .ok (truth, noted')) :
    e ∈ noted' ↔ e ∈ noted ∨ NotedOn header row text (groups none text.toList) e := by
  rw [mem_of_evaluate hgroup h, groupTexts, examined_map]
  refine or_congr Iff.rfl ?_
  constructor
  · rintro ⟨t, ht, hfault⟩
    obtain ⟨g, hg, rfl⟩ := List.mem_map.1 ht
    obtain ⟨before, after, hgroups, hbefore⟩ := mem_examined_iff.1 hg
    exact ⟨before, g, after, hgroups, reached_iff.2 hbefore, holds_eq_error_iff.1 hfault⟩
  · rintro ⟨before, g, after, hgroups, hbefore, hfault⟩
    have hg := mem_examined_iff.2 ⟨before, after, hgroups, reached_iff.1 hbefore⟩
    exact ⟨_, List.mem_map_of_mem hg, holds_eq_error_iff.2 hfault⟩

/-- The faults noted on all rows are those of the groups that are reached on some row. -/
theorem mem_of_evaluateAll_groups (hgroup : HasGroup text.toList)
    (h : (readText text).evaluateAll header noted rows = .ok (selected, noted')) :
    e ∈ noted' ↔
      e ∈ noted ∨ ∃ row ∈ rows, NotedOn header row text (groups none text.toList) e := by
  induction rows generalizing noted selected with
  | nil =>
    cases h
    simp
  | cons row rows ih =>
    rw [evaluateAll] at h
    obtain ⟨⟨truth, noted₁⟩, hrow, h⟩ := bind_eq_ok_iff.1 h
    obtain ⟨⟨truths, noted₂⟩, hrows, h⟩ := bind_eq_ok_iff.1 h
    cases h
    rw [ih hrows, mem_of_evaluate_groups hgroup hrow, or_assoc, List.exists_mem_cons_iff]

end Tabula.Condition
