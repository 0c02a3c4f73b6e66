import Tabula.Proofs.Condition.Examined

/-!
# Truth on a row

The faults that have been noted on other rows have no part in whether a condition is true on a row,
nor has the place of the row. So the rows that a statement is about are picked by one function of
the row (`trueOn`), in which a term at fault counts as false.
-/

namespace Tabula.Condition

variable {header row : List String} {noted noted' : List ConditionError}

/-- Whether a condition is true on a row. -/
def trueOn (header row : List String) : Condition → Bool
  | always => true
  | single term => counted (holds header row term)
  | anyOf terms => terms.any fun term => counted (holds header row term)
  | allOf terms => terms.all fun term => counted (holds header row term)

theorem fst_someHolds (judge : String → Except ConditionError Bool) (noted : List ConditionError)
    (terms : List String) :
    (someHolds judge noted terms).1 = terms.any fun term => counted (judge term) := by
  fun_induction someHolds judge noted terms with
  | case1 noted => rfl
  | case2 noted term terms hjudge => simp [counted, hjudge]
  | case3 noted term terms hjudge ih => simpa [counted, hjudge] using ih
  | case4 noted term terms e hjudge ih => simpa [counted, hjudge] using ih

theorem fst_allHold (judge : String → Except ConditionError Bool) (noted : List ConditionError)
    (terms : List String) :
    (allHold judge noted terms).1 = terms.all fun term => counted (judge term) := by
  fun_induction allHold judge noted terms with
  | case1 => rfl
  | case2 term terms hjudge ih => simpa [counted, hjudge] using ih
  | case3 term terms hjudge => simp [counted, hjudge]
  | case4 term terms e hjudge => simp [counted, hjudge]

theorem eq_trueOn_of_evaluate {c : Condition} {truth : Bool}
    (h : c.evaluate header row noted = .ok (truth, noted')) : truth = c.trueOn header row := by
  cases c with
  | always =>
    cases h
    rfl
  | single term =>
    rw [evaluate] at h
    cases hterm : holds header row term with
    | error e =>
      rw [hterm] at h
      cases h
    | ok b =>
      rw [hterm] at h
      cases h
      simp [trueOn, hterm, counted]
  | anyOf terms =>
    have hfirst := congrArg Prod.fst (Except.ok.inj h)
    rw [fst_someHolds] at hfirst
    exact hfirst.symm
  | allOf terms =>
    have hfirst := congrArg Prod.fst (Except.ok.inj h)
    rw [fst_allHold] at hfirst
    exact hfirst.symm

/-- Each row is picked or not for itself. -/
theorem eq_map_trueOn_of_evaluateAll {c : Condition} {rows : List (List String)}
    {selected : List Bool} (h : c.evaluateAll header noted rows = .ok (selected, noted')) :
    selected = rows.map fun row => c.trueOn header row := by
  induction rows generalizing noted selected with
  | nil =>
    cases h
    rfl
  | cons row rows ih =>
    rw [evaluateAll] at h
    obtain ⟨⟨truth, noted₁⟩, hrow, h⟩ := bind_eq_ok_iff.1 h
    obtain ⟨⟨rest, noted₂⟩, hrest, h⟩ := bind_eq_ok_iff.1 h
    cases h
    rw [List.map_cons, eq_trueOn_of_evaluate hrow, ih hrest]

end Tabula.Condition
