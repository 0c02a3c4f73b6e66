/-!
# Searching a text
-/

namespace Tabula.Text

/-- Whether a word stands somewhere in a text. -/
def occurs (word : List Char) : List Char → Bool
  | [] => word.isEmpty
  | c :: s => word.isPrefixOf (c :: s) || occurs word s

theorem occurs_iff (word s : List Char) :
    occurs word s = true ↔ ∃ before after, s = before ++ word ++ after := by
  induction s with
  | nil => simp [occurs]
  | cons c s ih =>
    simp only [occurs, Bool.or_eq_true, List.isPrefixOf_iff_prefix, ih]
    constructor
    · rintro (⟨t, h⟩ | ⟨before, after, rfl⟩)
      · exact ⟨[], t, by simpa using h.symm⟩
      · exact ⟨c :: before, after, by simp⟩
    · rintro ⟨before, after, h⟩
      cases before with
      | nil => exact .inl ⟨after, by simpa using h.symm⟩
      | cons b before =>
        simp only [List.cons_append, List.cons.injEq] at h
        exact .inr ⟨before, after, h.2⟩

end Tabula.Text
