import Mathlib.Data.List.Forall2
import Mathlib.Data.List.TakeWhile
import Tabula.Condition
import Tabula.Proofs.Outcome
import Tabula.Proofs.Token.Rule

/-!
# Groups of a condition

A group is what stands between an opening parenthesis and the next closing one. What stands before
the first opening parenthesis is in no group (`Condition.groups_append`), and a group ends at the
first closing one, whatever else is in it (`Condition.groups_paren`).
-/

namespace Tabula

namespace Text

/-! ### Blanks -/

theorem strip_ne_empty {s : String} {c : Char} (hc : c ∈ s.toList) (hblank : isBlank c = false) :
    strip s ≠ "" := by
  intro hempty
  have htrim : trim s.toList = [] := by
    rw [← toList_strip, hempty]
    rfl
  have hstart : trimStart s.toList = [] := by
    by_contra hne
    have hlast : ∀ d ∈ (trimStart s.toList).reverse, isBlank d = true := by
      rw [← List.dropWhile_eq_nil_iff]
      exact List.reverse_eq_nil_iff.1 htrim
    have hhead : isBlank ((trimStart s.toList).head hne) = false :=
      List.head_dropWhile_not isBlank (l := s.toList) hne
    rw [hlast _ (List.mem_reverse.2 (List.head_mem hne))] at hhead
    cases hhead
  have hall := List.dropWhile_eq_nil_iff.1 hstart c hc
  rw [hblank] at hall
  cases hall

/-- A text that begins and ends with no blank is left when the blanks around it are trimmed. -/
theorem trim_padded {s : List Char} (hstart : Stops isBlank s) (hend : Stops isBlank s.reverse) :
    trim (' ' :: (s ++ [' '])) = s := by
  have hdrop : ∀ {l : List Char}, Stops isBlank l → l.dropWhile isBlank = l := by
    intro l hl
    cases l with
    | nil => rfl
    | cons c l => exact List.dropWhile_cons_of_neg (by simp [hl c rfl])
  cases s with
  | nil => decide
  | cons c s =>
    have hc : isBlank c = false := hstart c rfl
    have hblank : isBlank ' ' = true := by decide
    rw [trim, trimStart, List.dropWhile_cons_of_pos hblank, List.cons_append,
      List.dropWhile_cons_of_neg (by simp [hc]), trimEnd, ← List.cons_append, List.reverse_append]
    rw [List.reverse_singleton, List.singleton_append, List.dropWhile_cons_of_pos hblank,
      hdrop hend, List.reverse_reverse]

/-! ### Words -/

/-- A word does not reach over a character that is not in it. -/
theorem occurs_append_cons {word : List Char} (hword : word ≠ []) {c : Char} (hc : c ∉ word)
    (s t : List Char) : occurs word (s ++ c :: t) = (occurs word s || occurs word t) := by
  rw [Bool.eq_iff_iff, Bool.or_eq_true, occurs_iff, occurs_iff, occurs_iff]
  constructor
  · rintro ⟨before, after, h⟩
    rw [List.append_assoc, List.append_eq_append_iff] at h
    rcases h with ⟨middle, rfl, h⟩ | ⟨middle, rfl, h⟩
    · right
      cases middle with
      | nil =>
        cases word with
        | nil => exact absurd rfl hword
        | cons d word =>
          obtain ⟨rfl, -⟩ := List.cons.inj h
          simp at hc
      | cons d middle =>
        obtain ⟨-, rfl⟩ := List.cons.inj h
        exact ⟨middle, after, by simp⟩
    · left
      rw [List.append_eq_append_iff] at h
      rcases h with ⟨rest, rfl, -⟩ | ⟨rest, rfl, h⟩
      · exact ⟨before, rest, by simp⟩
      · cases rest with
        | nil => exact ⟨before, [], by simp⟩
        | cons d rest =>
          obtain ⟨rfl, -⟩ := List.cons.inj h
          simp at hc
  · rintro (⟨before, after, rfl⟩ | ⟨before, after, rfl⟩)
    · exact ⟨before, after ++ c :: t, by simp⟩
    · exact ⟨s ++ c :: before, after, by simp⟩

/-- Between two blanks and with no other around, a word is the whole. -/
theorem eq_of_occurs_padded {word s : List Char} (hs : ' ' ∉ s)
    (h : occurs (' ' :: (word ++ [' '])) (' ' :: (s ++ [' '])) = true) : s = word := by
  obtain ⟨before, after, h⟩ := (occurs_iff ..).1 h
  cases before with
  | nil =>
    have hcut : s ++ ' ' :: [] = word ++ ' ' :: after := by simpa using h
    exact ((List.append_cons_inj_of_notMem hs (by simp)).1 hcut).1
  | cons d before =>
    -- there are two blanks in the word, and one behind the first
    obtain ⟨rfl, h⟩ := List.cons.inj h
    have hcount := congrArg (List.count ' ') h
    simp only [List.count_append, List.count_cons, List.count_eq_zero_of_not_mem hs] at hcount
    simp at hcount
    omega

end Text

namespace Condition

/-! ### Groups -/

theorem groups_append {front : List Char} (h : '(' ∉ front) (s : List Char) :
    groups none (front ++ s) = groups none s := by
  induction front with
  | nil => rfl
  | cons c front ih =>
    simp only [List.mem_cons, not_or] at h
    rw [List.cons_append, groups, if_neg (Ne.symm h.1)]
    exact ih h.2

/-- Without a closing parenthesis at the end there is no group that has not been there. -/
theorem groups_concat {inside : Option (List Char)} {s : List Char} (h : groups inside s = [])
    {c : Char} (hc : c ≠ ')') : groups inside (s ++ [c]) = [] := by
  fun_induction groups inside s with
  | case1 inside =>
    cases inside with
    | none => simp [groups]
    | some read => simp [groups, hc]
  | case2 c s ih => simpa [groups] using ih h
  | case3 c s read hclose ih => simpa [groups, hclose] using ih h
  | case4 c s read hclose hempty ih => simpa [groups, hclose, hempty] using ih h
  | case5 => cases h

theorem groups_some {s : List Char} (hs : ')' ∉ s) {read : List Char} (hne : read ≠ [] ∨ s ≠ [])
    (rest : List Char) :
    groups (some read) (s ++ ')' :: rest) = (read.reverse ++ s) :: groups none rest := by
  induction s generalizing read with
  | nil =>
    have hread : read.isEmpty = false := by simpa using hne
    simp [groups, hread]
  | cons c s ih =>
    simp only [List.mem_cons, not_or] at hs
    rw [List.cons_append, groups]
    simp only [ne_eq, Ne.symm hs.1, not_false_eq_true, if_true]
    rw [ih hs.2 (.inl (by simp))]
    simp

/-- A group ends at the first closing parenthesis. -/
theorem groups_paren {s : List Char} (hs : ')' ∉ s) (hne : s ≠ []) (rest : List Char) :
    groups none ('(' :: (s ++ ')' :: rest)) = s :: groups none rest := by
  rw [groups, if_pos rfl]
  exact groups_some hs (.inr hne) rest

/-! ### The word OR -/

/-- Whether the word OR stands between blanks in a text, in any letter case. -/
def mentionsOr (s : List Char) : Bool := Text.occurs " OR ".toList (s.flatMap Text.upperChar)

/-- The word does not reach over a character that is neither a blank nor one of its letters. -/
theorem mentionsOr_append_cons {c d : Char} (hc : Text.upperChar c = [d]) (hd : d ∉ " OR ".toList)
    (s t : List Char) : mentionsOr (s ++ c :: t) = (mentionsOr s || mentionsOr t) := by
  unfold mentionsOr
  rw [List.flatMap_append, List.flatMap_cons, hc, List.singleton_append]
  exact Text.occurs_append_cons (by decide) hd _ _

/-! ### Reading -/

variable {text : String} (hstrip : Text.strip text ≠ "")

include hstrip

theorem readText_of_groups_eq_nil (h : groups none text.toList = []) :
    readText text = single text := by
  rw [readText, if_neg hstrip, h]
  rfl

theorem readText_of_groups_ne_nil {terms : List String}
    (h : (groups none text.toList).map (fun g => String.ofList (Text.trim g)) = terms)
    (hne : terms ≠ []) :
    readText text = if mentionsOr text.toList then anyOf terms else allOf terms := by
  obtain ⟨t, terms, rfl⟩ := List.exists_cons_of_ne_nil hne
  rw [readText, if_neg hstrip, h]
  dsimp only
  rw [Text.toList_upper]
  rfl

omit hstrip

/-! ### Truth -/

variable {judge : String → Except ConditionError Bool} {noted : List ConditionError}

/-- If no term is at fault, all are true or not, and nothing is noted. -/
theorem allHold_eq {terms : List String} {truths : List Bool}
    (h : List.Forall₂ (fun t truth => judge t = .ok truth) terms truths) :
    allHold judge noted terms = (truths.all id, noted) := by
  induction h with
  | nil => rfl
  | @cons t truth terms truths hjudge _ ih =>
    rw [allHold, hjudge, List.all_cons]
    cases truth with
    | true => exact ih
    | false => rfl

theorem someHolds_eq {terms : List String} {truths : List Bool}
    (h : List.Forall₂ (fun t truth => judge t = .ok truth) terms truths) :
    someHolds judge noted terms = (truths.any id, noted) := by
  induction h with
  | nil => rfl
  | @cons t truth terms truths hjudge _ ih =>
    rw [someHolds, hjudge, List.any_cons]
    cases truth with
    | true => rfl
    | false => exact ih

/-- A condition that is at fault on no row has a truth value on each. -/
theorem evaluateAll_eq {c : Condition} {header : List String} {rows : List (List String)}
    {truths : List Bool}
    (h : List.Forall₂ (fun row truth => c.evaluate header row noted = .ok (truth, noted))
      rows truths) :
    c.evaluateAll header noted rows = .ok (truths, noted) := by
  induction h with
  | nil => rfl
  | cons hrow _ ih =>
    rw [evaluateAll, hrow, ok_bind]
    dsimp only
    rw [ih]
    rfl

end Condition

end Tabula
