import Mathlib.Data.List.Nodup
import Tabula.Proofs.Condition.Truth

/-!
# Conditions as folds of their groups

A text is scanned for groups from its start: where one begins it is taken, and the scan goes on
behind it (`Condition.Found`). A condition with groups has a truth value on every row, which is the
disjunction or the conjunction of the truths of its groups and has nothing to do with what has been
noted before (`Condition.evaluate_groups`). What is noted is only ever added to.

A term in parentheses is true where it is true on its own; a fault of it is noted then, and it is
false.
-/

namespace Tabula

namespace Condition

/-! ### Scanning for groups -/

/-- A group begins at the start of a text. -/
def Opens (s : List Char) : Prop :=
  ∃ inner after, s = '(' :: (inner ++ ')' :: after) ∧ inner ≠ [] ∧ ')' ∉ inner

/-- The groups that a scan of a text finds, in order. -/
inductive Found : List Char → List (List Char) → Prop
  | nil : Found [] []
  | skip {c : Char} {s : List Char} {gs : List (List Char)} :
      ¬ Opens (c :: s) → Found s gs → Found (c :: s) gs
  | group {inner after : List Char} {gs : List (List Char)} :
      inner ≠ [] → ')' ∉ inner → Found after gs →
      Found ('(' :: (inner ++ ')' :: after)) (inner :: gs)

theorem groups_some_of_not_mem {s : List Char} (h : ')' ∉ s) (read : List Char) :
    groups (some read) s = [] := by
  induction s generalizing read with
  | nil => rfl
  | cons c s ih => grind [groups]

/-- A parenthesis that opens no group is passed over like any other character. -/
theorem groups_cons_of_not_opens {c : Char} {s : List Char} (h : ¬ Opens (c :: s)) :
    groups none (c :: s) = groups none s := by
  by_cases hc : c = '('
  · subst hc
    by_cases hclose : ')' ∈ s
    · obtain ⟨inner, after, rfl, hinner⟩ := List.eq_append_cons_of_mem hclose
      -- the next closing parenthesis follows at once, or else it would end a group
      obtain rfl : inner = [] := by
        by_contra hne
        exact h ⟨inner, after, rfl, hne, hinner⟩
      simp [groups]
    · have hnone : ¬ HasGroup s := by
        rintro ⟨before, inner, after, rfl, -, -⟩
        simp at hclose
      rw [groups, if_pos rfl, groups_some_of_not_mem hclose, groups_eq_nil_iff.2 hnone]
  · rw [groups, if_neg hc]

/-- The groups that are read are those that the scan finds. -/
theorem found_iff {s : List Char} {gs : List (List Char)} : Found s gs ↔ groups none s = gs := by
  constructor
  · intro h
    induction h with
    | nil => rfl
    | skip hopens _ ih => rw [groups_cons_of_not_opens hopens, ih]
    | group hne hclose _ ih => rw [groups_paren hclose hne, ih]
  · rintro rfl
    induction hlength : s.length using Nat.strong_induction_on generalizing s with
    | _ n ih =>
      cases s with
      | nil => exact .nil
      | cons c s =>
        by_cases hopens : Opens (c :: s)
        · obtain ⟨inner, after, hs, hne, hclose⟩ := hopens
          rw [hs] at hlength ⊢
          rw [groups_paren hclose hne]
          refine .group hne hclose (ih _ ?_ rfl)
          rw [← hlength]
          simp
          omega
        · rw [groups_cons_of_not_opens hopens]
          exact .skip hopens (ih _ (by simp [← hlength]) rfl)

/-! ### Truth of a group -/

section

variable {header row : List String} {text column : String} {i : Nat}

/-- The place of the first column of this name in a header, letter case ignored. -/
def IsPlaceOf (header : List String) (column : String) (i : Nat) : Prop :=
  ∃ h : i < header.length, Text.lower header[i] = Text.lower column ∧
    ∀ j, ∀ hj : j < i, Text.lower header[j] ≠ Text.lower column

/-- A text is a term on a column of the header, and its comparison is true of the cell there. A cell
that the row lacks is empty. -/
def IsTrueTerm (header row : List String) (text : String) : Prop :=
  ∃ x i, Term.split? text = some x ∧ IsPlaceOf header x.column i ∧
    compare (row.getD i "") x.operator x.value = true

theorem columnIndex?_eq_some_iff : columnIndex? column header = some i ↔
    IsPlaceOf header column i := by
  simp [columnIndex?, List.findIdx?_eq_some_iff_getElem, IsPlaceOf]

/-- What is at fault is no true term. -/
theorem counted_holds_iff : counted (holds header row text) = true ↔
    IsTrueTerm header row text := by
  unfold holds resolve IsTrueTerm
  cases hsplit : Term.split? text with
  | none => simp [counted, Except.map]
  | some x =>
    cases hcolumn : columnIndex? x.column header with
    | none =>
      have hnone : ∀ i, ¬ IsPlaceOf header x.column i := by
        intro i hi
        rw [columnIndex?_eq_some_iff.2 hi] at hcolumn
        cases hcolumn
      simp [hcolumn, hnone, counted, Except.map]
    | some i =>
      have hplace : ∀ j, IsPlaceOf header x.column j ↔ i = j := by
        intro j
        rw [← columnIndex?_eq_some_iff, hcolumn, Option.some.injEq]
      simp [hcolumn, hplace, counted, Except.map]

end

/-! ### What is noted -/

end Condition

theorem ConditionError.message_injective : Function.Injective ConditionError.message := by
  have hcolumn : ∀ c, message (columnNotFound c) = "Condition attribute not found: " ++ c :=
    fun _ => rfl
  have hterm : ∀ t, message (malformed t) = "Invalid condition format: " ++ t := fun _ => rfl
  -- the two kinds of message differ in their first letters
  have hne : ∀ c t, message (columnNotFound c) ≠ message (malformed t) := by
    intro c t h
    have hhead := congrArg (·.toList.head?) h
    simp [hcolumn, hterm] at hhead
  intro e e' h
  cases e <;> cases e'
  · rw [hcolumn, hcolumn, String.append_right_inj] at h
    rw [h]
  · exact absurd h (hne _ _)
  · exact absurd h.symm (hne _ _)
  · rw [hterm, hterm, String.append_right_inj] at h
    rw [h]

namespace Condition

/-- Faults have been added behind those that were noted, none with the message of another. -/
structure Grows (noted noted' : List ConditionError) : Prop where
  noted_prefix : noted <+: noted'
  nodup_messages : (noted.map ConditionError.message).Nodup →
    (noted'.map ConditionError.message).Nodup

namespace Grows

variable {noted noted₁ noted₂ : List ConditionError}

theorem refl (noted : List ConditionError) : Grows noted noted := ⟨List.prefix_refl _, id⟩

theorem trans (h : Grows noted noted₁) (h' : Grows noted₁ noted₂) : Grows noted noted₂ :=
  ⟨h.noted_prefix.trans h'.noted_prefix, h'.nodup_messages ∘ h.nodup_messages⟩

theorem note (noted : List ConditionError) (e : ConditionError) :
    Grows noted (Condition.note noted e) where
  noted_prefix := by
    unfold Condition.note
    split
    · exact List.prefix_refl _
    · exact List.prefix_append _ _
  nodup_messages h :=
    (nodup_note (List.Nodup.of_map _ h) e).map ConditionError.message_injective

theorem someHolds (judge : String → Except ConditionError Bool) (noted : List ConditionError)
    (terms : List String) : Grows noted (Condition.someHolds judge noted terms).2 := by
  fun_induction Condition.someHolds judge noted terms with
  | case1 noted => exact refl noted
  | case2 noted => exact refl noted
  | case3 _ _ _ _ ih => exact ih
  | case4 noted _ _ e _ ih => exact (note noted e).trans ih

theorem allHold (judge : String → Except ConditionError Bool) (noted : List ConditionError)
    (terms : List String) : Grows noted (Condition.allHold judge noted terms).2 := by
  fun_induction Condition.allHold judge noted terms with
  | case1 => exact refl noted
  | case2 _ _ _ ih => exact ih
  | case3 => exact refl noted
  | case4 _ _ e => exact note noted e

end Grows

/-! ### Terms in parentheses -/

/-- A text in parentheses. -/
def grouped (text : String) : String := "(" ++ text ++ ")"

section

variable {text : String}

theorem readText_of_not_hasParenthesis (hne : text ≠ "") (hstrip : Text.strip text = text)
    (hparen : hasParenthesis text = false) : readText text = single text := by
  have hopen : '(' ∉ text.toList := by
    intro hmem
    simp [hasParenthesis, List.any_eq_false] at hparen
    exact (hparen _ hmem).1 rfl
  have hgroups := groups_append hopen []
  rw [List.append_nil] at hgroups
  exact readText_of_groups_eq_nil (hstrip.symm ▸ hne) hgroups

/-- There is one group, and so it does not matter how groups are joined. -/
theorem readText_grouped (hne : text ≠ "") (hstrip : Text.strip text = text)
    (hparen : hasParenthesis text = false) :
    readText (grouped text) = anyOf [text] ∨ readText (grouped text) = allOf [text] := by
  have hclose : ')' ∉ text.toList := by
    intro hmem
    simp [hasParenthesis, List.any_eq_false] at hparen
    exact (hparen _ hmem).2 rfl
  have hinner : text.toList ≠ [] := by simpa using hne
  have htext : (grouped text).toList = '(' :: (text.toList ++ ')' :: []) := by simp [grouped]
  have hgroups : (groups none (grouped text).toList).map
      (fun g => String.ofList (Text.trim g)) = [text] := by
    rw [htext, groups_paren hclose hinner]
    exact congrArg (fun s => [s]) hstrip
  have hstrip' : Text.strip (grouped text) ≠ "" :=
    Text.strip_ne_empty (c := '(') (by simp [htext]) (by decide)
  rw [readText_of_groups_ne_nil hstrip' hgroups (by simp)]
  split
  · exact .inl rfl
  · exact .inr rfl

variable {header row : List String}

theorem evaluate_grouped_of_ok (hne : text ≠ "") (hstrip : Text.strip text = text)
    (hparen : hasParenthesis text = false) {truth : Bool}
    (h : holds header row text = .ok truth) (noted : List ConditionError) :
    (readText (grouped text)).evaluate header row noted = .ok (truth, noted) := by
  rcases readText_grouped hne hstrip hparen with hgrouped | hgrouped
  · cases truth <;> simp [hgrouped, evaluate, someHolds, h]
  · cases truth <;> simp [hgrouped, evaluate, allHold, h]

/-- A fault is noted where it would have ended the evaluation. -/
theorem evaluate_grouped_of_error (hne : text ≠ "") (hstrip : Text.strip text = text)
    (hparen : hasParenthesis text = false) {e : ConditionError}
    (h : holds header row text = .error e) (noted : List ConditionError) :
    (readText (grouped text)).evaluate header row noted = .ok (false, note noted e) := by
  rcases readText_grouped hne hstrip hparen with hgrouped | hgrouped
  · simp [hgrouped, evaluate, someHolds, h]
  · simp [hgrouped, evaluate, allHold, h]

end

/-! ### Folding -/

/-- A condition with groups is at fault on no row. Whatever has been noted before, it is true if one
of its groups is, where the word OR stands between blanks in its text, and if all of them are
otherwise; what is noted on the way is added to what was noted. A term in parentheses has the truth
that it has without them, and is false, with its fault noted, where it has none. -/
theorem evaluate_groups (text : String) (header row : List String) (noted : List ConditionError) :
    (HasGroup text.toList → ∃ gs truth noted', Found text.toList gs ∧ gs ≠ [] ∧
      (read (some text)).evaluate header row noted = .ok (truth, noted') ∧
      (truth = true ↔
        if Text.occurs " OR ".toList (Text.upper text).toList then
          ∃ g ∈ gs, IsTrueTerm header row (String.ofList (Text.trim g))
        else ∀ g ∈ gs, IsTrueTerm header row (String.ofList (Text.trim g))) ∧
      Grows noted noted') ∧
    (text ≠ "" → Text.strip text = text → hasParenthesis text = false →
      (∀ truth noted', (read (some text)).evaluate header row noted = .ok (truth, noted') →
        (read (some (grouped text))).evaluate header row noted = .ok (truth, noted')) ∧
      ∀ e, (read (some text)).evaluate header row noted = .error e →
        (read (some (grouped text))).evaluate header row noted = .ok (false, note noted e)) := by
  constructor
  · intro hgroup
    have hne := mt groups_eq_nil_iff.1 (not_not_intro hgroup)
    have hread := readText_of_groups_ne_nil (strip_ne_empty_of_hasGroup hgroup) rfl
      (map_groups_ne_nil (fun g => String.ofList (Text.trim g)) hgroup)
    have hor : mentionsOr text.toList =
        Text.occurs " OR ".toList (Text.upper text).toList := by
      rw [Text.toList_upper]
      rfl
    rw [hor] at hread
    rw [read, hread]
    split
    · refine ⟨_, _, _, found_iff.2 rfl, hne, rfl, ?_, .someHolds _ _ _⟩
      rw [fst_someHolds]
      simp only [List.any_map, List.any_eq_true, Function.comp_apply, counted_holds_iff]
    · refine ⟨_, _, _, found_iff.2 rfl, hne, rfl, ?_, .allHold _ _ _⟩
      rw [fst_allHold]
      simp only [List.all_map, List.all_eq_true, Function.comp_apply, counted_holds_iff]
  · intro hne hstrip hparen
    have hsingle := readText_of_not_hasParenthesis hne hstrip hparen
    rw [read, read, hsingle, evaluate]
    cases hholds : holds header row text with
    | ok truth =>
      refine ⟨fun truth' noted' h => ?_, fun e h => ?_⟩
      · cases h
        exact evaluate_grouped_of_ok hne hstrip hparen hholds noted
      · cases h
    | error e =>
      refine ⟨fun truth' noted' h => ?_, fun e' h => ?_⟩
      · cases h
      · cases h
        exact evaluate_grouped_of_error hne hstrip hparen hholds noted

/-- A parenthesis in a group, which ends at the first that closes, and one that is left over. A
fault that has been noted before is not noted again. -/
theorem evaluate_groups_nested :
    (∃ gs truth noted', Found "((c == 'x') OR (A == 'x'))".toList gs ∧
      gs = ["(c == 'x'".toList, "A == 'x'".toList] ∧
      (read (some "((c == 'x') OR (A == 'x'))")).evaluate ["id", "a"] ["1", "x"]
        [.columnNotFound "c"] = .ok (truth, noted') ∧ truth = true ∧
      Grows [.columnNotFound "c"] noted') ∧
    (read (some "c == 'x'")).evaluate ["id", "a"] ["1", "x"] [.columnNotFound "c"] =
      .error (.columnNotFound "c") ∧
    (read (some "(c == 'x')")).evaluate ["id", "a"] ["1", "x"] [.columnNotFound "c"] =
      .ok (false, [.columnNotFound "c"]) := by
  have hfault : (read (some "c == 'x'")).evaluate ["id", "a"] ["1", "x"] [.columnNotFound "c"] =
      .error (.columnNotFound "c") := rfl
  have hgroup : HasGroup "((c == 'x') OR (A == 'x'))".toList := by decide
  obtain ⟨gs, truth, noted', hfound, -, hevaluate, htruth, hgrows⟩ :=
    (evaluate_groups "((c == 'x') OR (A == 'x'))" ["id", "a"] ["1", "x"]
      [.columnNotFound "c"]).1 hgroup
  have hgs : gs = ["(c == 'x'".toList, "A == 'x'".toList] := (found_iff.1 hfound).symm.trans rfl
  have htrue : IsTrueTerm ["id", "a"] ["1", "x"] (String.ofList (Text.trim "A == 'x'".toList)) :=
    counted_holds_iff.1 rfl
  refine ⟨⟨gs, truth, noted', hfound, hgs, hevaluate, htruth.2 ?_, hgrows⟩, hfault, ?_⟩
  · rw [if_pos (by decide)]
    exact ⟨_, by simp [hgs], htrue⟩
  · exact ((evaluate_groups "c == 'x'" ["id", "a"] ["1", "x"] [.columnNotFound "c"]).2 (by decide)
      (by decide) (by decide)).2 _ hfault

end Condition

end Tabula
