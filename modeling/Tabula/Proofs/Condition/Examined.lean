import Tabula.Proofs.Condition.Fault
import Tabula.Proofs.Condition.TokenTerm

/-!
# Groups that are looked at

The groups of a condition are looked at on a row one after the other, until one decides
(`examined`). A fault of a group that is looked at is noted, so if nothing is noted on any row,
every group that is looked at on some row is a term of the header (`forall_resolve_of_evaluate`).
The first group is looked at on each row.
-/

namespace Tabula.Condition

/-! ### Looking at one after the other -/

section

variable {α β : Type} {judge : α → Except ConditionError Bool} {decisive : Bool}

/-- The truth of what may be at fault: a fault counts as false. -/
def counted : Except ConditionError Bool → Bool
  | .ok truth => truth
  | .error _ => false

/-- The first of them up to the one whose truth decides. -/
def examined (judge : α → Except ConditionError Bool) (decisive : Bool) : List α → List α
  | [] => []
  | a :: as => a :: if counted (judge a) = decisive then [] else examined judge decisive as

/-- It is looked at if none in front of it decides. -/
theorem mem_examined_iff {as : List α} {a : α} : a ∈ examined judge decisive as ↔
    ∃ before after, as = before ++ a :: after ∧ ∀ b ∈ before, counted (judge b) ≠ decisive := by
  induction as with
  | nil => simp [examined]
  | cons b as ih =>
    rw [examined, List.mem_cons]
    constructor
    · rintro (rfl | h)
      · exact ⟨[], as, rfl, nofun⟩
      · split at h
        · cases h
        · rename_i hb
          obtain ⟨before, after, rfl, hbefore⟩ := ih.1 h
          exact ⟨b :: before, after, rfl, List.forall_mem_cons.2 ⟨hb, hbefore⟩⟩
    · rintro ⟨before, after, has, hbefore⟩
      cases before with
      | nil => exact .inl (List.cons.inj has).1.symm
      | cons c before =>
        obtain ⟨rfl, rfl⟩ := List.cons.inj has
        obtain ⟨hb, hbefore⟩ := List.forall_mem_cons.1 hbefore
        rw [if_neg hb]
        exact .inr (ih.2 ⟨before, after, rfl, hbefore⟩)

theorem mem_of_mem_examined {as : List α} {a : α} (h : a ∈ examined judge decisive as) :
    a ∈ as := by
  obtain ⟨before, after, rfl, -⟩ := mem_examined_iff.1 h
  simp

theorem examined_map (judge : β → Except ConditionError Bool) (decisive : Bool) (f : α → β)
    (as : List α) : examined judge decisive (as.map f) =
      (examined (fun a => judge (f a)) decisive as).map f := by
  induction as with
  | nil => rfl
  | cons a as ih =>
    simp only [List.map_cons, examined, ih]
    split <;> rfl

end

/-! ### What is noted -/

section

variable {judge : String → Except ConditionError Bool} {noted : List ConditionError}
  {terms : List String} {e : ConditionError}

theorem mem_note_iff {d : ConditionError} : e ∈ note noted d ↔ e ∈ noted ∨ e = d := by
  unfold note
  split
  · simp_all
  · simp

/-- The faults of what is looked at are noted, and no others. -/
theorem mem_snd_someHolds : e ∈ (someHolds judge noted terms).2 ↔
    e ∈ noted ∨ ∃ t ∈ examined judge true terms, judge t = .error e := by
  fun_induction someHolds judge noted terms with
  | case1 noted => simp [examined]
  | case2 noted t ts hjudge => simp [examined, counted, hjudge]
  | case3 noted t ts hjudge ih => simpa [examined, counted, hjudge] using ih
  | case4 noted t ts d hjudge ih =>
    rw [ih, mem_note_iff]
    simp [examined, counted, hjudge, or_assoc, eq_comm]

theorem mem_snd_allHold : e ∈ (allHold judge noted terms).2 ↔
    e ∈ noted ∨ ∃ t ∈ examined judge false terms, judge t = .error e := by
  fun_induction allHold judge noted terms with
  | case1 => simp [examined]
  | case2 t ts hjudge ih => simpa [examined, counted, hjudge] using ih
  | case3 t ts hjudge => simp [examined, counted, hjudge]
  | case4 t ts d hjudge =>
    rw [mem_note_iff]
    simp [examined, counted, hjudge, eq_comm]

/-- If nothing is noted in the end, nothing was at first, and nothing that was looked at is at
fault. -/
theorem forall_ok_of_eq_nil {decisive : Bool} {noted' : List ConditionError}
    (h : ∀ e, e ∈ noted' ↔
      e ∈ noted ∨ ∃ t ∈ examined judge decisive terms, judge t = .error e)
    (hnil : noted' = []) :
    noted = [] ∧ ∀ t ∈ examined judge decisive terms, ∃ truth, judge t = .ok truth := by
  subst hnil
  refine ⟨List.eq_nil_iff_forall_not_mem.2 fun e he => ?_, fun t ht => ?_⟩
  · exact absurd ((h e).2 (.inl he)) List.not_mem_nil
  · cases hjudge : judge t with
    | ok truth => exact ⟨truth, rfl⟩
    | error e => exact absurd ((h e).2 (.inr ⟨t, ht, hjudge⟩)) List.not_mem_nil

theorem of_someHolds_eq_nil (h : (someHolds judge noted terms).2 = []) :
    noted = [] ∧ ∀ t ∈ examined judge true terms, ∃ truth, judge t = .ok truth :=
  forall_ok_of_eq_nil (fun _ => mem_snd_someHolds) h

theorem of_allHold_eq_nil (h : (allHold judge noted terms).2 = []) :
    noted = [] ∧ ∀ t ∈ examined judge false terms, ∃ truth, judge t = .ok truth :=
  forall_ok_of_eq_nil (fun _ => mem_snd_allHold) h

end

variable {header row : List String} {noted : List ConditionError} {text : String} {truth : Bool}

theorem exists_resolve_of_holds {t : String} (h : holds header row t = .ok truth) :
    ∃ x, resolve header t = .ok x := by
  cases hresolve : resolve header t with
  | ok x => exact ⟨x, rfl⟩
  | error e =>
    rw [holds, hresolve] at h
    cases h

theorem strip_ne_empty_of_hasGroup (h : HasGroup text.toList) : Text.strip text ≠ "" := by
  obtain ⟨before, inner, after, htext, -⟩ := h
  exact Text.strip_ne_empty (c := '(') (by simp [htext]) (by decide)

/-- If nothing is noted in the end, nothing was at first. -/
theorem of_evaluate_eq_nil {c : Condition} (h : c.evaluate header row noted = .ok (truth, [])) :
    noted = [] := by
  cases c with
  | always => cases h; rfl
  | single term =>
    rw [evaluate] at h
    cases hholds : holds header row term with
    | error e => rw [hholds] at h; cases h
    | ok b => rw [hholds] at h; cases h; rfl
  | anyOf terms =>
    have hnoted := congrArg Prod.snd (Except.ok.inj h)
    exact (of_someHolds_eq_nil hnoted).1
  | allOf terms =>
    have hnoted := congrArg Prod.snd (Except.ok.inj h)
    exact (of_allHold_eq_nil hnoted).1

/-- The faults of the groups that are looked at are noted, whatever joins them. -/
theorem mem_of_evaluate {noted' : List ConditionError} {e : ConditionError}
    (hgroup : HasGroup text.toList)
    (h : (readText text).evaluate header row noted = .ok (truth, noted')) :
    e ∈ noted' ↔ e ∈ noted ∨ ∃ g ∈ examined (holds header row) (mentionsOr text.toList)
      (groupTexts text.toList), holds header row g = .error e := by
  have hne : groupTexts text.toList ≠ [] := map_groups_ne_nil _ hgroup
  rw [readText_of_groups_ne_nil (strip_ne_empty_of_hasGroup hgroup) rfl hne] at h
  cases hor : mentionsOr text.toList with
  | true =>
    rw [hor] at h
    obtain rfl := congrArg Prod.snd (Except.ok.inj h)
    exact mem_snd_someHolds
  | false =>
    rw [hor] at h
    obtain rfl := congrArg Prod.snd (Except.ok.inj h)
    exact mem_snd_allHold

/-- If nothing is noted, the groups that are looked at are terms. -/
theorem forall_resolve_of_evaluate (hgroup : HasGroup text.toList)
    (h : (readText text).evaluate header row noted = .ok (truth, [])) :
    ∀ g ∈ examined (holds header row) (mentionsOr text.toList) (groupTexts text.toList),
      ∃ x, resolve header g = .ok x := by
  intro g hg
  obtain ⟨b, hb⟩ := (forall_ok_of_eq_nil (fun _ => mem_of_evaluate hgroup h) rfl).2 g hg
  exact exists_resolve_of_holds hb

/-- If nothing is noted on all rows, nothing is noted on each of them. -/
theorem exists_evaluate_of_evaluateAll {c : Condition} {rows : List (List String)}
    {selected : List Bool} (h : c.evaluateAll header noted rows = .ok (selected, [])) :
    noted = [] ∧ ∀ row ∈ rows, ∃ truth, c.evaluate header row [] = .ok (truth, []) := by
  induction rows generalizing noted selected with
  | nil =>
    cases h
    exact ⟨rfl, nofun⟩
  | cons row rows ih =>
    rw [evaluateAll] at h
    obtain ⟨⟨truth, noted'⟩, hrow, h⟩ := bind_eq_ok_iff.1 h
    obtain ⟨⟨truths, faults⟩, hrows, h⟩ := bind_eq_ok_iff.1 h
    cases h
    obtain ⟨rfl, hlater⟩ := ih hrows
    obtain rfl := of_evaluate_eq_nil hrow
    exact ⟨rfl, List.forall_mem_cons.2 ⟨⟨truth, hrow⟩, hlater⟩⟩

/-! ### Tokens -/

/-- The tokens are a term of a header, and are read as it. -/
def IsTermOf (header : List String) (ts : List (Token Kind)) : Prop :=
  ∃ x i, resolve header (clauseText ts) = .ok (x, i) ∧ TermOf x ts

theorem isTermOf_of_resolve {ts : List (Token Kind)} {x : Term × Nat} (hts : ∀ t ∈ ts, t.Given)
    (h : resolve header (clauseText ts) = .ok x) : IsTermOf header ts := by
  obtain ⟨x, i⟩ := x
  refine ⟨x, i, h, ?_⟩
  unfold resolve at h
  split at h
  · cases h
  · rename_i y hsplit
    split at h
    · cases h
    · cases h
      exact termOf_of_split? hts hsplit

/-- What is known of a condition that has given neither an error nor a warning. If it has no group,
its tokens are a term. If it has groups, those that are looked at on some row are terms; they are
groups of tokens if no string has a parenthesis. -/
structure Understood (header : List String) (rows : List (List String))
    (clause : List (Token Kind)) : Prop where
  single : ¬ HasGroup (clauseText clause).toList → IsTermOf header clause
  texts : HasGroup (clauseText clause).toList → ∀ row ∈ rows,
    ∀ g ∈ examined (holds header row) (mentionsOr (clauseText clause).toList)
        (groupTexts (clauseText clause).toList), ∃ x, resolve header g = .ok x
  groups : HasGroup (clauseText clause).toList → ParenFree clause → ∀ row ∈ rows,
    ∀ g ∈ examined (fun g => holds header row (clauseText g))
        (mentionsOr (clauseText clause).toList) (tokenGroups none clause), IsTermOf header g
  first : HasGroup (clauseText clause).toList → ParenFree clause → rows ≠ [] →
    ∃ g later, tokenGroups none clause = g :: later ∧ IsTermOf header g

theorem understood_of_evaluateAll {rows : List (List String)} {clause : List (Token Kind)}
    {selected : List Bool} (hgiven : ∀ t ∈ clause, t.Given) (hne : clause ≠ [])
    (hvalidate : (readText (clauseText clause)).validate header = .ok ())
    (h : (readText (clauseText clause)).evaluateAll header noted rows = .ok (selected, [])) :
    Understood header rows clause := by
  have hrow := (exists_evaluate_of_evaluateAll h).2
  have htexts (hgroup : HasGroup (clauseText clause).toList) (row : List String)
      (hmem : row ∈ rows) :=
    let ⟨_, hrow⟩ := hrow row hmem
    forall_resolve_of_evaluate hgroup hrow
  have hgroups : HasGroup (clauseText clause).toList → ParenFree clause → ∀ row ∈ rows,
      ∀ g ∈ examined (fun g => holds header row (clauseText g))
        (mentionsOr (clauseText clause).toList) (tokenGroups none clause), IsTermOf header g := by
    intro hgroup hparen row hmem g hg
    have htext := htexts hgroup row hmem (clauseText g) (by
      rw [groupTexts_clauseText hgiven hparen, examined_map]
      exact List.mem_map_of_mem hg)
    obtain ⟨x, hx⟩ := htext
    exact isTermOf_of_resolve (given_of_mem_tokenGroups hgiven (mem_of_mem_examined hg)) hx
  refine ⟨fun hnone => ?_, htexts, hgroups, fun hgroup hparen hrows => ?_⟩
  · have hstrip := strip_clauseText_ne_empty hgiven hne
    rw [readText_of_groups_eq_nil hstrip (groups_eq_nil_iff.2 hnone), validate] at hvalidate
    cases hresolve : resolve header (clauseText clause) with
    | error e =>
      rw [hresolve] at hvalidate
      cases hvalidate
    | ok x => exact isTermOf_of_resolve hgiven hresolve
  · obtain ⟨row, later, rfl⟩ := List.exists_cons_of_ne_nil hrows
    have hne : tokenGroups none clause ≠ [] := by
      intro hnil
      refine map_groups_ne_nil (fun g => String.ofList (Text.trim g)) hgroup ?_
      change groupTexts (clauseText clause).toList = []
      rw [groupTexts_clauseText hgiven hparen, hnil]
      rfl
    obtain ⟨g, gs, hgs⟩ := List.exists_cons_of_ne_nil hne
    refine ⟨g, gs, hgs, hgroups hgroup hparen row List.mem_cons_self g ?_⟩
    rw [hgs, examined]
    exact List.mem_cons_self

end Tabula.Condition
