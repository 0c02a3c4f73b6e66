import Mathlib.Data.List.Forall2
import Tabula.Proofs.Script.Partition

/-!
# Comments

Comments are blanked out line by line (`Script.splitOn_withoutComments`): a line is kept or blanked
as a whole, and every character stays at its place. Whether a line is a comment depends on that line
alone, so a script stays as it is exactly if no line begins with two hyphens
(`Script.withoutComments_eq_self_iff`).

## Main definitions

* `Script.Kept` — a character stays as it is or is blanked out.
-/

namespace Tabula.Script

/-- A character stays as it is or is blanked out. -/
def Kept (c d : Char) : Prop := d = c ∨ d = ' '

variable {script : String} {line s t a m b a' m' b' : List Char} {lines : List (List Char)}
  {c d : Char}

/-! ### Characters -/

theorem forall₂_kept_refl (s : List Char) : List.Forall₂ Kept s s :=
  List.forall₂_same.2 fun _ _ => .inl rfl

theorem Kept.isBlank (h : Kept c d) (hc : Text.isBlank c = true) : Text.isBlank d = true := by
  rcases h with rfl | rfl
  · exact hc
  · decide

theorem allBlank_of_kept (h : List.Forall₂ Kept s t) (hs : AllBlank s) : AllBlank t := by
  induction h with
  | nil => exact hs
  | cons hc _ ih =>
    obtain ⟨hblank, hs⟩ := List.forall_mem_cons.1 hs
    exact (ih hs).cons (hc.isBlank hblank)

theorem eq_of_forall₂_kept (h : List.Forall₂ Kept s t) (ht : ' ' ∉ t) : s = t := by
  induction h with
  | nil => rfl
  | cons hc _ ih =>
    simp only [List.mem_cons, not_or] at ht
    rw [hc.resolve_right (Ne.symm ht.1), ih ht.2]

theorem exists_of_forall₂_append {R : Char → Char → Prop} (h : List.Forall₂ R s (a ++ b)) :
    ∃ a' b', s = a' ++ b' ∧ List.Forall₂ R a' a ∧ List.Forall₂ R b' b :=
  ⟨_, _, (List.take_append_drop a.length s).symm, List.forall₂_take_append _ _ _ h,
    List.forall₂_drop_append _ _ _ h⟩

theorem exists_of_append_forall₂ {R : Char → Char → Prop} (h : List.Forall₂ R (a ++ b) s) :
    ∃ a' b', s = a' ++ b' ∧ List.Forall₂ R a a' ∧ List.Forall₂ R b b' := by
  have hflip : List.Forall₂ (flip R) s (a ++ b) := .flip h
  obtain ⟨a', b', hs, ha, hb⟩ := exists_of_forall₂_append hflip
  exact ⟨a', b', hs, .flip ha, .flip hb⟩

/-! ### Lines -/

theorem blankOut_of_isComment (h : isComment line = true) :
    blankOut line = List.replicate line.length ' ' :=
  if_pos h

theorem blankOut_of_not_isComment (h : isComment line = false) : blankOut line = line :=
  if_neg (by simp [h])

/-- A line is kept or blanked as a whole. -/
theorem blankOut_cases (line : List Char) :
    blankOut line = line ∨ blankOut line = List.replicate line.length ' ' := by
  cases h : isComment line with
  | false => exact .inl (blankOut_of_not_isComment h)
  | true => exact .inr (blankOut_of_isComment h)

@[simp] theorem length_blankOut (line : List Char) : (blankOut line).length = line.length := by
  rcases blankOut_cases line with h | h <;> simp [h]

theorem not_mem_blankOut {c : Char} (h : c ∉ line) (hc : c ≠ ' ') : c ∉ blankOut line := by
  rcases blankOut_cases line with hline | hline <;> simp [hline, h, hc]

theorem hyphen_mem_of_isComment (h : isComment line = true) : '-' ∈ line := by
  have hstart : '-' ∈ Text.trim line :=
    (List.isPrefixOf_iff_prefix.1 h).mem List.mem_cons_self
  have hback := (List.dropWhile_suffix (l := (Text.trimStart line).reverse) Text.isBlank).mem
    (List.mem_reverse.1 hstart)
  exact (List.dropWhile_suffix (l := line) Text.isBlank).mem (List.mem_reverse.1 hback)

theorem forall₂_blankOut (line : List Char) : List.Forall₂ Kept line (blankOut line) := by
  rcases blankOut_cases line with h | h
  · rw [h]
    exact forall₂_kept_refl line
  · rw [h]
    clear h
    induction line with
    | nil => exact .nil
    | cons c line ih => exact .cons (.inr rfl) ih

/-! ### Scripts -/

theorem toList_withoutComments (script : String) : (withoutComments script).toList =
    ['\n'].intercalate ((script.toList.splitOn '\n').map blankOut) :=
  String.toList_ofList

/-- Each line of a script is blanked out if it is a comment, and stays as it is if not. -/
theorem splitOn_withoutComments (script : String) :
    (withoutComments script).toList.splitOn '\n' = (script.toList.splitOn '\n').map blankOut := by
  rw [toList_withoutComments]
  refine List.splitOn_intercalate _ ?_ (by simp)
  simp only [List.mem_map, forall_exists_index, and_imp, forall_apply_eq_imp_iff₂]
  intro line hline
  refine not_mem_blankOut (fun hmem => ?_) (by decide)
  exact (Text.mem_and_ne_of_mem_splitOn hline hmem).2 rfl

/-- A script stays as it is exactly if it has no comments. -/
theorem withoutComments_eq_self_iff : withoutComments script = script ↔
    ∀ line ∈ script.toList.splitOn '\n', isComment line = false := by
  constructor
  · intro h line hline
    by_contra hcomment
    have hcomment : isComment line = true := by simpa using hcomment
    have hmap : (script.toList.splitOn '\n').map blankOut =
        (script.toList.splitOn '\n').map id := by
      rw [← splitOn_withoutComments, h, List.map_id]
    have hhyphen : '-' ∈ id line := hyphen_mem_of_isComment hcomment
    rw [← List.map_inj_left.1 hmap line hline, blankOut_of_isComment hcomment] at hhyphen
    exact absurd (List.eq_of_mem_replicate hhyphen) (by decide)
  · intro h
    rw [← String.toList_inj, toList_withoutComments,
      List.map_congr_left fun line hline => blankOut_of_not_isComment (h line hline), List.map_id',
      List.intercalate_splitOn]

theorem forall₂_intercalate {R : Char → Char → Prop} {sep : List Char}
    {xs ys : List (List Char)} (hsep : ∀ c ∈ sep, R c c)
    (h : List.Forall₂ (List.Forall₂ R) xs ys) :
    List.Forall₂ R (sep.intercalate xs) (sep.intercalate ys) := by
  induction h with
  | nil => exact .nil
  | @cons x y xs ys hxy hrest ih =>
    cases hrest with
    | nil => simpa using hxy
    | cons _ _ =>
      rw [List.intercalate_cons_cons, List.intercalate_cons_cons]
      exact List.rel_append (List.rel_append hxy (List.forall₂_same.2 hsep)) ih

/-- Comments are blanked out in place. -/
theorem forall₂_withoutComments (script : String) :
    List.Forall₂ Kept script.toList (withoutComments script).toList := by
  have hlines : List.Forall₂ (List.Forall₂ Kept) (script.toList.splitOn '\n')
      ((script.toList.splitOn '\n').map blankOut) :=
    List.forall₂_map_right_iff.2 (List.forall₂_same.2 fun line _ => forall₂_blankOut line)
  have hsep : ∀ c ∈ ['\n'], Kept c c := fun c _ => .inl rfl
  have hwhole := forall₂_intercalate hsep hlines
  rwa [List.intercalate_splitOn, ← toList_withoutComments] at hwhole

theorem length_withoutComments (script : String) :
    (withoutComments script).length = script.length := by
  have hlength := (forall₂_withoutComments script).length_eq
  rwa [String.length_toList, String.length_toList, eq_comm] at hlength

/-- What is left of a script but blanks stands in it at the same place. -/
theorem getElem?_of_withoutComments {script : String} {i : Nat} {c : Char}
    (h : (withoutComments script).toList[i]? = some c) (hc : c ≠ ' ') :
    script.toList[i]? = some c := by
  obtain ⟨hlt, rfl⟩ := List.getElem?_eq_some_iff.1 h
  have hkept := forall₂_withoutComments script
  have hlt' : i < script.toList.length := by
    rw [hkept.length_eq]
    exact hlt
  rcases hkept.get hlt' hlt with hsame | hblank
  · exact List.getElem?_eq_some_iff.2 ⟨hlt', hsame.symm⟩
  · exact absurd hblank hc

/-! ### Stretches of a line -/

theorem exists_slice_blankOut (h : line = a ++ m ++ b) : ∃ a' m' b',
    blankOut line = a' ++ m' ++ b' ∧ a'.length = a.length ∧
      (m' = m ∨ m' = List.replicate m.length ' ') := by
  rcases blankOut_cases line with hline | hline
  · exact ⟨a, m, b, hline.trans h, rfl, .inl rfl⟩
  · refine ⟨.replicate a.length ' ', .replicate m.length ' ', .replicate b.length ' ', ?_,
      List.length_replicate, .inr rfl⟩
    rw [hline, h, List.length_append, List.length_append, List.replicate_add, List.replicate_add]

/-- What has no line feed is part of the first line or of what follows it. -/
theorem slice_cons_cases (h : line ++ '\n' :: s = a ++ m ++ b) (hm : '\n' ∉ m) :
    (∃ c, line = a ++ m ++ c) ∨ ∃ c, a = line ++ '\n' :: c ∧ s = c ++ m ++ b := by
  rcases List.append_eq_append_iff.1 h with ⟨c, hfront, hback⟩ | ⟨c, hline, -⟩
  · cases c with
    | nil => exact .inl ⟨[], by simpa using hfront.symm⟩
    | cons d c =>
      obtain ⟨rfl, rfl⟩ := List.cons.inj hback
      rcases List.append_eq_append_iff.1 hfront with ⟨e, -, rfl⟩ | ⟨e, ha, he⟩
      · exact absurd (by simp) hm
      · cases e with
        | nil =>
          rw [List.nil_append] at he
          exact absurd (he ▸ List.mem_cons_self) hm
        | cons f e =>
          obtain ⟨rfl, rfl⟩ := List.cons.inj he
          exact .inr ⟨e, ha, rfl⟩
  · exact .inl ⟨c, hline⟩

theorem exists_slice_intercalate (h : ['\n'].intercalate lines = a ++ m ++ b) (hm : '\n' ∉ m) :
    ∃ a' m' b', ['\n'].intercalate (lines.map blankOut) = a' ++ m' ++ b' ∧
      a'.length = a.length ∧ (m' = m ∨ m' = List.replicate m.length ' ') := by
  induction lines generalizing a with
  | nil =>
    obtain ⟨rfl, rfl, rfl⟩ : a = [] ∧ m = [] ∧ b = [] := by simpa using h.symm
    exact ⟨[], [], [], rfl, rfl, .inl rfl⟩
  | cons line lines ih =>
    cases lines with
    | nil =>
      rw [List.intercalate_singleton] at h
      rw [List.map_singleton, List.intercalate_singleton]
      exact exists_slice_blankOut h
    | cons next lines =>
      rw [List.map_cons, List.map_cons, List.intercalate_cons_cons]
      rw [List.intercalate_cons_cons, List.append_assoc, List.singleton_append] at h
      rcases slice_cons_cases h hm with ⟨c, hline⟩ | ⟨c, rfl, hlater⟩
      · obtain ⟨a', m', b', hslice, ha, hm'⟩ := exists_slice_blankOut hline
        exact ⟨a', m', _, by rw [hslice, List.append_assoc, List.append_assoc], ha, hm'⟩
      · obtain ⟨a', m', b', hslice, ha, hm'⟩ := ih hlater
        refine ⟨blankOut line ++ '\n' :: a', m', b', ?_, by simp [ha], hm'⟩
        rw [← List.map_cons, hslice]
        simp

/-- A stretch of a line is kept or blanked as a whole. -/
theorem kept_or_blanked (hscript : script.toList = a ++ m ++ b)
    (hkept : (withoutComments script).toList = a' ++ m' ++ b') (ha : a'.length = a.length)
    (hlength : m'.length = m.length) (hm : '\n' ∉ m) :
    m' = m ∨ m' = List.replicate m.length ' ' := by
  have hlines : ['\n'].intercalate (script.toList.splitOn '\n') = a ++ m ++ b := by
    rw [List.intercalate_splitOn, hscript]
  obtain ⟨a₁, m₁, b₁, hslice, ha₁, hm₁⟩ := exists_slice_intercalate hlines hm
  rw [← toList_withoutComments, hkept, List.append_assoc, List.append_assoc] at hslice
  obtain ⟨rfl, hrest⟩ := List.append_inj hslice (ha.trans ha₁.symm)
  have hlength₁ : m₁.length = m.length := by
    rcases hm₁ with h | h <;> simp [h]
  obtain ⟨rfl, -⟩ := List.append_inj hrest (hlength.trans hlength₁.symm)
  exact hm₁

end Tabula.Script
