import Tabula.Text.Line

/-!
# Plain texts

A text is plain if it has no tab and no line break. A file that is made of plain texts, parted by
tabs and line feeds, is cut at exactly these when it is read: its lines are the lines that it was
made of, and the pieces of a line are the texts.
-/

namespace Tabula.Text

/-- A text without tabs and line breaks. -/
def Plain (s : String) : Prop := ∀ c ∈ s.toList, c ≠ '\t' ∧ isLineBreak c = false

instance (s : String) : Decidable (Plain s) := List.decidableBAll _ s.toList

theorem plain_empty : Plain "" := by simp [Plain]

/-- A character is no line break if it has a property that no line break has. -/
theorem not_break_of {p : Char → Bool}
    (hp : ['\n', '\r', '\x0b', '\x0c', '\x1c', '\x1d', '\x1e', '\u0085', '\u2028', '\u2029'].all
      (fun d => !p d) = true) {c : Char} (hc : p c = true) : isLineBreak c = false := by
  rw [Bool.eq_false_iff]
  intro hbreak
  have hmem : c ∈ ['\n', '\r', '\x0b', '\x0c', '\x1c', '\x1d', '\x1e', '\u0085', '\u2028',
      '\u2029'] := by
    simpa [isLineBreak, or_assoc] using hbreak
  have hnot := List.all_eq_true.1 hp c hmem
  rw [hc] at hnot
  cases hnot

theorem plain_toString (n : Nat) : Plain (toString n) := by
  intro c hc
  have hdigits : c ∈ Nat.toDigits 10 n := by simpa [Nat.repr] using hc
  have hdigit : c.isDigit = true :=
    Nat.isDigit_of_mem_toDigits (by decide) (by decide) hdigits
  refine ⟨?_, not_break_of (by decide) hdigit⟩
  rintro rfl
  exact absurd hdigit (by decide)

/-! ### Lines -/

theorem unifyBreaks_append {l : List Char} (h : '\r' ∉ l) (s : List Char) :
    unifyBreaks (l ++ s) = l ++ unifyBreaks s := by
  induction l with
  | nil => rfl
  | cons c l ih =>
    simp only [List.mem_cons, not_or] at h
    rw [List.cons_append, unifyBreaks, ih h.2, if_neg (Ne.symm h.1)]
    · rfl
    · exact fun _ hreturn => absurd hreturn.symm h.1

theorem unifyBreaks_of_not_mem {s : List Char} (h : '\r' ∉ s) : unifyBreaks s = s := by
  simpa [unifyBreaks] using unifyBreaks_append h []

theorem lines_cons_of_not_break {c : Char} (h : isLineBreak c = false) (s : List Char) :
    lines (c :: s) = consFirst c (lines s) := by
  have hc : c ≠ '\r' := by
    rintro rfl
    simp [isLineBreak] at h
  rw [lines]
  · simp [h]
  · simp [hc]

@[simp] theorem lines_newline (s : List Char) : lines ('\n' :: s) = [] :: lines s := by
  simp [lines, isLineBreak]

theorem lines_append_newline {l : List Char} (h : ∀ c ∈ l, isLineBreak c = false)
    (s : List Char) : lines (l ++ '\n' :: s) = l :: lines s := by
  induction l with
  | nil => exact lines_newline s
  | cons c l ih =>
    rw [List.cons_append, lines_cons_of_not_break (h c (by simp)),
      ih fun d hd => h d (by simp [hd])]
    rfl

/-- Lines that are each ended by a line feed are read back. -/
theorem lines_flatMap_newline {ls : List (List Char)}
    (h : ∀ l ∈ ls, ∀ c ∈ l, isLineBreak c = false) : lines (ls.flatMap (· ++ ['\n'])) = ls := by
  induction ls with
  | nil => rfl
  | cons l ls ih =>
    have hl := lines_append_newline (h l (by simp)) (ls.flatMap (· ++ ['\n']))
    rw [ih fun m hm => h m (by simp [hm])] at hl
    simpa using hl

theorem mem_consFirst {c d : Char} {l : List Char} {ls : List (List Char)}
    (hl : l ∈ consFirst c ls) (hd : d ∈ l) : d = c ∨ ∃ m ∈ ls, d ∈ m := by
  cases ls with
  | nil =>
    obtain rfl : l = [c] := by simpa [consFirst] using hl
    exact .inl (by simpa using hd)
  | cons m ms =>
    rcases List.mem_cons.1 hl with rfl | hl
    · rcases List.mem_cons.1 hd with rfl | hd
      · exact .inl rfl
      · exact .inr ⟨m, by simp, hd⟩
    · exact .inr ⟨l, by simp [hl], hd⟩

theorem not_break_of_mem_lines {s l : List Char} (h : l ∈ lines s) {c : Char} (hc : c ∈ l) :
    isLineBreak c = false := by
  fun_induction lines s generalizing l c with
  | case1 => simp at h
  | case2 s ih =>
    rcases List.mem_cons.1 h with rfl | h
    · simp at hc
    · exact ih h hc
  | case3 d s _ hd ih =>
    rcases List.mem_cons.1 h with rfl | h
    · simp at hc
    · exact ih h hc
  | case4 d s _ hd ih =>
    rcases mem_consFirst h hc with rfl | ⟨m, hm, hc⟩
    · simpa using hd
    · exact ih hm hc

/-- A line has only characters of its text. -/
theorem mem_of_mem_lines {s l : List Char} (h : l ∈ lines s) {c : Char} (hc : c ∈ l) : c ∈ s := by
  fun_induction lines s generalizing l c with
  | case1 => simp at h
  | case2 s ih =>
    rcases List.mem_cons.1 h with rfl | h
    · simp at hc
    · exact List.mem_cons_of_mem _ (List.mem_cons_of_mem _ (ih h hc))
  | case3 d s _ hd ih =>
    rcases List.mem_cons.1 h with rfl | h
    · simp at hc
    · exact List.mem_cons_of_mem _ (ih h hc)
  | case4 d s _ hd ih =>
    rcases mem_consFirst h hc with rfl | ⟨m, hm, hc⟩
    · exact List.mem_cons_self
    · exact List.mem_cons_of_mem _ (ih hm hc)

theorem mem_of_mem_unifyBreaks {s : List Char} {c : Char} (h : c ∈ unifyBreaks s) :
    c ∈ s ∨ c = '\n' := by
  fun_induction unifyBreaks s with
  | case1 => simp at h
  | case2 s ih => grind
  | case3 d s _ ih => grind

/-! ### Pieces -/

/-- A piece of a text has only characters of the text, and not the one that the text is cut at. -/
theorem mem_and_ne_of_mem_splitOn {x c : Char} {s l : List Char} (h : l ∈ s.splitOn x)
    (hc : c ∈ l) : c ∈ s ∧ c ≠ x := by
  induction s generalizing l with
  | nil =>
    obtain rfl : l = [] := by simpa using h
    simp at hc
  | cons d s ih =>
    rw [List.splitOn_cons_eq_if_modifyHead] at h
    split at h
    · rcases List.mem_cons.1 h with rfl | h
      · simp at hc
      · exact ⟨List.mem_cons_of_mem _ (ih h hc).1, (ih h hc).2⟩
    · rename_i hd
      obtain ⟨m, ms, hm⟩ := List.exists_cons_of_ne_nil (List.splitOn_ne_nil x s)
      rw [hm, List.modifyHead_cons] at h
      have hpieces : ∀ k ∈ m :: ms, c ∈ k → c ∈ s ∧ c ≠ x := fun k hk => ih (hm ▸ hk)
      rcases List.mem_cons.1 h with rfl | h
      · rcases List.mem_cons.1 hc with rfl | hc
        · exact ⟨by simp, by simpa using hd⟩
        · exact ⟨List.mem_cons_of_mem _ (hpieces m (by simp) hc).1, (hpieces m (by simp) hc).2⟩
      · have hl := hpieces l (by simp [h]) hc
        exact ⟨List.mem_cons_of_mem _ hl.1, hl.2⟩

end Tabula.Text
