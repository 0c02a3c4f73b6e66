import Tabula.Editor.Hover
import Tabula.Proofs.Token.Rule

/-!
# The word under the cursor

A word of a line is a run of word characters with no word character on either side
(`Editor.IsWordSlice`). Two words do not overlap, so a character is in one word at most, and it is
in one if it is a word character itself. This word is what is found around it, from whichever of its
characters the search begins (`Editor.wordAt_maximal`).
-/

namespace Tabula.Editor

/-- The characters of a text from index `first` on, up to index `last` and without it. -/
def slice (s : List Char) (first last : Nat) : List Char := (s.take last).drop first

/-- Between two indices there are word characters only, and neither the character in front of them
nor the one behind them, if there is any, is another. -/
structure IsWordSlice (s : List Char) (first last : Nat) : Prop where
  le_last : first ≤ last
  le_length : last ≤ s.length
  word : ∀ c ∈ slice s first last, Text.isWordChar c = true
  stops_left : Stops Text.isWordChar (s.take first).reverse
  stops_right : Stops Text.isWordChar (s.drop last)

variable {s front word rest : List Char} {first last i : Nat}

/-! ### Slices -/

theorem take_append_slice (h : first ≤ last) :
    s.take first ++ slice s first last = s.take last := by
  have hcut := List.take_append_drop first (s.take last)
  rwa [List.take_take, Nat.min_eq_left h] at hcut

theorem slice_append_drop (h : first ≤ last) (hlast : last ≤ s.length) :
    slice s first last ++ s.drop last = s.drop first := by
  have hcut := congrArg (List.drop first) (List.take_append_drop last s)
  have hfirst : first ≤ (s.take last).length := by
    rw [List.length_take]
    omega
  rwa [List.drop_append_of_le_length hfirst] at hcut

theorem slice_append_slice (h : first ≤ i) (hi : i ≤ last) :
    slice s first i ++ slice s i last = slice s first last := by
  apply @List.append_cancel_left _ (s.take first)
  rw [← List.append_assoc, take_append_slice h, take_append_slice hi,
    take_append_slice (Nat.le_trans h hi)]

theorem length_slice (hlast : last ≤ s.length) : (slice s first last).length = last - first := by
  rw [slice, List.length_drop, List.length_take, Nat.min_eq_left hlast]

/-- A text that is cut in three has its middle part between the lengths of the first two. -/
theorem isWordSlice_of_split (h : s = front ++ (word ++ rest))
    (hword : ∀ c ∈ word, Text.isWordChar c = true)
    (hfront : Stops Text.isWordChar front.reverse) (hrest : Stops Text.isWordChar rest) :
    IsWordSlice s front.length (front.length + word.length) := by
  subst h
  constructor
  · omega
  · simp
  · simpa [slice, List.take_length_add_append] using hword
  · simpa using hfront
  · simpa [← List.append_assoc, ← List.length_append] using hrest

/-! ### Looking to both sides -/

theorem wordEnd_append (hfront : Stops Text.isWordChar front.reverse)
    (hword : ∀ c ∈ word, Text.isWordChar c = true) : wordEnd (front ++ word) = word := by
  rw [wordEnd, List.reverse_append, takeWhile_append_of_stops _ hfront, List.reverse_reverse]
  intro c hc
  exact hword c (List.mem_reverse.1 hc)

/-- A text is something that ends in no word character, and word characters. -/
theorem exists_append_wordEnd (s : List Char) : ∃ front, s = front ++ wordEnd s ∧
    Stops Text.isWordChar front.reverse := by
  refine ⟨(s.reverse.dropWhile Text.isWordChar).reverse, ?_, ?_⟩
  · rw [wordEnd, ← List.reverse_append, List.takeWhile_append_dropWhile, List.reverse_reverse]
  · rw [List.reverse_reverse]
    exact stops_dropWhile _ _

theorem isWordChar_of_mem_wordEnd {c : Char} (h : c ∈ wordEnd s) : Text.isWordChar c = true :=
  List.all_eq_true.1 List.all_takeWhile c (List.mem_reverse.1 h)

theorem wordAt_eq (line : String) (i : Nat) : wordAt line i =
    if line.toList[i]?.any Text.isWordChar then
      String.ofList (wordEnd (line.toList.take i) ++
        (line.toList.drop i).takeWhile Text.isWordChar)
    else "" := by
  have hi : ¬ (i : Int) < 0 := by omega
  simp [wordAt, hi]
  grind

namespace IsWordSlice

variable {first' last' : Nat} (h : IsWordSlice s first last)
include h

theorem wordEnd_take (hfirst : first ≤ i) (hlast : i ≤ last) :
    wordEnd (s.take i) = slice s first i := by
  rw [← take_append_slice hfirst]
  apply wordEnd_append h.stops_left
  intro c hc
  apply h.word c
  rw [← slice_append_slice hfirst hlast]
  exact List.mem_append_left _ hc

theorem takeWhile_drop (hfirst : first ≤ i) (hlast : i ≤ last) :
    (s.drop i).takeWhile Text.isWordChar = slice s i last := by
  rw [← slice_append_drop hlast h.le_length]
  apply takeWhile_append_of_stops _ h.stops_right
  intro c hc
  apply h.word c
  rw [← slice_append_slice hfirst hlast]
  exact List.mem_append_right _ hc

/-- The bounds of a word are found by looking to both sides from any place in it. -/
theorem bounds (hfirst : first ≤ i) (hlast : i ≤ last) :
    first + (wordEnd (s.take i)).length = i ∧
      i + ((s.drop i).takeWhile Text.isWordChar).length = last := by
  have hle := h.le_length
  rw [h.wordEnd_take hfirst hlast, h.takeWhile_drop hfirst hlast, length_slice (by omega),
    length_slice hle]
  omega

/-- Two words that have a character in common are the same. -/
theorem unique (h' : IsWordSlice s first' last') (hfirst : first ≤ i) (hlast : i ≤ last)
    (hfirst' : first' ≤ i) (hlast' : i ≤ last') : first' = first ∧ last' = last := by
  have hbounds := h.bounds hfirst hlast
  have hbounds' := h'.bounds hfirst' hlast'
  omega

theorem isWordChar (hfirst : first ≤ i) (hlast : i < last) :
    s[i]?.any Text.isWordChar = true := by
  have hi : i < s.length := Nat.lt_of_lt_of_le hlast h.le_length
  have hmem : s[i] ∈ slice s first last := by
    rw [← slice_append_slice hfirst (Nat.le_of_lt hlast), slice, slice]
    apply List.mem_append_right
    rw [List.drop_eq_getElem_cons (by simp; omega)]
    simp
  simpa [hi] using h.word _ hmem

/-- From every place in a word the same word is found. -/
theorem wordAt_eq_slice {line : String} (hs : line.toList = s) (hfirst : first ≤ i)
    (hlast : i < last) : wordAt line i = String.ofList (slice s first last) := by
  subst hs
  have hle := Nat.le_of_lt hlast
  rw [wordAt_eq, if_pos (h.isWordChar hfirst hlast), h.wordEnd_take hfirst hle,
    h.takeWhile_drop hfirst hle, slice_append_slice hfirst hle]

end IsWordSlice

/-- A word character is in a word. -/
theorem exists_isWordSlice (h : s[i]?.any Text.isWordChar = true) :
    ∃ first last, IsWordSlice s first last ∧ first ≤ i ∧ i < last := by
  obtain ⟨front, hfront, hstops⟩ := exists_append_wordEnd (s.take i)
  have hi : i < s.length := by
    by_contra hge
    simp [List.getElem?_eq_none (Nat.le_of_not_lt hge)] at h
  have hlength : front.length + (wordEnd (s.take i)).length = i := by
    have hlength := congrArg List.length hfront
    simp only [List.length_take, List.length_append] at hlength
    omega
  have hsplit : s = front ++ ((wordEnd (s.take i) ++ (s.drop i).takeWhile Text.isWordChar) ++
      (s.drop i).dropWhile Text.isWordChar) := by
    rw [List.append_assoc, List.takeWhile_append_dropWhile, ← List.append_assoc, ← hfront,
      List.take_append_drop]
  have hpos : 0 < ((s.drop i).takeWhile Text.isWordChar).length := by
    rw [List.drop_eq_getElem_cons hi, List.takeWhile_cons_of_pos (by simpa [hi] using h)]
    simp
  refine ⟨_, _, isWordSlice_of_split hsplit ?_ hstops (stops_dropWhile _ _), by omega, ?_⟩
  · intro c hc
    rcases List.mem_append.1 hc with hc | hc
    · exact isWordChar_of_mem_wordEnd hc
    · exact List.all_eq_true.1 List.all_takeWhile c hc
  · rw [List.length_append]
    omega

theorem wordAt_eq_empty_iff (line : String) (character : Int) :
    wordAt line character = "" ↔ character < 0 ∨ line.length ≤ character ∨
      ∃ c ∈ line.toList[character.toNat]?, Text.isWordChar c = false := by
  rcases Int.lt_or_le character 0 with hneg | hpos
  · simp [wordAt, hneg]
  obtain ⟨i, rfl⟩ := Int.eq_ofNat_of_zero_le hpos
  have hlength := String.length_toList (s := line)
  by_cases hword : line.toList[i]?.any Text.isWordChar = true
  · obtain ⟨first, last, hslice, hfirst, hlast⟩ := exists_isWordSlice hword
    have hwidth : (slice line.toList first last).length = last - first :=
      length_slice hslice.le_length
    have hne : slice line.toList first last ≠ [] := by
      apply List.ne_nil_of_length_pos
      omega
    have hne : String.ofList (slice line.toList first last) ≠ "" := by simpa using hne
    rw [hslice.wordAt_eq_slice rfl hfirst hlast]
    grind
  · rw [wordAt_eq, if_neg hword]
    grind

/-- No word is found at an index that the line has not, or that has another character. At any other
index it is the one word of the line that reaches over this index, and the same at every index that
this word reaches over. -/
theorem wordAt_maximal (line : String) (character : Int) :
    (wordAt line character = "" ↔ character < 0 ∨ line.length ≤ character ∨
      ∃ c ∈ line.toList[character.toNat]?, Text.isWordChar c = false) ∧
    (wordAt line character ≠ "" → ∃ first last : Nat, IsWordSlice line.toList first last ∧
      first ≤ character ∧ character < last ∧
      wordAt line character = String.ofList (slice line.toList first last) ∧
      (∀ first' last' : Nat, IsWordSlice line.toList first' last' → first' ≤ character →
        character < last' → first' = first ∧ last' = last) ∧
      ∀ i : Int, first ≤ i → i < last → wordAt line i = wordAt line character) := by
  refine ⟨wordAt_eq_empty_iff line character, fun hne => ?_⟩
  rw [ne_eq, wordAt_eq_empty_iff, not_or, not_or] at hne
  obtain ⟨hpos, hlt, hword⟩ := hne
  obtain ⟨i, rfl⟩ := Int.eq_ofNat_of_zero_le (Int.not_lt.1 hpos)
  have hword : line.toList[i]?.any Text.isWordChar = true := by
    have hlength := String.length_toList (s := line)
    grind
  obtain ⟨first, last, hslice, hfirst, hlast⟩ := exists_isWordSlice hword
  have hword := hslice.wordAt_eq_slice rfl hfirst hlast
  refine ⟨first, last, hslice, by omega, by omega, hword, ?_, ?_⟩
  · intro first' last' hslice' hfirst' hlast'
    exact hslice.unique hslice' hfirst (by omega) (by omega) (by omega : i ≤ last')
  · intro j hfirst' hlast'
    obtain ⟨j, rfl⟩ := Int.eq_ofNat_of_zero_le (by omega : 0 ≤ j)
    rw [hword]
    exact hslice.wordAt_eq_slice rfl (by omega) (by omega)

end Tabula.Editor
