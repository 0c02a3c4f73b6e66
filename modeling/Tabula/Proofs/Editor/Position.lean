import Tabula.Editor.Position
import Tabula.Proofs.Token.Rule

/-!
# Offsets and positions

A position denotes an offset if its line is the number of line feeds in front of the offset and its
character the number of characters behind the last of them (`Position.Denotes`). Every offset of a
document has a position that denotes it (`denotes_position`), and this position denotes no other one
(`Position.Denotes.unique`).
-/

namespace Tabula.Editor

/-- In front of an offset stand whole lines, as many as the position says, and a part of a line as
long as it says. -/
def Position.Denotes (p : Position) (source : String) (offset : Nat) : Prop :=
  ∃ before line, source.toList.take offset = before ++ line ∧ (∀ c ∈ before.getLast?, c = '\n') ∧
    '\n' ∉ line ∧ p = ⟨before.count '\n', line.length⟩

variable {source : String} {offset offset' : Nat} {p : Position} {before line : List Char}

/-- A text is whole lines and a part of a line. -/
theorem exists_lines (s : List Char) : ∃ before line, s = before ++ line ∧
    (∀ c ∈ before.getLast?, c = '\n') ∧ '\n' ∉ line := by
  refine ⟨(s.reverse.dropWhile (· ≠ '\n')).reverse, (s.reverse.takeWhile (· ≠ '\n')).reverse,
    ?_, fun c hc => ?_, fun hmem => ?_⟩
  · rw [← List.reverse_append, List.takeWhile_append_dropWhile, List.reverse_reverse]
  · rw [List.getLast?_reverse] at hc
    simpa using stops_dropWhile _ _ c hc
  · have hne := List.all_eq_true.1 List.all_takeWhile _ (List.mem_reverse.1 hmem)
    simp at hne

/-- A line begins behind the whole lines. -/
theorem lineStart_eq (h : source.toList.take offset = before ++ line)
    (hlast : ∀ c ∈ before.getLast?, c = '\n') (hline : '\n' ∉ line) :
    lineStart source offset = before.length := by
  have hstops : Stops (· ≠ '\n') before.reverse := fun c hc => by
    simpa using hlast c (List.head?_reverse ▸ hc)
  have hwithin : ∀ c ∈ line.reverse, decide (c ≠ '\n') = true := fun c hc => by
    simpa using fun heq : c = '\n' => hline (heq ▸ List.mem_reverse.1 hc)
  have hcut := takeWhile_append_of_stops hwithin hstops
  rw [← List.reverse_append] at hcut
  simp only [lineStart, h, hcut, List.length_append, List.length_reverse]
  omega

theorem offset_eq (h : source.toList.take offset = before ++ line)
    (hle : offset ≤ source.length) : offset = before.length + line.length := by
  rw [← String.length_toList] at hle
  simpa [hle] using congrArg List.length h

/-- The position of an offset denotes it. -/
theorem denotes_position (h : offset ≤ source.length) :
    (position source offset).Denotes source offset := by
  obtain ⟨before, line, hsplit, hlast, hline⟩ := exists_lines (source.toList.take offset)
  refine ⟨before, line, hsplit, hlast, hline, ?_⟩
  rw [position, lineStart_eq hsplit hlast hline, hsplit, List.count_append,
    List.count_eq_zero_of_not_mem hline, offset_eq hsplit h, Nat.add_sub_cancel_left, Nat.add_zero]

/-- The numbers of a position are no greater than the length of the document. -/
theorem Position.Denotes.le (h : p.Denotes source offset) (hle : offset ≤ source.length) :
    p.line ≤ source.length ∧ p.character ≤ source.length := by
  obtain ⟨before, line, hsplit, -, -, rfl⟩ := h
  have hoffset := offset_eq hsplit hle
  have hcount := List.count_le_length (a := '\n') (l := before)
  dsimp only
  omega

/-- Whole lines that another text begins with leave no line feed out. -/
theorem eq_nil_of_count_eq {more : List Char} (hlast : ∀ c ∈ (before ++ more).getLast?, c = '\n')
    (hcount : (before ++ more).count '\n' = before.count '\n') : more = [] := by
  by_contra hne
  rw [List.getLast?_append_of_ne_nil _ hne] at hlast
  have hmem : '\n' ∈ more := by
    have hend := List.getLast?_eq_some_getLast hne
    exact hlast _ hend ▸ List.getLast_mem hne
  have hpos := List.count_pos_iff.2 hmem
  rw [List.count_append] at hcount
  omega

/-- A position denotes one offset at most. -/
theorem Position.Denotes.unique (h : p.Denotes source offset) (h' : p.Denotes source offset')
    (hle : offset ≤ source.length) (hle' : offset' ≤ source.length) : offset = offset' := by
  obtain ⟨before, line, hsplit, hlast, -, rfl⟩ := h
  obtain ⟨before', line', hsplit', hlast', -, hp⟩ := h'
  obtain ⟨hcount, hwidth⟩ := Position.mk.inj hp
  have hprefix : before <+: source.toList :=
    (hsplit ▸ List.prefix_append before line).trans (List.take_prefix ..)
  have hprefix' : before' <+: source.toList :=
    (hsplit' ▸ List.prefix_append before' line').trans (List.take_prefix ..)
  have hsame : before = before' := by
    rcases List.prefix_or_prefix_of_prefix hprefix hprefix' with ⟨more, rfl⟩ | ⟨more, rfl⟩
    · rw [eq_nil_of_count_eq hlast' hcount.symm, List.append_nil]
    · rw [eq_nil_of_count_eq hlast hcount, List.append_nil]
  rw [offset_eq hsplit hle, offset_eq hsplit' hle', hsame, hwidth]

end Tabula.Editor
