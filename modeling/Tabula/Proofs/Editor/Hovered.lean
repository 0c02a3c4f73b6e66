import Tabula.Proofs.Editor.Position
import Tabula.Proofs.Editor.Word
import Tabula.Proofs.Text.Plain

/-!
# Positions and the lines under the cursor

Positions count line feeds, and the lines that are looked at under the cursor end at every kind of
line break. A break that has no line feed is stray (`strays`). In front of the line of an offset
there are as many lines as its position says and as many more as there are stray breaks
(`exists_countedLine`). So the character at a position is the one at the offset as long as there is
no stray break in front, and behind the first one there is none (`hover_position`).

## Main definitions

* `charAt?` — the character of a document at a position.
* `strays` — the number of stray line breaks in front of an offset.
* `IsLineOf` — the line that an offset is in.
-/

namespace Tabula.Editor

open Text (linesWithBreaks isLineBreak consFirst)

/-- The character of a document at a position, its lines cut as they are under the cursor. -/
def charAt? (source : String) (p : Position) : Option Char :=
  (linesWithBreaks source.toList)[p.line]?.bind (·[p.character]?)

/-- Whether a text begins with a line break that has no line feed. A carriage return in front of a
line feed is no break of its own. -/
def startsStray : List Char → Bool
  | '\r' :: '\n' :: _ => false
  | c :: _ => isLineBreak c && c != '\n'
  | [] => false

/-- The number of line breaks without a line feed in front of an offset. -/
def strays (s : List Char) (p : Nat) : Nat := (List.range p).countP fun i => startsStray (s.drop i)

/-- The line that an offset is in, between those before it and those after it. -/
structure IsLineOf (s : List Char) (p : Nat) (before : List (List Char)) (middle : List Char)
    (after : List (List Char)) : Prop where
  split : linesWithBreaks s = before ++ middle :: after
  start_le : before.flatten.length ≤ p
  lt_stop : p < before.flatten.length + middle.length

/-- The position of an offset in a list of characters. -/
def positionIn (s : List Char) (p : Nat) : Position := position (String.ofList s) p

variable {s l : List Char} {ls before after : List (List Char)} {middle : List Char} {c : Char}
  {p : Nat}

/-! ### Positions along a text -/

theorem positionIn_eq {before line : List Char} (h : s.take p = before ++ line)
    (hlast : ∀ c ∈ before.getLast?, c = '\n') (hline : '\n' ∉ line) :
    positionIn s p = ⟨before.count '\n', p - before.length⟩ := by
  have hstart : lineStart (String.ofList s) p = before.length :=
    lineStart_eq (by rw [String.toList_ofList, h]) hlast hline
  rw [positionIn, position, hstart, String.toList_ofList, h, List.count_append,
    List.count_eq_zero_of_not_mem hline, Nat.add_zero]

theorem positionIn_zero (s : List Char) : positionIn s 0 = ⟨0, 0⟩ :=
  @positionIn_eq s 0 [] [] List.take_zero (by simp) (by simp)

theorem positionIn_cons_lineFeed (s : List Char) (p : Nat) :
    positionIn ('\n' :: s) (p + 1) =
      ⟨(positionIn s p).line + 1, (positionIn s p).character⟩ := by
  obtain ⟨before, line, hsplit, hlast, hline⟩ := exists_lines (s.take p)
  have hsplit' : ('\n' :: s).take (p + 1) = ('\n' :: before) ++ line := by
    rw [List.take_succ_cons, hsplit, List.cons_append]
  have hlast' : ∀ c ∈ ('\n' :: before).getLast?, c = '\n' := by
    cases before with
    | nil => simp
    | cons d before => simpa using hlast
  rw [positionIn_eq hsplit' hlast' hline, positionIn_eq hsplit hlast hline]
  simp

/-- A character that is no line feed moves the rest of its line. -/
theorem positionIn_cons_of_ne (hc : c ≠ '\n') (s : List Char) (p : Nat) :
    positionIn (c :: s) (p + 1) =
      if (positionIn s p).line = 0 then ⟨0, (positionIn s p).character + 1⟩
      else positionIn s p := by
  obtain ⟨before, line, hsplit, hlast, hline⟩ := exists_lines (s.take p)
  rw [positionIn_eq hsplit hlast hline]
  cases before with
  | nil =>
    have hsplit' : (c :: s).take (p + 1) = [] ++ c :: line := by
      rw [List.take_succ_cons, hsplit, List.nil_append, List.nil_append]
    rw [positionIn_eq hsplit' (by simp) (by simp [hline, hc.symm])]
    simp
  | cons d before =>
    have hsplit' : (c :: s).take (p + 1) = (c :: d :: before) ++ line := by
      rw [List.take_succ_cons, hsplit]
      rfl
    have hend := List.getLast?_eq_some_getLast (List.cons_ne_nil d before)
    have hpos := List.count_pos_iff.2 (hlast _ hend ▸ List.getLast_mem (List.cons_ne_nil d before))
    rw [positionIn_eq hsplit' (by simpa using hlast) hline, if_neg (Nat.ne_of_gt hpos),
      List.count_cons_of_ne hc]
    simp

/-- Behind a character that is no line feed its line goes on. -/
theorem positionIn_succ (hc : s[p]? = some c) (hne : c ≠ '\n') :
    positionIn s (p + 1) = ⟨(positionIn s p).line, (positionIn s p).character + 1⟩ := by
  obtain ⟨before, line, hsplit, hlast, hline⟩ := exists_lines (s.take p)
  have hsplit' : s.take (p + 1) = before ++ (line ++ [c]) := by
    rw [List.take_add_one, hc, hsplit, List.append_assoc]
    rfl
  have hlength : before.length ≤ p := by
    have hlength := congrArg List.length hsplit
    rw [List.length_take, List.length_append] at hlength
    omega
  rw [positionIn_eq hsplit' hlast (by simp [hline, hne.symm]), positionIn_eq hsplit hlast hline,
    Nat.sub_add_comm hlength]

/-! ### Stray breaks along a text -/

theorem strays_zero (s : List Char) : strays s 0 = 0 := rfl

theorem strays_cons (c : Char) (s : List Char) (p : Nat) :
    strays (c :: s) (p + 1) = (if startsStray (c :: s) then 1 else 0) + strays s p := by
  rw [strays, List.range_succ_eq_map, List.countP_cons, List.countP_map, Nat.add_comm]
  rfl

theorem strays_succ (s : List Char) (p : Nat) :
    strays s (p + 1) = strays s p + if startsStray (s.drop p) then 1 else 0 := by
  simp [strays, List.range_succ]

theorem strays_eq_zero_iff : strays s p = 0 ↔ ∀ i < p, startsStray (s.drop i) = false := by
  simp [strays, List.countP_eq_zero]

/-- Among stray breaks there is a first one. -/
theorem exists_first_stray (h : strays s p ≠ 0) :
    ∃ i < p, strays s i = 0 ∧ startsStray (s.drop i) = true := by
  induction p with
  | zero => exact absurd (strays_zero s) h
  | succ p ih =>
    by_cases hp : strays s p = 0
    · rw [strays_succ, hp] at h
      exact ⟨p, Nat.lt_succ_self p, hp, by simpa using h⟩
    · obtain ⟨i, hi, hstray⟩ := ih hp
      exact ⟨i, Nat.lt_succ_of_lt hi, hstray⟩

theorem startsStray_cons (hpair : ∀ r, c = '\r' → s = '\n' :: r → False) :
    startsStray (c :: s) = (isLineBreak c && c != '\n') := by
  unfold startsStray
  split <;> grind

/-! ### The line of an offset -/

theorem IsLineOf.first (hl : linesWithBreaks s = l :: ls) (h : p < l.length) :
    IsLineOf s p [] l ls :=
  ⟨hl, Nat.zero_le p, by simpa using h⟩

/-- A line in front of the others moves them. -/
theorem IsLineOf.shift {s' : List Char} (h : IsLineOf s p before middle after)
    (hl : linesWithBreaks s' = l :: linesWithBreaks s) :
    IsLineOf s' (l.length + p) (l :: before) middle after where
  split := by rw [hl, h.split, List.cons_append]
  start_le := by
    rw [List.flatten_cons, List.length_append]
    exact Nat.add_le_add_left h.start_le _
  lt_stop := by
    rw [List.flatten_cons, List.length_append, Nat.add_assoc]
    exact Nat.add_lt_add_left h.lt_stop _

/-- In front of the line of an offset are as many lines as the position of the offset says and as
many more as there are stray breaks. If there is none, the position counts characters from the start
of this line; and a stray break at the offset ends it. -/
structure CountedLine (s : List Char) (p : Nat) (before : List (List Char)) (middle : List Char)
    (after : List (List Char)) : Prop extends IsLineOf s p before middle after where
  length_before : before.length = (positionIn s p).line + strays s p
  character_eq : strays s p = 0 → before.flatten.length + (positionIn s p).character = p
  stray_ends : startsStray (s.drop p) = true → p + 1 = before.flatten.length + middle.length

theorem linesWithBreaks_pair (s : List Char) :
    linesWithBreaks ('\r' :: '\n' :: s) = ['\r', '\n'] :: linesWithBreaks s := by
  rw [linesWithBreaks]

theorem linesWithBreaks_cons (hpair : ∀ r, c = '\r' → s = '\n' :: r → False) :
    linesWithBreaks (c :: s) =
      if isLineBreak c then [c] :: linesWithBreaks s else consFirst c (linesWithBreaks s) := by
  rw [linesWithBreaks]
  exact hpair

namespace CountedLine

theorem zero (hl : linesWithBreaks s = l :: ls) (hpos : 0 < l.length)
    (hstray : startsStray s = true → l.length = 1) : CountedLine s 0 [] l ls where
  toIsLineOf := .first hl hpos
  length_before := by simp [positionIn_zero, strays_zero]
  character_eq := by simp [positionIn_zero]
  stray_ends h := by simp [hstray h]

/-- A line in front of the others has one break, with a line feed or without. -/
theorem shift {s' : List Char} (h : CountedLine s p before middle after)
    (hl : linesWithBreaks s' = l :: linesWithBreaks s) (hs : s' = l ++ s)
    (hline : (positionIn s' (l.length + p)).line + strays s' (l.length + p) =
      (positionIn s p).line + strays s p + 1)
    (hcharacter : strays s' (l.length + p) = 0 → strays s p = 0 ∧
      (positionIn s' (l.length + p)).character = (positionIn s p).character) :
    CountedLine s' (l.length + p) (l :: before) middle after where
  toIsLineOf := h.toIsLineOf.shift hl
  length_before := by
    rw [hline, List.length_cons, h.length_before]
  character_eq := by
    intro hnone
    obtain ⟨hnone, hsame⟩ := hcharacter hnone
    rw [hsame, List.flatten_cons, List.length_append, Nat.add_assoc, h.character_eq hnone]
  stray_ends := by
    intro hstray
    rw [hs, List.drop_append, List.drop_of_length_le (Nat.le_add_right _ _), List.nil_append,
      Nat.add_sub_cancel_left] at hstray
    have hends := h.stray_ends hstray
    rw [List.flatten_cons, List.length_append]
    omega

/-- A carriage return and a line feed are one line, which the position counts. -/
theorem consPair (h : CountedLine s p before middle after) :
    CountedLine ('\r' :: '\n' :: s) (2 + p) (['\r', '\n'] :: before) middle after := by
  have hposition : positionIn ('\r' :: '\n' :: s) (2 + p) =
      ⟨(positionIn s p).line + 1, (positionIn s p).character⟩ := by
    simp [Nat.add_comm 2 p, positionIn_cons_of_ne, positionIn_cons_lineFeed]
  have hstrays : strays ('\r' :: '\n' :: s) (2 + p) = strays s p := by
    simp [Nat.add_comm 2 p, strays_cons, startsStray]
  refine h.shift (linesWithBreaks_pair s) rfl ?_ fun hnone => ⟨hstrays ▸ hnone, ?_⟩
  · simp only [List.length_cons, List.length_nil, hposition, hstrays]
    omega
  · simp only [List.length_cons, List.length_nil, hposition]

/-- Any other break is one line, which the position counts if the break is a line feed; if not, the
break is stray. -/
theorem consBreak (h : CountedLine s p before middle after)
    (hpair : ∀ r, c = '\r' → s = '\n' :: r → False) (hbreak : isLineBreak c = true) :
    CountedLine (c :: s) (1 + p) ([c] :: before) middle after := by
  have hsplit := linesWithBreaks_cons hpair
  rw [if_pos hbreak] at hsplit
  have hstray := startsStray_cons hpair
  rw [hbreak, Bool.true_and] at hstray
  by_cases hc : c = '\n'
  · subst hc
    refine h.shift hsplit rfl ?_ ?_ <;>
      simp [Nat.add_comm 1 p, positionIn_cons_lineFeed, strays_cons, hstray]
    omega
  · have hposition : (positionIn (c :: s) (p + 1)).line = (positionIn s p).line := by
      rw [positionIn_cons_of_ne hc]
      split <;> simp_all
    refine h.shift hsplit rfl ?_ ?_ <;>
      simp [Nat.add_comm 1 p, hposition, strays_cons, hstray, hc]
    omega

/-- A character that is no break makes the first line longer. -/
theorem consFirst (h : CountedLine s p before middle after)
    (hpair : ∀ r, c = '\r' → s = '\n' :: r → False) (hbreak : ¬ isLineBreak c = true) :
    ∃ before middle after, CountedLine (c :: s) (p + 1) before middle after := by
  have hc : c ≠ '\n' := by
    rintro rfl
    exact hbreak rfl
  have hsplit := linesWithBreaks_cons hpair
  rw [if_neg hbreak, h.split] at hsplit
  have hposition := positionIn_cons_of_ne hc s p
  have hstrays : strays (c :: s) (p + 1) = strays s p := by
    simp [strays_cons, startsStray_cons hpair, hbreak]
  have hlength := h.length_before
  have hcharacter := h.character_eq
  have hends := h.stray_ends
  have hstart := h.start_le
  have hstop := h.lt_stop
  cases before with
  | nil =>
    -- the offset is in the first line, so neither a line feed nor a stray break is in front of it
    have hline : (positionIn s p).line = 0 := by
      simp only [List.length_nil] at hlength
      omega
    rw [if_pos hline] at hposition
    refine ⟨[], c :: middle, after, ⟨hsplit, ?_, ?_⟩, ?_, ?_, ?_⟩
    all_goals grind
  | cons first before =>
    refine ⟨(c :: first) :: before, middle, after, ⟨hsplit, ?_, ?_⟩, ?_, ?_, ?_⟩
    all_goals grind

end CountedLine

/-- Every offset is in a line. -/
theorem exists_countedLine (h : p < s.length) :
    ∃ before middle after, CountedLine s p before middle after := by
  -- along the lines, as they are cut: what is put in front is a pair, another break, or no break
  fun_induction linesWithBreaks s generalizing p with
  | case1 => simp at h
  | case2 s ih =>
    rcases p with _ | _ | p
    · exact ⟨[], _, _, .zero (linesWithBreaks_pair s) (by simp) (by simp [startsStray])⟩
    · -- the line feed of the pair is in the same line
      refine ⟨[], _, _, .first (linesWithBreaks_pair s) (by simp), ?_, ?_, ?_⟩ <;>
        simp [positionIn_cons_of_ne, positionIn_zero, strays_cons, strays_zero, startsStray]
    · obtain ⟨before, middle, after, hline⟩ := ih (by simpa using h)
      rw [Nat.add_assoc, Nat.add_comm p 2]
      exact ⟨_, middle, after, hline.consPair⟩
  | case3 c s hpair hbreak ih =>
    cases p with
    | zero =>
      have hsplit := linesWithBreaks_cons hpair
      rw [if_pos hbreak] at hsplit
      exact ⟨[], _, _, .zero hsplit (by simp) (by simp)⟩
    | succ p =>
      obtain ⟨before, middle, after, hline⟩ := ih (by simpa using h)
      rw [Nat.add_comm p 1]
      exact ⟨_, middle, after, hline.consBreak hpair hbreak⟩
  | case4 c s hpair hbreak ih =>
    cases p with
    | zero =>
      have hfirst : ∃ l ls, linesWithBreaks (c :: s) = l :: ls ∧ 0 < l.length := by
        rw [linesWithBreaks_cons hpair, if_neg hbreak]
        cases linesWithBreaks s <;> simp [consFirst]
      obtain ⟨l, ls, hline, hpos⟩ := hfirst
      refine ⟨[], l, ls, .zero hline hpos fun hstray => ?_⟩
      rw [startsStray_cons hpair, Bool.eq_false_iff.2 hbreak] at hstray
      cases hstray
    | succ p =>
      obtain ⟨before, middle, after, hline⟩ := ih (by simpa using h)
      exact hline.consFirst hpair hbreak

theorem IsLineOf.eq_append (h : IsLineOf s p before middle after) :
    s = before.flatten ++ (middle ++ after.flatten) := by
  rw [← List.flatten_cons, ← List.flatten_append, ← h.split, Text.flatten_linesWithBreaks]

/-- The character at an offset is in its line. -/
theorem IsLineOf.getElem?_eq (h : IsLineOf s p before middle after) :
    middle[p - before.flatten.length]? = s[p]? := by
  have hstart := h.start_le
  have hstop := h.lt_stop
  rw [h.eq_append, List.getElem?_append_right hstart, List.getElem?_append_left (by omega)]

/-- Every line but the last one ends in a line break. -/
theorem exists_isLineBreak_getLast? {next : List Char}
    (h : linesWithBreaks s = before ++ middle :: next :: after) :
    ∃ c ∈ middle.getLast?, isLineBreak c = true := by
  fun_induction linesWithBreaks s generalizing before middle with
  | case1 => simp at h
  | case2 s ih =>
    cases before with
    | nil =>
      obtain ⟨rfl, -⟩ := List.cons.inj h
      exact ⟨'\n', rfl, rfl⟩
    | cons first before => exact ih (List.cons.inj h).2
  | case3 c s hpair hbreak ih =>
    cases before with
    | nil =>
      obtain ⟨rfl, -⟩ := List.cons.inj h
      exact ⟨c, rfl, hbreak⟩
    | cons first before => exact ih (List.cons.inj h).2
  | case4 c s hpair hbreak ih =>
    cases hs : linesWithBreaks s with
    | nil =>
      rw [hs] at h
      simp [consFirst, List.cons_eq_append_iff] at h
    | cons first ls =>
      rw [hs] at h
      cases before with
      | nil =>
        obtain ⟨rfl, rfl⟩ := List.cons.inj h
        obtain ⟨d, hd, hbreak⟩ := @ih [] first hs
        exact ⟨d, by rw [List.getLast?_cons, hd]; rfl, hbreak⟩
      | cons head before =>
        obtain ⟨-, rfl⟩ := List.cons.inj h
        exact @ih (first :: before) middle hs

/-! ### Characters and words at positions -/

theorem positionIn_toList (source : String) (p : Nat) :
    positionIn source.toList p = position source p := by
  rw [positionIn, String.ofList_toList]

theorem CountedLine.getElem?_line (h : CountedLine s p before middle after)
    (hnone : strays s p = 0) : (linesWithBreaks s)[(positionIn s p).line]? = some middle := by
  have hlength := h.length_before
  rw [hnone, Nat.add_zero] at hlength
  rw [h.split, ← hlength]
  simp

variable {source : String}

/-- Without stray breaks in front of an offset, its character is at its position. -/
theorem charAt?_position (hp : p < source.length) (hnone : strays source.toList p = 0) :
    charAt? source (position source p) = source.toList[p]? := by
  rw [← String.length_toList] at hp
  obtain ⟨before, middle, after, hline⟩ := exists_countedLine hp
  have hcharacter : (positionIn source.toList p).character = p - before.flatten.length := by
    have := hline.character_eq hnone
    omega
  rw [← positionIn_toList, charAt?, hline.getElem?_line hnone, Option.bind_some, hcharacter,
    hline.getElem?_eq]

/-- Behind the first stray break there is no character at the position: its line has ended. -/
theorem charAt?_position_of_startsStray (hp : p < source.length)
    (hnone : strays source.toList p = 0) (hstray : startsStray (source.toList.drop p) = true) :
    charAt? source (position source (p + 1)) = none := by
  rw [← String.length_toList] at hp
  obtain ⟨before, middle, after, hline⟩ := exists_countedLine hp
  have hne : source.toList[p] ≠ '\n' := by
    intro hfeed
    rw [List.drop_eq_getElem_cons hp, hfeed] at hstray
    simp [startsStray] at hstray
  have hends := hline.stray_ends hstray
  have hcharacter := hline.character_eq hnone
  have hout : middle.length ≤ (positionIn source.toList p).character + 1 := by omega
  rw [← positionIn_toList, positionIn_succ (List.getElem?_eq_getElem hp) hne, charAt?,
    hline.getElem?_line hnone, Option.bind_some, List.getElem?_eq_none hout]

/-- What is taken from the front of two texts ends in the first one if the second one stops it. -/
theorem takeWhile_append_eq {q : Char → Bool} {x y : List Char} (h : Stops q y) :
    (x ++ y).takeWhile q = x.takeWhile q := by
  induction x with
  | nil =>
    cases y with
    | nil => rfl
    | cons c y => simp [h c rfl]
  | cons c x ih => by_cases hc : q c = true <;> simp [hc, ih]

theorem takeWhile_append_of_getLast? {q : Char → Bool} {x : List Char}
    (h : ∃ c ∈ x.getLast?, q c = false) (y : List Char) :
    (x ++ y).takeWhile q = x.takeWhile q := by
  obtain ⟨c, hc, hstop⟩ := h
  obtain ⟨init, rfl⟩ := List.getLast?_eq_some_iff.1 hc
  have hstops (z : List Char) : Stops q (c :: z) := by
    rintro _ ⟨⟩
    exact hstop
  rw [List.append_assoc, List.singleton_append, takeWhile_append_eq (hstops y),
    takeWhile_append_eq (hstops [])]

/-- A word does not reach over an end of a line. -/
theorem wordAt_append {front middle rest : List Char} {i : Nat} (hi : i < middle.length)
    (hfront : Stops Text.isWordChar front.reverse)
    (hrest : rest = [] ∨ ∃ c ∈ middle.getLast?, Text.isWordChar c = false) :
    wordAt (String.ofList (front ++ (middle ++ rest))) (front.length + i : Nat) =
      wordAt (String.ofList middle) i := by
  have hget : (front ++ (middle ++ rest))[front.length + i]? = middle[i]? := by
    rw [List.getElem?_append_right (Nat.le_add_right _ _), Nat.add_sub_cancel_left,
      List.getElem?_append_left hi]
  have htake : (front ++ (middle ++ rest)).take (front.length + i) = front ++ middle.take i := by
    rw [List.take_length_add_append, List.take_append_of_le_length (Nat.le_of_lt hi)]
  have hbehind : wordEnd (front ++ middle.take i) = wordEnd (middle.take i) := by
    rw [wordEnd, wordEnd, List.reverse_append, takeWhile_append_eq hfront]
  have hdrop : (front ++ (middle ++ rest)).drop (front.length + i) = middle.drop i ++ rest := by
    rw [← List.drop_drop, List.drop_left, List.drop_append_of_le_length (Nat.le_of_lt hi)]
  have hahead : (middle.drop i ++ rest).takeWhile Text.isWordChar =
      (middle.drop i).takeWhile Text.isWordChar := by
    rcases hrest with rfl | hend
    · rw [List.append_nil]
    · apply takeWhile_append_of_getLast?
      rwa [List.getLast?_drop, if_neg (Nat.not_le_of_lt hi)]
  rw [wordAt_eq, wordAt_eq, String.toList_ofList, String.toList_ofList, hget, htake, hdrop,
    hbehind, hahead]

theorem not_isWordChar_of_isLineBreak (h : isLineBreak c = true) : Text.isWordChar c = false := by
  rw [Bool.eq_false_iff]
  intro hword
  have hno := Text.not_break_of (p := Text.isWordChar) (by decide +kernel) hword
  rw [h] at hno
  cases hno

/-- Without stray breaks in front of an offset, the word under the cursor at its position is the
word around the offset. -/
theorem hover?_position (hp : p < source.length) (hnone : strays source.toList p = 0) :
    hover? source (position source p) =
      if wordAt source p = "" then none else hoverText? (wordAt source p) := by
  rw [← String.length_toList] at hp
  obtain ⟨before, middle, after, hline⟩ := exists_countedLine hp
  have hcharacter := hline.character_eq hnone
  have hstop := hline.lt_stop
  have hfront : Stops Text.isWordChar before.flatten.reverse := by
    intro c hc
    rw [List.head?_reverse] at hc
    rcases List.eq_nil_or_concat before with rfl | ⟨init, last, rfl⟩
    · cases hc
    have hsplit := hline.split
    rw [List.concat_eq_append] at hsplit hc
    rw [List.append_assoc, List.singleton_append] at hsplit
    obtain ⟨d, hd, hbreak⟩ := exists_isLineBreak_getLast? hsplit
    rw [List.flatten_append, List.flatten_singleton, List.getLast?_append, hd] at hc
    cases hc
    exact not_isWordChar_of_isLineBreak hbreak
  have hrest : after.flatten = [] ∨ ∃ c ∈ middle.getLast?, Text.isWordChar c = false := by
    have hsplit := hline.split
    cases after with
    | nil => exact .inl rfl
    | cons next after =>
      obtain ⟨c, hc, hbreak⟩ := exists_isLineBreak_getLast? hsplit
      exact .inr ⟨c, hc, not_isWordChar_of_isLineBreak hbreak⟩
  have hword : wordAt source p =
      wordAt (String.ofList middle) (positionIn source.toList p).character := by
    rw [← wordAt_append (by omega) hfront hrest, ← hline.eq_append, String.ofList_toList,
      hcharacter]
  rw [hover?, ← positionIn_toList, hline.getElem?_line hnone, hword]

/-- Up to an offset every character is at its position, in the lines that are looked at under the
cursor, if and only if no stray break is in front of the offset. The line of the offset has as many
more lines in front of it than its position says as there are stray breaks. If there is none, what
is shown at the position is what is said of the word around the offset. -/
theorem hover_position (source : String) {p : Nat} (hp : p < source.length) :
    ((∀ q ≤ p, charAt? source (position source q) = source.toList[q]?) ↔
      strays source.toList p = 0) ∧
    (∃ before middle after, IsLineOf source.toList p before middle after ∧
      middle[p - before.flatten.length]? = source.toList[p]? ∧
      before.length = (position source p).line + strays source.toList p) ∧
    (strays source.toList p = 0 → hover? source (position source p) =
      if wordAt source p = "" then none else hoverText? (wordAt source p)) := by
  refine ⟨⟨fun h => ?_, fun hnone q hq => ?_⟩, ?_, hover?_position hp⟩
  · by_contra hstrays
    obtain ⟨i, hi, hnone, hstray⟩ := exists_first_stray hstrays
    have hbehind : i + 1 < source.toList.length := by
      rw [String.length_toList]
      omega
    have hend := charAt?_position_of_startsStray (by omega) hnone hstray
    rw [h (i + 1) hi, List.getElem?_eq_getElem hbehind] at hend
    cases hend
  · refine charAt?_position (Nat.lt_of_le_of_lt hq hp) (strays_eq_zero_iff.2 fun i hi => ?_)
    exact strays_eq_zero_iff.1 hnone i (Nat.lt_of_lt_of_le hi hq)
  · obtain ⟨before, middle, after, hline⟩ := exists_countedLine (String.length_toList ▸ hp)
    exact ⟨before, middle, after, hline.toIsLineOf, hline.getElem?_eq,
      positionIn_toList source p ▸ hline.length_before⟩

/-- A carriage return in front of a line feed counts with it; one that is alone is stray. -/
theorem hover_position_carriageReturn :
    hover? "a\r\nUSE d;" (position "a\r\nUSE d;" 4) =
        some "**USE** — Select a database for the following statements" ∧
      strays "\rx".toList 1 = 1 ∧
      ¬ ∀ q ≤ 1, charAt? "\rx" (position "\rx" q) = "\rx".toList[q]? := by
  refine ⟨?_, by decide, fun h => ?_⟩
  · rw [(hover_position "a\r\nUSE d;" (by decide : 4 < "a\r\nUSE d;".length)).2.2 (by decide)]
    have hword : wordAt "a\r\nUSE d;" (4 : Nat) = "USE" := by decide +kernel
    rw [hword]
    decide +kernel
  · exact absurd ((hover_position "\rx" (by decide : 1 < "\rx".length)).1.1 h) (by decide)

end Tabula.Editor
