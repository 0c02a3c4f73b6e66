import Tabula.Proofs.Condition.Token
import Tabula.Proofs.Token.Layout

/-!
# Pieces of a text

A text is cut between its tokens if every piece holds a token and none goes on over the end of a
piece (`CutBetween`). The lexemes of the text are then those of the pieces one after another
(`CutBetween.exists_layouts`), and a piece is laid out from its lexemes with any blanks around it
and with none (`Entered`): lexemes begin and end with no blank.
-/

namespace Tabula

/-- Blanks. -/
def AllBlank (s : List Char) : Prop := ∀ c ∈ s, Text.isBlank c = true

theorem AllBlank.cons {c : Char} {s : List Char} (hs : AllBlank s) (hc : Text.isBlank c = true) :
    AllBlank (c :: s) :=
  List.forall_mem_cons.2 ⟨hc, hs⟩

theorem AllBlank.append {s t : List Char} (hs : AllBlank s) (ht : AllBlank t) :
    AllBlank (s ++ t) :=
  List.forall_mem_append.2 ⟨hs, ht⟩

theorem AllBlank.unmarked {s : List Char} (h : AllBlank s) : Script.Unmarked s := by
  intro c hc
  constructor
  · rintro rfl
    exact absurd (h _ hc) (by decide)
  · rintro rfl
    exact absurd (h _ hc) (by decide)

/-- A text begins and ends with no blank. -/
structure Text.Trimmed (s : List Char) : Prop where
  front : Stops Text.isBlank s
  back : Stops Text.isBlank s.reverse

/-- A text of one token or more, without blanks around it. -/
structure Entered (s : String) (ls : List Lexeme) : Prop where
  ne_nil : ls ≠ []
  layout : Layout s.toList ls []
  trimmed : Text.Trimmed s.toList

/-- Pieces of a text that begin at an offset. Every piece holds a token, and no token goes on over
the end of a piece. -/
def CutBetween (tokens : List (Token Kind)) (start : Nat) : List (List Char) → Prop
  | [] => True
  | p :: ps =>
    (∃ t ∈ tokens, start ≤ t.pos ∧ t.pos + t.width ≤ start + p.length) ∧
    (∀ t ∈ tokens, t.pos + t.width ≤ start + p.length ∨ start + p.length ≤ t.pos) ∧
    CutBetween tokens (start + p.length) ps

/-! ### Blanks around a text -/

namespace Text

variable {s before after : List Char}

theorem trimStart_of_stops (h : Stops isBlank s) : trimStart s = s := by
  cases s with
  | nil => rfl
  | cons c s => exact List.dropWhile_cons_of_neg (by simp [h c rfl])

theorem trimEnd_of_stops (h : Stops isBlank s.reverse) : trimEnd s = s := by
  have hstart : s.reverse.dropWhile isBlank = s.reverse := trimStart_of_stops h
  rw [trimEnd, hstart, List.reverse_reverse]

theorem Trimmed.trim_eq (h : Trimmed s) : trim s = s := by
  rw [trim, trimStart_of_stops h.front, trimEnd_of_stops h.back]

theorem trimStart_padded (hbefore : AllBlank before) (h : Stops isBlank s) :
    trimStart (before ++ s) = s := by
  rw [trimStart, List.dropWhile_append_of_pos hbefore]
  exact trimStart_of_stops h

theorem trimEnd_padded (h : Stops isBlank s.reverse) (hafter : AllBlank after) :
    trimEnd (s ++ after) = s := by
  rw [trimEnd, List.reverse_append, List.dropWhile_append_of_pos fun c hc =>
    hafter c (List.mem_reverse.1 hc)]
  exact trimEnd_of_stops h

/-- Only the blanks around a text are trimmed off. -/
theorem Trimmed.trim_padded (h : Trimmed s) (hne : s ≠ []) (hbefore : AllBlank before)
    (hafter : AllBlank after) : trim (before ++ s ++ after) = s := by
  rw [trim, List.append_assoc, trimStart_padded hbefore (stops_append hne h.front after),
    trimEnd_padded h.back hafter]

theorem trimStart_eq_nil (h : AllBlank s) : trimStart s = [] :=
  List.dropWhile_eq_nil_iff.2 h

theorem exists_blanks_append (s : List Char) :
    ∃ before core, s = before ++ core ∧ AllBlank before ∧ Stops isBlank core :=
  ⟨_, _, List.takeWhile_append_dropWhile.symm, List.all_eq_true.1 List.all_takeWhile,
    stops_dropWhile _ s⟩

/-- A text is blank, or a text without blanks around it in the middle of blanks. -/
theorem allBlank_or_exists_trimmed (s : List Char) : AllBlank s ∨
    ∃ before core after, s = before ++ core ++ after ∧ AllBlank before ∧ AllBlank after ∧
      core ≠ [] ∧ Trimmed core := by
  obtain ⟨before, s, rfl, hbefore, hfront⟩ := exists_blanks_append s
  obtain ⟨after, core, hs, hafter, hback⟩ := exists_blanks_append s.reverse
  obtain rfl : s = core.reverse ++ after.reverse := by
    rw [← List.reverse_append, ← hs, List.reverse_reverse]
  have hafter : AllBlank after.reverse := fun c hc => hafter c (List.mem_reverse.1 hc)
  by_cases hne : core.reverse = []
  · refine .inl (hbefore.append ?_)
    simpa [hne] using hafter
  · refine .inr ⟨before, core.reverse, after.reverse, by simp, hbefore, hafter, hne, ?_, ?_⟩
    · rwa [Stops, List.head?_append_of_ne_nil _ hne] at hfront
    · rwa [List.reverse_reverse]

theorem Trimmed.not_allBlank (h : Trimmed s) (hne : s ≠ []) :
    ¬ AllBlank (before ++ s ++ after) := by
  obtain ⟨c, hc⟩ := Option.isSome_iff_exists.1 (List.isSome_head?.2 hne)
  intro hall
  have hblank := hall c (by simp [List.mem_of_mem_head? hc])
  rw [h.front c hc] at hblank
  cases hblank

theorem allBlank_iff_strip_eq {text : String} : AllBlank text.toList ↔ strip text = "" := by
  rw [← String.toList_inj, toList_strip, String.toList_empty]
  constructor
  · intro h
    rw [trim, trimStart_eq_nil h]
    rfl
  · intro htrim
    rcases allBlank_or_exists_trimmed text.toList with hblank |
      ⟨before, core, after, htext, hbefore, hafter, hne, hcore⟩
    · exact hblank
    · rw [htext, hcore.trim_padded hne hbefore hafter] at htrim
      exact absurd htrim hne

theorem isBlank_of_isSkipped {c : Char} (h : isSkipped c = true) : isBlank c = true := by
  have hc : c = ' ' ∨ c = '\t' ∨ c = '\r' ∨ c = '\n' := by
    simpa [isSkipped, or_assoc] using h
  rcases hc with rfl | rfl | rfl | rfl <;> decide

end Text

/-- A lexeme begins and ends with no blank. -/
theorem Rule.Gives.trimmed_source {r : Rule} {l : Lexeme} {rest : List Char} (h : r.Gives l rest)
    (hr : r ∈ rules) : Text.Trimmed l.source := by
  have hall : ∀ {s : List Char}, (∀ c ∈ s, Text.isBlank c = false) → Text.Trimmed s := fun hs =>
    ⟨fun c hc => hs c (List.mem_of_mem_head? hc),
      fun c hc => hs c (List.mem_reverse.1 (List.mem_of_mem_head? hc))⟩
  cases h with
  | reserved hword => exact hall fun c hc => isBlank_of_isWordTail (hword.isWordTail hc)
  | name hword => exact hall fun c hc => isBlank_of_isWordTail (hword.isWordTail hc)
  | float hsign hwhole hfraction =>
    exact hall fun c hc => Token.isBlank_of_isNumeral (isNumeral_float hsign hwhole hfraction c hc)
  | integer hsign hwhole =>
    exact hall fun c hc => Token.isBlank_of_isNumeral (isNumeral_integer hsign hwhole c hc)
  | @string body =>
    refine ⟨Term.stops_quoted body, fun c hc => ?_⟩
    obtain rfl : '\'' = c := by simpa using hc
    decide
  | symbol =>
    have hp := forall_symbol (p := fun _ spelling => spelling.all fun c => !Text.isBlank c)
      (by decide) hr
    exact hall (by simpa using hp)

theorem Lexeme.Picked.trimmed_source {s : List Char} {l : Lexeme} (h : Picked s l) :
    l.source ≠ [] ∧ Text.Trimmed l.source := by
  obtain ⟨r, hr, rest, -, hgives⟩ := h.exists_gives
  exact ⟨source_ne_nil (first?_eq_some_iff.2 h), hgives.trimmed_source hr⟩

/-! ### Blanks around a layout -/

namespace Layout

variable {s rest : List Char} {ls : List Lexeme} {l : Lexeme}

theorem allBlank (h : Layout s [] rest) : AllBlank s := by
  generalize hls : [] = ls at h
  induction h with
  | nil => simp [AllBlank]
  | skip hc _ ih => exact (ih hls).cons (Text.isBlank_of_isSkipped hc)
  | cons => cases hls

theorem eq_nil (h : Layout [] ls rest) : ls = [] := by
  generalize hs : [] = s at h
  cases h with
  | nil => rfl
  | skip => cases hs
  | cons hl => exact absurd (List.append_eq_nil_iff.1 hs.symm).1 hl.trimmed_source.1

/-- The first lexeme is at the start of a text that begins with no blank. -/
theorem exists_append_of_stops (h : Layout s (l :: ls) rest) (hs : Stops Text.isBlank s) :
    Lexeme.Picked (s ++ rest) l ∧ ∃ s', s = l.source ++ s' := by
  cases h with
  | skip hc =>
    have hblank := Text.isBlank_of_isSkipped hc
    rw [hs _ rfl] at hblank
    cases hblank
  | @cons _ s' _ _ hl => exact ⟨by simpa using hl, s', rfl⟩

/-- Behind the last lexeme there are only blanks. -/
theorem exists_append_blanks (h : Layout s (ls ++ [l]) rest) :
    ∃ body blanks, s = body ++ l.source ++ blanks ∧ AllBlank blanks := by
  obtain ⟨body, blanks, rfl, -, -, hblanks⟩ := h.exists_split
  exact ⟨body, blanks, (List.append_assoc ..).symm, hblanks.allBlank⟩

theorem exists_front (h : Layout s ls rest) : ∃ before core, s = before ++ core ∧
    AllBlank before ∧ Stops Text.isBlank core ∧ Layout core ls rest := by
  induction h with
  | nil => exact ⟨[], [], rfl, by simp [AllBlank], nofun, .nil⟩
  | @skip c s _ _ hc _ ih =>
    obtain ⟨before, core, rfl, hbefore, hcore⟩ := ih
    exact ⟨c :: before, core, rfl, hbefore.cons (Text.isBlank_of_isSkipped hc), hcore⟩
  | @cons l s _ _ hl hs _ =>
    obtain ⟨hne, htrimmed⟩ := hl.trimmed_source
    exact ⟨[], l.source ++ s, rfl, by simp [AllBlank], stops_append hne htrimmed.front s,
      .cons hl hs⟩

theorem exists_back (h : Layout s ls rest) : ∃ core after, s = core ++ after ∧
    AllBlank after ∧ Stops Text.isBlank core.reverse ∧ Layout core ls [] := by
  induction h with
  | nil => exact ⟨[], [], rfl, by simp [AllBlank], nofun, .nil⟩
  | @skip c s _ _ hc _ ih =>
    obtain ⟨core, after, rfl, hafter, hstops, hcore⟩ := ih
    cases core with
    | nil => exact ⟨[], c :: after, rfl, hafter.cons (Text.isBlank_of_isSkipped hc), hstops, hcore⟩
    | cons d core =>
      have hend : Stops Text.isBlank ([c] ++ d :: core).reverse :=
        (stops_reverse_append (List.cons_ne_nil d core)).2 hstops
      exact ⟨c :: d :: core, after, rfl, hafter, hend, .skip hc hcore⟩
  | @cons l s rest _ hl _ ih =>
    obtain ⟨core, after, rfl, hafter, hstops, hcore⟩ := ih
    rw [List.append_assoc] at hl
    refine ⟨l.source ++ core, after, by simp, hafter, ?_, .cons (hl.loosen loose_nil) hcore⟩
    cases core with
    | nil => simpa using hl.trimmed_source.2.back
    | cons d core => exact (stops_reverse_append (List.cons_ne_nil d core)).2 hstops

/-- What is left of a layout without the blanks around it. -/
theorem entered_trim (h : Layout s ls rest) (hne : ls ≠ []) {before after : List Char}
    (hbefore : AllBlank before) (hafter : AllBlank after) :
    Entered (String.ofList (Text.trim (before ++ s ++ after))) ls := by
  obtain ⟨front, s, rfl, hfront, hstart, hs⟩ := h.exists_front
  obtain ⟨core, back, rfl, hback, hend, hcore⟩ := hs.exists_back
  have hcore_ne : core ≠ [] := by
    rintro rfl
    exact hne hcore.eq_nil
  have htrimmed : Text.Trimmed core := by
    refine ⟨fun c hc => hstart c ?_, hend⟩
    rwa [List.head?_append_of_ne_nil _ hcore_ne]
  have htrim : Text.trim (before ++ (front ++ (core ++ back)) ++ after) = core := by
    have hpadded := htrimmed.trim_padded hcore_ne (hbefore.append hfront)
      (hback.append hafter)
    simpa using hpadded
  rw [htrim]
  exact ⟨hne, by simpa using hcore, by simpa using htrimmed⟩

end Layout

/-! ### Pieces -/

/-- The lexemes of a text are those of its pieces. -/
theorem CutBetween.exists_layouts {text : List Char} {tokens earlier later : List (Token Kind)}
    {start : Nat} {pieces : List (List Char)} (h : CutBetween tokens start pieces)
    (htokens : tokens = earlier ++ later) (hearlier : ∀ t ∈ earlier, t.pos < start)
    (hcovers : Covers text start text.length later) (htext : text.drop start = pieces.flatten) :
    ∃ lss : List (List Lexeme), List.Forall₂ (fun p ls => ls ≠ [] ∧ ∃ rest, Layout p ls rest)
        pieces lss ∧ later.map Token.unplaced = lss.flatten.map (·.token 0) := by
  induction pieces generalizing start earlier later with
  | nil =>
    have hstart : start = text.length := by
      have hlength := congrArg List.length htext
      have hle := hcovers.start_le
      simp at hlength
      omega
    subst hstart
    exact ⟨[], .nil, by simp [hcovers.eq_nil]⟩
  | cons p ps ih =>
    obtain ⟨⟨t, ht, hin⟩, hgap, hps⟩ := h
    have hlength : start + p.length ≤ text.length := by
      have hlength := congrArg List.length htext
      have hle := hcovers.start_le
      simp at hlength
      omega
    obtain ⟨before, after, rfl, hbefore, hafter⟩ :=
      hcovers.split (Nat.le_add_right _ _) hlength fun u hu => hgap u (by simp [htokens, hu])
    have hpiece : (text.drop start).take (start + p.length - start) = p := by
      rw [htext, List.flatten_cons, Nat.add_sub_cancel_left, List.take_left]
    obtain ⟨ls, hlayout, hls⟩ := hbefore.exists_layout
    rw [hpiece] at hlayout
    -- the token of the piece is neither in front of it nor behind it
    have hne : before ≠ [] := by
      rintro rfl
      rw [htokens, List.nil_append] at ht
      rcases List.mem_append.1 ht with hmem | hmem
      · have := hearlier t hmem
        omega
      · have hpos := (hafter.inside t hmem).1
        have hwidth := hafter.width_pos hmem
        omega
    have hbehind : ∀ u ∈ earlier ++ before, u.pos < start + p.length := by
      refine List.forall_mem_append.2 ⟨fun u hu => ?_, fun u hu => ?_⟩
      · have := hearlier u hu
        omega
      · have hend := (hbefore.inside u hu).2
        have hwidth := hbefore.width_pos hu
        omega
    have hrest : text.drop (start + p.length) = ps.flatten := by
      rw [← List.drop_drop, htext, List.flatten_cons, List.drop_left]
    obtain ⟨lss, hlss, hmap⟩ := ih hps (by simp [htokens]) hbehind hafter hrest
    refine ⟨ls :: lss, .cons ⟨?_, _, hlayout⟩ hlss, by simp [hls, hmap]⟩
    rintro rfl
    exact hne (by simpa using hls)

end Tabula
