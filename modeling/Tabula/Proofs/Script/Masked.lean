import Mathlib.Data.List.Forall2
import Tabula.Proofs.Script.Comment
import Tabula.Shell.Launch

/-!
# Comments in strings

A line that begins with two hyphens is blanked out also where it is part of a string. If the line
holds no quote of its own, this changes the value of the string and nothing else. The relation
`Script.Masked` goes with a text from quote to quote: the text and its mask are cut into pieces at
the same semicolons (`Script.Masked.exists_pieces`), trimmed at the same places, and read as the
same tokens but for the texts of strings (`Script.Masked.scan`, `Script.Masked.tokenize`). So if no
comment goes beyond the string that it begins in, a script without its comments has the same
statements but for the values of strings (`Script.withoutComments_by_line`).

## Main definitions

* `Script.Masked` — a text in which characters between quotes may be blanked out.
* `Script.BeginsInString` — a line of a script begins inside a string.
* `Script.SameTokens` — outcomes of the lexer that differ in the texts of strings only.
* `Script.Rereads` — a statement is read as another one but for these texts.
-/

namespace Tabula.Script

/-- Two texts that begin inside or outside of quotes are the same but for characters in quotes, in
place of which the second may have blanks. Behind a quote that is never closed they may go on in any
way. -/
inductive Masked : Bool → List Char → List Char → Prop
  | nil {q : Bool} : Masked q [] []
  | same {q : Bool} {c : Char} {s t : List Char} :
      Masked (if c = '\'' then !q else q) s t → Masked q (c :: s) (c :: t)
  | blank {c : Char} {s t : List Char} : c ≠ '\'' → Masked true s t →
      Masked true (c :: s) (' ' :: t)
  | torn {s t : List Char} : '\'' ∉ s → '\'' ∉ t → Masked true s t

/-- A text that begins outside of quotes, and its mask. -/
def Fits (s t : List Char) : Prop := Masked false s t ∧ s.length = t.length

/-! ### Texts without quotes -/

section Plain

variable {s : List Char}

theorem outside_eq_nil_of_not_mem (h : '\'' ∉ s) (pos : Nat) : outside true pos s = [] := by
  induction s generalizing pos with
  | nil => rfl
  | cons c s ih =>
    simp only [List.mem_cons, not_or] at h
    rw [outside, if_neg (Ne.symm h.1), if_neg (by simp), ih h.2]

theorem trimEnd_cons (c : Char) (s : List Char) : Text.trimEnd (c :: s) =
    if Text.trimEnd s = [] ∧ Text.isBlank c = true then [] else c :: Text.trimEnd s := by
  rw [Text.trimEnd, Text.trimEnd, List.reverse_cons, List.dropWhile_append]
  by_cases hs : s.reverse.dropWhile Text.isBlank = []
  · cases hc : Text.isBlank c <;> simp [hs, hc]
  · simp [hs]

theorem not_mem_trimEnd (h : '\'' ∉ s) : '\'' ∉ Text.trimEnd s := by
  intro hmem
  have hback := (List.dropWhile_suffix (l := s.reverse) Text.isBlank).mem (List.mem_reverse.1 hmem)
  exact h (List.mem_reverse.1 hback)

end Plain

/-! ### Masks -/

namespace Masked

variable {q : Bool} {s t u v : List Char}

theorem append_left (u : List Char) (h : Masked (quoted q u) s t) :
    Masked q (u ++ s) (u ++ t) := by
  induction u generalizing q with
  | nil => exact h
  | cons c u ih => exact .same (ih h)

theorem refl (q : Bool) (s : List Char) : Masked q s s := by
  simpa using append_left s (.nil : Masked (quoted q s) [] [])

theorem replicate_append (hu : '\'' ∉ u) (h : Masked true s t) :
    Masked true (u ++ s) (List.replicate u.length ' ' ++ t) := by
  induction u with
  | nil => exact h
  | cons c u ih =>
    simp only [List.mem_cons, not_or] at hu
    exact .blank (Ne.symm hu.1) (ih hu.2)

/-! ### Semicolons -/

/-- A text and its mask are cut into pieces at the same semicolons. -/
theorem exists_pieces (h : Masked q s t) (hlength : s.length = t.length) :
    ∃ p ps p' ps', pieces q s = p :: ps ∧ pieces q t = p' :: ps' ∧ Masked q p p' ∧
      p.length = p'.length ∧ List.Forall₂ Fits ps ps' := by
  induction h with
  | nil => exact ⟨[], [], [], [], rfl, rfl, .nil, rfl, .nil⟩
  | @same q c s t hst ih =>
    obtain ⟨p, ps, p', ps', hs, ht, hp, hpp, hps⟩ := ih (by simpa using hlength)
    by_cases hquote : c = '\''
    · rw [if_pos hquote] at hs ht
      refine ⟨c :: p, ps, c :: p', ps', ?_, ?_, .same hp, by simpa using hpp, hps⟩ <;>
        simp [pieces, hquote, hs, ht, Text.consFirst]
    rw [if_neg hquote] at hs ht hp
    cases hsemicolon : decide (c = ';') && !q with
    | true =>
      obtain ⟨rfl, rfl⟩ : c = ';' ∧ q = false := by simpa using hsemicolon
      refine ⟨[';'], p :: ps, [';'], p' :: ps', ?_, ?_, refl _ _, rfl, .cons ⟨hp, hpp⟩ hps⟩ <;>
        simp [pieces, hs, ht]
    | false =>
      have hhead : Masked q (c :: p) (c :: p') := .same (by rwa [if_neg hquote])
      refine ⟨c :: p, ps, c :: p', ps', ?_, ?_, hhead, by simpa using hpp, hps⟩ <;>
        simp [pieces, hquote, hsemicolon, hs, ht, Text.consFirst]
  | @blank c s t hc hst ih =>
    obtain ⟨p, ps, p', ps', hs, ht, hp, hpp, hps⟩ := ih (by simpa using hlength)
    refine ⟨c :: p, ps, ' ' :: p', ps', ?_, ?_, .blank hc hp, by simpa using hpp, hps⟩ <;>
      simp [pieces, hc, hs, ht, Text.consFirst]
  | @torn s t hs ht =>
    refine ⟨s, [], t, [], ?_, ?_, .torn hs ht, hlength, .nil⟩
    · exact pieces_of_outside_eq_nil (outside_eq_nil_of_not_mem hs 0)
    · exact pieces_of_outside_eq_nil (outside_eq_nil_of_not_mem ht 0)

/-! ### Blanks around a statement -/

/-- A text and its mask begin with the same blanks. -/
theorem exists_trimStart (h : Masked false s t) : ∃ before, s = before ++ Text.trimStart s ∧
    t = before ++ Text.trimStart t ∧ Masked false (Text.trimStart s) (Text.trimStart t) := by
  induction s generalizing t with
  | nil =>
    cases h
    exact ⟨[], rfl, rfl, .nil⟩
  | cons c s ih =>
    cases h with
    | @same _ _ _ t hst =>
      cases hc : Text.isBlank c with
      | false =>
        have hstop (r : List Char) : Text.trimStart (c :: r) = c :: r := by
          simp [Text.trimStart, hc]
        rw [hstop, hstop]
        exact ⟨[], rfl, rfl, .same hst⟩
      | true =>
        have hskip (r : List Char) : Text.trimStart (c :: r) = Text.trimStart r := by
          simp [Text.trimStart, hc]
        have hquote : c ≠ '\'' := by
          rintro rfl
          exact absurd hc (by decide)
        rw [if_neg hquote] at hst
        obtain ⟨before, hs, ht, hcore⟩ := ih hst
        rw [hskip, hskip]
        exact ⟨c :: before, congrArg (c :: ·) hs, congrArg (c :: ·) ht, hcore⟩

theorem trimEnd (h : Masked q s t) : Masked q (Text.trimEnd s) (Text.trimEnd t) := by
  have hplain {c : Char} {x : List Char} (hc : c ≠ '\'') (hx : '\'' ∉ x) (p : Prop)
      [Decidable p] : '\'' ∉ if p then [] else c :: x := by
    split <;> simp [hx, hc.symm]
  induction h with
  | nil => exact .nil
  | @same q c s t _ ih =>
    rw [trimEnd_cons, trimEnd_cons]
    generalize Text.trimEnd s = x, Text.trimEnd t = y at ih ⊢
    by_cases hc : c = '\''
    · have hblank : Text.isBlank c = false := by
        subst hc
        decide
      simpa [hblank] using .same ih
    · have hsame (hxy : Masked q x y) : Masked q (c :: x) (c :: y) := .same (by rwa [if_neg hc])
      rw [if_neg hc] at ih
      cases ih with
      | nil => exact refl _ _
      | same hxy => exact hsame (.same hxy)
      | blank hd hxy => exact hsame (.blank hd hxy)
      | torn hx hy => exact .torn (hplain hc hx _) (hplain hc hy _)
  | @blank c s t hc _ ih =>
    rw [trimEnd_cons, trimEnd_cons]
    generalize Text.trimEnd s = x, Text.trimEnd t = y at ih ⊢
    cases ih with
    | nil => exact .torn (hplain hc (by simp) _) (by decide)
    | same hxy => exact .blank hc (.same hxy)
    | blank hd hxy => exact .blank hc (.blank hd hxy)
    | torn hx hy => exact .torn (hplain hc hx _) (hplain (by decide) hy _)
  | torn hs ht => exact .torn (not_mem_trimEnd hs) (not_mem_trimEnd ht)

/-! ### From quote to quote -/

/-- Outside of quotes a text and its mask are the same up to the first quote. -/
theorem exists_plain (h : Masked false s t) : ∃ u x y, s = u ++ x ∧ t = u ++ y ∧ '\'' ∉ u ∧
    (x = [] ∧ y = [] ∨ ∃ v w, x = '\'' :: v ∧ y = '\'' :: w ∧ Masked true v w) := by
  induction s generalizing t with
  | nil =>
    cases h
    exact ⟨[], [], [], rfl, rfl, by simp, .inl ⟨rfl, rfl⟩⟩
  | cons c s ih =>
    cases h with
    | @same _ _ _ t hst =>
      by_cases hc : c = '\''
      · rw [if_pos hc] at hst
        subst hc
        exact ⟨[], _, _, rfl, rfl, by simp, .inr ⟨s, t, rfl, rfl, hst⟩⟩
      · rw [if_neg hc] at hst
        obtain ⟨u, x, y, rfl, rfl, hu, hxy⟩ := ih hst
        exact ⟨c :: u, x, y, rfl, rfl, by simp [hu, Ne.symm hc], hxy⟩

/-- A string and its mask are of the same length, or both are not closed. -/
theorem exists_string (h : Masked true s t) : ('\'' ∉ s ∧ '\'' ∉ t) ∨ ∃ u v x y,
    s = u ++ '\'' :: x ∧ t = v ++ '\'' :: y ∧ '\'' ∉ u ∧ '\'' ∉ v ∧ u.length = v.length ∧
      Masked false x y := by
  generalize hq : true = q at h
  induction h with
  | nil => exact .inl ⟨by simp, by simp⟩
  | @same q c s t hst ih =>
    subst hq
    by_cases hc : c = '\''
    · rw [if_pos hc] at hst
      subst hc
      exact .inr ⟨[], [], s, t, rfl, rfl, by simp, by simp, rfl, hst⟩
    · rcases ih (if_neg hc).symm with ⟨hs, ht⟩ | ⟨u, v, x, y, rfl, rfl, hu, hv, hlength, hxy⟩
      · exact .inl ⟨by simp [hs, Ne.symm hc], by simp [ht, Ne.symm hc]⟩
      · exact .inr ⟨c :: u, c :: v, x, y, rfl, rfl, by simp [hu, Ne.symm hc],
          by simp [hv, Ne.symm hc], by simpa using hlength, hxy⟩
  | @blank c s t hc _ ih =>
    rcases ih rfl with ⟨hs, ht⟩ | ⟨u, v, x, y, rfl, rfl, hu, hv, hlength, hxy⟩
    · exact .inl ⟨by simp [hs, Ne.symm hc], by simp [ht]⟩
    · exact .inr ⟨c :: u, ' ' :: v, x, y, rfl, rfl, by simp [hu, Ne.symm hc], by simp [hv],
        by simpa using hlength, hxy⟩
  | torn hs ht => exact .inl ⟨hs, ht⟩

/-- What ends outside of quotes is as long as its mask. -/
theorem length_eq (h : Masked q s t) (hquoted : quoted q s = false) : s.length = t.length := by
  induction h with
  | nil => rfl
  | same _ ih => simpa using ih hquoted
  | blank hc _ ih => simpa using ih (by simpa [quoted, hc] using hquoted)
  | torn hs _ =>
    rw [quoted_eq_iff.2 (by simp [List.count_eq_zero_of_not_mem hs])] at hquoted
    cases hquoted

end Masked

/-! ### Tokens -/

/-- Two tokens stand at one place and are the same but for the text of a string. -/
structure SameToken (t u : Token Kind) : Prop where
  kind : u.kind = t.kind
  pos : u.pos = t.pos
  length : u.text.length = t.text.length
  text : t.kind ≠ .string → u.text = t.text

theorem SameToken.refl (t : Token Kind) : SameToken t t := ⟨rfl, rfl, rfl, fun _ => rfl⟩

/-- Outcomes of the lexer: the same error, or tokens that are the same but for the texts of
strings. -/
inductive SameTokens : Except LexicalError (List (Token Kind)) →
    Except LexicalError (List (Token Kind)) → Prop
  | error (e : LexicalError) : SameTokens (.error e) (.error e)
  | ok {ts us : List (Token Kind)} : List.Forall₂ SameToken ts us → SameTokens (.ok ts) (.ok us)

theorem SameTokens.cons {x y : Except LexicalError (List (Token Kind))} {t u : Token Kind}
    (h : SameTokens x y) (ht : SameToken t u) :
    SameTokens (x.map (t :: ·)) (y.map (u :: ·)) := by
  cases h with
  | error => exact .error _
  | ok hts => exact .ok (.cons ht hts)

/-- A text is over, or goes on with a quote. -/
def Quotes (x : List Char) : Prop := x = [] ∨ ∃ v, x = '\'' :: v

theorem Quotes.loose {x : List Char} (h : Quotes x) : Loose x := by
  rcases h with rfl | ⟨v, rfl⟩
  · exact loose_nil
  · exact loose_cons (by decide) v

/-- In front of a quote a lexeme is the same whatever follows the quote. -/
theorem exists_picked {u x : List Char} {l : Lexeme} (h : Lexeme.Picked (u ++ x) l)
    (hu : '\'' ∉ u) (hne : u ≠ []) (hx : Quotes x) :
    ∃ mid, u = l.source ++ mid ∧ ∀ y, Loose y → Lexeme.Picked (l.source ++ (mid ++ y)) l := by
  obtain ⟨r, hr, rest, heq, hgives⟩ := h.exists_gives
  have hplain : '\'' ∉ l.source := by
    rcases hgives.unmarked hr with ⟨-, hsource⟩ | ⟨-, body, -, hsource⟩ | ⟨-, hunmarked⟩
    · simp [hsource]
    · obtain ⟨c, u, rfl⟩ := List.exists_cons_of_ne_nil hne
      rw [hsource, List.cons_append, List.cons_append, List.cons_append] at heq
      exact absurd (List.cons.inj heq).1 (List.ne_of_not_mem_cons hu).symm
    · exact fun hmem => (hunmarked _ hmem).1 rfl
  rcases List.append_eq_append_iff.1 heq with ⟨mid, hsource, hback⟩ | ⟨mid, rfl, rfl⟩
  · -- a lexeme that reaches beyond the text in front of the quote would hold the quote
    have hmid : mid = [] := by
      rcases hx with rfl | ⟨v, rfl⟩
      · exact (List.append_eq_nil_iff.1 hback.symm).1
      · cases mid with
        | nil => rfl
        | cons c mid =>
          obtain ⟨rfl, -⟩ := List.cons.inj hback
          exact absurd (by simp [hsource]) hplain
    subst hmid
    rw [List.append_nil] at hsource
    rw [← hsource] at h
    refine ⟨[], by simp [hsource], fun y hy => ?_⟩
    have hend : Lexeme.Picked (l.source ++ ([] ++ x)) l := by simpa using h
    exact hend.loosen hy
  · rw [List.append_assoc] at h
    exact ⟨mid, rfl, fun y hy => h.loosen hy⟩

/-- A quote that is not closed begins no token. -/
theorem scan_of_not_mem {v : List Char} (h : '\'' ∉ v) (pos : Nat) :
    Tabula.scan pos ('\'' :: v) = .error (.unrecognized '\'' pos) := by
  refine scan_of_first?_eq_none (by decide) ?_
  rw [Option.eq_none_iff_forall_ne_some]
  intro l hl
  obtain ⟨r, hr, rest, heq, hgives⟩ := (Lexeme.first?_eq_some_iff.1 hl).exists_gives
  rcases hgives.unmarked hr with ⟨-, hsource⟩ | ⟨-, body, -, hsource⟩ | ⟨-, hunmarked⟩
  · simp [hsource] at heq
  · simp only [hsource, List.cons_append, List.cons.injEq, true_and] at heq
    exact h (by simp [heq])
  · obtain ⟨c, source, hsource⟩ := List.exists_cons_of_ne_nil (Lexeme.source_ne_nil hl)
    rw [hsource] at heq
    exact (hunmarked c (by simp [hsource])).1 (List.cons.inj heq).1.symm

/-- A string is read up to the quote that closes it. -/
theorem scan_string {a : List Char} (h : '\'' ∉ a) (x : List Char) (pos : Nat) :
    Tabula.scan pos ('\'' :: (a ++ '\'' :: x)) =
      (Tabula.scan (pos + (a.length + 2)) x).map (⟨.string, String.ofList a, pos⟩ :: ·) := by
  have hgives : Rule.string.Gives ⟨.string, String.ofList a, '\'' :: a ++ ['\'']⟩ x := .string h
  have hscan := scan_of_picked (s := x) (hgives.picked (by simp [rules]) trivial) pos
  simpa [Lexeme.token, Nat.add_assoc] using hscan

/-- In front of a quote no lexeme begins if none does in front of another one. -/
theorem first?_eq_none_of_quotes {u x y : List Char} (h : Lexeme.first? (u ++ x) = none)
    (hu : '\'' ∉ u) (hne : u ≠ []) (hx : Quotes x) (hy : Quotes y) :
    Lexeme.first? (u ++ y) = none := by
  rw [Option.eq_none_iff_forall_ne_some]
  intro l hl
  obtain ⟨mid, rfl, hpicked⟩ := exists_picked (Lexeme.first?_eq_some_iff.1 hl) hu hne hy
  have hsame := hpicked x hx.loose
  rw [← List.append_assoc, ← Lexeme.first?_eq_some_iff, h] at hsame
  cases hsame

/-- In front of a quote the same tokens are read, so two texts are read alike if they are from a
quote on. -/
theorem sameTokens_append {u x y : List Char} (hu : '\'' ∉ u) (hx : Quotes x) (hy : Quotes y)
    (h : ∀ pos, SameTokens (Tabula.scan pos x) (Tabula.scan pos y)) (pos : Nat) :
    SameTokens (Tabula.scan pos (u ++ x)) (Tabula.scan pos (u ++ y)) := by
  induction hn : u.length using Nat.strongRecOn generalizing u pos with
  | ind n ih =>
    subst hn
    cases u with
    | nil => exact h pos
    | cons c u =>
      have hne : c :: u ≠ [] := List.cons_ne_nil c u
      cases hskip : isSkipped c with
      | true =>
        rw [List.cons_append, List.cons_append, scan_of_isSkipped hskip, scan_of_isSkipped hskip]
        exact ih _ (by simp) (fun hmem => hu (List.mem_cons_of_mem c hmem)) _ rfl
      | false =>
        cases hl : Lexeme.first? (c :: u ++ x) with
        | none =>
          have hl' := first?_eq_none_of_quotes hl hu hne hx hy
          rw [List.cons_append] at hl hl' ⊢
          rw [List.cons_append, scan_of_first?_eq_none hskip hl, scan_of_first?_eq_none hskip hl']
          exact .error _
        | some l =>
          obtain ⟨mid, hmid, hpicked⟩ := exists_picked (Lexeme.first?_eq_some_iff.1 hl) hu hne hx
          have hsource := List.length_pos_iff.2 (Lexeme.source_ne_nil hl)
          have hshorter : mid.length < (c :: u).length := by
            rw [hmid, List.length_append]
            omega
          rw [hmid] at hu ⊢
          rw [List.append_assoc, List.append_assoc, scan_of_picked (hpicked x hx.loose),
            scan_of_picked (hpicked y hy.loose)]
          exact (ih _ hshorter (fun hmem => hu (List.mem_append_right l.source hmem)) _ rfl).cons
            (.refl _)

namespace Masked

variable {s t : List Char}

/-- A text and its mask are read as the same tokens but for the texts of strings. -/
theorem scan (h : Masked false s t) (pos : Nat) :
    SameTokens (Tabula.scan pos s) (Tabula.scan pos t) := by
  induction hn : s.length using Nat.strongRecOn generalizing s t pos with
  | ind n ih =>
    subst hn
    obtain ⟨u, x, y, rfl, rfl, hu, hxy⟩ := h.exists_plain
    rcases hxy with ⟨rfl, rfl⟩ | ⟨v, w, rfl, rfl, hvw⟩
    · refine sameTokens_append hu (.inl rfl) (.inl rfl) (fun pos => ?_) pos
      rw [Tabula.scan]
      exact .ok .nil
    · refine sameTokens_append hu (.inr ⟨v, rfl⟩) (.inr ⟨w, rfl⟩) (fun pos => ?_) pos
      rcases hvw.exists_string with ⟨hv, hw⟩ | ⟨a, b, x, y, rfl, rfl, ha, hb, hlength, hxy⟩
      · rw [scan_of_not_mem hv, scan_of_not_mem hw]
        exact .error _
      · rw [scan_string ha, scan_string hb, hlength]
        have hshorter : x.length < (u ++ '\'' :: (a ++ '\'' :: x)).length := by
          simp only [List.length_append, List.length_cons]
          omega
        exact (ih _ hshorter hxy _ rfl).cons
          ⟨rfl, rfl, by simp [hlength], fun hnot => absurd rfl hnot⟩

theorem tokenize {a b : String} (h : Masked false a.toList b.toList) :
    SameTokens (Tabula.tokenize a) (Tabula.tokenize b) := by
  have hscan := h.scan 0
  cases ha : Tabula.scan 0 a.toList with
  | error e =>
    rw [ha] at hscan
    generalize hb : Tabula.scan 0 b.toList = y at hscan
    cases hscan
    rw [tokenize_of_scan_eq_error ha, tokenize_of_scan_eq_error hb]
    exact .error e
  | ok ts =>
    rw [ha] at hscan
    generalize hb : Tabula.scan 0 b.toList = y at hscan
    cases hscan with
    | @ok _ us hts =>
      obtain ⟨ls, hlayout, -⟩ := Layout.exists_of_scan ha
      have hlength : b.length = a.length := by
        rw [← String.length_toList, ← String.length_toList, h.length_eq hlayout.quoted_eq]
      have hterminators : List.Forall₂ SameToken (ts.filter (·.kind = .terminator))
          (us.filter (·.kind = .terminator)) := by
        refine List.rel_filter (fun t u htu => ?_) hts
        simp [htu.kind]
      have hend : SameToken (endToken a) (endToken b) := ⟨rfl, hlength, rfl, fun _ => rfl⟩
      rw [tokenize_of_scan_eq_ok ha, tokenize_of_scan_eq_ok hb]
      generalize ts.filter (·.kind = .terminator) = xs, us.filter (·.kind = .terminator) = ys
        at hterminators
      cases hterminators with
      | nil =>
        rw [hlength]
        exact .error _
      | cons _ hrest =>
        cases hrest with
        | nil => exact .ok (List.rel_append hts (.cons hend .nil))
        | cons ht _ =>
          dsimp only
          rw [ht.pos]
          exact .error _

end Masked

/-! ### Statements -/

/-- Two statements stand at one place and are read as the same tokens but for the texts of
strings. -/
structure SameStatement (s t : Statement) : Prop where
  offset : t.offset = s.offset
  tokens : SameTokens (tokenize s.text) (tokenize t.text)

theorem forall₂_statementsFrom {ps ps' : List (List Char)} (h : List.Forall₂ Fits ps ps')
    (offset : Nat) :
    List.Forall₂ SameStatement (statementsFrom offset ps) (statementsFrom offset ps') := by
  induction h generalizing offset with
  | nil => exact .nil
  | @cons p p' ps ps' hp _ ih =>
    obtain ⟨hmasked, hlength⟩ := hp
    obtain ⟨before, hs, ht, hcore⟩ := hmasked.exists_trimStart
    have hbody : (Text.trimStart p').length = (Text.trimStart p).length := by
      have hs := congrArg List.length hs
      have ht := congrArg List.length ht
      simp only [List.length_append] at hs ht
      omega
    have hempty : (Text.trimStart p').isEmpty = (Text.trimStart p).isEmpty := by
      rw [Bool.eq_iff_iff, List.isEmpty_iff_length_eq_zero, List.isEmpty_iff_length_eq_zero, hbody]
    rw [statementsFrom, statementsFrom]
    simp only [hempty, hbody, ← hlength]
    split
    · exact ih _
    · refine .cons ⟨rfl, Masked.tokenize ?_⟩ (ih _)
      simpa using hcore.trimEnd

/-- A line of a script, counted from zero, begins inside a string: the number of quotes in front of
it is odd. -/
def BeginsInString (content : String) (i : Nat) : Prop :=
  ((content.toList.splitOn '\n').take i).flatten.count '\'' % 2 = 1

instance (content : String) (i : Nat) : Decidable (BeginsInString content i) :=
  inferInstanceAs (Decidable (_ = _))

theorem masked_intercalate {q : Bool} {lines : List (List Char)}
    (h : ∀ before line after, lines = before ++ line :: after → isComment line = true →
      quoted q before.flatten = true ∧ '\'' ∉ line) :
    Masked q (['\n'].intercalate lines) (['\n'].intercalate (lines.map blankOut)) := by
  induction lines generalizing q with
  | nil => exact .nil
  | cons line lines ih =>
    have hline {s t : List Char} (hst : Masked (quoted q line) s t) :
        Masked q (line ++ s) (blankOut line ++ t) := by
      cases hcomment : isComment line with
      | false =>
        rw [blankOut_of_not_isComment hcomment]
        exact hst.append_left line
      | true =>
        obtain ⟨hq, hquote⟩ := h [] line lines rfl hcomment
        obtain rfl : q = true := hq
        rw [quoted_eq_iff.2 (by simp [List.count_eq_zero_of_not_mem hquote])] at hst
        rw [blankOut_of_isComment hcomment]
        exact hst.replicate_append hquote
    cases lines with
    | nil => simpa using hline .nil
    | cons next lines =>
      rw [List.map_cons, List.map_cons, List.intercalate_cons_cons, List.intercalate_cons_cons,
        List.append_assoc, List.append_assoc]
      refine hline (.same ?_)
      rw [if_neg (by decide)]
      refine ih fun before line' after heq hcomment => ?_
      have hlater := h (line :: before) line' after (by rw [heq]; rfl) hcomment
      rwa [List.flatten_cons, quoted_append] at hlater

/-- The statements of a script and of the script without its comments, if all of these are parts of
strings. -/
theorem forall₂_sameStatement {content : String}
    (h : ∀ i line, (content.toList.splitOn '\n')[i]? = some line → isComment line = true →
      BeginsInString content i ∧ '\'' ∉ line) :
    List.Forall₂ SameStatement (statements content) (statements (withoutComments content)) := by
  have hmasked : Masked false content.toList (withoutComments content).toList := by
    have hlines : Masked false (['\n'].intercalate (content.toList.splitOn '\n'))
        (['\n'].intercalate ((content.toList.splitOn '\n').map blankOut)) := by
      refine masked_intercalate fun before line after heq hcomment => ?_
      obtain ⟨hodd, hquote⟩ := h before.length line (by simp [heq]) hcomment
      refine ⟨?_, hquote⟩
      rw [BeginsInString, heq, List.take_left] at hodd
      have hnot := mt (quoted_eq_iff (q := false)).1
        (by omega : ¬ before.flatten.count '\'' % 2 = 0)
      simpa using hnot
    rwa [List.intercalate_splitOn, ← toList_withoutComments] at hlines
  have hlength : content.toList.length = (withoutComments content).toList.length :=
    (forall₂_withoutComments content).length_eq
  obtain ⟨p, ps, p', ps', hs, ht, hp, hpp, hps⟩ := hmasked.exists_pieces hlength
  rw [statements, statements, hs, ht]
  exact forall₂_statementsFrom (.cons ⟨hp, hpp⟩ hps) 0

/-- The text of a string is what stands between its quotes in the script. -/
theorem string_slice {content : String} {s : Statement} {tokens : List (Token Kind)}
    {t : Token Kind} (hs : s ∈ statements content) (htokens : tokenize s.text = .ok tokens)
    (ht : t ∈ tokens) (hkind : t.kind = .string) :
    t.text.toList = (content.toList.drop (s.offset + t.pos + 1)).take t.text.length := by
  obtain ⟨ts, hcovers, -, rfl⟩ := ((tokenize_covers s.text).1 tokens).1 htokens
  have ht : t ∈ ts := by
    rcases List.mem_append.1 ht with ht | ht
    · exact ht
    · obtain rfl := List.mem_singleton.1 ht
      cases hkind
  have hspelled := hcovers.spelled t ht
  rw [Token.Spells, hkind] at hspelled
  obtain ⟨-, hsource⟩ := hspelled
  obtain ⟨front, back, hcontent, hoffset⟩ := (parted_statements content).slice hs
  have hplace : content.toList.drop (s.offset + t.pos) =
      '\'' :: t.text.toList ++ ['\''] ++ s.text.toList.drop (t.pos + t.width) ++ back := by
    have hend : t.pos ≤ s.text.toList.length := by
      have hin := (hcovers.inside t ht).2
      rw [String.length_toList]
      omega
    rw [← hsource, ← List.drop_drop, ← List.drop_drop, List.take_append_drop, hoffset, Nat.zero_add,
      hcontent, List.append_assoc, List.drop_left, List.drop_append_of_le_length hend]
  rw [← List.drop_drop, hplace]
  simpa using (List.take_left' String.length_toList).symm

/-- A token of a script, and the token at its place in the script without comments: a string has
the text that is left between its quotes, and nothing else differs. -/
structure Reread (content : String) (offset : Nat) (t u : Token Kind) : Prop where
  kind : u.kind = t.kind
  pos : u.pos = t.pos
  text : t.kind ≠ .string → u.text = t.text
  string : t.kind = .string →
    t.text.toList = (content.toList.drop (offset + t.pos + 1)).take t.text.length ∧
      u.text.toList =
        ((withoutComments content).toList.drop (offset + t.pos + 1)).take t.text.length

/-- A statement of a script, and the statement at its place in the script without comments: both
are refused by the lexer for the same reason, or are read as the same tokens but for the texts of
strings. -/
def Rereads (content : String) (s t : Statement) : Prop :=
  t.offset = s.offset ∧
    ((∃ e, tokenize s.text = .error e ∧ tokenize t.text = .error e) ∨
      ∃ ts us, tokenize s.text = .ok ts ∧ tokenize t.text = .ok us ∧
        List.Forall₂ (Reread content s.offset) ts us)

theorem forall₂_of_mem {α β : Type} {R S : α → β → Prop} {as : List α} {bs : List β}
    (h : List.Forall₂ R as bs) (hmem : ∀ a ∈ as, ∀ b ∈ bs, R a b → S a b) :
    List.Forall₂ S as bs := by
  induction h with
  | nil => exact .nil
  | cons hab _ ih =>
    refine .cons (hmem _ (by simp) _ (by simp) hab) (ih fun a ha b hb => ?_)
    exact hmem a (by simp [ha]) b (by simp [hb])

/-- Comments are found line by line, in strings too. A line that begins with two hyphens is blanked
out and every other line is kept, so a script stays as it is exactly if it has no such line. If
every such line begins inside a string and holds no quote, the statements stand where they stood and
are made of the same tokens, and only the strings have other texts: those that are left at their
places. A file with this content, whatever its line breaks, has the statements of the script without
comments executed. -/
theorem withoutComments_by_line (content : String) :
    (withoutComments content).toList.splitOn '\n' = (content.toList.splitOn '\n').map blankOut ∧
    (withoutComments content = content ↔
      ∀ line ∈ content.toList.splitOn '\n', isComment line = false) ∧
    ((∀ i line, (content.toList.splitOn '\n')[i]? = some line → isComment line = true →
        BeginsInString content i ∧ '\'' ∉ line) →
      List.Forall₂ (Rereads content) (statements content)
        (statements (withoutComments content))) ∧
    ∀ file : String, Text.unifyBreaks file.toList = content.toList →
      Launch.scriptStatements file = (statements (withoutComments content)).map Statement.text := by
  refine ⟨splitOn_withoutComments content, withoutComments_eq_self_iff, fun h => ?_,
    fun file hfile => by rw [Launch.scriptStatements, hfile, String.ofList_toList]⟩
  refine forall₂_of_mem (forall₂_sameStatement h) fun s hs t ht hst => ⟨hst.offset, ?_⟩
  have htokens := hst.tokens
  generalize hx : tokenize s.text = x, hy : tokenize t.text = y at htokens
  cases htokens with
  | error e => exact .inl ⟨e, rfl, rfl⟩
  | @ok ts us hts =>
    refine .inr ⟨ts, us, rfl, rfl, forall₂_of_mem hts fun a ha b hb hab => ?_⟩
    refine ⟨hab.kind, hab.pos, hab.text, fun hkind => ⟨string_slice hs hx ha hkind, ?_⟩⟩
    have hslice := string_slice ht hy hb (hab.kind.trans hkind)
    rwa [hst.offset, hab.pos, hab.length] at hslice

/-- A comment in a string that goes on behind it. -/
theorem withoutComments_by_line_string :
    (∀ i line, ("INSERT INTO t VALUES ('a\n-- b\nc');".toList.splitOn '\n')[i]? = some line →
      isComment line = true →
      BeginsInString "INSERT INTO t VALUES ('a\n-- b\nc');" i ∧ '\'' ∉ line) ∧
    List.Forall₂ (Rereads "INSERT INTO t VALUES ('a\n-- b\nc');")
      (statements "INSERT INTO t VALUES ('a\n-- b\nc');")
      (statements (withoutComments "INSERT INTO t VALUES ('a\n-- b\nc');")) := by
  have h : ∀ i line,
      ("INSERT INTO t VALUES ('a\n-- b\nc');".toList.splitOn '\n')[i]? = some line →
      isComment line = true →
      BeginsInString "INSERT INTO t VALUES ('a\n-- b\nc');" i ∧ '\'' ∉ line := by
    have hall : ∀ i < 3, ∀ line ∈ ("INSERT INTO t VALUES ('a\n-- b\nc');".toList.splitOn '\n')[i]?,
        isComment line = true →
          BeginsInString "INSERT INTO t VALUES ('a\n-- b\nc');" i ∧ '\'' ∉ line := by decide
    intro i line hline
    exact hall i (List.getElem?_eq_some_iff.1 hline).1 line hline
  exact ⟨h, (withoutComments_by_line _).2.2.1 h⟩

/-- A comment may begin inside a string and end behind it. -/
theorem not_withoutComments_eq_self_of_beginsInString :
    ¬ ∀ content : String, (∀ i line, (content.toList.splitOn '\n')[i]? = some line →
        isComment line = true → BeginsInString content i) → withoutComments content = content := by
  intro h
  have hall : ∀ i < 2, ∀ line ∈ ("INSERT INTO t VALUES ('a\n-- b');".toList.splitOn '\n')[i]?,
      isComment line = true → BeginsInString "INSERT INTO t VALUES ('a\n-- b');" i := by decide
  have hsame := h "INSERT INTO t VALUES ('a\n-- b');" fun i line hline =>
    hall i (List.getElem?_eq_some_iff.1 hline).1 line hline
  exact absurd hsame (by decide)

end Tabula.Script
