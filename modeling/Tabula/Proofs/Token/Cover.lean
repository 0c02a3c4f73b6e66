import Tabula.Proofs.Outcome
import Tabula.Proofs.Token.Name
import Tabula.Proofs.Token.Rule

/-!
# What the tokens of a text cover

Tokens cover a stretch of a text if they stand in it one after another, each of them is what the
rules of the lexer give at its offset, and nothing but blanks is left between them (`Covers`). A
text determines the tokens that cover it: the scan of a text is taken up again where the tokens end
(`Covers.scan_eq`), so a text is read in full if tokens cover it, and is refused at the first offset
that they cannot pass (`tokenize_covers`).
-/

namespace Tabula

/-- The number of characters that a token is written in. -/
def Token.width (t : Token Kind) : Nat :=
  match t.kind with
  | .string => t.text.length + 2
  | _ => t.text.length

/-- How a token is written: a reserved word in any letter case, a string between quotes, and every
other token as its text. -/
def Token.Spells (t : Token Kind) (source : List Char) : Prop :=
  match t.kind with
  | .keyword _ | .boolean | .null => source.map Char.toUpper = t.text.toList
  | .string => '\'' ∉ t.text.toList ∧ source = '\'' :: t.text.toList ++ ['\'']
  | _ => source = t.text.toList

/-- The token of a lexeme at an offset. -/
def Lexeme.token (l : Lexeme) (pos : Nat) : Token Kind := ⟨l.kind, l.text, pos⟩

/-- The tokens of a text between two offsets. -/
structure Covers (text : List Char) (start stop : Nat) (tokens : List (Token Kind)) : Prop where
  start_le : start ≤ stop
  stop_le : stop ≤ text.length
  ordered : tokens.Pairwise fun t u => t.pos < u.pos ∧ t.pos + t.width ≤ u.pos
  inside : ∀ t ∈ tokens, start ≤ t.pos ∧ t.pos + t.width ≤ stop
  spelled : ∀ t ∈ tokens, t.Spells ((text.drop t.pos).take t.width)
  picked : ∀ t ∈ tokens, ∃ l, Lexeme.Picked (text.drop t.pos) l ∧ t = l.token t.pos ∧
    l.source = (text.drop t.pos).take t.width
  skipped : ∀ p, start ≤ p → p < stop → (∀ t ∈ tokens, ¬ (t.pos ≤ p ∧ p < t.pos + t.width)) →
    ∃ c ∈ text[p]?, isSkipped c = true

/-! ### The token of a lexeme -/

namespace Lexeme

variable {s : List Char} {l : Lexeme}

theorem spells_of_gives {r : Rule} {rest : List Char} (h : r.Gives l rest) (hr : r ∈ rules)
    (pos : Nat) : (l.token pos).Spells l.source ∧ (l.token pos).width = l.source.length := by
  -- texts are compared as lists of characters
  have hlist (cs : List Char) :
      (String.ofList cs).toList = cs ∧ (String.ofList cs).length = cs.length :=
    ⟨String.toList_ofList, String.length_ofList⟩
  cases h with
  | reserved _ _ hkind =>
    obtain ⟨k, rfl⟩ | rfl | rfl := Kind.reserved?_cases hkind <;>
      simp only [token, Token.Spells, Token.width, hlist, List.length_map, and_self]
  | name => simp only [token, Token.Spells, Token.width, hlist, and_self]
  | float => simp only [token, Token.Spells, Token.width, hlist, and_self]
  | integer => simp only [token, Token.Spells, Token.width, hlist, and_self]
  | string hbody => simp [token, Token.Spells, Token.width, hlist, hbody]
  | symbol =>
    simp only [rules, List.mem_cons, Rule.symbol.injEq, reduceCtorEq, List.not_mem_nil, or_false,
      false_or] at hr
    rcases hr with ⟨rfl, rfl⟩ | ⟨rfl, rfl⟩ | ⟨rfl, rfl⟩ | ⟨rfl, rfl⟩ | ⟨rfl, rfl⟩ | ⟨rfl, rfl⟩ |
      ⟨rfl, rfl⟩ | ⟨rfl, rfl⟩ | ⟨rfl, rfl⟩ | ⟨rfl, rfl⟩ | ⟨rfl, rfl⟩ | ⟨rfl, rfl⟩ <;>
      simp only [token, Token.Spells, Token.width, hlist, and_self]

theorem Picked.spells (h : Picked s l) (pos : Nat) : (l.token pos).Spells l.source := by
  obtain ⟨r, hr, rest, -, hgives⟩ := h.exists_gives
  exact (spells_of_gives hgives hr pos).1

theorem Picked.width (h : Picked s l) (pos : Nat) : (l.token pos).width = l.source.length := by
  obtain ⟨r, hr, rest, -, hgives⟩ := h.exists_gives
  exact (spells_of_gives hgives hr pos).2

theorem Picked.take_width (h : Picked s l) (pos : Nat) :
    s.take (l.token pos).width = l.source := by
  obtain ⟨r, hr, rest, rfl, hgives⟩ := h.exists_gives
  rw [h.width, List.take_left]

theorem Picked.length_le (h : Picked s l) : l.source.length ≤ s.length := by
  obtain ⟨r, hr, rest, rfl, hgives⟩ := h.exists_gives
  simp

theorem Picked.length_pos (h : Picked s l) : 0 < l.source.length :=
  List.length_pos_iff.2 (source_ne_nil (first?_eq_some_iff.2 h))

/-- No token starts with a blank. -/
theorem first?_of_isSkipped {c : Char} (h : isSkipped c = true) (s : List Char) :
    first? (c :: s) = none := by
  have hc : c = ' ' ∨ c = '\t' ∨ c = '\r' ∨ c = '\n' := by
    simpa [isSkipped, or_assoc] using h
  have hdigit : Text.isDigit c = false := by
    rcases hc with rfl | rfl | rfl | rfl <;> decide
  have hsign : sign (c :: s) = [] := by
    rcases hc with rfl | rfl | rfl | rfl <;> rfl
  have hnumber : number? (c :: s) = none := by simp [number?, hsign, hdigit]
  rcases hc with rfl | rfl | rfl | rfl <;> simp [first?, word?, hnumber, string?, symbol?]

end Lexeme

/-! ### Steps of the scan -/

section Scan

variable {pos : Nat} {c : Char} {r : List Char}

theorem scan_of_isSkipped (h : isSkipped c = true) : scan pos (c :: r) = scan (pos + 1) r := by
  rw [scan, if_pos h]

theorem scan_of_first?_eq_some {l : Lexeme} (h : Lexeme.first? (c :: r) = some l) :
    scan pos (c :: r) =
      (scan (pos + l.source.length) ((c :: r).drop l.source.length)).map (l.token pos :: ·) := by
  have hskip : ¬ isSkipped c = true := by
    intro hskip
    rw [Lexeme.first?_of_isSkipped hskip] at h
    cases h
  rw [scan, if_neg hskip]
  split
  · simp_all
  · obtain rfl : _ = l := Option.some.inj (‹_ = some _›.symm.trans h)
    rfl

theorem scan_of_first?_eq_none (hskip : isSkipped c = false)
    (h : Lexeme.first? (c :: r) = none) : scan pos (c :: r) = .error (.unrecognized c pos) := by
  rw [scan, if_neg (by simp [hskip])]
  split
  · rfl
  · simp_all

end Scan

/-! ### Building a cover -/

namespace Covers

variable {text : List Char} {start stop : Nat} {tokens : List (Token Kind)}

theorem nil (h : start ≤ text.length) : Covers text start start [] where
  start_le := Nat.le_refl _
  stop_le := h
  ordered := .nil
  inside := by simp
  spelled := by simp
  picked := by simp
  skipped := by omega

/-- A blank in front is left out. -/
theorem skip {c : Char} (hc : c ∈ text[start]?) (hskip : isSkipped c = true)
    (h : Covers text (start + 1) stop tokens) : Covers text start stop tokens where
  start_le := by have := h.start_le; omega
  stop_le := h.stop_le
  ordered := h.ordered
  inside := fun t ht => ⟨by have := (h.inside t ht).1; omega, (h.inside t ht).2⟩
  spelled := h.spelled
  picked := h.picked
  skipped := by
    intro p hp hlt hout
    rcases Nat.eq_or_lt_of_le hp with rfl | hp
    · exact ⟨c, hc, hskip⟩
    · exact h.skipped p hp hlt hout

/-- A token is put in front. -/
theorem cons {l : Lexeme} (hl : Lexeme.Picked (text.drop start) l)
    (h : Covers text (start + l.source.length) stop tokens) :
    Covers text start stop (l.token start :: tokens) where
  start_le := by have := h.start_le; omega
  stop_le := h.stop_le
  ordered := by
    refine List.pairwise_cons.2 ⟨fun t ht => ?_, h.ordered⟩
    have hpos := hl.length_pos
    have hin := (h.inside t ht).1
    rw [hl.width]
    simp only [Lexeme.token]
    omega
  inside := by
    have hle := h.start_le
    refine List.forall_mem_cons.2 ⟨⟨Nat.le_refl start, ?_⟩, fun t ht => ?_⟩
    · rw [hl.width]
      exact hle
    · have hin := h.inside t ht
      omega
  spelled := by
    refine List.forall_mem_cons.2 ⟨?_, h.spelled⟩
    have hslice := hl.take_width start
    change (l.token start).Spells ((text.drop start).take (l.token start).width)
    rw [hslice]
    exact hl.spells start
  picked := by
    refine List.forall_mem_cons.2 ⟨⟨l, hl, rfl, ?_⟩, h.picked⟩
    exact (hl.take_width start).symm
  skipped := by
    intro p hp hlt hout
    have hnot := hout (l.token start) (by simp)
    rw [hl.width] at hnot
    refine h.skipped p ?_ hlt fun t ht => hout t (by simp [ht])
    simp only [Lexeme.token] at hnot
    omega

/-! ### Taking a cover apart -/

theorem width_pos (h : Covers text start stop tokens) {t : Token Kind} (ht : t ∈ tokens) :
    0 < t.width := by
  obtain ⟨l, hl, htoken, -⟩ := h.picked t ht
  rw [htoken, hl.width]
  exact hl.length_pos

theorem eq_nil (h : Covers text start start tokens) : tokens = [] := by
  rw [List.eq_nil_iff_forall_not_mem]
  intro t ht
  have hin := h.inside t ht
  have hwidth := h.width_pos ht
  omega

/-- A place that no rule reads is left out. -/
theorem of_first?_eq_none (h : Covers text start stop tokens) (hlt : start < stop)
    (hnone : Lexeme.first? (text.drop start) = none) :
    (∃ c ∈ text[start]?, isSkipped c = true) ∧ Covers text (start + 1) stop tokens := by
  have hafter : ∀ t ∈ tokens, start + 1 ≤ t.pos := by
    intro t ht
    rcases Nat.eq_or_lt_of_le (h.inside t ht).1 with heq | hlt
    · obtain ⟨l, hl, -⟩ := h.picked t ht
      rw [← heq, ← Lexeme.first?_eq_some_iff, hnone] at hl
      cases hl
    · exact hlt
  refine ⟨h.skipped start (Nat.le_refl _) hlt fun t ht hin => ?_, ?_⟩
  · have hpos := hafter t ht
    omega
  · exact {
      start_le := hlt
      stop_le := h.stop_le
      ordered := h.ordered
      inside := fun t ht => ⟨hafter t ht, (h.inside t ht).2⟩
      spelled := h.spelled
      picked := h.picked
      skipped := fun p hp => h.skipped p (by omega) }

/-- A place that a rule reads, and that is no blank, is the place of the first token. -/
theorem of_first?_eq_some {l : Lexeme} (h : Covers text start stop tokens) (hlt : start < stop)
    (hl : Lexeme.first? (text.drop start) = some l) :
    ∃ later, tokens = l.token start :: later ∧
      Covers text (start + l.source.length) stop later := by
  have hpicked := Lexeme.first?_eq_some_iff.1 hl
  have hblank : ¬ ∃ c ∈ text[start]?, isSkipped c = true := by
    rintro ⟨c, hc, hskip⟩
    rw [← List.head?_drop, Option.mem_def, List.head?_eq_some_iff] at hc
    obtain ⟨s, hs⟩ := hc
    rw [hs, Lexeme.first?_of_isSkipped hskip] at hl
    cases hl
  -- the place is not left out, so it belongs to a token, and no token starts before it
  obtain ⟨t, ht, hpos⟩ : ∃ t ∈ tokens, t.pos = start := by
    by_contra hnone
    refine hblank (h.skipped start (Nat.le_refl _) hlt fun t ht hin => hnone ⟨t, ht, ?_⟩)
    have hstart := (h.inside t ht).1
    omega
  obtain ⟨u, later, rfl⟩ := List.exists_cons_of_ne_nil (List.ne_nil_of_mem ht)
  obtain ⟨hbefore, hordered⟩ := List.pairwise_cons.1 h.ordered
  have hu : u.pos = start := by
    rcases List.mem_cons.1 ht with rfl | ht
    · exact hpos
    · have hlt := (hbefore t ht).1
      have hstart := (h.inside u (by simp)).1
      omega
  obtain ⟨m, hm, htoken, -⟩ := h.picked u (by simp)
  rw [hu] at hm htoken
  obtain rfl : m = l := Option.some.inj ((Lexeme.first?_eq_some_iff.2 hm).symm.trans hl)
  have hwidth : u.width = m.source.length := htoken ▸ hm.width start
  have hstop := (h.inside u (by simp)).2
  refine ⟨later, by rw [htoken], ?_⟩
  exact {
    start_le := by omega
    stop_le := h.stop_le
    ordered := hordered
    inside := by
      intro t ht
      have hafter := (hbefore t ht).2
      have hin := (h.inside t (by simp [ht])).2
      omega
    spelled := fun t ht => h.spelled t (by simp [ht])
    picked := fun t ht => h.picked t (by simp [ht])
    skipped := by
      intro p hp hlt hout
      refine h.skipped p (by omega) hlt (List.forall_mem_cons.2 ⟨?_, hout⟩)
      omega }

/-! ### Covers and the scan -/

/-- A text is scanned to the end of what tokens cover, and from there on as before. -/
theorem scan_eq (h : Covers text start stop tokens) :
    scan start (text.drop start) = (scan stop (text.drop stop)).map (tokens ++ ·) := by
  induction hn : stop - start using Nat.strongRecOn generalizing start tokens with
  | ind n ih =>
    subst hn
    rcases Nat.eq_or_lt_of_le h.start_le with rfl | hlt
    · rw [h.eq_nil]
      cases scan start (text.drop start) <;> rfl
    have hstop := h.stop_le
    obtain ⟨c, r, hs⟩ := List.exists_cons_of_ne_nil
      (mt List.drop_eq_nil_iff.1 (by omega : ¬ text.length ≤ start))
    cases hl : Lexeme.first? (c :: r) with
    | none =>
      obtain ⟨⟨d, hd, hblank⟩, hlater⟩ := h.of_first?_eq_none hlt (hs ▸ hl)
      obtain rfl : c = d := by simpa [← List.head?_drop, hs] using hd
      have hr : text.drop (start + 1) = r := by rw [← List.drop_drop, hs]; rfl
      rw [hs, scan_of_isSkipped hblank, ← hr]
      exact ih _ (by omega) hlater rfl
    | some l =>
      obtain ⟨later, rfl, hlater⟩ := h.of_first?_eq_some hlt (hs ▸ hl)
      have hpos := (Lexeme.first?_eq_some_iff.1 hl).length_pos
      rw [hs, scan_of_first?_eq_some hl, ← hs, List.drop_drop,
        ih _ (by omega) hlater rfl]
      cases scan stop (text.drop stop) <;> rfl

end Covers

/-- A character at which the scan of a text is refused. -/
structure Unreadable (text : List Char) (pos : Nat) (c : Char) : Prop where
  at_pos : c ∈ text[pos]?
  not_skipped : isSkipped c = false
  no_rule : ∀ r ∈ rules, ∀ l, ¬ r.Applies (text.drop pos) l

theorem Unreadable.scan_eq {text : List Char} {pos : Nat} {c : Char} (h : Unreadable text pos c) :
    scan pos (text.drop pos) = .error (.unrecognized c pos) := by
  obtain ⟨r, hr⟩ := List.head?_eq_some_iff.1 (List.head?_drop.trans h.at_pos)
  rw [hr]
  exact scan_of_first?_eq_none h.not_skipped (hr ▸ Lexeme.first?_eq_none_iff.2 h.no_rule)

section Extent

variable {text : List Char} {tokens : List (Token Kind)}

/-- Tokens cover a text up to its end or up to an unreadable character. -/
theorem exists_covers {start : Nat} (h : start ≤ text.length) :
    ∃ stop tokens, Covers text start stop tokens ∧
      (stop = text.length ∨ ∃ c, Unreadable text stop c) := by
  induction hn : text.length - start using Nat.strongRecOn generalizing start with
  | ind n ih =>
    subst hn
    rcases Nat.eq_or_lt_of_le h with rfl | hlt
    · exact ⟨_, [], .nil (Nat.le_refl _), .inl rfl⟩
    obtain ⟨c, r, hs⟩ := List.exists_cons_of_ne_nil
      (mt List.drop_eq_nil_iff.1 (by omega : ¬ text.length ≤ start))
    have hc : c ∈ text[start]? := by simp [← List.head?_drop, hs]
    cases hskip : isSkipped c with
    | true =>
      obtain ⟨stop, tokens, hcovers, hstop⟩ := ih (text.length - (start + 1)) (by omega) hlt rfl
      exact ⟨stop, tokens, hcovers.skip hc hskip, hstop⟩
    | false =>
      cases hl : Lexeme.first? (text.drop start) with
      | none =>
        exact ⟨start, [], .nil h, .inr ⟨c, hc, hskip, Lexeme.first?_eq_none_iff.1 hl⟩⟩
      | some l =>
        have hpicked := Lexeme.first?_eq_some_iff.1 hl
        have hpos := hpicked.length_pos
        have hle := hpicked.length_le
        rw [List.length_drop] at hle
        have hnext : start + l.source.length ≤ text.length := by omega
        obtain ⟨stop, tokens, hcovers, hstop⟩ :=
          ih (text.length - (start + l.source.length)) (by omega) hnext rfl
        exact ⟨stop, l.token start :: tokens, hcovers.cons hpicked, hstop⟩

/-- The tokens of a text are the ones that cover it. -/
theorem scan_eq_ok_iff : scan 0 text = .ok tokens ↔ Covers text 0 text.length tokens := by
  constructor
  · intro h
    obtain ⟨stop, covered, hcovers, rfl | ⟨c, hc⟩⟩ := exists_covers (Nat.zero_le text.length)
    · have hscan := hcovers.scan_eq
      simp only [List.drop_zero, List.drop_length, scan, h, Except.map, List.append_nil,
        Except.ok.injEq] at hscan
      exact hscan ▸ hcovers
    · have hscan := hcovers.scan_eq
      rw [hc.scan_eq, List.drop_zero, h] at hscan
      cases hscan
  · intro h
    have hscan := h.scan_eq
    simpa [scan, Except.map] using hscan

/-- A text is refused at the first character that no rule reads. -/
theorem scan_eq_error_iff {e : LexicalError} :
    scan 0 text = .error e ↔ ∃ pos c tokens, e = .unrecognized c pos ∧
      Covers text 0 pos tokens ∧ Unreadable text pos c := by
  constructor
  · intro h
    obtain ⟨stop, covered, hcovers, rfl | ⟨c, hc⟩⟩ := exists_covers (Nat.zero_le text.length)
    · rw [scan_eq_ok_iff.2 hcovers] at h
      cases h
    · have hscan := hcovers.scan_eq
      rw [hc.scan_eq, List.drop_zero, h] at hscan
      cases hscan
      exact ⟨stop, c, covered, rfl, hcovers, hc⟩
  · rintro ⟨pos, c, tokens, rfl, hcovers, hc⟩
    have hscan := hcovers.scan_eq
    rwa [hc.scan_eq, List.drop_zero] at hscan

end Extent

/-! ### The outcomes of the lexer -/

section Outcome

variable {text : String} {tokens : List (Token Kind)}

theorem covers_iff : Covers text.toList 0 text.length tokens ↔ scan 0 text.toList = .ok tokens := by
  rw [scan_eq_ok_iff, String.length_toList]

theorem unreadable_iff {c : Char} {pos : Nat} :
    (∃ tokens, Covers text.toList 0 pos tokens ∧ Unreadable text.toList pos c) ↔
      scan 0 text.toList = .error (.unrecognized c pos) := by
  rw [scan_eq_error_iff]
  constructor
  · rintro ⟨tokens, h⟩
    exact ⟨pos, c, tokens, rfl, h⟩
  · rintro ⟨_, _, tokens, ⟨⟩, h⟩
    exact ⟨tokens, h⟩

/-- Terminators are counted after the whole text is read. -/
theorem tokenize_of_scan_eq_ok (h : scan 0 text.toList = .ok tokens) :
    tokenize text =
      match tokens.filter (·.kind = .terminator) with
      | [] => .error (.noTerminator text.length)
      | [_] => .ok (tokens ++ [endToken text])
      | _ :: t :: _ => .error (.secondTerminator t.pos) := by
  rw [tokenize, statementTokens, h, ok_bind]
  cases tokens.filter (·.kind = .terminator) with
  | nil => rfl
  | cons t later => cases later <;> rfl

theorem tokenize_of_scan_eq_error {e : LexicalError} (h : scan 0 text.toList = .error e) :
    tokenize text = .error e := by
  rw [tokenize, statementTokens, h]
  rfl

/-- A text is read if tokens cover all of it and exactly one of them is a terminator. It is refused
at an unreadable character, if tokens cover what is in front of it; else for its terminators, at the
end of the text if there is none and at the second one if there are more. -/
theorem tokenize_covers (text : String) :
    (∀ all, tokenize text = .ok all ↔
      ∃ tokens, Covers text.toList 0 text.length tokens ∧
        (tokens.filter (·.kind = .terminator)).length = 1 ∧
        all = tokens ++ [⟨.endOfText, "", text.length⟩]) ∧
    (∀ c pos, tokenize text = .error (.unrecognized c pos) ↔
      ∃ tokens, Covers text.toList 0 pos tokens ∧ Unreadable text.toList pos c) ∧
    (∀ pos, tokenize text = .error (.noTerminator pos) ↔
      ∃ tokens, Covers text.toList 0 text.length tokens ∧
        tokens.filter (·.kind = .terminator) = [] ∧ pos = text.length) ∧
    (∀ pos, tokenize text = .error (.secondTerminator pos) ↔
      ∃ tokens, Covers text.toList 0 text.length tokens ∧
        ∃ first second later, tokens.filter (·.kind = .terminator) = first :: second :: later ∧
          pos = second.pos) := by
  simp only [covers_iff, unreadable_iff]
  cases hscan : scan 0 text.toList with
  | error e =>
    obtain ⟨pos, c, tokens, rfl, -⟩ := scan_eq_error_iff.1 hscan
    simp [tokenize_of_scan_eq_error hscan]
  | ok tokens =>
    simp only [tokenize_of_scan_eq_ok hscan, Except.ok.injEq, exists_eq_left']
    generalize tokens.filter (·.kind = .terminator) = terminators
    rcases terminators with _ | ⟨t, _ | ⟨u, later⟩⟩
    · simpa using fun _ => eq_comm
    · simpa [endToken] using fun _ => eq_comm
    · simpa using fun _ => eq_comm

end Outcome

end Tabula
